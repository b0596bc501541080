import Mathlib.Data.Fintype.Sum
import Translib.TcpServerDispatcher
import Translib.TransitionMachine
import Translib.WaitsFor

/-! The locks of the dispatchers of a server and of their sessions. A frame keeps the mutex of
its dispatcher while it calls `onNewSession`, and libevent keeps the lock of a bufferevent while
it calls a session back; what the user calls there takes another lock. -/

namespace Translib
namespace DispatcherLocks

open TransitionMachine WaitsFor

variable {n m : ℕ}

/-- The mutex of a dispatcher, and the lock of the bufferevent of a session of it. Both are
recursive. -/
inductive Lock (n : ℕ)
  | mutex (d : Fin n)
  | bev (d : Fin n) (id : SessionId)
  deriving DecidableEq, Repr

def Lock.home : Lock n → Fin n
  | .mutex d => d
  | .bev d _ => d

/-- The calls that take one lock and give it back: those of a dispatcher, those of the socket
of a session, and the destructor of a session. -/
inductive Call (n : ℕ)
  | getSession (d : Fin n) (id : SessionId)
  | addSession (d : Fin n) (id : SessionId) (sock : SocketFd)
  | removeSession (d : Fin n) (id : SessionId)
  | socket (d : Fin n) (id : SessionId)
  | freeSession (d : Fin n) (id : SessionId)
  deriving DecidableEq, Repr

def Call.lock : Call n → Lock n
  | .getSession d _ => .mutex d
  | .addSession d _ _ => .mutex d
  | .removeSession d _ => .mutex d
  | .socket d id => .bev d id
  | .freeSession d id => .bev d id

/-- What the thread of a dispatcher executes: the event loop, `onFrame` before its lock, in its
loop and in `onNewSession`, and a callback of a session before its lock, behind it, and after
the `removeSession` of `handleEvent`. -/
inductive Base
  | eventLoop
  | frame | actions | newSession (session : TcpSession)
  | called (id : SessionId) (event : Bool) | callback (id : SessionId) (event : Bool)
  | leaves (id : SessionId)
  deriving DecidableEq, Repr

abbrev Thread (n m : ℕ) := Fin n ⊕ Fin m

/-- `live` are the sessions whose bufferevent is enabled, `call` the call a thread is in and
whether it has got its lock. -/
structure System (n m : ℕ) where
  dispatcher : Fin n → TcpServerDispatcher
  live : Fin n → List SessionId
  base : Fin n → Base
  call : Thread n m → Option (Call n × Bool)

/-- What comes of a statement: the calls of libevent in an attach, and whether the map had the
last pointer to the session it erases. -/
structure Outcome where
  socketNew : Bool
  enable : Bool
  last : Bool
  deriving DecidableEq, Repr

inductive Step (n m : ℕ)
  | call (t : Thread n m) (c : Call n)
  | tick (d : Fin n)
  | event (d : Fin n) (id : SessionId) (event : Bool)
  | go (t : Thread n m) (o : Outcome)
  deriving DecidableEq, Repr

namespace System

def create : System n m := ⟨fun _ => .create,fun _ => [],fun _ => .eventLoop,fun _ => none⟩

def setDispatcher (d : Fin n) (dispatcher : TcpServerDispatcher) (s : System n m) : System n m :=
  { s with dispatcher := Function.update s.dispatcher d dispatcher }

def setLive (d : Fin n) (live : List SessionId) (s : System n m) : System n m :=
  { s with live := Function.update s.live d live }

def setBase (d : Fin n) (base : Base) (s : System n m) : System n m :=
  { s with base := Function.update s.base d base }

def setCall (t : Thread n m) (call : Option (Call n × Bool)) (s : System n m) : System n m :=
  { s with call := Function.update s.call t call }

@[simp] theorem setDispatcher_self (d : Fin n) (dispatcher : TcpServerDispatcher) (s : System n m) :
    (s.setDispatcher d dispatcher).dispatcher d = dispatcher := Function.update_self ..

theorem setDispatcher_of_ne {d d' : Fin n} (h : d' ≠ d) (dispatcher : TcpServerDispatcher)
    (s : System n m) : (s.setDispatcher d dispatcher).dispatcher d' = s.dispatcher d' :=
  Function.update_of_ne h ..

@[simp] theorem setBase_self (d : Fin n) (base : Base) (s : System n m) :
    (s.setBase d base).base d = base := Function.update_self ..

theorem setBase_of_ne {d d' : Fin n} (h : d' ≠ d) (base : Base) (s : System n m) :
    (s.setBase d base).base d' = s.base d' := Function.update_of_ne h ..

@[simp] theorem setCall_self (t : Thread n m) (call : Option (Call n × Bool)) (s : System n m) :
    (s.setCall t call).call t = call := Function.update_self ..

@[simp] theorem setBase_setBase (d : Fin n) (base base' : Base) (s : System n m) :
    (s.setBase d base).setBase d base' = s.setBase d base' := by
  simp [setBase]

@[simp] theorem setCall_setCall (t : Thread n m) (call call' : Option (Call n × Bool))
    (s : System n m) : (s.setCall t call).setCall t call' = s.setCall t call' := by
  simp [setCall]

theorem setBase_same {d : Fin n} {base : Base} {s : System n m} (h : s.base d = base) :
    s.setBase d base = s := by
  rw [setBase,← h,Function.update_eq_self]

theorem setCall_none {t : Thread n m} {s : System n m} (h : s.call t = none) :
    s.setCall t none = s := by
  rw [setCall,← h,Function.update_eq_self]

theorem setCall_of_ne {t t' : Thread n m} (h : t' ≠ t) (call : Option (Call n × Bool))
    (s : System n m) : (s.setCall t call).call t' = s.call t' := Function.update_of_ne h ..

end System

def baseLock (d : Fin n) : Base → Option (Lock n)
  | .actions => some (.mutex d)
  | .newSession _ => some (.mutex d)
  | .callback id _ => some (.bev d id)
  | .leaves id => some (.bev d id)
  | _ => none

def held (s : System n m) : Thread n m → List (Lock n)
  | .inl d => (baseLock d (s.base d)).toList ++ callLocks (s.call (.inl d))
  | .inr k => callLocks (s.call (.inr k))
where
  callLocks : Option (Call n × Bool) → List (Lock n)
    | some (c,true) => [c.lock]
    | _ => []

def Free (s : System n m) (t : Thread n m) (l : Lock n) : Prop := ∀ u, u ≠ t → l ∉ held s u

instance (s : System n m) (t : Thread n m) (l : Lock n) : Decidable (Free s t l) :=
  inferInstanceAs (Decidable (∀ u, u ≠ t → l ∉ held s u))

def perform (c : Call n) (s : System n m) : System n m :=
  match c with
  | .getSession _ _ => s
  | .addSession d id sock => s.setDispatcher d ((s.dispatcher d).addSession id sock)
  | .removeSession d id => s.setDispatcher d ((s.dispatcher d).removeSession id)
  | .socket _ _ => s
  | .freeSession d id => s.setLive d ((s.live d).filter (· ≠ id))

/-- The front of the queue of actions. An attach that succeeds calls `onNewSession`. -/
def front (d : Fin n) (o : Outcome) (action : SessionAction) (rest : List SessionAction)
    (s : System n m) : System n m :=
  if action.sock ≠ socketFdInvalid then
    let session := TcpSession.create.attach ⟨o.socketNew,o.enable,[]⟩ d action.id action.sock
    if session.1 then (s.setLive d (action.id :: s.live d)).setBase d (.newSession session.2)
    else s.setDispatcher d { s.dispatcher d with actions := rest }
  else
    let erased := s.setDispatcher d
      ⟨Function.update (s.dispatcher d).sessions action.id none,rest⟩
    if ((s.dispatcher d).getSession action.id).isSome ∧ o.last = true then
      erased.setCall (.inl d) (some (.freeSession d action.id,false))
    else erased

/-- The next statement of the thread of a dispatcher outside the user's code, or the return from
it. -/
def goBase (d : Fin n) (o : Outcome) (s : System n m) : System n m :=
  match s.base d with
  | .eventLoop => s
  | .frame => if Free s (.inl d) (.mutex d) then s.setBase d .actions else s
  | .actions =>
    match (s.dispatcher d).actions with
    | [] => s.setBase d .eventLoop
    | action::rest => front d o action rest s
  | .newSession session =>
    (s.setDispatcher d ⟨Function.update (s.dispatcher d).sessions session.id (some session),
      (s.dispatcher d).actions.tail⟩).setBase d .actions
  | .called id event =>
    if Free s (.inl d) (.bev d id) then
      let s := if event then s.setLive d ((s.live d).filter (· ≠ id)) else s
      s.setBase d (.callback id event)
    else s
  | .callback id event =>
    if event then (s.setBase d (.leaves id)).setCall (.inl d) (some (.removeSession d id,false))
    else s.setBase d .eventLoop
  | .leaves _ => s.setBase d .eventLoop

/-- The next statement of a thread. It stays where it is while another one has the lock it
needs. -/
def go (s : System n m) (t : Thread n m) (o : Outcome) : System n m :=
  match s.call t with
  | some (c,false) => if Free s t c.lock then s.setCall t (some (c,true)) else s
  | some (c,true) => (perform c s).setCall t none
  | none =>
    match t with
    | .inl d => goBase d o s
    | .inr _ => s

def Base.isUser : Base → Bool
  | .eventLoop => true
  | .newSession _ => true
  | .callback _ _ => true
  | _ => false

def UserCode (s : System n m) (t : Thread n m) : Prop :=
  s.call t = none ∧ ∀ d, t = .inl d → (s.base d).isUser = true

instance (s : System n m) (t : Thread n m) : Decidable (UserCode s t) :=
  inferInstanceAs (Decidable (_ ∧ ∀ d, t = .inl d → _))

def callable (s : System n m) : Call n → Bool
  | .freeSession d id => ((s.dispatcher d).getSession id).isNone
  | _ => true

def step (s : System n m) : Step n m → System n m
  | .call t c => if UserCode s t ∧ callable s c = true then s.setCall t (some (c,false)) else s
  | .tick d =>
    if s.base d = .eventLoop ∧ s.call (.inl d) = none ∧ (s.dispatcher d).actions ≠ [] then
      s.setBase d .frame
    else s
  | .event d id event =>
    if s.base d = .eventLoop ∧ s.call (.inl d) = none ∧ id ∈ s.live d then
      s.setBase d (.called id event)
    else s
  | .go t o => go s t o

/-- What a callback under a lock calls belongs to its own dispatcher, or to one that the callbacks
of this dispatcher use. -/
def Respects (uses : Fin n → Fin n → Prop) (s : System n m) : Step n m → Prop
  | .call (.inl d) c => (baseLock d (s.base d)).isSome → c.lock.home = d ∨ uses d c.lock.home
  | _ => True

/-- Callbacks of one dispatcher use another one. -/
def Crosses (uses : Fin n → Fin n → Prop) (d d' : Fin n) : Prop := d ≠ d' ∧ uses d d'

/-- A thread is in no call, and in no callback. -/
def Idle (s : System n m) (t : Thread n m) : Prop :=
  s.call t = none ∧ ∀ d, t = .inl d → s.base d = .eventLoop

def baseWants (d : Fin n) : Base → Option (Lock n)
  | .frame => some (.mutex d)
  | .called id _ => some (.bev d id)
  | _ => none

def wants (s : System n m) (t : Thread n m) : Option (Lock n) :=
  match s.call t with
  | some (c,false) => some c.lock
  | some (_,true) => none
  | none =>
    match t with
    | .inl d => baseWants d (s.base d)
    | .inr _ => none

def Blocked (s : System n m) (t : Thread n m) : Prop := ∃ l, wants s t = some l ∧ ¬ Free s t l

/-- What is left to do in a call: one that pushes an action leaves it to a frame. -/
def callWork : Option (Call n × Bool) → ℕ
  | none => 0
  | some (c,locked) => pushes c + if locked then 1 else 2
where
  pushes : Call n → ℕ
    | .addSession _ _ _ => 4
    | .removeSession _ _ => 4
    | _ => 0

def Base.work : Base → ℕ
  | .eventLoop => 0
  | .frame => 4
  | .actions => 3
  | .newSession _ => 2
  | .called _ _ => 9
  | .callback _ _ => 8
  | .leaves _ => 1

def work (s : System n m) : ℕ :=
  ∑ d, (s.base d).work + ∑ t, callWork (s.call t) + 4 * ∑ d, (s.dispatcher d).actions.length

/-- What holds in every state: what is called under a lock respects `uses`, and the action whose
session is new is still in the queue. -/
structure Sound (uses : Fin n → Fin n → Prop) (s : System n m) : Prop where
  called : ∀ d c locked, s.call (.inl d) = some (c,locked) → (baseLock d (s.base d)).isSome →
    c.lock.home = d ∨ uses d c.lock.home
  front : ∀ d session, s.base d = .newSession session → (s.dispatcher d).actions ≠ []

theorem work_setBase (s : System n m) (d : Fin n) (base : Base) :
    work (s.setBase d base) + (s.base d).work = work s + base.work := by
  have hsum := sum_update Base.work s.base d base
  simp only [work,System.setBase]
  omega

theorem work_setCall (s : System n m) (t : Thread n m) (call : Option (Call n × Bool)) :
    work (s.setCall t call) + callWork (s.call t) = work s + callWork call := by
  have hsum := sum_update callWork s.call t call
  simp only [work,System.setCall]
  omega

theorem work_setDispatcher (s : System n m) (d : Fin n) (dispatcher : TcpServerDispatcher) :
    work (s.setDispatcher d dispatcher) + 4 * (s.dispatcher d).actions.length =
      work s + 4 * dispatcher.actions.length := by
  have hsum := sum_update (fun x : TcpServerDispatcher => x.actions.length) s.dispatcher d
    dispatcher
  simp only [work,System.setDispatcher]
  omega

@[simp] theorem work_setLive (s : System n m) (d : Fin n) (live : List SessionId) :
    work (s.setLive d live) = work s := rfl

theorem perform_work (c : Call n) (s : System n m) :
    work (perform c s) = work s + callWork.pushes c := by
  cases c with
  | addSession d id sock =>
    have h := work_setDispatcher s d ((s.dispatcher d).addSession id sock)
    simp only [TcpServerDispatcher.addSession,List.length_append,List.length_singleton] at h
    simp only [perform,callWork.pushes,TcpServerDispatcher.addSession]
    omega
  | removeSession d id =>
    have h := work_setDispatcher s d ((s.dispatcher d).removeSession id)
    simp only [TcpServerDispatcher.removeSession,List.length_append,List.length_singleton] at h
    simp only [perform,callWork.pushes,TcpServerDispatcher.removeSession]
    omega
  | _ => rfl

@[simp] theorem perform_call (c : Call n) (s : System n m) : (perform c s).call = s.call := by
  cases c <;> rfl

inductive GoEffect (s : System n m) (t : Thread n m) : System n m → Prop
  | stays (h : Idle s t ∨ Blocked s t) : GoEffect s t s
  | locks (c : Call n) (hcall : s.call t = some (c,false)) :
      GoEffect s t (s.setCall t (some (c,true)))
  | performs (c : Call n) (hcall : s.call t = some (c,true)) :
      GoEffect s t ((perform c s).setCall t none)
  | moves (d : Fin n) (ht : t = .inl d) (hcall : s.call t = none) (live : List SessionId)
      (base : Base) (hless : base.work < (s.base d).work)
      (hqueue : ∀ session, base = .newSession session → (s.dispatcher d).actions ≠ []) :
      GoEffect s t ((s.setLive d live).setBase d base)
  | pops (d : Fin n) (ht : t = .inl d) (hcall : s.call t = none) (dispatcher : TcpServerDispatcher)
      (hpop : dispatcher.actions = (s.dispatcher d).actions.tail) (hbase : 2 ≤ (s.base d).work)
      (hqueue : (s.dispatcher d).actions ≠ [] ∨ ∃ session, s.base d = .newSession session) :
      GoEffect s t ((s.setDispatcher d dispatcher).setBase d .actions)
  | erases (d : Fin n) (ht : t = .inl d) (hcall : s.call t = none)
      (dispatcher : TcpServerDispatcher)
      (hpop : dispatcher.actions = (s.dispatcher d).actions.tail) (hbase : 2 ≤ (s.base d).work)
      (hqueue : (s.dispatcher d).actions ≠ []) (id : SessionId) :
      GoEffect s t (((s.setDispatcher d dispatcher).setBase d .actions).setCall t
        (some (.freeSession d id,false)))
  | removes (d : Fin n) (ht : t = .inl d) (hcall : s.call t = none) (id : SessionId)
      (hbase : s.base d = .callback id true) :
      GoEffect s t ((s.setBase d (.leaves id)).setCall t (some (.removeSession d id,false)))

theorem front_effect {s : System n m} {d : Fin n} (hcall : s.call (.inl d) = none)
    (hbase : s.base d = .actions) (o : Outcome) {action : SessionAction} {rest : List SessionAction}
    (hqueue : (s.dispatcher d).actions = action::rest) :
    GoEffect s (.inl d) (front d o action rest s) := by
  have hne : (s.dispatcher d).actions ≠ [] := by simp [hqueue]
  have htail : rest = (s.dispatcher d).actions.tail := by rw [hqueue,List.tail_cons]
  have hsame (dispatcher : TcpServerDispatcher) :
      (s.setDispatcher d dispatcher).setBase d .actions = s.setDispatcher d dispatcher :=
    System.setBase_same hbase
  unfold front
  simp only
  split_ifs
  · exact .moves d rfl hcall _ _ (by simp [hbase,Base.work]) fun _ _ => hne
  · rw [← hsame]
    exact .pops d rfl hcall _ htail (by simp [hbase,Base.work]) (.inl hne)
  · rw [← hsame]
    exact .erases d rfl hcall _ htail (by simp [hbase,Base.work]) hne action.id
  · rw [← hsame]
    exact .pops d rfl hcall _ htail (by simp [hbase,Base.work]) (.inl hne)

theorem goBase_effect {s : System n m} {d : Fin n} (hcall : s.call (.inl d) = none) (o : Outcome) :
    GoEffect s (.inl d) (goBase d o s) := by
  have hblocked {l : Lock n} (hl : baseWants d (s.base d) = some l) (hfree : ¬ Free s (.inl d) l) :
      GoEffect s (.inl d) s := .stays (.inr ⟨l,by simpa [wants,hcall] using hl,hfree⟩)
  have hmoves (base : Base) (hless : base.work < (s.base d).work)
      (hold : ∀ session, base ≠ .newSession session) : GoEffect s (.inl d) (s.setBase d base) := by
    have hlive : s.setLive d (s.live d) = s := by simp [System.setLive]
    have heffect := GoEffect.moves d rfl hcall (s.live d) base hless
      fun session hs => absurd hs (hold session)
    rwa [hlive] at heffect
  unfold goBase
  cases hbase : s.base d with
  | eventLoop => exact .stays (.inl ⟨hcall,fun d' hd => by cases hd; exact hbase⟩)
  | frame =>
    simp only
    split_ifs with hfree
    · exact hmoves _ (by simp [hbase,Base.work]) nofun
    · exact hblocked (by rw [hbase]; rfl) hfree
  | actions =>
    simp only
    cases hqueue : (s.dispatcher d).actions with
    | nil => exact hmoves _ (by simp [hbase,Base.work]) nofun
    | cons action rest => exact front_effect hcall hbase o hqueue
  | newSession session =>
    exact .pops d rfl hcall _ rfl (by simp [hbase,Base.work]) (.inr ⟨session,hbase⟩)
  | called id event =>
    simp only
    split_ifs with hfree
    · exact .moves d rfl hcall _ _ (by simp [hbase,Base.work]) nofun
    · exact hmoves _ (by simp [hbase,Base.work]) nofun
    · exact hblocked (by rw [hbase]; rfl) hfree
  | callback id event =>
    simp only
    split_ifs with hevent
    · subst hevent
      exact .removes d rfl hcall id hbase
    · exact hmoves _ (by simp [hbase,Base.work]) nofun
  | leaves id => exact hmoves _ (by simp [hbase,Base.work]) nofun

theorem go_effect (s : System n m) (t : Thread n m) (o : Outcome) : GoEffect s t (go s t o) := by
  unfold go
  rcases hcall : s.call t with _ | ⟨c,_ | _⟩
  · cases t with
    | inl d => exact goBase_effect hcall o
    | inr k => exact .stays (.inl ⟨hcall,nofun⟩)
  · simp only
    split_ifs with hfree
    · exact .locks c hcall
    · exact .stays (.inr ⟨c.lock,by simp [wants,hcall],hfree⟩)
  · exact .performs c hcall

theorem go_less {uses : Fin n → Fin n → Prop} {s : System n m} (h : Sound uses s) {t : Thread n m}
    (hbusy : ¬ Idle s t) (hgoes : ¬ Blocked s t) (o : Outcome) : work (go s t o) < work s := by
  have hpopped {d : Fin n} {dispatcher : TcpServerDispatcher} (hbase : 2 ≤ (s.base d).work)
      (hpop : dispatcher.actions = (s.dispatcher d).actions.tail)
      (hqueue : (s.dispatcher d).actions ≠ []) :
      work ((s.setDispatcher d dispatcher).setBase d .actions) + 3 ≤ work s := by
    have hset := work_setDispatcher s d dispatcher
    have hmove := work_setBase (s.setDispatcher d dispatcher) d .actions
    have hlength := List.length_pos_iff.mpr hqueue
    rw [hpop,List.length_tail] at hset
    rw [show (s.setDispatcher d dispatcher).base = s.base from rfl] at hmove
    simp only [Base.work] at hmove hbase ⊢
    omega
  have heffect := go_effect s t o
  generalize go s t o = s' at heffect ⊢
  cases heffect with
  | stays hstays => exact absurd hstays (not_or.mpr ⟨hbusy,hgoes⟩)
  | locks c hcall =>
    have hset := work_setCall s t (some (c,true))
    simp only [hcall,callWork,Bool.false_eq_true,if_false,if_true] at hset
    omega
  | performs c hcall =>
    have hset := work_setCall (perform c s) t none
    have hperform := perform_work c s
    simp only [perform_call,hcall,callWork,if_true] at hset
    omega
  | moves d ht hcall live base hless hqueue =>
    have hset := work_setBase (s.setLive d live) d base
    rw [work_setLive,show (s.setLive d live).base = s.base from rfl] at hset
    omega
  | pops d ht hcall dispatcher hpop hbase hqueue =>
    have hne := hqueue.elim id fun ⟨session,hs⟩ => h.front d session hs
    have hless := hpopped hbase hpop hne
    omega
  | erases d ht hcall dispatcher hpop hbase hqueue id =>
    have hless := hpopped hbase hpop hqueue
    have hset := work_setCall ((s.setDispatcher d dispatcher).setBase d .actions) t
      (some (.freeSession d id,false))
    rw [show ((s.setDispatcher d dispatcher).setBase d .actions).call = s.call from rfl,
      hcall] at hset
    simp only [callWork,callWork.pushes,Bool.false_eq_true,if_false] at hset
    omega
  | removes d ht hcall id hbase =>
    have hmove := work_setBase s d (.leaves id)
    have hset := work_setCall (s.setBase d (.leaves id)) t (some (.removeSession d id,false))
    rw [show (s.setBase d (.leaves id)).call = s.call from rfl,hcall] at hset
    simp only [hbase,Base.work] at hmove
    simp only [callWork,callWork.pushes,Bool.false_eq_true,if_false] at hset
    omega

theorem go_same {s : System n m} {t : Thread n m} (h : Idle s t ∨ Blocked s t) (o : Outcome) :
    go s t o = s := by
  rcases h with ⟨hcall,hbase⟩ | ⟨l,hwants,hfree⟩
  · cases t with
    | inl d => simp [go,goBase,hcall,hbase d rfl]
    | inr k => simp [go,hcall]
  · unfold go
    rcases hcall : s.call t with _ | ⟨c,_ | _⟩
    · cases t with
      | inr k => simp [wants,hcall] at hwants
      | inl d =>
        simp only [wants,hcall] at hwants
        cases hbase : s.base d with
        | frame =>
          rw [hbase,baseWants,Option.some.injEq] at hwants
          rw [← hwants] at hfree
          simp [goBase,hbase,hfree]
        | called id event =>
          rw [hbase,baseWants,Option.some.injEq] at hwants
          rw [← hwants] at hfree
          simp [goBase,hbase,hfree]
        | _ => simp [hbase,baseWants] at hwants
    · simp only [wants,hcall,Option.some.injEq] at hwants
      rw [← hwants] at hfree
      simp [hfree]
    · simp [wants,hcall] at hwants

/-- A pass of the loop in which nothing else is called does what `frontAction` does. -/
theorem pass_frontAction {s : System n m} {d : Fin n} (hcall : s.call (.inl d) = none)
    (hbase : s.base d = .actions) {action : SessionAction} {rest : List SessionAction}
    (hqueue : (s.dispatcher d).actions = action::rest) {o : Outcome} (hlast : o.last = false) :
    ∃ k, (exec step s (List.replicate k (.go (.inl d) o))).base d = .actions ∧
      (exec step s (List.replicate k (.go (.inl d) o))).dispatcher d =
        (s.dispatcher d).frontAction d ⟨o.socketNew,o.enable,[]⟩ action := by
  have hgo : step s (.go (.inl d) o) = front d o action rest s := by
    simp [step,go,goBase,hcall,hbase,hqueue]
  by_cases hattach : action.sock ≠ socketFdInvalid ∧
      (TcpSession.create.attach ⟨o.socketNew,o.enable,[]⟩ d action.id action.sock).1 = true
  · obtain ⟨hsock,hattach⟩ := hattach
    have hfront : front d o action rest s = (s.setLive d (action.id :: s.live d)).setBase d
        (.newSession
          (TcpSession.create.attach ⟨o.socketNew,o.enable,[]⟩ d action.id action.sock).2) := by
      simp [front,hsock,hattach]
    have hnone : (front d o action rest s).call (.inl d) = none := by rw [hfront]; exact hcall
    refine ⟨2,?_⟩
    rw [List.replicate,List.replicate,List.replicate,exec,exec,exec,hgo,step,go,hnone,hfront]
    simp only [goBase,System.setBase_self]
    refine ⟨trivial,(System.setDispatcher_self ..).trans ?_⟩
    rw [TcpServerDispatcher.frontAction,if_pos hsock,if_pos hattach,List.append_nil]
    rfl
  · have hfalse (hsock : action.sock ≠ socketFdInvalid) :
        (TcpSession.create.attach ⟨o.socketNew,o.enable,[]⟩ d action.id action.sock).1 = false := by
      simpa using fun h => hattach ⟨hsock,h⟩
    refine ⟨1,?_⟩
    rw [List.replicate,List.replicate,exec,exec,hgo]
    by_cases hsock : action.sock = socketFdInvalid
    · simp [front,hsock,hlast,TcpServerDispatcher.frontAction,hqueue,System.setDispatcher,hbase]
    · simp [front,hsock,hfalse hsock,TcpServerDispatcher.frontAction,hqueue,System.setDispatcher,
        hbase]

section Sound

variable {uses : Fin n → Fin n → Prop} {s : System n m}

theorem create_sound : Sound uses (System.create : System n m) where
  called := fun d c locked h => by cases h
  front := fun d session h => by cases h

theorem Sound.setBase (h : Sound uses s) {d : Fin n} (hcall : s.call (.inl d) = none) {base : Base}
    (hfront : ∀ session, base = .newSession session → (s.dispatcher d).actions ≠ []) :
    Sound uses (s.setBase d base) where
  called := fun d' c locked hc hlock => by
    have hne : d' ≠ d := by
      rintro rfl
      cases hcall.symm.trans hc
    rw [System.setBase_of_ne hne] at hlock
    exact h.called d' c locked hc hlock
  front := fun d' session hs => by
    by_cases hd : d' = d
    · subst hd
      rw [System.setBase_self] at hs
      exact hfront session hs
    · rw [System.setBase_of_ne hd] at hs
      exact h.front d' session hs

theorem Sound.setCall (h : Sound uses s) {t : Thread n m} {call : Option (Call n × Bool)}
    (hcall : ∀ d c locked, t = .inl d → call = some (c,locked) → (baseLock d (s.base d)).isSome →
      c.lock.home = d ∨ uses d c.lock.home) : Sound uses (s.setCall t call) where
  called := fun d c locked hc hlock => by
    by_cases ht : .inl d = t
    · subst ht
      rw [System.setCall_self] at hc
      exact hcall d c locked rfl hc hlock
    · rw [System.setCall_of_ne ht] at hc
      exact h.called d c locked hc hlock
  front := h.front

theorem Sound.setDispatcher (h : Sound uses s) {d : Fin n} {dispatcher : TcpServerDispatcher}
    (hfront : ∀ session, s.base d = .newSession session → dispatcher.actions ≠ []) :
    Sound uses (s.setDispatcher d dispatcher) where
  called := h.called
  front := fun d' session hs => by
    by_cases hd : d' = d
    · subst hd
      rw [System.setDispatcher_self]
      exact hfront session hs
    · rw [System.setDispatcher_of_ne hd]
      exact h.front d' session hs

theorem Sound.setLive (h : Sound uses s) (d : Fin n) (live : List SessionId) :
    Sound uses (s.setLive d live) := ⟨h.called,h.front⟩

theorem perform_sound (h : Sound uses s) (c : Call n) : Sound uses (perform c s) := by
  cases c with
  | addSession d id sock =>
    exact h.setDispatcher fun _ _ => by simp [TcpServerDispatcher.addSession]
  | removeSession d id =>
    exact h.setDispatcher fun _ _ => by simp [TcpServerDispatcher.removeSession]
  | freeSession d id => exact h.setLive d _
  | _ => exact h

theorem go_sound (h : Sound uses s) (t : Thread n m) (o : Outcome) : Sound uses (go s t o) := by
  have hpopped {d : Fin n} (hcall : s.call (.inl d) = none) (dispatcher : TcpServerDispatcher) :
      Sound uses ((s.setDispatcher d dispatcher).setBase d .actions) := by
    -- the new base comes first, for the queue may be empty then
    change Sound uses ((s.setBase d .actions).setDispatcher d dispatcher)
    refine (h.setBase hcall fun _ hs => by cases hs).setDispatcher fun session hs => ?_
    rw [System.setBase_self] at hs
    cases hs
  have heffect := go_effect s t o
  generalize go s t o = s' at heffect ⊢
  cases heffect with
  | stays => exact h
  | locks c hcall =>
    refine h.setCall fun d c' locked ht hc hlock => ?_
    cases ht
    cases hc
    exact h.called d c false hcall hlock
  | performs c hcall => exact (perform_sound h c).setCall nofun
  | moves d ht hcall live base hless hqueue =>
    subst ht
    exact (h.setLive d live).setBase hcall hqueue
  | pops d ht hcall dispatcher hpop hbase hqueue =>
    subst ht
    exact hpopped hcall dispatcher
  | erases d ht hcall dispatcher hpop hbase hqueue id =>
    subst ht
    refine (hpopped hcall dispatcher).setCall fun d' c locked ht hc _ => .inl ?_
    cases ht
    cases hc
    rfl
  | removes d ht hcall id hbase =>
    subst ht
    refine (h.setBase hcall fun _ hs => by cases hs).setCall fun d' c locked ht hc _ => .inl ?_
    cases ht
    cases hc
    rfl

theorem step_sound {l : Step n m} (h : Sound uses s) (hl : Respects uses s l) :
    Sound uses (step s l) := by
  cases l with
  | call t c =>
    simp only [step]
    split_ifs
    · refine h.setCall fun d c' locked ht hc hlock => ?_
      cases ht
      cases hc
      exact hl hlock
    · exact h
  | tick d =>
    simp only [step]
    split_ifs with hidle
    · exact h.setBase hidle.2.1 nofun
    · exact h
  | event d id event =>
    simp only [step]
    split_ifs with hidle
    · exact h.setBase hidle.2.1 nofun
    · exact h
  | go t o => exact go_sound h t o

theorem baseLock_home {d : Fin n} {base : Base} {l : Lock n} (h : baseLock d base = some l) :
    l.home = d := by
  cases base <;> cases h <;> rfl

theorem baseWants_none {d : Fin n} {base : Base} {l : Lock n} (h : baseLock d base = some l) :
    baseWants d base = none := by
  cases base <;> cases h <;> rfl

def Keeps (s : System n m) (d : Fin n) : Prop :=
  (baseLock d (s.base d)).isSome ∧ ∃ c, s.call (.inl d) = some (c,false)

/-- Where nobody goes on, who has a lock another thread waits for is a dispatcher's thread, and
waits itself. -/
theorem blocked_keeps (hall : ∀ t, Idle s t ∨ Blocked s t) {t : Thread n m} {l : Lock n}
    (hfree : ¬ Free s t l) : Keeps s l.home ∧ t ≠ .inl l.home := by
  rw [Free,not_forall] at hfree
  obtain ⟨u,hu⟩ := hfree
  obtain ⟨hne,hheld⟩ : u ≠ t ∧ l ∈ held s u := by simpa using hu
  have hcalls (hlock : l ∈ held.callLocks (s.call u)) : False := by
    rcases hcall : s.call u with _ | ⟨c,_ | _⟩
    · simp [hcall,held.callLocks] at hlock
    · simp [hcall,held.callLocks] at hlock
    · rcases hall u with hidle | ⟨l',hwants,_⟩
      · cases hidle.1.symm.trans hcall
      · simp [wants,hcall] at hwants
  cases u with
  | inr k => exact (hcalls hheld).elim
  | inl d =>
    rcases List.mem_append.mp hheld with hbase | hcall
    · have hlock : baseLock d (s.base d) = some l := Option.mem_toList.mp hbase
      rw [baseLock_home hlock]
      refine ⟨⟨by simp [hlock],?_⟩,hne.symm⟩
      rcases hall (.inl d) with hidle | ⟨l',hwants,_⟩
      · rw [hidle.2 d rfl] at hlock
        cases hlock
      · rcases hcall : s.call (.inl d) with _ | ⟨c,_ | _⟩
        · simp [wants,hcall,baseWants_none hlock] at hwants
        · exact ⟨c,rfl⟩
        · simp [wants,hcall] at hwants
    · exact (hcalls hcall).elim

theorem some_goes (h : Sound uses s) (hcycle : ∀ d, ¬ Relation.TransGen (Crosses uses) d d) :
    (∀ t, Idle s t) ∨ ∃ t, ∀ o, go s t o ≠ s := by
  by_contra hno
  rw [not_or,not_forall,not_exists] at hno
  obtain ⟨⟨t,hbusy⟩,hstay⟩ := hno
  have hall (t : Thread n m) : Idle s t ∨ Blocked s t := by
    by_contra hgoes
    rw [not_or] at hgoes
    refine hstay t fun o hsame => ?_
    exact absurd (go_less h hgoes.1 hgoes.2 o) (by rw [hsame]; exact lt_irrefl _)
  obtain ⟨l,-,hfree⟩ := (hall t).resolve_left hbusy
  refine not_knotted hcycle { d | Keeps s d } ⟨⟨l.home,(blocked_keeps hall hfree).1⟩,fun d hd => ?_⟩
  obtain ⟨hlock,c,hcall⟩ := hd
  obtain ⟨l',hwants,hfree'⟩ := (hall (.inl d)).resolve_left fun hidle => by
    cases hidle.1.symm.trans hcall
  obtain rfl : c.lock = l' := by simpa [wants,hcall] using hwants
  obtain ⟨hkeeps,hne⟩ := blocked_keeps hall hfree'
  have hother : d ≠ c.lock.home := fun hd => hne (by rw [← hd])
  exact ⟨c.lock.home,hkeeps,hother,(h.called d c false hcall hlock).resolve_left hother.symm⟩

theorem Sound.finishes (h : Sound uses s)
    (hcycle : ∀ d, ¬ Relation.TransGen (Crosses uses) d d) : Finishes go Idle s := by
  refine finishes_of_work work (fun s hs => some_goes hs hcycle) (fun s t o hs hmoves => ?_) h
  refine ⟨go_sound hs t o,go_less hs (fun hidle => ?_) (fun hblocked => ?_) o⟩
  · exact hmoves (go_same (.inl hidle) o)
  · exact hmoves (go_same (.inr hblocked) o)

end Sound

/-- Each of the dispatchers is in `onNewSession`, and its thread waits for the mutex of the next
one; the others do nothing. -/
structure Entangled (C : Set (Fin n)) (next : Fin n → Fin n) (s : System n m) : Prop where
  base : ∀ d ∈ C, ∃ session, s.base d = .newSession session
  waits : ∀ d ∈ C, s.call (.inl d) = some (.getSession (next d) 0,false)
  rest : ∀ t, (∀ d ∈ C, t ≠ .inl d) → Idle s t

theorem Entangled.stays {C : Set (Fin n)} {next : Fin n → Fin n} {s : System n m}
    (h : Entangled C next s) (hnext : ∀ d ∈ C, next d ∈ C ∧ d ≠ next d) (t : Thread n m)
    (o : Outcome) : go s t o = s := by
  refine go_same ?_ o
  by_cases ht : ∃ d ∈ C, t = .inl d
  · obtain ⟨d,hd,rfl⟩ := ht
    obtain ⟨hmem,hne⟩ := hnext d hd
    obtain ⟨session,hbase⟩ := h.base (next d) hmem
    have hheld : Lock.mutex (next d) ∈ held s (.inl (next d)) := by simp [held,hbase,baseLock]
    refine .inr ⟨.mutex (next d),by simp [wants,h.waits d hd,Call.lock],fun hfree => ?_⟩
    exact hfree (.inl (next d)) (fun heq => hne (Sum.inl.inj heq).symm) hheld
  · exact .inl (h.rest t fun d hd heq => ht ⟨d,hd,heq⟩)

theorem mutex_free {s : System n m} {d : Fin n} (h : ∀ u, u ≠ .inl d → s.call u = none) :
    Free s (.inl d) (.mutex d) := by
  intro u hu hheld
  cases u with
  | inr k => simp [held,h _ hu,held.callLocks] at hheld
  | inl d' =>
    rcases List.mem_append.mp hheld with hbase | hcall
    · have hd := baseLock_home (Option.mem_toList.mp hbase)
      exact hu (by rw [← hd]; rfl)
    · simp [h _ hu,held.callLocks] at hcall

/-- A connection is added, and its dispatcher comes to call `onNewSession`. -/
def enter (d : Fin n) : List (Step n m) :=
  let o : Outcome := ⟨true,true,true⟩
  [.call (.inl d) (.addSession d 0 0),.go (.inl d) o,.go (.inl d) o,.tick d,.go (.inl d) o,
    .go (.inl d) o]

theorem enter_exec {s : System n m} {d : Fin n} (hcall : ∀ t, s.call t = none)
    (hbase : s.base d = .eventLoop) (hqueue : (s.dispatcher d).actions = []) :
    exec step s (enter d) = ((s.setDispatcher d ((s.dispatcher d).addSession 0 0)).setLive d
      (0 :: s.live d)).setBase d
        (.newSession (TcpSession.create.attach ⟨true,true,[]⟩ d 0 0).2) := by
  let added := s.setDispatcher d ((s.dispatcher d).addSession 0 0)
  have hactions : (added.dispatcher d).actions = [⟨0,0⟩] := by
    simp [added,TcpServerDispatcher.addSession,hqueue]
  have hcalls : step s (.call (.inl d) (.addSession d 0 0)) =
      s.setCall (.inl d) (some (.addSession d 0 0,false)) := by
    simp [step,UserCode,callable,hcall,hbase,Base.isUser]
  have hlocks (o : Outcome) : step (s.setCall (.inl d) (some (.addSession d 0 0,false)))
      (.go (.inl d) o) = s.setCall (.inl d) (some (.addSession d 0 0,true)) := by
    have hfree : Free (s.setCall (.inl d) (some (.addSession d 0 0,false))) (.inl d) (.mutex d) :=
      mutex_free fun u hu => by rw [System.setCall_of_ne hu,hcall]
    simp [step,go,Call.lock,hfree]
  have hperforms (o : Outcome) : step (s.setCall (.inl d) (some (.addSession d 0 0,true)))
      (.go (.inl d) o) = added := by
    have hnone : added.setCall (.inl d) none = added := System.setCall_none (hcall _)
    rw [← hnone]
    simp [step,go,perform,System.setCall,System.setDispatcher,added]
  have hticks : step added (.tick d) = added.setBase d .frame := by
    have hc : added.call (.inl d) = none := hcall _
    have hb : added.base d = .eventLoop := hbase
    simp [step,hc,hb,hactions]
  have hframe (o : Outcome) : step (added.setBase d .frame) (.go (.inl d) o) =
      added.setBase d .actions := by
    have hfree : Free (added.setBase d .frame) (.inl d) (.mutex d) := mutex_free fun u _ => hcall u
    have hc : (added.setBase d .frame).call (.inl d) = none := hcall _
    simp [step,go,goBase,hc,hfree]
  have hattach : step (added.setBase d .actions) (.go (.inl d) ⟨true,true,true⟩) =
      (added.setLive d (0 :: s.live d)).setBase d
        (.newSession (TcpSession.create.attach ⟨true,true,[]⟩ d 0 0).2) := by
    have hc : (added.setBase d .actions).call (.inl d) = none := hcall _
    have hq : ((added.setBase d .actions).dispatcher d).actions = [⟨0,0⟩] := hactions
    simp only [step,go,goBase,hc,hq,front,System.setBase_self]
    exact System.setBase_setBase d .actions _ (added.setLive d (0 :: s.live d))
  simp only [enter,exec,hcalls,hlocks,hperforms,hticks,hframe,hattach]
  rfl

section Cycle

variable {uses : Fin n → Fin n → Prop}

/-- Some dispatchers are in `onNewSession`. -/
structure Entered (C : Finset (Fin n)) (s : System n m) : Prop where
  base : ∀ d ∈ C, ∃ session, s.base d = .newSession session
  rest : ∀ d ∉ C, s.base d = .eventLoop ∧ (s.dispatcher d).actions = []
  call : ∀ t, s.call t = none

theorem enters (uses : Fin n → Fin n → Prop) (C : Finset (Fin n)) :
    ∃ run, Along step (Respects uses) System.create run ∧
      Entered C (exec step System.create run : System n m) := by
  have hnone : Entered ∅ (System.create : System n m) :=
    ⟨by simp,fun _ _ => ⟨rfl,rfl⟩,fun _ => rfl⟩
  refine exists_run_insert C (fun D _ d _ hd s hs => ?_) hnone
  obtain ⟨hbase,hqueue⟩ := hs.rest d hd
  have halong : Along step (Respects uses) s (enter d) := by
    refine ⟨fun hlock => ?_,trivial,trivial,trivial,trivial,trivial,trivial⟩
    rw [hbase] at hlock
    cases hlock
  refine ⟨enter d,halong,?_⟩
  rw [enter_exec hs.call hbase hqueue]
  refine ⟨fun d' hd' => ?_,fun d' hd' => ?_,hs.call⟩
  · by_cases heq : d' = d
    · subst heq
      exact ⟨_,System.setBase_self ..⟩
    · rw [System.setBase_of_ne heq]
      exact hs.base d' ((Finset.mem_insert.mp hd').resolve_left heq)
  · rw [Finset.mem_insert,not_or] at hd'
    obtain ⟨hb,hq⟩ := hs.rest d' hd'.2
    refine ⟨(System.setBase_of_ne hd'.1 ..).trans hb,?_⟩
    change ((s.setDispatcher d _).dispatcher d').actions = []
    rw [System.setDispatcher_of_ne hd'.1,hq]

structure Calling (next : Fin n → Fin n) (base : Fin n → Base) (C : Finset (Fin n))
    (s : System n m) : Prop where
  base : s.base = base
  waits : ∀ d ∈ C, s.call (.inl d) = some (.getSession (next d) 0,false)
  rest : ∀ t, (∀ d ∈ C, t ≠ .inl d) → s.call t = none

theorem entangles {C : Finset (Fin n)} {next : Fin n → Fin n} (huses : ∀ d ∈ C, uses d (next d))
    {s : System n m} (h : Entered C s) :
    ∃ run, Along step (Respects uses) s run ∧ Calling next s.base C (exec step s run) := by
  have hnone : Calling next s.base ∅ s := ⟨rfl,by simp,fun t _ => h.call t⟩
  refine exists_run_insert C (fun D _ d hd hnew s' hs => ?_) hnone
  obtain ⟨session,hsession⟩ := h.base d hd
  have hnone := hs.rest (.inl d) fun d' hd' heq => hnew (Sum.inl.inj heq ▸ hd')
  have hstep : step s' (.call (.inl d) (.getSession (next d) 0)) =
      s'.setCall (.inl d) (some (.getSession (next d) 0,false)) := by
    simp [step,UserCode,callable,hnone,hs.base,hsession,Base.isUser]
  refine ⟨[.call (.inl d) (.getSession (next d) 0)],⟨fun _ => .inr (huses d hd),trivial⟩,?_⟩
  rw [exec,exec,hstep]
  refine ⟨hs.base,fun d' hd' => ?_,fun t ht => ?_⟩
  · by_cases heq : d' = d
    · subst heq
      exact System.setCall_self ..
    · rw [System.setCall_of_ne fun h => heq (Sum.inl.inj h)]
      exact hs.waits d' ((Finset.mem_insert.mp hd').resolve_left heq)
  · rw [System.setCall_of_ne (ht d (Finset.mem_insert_self d D))]
    exact hs.rest t fun d' hd' => ht d' (Finset.mem_insert_of_mem hd')

end Cycle

/-- A server with any number of dispatchers and other threads, whose callbacks under a lock of
their own dispatcher use other dispatchers as `uses` tells. From every state of every run all
threads come back from what they are in, however they are scheduled and whatever comes of their
calls, once nobody makes another one, if and only if no cycle of different dispatchers use each
other. -/
theorem finishes_iff_acyclic (uses : Fin n → Fin n → Prop) :
    (∀ run, Along step (Respects uses) (System.create : System n m) run →
      Finishes go Idle (exec step System.create run)) ↔
        ∀ d, ¬ Relation.TransGen (Crosses uses) d d := by
  constructor
  · intro hall d hcycle
    obtain ⟨D,-,next,⟨d',hd'⟩,hround,hcross⟩ := (knotted_of_cycle hcycle).exists_round
    obtain ⟨D,rfl⟩ := (Set.toFinite D).exists_finset_coe
    obtain ⟨run,hrun,hentered⟩ := enters (m := m) uses D
    obtain ⟨run',hrun',hcalling⟩ := entangles (fun i hi => (hcross i hi).2) hentered
    let s : System n m := exec step System.create (run ++ run')
    have hs : s = exec step (exec step System.create run) run' := exec_append ..
    have hentangled : Entangled D next s := by
      rw [hs]
      refine ⟨fun i hi => ?_,hcalling.waits,fun t ht => ⟨hcalling.rest t ht,fun i hi => ?_⟩⟩
      · rw [hcalling.base]
        exact hentered.base i hi
      · rw [hcalling.base]
        exact (hentered.rest i fun hi' => ht i hi' hi).1
    have houtcome : Nonempty Outcome := ⟨⟨true,true,true⟩⟩
    have hbusy : ¬ Idle s (.inl d') := fun hidle => by
      cases hidle.1.symm.trans (hentangled.waits d' hd')
    refine not_finishes (fun t o => hentangled.stays (fun i hi => ?_) t o) hbusy (hall _ ?_)
    · exact ⟨hround.mapsTo hi,(hcross i hi).1⟩
    · exact (along_append _ _ _ _ _).mpr ⟨hrun,hrun'⟩
  · intro hcycle run halong
    exact (exec_invariant (fun s l hs hl => step_sound hs hl) create_sound halong).finishes hcycle

end DispatcherLocks
end Translib
