import Mathlib.Data.Fintype.Sum
import Mathlib.Data.Prod.Lex
import Translib.TimerIds
import Translib.WaitsFor

/-! The mutexes of timer managers. `killTimer` and `auditTimer` keep the one of their manager while
the timers they erase free their events, and libevent frees an event whose callback runs on another
thread when the callback has returned. -/

namespace Translib
namespace ManagerLocks

open TransitionMachine WaitsFor
open TimerIds (Manager TimerRef)

variable {n k m : ℕ}

/-- Libevent calls back for an event that is pending. -/
def fire (timer : Timer Unit) : Option (Timer Unit) :=
  match timer.event with
  | none => none
  | some event =>
    if event.pending then
      some { timer with event := some { event with pending := event.persist } }
    else none

def count (timer : Timer Unit) : Timer Unit :=
  { timer with curRound := uint64 (timer.curRound+1) }

/-- `event_del` of the event, which is not freed yet. -/
def deleteEvent (timer : Timer Unit) : Timer Unit :=
  { timer with event := timer.event.map fun event => { event with pending := false } }

/-- An expiration is these statements one after another. -/
theorem expire_eq (timer : Timer Unit) :
    timer.expire = (fire timer).map fun timer => (timer.handler,
      if (count timer).isFinished then (deleteEvent (count timer)).reset else count timer) := by
  cases hevent : timer.event with
  | none => simp [Timer.expire,fire,hevent]
  | some event =>
    simp only [Timer.expire,fire,hevent]
    split_ifs with hpending
    · simp [Timer.eventHandler,count,deleteEvent,Timer.isFinished,Timer.reset]
    · rfl

/-- An audit erases these entries, one after another. -/
theorem auditTimer_eq (manager : Manager Unit) :
    (manager.t_map.entries.filter fun i => (manager.timers i.2).isFinished).foldl
      (fun manager i => (manager.killTimer i.1).2) manager = manager.auditTimer.2 := by
  have hkills (entries : List (ℤ × TimerRef)) (m : Manager Unit) :
      entries.foldl (fun m i => (m.killTimer i.1).2) m =
        { m with t_map := (entries.map Prod.fst).foldl (fun t tid => t.erase tid) m.t_map } := by
    induction entries generalizing m with
    | nil => rfl
    | cons i entries ih =>
      rw [List.foldl_cons,ih]
      rfl
  rw [hkills,KeyTable.foldl_erase_filter]
  rfl

/-- `last` are timers that the map has the only pointers to. The destructor of a timer that is not
in the map resets it like `stop`. -/
inductive Call (n : ℕ)
  | getTimer (j : Fin n)
  | killTimer (j : Fin n) (tid : ℤ) (last : List TimerRef)
  | auditTimer (j : Fin n) (last : List TimerRef)
  | timer (j : Fin n) (r : TimerRef) (c : Timer.Call Unit)
  deriving DecidableEq, Repr

def Call.manager : Call n → Fin n
  | .getTimer j => j
  | .killTimer j _ _ => j
  | .auditTimer j _ => j
  | .timer j _ _ => j

def Call.lock : Call n → Option (Fin n)
  | .timer _ _ _ => none
  | c => some c.manager

def Call.last : Call n → List TimerRef
  | .killTimer _ _ last => last
  | .auditTimer _ last => last
  | _ => []

/-- Where a call is: before its mutex, before an entry of the map, before `event_free`, or in it
until the callback has returned. `todo` are the entries still to be looked at. -/
inductive Phase
  | calls
  | erases (todo : List (ℤ × TimerRef))
  | frees (r : TimerRef) (todo : List (ℤ × TimerRef))
  | waits (r : TimerRef) (todo : List (ℤ × TimerRef))
  | woken (r : TimerRef) (todo : List (ℤ × TimerRef))
  deriving DecidableEq, Repr

/-- The next statement of `eventHandler`: `_curRound++`, the test, `event_del`, `reset`, and what
the handler calls. -/
inductive Stage
  | counts
  | tests
  | deletes
  | resets
  | handles
  deriving DecidableEq, Repr

/-- What the thread of a loop executes: the event loop, the callback of a timer, and the handler of
an audit timer. `event` is the timer whose event is the one that libevent calls back for. -/
inductive Base (n : ℕ)
  | eventLoop
  | callback (j : Fin n) (r : TimerRef) (stage : Stage) (event : Option (Fin n × TimerRef))
  | audit
  deriving DecidableEq, Repr

namespace Base

def event : Base n → Option (Fin n × TimerRef)
  | .callback _ _ _ event => event
  | _ => none

def withEvent (event : Option (Fin n × TimerRef)) : Base n → Base n
  | .callback j r stage _ => .callback j r stage event
  | base => base

def isCallback : Base n → Bool
  | .callback .. => true
  | _ => false

def isUser : Base n → Bool
  | .eventLoop => true
  | .callback _ _ .handles _ => true
  | _ => false

@[simp] theorem isCallback_withEvent (event : Option (Fin n × TimerRef)) (base : Base n) :
    (base.withEvent event).isCallback = base.isCallback := by
  cases base <;> rfl

theorem isCallback_of_event {base : Base n} {e : Fin n × TimerRef} (h : base.event = some e) :
    base.isCallback = true := by
  cases base <;> first | rfl | cases h

end Base

abbrev Thread (k m : ℕ) := Fin k ⊕ Fin m

/-- `dead` are the timers that are destroyed. -/
structure System (n k m : ℕ) where
  manager : Fin n → Manager Unit
  dead : Fin n → List TimerRef
  base : Fin k → Base n
  call : Thread k m → Option (Call n × Phase)

/-- What libevent returns, and whether the event it makes is where the one was that it calls back
for. -/
structure Outcome where
  lib : Libevent
  reused : Bool
  deriving DecidableEq, Repr

/-- The handler of an audit timer audits a manager: its own one, or `instance()`. -/
inductive Step (n k m : ℕ)
  | call (t : Thread k m) (c : Call n)
  | tick (j : Fin n) (r : TimerRef)
  | audit (l : Fin k) (j : Fin n) (last : List TimerRef)
  | go (t : Thread k m) (o : Outcome)
  deriving DecidableEq, Repr

namespace System

def create : System n k m := ⟨fun _ => .create,fun _ => [],fun _ => .eventLoop,fun _ => none⟩

def setManager (j : Fin n) (manager : Manager Unit) (s : System n k m) : System n k m :=
  { s with manager := Function.update s.manager j manager }

def atTimer (j : Fin n) (r : TimerRef) (f : Timer Unit → Timer Unit) (s : System n k m) :
    System n k m :=
  s.setManager j ((s.manager j).atTimer r f)

def setBase (l : Fin k) (base : Base n) (s : System n k m) : System n k m :=
  { s with base := Function.update s.base l base }

def setCall (t : Thread k m) (call : Option (Call n × Phase)) (s : System n k m) :
    System n k m :=
  { s with call := Function.update s.call t call }

@[simp] theorem setManager_self (j : Fin n) (manager : Manager Unit) (s : System n k m) :
    (s.setManager j manager).manager j = manager := Function.update_self ..

theorem setManager_of_ne {j j' : Fin n} (h : j' ≠ j) (manager : Manager Unit) (s : System n k m) :
    (s.setManager j manager).manager j' = s.manager j' := Function.update_of_ne h ..

@[simp] theorem setManager_setManager (j : Fin n) (manager manager' : Manager Unit)
    (s : System n k m) :
    (s.setManager j manager).setManager j manager' = s.setManager j manager' := by
  simp [setManager]

@[simp] theorem setBase_self (l : Fin k) (base : Base n) (s : System n k m) :
    (s.setBase l base).base l = base := Function.update_self ..

theorem setBase_of_ne {l l' : Fin k} (h : l' ≠ l) (base : Base n) (s : System n k m) :
    (s.setBase l base).base l' = s.base l' := Function.update_of_ne h ..

@[simp] theorem setBase_setBase (l : Fin k) (base base' : Base n) (s : System n k m) :
    (s.setBase l base).setBase l base' = s.setBase l base' := by
  simp [setBase]

@[simp] theorem setCall_self (t : Thread k m) (call : Option (Call n × Phase))
    (s : System n k m) : (s.setCall t call).call t = call := Function.update_self ..

theorem setCall_of_ne {t t' : Thread k m} (h : t' ≠ t) (call : Option (Call n × Phase))
    (s : System n k m) : (s.setCall t call).call t' = s.call t' := Function.update_of_ne h ..

@[simp] theorem setCall_setCall (t : Thread k m) (call call' : Option (Call n × Phase))
    (s : System n k m) : (s.setCall t call).setCall t call' = s.setCall t call' := by
  simp [setCall]

theorem setCall_none {t : Thread k m} {s : System n k m} (h : s.call t = none) :
    s.setCall t none = s := by
  rw [setCall,← h,Function.update_eq_self]

end System

def held (s : System n k m) (t : Thread k m) : Option (Fin n) :=
  match s.call t with
  | none => none
  | some (_,.calls) => none
  | some (c,_) => c.lock

def Free (s : System n k m) (t : Thread k m) (c : Call n) : Prop :=
  c.lock = none ∨ ∀ u, u ≠ t → held s u ≠ c.lock

instance (s : System n k m) (t : Thread k m) (c : Call n) : Decidable (Free s t c) :=
  inferInstanceAs (Decidable (_ ∨ ∀ u, u ≠ t → held s u ≠ c.lock))

/-- What a call does first. `stop` frees an event and nothing else. -/
def begun (s : System n k m) : Call n → Phase
  | .killTimer j tid _ => .erases ((s.manager j).t_map.entries.filter fun i => i.1 = tid)
  | .auditTimer j _ => .erases (s.manager j).t_map.entries
  | .timer _ r .stop => .frees r []
  | _ => .erases []

def Erases (s : System n k m) (i : ℤ × TimerRef) : Call n → Prop
  | .auditTimer j _ => ((s.manager j).timers i.2).isFinished = true
  | _ => True

instance (s : System n k m) (i : ℤ × TimerRef) (c : Call n) : Decidable (Erases s i c) := by
  unfold Erases
  cases c <;> infer_instance

def eraseEntry (s : System n k m) (c : Call n) (i : ℤ × TimerRef) : System n k m :=
  let s := s.setManager c.manager ((s.manager c.manager).killTimer i.1).2
  if i.2 ∈ c.last then
    { s with dead := Function.update s.dead c.manager (i.2 :: s.dead c.manager) }
  else s

def erased (c : Call n) (i : ℤ × TimerRef) (todo : List (ℤ × TimerRef)) : Phase :=
  if i.2 ∈ c.last then .frees i.2 todo else .erases todo

section Home

-- the loop the timers of a manager are on
variable (home : Fin n → Fin k)

/-- The event to be freed has its callback running on another thread. -/
def Awaits (s : System n k m) (t : Thread k m) (j : Fin n) (r : TimerRef) : Prop :=
  t ≠ .inl (home j) ∧ (s.base (home j)).event = some (j,r)

instance (s : System n k m) (t : Thread k m) (j : Fin n) (r : TimerRef) :
    Decidable (Awaits home s t j r) :=
  inferInstanceAs (Decidable (_ ∧ _))

/-- `reset`, when libevent lets the event go. -/
def freeEvent (j : Fin n) (r : TimerRef) (s : System n k m) : System n k m :=
  let s := s.atTimer j r Timer.reset
  if (s.base (home j)).event = some (j,r) then
    s.setBase (home j) ((s.base (home j)).withEvent none)
  else s

/-- The event that is made may have the address of the one that was freed in its callback. -/
def startTimer (o : Outcome) (j : Fin n) (r : TimerRef) (c : Timer.Call Unit) (s : System n k m) :
    System n k m :=
  let started := (((s.manager j).timers r).callIn o.lib c).1
  let s := s.atTimer j r fun timer => (timer.callIn o.lib c).2
  if started = some true ∧ o.reused = true ∧ (s.base (home j)).event = none then
    s.setBase (home j) ((s.base (home j)).withEvent (some (j,r)))
  else s

def perform (o : Outcome) (c : Call n) (s : System n k m) : System n k m :=
  match c with
  | .getTimer j => s.setManager j (s.manager j).getTimer.2
  | .timer _ _ .stop => s
  | .timer j r c => startTimer home o j r c s
  | _ => s

/-- Who has waited for the end of a callback on the loop goes on. -/
def wake (l : Fin k) (s : System n k m) : System n k m :=
  { s with call := fun t =>
      match s.call t with
      | some (c,.waits r todo) =>
        some (c,if home c.manager = l then .woken r todo else .waits r todo)
      | call => call }

/-- The next statement of the thread of a loop that is in no call. -/
def goBase (s : System n k m) (l : Fin k) : System n k m :=
  match s.base l with
  | .eventLoop => s
  | .callback j r .counts event =>
    (s.atTimer j r count).setBase l (.callback j r .tests event)
  | .callback j r .tests event =>
    if ((s.manager j).timers r).isFinished then s.setBase l (.callback j r .deletes event)
    else s.setBase l (.callback j r .handles event)
  | .callback j r .deletes event =>
    (s.atTimer j r deleteEvent).setBase l (.callback j r .resets event)
  | .callback j r .resets _ =>
    let s := freeEvent home j r s
    s.setBase l (.callback j r .handles (s.base l).event)
  | _ => (wake home l s).setBase l .eventLoop

/-- The next statement of a thread. It stays where it is while another one has the mutex it needs,
or executes the callback whose event it frees. -/
def go (s : System n k m) (t : Thread k m) (o : Outcome) : System n k m :=
  match s.call t with
  | some (c,.calls) =>
    if Free s t c then (perform home o c s).setCall t (some (c,begun s c)) else s
  | some (_,.erases []) => s.setCall t none
  | some (c,.erases (i::todo)) =>
    if Erases s i c then (eraseEntry s c i).setCall t (some (c,erased c i todo))
    else s.setCall t (some (c,.erases todo))
  | some (c,.frees r todo) =>
    if Awaits home s t c.manager r then s.setCall t (some (c,.waits r todo))
    else (freeEvent home c.manager r s).setCall t (some (c,.erases todo))
  | some (_,.waits _ _) => s
  | some (c,.woken r todo) =>
    (freeEvent home c.manager r s).setCall t (some (c,.erases todo))
  | none =>
    match t with
    | .inl l => goBase home s l
    | .inr _ => s

/-- A thread executes code of the user's, who has no pointer to a timer that is destroyed. -/
def Callable (s : System n k m) (t : Thread k m) (c : Call n) : Prop :=
  s.call t = none ∧ (∀ l, t = .inl l → (s.base l).isUser = true) ∧
    match c with
    | .timer j r _ => r < (s.manager j).created ∧ r ∉ s.dead j
    | _ => True

instance (s : System n k m) (t : Thread k m) (c : Call n) : Decidable (Callable s t c) := by
  unfold Callable
  cases c <;> infer_instance

def step (s : System n k m) : Step n k m → System n k m
  | .call t c => if Callable s t c then s.setCall t (some (c,.calls)) else s
  | .tick j r =>
    if s.base (home j) = .eventLoop ∧ s.call (.inl (home j)) = none then
      match fire ((s.manager j).timers r) with
      | none => s
      | some timer =>
        (s.atTimer j r fun _ => timer).setBase (home j) (.callback j r .counts (some (j,r)))
    else s
  | .audit l j last =>
    if s.base l = .eventLoop ∧ s.call (.inl l) = none then
      (s.setBase l .audit).setCall (.inl l) (some (.auditTimer j last,.calls))
    else s
  | .go t o => go home s t o

/-- What a handler calls belongs to a manager that the handlers on its loop use, or starts or stops
a timer of its own loop. -/
def Respects (uses : Fin k → Fin n → Prop) (s : System n k m) : Step n k m → Prop
  | .call (.inl l) c =>
    s.base l ≠ .eventLoop → uses l c.manager ∨ c.lock = none ∧ home c.manager = l
  | _ => True

/-- Handlers on one loop use a manager whose timers are on the other one. -/
def Reaches (uses : Fin k → Fin n → Prop) (l l' : Fin k) : Prop := ∃ j, uses l j ∧ home j = l'

end Home

/-- A thread is in no call, and in no handler. -/
def Idle (s : System n k m) (t : Thread k m) : Prop :=
  s.call t = none ∧ ∀ l, t = .inl l → s.base l = .eventLoop

/-- A thread has nothing to do, waits for a mutex, or for the end of a callback. -/
def Stays (s : System n k m) (t : Thread k m) : Prop :=
  Idle s t ∨ (∃ c, s.call t = some (c,.calls) ∧ ¬ Free s t c) ∨
    ∃ c r todo, s.call t = some (c,.waits r todo)

/-- The statements that are left. How long the map will be is not known before the mutex is had. -/
def Phase.work : Phase → ℕ
  | .calls => 0
  | .erases todo => 4*todo.length+1
  | .frees _ todo => 4*todo.length+4
  | .waits _ todo => 4*todo.length+3
  | .woken _ todo => 4*todo.length+2

def Stage.work : Stage → ℕ
  | .counts => 4
  | .tests => 3
  | .deletes => 2
  | .resets => 1
  | .handles => 0

def Base.work : Base n → ℕ
  | .eventLoop => 0
  | .callback _ _ stage _ => stage.work+1
  | .audit => 1

def callWork : Option (Call n × Phase) → ℕ
  | none => 0
  | some (_,phase) => phase.work

def calling : Option (Call n × Phase) → ℕ
  | some (_,.calls) => 1
  | _ => 0

def callsLeft (s : System n k m) : ℕ := ∑ t, calling (s.call t)

def statementsLeft (s : System n k m) : ℕ := ∑ l, (s.base l).work + ∑ t, callWork (s.call t)

/-- The calls that have not begun, and then the statements of the others. -/
def work (s : System n k m) : ℕ ×ₗ ℕ := toLex (callsLeft s,statementsLeft s)

theorem statementsLeft_setBase (s : System n k m) (l : Fin k) (base : Base n) :
    statementsLeft (s.setBase l base) + (s.base l).work = statementsLeft s + base.work := by
  have hsum := sum_update Base.work s.base l base
  simp only [statementsLeft,System.setBase]
  omega

theorem callsLeft_setCall (s : System n k m) (t : Thread k m) (call : Option (Call n × Phase)) :
    callsLeft (s.setCall t call) + calling (s.call t) = callsLeft s + calling call :=
  sum_update calling s.call t call

theorem statementsLeft_setCall (s : System n k m) (t : Thread k m)
    (call : Option (Call n × Phase)) :
    statementsLeft (s.setCall t call) + callWork (s.call t) = statementsLeft s + callWork call := by
  have hsum := sum_update callWork s.call t call
  simp only [statementsLeft,System.setCall]
  omega

/-- No thread gets anywhere, but an event may have been freed or made in its own callback. -/
structure Kept (s s' : System n k m) : Prop where
  call : s'.call = s.call
  base : ∀ l, ∃ event, s'.base l = (s.base l).withEvent event

theorem Kept.of_base {s s' : System n k m} (hcall : s'.call = s.call) (hbase : s'.base = s.base) :
    Kept s s' := by
  refine ⟨hcall,fun l => ⟨(s.base l).event,?_⟩⟩
  rw [hbase]
  cases s.base l <;> rfl

theorem Kept.setEvent {s s' : System n k m} (h : Kept s s') (l : Fin k)
    (event : Option (Fin n × TimerRef)) :
    Kept s (s'.setBase l ((s'.base l).withEvent event)) := by
  refine ⟨h.call,fun l' => ?_⟩
  by_cases hl : l' = l
  · subst hl
    obtain ⟨event',hevent⟩ := h.base l'
    refine ⟨event,?_⟩
    rw [System.setBase_self,hevent]
    cases s.base l' <;> rfl
  · rw [System.setBase_of_ne hl]
    exact h.base l'

theorem Kept.isCallback {s s' : System n k m} (h : Kept s s') (l : Fin k) :
    (s'.base l).isCallback = (s.base l).isCallback := by
  obtain ⟨event,hevent⟩ := h.base l
  rw [hevent,Base.isCallback_withEvent]

theorem Kept.baseWork {s s' : System n k m} (h : Kept s s') (l : Fin k) :
    (s'.base l).work = (s.base l).work := by
  obtain ⟨event,hevent⟩ := h.base l
  rw [hevent]
  cases s.base l <;> rfl

theorem Kept.callsLeft {s s' : System n k m} (h : Kept s s') : callsLeft s' = callsLeft s := by
  rw [ManagerLocks.callsLeft,h.call,ManagerLocks.callsLeft]

theorem Kept.statementsLeft {s s' : System n k m} (h : Kept s s') :
    statementsLeft s' = statementsLeft s := by
  simp only [ManagerLocks.statementsLeft,h.call,h.baseWork]

section Runs

variable {home : Fin n → Fin k} {uses : Fin k → Fin n → Prop} {s : System n k m}

theorem freeEvent_kept (home : Fin n → Fin k) (j : Fin n) (r : TimerRef) (s : System n k m) :
    Kept s (freeEvent home j r s) := by
  have hreset : Kept s (s.atTimer j r Timer.reset) := .of_base rfl rfl
  unfold freeEvent
  simp only
  split_ifs
  · exact hreset.setEvent _ _
  · exact hreset

theorem perform_kept (home : Fin n → Fin k) (o : Outcome) (c : Call n) (s : System n k m) :
    Kept s (perform home o c s) := by
  have hstart (j : Fin n) (r : TimerRef) (c : Timer.Call Unit) :
      Kept s (startTimer home o j r c s) := by
    have hcall : Kept s (s.atTimer j r fun timer => (timer.callIn o.lib c).2) := .of_base rfl rfl
    unfold startTimer
    simp only
    split_ifs
    · exact hcall.setEvent _ _
    · exact hcall
  cases c with
  | timer j r c =>
    cases c with
    | stop => exact .of_base rfl rfl
    | _ => exact hstart j r _
  | _ => exact .of_base rfl rfl

theorem eraseEntry_kept (s : System n k m) (c : Call n) (i : ℤ × TimerRef) :
    Kept s (eraseEntry s c i) := by
  unfold eraseEntry
  simp only
  split_ifs <;> exact .of_base rfl rfl

inductive GoEffect (home : Fin n → Fin k) (s : System n k m) (t : Thread k m) :
    System n k m → Prop
  | stays (h : Stays s t) : GoEffect home s t s
  | begins (c : Call n) (s' : System n k m) (hcall : s.call t = some (c,.calls))
      (hkept : Kept s s') : GoEffect home s t (s'.setCall t (some (c,begun s c)))
  | goes (c : Call n) (phase phase' : Phase) (s' : System n k m)
      (hcall : s.call t = some (c,phase)) (hbegun : phase ≠ .calls) (hbegun' : phase' ≠ .calls)
      (hless : phase'.work < phase.work)
      (hwaits : ∀ r todo, phase' = .waits r todo → Awaits home s t c.manager r)
      (hkept : Kept s s') : GoEffect home s t (s'.setCall t (some (c,phase')))
  | ends (c : Call n) (hcall : s.call t = some (c,.erases [])) :
      GoEffect home s t (s.setCall t none)
  | runs (l : Fin k) (base : Base n) (s' : System n k m) (ht : t = .inl l)
      (hcall : s.call t = none) (hbase : base.isCallback = true)
      (hless : base.work < (s.base l).work) (hkept : Kept s s') :
      GoEffect home s t (s'.setBase l base)
  | returns (l : Fin k) (ht : t = .inl l) (hcall : s.call t = none)
      (hbase : s.base l ≠ .eventLoop) :
      GoEffect home s t ((wake home l s).setBase l .eventLoop)

theorem goBase_effect (home : Fin n → Fin k) {s : System n k m} {l : Fin k}
    (hcall : s.call (.inl l) = none) : GoEffect home s (.inl l) (goBase home s l) := by
  have hruns {j : Fin n} {r : TimerRef} {stage stage' : Stage}
      {event event' : Option (Fin n × TimerRef)} {s' : System n k m}
      (hbase : s.base l = .callback j r stage event) (hless : stage'.work < stage.work)
      (hkept : Kept s s') :
      GoEffect home s (.inl l) (s'.setBase l (.callback j r stage' event')) :=
    .runs l _ s' rfl hcall rfl (by rw [hbase]; exact Nat.succ_lt_succ hless) hkept
  unfold goBase
  split
  next hbase => exact .stays (.inl ⟨hcall,fun l' hl => by cases hl; exact hbase⟩)
  next hbase => exact hruns hbase (by decide) (.of_base rfl rfl)
  next hbase =>
    split_ifs
    · exact hruns hbase (by decide) (.of_base rfl rfl)
    · exact hruns hbase (by decide) (.of_base rfl rfl)
  next hbase => exact hruns hbase (by decide) (.of_base rfl rfl)
  next j r _ hbase => exact hruns hbase (by decide) (freeEvent_kept home j r s)
  next hbase _ _ _ _ => exact .returns l rfl hcall hbase

theorem go_effect (home : Fin n → Fin k) (s : System n k m) (t : Thread k m) (o : Outcome) :
    GoEffect home s t (go home s t o) := by
  unfold go
  split
  next c hcall =>
    split_ifs with hfree
    · exact .begins c _ hcall (perform_kept home o c s)
    · exact .stays (.inr (.inl ⟨c,hcall,hfree⟩))
  next c hcall => exact .ends c hcall
  next c i todo hcall =>
    split_ifs with herases
    · have hkept := eraseEntry_kept s c i
      unfold erased
      split_ifs
      · exact .goes c _ _ _ hcall nofun nofun (by simp [Phase.work]; omega) nofun hkept
      · exact .goes c _ _ _ hcall nofun nofun (by simp [Phase.work]) nofun hkept
    · exact .goes c _ _ _ hcall nofun nofun (by simp [Phase.work]) nofun (.of_base rfl rfl)
  next c r todo hcall =>
    split_ifs with hawaits
    · refine .goes c _ _ _ hcall nofun nofun (by simp [Phase.work]) ?_ (.of_base rfl rfl)
      rintro _ _ ⟨⟩
      exact hawaits
    · exact .goes c _ _ _ hcall nofun nofun (by simp [Phase.work]) nofun (freeEvent_kept home _ _ s)
  next c r todo hcall => exact .stays (.inr (.inr ⟨c,r,todo,hcall⟩))
  next c r todo hcall =>
    exact .goes c _ _ _ hcall nofun nofun (by simp [Phase.work]) nofun (freeEvent_kept home _ _ s)
  next hcall =>
    split
    · exact goBase_effect home hcall
    · exact .stays (.inl ⟨hcall,fun _ hl => absurd hl Sum.inr_ne_inl⟩)

theorem go_same {t : Thread k m} (h : Stays s t) (o : Outcome) : go home s t o = s := by
  rcases h with ⟨hcall,hbase⟩ | ⟨c,hcall,hfree⟩ | ⟨c,r,todo,hcall⟩
  · cases t with
    | inl l => simp [go,goBase,hcall,hbase l rfl]
    | inr i => simp [go,hcall]
  · simp [go,hcall,hfree]
  · simp [go,hcall]

theorem calling_begun (s : System n k m) (c : Call n) : calling (some (c,begun s c)) = 0 := by
  cases c with
  | timer j r c => cases c <;> rfl
  | _ => rfl

theorem calling_phase {phase : Phase} (h : phase ≠ .calls) (c : Call n) :
    calling (some (c,phase)) = 0 := by
  cases phase <;> first | rfl | exact absurd rfl h

theorem callsLeft_wake (home : Fin n → Fin k) (l : Fin k) (s : System n k m) :
    callsLeft (wake home l s) = callsLeft s := by
  refine Finset.sum_congr rfl fun t _ => ?_
  simp only [wake]
  split
  next hcall =>
    rw [hcall]
    split_ifs <;> rfl
  next => rfl

theorem statementsLeft_wake (home : Fin n → Fin k) (l : Fin k) (s : System n k m) :
    statementsLeft (wake home l s) ≤ statementsLeft s := by
  refine Nat.add_le_add_left (Finset.sum_le_sum fun t _ => ?_) _
  simp only [wake]
  split
  next hcall =>
    rw [hcall]
    split_ifs <;> simp [callWork,Phase.work]
  next => exact le_rfl

theorem go_less {t : Thread k m} (hgoes : ¬ Stays s t) (o : Outcome) :
    work (go home s t o) < work s := by
  rw [work,work,Prod.Lex.toLex_lt_toLex]
  have heffect := go_effect home s t o
  generalize go home s t o = s' at heffect ⊢
  cases heffect with
  | stays h => exact absurd h hgoes
  | begins c s' hcall hkept =>
    have hset := callsLeft_setCall s' t (some (c,begun s c))
    rw [hkept.call,hcall,hkept.callsLeft,calling_begun] at hset
    exact .inl (by simp only [calling] at hset; omega)
  | goes c phase phase' s' hcall hbegun hbegun' hless hwaits hkept =>
    have hcalls := callsLeft_setCall s' t (some (c,phase'))
    rw [hkept.call,hcall,hkept.callsLeft,calling_phase hbegun,calling_phase hbegun'] at hcalls
    have hset := statementsLeft_setCall s' t (some (c,phase'))
    rw [hkept.call,hcall,hkept.statementsLeft] at hset
    exact .inr ⟨hcalls,by simp only [callWork] at hset; omega⟩
  | ends c hcall =>
    have hcalls := callsLeft_setCall s t none
    have hset := statementsLeft_setCall s t none
    rw [hcall] at hcalls hset
    exact .inr ⟨hcalls,by simp only [callWork,Phase.work] at hset; omega⟩
  | runs l base s' ht hcall hbase hless hkept =>
    have hset := statementsLeft_setBase s' l base
    rw [hkept.baseWork,hkept.statementsLeft] at hset
    exact .inr ⟨hkept.callsLeft,show statementsLeft (s'.setBase l base) < _ by omega⟩
  | returns l ht hcall hbase =>
    have hset := statementsLeft_setBase (wake home l s) l .eventLoop
    have hwake := statementsLeft_wake home l s
    have hpos : 0 < (s.base l).work := by
      cases h : s.base l with
      | eventLoop => exact absurd h hbase
      | _ => exact Nat.succ_pos _
    have hzero : (Base.eventLoop : Base n).work = 0 := rfl
    have hsame : (wake home l s).base l = s.base l := rfl
    rw [hsame,hzero] at hset
    exact .inr ⟨callsLeft_wake home l s,by simp only; omega⟩

/-- What a handler has called respects `uses`, and who waits for the end of a callback waits for one
of another thread that has not ended. -/
structure Sound (home : Fin n → Fin k) (uses : Fin k → Fin n → Prop) (s : System n k m) :
    Prop where
  calls : ∀ l c phase, s.call (.inl l) = some (c,phase) → (s.base l).isCallback = true →
    uses l c.manager ∨ c.lock = none ∧ home c.manager = l
  waits : ∀ t c r todo, s.call t = some (c,.waits r todo) →
    t ≠ .inl (home c.manager) ∧ (s.base (home c.manager)).isCallback = true

theorem create_sound : Sound home uses (System.create : System n k m) :=
  ⟨nofun,nofun⟩

theorem Sound.kept (h : Sound home uses s) {s' : System n k m} (hkept : Kept s s') :
    Sound home uses s' := by
  refine ⟨fun l c phase hc hl => ?_,fun t c r todo hc => ?_⟩
  · rw [hkept.call] at hc
    rw [hkept.isCallback] at hl
    exact h.calls l c phase hc hl
  · rw [hkept.call] at hc
    rw [hkept.isCallback]
    exact h.waits t c r todo hc

theorem Sound.setCall (h : Sound home uses s) {t : Thread k m} {call : Option (Call n × Phase)}
    (hcalls : ∀ l c phase, t = .inl l → call = some (c,phase) → (s.base l).isCallback = true →
      uses l c.manager ∨ c.lock = none ∧ home c.manager = l)
    (hwaits : ∀ c r todo, call = some (c,.waits r todo) →
      t ≠ .inl (home c.manager) ∧ (s.base (home c.manager)).isCallback = true) :
    Sound home uses (s.setCall t call) := by
  refine ⟨fun l c phase hc hl => ?_,fun t' c r todo hc => ?_⟩
  · by_cases ht : .inl l = t
    · subst ht
      rw [System.setCall_self] at hc
      exact hcalls l c phase rfl hc hl
    · rw [System.setCall_of_ne ht] at hc
      exact h.calls l c phase hc hl
  · by_cases ht : t' = t
    · subst ht
      rw [System.setCall_self] at hc
      exact hwaits c r todo hc
    · rw [System.setCall_of_ne ht] at hc
      exact h.waits t' c r todo hc

theorem Sound.setBase (h : Sound home uses s) {l : Fin k} {base : Base n}
    (hcall : s.call (.inl l) = none)
    (hwaits : base.isCallback = true ∨
      ∀ t c r todo, s.call t = some (c,.waits r todo) → home c.manager ≠ l) :
    Sound home uses (s.setBase l base) := by
  refine ⟨fun l' c phase hc hl => ?_,fun t c r todo hc => ?_⟩
  · have hne : l' ≠ l := by
      rintro rfl
      cases hcall.symm.trans hc
    rw [System.setBase_of_ne hne] at hl
    exact h.calls l' c phase hc hl
  · obtain ⟨hother,hcallback⟩ := h.waits t c r todo hc
    refine ⟨hother,?_⟩
    by_cases hl : home c.manager = l
    · rw [hl,System.setBase_self]
      exact hwaits.resolve_right fun hno => hno t c r todo hc hl
    · rwa [System.setBase_of_ne hl]

theorem wake_waits {l : Fin k} {t : Thread k m} {c : Call n} {r : TimerRef}
    {todo : List (ℤ × TimerRef)} (h : (wake home l s).call t = some (c,.waits r todo)) :
    s.call t = some (c,.waits r todo) ∧ home c.manager ≠ l := by
  simp only [wake] at h
  split at h
  next c' r' todo' hcall =>
    split_ifs at h with hl
    · cases h
    · cases h
      exact ⟨hcall,hl⟩
  next hno => exact absurd h (hno c r todo)

theorem Sound.wake (h : Sound home uses s) (l : Fin k) : Sound home uses (wake home l s) := by
  refine ⟨fun l' c phase hc hl => ?_,fun t c r todo hc => h.waits t c r todo (wake_waits hc).1⟩
  simp only [ManagerLocks.wake] at hc
  split at hc
  next hcall =>
    cases hc
    exact h.calls l' c _ hcall hl
  next => exact h.calls l' c phase hc hl

theorem go_sound (h : Sound home uses s) (t : Thread k m) (o : Outcome) :
    Sound home uses (go home s t o) := by
  have heffect := go_effect home s t o
  generalize go home s t o = s' at heffect ⊢
  have hcalls {c : Call n} {phase phase' : Phase} (hcall : s.call t = some (c,phase)) (l : Fin k)
      (c' : Call n) (phase'' : Phase) (ht : t = .inl l)
      (hc : some (c,phase') = some (c',phase'')) (hl : (s.base l).isCallback = true) :
      uses l c'.manager ∨ c'.lock = none ∧ home c'.manager = l := by
    cases hc
    exact h.calls l c phase (ht ▸ hcall) hl
  cases heffect with
  | stays => exact h
  | begins c s' hcall hkept =>
    refine (h.kept hkept).setCall (fun l c' phase ht hc hl => ?_) fun c' r todo hc => ?_
    · exact hcalls hcall l c' phase ht hc (hkept.isCallback l ▸ hl)
    · have hbegun : begun s c ≠ .waits r todo := by
        cases c with
        | timer j r c => cases c <;> nofun
        | _ => nofun
      exact absurd (congrArg Prod.snd (Option.some.inj hc)) hbegun
  | goes c phase phase' s' hcall hbegun hbegun' hless hwaits hkept =>
    refine (h.kept hkept).setCall (fun l c' phase ht hc hl => ?_) fun c' r todo hc => ?_
    · exact hcalls hcall l c' phase ht hc (hkept.isCallback l ▸ hl)
    · obtain ⟨rfl,rfl⟩ := Prod.mk.inj (Option.some.inj hc)
      obtain ⟨hother,hevent⟩ := hwaits r todo rfl
      exact ⟨hother,(hkept.isCallback _).trans (Base.isCallback_of_event hevent)⟩
  | ends c hcall => exact h.setCall nofun nofun
  | runs l base s' ht hcall hbase hless hkept =>
    subst ht
    exact (h.kept hkept).setBase (by rw [hkept.call,hcall]) (.inl hbase)
  | returns l ht hcall hbase =>
    subst ht
    refine (h.wake l).setBase (by simp [ManagerLocks.wake,hcall]) (.inr fun t c r todo hc => ?_)
    exact (wake_waits hc).2

theorem step_sound {x : Step n k m} (h : Sound home uses s) (hx : Respects home uses s x) :
    Sound home uses (step home s x) := by
  have hquiet {l : Fin k} (hbase : s.base l = .eventLoop) (t : Thread k m) (c : Call n)
      (r : TimerRef) (todo : List (ℤ × TimerRef)) (hc : s.call t = some (c,.waits r todo)) :
      home c.manager ≠ l := by
    rintro rfl
    have hcallback := (h.waits t c r todo hc).2
    rw [hbase] at hcallback
    cases hcallback
  cases x with
  | call t c =>
    simp only [step]
    split_ifs
    · refine h.setCall (fun l c' phase ht hc hl => ?_) nofun
      cases hc
      subst ht
      exact hx fun hbase => by rw [hbase] at hl; cases hl
    · exact h
  | tick j r =>
    simp only [step]
    split_ifs with hidle
    · split
      · exact h
      · next timer hfire =>
        have htimer : Sound home uses (s.atTimer j r fun _ => timer) := h.kept (.of_base rfl rfl)
        exact htimer.setBase hidle.2 (.inl rfl)
    · exact h
  | audit l j last =>
    simp only [step]
    split_ifs with hidle
    · have haudit : Sound home uses (s.setBase l .audit) :=
        h.setBase hidle.2 (.inr (hquiet hidle.1))
      refine haudit.setCall (fun l' c phase ht hc hl => ?_) nofun
      cases ht
      rw [System.setBase_self] at hl
      cases hl
    · exact h
  | go t o => exact go_sound h t o

theorem manager_of_lock {c : Call n} {j : Fin n} (h : c.lock = some j) : c.manager = j := by
  cases c <;> cases h <;> rfl

theorem lock_of_held {t : Thread k m} {j : Fin n} (h : held s t = some j) :
    ∃ c phase, s.call t = some (c,phase) ∧ phase ≠ .calls ∧ c.manager = j := by
  unfold held at h
  split at h
  · cases h
  · cases h
  next c phase hbegun hcall =>
    exact ⟨c,phase,hcall,hbegun,manager_of_lock h⟩

/-- Where nobody goes on, a thread that has something to do is kept from it by a callback on the
loop of the manager it calls. -/
theorem kept_by_handler (h : Sound home uses s) (hall : ∀ t, Stays s t) {t : Thread k m}
    (hbusy : ¬ Idle s t) :
    ∃ c phase, s.call t = some (c,phase) ∧ (c.lock = none → t ≠ .inl (home c.manager)) ∧
      (s.base (home c.manager)).isCallback = true := by
  rcases hall t with hidle | ⟨c,hcall,hfree⟩ | ⟨c,r,todo,hcall⟩
  · exact absurd hidle hbusy
  · rw [Free,not_or,not_forall] at hfree
    obtain ⟨hlock,u,hu⟩ := hfree
    obtain ⟨-,hheld⟩ : u ≠ t ∧ held s u = c.lock := by simpa using hu
    obtain ⟨j,hj⟩ := Option.ne_none_iff_exists'.mp hlock
    obtain ⟨c',phase,hcall',hbegun,hmanager⟩ := lock_of_held (hheld.trans hj)
    refine ⟨c,_,hcall,fun hnone => absurd hnone hlock,?_⟩
    -- who has the mutex waits for a callback
    rcases hall u with hidle | ⟨c'',hwaits,-⟩ | ⟨c'',r,todo,hwaits⟩
    · cases hidle.1.symm.trans hcall'
    · cases hwaits.symm.trans hcall'
      exact absurd rfl hbegun
    · cases hwaits.symm.trans hcall'
      rw [manager_of_lock hj,← hmanager]
      exact (h.waits u c' r todo hwaits).2
  · obtain ⟨hother,hcallback⟩ := h.waits t c r todo hcall
    exact ⟨c,_,hcall,fun _ => hother,hcallback⟩

theorem some_goes (h : Sound home uses s)
    (hcycle : ∀ l, ¬ Relation.TransGen (Reaches home uses) l l) :
    (∀ t, Idle s t) ∨ ∃ t, ∀ o, go home s t o ≠ s := by
  by_contra hno
  rw [not_or,not_forall,not_exists] at hno
  obtain ⟨⟨t,hbusy⟩,hstay⟩ := hno
  have hall (t : Thread k m) : Stays s t := by
    by_contra hgoes
    refine hstay t fun o hsame => ?_
    exact absurd (go_less hgoes o) (by rw [hsame]; exact lt_irrefl _)
  obtain ⟨c,-,-,-,hbase⟩ := kept_by_handler h hall hbusy
  refine not_knotted hcycle { l | (s.base l).isCallback = true } ⟨⟨home c.manager,hbase⟩,?_⟩
  intro l hl
  have hhandler : ¬ Idle s (.inl l) := fun hidle => by
    rw [Set.mem_ofPred_eq,hidle.2 l rfl] at hl
    cases hl
  obtain ⟨c,phase,hcall,hother,hbase⟩ := kept_by_handler h hall hhandler
  refine ⟨home c.manager,hbase,c.manager,?_,rfl⟩
  exact (h.calls l c phase hcall hl).resolve_right fun ⟨hlock,hhome⟩ =>
    hother hlock (by rw [hhome])

theorem finishes (h : Sound home uses s)
    (hcycle : ∀ l, ¬ Relation.TransGen (Reaches home uses) l l) :
    Finishes (go home) Idle s := by
  refine finishes_of_work work (fun s hs => some_goes hs hcycle) (fun s t o hs hmoves => ?_) h
  exact ⟨go_sound hs t o,go_less (fun hstays => hmoves (go_same hstays o)) o⟩

end Runs

def started : Manager Unit :=
  (Manager.create.getTimer.2).atTimer 0 fun timer =>
    (timer.callIn ⟨true,true⟩ (.startForever 1 (.user ()))).2

def ticking : Manager Unit := started.atTimer 0 count

def willing : Outcome := ⟨⟨true,true⟩,false⟩

/-- A call from its beginning to its end, where nothing keeps it waiting. -/
def wholeCall (t : Thread k m) (c : Call n) : List (Step n k m) :=
  [.call t c,.go t willing,.go t willing]

/-- The thread of a loop makes a timer of a manager, starts it and comes to call its handler. -/
def enter (l : Fin k) (j : Fin n) : List (Step n k m) :=
  wholeCall (.inl l) (.getTimer j) ++
    wholeCall (.inl l) (.timer j 0 (.startForever 1 (.user ()))) ++
      [.tick j 0,.go (.inl l) willing,.go (.inl l) willing]

/-- The loop of a manager has come to a statement of the callback of its timer. -/
def calledBack (home : Fin n → Fin k) (j : Fin n) (manager : Manager Unit) (stage : Stage)
    (s : System n k m) : System n k m :=
  (s.setManager j manager).setBase (home j) (.callback j 0 stage (some (j,0)))

def kill (j : Fin n) : Call n := .killTimer j 0 [0]

/-- A thread kills the timer, as far as `event_free`. -/
def killing (t : Thread k m) (j : Fin n) : List (Step n k m) :=
  [.call t (kill j),.go t willing,.go t willing,.go t willing]

section Enter

variable {home : Fin n → Fin k} {s : System n k m}

theorem free_setCall {t : Thread k m} {c : Call n} (h : Free s t c)
    (call : Option (Call n × Phase)) : Free (s.setCall t call) t c := by
  refine h.imp_right fun hothers u hu => ?_
  rw [held,System.setCall_of_ne hu]
  exact hothers u hu

theorem free_of_none {t : Thread k m} (hcall : ∀ u, s.call u = none) (c : Call n) :
    Free s t c := by
  by_cases hlock : c.lock = none
  · exact .inl hlock
  · refine .inr fun u _ => ?_
    rw [held,hcall u]
    exact Ne.symm hlock

theorem perform_setCall (o : Outcome) (c : Call n) (t : Thread k m)
    (call : Option (Call n × Phase)) :
    perform home o c (s.setCall t call) = (perform home o c s).setCall t call := by
  have hstart (j : Fin n) (r : TimerRef) (c : Timer.Call Unit) :
      startTimer home o j r c (s.setCall t call) =
        (startTimer home o j r c s).setCall t call := by
    unfold startTimer
    simp only
    split_ifs <;> first | rfl | contradiction
  cases c with
  | timer j r c =>
    cases c with
    | stop => rfl
    | _ => exact hstart j r _
  | _ => rfl

theorem call_begins (home : Fin n → Fin k) {t : Thread k m} {c : Call n}
    (hcallable : Callable s t c)
    (hfree : Free s t c) (o : Outcome) :
    exec (step home) s [.call t c,.go t o] =
      (perform home o c s).setCall t (some (c,begun s c)) := by
  have hbegin : step home s (.call t c) = s.setCall t (some (c,.calls)) := if_pos hcallable
  have hbegun : begun (s.setCall t (some (c,.calls))) c = begun s c := rfl
  rw [exec,exec,exec,hbegin]
  simp only [step,go,System.setCall_self]
  rw [if_pos (free_setCall hfree _),hbegun,perform_setCall,System.setCall_setCall]

theorem wholeCall_exec {t : Thread k m} {c : Call n} (hcall : ∀ u, s.call u = none)
    (hcallable : Callable s t c) (hbegun : begun s c = .erases []) :
    exec (step home) s (wholeCall t c) = perform home willing c s := by
  have hnone : (perform home willing c s).call t = none := by
    rw [(perform_kept ..).call,hcall]
  have hbegins := call_begins home hcallable (free_of_none hcall c) willing
  rw [hbegun] at hbegins
  have hsplit : (wholeCall t c : List (Step n k m)) =
      [.call t c,.go t willing] ++ [.go t willing] := rfl
  rw [hsplit,exec_append,hbegins,exec,exec]
  simp only [step,go,System.setCall_self,System.setCall_setCall]
  exact System.setCall_none hnone

theorem go_base {l : Fin k} (hcall : s.call (.inl l) = none) (o : Outcome) :
    go home s (.inl l) o = goBase home s l := by
  simp [go,hcall]

theorem ticks {j : Fin n} (hcall : s.call (.inl (home j)) = none)
    (hbase : s.base (home j) = .eventLoop) (hmanager : s.manager j = started) :
    exec (step home) s [.tick j 0,.go (.inl (home j)) willing,.go (.inl (home j)) willing] =
      calledBack home j ticking .handles s := by
  have hfire : fire (started.timers 0) = some (started.timers 0) := by decide
  have hsame : started.atTimer 0 (fun _ => started.timers 0) = started :=
    congrArg (fun timers => { started with timers }) (Function.update_eq_self 0 started.timers)
  have hmore : (ticking.timers 0).isFinished = false := by decide
  have hat (manager : Manager Unit) (stage : Stage) :
      (calledBack home j manager stage s).manager j = manager := System.setManager_self ..
  have htick : step home s (.tick j 0) = calledBack home j started .counts s := by
    rw [step,if_pos ⟨hbase,hcall⟩,hmanager,hfire]
    simp only [System.atTimer]
    rw [hmanager,hsame,calledBack]
  have hcounts : go home (calledBack home j started .counts s) (.inl (home j)) willing =
      calledBack home j ticking .tests s := by
    rw [go_base (s := calledBack home j started .counts s) hcall,calledBack,goBase]
    simp [System.atTimer,System.setManager,System.setBase,ticking,calledBack]
  have htests : go home (calledBack home j ticking .tests s) (.inl (home j)) willing =
      calledBack home j ticking .handles s := by
    have hstage : (calledBack home j ticking .tests s).base (home j) =
      .callback j 0 .tests (some (j,0)) := System.setBase_self ..
    rw [go_base (s := calledBack home j ticking .tests s) hcall,goBase]
    simp only [hstage,hat,hmore]
    simp [calledBack]
  rw [exec,exec,exec,exec,htick]
  exact (congrArg (fun s => go home s (.inl (home j)) willing) hcounts).trans htests

theorem enter_exec (home : Fin n → Fin k) {j : Fin n} (hcall : ∀ t, s.call t = none)
    (hbase : s.base (home j) = .eventLoop) (hmanager : s.manager j = .create)
    (hdead : s.dead j = []) (uses : Fin k → Fin n → Prop) :
    Along (step home) (Respects home uses) s (enter (home j) j) ∧
      exec (step home) s (enter (home j) j) = calledBack home j ticking .handles s := by
  have huser (l : Fin k) (hl : (.inl (home j) : Thread k m) = .inl l) :
      (s.base l).isUser = true := by
    cases hl
    rw [hbase]
    rfl
  have hmade : exec (step home) s (wholeCall (.inl (home j)) (.getTimer j)) =
      s.setManager j (Manager.create.getTimer.2) := by
    rw [wholeCall_exec hcall ⟨hcall _,huser,trivial⟩ rfl,perform,hmanager]
  have hstarted : exec (step home) (s.setManager j (Manager.create.getTimer.2))
      (wholeCall (.inl (home j)) (.timer j 0 (.startForever 1 (.user ())))) =
        s.setManager j started := by
    have hcallable : Callable (s.setManager j (Manager.create.getTimer.2)) (.inl (home j))
        (.timer j 0 (.startForever 1 (.user ()))) := by
      refine ⟨hcall _,huser,?_,?_⟩
      · rw [System.setManager_self]
        decide
      · change 0 ∉ s.dead j
        simp [hdead]
    rw [wholeCall_exec (s := s.setManager j (Manager.create.getTimer.2)) hcall hcallable rfl]
    simp [perform,startTimer,willing,System.atTimer,started]
  have hrespects (c : Call n) (s' : System n k m) (hs : s'.base = s.base) :
      Respects home uses s' (.call (.inl (home j)) c) := fun hne => absurd (by rw [hs,hbase]) hne
  have hticks := ticks (s := s.setManager j started) (hcall (.inl (home j))) hbase
    (System.setManager_self ..)
  refine ⟨?_,?_⟩
  · rw [enter,along_append,along_append,exec_append,hmade,hstarted]
    exact ⟨⟨⟨hrespects _ s rfl,trivial,trivial,trivial⟩,hrespects _ _ rfl,trivial,trivial,trivial⟩,
      trivial,trivial,trivial,trivial⟩
  · rw [enter,exec_append,exec_append,hmade,hstarted,hticks,calledBack,System.setManager_setManager,
      calledBack]

theorem kill_exec (home : Fin n → Fin k) {t : Thread k m} {j : Fin n}
    (hcallable : Callable s t (kill j))
    (hfree : Free s t (kill j)) (hmanager : s.manager j = ticking)
    (hevent : (s.base (home j)).event = some (j,0)) (hother : t ≠ .inl (home j)) :
    exec (step home) s (killing t j) =
      (eraseEntry s (kill j) (0,0)).setCall t (some (kill j,.waits 0 [])) := by
  have hbegun : begun s (kill j) = .erases [(0,0)] := by
    simp only [begun,kill,hmanager]
    decide
  have hbegins := call_begins home hcallable hfree willing
  rw [hbegun] at hbegins
  have hsplit : (killing t j : List (Step n k m)) =
      [.call t (kill j),.go t willing] ++ [.go t willing,.go t willing] := rfl
  have herases : go home (s.setCall t (some (kill j,.erases [(0,0)]))) t willing =
      (eraseEntry s (kill j) (0,0)).setCall t (some (kill j,.frees 0 [])) := by
    simp [go,Erases,kill,eraseEntry,erased,Call.last,System.setCall,System.setManager]
  have hawaits : Awaits home ((eraseEntry s (kill j) (0,0)).setCall t (some (kill j,.frees 0 [])))
      t j 0 := ⟨hother,hevent⟩
  have hfrees : go home ((eraseEntry s (kill j) (0,0)).setCall t (some (kill j,.frees 0 []))) t
      willing = (eraseEntry s (kill j) (0,0)).setCall t (some (kill j,.waits 0 [])) := by
    simp only [go,System.setCall_self,System.setCall_setCall]
    exact if_pos hawaits
  rw [hsplit,exec_append,hbegins,exec,exec,exec,step,step]
  exact (congrArg (fun s => go home s t willing) herases).trans hfrees

end Enter

section Cycle

variable {home : Fin n → Fin k} {uses : Fin k → Fin n → Prop}

structure Entered (home : Fin n → Fin k) (target : Fin k → Fin n) (D : Finset (Fin k))
    (s : System n k m) : Prop where
  base : ∀ l ∈ D,
    s.base (home (target l)) = .callback (target l) 0 .handles (some (target l,0))
  manager : ∀ l ∈ D, s.manager (target l) = ticking
  loops : ∀ l', (∀ l ∈ D, l' ≠ home (target l)) → s.base l' = .eventLoop
  others : ∀ j, (∀ l ∈ D, home j ≠ home (target l)) → s.manager j = .create
  dead : ∀ j, s.dead j = []
  call : ∀ t, s.call t = none

theorem Entered.insert {target : Fin k → Fin n} {D : Finset (Fin k)} {l : Fin k}
    {s : System n k m} (h : Entered home target D s)
    (hfresh : ∀ l' ∈ D, home (target l) ≠ home (target l')) :
    Entered home target (insert l D) (calledBack home (target l) ticking .handles s) := by
  refine ⟨fun l' hl' => ?_,fun l' hl' => ?_,fun l' hl' => ?_,fun j hj => ?_,h.dead,h.call⟩
  · rcases Finset.mem_insert.mp hl' with rfl | hl'
    · exact System.setBase_self ..
    · exact (System.setBase_of_ne (hfresh l' hl').symm ..).trans (h.base l' hl')
  · rcases Finset.mem_insert.mp hl' with rfl | hl'
    · exact System.setManager_self ..
    · have hne : target l' ≠ target l := fun heq => hfresh l' hl' (by rw [heq])
      exact (System.setManager_of_ne hne ..).trans (h.manager l' hl')
  · refine (System.setBase_of_ne (hl' l (by simp)) ..).trans (h.loops l' fun l'' hl'' => ?_)
    exact hl' l'' (by simp [hl''])
  · have hne : j ≠ target l := fun heq => hj l (by simp) (by rw [heq])
    refine (System.setManager_of_ne hne ..).trans (h.others j fun l' hl' => ?_)
    exact hj l' (by simp [hl'])

theorem enters (uses : Fin k → Fin n → Prop) {target : Fin k → Fin n} (D : Finset (Fin k))
    (hinj : Set.InjOn (fun l => home (target l)) D) :
    ∃ run, Along (step home) (Respects home uses) System.create run ∧
      Entered home target D (exec (step home) System.create run : System n k m) := by
  have hnone : Entered home target ∅ (System.create : System n k m) :=
    ⟨by simp,by simp,fun _ _ => rfl,fun _ _ => rfl,fun _ => rfl,fun _ => rfl⟩
  refine exists_run_insert D (fun E hE l hl hnew s hs => ?_) hnone
  have hfresh (l' : Fin k) (hl' : l' ∈ E) : home (target l) ≠ home (target l') := fun heq =>
    hnew (hinj hl (hE hl') heq ▸ hl')
  obtain ⟨halong,hexec⟩ := enter_exec home hs.call (hs.loops _ hfresh) (hs.others _ hfresh)
    (hs.dead _) uses
  refine ⟨_,halong,?_⟩
  rw [hexec]
  exact hs.insert hfresh

/-- Of these loops some have come to kill the timer of the next one, in their handlers. -/
structure Entangled (home : Fin n → Fin k) (target : Fin k → Fin n) (D E : Finset (Fin k))
    (s : System n k m) : Prop where
  base : ∀ l ∈ D,
    s.base (home (target l)) = .callback (target l) 0 .handles (some (target l,0))
  manager : ∀ l ∈ D, l ∉ E → s.manager (target l) = ticking
  loops : ∀ l', (∀ l ∈ D, l' ≠ home (target l)) → s.base l' = .eventLoop
  waits : ∀ l ∈ E, s.call (.inl l) = some (kill (target l),.waits 0 [])
  rest : ∀ t, (∀ l ∈ E, t ≠ .inl l) → s.call t = none

theorem Entangled.insert {target : Fin k → Fin n} {D E : Finset (Fin k)} {l : Fin k}
    {s : System n k m} (h : Entangled home target D E s)
    (hinj : Set.InjOn (fun l => home (target l)) D) (hl : l ∈ D) :
    Entangled home target D (insert l E) ((eraseEntry s (kill (target l)) (0,0)).setCall (.inl l)
      (some (kill (target l),.waits 0 []))) := by
  refine ⟨h.base,fun l' hl' hnew => ?_,h.loops,fun l' hl' => ?_,fun t ht => ?_⟩
  · obtain ⟨hne,hnew⟩ : l' ≠ l ∧ l' ∉ E := by simpa using hnew
    have htarget : target l' ≠ target l := fun heq => hne (hinj hl' hl (congrArg home heq))
    exact (System.setManager_of_ne htarget ..).trans (h.manager l' hl' hnew)
  · by_cases heq : l' = l
    · subst heq
      exact System.setCall_self ..
    · rw [System.setCall_of_ne fun h => heq (Sum.inl.inj h)]
      exact h.waits l' ((Finset.mem_insert.mp hl').resolve_left heq)
  · rw [System.setCall_of_ne (ht l (Finset.mem_insert_self l E))]
    exact h.rest t fun l' hl' => ht l' (Finset.mem_insert_of_mem hl')

theorem Entangled.free {target : Fin k → Fin n} {D E : Finset (Fin k)} {l : Fin k}
    {s : System n k m} (h : Entangled home target D E s) (hE : E ⊆ D)
    (hinj : Set.InjOn (fun l => home (target l)) D) (hl : l ∈ D) (hnew : l ∉ E) :
    Free s (.inl l) (kill (target l)) := by
  refine .inr fun u _ => ?_
  rw [held]
  by_cases hu : ∃ l' ∈ E, u = .inl l'
  · -- another handler kills a timer of another manager
    obtain ⟨l',hl',rfl⟩ := hu
    rw [h.waits l' hl']
    intro heq
    have htarget : target l' = target l := Option.some.inj heq
    exact hnew (hinj (hE hl') hl (congrArg home htarget) ▸ hl')
  · rw [h.rest u fun l' hl' heq => hu ⟨l',hl',heq⟩]
    nofun

theorem entangles {target : Fin k → Fin n} {D : Finset (Fin k)}
    (hinj : Set.InjOn (fun l => home (target l)) D) (huses : ∀ l ∈ D, uses l (target l))
    (hother : ∀ l ∈ D, home (target l) ≠ l) (hnext : ∀ l ∈ D, ∃ l' ∈ D, home (target l') = l)
    {s : System n k m} (h : Entered home target D s) :
    ∃ run, Along (step home) (Respects home uses) s run ∧
      Entangled home target D D (exec (step home) s run) := by
  have hnone : Entangled home target D ∅ s :=
    ⟨h.base,fun l hl _ => h.manager l hl,h.loops,by simp,fun t _ => h.call t⟩
  refine exists_run_insert D (fun E hE l hl hnew s hs => ?_) hnone
  have hcallable : Callable s (.inl l) (kill (target l)) := by
    refine ⟨hs.rest _ fun l' hl' heq => hnew (Sum.inl.inj heq ▸ hl'),fun l' hl' => ?_,trivial⟩
    cases hl'
    obtain ⟨l',hl',rfl⟩ := hnext l hl
    rw [hs.base l' hl']
    rfl
  have hexec := kill_exec home hcallable (hs.free hE hinj hl hnew) (hs.manager l hl hnew)
    (by rw [hs.base l hl]; rfl) fun heq => hother l hl (Sum.inl.inj heq).symm
  have halong : Along (step home) (Respects home uses) s (killing (.inl l) (target l)) :=
    ⟨fun _ => .inl (huses l hl),trivial,trivial,trivial,trivial⟩
  refine ⟨_,halong,?_⟩
  rw [hexec]
  exact hs.insert hinj hl

theorem Entangled.stays {target : Fin k → Fin n} {D : Finset (Fin k)} {s : System n k m}
    (h : Entangled home target D D s) (hmem : ∀ l ∈ D, home (target l) ∈ D) (t : Thread k m) :
    Stays s t := by
  by_cases ht : ∃ l ∈ D, t = .inl l
  · obtain ⟨l,hl,rfl⟩ := ht
    exact .inr (.inr ⟨_,_,_,h.waits l hl⟩)
  · have hrest (l : Fin k) (hl : l ∈ D) : t ≠ .inl l := fun heq => ht ⟨l,hl,heq⟩
    refine .inl ⟨h.rest t hrest,fun l' hl' => h.loops l' fun l hl heq => ?_⟩
    exact hrest _ (hmem l hl) (hl'.trans (congrArg Sum.inl heq))

/-- Loops of a round, each of which uses the next one, come to wait for each other. -/
theorem entangled_of_round {D : Set (Fin k)} {next : Fin k → Fin k} (hround : Set.BijOn next D D)
    (hreaches : ∀ l ∈ D, Reaches home uses l (next l)) (hother : ∀ l ∈ D, next l ≠ l)
    (hne : D.Nonempty) :
    ∃ run, Along (step home) (Respects home uses) System.create run ∧
      (∀ t, Stays (exec (step home) System.create run : System n k m) t) ∧
        ∃ t, ¬ Idle (exec (step home) System.create run : System n k m) t := by
  obtain ⟨l,hl⟩ := hne
  have hmanager : Nonempty (Fin n) := ⟨(hreaches l hl).choose⟩
  choose! target huses hhome using hreaches
  obtain ⟨D,rfl⟩ := (Set.toFinite D).exists_finset_coe
  have hinj : Set.InjOn (fun l => home (target l)) D :=
    hround.injOn.congr fun l hl => (hhome l hl).symm
  obtain ⟨run,hrun,hentered⟩ := enters (m := m) uses D hinj
  have hnext (l : Fin k) (hl : l ∈ D) : ∃ l' ∈ D, home (target l') = l := by
    obtain ⟨l',hl',rfl⟩ := hround.surjOn hl
    exact ⟨l',hl',hhome l' hl'⟩
  obtain ⟨run',hrun',hentangled⟩ := entangles hinj huses
    (fun l hl => by rw [hhome l hl]; exact hother l hl) hnext hentered
  refine ⟨run ++ run',(along_append _ _ _ _ _).mpr ⟨hrun,hrun'⟩,?_⟩
  rw [exec_append]
  refine ⟨hentangled.stays fun l hl => hhome l hl ▸ hround.mapsTo hl,.inl l,fun hidle => ?_⟩
  cases hidle.1.symm.trans (hentangled.waits l hl)

/-- The handler of a timer waits for the mutex of its manager, and who has it for the handler. -/
structure Killed (home : Fin n → Fin k) (j : Fin n) (s : System n k (m + 1)) : Prop where
  waits : s.call (.inr 0) = some (kill j,.waits 0 [])
  calls : s.call (.inl (home j)) = some (.getTimer j,.calls)
  rest : ∀ t, t ≠ .inr 0 → t ≠ .inl (home j) → Idle s t

theorem Killed.stays {j : Fin n} {s : System n k (m + 1)} (h : Killed home j s)
    (t : Thread k (m + 1)) : Stays s t := by
  by_cases hkills : t = .inr 0
  · subst hkills
    exact .inr (.inr ⟨_,_,_,h.waits⟩)
  · by_cases hcalls : t = .inl (home j)
    · subst hcalls
      refine .inr (.inl ⟨_,h.calls,?_⟩)
      rintro (hlock | hothers)
      · cases hlock
      · refine hothers (.inr 0) Sum.inr_ne_inl ?_
        rw [held,h.waits]
        rfl
    · exact .inl (h.rest t hkills hcalls)

/-- The kill of another thread, and then the call of the handler. -/
def killingIn (home : Fin n → Fin k) (j : Fin n) : List (Step n k (m + 1)) :=
  killing (.inr 0) j ++ [.call (.inl (home j)) (.getTimer j)]

theorem killed_exec (home : Fin n → Fin k) (j : Fin n) :
    Killed home j (exec (step home)
      (calledBack home j ticking .handles System.create : System n k (m + 1))
      (killingIn home j)) := by
  let s : System n k (m + 1) := calledBack home j ticking .handles System.create
  have hbase : s.base (home j) = .callback j 0 .handles (some (j,0)) := System.setBase_self ..
  have hother (l : Fin k) : (.inr 0 : Thread k (m + 1)) ≠ .inl l := Sum.inr_ne_inl
  have hkills := kill_exec home (s := s) (t := .inr 0) (j := j)
    ⟨rfl,fun l hl => absurd hl (hother l),trivial⟩ (free_of_none (fun _ => rfl) _)
    (System.setManager_self ..) (by rw [hbase]; rfl) (hother _)
  let s' : System n k (m + 1) :=
    (eraseEntry s (kill j) (0,0)).setCall (.inr 0) (some (kill j,.waits 0 []))
  have hcallable : Callable s' (.inl (home j)) (.getTimer j) := by
    refine ⟨System.setCall_of_ne Sum.inl_ne_inr ..,fun l hl => ?_,trivial⟩
    cases hl
    exact (congrArg Base.isUser hbase).trans rfl
  have hcalls : step home s' (.call (.inl (home j)) (.getTimer j)) =
      s'.setCall (.inl (home j)) (some (.getTimer j,.calls)) := if_pos hcallable
  rw [killingIn,exec_append,hkills,exec,exec,hcalls]
  refine ⟨?_,System.setCall_self ..,fun t hkills hcalls => ⟨?_,?_⟩⟩
  · exact (System.setCall_of_ne Sum.inr_ne_inl ..).trans (System.setCall_self ..)
  · rw [System.setCall_of_ne hcalls,System.setCall_of_ne hkills]
    rfl
  · rintro l rfl
    exact System.setBase_of_ne (fun heq => hcalls (by rw [heq])) ..

/-- Another thread comes to kill a timer whose handler calls the manager of the timer. -/
theorem killed_in_handler {j : Fin n} (huses : uses (home j) j) :
    ∃ run, Along (step home) (Respects home uses) System.create run ∧
      (∀ t, Stays (exec (step home) System.create run : System n k (m + 1)) t) ∧
        ∃ t, ¬ Idle (exec (step home) System.create run : System n k (m + 1)) t := by
  obtain ⟨hrun,hexec⟩ := enter_exec home (s := (System.create : System n k (m + 1)))
    (j := j) (fun _ => rfl) rfl rfl rfl uses
  have hkilled := killed_exec (m := m) home j
  rw [← hexec] at hkilled
  refine ⟨enter (home j) j ++ killingIn home j,(along_append _ _ _ _ _).mpr ⟨hrun,?_⟩,?_⟩
  · exact ⟨trivial,trivial,trivial,trivial,fun _ => .inl huses,trivial⟩
  · rw [exec_append]
    refine ⟨hkilled.stays,.inr 0,fun hidle => ?_⟩
    cases hidle.1.symm.trans hkilled.waits

end Cycle

/-- Any number of timer managers on any number of loops, and other threads, where the handlers on
a loop use managers as `uses` tells. From every state of every run all threads come back from what
they are in, however they are scheduled, once nobody makes another call and no timer expires, if and
only if no loops reach each other in a cycle. One that uses a manager of its own timers is a cycle
already. -/
theorem finishes_iff_no_round (home : Fin n → Fin k) (uses : Fin k → Fin n → Prop) :
    (∀ run, Along (step home) (Respects home uses) (System.create : System n k (m + 1)) run →
      Finishes (go home) Idle (exec (step home) System.create run)) ↔
        ∀ l, ¬ Relation.TransGen (Reaches home uses) l l := by
  have houtcome : Nonempty Outcome := ⟨willing⟩
  constructor
  · intro hall l hcycle
    obtain ⟨D,-,next,hne,hround,hreaches⟩ := (knotted_of_cycle hcycle).exists_round
    have hstuck : ∃ run, Along (step home) (Respects home uses) System.create run ∧
        (∀ t, Stays (exec (step home) System.create run : System n k (m + 1)) t) ∧
          ∃ t, ¬ Idle (exec (step home) System.create run : System n k (m + 1)) t := by
      by_cases hother : ∀ l ∈ D, next l ≠ l
      · exact entangled_of_round hround hreaches hother hne
      · obtain ⟨l',hl'⟩ := not_forall.mp hother
        obtain ⟨hmem,hself⟩ := Classical.not_imp.mp hl'
        obtain ⟨j,huses,hhome⟩ := hreaches l' hmem
        exact killed_in_handler (j := j) (by rwa [hhome,not_not.mp hself])
    obtain ⟨run,halong,hstays,t,hbusy⟩ := hstuck
    exact not_finishes (fun t o => go_same (hstays t) o) hbusy (hall run halong)
  · intro hcycle run halong
    have hstep (s : System n k (m + 1)) (x : Step n k (m + 1)) (hs : Sound home uses s)
        (hx : Respects home uses s x) : Sound home uses (step home s x) := step_sound hs hx
    exact finishes (exec_invariant hstep create_sound halong) hcycle

end ManagerLocks
end Translib
