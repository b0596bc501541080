import Translib.ManagedLoop
import Translib.ThreadJoins
import Translib.TimerIds

/-! The destruction of a timer manager with a loop of its own, statement by statement, while
the loop thread may run. -/

namespace Translib
namespace ManagerTeardown

open TransitionMachine Timer
open TimerIds (Manager TimerRef)
open ManagedLoop (ConstructorStmt)

variable {α : Type*}

/-- `delete audit_timer`, `~Loop` up to `event_base_free`, that call, and the destruction of
`t_map`, in the order the members are destroyed in. -/
inductive DestructorStmt
  | auditTimer | loop | base | timers
  deriving DecidableEq, Repr

/-- `held` are the timers user code has a pointer to, `inHandler` says that the loop thread is
in the handler of a timer. -/
structure System (α : Type*) where
  manager : Manager α
  loop : Loop
  constructing : List ConstructorStmt
  auditTimer : Option (Timer Unit)
  held : List TimerRef
  inHandler : Bool
  destroying : Bool
  todo : List DestructorStmt
  baseFreed : Bool

inductive Step (α : Type*)
  | construct (lib : Libevent)
  | getTimer
  | killTimer (tid : ℤ)
  | audit
  | drop (r : TimerRef)
  | startRounds (r : TimerRef) (lib : Libevent) (interval rounds : ℕ) (handler : Handler α)
  | call (r : TimerRef) (c : Call α)
  | expire (r : TimerRef)
  | expireAudit
  | returned
  | stop (waiting : Bool) | wait
  | run
  | destroy
  | owner
  deriving DecidableEq, Repr

def create : System α where
  manager := .create
  loop := .create
  constructing := [.init,.newTimer,.startForever]
  auditTimer := none
  held := []
  inHandler := false
  destroying := false
  todo := []
  baseFreed := false

def InMap (s : System α) (r : TimerRef) : Prop := r ∈ s.manager.t_map.entries.map Prod.snd

def Alive (s : System α) (r : TimerRef) : Prop := r ∈ s.held ∨ InMap s r

instance (s : System α) (r : TimerRef) : Decidable (InMap s r) := inferInstanceAs (Decidable (_ ∈ _))
instance (s : System α) (r : TimerRef) : Decidable (Alive s r) := inferInstanceAs (Decidable (_ ∨ _))

/-- `~Timer` of the timers nobody has a pointer to any more. -/
def reap (s : System α) : System α :=
  { s with manager := { s.manager with
      timers := fun r => if Alive s r then s.manager.timers r else (s.manager.timers r).reset } }

/-- Calls on the manager are made before its destructor, or by a handler. -/
def Callable (s : System α) : Prop :=
  s.constructing = [] ∧ (s.destroying = false ∨ s.inHandler = true)

/-- A timer is used by those who have it, as long as its base is there. -/
def Usable (s : System α) (r : TimerRef) : Prop := Alive s r ∧ s.baseFreed = false

def Idle (s : System α) : Prop := s.constructing = [] ∧ s.destroying = false ∧ s.loop.Idle

/-- The loop thread is in `event_base_loop`, and in no handler. -/
def Polling (s : System α) : Prop := (s.loop.threads 0).point = .looping ∧ s.inHandler = false

instance (s : System α) : Decidable (Callable s) := inferInstanceAs (Decidable (_ ∧ _))
instance (s : System α) (r : TimerRef) : Decidable (Usable s r) :=
  inferInstanceAs (Decidable (_ ∧ _))
instance (s : System α) : Decidable (Idle s) := inferInstanceAs (Decidable (_ ∧ _))
instance (s : System α) : Decidable (Polling s) := inferInstanceAs (Decidable (_ ∧ _))

def construct (lib : Libevent) (s : System α) : System α :=
  match s.constructing with
  | [] => s
  | .init::rest => { s with loop := s.loop.start.2, constructing := rest }
  | .newTimer::rest => { s with auditTimer := some Timer.create, constructing := rest }
  | .startForever::rest =>
    { s with
      auditTimer := s.auditTimer.map fun timer =>
        (timer.startForever lib TimerManager.auditInterval (.user ())).2
      constructing := rest }

def haveEvents (s : System α) : Bool :=
  s.auditTimer.any isArmed ||
    (s.held ++ s.manager.t_map.entries.map Prod.snd).any fun r => (s.manager.timers r).isArmed

/-- The next statement of the destructors, or of the call the owner is in. The map gives up
one pointer after the other. -/
def owner (s : System α) : System α :=
  if s.loop.todo ≠ [] then { s with loop := ThreadJoins.step s.loop .owner }
  else if s.loop.terminated then s
  else match s.todo with
  | [] => s
  | .auditTimer::rest => { s with auditTimer := none, todo := rest }
  | .loop::rest => { s with loop := ThreadJoins.step s.loop .destroy, todo := rest }
  | .base::rest => { s with baseFreed := true, todo := rest }
  | .timers::rest =>
    match s.manager.t_map.entries with
    | [] => { s with todo := rest }
    | i::_ => reap { s with manager := (s.manager.killTimer i.1).2 }

def step (s : System α) : Step α → System α
  | .construct lib => construct lib s
  | .getTimer =>
    if Callable s then
      { s with manager := s.manager.getTimer.2, held := s.manager.getTimer.1.2 :: s.held }
    else s
  | .killTimer tid =>
    if Callable s then reap { s with manager := (s.manager.killTimer tid).2 } else s
  | .audit => if Callable s then reap { s with manager := s.manager.auditTimer.2 } else s
  | .drop r => if Usable s r then reap { s with held := s.held.erase r } else s
  | .startRounds r lib interval rounds handler =>
    if Usable s r then
      { s with manager :=
          s.manager.atTimer r fun t => (t.startRounds lib interval rounds handler).2 }
    else s
  | .call r c =>
    if Usable s r then { s with manager := s.manager.atTimer r fun t => (call c t).2 } else s
  | .expire r =>
    if Polling s ∧ Alive s r then
      match (s.manager.timers r).expire with
      | none => s
      | some (_,timer) =>
        { s with manager := s.manager.atTimer r fun _ => timer, inHandler := true }
    else s
  | .expireAudit =>
    if Polling s then
      match s.auditTimer.bind Timer.expire with
      | none => s
      | some (_,timer) => { s with auditTimer := some timer, inHandler := true }
    else s
  | .returned => { s with inHandler := false }
  | .stop waiting =>
    if Idle s then { s with loop := ThreadJoins.step s.loop (.stop waiting) } else s
  | .wait => if Idle s then { s with loop := ThreadJoins.step s.loop .wait } else s
  | .run =>
    if s.inHandler then s
    else { s with loop := ThreadJoins.step s.loop (.run 0 (haveEvents s)) }
  | .destroy =>
    if Idle s then { s with destroying := true, todo := [.auditTimer,.loop,.base,.timers] } else s
  | .owner => owner s

/-- The events created on the base: that of the audit timer and those of the timers. -/
inductive EventOwner
  | audit
  | timer (r : TimerRef)
  deriving DecidableEq, Repr

def eventOf (s : System α) : EventOwner → Option TimerEvent
  | .audit => s.auditTimer.bind Timer.event
  | .timer r => (s.manager.timers r).event

def DiesWith (s : System α) : EventOwner → Prop
  | .audit => True
  | .timer r => InMap s r ∧ r ∉ s.held

def Released (s : System α) : Prop :=
  s.baseFreed = true → ∀ o, DiesWith s o → eventOf s o = none

def Untouched (s : System α) (l : Step α) : Prop :=
  s.baseFreed = true → ∀ o, eventOf (step s l) o = eventOf s o

/-- The next statement is `event_base_free`. -/
def AtBase (s : System α) : Prop :=
  s.loop.todo = [] ∧ s.loop.terminated = false ∧ s.todo.head? = some .base

/-- When the base is freed, no timer only the map has a pointer to has an event. -/
def MapIdle (s : System α) : Step α → Prop
  | .owner => AtBase s → ∀ r, InMap s r → r ∉ s.held → (s.manager.timers r).event = none
  | _ => True

/-- A thread that is no longer joinable has exited, and a destructor that is through has
joined it. -/
structure Single (l : Loop) : Prop where
  thread : l.thread = some 0
  joined : (l.threads 0).joinable = false → (l.threads 0).point = .exited
  deleted : l.destroyed = true →
    l.terminated = true ∨ .deleteThread ∈ l.todo ∨ (l.threads 0).joinable = false

theorem start_single : Single Loop.create.start.2 :=
  ⟨rfl,fun h => absurd h (by decide),fun h => absurd h (by decide)⟩

theorem owner_single {l : Loop} (h : Single l) : Single l.owner := by
  obtain ⟨hthread,hjoined,hdeleted⟩ := h
  have hrest {stmt : OwnerStmt} {rest : List OwnerStmt} (htodo : l.todo = stmt::rest)
      (hne : stmt ≠ .deleteThread) (hd : l.destroyed = true) :
      l.terminated = true ∨ .deleteThread ∈ rest ∨ (l.threads 0).joinable = false := by
    have hmem := hdeleted hd
    rw [htodo,List.mem_cons,or_iff_right hne.symm] at hmem
    exact hmem
  have heffect := l.owner_effect
  generalize l.owner = l' at heffect ⊢
  cases heffect with
  | idle => exact ⟨hthread,hjoined,hdeleted⟩
  | finished waiting rest htodo => exact ⟨hthread,hjoined,hrest htodo (by simp)⟩
  | stop waiting rest htodo =>
    exact ⟨hthread,hjoined,fun hd => by simpa using hrest htodo (by simp) hd⟩
  | loopExit waiting rest htodo => exact ⟨hthread,hjoined,hrest htodo (by simp)⟩
  | passed rest htodo => exact ⟨hthread,hjoined,hrest htodo (by simp)⟩
  | wait rest htodo =>
    exact ⟨hthread,hjoined,fun hd => by simpa using hrest htodo (by simp) hd⟩
  | noThread hnone => exact ⟨hthread,hjoined,hdeleted⟩
  | throws t rest htodo => exact ⟨hthread,hjoined,.inl⟩
  | joined t rest htodo ht hexited =>
    have hzero : t = 0 := Option.some.inj (ht.symm.trans hthread)
    subst hzero
    exact ⟨hthread,fun _ => by simp [Loop.setThread,hexited],
      fun _ => .inr (.inr (by simp [Loop.setThread]))⟩
  | blocked => exact ⟨hthread,hjoined,hdeleted⟩
  | deleted t rest htodo ht =>
    have hzero : t = 0 := Option.some.inj (ht.symm.trans hthread)
    subst hzero
    refine ⟨hthread,hjoined,fun _ => ?_⟩
    simp only
    cases (l.threads 0).joinable <;> simp

theorem run_single {l : Loop} (h : Single l) (haveEvents : Bool) : Single (l.run 0 haveEvents) := by
  refine ⟨by simpa using h.thread,fun hjoinable => ?_,by simpa using h.deleted⟩
  have hexited := h.joined (by simpa using hjoinable)
  simp [Loop.run,hexited]

theorem step_single {l : Loop} (h : Single l) (x : ThreadJoins.Step) (hstart : x ≠ .start)
    (hrun : ∀ t haveEvents, x = .run t haveEvents → t = 0) : Single (ThreadJoins.step l x) := by
  cases x with
  | start => exact absurd rfl hstart
  | wait =>
    simp only [ThreadJoins.step]
    split_ifs with hidle
    · exact ⟨h.thread,h.joined,fun hd => absurd hidle.2 (by simpa [Loop.wait] using hd)⟩
    · exact h
  | stop waiting =>
    simp only [ThreadJoins.step]
    split_ifs with hidle
    · exact ⟨h.thread,h.joined,fun hd => absurd hidle.2 (by simpa [Loop.stop] using hd)⟩
    · exact h
  | destroy =>
    simp only [ThreadJoins.step]
    split_ifs
    · exact ⟨h.thread,h.joined,fun _ => .inr (.inl (by simp [Loop.destroy,h.thread]))⟩
    · exact h
  | owner =>
    simp only [ThreadJoins.step]
    split_ifs
    · exact h
    · exact owner_single h
  | run t haveEvents =>
    cases hrun t haveEvents rfl
    simp only [ThreadJoins.step]
    split_ifs
    · exact h
    · exact run_single h haveEvents

theorem Single.exited {l : Loop} (h : Single l) (hdestroyed : l.destroyed = true)
    (htodo : l.todo = []) (hrun : l.terminated = false) : (l.threads 0).point = .exited := by
  refine h.joined (((h.deleted hdestroyed).resolve_left ?_).resolve_left ?_)
  · simp [hrun]
  · simp [htodo]

def Reaped (s : System α) : Prop := ∀ r, ¬ Alive s r → (s.manager.timers r).event = none

theorem reap_reaped (s : System α) : Reaped (reap s) := by
  intro r hr
  have hdead : ¬ Alive s r := hr
  simp only [reap,if_neg hdead]
  exact reset_event _

theorem atTimer_reaped {s : System α} {r : TimerRef} (hr : Alive s r) (h : Reaped s)
    (f : Timer α → Timer α) (inHandler : Bool) :
    Reaped { s with manager := s.manager.atTimer r f, inHandler := inHandler } := by
  intro r' hr'
  have hdead : ¬ Alive s r' := hr'
  have hne : r' ≠ r := by
    rintro rfl
    exact hdead hr
  simpa [Manager.atTimer,hne] using h r' hdead

theorem getTimer_reaped {s : System α} (h : Reaped s) :
    Reaped { s with manager := s.manager.getTimer.2, held := s.manager.getTimer.1.2 :: s.held } := by
  intro r hr
  have hne : r ≠ s.manager.created := by
    rintro rfl
    exact hr (.inl List.mem_cons_self)
  have hdead : ¬ Alive s r := by
    rintro (hheld | hmap)
    · exact hr (.inl (List.mem_cons_of_mem _ hheld))
    · obtain ⟨i,hi,rfl⟩ := List.mem_map.mp hmap
      exact hr (.inr (List.mem_map_of_mem (f := Prod.snd) (KeyTable.mem_emplace.mpr (.inl hi))))
  have htimers : (s.manager.getTimer.2.timers r) = s.manager.timers r :=
    Function.update_of_ne hne _ _
  simp only [htimers]
  exact h r hdead

inductive Stage (s : System α) : Prop
  | before (destroying : s.destroying = false) (todo : s.todo = []) (base : s.baseFreed = false)
      (loop : s.loop.destroyed = false)
  | auditTimer (destroying : s.destroying = true) (todo : s.todo = [.auditTimer,.loop,.base,.timers])
      (base : s.baseFreed = false) (loop : s.loop.destroyed = false)
  | loop (destroying : s.destroying = true) (todo : s.todo = [.loop,.base,.timers])
      (base : s.baseFreed = false) (audit : s.auditTimer = none) (loop : s.loop.destroyed = false)
  | base (destroying : s.destroying = true) (todo : s.todo = [.base,.timers])
      (base : s.baseFreed = false) (audit : s.auditTimer = none) (loop : s.loop.destroyed = true)
  | after (destroying : s.destroying = true) (todo : s.todo <:+ [.timers])
      (audit : s.auditTimer = none) (exited : (s.loop.threads 0).point = .exited)

theorem Stage.congr {s s' : System α} (h : Stage s) (hdestroying : s'.destroying = s.destroying)
    (htodo : s'.todo = s.todo) (hbase : s'.baseFreed = s.baseFreed)
    (haudit : s.auditTimer = none → s'.auditTimer = none)
    (hdestroyed : s'.loop.destroyed = s.loop.destroyed)
    (hexited : (s.loop.threads 0).point = .exited → (s'.loop.threads 0).point = .exited) :
    Stage s' := by
  cases h with
  | before destroying todo base loop =>
    exact .before (hdestroying.trans destroying) (htodo.trans todo) (hbase.trans base)
      (hdestroyed.trans loop)
  | auditTimer destroying todo base loop =>
    exact .auditTimer (hdestroying.trans destroying) (htodo.trans todo) (hbase.trans base)
      (hdestroyed.trans loop)
  | loop destroying todo base audit loop =>
    exact .loop (hdestroying.trans destroying) (htodo.trans todo) (hbase.trans base) (haudit audit)
      (hdestroyed.trans loop)
  | base destroying todo base audit loop =>
    exact .base (hdestroying.trans destroying) (htodo.trans todo) (hbase.trans base) (haudit audit)
      (hdestroyed.trans loop)
  | after destroying todo audit exited =>
    exact .after (hdestroying.trans destroying) (htodo ▸ todo) (haudit audit) (hexited exited)

inductive Coming (s : System α) : DestructorStmt → List DestructorStmt → Prop
  | auditTimer (base : s.baseFreed = false) (loop : s.loop.destroyed = false) :
      Coming s .auditTimer [.loop,.base,.timers]
  | loop (base : s.baseFreed = false) (audit : s.auditTimer = none)
      (loop : s.loop.destroyed = false) : Coming s .loop [.base,.timers]
  | base (audit : s.auditTimer = none) (loop : s.loop.destroyed = true) : Coming s .base [.timers]
  | timers (audit : s.auditTimer = none) (exited : (s.loop.threads 0).point = .exited) :
      Coming s .timers []

theorem Stage.coming {s : System α} (h : Stage s) {stmt : DestructorStmt}
    {rest : List DestructorStmt} (htodo : s.todo = stmt::rest) :
    s.destroying = true ∧ Coming s stmt rest := by
  cases h with
  | before _ todo => cases htodo.symm.trans todo
  | auditTimer destroying todo base loop =>
    cases htodo.symm.trans todo
    exact ⟨destroying,.auditTimer base loop⟩
  | loop destroying todo base audit loop =>
    cases htodo.symm.trans todo
    exact ⟨destroying,.loop base audit loop⟩
  | base destroying todo base audit loop =>
    cases htodo.symm.trans todo
    exact ⟨destroying,.base audit loop⟩
  | after destroying todo audit exited =>
    obtain ⟨rfl,rfl⟩ : stmt = .timers ∧ rest = [] := by
      simpa [htodo,List.suffix_cons_iff] using todo
    exact ⟨destroying,.timers audit exited⟩

theorem Stage.before_destroying {s : System α} (h : Stage s) (hs : s.destroying = false) :
    s.todo = [] ∧ s.baseFreed = false ∧ s.loop.destroyed = false := by
  cases h with
  | before destroying todo base loop => exact ⟨todo,base,loop⟩
  | auditTimer destroying => exact absurd (destroying.symm.trans hs) (by decide)
  | loop destroying => exact absurd (destroying.symm.trans hs) (by decide)
  | base destroying => exact absurd (destroying.symm.trans hs) (by decide)
  | after destroying => exact absurd (destroying.symm.trans hs) (by decide)

structure Ordered (s : System α) : Prop where
  unborn : .init ∈ s.constructing → s.loop = .create
  single : .init ∉ s.constructing → Single s.loop
  constructing : s.constructing <:+ [.init,.newTimer,.startForever]
  building : s.constructing ≠ [] → s.destroying = false
  handler : s.inHandler = true → (s.loop.threads 0).point = .looping
  stage : Stage s
  reaped : Reaped s

/-- What a step can make of a state. Only destructors do something once the base is freed. -/
inductive Effect (s : System α) : System α → Prop
  | same : Effect s s
  | construct (lib : Libevent) (hs : s.constructing ≠ []) : Effect s (construct lib s)
  | timers (manager : Manager α) (held : List TimerRef) (inHandler : Bool)
      (hpoint : inHandler = true → s.inHandler = true ∨ Polling s)
      (hs : (s.loop.threads 0).point = .exited → s.baseFreed = false)
      (hreaped : Reaped s →
        Reaped { s with manager := manager, held := held, inHandler := inHandler }) :
      Effect s { s with manager := manager, held := held, inHandler := inHandler }
  | audited (timer : Timer Unit) (hs : Polling s) (haudit : s.auditTimer.isSome) :
      Effect s { s with auditTimer := some timer, inHandler := true }
  | returned : Effect s { s with inHandler := false }
  | loop (x : ThreadJoins.Step) (hstart : x ≠ .start) (hdestroy : x ≠ .destroy)
      (hrun : ∀ t haveEvents, x = .run t haveEvents → t = 0 ∧ s.inHandler = false)
      (hunborn : .init ∈ s.constructing → ThreadJoins.step s.loop x = s.loop) :
      Effect s { s with loop := ThreadJoins.step s.loop x }
  | destroy (hs : Idle s) :
      Effect s { s with destroying := true, todo := [.auditTimer,.loop,.base,.timers] }
  | auditTimer (rest : List DestructorStmt) (htodo : s.todo = .auditTimer::rest) :
      Effect s { s with auditTimer := none, todo := rest }
  | loopDestroyed (rest : List DestructorStmt) (htodo : s.todo = .loop::rest)
      (hidle : s.loop.todo = []) :
      Effect s { s with loop := ThreadJoins.step s.loop .destroy, todo := rest }
  | base (rest : List DestructorStmt) (htodo : s.todo = .base::rest) (hs : AtBase s) :
      Effect s { s with baseFreed := true, todo := rest }
  | erased (tid : ℤ) (rest : List DestructorStmt) (htodo : s.todo = .timers::rest) :
      Effect s (reap { s with manager := (s.manager.killTimer tid).2 })
  | emptied (rest : List DestructorStmt) (htodo : s.todo = .timers::rest) :
      Effect s { s with todo := rest }

theorem owner_effect {s : System α} (h : Ordered s) : Effect s (owner s) := by
  unfold owner
  split_ifs with hcall hterminated
  · exact .loop .owner (by simp) (by simp) (by simp) fun hi => by rw [h.unborn hi]; rfl
  · exact .same
  have hidle : s.loop.todo = [] := not_not.mp hcall
  cases htodo : s.todo with
  | nil => exact .same
  | cons stmt rest =>
    cases stmt with
    | auditTimer => exact .auditTimer rest htodo
    | loop => exact .loopDestroyed rest htodo hidle
    | base => exact .base rest htodo ⟨hidle,by simpa using hterminated,by rw [htodo]; rfl⟩
    | timers =>
      cases s.manager.t_map.entries with
      | nil => exact .emptied rest htodo
      | cons i _ => simpa only [htodo] using Effect.erased i.1 rest htodo

theorem callable_base {s : System α} (h : Ordered s) (hs : Callable s) :
    (s.loop.threads 0).point = .exited → s.baseFreed = false := by
  intro hexited
  have hhandler : s.inHandler = false := by
    by_contra hin
    have hlooping := h.handler (by simpa using hin)
    rw [hexited] at hlooping
    cases hlooping
  have hbefore : s.destroying = false := hs.2.resolve_right (by simp [hhandler])
  exact (h.stage.before_destroying hbefore).2.1

theorem Effect.ite {s s' : System α} {p : Prop} [Decidable p] (h : p → Effect s s') :
    Effect s (if p then s' else s) := by
  split_ifs with hp
  · exact h hp
  · exact .same

theorem usable_effect {s : System α} {r : TimerRef} (hs : Usable s r) (f : Timer α → Timer α) :
    Effect s { s with manager := s.manager.atTimer r f } :=
  .timers _ s.held s.inHandler .inl (fun _ => hs.2)
    fun hreaped => atTimer_reaped hs.1 hreaped f s.inHandler

theorem erase_effect {s : System α} (h : Ordered s) (hs : Callable s) (manager : Manager α) :
    Effect s (reap { s with manager }) :=
  .timers _ s.held s.inHandler .inl (callable_base h hs) fun _ => reap_reaped _

theorem expire_effect (s : System α) (r : TimerRef) : Effect s (step s (.expire r)) := by
  refine .ite fun hs => ?_
  cases (s.manager.timers r).expire with
  | none => exact .same
  | some p =>
    refine .timers _ s.held true (fun _ => .inr hs.1) (fun hexited => ?_)
      fun hreaped => atTimer_reaped hs.2 hreaped _ true
    exact absurd (hexited.symm.trans hs.1.1) (by decide)

theorem expireAudit_effect (s : System α) : Effect s (step s .expireAudit) := by
  refine .ite fun hs => ?_
  cases haudit : s.auditTimer with
  | none => exact .same
  | some timer =>
    rw [Option.bind_some]
    cases timer.expire with
    | none => exact .same
    | some p => exact .audited p.2 hs (by simp [haudit])

theorem run_effect {s : System α} (h : Ordered s) : Effect s (step s .run) := by
  simp only [step]
  split_ifs with hs
  · exact .same
  · refine .loop (.run 0 (haveEvents s)) (by simp) (by simp) (fun t events ht => ?_)
      fun hi => by rw [h.unborn hi]; rfl
    cases ht
    exact ⟨rfl,by simpa using hs⟩

theorem step_effect {s : System α} (h : Ordered s) (l : Step α) : Effect s (step s l) := by
  cases l with
  | construct lib =>
    by_cases hs : s.constructing = []
    · have hsame : construct lib s = s := by simp [construct,hs]
      rw [step,hsame]
      exact .same
    · exact .construct lib hs
  | getTimer =>
    exact .ite fun hs => .timers _ _ s.inHandler .inl (callable_base h hs) getTimer_reaped
  | killTimer tid => exact .ite fun hs => erase_effect h hs _
  | audit => exact .ite fun hs => erase_effect h hs _
  | drop r =>
    exact .ite fun hs =>
      .timers _ (s.held.erase r) s.inHandler .inl (fun _ => hs.2) fun _ => reap_reaped _
  | startRounds r lib interval rounds handler => exact .ite fun hs => usable_effect hs _
  | call r c => exact .ite fun hs => usable_effect hs _
  | expire r => exact expire_effect s r
  | expireAudit => exact expireAudit_effect s
  | returned => exact .returned
  | stop waiting =>
    refine .ite fun hs => ?_
    exact .loop (.stop waiting) (by simp) (by simp) (by simp) fun hi => by simp [hs.1] at hi
  | wait =>
    refine .ite fun hs => ?_
    exact .loop .wait (by simp) (by simp) (by simp) fun hi => by simp [hs.1] at hi
  | run => exact run_effect h
  | destroy => exact .ite .destroy
  | owner => exact owner_effect h

theorem create_ordered : Ordered (create : System α) where
  unborn := fun _ => rfl
  single := fun h => absurd (by simp [create]) h
  constructing := List.suffix_refl _
  building := fun _ => rfl
  handler := fun h => by cases h
  stage := .before rfl rfl rfl rfl
  reaped := fun _ _ => rfl

theorem construct_ordered {s : System α} (h : Ordered s) (lib : Libevent)
    (hs : s.constructing ≠ []) : Ordered (construct lib s) := by
  have hdestroying := h.building hs
  obtain ⟨htodo,hbase,hloop⟩ := h.stage.before_destroying hdestroying
  have hsuffix := h.constructing
  simp only [List.suffix_cons_iff,List.suffix_nil] at hsuffix
  unfold construct
  rcases hsuffix with hc | hc | hc | hc
  · have hcreate : s.loop = .create := h.unborn (by simp [hc])
    simp only [hc,hcreate]
    exact {
      unborn := fun hi => by simp at hi
      single := fun _ => start_single
      constructing := List.suffix_cons _ _
      building := fun _ => hdestroying
      handler := fun hin => by
        have hlooping := h.handler hin
        rw [hcreate] at hlooping
        cases hlooping
      stage := .before hdestroying htodo hbase rfl
      reaped := h.reaped }
  · simp only [hc]
    exact {
      unborn := fun hi => by simp at hi
      single := fun _ => h.single (by simp [hc])
      constructing := by simp [List.suffix_cons_iff]
      building := fun _ => hdestroying
      handler := h.handler
      stage := .before hdestroying htodo hbase hloop
      reaped := h.reaped }
  · simp only [hc]
    exact {
      unborn := fun hi => by simp at hi
      single := fun _ => h.single (by simp [hc])
      constructing := List.nil_suffix
      building := fun _ => hdestroying
      handler := h.handler
      stage := .before hdestroying htodo hbase hloop
      reaped := h.reaped }
  · exact absurd hc hs

theorem loop_frame {l : Loop} {x : ThreadJoins.Step} (hstart : x ≠ .start) (hdestroy : x ≠ .destroy) :
    (ThreadJoins.step l x).destroyed = l.destroyed ∧
      ∀ t, (∀ haveEvents, x ≠ .run t haveEvents) ∨ (l.threads t).point = .exited →
        ((ThreadJoins.step l x).threads t).point = (l.threads t).point := by
  cases x with
  | start => exact absurd rfl hstart
  | destroy => exact absurd rfl hdestroy
  | wait =>
    simp only [ThreadJoins.step]
    split_ifs <;> exact ⟨rfl,fun _ _ => rfl⟩
  | stop waiting =>
    simp only [ThreadJoins.step]
    split_ifs <;> exact ⟨rfl,fun _ _ => rfl⟩
  | owner =>
    simp only [ThreadJoins.step]
    split_ifs
    · exact ⟨rfl,fun _ _ => rfl⟩
    · exact ⟨(l.owner_frame 0).2.2.2,fun t _ => (l.owner_frame t).1⟩
  | run t haveEvents =>
    simp only [ThreadJoins.step]
    split_ifs
    · exact ⟨rfl,fun _ _ => rfl⟩
    · refine ⟨(Loop.run_destroyed t haveEvents l).1,fun u hu => ?_⟩
      by_cases hut : u = t
      · subst hut
        have hexited := hu.resolve_left fun hne => hne haveEvents rfl
        simp [Loop.run,hexited]
      · rw [Loop.run_threads_of_ne hut]

theorem loop_ordered {s : System α} (h : Ordered s) {x : ThreadJoins.Step} (hstart : x ≠ .start)
    (hdestroy : x ≠ .destroy)
    (hrun : ∀ t haveEvents, x = .run t haveEvents → t = 0 ∧ s.inHandler = false)
    (hunborn : .init ∈ s.constructing → ThreadJoins.step s.loop x = s.loop) :
    Ordered { s with loop := ThreadJoins.step s.loop x } := by
  obtain ⟨hdestroyed,hpoint⟩ := loop_frame (l := s.loop) hstart hdestroy
  refine {
    unborn := fun hi => (hunborn hi).trans (h.unborn hi)
    single := fun hi => step_single (h.single hi) x hstart fun t e he => (hrun t e he).1
    constructing := h.constructing
    building := h.building
    handler := fun hin => ?_
    stage := ?_
    reaped := h.reaped }
  · refine (hpoint 0 (.inl fun e he => ?_)).trans (h.handler hin)
    exact absurd ((hrun 0 e he).2.symm.trans hin) (by decide)
  · exact h.stage.congr rfl rfl rfl id hdestroyed fun exited => (hpoint 0 (.inr exited)).trans exited

theorem Ordered.keep {s s' : System α} (h : Ordered s) (hloop : s'.loop = s.loop)
    (hconstructing : s'.constructing = s.constructing)
    (hbuilding : s.constructing = [] ∨ s'.destroying = s.destroying)
    (hhandler : s'.inHandler = true → s.inHandler = true ∨ (s.loop.threads 0).point = .looping)
    (hreaped : Reaped s') (hstage : Stage s') : Ordered s' where
  unborn := fun hi => hloop.trans (h.unborn (hconstructing ▸ hi))
  single := fun hi => hloop ▸ h.single (hconstructing ▸ hi)
  constructing := hconstructing ▸ h.constructing
  building := fun hne => by
    have hs : s.constructing ≠ [] := hconstructing ▸ hne
    exact (hbuilding.resolve_left hs).trans (h.building hs)
  handler := fun hin => by
    rw [hloop]
    exact (hhandler hin).elim h.handler id
  stage := hstage
  reaped := hreaped

theorem Ordered.constructed {s : System α} (h : Ordered s) {stmt : DestructorStmt}
    {rest : List DestructorStmt} (htodo : s.todo = stmt::rest) : s.constructing = [] := by
  by_contra hne
  have hnone := (h.stage.before_destroying (h.building hne)).1
  rw [htodo] at hnone
  cases hnone

theorem effect_ordered {s s' : System α} (h : Ordered s) (heffect : Effect s s') : Ordered s' := by
  cases heffect with
  | same => exact h
  | construct lib hs => exact construct_ordered h lib hs
  | timers manager held inHandler hpoint hs hreaped =>
    exact h.keep rfl rfl (.inr rfl) (fun hin => (hpoint hin).imp_right And.left) (hreaped h.reaped)
      (h.stage.congr rfl rfl rfl id rfl id)
  | audited timer hs haudit =>
    have hsome : s.auditTimer ≠ none := Option.isSome_iff_ne_none.mp haudit
    exact h.keep rfl rfl (.inr rfl) (fun _ => .inr hs.1) h.reaped
      (h.stage.congr rfl rfl rfl (fun audit => absurd audit hsome) rfl id)
  | returned =>
    exact h.keep rfl rfl (.inr rfl) (fun hin => by cases hin) h.reaped
      (h.stage.congr rfl rfl rfl id rfl id)
  | loop x hstart hdestroy hrun hunborn => exact loop_ordered h hstart hdestroy hrun hunborn
  | destroy hs =>
    obtain ⟨htodo,hbase,hloop⟩ := h.stage.before_destroying hs.2.1
    exact h.keep rfl rfl (.inl hs.1) .inl h.reaped (.auditTimer rfl rfl hbase hloop)
  | auditTimer rest htodo =>
    obtain ⟨hdestroying,hcoming⟩ := h.stage.coming htodo
    cases hcoming with
    | auditTimer base loop =>
      exact h.keep rfl rfl (.inr rfl) .inl h.reaped (.loop hdestroying rfl base rfl loop)
  | loopDestroyed rest htodo hidle =>
    have hs := h.constructed htodo
    obtain ⟨hdestroying,hcoming⟩ := h.stage.coming htodo
    cases hcoming with
    | loop base audit loop =>
      have hstep : ThreadJoins.step s.loop .destroy = s.loop.destroy := if_pos ⟨hidle,loop⟩
      exact {
        unborn := fun hi => by simp [hs] at hi
        single := fun hi => step_single (h.single hi) .destroy (by simp) (by simp)
        constructing := h.constructing
        building := h.building
        handler := fun hin => by
          rw [hstep]
          exact h.handler hin
        stage := .base hdestroying rfl base audit (congrArg Loop.destroyed hstep)
        reaped := h.reaped }
  | base rest htodo hbase =>
    have hs := h.constructed htodo
    obtain ⟨hdestroying,hcoming⟩ := h.stage.coming htodo
    cases hcoming with
    | base audit loop =>
      have hsingle := h.single (by simp [hs])
      exact h.keep rfl rfl (.inr rfl) .inl h.reaped
        (.after hdestroying (List.suffix_refl _) audit (hsingle.exited loop hbase.1 hbase.2.1))
  | erased tid rest htodo =>
    exact h.keep rfl rfl (.inr rfl) .inl (reap_reaped _) (h.stage.congr rfl rfl rfl id rfl id)
  | emptied rest htodo =>
    obtain ⟨hdestroying,hcoming⟩ := h.stage.coming htodo
    cases hcoming with
    | timers audit exited =>
      exact h.keep rfl rfl (.inr rfl) .inl h.reaped
        (.after hdestroying (List.suffix_cons _ _) audit exited)

theorem Ordered.freed {s : System α} (h : Ordered s) (hfreed : s.baseFreed = true) :
    s.destroying = true ∧ s.todo <:+ [.timers] ∧ s.auditTimer = none ∧
      (s.loop.threads 0).point = .exited := by
  cases h.stage with
  | before _ _ base => exact absurd (base.symm.trans hfreed) (by decide)
  | auditTimer _ _ base => exact absurd (base.symm.trans hfreed) (by decide)
  | loop _ _ base => exact absurd (base.symm.trans hfreed) (by decide)
  | base _ _ base => exact absurd (base.symm.trans hfreed) (by decide)
  | after destroying todo audit exited => exact ⟨destroying,todo,audit,exited⟩

theorem effect_freed {s s' : System α} (h : Ordered s) (hfreed : s.baseFreed = true)
    (hreleased : Released s) (heffect : Effect s s') :
    (∀ o, eventOf s' o = eventOf s o) ∧ ∀ o, DiesWith s' o → DiesWith s o := by
  obtain ⟨hdestroying,htodo,haudit,hexited⟩ := h.freed hfreed
  have hhead {stmt : DestructorStmt} {rest : List DestructorStmt} {P : Prop}
      (hstmt : s.todo = stmt::rest) (hne : stmt ≠ .timers) : P := by
    rw [hstmt,List.suffix_cons_iff] at htodo
    simp [hne] at htodo
  have hlooping {P : Prop} (hs : Polling s) : P := absurd (hexited.symm.trans hs.1) (by decide)
  cases heffect with
  | same => exact ⟨fun _ => rfl,fun _ => id⟩
  | construct lib hs => exact absurd ((h.building hs).symm.trans hdestroying) (by decide)
  | timers manager held inHandler hpoint hs hreaped =>
    exact absurd ((hs hexited).symm.trans hfreed) (by decide)
  | audited timer hs => exact hlooping hs
  | returned => exact ⟨fun o => by cases o <;> rfl,fun o => by cases o <;> exact id⟩
  | loop x => exact ⟨fun o => by cases o <;> rfl,fun o => by cases o <;> exact id⟩
  | destroy hs => exact absurd (hs.2.1.symm.trans hdestroying) (by decide)
  | auditTimer rest hstmt => exact hhead hstmt (by decide)
  | loopDestroyed rest hstmt => exact hhead hstmt (by decide)
  | base rest hstmt => exact hhead hstmt (by decide)
  | emptied rest => exact ⟨fun o => by cases o <;> rfl,fun o => by cases o <;> exact id⟩
  | erased tid rest hstmt =>
    have hmap {r : TimerRef}
        (hr : InMap (reap { s with manager := (s.manager.killTimer tid).2 }) r) : InMap s r := by
      obtain ⟨i,hi,rfl⟩ := List.mem_map.mp hr
      exact List.mem_map_of_mem (f := Prod.snd) (KeyTable.mem_eraseUnless.mp hi).1
    constructor
    · intro o
      cases o with
      | audit => rfl
      | timer r =>
        by_cases halive : Alive { s with manager := (s.manager.killTimer tid).2 } r
        · exact congrArg Timer.event (if_pos halive)
        · have hidle : (s.manager.timers r).event = none := by
            by_cases hr : InMap s r
            · exact hreleased hfreed (.timer r) ⟨hr,fun hheld => halive (.inl hheld)⟩
            · exact h.reaped r fun hs => hs.elim (fun hheld => halive (.inl hheld)) hr
          refine Eq.trans ?_ hidle.symm
          exact (congrArg Timer.event (if_neg halive)).trans (reset_event _)
    · intro o
      cases o with
      | audit => exact id
      | timer r => exact fun ⟨hr,hheld⟩ => ⟨hmap hr,hheld⟩

theorem owner_atBase {s : System α} (hs : AtBase s) :
    owner s = { s with baseFreed := true, todo := s.todo.tail } := by
  obtain ⟨hidle,hrun,hhead⟩ := hs
  obtain ⟨rest,htodo⟩ := List.head?_eq_some_iff.mp hhead
  simp [owner,hidle,hrun,htodo]

theorem step_baseFreed {s : System α} {l : Step α} (hl : ¬ (l = .owner ∧ AtBase s)) :
    (step s l).baseFreed = s.baseFreed := by
  cases l with
  | construct lib =>
    simp only [step,construct]
    split <;> rfl
  | expire r =>
    simp only [step]
    split_ifs
    · split <;> rfl
    · rfl
  | expireAudit =>
    simp only [step]
    split_ifs
    · split <;> rfl
    · rfl
  | returned => rfl
  | owner =>
    have hbase : ¬ AtBase s := fun hs => hl ⟨rfl,hs⟩
    simp only [step,owner]
    split_ifs with hcall hterminated
    · rfl
    · rfl
    cases htodo : s.todo with
    | nil => rfl
    | cons stmt rest =>
      cases stmt with
      | auditTimer => rfl
      | loop => rfl
      | base => exact absurd ⟨not_not.mp hcall,by simpa using hterminated,by rw [htodo]; rfl⟩ hbase
      | timers => cases s.manager.t_map.entries <;> rfl
  | _ =>
    simp only [step]
    split_ifs <;> rfl

/-- The step lemma: only `event_base_free` decides. -/
theorem step_released {s : System α} (l : Step α) (h : Ordered s) (hreleased : Released s) :
    Ordered (step s l) ∧ (Released (step s l) ↔ MapIdle s l) := by
  have heffect := step_effect h l
  refine ⟨effect_ordered h heffect,?_⟩
  by_cases hl : l = .owner ∧ AtBase s
  · obtain ⟨rfl,hs⟩ := hl
    have htodo : ∃ rest, s.todo = .base::rest := List.head?_eq_some_iff.mp hs.2.2
    have haudit : s.auditTimer = none := by
      obtain ⟨rest,htodo⟩ := htodo
      cases (h.stage.coming htodo).2 with
      | base audit => exact audit
    have hstep : step s .owner = { s with baseFreed := true, todo := s.todo.tail } := owner_atBase hs
    rw [hstep]
    constructor
    · intro hafter _ r hmap hheld
      exact hafter rfl (.timer r) ⟨hmap,hheld⟩
    · intro hidle _ o ho
      cases o with
      | audit => simp [eventOf,haudit]
      | timer r => exact hidle hs r ho.1 ho.2
  · have hidle : MapIdle s l := by
      cases l with
      | owner => exact fun hs => absurd ⟨rfl,hs⟩ hl
      | _ => trivial
    refine ⟨fun _ => hidle,fun _ hfreed o ho => ?_⟩
    rw [step_baseFreed hl] at hfreed
    obtain ⟨hevents,hdies⟩ := effect_freed h hfreed hreleased heffect
    rw [hevents]
    exact hreleased hfreed o (hdies o ho)

/-- In every run, the events that go with a manager are freed before the base, and none is
touched after it, if and only if the map has no timer of its own with an event by then. -/
theorem timers_released_iff (run : List (Step α)) :
    Always step Released create run ∧ Along step Untouched create run ↔
      Along step MapIdle create run := by
  have hcreate : Released (create : System α) := fun h => by cases h
  have hreleased : Always step Released create run ↔ Along step MapIdle create run :=
    always_iff_along (fun _ l h hs _ => step_released l h hs) create_ordered hcreate
      (along_true step _ _)
  refine ⟨fun h => hreleased.mp h.1,fun h => ⟨hreleased.mpr h,?_⟩⟩
  exact along_of_invariant (J := fun s => Ordered s ∧ Released s)
    (fun _ l hs hl => ⟨(step_released l hs.1 hs.2).1,(step_released l hs.1 hs.2).2.mpr hl⟩)
    (fun _ l hs _ hfreed => (effect_freed hs.1 hfreed hs.2 (step_effect hs.1 l)).1)
    ⟨create_ordered,hcreate⟩ h

/-- A timer is started and left to the map, and its event is freed after the base. -/
theorem freed_after_base : ¬ ∀ run : List (Step Unit),
    Always step Released create run ∧ Along step Untouched create run := by
  intro h
  obtain ⟨hreleased,-⟩ := h [.construct ⟨true,true⟩,.construct ⟨true,true⟩,.construct ⟨true,true⟩,
    .run,.run,.getTimer,.startRounds 0 ⟨true,true⟩ 10 5 (.user ()),.drop 0,.destroy,.owner,.owner,
    .owner,.owner,.owner,.run,.run,.run,.owner,.owner,.owner]
  have hnone := hreleased _ List.prefix_rfl (by decide) (.timer 0) ⟨by decide,by decide⟩
  exact absurd hnone (by decide)

end ManagerTeardown
end Translib
