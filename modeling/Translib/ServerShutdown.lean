import Translib.Loop
import Translib.TcpServer
import Translib.TransitionMachine

/-! `listen`, `stop` and `wait` of a server, called from any threads, over its dispatchers with
their loops. A call goes from dispatcher to dispatcher while the loop threads run. -/

namespace Translib
namespace ServerShutdown

open TransitionMachine

/-- `afterListen` says that the call was made when a `listen` had returned true. -/
inductive ServerCall
  | listen | stop
  | wait (afterListen : Bool)
  deriving DecidableEq, Repr

inductive CallStmt
  | start
  | owner (stmt : OwnerStmt)
  deriving DecidableEq, Repr

structure Task where
  call : ServerCall
  todo : List (DispatcherRef × CallStmt)
  deriving DecidableEq, Repr

/-- `listened`, `stopped` and `waited` say that such a call has returned: a `listen` true, a
`wait` that was made after it. -/
structure System (ι : Type*) where
  server : TcpServer
  loops : DispatcherRef → Loop
  tasks : ι → Option Task
  listened : Bool
  stopped : Bool
  waited : Bool

/-- `bound` tells whether the listener could be made. -/
inductive Step (ι : Type*)
  | listen (i : ι) (bound : Bool)
  | stop (i : ι)
  | wait (i : ι)
  | next (i : ι)
  | run (r : DispatcherRef) (t : ThreadRef) (haveEvents : Bool)
  deriving DecidableEq, Repr

variable {ι : Type*} [DecidableEq ι]

def create (threads sessionIdGenerator : ℕ) : System ι where
  server := .create threads sessionIdGenerator
  loops := fun _ => .create
  tasks := fun _ => none
  listened := false
  stopped := false
  waited := false

def dispatchers (s : System ι) : List DispatcherRef := s.server.master :: s.server.slavers

def ServerCall.first : ServerCall → CallStmt
  | .listen => .start
  | .stop => .owner (.stop true)
  | .wait _ => .owner .wait

def wholeTask (call : ServerCall) (s : System ι) : Task :=
  ⟨call,(dispatchers s).map fun r => (r,call.first)⟩

def begin (i : ι) (call : ServerCall) (s : System ι) : System ι :=
  match s.tasks i with
  | some _ => s
  | none => { s with tasks := Function.update s.tasks i (some (wholeTask call s)) }

/-- `join` throws on a thread that was joined before. -/
def throws (l : Loop) : OwnerStmt → Bool
  | .join => l.thread.any fun t => !(l.threads t).joinable
  | _ => false

def finish (call : ServerCall) (s : System ι) : System ι :=
  match call with
  | .listen => { s with listened := true }
  | .stop => { s with stopped := true }
  | .wait afterListen => { s with waited := s.waited || afterListen }

/-- The next statement of the call of a thread. When the master cannot be started, `listen`
returns false; the starts of the slavers are not looked at. -/
def next (i : ι) (s : System ι) : System ι :=
  match s.tasks i with
  | none => s
  | some ⟨call,[]⟩ => { finish call s with tasks := Function.update s.tasks i none }
  | some ⟨call,(r,.start)::rest⟩ =>
    { s with
      loops := Function.update s.loops r (s.loops r).start.2
      tasks := Function.update s.tasks i
        (if (s.loops r).start.1 || r ≠ s.server.master then some ⟨call,rest⟩ else none) }
  | some ⟨call,(r,.owner stmt)::rest⟩ =>
    let l := ({ s.loops r with todo := [stmt] }).owner
    { s with
      loops := Function.update s.loops r { l with todo := [] }
      tasks := Function.update s.tasks i
        (if throws (s.loops r) stmt then none
          else some ⟨call,(l.todo.map fun stmt => (r,.owner stmt)) ++ rest⟩) }

def step (s : System ι) : Step ι → System ι
  | .listen i bound => if bound then begin i .listen s else s
  | .stop i => begin i .stop s
  | .wait i => begin i (.wait s.listened) s
  | .next i => next i s
  | .run r t haveEvents =>
    { s with loops := Function.update s.loops r ((s.loops r).run t haveEvents) }

def NoneIn (p : ServerCall → Prop) (s : System ι) : Prop :=
  ∀ i task, s.tasks i = some task → ¬ p task.call

def Admissible (s : System ι) : Step ι → Prop
  | .listen _ _ => s.listened = false ∧ NoneIn (· = .listen) s
  | .wait _ => NoneIn (fun call => ∃ afterListen, call = .wait afterListen) s
  | _ => True

theorem next_frame (i : ι) (s : System ι) :
    (next i s).server = s.server ∧ ∀ j, j ≠ i → (next i s).tasks j = s.tasks j := by
  unfold next
  split
  next => exact ⟨rfl,fun _ _ => rfl⟩
  next call hi =>
    cases call <;> exact ⟨rfl,fun j hij => Function.update_of_ne hij _ _⟩
  next => exact ⟨rfl,fun j hij => Function.update_of_ne hij _ _⟩
  next => exact ⟨rfl,fun j hij => Function.update_of_ne hij _ _⟩

structure Life where
  point : RunPoint
  exitPending : Bool
  joinable : Bool
  deriving DecidableEq, Repr

namespace Life

def status (a : Life) : Status :=
  match a.point with
  | .unborn | .entered => .init
  | .ready | .looping | .left => .running
  | .done | .exited => .finished

def loop (a : Life) : Loop where
  base := ⟨decide (a.point = .looping),a.exitPending,false⟩
  thread := if a.point = .unborn then none else some 0
  threads := Function.update (fun _ => ⟨.unborn,false⟩) 0 ⟨a.point,a.joinable⟩
  created := if a.point = .unborn then 0 else 1
  status := a.status
  todo := []
  destroyed := false
  terminated := false

def run (haveEvents : Bool) (a : Life) : Life :=
  match a.point with
  | .entered => { a with point := .ready }
  | .ready => { a with point := .looping }
  | .looping => if a.exitPending || !haveEvents then ⟨.left,false,a.joinable⟩ else a
  | .left => { a with point := .done }
  | .done => { a with point := .exited }
  | _ => a

theorem create_loop : (⟨.unborn,false,false⟩ : Life).loop = Loop.create := by
  simp [loop,Loop.create,status]

theorem run_loop (a : Life) (haveEvents : Bool) :
    a.loop.run 0 haveEvents = (a.run haveEvents).loop := by
  obtain ⟨point,exitPending,joinable⟩ := a
  cases point with
  | looping =>
    cases exitPending <;> cases haveEvents <;>
      simp [Loop.run,run,loop,status,Loop.setPoint,Loop.setThread]
  | _ => simp [Loop.run,run,loop,status,Loop.setPoint,Loop.setThread]

theorem run_loop_other (a : Life) {t : ThreadRef} (ht : t ≠ 0) (haveEvents : Bool) :
    a.loop.run t haveEvents = a.loop := by
  simp [Loop.run,loop,ht]

theorem start_loop {a : Life} (h : a.point = .unborn) :
    a.loop.start = (true,(⟨.entered,a.exitPending,true⟩ : Life).loop) := by
  simp [Loop.start,loop,status,h,Loop.setThread]

/-! The statements of `stop` and `wait`. -/

theorem stop_owner (a : Life) : ({ a.loop with todo := [.stop true] }).owner =
    { a.loop with todo := if a.status = .finished then [] else [.loopExit true] } := by
  have hstatus : a.loop.status = a.status := rfl
  by_cases h : a.status = .finished <;> simp [Loop.owner,hstatus,h]

theorem loopExit_owner (a : Life) : ({ a.loop with todo := [.loopExit true] }).owner =
    ({ a with exitPending := true } : Life).loop := rfl

theorem wait_owner (a : Life) : ({ a.loop with todo := [.wait] }).owner =
    { a.loop with todo := if a.point = .unborn ∨ a.status = .finished then [] else [.join] } := by
  obtain ⟨point,exitPending,joinable⟩ := a
  cases point <;> simp [Loop.owner,loop,status]

theorem join_owner {a : Life} (hborn : a.point ≠ .unborn) (hjoinable : a.joinable = true) :
    ({ a.loop with todo := [.join] }).owner =
      if a.point = .exited then ({ a with joinable := false } : Life).loop
      else { a.loop with todo := [.join] } := by
  obtain ⟨point,exitPending,joinable⟩ := a
  cases hjoinable
  cases point with
  | unborn => exact absurd rfl hborn
  | _ => simp [Loop.owner,loop,status,Loop.setThread]

theorem throws_join {a : Life} (hborn : a.point ≠ .unborn) (hjoinable : a.joinable = true) :
    throws a.loop .join = false := by
  simp [throws,loop,hborn,hjoinable]

/-- The thread is past `event_base_loop`. -/
def Past (a : Life) : Prop := a.point = .left ∨ a.point = .done ∨ a.point = .exited

theorem past_of_finished {a : Life} (h : a.status = .finished) : a.Past := by
  unfold status at h
  split at h
  next => cases h
  next => cases h
  next => cases h
  next => cases h
  next => cases h
  next hpoint => exact .inr (.inl hpoint)
  next hpoint => exact .inr (.inr hpoint)

inductive Moves (a : Life) : Life → Prop
  | stays : Moves a a
  | starts (unborn : a.point = .unborn) : Moves a ⟨.entered,a.exitPending,true⟩
  | runs (haveEvents : Bool) : Moves a (a.run haveEvents)
  | asked : Moves a { a with exitPending := true }
  | joined (exited : a.point = .exited) : Moves a { a with joinable := false }

/-- What a call has brought about at a dispatcher when it is done with it: the thread is there,
it is asked to leave or has left, it has left. -/
def Reached : ServerCall → Life → Prop
  | .listen, a => a.point ≠ .unborn
  | .stop, a => a.exitPending = true ∨ a.Past
  | .wait afterListen, a => afterListen = true → a.Past

theorem run_past {a : Life} (h : a.Past) (haveEvents : Bool) : (a.run haveEvents).Past := by
  obtain ⟨point,exitPending,joinable⟩ := a
  rcases h with rfl | rfl | rfl
  · exact .inr (.inl rfl)
  · exact .inr (.inr rfl)
  · exact .inr (.inr rfl)

theorem run_born {a : Life} (h : a.point ≠ .unborn) (haveEvents : Bool) :
    (a.run haveEvents).point ≠ .unborn := by
  obtain ⟨point,exitPending,joinable⟩ := a
  cases point with
  | unborn => exact absurd rfl h
  | looping => cases exitPending <;> cases haveEvents <;> simp [run]
  | _ => simp [run]

theorem run_asked {a : Life} (h : a.exitPending = true) (haveEvents : Bool) :
    (a.run haveEvents).exitPending = true ∨ (a.run haveEvents).Past := by
  obtain ⟨point,exitPending,joinable⟩ := a
  cases h
  cases point with
  | looping => exact .inr (.inl rfl)
  | _ => exact .inl rfl

@[simp] theorem run_joinable (a : Life) (haveEvents : Bool) :
    (a.run haveEvents).joinable = a.joinable := by
  obtain ⟨point,exitPending,joinable⟩ := a
  cases point with
  | looping => cases exitPending <;> cases haveEvents <;> rfl
  | _ => rfl

theorem Moves.reached {a a' : Life} (h : a.Moves a') {call : ServerCall} (ha : Reached call a) :
    Reached call a' := by
  cases h with
  | stays => exact ha
  | starts unborn =>
    cases call with
    | listen => exact absurd unborn ha
    | stop => exact ha.imp_right fun hpast => by simp [Past,unborn] at hpast
    | wait afterListen => exact fun hafter => by simpa [Past,unborn] using ha hafter
  | runs haveEvents =>
    cases call with
    | listen => exact run_born ha haveEvents
    | stop =>
      rcases ha with hasked | hpast
      · exact run_asked hasked haveEvents
      · exact .inr (run_past hpast haveEvents)
    | wait afterListen => exact fun hafter => run_past (ha hafter) haveEvents
  | asked =>
    cases call with
    | stop => exact .inl rfl
    | _ => exact ha
  | joined => cases call <;> exact ha

theorem Moves.born {a a' : Life} (h : a.Moves a') (ha : a.point ≠ .unborn) : a'.point ≠ .unborn :=
  h.reached (show Reached .listen a from ha)

def Joins (a : Life) : Prop := a.joinable = false → a.point = .unborn ∨ a.point = .exited

theorem Moves.joins {a a' : Life} (h : a.Moves a') (ha : a.Joins) : a'.Joins := by
  cases h with
  | stays => exact ha
  | starts => exact fun hjoined => by cases hjoined
  | runs haveEvents =>
    intro hjoined
    rw [run_joinable] at hjoined
    rcases ha hjoined with hpoint | hpoint <;> simp [run,hpoint]
  | asked => exact ha
  | joined exited => exact fun _ => .inr exited

end Life

def Allowed : ServerCall → CallStmt → Prop
  | .listen, stmt => stmt = .start
  | .stop, stmt => stmt = .owner (.stop true) ∨ stmt = .owner (.loopExit true)
  | .wait _, stmt => stmt = .owner .wait ∨ stmt = .owner .join

def Task.left (task : Task) : List DispatcherRef := task.todo.map Prod.fst

/-- The invariant of a call: it is done with the dispatchers it has not yet to come to. A
`listen` has yet to start the others, and a `wait` joins what was not joined before. -/
structure Fits (rs : List DispatcherRef) (a : DispatcherRef → Life) (task : Task) : Prop where
  nodup : task.left.Nodup
  known : ∀ r ∈ task.left, r ∈ rs
  allowed : ∀ p ∈ task.todo, Allowed task.call p.2
  reached : ∀ r ∈ rs, r ∈ task.left ∨ Life.Reached task.call (a r)
  fresh : task.call = .listen → ∀ r ∈ task.left, (a r).point = .unborn
  started : task.call = .wait true → ∀ r ∈ rs, (a r).point ≠ .unborn
  joins : ∀ r, (r,.owner .join) ∈ task.todo → (a r).point ≠ .unborn ∧ (a r).joinable = true

theorem Fits.moved {rs : List DispatcherRef} {a : DispatcherRef → Life} {task : Task}
    (h : Fits rs a task) {r : DispatcherRef} {b : Life} (hmove : (a r).Moves b)
    (hfresh : task.call = .listen → (a r).point = .unborn → b.point = .unborn)
    (hjoins : (∃ afterListen, task.call = .wait afterListen) → (a r).joinable = true →
      b.joinable = true) : Fits rs (Function.update a r b) task := by
  refine ⟨h.nodup,h.known,h.allowed,fun r' hr' => ?_,fun hcall r' hr' => ?_,
    fun hcall r' hr' => ?_,fun r' hr' => ?_⟩
  · by_cases hr : r' = r
    · subst hr
      exact (h.reached r' hr').imp_right fun hreached => by simpa using hmove.reached hreached
    · simpa [hr] using h.reached r' hr'
  · by_cases hr : r' = r
    · subst hr
      simpa using hfresh hcall (h.fresh hcall r' hr')
    · simpa [hr] using h.fresh hcall r' hr'
  · by_cases hr : r' = r
    · subst hr
      simpa using hmove.born (h.started hcall r' hr')
    · simpa [hr] using h.started hcall r' hr'
  · obtain ⟨hborn,hjoinable⟩ := h.joins r' hr'
    by_cases hr : r' = r
    · subst hr
      have hwait : ∃ afterListen, task.call = .wait afterListen := by
        have hallowed := h.allowed _ hr'
        cases hcall : task.call with
        | listen => simp [Allowed,hcall] at hallowed
        | stop => simp [Allowed,hcall] at hallowed
        | wait afterListen => exact ⟨afterListen,rfl⟩
      simpa using ⟨hmove.born hborn,hjoins hwait hjoinable⟩
    · simpa [hr] using h.joins r' hr'

/-- The invariant: with `a` for the loops. -/
structure Sound (s : System ι) (a : DispatcherRef → Life) : Prop where
  loops : s.loops = fun r => (a r).loop
  joins : ∀ r, (a r).Joins
  distinct : (dispatchers s).Nodup
  fits : ∀ i task, s.tasks i = some task → Fits (dispatchers s) a task
  listens : ∀ i j task task', s.tasks i = some task → s.tasks j = some task' →
    task.call = .listen → task'.call = .listen → i = j
  waits : ∀ i j task task', s.tasks i = some task → s.tasks j = some task' →
    (∃ afterListen, task.call = .wait afterListen) →
    (∃ afterListen, task'.call = .wait afterListen) → i = j
  fresh : s.listened = false → NoneIn (· = .listen) s → ∀ r ∈ dispatchers s, (a r).point = .unborn
  listened : s.listened = true → ∀ r ∈ dispatchers s, (a r).point ≠ .unborn
  stopped : s.stopped = true → ∀ r ∈ dispatchers s, Life.Reached .stop (a r)
  waited : s.waited = true → ∀ r ∈ dispatchers s, (a r).Past

omit [DecidableEq ι] in
theorem loops_update {s : System ι} {a : DispatcherRef → Life} (h : Sound s a) (r : DispatcherRef)
    (b : Life) : Function.update s.loops r b.loop = fun r' => (Function.update a r b r').loop := by
  funext r'
  by_cases hr : r' = r
  · subst hr
    simp
  · simp [hr,h.loops]

theorem update_keeps {P : Life → Prop} {rs : List DispatcherRef} {a : DispatcherRef → Life}
    {r : DispatcherRef} {b : Life} (hb : P (a r) → P b) (h : ∀ r ∈ rs, P (a r)) :
    ∀ r' ∈ rs, P (Function.update a r b r') := by
  intro r' hr'
  by_cases hr : r' = r
  · subst hr
    simpa using hb (h r' hr')
  · simpa [hr] using h r' hr'

omit [DecidableEq ι] in
theorem joins_update {s : System ι} {a : DispatcherRef → Life} (h : Sound s a) {r : DispatcherRef}
    {b : Life} (hmove : (a r).Moves b) : ∀ r', (Function.update a r b r').Joins := by
  intro r'
  by_cases hr : r' = r
  · subst hr
    simpa using hmove.joins (h.joins r')
  · simpa [hr] using h.joins r'

omit [DecidableEq ι] in
theorem Sound.moved {s : System ι} {a : DispatcherRef → Life} (h : Sound s a) {r : DispatcherRef}
    {b : Life} (hmove : (a r).Moves b) (hfresh : (a r).point = .unborn → b.point = .unborn)
    (hjoinable : b.joinable = (a r).joinable) :
    Sound { s with loops := Function.update s.loops r b.loop } (Function.update a r b) where
  loops := loops_update h r b
  joins := joins_update h hmove
  distinct := h.distinct
  fits := fun i task hi => (h.fits i task hi).moved hmove (fun _ => hfresh)
    fun _ hj => hjoinable.trans hj
  listens := h.listens
  waits := h.waits
  fresh := fun hlistened hnone => update_keeps (P := fun a => a.point = .unborn) hfresh
    (h.fresh hlistened hnone)
  listened := fun hlistened => update_keeps (P := fun a => a.point ≠ .unborn) hmove.born
    (h.listened hlistened)
  stopped := fun hstopped => update_keeps hmove.reached
    (h.stopped hstopped)
  waited := fun hwaited => update_keeps
    (fun hpast => hmove.reached (show Life.Reached (.wait true) (a r) from fun _ => hpast) rfl)
    (h.waited hwaited)

theorem update_task {tasks : ι → Option Task} {i j : ι} {task task' : Task} {P : ServerCall → Prop}
    (hi : tasks i = some task) {new : Task} (hnew : new.call = task.call)
    (hj : Function.update tasks i (some new) j = some task') (hP : P task'.call) :
    ∃ old, tasks j = some old ∧ P old.call := by
  by_cases hij : j = i
  · subst hij
    simp only [Function.update_self,Option.some.injEq] at hj
    exact ⟨task,hi,by rwa [← hnew,hj]⟩
  · exact ⟨task',by simpa [hij] using hj,hP⟩

theorem Sound.visited {s : System ι} {a : DispatcherRef → Life} (h : Sound s a) {i : ι} {task : Task}
    (hi : s.tasks i = some task) {r : DispatcherRef} {b : Life} (hmove : (a r).Moves b)
    (hfresh : task.call ≠ .listen → (a r).point = .unborn → b.point = .unborn)
    (hjoins : (∀ afterListen, task.call ≠ .wait afterListen) → (a r).joinable = true →
      b.joinable = true)
    {new : Task} (hnew : new.call = task.call)
    (hfits : Fits (dispatchers s) (Function.update a r b) new) :
    Sound { s with
      loops := Function.update s.loops r b.loop
      tasks := Function.update s.tasks i (some new) } (Function.update a r b) where
  loops := loops_update h r b
  joins := joins_update h hmove
  distinct := h.distinct
  fits := fun j task' hj => by
    by_cases hij : j = i
    · subst hij
      simp only [Function.update_self,Option.some.injEq] at hj
      exact hj ▸ hfits
    · have hj' : s.tasks j = some task' := by simpa [hij] using hj
      refine (h.fits j task' hj').moved hmove (fun hcall => hfresh fun hlisten => ?_)
        fun hcall => hjoins fun w hwait => ?_
      · exact hij (h.listens j i task' task hj' hi hcall hlisten)
      · exact hij (h.waits j i task' task hj' hi hcall ⟨w,hwait⟩)
  listens := fun j k task' task'' hj hk hcall hcall' => by
    obtain ⟨old,hold,hcall⟩ := update_task (P := (· = .listen)) hi hnew hj hcall
    obtain ⟨old',hold',hcall'⟩ := update_task (P := (· = .listen)) hi hnew hk hcall'
    exact h.listens j k old old' hold hold' hcall hcall'
  waits := fun j k task' task'' hj hk hcall hcall' => by
    obtain ⟨old,hold,hcall⟩ :=
      update_task (P := fun call => ∃ afterListen, call = .wait afterListen) hi hnew hj hcall
    obtain ⟨old',hold',hcall'⟩ :=
      update_task (P := fun call => ∃ afterListen, call = .wait afterListen) hi hnew hk hcall'
    exact h.waits j k old old' hold hold' hcall hcall'
  fresh := fun hlistened hnone => by
    have hcall : task.call ≠ .listen := fun hlisten =>
      hnone i new (by simp) (hnew.trans hlisten)
    refine update_keeps (P := fun a => a.point = .unborn) (hfresh hcall)
      (h.fresh hlistened fun j task' hj => ?_)
    by_cases hij : j = i
    · subst hij
      cases hi.symm.trans hj
      exact hcall
    · exact hnone j task' (by simpa [hij] using hj)
  listened := fun hlistened => update_keeps (P := fun a => a.point ≠ .unborn) hmove.born
    (h.listened hlistened)
  stopped := fun hstopped => update_keeps hmove.reached
    (h.stopped hstopped)
  waited := fun hwaited => update_keeps
    (fun hpast => hmove.reached (show Life.Reached (.wait true) (a r) from fun _ => hpast) rfl)
    (h.waited hwaited)

theorem Sound.finished {s : System ι} {a : DispatcherRef → Life} (h : Sound s a) {i : ι}
    {task : Task} (hi : s.tasks i = some task) (htodo : task.todo = []) :
    Sound { finish task.call s with tasks := Function.update s.tasks i none } a := by
  have hfits := h.fits i task hi
  have hreached (r : DispatcherRef) (hr : r ∈ dispatchers s) : Life.Reached task.call (a r) :=
    (hfits.reached r hr).resolve_left (by simp [Task.left,htodo])
  have htask {j : ι} {task' : Task} (hj : Function.update s.tasks i none j = some task') :
      s.tasks j = some task' := by
    by_cases hij : j = i
    · subst hij
      simp at hj
    · simpa [hij] using hj
  -- a `listen` is no longer under way only when it has returned
  have hfresh (hcall : task.call ≠ .listen) (hlistened : s.listened = false)
      (hnone : ∀ j task', Function.update s.tasks i none j = some task' → ¬ task'.call = .listen) :
      ∀ r ∈ dispatchers s, (a r).point = .unborn := by
    refine h.fresh hlistened fun j task' hj => ?_
    by_cases hij : j = i
    · subst hij
      cases hi.symm.trans hj
      exact hcall
    · exact hnone j task' (by simpa [hij] using hj)
  have hfits' (j : ι) (task' : Task) (hj : Function.update s.tasks i none j = some task') :
      Fits (dispatchers s) a task' := h.fits j task' (htask hj)
  have hlistens : ∀ j k task' task'', Function.update s.tasks i none j = some task' →
      Function.update s.tasks i none k = some task'' → task'.call = .listen →
      task''.call = .listen → j = k :=
    fun j k task' task'' hj hk => h.listens j k task' task'' (htask hj) (htask hk)
  have hwaits : ∀ j k task' task'', Function.update s.tasks i none j = some task' →
      Function.update s.tasks i none k = some task'' →
      (∃ afterListen, task'.call = .wait afterListen) →
      (∃ afterListen, task''.call = .wait afterListen) → j = k :=
    fun j k task' task'' hj hk => h.waits j k task' task'' (htask hj) (htask hk)
  cases hcall : task.call with
  | listen =>
    rw [hcall] at hreached
    exact ⟨h.loops,h.joins,h.distinct,hfits',hlistens,hwaits,fun hlistened => (by cases hlistened),
      fun _ => hreached,h.stopped,h.waited⟩
  | stop =>
    rw [hcall] at hreached hfresh
    exact ⟨h.loops,h.joins,h.distinct,hfits',hlistens,hwaits,hfresh (by simp),h.listened,
      fun _ => hreached,h.waited⟩
  | wait afterListen =>
    rw [hcall] at hreached hfresh
    refine ⟨h.loops,h.joins,h.distinct,hfits',hlistens,hwaits,hfresh (by simp),h.listened,h.stopped,
      fun hwaited r hr => ?_⟩
    rcases Bool.or_eq_true_iff.mp hwaited with hwaited | hafter
    · exact h.waited hwaited r hr
    · exact hreached r hr hafter

omit [DecidableEq ι] in
theorem Sound.wholeTask {s : System ι} {a : DispatcherRef → Life} (h : Sound s a)
    {call : ServerCall} (hlisten : call = .listen → ∀ r ∈ dispatchers s, (a r).point = .unborn)
    (hwait : call = .wait true → ∀ r ∈ dispatchers s, (a r).point ≠ .unborn) :
    Fits (dispatchers s) a (wholeTask call s) := by
  have hleft : (ServerShutdown.wholeTask call s).left = dispatchers s := by
    simp [ServerShutdown.wholeTask,Task.left,Function.comp_def]
  refine ⟨hleft.symm ▸ h.distinct,fun r hr => hleft ▸ hr,fun p hp => ?_,
    fun r hr => .inl (hleft.symm ▸ hr),fun hcall r hr => hlisten hcall r (hleft ▸ hr),hwait,
    fun r hr => ?_⟩
  · obtain ⟨r,_,rfl⟩ := List.mem_map.mp hp
    cases call with
    | listen => rfl
    | stop => exact .inl rfl
    | wait afterListen => exact .inl rfl
  · obtain ⟨r',_,hfirst⟩ := List.mem_map.mp hr
    cases call <;> simp [ServerCall.first] at hfirst

/-- One call of a kind that nobody else is in. -/
theorem single_begun {s : System ι} {P : ServerCall → Prop}
    (h : ∀ i j task task', s.tasks i = some task → s.tasks j = some task' →
      P task.call → P task'.call → i = j) {i : ι} {new : Task} (hnew : P new.call → NoneIn P s)
    {j k : ι} {task task' : Task} (hj : Function.update s.tasks i (some new) j = some task)
    (hk : Function.update s.tasks i (some new) k = some task') (hcall : P task.call)
    (hcall' : P task'.call) : j = k := by
  by_cases hij : j = i
  · by_cases hik : k = i
    · rw [hij,hik]
    · subst hij
      rw [Function.update_self,Option.some.injEq] at hj
      rw [Function.update_of_ne hik] at hk
      exact absurd hcall' (hnew (hj ▸ hcall) k task' hk)
  · rw [Function.update_of_ne hij] at hj
    by_cases hik : k = i
    · subst hik
      rw [Function.update_self,Option.some.injEq] at hk
      exact absurd hcall (hnew (hk ▸ hcall') j task hj)
    · rw [Function.update_of_ne hik] at hk
      exact h j k task task' hj hk hcall hcall'

theorem Sound.begun {s : System ι} {a : DispatcherRef → Life} (h : Sound s a) {i : ι}
    {call : ServerCall}
    (hlisten : call = .listen → s.listened = false ∧ NoneIn (· = .listen) s)
    (hwait : ∀ afterListen, call = .wait afterListen → afterListen = s.listened ∧
      NoneIn (fun call => ∃ afterListen, call = .wait afterListen) s) : Sound (begin i call s) a := by
  cases hi : s.tasks i with
  | some task =>
    have hsame : begin i call s = s := by simp [begin,hi]
    rwa [hsame]
  | none =>
    have hbegin : begin i call s =
        { s with tasks := Function.update s.tasks i (some (ServerShutdown.wholeTask call s)) } := by
      simp [begin,hi]
    have hfits : Fits (dispatchers s) a (ServerShutdown.wholeTask call s) :=
      h.wholeTask (fun hcall => h.fresh (hlisten hcall).1 (hlisten hcall).2)
        fun hcall => h.listened (hwait true hcall).1.symm
    rw [hbegin]
    refine ⟨h.loops,h.joins,h.distinct,fun j task hj => ?_,fun j k task task' hj hk => ?_,
      fun j k task task' hj hk => ?_,fun hlistened hnone => ?_,h.listened,h.stopped,h.waited⟩
    · by_cases hij : j = i
      · subst hij
        cases (Function.update_self ..).symm.trans hj
        exact hfits
      · exact h.fits j task ((Function.update_of_ne hij ..).symm.trans hj)
    · exact single_begun h.listens (fun hcall => (hlisten hcall).2) hj hk
    · exact single_begun (P := fun call => ∃ afterListen, call = .wait afterListen) h.waits
        (fun ⟨afterListen,hcall⟩ => (hwait afterListen hcall).2) hj hk
    · refine h.fresh hlistened fun j task hj => ?_
      have hij : j ≠ i := by
        rintro rfl
        rw [hi] at hj
        cases hj
      exact hnone j task ((Function.update_of_ne hij ..).trans hj)

theorem Fits.rest {rs : List DispatcherRef} {a : DispatcherRef → Life} {call : ServerCall}
    {r : DispatcherRef} {stmt : CallStmt} {rest : List (DispatcherRef × CallStmt)}
    (h : Fits rs a ⟨call,(r,stmt)::rest⟩) {b : Life} (hmove : (a r).Moves b)
    (hreached : Life.Reached call b) : Fits rs (Function.update a r b) ⟨call,rest⟩ := by
  obtain ⟨hr,hnodup⟩ := List.nodup_cons.mp h.nodup
  have hne {r' : DispatcherRef} (hr' : r' ∈ rest.map Prod.fst) : r' ≠ r := fun heq => hr (heq ▸ hr')
  refine ⟨hnodup,fun r' hr' => h.known r' (List.mem_cons_of_mem _ hr'),
    fun p hp => h.allowed p (List.mem_cons_of_mem _ hp),fun r' hr' => ?_,fun hcall r' hr' => ?_,
    fun hcall => ?_,fun r' hr' => ?_⟩
  · by_cases heq : r' = r
    · subst heq
      exact .inr (by simpa using hreached)
    · have hleft := h.reached r' hr'
      rw [Task.left,List.map_cons,List.mem_cons,or_iff_right heq] at hleft
      rw [Function.update_of_ne heq]
      exact hleft
  · simpa [hne hr'] using h.fresh hcall r' (List.mem_cons_of_mem _ hr')
  · exact update_keeps (P := fun a => a.point ≠ .unborn) hmove.born (h.started hcall)
  · simpa [hne (List.mem_map_of_mem hr')] using h.joins r' (List.mem_cons_of_mem _ hr')

theorem Fits.again {rs : List DispatcherRef} {a : DispatcherRef → Life} {call : ServerCall}
    {r : DispatcherRef} {stmt stmt' : CallStmt} {rest : List (DispatcherRef × CallStmt)}
    (h : Fits rs a ⟨call,(r,stmt)::rest⟩) (hallowed : Allowed call stmt')
    (hjoins : stmt' = .owner .join → (a r).point ≠ .unborn ∧ (a r).joinable = true) :
    Fits rs a ⟨call,(r,stmt')::rest⟩ := by
  refine ⟨h.nodup,h.known,fun p hp => ?_,h.reached,h.fresh,h.started,fun r' hr' => ?_⟩
  · rcases List.mem_cons.mp hp with rfl | hp
    · exact hallowed
    · exact h.allowed p (List.mem_cons_of_mem _ hp)
  · rcases List.mem_cons.mp hr' with heq | hr'
    · cases heq
      exact hjoins rfl
    · exact h.joins r' (List.mem_cons_of_mem _ hr')

theorem next_owner {s : System ι} {a : DispatcherRef → Life} (h : Sound s a) {i : ι}
    {call : ServerCall} {r : DispatcherRef} {stmt : OwnerStmt}
    {rest : List (DispatcherRef × CallStmt)}
    (hi : s.tasks i = some ⟨call,(r,.owner stmt)::rest⟩) (b : Life) (left : List OwnerStmt)
    (howner : ({ (a r).loop with todo := [stmt] }).owner = { b.loop with todo := left })
    (hthrows : throws (a r).loop stmt = false) :
    next i s = { s with
      loops := Function.update s.loops r b.loop
      tasks := Function.update s.tasks i
        (some ⟨call,(left.map fun stmt => (r,.owner stmt)) ++ rest⟩) } := by
  have hloop : s.loops r = (a r).loop := congrFun h.loops r
  simp only [next,hi,hloop,howner,hthrows]
  rfl

/-- What is left of a call when it has been at a dispatcher: it is done with it, or has more to do
there. -/
inductive Left (a : Life) (call : ServerCall) (r : DispatcherRef)
    (rest : List (DispatcherRef × CallStmt)) : CallStmt → Task → Prop
  | done (stmt : CallStmt) : Left a call r rest stmt ⟨call,rest⟩
  | exits : Left a call r rest (.owner (.stop true)) ⟨call,(r,.owner (.loopExit true))::rest⟩
  | joins : Left a call r rest (.owner .wait) ⟨call,(r,.owner .join)::rest⟩
  | waits (hpoint : a.point ≠ .exited) :
      Left a call r rest (.owner .join) ⟨call,(r,.owner .join)::rest⟩

def Visits (s : System ι) (a : DispatcherRef → Life) (i : ι) (call : ServerCall) (r : DispatcherRef)
    (stmt : CallStmt) (rest : List (DispatcherRef × CallStmt)) : Prop :=
  ∃ b task, (a r).Moves b ∧ Sound (next i s) (Function.update a r b) ∧
    (next i s).tasks i = some task ∧ Left (a r) call r rest stmt task

theorem visits_done {s : System ι} {a : DispatcherRef → Life} (h : Sound s a) {i : ι}
    {call : ServerCall} {r : DispatcherRef} {stmt : CallStmt}
    {rest : List (DispatcherRef × CallStmt)} (hi : s.tasks i = some ⟨call,(r,stmt)::rest⟩)
    {b : Life} (hmove : (a r).Moves b)
    (hfresh : call ≠ .listen → (a r).point = .unborn → b.point = .unborn)
    (hjoins : (∀ afterListen, call ≠ .wait afterListen) → (a r).joinable = true →
      b.joinable = true)
    (hreached : Life.Reached call b)
    (hnext : next i s = { s with
      loops := Function.update s.loops r b.loop
      tasks := Function.update s.tasks i (some ⟨call,rest⟩) }) :
    Visits s a i call r stmt rest := by
  refine ⟨b,⟨call,rest⟩,hmove,?_,by simp [hnext],.done stmt⟩
  rw [hnext]
  exact h.visited hi hmove hfresh hjoins rfl ((h.fits i _ hi).rest hmove hreached)

theorem visits_again {s : System ι} {a : DispatcherRef → Life} (h : Sound s a) {i : ι}
    {call : ServerCall} {r : DispatcherRef} {stmt stmt' : CallStmt}
    {rest : List (DispatcherRef × CallStmt)} (hi : s.tasks i = some ⟨call,(r,stmt)::rest⟩)
    (hleft : Left (a r) call r rest stmt ⟨call,(r,stmt')::rest⟩)
    (hfits : Fits (dispatchers s) a ⟨call,(r,stmt')::rest⟩)
    (hnext : next i s = { s with
      loops := Function.update s.loops r (a r).loop
      tasks := Function.update s.tasks i (some ⟨call,(r,stmt')::rest⟩) }) :
    Visits s a i call r stmt rest := by
  refine ⟨a r,_,.stays,?_,by simp [hnext],hleft⟩
  rw [hnext]
  refine h.visited hi .stays (fun _ hb => hb) (fun _ hb => hb) rfl ?_
  rwa [Function.update_eq_self]

theorem start_visits {s : System ι} {a : DispatcherRef → Life} (h : Sound s a) {i : ι}
    {r : DispatcherRef} {rest : List (DispatcherRef × CallStmt)}
    (hi : s.tasks i = some ⟨.listen,(r,.start)::rest⟩) : Visits s a i .listen r .start rest := by
  have hunborn : (a r).point = .unborn := (h.fits i _ hi).fresh rfl r List.mem_cons_self
  refine visits_done h hi (.starts hunborn) (fun hne => absurd rfl hne) (fun _ _ => rfl)
    (by simp [Life.Reached]) ?_
  simp only [next,hi,congrFun h.loops r,Life.start_loop hunborn]
  rfl

theorem stop_visits {s : System ι} {a : DispatcherRef → Life} (h : Sound s a) {i : ι}
    {r : DispatcherRef} {rest : List (DispatcherRef × CallStmt)}
    (hi : s.tasks i = some ⟨.stop,(r,.owner (.stop true))::rest⟩) :
    Visits s a i .stop r (.owner (.stop true)) rest := by
  by_cases hfinished : (a r).status = .finished
  · refine visits_done h hi .stays (fun _ hb => hb) (fun _ hb => hb)
      (.inr (Life.past_of_finished hfinished)) ?_
    exact next_owner h hi (a r) [] ((Life.stop_owner (a r)).trans (by rw [if_pos hfinished])) rfl
  · refine visits_again h hi .exits ((h.fits i _ hi).again (.inr rfl) (by simp)) ?_
    exact next_owner h hi (a r) [.loopExit true]
      ((Life.stop_owner (a r)).trans (by rw [if_neg hfinished])) rfl

theorem loopExit_visits {s : System ι} {a : DispatcherRef → Life} (h : Sound s a) {i : ι}
    {r : DispatcherRef} {rest : List (DispatcherRef × CallStmt)}
    (hi : s.tasks i = some ⟨.stop,(r,.owner (.loopExit true))::rest⟩) :
    Visits s a i .stop r (.owner (.loopExit true)) rest :=
  visits_done h hi .asked (fun _ hb => hb) (fun _ hb => hb) (.inl rfl)
    (next_owner h hi { a r with exitPending := true } [] (Life.loopExit_owner (a r)) rfl)

theorem wait_visits {s : System ι} {a : DispatcherRef → Life} (h : Sound s a) {i : ι}
    {afterListen : Bool} {r : DispatcherRef} {rest : List (DispatcherRef × CallStmt)}
    (hi : s.tasks i = some ⟨.wait afterListen,(r,.owner .wait)::rest⟩) :
    Visits s a i (.wait afterListen) r (.owner .wait) rest := by
  have hfits := h.fits i _ hi
  by_cases hpass : (a r).point = .unborn ∨ (a r).status = .finished
  · refine visits_done h hi .stays (fun _ hb => hb) (fun _ hb => hb) ?_
      (next_owner h hi (a r) [] ((Life.wait_owner (a r)).trans (by rw [if_pos hpass])) rfl)
    rintro rfl
    have hborn := hfits.started rfl r (hfits.known r List.mem_cons_self)
    exact Life.past_of_finished (hpass.resolve_left hborn)
  · obtain ⟨hborn,hstatus⟩ := not_or.mp hpass
    refine visits_again h hi .joins (hfits.again (.inr rfl) fun _ => ⟨hborn,?_⟩)
      (next_owner h hi (a r) [.join] ((Life.wait_owner (a r)).trans (by rw [if_neg hpass])) rfl)
    by_contra hjoined
    rcases h.joins r (by simpa using hjoined) with hpoint | hpoint
    · exact hborn hpoint
    · exact hstatus (by simp [Life.status,hpoint])

theorem join_visits {s : System ι} {a : DispatcherRef → Life} (h : Sound s a) {i : ι}
    {afterListen : Bool} {r : DispatcherRef} {rest : List (DispatcherRef × CallStmt)}
    (hi : s.tasks i = some ⟨.wait afterListen,(r,.owner .join)::rest⟩) :
    Visits s a i (.wait afterListen) r (.owner .join) rest := by
  have hfits := h.fits i _ hi
  obtain ⟨hborn,hjoinable⟩ := hfits.joins r List.mem_cons_self
  have hthrows := Life.throws_join hborn hjoinable
  have howner := Life.join_owner hborn hjoinable
  by_cases hexited : (a r).point = .exited
  · rw [if_pos hexited] at howner
    have hnext := next_owner h hi { a r with joinable := false } [] howner hthrows
    exact visits_done h hi (.joined hexited) (fun _ hb => hb)
      (fun hne => absurd rfl (hne afterListen)) (fun _ => .inr (.inr hexited)) hnext
  · rw [if_neg hexited] at howner
    exact visits_again h hi (.waits hexited) hfits (next_owner h hi (a r) [.join] howner hthrows)

theorem visit_sound {s : System ι} {a : DispatcherRef → Life} (h : Sound s a) {i : ι}
    {call : ServerCall} {r : DispatcherRef} {stmt : CallStmt}
    {rest : List (DispatcherRef × CallStmt)} (hi : s.tasks i = some ⟨call,(r,stmt)::rest⟩) :
    Visits s a i call r stmt rest := by
  have hallowed : Allowed call stmt := (h.fits i _ hi).allowed (r,stmt) List.mem_cons_self
  cases call with
  | listen =>
    obtain rfl : stmt = .start := hallowed
    exact start_visits h hi
  | stop =>
    rcases hallowed with rfl | rfl
    · exact stop_visits h hi
    · exact loopExit_visits h hi
  | wait afterListen =>
    rcases hallowed with rfl | rfl
    · exact wait_visits h hi
    · exact join_visits h hi

/-- The step lemma: loops only move on, and a thread that takes a step does so for itself. -/
theorem step_sound {s : System ι} {a : DispatcherRef → Life} (h : Sound s a) {l : Step ι}
    (hl : Admissible s l) :
    ∃ a', Sound (step s l) a' ∧ ∀ r, (a r).Moves (a' r) ∧
      ∀ haveEvents, l = .run r 0 haveEvents → a' r = (a r).run haveEvents := by
  have hsame (s' : System ι) (h : Sound s' a) (hne : ∀ r haveEvents, l ≠ .run r 0 haveEvents) :
      ∃ a', Sound s' a' ∧ ∀ r, (a r).Moves (a' r) ∧
        ∀ haveEvents, l = .run r 0 haveEvents → a' r = (a r).run haveEvents :=
    ⟨a,h,fun r => ⟨.stays,fun haveEvents heq => absurd heq (hne r haveEvents)⟩⟩
  cases l with
  | listen i bound =>
    cases bound with
    | false => exact hsame s h (by simp)
    | true =>
      exact hsame (begin i .listen s) (h.begun (fun _ => hl) fun _ hcall => by cases hcall) (by simp)
  | stop i =>
    exact hsame (begin i .stop s)
      (h.begun (fun hcall => by cases hcall) fun _ hcall => by cases hcall) (by simp)
  | wait i =>
    refine hsame (begin i (.wait s.listened) s)
      (h.begun (fun hcall => by cases hcall) fun afterListen hcall => ?_) (by simp)
    cases hcall
    exact ⟨rfl,hl⟩
  | next i =>
    cases hi : s.tasks i with
    | none =>
      have hnext : next i s = s := by simp [next,hi]
      exact hsame (next i s) (by rwa [hnext]) (by simp)
    | some task =>
      obtain ⟨call,todo⟩ := task
      cases todo with
      | nil =>
        have hnext : next i s = { finish call s with tasks := Function.update s.tasks i none } := by
          simp [next,hi]
        exact hsame (next i s) (hnext ▸ h.finished hi rfl) (by simp)
      | cons p rest =>
        obtain ⟨b,_,hmove,hsound,-⟩ := visit_sound h hi
        refine ⟨_,hsound,fun r => ⟨?_,fun haveEvents heq => by cases heq⟩⟩
        by_cases hr : r = p.1
        · subst hr
          simpa using hmove
        · rw [Function.update_of_ne hr]
          exact .stays
  | run r t haveEvents =>
    by_cases ht : t = 0
    · subst ht
      have hrun : step s (.run r 0 haveEvents) = { s with
          loops := Function.update s.loops r ((a r).run haveEvents).loop } := by
        simp only [step]
        rw [congrFun h.loops r,Life.run_loop]
      have hunborn (hpoint : (a r).point = .unborn) : ((a r).run haveEvents).point = .unborn := by
        simp [Life.run,hpoint]
      refine ⟨_,hrun ▸ h.moved (.runs haveEvents) hunborn (Life.run_joinable _ _),fun r' => ?_⟩
      by_cases hr : r' = r
      · subst hr
        rw [Function.update_self]
        refine ⟨.runs haveEvents,fun haveEvents' heq => ?_⟩
        cases heq
        rfl
      · rw [Function.update_of_ne hr]
        exact ⟨.stays,fun haveEvents' heq => absurd (by cases heq; rfl) hr⟩
    · have hrun : step s (.run r t haveEvents) = s := by
        simp only [step]
        rw [congrFun h.loops r,Life.run_loop_other _ ht,← congrFun h.loops r,Function.update_eq_self]
      exact hsame (step s (.run r t haveEvents)) (hrun.symm ▸ h) fun r' haveEvents' heq =>
        ht (by cases heq; rfl)

omit [DecidableEq ι] in
theorem create_sound (threads sessionIdGenerator : ℕ) :
    Sound (create threads sessionIdGenerator : System ι) fun _ => ⟨.unborn,false,false⟩ where
  loops := funext fun _ => Life.create_loop.symm
  joins := fun _ _ => .inl rfl
  distinct := by
    have hslavers : (TcpServer.create threads sessionIdGenerator).slavers =
        (List.range threads).map (· + 1) := by
      simp [TcpServer.create,TcpServer.setThreads]
    have hmaster : (TcpServer.create threads sessionIdGenerator).master = 0 := by
      simp [TcpServer.create,TcpServer.setThreads]
    rw [dispatchers,create,hslavers,hmaster]
    exact List.nodup_cons.mpr ⟨by simp,List.nodup_range.map (add_left_injective 1)⟩
  fits := fun _ _ hi => by cases hi
  listens := fun _ _ _ _ hi => by cases hi
  waits := fun _ _ _ _ hi => by cases hi
  fresh := fun _ _ _ _ => rfl
  listened := fun h => by cases h
  stopped := fun h => by cases h
  waited := fun h => by cases h

def Life.remaining (a : Life) : ℕ :=
  match a.point with
  | .unborn => 6
  | .entered => 5
  | .ready => 4
  | .looping => 3
  | .left => 2
  | .done => 1
  | .exited => 0

def Life.Leaving (a : Life) : Prop := a.point ≠ .unborn ∧ Life.Reached .stop a

theorem Life.Moves.leaving {a b : Life} (h : a.Moves b) (ha : a.Leaving) :
    b.Leaving ∧ b.remaining ≤ a.remaining := by
  refine ⟨⟨h.born ha.1,h.reached ha.2⟩,?_⟩
  cases h with
  | starts unborn => exact absurd unborn ha.1
  | runs haveEvents =>
    obtain ⟨point,exitPending,joinable⟩ := a
    cases point with
    | looping => cases exitPending <;> cases haveEvents <;> simp [Life.run,Life.remaining]
    | _ => simp [Life.run,Life.remaining]
  | _ => exact le_rfl

theorem Life.Leaving.run {a : Life} (h : a.Leaving) (haveEvents : Bool) :
    (a.run haveEvents).remaining = a.remaining - 1 := by
  obtain ⟨point,exitPending,joinable⟩ := a
  obtain ⟨hborn,hasked⟩ := h
  cases point with
  | unborn => exact absurd rfl hborn
  | looping =>
    have hexit : exitPending = true := by simpa [Life.Reached,Life.Past] using hasked
    subst hexit
    rfl
  | _ => rfl

theorem Life.remaining_eq_zero {a : Life} : a.remaining = 0 ↔ a.point = .exited := by
  obtain ⟨point,exitPending,joinable⟩ := a
  cases point <;> simp [remaining]

theorem Life.Moves.exited {a b : Life} (h : a.Moves b) (ha : a.point = .exited) :
    b.point = .exited := by
  have hleaving : a.Leaving := ⟨by simp [ha],.inr (.inr (.inr ha))⟩
  have hle := (h.leaving hleaving).2
  rw [remaining_eq_zero.mpr ha] at hle
  exact remaining_eq_zero.mp (Nat.le_zero.mp hle)

omit [DecidableEq ι] in
theorem Sound.point {s : System ι} {a : DispatcherRef → Life} (h : Sound s a) (r : DispatcherRef) :
    ((s.loops r).threads 0).point = (a r).point ∧
      ∀ t, t ≠ 0 → ((s.loops r).threads t).point = .unborn := by
  rw [congrFun h.loops r]
  exact ⟨rfl,fun t ht => by simp [Life.loop,ht]⟩

end ServerShutdown
end Translib
