import Mathlib.Logic.Function.Basic
import Mathlib.Tactic

/-! The event loop, its thread, and the calls of its owner. A call is taken apart where
the loop thread can come in between: each test of the status is a statement of its own. -/

namespace Translib

/-- `_status`. -/
inductive Status
  | init | running | finished
  deriving DecidableEq, Repr

/-- Where a thread stands in `_run`: before `_status = StatusRunning`, before
`onBeforeLoop`, in `event_base_loop`, out of it, and after `_status = StatusFinished`. -/
inductive RunPoint
  | unborn | entered | ready | looping | left | done | exited
  deriving DecidableEq, Repr

structure StdThread where
  point : RunPoint
  joinable : Bool
  deriving DecidableEq, Repr

/-- A pointer to a `std::thread`. -/
abbrev ThreadRef := ℕ

/-- `exitPending` is the event `event_base_loopexit` leaves in the base, `breakPending` the
flag `event_base_loopbreak` sets. -/
structure EventBase where
  isLooping : Bool
  exitPending : Bool
  breakPending : Bool
  deriving DecidableEq, Repr

/-- The statements of `stop`, `wait` and `~Loop` that see or change shared state. -/
inductive OwnerStmt
  | stop (waiting : Bool)
  | loopExit (waiting : Bool)
  | wait | join | deleteThread
  deriving DecidableEq, Repr

/-- `threads` is what thread pointers point to, `todo` what is left of the owner's call. -/
structure Loop where
  base : EventBase
  thread : Option ThreadRef
  threads : ThreadRef → StdThread
  created : ℕ
  status : Status
  todo : List OwnerStmt
  destroyed : Bool
  terminated : Bool

namespace Loop

def create : Loop where
  base := ⟨false,false,false⟩
  thread := none
  threads := fun _ => ⟨.unborn,false⟩
  created := 0
  status := .init
  todo := []
  destroyed := false
  terminated := false

def setThread (t : ThreadRef) (thread : StdThread) (l : Loop) : Loop :=
  { l with threads := Function.update l.threads t thread }

def setPoint (t : ThreadRef) (point : RunPoint) (l : Loop) : Loop :=
  l.setThread t { l.threads t with point := point }

/-- The next statement of `_run` on the thread `t`. `event_base_loop` is left when a stop
was asked for or, as `haveEvents` tells, no event is registered; it returns at once when
another thread is in it, and forgets a break asked for before. -/
def run (t : ThreadRef) (haveEvents : Bool) (l : Loop) : Loop :=
  match (l.threads t).point with
  | .entered => { l.setPoint t .ready with status := .running }
  | .ready =>
    if l.base.isLooping then l.setPoint t .left
    else { l.setPoint t .looping with base := { l.base with isLooping := true, breakPending := false } }
  | .looping =>
    if l.base.exitPending || l.base.breakPending || !haveEvents then
      { l.setPoint t .left with base := ⟨false,false,false⟩ }
    else l
  | .left => { l.setPoint t .done with status := .finished }
  | .done => l.setPoint t .exited
  | _ => l

@[simp] theorem setPoint_point (t : ThreadRef) (point : RunPoint) (l : Loop) :
    ((l.setPoint t point).threads t).point = point := by
  simp [setPoint,setThread]

/-- What the next statement of `_run` can make of the loop. -/
inductive RunEffect (t : ThreadRef) (haveEvents : Bool) (l : Loop) : Loop → Prop
  | running (hpoint : (l.threads t).point = .entered) :
      RunEffect t haveEvents l { l.setPoint t .ready with status := .running }
  | refused (hpoint : (l.threads t).point = .ready) (hin : l.base.isLooping = true) :
      RunEffect t haveEvents l (l.setPoint t .left)
  | loops (hpoint : (l.threads t).point = .ready) (hin : l.base.isLooping = false) :
      RunEffect t haveEvents l { l.setPoint t .looping with
        base := { l.base with isLooping := true, breakPending := false } }
  | leaves (hpoint : (l.threads t).point = .looping)
      (hleave : (l.base.exitPending || l.base.breakPending || !haveEvents) = true) :
      RunEffect t haveEvents l { l.setPoint t .left with base := ⟨false,false,false⟩ }
  | stays (hpoint : (l.threads t).point = .looping)
      (hstay : (l.base.exitPending || l.base.breakPending || !haveEvents) = false) :
      RunEffect t haveEvents l l
  | finished (hpoint : (l.threads t).point = .left) :
      RunEffect t haveEvents l { l.setPoint t .done with status := .finished }
  | exits (hpoint : (l.threads t).point = .done) : RunEffect t haveEvents l (l.setPoint t .exited)
  | outside (hpoint : (l.threads t).point = .unborn ∨ (l.threads t).point = .exited) :
      RunEffect t haveEvents l l

theorem run_effect (t : ThreadRef) (haveEvents : Bool) (l : Loop) :
    RunEffect t haveEvents l (l.run t haveEvents) := by
  unfold run
  cases hpoint : (l.threads t).point with
  | entered => exact .running hpoint
  | ready =>
    simp only
    split_ifs with hin
    · exact .refused hpoint hin
    · exact .loops hpoint (by simpa using hin)
  | looping =>
    simp only
    split_ifs with hleave
    · exact .leaves hpoint hleave
    · exact .stays hpoint (by simpa using hleave)
  | left => exact .finished hpoint
  | done => exact .exits hpoint
  | unborn => exact .outside (.inl hpoint)
  | exited => exact .outside (.inr hpoint)

/-- What a statement of `_run` leaves alone. -/
theorem run_frame (t : ThreadRef) (haveEvents : Bool) (l : Loop) :
    ∃ point base status,
      l.run t haveEvents = { l.setPoint t point with base := base, status := status } := by
  have hsame : l.setPoint t (l.threads t).point = l := by
    simp [setPoint,setThread,Function.update_eq_self]
  have hstays : ∃ point base status, l = { l.setPoint t point with base := base, status := status } :=
    ⟨(l.threads t).point,l.base,l.status,by rw [hsame]⟩
  have heffect := l.run_effect t haveEvents
  generalize l.run t haveEvents = l' at heffect ⊢
  cases heffect with
  | stays => exact hstays
  | outside => exact hstays
  | _ => exact ⟨_,_,_,rfl⟩

@[simp] theorem run_todo (t : ThreadRef) (haveEvents : Bool) (l : Loop) :
    (l.run t haveEvents).todo = l.todo := by
  obtain ⟨point,base,status,h⟩ := l.run_frame t haveEvents
  rw [h]
  rfl

@[simp] theorem run_thread (t : ThreadRef) (haveEvents : Bool) (l : Loop) :
    (l.run t haveEvents).thread = l.thread := by
  obtain ⟨point,base,status,h⟩ := l.run_frame t haveEvents
  rw [h]
  rfl

@[simp] theorem run_joinable (t u : ThreadRef) (haveEvents : Bool) (l : Loop) :
    ((l.run t haveEvents).threads u).joinable = (l.threads u).joinable := by
  obtain ⟨point,base,status,h⟩ := l.run_frame t haveEvents
  rw [h]
  by_cases hu : u = t
  · subst hu
    simp [setPoint,setThread]
  · simp [setPoint,setThread,hu]

theorem run_threads_of_ne {t u : ThreadRef} (h : u ≠ t) (haveEvents : Bool) (l : Loop) :
    (l.run t haveEvents).threads u = l.threads u := by
  obtain ⟨point,base,status,hrun⟩ := l.run_frame t haveEvents
  rw [hrun]
  simp [setPoint,setThread,h]

@[simp] theorem run_created (t : ThreadRef) (haveEvents : Bool) (l : Loop) :
    (l.run t haveEvents).created = l.created := by
  obtain ⟨point,base,status,h⟩ := l.run_frame t haveEvents
  rw [h]
  rfl

@[simp] theorem run_destroyed (t : ThreadRef) (haveEvents : Bool) (l : Loop) :
    (l.run t haveEvents).destroyed = l.destroyed ∧
      (l.run t haveEvents).terminated = l.terminated := by
  obtain ⟨point,base,status,h⟩ := l.run_frame t haveEvents
  rw [h]
  exact ⟨rfl,rfl⟩

/-- `start(true)`. A second thread replaces the first one when it is created before the
first one has set the status. -/
def start (l : Loop) : Bool × Loop :=
  if l.status ≠ .init then (false,l)
  else
    (true,{ l.setThread l.created ⟨.entered,true⟩ with
      thread := some l.created
      created := l.created+1 })

/-- `_thread = new std::thread(...)`. -/
def newThread (l : Loop) : Loop :=
  { l.setThread l.created ⟨.entered,true⟩ with
    thread := some l.created
    created := l.created+1 }

theorem start_eq (l : Loop) :
    l.start = if l.status ≠ .init then (false,l) else (true,l.newThread) := rfl

/-- `_run()` of `start(false)`. The thread of the caller counts as one of the loop. -/
def callRun (l : Loop) : Loop :=
  { l.setThread l.created ⟨.entered,false⟩ with created := l.created+1 }

def wait (l : Loop) : Loop := { l with todo := [.wait] }

def stop (waiting : Bool) (l : Loop) : Loop := { l with todo := [.stop waiting] }

/-- The body of `~Loop` up to `delete _thread`. -/
def destroy (l : Loop) : Loop :=
  { l with
    destroyed := true
    todo := if l.thread.isSome then [.stop true,.wait,.deleteThread] else [] }

/-- The first statement of what is left of the owner's call. A join waits for the thread,
and throws on a thread that was joined before, which the destructor does not survive. -/
def owner (l : Loop) : Loop :=
  match l.todo with
  | [] => l
  | .stop waiting::rest =>
    if l.status = .finished then { l with todo := rest }
    else { l with todo := .loopExit waiting::rest }
  | .loopExit waiting::rest =>
    { l with
      todo := rest
      base := if waiting then { l.base with exitPending := true }
        else { l.base with breakPending := true } }
  | .wait::rest =>
    if l.thread.isSome && l.status ≠ .finished then { l with todo := .join::rest }
    else { l with todo := rest }
  | .join::rest =>
    match l.thread with
    | none => l
    | some t =>
      if !(l.threads t).joinable then { l with todo := [], terminated := l.destroyed }
      else if (l.threads t).point = .exited then
        { l.setThread t { l.threads t with joinable := false } with todo := rest }
      else l
  | .deleteThread::rest =>
    match l.thread with
    | none => l
    | some t => { l with todo := rest, terminated := (l.threads t).joinable }

inductive OwnerEffect (l : Loop) : Loop → Prop
  | idle (htodo : l.todo = []) : OwnerEffect l l
  | finished (waiting : Bool) (rest : List OwnerStmt) (htodo : l.todo = .stop waiting::rest)
      (hstatus : l.status = .finished) : OwnerEffect l { l with todo := rest }
  | stop (waiting : Bool) (rest : List OwnerStmt) (htodo : l.todo = .stop waiting::rest)
      (hstatus : l.status ≠ .finished) : OwnerEffect l { l with todo := .loopExit waiting::rest }
  | loopExit (waiting : Bool) (rest : List OwnerStmt) (htodo : l.todo = .loopExit waiting::rest) :
      OwnerEffect l { l with
        todo := rest
        base := if waiting then { l.base with exitPending := true }
          else { l.base with breakPending := true } }
  | passed (rest : List OwnerStmt) (htodo : l.todo = .wait::rest)
      (hnone : l.thread = none ∨ l.status = .finished) : OwnerEffect l { l with todo := rest }
  | wait (rest : List OwnerStmt) (htodo : l.todo = .wait::rest) (hthread : l.thread.isSome)
      (hstatus : l.status ≠ .finished) : OwnerEffect l { l with todo := .join::rest }
  | noThread (hthread : l.thread = none) : OwnerEffect l l
  | throws (t : ThreadRef) (rest : List OwnerStmt) (htodo : l.todo = .join::rest)
      (hthread : l.thread = some t) (hjoinable : (l.threads t).joinable = false) :
      OwnerEffect l { l with todo := [], terminated := l.destroyed }
  | joined (t : ThreadRef) (rest : List OwnerStmt) (htodo : l.todo = .join::rest)
      (hthread : l.thread = some t) (hexited : (l.threads t).point = .exited) :
      OwnerEffect l { l.setThread t { l.threads t with joinable := false } with todo := rest }
  | blocked (rest : List OwnerStmt) (htodo : l.todo = .join::rest) : OwnerEffect l l
  | deleted (t : ThreadRef) (rest : List OwnerStmt) (htodo : l.todo = .deleteThread::rest)
      (hthread : l.thread = some t) :
      OwnerEffect l { l with todo := rest, terminated := (l.threads t).joinable }

theorem owner_effect (l : Loop) : OwnerEffect l l.owner := by
  cases htodo : l.todo with
  | nil =>
    have hstep : l.owner = l := by simp [owner,htodo]
    rw [hstep]
    exact .idle htodo
  | cons stmt rest =>
    cases stmt with
    | stop waiting =>
      simp only [owner,htodo]
      split_ifs with hstatus
      · exact .finished waiting rest htodo hstatus
      · exact .stop waiting rest htodo hstatus
    | loopExit waiting =>
      simp only [owner,htodo]
      exact .loopExit waiting rest htodo
    | wait =>
      simp only [owner,htodo]
      split_ifs with hwait
      · rw [Bool.and_eq_true,decide_eq_true_eq] at hwait
        exact .wait rest htodo hwait.1 hwait.2
      · refine .passed rest htodo ?_
        cases hthread : l.thread with
        | none => exact .inl rfl
        | some t => exact .inr (by simpa [hthread] using hwait)
    | join =>
      cases hthread : l.thread with
      | none =>
        have hstep : l.owner = l := by simp [owner,htodo,hthread]
        rw [hstep]
        exact .noThread hthread
      | some t =>
        by_cases hjoinable : (l.threads t).joinable = true
        · by_cases hexited : (l.threads t).point = .exited
          · have hstep : l.owner =
                { l.setThread t { l.threads t with joinable := false } with todo := rest } := by
              simp [owner,htodo,hthread,hjoinable,hexited]
            rw [hstep]
            exact .joined t rest htodo hthread hexited
          · have hstep : l.owner = l := by simp [owner,htodo,hthread,hjoinable,hexited]
            rw [hstep]
            exact .blocked rest htodo
        · have hstep : l.owner = { l with todo := [], terminated := l.destroyed } := by
            simp [owner,htodo,hthread,hjoinable]
          rw [hstep]
          exact .throws t rest htodo hthread (by simpa using hjoinable)
    | deleteThread =>
      cases hthread : l.thread with
      | none =>
        have hstep : l.owner = l := by simp [owner,htodo,hthread]
        rw [hstep]
        exact .noThread hthread
      | some t =>
        have hstep : l.owner = { l with todo := rest, terminated := (l.threads t).joinable } := by
          simp [owner,htodo,hthread]
        rw [hstep]
        exact .deleted t rest htodo hthread

/-- The owner moves no thread on, and takes none into or out of `event_base_loop`. -/
theorem owner_frame (l : Loop) (t : ThreadRef) :
    (l.owner.threads t).point = (l.threads t).point ∧
      l.owner.base.isLooping = l.base.isLooping ∧ l.owner.created = l.created ∧
      l.owner.destroyed = l.destroyed := by
  have heffect := l.owner_effect
  generalize l.owner = l' at heffect ⊢
  cases heffect with
  | loopExit waiting rest htodo => cases waiting <;> exact ⟨rfl,rfl,rfl,rfl⟩
  | joined u rest htodo hthread hexited =>
    refine ⟨?_,rfl,rfl,rfl⟩
    by_cases hu : t = u
    · subst hu
      simp [setThread]
    · simp [setThread,hu]
  | _ => exact ⟨rfl,rfl,rfl,rfl⟩

/-- The owner sets no status, and asks for the end of the loop by one statement only. -/
theorem owner_requests (l : Loop) :
    l.owner.status = l.status ∧
      (l.owner.base = l.base ∨ ∃ waiting rest, l.todo = .loopExit waiting::rest ∧
        l.owner.base = if waiting then { l.base with exitPending := true }
          else { l.base with breakPending := true }) := by
  have heffect := l.owner_effect
  generalize l.owner = l' at heffect ⊢
  cases heffect with
  | loopExit waiting rest htodo => exact ⟨rfl,.inr ⟨waiting,rest,htodo,rfl⟩⟩
  | _ => exact ⟨rfl,.inl rfl⟩

theorem owner_alive {l : Loop} (hdestroyed : l.destroyed = false) (hrun : l.terminated = false)
    (htodo : .deleteThread ∉ l.todo) :
    l.owner.terminated = false ∧ .deleteThread ∉ l.owner.todo := by
  have hrest {stmt : OwnerStmt} {rest : List OwnerStmt} (h : l.todo = stmt::rest) :
      .deleteThread ∉ rest := fun hmem => htodo (h ▸ List.mem_cons_of_mem stmt hmem)
  have heffect := l.owner_effect
  generalize l.owner = l' at heffect ⊢
  cases heffect with
  | idle => exact ⟨hrun,htodo⟩
  | finished waiting rest h => exact ⟨hrun,hrest h⟩
  | stop waiting rest h => exact ⟨hrun,by simpa using hrest h⟩
  | loopExit waiting rest h => exact ⟨hrun,hrest h⟩
  | passed rest h => exact ⟨hrun,hrest h⟩
  | wait rest h => exact ⟨hrun,by simpa using hrest h⟩
  | noThread => exact ⟨hrun,htodo⟩
  | throws => exact ⟨hdestroyed,List.not_mem_nil⟩
  | joined t rest h => exact ⟨hrun,hrest h⟩
  | blocked => exact ⟨hrun,htodo⟩
  | deleted t rest h => exact absurd (h ▸ List.mem_cons_self) htodo

def Idle (l : Loop) : Prop := l.todo = [] ∧ l.destroyed = false

instance (l : Loop) : Decidable l.Idle := inferInstanceAs (Decidable (_ ∧ _))

end Loop
end Translib
