import Translib.ForeverTimers
import Translib.Loop
import Translib.TransitionMachine

/-! The loop a timer manager owns: its constructor starts the thread before it starts the
audit timer, and the thread leaves `event_base_loop` when no event is registered. -/

namespace Translib
namespace ManagedLoop

open TransitionMachine Timer ForeverTimers

variable {α : Type*}

/-- The statements of the default constructor of `TimerManager`. -/
inductive ConstructorStmt
  | init | newTimer | startForever
  deriving DecidableEq, Repr

/-- `timers` are the ones `getTimer` has made, `inHandler` says that the loop thread is in
the handler of a timer, `fired` counts the expirations of the audit timer since its start. -/
structure System (α : Type*) where
  loop : Loop
  todo : List ConstructorStmt
  auditTimer : Option (Timer Unit)
  fired : Option ℕ
  timers : List (Timer α)
  inHandler : Bool

/-- A timer is dropped when the last reference to it is. `startRounds` is a start whose calls
of libevent may fail. -/
inductive Step (α : Type*)
  | construct (lib : Libevent)
  | getTimer
  | startRounds (i : ℕ) (lib : Libevent) (interval rounds : ℕ) (handler : Handler α)
  | call (i : ℕ) (c : Call α)
  | drop (i : ℕ)
  | expire (i : ℕ)
  | expireAudit
  | returned
  | run
  deriving DecidableEq, Repr

def create : System α := ⟨.create,[.init,.newTimer,.startForever],none,none,[],false⟩

def construct (lib : Libevent) (s : System α) : System α :=
  match s.todo with
  | [] => s
  | .init::rest => { s with loop := s.loop.start.2, todo := rest }
  | .newTimer::rest => { s with auditTimer := some Timer.create, todo := rest }
  | .startForever::rest =>
    match s.auditTimer with
    | none => s
    | some timer =>
      let r := timer.startForever lib TimerManager.auditInterval (.user ())
      { s with auditTimer := some r.2, fired := if r.1 then some 0 else none, todo := rest }

def haveEvents (s : System α) : Bool := s.auditTimer.any isArmed || s.timers.any isArmed

/-- The loop thread is in `event_base_loop`, and in no handler. -/
def Polling (s : System α) : Prop := (s.loop.threads 0).point = .looping ∧ s.inHandler = false

instance (s : System α) : Decidable (Polling s) := inferInstanceAs (Decidable (_ ∧ _))

def step (s : System α) : Step α → System α
  | .construct lib => construct lib s
  | .getTimer => if s.todo = [] then { s with timers := s.timers ++ [Timer.create] } else s
  | .startRounds i lib interval rounds handler =>
    { s with timers := s.timers.modify i fun t => (t.startRounds lib interval rounds handler).2 }
  | .call i c => { s with timers := s.timers.modify i fun t => (call c t).2 }
  | .drop i => { s with timers := s.timers.eraseIdx i }
  | .expire i =>
    if Polling s then
      match s.timers[i]?.bind Timer.expire with
      | none => s
      | some (_,timer) => { s with timers := s.timers.set i timer, inHandler := true }
    else s
  | .expireAudit =>
    if Polling s then
      match s.auditTimer.bind Timer.expire with
      | none => s
      | some (_,timer) =>
        { s with auditTimer := some timer, fired := s.fired.map (· + 1), inHandler := true }
    else s
  | .returned => { s with inHandler := false }
  | .run => if s.inHandler then s else { s with loop := s.loop.run 0 (haveEvents s) }

/-- The loop has not finished, and its thread is not past `event_base_loop`: what is
registered is going to be dispatched. -/
def Dispatching (s : System α) : Prop :=
  s.loop.status ≠ .finished ∧ (s.loop.threads 0).point ∉ [.left,.done,.exited]

/-- When `event_base_loop` looks for events, the audit timer has been started and has fired
fewer than `2^32-1` times, or another timer is armed. -/
def Occupied (s : System α) : Step α → Prop
  | .run => Polling s →
      (∃ n, s.fired = some n ∧ n < 2^32-1) ∨ ∃ timer ∈ s.timers, timer.isArmed = true
  | _ => True

/-- How far the constructor is, and what has become of the audit timer. -/
inductive Constructed : List ConstructorStmt → Option (Timer Unit) → Option ℕ → Prop
  | init : Constructed [.init,.newTimer,.startForever] none none
  | newTimer : Constructed [.newTimer,.startForever] none none
  | startForever : Constructed [.startForever] (some Timer.create) none
  | failed {timer : Timer Unit} (idle : timer.event = none) : Constructed [] (some timer) none
  | counting {timer : Timer Unit} {n : ℕ} (counting : Counting foreverRounds n () timer) :
      Constructed [] (some timer) (some n)
  | ended {timer : Timer Unit} {n : ℕ} (idle : timer.event = none) (all : foreverRounds ≤ n) :
      Constructed [] (some timer) (some n)

inductive Serving (l : Loop) : Prop
  | entered (point : (l.threads 0).point = .entered) (status : l.status = .init)
      (base : l.base = ⟨false,false,false⟩)
  | ready (point : (l.threads 0).point = .ready) (status : l.status = .running)
      (base : l.base = ⟨false,false,false⟩)
  | looping (point : (l.threads 0).point = .looping) (status : l.status = .running)
      (base : l.base = ⟨true,false,false⟩)
  | past (point : (l.threads 0).point ∈ [.left,.done,.exited])

structure Managed (s : System α) : Prop where
  constructed : Constructed s.todo s.auditTimer s.fired
  unborn : .init ∈ s.todo → s.loop = .create
  serving : .init ∉ s.todo → Serving s.loop

theorem create_managed : Managed (create : System α) :=
  ⟨.init,fun _ => rfl,fun h => absurd (by simp [create]) h⟩

theorem auditTimer_armed {todo : List ConstructorStmt} {timer : Option (Timer Unit)}
    {fired : Option ℕ} (h : Constructed todo timer fired) :
    timer.any isArmed = true ↔ ∃ n, fired = some n ∧ n < 2^32-1 := by
  have hforever : foreverRounds = 2^32-1 := rfl
  cases h with
  | init => simp
  | newTimer => simp
  | startForever => simp [Timer.create,isArmed]
  | failed idle => simp [isArmed,idle]
  | counting counting =>
    obtain ⟨event,he,hpending,_⟩ := counting.armed
    have hleft := counting.left
    simp only [Option.any_some,isArmed,he,Option.map_some,Option.getD_some,hpending,true_iff]
    exact ⟨_,rfl,hforever ▸ hleft⟩
  | ended idle all =>
    simp only [Option.any_some,isArmed,idle,Option.map_none,Option.getD_none,Bool.false_eq_true,
      Option.some.injEq,exists_eq_left',false_iff,not_lt]
    exact hforever ▸ all

theorem haveEvents_iff {s : System α} (h : Managed s) :
    haveEvents s = true ↔
      (∃ n, s.fired = some n ∧ n < 2^32-1) ∨ ∃ timer ∈ s.timers, timer.isArmed = true := by
  rw [haveEvents,Bool.or_eq_true,auditTimer_armed h.constructed,List.any_eq_true]

theorem startForever_constructed (lib : Libevent) :
    Constructed [] (some (Timer.create.startForever lib TimerManager.auditInterval (.user ())).2)
      (if (Timer.create.startForever lib TimerManager.auditInterval (.user ())).1 then some 0
        else none) := by
  obtain ⟨eventNew,eventAdd⟩ := lib
  cases eventNew
  · exact .failed rfl
  · cases eventAdd
    · exact .failed rfl
    · have hstart : startForever ⟨true,true⟩ TimerManager.auditInterval (.user ()) Timer.create =
          (true,(startForever ⟨true,true⟩ TimerManager.auditInterval (.user ()) Timer.create).2) := rfl
      exact .counting (startForever_counting hstart)

theorem expire_constructed {todo : List ConstructorStmt} {timer timer' : Timer Unit}
    {fired : Option ℕ} {handler : Handler Unit} (h : Constructed todo (some timer) fired)
    (he : timer.expire = some (handler,timer')) :
    Constructed todo (some timer') (fired.map (· + 1)) := by
  have hidle {timer : Timer Unit} (idle : timer.event = none)
      (he : timer.expire = some (handler,timer')) : False := by
    simp [expire_idle idle] at he
  cases h with
  | startForever => exact (hidle rfl he).elim
  | failed idle => exact (hidle idle he).elim
  | ended idle all => exact (hidle idle he).elim
  | counting counting =>
    rcases counting.expired he with hnext | ⟨hall,hidle⟩
    · exact .counting hnext
    · exact .ended hidle hall

theorem loop_unchanged {s s' : System α} {l : Step α} (hs : Dispatching s) (hloop : s'.loop = s.loop)
    (hl : l ≠ .run) : Dispatching s' ↔ Occupied s l := by
  have hoccupied : Occupied s l := by
    cases l with
    | run => exact absurd rfl hl
    | _ => trivial
  refine ⟨fun _ => hoccupied,fun _ => ?_⟩
  rw [Dispatching,hloop]
  exact hs

theorem construct_managed {s : System α} (h : Managed s) (lib : Libevent) (hs : Dispatching s) :
    Managed (construct lib s) ∧ Dispatching (construct lib s) := by
  obtain ⟨loop,todo,auditTimer,fired,timers,inHandler⟩ := s
  obtain ⟨hconstructed,hunborn,hserving⟩ := h
  cases hconstructed with
  | init =>
    have hloop : loop = .create := hunborn (by simp)
    subst hloop
    refine ⟨⟨.newTimer,fun h => absurd h (by simp [construct]),fun _ => .entered rfl rfl rfl⟩,?_⟩
    simp [Dispatching,construct,Loop.start,Loop.create,Loop.setThread]
  | newTimer => exact ⟨⟨.startForever,fun h => absurd h (by simp [construct]),
      fun _ => hserving (by simp)⟩,hs⟩
  | startForever => exact ⟨⟨startForever_constructed lib,fun h => absurd h (by simp [construct]),
      fun _ => hserving (by simp)⟩,hs⟩
  | failed idle => exact ⟨⟨.failed idle,hunborn,hserving⟩,hs⟩
  | counting counting => exact ⟨⟨.counting counting,hunborn,hserving⟩,hs⟩
  | ended idle all => exact ⟨⟨.ended idle all,hunborn,hserving⟩,hs⟩

theorem run_managed {s : System α} (h : Managed s) (hs : Dispatching s) :
    Managed (step s .run) ∧ (Dispatching (step s .run) ↔ Occupied s .run) := by
  have hevents := haveEvents_iff h
  by_cases hin : s.inHandler = true
  · have hstep : step s .run = s := by simp [step,hin]
    rw [hstep]
    exact ⟨h,fun _ hpolling => absurd hpolling.2 (by simp [hin]),fun _ => hs⟩
  have hstep : step s .run = { s with loop := s.loop.run 0 (haveEvents s) } := by
    simp [step,hin]
  rw [hstep]
  by_cases hborn : .init ∈ s.todo
  · have hloop : s.loop.run 0 (haveEvents s) = s.loop := by
      rw [h.unborn hborn]
      rfl
    rw [hloop]
    refine ⟨h,fun _ hpolling => ?_,fun _ => hs⟩
    have hpoint := hpolling.1
    rw [h.unborn hborn] at hpoint
    cases hpoint
  have hmanaged (hserving : Serving (s.loop.run 0 (haveEvents s))) :
      Managed { s with loop := s.loop.run 0 (haveEvents s) } :=
    ⟨h.constructed,fun hi => absurd hi hborn,fun _ => hserving⟩
  cases h.serving hborn with
  | entered point status base =>
    have hrun : s.loop.run 0 (haveEvents s) = { s.loop.setPoint 0 .ready with status := .running } := by
      simp [Loop.run,point]
    rw [hrun] at hmanaged ⊢
    refine ⟨hmanaged (.ready ?_ rfl base),fun _ hpolling => ?_,fun _ => ?_⟩
    · simp [Loop.setPoint,Loop.setThread]
    · exact absurd (point.symm.trans hpolling.1) (by decide)
    · simp [Dispatching,Loop.setPoint,Loop.setThread]
  | ready point status base =>
    have hrun : s.loop.run 0 (haveEvents s) =
        { s.loop.setPoint 0 .looping with base := ⟨true,false,false⟩ } := by
      simp [Loop.run,point,base]
    rw [hrun] at hmanaged ⊢
    refine ⟨hmanaged (.looping ?_ status rfl),fun _ hpolling => ?_,fun _ => ?_⟩
    · simp [Loop.setPoint,Loop.setThread]
    · exact absurd (point.symm.trans hpolling.1) (by decide)
    · simp [Dispatching,Loop.setPoint,Loop.setThread,status]
  | looping point status base =>
    have hpolling : Polling s := ⟨point,by simpa using hin⟩
    cases hhave : haveEvents s with
    | true =>
      have hrun : s.loop.run 0 true = s.loop := by simp [Loop.run,point,base]
      rw [hrun]
      exact ⟨h,fun _ _ => hevents.mp hhave,fun _ => hs⟩
    | false =>
      have hrun : s.loop.run 0 false = { s.loop.setPoint 0 .left with base := ⟨false,false,false⟩ } := by
        simp [Loop.run,point]
      rw [hhave,hrun] at hmanaged
      rw [hrun]
      refine ⟨hmanaged (.past (by simp [Loop.setPoint,Loop.setThread])),fun hd => ?_,fun ho => ?_⟩
      · simp [Dispatching,Loop.setPoint,Loop.setThread] at hd
      · exact absurd (hevents.mpr (ho hpolling)) (by simp [hhave])
  | past point => exact absurd point hs.2

theorem step_managed {s : System α} (l : Step α) (h : Managed s) (hs : Dispatching s) :
    Managed (step s l) ∧ (Dispatching (step s l) ↔ Occupied s l) := by
  have hkeep (timers : List (Timer α)) (inHandler : Bool) (l : Step α) (hl : l ≠ .run) :
      Managed { s with timers := timers, inHandler := inHandler } ∧
        (Dispatching { s with timers := timers, inHandler := inHandler } ↔ Occupied s l) :=
    ⟨⟨h.constructed,h.unborn,h.serving⟩,loop_unchanged hs rfl hl⟩
  have hself (l : Step α) (hl : l ≠ .run) : Managed s ∧ (Dispatching s ↔ Occupied s l) :=
    ⟨h,loop_unchanged hs rfl hl⟩
  cases l with
  | construct lib =>
    obtain ⟨hmanaged,hdispatching⟩ := construct_managed h lib hs
    exact ⟨hmanaged,fun _ => trivial,fun _ => hdispatching⟩
  | getTimer =>
    simp only [step]
    split_ifs
    · exact hkeep _ _ _ (by simp)
    · exact hself _ (by simp)
  | startRounds i lib interval rounds handler => exact hkeep _ _ _ (by simp)
  | call i c => exact hkeep _ _ _ (by simp)
  | drop i => exact hkeep _ _ _ (by simp)
  | expire i =>
    simp only [step]
    split_ifs
    · cases s.timers[i]?.bind Timer.expire with
      | none => exact hself _ (by simp)
      | some r => exact hkeep _ _ _ (by simp)
    · exact hself _ (by simp)
  | expireAudit =>
    simp only [step]
    split_ifs
    · cases haudit : s.auditTimer with
      | none => exact hself _ (by simp)
      | some timer =>
        have hconstructed := h.constructed
        rw [haudit] at hconstructed
        cases he : timer.expire with
        | none =>
          simp only [Option.bind_some,he]
          exact hself _ (by simp)
        | some r =>
          simp only [Option.bind_some,he]
          exact ⟨⟨expire_constructed hconstructed he,h.unborn,h.serving⟩,
            loop_unchanged hs rfl (by simp)⟩
    · exact hself _ (by simp)
  | returned => exact hkeep _ _ _ (by simp)
  | run => exact run_managed h hs

/-- A start that returns true leaves the timer armed, and in every run the loop dispatches
throughout if and only if it finds an event whenever it looks for one. -/
theorem dispatching_iff (run : List (Step α)) :
    (∀ lib interval rounds handler (timer : Timer α),
      (timer.startRounds lib interval rounds handler).1 = true →
        (timer.startRounds lib interval rounds handler).2.isArmed = true) ∧
    (Always step Dispatching create run ↔ Along step Occupied create run) := by
  constructor
  · intro lib interval rounds handler timer hstart
    obtain ⟨hidle,rfl⟩ := startRounds_true hstart
    rw [startRounds_idle _ _ _ hidle]
    rfl
  · have hcreate : Dispatching (create : System α) := by simp [Dispatching,create,Loop.create]
    exact always_iff_along (fun _ l h hs _ => step_managed l h hs) create_managed hcreate
      (along_true step _ _)

/-- The thread is through before the audit timer is registered. -/
theorem finished_before_audit :
    ¬ ∀ run : List (Step Unit), Always step Dispatching create run := by
  intro h
  have hs := h [.construct ⟨true,true⟩,.run,.run,.run,.run] _ List.prefix_rfl
  exact absurd hs.1 (by decide)

end ManagedLoop
end Translib
