import Translib.ThreadJoins

/-! What becomes of a stop, wherever the thread of the loop stands when it is made. -/

namespace Translib
namespace StopRequests

open TransitionMachine

/-- `stopped` says that a call of `stop` has returned. -/
structure System where
  loop : Loop
  stopped : Bool

inductive Step
  | stop (waiting : Bool)
  | wait
  | owner
  | run (haveEvents : Bool)
  deriving DecidableEq, Repr

/-- `start(true)` has returned true. -/
def started : System := ⟨Loop.create.start.2,false⟩

/-- The next statement of the owner is the last one of a `stop`. -/
def returns (l : Loop) : Bool :=
  match l.todo with
  | .stop _::_ => decide (l.status = .finished)
  | .loopExit _::_ => true
  | _ => false

def step (s : System) : Step → System
  | .stop waiting => { s with loop := ThreadJoins.step s.loop (.stop waiting) }
  | .wait => { s with loop := ThreadJoins.step s.loop .wait }
  | .owner =>
    { loop := ThreadJoins.step s.loop .owner, stopped := s.stopped || returns s.loop }
  | .run haveEvents => { s with loop := ThreadJoins.step s.loop (.run 0 haveEvents) }

def point (s : System) : RunPoint := (s.loop.threads 0).point

def Asked (base : EventBase) : Prop := base.exitPending = true ∨ base.breakPending = true

/-- After a `stop` the thread is past `event_base_loop`, or is asked to leave it. -/
def NotLost (s : System) : Prop :=
  s.stopped = true → point s ∈ [.entered,.ready,.looping] → Asked s.loop.base

/-- When the thread enters `event_base_loop` after a `stop` has returned, an exit has been
asked for. -/
def EntersAsked (s : System) : Step → Prop
  | .run _ => point s = .ready → s.stopped = true → s.loop.base.exitPending = true
  | _ => True

/-- The invariant: nobody else is in `event_base_loop`, and only the thread ends the loop. -/
structure OneThread (s : System) : Prop where
  alone : point s ∈ [.entered,.ready] → s.loop.base.isLooping = false
  finished : s.loop.status = .finished → point s ∉ [.entered,.ready,.looping]
  undestroyed : s.loop.destroyed = false
  alive : s.loop.terminated = false ∧ .deleteThread ∉ s.loop.todo

theorem started_oneThread : OneThread started :=
  ⟨fun _ => rfl,fun h => (by cases h),rfl,rfl,List.not_mem_nil⟩

theorem call_notLost {s : System} {l : Step} {loop : Loop} (h : OneThread s) (hs : NotLost s)
    (hl : EntersAsked s l) (hthreads : loop.threads = s.loop.threads) (hbase : loop.base = s.loop.base)
    (hstatus : loop.status = s.loop.status) (hdestroyed : loop.destroyed = s.loop.destroyed)
    (halive : loop.terminated = false ∧ .deleteThread ∉ loop.todo) :
    OneThread { s with loop := loop } ∧ (NotLost { s with loop := loop } ↔ EntersAsked s l) := by
  have hpoint : point { s with loop := loop } = point s := by simp [point,hthreads]
  refine ⟨⟨?_,?_,hdestroyed.trans h.undestroyed,halive⟩,fun _ => hl,fun _ => ?_⟩
  · rw [hpoint,hbase]
    exact h.alone
  · rw [hpoint,hstatus]
    exact h.finished
  · rw [NotLost,hpoint,hbase]
    exact hs

theorem owner_asked {l : Loop} (h : Asked l.base) : Asked l.owner.base := by
  rcases l.owner_requests.2 with hbase | ⟨waiting,rest,_,hbase⟩
  · rw [hbase]
    exact h
  · cases waiting <;> simp [Asked,hbase]

theorem returns_asked {l : Loop} (h : returns l = true) : l.status = .finished ∨ Asked l.owner.base := by
  unfold returns at h
  split at h
  next waiting rest htodo => exact .inl (by simpa using h)
  next waiting rest htodo =>
    right
    cases waiting <;> simp [Asked,Loop.owner,htodo]
  next => cases h

theorem owner_notLost {s : System} (h : OneThread s) (hs : NotLost s) :
    OneThread (step s .owner) ∧ NotLost (step s .owner) := by
  have hstep : ThreadJoins.step s.loop .owner = s.loop.owner := by
    simp [ThreadJoins.step,h.alive.1]
  obtain ⟨hpoint,hlooping,_,hdestroyed⟩ := s.loop.owner_frame 0
  obtain ⟨hstatus,hbase⟩ := s.loop.owner_requests
  simp only [step,hstep]
  refine ⟨⟨?_,?_,hdestroyed.trans h.undestroyed,
    Loop.owner_alive h.undestroyed h.alive.1 h.alive.2⟩,?_⟩
  · rw [point,hpoint,hlooping]
    exact h.alone
  · rw [point,hpoint,hstatus]
    exact h.finished
  · rw [NotLost,point,hpoint]
    intro hstopped hentering
    rcases Bool.or_eq_true_iff.mp hstopped with hstopped | hreturns
    · exact owner_asked (hs hstopped hentering)
    · exact (returns_asked hreturns).resolve_left fun hfinished => h.finished hfinished hentering

theorem run_notLost {s : System} (h : OneThread s) (hs : NotLost s) (haveEvents : Bool) :
    OneThread (step s (.run haveEvents)) ∧
      (NotLost (step s (.run haveEvents)) ↔ EntersAsked s (.run haveEvents)) := by
  have hstep : ThreadJoins.step s.loop (.run 0 haveEvents) = s.loop.run 0 haveEvents := by
    simp [ThreadJoins.step,h.alive.1]
  have hdestroyed := (s.loop.run_destroyed 0 haveEvents).1.trans h.undestroyed
  have halive : (s.loop.run 0 haveEvents).terminated = false ∧
      .deleteThread ∉ (s.loop.run 0 haveEvents).todo :=
    ⟨(s.loop.run_destroyed 0 haveEvents).2.trans h.alive.1,by simpa using h.alive.2⟩
  have heffect := s.loop.run_effect 0 haveEvents
  simp only [step,hstep]
  generalize s.loop.run 0 haveEvents = l' at heffect hdestroyed halive ⊢
  have hkeep (hpoint : point s ≠ .ready)
      (hpast : (l'.threads 0).point ∉ [.entered,.ready,.looping] ∨ l' = s.loop) :
      OneThread { s with loop := l' } ∧
        (NotLost { s with loop := l' } ↔ EntersAsked s (.run haveEvents)) := by
    rcases hpast with hpast | hsame
    · refine ⟨⟨fun hmem => absurd ?_ hpast,fun _ => hpast,hdestroyed,halive⟩,
        fun _ hready => absurd hready hpoint,fun _ _ hmem => absurd hmem hpast⟩
      exact List.mem_of_mem_dropLast (l := [RunPoint.entered,.ready,.looping]) hmem
    · rw [hsame]
      exact ⟨h,fun _ hready => absurd hready hpoint,fun _ => hs⟩
  cases heffect with
  | running hpoint =>
    have halone := h.alone (by simp [point,hpoint])
    refine ⟨⟨fun _ => halone,fun hf => (by cases hf),hdestroyed,halive⟩,
      fun _ hready => absurd (hpoint.symm.trans hready) (by decide),fun _ hstopped _ => ?_⟩
    exact hs hstopped (by simp [point,hpoint])
  | refused hpoint hin =>
    have halone := h.alone (by simp [point,hpoint])
    exact absurd (halone.symm.trans hin) (by decide)
  | loops hpoint =>
    have hfinished : s.loop.status ≠ .finished :=
      fun hf => h.finished hf (by simp [point,hpoint])
    refine ⟨⟨fun hmem => ?_,fun hf => absurd hf hfinished,hdestroyed,halive⟩,?_⟩
    · simp [point] at hmem
    · simp [NotLost,EntersAsked,point,hpoint,Asked]
  | leaves hpoint => exact hkeep (by simp [point,hpoint]) (.inl (by simp))
  | stays hpoint => exact hkeep (by simp [point,hpoint]) (.inr rfl)
  | finished hpoint => exact hkeep (by simp [point,hpoint]) (.inl (by simp))
  | exits hpoint => exact hkeep (by simp [point,hpoint]) (.inl (by simp))
  | outside hpoint =>
    exact hkeep (by rcases hpoint with hpoint | hpoint <;> simp [point,hpoint]) (.inr rfl)

theorem step_notLost {s : System} (l : Step) (h : OneThread s) (hs : NotLost s) :
    OneThread (step s l) ∧ (NotLost (step s l) ↔ EntersAsked s l) := by
  have hcall (l : Step) (x : ThreadJoins.Step) (hx : ∃ todo, ThreadJoins.step s.loop x =
      { s.loop with todo := todo } ∧ .deleteThread ∉ todo) (hl : EntersAsked s l) :
      OneThread { s with loop := ThreadJoins.step s.loop x } ∧
        (NotLost { s with loop := ThreadJoins.step s.loop x } ↔ EntersAsked s l) := by
    obtain ⟨todo,hx,htodo⟩ := hx
    rw [hx]
    exact call_notLost h hs hl rfl rfl rfl rfl ⟨h.alive.1,htodo⟩
  cases l with
  | stop waiting =>
    refine hcall (.stop waiting) (.stop waiting) ?_ trivial
    simp only [ThreadJoins.step]
    split_ifs
    · exact ⟨_,rfl,by simp⟩
    · exact ⟨_,rfl,h.alive.2⟩
  | wait =>
    refine hcall .wait .wait ?_ trivial
    simp only [ThreadJoins.step]
    split_ifs
    · exact ⟨_,rfl,by simp⟩
    · exact ⟨_,rfl,h.alive.2⟩
  | owner =>
    obtain ⟨hone,hnotLost⟩ := owner_notLost h hs
    exact ⟨hone,fun _ => trivial,fun _ => hnotLost⟩
  | run haveEvents => exact run_notLost h hs haveEvents

/-- In every interleaving no stop is lost if and only if the thread never enters
`event_base_loop` after a stop that asked for a break only. -/
theorem notLost_iff (run : List Step) :
    Always step NotLost started run ↔ Along step EntersAsked started run :=
  always_iff_along (J := OneThread) (fun _ l h hs _ => step_notLost l h hs) started_oneThread
    (fun h => by cases h) (along_true step _ _)

/-- A break that is asked for before the thread is in the loop is forgotten on its entry. -/
theorem break_forgotten : ¬ ∀ run, Always step NotLost started run := by
  intro h
  have hlost := h [.stop false,.owner,.owner,.run true,.run true] _ List.prefix_rfl
  exact absurd (hlost (by decide) (by decide)) (by unfold Asked; decide)

end StopRequests
end Translib
