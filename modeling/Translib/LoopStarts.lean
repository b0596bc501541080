import Translib.Loop
import Translib.TransitionMachine

/-! Any number of calls of `start` on one loop, each taken apart at its test of the status,
with the threads they make. -/

namespace Translib
namespace LoopStarts

open TransitionMachine

/-- Where a call of `start` is: past its test of the status, in the `_run` it has called, or
back. -/
inductive StartCall
  | tested (newThread : Bool)
  | inRun (t : ThreadRef)
  | returned (result : Bool)
  deriving DecidableEq, Repr

structure System where
  loop : Loop
  calls : List StartCall

/-- `start` is a new call, up to its test; `proceed` is what the call with the number `i` does
after it, given the result of `onBeforeStart`; `back` is its return from `_run`. -/
inductive Step
  | start (newThread : Bool)
  | proceed (i : ℕ) (onBeforeStart : Bool)
  | back (i : ℕ)
  | run (t : ThreadRef) (haveEvents : Bool)
  deriving DecidableEq, Repr

def create : System := ⟨.create,[]⟩

def step (s : System) : Step → System
  | .start newThread =>
    if s.loop.status ≠ .init then { s with calls := s.calls ++ [.returned false] }
    else { s with calls := s.calls ++ [.tested newThread] }
  | .proceed i onBeforeStart =>
    match s.calls[i]? with
    | some (.tested newThread) =>
      if !onBeforeStart then { s with calls := s.calls.set i (.returned false) }
      else if newThread then
        { loop := s.loop.newThread, calls := s.calls.set i (.returned true) }
      else { loop := s.loop.callRun, calls := s.calls.set i (.inRun s.loop.created) }
    | _ => s
  | .back i =>
    match s.calls[i]? with
    | some (.inRun t) =>
      if (s.loop.threads t).point ∈ [.done,.exited] then
        { s with calls := s.calls.set i (.returned true) }
      else s
    | _ => s
  | .run t haveEvents => { s with loop := s.loop.run t haveEvents }

/-- At most one call has returned true, and at most one thread has entered `_run`. -/
structure Once (s : System) : Prop where
  started : s.calls.countP (· = .returned true) ≤ 1
  entered : ∀ t u, (s.loop.threads t).point ≠ .unborn → (s.loop.threads u).point ≠ .unborn → t = u

/-- `_thread` is not overwritten. -/
def KeepsThread (s : System) (l : Step) : Prop :=
  ∀ t, s.loop.thread = some t → (step s l).loop.thread = some t

/-- A call that still finds the initial status comes after no other, save those that have
returned false. -/
def AfterStatus (s : System) : Step → Prop
  | .start _ => s.loop.status = .init → ∀ call ∈ s.calls, call = .returned false
  | _ => True

def isTested : StartCall → Bool
  | .tested _ => true
  | _ => false

/-- The call has made a thread, or called `_run`. -/
def hasRun : StartCall → Bool
  | .tested _ => false
  | .inRun _ => true
  | .returned result => result

/-- The threads of the loop are those the calls have brought into `_run`. -/
structure Ran (s : System) : Prop where
  created : s.loop.created = s.calls.countP hasRun
  entered : ∀ t, t < s.loop.created ↔ (s.loop.threads t).point ≠ .unborn
  thread : ∀ t, s.loop.thread = some t → t < s.loop.created

def OneCall (s : System) : Prop := s.calls.countP hasRun + s.calls.countP isTested ≤ 1

theorem create_ran : Ran create :=
  ⟨rfl,fun t => by simp [create,Loop.create],fun t ht => by cases ht⟩

theorem enter_threads {l : Loop} {joinable : Bool}
    (h : ∀ t, t < l.created ↔ (l.threads t).point ≠ .unborn) (t : ThreadRef) :
    t < l.created+1 ↔ ((l.setThread l.created ⟨.entered,joinable⟩).threads t).point ≠ .unborn := by
  by_cases ht : t = l.created
  · simp [ht,Loop.setThread]
  · rw [Nat.lt_succ_iff_lt_or_eq,or_iff_left ht,h t]
    simp [Loop.setThread,ht]

theorem run_unborn (t u : ThreadRef) (haveEvents : Bool) (l : Loop) :
    ((l.run t haveEvents).threads u).point = .unborn ↔ (l.threads u).point = .unborn := by
  by_cases hu : u = t
  · subst hu
    have heffect := l.run_effect u haveEvents
    generalize l.run u haveEvents = l' at heffect ⊢
    cases heffect with
    | stays => exact Iff.rfl
    | outside => exact Iff.rfl
    | _ hpoint => simp [hpoint]
  · rw [Loop.run_threads_of_ne hu]

section Proceed

variable {s : System} {i : ℕ} {newThread : Bool}

theorem countP_set_tested (h : s.calls[i]? = some (.tested newThread)) (c : StartCall) :
    (s.calls.set i c).countP hasRun = s.calls.countP hasRun + (if hasRun c then 1 else 0) ∧
      (s.calls.set i c).countP isTested + 1 =
        s.calls.countP isTested + (if isTested c then 1 else 0) := by
  obtain ⟨hi,hget⟩ := List.getElem?_eq_some_iff.mp h
  have hpos : 0 < s.calls.countP isTested :=
    List.countP_pos_iff.mpr ⟨_,List.mem_of_getElem? h,rfl⟩
  have hrun : hasRun (.tested newThread) = false := rfl
  have htested : isTested (.tested newThread) = true := rfl
  rw [List.countP_set hi,List.countP_set hi,hget]
  simp only [hrun,htested,Bool.false_eq_true,if_false,if_true]
  constructor <;> omega

theorem proceed_eq (h : s.calls[i]? = some (.tested newThread)) :
    ∃ c joinable thread, hasRun c = true ∧ isTested c = false ∧
      (thread = s.loop.thread ∨ thread = some s.loop.created) ∧
      step s (.proceed i true) =
        { loop := { s.loop.setThread s.loop.created ⟨.entered,joinable⟩ with
            thread := thread
            created := s.loop.created+1 }
          calls := s.calls.set i c } := by
  cases newThread with
  | true => exact ⟨.returned true,true,_,rfl,rfl,.inr rfl,by simp [step,h,Loop.newThread]⟩
  | false => exact ⟨.inRun s.loop.created,false,_,rfl,rfl,.inl rfl,by simp [step,h,Loop.callRun]; rfl⟩

theorem proceed_ran (h : s.calls[i]? = some (.tested newThread)) (hs : Ran s) :
    Ran (step s (.proceed i true)) ∧
      (step s (.proceed i true)).loop.created = s.loop.created+1 := by
  obtain ⟨c,joinable,thread,hrun,_,hthread,hstep⟩ := proceed_eq h
  rw [hstep]
  refine ⟨⟨?_,enter_threads hs.entered,?_⟩,rfl⟩
  · rw [(countP_set_tested h c).1,hrun,if_pos rfl]
    exact congrArg (· + 1) hs.created
  · rintro t rfl
    rcases hthread with hthread | hthread
    · exact Nat.lt_succ_of_lt (hs.thread t hthread.symm)
    · cases hthread
      exact Nat.lt_succ_self _

end Proceed

theorem Ran.calls {s : System} (h : Ran s) {calls : List StartCall}
    (hcalls : calls.countP hasRun = s.calls.countP hasRun) : Ran { s with calls := calls } :=
  ⟨h.created.trans hcalls.symm,h.entered,h.thread⟩

inductive Effect (s : System) : Step → System → Prop
  | refused (newThread : Bool) (hstatus : s.loop.status ≠ .init) :
      Effect s (.start newThread) { s with calls := s.calls ++ [.returned false] }
  | tested (newThread : Bool) (hstatus : s.loop.status = .init) :
      Effect s (.start newThread) { s with calls := s.calls ++ [.tested newThread] }
  | failed (i : ℕ) (newThread : Bool) (hcall : s.calls[i]? = some (.tested newThread)) :
      Effect s (.proceed i false) { s with calls := s.calls.set i (.returned false) }
  | enters (i : ℕ) (newThread : Bool) (hcall : s.calls[i]? = some (.tested newThread)) :
      Effect s (.proceed i true) (step s (.proceed i true))
  | back (i : ℕ) (t : ThreadRef) (hcall : s.calls[i]? = some (.inRun t)) :
      Effect s (.back i) { s with calls := s.calls.set i (.returned true) }
  | run (t : ThreadRef) (haveEvents : Bool) :
      Effect s (.run t haveEvents) { s with loop := s.loop.run t haveEvents }
  | same (l : Step) (hl : ∀ newThread, l ≠ .start newThread) : Effect s l s

theorem step_effect (s : System) (l : Step) : Effect s l (step s l) := by
  cases l with
  | start newThread =>
    simp only [step]
    split_ifs with hstatus
    · exact .refused newThread hstatus
    · exact .tested newThread (not_not.mp hstatus)
  | proceed i onBeforeStart =>
    cases hcall : s.calls[i]? with
    | none =>
      have hstep : step s (.proceed i onBeforeStart) = s := by simp [step,hcall]
      rw [hstep]
      exact .same _ (by simp)
    | some call =>
      cases call with
      | tested newThread =>
        cases onBeforeStart with
        | false =>
          simp only [step,hcall,Bool.not_false,if_true]
          exact .failed i newThread hcall
        | true => exact .enters i newThread hcall
      | inRun t =>
        have hstep : step s (.proceed i onBeforeStart) = s := by simp [step,hcall]
        rw [hstep]
        exact .same _ (by simp)
      | returned result =>
        have hstep : step s (.proceed i onBeforeStart) = s := by simp [step,hcall]
        rw [hstep]
        exact .same _ (by simp)
  | back i =>
    simp only [step]
    split
    next t hcall =>
      split_ifs
      · exact .back i t hcall
      · exact .same _ (by simp)
    next => exact .same _ (by simp)
  | run t haveEvents => exact .run t haveEvents

theorem countP_set_inRun {s : System} {i : ℕ} {t : ThreadRef} (h : s.calls[i]? = some (.inRun t)) :
    (s.calls.set i (.returned true)).countP hasRun = s.calls.countP hasRun ∧
      (s.calls.set i (.returned true)).countP isTested = s.calls.countP isTested := by
  obtain ⟨hi,hget⟩ := List.getElem?_eq_some_iff.mp h
  have hpos : 0 < s.calls.countP hasRun :=
    List.countP_pos_iff.mpr ⟨_,List.mem_of_getElem? h,rfl⟩
  have hinRun : hasRun (.inRun t) = true := rfl
  have hreturned : hasRun (.returned true) = true := rfl
  have htested : isTested (.inRun t) = false ∧ isTested (.returned true) = false := ⟨rfl,rfl⟩
  rw [List.countP_set hi,List.countP_set hi,hget]
  simp only [hinRun,hreturned,htested,Bool.false_eq_true,if_false,if_true]
  constructor <;> omega

theorem step_ran {s : System} (l : Step) (h : Ran s) : Ran (step s l) := by
  have heffect := step_effect s l
  generalize step s l = s' at heffect
  cases heffect with
  | refused newThread hstatus => exact h.calls (by simp [hasRun])
  | tested newThread hstatus => exact h.calls (by simp [hasRun])
  | failed i newThread hcall => exact h.calls (by simp [(countP_set_tested hcall _).1,hasRun])
  | enters i newThread hcall => exact (proceed_ran hcall h).1
  | back i t hcall => exact h.calls (countP_set_inRun hcall).1
  | run t haveEvents =>
    refine ⟨?_,fun u => ?_,fun u hu => ?_⟩
    · exact (s.loop.run_created t haveEvents).trans h.created
    · rw [Loop.run_created,h.entered u,not_iff_not]
      exact (run_unborn t u haveEvents s.loop).symm
    · rw [Loop.run_created]
      exact h.thread u (by simpa using hu)
  | same hl => exact h

theorem step_oneCall {s : System} {l : Step} (h : OneCall s) (hl : AfterStatus s l) :
    OneCall (step s l) := by
  unfold OneCall at h ⊢
  have heffect := step_effect s l
  generalize step s l = s' at heffect
  cases heffect with
  | refused newThread hstatus => simpa [hasRun,isTested] using h
  | tested newThread hstatus =>
    have hnone (p : StartCall → Bool) (hp : p (.returned false) = false) : s.calls.countP p = 0 := by
      refine List.countP_eq_zero.mpr fun call hcall => ?_
      rw [hl hstatus call hcall,hp]
      exact Bool.false_ne_true
    rw [List.countP_append,List.countP_append,hnone hasRun rfl,hnone isTested rfl]
    exact le_rfl
  | failed i newThread hcall =>
    have hcount := countP_set_tested hcall (.returned false)
    have hzero : (if hasRun (.returned false) then 1 else 0) = 0 ∧
        (if isTested (.returned false) then 1 else 0) = 0 := ⟨rfl,rfl⟩
    dsimp only
    omega
  | enters i newThread hcall =>
    obtain ⟨c,joinable,thread,hrun,htested,_,hstep⟩ := proceed_eq hcall
    have hcount := countP_set_tested hcall c
    rw [if_pos hrun,htested,if_neg Bool.false_ne_true] at hcount
    rw [hstep]
    dsimp only
    omega
  | back i t hcall =>
    have hcount := countP_set_inRun hcall
    dsimp only
    omega
  | run t haveEvents => exact h
  | same hl => exact h

theorem once_of_oneCall {s : System} (hran : Ran s) (h : OneCall s) : Once s := by
  have hcount : s.calls.countP hasRun ≤ 1 := le_trans (Nat.le_add_right _ _) h
  refine ⟨le_trans (List.countP_mono_left fun call _ hcall => ?_) hcount,fun t u ht hu => ?_⟩
  · rw [decide_eq_true_eq] at hcall
    rw [hcall]
    rfl
  · have hcreated := hran.created
    have ht' := (hran.entered t).mpr ht
    have hu' := (hran.entered u).mpr hu
    exact Nat.le_antisymm (by omega) (by omega)

theorem keepsThread_of_oneCall {s : System} {l : Step} (hran : Ran s) (h : OneCall s) :
    KeepsThread s l := by
  intro t ht
  have heffect := step_effect s l
  generalize step s l = s' at heffect
  cases heffect with
  | enters i newThread hcall =>
    have hpositive : 0 < s.loop.created := Nat.lt_of_le_of_lt (Nat.zero_le _) (hran.thread t ht)
    have hcreated := hran.created
    have hpos : 0 < s.calls.countP isTested :=
      List.countP_pos_iff.mpr ⟨_,List.mem_of_getElem? hcall,rfl⟩
    unfold OneCall at h
    omega
  | run u haveEvents => simpa using ht
  | _ => exact ht

def Proceeds (ext : List Step) : Prop := ∀ l ∈ ext, ∃ i onBeforeStart, l = .proceed i onBeforeStart

/-- A second call past the test can bring a second thread into `_run`. -/
theorem late_test_enters {s : System} (h : Ran s) {newThread : Bool}
    (hlate : ¬ AfterStatus s (.start newThread)) :
    ∃ ext, Proceeds ext ∧ ¬ Once (exec step (step s (.start newThread)) ext) := by
  simp only [AfterStatus,not_forall] at hlate
  obtain ⟨hstatus,call,hmem,hcall⟩ := hlate
  have hstep : step s (.start newThread) = { s with calls := s.calls ++ [.tested newThread] } := by
    simp [step,hstatus]
  have hran := step_ran (.start newThread) h
  have htwo {s' : System} (hs' : Ran s') (hcreated : 2 ≤ s'.loop.created) : ¬ Once s' := by
    intro honce
    have hsame := honce.entered 0 1 ((hs'.entered 0).mp (by omega)) ((hs'.entered 1).mp (by omega))
    exact absurd hsame (by decide)
  have hlast : (step s (.start newThread)).calls[s.calls.length]? = some (.tested newThread) := by
    simp [hstep]
  have hcreated : (step s (.start newThread)).loop.created = s.loop.created := by rw [hstep]
  cases hhas : hasRun call with
  | true =>
    have hpos : 0 < s.calls.countP hasRun := List.countP_pos_iff.mpr ⟨call,hmem,hhas⟩
    have hold := h.created
    obtain ⟨hran',hcreated'⟩ := proceed_ran hlast hran
    refine ⟨[.proceed s.calls.length true],by simp [Proceeds],htwo hran' ?_⟩
    simp only [exec]
    rw [hcreated',hcreated]
    omega
  | false =>
    obtain ⟨i,hi,hget⟩ := List.getElem_of_mem hmem
    cases call with
    | inRun t => cases hhas
    | returned result => exact absurd (congrArg StartCall.returned hhas) hcall
    | tested first =>
      have hfirst : (step s (.start newThread)).calls[i]? = some (.tested first) := by
        rw [hstep]
        exact (List.getElem?_append_left hi).trans ((List.getElem?_eq_getElem hi).trans (hget ▸ rfl))
      obtain ⟨hran',hcreated'⟩ := proceed_ran hfirst hran
      have hsecond : (step (step s (.start newThread)) (.proceed i true)).calls[s.calls.length]? =
          some (.tested newThread) := by
        obtain ⟨c,joinable,thread,_,_,_,hproceed⟩ := proceed_eq hfirst
        rw [hproceed]
        simpa [List.getElem?_set_ne (Nat.ne_of_lt hi)] using hlast
      obtain ⟨hran'',hcreated''⟩ := proceed_ran hsecond hran'
      refine ⟨[.proceed i true,.proceed s.calls.length true],by simp [Proceeds],htwo hran'' ?_⟩
      simp only [exec]
      rw [hcreated'',hcreated']
      omega

/-- In every interleaving the loop is run at most once, however the calls under way go on, if
and only if each call that finds the initial status comes after the failure of all others. -/
theorem once_iff (run : List Step) :
    (∀ pre ext, pre <+: run → Proceeds ext →
      Always step Once create (pre++ext) ∧ Along step KeepsThread create (pre++ext)) ↔
    Along step AfterStatus create run := by
  have hcreate : Ran create ∧ OneCall create := ⟨create_ran,Nat.zero_le _⟩
  have hinvariant (s : System) (l : Step) (hs : Ran s ∧ OneCall s) (hl : AfterStatus s l) :
      Ran (step s l) ∧ OneCall (step s l) := ⟨step_ran l hs.1,step_oneCall hs.2 hl⟩
  constructor
  · intro h
    rw [along_iff_prefixes]
    intro pre l hpre
    have hran := exec_preserves (fun _ l => step_ran l) create_ran pre
    cases l with
    | start newThread =>
      by_contra hlate
      obtain ⟨ext,hext,hnot⟩ := late_test_enters hran hlate
      have hend := (h (pre ++ [.start newThread]) ext hpre hext).1 _ List.prefix_rfl
      rw [exec_append,exec_append] at hend
      exact hnot hend
    | _ => trivial
  · rintro h pre ext ⟨post,rfl⟩ hext
    have halong : Along step AfterStatus create (pre++ext) := by
      rw [along_append] at h ⊢
      refine ⟨h.1,along_iff_prefixes.mpr fun pre' l hl => ?_⟩
      obtain ⟨i,onBeforeStart,rfl⟩ := hext l (hl.subset (by simp))
      trivial
    constructor
    · rintro pre' ⟨post',hpre'⟩
      rw [← hpre',along_append] at halong
      obtain ⟨hran,hone⟩ := exec_invariant hinvariant hcreate halong.1
      exact once_of_oneCall hran hone
    · exact along_of_invariant hinvariant
        (fun _ _ hs _ => keepsThread_of_oneCall hs.1 hs.2) hcreate halong

/-- Two calls test the status before the thread of the first one sets it. -/
theorem started_twice :
    ¬ ∀ run, Always step Once create run ∧ Along step KeepsThread create run := by
  intro h
  have hend := (h [.start true,.start true,.proceed 0 true,.proceed 1 true]).1 _ List.prefix_rfl
  exact absurd hend.started (by decide)

end LoopStarts
end Translib
