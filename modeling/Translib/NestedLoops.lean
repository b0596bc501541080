import Translib.LoopRegistry
import Translib.ThreadJoins

/-! Blocking starts on one thread, made in callbacks of loops that run on it, and what
`curLoop` returns there. -/

namespace Translib
namespace NestedLoops

open TransitionMachine

/-- A blocking `start`: in `onBeforeStart`, or in the `_run` it has called. -/
inductive Frame
  | starting (l : LoopRef)
  | running (l : LoopRef) (t : ThreadRef)
  deriving DecidableEq, Repr

/-- A thread and the loops of the process. `stack` are the starts the thread is in, the
innermost first; `curThreadLoop` is the variable of this thread. -/
structure System where
  loops : LoopRef → Loop
  curThreadLoop : Option LoopRef
  stack : List Frame

/-- `start` is the call up to its test of the status, `proceed` what it does after it, given the
result of `onBeforeStart`; `run` is the next statement of the innermost `_run`, and `back` its
return. `other` is a call on a loop, or a step of another thread. -/
inductive Step
  | start (l : LoopRef)
  | proceed (onBeforeStart : Bool)
  | run (haveEvents : Bool)
  | back
  | other (l : LoopRef) (x : ThreadJoins.Step)
  deriving DecidableEq, Repr

def create : System := ⟨fun _ => .create,none,[]⟩

def curLoop (s : System) : Option LoopRef := s.curThreadLoop

/-- The points of `_run` at which it is in a callback: `onBeforeLoop`, one of an event, or
`onAfterLoop`. -/
def callbackPoints : List RunPoint := [.ready,.looping,.left]

def InUserCode (s : System) : Frame → Prop
  | .starting _ => True
  | .running l t => ((s.loops l).threads t).point ∈ callbackPoints

instance (s : System) (f : Frame) : Decidable (InUserCode s f) := by
  cases f <;> unfold InUserCode <;> infer_instance

def Free (s : System) : Prop := ∀ f ∈ s.stack.head?, InUserCode s f

instance (s : System) : Decidable (Free s) := inferInstanceAs (Decidable (∀ f ∈ s.stack.head?, _))

/-- `_run` sets the variable before `onBeforeLoop` and clears it after `onAfterLoop`. -/
def setCurThreadLoop (l : LoopRef) : RunPoint → Option LoopRef → Option LoopRef
  | .entered, _ => some l
  | .left, _ => none
  | _, cur => cur

/-- A step of `_run` that is one of this thread. -/
def ownRun (stack : List Frame) (l : LoopRef) : ThreadJoins.Step → Bool
  | .run t _ => decide (.running l t ∈ stack)
  | _ => false

def step (s : System) : Step → System
  | .start l =>
    if Free s ∧ (s.loops l).status = .init then { s with stack := .starting l :: s.stack } else s
  | .proceed onBeforeStart =>
    match s.stack with
    | .starting l :: rest =>
      if !onBeforeStart then { s with stack := rest }
      else
        { s with
          loops := Function.update s.loops l (s.loops l).callRun
          stack := .running l (s.loops l).created :: rest }
    | _ => s
  | .run haveEvents =>
    match s.stack with
    | .running l t :: _ =>
      { s with
        loops := Function.update s.loops l ((s.loops l).run t haveEvents)
        curThreadLoop := setCurThreadLoop l ((s.loops l).threads t).point s.curThreadLoop }
    | _ => s
  | .back =>
    match s.stack with
    | .running l t :: rest =>
      if ((s.loops l).threads t).point ∈ [.done,.exited] then { s with stack := rest } else s
    | _ => s
  | .other l x =>
    if ownRun s.stack l x then s
    else { s with loops := Function.update s.loops l (ThreadJoins.step (s.loops l) x) }

def innermost : List Frame → Option LoopRef
  | [] => none
  | .starting _ :: rest => innermost rest
  | .running l _ :: _ => some l

/-- Where the thread is in code of the user, `curLoop` is the innermost running loop, and null
where none runs. -/
def CurRight (s : System) : Prop := Free s → curLoop s = innermost s.stack

/-- A start that comes back from `_run` was not made within another loop. -/
def Outermost (s : System) : Step → Prop
  | .back => ∀ l t rest, s.stack = .running l t :: rest →
      ((s.loops l).threads t).point ∈ [.done,.exited] → innermost rest = none
  | _ => True

/-- The starts around the innermost one are in code of the user, and no two are one `_run`. A
`_run` that has cleared the variable finds it cleared when it returns. -/
structure Nested (s : System) : Prop where
  known : ∀ l t, .running l t ∈ s.stack → t < (s.loops l).created
  distinct : s.stack.Pairwise fun f g => ∀ l t, f = .running l t → g ≠ .running l t
  suspended : ∀ f ∈ s.stack.tail, InUserCode s f
  cleared : ∀ l t rest, s.stack = .running l t :: rest →
    ((s.loops l).threads t).point ∈ [.done,.exited] → s.curThreadLoop = none

theorem create_nested : Nested create where
  known := fun _ _ h => by cases h
  distinct := .nil
  suspended := fun _ h => by cases h
  cleared := fun _ _ _ h => by cases h

section Update
variable {s : System} {l : LoopRef} {loop : Loop}

theorem inUserCode_update {f : Frame} (cur : Option LoopRef) (stack : List Frame)
    (hpoint : ∀ t, f = .running l t → (loop.threads t).point = ((s.loops l).threads t).point) :
    InUserCode ⟨Function.update s.loops l loop,cur,stack⟩ f ↔ InUserCode s f := by
  cases f with
  | starting r => exact Iff.rfl
  | running r t =>
    simp only [InUserCode,Function.update_apply]
    split_ifs with hr
    · subst hr
      rw [hpoint t rfl]
    · exact Iff.rfl

theorem created_update (hcreated : (s.loops l).created ≤ loop.created) {r : LoopRef} {t : ThreadRef}
    (ht : t < (s.loops r).created) : t < (Function.update s.loops l loop r).created := by
  rw [Function.update_apply]
  split_ifs with hr
  · subst hr
    exact lt_of_lt_of_le ht hcreated
  · exact ht

theorem Nested.keep (h : Nested s) (hcur : CurRight s)
    (hcreated : (s.loops l).created ≤ loop.created) (hpoint : ∀ t, .running l t ∈ s.stack →
      (loop.threads t).point = ((s.loops l).threads t).point) :
    Nested { s with loops := Function.update s.loops l loop } ∧
      CurRight { s with loops := Function.update s.loops l loop } := by
  have hcode {f : Frame} (hf : f ∈ s.stack) :
      InUserCode { s with loops := Function.update s.loops l loop } f ↔ InUserCode s f :=
    inUserCode_update _ _ fun t ht => hpoint t (ht ▸ hf)
  refine ⟨⟨fun r t ht => ?_,h.distinct,fun f hf => ?_,fun r t rest hstack hended => ?_⟩,
    fun hfree => ?_⟩
  · exact created_update hcreated (h.known r t ht)
  · exact (hcode (List.mem_of_mem_tail hf)).mpr (h.suspended f hf)
  · have hstack' : s.stack = .running r t :: rest := hstack
    refine h.cleared r t rest hstack' ?_
    simp only [Function.update_apply] at hended
    split_ifs at hended with hr
    · subst hr
      rwa [hpoint t (by simp [hstack'])] at hended
    · exact hended
  · exact hcur fun f hf => (hcode (List.mem_of_mem_head? hf)).mp (hfree f hf)

end Update

theorem free_cons {s : System} {f : Frame} {rest : List Frame} (hstack : s.stack = f :: rest) :
    Free s ↔ InUserCode s f := by
  rw [Free,hstack]
  exact ⟨fun h => h f rfl,fun h g hg => by cases hg; exact h⟩

/-- The starts of `stack` are in code of the user, and no two are one `_run`. -/
structure Around (s : System) (stack : List Frame) : Prop where
  known : ∀ l t, .running l t ∈ stack → t < (s.loops l).created
  distinct : stack.Pairwise fun f g => ∀ l t, f = .running l t → g ≠ .running l t
  code : ∀ f ∈ stack, InUserCode s f

theorem Around.congr {s s' : System} {stack : List Frame} (h : Around s stack)
    (hloops : s'.loops = s.loops) : Around s' stack where
  known := fun l t ht => hloops ▸ h.known l t ht
  distinct := h.distinct
  code := fun f hf => by
    have hcode := h.code f hf
    cases f with
    | starting l => trivial
    | running l t =>
      rw [InUserCode,hloops]
      exact hcode

theorem Nested.around {s : System} (h : Nested s) {f : Frame} {rest : List Frame}
    (hstack : s.stack = f :: rest) : Around s rest where
  known := fun l t ht => h.known l t (by simp [hstack,ht])
  distinct := (List.pairwise_cons.mp (hstack ▸ h.distinct)).2
  code := fun g hg => h.suspended g (by simpa [hstack] using hg)

theorem Nested.around_free {s : System} (h : Nested s) (hfree : Free s) : Around s s.stack where
  known := h.known
  distinct := h.distinct
  code := fun f hf => by
    cases hstack : s.stack with
    | nil => simp [hstack] at hf
    | cons top rest =>
      rw [hstack] at hf
      rcases List.mem_cons.mp hf with rfl | hrest
      · exact (free_cons hstack).mp hfree
      · exact (h.around hstack).code f hrest

theorem Around.update {s : System} {rest : List Frame} (h : Around s rest) {l : LoopRef} {loop : Loop}
    (hcreated : (s.loops l).created ≤ loop.created)
    (hpoint : ∀ t, .running l t ∈ rest → (loop.threads t).point = ((s.loops l).threads t).point)
    (cur : Option LoopRef) (stack : List Frame) :
    Around ⟨Function.update s.loops l loop,cur,stack⟩ rest where
  known := fun r t ht => created_update hcreated (h.known r t ht)
  distinct := h.distinct
  code := fun f hf =>
    (inUserCode_update cur stack fun t ht => hpoint t (ht ▸ hf)).mpr (h.code f hf)

theorem Around.free {s : System} (h : Around s s.stack) : Nested s ∧ Free s := by
  refine ⟨⟨h.known,h.distinct,fun f hf => h.code f (List.mem_of_mem_tail hf),?_⟩,
    fun f hf => h.code f (List.mem_of_mem_head? hf)⟩
  intro l t rest hstack hended
  have hcode : ((s.loops l).threads t).point ∈ callbackPoints :=
    h.code (.running l t) (by rw [hstack]; exact List.mem_cons_self)
  simp only [callbackPoints,List.mem_cons,List.not_mem_nil,or_false] at hcode hended
  rcases hcode with hc | hc | hc <;> simp [hc] at hended

theorem Nested.pop {s : System} (h : Nested s) {f : Frame} {rest : List Frame}
    (hstack : s.stack = f :: rest) : Nested { s with stack := rest } ∧ Free { s with stack := rest } :=
  Around.free (s := { s with stack := rest }) ((h.around hstack).congr rfl)

theorem Around.nested {s : System} {f : Frame} {rest : List Frame} (h : Around s rest)
    (hstack : s.stack = f :: rest)
    (hf : ∀ l t, f = .running l t → t < (s.loops l).created ∧ .running l t ∉ rest ∧
      (((s.loops l).threads t).point ∈ [.done,.exited] → s.curThreadLoop = none)) : Nested s := by
  refine ⟨fun l t ht => ?_,?_,fun g hg => h.code g (by simpa [hstack] using hg),
    fun l t rest' hstack' => ?_⟩
  · rw [hstack] at ht
    rcases List.mem_cons.mp ht with heq | hrest
    · exact (hf l t heq.symm).1
    · exact h.known l t hrest
  · rw [hstack]
    refine List.pairwise_cons.mpr ⟨fun g hg l t heq hgr => ?_,h.distinct⟩
    exact (hf l t heq).2.1 (hgr ▸ hg)
  · cases hstack.symm.trans hstack'
    exact (hf l t rfl).2.2

theorem run_curThreadLoop {l : Loop} {r : LoopRef} {t : ThreadRef} {cur : Option LoopRef}
    (hcode : (l.threads t).point ∈ callbackPoints → cur = some r)
    (hended : (l.threads t).point ∈ [.done,.exited] → cur = none) (haveEvents : Bool) :
    (((l.run t haveEvents).threads t).point ∈ callbackPoints →
        setCurThreadLoop r (l.threads t).point cur = some r) ∧
      (((l.run t haveEvents).threads t).point ∈ [.done,.exited] →
        setCurThreadLoop r (l.threads t).point cur = none) := by
  have heffect := l.run_effect t haveEvents
  generalize l.run t haveEvents = l' at heffect ⊢
  have hcur {point : RunPoint} (hpoint : (l.threads t).point = point)
      (hmem : point ∈ callbackPoints) : cur = some r := hcode (hpoint ▸ hmem)
  cases heffect with
  | running hpoint => simp [hpoint,setCurThreadLoop]
  | refused hpoint => simp [hpoint,setCurThreadLoop,hcur hpoint (by decide)]
  | loops hpoint => simp [hpoint,setCurThreadLoop,hcur hpoint (by decide)]
  | leaves hpoint => simp [hpoint,setCurThreadLoop,hcur hpoint (by decide)]
  | stays hpoint => simp [hpoint,setCurThreadLoop,hcur hpoint (by decide)]
  | finished hpoint => simp [hpoint,setCurThreadLoop,callbackPoints]
  | exits hpoint => simp [hpoint,setCurThreadLoop,callbackPoints,hended]
  | outside hpoint =>
    rcases hpoint with hpoint | hpoint <;> simp [hpoint,setCurThreadLoop,callbackPoints,hended]

theorem start_nested {s : System} (h : Nested s) (hcur : CurRight s) (l : LoopRef) :
    Nested (step s (.start l)) ∧ CurRight (step s (.start l)) := by
  simp only [step]
  split_ifs with hstart
  · have haround : Around { s with stack := .starting l :: s.stack } s.stack :=
      (h.around_free hstart.1).congr rfl
    exact ⟨haround.nested rfl fun _ _ hf => (by cases hf),fun _ => hcur hstart.1⟩
  · exact ⟨h,hcur⟩

theorem callRun_nested {s : System} (h : Nested s) {l : LoopRef} {rest : List Frame}
    (hstack : s.stack = .starting l :: rest) :
    Nested { s with
        loops := Function.update s.loops l (s.loops l).callRun
        stack := .running l (s.loops l).created :: rest } ∧
      CurRight { s with
        loops := Function.update s.loops l (s.loops l).callRun
        stack := .running l (s.loops l).created :: rest } := by
  have haround := h.around hstack
  have hnew {t : ThreadRef} (ht : .running l t ∈ rest) : t ≠ (s.loops l).created :=
    (haround.known l t ht).ne
  have hentered : ((Function.update s.loops l (s.loops l).callRun l).threads
      (s.loops l).created).point = .entered := by
    simp [Loop.callRun,Loop.setThread]
  have hcreated : (s.loops l).created ≤ (s.loops l).callRun.created := Nat.le_succ _
  have hafter := haround.update hcreated (fun t ht => by simp [Loop.callRun,Loop.setThread,hnew ht])
    s.curThreadLoop (.running l (s.loops l).created :: rest)
  refine ⟨hafter.nested rfl fun r t hf => ?_,fun hcode => ?_⟩
  · cases hf
    refine ⟨by simp [Loop.callRun],fun hmem => hnew hmem rfl,fun hended => ?_⟩
    rw [hentered] at hended
    simp at hended
  · have hpoint := (free_cons rfl).mp hcode
    simp only [InUserCode,hentered,callbackPoints] at hpoint
    simp at hpoint

theorem proceed_nested {s : System} (h : Nested s) (hcur : CurRight s) (onBeforeStart : Bool) :
    Nested (step s (.proceed onBeforeStart)) ∧ CurRight (step s (.proceed onBeforeStart)) := by
  cases hstack : s.stack with
  | nil =>
    have hstep : step s (.proceed onBeforeStart) = s := by simp [step,hstack]
    rw [hstep]
    exact ⟨h,hcur⟩
  | cons f rest =>
    cases f with
    | running l t =>
      have hstep : step s (.proceed onBeforeStart) = s := by simp [step,hstack]
      rw [hstep]
      exact ⟨h,hcur⟩
    | starting l =>
      cases onBeforeStart with
      | false =>
        have hright := hcur ((free_cons hstack).mpr trivial)
        rw [hstack] at hright
        have hstep : step s (.proceed false) = { s with stack := rest } := by simp [step,hstack]
        rw [hstep]
        exact ⟨(h.pop hstack).1,fun _ => hright⟩
      | true =>
        have hstep : step s (.proceed true) = { s with
            loops := Function.update s.loops l (s.loops l).callRun
            stack := .running l (s.loops l).created :: rest } := by
          simp [step,hstack]
        rw [hstep]
        exact callRun_nested h hstack

theorem run_nested {s : System} (h : Nested s) (hcur : CurRight s) (haveEvents : Bool) :
    Nested (step s (.run haveEvents)) ∧ CurRight (step s (.run haveEvents)) := by
  by_cases htop : ∃ l t rest, s.stack = .running l t :: rest
  · obtain ⟨l,t,rest,hstack⟩ := htop
    have hstep : step s (.run haveEvents) =
        ⟨Function.update s.loops l ((s.loops l).run t haveEvents),
          setCurThreadLoop l ((s.loops l).threads t).point s.curThreadLoop,.running l t :: rest⟩ := by
      simp [step,hstack]
    have hright : ((s.loops l).threads t).point ∈ callbackPoints → s.curThreadLoop = some l := by
      intro hpoint
      have hinnermost := hcur ((free_cons hstack).mpr hpoint)
      rwa [hstack] at hinnermost
    obtain ⟨hcode,hended⟩ := run_curThreadLoop hright (h.cleared l t rest hstack) haveEvents
    have hself : Function.update s.loops l ((s.loops l).run t haveEvents) l =
        (s.loops l).run t haveEvents := Function.update_self _ _ _
    rw [hstep]
    have hdistinct : (Frame.running l t :: rest).Pairwise _ := hstack ▸ h.distinct
    have hother : .running l t ∉ rest := fun hmem =>
      (List.pairwise_cons.mp hdistinct).1 _ hmem l t rfl rfl
    have hstay {u : ThreadRef} (hu : .running l u ∈ rest) :
        (((s.loops l).run t haveEvents).threads u).point = ((s.loops l).threads u).point := by
      have hne : u ≠ t := by
        rintro rfl
        exact hother hu
      rw [Loop.run_threads_of_ne hne]
    have hafter := (h.around hstack).update (Loop.run_created t haveEvents _).ge (fun u => hstay)
      (setCurThreadLoop l ((s.loops l).threads t).point s.curThreadLoop) (.running l t :: rest)
    refine ⟨hafter.nested rfl fun r u hf => ?_,fun hfree => ?_⟩
    · cases hf
      simp only [hself]
      exact ⟨(h.known l t (by simp [hstack])).trans_le (Loop.run_created _ _ _).ge,hother,hended⟩
    · have hpoint := (free_cons rfl).mp hfree
      simp only [InUserCode,hself] at hpoint
      exact hcode hpoint
  · have hstep : step s (.run haveEvents) = s := by
      simp only [step]
      split
      · exact absurd ⟨_,_,_,‹_›⟩ htop
      · rfl
    rw [hstep]
    exact ⟨h,hcur⟩

theorem back_nested {s : System} (h : Nested s) (hcur : CurRight s) :
    Nested (step s .back) ∧ (CurRight (step s .back) ↔ Outermost s .back) := by
  have hstep : step s .back = s ∧ Outermost s .back ∨ ∃ l t rest, s.stack = .running l t :: rest ∧
      ((s.loops l).threads t).point ∈ [.done,.exited] ∧ step s .back = { s with stack := rest } := by
    cases hstack : s.stack with
    | nil => exact .inl ⟨by simp [step,hstack],fun _ _ _ htop => by simp [hstack] at htop⟩
    | cons f rest =>
      cases f with
      | starting l => exact .inl ⟨by simp [step,hstack],fun _ _ _ htop => by simp [hstack] at htop⟩
      | running l t =>
        by_cases hended : ((s.loops l).threads t).point ∈ [.done,.exited]
        · exact .inr ⟨l,t,rest,rfl,hended,by simp only [step,hstack,if_pos hended]⟩
        · refine .inl ⟨by simp only [step,hstack,if_neg hended],fun l' t' rest' htop hended' => ?_⟩
          cases hstack.symm.trans htop
          exact absurd hended' hended
  rcases hstep with ⟨hsame,houter⟩ | ⟨l,t,rest,hstack,hended,hback⟩
  · rw [hsame]
    exact ⟨h,iff_of_true hcur houter⟩
  · obtain ⟨hnested,hfree⟩ := h.pop hstack
    have hnone := h.cleared l t rest hstack hended
    rw [hback]
    refine ⟨hnested,fun hright => ?_,fun houter _ => ?_⟩
    · rintro l' t' rest' hstack' -
      cases hstack.symm.trans hstack'
      exact (hright hfree).symm.trans hnone
    · exact hnone.trans (houter l t rest hstack hended).symm

/-- The step lemma: only the return of a nested start decides. -/
theorem step_nested {s : System} (x : Step) (h : Nested s) (hcur : CurRight s) :
    Nested (step s x) ∧ (CurRight (step s x) ↔ Outermost s x) := by
  have hkeep {x : Step} (hx : Nested (step s x) ∧ CurRight (step s x)) (houter : Outermost s x) :
      Nested (step s x) ∧ (CurRight (step s x) ↔ Outermost s x) :=
    ⟨hx.1,iff_of_true hx.2 houter⟩
  cases x with
  | start l => exact hkeep (start_nested h hcur l) trivial
  | proceed onBeforeStart => exact hkeep (proceed_nested h hcur onBeforeStart) trivial
  | run haveEvents => exact hkeep (run_nested h hcur haveEvents) trivial
  | back => exact back_nested h hcur
  | other l x =>
    refine hkeep ?_ trivial
    simp only [step]
    split_ifs with hown
    · exact ⟨h,hcur⟩
    · refine h.keep hcur (ThreadJoins.step_created _ x) fun t ht => ?_
      refine ThreadJoins.step_point (h.known l t ht) fun haveEvents hx => hown ?_
      rw [hx]
      exact decide_eq_true ht

/-- In every run of a thread that starts loops in callbacks of loops, to any depth: `curLoop` is
always the innermost running loop if and only if no start that was made within another loop
comes back. -/
theorem cur_loop_iff (run : List Step) :
    Always step CurRight create run ↔ Along step Outermost create run :=
  always_iff_along (J := Nested) (fun _ x h hcur _ => step_nested x h hcur) create_nested
    (fun _ => rfl) (along_true step _ run)

/-- A loop is started in a callback of another, and ends; the rest of the callback sees none. -/
theorem outer_loop_lost :
    let s := exec step create [.start 0,.proceed true,.run true,.run true,.start 1,.proceed true,
      .run true,.run true,.run false,.run false,.back]
    (¬ ∀ run, Always step CurRight create run) ∧
    Free s ∧ innermost s.stack = some 0 ∧ curLoop s = none := by
  intro s
  refine ⟨fun h => ?_,by decide,rfl,rfl⟩
  have hright := h [.start 0,.proceed true,.run true,.run true,.start 1,.proceed true,
    .run true,.run true,.run false,.run false,.back] _ List.prefix_rfl
  exact absurd (hright (by decide)) (by decide)

end NestedLoops
end Translib
