import Mathlib.Data.List.Basic
import Mathlib.Tactic

/-!
# Runs of labelled transitions

A machine is its step function; a run is a finite list of labels. `Along` states
a condition on every step of a run in the state the step is taken in, so that
invariants are proved only of the runs whose steps are allowed.

`Protocol` is which marks may follow which: a deterministic automaton that is stuck where a mark is
out of order. `Projection` is what a run shows to one party, whose part of the state is moved by its
own steps as a machine by itself. `SplitStep` is about a step taken in two halves: where the steps
that come between commute with the first half, they might as well have come before it.
-/

namespace Translib
namespace TransitionMachine

variable {σ ℓ : Type*}

/-- The state after the labels of a run. -/
def exec (step : σ → ℓ → σ) : σ → List ℓ → σ
  | s, [] => s
  | s, l::ls => exec step (step s l) ls

/-- Every step of the run satisfies `P` in the state it is taken in. -/
def Along (step : σ → ℓ → σ) (P : σ → ℓ → Prop) : σ → List ℓ → Prop
  | _, [] => True
  | s, l::ls => P s l ∧ Along step P (step s l) ls

theorem exec_append (step : σ → ℓ → σ) (s : σ) (ls ms : List ℓ) :
    exec step s (ls++ms) = exec step (exec step s ls) ms := by
  induction ls generalizing s with
  | nil => rfl
  | cons l ls ih => simp [exec,ih]

theorem along_append (step : σ → ℓ → σ) (P : σ → ℓ → Prop) (s : σ) (ls ms : List ℓ) :
    Along step P s (ls++ms) ↔ Along step P s ls ∧ Along step P (exec step s ls) ms := by
  induction ls generalizing s with
  | nil => simp [Along,exec]
  | cons l ls ih => simp [Along,exec,ih,and_assoc]

/-- The run lemma: what every allowed step preserves, every allowed run preserves. -/
theorem exec_invariant {step : σ → ℓ → σ} {P : σ → ℓ → Prop} {I : σ → Prop}
    (hstep : ∀ s l, I s → P s l → I (step s l)) {s : σ} {ls : List ℓ} (hs : I s)
    (h : Along step P s ls) : I (exec step s ls) := by
  induction ls generalizing s with
  | nil => exact hs
  | cons l ls ih => exact ih (hstep s l hs h.1) h.2

theorem exec_preserves {step : σ → ℓ → σ} {I : σ → Prop} (hstep : ∀ s l, I s → I (step s l)) {s : σ}
    (hs : I s) (ls : List ℓ) : I (exec step s ls) := by
  induction ls generalizing s with
  | nil => exact hs
  | cons l ls ih => exact ih (hstep s l hs)

/-- A preorder every allowed step moves along relates the ends of an allowed run. -/
theorem exec_monotone {step : σ → ℓ → σ} {P : σ → ℓ → Prop} {I : σ → Prop} {R : σ → σ → Prop}
    (hrefl : ∀ s, R s s) (htrans : ∀ a b c, R a b → R b c → R a c)
    (hstep : ∀ s l, I s → P s l → I (step s l) ∧ R s (step s l)) {s : σ} {ls : List ℓ}
    (hs : I s) (h : Along step P s ls) : R s (exec step s ls) := by
  induction ls generalizing s with
  | nil => exact hrefl s
  | cons l ls ih =>
    obtain ⟨hI,hR⟩ := hstep s l hs h.1
    exact htrans _ _ _ hR (ih hI h.2)

/-- Some step of the run satisfies `P` in the state it is taken in. -/
def Sometime (step : σ → ℓ → σ) (P : σ → ℓ → Prop) : σ → List ℓ → Prop
  | _, [] => False
  | s, l::ls => P s l ∨ Sometime step P (step s l) ls

/-- What is only ever brought about by the steps of `P`, and then kept, holds at the end if
there was such a step. -/
theorem exec_iff_sometime {step : σ → ℓ → σ} {P : σ → ℓ → Prop} {I : σ → Prop}
    (hstep : ∀ s l, I (step s l) ↔ I s ∨ P s l) (s : σ) (ls : List ℓ) :
    I (exec step s ls) ↔ I s ∨ Sometime step P s ls := by
  induction ls generalizing s with
  | nil => exact (or_false _).to_iff.symm
  | cons l ls ih => rw [exec,ih,hstep,or_assoc,Sometime]

/-- `I` holds in every state the run goes through. -/
def Always (step : σ → ℓ → σ) (I : σ → Prop) (s : σ) (ls : List ℓ) : Prop :=
  ∀ pre, pre <+: ls → I (exec step s pre)

theorem always_nil {step : σ → ℓ → σ} {I : σ → Prop} {s : σ} : Always step I s [] ↔ I s := by
  constructor
  · intro h
    exact h [] List.prefix_rfl
  · intro h pre hp
    rw [List.prefix_nil.mp hp]
    exact h

theorem always_cons {step : σ → ℓ → σ} {I : σ → Prop} {s : σ} {l : ℓ} {ls : List ℓ} :
    Always step I s (l::ls) ↔ I s ∧ Always step I (step s l) ls := by
  constructor
  · intro h
    refine ⟨h [] (List.nil_prefix),fun pre hp => ?_⟩
    exact h (l::pre) (List.cons_prefix_cons.mpr ⟨rfl,hp⟩)
  · rintro ⟨hs,h⟩ pre hp
    rcases List.prefix_cons_iff.mp hp with rfl | ⟨pre,rfl,hpre⟩
    · exact hs
    · exact h pre hpre

theorem along_true (step : σ → ℓ → σ) (s : σ) (ls : List ℓ) :
    Along step (fun _ _ => True) s ls := by
  induction ls generalizing s with
  | nil => trivial
  | cons l ls ih => exact ⟨trivial,ih _⟩

theorem along_iff_prefixes {step : σ → ℓ → σ} {P : σ → ℓ → Prop} {s : σ} {ls : List ℓ} :
    Along step P s ls ↔ ∀ pre l, pre ++ [l] <+: ls → P (exec step s pre) l := by
  constructor
  · rintro h pre l ⟨post,rfl⟩
    rw [along_append,along_append] at h
    exact h.1.2.1
  · intro h
    induction ls generalizing s with
    | nil => trivial
    | cons l ls ih =>
      refine ⟨h [] l ⟨ls,rfl⟩,ih fun pre m hpre => ?_⟩
      exact h (l::pre) m (List.cons_prefix_cons.mpr ⟨rfl,hpre⟩)

/-- Two conditions that agree in every state of an invariant agree along a run. -/
theorem along_congr {step : σ → ℓ → σ} {A P Q : σ → ℓ → Prop} {J : σ → Prop}
    (hJ : ∀ s l, J s → A s l → J (step s l)) (hPQ : ∀ s l, J s → A s l → (P s l ↔ Q s l)) {s : σ}
    {ls : List ℓ} (hs : J s) (hA : Along step A s ls) : Along step P s ls ↔ Along step Q s ls := by
  induction ls generalizing s with
  | nil => exact Iff.rfl
  | cons l ls ih => exact and_congr (hPQ s l hs hA.1) (ih (hJ s l hs hA.1) hA.2)

theorem along_of_invariant {step : σ → ℓ → σ} {A Q : σ → ℓ → Prop} {J : σ → Prop}
    (hJ : ∀ s l, J s → A s l → J (step s l)) (hAQ : ∀ s l, J s → A s l → Q s l) {s : σ}
    {ls : List ℓ} (hs : J s) (hA : Along step A s ls) : Along step Q s ls := by
  induction ls generalizing s with
  | nil => trivial
  | cons l ls ih => exact ⟨hAQ s l hs hA.1,ih (hJ s l hs hA.1) hA.2⟩

/-- Where a condition on a step decides whether `I` is kept, the condition along a run
decides whether `I` holds throughout. -/
theorem always_iff_along {step : σ → ℓ → σ} {A P : σ → ℓ → Prop} {I J : σ → Prop}
    (hstep : ∀ s l, J s → I s → A s l → J (step s l) ∧ (I (step s l) ↔ P s l)) {s : σ} {ls : List ℓ}
    (hJ : J s) (hI : I s) (hA : Along step A s ls) : Always step I s ls ↔ Along step P s ls := by
  induction ls generalizing s with
  | nil => exact always_nil.trans ⟨fun _ => trivial,fun _ => hI⟩
  | cons l ls ih =>
    obtain ⟨hnext,hiff⟩ := hstep s l hJ hI hA.1
    rw [always_cons,Along]
    constructor
    · rintro ⟨_,h⟩
      have hI' : I (step s l) := h [] List.nil_prefix
      exact ⟨hiff.mp hI',(ih hnext hI' hA.2).mp h⟩
    · rintro ⟨hP,h⟩
      exact ⟨hI,(ih hnext (hiff.mpr hP) hA.2).mpr h⟩

/-- A run for each of some parties, one after another. -/
theorem exists_run_insert {ι : Type*} [DecidableEq ι] {step : σ → ℓ → σ} {P : σ → ℓ → Prop}
    {Q : Finset ι → σ → Prop} (D : Finset ι)
    (hone : ∀ E ⊆ D, ∀ i ∈ D, i ∉ E → ∀ s, Q E s →
      ∃ ls, Along step P s ls ∧ Q (insert i E) (exec step s ls)) {s : σ} (hs : Q ∅ s) :
    ∃ ls, Along step P s ls ∧ Q D (exec step s ls) := by
  have hsome : ∀ E ⊆ D, ∃ ls, Along step P s ls ∧ Q E (exec step s ls) := by
    intro E
    induction E using Finset.induction_on with
    | empty => exact fun _ => ⟨[],trivial,hs⟩
    | insert i E hi ih =>
      intro hE
      obtain ⟨ls,halong,hQ⟩ := ih fun e he => hE (Finset.mem_insert_of_mem he)
      obtain ⟨ms,halong',hQ'⟩ := hone E (fun e he => hE (Finset.mem_insert_of_mem he)) i
        (hE (Finset.mem_insert_self i E)) hi _ hQ
      refine ⟨ls++ms,(along_append _ _ _ _ _).mpr ⟨halong,halong'⟩,?_⟩
      rwa [exec_append]
  exact hsome D subset_rfl

end TransitionMachine

namespace Protocol

variable {φ μ : Type*}

def follow (next : φ → μ → Option φ) : φ → List μ → Option φ
  | p, [] => some p
  | p, m::ms => (next p m).bind fun q => follow next q ms

theorem follow_append (next : φ → μ → Option φ) (p : φ) (ms ns : List μ) :
    follow next p (ms++ns) = (follow next p ms).bind fun q => follow next q ns := by
  induction ms generalizing p with
  | nil => rfl
  | cons m ms ih =>
    rw [List.cons_append,follow,follow,Option.bind_assoc]
    exact congrArg _ (funext ih)

theorem follow_snoc {next : φ → μ → Option φ} {p q : φ} {ms : List μ}
    (h : follow next p ms = some q) (m : μ) : follow next p (ms++[m]) = next q m := by
  rw [follow_append,h,Option.bind_some,follow]
  cases next q m <;> rfl

theorem follow_split {next : φ → μ → Option φ} {p r : φ} {ms ns : List μ}
    (h : follow next p (ms++ns) = some r) :
    ∃ q, follow next p ms = some q ∧ follow next q ns = some r := by
  rw [follow_append] at h
  exact Option.bind_eq_some_iff.mp h

end Protocol

namespace Projection

open TransitionMachine

variable {σ ℓ κ ι ω : Type*}

def observed (step : σ → ℓ → σ) (input : ℓ → Option ι) (out : σ → ℓ → ω) : σ → List ℓ → List ω
  | _, [] => []
  | s, l::ls =>
    match input l with
    | none => observed step input out (step s l) ls
    | some _ => out s l :: observed step input out (step s l) ls

def outputs (next : κ → ι → κ × ω) : κ → List ι → List ω
  | _, [] => []
  | k, i::is => (next k i).2 :: outputs next (next k i).1 is

section Machine

variable {step : σ → ℓ → σ} {input : ℓ → Option ι} {out : σ → ℓ → ω} {next : κ → ι → κ × ω}
  {part : σ → κ} {P : σ → ℓ → Prop}

/-- The party sees its own machine, whatever the steps it does not see. -/
theorem observed_eq_outputs (hidden : ∀ s l, input l = none → part (step s l) = part s)
    (seen : ∀ s l i, P s l → input l = some i → (part (step s l),out s l) = next (part s) i)
    {s : σ} {ls : List ℓ} (h : Along step P s ls) :
    observed step input out s ls = outputs next (part s) (ls.filterMap input) := by
  induction ls generalizing s with
  | nil => rfl
  | cons l ls ih =>
    cases hl : input l with
    | none =>
      rw [observed,hl,List.filterMap_cons_none hl]
      simp only
      rw [ih h.2,hidden s l hl]
    | some i =>
      have hstep := seen s l i h.1 hl
      rw [observed,hl,List.filterMap_cons_some hl,outputs,← hstep]
      simp only
      rw [ih h.2]

theorem observed_congr (next : κ → ι → κ × ω) (part : σ → κ)
    (hidden : ∀ s l, input l = none → part (step s l) = part s)
    (seen : ∀ s l i, P s l → input l = some i → (part (step s l),out s l) = next (part s) i)
    {s s' : σ} {ls ls' : List ℓ} (hpart : part s = part s')
    (hinputs : ls.filterMap input = ls'.filterMap input) (h : Along step P s ls)
    (h' : Along step P s' ls') :
    observed step input out s ls = observed step input out s' ls' := by
  rw [observed_eq_outputs hidden seen h,observed_eq_outputs hidden seen h',hpart,hinputs]

end Machine

end Projection

namespace SplitStep

open TransitionMachine

variable {σ ℓ κ : Type*}

inductive Half (κ : Type*)
  | first
  | second
  | other (k : κ)
  deriving DecidableEq, Repr

def halfStep (first second : σ → σ) (other : σ → κ → σ) : σ × Bool → Half κ → σ × Bool
  | (s,false), .first => (first s,true)
  | (s,true), .second => (second s,false)
  | (s,half), .other k => (other s k,half)
  | (s,half), _ => (s,half)

section
variable (step : σ → ℓ → σ) {first second : σ → σ} {other : σ → κ → σ} (both : ℓ) (lift : κ → ℓ)
  (hboth : ∀ s, step s both = second (first s)) (hlift : ∀ s k, step s (lift k) = other s k)
  (hcomm : ∀ s k, other (first s) k = first (other s k))
include hboth hlift hcomm

/-- A run of halves reaches what a run of whole steps reaches, or the first half after it. -/
theorem exec_halves (s : σ) (hs : List (Half κ)) :
    ∃ ls, exec (halfStep first second other) (s,false) hs = (exec step s ls,false) ∨
      exec (halfStep first second other) (s,false) hs = (first (exec step s ls),true) := by
  induction hs using List.reverseRecOn with
  | nil => exact ⟨[],.inl rfl⟩
  | append_singleton hs h ih =>
    obtain ⟨ls,hls⟩ := ih
    have hnext (l : ℓ) : exec step s (ls ++ [l]) = step (exec step s ls) l := exec_append _ _ _ _
    have hrun : exec (halfStep first second other) (s,false) (hs ++ [h]) =
        halfStep first second other (exec (halfStep first second other) (s,false) hs) h :=
      exec_append _ _ _ _
    rw [hrun]
    rcases hls with hls | hls
    · rw [hls]
      cases h with
      | first => exact ⟨ls,.inr rfl⟩
      | second => exact ⟨ls,.inl rfl⟩
      | other k => exact ⟨ls ++ [lift k],.inl (by rw [hnext,hlift]; rfl)⟩
    · rw [hls]
      cases h with
      | first => exact ⟨ls,.inr rfl⟩
      | second => exact ⟨ls ++ [both],.inl (by rw [hnext,hboth]; rfl)⟩
      | other k =>
        refine ⟨ls ++ [lift k],.inr ?_⟩
        rw [hnext,hlift,← hcomm]
        rfl

end

end SplitStep

end Translib
