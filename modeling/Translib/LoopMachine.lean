import Mathlib.Logic.Relation
import Mathlib.Tactic

/-!
# Loops that need not end

A loop body maps a state to the next state or to the result the loop is left
with. `run` executes a bounded number of passes, `Returns` asks that some number
of passes is enough, and `Reaches` follows the passes that go round again. No
body is assumed to terminate: `returns_of_measure` and `not_returns_of_trap` are
the two rules that decide it.
-/

namespace Translib
namespace LoopMachine

variable {σ τ σ' τ' : Type*}

/-- One pass: go round again in a new state, or leave with a result. -/
abbrev Body (σ τ : Type*) := σ → σ ⊕ τ

/-- Execute at most `fuel` passes. -/
def run (body : Body σ τ) : ℕ → σ → Option τ
  | 0, _ => none
  | fuel+1, s =>
    match body s with
    | .inl s' => run body fuel s'
    | .inr t => some t

def Returns (body : Body σ τ) (s : σ) (t : τ) : Prop := ∃ fuel, run body fuel s = some t

/-- States at the head of the loop after some passes from `s`. -/
def Reaches (body : Body σ τ) : σ → σ → Prop :=
  Relation.ReflTransGen fun s s' => body s = .inl s'

theorem returns_stop_iff {body : Body σ τ} {s : σ} {t t' : τ} (h : body s = .inr t) :
    Returns body s t' ↔ t' = t := by
  constructor
  · rintro ⟨fuel,hf⟩
    cases fuel with
    | zero => simp [run] at hf
    | succ fuel => simpa [run,h,eq_comm] using hf
  · rintro rfl
    exact ⟨1,by simp [run,h]⟩

theorem returns_next_iff {body : Body σ τ} {s s' : σ} {t : τ} (h : body s = .inl s') :
    Returns body s t ↔ Returns body s' t := by
  constructor
  · rintro ⟨fuel,hf⟩
    cases fuel with
    | zero => simp [run] at hf
    | succ fuel => exact ⟨fuel,by simpa [run,h] using hf⟩
  · rintro ⟨fuel,hf⟩
    exact ⟨fuel+1,by simpa [run,h] using hf⟩

/-- Induction over the passes of a loop that ends. -/
theorem Returns.induct {body : Body σ τ} {t : τ} {motive : (s : σ) → Returns body s t → Prop}
    (stop : ∀ s (hb : body s = .inr t), motive s ((returns_stop_iff hb).mpr rfl))
    (next : ∀ s s' (hb : body s = .inl s') (h : Returns body s' t), motive s' h →
      motive s ((returns_next_iff hb).mpr h))
    {s : σ} (h : Returns body s t) : motive s h := by
  obtain ⟨fuel,hf⟩ := h
  induction fuel generalizing s with
  | zero => simp [run] at hf
  | succ fuel ih =>
    cases hb : body s with
    | inl s' =>
      have hf' : run body fuel s' = some t := by simpa [run,hb] using hf
      exact next s s' hb ⟨fuel,hf'⟩ (ih hf')
    | inr t' =>
      have ht : t' = t := by simpa [run,hb] using hf
      exact stop s (by rw [hb,ht])

theorem Returns.det {body : Body σ τ} {s : σ} {t t' : τ} (h : Returns body s t)
    (h' : Returns body s t') : t = t' := by
  induction h using Returns.induct with
  | stop s hb => exact ((returns_stop_iff hb).mp h').symm
  | next s s' hb _ ih => exact ih ((returns_next_iff hb).mp h')

theorem Reaches.returns {body : Body σ τ} {s s' : σ} {t : τ} (h : Reaches body s s')
    (ht : Returns body s' t) : Returns body s t := by
  induction h using Relation.ReflTransGen.head_induction_on with
  | refl => exact ht
  | head hb _ ih => exact (returns_next_iff hb).mpr ih

theorem Reaches.returns_iff {body : Body σ τ} {s s' : σ} {t : τ} (h : Reaches body s s') :
    Returns body s t ↔ Returns body s' t := by
  induction h using Relation.ReflTransGen.head_induction_on with
  | refl => exact Iff.rfl
  | head hb _ ih => exact (returns_next_iff hb).trans ih

/-- A loop returns exactly when some pass it reaches leaves it. -/
theorem returns_iff_reaches {body : Body σ τ} {s : σ} {t : τ} :
    Returns body s t ↔ ∃ s', Reaches body s s' ∧ body s' = .inr t := by
  constructor
  · intro h
    induction h using Returns.induct with
    | stop s hb => exact ⟨s,.refl,hb⟩
    | next s s' hb _ ih =>
      obtain ⟨u,hu,ht⟩ := ih
      exact ⟨u,.head hb hu,ht⟩
  · rintro ⟨s',hs,hb⟩
    exact hs.returns ((returns_stop_iff hb).mpr rfl)

theorem Reaches.invariant {body : Body σ τ} {I : σ → Prop} {s s' : σ} (h : Reaches body s s')
    (hs : I s) (hpass : ∀ a b, I a → body a = .inl b → I b) : I s' := by
  induction h with
  | refl => exact hs
  | tail _ hb ih => exact hpass _ _ ih hb

/-- A loop ends if every pass that goes round again makes a measure smaller. -/
theorem returns_of_measure (body : Body σ τ) (I : σ → Prop) (μ : σ → ℕ)
    (hpass : ∀ a b, I a → body a = .inl b → I b ∧ μ b < μ a) {s : σ} (hs : I s) :
    ∃ t, Returns body s t := by
  induction hn : μ s using Nat.strong_induction_on generalizing s with
  | _ n ih =>
    cases hb : body s with
    | inr t => exact ⟨t,(returns_stop_iff hb).mpr rfl⟩
    | inl s' =>
      obtain ⟨hI,hμ⟩ := hpass s s' hs hb
      obtain ⟨t,ht⟩ := ih (μ s') (hn ▸ hμ) hI rfl
      exact ⟨t,(returns_next_iff hb).mpr ht⟩

/-- A set of states no pass leaves, and in which every pass goes round again, is
never left by the loop. -/
theorem not_returns_of_trap {body : Body σ τ} (I : σ → Prop)
    (hpass : ∀ a, I a → ∃ b, body a = .inl b ∧ I b) {s : σ} (hs : I s) (t : τ) :
    ¬ Returns body s t := by
  intro h
  induction h using Returns.induct with
  | stop s hb =>
    obtain ⟨b,hb',_⟩ := hpass s hs
    simp [hb] at hb'
  | next s s' hb _ ih =>
    obtain ⟨b,hb',hI⟩ := hpass s hs
    rw [hb] at hb'
    cases hb'
    exact ih hI

/-- `π` takes the passes of one body to those of another, and `ρ` their results. -/
def Maps (π : σ → σ') (ρ : τ → τ') (body : Body σ τ) (body' : Body σ' τ') : Prop :=
  ∀ s, body' (π s) = (body s).map π ρ

section Maps

variable {π : σ → σ'} {ρ : τ → τ'} {body : Body σ τ} {body' : Body σ' τ'}

theorem Maps.reaches_iff (h : Maps π ρ body body') {s : σ} {u : σ'} :
    Reaches body' (π s) u ↔ ∃ t, Reaches body s t ∧ π t = u := by
  constructor
  · intro hu
    induction hu with
    | refl => exact ⟨s,.refl,rfl⟩
    | tail _ hb ih =>
      obtain ⟨t,ht,rfl⟩ := ih
      rw [h t] at hb
      cases hnext : body t with
      | inr r => simp [hnext] at hb
      | inl t' =>
        rw [hnext] at hb
        exact ⟨t',ht.tail hnext,Sum.inl.inj hb⟩
  · rintro ⟨t,ht,rfl⟩
    induction ht with
    | refl => exact .refl
    | tail _ hb ih => exact ih.tail (by rw [h,hb]; rfl)

theorem Maps.returns (h : Maps π ρ body body') {s : σ} {t : τ} (ht : Returns body s t) :
    Returns body' (π s) (ρ t) := by
  obtain ⟨u,hu,hstop⟩ := returns_iff_reaches.mp ht
  refine returns_iff_reaches.mpr ⟨π u,h.reaches_iff.mpr ⟨u,hu,rfl⟩,?_⟩
  rw [h,hstop]
  rfl

end Maps

/-- Two bodies pass in lockstep: related states stop together or go on related. -/
def Lockstep (R : σ → σ' → Prop) (Q : τ → τ' → Prop) : σ ⊕ τ → σ' ⊕ τ' → Prop
  | .inl s, .inl s' => R s s'
  | .inr t, .inr t' => Q t t'
  | _, _ => False

theorem Returns.lockstep {body : Body σ τ} {body' : Body σ' τ'} {R : σ → σ' → Prop}
    {Q : τ → τ' → Prop} {P : σ → Prop} {s : σ} {s' : σ'} {t : τ} (h : Returns body s t)
    (hP : ∀ u, Reaches body s u → P u) (hR : R s s')
    (hpass : ∀ a b, P a → R a b → Lockstep R Q (body a) (body' b)) :
    ∃ t', Returns body' s' t' ∧ Q t t' := by
  induction h using Returns.induct generalizing s' with
  | stop s hb =>
    have hl := hpass s s' (hP s .refl) hR
    rw [hb] at hl
    cases hb' : body' s' with
    | inl u => simp [hb',Lockstep] at hl
    | inr t' => exact ⟨t',(returns_stop_iff hb').mpr rfl,by simpa [hb',Lockstep] using hl⟩
  | next s u hb _ ih =>
    have hl := hpass s s' (hP s .refl) hR
    rw [hb] at hl
    cases hb' : body' s' with
    | inr t' => simp [hb',Lockstep] at hl
    | inl u' =>
      obtain ⟨t',ht,hQ⟩ := ih (fun v hv => hP v (.head hb hv))
        (by simpa [hb',Lockstep] using hl)
      exact ⟨t',(returns_next_iff hb').mpr ht,hQ⟩

end LoopMachine
end Translib
