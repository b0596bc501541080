import Mathlib.Algebra.BigOperators.Group.Finset.Piecewise
import Mathlib.Data.Fintype.Card
import Mathlib.Data.Set.Finite.Lemmas
import Mathlib.Logic.Relation
import Mathlib.Order.WellFounded

/-!
# Parties that wait for each other

Parties go on one statement at a time, as the outcomes of what they call allow, and a party
that has to wait for another one stays where it is. All of them come to the end, however they
are scheduled, if there is always one that need not wait; where waiting follows a relation on
finitely many of them, this is the case when the relation has no cycle.
-/

namespace Translib
namespace WaitsFor

section Knots

variable {ι : Type*} {R : ι → ι → Prop}

def Knotted (R : ι → ι → Prop) (C : Set ι) : Prop := C.Nonempty ∧ ∀ i ∈ C, ∃ j ∈ C, R i j

theorem knotted_of_cycle {i : ι} (h : Relation.TransGen R i i) :
    Knotted R { j | Relation.TransGen R i j ∧ Relation.TransGen R j i } := by
  refine ⟨⟨i,h,h⟩,fun j ⟨hij,hji⟩ => ?_⟩
  obtain ⟨k,hjk,hki⟩ := Relation.TransGen.head'_iff.mp hji
  rcases Relation.reflTransGen_iff_eq_or_transGen.mp hki with rfl | hki
  · exact ⟨i,⟨h,h⟩,hjk⟩
  · exact ⟨k,⟨hij.tail hjk,hki⟩,hjk⟩

/-- Finitely many parties wait for each other on a cycle only. -/
theorem not_knotted [Finite ι] (h : ∀ i, ¬ Relation.TransGen R i i) (C : Set ι) :
    ¬ Knotted R C := by
  rintro ⟨hne,hnext⟩
  have hirrefl : Std.Irrefl (Function.swap (Relation.TransGen R)) := ⟨h⟩
  have htrans : IsTrans ι (Function.swap (Relation.TransGen R)) :=
    ⟨fun _ _ _ hab hbc => hbc.trans hab⟩
  obtain ⟨i,hi,hmin⟩ := (Finite.wellFounded_of_trans_of_irrefl
    (Function.swap (Relation.TransGen R))).has_min C hne
  obtain ⟨j,hj,hij⟩ := hnext i hi
  exact hmin j hj (.single hij)

/-- Among finitely many parties that wait for each other there is a round of them, in which each
is waited for by one. -/
theorem Knotted.exists_round [Finite ι] {C : Set ι} (h : Knotted R C) :
    ∃ D ⊆ C, ∃ next : ι → ι, D.Nonempty ∧ Set.BijOn next D D ∧ ∀ i ∈ D, R i (next i) := by
  classical
  obtain ⟨hne,hnext⟩ := h
  choose! next hmem hR using hnext
  have hround (D : Finset ι) (hD : ↑D ⊆ C) (hne : D.Nonempty) (hmaps : Set.MapsTo next D D) :
      ∃ D ⊆ C, D.Nonempty ∧ Set.BijOn next D D := by
    induction hn : D.card using Nat.strong_induction_on generalizing D with
    | _ n ih =>
      have himage : D.image next ⊆ D := Finset.image_subset_iff.mpr hmaps
      rcases himage.eq_or_ssubset with heq | hlt
      · have hsurj : Set.SurjOn next D D := by
          intro i hi
          have himg : i ∈ D.image next := by rwa [heq]
          exact Finset.mem_image.mp himg
        have hinj : Set.InjOn next D := Finset.card_image_iff.mp (by rw [heq])
        exact ⟨D,hD,hne,hmaps,hinj,hsurj⟩
      · refine ih _ (hn ▸ Finset.card_lt_card hlt) (D.image next) (fun i hi => hD (himage hi))
          (hne.image next) (fun i hi => ?_) rfl
        exact Finset.mem_coe.mpr (Finset.mem_image_of_mem next (himage hi))
  obtain ⟨D,hD,hDne,hbij⟩ := hround (Set.toFinite C).toFinset (by simp)
    (by simpa using hne) (fun i hi => by simpa using hmem i (by simpa using hi))
  exact ⟨D,hD,next,hDne,hbij,fun i hi => hR i (hD hi)⟩

end Knots

section Finishes

variable {σ τ ο : Type*}

/-- However the parties go on from here, and whatever comes of what they call, they all come to
the end: one of them always goes on as long as one is not idle, and none does so for ever. -/
inductive Finishes (go : σ → τ → ο → σ) (Idle : σ → τ → Prop) : σ → Prop
  | intro (s : σ) (hgoes : (∀ t, Idle s t) ∨ ∃ t, ∀ o, go s t o ≠ s)
      (hnext : ∀ t o, go s t o ≠ s → Finishes go Idle (go s t o)) : Finishes go Idle s

variable {go : σ → τ → ο → σ} {Idle : σ → τ → Prop}

/-- Whoever goes on has less left to do. -/
theorem finishes_of_work {α : Type*} [Preorder α] [WellFoundedLT α] {I : σ → Prop} (work : σ → α)
    (hgoes : ∀ s, I s → (∀ t, Idle s t) ∨ ∃ t, ∀ o, go s t o ≠ s)
    (hless : ∀ s t o, I s → go s t o ≠ s → I (go s t o) ∧ work (go s t o) < work s) {s : σ}
    (hs : I s) : Finishes go Idle s := by
  induction hn : work s using WellFoundedLT.induction generalizing s with
  | _ n ih =>
    refine .intro s (hgoes s hs) fun t o hmoves => ?_
    obtain ⟨hI,hlt⟩ := hless s t o hs hmoves
    exact ih _ (hn ▸ hlt) hI rfl

/-- Where nobody goes on, and not all are idle, they do not come to the end. -/
theorem not_finishes [Nonempty ο] {s : σ} (hstay : ∀ t o, go s t o = s) {t : τ}
    (hbusy : ¬ Idle s t) : ¬ Finishes go Idle s := by
  rintro ⟨_,hidle | ⟨u,hu⟩,_⟩
  · exact hbusy (hidle t)
  · obtain ⟨o⟩ := ‹Nonempty ο›
    exact hu o (hstay u o)

end Finishes

theorem sum_update {ι α : Type*} [Fintype ι] [DecidableEq ι] (f : α → ℕ) (x : ι → α) (i : ι)
    (a : α) :
    ∑ j, f (Function.update x i a j) + f (x i) = ∑ j, f (x j) + f a := by
  have hcomp : (fun j => f (Function.update x i a j)) =
      Function.update (fun j => f (x j)) i (f a) := by
    funext j
    by_cases hj : j = i
    · subst hj
      simp
    · simp [hj]
  have hrest := Finset.sum_erase_add Finset.univ (fun j => f (x j)) (Finset.mem_univ i)
  rw [hcomp,Finset.sum_update_of_mem (Finset.mem_univ i),← Finset.erase_eq]
  omega

end WaitsFor
end Translib
