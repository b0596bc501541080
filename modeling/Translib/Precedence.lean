import Mathlib.Data.List.Basic
import Mathlib.Tactic

/-!
# What comes before what in a list of statements

`a` precedes `b` when a run of the statements that has come to `b` has come to `a`.
-/

namespace Translib
namespace Precedence

variable {α β : Type*} {a b : α} {l m : List α}

def Precedes (a b : α) (l : List α) : Prop := ∀ pre, pre <+: l → b ∈ pre → a ∈ pre

theorem precedes_of_notMem (h : b ∉ l) : Precedes a b l :=
  fun _ hpre hb => absurd (hpre.subset hb) h

theorem precedes_head (a b : α) (l : List α) : Precedes a b (a::l) := by
  intro pre hpre hb
  rcases List.prefix_cons_iff.mp hpre with rfl | ⟨rest,rfl,_⟩
  · cases hb
  · exact List.mem_cons_self

theorem Precedes.cons {c : α} (hc : c ≠ b) (h : Precedes a b l) : Precedes a b (c::l) := by
  intro pre hpre hb
  rcases List.prefix_cons_iff.mp hpre with rfl | ⟨rest,rfl,hrest⟩
  · cases hb
  · exact List.mem_cons_of_mem c (h rest hrest (List.mem_of_ne_of_mem hc.symm hb))

theorem Precedes.append (h : Precedes a b l) (h' : Precedes a b m) : Precedes a b (l++m) := by
  intro pre hpre hb
  rcases List.prefix_or_prefix_of_prefix hpre (List.prefix_append l m) with hl | ⟨rest,rfl⟩
  · exact h pre hl hb
  · rcases List.mem_append.mp hb with hb | hb
    · exact List.mem_append_left rest (h l List.prefix_rfl hb)
    · exact List.mem_append_right l (h' rest ((List.prefix_append_right_inj l).mp hpre) hb)

theorem precedes_flatMap {f : β → List α} {xs : List β} (h : ∀ x ∈ xs, Precedes a b (f x)) :
    Precedes a b (xs.flatMap f) := by
  induction xs with
  | nil => exact precedes_of_notMem (by simp)
  | cons x xs ih =>
    rw [List.flatMap_cons]
    exact (h x List.mem_cons_self).append (ih fun y hy => h y (List.mem_cons_of_mem x hy))

theorem Precedes.not_after (h : Precedes a b l) (hnodup : l.Nodup) {pre : List α}
    (hpre : pre ++ [a] <+: l) : b ∉ pre := by
  intro hb
  have ha : a ∈ pre := h pre ((List.prefix_append pre [a]).trans hpre) hb
  have honce := hnodup.sublist hpre.sublist
  rw [List.nodup_append] at honce
  exact honce.2.2 a ha a (List.mem_singleton_self a) rfl

end Precedence
end Translib
