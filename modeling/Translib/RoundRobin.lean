import Mathlib.Data.Int.CardIntervalMod
import Mathlib.Tactic

/-!
# Numbers dealt out in turn

Numbers without a gap, each put to the place of its residue. However long the row is and
wherever it begins, no place gets two more than another one.
-/

namespace Translib
namespace RoundRobin

/-- How many of the numbers go to the place `j` out of `n`. -/
def share (n j : ℕ) (ids : List ℕ) : ℕ := ids.countP fun id => id % n = j

@[simp] theorem share_append (n j : ℕ) (ids ids' : List ℕ) :
    share n j (ids++ids') = share n j ids + share n j ids' := List.countP_append

theorem share_range' (n j a m : ℕ) :
    a.count (· % n = j) + share n j (List.range' a m) = (a+m).count (· % n = j) := by
  induction m with
  | zero => rfl
  | succ m ih =>
    have hlast : share n j [a+m] = if (a+m) % n = j then 1 else 0 := by
      by_cases h : (a+m) % n = j <;> simp [share,h]
    rw [List.range'_1_concat,share_append,hlast,← Nat.add_assoc,ih,← Nat.add_assoc,Nat.count_succ]

theorem count_mod {n j : ℕ} (hj : j < n) (b : ℕ) :
    b.count (· % n = j) = b/n + if j < b % n then 1 else 0 := by
  have hcount := Nat.count_modEq_card (r := n) b (Nat.zero_lt_of_lt hj) j
  simp only [Nat.ModEq,Nat.mod_eq_of_lt hj] at hcount
  exact hcount

/-- Each place gets its part of the row, rounded down or up. -/
theorem share_bounds {n j : ℕ} (hj : j < n) (a m : ℕ) :
    m/n ≤ share n j (List.range' a m) ∧ share n j (List.range' a m) ≤ (m+n-1)/n := by
  have hn : 0 < n := Nat.zero_lt_of_lt hj
  have hshare := share_range' n j a m
  have ha := Nat.mod_lt a hn
  have hm := Nat.mod_lt m hn
  have hup : (m+n-1)/n = m/n + if m % n = 0 then 0 else 1 := by
    have hsplit : m+n-1 = n*(m/n) + (m % n + (n-1)) := by
      have hdiv := Nat.div_add_mod m n
      omega
    have hrest : (m % n + (n-1))/n = if m % n = 0 then 0 else 1 := by
      split_ifs with hzero
      · exact Nat.div_eq_of_lt (by omega)
      · exact Nat.div_eq_of_lt_le (by omega) (by omega)
    rw [hsplit,Nat.mul_add_div hn,hrest]
  rw [count_mod hj,count_mod hj,Nat.add_div hn,Nat.add_mod] at hshare
  rw [hup]
  by_cases hcarry : n ≤ a % n + m % n
  · have hmod : (a % n + m % n) % n = a % n + m % n - n := by
      rw [Nat.mod_eq_sub_mod hcarry,Nat.mod_eq_of_lt (by omega)]
    rw [if_pos hcarry,hmod] at hshare
    split_ifs at hshare ⊢ <;> omega
  · rw [if_neg hcarry,Nat.mod_eq_of_lt (not_le.mp hcarry)] at hshare
    split_ifs at hshare ⊢ <;> omega

end RoundRobin
end Translib
