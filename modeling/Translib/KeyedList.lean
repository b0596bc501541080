import Mathlib.Tactic

/-!
# Lists whose elements have keys

A key may occur any number of times. Removing takes the first element with the key away.
-/

namespace Translib
namespace KeyedList

variable {α κ : Type*} [DecidableEq κ] (key : α → κ)

def withKey (k : κ) (l : List α) : List α := l.filter fun a => key a = k

def removeFirst (k : κ) (l : List α) : List α := l.eraseP fun a => key a = k

@[simp] theorem withKey_append (k : κ) (l l' : List α) :
    withKey key k (l++l') = withKey key k l ++ withKey key k l' :=
  List.filter_append _ _

theorem withKey_singleton (k : κ) (a : α) :
    withKey key k [a] = if key a = k then [a] else [] := by
  simp [withKey,List.filter_singleton]

theorem withKey_removeFirst (k : κ) (l : List α) :
    withKey key k (removeFirst key k l) = (withKey key k l).tail := by
  induction l with
  | nil => rfl
  | cons a l ih =>
    by_cases ha : key a = k
    · simp [withKey,removeFirst,ha]
    · simpa [withKey,removeFirst,ha] using ih

theorem withKey_removeFirst_of_ne {k k' : κ} (h : k' ≠ k) (l : List α) :
    withKey key k' (removeFirst key k l) = withKey key k' l := by
  induction l with
  | nil => rfl
  | cons a l ih =>
    by_cases ha : key a = k
    · simp [withKey,removeFirst,ha,h.symm]
    · by_cases ha' : key a = k'
      · simpa [withKey,removeFirst,ha,ha',h] using ih
      · simpa [withKey,removeFirst,ha,ha'] using ih

end KeyedList
end Translib
