import Mathlib.Data.List.Count
import Mathlib.Logic.Function.Basic
import Translib.TransitionMachine

/-! Tables of descriptors that are handed out, closed and handed out again, with the owner
each of them has. -/

namespace Translib
namespace DescriptorTable

open TransitionMachine

variable {δ ω : Type*} [DecidableEq δ]

inductive Op (δ : Type*)
  | opened (fd : δ)
  | closed (fd : δ)
  | shut (fd : δ)
  deriving DecidableEq, Repr

/-- A descriptor goes to the one it is opened for, and to nobody when it is closed. -/
def apply (t : δ → Option ω) : ω × Op δ → δ → Option ω
  | (who,.opened fd) => Function.update t fd (some who)
  | (_,.closed fd) => Function.update t fd none
  | (_,.shut _) => t

/-- Free descriptors are opened, one's own are closed, and others' are not shut down. -/
def Rightful (t : δ → Option ω) : ω × Op δ → Prop
  | (_,.opened fd) => t fd = none
  | (who,.closed fd) => t fd = some who
  | (who,.shut fd) => ∀ owner, t fd = some owner → owner = who

theorem apply_other {t : δ → Option ω} {who user : ω} {op : Op δ} (h : Rightful t (user,op))
    (hne : user ≠ who) (fd : δ) : apply t (user,op) fd = some who ↔ t fd = some who := by
  cases op with
  | opened fd' =>
    have hfree : t fd' = none := h
    by_cases hfd : fd = fd'
    · subst hfd
      simp [apply,hfree,hne]
    · simp [apply,hfd]
  | closed fd' =>
    have hown : t fd' = some user := h
    by_cases hfd : fd = fd'
    · subst hfd
      simp [apply,hown,hne]
    · simp [apply,hfd]
  | shut fd' => exact Iff.rfl

def table (ops : List (ω × Op δ)) : δ → Option ω := exec apply (fun _ => none) ops

def AllRightful (ops : List (ω × Op δ)) : Prop := Along apply Rightful (fun _ => none) ops

theorem table_snoc (ops : List (ω × Op δ)) (e : ω × Op δ) :
    table (ops++[e]) = apply (table ops) e := by
  rw [table,exec_append]
  rfl

theorem allRightful_append (ops more : List (ω × Op δ)) :
    AllRightful (ops++more) ↔ AllRightful ops ∧ Along apply Rightful (table ops) more :=
  along_append apply Rightful _ ops more

theorem allRightful_snoc (ops : List (ω × Op δ)) (e : ω × Op δ) :
    AllRightful (ops++[e]) ↔ AllRightful ops ∧ Rightful (table ops) e := by
  rw [allRightful_append,Along,Along,and_true]

theorem allRightful_mono {ops more : List (ω × Op δ)} (hp : ops <+: more)
    (h : AllRightful more) : AllRightful ops := by
  obtain ⟨rest,rfl⟩ := hp
  exact ((allRightful_append ops rest).mp h).1

variable [DecidableEq ω]

def holds (t : δ → Option ω) (who : ω) (fd : δ) : ℕ := if t fd = some who then 1 else 0

theorem apply_holds {t : δ → Option ω} {e : ω × Op δ} (h : Rightful t e) (who : ω) (fd : δ) :
    holds t who fd + (if e = (who,.opened fd) then 1 else 0) =
      (if e = (who,.closed fd) then 1 else 0) + holds (apply t e) who fd := by
  obtain ⟨user,op⟩ := e
  cases op with
  | opened fd' =>
    have hfree : t fd' = none := h
    by_cases hfd : fd = fd'
    · subst hfd
      simp [holds,apply,hfree]
    · simp [holds,apply,hfd,Ne.symm hfd]
  | closed fd' =>
    have hown : t fd' = some user := h
    by_cases hfd : fd = fd'
    · subst hfd
      simp [holds,apply,hown]
    · simp [holds,apply,hfd,Ne.symm hfd]
  | shut fd' => simp [apply]

theorem opened_eq_closed {t : δ → Option ω} {ops : List (ω × Op δ)} (h : Along apply Rightful t ops)
    (who : ω) (fd : δ) :
    holds t who fd + ops.count (who,.opened fd) =
      ops.count (who,.closed fd) + holds (exec apply t ops) who fd := by
  induction ops generalizing t with
  | nil => simp [exec]
  | cons e ops ih =>
    have hstep := apply_holds h.1 who fd
    have hrest := ih h.2
    simp only [List.count_cons,beq_iff_eq,exec]
    omega

/-- Where nothing is left open, everything opened was closed, and once. -/
theorem closed_once {ops : List (ω × Op δ)} (h : AllRightful ops) {who : ω} {fd : δ}
    (hleft : table ops fd ≠ some who) : ops.count (who,.closed fd) = ops.count (who,.opened fd) := by
  have hcount := opened_eq_closed h who fd
  have hnone : holds (exec apply (fun _ => none) ops) who fd = 0 := if_neg hleft
  rw [hnone] at hcount
  simpa [holds] using hcount.symm

end DescriptorTable
end Translib
