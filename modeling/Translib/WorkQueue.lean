import Mathlib.Algebra.Order.BigOperators.Group.LocallyFinite
import Translib.LoopMachine

/-!
# Work queues

Items are taken from the front of a queue one at a time, until none is left; the `k`-th item
taken may push more items at the back. When only finitely many are pushed, the items are taken
once each and in the order they were pushed in, and what they do is a fold over that order.
-/

namespace Translib
namespace WorkQueue

open LoopMachine

variable {α σ : Type*}

/-- `taken` are the items worked off, `pushed` all that were ever in the queue. -/
structure Queue (α σ : Type*) where
  state : σ
  waiting : List α
  taken : List α
  pushed : List α

def start (s : σ) (items : List α) : Queue α σ := ⟨s,items,[],items⟩

/-- `apply k a` is what `a` does when it is the `k`-th item taken, `push k a` what it pushes. -/
def body (apply : ℕ → α → σ → σ) (push : ℕ → α → List α) : Body (Queue α σ) (Queue α σ) := fun q =>
  match q.waiting with
  | [] => .inr q
  | a::rest => .inl {
      state := apply q.taken.length a q.state
      waiting := rest ++ push q.taken.length a
      taken := q.taken ++ [a]
      pushed := q.pushed ++ push q.taken.length a }

def fold (apply : ℕ → α → σ → σ) (items : List α) (s : σ) : σ :=
  items.zipIdx.foldl (fun s i => apply i.2 i.1 s) s

def pushes (push : ℕ → α → List α) (items : List α) : List α :=
  items.zipIdx.flatMap fun i => push i.2 i.1

variable {apply : ℕ → α → σ → σ} {push : ℕ → α → List α}

theorem fold_snoc (items : List α) (a : α) (s : σ) :
    fold apply (items ++ [a]) s = apply items.length a (fold apply items s) := by
  simp [fold,List.zipIdx_append]

theorem pushes_snoc (items : List α) (a : α) :
    pushes push (items ++ [a]) = pushes push items ++ push items.length a := by
  simp [pushes,List.zipIdx_append]

structure InOrder (apply : ℕ → α → σ → σ) (push : ℕ → α → List α) (s : σ) (items : List α)
    (q : Queue α σ) : Prop where
  fifo : q.pushed = q.taken ++ q.waiting
  state : q.state = fold apply q.taken s
  pushed : q.pushed = items ++ pushes push q.taken

theorem start_inOrder (s : σ) (items : List α) : InOrder apply push s items (start s items) :=
  ⟨rfl,rfl,(List.append_nil items).symm⟩

theorem pass_inOrder {s : σ} {items : List α} {q q' : Queue α σ} (h : InOrder apply push s items q)
    (hpass : body apply push q = .inl q') : InOrder apply push s items q' := by
  unfold body at hpass
  split at hpass
  next => cases hpass
  next a rest hwaiting =>
    cases hpass
    refine ⟨?_,?_,?_⟩
    · simp only [h.fifo,hwaiting,List.append_assoc,List.singleton_append]
      rfl
    · simp only [fold_snoc,h.state]
    · simp only [pushes_snoc,h.pushed,List.append_assoc]

theorem reaches_inOrder {s : σ} {items : List α} {q : Queue α σ}
    (h : Reaches (body apply push) (start s items) q) : InOrder apply push s items q :=
  h.invariant (start_inOrder s items) fun _ _ => pass_inOrder

theorem pass_stops {q q' : Queue α σ} (h : body apply push q = .inr q') :
    q' = q ∧ q.waiting = [] := by
  unfold body at h
  split at h
  next hwaiting =>
    cases h
    exact ⟨rfl,hwaiting⟩
  next => cases h

theorem pass_goes (apply : ℕ → α → σ → σ) (push : ℕ → α → List α) {q : Queue α σ}
    (h : q.waiting ≠ []) :
    ∃ q', body apply push q = .inl q' ∧ q'.taken.length = q.taken.length+1 := by
  cases hwaiting : q.waiting with
  | nil => exact absurd hwaiting h
  | cons a rest =>
    unfold body
    rw [hwaiting]
    exact ⟨_,rfl,List.length_append⟩

/-- Items that go on pushing for `n` passes only leave the queue empty at last. -/
theorem drains {n : ℕ} (hpush : ∀ k a, n ≤ k → push k a = []) {room : ℕ → ℕ}
    (hroom : ∀ k a, (push k a).length ≤ room k) (s : σ) (items : List α) :
    ∃ q, Returns (body apply push) (start s items) q := by
  refine returns_of_measure (body apply push) (fun _ => True)
    (fun q => q.waiting.length + ∑ k ∈ Finset.Ico q.taken.length n, room k) ?_ trivial
  intro q q' _ hpass
  refine ⟨trivial,?_⟩
  unfold body at hpass
  split at hpass
  next => cases hpass
  next a rest hwaiting =>
    cases hpass
    simp only [hwaiting,List.length_append,List.length_cons,List.length_nil,Nat.zero_add]
    by_cases hk : q.taken.length < n
    · have hbound := hroom q.taken.length a
      have hsum := Finset.sum_eq_sum_Ico_succ_bot hk room
      omega
    · have hnone := hpush q.taken.length a (not_lt.mp hk)
      rw [hnone,Finset.Ico_eq_empty (by omega),Finset.Ico_eq_empty (by omega)]
      simp

/-- The item at the front after `k` passes. -/
def Takes (apply : ℕ → α → σ → σ) (push : ℕ → α → List α) (s : σ) (items : List α) (k : ℕ) (a : α) :
    Prop :=
  ∃ q, Reaches (body apply push) (start s items) q ∧ q.taken.length = k ∧ q.waiting.head? = some a

section Drained

variable {s : σ} {items : List α} {q p : Queue α σ}

theorem pushed_prefix (hp : Reaches (body apply push) p q) : p.pushed <+: q.pushed := by
  induction hp with
  | refl => exact List.prefix_rfl
  | tail _ hpass ih =>
    refine ih.trans ?_
    unfold body at hpass
    split at hpass
    next => cases hpass
    next =>
      cases hpass
      exact List.prefix_append _ _

theorem reaches_end (hq : Returns (body apply push) (start s items) q)
    (hp : Reaches (body apply push) (start s items) p) : Reaches (body apply push) p q := by
  obtain ⟨u,hu,hstop⟩ := returns_iff_reaches.mp (hp.returns_iff.mp hq)
  rw [(pass_stops hstop).1]
  exact hu

theorem drained (hq : Returns (body apply push) (start s items) q) :
    Reaches (body apply push) (start s items) q ∧ q.waiting = [] := by
  obtain ⟨u,hu,hstop⟩ := returns_iff_reaches.mp hq
  obtain ⟨rfl,hwaiting⟩ := pass_stops hstop
  exact ⟨hu,hwaiting⟩

theorem taken_eq_pushed (hq : Returns (body apply push) (start s items) q) : q.taken = q.pushed := by
  obtain ⟨hreaches,hwaiting⟩ := drained hq
  rw [(reaches_inOrder hreaches).fifo,hwaiting,List.append_nil]

theorem eq_end (hq : Returns (body apply push) (start s items) q)
    (hp : Reaches (body apply push) (start s items) p) (hwaiting : p.waiting = []) : q = p := by
  have hstop : body apply push p = .inr p := by
    unfold body
    rw [hwaiting]
  exact (returns_stop_iff hstop).mp (hp.returns_iff.mp hq)

theorem exists_pass (hq : Returns (body apply push) (start s items) q) {k : ℕ}
    (hk : k ≤ q.pushed.length) :
    ∃ p, Reaches (body apply push) (start s items) p ∧ p.taken.length = k := by
  induction k with
  | zero => exact ⟨start s items,.refl,rfl⟩
  | succ k ih =>
    obtain ⟨p,hp,hlength⟩ := ih (by omega)
    have hwaiting : p.waiting ≠ [] := by
      intro hnone
      rw [← taken_eq_pushed hq,eq_end hq hp hnone] at hk
      omega
    obtain ⟨p',hpass,htaken⟩ := pass_goes apply push hwaiting
    exact ⟨p',hp.tail hpass,by omega⟩

/-- The items are taken once each, in the order they were pushed in. -/
theorem takes_iff (hq : Returns (body apply push) (start s items) q) (k : ℕ) (a : α) :
    Takes apply push s items k a ↔ q.pushed[k]? = some a := by
  have hget {p : Queue α σ} (hp : Reaches (body apply push) (start s items) p)
      (hwaiting : p.waiting ≠ []) : q.pushed[p.taken.length]? = p.waiting.head? := by
    obtain ⟨later,hlater⟩ := pushed_prefix (reaches_end hq hp)
    rw [← hlater,(reaches_inOrder hp).fifo,List.append_assoc,
      List.getElem?_append_right le_rfl,Nat.sub_self]
    cases hw : p.waiting with
    | nil => exact absurd hw hwaiting
    | cons b rest => rfl
  constructor
  · rintro ⟨p,hp,rfl,hhead⟩
    rw [hget hp (by rintro hnone; simp [hnone] at hhead),hhead]
  · intro hk
    obtain ⟨hlt,_⟩ := List.getElem?_eq_some_iff.mp hk
    obtain ⟨p,hp,rfl⟩ := exists_pass hq hlt.le
    refine ⟨p,hp,rfl,?_⟩
    rw [← hk]
    refine (hget hp fun hnone => ?_).symm
    rw [← taken_eq_pushed hq,eq_end hq hp hnone] at hlt
    omega

end Drained

end WorkQueue
end Translib
