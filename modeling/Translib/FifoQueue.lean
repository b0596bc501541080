import Translib.TransitionMachine

/-!
# First in, first out

The steps of a machine put messages in and take messages out. Between two states the
machine is a queue when what it held and was given is, in this order, what it gave out
and still holds. How a state holds messages is up to the machine.
-/

namespace Translib
namespace FifoQueue

open TransitionMachine

variable {σ ℓ α : Type*}

def shown (step : σ → ℓ → σ) (out : σ → ℓ → List α) : σ → List ℓ → List α
  | _, [] => []
  | s, l::ls => out s l ++ shown step out (step s l) ls

@[simp] theorem shown_nil (step : σ → ℓ → σ) (out : σ → ℓ → List α) (s : σ) :
    shown step out s [] = [] := rfl

@[simp] theorem shown_cons (step : σ → ℓ → σ) (out : σ → ℓ → List α) (s : σ) (l : ℓ) (ls : List ℓ) :
    shown step out s (l::ls) = out s l ++ shown step out (step s l) ls := rfl

theorem shown_append (step : σ → ℓ → σ) (out : σ → ℓ → List α) (s : σ) (ls ms : List ℓ) :
    shown step out s (ls++ms) = shown step out s ls ++ shown step out (exec step s ls) ms := by
  induction ls generalizing s with
  | nil => rfl
  | cons l ls ih => simp [exec,ih]

theorem shown_filterMap {β : Type*} (g : α → Option β) (step : σ → ℓ → σ) (out : σ → ℓ → List α)
    (s : σ) (ls : List ℓ) :
    shown step (fun s l => (out s l).filterMap g) s ls = (shown step out s ls).filterMap g := by
  induction ls generalizing s with
  | nil => rfl
  | cons l ls ih => simp [ih]

section Part

variable {τ κ : Type*} {step : σ → ℓ → σ} {step' : τ → κ → τ} {part : σ → τ} {proj : σ → ℓ → List κ}

theorem exec_part (hproj : ∀ s l, part (step s l) = exec step' (part s) (proj s l)) (s : σ)
    (ls : List ℓ) : part (exec step s ls) = exec step' (part s) (shown step proj s ls) := by
  induction ls generalizing s with
  | nil => rfl
  | cons l ls ih => rw [exec,ih,shown_cons,exec_append,hproj]

theorem shown_part (hproj : ∀ s l, part (step s l) = exec step' (part s) (proj s l))
    (out : τ → κ → List α) (s : σ) (ls : List ℓ) :
    shown step' out (part s) (shown step proj s ls) =
      shown step (fun s l => shown step' out (part s) (proj s l)) s ls := by
  induction ls generalizing s with
  | nil => rfl
  | cons l ls ih => rw [shown_cons,shown_append,shown_cons,← hproj,ih]

end Part

/-- The rule for a history: what every step keeps of a state and what was shown before it. -/
theorem exec_shown {step : σ → ℓ → σ} {P : σ → ℓ → Prop} {out : σ → ℓ → List α}
    {I : σ → List α → Prop} (hstep : ∀ s l h, I s h → P s l → I (step s l) (h ++ out s l)) {s : σ}
    {h : List α} {ls : List ℓ} (hs : I s h) (hls : Along step P s ls) :
    I (exec step s ls) (h ++ shown step out s ls) := by
  induction ls generalizing s h with
  | nil => exact (List.append_nil h).symm ▸ hs
  | cons l ls ih =>
    have hrest := ih (hstep s l h hs hls.1) hls.2
    rwa [List.append_assoc] at hrest

/-- A move of a queue from `q` to `q'`. -/
def Moves (q puts takes q' : List α) : Prop := q ++ puts = takes ++ q'

theorem moves_refl (q : List α) : Moves q [] [] q := List.append_nil q

theorem moves_put (q puts : List α) : Moves q puts [] (q++puts) := rfl

theorem moves_take (a : α) (q : List α) : Moves (a::q) [] [a] q := List.append_nil (a::q)

theorem Moves.trans {q q' q'' puts puts' takes takes' : List α} (h : Moves q puts takes q')
    (h' : Moves q' puts' takes' q'') : Moves q (puts++puts') (takes++takes') q'' := by
  calc q ++ (puts ++ puts')
    _ = takes ++ (q' ++ puts') := by rw [← List.append_assoc,h,List.append_assoc]
    _ = takes ++ takes' ++ q'' := by rw [h',List.append_assoc]

theorem Moves.takes_prefix {puts takes q : List α} (h : Moves [] puts takes q) : takes <+: puts :=
  ⟨q,h.symm⟩

/-- The rule: steps that are moves of the queue a state holds make runs that are; `H` tells
what a state holds. -/
theorem exec_moves {step : σ → ℓ → σ} {P : σ → ℓ → Prop} {puts takes : σ → ℓ → List α}
    {H : σ → List α → Prop}
    (hstep : ∀ s l q, H s q → P s l → ∃ q', H (step s l) q' ∧ Moves q (puts s l) (takes s l) q')
    {s : σ} {q : List α} {ls : List ℓ} (hs : H s q) (h : Along step P s ls) :
    ∃ q', H (exec step s ls) q' ∧ Moves q (shown step puts s ls) (shown step takes s ls) q' := by
  induction ls generalizing s q with
  | nil => exact ⟨q,hs,moves_refl q⟩
  | cons l ls ih =>
    obtain ⟨q',hq',hmove⟩ := hstep s l q hs h.1
    obtain ⟨q'',hq'',hmoves⟩ := ih hq' h.2
    exact ⟨q'',hq'',hmove.trans hmoves⟩

/-- The rule for the front: where the steps `next` find it, what was held at the start is out
after as many of these steps. -/
theorem exec_takes {step : σ → ℓ → σ} {P : σ → ℓ → Prop} {puts takes : σ → ℓ → List α}
    {H : σ → List α → Prop} {next : ℓ → Bool}
    (hstep : ∀ s l q, H s q → P s l → ∃ q', H (step s l) q' ∧ Moves q (puts s l) (takes s l) q')
    (hnext : ∀ s l q, H s q → next l = true → q ≠ [] → takes s l ≠ []) {s : σ} {q : List α}
    {ls : List ℓ} (hs : H s q) (h : Along step P s ls) :
    q.take (ls.countP next) <+: shown step takes s ls := by
  induction ls generalizing s q with
  | nil => exact List.nil_prefix
  | cons l ls ih =>
    obtain ⟨q',hq',hmove⟩ := hstep s l q hs h.1
    have hrest := ih hq' h.2
    rw [shown_cons]
    refine List.IsPrefix.trans ?_ ((List.prefix_append_right_inj (takes s l)).mpr hrest)
    -- both are parts of what is held and put, and the first is not the longer one
    have hheld : q.take ((l::ls).countP next) <+: takes s l ++ q' := by
      rw [← (show q ++ puts s l = takes s l ++ q' from hmove)]
      exact (List.take_prefix _ q).trans (List.prefix_append q _)
    have hout : takes s l ++ q'.take (ls.countP next) <+: takes s l ++ q' :=
      (List.prefix_append_right_inj _).mpr (List.take_prefix _ q')
    refine List.prefix_of_prefix_length_le hheld hout ?_
    have hlength := congrArg List.length hmove
    simp only [List.length_append,List.length_take] at hlength ⊢
    by_cases hl : next l = true
    · rw [List.countP_cons_of_pos hl]
      by_cases hq : q = []
      · simp [hq]
      · have hpos := List.length_pos_iff.mpr (hnext s l q hs hl hq)
        omega
    · rw [List.countP_cons_of_neg hl]
      omega

end FifoQueue
end Translib
