import Translib.FifoQueue
import Translib.ManagerTeardown

/-! A timer of a manager from its creation to its end: what others do does not touch it as long
as somebody has a pointer to it, and it never fires when nobody has. -/

namespace Translib
namespace TimerLives

open TransitionMachine FifoQueue Timer ManagerTeardown
open TimerIds (Manager TimerRef)

variable {α : Type*}

inductive OwnStep (α : Type*)
  | startRounds (lib : Libevent) (interval rounds : ℕ) (handler : Handler α)
  | call (c : Call α)
  | expire
  deriving DecidableEq, Repr

def ownStep (t : Timer α) : OwnStep α → Timer α
  | .startRounds lib interval rounds handler => (t.startRounds lib interval rounds handler).2
  | .call c => (call c t).2
  | .expire =>
    match t.expire with
    | none => t
    | some (_,timer) => timer

def own (r : TimerRef) (s : System α) : Step α → List (OwnStep α)
  | .startRounds r' lib interval rounds handler =>
    if r' = r ∧ Usable s r' then [.startRounds lib interval rounds handler] else []
  | .call r' c => if r' = r ∧ Usable s r' then [.call c] else []
  | .expire r' => if r' = r ∧ Polling s ∧ Alive s r' then [.expire] else []
  | _ => []

/-- What a step does to the timers and the pointers to them: nothing, one more timer, pointers
given up, or one use of a timer. -/
inductive Change (s : System α) (l : Step α) (s' : System α) : Prop
  | same (hmanager : s'.manager = s.manager) (hheld : s'.held = s.held) (hown : ∀ r, own r s l = [])
  | made (hmanager : s'.manager = s.manager.getTimer.2) (hheld : s'.held = s.manager.created :: s.held)
      (hown : ∀ r, own r s l = [])
  | given (m : Manager α) (held : List TimerRef) (hcreated : m.created = s.manager.created)
      (htimers : m.timers = s.manager.timers)
      (hmap : m.t_map.entries.Sublist s.manager.t_map.entries) (hheld : held ⊆ s.held)
      (hkept : ∀ r ∈ s.held, l ≠ .drop r → r ∈ held)
      (hreap : s' = reap { s with manager := m, held := held }) (hown : ∀ r, own r s l = [])
  | used (r' : TimerRef) (o : OwnStep α)
      (hmanager : s'.manager = s.manager.atTimer r' fun t => ownStep t o) (hheld : s'.held = s.held)
      (hown : ∀ r, own r s l = if r' = r then [o] else [])

theorem Change.ite {s s' : System α} {l : Step α} {p : Prop} [Decidable p] (h : p → Change s l s')
    (hown : ¬ p → ∀ r, own r s l = []) : Change s l (if p then s' else s) := by
  split_ifs with hp
  · exact h hp
  · exact .same rfl rfl (hown hp)

def Made (r : TimerRef) (s : System α) : Prop := r < s.manager.created

end TimerLives
end Translib
