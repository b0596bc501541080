import Translib.ServerTeardown

/-! Calls of `listen` that return false: what becomes of the listener the server held. -/

namespace Translib
namespace FailedListens

open TransitionMachine ServerTeardown

/-- The stored listener, the listeners on the base of the master and the loops are the same. -/
structure Unchanged (s s' : System) : Prop where
  eventListener : s'.eventListener = s.eventListener
  listeners : s'.listeners = s.listeners
  loops : s'.loops = s.loops

/-- A call of `listen` that returns false changes nothing. -/
def NoEffect (s : System) : Step → Prop
  | .listen bound => (listen bound s).1 = false → Unchanged s (listen bound s).2
  | _ => True

/-- A call of `listen` that returns false is made while the server holds no listener. -/
def HoldsNone (s : System) : Step → Prop
  | .listen bound => (listen bound s).1 = false → s.eventListener = none
  | _ => True

theorem unchanged_iff {s : System} (h : Reached s) {bound : Bool}
    (hfalse : (listen bound s).1 = false) :
    Unchanged s (listen bound s).2 ↔ s.eventListener = none := by
  have hlistening := listen_listening h.loops bound
  generalize listen bound s = r at hlistening hfalse
  cases hlistening with
  | failed created =>
    constructor
    · intro hsame
      exact hsame.eventListener.symm
    · intro hnone
      exact ⟨hnone.symm,rfl,rfl⟩
  | opened => cases hfalse

theorem noEffect_iff {s : System} (h : Reached s) (l : Step) : NoEffect s l ↔ HoldsNone s l := by
  cases l with
  | listen bound => exact forall_congr' fun hfalse => unchanged_iff h hfalse
  | _ => exact Iff.rfl

/-- In every run: the calls of `listen` that return false change nothing if and only if each of
them is made while the server holds no listener. -/
theorem failed_listens_iff (threads sessionIdGenerator : ℕ) (run : List Step) :
    Along step NoEffect (create threads sessionIdGenerator) run ↔
      Along step HoldsNone (create threads sessionIdGenerator) run :=
  along_congr (A := fun _ _ => True) (fun _ l h _ => step_reached l h) (fun _ l h _ => noEffect_iff h l)
    (create_reached threads sessionIdGenerator) (along_true step _ run)

/-- A second listen fails to bind, or finds the loop of the master running already. -/
theorem listener_lost :
    let bindFails := exec step (create 0 0) [.listen true,.listen false]
    let startFails := exec step (create 0 0) [.listen true,.run 0 0 ⟨true,true⟩ true,.listen true]
    (¬ ∀ threads sessionIdGenerator run,
      Along step NoEffect (create threads sessionIdGenerator) run) ∧
    (bindFails.eventListener = none ∧ bindFails.listeners = [0]) ∧
    (startFails.eventListener = none ∧ startFails.listeners = [0]) := by
  refine ⟨fun h => ?_,⟨by decide,by decide⟩,⟨by decide,by decide⟩⟩
  obtain ⟨-,hsecond,-⟩ := h 0 0 [.listen true,.listen false]
  exact absurd (hsecond rfl).eventListener (by decide)

def Stored (s : System) : Prop := s.listeners = s.eventListener.toList

/-- A call of `listen` that is carried out is made while the server holds no listener. -/
def Free (s : System) : Step → Prop
  | .listen _ => (∀ r ∈ dispatchers s, (s.loops r).Idle) → s.eventListener = none
  | _ => True

theorem step_stored {s : System} (h : Reached s) (hs : Stored s) (l : Step) :
    Stored (step s l) ↔ Free s l := by
  by_cases hl : ∃ bound, l = .listen bound
  · obtain ⟨bound,rfl⟩ := hl
    have hnil : s.listeners = [] ↔ s.eventListener = none := by rw [hs,Option.toList_eq_nil_iff]
    simp only [step,Free]
    split_ifs with hidle
    · rw [imp_iff_right hidle,← hnil]
      have hlistening := listen_listening h.loops bound
      generalize listen bound s = r at hlistening
      cases hlistening with
      | failed created => exact Iff.rfl
      | opened n loops hloops => simp [Stored]
    · exact iff_of_true hs fun h => absurd h hidle
  · have hfree : Free s l := by
      cases l with
      | listen bound => exact absurd ⟨bound,rfl⟩ hl
      | _ => trivial
    obtain ⟨hlistener,hlisteners⟩ := step_quiet s (not_exists.mp hl)
    rw [Stored,hlistener,hlisteners]
    exact iff_of_true hs hfree

/-- In every run: the open listener is always the stored one if and only if every `listen` is
called while there is none. -/
theorem stored_iff (threads sessionIdGenerator : ℕ) (run : List Step) :
    Always step Stored (create threads sessionIdGenerator) run ↔
      Along step Free (create threads sessionIdGenerator) run := by
  have hcreate : (create threads sessionIdGenerator).listeners = [] := rfl
  exact always_iff_along (J := Reached) (fun _ l h hs _ => ⟨step_reached l h,step_stored h hs l⟩)
    (create_reached threads sessionIdGenerator) hcreate (along_true step _ run)

end FailedListens
end Translib
