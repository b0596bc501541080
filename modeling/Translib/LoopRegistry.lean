import Translib.KeyTable
import Translib.TransitionMachine

/-! The registry of the loops of the process, over constructions that may fail and
destructions. -/

namespace Translib

abbrev LoopRef := ℕ

def createEventFail : String := "CREATE_EVENT_FAIL"

/-- The static members of `Loop`. -/
structure LoopRegistry where
  sLoops : KeyTable ℕ LoopRef
  sIdGenerater : ℕ

namespace LoopRegistry

def create : LoopRegistry := ⟨.empty,0⟩

/-- The counter is a `uint32_t`. -/
def nextId (r : LoopRegistry) : ℕ := (r.sIdGenerater+1) % 2^32

/-- The constructor of the loop at `this`: its id, or what it throws. The loop is in the registry
before `event_base_new` is called. -/
def construct (this : LoopRef) (eventBaseNew : Bool) (r : LoopRegistry) :
    Except String ℕ × LoopRegistry :=
  (if eventBaseNew then .ok r.nextId else .error createEventFail,
    { sLoops := r.sLoops.assign r.nextId this, sIdGenerater := r.nextId })

def destroy (id : ℕ) (r : LoopRegistry) : LoopRegistry := { r with sLoops := r.sLoops.erase id }

def get (id : ℕ) (r : LoopRegistry) : Option LoopRef := r.sLoops.find id

theorem get_construct (this : LoopRef) (eventBaseNew : Bool) (r : LoopRegistry) (id : ℕ) :
    (r.construct this eventBaseNew).2.get id = if id = r.nextId then some this else r.get id :=
  KeyTable.find_assign _ _ _ _

theorem get_destroy (gone : ℕ) (r : LoopRegistry) (id : ℕ) :
    (r.destroy gone).get id = if id = gone then none else r.get id :=
  KeyTable.find_erase _ _ _

end LoopRegistry

namespace LoopLives

open TransitionMachine

/-- `live` are the ids of the loops that are constructed and not destroyed, by their
addresses. -/
structure System where
  registry : LoopRegistry
  live : LoopRef → Option ℕ

inductive Step
  | construct (this : LoopRef) (eventBaseNew : Bool)
  | destroy (this : LoopRef)
  deriving DecidableEq, Repr

def create : System := ⟨.create,fun _ => none⟩

/-- A loop is constructed where no other one lives. No destructor runs after a constructor that
throws. -/
def step (s : System) : Step → System
  | .construct this eventBaseNew =>
    if (s.live this).isSome then s
    else
      let r := s.registry.construct this eventBaseNew
      match r.1 with
      | .ok id => { registry := r.2, live := Function.update s.live this (some id) }
      | .error _ => { s with registry := r.2 }
  | .destroy this =>
    match s.live this with
    | none => s
    | some id => { registry := s.registry.destroy id, live := Function.update s.live this none }

/-- `get` finds the live loops by their ids, and finds nothing else. -/
structure Listed (s : System) : Prop where
  found_iff : ∀ id, s.registry.get id ≠ none ↔ ∃ this, s.live this = some id
  same : ∀ id this, s.registry.get id = some this → s.live this = some id
  distinct : ∀ this that id, s.live this = some id → s.live that = some id → this = that

/-- A constructor does not throw, and does not come upon another loop under its id. -/
def Registers (s : System) : Step → Prop
  | .construct this eventBaseNew => s.live this = none →
      eventBaseNew = true ∧ s.registry.get s.registry.nextId = none
  | .destroy _ => True

theorem listed_iff {s : System} :
    Listed s ↔ ∀ id this, s.registry.get id = some this ↔ s.live this = some id := by
  constructor
  · intro h id this
    refine ⟨h.same id this,fun hlive => ?_⟩
    obtain ⟨that,hthat⟩ := Option.ne_none_iff_exists'.mp ((h.found_iff id).mpr ⟨this,hlive⟩)
    rw [hthat,h.distinct that this id (h.same id that hthat) hlive]
  · intro h
    refine ⟨fun id => ?_,fun id this => (h id this).mp,fun this that id hthis hthat => ?_⟩
    · rw [Option.ne_none_iff_exists']
      exact exists_congr fun this => h id this
    · exact Option.some.inj (((h id this).mpr hthis).symm.trans ((h id that).mpr hthat))

theorem construct_listed {s : System} (h : Listed s) {this : LoopRef} {eventBaseNew : Bool}
    (hfree : s.live this = none) :
    Listed (step s (.construct this eventBaseNew)) ↔
      eventBaseNew = true ∧ s.registry.get s.registry.nextId = none := by
  rw [listed_iff] at h
  have hget := LoopRegistry.get_construct this eventBaseNew s.registry
  cases eventBaseNew with
  | false =>
    have hstep : step s (.construct this false) =
        { s with registry := (s.registry.construct this false).2 } := by
      simp [step,hfree,LoopRegistry.construct]
    refine ⟨fun hlisted => ?_,fun hnew => absurd hnew.1 Bool.false_ne_true⟩
    rw [hstep] at hlisted
    -- the registry has the loop whose constructor has thrown
    have hlive := hlisted.same s.registry.nextId this (by rw [hget,if_pos rfl])
    exact absurd (hfree.symm.trans hlive) (Option.some_ne_none _).symm
  | true =>
    have hstep : step s (.construct this true) =
        { registry := (s.registry.construct this true).2
          live := Function.update s.live this (some s.registry.nextId) } := by
      simp [step,hfree,LoopRegistry.construct]
    have hne {that : LoopRef} {id : ℕ} (hthat : s.live that = some id) : that ≠ this := by
      rintro rfl
      exact absurd (hfree.symm.trans hthat) (Option.some_ne_none _).symm
    rw [hstep,listed_iff]
    simp only [hget,true_and]
    constructor
    · intro hlisted
      rw [Option.eq_none_iff_forall_ne_some]
      intro that hthat
      have hlive := (h _ that).mp hthat
      have hagain := (hlisted s.registry.nextId that).mpr (by
        rw [Function.update_of_ne (hne hlive),hlive])
      rw [if_pos rfl] at hagain
      exact hne hlive (Option.some.inj hagain).symm
    · intro hnew id that
      by_cases hthat : that = this
      · subst hthat
        rw [Function.update_self]
        by_cases hid : id = s.registry.nextId
        · simp [hid]
        · rw [if_neg hid]
          refine ⟨fun hold => absurd rfl (hne ((h id that).mp hold)),fun hold => ?_⟩
          exact absurd (Option.some.inj hold).symm hid
      · rw [Function.update_of_ne hthat]
        by_cases hid : id = s.registry.nextId
        · rw [if_pos hid,hid,← h,hnew]
          simp [Ne.symm hthat]
        · rw [if_neg hid,h]

theorem destroy_listed {s : System} (h : Listed s) (this : LoopRef) :
    Listed (step s (.destroy this)) := by
  cases hlive : s.live this with
  | none =>
    have hstep : step s (.destroy this) = s := by simp [step,hlive]
    rw [hstep]
    exact h
  | some gone =>
    have hstep : step s (.destroy this) =
        { registry := s.registry.destroy gone, live := Function.update s.live this none } := by
      simp [step,hlive]
    rw [hstep,listed_iff]
    intro id that
    simp only [LoopRegistry.get_destroy]
    by_cases hthat : that = this
    · subst hthat
      rw [Function.update_self]
      split_ifs with hid
      · simp
      · refine ⟨fun hold => ?_,fun hold => by cases hold⟩
        exact absurd (Option.some.inj ((h.same id that hold).symm.trans hlive)) hid
    · rw [Function.update_of_ne hthat]
      split_ifs with hid
      · subst hid
        refine ⟨fun hold => (by cases hold),fun hold => ?_⟩
        exact absurd (h.distinct that this id hold hlive) hthat
      · exact listed_iff.mp h id that

theorem step_listed {s : System} (l : Step) (h : Listed s) : Listed (step s l) ↔ Registers s l := by
  cases l with
  | construct this eventBaseNew =>
    cases hlive : s.live this with
    | none =>
      rw [construct_listed h hlive,Registers]
      simp [hlive]
    | some id =>
      have hstep : step s (.construct this eventBaseNew) = s := by simp [step,hlive]
      rw [hstep,Registers]
      simp [h,hlive]
  | destroy this => exact ⟨fun _ => trivial,fun _ => destroy_listed h this⟩

theorem create_listed : Listed create :=
  listed_iff.mpr fun id this => ⟨fun h => (by cases h),fun h => by cases h⟩

/-- In every history the registry lists the live loops throughout if and only if no constructor
throws, and none comes upon another loop under its id. -/
theorem listed_throughout_iff (run : List Step) :
    Always step Listed create run ↔ Along step Registers create run :=
  always_iff_along (J := fun _ => True) (fun _ l _ h _ => ⟨trivial,step_listed l h⟩) trivial
    create_listed (along_true step _ _)

/-- A constructor throws, and leaves the address of its loop behind. -/
theorem thrown_listed : ¬ ∀ run, Always step Listed create run := by
  intro h
  have hlisted := h [.construct 0 false] _ List.prefix_rfl
  exact absurd (hlisted.same 1 0 (by decide)) (by decide)

end LoopLives
end Translib
