import Mathlib.Logic.Function.Basic
import Translib.FifoQueue

/-!
# Records written under a lock

Writers put records piece by piece into outputs they share, and each record is written
while its writer holds the one lock. The outputs are then rows of whole records, but for
the part the holder of the lock has written of its own.
-/

namespace Translib
namespace GuardedWriters

open TransitionMachine FifoQueue

/-- Records that consist of pieces, and the output each of them goes to. -/
structure Format (ρ ω β : Type*) where
  output : ρ → ω
  pieces : ρ → List (List β)

def Format.text {ρ ω β : Type*} (f : Format ρ ω β) (r : ρ) : List β := (f.pieces r).flatten

/-- Where a writer stands: outside, before the lock with a record to write, or behind it with
pieces left to write. -/
inductive Phase (ρ β : Type*)
  | outside
  | waiting (r : ρ)
  | inside (r : ρ) (rest : List (List β))
  deriving DecidableEq, Repr

structure Writers (ι ρ ω β : Type*) where
  owner : Option ι
  phase : ι → Phase ρ β
  output : ω → List β

inductive Step (ι ρ : Type*)
  | submit (i : ι) (r : ρ)
  | lock (i : ι)
  | write (i : ι)
  | unlock (i : ι)
  deriving DecidableEq, Repr

variable {ι ρ ω β : Type*} [DecidableEq ι] [DecidableEq ω] {f : Format ρ ω β}

def create : Writers ι ρ ω β := ⟨none,fun _ => .outside,fun _ => []⟩

/-- A step of a writer that is elsewhere does nothing, and a taken lock is waited for. -/
def step (f : Format ρ ω β) (s : Writers ι ρ ω β) : Step ι ρ → Writers ι ρ ω β
  | .submit i r =>
    match s.phase i with
    | .outside => { s with phase := Function.update s.phase i (.waiting r) }
    | _ => s
  | .lock i =>
    match s.phase i, s.owner with
    | .waiting r, none =>
      { s with owner := some i, phase := Function.update s.phase i (.inside r (f.pieces r)) }
    | _, _ => s
  | .write i =>
    match s.phase i with
    | .inside r (piece::rest) =>
      { s with
        phase := Function.update s.phase i (.inside r rest)
        output := Function.update s.output (f.output r) (s.output (f.output r) ++ piece) }
    | _ => s
  | .unlock i =>
    match s.phase i with
    | .inside _ [] => { s with owner := none, phase := Function.update s.phase i .outside }
    | _ => s

def submitted (s : Writers ι ρ ω β) : Step ι ρ → List (ι × ρ)
  | .submit i r =>
    match s.phase i with
    | .outside => [(i,r)]
    | _ => []
  | _ => []

def completed (s : Writers ι ρ ω β) : Step ι ρ → List (ι × ρ)
  | .unlock i =>
    match s.phase i with
    | .inside r [] => [(i,r)]
    | _ => []
  | _ => []

def Phase.pending : Phase ρ β → List ρ
  | .outside => []
  | .waiting r => [r]
  | .inside r _ => [r]

def ofWriter (i : ι) (rs : List (ι × ρ)) : List ρ :=
  rs.filterMap fun p => if p.1 = i then some p.2 else none

def texts (f : Format ρ ω β) (out : ω) (rs : List (ι × ρ)) : List β :=
  (rs.filter fun p => f.output p.2 = out).flatMap fun p => f.text p.2

def Part (f : Format ρ ω β) (s : Writers ι ρ ω β) (out : ω) (part : List β) : Prop :=
  part = [] ∨ ∃ i r rest, s.owner = some i ∧ s.phase i = .inside r rest ∧ f.output r = out ∧
    part ++ rest.flatten = f.text r

inductive Effect (f : Format ρ ω β) (s : Writers ι ρ ω β) :
    Writers ι ρ ω β → List (ι × ρ) → List (ι × ρ) → Prop
  | nothing : Effect f s s [] []
  | submits (i : ι) (r : ρ) (hphase : s.phase i = .outside) :
      Effect f s { s with phase := Function.update s.phase i (.waiting r) } [(i,r)] []
  | locks (i : ι) (r : ρ) (hphase : s.phase i = .waiting r) (howner : s.owner = none) :
      Effect f s
        { s with owner := some i, phase := Function.update s.phase i (.inside r (f.pieces r)) } [] []
  | writes (i : ι) (r : ρ) (piece : List β) (rest : List (List β))
      (hphase : s.phase i = .inside r (piece::rest)) :
      Effect f s { s with
        phase := Function.update s.phase i (.inside r rest)
        output := Function.update s.output (f.output r) (s.output (f.output r) ++ piece) } [] []
  | unlocks (i : ι) (r : ρ) (hphase : s.phase i = .inside r []) :
      Effect f s { s with owner := none, phase := Function.update s.phase i .outside } [] [(i,r)]

theorem step_effect (f : Format ρ ω β) (s : Writers ι ρ ω β) (l : Step ι ρ) :
    Effect f s (step f s l) (submitted s l) (completed s l) := by
  cases l with
  | submit i r =>
    cases hphase : s.phase i with
    | outside =>
      simp only [step,submitted,completed,hphase]
      exact .submits i r hphase
    | _ =>
      simp only [step,submitted,completed,hphase]
      exact .nothing
  | lock i =>
    cases hphase : s.phase i with
    | waiting r =>
      cases howner : s.owner with
      | none =>
        simp only [step,submitted,completed,hphase,howner]
        exact .locks i r hphase howner
      | some j =>
        simp only [step,submitted,completed,hphase,howner]
        exact .nothing
    | _ =>
      simp only [step,submitted,completed,hphase]
      exact .nothing
  | write i =>
    cases hphase : s.phase i with
    | inside r rest =>
      cases rest with
      | cons piece rest =>
        simp only [step,submitted,completed,hphase]
        exact .writes i r piece rest hphase
      | nil =>
        simp only [step,submitted,completed,hphase]
        exact .nothing
    | _ =>
      simp only [step,submitted,completed,hphase]
      exact .nothing
  | unlock i =>
    cases hphase : s.phase i with
    | inside r rest =>
      cases rest with
      | nil =>
        simp only [step,submitted,completed,hphase]
        exact .unlocks i r hphase
      | cons piece rest =>
        simp only [step,submitted,completed,hphase]
        exact .nothing
    | _ =>
      simp only [step,submitted,completed,hphase]
      exact .nothing

theorem step_pending (f : Format ρ ω β) (s : Writers ι ρ ω β) (l : Step ι ρ) (i : ι) :
    Moves (s.phase i).pending (ofWriter i (submitted s l)) (ofWriter i (completed s l))
      ((step f s l).phase i).pending := by
  have heffect := step_effect f s l
  generalize step f s l = s', submitted s l = rs, completed s l = rs' at heffect ⊢
  cases heffect with
  | nothing => exact moves_refl _
  | submits j r hphase =>
    by_cases hij : i = j
    · subst hij
      simp [hphase,Moves,ofWriter,Phase.pending]
    · simp [Moves,hij,Ne.symm hij,ofWriter]
  | locks j r hphase howner =>
    by_cases hij : i = j
    · subst hij
      simp [hphase,Moves,ofWriter,Phase.pending]
    · simp [Moves,hij,ofWriter]
  | writes j r piece rest hphase =>
    by_cases hij : i = j
    · subst hij
      simp [hphase,Moves,ofWriter,Phase.pending]
    · simp [Moves,hij,ofWriter]
  | unlocks j r hphase =>
    by_cases hij : i = j
    · subst hij
      simp [hphase,Moves,ofWriter,Phase.pending]
    · simp [Moves,hij,Ne.symm hij,ofWriter]

/-- With the records `done` complete: a writer with pieces left holds the lock, and the outputs
are the records and the part the holder has written. -/
structure Written (f : Format ρ ω β) (s : Writers ι ρ ω β) (done : List (ι × ρ)) : Prop where
  owned : ∀ i r rest, s.phase i = .inside r rest → s.owner = some i
  idle : s.owner = none → ∀ out, s.output out = texts f out done
  busy : ∀ i, s.owner = some i → ∃ r rest part, s.phase i = .inside r rest ∧
    part ++ rest.flatten = f.text r ∧
    ∀ out, s.output out = texts f out done ++ if f.output r = out then part else []

omit [DecidableEq ι] in
theorem create_written (f : Format ρ ω β) : Written f (create : Writers ι ρ ω β) [] where
  owned := fun _ _ _ h => by cases h
  idle := fun _ _ => rfl
  busy := fun _ h => by cases h

omit [DecidableEq ι] in
theorem texts_snoc (f : Format ρ ω β) (out : ω) (done : List (ι × ρ)) (i : ι) (r : ρ) :
    texts f out (done ++ [(i,r)]) = texts f out done ++ if f.output r = out then f.text r else [] := by
  by_cases hout : f.output r = out <;> simp [texts,hout]

theorem step_written {s : Writers ι ρ ω β} {done : List (ι × ρ)} (h : Written f s done)
    (l : Step ι ρ) : Written f (step f s l) (done ++ completed s l) := by
  have heffect := step_effect f s l
  generalize step f s l = s', submitted s l = rs, completed s l = rs' at heffect ⊢
  cases heffect with
  | nothing => simpa using h
  | submits i r hphase =>
    have hne (j : ι) (hj : s.owner = some j) : j ≠ i := by
      rintro rfl
      obtain ⟨r',rest,part,hinside,-⟩ := h.busy j hj
      simp [hphase] at hinside
    rw [List.append_nil]
    refine ⟨fun j r' rest hj => ?_,h.idle,fun j hj => ?_⟩
    · by_cases hij : j = i
      · subst hij
        simp at hj
      · exact h.owned j r' rest (by simpa [hij] using hj)
    · obtain ⟨r',rest,part,hinside,hpart,hout⟩ := h.busy j hj
      exact ⟨r',rest,part,by simpa [hne j hj] using hinside,hpart,hout⟩
  | locks i r hphase howner =>
    rw [List.append_nil]
    refine ⟨fun j r' rest hj => ?_,fun hnone => (by cases hnone),fun j hj => ?_⟩
    · by_cases hij : j = i
      · rw [hij]
      · have hheld := h.owned j r' rest (by simpa [hij] using hj)
        rw [howner] at hheld
        cases hheld
    · cases hj
      refine ⟨r,f.pieces r,[],by simp,rfl,fun out => ?_⟩
      simpa using h.idle howner out
  | writes i r piece rest hphase =>
    have howner := h.owned i r _ hphase
    obtain ⟨r',rest',part,hinside,hpart,hout⟩ := h.busy i howner
    rw [hphase] at hinside
    cases hinside
    rw [List.append_nil]
    refine ⟨fun j r' rest' hj => ?_,fun hnone => ?_,fun j hj => ?_⟩
    · by_cases hij : j = i
      · rw [hij]
        exact howner
      · exact h.owned j r' rest' (by simpa [hij] using hj)
    · exact absurd (howner.symm.trans hnone) (by simp)
    · have hij : i = j := Option.some.inj (howner.symm.trans hj)
      subst hij
      refine ⟨r,rest,part++piece,by simp,by simpa using hpart,fun out => ?_⟩
      by_cases hsame : f.output r = out
      · subst hsame
        simp [hout]
      · have hother : Function.update s.output (f.output r) (s.output (f.output r) ++ piece) out =
            s.output out := Function.update_of_ne (Ne.symm hsame) _ _
        exact hother.trans (by rw [hout,if_neg hsame,if_neg hsame])
  | unlocks i r hphase =>
    have howner := h.owned i r _ hphase
    obtain ⟨r',rest',part,hinside,hpart,hout⟩ := h.busy i howner
    rw [hphase] at hinside
    cases hinside
    refine ⟨fun j r' rest' hj => ?_,fun _ out => ?_,fun j hj => (by cases hj)⟩
    · by_cases hij : j = i
      · subst hij
        simp at hj
      · have hheld := h.owned j r' rest' (by simpa [hij] using hj)
        exact absurd (Option.some.inj (hheld.symm.trans howner)) hij
    · rw [texts_snoc,← hpart]
      simpa using hout out

/-- The rule: in every run each writer's records are completed in the order it took them on, and
the outputs are the completed records, whole and in one order, and a part of the one that is
being written. -/
theorem run_written (f : Format ρ ω β) (run : List (Step ι ρ)) :
    let s := exec (step f) create run
    let done := shown (step f) completed create run
    (∀ i, ofWriter i (shown (step f) submitted create run) = ofWriter i done ++ (s.phase i).pending) ∧
      ∀ out, ∃ part, s.output out = texts f out done ++ part ∧ Part f s out part := by
  intro s done
  refine ⟨fun i => ?_,fun out => ?_⟩
  · have hmoves := exec_moves (H := fun s q => q = (s.phase i).pending)
      (fun s l q hq (_ : True) => ⟨_,rfl,hq ▸ step_pending f s l i⟩) rfl
      (along_true (step f) create run)
    obtain ⟨q,rfl,hmove⟩ := hmoves
    rw [ofWriter,ofWriter,← shown_filterMap,← shown_filterMap]
    exact hmove
  · have hwritten : Written f s done := exec_shown (I := Written f)
      (fun _ l _ h _ => step_written h l) (create_written f) (along_true (step f) create run)
    cases howner : s.owner with
    | none => exact ⟨[],by simpa using hwritten.idle howner out,.inl rfl⟩
    | some i =>
      obtain ⟨r,rest,part,hinside,hpart,hout⟩ := hwritten.busy i howner
      by_cases hsame : f.output r = out
      · refine ⟨part,by simpa [hsame] using hout out,.inr ⟨i,r,rest,howner,hinside,hsame,hpart⟩⟩
      · exact ⟨[],by simpa [hsame] using hout out,.inl rfl⟩

end GuardedWriters
end Translib
