import Translib.KeyTable
import Translib.TimerAudit

/-! What a timer ID tells of the timer: the manager with the pointers in its map, over every
sequence of calls. -/

namespace Translib
namespace TimerIds

open TransitionMachine Timer

variable {α : Type*}

/-- A `Timer::ptr_p`. -/
abbrev TimerRef := ℕ

/-- `timers` is what pointers point to, `created` the next one `new` returns. -/
structure Manager (α : Type*) where
  uniqueID : ℤ
  t_map : KeyTable ℤ TimerRef
  timers : TimerRef → Timer α
  created : ℕ

namespace Manager

def create : Manager α := ⟨0,.empty,fun _ => .create,0⟩

def getUniqueID (m : Manager α) : ℤ × Manager α :=
  (m.uniqueID,{ m with uniqueID := int32 (m.uniqueID+1) })

def newTimer (m : Manager α) : TimerRef × Manager α :=
  (m.created,{ m with
    timers := Function.update m.timers m.created Timer.create
    created := m.created+1 })

/-- The ID stored through `timerID`, and the timer that is returned. -/
def getTimer (m : Manager α) : (ℤ × TimerRef) × Manager α :=
  let tid := m.getUniqueID
  let tmp_ptr := tid.2.newTimer
  ((tid.1,tmp_ptr.1),{ tmp_ptr.2 with t_map := tmp_ptr.2.t_map.emplace tid.1 tmp_ptr.1 })

@[simp] theorem getTimer_fst (m : Manager α) : m.getTimer.1 = (m.uniqueID,m.created) := rfl

@[simp] theorem getTimer_t_map (m : Manager α) :
    m.getTimer.2.t_map = m.t_map.emplace m.uniqueID m.created := rfl

@[simp] theorem getTimer_timers (m : Manager α) :
    m.getTimer.2.timers = Function.update m.timers m.created Timer.create := rfl

@[simp] theorem getTimer_uniqueID (m : Manager α) :
    m.getTimer.2.uniqueID = int32 (m.uniqueID+1) := rfl

@[simp] theorem getTimer_created (m : Manager α) : m.getTimer.2.created = m.created+1 := rfl

def auditTimer (m : Manager α) : Bool × Manager α :=
  (true,{ m with t_map := m.t_map.eraseUnless fun i => !(m.timers i.2).isFinished })

def killTimer (timerID : ℤ) (m : Manager α) : Bool × Manager α :=
  (true,{ m with t_map := m.t_map.erase timerID })

def atTimer (r : TimerRef) (f : Timer α → Timer α) (m : Manager α) : Manager α :=
  { m with timers := Function.update m.timers r (f (m.timers r)) }

def deref (m : Manager α) : TimerManager α := ⟨m.uniqueID,m.t_map.mapValues m.timers⟩

/-- The map holds pointers `new` has returned. -/
def Allocated (m : Manager α) : Prop := ∀ i ∈ m.t_map.entries, i.2 < m.created

theorem deref_killTimer (timerID : ℤ) (m : Manager α) :
    (m.killTimer timerID).2.deref = (m.deref.killTimer timerID).2 := by
  have hmap : (m.t_map.mapValues m.timers).erase timerID =
      (m.t_map.erase timerID).mapValues m.timers := KeyTable.eraseUnless_mapValues _ _ _
  exact congrArg (TimerManager.mk m.uniqueID) hmap.symm

theorem deref_auditTimer (m : Manager α) : m.auditTimer.2.deref = m.deref.auditTimer.2 := by
  have hmap : m.deref.auditTimer.2.t_map = m.auditTimer.2.t_map.mapValues m.timers :=
    m.deref.auditTimer_t_map.trans (KeyTable.eraseUnless_mapValues _ _ _)
  exact congrArg (TimerManager.mk m.uniqueID) hmap.symm

theorem deref_getTimer {m : Manager α} (h : m.Allocated) :
    m.getTimer.2.deref = m.deref.getTimer.2 ∧ m.getTimer.1.1 = m.deref.getTimer.1 := by
  have hold : m.t_map.mapValues (Function.update m.timers m.created Timer.create) =
      m.t_map.mapValues m.timers :=
    KeyTable.mapValues_congr fun i hi => Function.update_of_ne (Nat.ne_of_lt (h i hi)) _ _
  have hmap : m.getTimer.2.deref.t_map = m.deref.t_map.emplace m.uniqueID Timer.create := by
    rw [deref,getTimer_t_map,getTimer_timers,KeyTable.mapValues_emplace,hold,Function.update_self]
    rfl
  exact ⟨congrArg (TimerManager.mk _) hmap,rfl⟩

end Manager

/-- `returned` are the IDs and the timers `getTimer` has returned, the last one first. -/
structure System (α : Type*) where
  manager : Manager α
  returned : List (ℤ × TimerRef)

/-- Timers are called and expire through their pointers, in the map or not. -/
inductive Step (α : Type*)
  | getTimer
  | killTimer (tid : ℤ)
  | audit
  | call (r : TimerRef) (c : Call α)
  | expire (r : TimerRef)
  deriving DecidableEq, Repr

def create : System α := ⟨.create,[]⟩

def step (s : System α) : Step α → System α
  | .getTimer =>
    { manager := s.manager.getTimer.2, returned := s.manager.getTimer.1 :: s.returned }
  | .killTimer tid => { s with manager := (s.manager.killTimer tid).2 }
  | .audit => { s with manager := s.manager.auditTimer.2 }
  | .call r c => { s with manager := s.manager.atTimer r fun t => (call c t).2 }
  | .expire r => { s with manager := s.manager.atTimer r TimerAudit.expired }

/-- The timer the last `getTimer` that returned the ID has returned with it. -/
def timerOf (s : System α) (tid : ℤ) : Option TimerRef :=
  (s.returned.find? fun i => i.1 = tid).map Prod.snd

/-- The map has the returned timer under the returned ID, and a kill removes the timer of its
ID and no other. -/
def Identifies (s : System α) : Step α → Prop
  | .getTimer => s.manager.getTimer.2.t_map.find s.manager.getTimer.1.1 =
      some s.manager.getTimer.1.2
  | .killTimer tid => (s.manager.killTimer tid).2.t_map.entries =
      s.manager.t_map.entries.filter fun i => timerOf s tid ≠ some i.2
  | _ => True

def Distinct (s : System α) : Prop :=
  ∀ i ∈ s.manager.t_map.entries, ∀ j ∈ s.manager.t_map.entries, ∀ tid,
    (tid,i.2) ∈ s.returned → (tid,j.2) ∈ s.returned → i.2 = j.2

/-- `getTimer` does not come upon a timer under the ID it is about to give out. -/
def NewId (s : System α) : Step α → Prop
  | .getTimer => s.manager.t_map.find s.manager.uniqueID = none
  | _ => True

/-- The timers in the map are there under the IDs they were returned with, and every timer is
returned once. -/
structure Given (s : System α) : Prop where
  held : ∀ i ∈ s.manager.t_map.entries, i ∈ s.returned
  old : ∀ i ∈ s.returned, i.2 < s.manager.created
  once : ∀ i ∈ s.returned, ∀ j ∈ s.returned, i.2 = j.2 → i = j

def Owned (s : System α) : Prop :=
  ∀ i ∈ s.manager.t_map.entries, timerOf s i.1 = some i.2

theorem Given.allocated {s : System α} (h : Given s) : s.manager.Allocated :=
  fun i hi => h.old i (h.held i hi)

theorem getTimer_given {s : System α} (h : Given s) : Given (step s .getTimer) := by
  have hfresh : ∀ i ∈ s.returned, i.2 ≠ s.manager.created := fun i hi => Nat.ne_of_lt (h.old i hi)
  refine ⟨fun i hi => ?_,fun i hi => ?_,fun i hi j hj hij => ?_⟩
  · rcases KeyTable.mem_emplace.mp hi with hold | ⟨_,rfl⟩
    · exact List.mem_cons_of_mem _ (h.held i hold)
    · exact List.mem_cons_self
  · rcases List.mem_cons.mp hi with rfl | hold
    · exact Nat.lt_succ_self _
    · exact Nat.lt_succ_of_lt (h.old i hold)
  · rcases List.mem_cons.mp hi with rfl | hi
    · rcases List.mem_cons.mp hj with rfl | hj
      · rfl
      · exact absurd hij.symm (hfresh j hj)
    · rcases List.mem_cons.mp hj with rfl | hj
      · exact absurd hij (hfresh i hi)
      · exact h.once i hi j hj hij

theorem step_given {s : System α} (l : Step α) (h : Given s) : Given (step s l) := by
  cases l with
  | getTimer => exact getTimer_given h
  | killTimer tid =>
    exact ⟨fun i hi => h.held i (KeyTable.mem_eraseUnless.mp hi).1,h.old,h.once⟩
  | audit => exact ⟨fun i hi => h.held i (KeyTable.mem_eraseUnless.mp hi).1,h.old,h.once⟩
  | call r c => exact ⟨h.held,h.old,h.once⟩
  | expire r => exact ⟨h.held,h.old,h.once⟩

theorem Given.distinct {s : System α} (h : Given s) : Distinct s := by
  intro i hi j hj tid hit hjt
  have hkey {k : ℤ × TimerRef} (hk : k ∈ s.manager.t_map.entries) (hkt : (tid,k.2) ∈ s.returned) :
      k.1 = tid :=
    congrArg Prod.fst (h.once k (h.held k hk) (tid,k.2) hkt rfl)
  exact congrArg Prod.snd (KeyTable.eq_of_mem hi hj ((hkey hi hit).trans (hkey hj hjt).symm))

theorem step_owned {s : System α} {l : Step α} (h : Owned s) (hl : NewId s l) :
    Owned (step s l) := by
  cases l with
  | getTimer =>
    intro i hi
    rw [step,Manager.getTimer_t_map,KeyTable.mem_emplace] at hi
    rcases hi with hold | ⟨_,rfl⟩
    · have hne : s.manager.uniqueID ≠ i.1 := by
        intro he
        have hnone : s.manager.t_map.find s.manager.uniqueID = none := hl
        exact absurd (he ▸ List.mem_map_of_mem hold) (KeyTable.find_eq_none.mp hnone)
      have hrest : timerOf (step s .getTimer) i.1 = timerOf s i.1 := by
        simp [timerOf,step,hne]
      rw [hrest]
      exact h i hold
    · simp [timerOf,step]
  | killTimer tid => exact fun i hi => h i (KeyTable.mem_eraseUnless.mp hi).1
  | audit => exact fun i hi => h i (KeyTable.mem_eraseUnless.mp hi).1
  | call r c => exact h
  | expire r => exact h

theorem identifies_of_owned {s : System α} {l : Step α} (hgiven : Given s) (h : Owned s)
    (hl : NewId s l) : Identifies s l := by
  cases l with
  | getTimer =>
    have hnone : s.manager.t_map.find s.manager.uniqueID = none := hl
    simp [Identifies,KeyTable.find_emplace,hnone]
  | killTimer tid =>
    refine List.filter_congr fun i hi => ?_
    rw [decide_eq_decide,not_iff_not]
    constructor
    · rintro rfl
      exact h i hi
    · intro htimer
      obtain ⟨j,hfind,hj⟩ := Option.map_eq_some_iff.mp htimer
      have hij := hgiven.once j (List.mem_of_find?_eq_some hfind) i (hgiven.held i hi) hj
      subst hij
      simpa using List.find?_some hfind
  | audit => trivial
  | call r c => trivial
  | expire r => trivial

theorem newId_of_identifies {s : System α} {l : Step α} (hgiven : Given s) (h : Identifies s l) :
    NewId s l := by
  cases l with
  | getTimer =>
    rw [NewId,Option.eq_none_iff_forall_ne_some]
    intro r hr
    have hfound : (s.manager.t_map.emplace s.manager.uniqueID s.manager.created).find
        s.manager.uniqueID = some s.manager.created := h
    rw [KeyTable.emplace_of_find hr,hr] at hfound
    have hold := hgiven.allocated _ (KeyTable.find_eq_some.mp hr)
    cases hfound
    exact absurd hold (lt_irrefl _)
  | killTimer tid => trivial
  | audit => trivial
  | call r c => trivial
  | expire r => trivial

theorem create_given : Given (create : System α) :=
  ⟨fun _ hi => absurd hi List.not_mem_nil,fun _ hi => absurd hi List.not_mem_nil,
    fun _ hi => absurd hi List.not_mem_nil⟩

/-- In every run, IDs tell the timers if and only if no ID is given out while the map has a
timer under it. -/
theorem identifies_iff (run : List (Step α)) :
    Along step Identifies create run ∧ Always step Distinct create run ↔
      Along step NewId create run := by
  constructor
  · rintro ⟨h,-⟩
    exact along_of_invariant (A := Identifies) (fun _ l hs _ => step_given l hs)
      (fun _ _ hs hl => newId_of_identifies hs hl) create_given h
  · intro h
    have howned : Owned (create : System α) := fun i hi => absurd hi List.not_mem_nil
    refine ⟨?_,fun pre _ => (exec_preserves (fun _ l => step_given l) create_given pre).distinct⟩
    exact along_of_invariant (J := fun s => Given s ∧ Owned s)
      (fun _ l hs hl => ⟨step_given l hs.1,step_owned hs.2 hl⟩)
      (fun _ _ hs hl => identifies_of_owned hs.1 hs.2 hl) ⟨create_given,howned⟩ h

/-- A timer that is kept, and `n` that are killed as soon as they are made. -/
def churn : ℕ → List (Step Unit)
  | 0 => [.getTimer]
  | n+1 => churn n ++ [.getTimer,.killTimer (int32 (n+1))]

theorem churn_exec {n : ℕ} (hn : n < 2^32) :
    (exec step create (churn n)).manager.uniqueID = int32 (n+1) ∧
      (exec step create (churn n)).manager.t_map.entries = [(0,0)] ∧
      (exec step create (churn n)).manager.created = n+1 := by
  induction n with
  | zero => exact ⟨rfl,rfl,rfl⟩
  | succ n ih =>
    obtain ⟨hid,hmap,hcreated⟩ := ih (Nat.lt_of_succ_lt hn)
    rw [churn,exec_append]
    generalize exec step create (churn n) = s at hid hmap hcreated
    have hne : int32 (n+1) ≠ 0 := by
      intro hzero
      have hdvd : (2^32 : ℤ) ∣ n+1 := Int.dvd_of_bmod_eq_zero hzero
      omega
    have hfind : s.manager.t_map.find s.manager.uniqueID = none := by
      rw [KeyTable.find_eq_none,hmap,hid]
      simpa using hne
    have hentries := KeyTable.entries_emplace (v := s.manager.created) hfind
    refine ⟨?_,?_,?_⟩
    · simp only [exec,step,Manager.killTimer,Manager.getTimer_uniqueID,hid]
      rw [int32,int32,Int.bmod_add_bmod]
      push_cast
      rfl
    · simp only [exec,step,Manager.killTimer,Manager.getTimer_t_map,KeyTable.erase,
        KeyTable.eraseUnless]
      rw [hentries,hmap,hid]
      simp [hne.symm]
    · simp [exec,step,Manager.killTimer,hcreated]

/-- The timer got after `2^32` IDs were given out is not in the map. -/
theorem churn_reused {n : ℕ} (hn : n+1 = 2^32) :
    ¬ Along step Identifies create (churn n ++ [.getTimer]) := by
  intro h
  rw [along_append] at h
  obtain ⟨hid,hmap,_⟩ := churn_exec (show n < 2^32 by omega)
  have hgiven := exec_preserves (fun _ l => step_given l) create_given (churn n)
  have hnew := newId_of_identifies hgiven h.2.1
  generalize exec step create (churn n) = s at hid hmap hnew
  have hzero : s.manager.uniqueID = 0 := by
    rw [hid,int32,show (n : ℤ)+1 = 2^32 by exact_mod_cast hn]
    exact Int.bmod_self
  rw [NewId,hzero,KeyTable.find_eq_none,hmap] at hnew
  exact hnew (by simp)

theorem id_reused :
    ¬ ∀ run : List (Step Unit), Along step Identifies create run ∧ Always step Distinct create run :=
  fun h => churn_reused (n := 2^32-1) (by norm_num) (h _).1

end TimerIds
end Translib
