import Translib.KeyTable
import Translib.Timer

/-! The timer manager: its map of timers, and the audit that empties it. -/

namespace Translib

/-- Conversion to `int`. -/
abbrev int32 (n : ℤ) : ℤ := Int.bmod n (2^32)

/-- The map goes from timer IDs to timers; its order is the one it is gone through in. -/
structure TimerManager (α : Type*) where
  uniqueID : ℤ
  t_map : KeyTable ℤ (Timer α)
  deriving DecidableEq

namespace TimerManager

variable {α : Type*}

def auditInterval : ℕ := 5000

def newAuditTimer {α : Type*} (lib : Libevent) (auditTimer : α) : Timer α :=
  (Timer.create.startForever lib auditInterval (.user auditTimer)).2

def create : TimerManager α := ⟨0,.empty⟩

/-- The counter is an `int`, and wraps. -/
def getUniqueID (m : TimerManager α) : ℤ × TimerManager α :=
  (m.uniqueID,{ m with uniqueID := int32 (m.uniqueID+1) })

def getTimer (m : TimerManager α) : ℤ × TimerManager α :=
  let tid := m.getUniqueID
  (tid.1,{ tid.2 with t_map := tid.2.t_map.emplace tid.1 Timer.create })

/-- The loop of `auditTimer`, over the entries not yet looked at. -/
def auditLoop : List (ℤ × Timer α) → List (ℤ × Timer α)
  | [] => []
  | i::rest => if i.2.isFinished then auditLoop rest else i :: auditLoop rest

theorem auditLoop_eq (entries : List (ℤ × Timer α)) :
    auditLoop entries = entries.filter fun i => !i.2.isFinished := by
  induction entries with
  | nil => rfl
  | cons i rest ih =>
    cases hi : i.2.isFinished <;> simp [auditLoop,hi,ih]

def auditTimer (m : TimerManager α) : Bool × TimerManager α :=
  (true,{ m with
    t_map :=
      { entries := auditLoop m.t_map.entries
        unique := by
          rw [auditLoop_eq]
          exact (m.t_map.eraseUnless _).unique } })

theorem auditTimer_t_map (m : TimerManager α) :
    m.auditTimer.2.t_map = m.t_map.eraseUnless fun i => !i.2.isFinished :=
  KeyTable.eq_of_entries (auditLoop_eq m.t_map.entries)

def killTimer (timerID : ℤ) (m : TimerManager α) : Bool × TimerManager α :=
  (true,{ m with t_map := m.t_map.erase timerID })

def atTimer (tid : ℤ) (f : Timer α → Timer α) (m : TimerManager α) : TimerManager α :=
  { m with t_map := m.t_map.modify tid f }

end TimerManager

end Translib
