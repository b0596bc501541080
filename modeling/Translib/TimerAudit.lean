import Translib.TimerManager
import Translib.TransitionMachine

/-! What the audit of a timer manager removes, after any run of its timers. -/

namespace Translib
namespace TimerAudit

open TransitionMachine Timer

variable {α : Type*}

/-- The round counts in closures of `startAfter` are those of a `uint64_t`. -/
def HandlerFits : Handler α → Prop
  | .startRounds _ rounds handler => rounds < 2^64 ∧ HandlerFits handler
  | _ => True

def CallFits : Call α → Prop
  | .startRounds _ rounds handler => rounds < 2^64 ∧ HandlerFits handler
  | .startOnce _ handler => HandlerFits handler
  | .startForever _ handler => HandlerFits handler
  | .startAfter _ _ rounds handler => rounds < 2^64 ∧ HandlerFits handler
  | .startCB _ _ _ _ => True
  | .stop => True

inductive Tracked : Bool → Timer α → Prop
  | fresh {t : Timer α} (idle : t.event = none) (round : t.round = 1) (curRound : t.curRound = 0) :
      Tracked false t
  | armed {t : Timer α} (event : TimerEvent) (armed : t.event = some event)
      (pending : event.pending = true) (persist : event.persist = decide (1 < t.round))
      (left : t.curRound < t.round ∨ t.round = 0 ∧ t.curRound = 0) (fits : t.round < 2^64)
      (handler : HandlerFits t.handler) : Tracked true t
  | dead {t : Timer α} (idle : t.event = none) (curRound : t.curRound = uint64 (t.round+1))
      (fits : t.round < 2^64) : Tracked true t

theorem startRounds_tracked {b : Bool} {t : Timer α} (h : Tracked b t) (interval : ℕ) {round : ℕ}
    (hround : round < 2^64) {handler : Handler α} (hhandler : HandlerFits handler) :
    Tracked (b || (startRounds ⟨true,true⟩ interval round handler t).1)
      (startRounds ⟨true,true⟩ interval round handler t).2 := by
  have hnew (hidle : t.event = none) :
      Tracked (b || (startRounds ⟨true,true⟩ interval round handler t).1)
        (startRounds ⟨true,true⟩ interval round handler t).2 := by
    rw [startRounds_idle interval round handler hidle,Bool.or_true]
    refine .armed (newEvent interval round) rfl rfl rfl ?_ hround hhandler
    rcases Nat.eq_zero_or_pos round with hzero | hpos
    · exact .inr ⟨hzero,rfl⟩
    · exact .inl hpos
  cases h with
  | fresh idle _ _ => exact hnew idle
  | dead idle _ _ => exact hnew idle
  | armed event armed pending persist left fits hfits =>
    rw [startRounds_armed _ _ _ _ (by simp [armed])]
    exact .armed event armed pending persist left fits hfits

theorem reset_tracked {b : Bool} {t : Timer α} (h : Tracked b t) : Tracked b (reset t) := by
  cases h with
  | fresh idle round curRound =>
    rw [reset_idle idle]
    exact .fresh idle round curRound
  | dead idle curRound fits =>
    rw [reset_idle idle]
    exact .dead idle curRound fits
  | armed event armed pending persist left fits hfits =>
    rw [reset_armed (by simp [armed])]
    exact .dead rfl rfl fits

theorem call_tracked {b : Bool} {t : Timer α} (h : Tracked b t) {c : Call α} (hc : CallFits c) :
    Tracked (b || decide ((call c t).1 = some true)) (call c t).2 := by
  have hstart (interval : ℕ) {round : ℕ} (hround : round < 2^64) {handler : Handler α}
      (hhandler : HandlerFits handler) (t : Timer α) (h : Tracked b t) :
      Tracked (b || decide (((startRounds ⟨true,true⟩ interval round handler t).map some id).1 =
          some true))
        ((startRounds ⟨true,true⟩ interval round handler t).map some id).2 := by
    simpa using startRounds_tracked h interval hround hhandler
  have hforever : foreverRounds < 2^64 := by decide
  cases c with
  | startRounds interval round handler => exact hstart interval hc.1 hc.2 t h
  | startOnce interval handler => exact hstart interval (by decide) hc t h
  | startForever interval handler => exact hstart interval hforever hc t h
  | startAfter after interval round handler =>
    exact hstart after (by decide) (show HandlerFits (.startRounds interval round handler) from hc) t h
  | startCB interval handler userData tid =>
    refine hstart interval hforever (show HandlerFits .callCB from trivial)
      { t with tid, userData, cbHandler := some handler } ?_
    cases h with
    | fresh idle round curRound => exact .fresh idle round curRound
    | armed event armed pending persist left fits hfits =>
      exact .armed event armed pending persist left fits hfits
    | dead idle curRound fits => exact .dead idle curRound fits
  | stop => simpa [call,stop] using reset_tracked h

/-- The event of the timer fires, and a closure of `startAfter` runs to its end. What any
other handler does comes after. -/
def expired (t : Timer α) : Timer α :=
  match t.expire with
  | none => t
  | some (handler,t') => (CallbackMachine.calls machine t' ((script handler).getD [])).1

theorem expire_tracked {b : Bool} {t t' : Timer α} {handler : Handler α} (h : Tracked b t)
    (he : t.expire = some (handler,t')) : b = true ∧ Tracked true t' ∧ HandlerFits handler := by
  cases h with
  | fresh idle _ _ => simp [expire_idle idle] at he
  | dead idle _ _ => simp [expire_idle idle] at he
  | armed event armed pending persist left fits hfits =>
    have h64 : t.curRound+1 < 2^64 := by omega
    by_cases hlast : t.round ≤ t.curRound+1
    · rw [expire_last armed pending h64 hlast] at he
      cases he
      exact ⟨rfl,.dead rfl rfl fits,hfits⟩
    · have hmore : t.curRound+1 < t.round := not_le.mp hlast
      have hpersist : event.persist = true := by
        rw [persist,decide_eq_true_eq]
        omega
      rw [expire_counts armed pending hpersist h64 hmore] at he
      cases he
      exact ⟨rfl,.armed event armed pending persist (.inl hmore) fits hfits,hfits⟩

theorem expired_tracked {b : Bool} {t : Timer α} (h : Tracked b t) : Tracked b (expired t) := by
  unfold expired
  cases he : t.expire with
  | none => exact h
  | some r =>
    obtain ⟨handler,t'⟩ := r
    obtain ⟨rfl,ht',hfits⟩ := expire_tracked h he
    cases handler with
    | startRounds interval round handler =>
      exact startRounds_tracked ht' interval hfits.1 hfits.2
    | null => exact ht'
    | user f => exact ht'
    | callCB => exact ht'

/-- The audit takes a timer for what it is not: one that is armed, with no round to count
to; or one that is dead, with a round count past which it cannot count. -/
def Misread (started : Bool) (t : Timer α) : Prop :=
  (t.isArmed = true ∧ t.round = 0) ∨
    (started = true ∧ t.isArmed = false ∧ t.round = 2^64-1)

instance (started : Bool) (t : Timer α) : Decidable (Misread started t) :=
  inferInstanceAs (Decidable (_ ∨ _))

/-- The timer was started and nothing is left to fire. -/
def dead (started : Bool) (t : Timer α) : Bool := started && !t.isArmed

theorem isFinished_iff {b : Bool} {t : Timer α} (h : Tracked b t) :
    t.isFinished = dead b t ↔ ¬ Misread b t := by
  cases h with
  | fresh idle round curRound => simp [isFinished,dead,Misread,isArmed,idle,round,curRound]
  | armed event armed pending persist left fits hfits =>
    have hfinished : t.isFinished = decide (t.round = 0) := by
      rw [isFinished,decide_eq_decide]
      omega
    simp [hfinished,dead,Misread,isArmed,armed,pending]
  | dead idle curRound fits =>
    have hfinished : t.isFinished = decide (t.round ≠ 2^64-1) := by
      rw [isFinished,decide_eq_decide,curRound]
      unfold uint64
      omega
    simp [hfinished,dead,Misread,isArmed,idle]

/-- `started` tells of the ids in the map whether a start of their timer has succeeded. -/
structure System (α : Type*) where
  manager : TimerManager α
  started : ℤ → Bool

inductive Step (α : Type*)
  | getTimer
  | killTimer (tid : ℤ)
  | call (tid : ℤ) (c : Call α)
  | expire (tid : ℤ)
  | audit
  deriving DecidableEq, Repr

def create : System α := ⟨.create,fun _ => false⟩

def step (s : System α) : Step α → System α
  | .getTimer =>
    { manager := s.manager.getTimer.2
      started := if s.manager.uniqueID ∈ s.manager.t_map.entries.map Prod.fst then s.started
        else Function.update s.started s.manager.uniqueID false }
  | .killTimer tid => { s with manager := (s.manager.killTimer tid).2 }
  | .call tid c =>
    { manager := s.manager.atTimer tid fun t => (call c t).2
      started := fun id => s.started id || decide (id = tid) &&
        s.manager.t_map.entries.any fun i =>
          decide (i.1 = tid) && decide ((call c i.2).1 = some true) }
  | .expire tid => { s with manager := s.manager.atTimer tid expired }
  | .audit => { s with manager := s.manager.auditTimer.2 }

/-- Round counts are those of a `uint64_t`. -/
def Fits (_ : System α) : Step α → Prop
  | .call _ c => CallFits c
  | _ => True

/-- The invariant: the fields of every timer in the map are those its history leaves. -/
def Kept (s : System α) : Prop := ∀ i ∈ s.manager.t_map.entries, Tracked (s.started i.1) i.2

theorem getTimer_kept {s : System α} (h : Kept s) : Kept (step s .getTimer) := by
  intro i hi
  rcases KeyTable.mem_emplace.mp hi with hold | ⟨hnew,rfl⟩
  · have hstarted : (step s .getTimer).started i.1 = s.started i.1 := by
      simp only [step]
      split_ifs with htaken
      · rfl
      · have hne : i.1 ≠ s.manager.uniqueID := by
          intro he
          exact htaken (he ▸ List.mem_map_of_mem hold)
        rw [Function.update_of_ne hne]
    rw [hstarted]
    exact h i hold
  · have hstarted : (step s .getTimer).started s.manager.uniqueID = false := by
      have hfree : s.manager.uniqueID ∉ s.manager.t_map.entries.map Prod.fst :=
        KeyTable.find_eq_none.mp hnew
      simp only [step]
      rw [if_neg hfree,Function.update_self]
    change Tracked ((step s .getTimer).started s.manager.uniqueID) Timer.create
    rw [hstarted]
    exact .fresh rfl rfl rfl

theorem call_kept {s : System α} (h : Kept s) (tid : ℤ) {c : Call α} (hc : CallFits c) :
    Kept (step s (.call tid c)) := by
  intro i hi
  rcases KeyTable.mem_modify.mp hi with ⟨hold,hne⟩ | ⟨t,ht,rfl⟩
  · have hstarted : (step s (.call tid c)).started i.1 = s.started i.1 := by simp [step,hne]
    rw [hstarted]
    exact h i hold
  · have hany : (s.manager.t_map.entries.any fun i =>
        decide (i.1 = tid) && decide ((call c i.2).1 = some true)) =
        decide ((call c t).1 = some true) := by
      rw [Bool.eq_iff_iff]
      simp only [List.any_eq_true,Bool.and_eq_true,decide_eq_true_eq]
      constructor
      · rintro ⟨⟨id,t'⟩,ht',rfl,hyes⟩
        have hsame := KeyTable.eq_of_mem ht ht' rfl
        cases hsame
        exact hyes
      · intro hyes
        exact ⟨(tid,t),ht,rfl,hyes⟩
    have hstarted : (step s (.call tid c)).started tid =
        (s.started tid || decide ((call c t).1 = some true)) := by
      simp only [step,hany,decide_true,Bool.true_and]
    rw [hstarted]
    exact call_tracked (h (tid,t) ht) hc

theorem step_kept {s : System α} {l : Step α} (h : Kept s) (hl : Fits s l) : Kept (step s l) := by
  cases l with
  | getTimer => exact getTimer_kept h
  | killTimer tid => exact fun i hi => h i (KeyTable.mem_eraseUnless.mp hi).1
  | call tid c => exact call_kept h tid hl
  | expire tid =>
    intro i hi
    rcases KeyTable.mem_modify.mp hi with ⟨hold,_⟩ | ⟨t,ht,rfl⟩
    · exact h i hold
    · exact expired_tracked (h (tid,t) ht)
  | audit =>
    intro i hi
    rw [step,TimerManager.auditTimer_t_map] at hi
    exact h i (KeyTable.mem_eraseUnless.mp hi).1

/-- An audit removes the dead timers, and leaves every other entry as it is. -/
def CollectsDead (s : System α) : Step α → Prop
  | .audit => (step s .audit).manager.t_map.entries =
      s.manager.t_map.entries.filter fun i => !dead (s.started i.1) i.2
  | _ => True

/-- At an audit no timer in the map is armed with no round to count to, or dead with a round
count of `2^64-1`. -/
def ReadsRight (s : System α) : Step α → Prop
  | .audit => ∀ i ∈ s.manager.t_map.entries, ¬ Misread (s.started i.1) i.2
  | _ => True

theorem filter_eq_filter_iff {β : Type*} {p q : β → Bool} {l : List β} :
    l.filter p = l.filter q ↔ ∀ i ∈ l, p i = q i := by
  refine ⟨fun h i hi => ?_,fun h => List.filter_congr h⟩
  rw [Bool.eq_iff_iff]
  constructor
  · intro hp
    exact List.of_mem_filter (h ▸ List.mem_filter_of_mem hi hp)
  · intro hq
    exact List.of_mem_filter (h.symm ▸ List.mem_filter_of_mem hi hq)

theorem collectsDead_iff {s : System α} (l : Step α) (h : Kept s) :
    CollectsDead s l ↔ ReadsRight s l := by
  cases l with
  | audit =>
    have haudit : (step s .audit).manager.t_map.entries =
        s.manager.t_map.entries.filter fun i => !i.2.isFinished :=
      TimerManager.auditLoop_eq s.manager.t_map.entries
    rw [CollectsDead,ReadsRight,haudit,filter_eq_filter_iff]
    refine forall₂_congr fun i hi => ?_
    rw [← isFinished_iff (h i hi)]
    exact Bool.not_inj_iff
  | getTimer => exact Iff.rfl
  | killTimer tid => exact Iff.rfl
  | call tid c => exact Iff.rfl
  | expire tid => exact Iff.rfl

/-- In every run, all audits remove exactly the dead timers if and only if none of them
comes upon a timer whose counter it misreads. -/
theorem audits_iff {run : List (Step α)} (h : Along step Fits create run) :
    Along step CollectsDead create run ↔ Along step ReadsRight create run := by
  have hcreate : Kept (create : System α) := fun i hi => absurd hi List.not_mem_nil
  exact along_congr (P := CollectsDead) (Q := ReadsRight) (fun _ _ => step_kept)
    (fun _ l hs _ => collectsDead_iff l hs) hcreate h

/-- A timer that is armed at one audit, and has fired before the next. -/
theorem audits_once :
    Along step CollectsDead (create : System Unit)
      [.getTimer,.call 0 (.startOnce 10 (.user ())),.audit,.expire 0,.audit] := by
  have hfits : Along step Fits (create : System Unit)
      [.getTimer,.call 0 (.startOnce 10 (.user ())),.audit,.expire 0,.audit] :=
    ⟨trivial,trivial,trivial,trivial,trivial,trivial⟩
  refine (audits_iff hfits).mpr ⟨trivial,trivial,?_,trivial,?_,trivial⟩
  all_goals
    unfold ReadsRight
    decide

/-- A timer armed with round count 0 is removed, and one stopped with round count `2^64-1`
stays. -/
theorem audits_misread :
    (¬ ∀ run : List (Step Unit), Along step Fits create run → Along step CollectsDead create run) ∧
    (exec step (create : System Unit) [.getTimer,.call 0 (.startRounds 10 0 (.user ())),
      .audit]).manager.t_map.entries = [] ∧
    ∃ t, (exec step (create : System Unit) [.getTimer,.call 0 (.startRounds 10 (2^64-1) (.user ())),
      .call 0 .stop,.audit]).manager.t_map.entries = [(0,t)] ∧ t.event = none := by
  refine ⟨fun h => ?_,rfl,_,rfl,rfl⟩
  have hcollects := h [.getTimer,.call 0 (.startRounds 10 0 (.user ())),.audit]
    ⟨trivial,⟨by decide,trivial⟩,trivial,trivial⟩
  have haudit := hcollects.2.2.1
  unfold CollectsDead at haudit
  exact absurd haudit (by decide)

end TimerAudit
end Translib
