import Translib.Timer

/-! Starts that return false, and what they change for the user of the timer. -/

namespace Translib
namespace FailedStarts

open Timer CallbackMachine ObservedTimer

variable {α : Type*}

/-- The closure of `startCB` is not passed in by anybody. -/
def Given : Libevent × Call α → Prop
  | (_,.startRounds _ _ handler) => handler ≠ .callCB
  | (_,.startOnce _ handler) => handler ≠ .callCB
  | (_,.startForever _ handler) => handler ≠ .callCB
  | (_,.startAfter _ _ _ handler) => handler ≠ .callCB
  | _ => True

/-- The timer `t'` behaves as `t` does: its getters return the same, and every run of calls,
expirations and what handlers do shows the same, with the callbacks and their arguments. -/
def Unaffected (t t' : Timer α) : Prop :=
  getters t = getters t' ∧
    ∀ es : List (Event (Libevent × Call α)), (∀ e ∈ es, e.All Given) → (run t es).2 = (run t' es).2

/-- A start that fails: if its event cannot be added, the counter is past the last round
already; if it is a `startCB` and the timer is armed by another, that one was given the same. -/
def Harmless (lib : Libevent) (c : Call α) (t : Timer α) : Prop :=
  (t.event = none → lib = ⟨true,false⟩ → t.curRound = uint64 (t.round+1)) ∧
    ∀ interval handler userData tid, c = .startCB interval handler userData tid → t.event.isSome →
      t.handler = .callCB → t.cbHandler = some handler ∧ t.userData = userData ∧ t.tid = tid

def withCB (t : Timer α) (handler : Option α) (userData : ℕ) (tid : ℤ) : Timer α :=
  { t with cbHandler := handler, userData, tid }

section Unread
variable (t : Timer α) (cbHandler : Option α) (userData : ℕ) (tid : ℤ)

theorem startRounds_withCB (lib : Libevent) (interval round : ℕ) (handler : Handler α) :
    startRounds lib interval round handler (withCB t cbHandler userData tid) =
      (startRounds lib interval round handler t).map id fun t => withCB t cbHandler userData tid := by
  obtain ⟨eventNew,eventAdd⟩ := lib
  cases he : t.event <;> cases eventNew <;> cases eventAdd <;>
    simp [startRounds,withCB,he,reset]

theorem stop_withCB :
    stop (withCB t cbHandler userData tid) = withCB (stop t) cbHandler userData tid := by
  cases he : t.event <;> simp [stop,reset,withCB,he]

theorem expire_withCB : (withCB t cbHandler userData tid).expire =
    t.expire.map fun r => r.map id fun t => withCB t cbHandler userData tid := by
  cases he : t.event with
  | none => simp [expire,withCB,he]
  | some event =>
    simp only [expire,withCB,he,eventHandler,reset]
    split_ifs <;> rfl

end Unread

/-- Timers that differ in what is stored for a callback that is not going to be called. -/
def Alike (t t' : Timer α) : Prop :=
  ∃ cbHandler userData tid, t' = withCB t cbHandler userData tid ∧
    (t.event.isSome → t.handler = .callCB → t' = t)

theorem alike_refl (t : Timer α) : Alike t t := ⟨_,_,_,rfl,fun _ _ => rfl⟩

theorem alike_idle {t : Timer α} (h : t.event = none) (cbHandler : Option α) (userData : ℕ)
    (tid : ℤ) : Alike t (withCB t cbHandler userData tid) :=
  ⟨_,_,_,rfl,fun hsome => by simp [h] at hsome⟩

theorem stored_idle {t : Timer α} (h : t.event = none) (c : Call α) : Alike t (stored t c) := by
  cases c with
  | startCB interval handler userData tid => exact alike_idle h _ _ _
  | _ => exact alike_refl t

theorem stored_cases {lib : Libevent} {c : Call α} (hc : Given (lib,c)) :
    (∀ t handler userData tid, stored (withCB t handler userData tid) c = stored t c) ∨
      (∀ t, stored t c = t) ∧ ∀ p, request c = some p → p.2.2 ≠ .callCB := by
  cases c with
  | startCB interval handler userData tid => exact .inl fun _ _ _ _ => rfl
  | stop => exact .inr ⟨fun _ => rfl,by simp [request]⟩
  | startAfter after interval round handler => exact .inr ⟨fun _ => rfl,by simp [request]⟩
  | startRounds interval round handler => exact .inr ⟨fun _ => rfl,by simpa [request,Given] using hc⟩
  | startOnce interval handler => exact .inr ⟨fun _ => rfl,by simpa [request,Given] using hc⟩
  | startForever interval handler => exact .inr ⟨fun _ => rfl,by simpa [request,Given] using hc⟩

theorem startRounds_alike {t t' : Timer α} (h : Alike t t') (lib : Libevent) (interval round : ℕ)
    {handler : Handler α} (hhandler : handler ≠ .callCB) :
    (startRounds lib interval round handler t).1 = (startRounds lib interval round handler t').1 ∧
      Alike (startRounds lib interval round handler t).2
        (startRounds lib interval round handler t').2 := by
  obtain ⟨cbHandler,userData,tid,rfl,hsame⟩ := h
  rw [startRounds_withCB]
  refine ⟨rfl,cbHandler,userData,tid,rfl,fun hsome hcall => ?_⟩
  have hstart := startRounds_start lib interval round handler t
  generalize startRounds lib interval round handler t = r at hstart hsome hcall
  cases hstart with
  | armed armed => exact hsame armed hcall
  | notMade idle => simp [idle] at hsome
  | notAdded => cases hsome
  | started => exact absurd hcall hhandler

theorem call_alike {t t' : Timer α} (h : Alike t t') {c : Libevent × Call α} (hc : Given c) :
    (observed.call c t).1 = (observed.call c t').1 ∧
      Alike (observed.call c t).2 (observed.call c t').2 := by
  obtain ⟨lib,c⟩ := c
  simp only [observed]
  cases hrequest : request c with
  | none =>
    rw [callIn_stop hrequest,callIn_stop hrequest]
    obtain ⟨cbHandler,userData,tid,rfl,hsame⟩ := h
    rw [stop_withCB]
    exact ⟨rfl,alike_idle (reset_event t) _ _ _⟩
  | some p =>
    obtain ⟨interval,round,handler⟩ := p
    rw [callIn_start hrequest,callIn_start hrequest]
    rcases stored_cases hc with hlast | ⟨hstored,hhandler⟩
    · obtain ⟨cbHandler,userData,tid,rfl,-⟩ := h
      rw [hlast]
      exact ⟨rfl,alike_refl _⟩
    · rw [hstored,hstored]
      obtain ⟨hanswer,hafter⟩ := startRounds_alike h lib interval round (hhandler _ hrequest)
      exact ⟨congrArg some hanswer,hafter⟩

theorem invoke_alike {t t' : Timer α} (h : Alike t t') :
    (observed.invoke t = none ∧ observed.invoke t' = none) ∨
      ∃ i u u', observed.invoke t = some (i,u) ∧ observed.invoke t' = some (i,u') ∧ Alike u u' := by
  obtain ⟨cbHandler,userData,tid,rfl,hsame⟩ := h
  simp only [observed]
  rw [expire_withCB]
  have hexpiration := expire_expiration t
  generalize t.expire = r at hexpiration
  have hcallback {event : TimerEvent} (he : t.event = some event) :
      invocation (withCB t cbHandler userData tid) t.handler = invocation t t.handler := by
    cases hcall : t.handler with
    | callCB => rw [hsame (by rw [he]; rfl) hcall]
    | _ => rfl
  cases hexpiration with
  | unarmed => exact .inl ⟨rfl,rfl⟩
  | counts event armed =>
    refine .inr ⟨_,_,_,rfl,congrArg some (congrArg (Prod.mk · _) (hcallback armed)),
      cbHandler,userData,tid,rfl,fun _ hcall => ?_⟩
    have ht := hsame (by rw [armed]; rfl) hcall
    rw [← ht]
    rfl
  | last event armed =>
    exact .inr ⟨_,_,_,rfl,congrArg some (congrArg (Prod.mk · _) (hcallback armed)),
      alike_idle rfl _ _ _⟩

theorem alike_simulation :
    Simulation (observed : Machine (Timer α) _ _ _ _) observed (fun _ => none) Given Alike where
  call := fun _ _ _ hc h => call_alike h hc
  invoke := by
    intro t t' h
    rcases invoke_alike h with hnone | ⟨i,u,u',hu,hu',halike⟩
    · exact .inl hnone
    · exact .inr ⟨i,u,u',hu,hu',halike,fun _ hcs => by cases hcs⟩
  report := by
    rintro t t' ⟨cbHandler,userData,tid,rfl,-⟩
    exact getters_congr rfl rfl rfl rfl

theorem Alike.unaffected {t t' : Timer α} (h : Alike t t') : Unaffected t t' :=
  ⟨alike_simulation.report _ _ h,fun es hes => (alike_simulation.trace h es hes).1⟩

/-- The event of a timer is pending; and one that fires once is of the last round. -/
def Live (t : Timer α) : Prop :=
  ∀ event, t.event = some event → event.pending = true ∧ event.persist = decide (1 < t.round) ∧
    (t.round ≤ 1 → t.curRound = 0)

theorem live_idle {t : Timer α} (h : t.event = none) : Live t := by
  intro event he
  cases h.symm.trans he

theorem stored_live {t : Timer α} (h : Live t) (c : Call α) : Live (stored t c) := by
  cases c <;> exact h

theorem call_live (c : Libevent × Call α) {t : Timer α} (h : Live t) :
    Live (observed.call c t).2 := by
  obtain ⟨lib,c⟩ := c
  have heffect := callIn_effect lib c t
  simp only [observed]
  generalize callIn lib c t = r at heffect ⊢
  cases heffect with
  | stopped => exact live_idle (reset_event t)
  | armed => exact stored_live h c
  | notMade => exact stored_live h c
  | notAdded => exact live_idle rfl
  | started =>
    rintro event he
    cases he
    exact ⟨rfl,rfl,fun _ => rfl⟩

theorem invoke_live {t t' : Timer α} {i : Invocation α} (h : Live t)
    (hinvoke : observed.invoke t = some (i,t')) : Live t' := by
  simp only [observed] at hinvoke
  have hexpiration := expire_expiration t
  generalize t.expire = r at hexpiration hinvoke
  cases hexpiration with
  | unarmed => cases hinvoke
  | last event =>
    cases hinvoke
    exact live_idle rfl
  | counts event armed pending more =>
    cases hinvoke
    obtain ⟨-,hpersist,hzero⟩ := h event armed
    have hmany : 1 < t.round := by
      by_contra hone
      rw [hzero (not_lt.mp hone)] at more
      exact hone (lt_of_le_of_lt (by decide) more)
    rintro _ ⟨⟩
    exact ⟨hpersist.trans (decide_eq_true hmany),hpersist,fun hone => absurd hmany (not_lt.mpr hone)⟩

theorem run_live {es : List (Event (Libevent × Call α))} (hes : ∀ e ∈ es, e.All Given) :
    Live (run (create : Timer α) es).1 :=
  trace_keep (fun c _ _ h => call_live c h) (fun _ _ _ h => invoke_live h) (live_idle rfl) hes

theorem Unaffected.invocation_eq {t t' : Timer α} (h : Unaffected t t') {event : TimerEvent}
    (he : t.event = some event) (he' : t'.event = some event) (hpending : event.pending = true) :
    invocation t t.handler = invocation t' t'.handler := by
  have hentered {t : Timer α} (he : t.event = some event) :
      entered (run t [.invoke []]).2 = [invocation t t.handler] := by
    have hexpiration := expire_expiration t
    have harmed : t.isArmed = true := by simp [isArmed,he,hpending]
    have hinvoke : observed.invoke t = t.expire.map fun r => (invocation r.2 r.1,r.2) := rfl
    generalize t.expire = r at hexpiration hinvoke
    cases hexpiration with
    | unarmed unarmed => cases harmed.symm.trans unarmed
    | counts =>
      rw [run,trace,step_invoke hinvoke]
      rfl
    | last =>
      rw [run,trace,step_invoke hinvoke]
      rfl
  have hsame := congrArg entered (h.2 [.invoke []] (by simp [Event.All]))
  rw [hentered he,hentered he'] at hsame
  exact List.singleton_injective hsame

theorem unaffected_armed_iff {t : Timer α} (h : Live t) (harmed : t.event.isSome)
    (handler : Option α) (userData : ℕ) (tid : ℤ) :
    Unaffected t (withCB t handler userData tid) ↔
      (t.handler = .callCB → t.cbHandler = handler ∧ t.userData = userData ∧ t.tid = tid) := by
  constructor
  · intro hsame hcall
    obtain ⟨event,he⟩ := Option.isSome_iff_exists.mp harmed
    have hnext := hsame.invocation_eq he he (h event he).1
    have hcall' : (withCB t handler userData tid).handler = .callCB := hcall
    rw [hcall,hcall'] at hnext
    cases hnext
    exact ⟨rfl,rfl,rfl⟩
  · intro hsame
    refine Alike.unaffected ⟨handler,userData,tid,rfl,fun _ hcall => ?_⟩
    obtain ⟨rfl,rfl,rfl⟩ := hsame hcall
    rfl

theorem unaffected_reset_iff {t : Timer α} (hidle : t.event = none) (c : Call α) :
    Unaffected t { stored t c with event := none, curRound := uint64 (t.round+1) } ↔
      t.curRound = uint64 (t.round+1) := by
  constructor
  · intro hsame
    exact congrArg Getters.curRound hsame.1
  · intro hpast
    obtain ⟨handler,userData,tid,hstored,-⟩ := stored_idle hidle c
    refine Alike.unaffected ⟨handler,userData,tid,?_,fun hsome => by simp [hidle] at hsome⟩
    rw [hstored]
    simp only [withCB,← hpast,← hidle]

theorem armed_iff {t : Timer α} (h : Live t) (harmed : t.event.isSome) (lib : Libevent)
    (c : Call α) : Unaffected t (stored t c) ↔ Harmless lib c t := by
  have hadd : t.event = none → lib = ⟨true,false⟩ → t.curRound = uint64 (t.round+1) :=
    fun hidle => by simp [hidle] at harmed
  rw [Harmless,and_iff_right hadd]
  cases c with
  | startCB interval handler userData tid =>
    refine (unaffected_armed_iff h harmed (some handler) userData tid).trans ?_
    constructor
    · rintro hsame _ _ _ _ ⟨⟩ _
      exact hsame
    · intro hsame
      exact hsame interval handler userData tid rfl harmed
  | _ => exact iff_of_true (alike_refl t).unaffected fun _ _ _ _ hc => by cases hc

theorem idle_harmless_iff {t : Timer α} (hidle : t.event = none) (lib : Libevent) (c : Call α) :
    Harmless lib c t ↔ (lib = ⟨true,false⟩ → t.curRound = uint64 (t.round+1)) := by
  simp [Harmless,hidle]

theorem failed_iff {t : Timer α} (h : Live t) {lib : Libevent} {c : Call α}
    (hfalse : (callIn lib c t).1 = some false) :
    Unaffected t (callIn lib c t).2 ↔ Harmless lib c t := by
  have heffect := callIn_effect lib c t
  generalize callIn lib c t = r at heffect hfalse ⊢
  cases heffect with
  | stopped => cases hfalse
  | armed armed => exact armed_iff h armed lib c
  | notMade idle new =>
    rw [idle_harmless_iff idle]
    refine iff_of_true (stored_idle idle c).unaffected fun hlib => ?_
    rw [hlib] at new
    cases new
  | notAdded idle new add =>
    have hlib : lib = ⟨true,false⟩ := by
      cases lib
      cases new
      cases add
      rfl
    rw [idle_harmless_iff idle,imp_iff_right hlib]
    exact unaffected_reset_iff idle c
  | started => cases hfalse

/-- In every state a timer reaches, within its handlers too: a start that returns false changes
nothing for the user of the timer if and only if it is one of the harmless ones. -/
theorem failed_start_iff (es : List (Event (Libevent × Call α))) (hes : ∀ e ∈ es, e.All Given)
    (lib : Libevent) (c : Call α)
    (hfalse : (callIn lib c (run (create : Timer α) es).1).1 = some false) :
    Unaffected (run create es).1 (callIn lib c (run create es).1).2 ↔
      Harmless lib c (run (create : Timer α) es).1 :=
  failed_iff (run_live hes) hfalse

theorem failed_start_armed :
    Unaffected (run create [.call (⟨true,true⟩,.startCB 10 () 7 1)]).1
      (callIn ⟨true,true⟩ (.startOnce 5 (.user ()))
        (run create [.call (⟨true,true⟩,.startCB 10 () 7 1)]).1).2 := by
  refine (failed_start_iff [.call (⟨true,true⟩,.startCB 10 () 7 1)] (by simp [Event.All,Given])
    ⟨true,true⟩ (.startOnce 5 (.user ())) rfl).mpr ?_
  exact ⟨(fun hidle => by cases hidle),fun _ _ _ _ hc => by cases hc⟩

/-- A timer that was never started is finished once `event_add` has failed; and `startCB` on a
timer that runs a callback changes the user data and the id it is called with. -/
theorem failed_start_seen :
    let added := callIn ⟨true,false⟩ (.startOnce 10 (.user ())) (create : Timer Unit)
    let t := (callIn ⟨true,true⟩ (.startCB 10 () 7 1) (create : Timer Unit)).2
    let refused := callIn ⟨true,true⟩ (.startCB 10 () 8 2) t
    (¬ ∀ (es : List (Event (Libevent × Call Unit))) (lib : Libevent) (c : Call Unit),
      (∀ e ∈ es, e.All Given) → (callIn lib c (run create es).1).1 = some false →
        Unaffected (run create es).1 (callIn lib c (run create es).1).2) ∧
    (added.1 = some false ∧ (create : Timer Unit).isFinished = false ∧
      added.2.isFinished = true) ∧
    refused.1 = some false ∧ entered (run t [.invoke []]).2 = [.callback (some ()) 7 1] ∧
      entered (run refused.2 [.invoke []]).2 = [.callback (some ()) 8 2] := by
  refine ⟨fun h => ?_,⟨rfl,rfl,rfl⟩,rfl,rfl,rfl⟩
  have hsame := (h [] ⟨true,false⟩ (.startOnce 10 (.user ())) (by simp) rfl).1
  cases congrArg Getters.finished hsame

end FailedStarts
end Translib
