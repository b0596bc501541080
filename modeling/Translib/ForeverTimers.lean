import Translib.TimerManager

/-! The timers the library starts forever, and how long forever is. -/

namespace Translib

structure FrameLoop (α : Type*) where
  frameTimer : Timer α
  frameInterval : ℕ
  deriving DecidableEq, Repr

namespace FrameLoop

variable {α : Type*}

def create : FrameLoop α := ⟨.create,10⟩

def onBeforeLoop (lib : Libevent) (onFrame : α) (l : FrameLoop α) : FrameLoop α :=
  { l with frameTimer := (l.frameTimer.startForever lib l.frameInterval (.user onFrame)).2 }

end FrameLoop

namespace ForeverTimers

open Timer CallbackMachine

variable {α : Type*}

/-- The timer shows no end: every expiration of the run calls the handler, and every report,
inside handlers too, shows an armed timer that is not finished. -/
def Endless (f : α) (t : Timer α) (es : List (Event (Call α))) : Prop :=
  let os := (trace machine script t es).2
  entered os = List.replicate (invocations es) (.user f) ∧ ∀ v ∈ reports os, v = ⟨true,false⟩

/-- No call of the run, from outside or from a handler, is a stop. -/
def Unstopped (es : List (Event (Call α))) : Prop := ∀ e ∈ es, e.All (· ≠ .stop)

/-- A timer in round `k` of `n`. -/
structure Counting (n k : ℕ) (f : α) (t : Timer α) : Prop where
  armed : ∃ event, t.event = some event ∧ event.pending = true ∧ event.persist = true
  round : t.round = n
  curRound : t.curRound = k
  handler : t.handler = .user f
  left : k < n
  fits : n < 2^64

theorem Counting.report {n k : ℕ} {f : α} {t : Timer α} (h : Counting n k f t) :
    machine.report t = ⟨true,false⟩ := by
  obtain ⟨event,he,hpending,_⟩ := h.armed
  simp [machine,isArmed,isFinished,he,hpending,h.round,h.curRound,h.left]

theorem Counting.call {n k : ℕ} {f : α} {t : Timer α} (h : Counting n k f t) {c : Call α}
    (hc : c ≠ .stop) : Counting n k f (call c t).2 := by
  have hsome : t.event.isSome := by
    obtain ⟨event,he,_⟩ := h.armed
    simp [he]
  rw [← callIn_willing,callIn_armed hsome _ hc]
  cases c with
  | startCB interval handler userData tid =>
    exact ⟨h.armed,h.round,h.curRound,h.handler,h.left,h.fits⟩
  | _ => exact h

theorem Counting.expire {n k : ℕ} {f : α} {t : Timer α} (h : Counting n k f t) (hmore : k+1 < n) :
    ∃ t', machine.invoke t = some (.user f,t') ∧ Counting n (k+1) f t' := by
  obtain ⟨event,he,hpending,hpersist⟩ := h.armed
  have hfits := h.fits
  have hstep := expire_counts he hpending hpersist (by rw [h.curRound]; omega)
    (by rw [h.curRound,h.round]; exact hmore)
  rw [h.handler] at hstep
  exact ⟨_,hstep,⟨event,he,hpending,hpersist⟩,h.round,by simp [h.curRound],rfl,hmore,hfits⟩

theorem Counting.expireLast {n k : ℕ} {f : α} {t : Timer α} (h : Counting n k f t)
    (hlast : k+1 = n) :
    ∃ t', machine.invoke t = some (.user f,t') ∧ machine.report t' ≠ ⟨true,false⟩ := by
  obtain ⟨event,he,hpending,_⟩ := h.armed
  have hfits := h.fits
  have hstep := expire_last he hpending (by rw [h.curRound]; omega)
    (by rw [h.curRound,h.round,hlast])
  rw [h.handler] at hstep
  exact ⟨_,hstep,by simp [machine,isArmed]⟩

theorem Counting.expired {n k : ℕ} {f : α} {t t' : Timer α} {handler : Handler α}
    (h : Counting n k f t) (he : t.expire = some (handler,t')) :
    Counting n (k+1) f t' ∨ n ≤ k+1 ∧ t'.event = none := by
  by_cases hmore : k+1 < n
  · obtain ⟨next,hinvoke,hnext⟩ := h.expire hmore
    cases hinvoke.symm.trans he
    exact .inl hnext
  · obtain ⟨event,harmed,hpending,_⟩ := h.armed
    have hleft := h.left
    have hfits := h.fits
    have hlast := expire_last harmed hpending (by rw [h.curRound]; omega)
      (by rw [h.curRound,h.round]; omega)
    cases hlast.symm.trans he
    exact .inr ⟨not_lt.mp hmore,rfl⟩

theorem Counting.calls {n k : ℕ} {f : α} {t : Timer α} (h : Counting n k f t) (cs : List (Call α))
    (hcs : ∀ c ∈ cs, c ≠ .stop) : Counting n k f (CallbackMachine.calls machine t cs).1 ∧
      ∀ v ∈ reports (CallbackMachine.calls machine t cs).2, v = ⟨true,false⟩ :=
  calls_keep (fun _ _ hc hs => hs.call hc) (fun _ hs => hs.report) h hcs

theorem trace_call (t : Timer α) (c : Call α) (es : List (Event (Call α))) :
    trace machine script t (.call c :: es) =
      ((trace machine script (call c t).2 es).1,
        .answer (call c t).1 :: .report (machine.report (call c t).2) ::
          (trace machine script (call c t).2 es).2) := rfl

theorem trace_invoke {t t' : Timer α} {f : α} (h : machine.invoke t = some (.user f,t'))
    (body : List (Call α)) (es : List (Event (Call α))) :
    trace machine script t (.invoke body :: es) =
      ((trace machine script (CallbackMachine.calls machine t' body).1 es).1,
        .entered (.user f) :: .report (machine.report t') ::
          ((CallbackMachine.calls machine t' body).2 ++
            (trace machine script (CallbackMachine.calls machine t' body).1 es).2)) := by
  rw [trace,step_invoke h]
  rfl

/-- Before the last round the timer shows no end, whatever is called but a stop. -/
theorem Counting.endless {n k : ℕ} {f : α} {t : Timer α} (h : Counting n k f t)
    {es : List (Event (Call α))} (hes : Unstopped es) (hmore : k + invocations es < n) :
    Endless f t es := by
  induction es generalizing k t with
  | nil => exact ⟨rfl,by simp [trace]⟩
  | cons e es ih =>
    have hrest : Unstopped es := fun e he => hes e (by simp [he])
    cases e with
    | call c =>
      have hcall := h.call (show c ≠ .stop from hes (.call c) (by simp))
      obtain ⟨hentered,hreports⟩ := ih hcall hrest (by simpa using hmore)
      rw [Endless,trace_call]
      refine ⟨by simpa using hentered,?_⟩
      simpa [hcall.report] using hreports
    | invoke body =>
      rw [invocations_invoke] at hmore
      obtain ⟨t',hinvoke,hnext⟩ := h.expire (by omega)
      obtain ⟨hafter,hbody⟩ := hnext.calls body (hes (.invoke body) (by simp))
      obtain ⟨hentered,hreports⟩ := ih hafter hrest (by omega)
      rw [Endless,trace_invoke hinvoke]
      refine ⟨by simpa [List.replicate_succ] using hentered,fun v hv => ?_⟩
      simp only [reports_entered,reports_report,reports_append,List.mem_cons,List.mem_append,
        hnext.report] at hv
      rcases hv with hv | hv | hv
      · exact hv
      · exact hbody v hv
      · exact hreports v hv

theorem Counting.ends {n k : ℕ} {f : α} {t : Timer α} (h : Counting n k f t)
    {es : List (Event (Call α))} (hes : Unstopped es) (hend : n ≤ k + invocations es) :
    ∃ v ∈ reports (trace machine script t es).2, v ≠ ⟨true,false⟩ := by
  induction es generalizing k t with
  | nil => exact absurd h.left (by simpa using hend)
  | cons e es ih =>
    have hrest : Unstopped es := fun e he => hes e (by simp [he])
    cases e with
    | call c =>
      have hcall := h.call (show c ≠ .stop from hes (.call c) (by simp))
      obtain ⟨v,hv,hne⟩ := ih hcall hrest (by simpa using hend)
      rw [trace_call]
      exact ⟨v,by simp [hv],hne⟩
    | invoke body =>
      rw [invocations_invoke] at hend
      by_cases hlast : k+1 = n
      · obtain ⟨t',hinvoke,hne⟩ := h.expireLast hlast
        rw [trace_invoke hinvoke]
        exact ⟨_,by simp,hne⟩
      · have hleft := h.left
        obtain ⟨t',hinvoke,hnext⟩ := h.expire (by omega)
        obtain ⟨hafter,_⟩ := hnext.calls body (hes (.invoke body) (by simp))
        obtain ⟨v,hv,hne⟩ := ih hafter hrest (by omega)
        rw [trace_invoke hinvoke]
        exact ⟨v,by simp [hv],hne⟩

theorem startForever_counting {lib : Libevent} {interval : ℕ} {f : α} {t t' : Timer α}
    (h : startForever lib interval (.user f) t = (true,t')) : Counting foreverRounds 0 f t' := by
  obtain ⟨hidle,rfl⟩ := startRounds_true (congrArg Prod.fst h)
  rw [startForever,startRounds_idle _ _ _ hidle] at h
  cases h
  exact ⟨⟨_,rfl,rfl,rfl⟩,rfl,rfl,rfl,by decide,by decide⟩

theorem startForever_endless_iff {lib : Libevent} {interval : ℕ} {f : α} {t t' : Timer α}
    (h : startForever lib interval (.user f) t = (true,t')) {es : List (Event (Call α))}
    (hes : Unstopped es) : Endless f t' es ↔ invocations es < 2^32-1 := by
  have hcount := startForever_counting h
  constructor
  · intro hendless
    by_contra hend
    obtain ⟨v,hv,hne⟩ := hcount.ends hes (by simp only [foreverRounds]; omega)
    exact hne (hendless.2 v hv)
  · intro hmore
    exact hcount.endless hes (by simp only [foreverRounds]; omega)

/-- Forever is `2^32-1` expirations: a run without a stop shows no end exactly when it has
fewer. This is so of every timer started forever, the frame timer of a loop and the
audit timer among them. -/
theorem forever_iff (es : List (Event (Call α))) (hes : Unstopped es) :
    (∀ lib interval f (t t' : Timer α), startForever lib interval (.user f) t = (true,t') →
      (Endless f t' es ↔ invocations es < 2^32-1)) ∧
    (∀ (l : FrameLoop α) onFrame, l.frameTimer.event = none →
      (Endless onFrame (l.onBeforeLoop ⟨true,true⟩ onFrame).frameTimer es ↔
        invocations es < 2^32-1)) ∧
    ∀ auditTimer : α, Endless auditTimer (TimerManager.newAuditTimer ⟨true,true⟩ auditTimer) es ↔
      invocations es < 2^32-1 := by
  have hidle (interval : ℕ) (f : α) {t : Timer α} (h : t.event = none) :
      startForever ⟨true,true⟩ interval (.user f) t =
        (true,(startForever ⟨true,true⟩ interval (.user f) t).2) := by
    rw [startForever,startRounds_idle _ _ _ h]
  refine ⟨fun lib interval f t t' h => startForever_endless_iff h hes,fun l onFrame h => ?_,
    fun auditTimer => ?_⟩
  · exact startForever_endless_iff (hidle l.frameInterval onFrame h) hes
  · exact startForever_endless_iff (hidle TimerManager.auditInterval auditTimer rfl) hes

theorem forever_two_frames :
    Endless () (FrameLoop.create.onBeforeLoop ⟨true,true⟩ ()).frameTimer
      [.invoke [],.invoke [.startOnce 5 (.user ())]] :=
  ((forever_iff _ (by simp [Unstopped,Event.All])).2.1 .create () rfl).mpr (by decide)

theorem frames_end {N : ℕ} (hN : 2^32-1 ≤ N) :
    ¬ Endless () (FrameLoop.create.onBeforeLoop ⟨true,true⟩ ()).frameTimer
      (List.replicate N (.invoke [])) := by
  intro hendless
  have hrun : Unstopped (List.replicate N (Event.invoke ([] : List (Call Unit)))) := by
    intro e he
    rw [List.eq_of_mem_replicate he]
    simp [Event.All]
  have hstart : startForever ⟨true,true⟩ 10 (.user ())
      (FrameLoop.create : FrameLoop Unit).frameTimer =
      (true,(FrameLoop.create.onBeforeLoop ⟨true,true⟩ ()).frameTimer) := rfl
  have hfew := (startForever_endless_iff hstart hrun).mp hendless
  rw [invocations_replicate] at hfew
  omega

/-- The last of `2^32-1` frames frees the timer, so there is no further one. -/
theorem forever_ends :
    ¬ Endless () (FrameLoop.create.onBeforeLoop ⟨true,true⟩ ()).frameTimer
      (List.replicate (2^32-1) (.invoke [])) :=
  frames_end le_rfl

end ForeverTimers
end Translib
