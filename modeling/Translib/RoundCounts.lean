import Translib.Timer

/-! What `curRound` returns in a timer that counts its rounds, and after its last one. -/

namespace Translib
namespace RoundCounts

open Timer CallbackMachine ObservedTimer

variable {α : Type*}

def Unstopped (es : List (Event (Libevent × Call α))) : Prop := ∀ e ∈ es, e.All (·.2 ≠ .stop)

def StartsNothing (t : Timer α) (cs : List (Libevent × Call α)) : Prop :=
  .answer (some true) ∉ (calls observed t cs).2

/-- A timer in round `k` of `n`. -/
structure InRound (n k : ℕ) (f : α) (t : Timer α) : Prop where
  armed : ∃ event, t.event = some event ∧ event.pending = true ∧ event.persist = decide (1 < n)
  round : t.round = n
  curRound : t.curRound = k
  handler : t.handler = .user f
  left : k < n
  fits : n < 2^64

theorem startRounds_inRound {lib : Libevent} {interval n : ℕ} {f : α} {t t' : Timer α} (hn : 1 ≤ n)
    (hfits : n < 2^64) (h : startRounds lib interval n (.user f) t = (true,t')) :
    InRound n 0 f t' := by
  obtain ⟨hidle,rfl⟩ := startRounds_true (congrArg Prod.fst h)
  rw [startRounds_idle _ _ _ hidle] at h
  cases h
  exact ⟨⟨_,rfl,rfl,rfl⟩,rfl,rfl,rfl,hn,hfits⟩

theorem InRound.call {n k : ℕ} {f : α} {t : Timer α} (h : InRound n k f t)
    {c : Libevent × Call α} (hc : c.2 ≠ .stop) : InRound n k f (observed.call c t).2 := by
  obtain ⟨lib,c⟩ := c
  have hsome : t.event.isSome := by
    obtain ⟨event,he,_⟩ := h.armed
    simp [he]
  simp only [observed,callIn_armed hsome lib hc]
  cases c with
  | startCB interval handler userData tid =>
    exact ⟨h.armed,h.round,h.curRound,h.handler,h.left,h.fits⟩
  | _ => exact h

theorem InRound.calls {n k : ℕ} {f : α} {t : Timer α} (h : InRound n k f t)
    {cs : List (Libevent × Call α)} (hcs : ∀ c ∈ cs, c.2 ≠ .stop) :
    InRound n k f (CallbackMachine.calls observed t cs).1 :=
  calls_invariant (fun _ _ hc hs => hs.call hc) h hcs

theorem InRound.invoke {n k : ℕ} {f : α} {t : Timer α} (h : InRound n k f t) (hmore : k+1 < n) :
    ∃ t', observed.invoke t = some (.user f,t') ∧ InRound n (k+1) f t' := by
  obtain ⟨event,he,hpending,hpersist⟩ := h.armed
  have hfits := h.fits
  have hmany : event.persist = true := hpersist.trans (decide_eq_true (by omega))
  have hexpire := expire_counts he hpending hmany (by rw [h.curRound]; omega)
    (by rw [h.curRound,h.round]; exact hmore)
  have hinvoke : observed.invoke t = some (.user f,{ t with curRound := t.curRound+1 }) := by
    simp only [observed,hexpire,h.handler]
    rfl
  have hcurRound : t.curRound+1 = k+1 := by rw [h.curRound]
  exact ⟨_,hinvoke,⟨event,he,hpending,hpersist⟩,h.round,hcurRound,h.handler,hmore,hfits⟩

/-- After `j` expirations more the timer is `j` rounds further, and has called its handler
`j` times. -/
theorem InRound.run {n k : ℕ} {f : α} {t : Timer α} (h : InRound n k f t)
    {es : List (Event (Libevent × Call α))} (hes : Unstopped es) (hmore : k + invocations es < n) :
    InRound n (k + invocations es) f (ObservedTimer.run t es).1 ∧
      entered (ObservedTimer.run t es).2 = List.replicate (invocations es) (.user f) := by
  induction es generalizing k t with
  | nil => exact ⟨h,rfl⟩
  | cons e es ih =>
    have hrest : Unstopped es := fun e he => hes e (by simp [he])
    cases e with
    | call c =>
      rw [invocations_call] at hmore ⊢
      obtain ⟨hend,hentered⟩ := ih (h.call (c := c) (hes (.call c) (by simp))) hrest hmore
      exact ⟨hend,hentered⟩
    | invoke body =>
      rw [invocations_invoke] at hmore ⊢
      obtain ⟨t',hinvoke,hnext⟩ := h.invoke (by omega)
      have hbody := hnext.calls (hes (.invoke body) (by simp))
      obtain ⟨hend,hentered⟩ := ih hbody hrest (by omega)
      have hrun : ObservedTimer.run t (.invoke body :: es) =
          ((ObservedTimer.run (CallbackMachine.calls observed t' body).1 es).1,
            .entered (.user f) :: .report (getters t') ::
              ((CallbackMachine.calls observed t' body).2 ++
                (ObservedTimer.run (CallbackMachine.calls observed t' body).1 es).2)) := by
        rw [ObservedTimer.run,trace,step_invoke hinvoke]
        rfl
      have hcount : k + (invocations es + 1) = k + 1 + invocations es := by omega
      rw [hrun,hcount]
      exact ⟨hend,by simpa [List.replicate_succ] using hentered⟩

structure Past (n : ℕ) (t : Timer α) : Prop where
  idle : t.event = none
  round : t.round = n
  curRound : t.curRound = uint64 (n+1)

theorem past_reset (t : Timer α) :
    Past t.round { t with event := none, curRound := uint64 (t.round+1) } := ⟨rfl,rfl,rfl⟩

theorem past_call {n : ℕ} {t : Timer α} (h : Past n t) {c : Libevent × Call α}
    (hfalse : (observed.call c t).1 ≠ some true) : Past n (observed.call c t).2 := by
  obtain ⟨lib,c⟩ := c
  simp only [observed] at hfalse ⊢
  have hstored : Past n (stored t c) := by
    cases c with
    | startCB interval handler userData tid => exact ⟨h.idle,h.round,h.curRound⟩
    | _ => exact h
  have heffect := callIn_effect lib c t
  generalize callIn lib c t = r at heffect hfalse ⊢
  cases heffect with
  | stopped =>
    rw [stop,reset_idle h.idle]
    exact h
  | armed => exact hstored
  | notMade => exact hstored
  | notAdded => exact ⟨rfl,hstored.round,by rw [h.round]⟩
  | started => exact absurd rfl hfalse

theorem past_calls {n : ℕ} {t : Timer α} (h : Past n t) {cs : List (Libevent × Call α)}
    (hcs : StartsNothing t cs) : Past n (calls observed t cs).1 := by
  induction cs generalizing t with
  | nil => exact h
  | cons c cs ih =>
    simp only [StartsNothing,calls,List.mem_cons,not_or] at hcs
    exact ih (past_call h fun hstarted => hcs.1 (by rw [hstarted])) hcs.2.2

theorem InRound.invokeLast {n k : ℕ} {f : α} {t : Timer α} (h : InRound n k f t) (hlast : k+1 = n) :
    ∃ t', observed.invoke t = some (.user f,t') ∧ Past n t' := by
  obtain ⟨event,he,hpending,_⟩ := h.armed
  have hfits := h.fits
  have hexpire := expire_last he hpending (by rw [h.curRound]; omega)
    (by rw [h.curRound,h.round,hlast])
  have hinvoke : observed.invoke t =
      some (.user f,{ t with event := none, curRound := uint64 (t.round+1) }) := by
    simp only [observed,hexpire,h.handler]
    rfl
  have hpast := past_reset t
  rw [h.round] at hpast hinvoke
  exact ⟨_,hinvoke,hpast⟩

/-- The counter of an armed timer is at most its round count, that of any at most one more. -/
structure Bounded (t : Timer α) : Prop where
  any : t.curRound ≤ t.round+1
  armed : t.event.isSome → t.curRound ≤ t.round

theorem bounded_reset {t : Timer α} : Bounded { t with event := none, curRound := uint64 (t.round+1) } :=
  ⟨Nat.mod_le _ _,fun h => by cases h⟩

theorem call_bounded (c : Libevent × Call α) {t : Timer α} (h : Bounded t) :
    Bounded (observed.call c t).2 := by
  obtain ⟨lib,c⟩ := c
  simp only [observed]
  have hstored : Bounded (stored t c) := by
    cases c with
    | startCB interval handler userData tid => exact ⟨h.any,h.armed⟩
    | _ => exact h
  have heffect := callIn_effect lib c t
  generalize callIn lib c t = r at heffect ⊢
  cases heffect with
  | stopped =>
    rw [stop,reset]
    split
    · exact h
    · exact bounded_reset
  | armed => exact hstored
  | notMade => exact hstored
  | notAdded =>
    rw [← stored_round t c]
    exact bounded_reset
  | started => exact ⟨Nat.zero_le _,fun _ => Nat.zero_le _⟩

theorem invoke_bounded {t t' : Timer α} {i : Invocation α} (hinvoke : observed.invoke t = some (i,t')) :
    Bounded t' := by
  simp only [observed] at hinvoke
  have hexpiration := expire_expiration t
  generalize t.expire = r at hexpiration hinvoke
  cases hexpiration with
  | unarmed => cases hinvoke
  | counts event armed pending more =>
    cases hinvoke
    exact ⟨more.le.trans (Nat.le_succ _),fun _ => more.le⟩
  | last =>
    cases hinvoke
    exact bounded_reset

theorem run_bounded (es : List (Event (Libevent × Call α))) : Bounded (run (create : Timer α) es).1 := by
  refine trace_keep (P := fun _ => True) (fun c _ _ h => call_bounded c h)
    (fun _ _ _ _ => invoke_bounded) ⟨Nat.zero_le _,fun h => by cases h⟩ fun e _ => ?_
  cases e with
  | call c => trivial
  | invoke body => exact fun _ _ => trivial

/-- Every timer started for `n` rounds and not stopped: during the `k`-th call of its handler,
and until the next, `curRound` is `k` and the timer is not finished, for `k < n`. During the
last one `curRound` is `n+1` and the timer is finished, until it is started again. In every
state the counter is at most one past the round count, and not past it while the timer is
armed. -/
theorem rounds_counted {lib : Libevent} {interval n : ℕ} {f : α} {t t' : Timer α} (hn : 1 ≤ n)
    (hfits : n < 2^64) (h : startRounds lib interval n (.user f) t = (true,t')) :
    (∀ es, Unstopped es → invocations es < n →
      entered (run t' es).2 = List.replicate (invocations es) (.user f) ∧
      (run t' es).1.curRound = invocations es ∧ (run t' es).1.isFinished = false) ∧
    (∀ es, Unstopped es → invocations es + 1 = n → n ≠ 2^64-1 →
      ∃ u, observed.invoke (run t' es).1 = some (.user f,u) ∧
        ∀ cs, StartsNothing u cs →
          (calls observed u cs).1.curRound = n+1 ∧ (calls observed u cs).1.isFinished = true) ∧
    ∀ es, (run (create : Timer α) es).1.curRound ≤ (run (create : Timer α) es).1.round+1 ∧
      ((run (create : Timer α) es).1.event.isSome →
        (run (create : Timer α) es).1.curRound ≤ (run (create : Timer α) es).1.round) := by
  have hstarted := startRounds_inRound hn hfits h
  refine ⟨fun es hes hmore => ?_,fun es hes hlast h64 => ?_,fun es => ?_⟩
  · obtain ⟨hend,hentered⟩ := hstarted.run hes (by omega)
    rw [Nat.zero_add] at hend
    refine ⟨hentered,hend.curRound,?_⟩
    simp [isFinished,hend.curRound,hend.round,hmore]
  · obtain ⟨hend,-⟩ := hstarted.run hes (by omega)
    rw [Nat.zero_add] at hend
    obtain ⟨u,hinvoke,hlast⟩ := hend.invokeLast hlast
    refine ⟨u,hinvoke,fun cs hcs => ?_⟩
    have hpast := past_calls hlast hcs
    have hcount : uint64 (n+1) = n+1 := Nat.mod_eq_of_lt (by omega)
    have hcurRound := hpast.curRound.trans hcount
    refine ⟨hcurRound,?_⟩
    simp [isFinished,hcurRound,hpast.round]
  · exact ⟨(run_bounded es).any,(run_bounded es).armed⟩

theorem rounds_counted_two :
    let t' := (startRounds ⟨true,true⟩ 100 2 (.user ()) (create : Timer Unit)).2
    (run t' [.invoke [(⟨true,true⟩,.startOnce 5 (.user ()))]]).1.curRound = 1 ∧
    ∃ u, observed.invoke (run t' [.invoke []]).1 = some (.user (),u) ∧
      u.curRound = 3 ∧ u.isFinished = true := by
  intro t'
  have hstart : startRounds ⟨true,true⟩ 100 2 (.user ()) (create : Timer Unit) = (true,t') := rfl
  obtain ⟨hbefore,hlast,-⟩ := rounds_counted (by decide) (by decide) hstart
  have hfirst := hbefore [.invoke [(⟨true,true⟩,.startOnce 5 (.user ()))]]
    (by simp [Unstopped,Event.All]) (by decide)
  obtain ⟨u,hinvoke,hduring⟩ := hlast [.invoke []] (by simp [Unstopped,Event.All]) rfl (by decide)
  exact ⟨hfirst.2.1,u,hinvoke,hduring [] (by simp [StartsNothing,calls])⟩

/-- In the second of two rounds the counter is 3, and so it is after a stop. -/
theorem last_round_miscounted :
    let t' := (startRounds ⟨true,true⟩ 100 2 (.user ()) (create : Timer Unit)).2
    (¬ ∀ es, Unstopped es → 1 ≤ invocations es → invocations es ≤ 2 →
      (run t' es).1.curRound = invocations es) ∧
    (¬ ∀ es, (run t' es).1.curRound ≤ (run t' es).1.round) ∧
    (run t' [.invoke [],.invoke []]).1.curRound = 3 ∧
    (run t' [.call (⟨true,true⟩,.stop)]).1.curRound = 3 := by
  intro t'
  refine ⟨fun h => ?_,fun h => ?_,rfl,rfl⟩
  · have hsecond := h [.invoke [],.invoke []] (by simp [Unstopped,Event.All]) (by decide) (by decide)
    cases hsecond
  · exact absurd (h [.call (⟨true,true⟩,.stop)]) (by decide)

end RoundCounts
end Translib
