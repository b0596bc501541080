import Translib.FifoQueue
import Translib.Timer

/-! The timers of `startCB`: what their callback is given, how often, and what ends them. -/

namespace Translib
namespace CallbackTimers

open TransitionMachine FifoQueue Timer ObservedTimer

variable {α : Type*}

abbrev Made (α : Type*) := Libevent × Call α

/-- An expiration comes with what its handler does: the calls a function of the user makes,
what the callback of `startCB` returns, and what libevent does for the closure of
`startAfter`. -/
inductive Step (α : Type*)
  | call (c : Made α)
  | expire (lib : Libevent) (body : List (Made α)) (ret : ℤ)
  deriving DecidableEq, Repr

def made (t : Timer α) (c : Made α) : Timer α := (callIn c.1 c.2 t).2

/-- The body of a handler. The closure of `startCB` stops the timer on -1. -/
def handle (lib : Libevent) (body : List (Made α)) (ret : ℤ) : Handler α → Timer α → Timer α
  | .startRounds interval n handler, t => (startRounds lib interval n handler t).2
  | .callCB, t => if ret = -1 then stop (exec made t body) else exec made t body
  | _, t => exec made t body

def step (t : Timer α) : Step α → Timer α
  | .call c => made t c
  | .expire lib body ret =>
    match t.expire with
    | none => t
    | some (handler,t') => handle lib body ret handler t'

def invoked (t : Timer α) : Step α → List (Invocation α)
  | .call _ => []
  | .expire _ _ _ => (t.expire.map fun r => invocation r.2 r.1).toList

/-- The callback, the user data and the timer id given to a `startCB`. -/
structure Given (α : Type*) where
  handler : α
  userData : ℕ
  tid : ℤ
  deriving DecidableEq, Repr

def Given.after (g : Given α) : Call α → Given α
  | .startCB _ handler userData tid => ⟨handler,userData,tid⟩
  | _ => g

/-- Every expiration invokes what the last `startCB` was given, refused or not. -/
def callbacks : Given α → List (Step α) → List (Invocation α)
  | _, [] => []
  | g, .call c :: run => callbacks (g.after c.2) run
  | g, .expire _ _ _ :: run => .callback (some g.handler) g.userData g.tid :: callbacks g run

def rounds (run : List (Step α)) : ℕ :=
  run.countP fun | .expire _ _ _ => true | .call _ => false

/-- A callback may try to start the timer. It does not stop it, and does not replace itself
while it runs. -/
def Quiet (body : List (Made α)) : Prop :=
  ∀ c ∈ body, c.2 ≠ .stop ∧
    ∀ interval handler userData tid, c.2 ≠ .startCB interval handler userData tid

def GoesOn : Step α → Prop
  | .call c => c.2 ≠ .stop
  | .expire _ body ret => Quiet body ∧ ret ≠ -1

/-- A step after `k` rounds that ends the timer: a stop, a callback that returns -1, or the
last round, in which the timer could be started again. -/
def Ends (k : ℕ) : Step α → Prop
  | .call c => c.2 = .stop
  | .expire _ body ret =>
    Quiet body ∧ k+1 < foreverRounds ∧ ret = -1 ∨ body = [] ∧ k+1 = foreverRounds

/-- A timer in the round `k` of a `startCB`. -/
structure Running (interval k : ℕ) (g : Given α) (t : Timer α) : Prop where
  armed : ∃ event, t.event = some event ∧ event.pending = true ∧ event.persist = true
  interval : t.interval = interval
  round : t.round = foreverRounds
  curRound : t.curRound = k
  handler : t.handler = .callCB
  callback : invocation t .callCB = .callback (some g.handler) g.userData g.tid
  left : k < foreverRounds

theorem startCB_running {lib : Libevent} {interval : ℕ} {g : Given α} {t t' : Timer α}
    (h : startCB lib interval g.handler g.userData g.tid t = (true,t')) :
    Running interval 0 g t' := by
  obtain ⟨hidle,rfl⟩ := startRounds_true (congrArg Prod.fst h)
  rw [startCB,startForever,startRounds_idle _ _ _ hidle] at h
  cases h
  exact ⟨⟨_,rfl,by simp [newEvent],by simp [newEvent,foreverRounds]⟩,rfl,rfl,rfl,rfl,rfl,by decide⟩

namespace Running

variable {interval k : ℕ} {g : Given α} {t : Timer α}

theorem isSome (h : Running interval k g t) : t.event.isSome := by
  obtain ⟨event,he,_⟩ := h.armed
  rw [he]
  rfl

theorem getters (h : Running interval k g t) :
    ObservedTimer.getters t = ⟨true,interval,foreverRounds,k,false⟩ := by
  obtain ⟨event,he,hpending,_⟩ := h.armed
  simp [ObservedTimer.getters,isArmed,isFinished,he,hpending,h.interval,h.round,h.curRound,h.left]

theorem made (h : Running interval k g t) {c : Made α} (hc : c.2 ≠ .stop) :
    Running interval k (g.after c.2) (made t c) := by
  obtain ⟨lib,c⟩ := c
  rw [CallbackTimers.made,callIn_armed h.isSome lib hc]
  cases c with
  | startCB interval handler userData tid =>
    exact ⟨h.armed,h.interval,h.round,h.curRound,h.handler,rfl,h.left⟩
  | _ => exact h

theorem body (h : Running interval k g t) {body : List (Made α)} (hbody : Quiet body) :
    exec CallbackTimers.made t body = t := by
  induction body with
  | nil => rfl
  | cons c body ih =>
    obtain ⟨hstop,hreplace⟩ := hbody c (by simp)
    have hsame : CallbackTimers.made t c = t := by
      obtain ⟨lib,c⟩ := c
      rw [CallbackTimers.made,callIn_armed h.isSome lib hstop]
      cases c with
      | startCB interval handler userData tid => exact absurd rfl (hreplace _ _ _ _)
      | _ => rfl
    rw [exec,hsame]
    exact ih fun c hc => hbody c (by simp [hc])

theorem expire (h : Running interval k g t) (hmore : k+1 < foreverRounds) :
    ∃ t', t.expire = some (.callCB,t') ∧ Running interval (k+1) g t' := by
  obtain ⟨event,he,hpending,hpersist⟩ := h.armed
  have hfits : foreverRounds < 2^64 := by decide
  have hcount := expire_counts he hpending hpersist (by rw [h.curRound]; omega)
    (by rw [h.curRound,h.round]; exact hmore)
  rw [h.handler] at hcount
  refine ⟨_,hcount,⟨_,he,hpending,hpersist⟩,h.interval,h.round,?_,rfl,h.callback,hmore⟩
  rw [h.curRound]

end Running

structure Over (interval : ℕ) (t : Timer α) : Prop where
  idle : t.event = none
  getters : getters t = ⟨false,interval,foreverRounds,2^32,true⟩

theorem Running.over {interval k : ℕ} {g : Given α} {t : Timer α} (h : Running interval k g t) :
    Over interval (stop t) := by
  rw [stop,reset_armed h.isSome]
  refine ⟨rfl,?_⟩
  simp [ObservedTimer.getters,isArmed,isFinished,h.interval,h.round,foreverRounds,uint64]

theorem Running.expireLast {interval k : ℕ} {g : Given α} {t : Timer α} (h : Running interval k g t)
    (hlast : k+1 = foreverRounds) : ∃ t', t.expire = some (.callCB,t') ∧ Over interval t' ∧
      invocation t' .callCB = .callback (some g.handler) g.userData g.tid := by
  obtain ⟨event,he,hpending,_⟩ := h.armed
  have hfits : foreverRounds < 2^64 := by decide
  have hend := expire_last he hpending (by rw [h.curRound]; omega)
    (by rw [h.curRound,h.round,hlast])
  rw [h.handler] at hend
  refine ⟨_,hend,⟨rfl,?_⟩,h.callback⟩
  simp [ObservedTimer.getters,isArmed,isFinished,h.interval,h.round,foreverRounds,uint64]

theorem Running.step {interval k : ℕ} {g : Given α} {t : Timer α} (h : Running interval k g t)
    {e : Step α} (he : GoesOn e) (hmore : k + rounds [e] < foreverRounds) :
    invoked t e = callbacks g [e] ∧
      ∃ g', Running interval (k + rounds [e]) g' (step t e) ∧
        ∀ run, callbacks g (e::run) = callbacks g [e] ++ callbacks g' run := by
  cases e with
  | call c => exact ⟨rfl,g.after c.2,h.made he,fun run => rfl⟩
  | expire lib body ret =>
    obtain ⟨t',hexpire,hnext⟩ := h.expire hmore
    have hstep : CallbackTimers.step t (.expire lib body ret) = t' := by
      simp [CallbackTimers.step,hexpire,handle,he.2,hnext.body he.1]
    rw [hstep]
    exact ⟨by simp [invoked,hexpire,hnext.callback,callbacks],g,hnext,fun run => rfl⟩

theorem Running.run {interval k : ℕ} {g : Given α} {t : Timer α} (h : Running interval k g t)
    {run : List (Step α)} (hrun : ∀ e ∈ run, GoesOn e) (hmore : k + rounds run < foreverRounds) :
    shown CallbackTimers.step invoked t run = callbacks g run ∧
      ∃ g', Running interval (k + rounds run) g' (exec CallbackTimers.step t run) ∧
        ∀ rest, callbacks g (run ++ rest) = callbacks g run ++ callbacks g' rest := by
  induction run generalizing k g t with
  | nil => exact ⟨rfl,g,h,fun rest => rfl⟩
  | cons e run ih =>
    have hsplit : rounds (e::run) = rounds [e] + rounds run := by
      rw [← List.singleton_append,rounds,List.countP_append]
      rfl
    rw [hsplit] at hmore ⊢
    obtain ⟨hinvoked,g₁,hnext,hrest⟩ := h.step (hrun e (by simp)) (by omega)
    obtain ⟨hshown,g₂,hafter,hlater⟩ := ih hnext (fun e he => hrun e (by simp [he])) (by omega)
    rw [shown_cons,hinvoked,hshown]
    refine ⟨(hrest run).symm,g₂,(by rw [← Nat.add_assoc]; exact hafter),fun rest => ?_⟩
    rw [List.cons_append,hrest,hlater,← List.append_assoc,← hrest]

theorem Running.ends {interval k : ℕ} {g : Given α} {t : Timer α} (h : Running interval k g t)
    {e : Step α} (he : Ends k e) :
    invoked t e = callbacks g [e] ∧ Over interval (CallbackTimers.step t e) := by
  cases e with
  | call c =>
    obtain ⟨lib,c⟩ := c
    cases (he : c = .stop)
    exact ⟨rfl,h.over⟩
  | expire lib body ret =>
    rcases he with ⟨hquiet,hmore,rfl⟩ | ⟨rfl,hlast⟩
    · obtain ⟨t',hexpire,hnext⟩ := h.expire hmore
      have hstep : CallbackTimers.step t (.expire lib body (-1)) = stop t' := by
        simp [CallbackTimers.step,hexpire,handle,hnext.body hquiet]
      rw [hstep]
      exact ⟨by simp [invoked,hexpire,hnext.callback,callbacks],hnext.over⟩
    · obtain ⟨t',hexpire,hover,hcallback⟩ := h.expireLast hlast
      have hstep : CallbackTimers.step t (.expire lib [] ret) = t' := by
        simp [CallbackTimers.step,hexpire,handle,exec,stop,reset_idle hover.idle]
      rw [hstep]
      exact ⟨by simp [invoked,hexpire,hcallback,callbacks],hover⟩

theorem Over.expirations {interval : ℕ} {t : Timer α} (h : Over interval t) {run : List (Step α)}
    (hrun : rounds run = run.length) :
    shown step invoked t run = [] ∧ exec step t run = t := by
  induction run with
  | nil => exact ⟨rfl,rfl⟩
  | cons e run ih =>
    cases e with
    | call c =>
      have hle : rounds run ≤ run.length := List.countP_le_length
      have hcount : rounds (.call c :: run) = rounds run := by simp [rounds]
      rw [hcount,List.length_cons] at hrun
      omega
    | expire lib body ret =>
      have hcount : rounds (.expire lib body ret :: run) = rounds run + 1 := by simp [rounds]
      obtain ⟨hshown,hexec⟩ := ih (by rw [hcount,List.length_cons] at hrun; omega)
      have hstep : step t (.expire lib body ret) = t := by simp [step,expire_idle h.idle]
      rw [shown_cons,exec,hstep,hshown,hexec]
      exact ⟨by simp [invoked,expire_idle h.idle],rfl⟩

/-- After a `startCB` that returned true, whatever is called but a stop and whatever the
callbacks do but stop the timer or return -1: every expiration enters the callback of the last
`startCB`, for `2^32-2` rounds the timer is armed and counts them, and a stop, a -1 or the
round after these ends it for good, that expiration's callback being the last one entered. -/
theorem callback_rounds {lib : Libevent} {interval : ℕ} {g : Given α} {t t' : Timer α}
    (h : startCB lib interval g.handler g.userData g.tid t = (true,t')) (run : List (Step α))
    (hrun : ∀ e ∈ run, GoesOn e) (hmore : rounds run < 2^32-1) :
    shown step invoked t' run = callbacks g run ∧
    getters (exec step t' run) = ⟨true,interval,2^32-1,rounds run,false⟩ ∧
    ∀ last, Ends (rounds run) last → ∀ rest, rounds rest = rest.length →
      shown step invoked t' (run ++ last :: rest) = callbacks g (run ++ [last]) ∧
      getters (exec step t' (run ++ last :: rest)) = ⟨false,interval,2^32-1,2^32,true⟩ := by
  have hmore' : 0 + rounds run < foreverRounds := by rw [foreverRounds]; omega
  obtain ⟨hshown,g',hafter,hrest⟩ := (startCB_running h).run hrun hmore'
  rw [Nat.zero_add] at hafter
  refine ⟨hshown,hafter.getters,fun last hlast rest hexpire => ?_⟩
  obtain ⟨hinvoked,hover⟩ := hafter.ends hlast
  obtain ⟨hnothing,hsame⟩ := hover.expirations hexpire
  rw [shown_append,shown_cons,exec_append,exec,hshown,hinvoked,hnothing,hsame,hrest,List.append_nil]
  exact ⟨rfl,hover.getters⟩

theorem callback_rounds_three : shown step invoked
    (startCB ⟨true,true⟩ 100 'a' 7 1 Timer.create).2
    ([.expire ⟨true,true⟩ [(⟨true,true⟩,.startOnce 5 (.user 'c'))] 0,
      .call (⟨true,true⟩,.startCB 50 'b' 8 2),.expire ⟨true,true⟩ [] 0] ++
      .expire ⟨true,true⟩ [] (-1) :: [.expire ⟨true,true⟩ [] 0]) =
    [.callback (some 'a') 7 1,.callback (some 'b') 8 2,.callback (some 'b') 8 2] := by
  have hstart : startCB ⟨true,true⟩ 100 'a' 7 1 Timer.create =
    (true,(startCB ⟨true,true⟩ 100 'a' 7 1 Timer.create).2) := rfl
  exact ((callback_rounds (g := ⟨'a',7,1⟩) hstart
    [.expire ⟨true,true⟩ [(⟨true,true⟩,.startOnce 5 (.user 'c'))] 0,
      .call (⟨true,true⟩,.startCB 50 'b' 8 2),.expire ⟨true,true⟩ [] 0]
    (by simp [GoesOn,Quiet]) (by decide)).2.2 (.expire ⟨true,true⟩ [] (-1))
    (.inl ⟨by simp [Quiet],by decide,rfl⟩) [.expire ⟨true,true⟩ [] 0] rfl).1

end CallbackTimers
end Translib
