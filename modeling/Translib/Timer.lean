import Translib.CallbackMachine

/-! The timer class over libevent's timer events, and as a machine that is called from
outside and from inside its handlers. -/

namespace Translib

/-- Conversion to `uint64_t`. -/
abbrev uint64 (n : ℕ) : ℕ := n % 2^64

/-- What `event_new` and `event_add` return: whether they succeed. -/
structure Libevent where
  eventNew : Bool
  eventAdd : Bool
  deriving DecidableEq, Repr

/-- A timer event. An event that is not persistent is no longer pending once it fired. -/
structure TimerEvent where
  persist : Bool
  pending : Bool
  tvSec : ℕ
  tvUsec : ℕ
  deriving DecidableEq, Repr

/-- A `std::function<void()>`: empty, a function of the user, the closure `startAfter`
makes, or the closure `startCB` makes, which looks its callback up in the timer. -/
inductive Handler (α : Type*)
  | null
  | user (f : α)
  | startRounds (interval round : ℕ) (handler : Handler α)
  | callCB
  deriving DecidableEq, Repr

structure Timer (α : Type*) where
  event : Option TimerEvent
  interval : ℕ
  round : ℕ
  curRound : ℕ
  handler : Handler α
  userData : ℕ
  cbHandler : Option α
  tid : ℤ
  deriving DecidableEq, Repr

namespace Timer

variable {α : Type*}

def create : Timer α := ⟨none,0,1,0,.null,0,none,0⟩

/-- The counter is set past the last round, in 64 bits. -/
def reset (t : Timer α) : Timer α :=
  match t.event with
  | none => t
  | some _ => { t with event := none, curRound := uint64 (t.round+1) }

def startRounds (lib : Libevent) (interval round : ℕ) (handler : Handler α) (t : Timer α) :
    Bool × Timer α :=
  match t.event with
  | some _ => (false,t)
  | none =>
    if !lib.eventNew then (false,t)
    else
      let event : TimerEvent := {
        persist := decide (round > 1)
        pending := lib.eventAdd
        tvSec := interval/1000
        tvUsec := interval%1000*1000 }
      if !lib.eventAdd then (false,reset { t with event := some event })
      else (true,{ t with event := some event, interval, round, curRound := 0, handler })

def startOnce (lib : Libevent) (interval : ℕ) (handler : Handler α) (t : Timer α) :
    Bool × Timer α :=
  startRounds lib interval 1 handler t

/-- The round count `uint32_t(-1)`. -/
def foreverRounds : ℕ := 2^32-1

def startForever (lib : Libevent) (interval : ℕ) (handler : Handler α) (t : Timer α) :
    Bool × Timer α :=
  startRounds lib interval foreverRounds handler t

def startAfter (lib : Libevent) (after interval round : ℕ) (handler : Handler α) (t : Timer α) :
    Bool × Timer α :=
  startOnce lib after (.startRounds interval round handler) t

/-- The callback data is stored before the start is known to succeed. -/
def startCB (lib : Libevent) (interval : ℕ) (handler : α) (userData : ℕ) (tid : ℤ) (t : Timer α) :
    Bool × Timer α :=
  startForever lib interval .callCB { t with tid, userData, cbHandler := some handler }

def isFinished (t : Timer α) : Bool := decide (t.curRound ≥ t.round)

def stop (t : Timer α) : Timer α := reset t

def eventHandler (t : Timer α) : Handler α × Timer α :=
  let counted := { t with curRound := uint64 (t.curRound+1) }
  (t.handler,if counted.curRound ≥ counted.round then reset counted else counted)

def expire (t : Timer α) : Option (Handler α × Timer α) :=
  match t.event with
  | none => none
  | some event =>
    if event.pending then
      some (eventHandler { t with event := some { event with pending := event.persist } })
    else none

def isArmed (t : Timer α) : Bool := (t.event.map TimerEvent.pending).getD false

inductive Call (α : Type*)
  | startRounds (interval round : ℕ) (handler : Handler α)
  | startOnce (interval : ℕ) (handler : Handler α)
  | startForever (interval : ℕ) (handler : Handler α)
  | startAfter (after interval round : ℕ) (handler : Handler α)
  | startCB (interval : ℕ) (handler : α) (userData : ℕ) (tid : ℤ)
  | stop
  deriving DecidableEq, Repr

structure Report where
  armed : Bool
  finished : Bool
  deriving DecidableEq, Repr

/-- The body of the closure of `startAfter` is known; any other handler may do what it
likes. -/
def script : Handler α → Option (List (Call α))
  | .startRounds interval round handler => some [.startRounds interval round handler]
  | _ => none

/-- Calls whose calls of libevent succeed. `stop` returns nothing. -/
def call : Call α → Timer α → Option Bool × Timer α
  | .startRounds interval round handler, t =>
    (startRounds ⟨true,true⟩ interval round handler t).map some id
  | .startOnce interval handler, t => (startOnce ⟨true,true⟩ interval handler t).map some id
  | .startForever interval handler, t => (startForever ⟨true,true⟩ interval handler t).map some id
  | .startAfter after interval round handler, t =>
    (startAfter ⟨true,true⟩ after interval round handler t).map some id
  | .startCB interval handler userData tid, t =>
    (startCB ⟨true,true⟩ interval handler userData tid t).map some id
  | .stop, t => (none,stop t)

def callIn (lib : Libevent) : Call α → Timer α → Option Bool × Timer α
  | .startRounds interval round handler, t => (startRounds lib interval round handler t).map some id
  | .startOnce interval handler, t => (startOnce lib interval handler t).map some id
  | .startForever interval handler, t => (startForever lib interval handler t).map some id
  | .startAfter after interval round handler, t =>
    (startAfter lib after interval round handler t).map some id
  | .startCB interval handler userData tid, t =>
    (startCB lib interval handler userData tid t).map some id
  | .stop, t => (none,stop t)

/-- The timer and its loop thread: the calls made on it and the expirations. -/
def machine : CallbackMachine.Machine (Timer α) (Call α) (Option Bool) (Handler α) Report where
  call := call
  invoke := expire
  report := fun t => ⟨t.isArmed,t.isFinished⟩

theorem startRounds_armed (lib : Libevent) (interval round : ℕ) (handler : Handler α) {t : Timer α}
    (h : t.event.isSome) : startRounds lib interval round handler t = (false,t) := by
  obtain ⟨event,he⟩ := Option.isSome_iff_exists.mp h
  simp [startRounds,he]

def newEvent (interval round : ℕ) : TimerEvent :=
  ⟨decide (1 < round),true,interval/1000,interval%1000*1000⟩

theorem startRounds_idle (interval round : ℕ) (handler : Handler α) {t : Timer α}
    (h : t.event = none) :
    startRounds ⟨true,true⟩ interval round handler t =
      (true,{ t with
        event := some (newEvent interval round), interval, round, curRound := 0, handler }) := by
  simp [startRounds,h,newEvent]

theorem startRounds_true {lib : Libevent} {interval round : ℕ} {handler : Handler α} {t : Timer α}
    (h : (startRounds lib interval round handler t).1 = true) :
    t.event = none ∧ lib = ⟨true,true⟩ := by
  obtain ⟨eventNew,eventAdd⟩ := lib
  cases he : t.event with
  | some event => simp [startRounds,he] at h
  | none =>
    cases eventNew <;> cases eventAdd <;> simp [startRounds,he] at h ⊢

theorem reset_idle {t : Timer α} (h : t.event = none) : reset t = t := by
  simp [reset,h]

theorem reset_armed {t : Timer α} (h : t.event.isSome) :
    reset t = { t with event := none, curRound := uint64 (t.round+1) } := by
  obtain ⟨event,he⟩ := Option.isSome_iff_exists.mp h
  simp [reset,he]

theorem reset_event (t : Timer α) : t.reset.event = none := by
  cases he : t.event <;> simp [reset,he]

theorem expire_idle {t : Timer α} (h : t.event = none) : expire t = none := by
  simp [expire,h]

theorem expire_armed {t : Timer α} {r : Handler α × Timer α} (h : t.expire = some r) :
    t.isArmed = true := by
  cases he : t.event with
  | none => simp [expire,he] at h
  | some event =>
    simp only [expire,he] at h
    split_ifs at h with hpending
    simp [isArmed,he,hpending]

theorem armed_expire {t : Timer α} (h : t.isArmed = true) : ∃ r, t.expire = some r := by
  cases he : t.event with
  | none => simp [isArmed,he] at h
  | some event =>
    have hpending : event.pending = true := by simpa [isArmed,he] using h
    exact Option.isSome_iff_exists.mp (by simp [expire,he,hpending])

/-- Every expiration but the last only counts. -/
theorem expire_counts {t : Timer α} {event : TimerEvent} (he : t.event = some event)
    (hpending : event.pending = true) (hpersist : event.persist = true)
    (h64 : t.curRound+1 < 2^64) (hmore : t.curRound+1 < t.round) :
    expire t = some (t.handler,{ t with curRound := t.curRound+1 }) := by
  have hsame : { event with pending := event.persist } = event := by
    cases event
    simp_all
  have hcount : uint64 (t.curRound+1) = t.curRound+1 := Nat.mod_eq_of_lt h64
  simp only [expire,he,hpending,if_true,hsame,eventHandler,hcount]
  rw [if_neg (not_le.mpr hmore),← he]

/-- The last expiration frees the event before the handler is called. -/
theorem expire_last {t : Timer α} {event : TimerEvent} (he : t.event = some event)
    (hpending : event.pending = true) (h64 : t.curRound+1 < 2^64)
    (hlast : t.round ≤ t.curRound+1) :
    expire t =
      some (t.handler,{ t with event := none, curRound := uint64 (t.round+1) }) := by
  have hcount : uint64 (t.curRound+1) = t.curRound+1 := Nat.mod_eq_of_lt h64
  simp only [expire,he,hpending,if_true,eventHandler,hcount]
  rw [if_pos hlast,reset_armed rfl]

def request : Call α → Option (ℕ × ℕ × Handler α)
  | .startRounds interval round handler => some (interval,round,handler)
  | .startOnce interval handler => some (interval,1,handler)
  | .startForever interval handler => some (interval,foreverRounds,handler)
  | .startAfter after interval round handler => some (after,1,.startRounds interval round handler)
  | .startCB interval _ _ _ => some (interval,foreverRounds,.callCB)
  | .stop => none

def stored (t : Timer α) : Call α → Timer α
  | .startCB _ handler userData tid => { t with tid, userData, cbHandler := some handler }
  | _ => t

theorem callIn_stop {c : Call α} (hc : request c = none) (lib : Libevent) (t : Timer α) :
    callIn lib c t = (none,stop t) := by
  cases c with
  | stop => rfl
  | _ => cases hc

theorem callIn_start {c : Call α} {interval round : ℕ} {handler : Handler α}
    (hc : request c = some (interval,round,handler)) (lib : Libevent) (t : Timer α) :
    callIn lib c t = (startRounds lib interval round handler (stored t c)).map some id := by
  cases c with
  | stop => cases hc
  | _ =>
    cases hc
    rfl

theorem callIn_willing (c : Call α) (t : Timer α) : callIn ⟨true,true⟩ c t = call c t := by
  cases c <;> rfl

theorem stored_event (t : Timer α) (c : Call α) : (stored t c).event = t.event := by
  cases c <;> rfl

theorem stored_round (t : Timer α) (c : Call α) : (stored t c).round = t.round := by
  cases c <;> rfl

/-- A start of an armed timer is refused, and at most stores what `startCB` is given. -/
theorem callIn_armed {t : Timer α} (h : t.event.isSome) (lib : Libevent) {c : Call α}
    (hc : c ≠ .stop) : callIn lib c t = (some false,stored t c) := by
  cases hrequest : request c with
  | none =>
    cases c with
    | stop => exact absurd rfl hc
    | _ => cases hrequest
  | some p =>
    obtain ⟨interval,round,handler⟩ := p
    rw [callIn_start hrequest,startRounds_armed _ _ _ _ (stored_event t c ▸ h)]
    rfl

/-- The ways a start can end. When the event cannot be added it is freed again. -/
inductive Start (lib : Libevent) (interval round : ℕ) (handler : Handler α) (t : Timer α) :
    Bool × Timer α → Prop
  | armed (armed : t.event.isSome) : Start lib interval round handler t (false,t)
  | notMade (idle : t.event = none) (new : lib.eventNew = false) :
      Start lib interval round handler t (false,t)
  | notAdded (idle : t.event = none) (new : lib.eventNew = true) (add : lib.eventAdd = false) :
      Start lib interval round handler t
        (false,{ t with event := none, curRound := uint64 (t.round+1) })
  | started (idle : t.event = none) (new : lib.eventNew = true) (add : lib.eventAdd = true) :
      Start lib interval round handler t
        (true,{ t with
          event := some (newEvent interval round), interval, round, curRound := 0, handler })

theorem startRounds_start (lib : Libevent) (interval round : ℕ) (handler : Handler α)
    (t : Timer α) : Start lib interval round handler t (startRounds lib interval round handler t) := by
  obtain ⟨eventNew,eventAdd⟩ := lib
  cases he : t.event with
  | some event =>
    have hsome : t.event.isSome := by rw [he]; rfl
    rw [startRounds_armed _ _ _ _ hsome]
    exact .armed hsome
  | none =>
    cases eventNew with
    | false =>
      have hfalse : startRounds ⟨false,eventAdd⟩ interval round handler t = (false,t) := by
        simp [startRounds,he]
      rw [hfalse]
      exact .notMade he rfl
    | true =>
      cases eventAdd with
      | false =>
        have hfalse : startRounds ⟨true,false⟩ interval round handler t =
            (false,{ t with event := none, curRound := uint64 (t.round+1) }) := by
          simp [startRounds,he,reset]
        rw [hfalse]
        exact .notAdded he rfl rfl
      | true =>
        rw [startRounds_idle _ _ _ he]
        exact .started he rfl rfl

inductive CallEffect (lib : Libevent) (c : Call α) (t : Timer α) : Option Bool × Timer α → Prop
  | stopped (requested : request c = none) : CallEffect lib c t (none,stop t)
  | armed (armed : t.event.isSome) : CallEffect lib c t (some false,stored t c)
  | notMade (idle : t.event = none) (new : lib.eventNew = false) :
      CallEffect lib c t (some false,stored t c)
  | notAdded (idle : t.event = none) (new : lib.eventNew = true) (add : lib.eventAdd = false) :
      CallEffect lib c t
        (some false,{ stored t c with event := none, curRound := uint64 (t.round+1) })
  | started (interval round : ℕ) (handler : Handler α)
      (requested : request c = some (interval,round,handler)) :
      CallEffect lib c t (some true,{ stored t c with
        event := some (newEvent interval round), interval, round, curRound := 0, handler })

theorem callIn_effect (lib : Libevent) (c : Call α) (t : Timer α) :
    CallEffect lib c t (callIn lib c t) := by
  cases hrequest : request c with
  | none =>
    rw [callIn_stop hrequest]
    exact .stopped hrequest
  | some p =>
    obtain ⟨interval,round,handler⟩ := p
    have hstart := startRounds_start lib interval round handler (stored t c)
    rw [callIn_start hrequest]
    generalize startRounds lib interval round handler (stored t c) = r at hstart ⊢
    cases hstart with
    | armed armed => exact .armed (stored_event t c ▸ armed)
    | notMade idle new => exact .notMade (stored_event t c ▸ idle) new
    | notAdded idle new add =>
      have hfreed : CallEffect lib c t
          (some false,{ stored t c with event := none, curRound := uint64 (t.round+1) }) :=
        .notAdded (stored_event t c ▸ idle) new add
      rwa [← stored_round t c] at hfreed
    | started => exact .started interval round handler hrequest

inductive Expiration (t : Timer α) : Option (Handler α × Timer α) → Prop
  | unarmed (unarmed : t.isArmed = false) : Expiration t none
  | counts (event : TimerEvent) (armed : t.event = some event) (pending : event.pending = true)
      (more : uint64 (t.curRound+1) < t.round) :
      Expiration t (some (t.handler,{ t with
        event := some { event with pending := event.persist }, curRound := uint64 (t.curRound+1) }))
  | last (event : TimerEvent) (armed : t.event = some event) (pending : event.pending = true)
      (last : t.round ≤ uint64 (t.curRound+1)) :
      Expiration t (some (t.handler,{ t with event := none, curRound := uint64 (t.round+1) }))

theorem expire_expiration (t : Timer α) : Expiration t t.expire := by
  cases he : t.event with
  | none =>
    rw [expire_idle he]
    exact .unarmed (by simp [isArmed,he])
  | some event =>
    cases hpending : event.pending with
    | false =>
      have hnone : t.expire = none := by simp [expire,he,hpending]
      rw [hnone]
      exact .unarmed (by simp [isArmed,he,hpending])
    | true =>
      simp only [expire,he,hpending,if_true,eventHandler]
      split_ifs with hlast
      · exact .last event he hpending hlast
      · exact .counts event he hpending (not_le.mp hlast)

end Timer

namespace ObservedTimer

open Timer CallbackMachine

variable {α : Type*}

/-- The handlers by what they invoke. The closure of `startCB` reads the callback and its
arguments from the timer. -/
inductive Invocation (α : Type*)
  | null
  | user (f : α)
  | startRounds (interval round : ℕ) (handler : Handler α)
  | callback (handler : Option α) (userData : ℕ) (tid : ℤ)
  deriving DecidableEq, Repr

def invocation (t : Timer α) : Handler α → Invocation α
  | .null => .null
  | .user f => .user f
  | .startRounds interval rounds handler => .startRounds interval rounds handler
  | .callCB => .callback t.cbHandler t.userData t.tid

structure Getters where
  armed : Bool
  interval : ℕ
  round : ℕ
  curRound : ℕ
  finished : Bool
  deriving DecidableEq, Repr

def getters (t : Timer α) : Getters := ⟨t.isArmed,t.interval,t.round,t.curRound,t.isFinished⟩

def observed : Machine (Timer α) (Libevent × Call α) (Option Bool) (Invocation α) Getters where
  call := fun c => callIn c.1 c.2
  invoke := fun t => t.expire.map fun r => (invocation r.2 r.1,r.2)
  report := getters

/-- A run of calls and expirations. What a handler does, the closures of `startAfter` and
`startCB` among them, is part of it. -/
def run (t : Timer α) (es : List (Event (Libevent × Call α))) :
    Timer α × List (Observation (Option Bool) (Invocation α) Getters) :=
  trace observed (fun _ => none) t es

theorem getters_congr {t t' : Timer α} (hevent : t.event = t'.event)
    (hinterval : t.interval = t'.interval) (hround : t.round = t'.round)
    (hcurRound : t.curRound = t'.curRound) : getters t = getters t' := by
  simp only [getters,isArmed,isFinished,hevent,hinterval,hround,hcurRound]

end ObservedTimer

end Translib
