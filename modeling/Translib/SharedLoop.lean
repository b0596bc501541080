import Translib.TransitionMachine
import Translib.TcpClient

/-! Clients on one loop thread, which share its `errno`. -/

namespace Translib
namespace SharedLoop

open TransitionMachine Projection

abbrev ClientRef := ℕ

/-- `connecting` says that the bufferevent has not reported its connection yet. -/
structure Member where
  client : TcpClient
  connecting : Bool
  deriving DecidableEq, Repr

structure System where
  members : ClientRef → Member
  errno : ℤ

/-- `error` is what libevent leaves in `errno` before it reports an error; `setErrno` is done by
any other code on the thread. -/
inductive Step
  | connect (c : ClientRef) (o : ConnectOutcome)
  | event (c : ClientRef) (events : ℕ) (error : ℤ)
  | setErrno (error : ℤ)
  deriving DecidableEq, Repr

def create : System := ⟨fun _ => ⟨.create,false⟩,0⟩

/-- Events come from a bufferevent, and `BEV_EVENT_CONNECTED` from one that is connecting. -/
def Delivered (hasBev connecting : Bool) (events : ℕ) : Prop :=
  hasBev = true ∧ (events &&& bevEventConnected ≠ 0 → connecting = true)

instance (hasBev connecting : Bool) (events : ℕ) : Decidable (Delivered hasBev connecting events) :=
  inferInstanceAs (Decidable (_ ∧ _))

def Member.Delivers (m : Member) (events : ℕ) : Prop :=
  Delivered m.client.socket.bev.isSome m.connecting events

instance (m : Member) (events : ℕ) : Decidable (m.Delivers events) :=
  inferInstanceAs (Decidable (Delivered _ _ _))

def Member.connect (o : ConnectOutcome) (m : Member) : Member :=
  let r := m.client.connect o
  { client := r.2.1, connecting := m.connecting || r.1 }

/-- `eventCallback`, with the callback of the user it calls. -/
def Member.eventCallback (events : ℕ) (errno : ℤ) (m : Member) : Option ClientCallback × Member :=
  let r := m.client.handleEvent events errno
  let client := match r.1 with
    | none => r.2.1
    | some callback => (r.2.1.handleEventReturned callback).1
  (r.1,
    { client := client
      connecting := m.connecting && decide (¬ TcpClient.Disconnects events) &&
        decide (events &&& bevEventConnected = 0) })

def errnoAt (events : ℕ) (error : ℤ) (s : System) : ℤ :=
  if events &&& bevEventError ≠ 0 then error else s.errno

def step (s : System) : Step → System
  | .connect c o => { s with members := Function.update s.members c ((s.members c).connect o) }
  | .event c events error =>
    if (s.members c).Delivers events then
      let errno := errnoAt events error s
      { members := Function.update s.members c ((s.members c).eventCallback events errno).2
        errno := errno }
    else s
  | .setErrno error => { s with errno := error }

def isConnected (a : ClientRef) (s : System) : Bool := (s.members a).client.isConnected

/-- A call of `connect`, and whether libevent lets it succeed; or an event. -/
inductive Input
  | connect (succeeds : Bool)
  | event (events : ℕ)
  deriving DecidableEq, Repr

def succeeds (o : ConnectOutcome) : Bool :=
  o.socketNew && o.enable && match o.socketConnect with
    | .connecting _ => true
    | _ => false

def inputOf (a : ClientRef) : Step → Option Input
  | .connect c o => if c = a then some (.connect (succeeds o)) else none
  | .event c events _ => if c = a then some (.event events) else none
  | .setErrno _ => none

/-- The callback a step makes, and `isConnected()` after it. -/
structure Shown where
  callback : Option ClientCallback
  isConnected : Bool
  deriving DecidableEq, Repr

def shown (a : ClientRef) (s : System) (l : Step) : Shown where
  callback := match l with
    | .event c events error =>
      if (s.members c).Delivers events then
        ((s.members c).eventCallback events (errnoAt events error s)).1
      else none
    | _ => none
  isConnected := isConnected a (step s l)

def seen (a : ClientRef) (run : List Step) : List Shown :=
  observed step (inputOf a) (shown a) create run

/-- From `BEV_EVENT_CONNECTED` to the disconnect the client is connected. -/
def Up (a : ClientRef) (s : System) : Prop :=
  (s.members a).client.socket.bev.isSome = true → (s.members a).connecting = false →
    isConnected a s = true

/-- When the client hears of its connection, `errno` is not one of the errors it looks for. -/
def Clean (a : ClientRef) (s : System) : Step → Prop
  | .event c events _ => c = a → (s.members a).Delivers events → ¬ TcpClient.Disconnects events →
      events &&& bevEventConnected ≠ 0 → s.errno ≠ econnrefused ∧ s.errno ≠ etimedout
  | _ => True

structure Own where
  hasBev : Bool
  connecting : Bool
  isConnected : Bool
  deriving DecidableEq, Repr

def Member.own (m : Member) : Own := ⟨m.client.socket.bev.isSome,m.connecting,m.client.isConnected⟩

/-- The client, if there were no `errno`. -/
def ownNext (o : Own) : Input → Own × Shown
  | .connect succeeds =>
    if !o.hasBev && succeeds then (⟨true,true,o.isConnected⟩,⟨none,o.isConnected⟩)
    else (o,⟨none,o.isConnected⟩)
  | .event events =>
    if Delivered o.hasBev o.connecting events then
      if TcpClient.Disconnects events then (⟨false,false,false⟩,⟨some .onDisconnected,false⟩)
      else if events &&& bevEventConnected ≠ 0 then (⟨true,false,true⟩,⟨some (.onConnected 0),true⟩)
      else (o,⟨none,o.isConnected⟩)
    else (o,⟨none,o.isConnected⟩)

theorem connect_own (o : ConnectOutcome) (m : Member) :
    ((m.connect o).own,Shown.mk none (m.connect o).client.isConnected) =
      ownNext m.own (.connect (succeeds o)) := by
  obtain ⟨⟨⟨bev,isClosing⟩,connected⟩,connecting⟩ := m
  obtain ⟨socketNew,enable,socketConnect⟩ := o
  cases bev with
  | some b => simp [Member.connect,TcpClient.connect,Member.own,ownNext]
  | none =>
    cases socketNew <;> cases enable <;> cases socketConnect <;>
      simp [Member.connect,TcpClient.connect,Member.own,ownNext,succeeds]

theorem errnoAt_of_not_disconnects {events : ℕ} (h : ¬ TcpClient.Disconnects events) (error : ℤ)
    (s : System) : errnoAt events error s = s.errno := by
  have hmask : events &&& (bevEventEof ||| bevEventError ||| bevEventTimeout) = 0 := not_not.mp h
  have herror : events &&& bevEventError = 0 := by
    have hsub : (bevEventEof ||| bevEventError ||| bevEventTimeout) &&& bevEventError =
        bevEventError := by decide
    rw [← hsub,← Nat.and_assoc,hmask,Nat.zero_and]
  simp [errnoAt,herror]

section Event

variable (m : Member) {events : ℕ} (errno : ℤ)

theorem eventCallback_disconnect (h : TcpClient.Disconnects events) :
    (m.eventCallback events errno).1 = some .onDisconnected ∧
      (m.eventCallback events errno).2.own = ⟨false,false,false⟩ := by
  obtain ⟨⟨⟨bev,isClosing⟩,connected⟩,connecting⟩ := m
  cases bev <;>
    simp [Member.eventCallback,TcpClient.handleEvent,h,TcpClient.handleEventReturned,
      TcpClient.freeBev,Member.own,TcpSocket.disable,TcpSocket.withBev]

theorem eventCallback_connected (h : ¬ TcpClient.Disconnects events)
    (hconnected : events &&& bevEventConnected ≠ 0) :
    (m.eventCallback events errno).1 = some (.onConnected
        (if errno ≠ econnrefused ∧ errno ≠ etimedout then 0 else errno)) ∧
      (m.eventCallback events errno).2.own = ⟨m.own.hasBev,false,
        decide (errno ≠ econnrefused ∧ errno ≠ etimedout) || m.own.isConnected⟩ := by
  by_cases hclean : errno ≠ econnrefused ∧ errno ≠ etimedout <;>
    simp [Member.eventCallback,TcpClient.handleEvent,h,hconnected,hclean,
      TcpClient.handleEventReturned,Member.own]

theorem eventCallback_other (h : ¬ TcpClient.Disconnects events)
    (hother : events &&& bevEventConnected = 0) :
    (m.eventCallback events errno).1 = none ∧ (m.eventCallback events errno).2.own = m.own := by
  simp [Member.eventCallback,TcpClient.handleEvent,h,hother,Member.own]

variable {m errno}

theorem eventCallback_own (hdelivers : m.Delivers events)
    (hclean : ¬ TcpClient.Disconnects events → events &&& bevEventConnected ≠ 0 →
      errno ≠ econnrefused ∧ errno ≠ etimedout) :
    ((m.eventCallback events errno).2.own,
      Shown.mk (m.eventCallback events errno).1 (m.eventCallback events errno).2.client.isConnected) =
      ownNext m.own (.event events) := by
  have hd : Delivered m.own.hasBev m.own.connecting events := hdelivers
  have hbev : m.own.hasBev = true := hd.1
  have hshown : (m.eventCallback events errno).2.client.isConnected =
      (m.eventCallback events errno).2.own.isConnected := rfl
  rw [hshown,ownNext,if_pos hd]
  by_cases hdisconnects : TcpClient.Disconnects events
  · obtain ⟨hcallback,hown⟩ := eventCallback_disconnect m errno hdisconnects
    rw [hcallback,hown,if_pos hdisconnects]
  · rw [if_neg hdisconnects]
    by_cases hconnected : events &&& bevEventConnected = 0
    · obtain ⟨hcallback,hown⟩ := eventCallback_other m errno hdisconnects hconnected
      rw [hcallback,hown,if_neg (not_not.mpr hconnected)]
    · obtain ⟨hcallback,hown⟩ := eventCallback_connected m errno hdisconnects hconnected
      have hok := hclean hdisconnects hconnected
      rw [hcallback,hown,if_pos hconnected,if_pos hok,hbev]
      simp [hok]

end Event

/-- A client without a bufferevent is not connecting, and one that is not connected yet. -/
structure Tidy (o : Own) : Prop where
  closed : o.hasBev = false → o.connecting = false ∧ o.isConnected = false
  connecting : o.connecting = true → o.isConnected = false

theorem step_hidden (a : ClientRef) (s : System) (l : Step) (h : inputOf a l = none) :
    ((step s l).members a).own = (s.members a).own := by
  cases l with
  | setErrno error => rfl
  | connect c o =>
    have hc : a ≠ c := fun hac => by simp [inputOf,hac] at h
    simp [step,Function.update_of_ne hc]
  | event c events error =>
    have hc : a ≠ c := fun hac => by simp [inputOf,hac] at h
    simp only [step]
    split_ifs
    · simp [Function.update_of_ne hc]
    · rfl

theorem step_seen (a : ClientRef) (s : System) (l : Step) (i : Input) (hl : Clean a s l)
    (h : inputOf a l = some i) :
    (((step s l).members a).own,shown a s l) = ownNext (s.members a).own i := by
  cases l with
  | setErrno error => cases h
  | connect c o =>
    have hc : c = a := by
      by_contra hne
      simp [inputOf,hne] at h
    subst hc
    have hi : i = .connect (succeeds o) := by simpa [inputOf,eq_comm] using h
    rw [hi,← connect_own o (s.members c)]
    simp [step,shown,isConnected]
  | event c events error =>
    have hc : c = a := by
      by_contra hne
      simp [inputOf,hne] at h
    subst hc
    have hi : i = .event events := by simpa [inputOf,eq_comm] using h
    rw [hi]
    by_cases hdelivers : (s.members c).Delivers events
    · have hclean : ¬ TcpClient.Disconnects events → events &&& bevEventConnected ≠ 0 →
          errnoAt events error s ≠ econnrefused ∧ errnoAt events error s ≠ etimedout := by
        intro hd hconnected
        rw [errnoAt_of_not_disconnects hd]
        exact hl rfl hdelivers hd hconnected
      rw [← eventCallback_own hdelivers hclean]
      simp [step,shown,isConnected,hdelivers]
    · have hd : ¬ Delivered (s.members c).own.hasBev (s.members c).own.connecting events := hdelivers
      rw [ownNext,if_neg hd]
      simp [step,shown,isConnected,hdelivers,Member.own]

theorem ownNext_connect {o : Own} (h : Tidy o) (succeeds : Bool) :
    Tidy (ownNext o (.connect succeeds)).1 ∧
      ((o.hasBev = true → o.connecting = false → o.isConnected = true) →
        (ownNext o (.connect succeeds)).1.hasBev = true →
        (ownNext o (.connect succeeds)).1.connecting = false →
        (ownNext o (.connect succeeds)).1.isConnected = true) := by
  simp only [ownNext]
  split_ifs with hconnect
  · have hclosed : o.hasBev = false := by
      rw [Bool.and_eq_true] at hconnect
      simpa using hconnect.1
    exact ⟨⟨fun hf => (by cases hf),fun _ => (h.closed hclosed).2⟩,fun _ _ hf => by cases hf⟩
  · exact ⟨h,id⟩

theorem event_up {m : Member} {events : ℕ} (errno : ℤ) (hdelivers : m.Delivers events)
    (h : Tidy m.own) (hup : m.own.connecting = false → m.own.isConnected = true) :
    Tidy (m.eventCallback events errno).2.own ∧
      (((m.eventCallback events errno).2.own.hasBev = true →
        (m.eventCallback events errno).2.own.connecting = false →
        (m.eventCallback events errno).2.own.isConnected = true) ↔
      (¬ TcpClient.Disconnects events → events &&& bevEventConnected ≠ 0 →
        errno ≠ econnrefused ∧ errno ≠ etimedout)) := by
  have hbev : m.own.hasBev = true := hdelivers.1
  by_cases hdisconnects : TcpClient.Disconnects events
  · rw [(eventCallback_disconnect m errno hdisconnects).2]
    exact ⟨⟨fun _ => ⟨rfl,rfl⟩,fun _ => rfl⟩,fun _ hd => absurd hdisconnects hd,
      fun _ hf => by cases hf⟩
  · by_cases hconnected : events &&& bevEventConnected = 0
    · rw [(eventCallback_other m errno hdisconnects hconnected).2]
      exact ⟨h,fun _ _ hf => absurd hconnected hf,fun _ _ => hup⟩
    · have hnot : m.own.isConnected = false := h.connecting (hdelivers.2 hconnected)
      rw [(eventCallback_connected m errno hdisconnects hconnected).2]
      refine ⟨⟨fun hf => absurd (hbev.symm.trans hf) (by decide),fun hf => (by cases hf)⟩,?_⟩
      simp [hbev,hnot,hdisconnects,hconnected]

theorem step_up (a : ClientRef) {s : System} (l : Step) (h : Tidy (s.members a).own) (hup : Up a s) :
    Tidy ((step s l).members a).own ∧ (Up a (step s l) ↔ Clean a s l) := by
  have hsame (l : Step) (hl : Clean a s l) (hown : ((step s l).members a).own = (s.members a).own) :
      Tidy ((step s l).members a).own ∧ (Up a (step s l) ↔ Clean a s l) := by
    have hup' : Up a (step s l) := by
      have hbev := congrArg Own.hasBev hown
      have hconnecting := congrArg Own.connecting hown
      have hconnected := congrArg Own.isConnected hown
      intro hb hc
      exact hconnected.trans (hup (hbev.symm.trans hb) (hconnecting.symm.trans hc))
    exact ⟨hown ▸ h,fun _ => hl,fun _ => hup'⟩
  cases l with
  | setErrno error => exact hsame (.setErrno error) trivial rfl
  | connect c o =>
    by_cases hc : c = a
    · subst hc
      obtain ⟨htidy,hkeeps⟩ := ownNext_connect h (succeeds o)
      have hown : ((step s (.connect c o)).members c).own =
          (ownNext (s.members c).own (.connect (succeeds o))).1 := by
        rw [← connect_own o (s.members c)]
        simp [step]
      rw [← hown] at htidy hkeeps
      exact ⟨htidy,fun _ => trivial,fun _ => hkeeps hup⟩
    · exact hsame (.connect c o) trivial (step_hidden a s _ (by simp [inputOf,hc]))
  | event c events error =>
    by_cases hc : c = a
    · subst hc
      by_cases hdelivers : (s.members c).Delivers events
      · have hstep : (step s (.event c events error)).members c =
            ((s.members c).eventCallback events (errnoAt events error s)).2 := by
          simp [step,hdelivers]
        obtain ⟨htidy,hiff⟩ := event_up (errnoAt events error s) hdelivers h (hup hdelivers.1)
        rw [hstep]
        refine ⟨htidy,Iff.trans (Iff.of_eq ?_) (hiff.trans ?_)⟩
        · rw [Up,isConnected,hstep]
          rfl
        · simp only [Clean,hdelivers,true_implies]
          refine forall_congr' fun hd => ?_
          rw [errnoAt_of_not_disconnects hd]
      · exact hsame (.event c events error) (fun _ hd => absurd hd hdelivers) (by
          simp [step,hdelivers])
    · exact hsame (.event c events error) (fun hca => absurd hca hc)
        (step_hidden a s _ (by simp [inputOf,hc]))

theorem up_iff (a : ClientRef) (run : List Step) :
    Always step (Up a) create run ↔ Along step (Clean a) create run := by
  have hcreate : Tidy ((create.members a).own) := ⟨fun _ => ⟨rfl,rfl⟩,fun _ => rfl⟩
  exact always_iff_along (J := fun s => Tidy (s.members a).own)
    (fun _ l h hs _ => step_up a l h hs) hcreate (fun hb => by cases hb) (along_true step _ _)

/-- Two runs with the same inputs to a client: they show the same of it, and it is connected
from each connection to the next disconnect, if and only if `errno` is clean whenever the
client hears of a connection. -/
theorem undisturbed_iff (a : ClientRef) {run run' : List Step}
    (h : run.filterMap (inputOf a) = run'.filterMap (inputOf a)) :
    (seen a run = seen a run' ∧ Always step (Up a) create run ∧ Always step (Up a) create run') ↔
      Along step (Clean a) create run ∧ Along step (Clean a) create run' := by
  rw [up_iff,up_iff]
  refine ⟨fun hseen => hseen.2,fun hclean => ⟨?_,hclean⟩⟩
  exact observed_congr ownNext (fun s => (s.members a).own) (step_hidden a)
    (step_seen a) rfl h hclean.1 hclean.2

/-- The connection of another client is reset in one of the runs. -/
theorem undisturbed_reset :
    seen 0 [.connect 0 ⟨true,true,.connecting 5⟩,.event 0 0x80 0] =
      seen 0 [.connect 0 ⟨true,true,.connecting 5⟩,.connect 1 ⟨true,true,.connecting 6⟩,
        .event 1 0x20 104,.event 0 0x80 0] := by
  have hrun : Along step (Clean 0) create
      [.connect 0 ⟨true,true,.connecting 5⟩,.event 0 0x80 0] := by
    refine ⟨trivial,?_,trivial⟩
    unfold Clean
    decide
  have hrun' : Along step (Clean 0) create
      [.connect 0 ⟨true,true,.connecting 5⟩,.connect 1 ⟨true,true,.connecting 6⟩,
        .event 1 0x20 104,.event 0 0x80 0] := by
    refine ⟨trivial,trivial,?_,?_,trivial⟩
    all_goals
      unfold Clean
      decide
  exact ((undisturbed_iff 0 (by decide)).mpr ⟨hrun,hrun'⟩).1

/-- The connection of another client is refused just before. -/
theorem refused_elsewhere :
    ¬ ∀ a (run run' : List Step), run.filterMap (inputOf a) = run'.filterMap (inputOf a) →
      seen a run = seen a run' ∧ Always step (Up a) create run ∧ Always step (Up a) create run' := by
  intro h
  have hseen := h 0 [.connect 0 ⟨true,true,.connecting 5⟩,.event 0 0x80 0]
    [.connect 0 ⟨true,true,.connecting 5⟩,.connect 1 ⟨true,true,.connecting 6⟩,
      .event 1 0x20 111,.event 0 0x80 0] (by decide)
  exact absurd hseen.1 (by decide)

end SharedLoop
end Translib
