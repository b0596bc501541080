import Translib.ClientRuns
import Translib.SocketLife
import Translib.TcpServerDispatcher

/-! When clients and sessions accept data: the life of their socket, in every run. -/

namespace Translib
namespace SendAcceptance

open TransitionMachine

def life (s : ClientRuns.System) : SocketLife.Life := ⟨s.client.socket,s.ended⟩

def lifeStep (s : ClientRuns.System) : ClientRuns.Step → Option SocketLife.Step
  | .connect o =>
    if s.destroyed = false ∧ (s.client.connect o).1 then
      some (.opened (s.client.connect o).2.1.socket.socket)
    else none
  | .send ok data => if s.destroyed then none else some (.send ok data)
  | .close waiting => if s.destroyed then none else some (.close waiting)
  | .handOver k => if s.destroyed || s.callback.isSome then none else some (.handOver k)
  | .writeCallback => if s.destroyed || s.callback.isSome then none else some .writeCallback
  | .event events _ =>
    if s.destroyed = false ∧ s.callback = none ∧ s.client.socket.bev.isSome ∧
        TcpClient.Disconnects events then some .disconnect
    else none
  | .returned =>
    if s.destroyed = false ∧ s.callback = some .onDisconnected then some .freed else none
  | .destroy =>
    if s.destroyed = false ∧ s.callback ≠ some .onDisconnected then some .freed else none
  | .openOther _ => none
  | .closeOther _ => none

theorem freeBev_socket (c : TcpClient) : c.freeBev.1.socket = { c.socket with bev := none } := by
  obtain ⟨⟨bev,isClosing⟩,isConnected⟩ := c
  cases bev <;> rfl

theorem life_step (s : ClientRuns.System) (l : ClientRuns.Step) :
    life (ClientRuns.step s l) = (lifeStep s l).elim (life s) (SocketLife.step (life s)) := by
  cases hd : s.destroyed with
  | true => cases l <;> simp [ClientRuns.step,lifeStep,hd,life]
  | false =>
    cases l with
    | openOther fd => rfl
    | closeOther fd => rfl
    | connect o =>
      rcases s.client.connect_eq o with ⟨fd,_,hconnect⟩ | ⟨hfalse,hsame,_⟩
      · simp [ClientRuns.step,ClientRuns.clientStep,ClientRuns.record,lifeStep,hd,hconnect,life,
          SocketLife.step,TcpSocket.socket,Bufferevent.socketNew]
      · simp [ClientRuns.step,ClientRuns.clientStep,ClientRuns.record,lifeStep,hd,hfalse,hsame,life]
    | send ok data =>
      simp [ClientRuns.step,ClientRuns.clientStep,lifeStep,hd,life,SocketLife.step]
    | close waiting =>
      simp [ClientRuns.step,ClientRuns.clientStep,ClientRuns.record,lifeStep,hd,life,SocketLife.step]
    | handOver k =>
      cases hc : s.callback <;>
        simp [ClientRuns.step,ClientRuns.clientStep,lifeStep,hd,hc,life,SocketLife.step]
    | writeCallback =>
      cases hc : s.callback <;>
        simp [ClientRuns.step,ClientRuns.clientStep,ClientRuns.record,lifeStep,hd,hc,life,
          SocketLife.step]
    | event events socketError =>
      cases hc : s.callback with
      | some callback => simp [ClientRuns.step,ClientRuns.clientStep,lifeStep,hd,hc,life]
      | none =>
        cases hb : s.client.socket.bev with
        | none => simp [ClientRuns.step,ClientRuns.clientStep,lifeStep,hd,hc,hb,life]
        | some b =>
          by_cases hdisconnects : TcpClient.Disconnects events
          · simp [ClientRuns.step,ClientRuns.clientStep,ClientRuns.record,lifeStep,hd,hc,hb,life,
              TcpClient.handleEvent,hdisconnects,SocketLife.step]
          · simp only [ClientRuns.step,ClientRuns.clientStep,ClientRuns.record,lifeStep,hd,hc,hb,life,
              TcpClient.handleEvent,hdisconnects]
            split_ifs <;> simp_all
    | returned =>
      cases hc : s.callback with
      | none => simp [ClientRuns.step,ClientRuns.clientStep,lifeStep,hd,hc,life]
      | some callback =>
        cases callback with
        | onDisconnected =>
          simp [ClientRuns.step,ClientRuns.clientStep,ClientRuns.record,lifeStep,hd,hc,life,
            TcpClient.handleEventReturned,freeBev_socket,SocketLife.step]
        | onConnected error =>
          simp [ClientRuns.step,ClientRuns.clientStep,ClientRuns.record,lifeStep,hd,hc,life,
            TcpClient.handleEventReturned]
    | destroy =>
      by_cases hc : s.callback = some .onDisconnected
      · simp [ClientRuns.step,ClientRuns.clientStep,lifeStep,hd,hc,life]
      · simp [ClientRuns.step,ClientRuns.clientStep,ClientRuns.record,lifeStep,hd,hc,life,
          freeBev_socket,SocketLife.step]

/-- On a connection that is not over, a send whose `bufferevent_write` succeeds returns true. -/
def Accepting (s : ClientRuns.System) : Prop := SocketLife.Accepting (life s)

/-- Data is accepted only while writing is enabled and the connection is not over. -/
def Refusing (s : ClientRuns.System) : Prop := SocketLife.Refusing (life s)

def CleanlyConnected (s : ClientRuns.System) : ClientRuns.Step → Prop
  | .connect o => s.destroyed = false → (s.client.connect o).1 = true → s.client.socket.isClosing = false
  | _ => True

/-- Closes have something to wait for, which is never completed, and a disconnect is handled
only while a close waits. -/
def Unfinished (s : ClientRuns.System) : ClientRuns.Step → Prop
  | .close waiting => s.destroyed = false → s.client.socket.bev.isSome →
      waiting = true ∧ s.client.socket.output ≠ []
  | .writeCallback => s.destroyed = false → s.callback = none →
      ¬ (s.client.socket.writePending = true ∧ s.client.socket.isClosing = true ∧
        s.client.socket.output = [])
  | .event events _ => s.destroyed = false → s.callback = none → s.client.socket.bev.isSome →
      TcpClient.Disconnects events → s.client.socket.isClosing = true
  | _ => True

theorem step_accepting {s : ClientRuns.System} (l : ClientRuns.Step) (h : Accepting s) :
    Accepting (ClientRuns.step s l) ↔ CleanlyConnected s l := by
  have hlife : Accepting (ClientRuns.step s l) ↔
      ∀ x, lifeStep s l = some x → SocketLife.CleanlyOpened (life s) x := by
    rw [Accepting,life_step]
    cases lifeStep s l with
    | none => exact ⟨fun _ _ hx => absurd hx (by simp),fun _ => h⟩
    | some x => simpa using SocketLife.step_accepting x h
  rw [hlife]
  cases l with
  | connect o =>
    by_cases hopens : s.destroyed = false ∧ (s.client.connect o).1 = true
    · simp [lifeStep,hopens,CleanlyConnected,SocketLife.CleanlyOpened,life]
    · simp only [lifeStep,if_neg hopens]
      exact ⟨fun _ hd hok => absurd ⟨hd,hok⟩ hopens,fun _ _ hx => absurd hx (by simp)⟩
  | openOther fd => exact ⟨fun _ => trivial,fun _ _ hx => by cases hx⟩
  | closeOther fd => exact ⟨fun _ => trivial,fun _ _ hx => by cases hx⟩
  | _ =>
    refine ⟨fun _ => trivial,fun _ x hx => ?_⟩
    simp only [lifeStep] at hx
    split_ifs at hx
    cases hx
    trivial

theorem step_refusing {s : ClientRuns.System} (l : ClientRuns.Step) (h : Refusing s) :
    Refusing (ClientRuns.step s l) ↔ Unfinished s l := by
  have hlife : Refusing (ClientRuns.step s l) ↔
      ∀ x, lifeStep s l = some x → SocketLife.Unfinished (life s) x := by
    rw [Refusing,life_step]
    cases lifeStep s l with
    | none => exact ⟨fun _ _ hx => absurd hx (by simp),fun _ => h⟩
    | some x => simpa using SocketLife.step_refusing x h
  rw [hlife]
  cases l with
  | close waiting =>
    cases hd : s.destroyed <;> simp [lifeStep,Unfinished,SocketLife.Unfinished,life,hd]
  | writeCallback =>
    cases hd : s.destroyed <;> cases hc : s.callback <;>
      simp [lifeStep,Unfinished,SocketLife.Unfinished,life,hd,hc]
  | event events socketError =>
    by_cases hdisconnect : s.destroyed = false ∧ s.callback = none ∧
        s.client.socket.bev.isSome ∧ TcpClient.Disconnects events
    · simp [lifeStep,Unfinished,SocketLife.Unfinished,life,hdisconnect]
    · simp only [lifeStep,if_neg hdisconnect]
      exact ⟨fun _ hd hc hb he => absurd ⟨hd,hc,hb,he⟩ hdisconnect,fun _ _ hx => absurd hx (by simp)⟩
  | openOther fd => exact ⟨fun _ => trivial,fun _ _ hx => by cases hx⟩
  | closeOther fd => exact ⟨fun _ => trivial,fun _ _ hx => by cases hx⟩
  | _ =>
    refine ⟨fun _ => trivial,fun _ x hx => ?_⟩
    simp only [lifeStep] at hx
    split_ifs at hx
    cases hx
    trivial

/-- In every run, all connections accept data until they are over if and only if none is
opened while the close of an earlier one is pending. -/
theorem accepting_iff (run : List ClientRuns.Step) :
    Always ClientRuns.step Accepting ClientRuns.create run ↔
      Along ClientRuns.step CleanlyConnected ClientRuns.create run :=
  always_iff_along (J := fun _ => True) (fun _ l _ h _ => ⟨trivial,step_accepting l h⟩) trivial
    (fun h => absurd h (by decide)) (along_true _ _ _)

/-- The close of a connection that ended before its data was sent is still pending on the next
one. -/
theorem pending_close_refuses :
    ¬ ∀ run, Always ClientRuns.step Accepting ClientRuns.create run := by
  intro h
  have haccepting := h [.connect ⟨true,true,.connecting 5⟩,.send true [1],.close true,
    .event bevEventEof 0,.returned,.connect ⟨true,true,.connecting 5⟩] _ List.prefix_rfl
  exact absurd (haccepting (by decide) (by decide) []) (by decide)

/-- `ended` is as for a client. -/
structure SessionRun where
  session : TcpSession
  ended : Bool
  deriving DecidableEq, Repr

inductive SessionStep
  | send (ok : Bool) (data : List Byte)
  | close (waiting : Bool)
  | handOver (k : ℕ)
  | writeCallback
  | event (events : ℕ)
  deriving DecidableEq, Repr

def sessionStep (s : SessionRun) : SessionStep → SessionRun
  | .send ok data => { s with session.socket := (s.session.socket.send ok data).2 }
  | .close waiting =>
    ⟨{ s.session with socket := s.session.socket.close waiting },
      s.ended || s.session.socket.bev.isSome⟩
  | .handOver k => { s with session.socket := s.session.socket.handOver k }
  | .writeCallback => { s with session.socket := s.session.socket.writeCallback }
  | .event _ => ⟨s.session.handleEvent,true⟩

def sessionLife (s : SessionRun) : SocketLife.Life := ⟨s.session.socket,s.ended⟩

def sessionLifeStep : SessionStep → SocketLife.Step
  | .send ok data => .send ok data
  | .close waiting => .close waiting
  | .handOver k => .handOver k
  | .writeCallback => .writeCallback
  | .event _ => .disconnect

theorem sessionLife_step (s : SessionRun) (l : SessionStep) :
    sessionLife (sessionStep s l) = SocketLife.step (sessionLife s) (sessionLifeStep l) := by
  cases l <;> rfl

theorem attach_refusing (o : AttachOutcome) (dispatcher : DispatcherRef) (id : SessionId)
    (sock : SocketFd) :
    SocketLife.Refusing (sessionLife ⟨(TcpSession.create.attach o dispatcher id sock).2,false⟩) := by
  rw [SocketLife.refusing_flags]
  unfold TcpSession.attach
  simp only
  split_ifs
  · exact fun hbev => by cases hbev
  · exact fun hbev => by cases hbev
  · exact fun hbev => by cases hbev
  · exact fun _ _ => ⟨rfl,rfl⟩

/-- In every run of a client, and of a session, data is accepted only while writing is enabled
and no close or disconnect came before, if and only if every close waits and is never carried
out, and a disconnect is handled only while a close waits. -/
theorem refusing_iff (run : List ClientRuns.Step) (o : AttachOutcome) (dispatcher : DispatcherRef)
    (id : SessionId) (sock : SocketFd) (sessionRun : List SessionStep) :
    (Always ClientRuns.step Refusing ClientRuns.create run ↔
      Along ClientRuns.step Unfinished ClientRuns.create run) ∧
    (Always sessionStep (fun s => SocketLife.Refusing (sessionLife s))
        ⟨(TcpSession.create.attach o dispatcher id sock).2,false⟩ sessionRun ↔
      Along sessionStep (fun s l => SocketLife.Unfinished (sessionLife s) (sessionLifeStep l))
        ⟨(TcpSession.create.attach o dispatcher id sock).2,false⟩ sessionRun) := by
  constructor
  · have hcreate : Refusing ClientRuns.create := (SocketLife.refusing_flags _).mpr fun hb => by cases hb
    exact always_iff_along (J := fun _ => True) (fun _ l _ h _ => ⟨trivial,step_refusing l h⟩)
      trivial hcreate (along_true _ _ _)
  · refine always_iff_along (J := fun _ => True) (fun s l _ h _ => ⟨trivial,?_⟩) trivial
      (attach_refusing o dispatcher id sock) (along_true _ _ _)
    rw [sessionLife_step]
    exact SocketLife.step_refusing _ h

/-- After a close that does not wait the client goes on accepting, and so does a session
after its disconnect. -/
theorem closed_accepts :
    (¬ ∀ run, Always ClientRuns.step Refusing ClientRuns.create run) ∧
    ¬ ∀ run, Always sessionStep (fun s => SocketLife.Refusing (sessionLife s))
      ⟨(TcpSession.create.attach ⟨true,true,[]⟩ 0 1 5).2,false⟩ run := by
  constructor
  · intro h
    have hrefusing := h [.connect ⟨true,true,.connecting 5⟩,.close false] _ List.prefix_rfl
    exact absurd (hrefusing true [1] (by decide)).1 (by decide)
  · intro h
    have hrefusing := h [.event bevEventEof] _ List.prefix_rfl
    exact absurd (hrefusing true [1] (by decide)).1 (by decide)

end SendAcceptance
end Translib
