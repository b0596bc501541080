import Mathlib.Logic.Function.Basic
import Translib.LoopMachine
import Translib.TcpSocket

/-! Sessions and their dispatcher: the queue of actions other threads leave, and the
frame in which the loop thread works it off. -/

namespace Translib

abbrev SessionId := ℕ

abbrev DispatcherRef := ℕ

/-- An action adds the session of a socket, or removes a session when there is none. -/
structure SessionAction where
  id : SessionId
  sock : SocketFd
  deriving DecidableEq, Repr

structure TcpSession where
  socket : TcpSocket
  dispatcher : Option DispatcherRef
  id : SessionId
  deriving DecidableEq, Repr

/-- What an attach depends on: the two calls of libevent, and the actions `onNewSession`
leaves on the dispatcher of the session. -/
structure AttachOutcome where
  socketNew : Bool
  enable : Bool
  onNewSession : List SessionAction
  deriving DecidableEq, Repr

namespace TcpSession

def create : TcpSession := ⟨⟨none,false⟩,none,0⟩

def attach (o : AttachOutcome) (dispatcher : DispatcherRef) (id : SessionId) (sock : SocketFd)
    (session : TcpSession) : Bool × TcpSession :=
  let session := { session with id := id, dispatcher := some dispatcher }
  if sock = socketFdInvalid then (false,session)
  else if !o.socketNew then (false,{ session with socket.bev := none })
  else if !o.enable then (false,{ session with socket.bev := none })
  else (true,{ session with socket.bev := some (.socketNew sock) })

/-- The bufferevent is disabled, and the session asks its dispatcher to remove it. -/
def handleEvent (session : TcpSession) : TcpSession :=
  { session with socket := session.socket.withBev fun b => { b with writeEnabled := false } }

theorem attach_id (o : AttachOutcome) (dispatcher : DispatcherRef) (id : SessionId)
    (sock : SocketFd) (session : TcpSession) :
    (session.attach o dispatcher id sock).2.id = id ∧
      (session.attach o dispatcher id sock).2.dispatcher = some dispatcher := by
  unfold attach
  simp only
  split_ifs <;> exact ⟨rfl,rfl⟩

theorem attach_socket {o : AttachOutcome} {dispatcher : DispatcherRef} {id : SessionId}
    {sock : SocketFd} {session : TcpSession} (h : (session.attach o dispatcher id sock).1 = true) :
    (session.attach o dispatcher id sock).2.socket.socket = sock := by
  unfold attach at h ⊢
  simp only at h ⊢
  split_ifs at h ⊢
  rfl

theorem handleEvent_socket (session : TcpSession) :
    session.handleEvent.socket.socket = session.socket.socket := by
  obtain ⟨⟨bev,closing⟩,dispatcher,id⟩ := session
  cases bev <;> rfl

end TcpSession

structure TcpServerDispatcher where
  sessions : SessionId → Option TcpSession
  actions : List SessionAction

namespace TcpServerDispatcher

def create : TcpServerDispatcher := ⟨fun _ => none,[]⟩

def getSession (id : SessionId) (d : TcpServerDispatcher) : Option TcpSession := d.sessions id

def addSession (id : SessionId) (sock : SocketFd) (d : TcpServerDispatcher) : TcpServerDispatcher :=
  { d with actions := d.actions ++ [⟨id,sock⟩] }

def removeSession (id : SessionId) (d : TcpServerDispatcher) : TcpServerDispatcher :=
  { d with actions := d.actions ++ [⟨id,socketFdInvalid⟩] }

/-- One pass of the loop of `onFrame` over the action at the front, which is popped
only after it is done. `this` is the dispatcher itself. -/
def frontAction (this : DispatcherRef) (o : AttachOutcome) (action : SessionAction)
    (d : TcpServerDispatcher) : TcpServerDispatcher :=
  if action.sock ≠ socketFdInvalid then
    let session := TcpSession.create.attach o this action.id action.sock
    if session.1 then
      { sessions := Function.update d.sessions session.2.id (some session.2)
        actions := (d.actions ++ o.onNewSession).tail }
    else { d with actions := d.actions.tail }
  else
    { sessions := Function.update d.sessions action.id none
      actions := d.actions.tail }

theorem frontAction_actions {this : DispatcherRef} {o : AttachOutcome} (ho : o.onNewSession = [])
    (action : SessionAction) (d : TcpServerDispatcher) :
    (d.frontAction this o action).actions = d.actions.tail := by
  unfold frontAction
  simp only [ho,List.append_nil]
  split_ifs <;> rfl

/-- The loop of `onFrame`; `outcomes k` is what the attach of pass `k` depends on. -/
def onFrameBody (this : DispatcherRef) (outcomes : ℕ → AttachOutcome) :
    LoopMachine.Body (TcpServerDispatcher × ℕ) TcpServerDispatcher := fun (d,k) =>
  match d.actions with
  | [] => .inr d
  | action::_ => .inl (d.frontAction this (outcomes k) action,k+1)

def OnFrame (this : DispatcherRef) (outcomes : ℕ → AttachOutcome) (d d' : TcpServerDispatcher) :
    Prop :=
  LoopMachine.Returns (onFrameBody this outcomes) (d,0) d'

/-- A frame ends: every pass takes one action away, if the callbacks leave none. -/
theorem onFrame_returns (this : DispatcherRef) {outcomes : ℕ → AttachOutcome}
    (h : ∀ k, (outcomes k).onNewSession = []) (d : TcpServerDispatcher) :
    ∃ d', OnFrame this outcomes d d' := by
  refine LoopMachine.returns_of_measure (onFrameBody this outcomes) (fun _ => True)
    (fun d => d.1.actions.length) (fun d d' _ hb => ⟨trivial,?_⟩) trivial
  obtain ⟨d,k⟩ := d
  cases hd : d.actions with
  | nil => simp [onFrameBody,hd] at hb
  | cons action rest =>
    simp only [onFrameBody,hd,Sum.inl.injEq] at hb
    subst hb
    simp only [frontAction_actions (h k),hd]
    simp

end TcpServerDispatcher
end Translib
