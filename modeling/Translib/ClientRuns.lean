import Translib.TcpClient
import Translib.TransitionMachine

/-! A client in any interleaving of the calls of its user, also from within its callbacks,
with the events of its loop thread. -/

namespace Translib
namespace ClientRuns

open TransitionMachine

/-- What is seen of the connections. `connected` is a connect that returned true. -/
inductive Mark
  | connected
  | onConnected (error : ℤ)
  | onDisconnected
  deriving DecidableEq, Repr

/-- Who uses descriptors: the client with its bufferevent, and the rest of the program. -/
inductive Owner
  | client | other
  deriving DecidableEq, Repr

/-- `callback` is the callback of the user that `handleEvent` is in. `ended` says that the
current connection was closed by a call, or its disconnect handled. -/
structure System where
  client : TcpClient
  callback : Option ClientCallback
  ended : Bool
  destroyed : Bool
  marks : List Mark
  ops : List (Owner × SocketOp)
  deriving DecidableEq, Repr

/-- `returned` is the end of the callback the loop thread is in. -/
inductive Step
  | connect (o : ConnectOutcome)
  | send (ok : Bool) (data : List Byte)
  | close (waiting : Bool)
  | handOver (k : ℕ)
  | writeCallback
  | event (events : ℕ) (socketError : ℤ)
  | returned
  | destroy
  | openOther (fd : SocketFd)
  | closeOther (fd : SocketFd)
  deriving DecidableEq, Repr

def create : System := ⟨.create,none,false,false,[],[]⟩

def markOf : ClientCallback → Mark
  | .onDisconnected => .onDisconnected
  | .onConnected error => .onConnected error

def record (ops : List SocketOp) (s : System) : System :=
  { s with ops := s.ops ++ ops.map fun op => (Owner.client,op) }

/-- A step of a client that is not destroyed. Libevent delivers nothing while the loop thread
is in a callback, and nothing without a bufferevent. -/
def clientStep (s : System) : Step → System
  | .connect o =>
    let r := s.client.connect o
    record r.2.2 { s with
      client := r.2.1
      ended := if r.1 then false else s.ended
      marks := if r.1 then s.marks ++ [.connected] else s.marks }
  | .send ok data => { s with client.socket := (s.client.socket.send ok data).2 }
  | .close waiting =>
    record (s.client.socket.closeOps waiting) { s with
      client.socket := s.client.socket.close waiting
      ended := s.ended || s.client.socket.bev.isSome }
  | .handOver k =>
    if s.callback.isSome then s else { s with client.socket := s.client.socket.handOver k }
  | .writeCallback =>
    if s.callback.isSome then s
    else
      record s.client.socket.writeCallbackOps { s with
        client.socket := s.client.socket.writeCallback }
  | .event events socketError =>
    if s.callback.isSome || s.client.socket.bev.isNone then s
    else
      let r := s.client.handleEvent events socketError
      record r.2.2 { s with
        client := r.2.1
        callback := r.1
        ended := s.ended || decide (TcpClient.Disconnects events)
        marks := s.marks ++ r.1.toList.map markOf }
  | .returned =>
    match s.callback with
    | none => s
    | some callback =>
      let r := s.client.handleEventReturned callback
      record r.2 { s with client := r.1, callback := none }
  | .destroy =>
    if s.callback = some .onDisconnected then s
    else
      let r := s.client.freeBev
      record r.2 { s with client := r.1, destroyed := true }
  | .openOther _ => s
  | .closeOther _ => s

def step (s : System) : Step → System
  | .openOther fd => { s with ops := s.ops ++ [(.other,.opened fd)] }
  | .closeOther fd => { s with ops := s.ops ++ [(.other,.closed fd)] }
  | l => if s.destroyed then s else clientStep s l

theorem step_alive {s : System} (hd : s.destroyed = false) {l : Step}
    (hl : ∀ fd, l ≠ .openOther fd ∧ l ≠ .closeOther fd) : step s l = clientStep s l := by
  cases l with
  | openOther fd => exact absurd rfl (hl fd).1
  | closeOther fd => exact absurd rfl (hl fd).2
  | _ => exact if_neg (by simp [hd])

theorem step_cases (s : System) (l : Step) :
    (∃ op, step s l = { s with ops := s.ops ++ [(.other,op)] }) ∨ step s l = s ∨
      s.destroyed = false ∧ step s l = clientStep s l := by
  cases l with
  | openOther fd => exact .inl ⟨.opened fd,rfl⟩
  | closeOther fd => exact .inl ⟨.closed fd,rfl⟩
  | _ =>
    right
    cases hd : s.destroyed
    · exact .inr ⟨rfl,step_alive hd (by simp)⟩
    · exact .inl (if_pos hd)

end ClientRuns
end Translib
