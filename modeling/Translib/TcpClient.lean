import Translib.DescriptorTable
import Translib.TcpSocket

/-! The client: its connections, and what it and libevent do to their descriptors. -/

namespace Translib

abbrev SocketOp := DescriptorTable.Op SocketFd

namespace TcpSocket

/-- The `shutdown` of a `close` that does not wait. -/
def closeOps (waiting : Bool) (s : TcpSocket) : List SocketOp :=
  match s.bev with
  | none => []
  | some b => if waiting && decide (0 < b.output.length) then [] else [.shut b.fd]

/-- The `shutdown` of a pending close that is carried out. -/
def checkClosingOps (s : TcpSocket) : List SocketOp :=
  if s.isClosing && decide (s.output.length = 0) then [.shut s.socket] else []

def writeCallbackOps (s : TcpSocket) : List SocketOp :=
  if s.writePending then checkClosingOps s else []

/-- `bufferevent_disable` of reading and writing. -/
def disable (s : TcpSocket) : TcpSocket := s.withBev fun b => { b with writeEnabled := false }

def descriptor (s : TcpSocket) : Option SocketFd := s.bev.map Bufferevent.fd

@[simp] theorem send_descriptor (ok : Bool) (data : List Byte) (s : TcpSocket) :
    (s.send ok data).2.descriptor = s.descriptor := by
  rw [send_eq]
  split_ifs
  · obtain ⟨bev,closing⟩ := s
    cases bev <;> rfl
  · rfl

@[simp] theorem closeImpl_descriptor (s : TcpSocket) : s.closeImpl.descriptor = s.descriptor := by
  obtain ⟨bev,closing⟩ := s
  cases bev <;> rfl

@[simp] theorem close_descriptor (waiting : Bool) (s : TcpSocket) :
    (s.close waiting).descriptor = s.descriptor := by
  cases hb : s.bev with
  | none => simp [close,hb]
  | some b =>
    rw [close_eq (by simp [hb])]
    split_ifs
    · rfl
    · exact closeImpl_descriptor s

@[simp] theorem handOver_descriptor (k : ℕ) (s : TcpSocket) :
    (s.handOver k).descriptor = s.descriptor := by
  obtain ⟨bev,closing⟩ := s
  cases bev with
  | none => rfl
  | some b =>
    simp only [handOver,withBev,descriptor,Option.map_some,Bufferevent.handOver]
    split_ifs <;> rfl

@[simp] theorem writeCallback_descriptor (s : TcpSocket) :
    s.writeCallback.descriptor = s.descriptor := by
  have hidle : (s.withBev fun b => { b with writePending := false }).descriptor = s.descriptor := by
    obtain ⟨bev,closing⟩ := s
    cases bev <;> rfl
  rw [writeCallback_eq]
  split_ifs
  · rw [closeImpl_descriptor,hidle]
  · exact hidle
  · rfl

@[simp] theorem clearInputBuffer_descriptor (s : TcpSocket) :
    s.clearInputBuffer.descriptor = s.descriptor := by
  obtain ⟨bev,closing⟩ := s
  cases bev <;> rfl

@[simp] theorem disable_descriptor (s : TcpSocket) : s.disable.descriptor = s.descriptor := by
  obtain ⟨bev,closing⟩ := s
  cases bev <;> rfl

theorem closeOps_cases (waiting : Bool) (s : TcpSocket) :
    s.closeOps waiting = [] ∨ ∃ fd, s.descriptor = some fd ∧ s.closeOps waiting = [.shut fd] := by
  obtain ⟨bev,closing⟩ := s
  cases bev with
  | none => exact .inl rfl
  | some b =>
    simp only [closeOps]
    split_ifs
    · exact .inl rfl
    · exact .inr ⟨b.fd,rfl,rfl⟩

theorem writeCallbackOps_cases (s : TcpSocket) :
    s.writeCallbackOps = [] ∨ ∃ fd, s.descriptor = some fd ∧ s.writeCallbackOps = [.shut fd] := by
  obtain ⟨bev,closing⟩ := s
  cases bev with
  | none => exact .inl rfl
  | some b =>
    simp only [writeCallbackOps,checkClosingOps]
    split_ifs
    · exact .inr ⟨b.fd,rfl,rfl⟩
    · exact .inl rfl
    · exact .inl rfl

end TcpSocket

def bevEventEof : ℕ := 0x10
def bevEventError : ℕ := 0x20
def bevEventTimeout : ℕ := 0x40
def bevEventConnected : ℕ := 0x80

def econnrefused : ℤ := 111
def etimedout : ℤ := 110

/-- What `bufferevent_socket_connect` does: it fails, before or after it has given the
bufferevent a descriptor, or succeeds. -/
inductive SocketConnect
  | failed
  | failedOpen (fd : SocketFd)
  | connecting (fd : SocketFd)
  deriving DecidableEq, Repr

structure ConnectOutcome where
  socketNew : Bool
  enable : Bool
  socketConnect : SocketConnect
  deriving DecidableEq, Repr

inductive ClientCallback
  | onDisconnected
  | onConnected (error : ℤ)
  deriving DecidableEq, Repr

structure TcpClient where
  socket : TcpSocket
  isConnected : Bool
  deriving DecidableEq, Repr

namespace TcpClient

def create : TcpClient := ⟨⟨none,false⟩,false⟩

/-- A bufferevent that is freed closes its descriptor, if it has one. `_isClosing` is left
as it is. -/
def connect (o : ConnectOutcome) (c : TcpClient) : Bool × TcpClient × List SocketOp :=
  match c.socket.bev with
  | some _ => (false,c,[])
  | none =>
    if !o.socketNew then (false,{ c with socket.bev := none },[])
    else if !o.enable then (false,{ c with socket.bev := none },[])
    else
      match o.socketConnect with
      | .failed => (false,{ c with socket.bev := none },[])
      | .failedOpen fd => (false,{ c with socket.bev := none },[.opened fd,.closed fd])
      | .connecting fd => (true,{ c with socket.bev := some (.socketNew fd) },[.opened fd])

def Disconnects (events : ℕ) : Prop := events &&& (bevEventEof ||| bevEventError ||| bevEventTimeout) ≠ 0

instance (events : ℕ) : Decidable (Disconnects events) := inferInstanceAs (Decidable (_ ≠ _))

/-- `handleEvent` up to the callback it calls. -/
def handleEvent (events : ℕ) (socketError : ℤ) (c : TcpClient) :
    Option ClientCallback × TcpClient × List SocketOp :=
  if Disconnects events then
    (some .onDisconnected,{ socket := c.socket.disable, isConnected := false },
      [.closed c.socket.socket])
  else if events &&& bevEventConnected ≠ 0 then
    if socketError ≠ econnrefused ∧ socketError ≠ etimedout then
      (some (.onConnected 0),{ c with isConnected := true },[])
    else (some (.onConnected socketError),c,[])
  else (none,c,[])

/-- `bufferevent_free` with `BEV_OPT_CLOSE_ON_FREE`, and `_bev = NULL`. -/
def freeBev (c : TcpClient) : TcpClient × List SocketOp :=
  match c.socket.bev with
  | none => (c,[])
  | some b => ({ c with socket.bev := none },[.closed b.fd])

/-- `handleEvent` after the callback. -/
def handleEventReturned (callback : ClientCallback) (c : TcpClient) : TcpClient × List SocketOp :=
  match callback with
  | .onDisconnected => freeBev c
  | .onConnected _ => (c,[])

theorem connect_eq (o : ConnectOutcome) (c : TcpClient) :
    (∃ fd, c.socket.bev = none ∧ connect o c =
      (true,{ c with socket.bev := some (.socketNew fd) },[.opened fd])) ∨
    (connect o c).1 = false ∧ (connect o c).2.1 = c ∧
      ((connect o c).2.2 = [] ∨ ∃ fd, c.socket.bev = none ∧ (connect o c).2.2 = [.opened fd,.closed fd]) := by
  obtain ⟨⟨bev,isClosing⟩,isConnected⟩ := c
  obtain ⟨socketNew,enable,socketConnect⟩ := o
  cases bev with
  | some b => exact .inr ⟨rfl,rfl,.inl rfl⟩
  | none =>
    cases socketNew with
    | false => exact .inr ⟨rfl,rfl,.inl rfl⟩
    | true =>
      cases enable with
      | false => exact .inr ⟨rfl,rfl,.inl rfl⟩
      | true =>
        cases socketConnect with
        | failed => exact .inr ⟨rfl,rfl,.inl rfl⟩
        | failedOpen fd => exact .inr ⟨rfl,rfl,.inr ⟨fd,rfl,rfl⟩⟩
        | connecting fd => exact .inl ⟨fd,rfl,rfl⟩

end TcpClient
end Translib
