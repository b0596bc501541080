import Mathlib.Tactic

/-! The socket base class over libevent's buffers. The evbuffer calls are lists
with the documented results; `Bufferevent` also records what the socket below it
has been handed, so that accepted and transmitted bytes can be compared.

Bytes are `UInt8`; every other machine integer is a natural number or an integer, reduced where the
code's type wraps. -/

namespace Translib

abbrev Byte := UInt8

/-- Conversion to `uint32_t`. -/
abbrev uint32 (n : ℕ) : ℕ := n % 2^32

abbrev SocketFd := ℤ
def socketFdInvalid : SocketFd := -1

namespace Evbuffer

/-- `evbuffer_pullup`: NULL exactly when fewer than `size` bytes are buffered. -/
def pullup (size : ℕ) (b : List Byte) : Option (List Byte) :=
  if size ≤ b.length then some (b.take size) else none

/-- `evbuffer_remove`: the result of the call, the bytes copied out, what is left. -/
def remove (size : ℕ) (b : List Byte) : ℤ × List Byte × List Byte :=
  (min size b.length,b.take size,b.drop size)

def drain (len : ℕ) (b : List Byte) : List Byte := b.drop len

end Evbuffer

/-- `fd` is the descriptor below it, `sent` are the bytes already handed to the socket,
`writePending` says that a deferred write callback is scheduled, `isShut` that the
socket was shut down. -/
structure Bufferevent where
  fd : SocketFd
  input : List Byte
  output : List Byte
  sent : List Byte
  writeEnabled : Bool
  writePending : Bool
  isShut : Bool
  deriving DecidableEq, Repr

namespace Bufferevent

def socketNew (fd : SocketFd) : Bufferevent := ⟨fd,[],[],[],true,false,false⟩

def fresh (input : List Byte) : Bufferevent := { socketNew 0 with input := input }

/-- Every byte ever added to the output buffer. -/
def written (b : Bufferevent) : List Byte := b.sent ++ b.output

/-- `bufferevent_write`, whose success is up to the environment. -/
def write (ok : Bool) (data : List Byte) (b : Bufferevent) : ℤ × Bufferevent :=
  if ok then (0,{ b with output := b.output ++ data }) else (-1,b)

/-- Libevent hands up to `k` leading output bytes to the socket. A write that
empties the buffer schedules the write callback. -/
def handOver (k : ℕ) (b : Bufferevent) : Bufferevent :=
  if b.writeEnabled then
    { b with
      output := b.output.drop k
      sent := b.sent ++ b.output.take k
      writePending := b.writePending || (!b.output.isEmpty && (b.output.drop k).isEmpty) }
  else b

end Bufferevent

structure TcpSocket where
  bev : Option Bufferevent
  isClosing : Bool
  deriving DecidableEq, Repr

namespace TcpSocket

def withBev (f : Bufferevent → Bufferevent) (s : TcpSocket) : TcpSocket :=
  { s with bev := s.bev.map f }

def socket (s : TcpSocket) : SocketFd := (s.bev.map Bufferevent.fd).getD socketFdInvalid

def input (s : TcpSocket) : List Byte := (s.bev.map Bufferevent.input).getD []
def output (s : TcpSocket) : List Byte := (s.bev.map Bufferevent.output).getD []
def sent (s : TcpSocket) : List Byte := (s.bev.map Bufferevent.sent).getD []
def written (s : TcpSocket) : List Byte := (s.bev.map Bufferevent.written).getD []
def writePending (s : TcpSocket) : Bool := (s.bev.map Bufferevent.writePending).getD false
def writeEnabled (s : TcpSocket) : Bool := (s.bev.map Bufferevent.writeEnabled).getD false
def isShut (s : TcpSocket) : Bool := (s.bev.map Bufferevent.isShut).getD false

def send (ok : Bool) (data : List Byte) (s : TcpSocket) : Bool × TcpSocket :=
  match s.bev with
  | none => (false,s)
  | some b =>
    if s.isClosing then (false,s)
    else
      let r := b.write ok data
      (decide (-1 ≠ r.1),{ s with bev := some r.2 })

def clearInputBuffer (s : TcpSocket) : TcpSocket :=
  s.withBev fun b => { b with input := Evbuffer.drain (2^32-1) b.input }

def closeImpl (s : TcpSocket) : TcpSocket :=
  (clearInputBuffer { s with isClosing := false }).withBev fun b =>
    { b with writeEnabled := false, isShut := true }

def close (waiting : Bool) (s : TcpSocket) : TcpSocket :=
  match s.bev with
  | none => s
  | some b =>
    if waiting && decide (0 < b.output.length) then { s with isClosing := true }
    else closeImpl s

def checkClosing (s : TcpSocket) : TcpSocket :=
  if s.isClosing && decide (s.output.length = 0) then closeImpl { s with isClosing := false }
  else s

def getInputBufferLength (s : TcpSocket) : ℕ := uint32 s.input.length

def viewInputBuffer (size : ℕ) (s : TcpSocket) : Option (List Byte) :=
  s.bev.bind fun b => Evbuffer.pullup size b.input

/-- The result of the call, the bytes written to `dest`, the socket after it. -/
def readInputBuffer (size : ℕ) (s : TcpSocket) : Bool × List Byte × TcpSocket :=
  match s.bev with
  | none => (false,[],s)
  | some b =>
    let r := Evbuffer.remove size b.input
    (decide (-1 ≠ r.1),r.2.1,{ s with bev := some { b with input := r.2.2 } })

def writeCallback (s : TcpSocket) : TcpSocket :=
  if s.writePending then checkClosing (s.withBev fun b => { b with writePending := false }) else s

def handOver (k : ℕ) (s : TcpSocket) : TcpSocket := s.withBev (Bufferevent.handOver k)

def arrive (chunk : List Byte) (s : TcpSocket) : TcpSocket :=
  s.withBev fun b => { b with input := b.input ++ chunk }

def setInput (bytes : List Byte) (s : TcpSocket) : TcpSocket :=
  s.withBev fun b => { b with input := bytes }

theorem isSome_of_input_ne {s : TcpSocket} (h : s.input ≠ []) : s.bev.isSome := by
  cases hb : s.bev with
  | none => simp [input,hb] at h
  | some b => rfl

@[simp] theorem setInput_input {s : TcpSocket} (h : s.bev.isSome) (bytes : List Byte) :
    (s.setInput bytes).input = bytes := by
  obtain ⟨b,hb⟩ := Option.isSome_iff_exists.mp h
  simp [setInput,withBev,input,hb]

@[simp] theorem setInput_isSome (s : TcpSocket) (bytes : List Byte) :
    (s.setInput bytes).bev.isSome = s.bev.isSome := by
  simp [setInput,withBev]

@[simp] theorem setInput_setInput (s : TcpSocket) (xs ys : List Byte) :
    (s.setInput xs).setInput ys = s.setInput ys := by
  cases hb : s.bev <;> simp [setInput,withBev,hb]

@[simp] theorem setInput_self (s : TcpSocket) : s.setInput s.input = s := by
  obtain ⟨bev,c⟩ := s
  cases bev <;> rfl

theorem viewInputBuffer_eq (s : TcpSocket) {size : ℕ} (hsize : 0 < size) :
    s.viewInputBuffer size = Evbuffer.pullup size s.input := by
  cases hb : s.bev with
  | none => simp [viewInputBuffer,input,hb,Evbuffer.pullup]; omega
  | some b => simp [viewInputBuffer,input,hb]

/-- A read takes the leading bytes, and reports success however few there were. -/
theorem readInputBuffer_eq {s : TcpSocket} (h : s.bev.isSome) (size : ℕ) :
    s.readInputBuffer size = (true,s.input.take size,s.setInput (s.input.drop size)) := by
  obtain ⟨b,hb⟩ := Option.isSome_iff_exists.mp h
  have hres : (-1 : ℤ) ≠ min (size : ℤ) b.input.length := by omega
  simp [readInputBuffer,setInput,withBev,input,hb,Evbuffer.remove,hres]

theorem arrive_eq (s : TcpSocket) (chunk : List Byte) :
    s.arrive chunk = s.setInput (s.input ++ chunk) := by
  cases hb : s.bev <;> simp [arrive,setInput,withBev,input,hb]

def Accepts (ok : Bool) (s : TcpSocket) : Prop := s.bev.isSome ∧ s.isClosing = false ∧ ok = true

instance (ok : Bool) (s : TcpSocket) : Decidable (s.Accepts ok) :=
  inferInstanceAs (Decidable (_ ∧ _ ∧ _))

def append (data : List Byte) (s : TcpSocket) : TcpSocket :=
  s.withBev fun b => { b with output := b.output ++ data }

/-- A send either appends its bytes and returns true, or changes nothing. -/
theorem send_eq (ok : Bool) (data : List Byte) (s : TcpSocket) :
    s.send ok data = if s.Accepts ok then (true,s.append data) else (false,s) := by
  obtain ⟨bev,closing⟩ := s
  cases bev with
  | none => simp [send,Accepts]
  | some b =>
    cases closing <;> cases ok <;>
      simp [send,Accepts,Bufferevent.write,append,withBev]

theorem append_written {s : TcpSocket} (h : s.bev.isSome) (data : List Byte) :
    (s.append data).written = s.written ++ data := by
  obtain ⟨b,hb⟩ := Option.isSome_iff_exists.mp h
  simp [append,withBev,written,hb,Bufferevent.written]

theorem written_eq (s : TcpSocket) : s.written = s.sent ++ s.output := by
  obtain ⟨bev,closing⟩ := s
  cases bev <;> rfl

theorem send_written {ok : Bool} {data : List Byte} {s : TcpSocket}
    (h : (s.send ok data).1 = true) : (s.send ok data).2.written = s.written ++ data := by
  rw [send_eq] at h ⊢
  by_cases ha : s.Accepts ok
  · rw [if_pos ha]
    exact append_written ha.1 data
  · simp [ha] at h

theorem withBev_written {f : Bufferevent → Bufferevent} (hf : ∀ b, (f b).written = b.written)
    (s : TcpSocket) : (s.withBev f).written = s.written := by
  cases hb : s.bev <;> simp [withBev,written,hb,hf]

@[simp] theorem closeImpl_isClosing (s : TcpSocket) : s.closeImpl.isClosing = false := rfl

@[simp] theorem closeImpl_isSome (s : TcpSocket) : s.closeImpl.bev.isSome = s.bev.isSome := by
  simp [closeImpl,clearInputBuffer,withBev]

@[simp] theorem closeImpl_output (s : TcpSocket) : s.closeImpl.output = s.output := by
  obtain ⟨bev,closing⟩ := s
  cases bev <;> rfl

@[simp] theorem closeImpl_isShut (s : TcpSocket) : s.closeImpl.isShut = s.bev.isSome := by
  obtain ⟨bev,closing⟩ := s
  cases bev <;> rfl

theorem closeImpl_written (s : TcpSocket) : s.closeImpl.written = s.written := by
  obtain ⟨bev,closing⟩ := s
  cases bev <;> rfl

theorem close_written (waiting : Bool) (s : TcpSocket) : (s.close waiting).written = s.written := by
  obtain ⟨bev,closing⟩ := s
  cases bev with
  | none => rfl
  | some b =>
    simp only [close]
    split_ifs
    · rfl
    · exact closeImpl_written _

theorem handOver_written (k : ℕ) (s : TcpSocket) : (s.handOver k).written = s.written := by
  refine withBev_written (fun b => ?_) s
  unfold Bufferevent.handOver Bufferevent.written
  split_ifs
  · simp [List.append_assoc]
  · rfl

theorem checkClosing_written (s : TcpSocket) : s.checkClosing.written = s.written := by
  unfold checkClosing
  split_ifs
  · exact closeImpl_written _
  · rfl

theorem writeCallback_written (s : TcpSocket) : s.writeCallback.written = s.written := by
  unfold writeCallback
  split_ifs
  · rw [checkClosing_written]
    obtain ⟨bev,closing⟩ := s
    cases bev <;> rfl
  · rfl

@[simp] theorem closeImpl_writeEnabled (s : TcpSocket) : s.closeImpl.writeEnabled = false := by
  obtain ⟨bev,closing⟩ := s
  cases bev <;> rfl

theorem send_flags (ok : Bool) (data : List Byte) (s : TcpSocket) :
    (s.send ok data).2.bev.isSome = s.bev.isSome ∧ (s.send ok data).2.isClosing = s.isClosing ∧
      (s.send ok data).2.writeEnabled = s.writeEnabled := by
  rw [send_eq]
  split_ifs
  · obtain ⟨bev,closing⟩ := s
    cases bev <;> exact ⟨rfl,rfl,rfl⟩
  · exact ⟨rfl,rfl,rfl⟩

theorem handOver_flags (k : ℕ) (s : TcpSocket) :
    (s.handOver k).bev.isSome = s.bev.isSome ∧ (s.handOver k).isClosing = s.isClosing ∧
      (s.handOver k).writeEnabled = s.writeEnabled := by
  obtain ⟨bev,closing⟩ := s
  cases bev with
  | none => exact ⟨rfl,rfl,rfl⟩
  | some b =>
    have hkeep : (b.handOver k).writeEnabled = b.writeEnabled := by
      unfold Bufferevent.handOver
      split_ifs <;> rfl
    exact ⟨rfl,rfl,hkeep⟩

/-- A close waits when it has something to wait for, and is carried out otherwise. -/
theorem close_eq {s : TcpSocket} (h : s.bev.isSome) (waiting : Bool) :
    s.close waiting =
      if waiting = true ∧ s.output ≠ [] then { s with isClosing := true } else s.closeImpl := by
  obtain ⟨bev,closing⟩ := s
  obtain ⟨b,hb⟩ := Option.isSome_iff_exists.mp h
  simp only at hb
  subst hb
  have hout : (TcpSocket.mk (some b) closing).output = b.output := rfl
  simp only [close,hout,Bool.and_eq_true,decide_eq_true_eq,List.length_pos_iff]

theorem writeCallback_eq (s : TcpSocket) :
    s.writeCallback =
      if s.writePending = true then
        if s.isClosing = true ∧ s.output = [] then
          (s.withBev fun b => { b with writePending := false }).closeImpl
        else s.withBev fun b => { b with writePending := false }
      else s := by
  have hout : (s.withBev fun b => { b with writePending := false }).output = s.output := by
    obtain ⟨bev,closing⟩ := s
    cases bev <;> rfl
  simp only [writeCallback,checkClosing,hout,Bool.and_eq_true,decide_eq_true_eq,
    List.length_eq_zero_iff]
  rfl

theorem writeCallback_flags {s : TcpSocket}
    (h : ¬ (s.writePending = true ∧ s.isClosing = true ∧ s.output = [])) :
    s.writeCallback.bev.isSome = s.bev.isSome ∧ s.writeCallback.isClosing = s.isClosing ∧
      s.writeCallback.writeEnabled = s.writeEnabled := by
  rw [writeCallback_eq]
  by_cases hpending : s.writePending = true
  · have hnot : ¬ (s.isClosing = true ∧ s.output = []) := fun hc => h ⟨hpending,hc⟩
    rw [if_pos hpending,if_neg hnot]
    obtain ⟨bev,closing⟩ := s
    cases bev <;> exact ⟨rfl,rfl,rfl⟩
  · rw [if_neg hpending]
    exact ⟨rfl,rfl,rfl⟩

end TcpSocket
end Translib
