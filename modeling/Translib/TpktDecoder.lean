import Translib.LoopMachine
import Translib.TcpSocket
import Translib.TpktFormat

/-! What both decoding loops share: the packet length they compute from a header,
and the record of one pass. -/

namespace Translib
namespace TpktDecoder

open TpktFormat

inductive Exit
  | broke | returned | nullRead
  deriving DecidableEq, Repr

/-- What `onRead` is given: `len`, and as many of the `len` bytes at `msg` as lie in
the frame buffer. A byte that was never written is `none`. -/
structure Message where
  len : ℕ
  bytes : List (Option Byte)
  deriving DecidableEq, Repr

def Message.ofPayload (payload : List Byte) : Message := ⟨payload.length,payload.map some⟩

/-- One pass that goes round again: the bytes removed because the magic number was
lost, the bytes removed into the frame buffer, the size of that buffer, and the length
passed to `onRead` when it is called. -/
structure Pass where
  resync : List Byte
  removed : List Byte
  allocated : ℕ
  onRead : Option ℕ
  deriving DecidableEq, Repr

namespace Pass

def frameBuffer (p : Pass) : List (Option Byte) :=
  (p.removed.map some ++ List.replicate (p.allocated-p.removed.length) none).take p.allocated

def message (p : Pass) : Option Message :=
  p.onRead.map fun len => ⟨len,(p.frameBuffer.drop tpkt1Length).take len⟩

end Pass

def messages (ps : List Pass) : List Message := ps.filterMap Pass.message

def lengths (ps : List Pass) : List ℕ := ps.filterMap Pass.onRead

structure Decoding where
  socket : TcpSocket
  passes : List Pass
  deriving DecidableEq, Repr

abbrev Loop := LoopMachine.Body Decoding (Exit × Decoding)

/-- `packet_length`, read through the pointer to the four header bytes. -/
def packetLength (buf : List Byte) : ℕ :=
  (((buf.getD 1 0).toNat &&& 0xff) <<< 16 ||| ((buf.getD 2 0).toNat &&& 0xff) <<< 8) |||
    ((buf.getD 3 0).toNat &&& 0xff)

theorem packetLength_eq (buf : List Byte) : packetLength buf = announced buf := by
  have hbyte (x : Byte) : x.toNat &&& 0xff = x.toNat := by
    have hx := x.toNat_lt
    rw [show (0xff : ℕ) = 2^8-1 from rfl,Nat.and_two_pow_sub_one_eq_mod]
    omega
  have h2 := (buf.getD 2 0).toNat_lt
  have h3 := (buf.getD 3 0).toNat_lt
  unfold packetLength announced
  rw [hbyte,hbyte,hbyte]
  generalize (buf.getD 1 0).toNat = x
  generalize (buf.getD 2 0).toNat = y at h2
  generalize (buf.getD 3 0).toNat = z at h3
  have hhigh : x <<< 16 ||| y <<< 8 = (x*2^8+y) <<< 8 := by
    rw [← Nat.shiftLeft_add_eq_or_of_lt (by rw [Nat.shiftLeft_eq]; omega)]
    simp only [Nat.shiftLeft_eq]
    ring
  rw [hhigh,← Nat.shiftLeft_add_eq_or_of_lt (by omega),Nat.shiftLeft_eq]
  ring

/-- The branch taken when the magic number is lost: `tmp_buf` and the socket after it. -/
def readLost (buf : List Byte) (s : TcpSocket) : List Byte × TcpSocket :=
  if buf.getD 0 0 ≠ tpktVersion1LowByte then (s.readInputBuffer 1).2 else ([],s)

theorem readLost_eq {s : TcpSocket} (h : s.bev.isSome) :
    readLost (s.input.take 4) s =
      (if HasMagic s.input then [] else s.input.take 1,s.setInput (fromPacket s.input)) := by
  have hmagic : (s.input.take 4).getD 0 0 = tpktVersion1LowByte ↔ HasMagic s.input :=
    hasMagic_take s.input
  unfold readLost fromPacket
  by_cases hm : HasMagic s.input
  · rw [if_neg (not_not.mpr (hmagic.mpr hm))]
    simp [hm]
  · rw [if_pos (mt hmagic.mp hm),s.readInputBuffer_eq h]
    simp [hm]

theorem viewHeader_short {s : TcpSocket} (h : s.input.length < 4) :
    s.viewInputBuffer tpkt1Length = none := by
  rw [s.viewInputBuffer_eq (by decide),Evbuffer.pullup,tpkt1Length,if_neg (by omega)]

theorem viewHeader_full {s : TcpSocket} (h : 4 ≤ s.input.length) :
    s.viewInputBuffer tpkt1Length = some (s.input.take 4) := by
  rw [s.viewInputBuffer_eq (by decide),Evbuffer.pullup,tpkt1Length,if_pos h]

/-- What a complete pass over the buffered bytes `b` does, with a frame buffer of
`alloc` bytes for the announced length. -/
def passOf (alloc : ℕ → ℕ) (b : List Byte) : Pass where
  resync := if HasMagic b then [] else b.take 1
  removed := (fromPacket b).take (announced b)
  allocated := alloc (announced b)
  onRead := some (sub32 (announced b) tpkt1Length)

/-- One pass of a decoding loop in terms of the buffered bytes. The two decoders
differ in what they do with a header of less than four bytes, and in `alloc`. -/
def pass (short : Exit) (alloc : ℕ → ℕ) : Loop := fun d =>
  let b := d.socket.input
  if uint32 b.length < 1 then .inr (.broke,d)
  else if b.length < 4 then .inr (short,d)
  else if Complete b then
    .inl ⟨d.socket.setInput (next b),d.passes ++ [passOf alloc b]⟩
  else .inr (.broke,⟨d.socket.setInput (fromPacket b),d.passes⟩)

/-- A loop body that goes through the cases of both decoders, with its own `short` and
`alloc`, makes these passes. -/
theorem eq_pass {body : Loop} {short : Exit} {alloc : ℕ → ℕ}
    (hempty : ∀ d : Decoding, d.socket.getInputBufferLength < 1 → body d = .inr (.broke,d))
    (hshort : ∀ d : Decoding, ¬ d.socket.getInputBufferLength < 1 →
      d.socket.viewInputBuffer tpkt1Length = none → body d = .inr (short,d))
    (hpart : ∀ (d : Decoding) buf, ¬ d.socket.getInputBufferLength < 1 →
      d.socket.viewInputBuffer tpkt1Length = some buf →
      packetLength buf > d.socket.getInputBufferLength →
      body d = .inr (.broke,{ d with socket := (readLost buf d.socket).2 }))
    (hwhole : ∀ (d : Decoding) buf, ¬ d.socket.getInputBufferLength < 1 →
      d.socket.viewInputBuffer tpkt1Length = some buf →
      ¬ packetLength buf > d.socket.getInputBufferLength →
      ((readLost buf d.socket).2.readInputBuffer (packetLength buf)).1 = true →
      body d = .inl ⟨((readLost buf d.socket).2.readInputBuffer (packetLength buf)).2.2,d.passes ++ [{
        resync := (readLost buf d.socket).1
        removed := ((readLost buf d.socket).2.readInputBuffer (packetLength buf)).2.1
        allocated := alloc (packetLength buf)
        onRead := some (sub32 (packetLength buf) tpkt1Length) }]⟩) :
    body = pass short alloc := by
  funext d
  have hlength : d.socket.getInputBufferLength = uint32 d.socket.input.length := rfl
  unfold pass
  by_cases hlen : d.socket.getInputBufferLength < 1
  · rw [hempty d hlen,if_pos (hlength ▸ hlen)]
  · simp only
    rw [if_neg (hlength ▸ hlen)]
    by_cases hfew : d.socket.input.length < 4
    · rw [hshort d hlen (viewHeader_short hfew),if_pos hfew]
    · have hfull : 4 ≤ d.socket.input.length := not_lt.mp hfew
      have hsome : d.socket.bev.isSome :=
        TcpSocket.isSome_of_input_ne fun hn => by simp [hn] at hfull
      have hview := viewHeader_full hfull
      rw [if_neg hfew]
      by_cases hcomplete : announced d.socket.input ≤ d.socket.getInputBufferLength
      · have hc : Complete d.socket.input := ⟨hfull,not_lt.mp hlen,hcomplete⟩
        have hread := TcpSocket.readInputBuffer_eq
          (s := d.socket.setInput (fromPacket d.socket.input)) (by simpa using hsome)
          (announced d.socket.input)
        rw [hwhole d _ hlen hview (by rw [packetLength_eq,announced_take]; exact not_lt.mpr hcomplete)
          (by rw [readLost_eq hsome,packetLength_eq,announced_take,hread]),if_pos hc]
        simp only [readLost_eq hsome,packetLength_eq,announced_take,hread]
        simp [passOf,next,hsome]
      · have hc : ¬ Complete d.socket.input := fun h => hcomplete h.2.2
        rw [hpart d _ hlen hview (by rw [packetLength_eq,announced_take]; exact not_le.mp hcomplete),
          if_neg hc,readLost_eq hsome]

end TpktDecoder
end Translib
