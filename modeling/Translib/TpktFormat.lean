import Mathlib.Logic.Relation
import Translib.TcpSocket

/-! The TPKT wire format, and how the length fields of an arbitrary byte string lead
from one header position to the next. Nothing here refers to the decoders. -/

namespace Translib

/-- Subtraction in `uint32_t`. -/
abbrev sub32 (a b : ℕ) : ℕ := uint32 (a + 2^32 - b)

def tpkt1Length : ℕ := 4
def tpkt1MaxMsgLength : ℕ := 0xffffff
def tpktVersion1LowByte : Byte := 0x1

namespace TpktFormat

def lengthField (n : ℕ) : List Byte :=
  [UInt8.ofNat (n/2^16),UInt8.ofNat (n/2^8),UInt8.ofNat n]

/-- Version byte, 24 bit length of the whole packet, payload. -/
def frame (payload : List Byte) : List Byte :=
  tpktVersion1LowByte :: (lengthField (payload.length+tpkt1Length) ++ payload)

structure Payload where
  bytes : List Byte
  fits : bytes.length + tpkt1Length ≤ tpkt1MaxMsgLength

namespace Payload

def frame (p : Payload) : List Byte := TpktFormat.frame p.bytes

end Payload

def encode (ps : List Payload) : List Byte := ps.flatMap Payload.frame

@[simp] theorem frame_length (payload : List Byte) : (frame payload).length = payload.length+4 := by
  simp [frame,lengthField]

@[simp] theorem frame_drop (payload : List Byte) : (frame payload).drop 4 = payload := by
  simp [frame,lengthField]

def HasMagic (b : List Byte) : Prop := b.getD 0 0 = tpktVersion1LowByte

instance (b : List Byte) : Decidable (HasMagic b) := inferInstanceAs (Decidable (_ = _))

/-- The packet length in the length field of the first four bytes. -/
def announced (b : List Byte) : ℕ :=
  (b.getD 1 0).toNat*2^16 + (b.getD 2 0).toNat*2^8 + (b.getD 3 0).toNat

theorem announced_lt (b : List Byte) : announced b < 2^24 := by
  have h1 := (b.getD 1 0).toNat_lt
  have h2 := (b.getD 2 0).toNat_lt
  have h3 := (b.getD 3 0).toNat_lt
  unfold announced
  omega

theorem hasMagic_frame (payload rest : List Byte) : HasMagic (frame payload ++ rest) := by
  simp [HasMagic,frame]

theorem announced_frame {payload : List Byte}
    (h : payload.length+tpkt1Length ≤ tpkt1MaxMsgLength) (rest : List Byte) :
    announced (frame payload ++ rest) = payload.length+4 := by
  simp only [tpkt1Length,tpkt1MaxMsgLength] at h
  simp only [announced,frame,lengthField,tpkt1Length,List.cons_append,List.nil_append,
    List.getD_cons_succ,List.getD_cons_zero,UInt8.toNat_ofNat']
  omega

theorem getD_take {b : List Byte} {n i : ℕ} (h : i < n) : (b.take n).getD i 0 = b.getD i 0 := by
  simp only [List.getD_eq_getElem?_getD,List.getElem?_take_of_lt h]

@[simp] theorem hasMagic_take (b : List Byte) : HasMagic (b.take 4) ↔ HasMagic b := by
  unfold HasMagic
  rw [getD_take (by decide)]

@[simp] theorem announced_take (b : List Byte) : announced (b.take 4) = announced b := by
  simp only [announced,getD_take (b := b) (show 1 < 4 by decide),
    getD_take (b := b) (show 2 < 4 by decide),getD_take (b := b) (show 3 < 4 by decide)]

theorem header_prefix {b c : List Byte} (h : b <+: c) (hlen : 4 ≤ b.length) :
    (HasMagic b ↔ HasMagic c) ∧ announced b = announced c := by
  have htake : b.take 4 = c.take 4 := by
    obtain ⟨rest,rfl⟩ := h
    rw [List.take_append_of_le_length hlen]
  rw [← hasMagic_take b,← announced_take b,htake,hasMagic_take,announced_take]
  exact ⟨Iff.rfl,rfl⟩

namespace Payload

@[simp] theorem frame_length (p : Payload) : p.frame.length = p.bytes.length+4 :=
  TpktFormat.frame_length p.bytes

theorem length_lt (p : Payload) : p.bytes.length+4 < 2^24 := by
  have h := p.fits
  simp only [tpkt1Length,tpkt1MaxMsgLength] at h
  omega

theorem hasMagic (p : Payload) (rest : List Byte) : HasMagic (p.frame ++ rest) :=
  hasMagic_frame p.bytes rest

theorem announced (p : Payload) (rest : List Byte) :
    TpktFormat.announced (p.frame ++ rest) = p.bytes.length+4 :=
  announced_frame p.fits rest

end Payload

/-- All of the announced packet is there, counting bytes in 32 bits. -/
def Complete (b : List Byte) : Prop :=
  4 ≤ b.length ∧ 1 ≤ uint32 b.length ∧ announced b ≤ uint32 b.length

instance (b : List Byte) : Decidable (Complete b) := inferInstanceAs (Decidable (_ ∧ _))

/-- Where the announced packet is taken from: past the byte that should have been
the magic number, when it is lost. -/
def fromPacket (b : List Byte) : List Byte := if HasMagic b then b else b.tail

def next (b : List Byte) : List Byte := (fromPacket b).drop (announced b)

/-- The header positions the length fields lead to, each given by the bytes from
that position on. -/
def Leads : List Byte → List Byte → Prop :=
  Relation.ReflTransGen fun b b' => Complete b ∧ b' = next b

/-- What is kept of an incomplete packet. The header is taken apart only when all
four bytes of it are there. -/
def kept (b : List Byte) : List Byte :=
  if uint32 b.length < 1 ∨ b.length < 4 then b else fromPacket b

def Leaves (b t : List Byte) : Prop := ∃ b', Leads b b' ∧ ¬ Complete b' ∧ t = kept b'

theorem fromPacket_length (b : List Byte) :
    (fromPacket b).length = if HasMagic b then b.length else b.length-1 := by
  unfold fromPacket
  split_ifs <;> simp

theorem Complete.announced_le {b : List Byte} (h : Complete b) : announced b ≤ b.length :=
  h.2.2.trans (Nat.mod_le _ _)

/-- Every packet but one that announces no byte at all takes bytes with it. -/
theorem next_length_lt {b : List Byte} (h : Complete b)
    (hpos : ¬ (HasMagic b ∧ announced b = 0)) : (next b).length < b.length := by
  have hfour := h.1
  unfold next
  rw [List.length_drop,fromPacket_length]
  split_ifs with hm
  · have hne : announced b ≠ 0 := fun h0 => hpos ⟨hm,h0⟩
    omega
  · omega

end TpktFormat
end Translib
