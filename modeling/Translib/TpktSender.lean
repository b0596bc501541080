import Translib.TcpSocket
import Translib.TpktFormat

/-! The sending side, which both TPKT classes write out in the same words: the header
is sent first, the message by a second send. -/

namespace Translib
namespace TpktSender

open TpktFormat

/-- `tpkt_header` for a message of `length` bytes, in the code's 32 bit arithmetic. -/
def tpktHeader (length : ℕ) : List Byte :=
  [tpktVersion1LowByte,
    UInt8.ofNat ((uint32 (length+tpkt1Length) &&& 0xFFFFFF) >>> 16),
    UInt8.ofNat ((uint32 (length+tpkt1Length) &&& 0xFFFF) >>> 8),
    UInt8.ofNat (uint32 (length+tpkt1Length) &&& 0xFF)]

/-- `okHeader` and `okPayload` are the outcomes of the two calls of `bufferevent_write`. -/
def sendWithTPKT (okHeader okPayload : Bool) (data : List Byte) (s : TcpSocket) :
    Bool × TcpSocket :=
  let ret := s.send okHeader (tpktHeader data.length)
  if !ret.1 then (false,ret.2) else ret.2.send okPayload data

theorem tpktHeader_eq (length : ℕ) :
    tpktHeader length = tpktVersion1LowByte :: lengthField (length+tpkt1Length) := by
  have hand (x k : ℕ) : x &&& (2^k-1) = x % 2^k := Nat.and_two_pow_sub_one_eq_mod x k
  have h24 := hand (uint32 (length+tpkt1Length)) 24
  have h16 := hand (uint32 (length+tpkt1Length)) 16
  have h8 := hand (uint32 (length+tpkt1Length)) 8
  norm_num at h24 h16 h8
  simp only [tpktHeader,lengthField,h24,h16,h8,Nat.shiftRight_eq_div_pow,List.cons.injEq,true_and,
    and_true,← UInt8.toNat_inj,UInt8.toNat_ofNat',uint32]
  omega

theorem tpktHeader_append (data : List Byte) : tpktHeader data.length ++ data = frame data := by
  rw [tpktHeader_eq]
  rfl

theorem sendWithTPKT_true {okHeader okPayload : Bool} {data : List Byte} {s : TcpSocket}
    (h : (sendWithTPKT okHeader okPayload data s).1 = true) :
    (sendWithTPKT okHeader okPayload data s).2.written = s.written ++ frame data := by
  unfold sendWithTPKT at h ⊢
  cases hh : (s.send okHeader (tpktHeader data.length)).1 with
  | false => simp [hh] at h
  | true =>
    simp only [hh,Bool.not_true,Bool.false_eq_true,if_false] at h ⊢
    rw [TcpSocket.send_written h,TcpSocket.send_written hh,List.append_assoc,tpktHeader_append]

end TpktSender
end Translib
