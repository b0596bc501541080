import Translib.TpktDecoder
import Translib.TpktSender

/-! The framing client: its sends, and its own copy of the decoding loop. -/

namespace Translib
namespace TcpClientTPKT

open TpktFormat TpktDecoder

def sendWithTPKT (okHeader okPayload : Bool) (data : List Byte) (client : TcpSocket) :
    Bool × TcpSocket :=
  TpktSender.sendWithTPKT okHeader okPayload data client

/-- `sizeof(packet_length)`, the size of the frame buffer of the client. -/
def sizeofPacketLength : ℕ := 4

/-- One pass of the `do … while (1)` of `onRead`. Here `buf` is read without being
compared with NULL, and the result of the read is not looked at. -/
def onReadBody : TpktDecoder.Loop := fun d =>
  let client := d.socket
  let length := client.getInputBufferLength
  if length < 1 then .inr (.broke,d)
  else
    match client.viewInputBuffer tpkt1Length with
    | none => .inr (.nullRead,d)
    | some buf =>
      let tmp_buf := readLost buf client
      let packet_length := packetLength buf
      if packet_length > length then .inr (.broke,{ d with socket := tmp_buf.2 })
      else
        let buffer_tmp := tmp_buf.2.readInputBuffer packet_length
        .inl ⟨buffer_tmp.2.2,d.passes ++ [{
          resync := tmp_buf.1
          removed := buffer_tmp.2.1
          allocated := sizeofPacketLength
          onRead := some (sub32 packet_length tpkt1Length) }]⟩

theorem onReadBody_eq : onReadBody = pass .nullRead fun _ => sizeofPacketLength := by
  apply eq_pass
  · intro d hlen
    simp [onReadBody,hlen]
  · intro d hlen hview
    simp [onReadBody,hlen,hview]
  · intro d buf hlen hview hpart
    simp [onReadBody,hlen,hview,hpart]
  · intro d buf hlen hview hwhole _
    simp [onReadBody,hlen,hview,hwhole]

end TcpClientTPKT
end Translib
