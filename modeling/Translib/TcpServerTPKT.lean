import Translib.TpktDecoder
import Translib.TpktSender

/-! The framing server: its decoding loop as the source has it, and what one pass of
that loop does to the buffered bytes. -/

namespace Translib
namespace TcpServerTPKT

open TpktFormat TpktDecoder

def sendWithTPKT (okHeader okPayload : Bool) (data : List Byte) (session : TcpSocket) :
    Bool × TcpSocket :=
  TpktSender.sendWithTPKT okHeader okPayload data session

/-- One pass of the `do … while (1)` of `onSessionRead`. The pointer `buf` keeps
reading the four bytes it was given, also after the byte in front is removed. -/
def onSessionReadBody : TpktDecoder.Loop := fun d =>
  let session := d.socket
  let length := session.getInputBufferLength
  if length < 1 then .inr (.broke,d)
  else
    match session.viewInputBuffer tpkt1Length with
    | none => .inr (.returned,d)
    | some buf =>
      let tmp_buf := readLost buf session
      let packet_length := packetLength buf
      if packet_length > length then .inr (.broke,{ d with socket := tmp_buf.2 })
      else
        let buffer_tmp := tmp_buf.2.readInputBuffer packet_length
        .inl ⟨buffer_tmp.2.2,d.passes ++ [{
          resync := tmp_buf.1
          removed := buffer_tmp.2.1
          allocated := packet_length
          onRead := if buffer_tmp.1 then some (sub32 packet_length tpkt1Length) else none }]⟩

def OnSessionRead (session : TcpSocket) (exit : Exit) (d : Decoding) : Prop :=
  LoopMachine.Returns onSessionReadBody ⟨session,[]⟩ (exit,d)

theorem onSessionReadBody_eq : onSessionReadBody = pass .returned id := by
  apply eq_pass
  · intro d hlen
    simp [onSessionReadBody,hlen]
  · intro d hlen hview
    simp [onSessionReadBody,hlen,hview]
  · intro d buf hlen hview hpart
    simp [onSessionReadBody,hlen,hview,hpart]
  · intro d buf hlen hview hwhole hread
    simp [onSessionReadBody,hlen,hview,hwhole,hread]

end TcpServerTPKT
end Translib
