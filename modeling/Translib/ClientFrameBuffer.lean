import Translib.TcpClientTPKT
import Translib.TpktDecoderRuns

/-! The frame buffer of the client, whose size is that of the length variable: when what is
copied into it and what is handed on from it lie within it. -/

namespace Translib
namespace ClientFrameBuffer

open TpktFormat TpktDecoder TcpClientTPKT LoopMachine

/-- The bytes read fit into the buffer, and the message behind the header lies in it. -/
def Fits (p : Pass) : Prop :=
  p.removed.length ≤ p.allocated ∧ ∀ len, p.onRead = some len → tpkt1Length+len ≤ p.allocated

def FramesFit (client : TcpSocket) : Prop :=
  ∀ d, Reaches onReadBody ⟨client,[]⟩ d → ∀ p ∈ d.passes, Fits p

theorem passOf_fits_iff (b : List Byte) :
    Fits (passOf (fun _ => sizeofPacketLength) b) ↔ announced b = tpkt1Length := by
  have hlt := announced_lt b
  simp only [Fits,Option.some.injEq,forall_eq',passOf,List.length_take,sizeofPacketLength,
    tpkt1Length,sub32,uint32]
  constructor
  · rintro ⟨_,hslice⟩
    omega
  · intro hfour
    rw [hfour]
    exact ⟨Nat.min_le_left _ _,by decide⟩

/-- For every input: what is copied and what is handed on lies within the buffer if and only
if every complete packet the length fields lead to is an empty one. -/
theorem frames_fit_iff (client : TcpSocket) :
    FramesFit client ↔ ∀ b, Leads client.input b → Complete b → announced b = tpkt1Length := by
  unfold FramesFit
  rw [onReadBody_eq]
  constructor
  · intro h b hb hc
    obtain ⟨d,hd,rfl⟩ := leads_reaches .nullRead (fun _ => sizeofPacketLength) (d := ⟨client,[]⟩) hb
    refine (passOf_fits_iff d.socket.input).mp ?_
    exact h _ (hd.tail (pass_complete _ _ hc)) _ (by simp)
  · intro h d hd p hp
    rcases (reaches_leads hd).2 p hp with hp | ⟨b,hb,hc,rfl⟩
    · cases hp
    · exact (passOf_fits_iff b).mpr (h b hb hc)

/-- Five bytes are copied into a buffer of four. -/
theorem buffer_overrun : ¬ FramesFit ⟨some (.fresh [1,0,0,5,7]),false⟩ := by
  intro h
  have hreaches : Reaches onReadBody ⟨⟨some (.fresh [1,0,0,5,7]),false⟩,[]⟩
      ⟨⟨some (.fresh []),false⟩,[⟨[],[1,0,0,5,7],4,some 1⟩]⟩ := .single (by decide)
  exact absurd (h _ hreaches _ List.mem_cons_self).1 (by decide)

end ClientFrameBuffer
end Translib
