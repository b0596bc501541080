import Translib.TcpClientTPKT
import Translib.TcpServerTPKT

/-! What a call of `sendWithTPKT` writes, and whether the header it writes is true. -/

namespace Translib
namespace HeaderTruth

open TpktFormat TpktSender

/-- A header of four bytes that names the length of the packet. -/
def TrueHeader (length : ℕ) (header : List Byte) : Prop :=
  header.length = tpkt1Length ∧ HasMagic header ∧ announced header = length+tpkt1Length

/-- The call writes a true header and the payload, or it returns false and writes nothing. -/
def TellsTruth (data : List Byte) (s : TcpSocket) (ret : Bool × TcpSocket) : Prop :=
  (ret.1 = true ∧ ∃ header, TrueHeader data.length header ∧
    ret.2.written = s.written ++ (header ++ data)) ∨
  (ret.1 = false ∧ ret.2.written = s.written)

/-- Where the header is accepted, the payload is too, and its packet fits the length field. -/
def Sendable (okHeader okPayload : Bool) (data : List Byte) (s : TcpSocket) : Prop :=
  s.Accepts okHeader → okPayload = true ∧ data.length+tpkt1Length ≤ tpkt1MaxMsgLength

theorem announced_tpktHeader (length : ℕ) :
    announced (tpktHeader length) = (length+tpkt1Length) % 2^24 := by
  rw [tpktHeader_eq]
  simp only [announced,lengthField,List.getD_cons_succ,List.getD_cons_zero,UInt8.toNat_ofNat']
  omega

theorem tpktHeader_true_iff (length : ℕ) :
    TrueHeader length (tpktHeader length) ↔ length+tpkt1Length ≤ tpkt1MaxMsgLength := by
  have hlength : (tpktHeader length).length = tpkt1Length := rfl
  have hmagic : HasMagic (tpktHeader length) := rfl
  rw [TrueHeader,announced_tpktHeader,and_iff_right hlength,and_iff_right hmagic,tpkt1MaxMsgLength]
  omega

theorem sendWithTPKT_cases (okHeader okPayload : Bool) (data : List Byte) (s : TcpSocket) :
    let ret := sendWithTPKT okHeader okPayload data s
    (¬ s.Accepts okHeader ∧ ret = (false,s)) ∨
    (s.Accepts okHeader ∧ okPayload = false ∧ ret.1 = false ∧
      ret.2.written = s.written ++ tpktHeader data.length) ∨
    (s.Accepts okHeader ∧ okPayload = true ∧ ret.1 = true ∧
      ret.2.written = s.written ++ (tpktHeader data.length ++ data)) := by
  intro ret
  by_cases haccepts : s.Accepts okHeader
  · have hheader : s.send okHeader (tpktHeader data.length) =
        (true,s.append (tpktHeader data.length)) := by rw [TcpSocket.send_eq,if_pos haccepts]
    have hret : ret = (s.append (tpktHeader data.length)).send okPayload data := by
      simp [ret,sendWithTPKT,hheader]
    have hopen : (s.append (tpktHeader data.length)).bev.isSome := by
      simpa [TcpSocket.append,TcpSocket.withBev] using haccepts.1
    have hwritten := TcpSocket.append_written haccepts.1 (tpktHeader data.length)
    cases okPayload with
    | false =>
      have hrefused : ret = (false,s.append (tpktHeader data.length)) := by
        rw [hret,TcpSocket.send_eq,if_neg (fun h => Bool.false_ne_true h.2.2)]
      exact .inr (.inl ⟨haccepts,rfl,by rw [hrefused],by rw [hrefused,hwritten]⟩)
    | true =>
      have hsent : ret = (true,(s.append (tpktHeader data.length)).append data) := by
        rw [hret,TcpSocket.send_eq,if_pos ⟨hopen,haccepts.2.1,rfl⟩]
      refine .inr (.inr ⟨haccepts,rfl,by rw [hsent],?_⟩)
      rw [hsent,TcpSocket.append_written hopen,hwritten,List.append_assoc]
  · have hheader : s.send okHeader (tpktHeader data.length) = (false,s) := by
      rw [TcpSocket.send_eq,if_neg haccepts]
    exact .inl ⟨haccepts,by simp [ret,sendWithTPKT,hheader]⟩

theorem tellsTruth_iff (okHeader okPayload : Bool) (data : List Byte) (s : TcpSocket) :
    TellsTruth data s (sendWithTPKT okHeader okPayload data s) ↔
      Sendable okHeader okPayload data s := by
  rcases sendWithTPKT_cases okHeader okPayload data s with
    ⟨hrefused,hret⟩ | ⟨haccepts,hok,hfalse,hwritten⟩ | ⟨haccepts,hok,htrue,hwritten⟩
  · rw [hret]
    exact iff_of_true (.inr ⟨rfl,rfl⟩) fun h => absurd h hrefused
  · -- the header is written, and the call returns false
    refine iff_of_false ?_ fun h => Bool.false_ne_true (hok.symm.trans (h haccepts).1)
    rintro (⟨htrue,_⟩ | ⟨_,hsame⟩)
    · simp [hfalse] at htrue
    · rw [hwritten] at hsame
      cases List.append_right_eq_self.mp hsame
  · rw [Sendable,← tpktHeader_true_iff]
    constructor
    · rintro (⟨_,header,hheader,hsame⟩ | ⟨hfalse,_⟩) _
      · rw [hwritten] at hsame
        have hheader' := List.append_cancel_right (List.append_cancel_left hsame)
        exact ⟨hok,hheader' ▸ hheader⟩
      · simp [htrue] at hfalse
    · intro h
      exact .inl ⟨htrue,_,(h haccepts).2,hwritten⟩

/-- The client and the server write a true header and the payload, or nothing, if and only if
the header is refused, or the payload is accepted too and fits the format. -/
theorem header_truth_iff (okHeader okPayload : Bool) (data : List Byte) (s : TcpSocket) :
    (TellsTruth data s (TcpClientTPKT.sendWithTPKT okHeader okPayload data s) ↔
      Sendable okHeader okPayload data s) ∧
    (TellsTruth data s (TcpServerTPKT.sendWithTPKT okHeader okPayload data s) ↔
      Sendable okHeader okPayload data s) :=
  ⟨tellsTruth_iff okHeader okPayload data s,tellsTruth_iff okHeader okPayload data s⟩

/-- The packet of `2^24-4` bytes is announced as one of no bytes. -/
theorem length_truncated :
    let s : TcpSocket := ⟨some (.fresh []),false⟩
    let data : List Byte := List.replicate (2^24-4) 0
    announced (tpktHeader data.length) = 0 ∧
      ¬ TellsTruth data s (TcpClientTPKT.sendWithTPKT true true data s) ∧
      ¬ TellsTruth data s (TcpServerTPKT.sendWithTPKT true true data s) := by
  intro s data
  have hlength : data.length = 2^24-4 := List.length_replicate
  have hnot : ¬ Sendable true true data s := by
    intro h
    have hfits := (h (by decide)).2
    rw [hlength] at hfits
    exact absurd hfits (by decide)
  refine ⟨by rw [hlength,announced_tpktHeader]; rfl,?_,?_⟩
  · exact fun h => hnot ((tellsTruth_iff true true data s).mp h)
  · exact fun h => hnot ((tellsTruth_iff true true data s).mp h)

end HeaderTruth
end Translib
