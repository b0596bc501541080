import Translib.TcpServerTPKT
import Translib.TpktDecoderRuns

/-! Frames after bytes that belong to no frame. -/

namespace Translib
namespace TpktResync

open TpktFormat TpktDecoder TcpServerTPKT LoopMachine

/-- What the reads of a pass take out of the buffer, in order: the byte skipped when the
magic number is lost, and the packet with the message it is passed on as. -/
def reads (p : Pass) : List (List Byte × Option Message) :=
  p.resync.map (fun x => ([x],none)) ++ [(p.removed,p.message)]

/-- One run of the decoder skips `g` one byte at a time and then delivers the frames,
one by one, until nothing is left. -/
def Resynchronises (session : TcpSocket) (g : List Byte) (frames : List Payload) : Prop :=
  ∃ exit d, OnSessionRead session exit d ∧ d.socket.input = [] ∧
    d.passes.flatMap reads =
      g.map (fun x => ([x],none)) ++ frames.map fun p => (p.frame,some (.ofPayload p.bytes))

/-- Nothing is skipped; or one byte in front of a packet of `0x010101` bytes, whose
length field is read one byte early and happens to be the same there. -/
def InStep (g : List Byte) (frames : List Payload) : Prop :=
  (g = [] ∧ (encode frames).length < 2^32) ∨
    ∃ x p rest, g = [x] ∧ frames = p::rest ∧ p.bytes.length+tpkt1Length = 0x010101 ∧
      0x010101 ≤ uint32 (x :: encode frames).length ∧ (encode rest).length < 2^32

/-- From `2^32` buffered bytes on the cached length wraps, and some frame is never
found complete. -/
theorem wrapped_not_drained {short : Exit} {frames : List Payload} {d d' : Decoding} {exit : Exit}
    (h : Returns (pass short id) d (exit,d')) (hin : d.socket.input = encode frames)
    (hlen : 2^32 ≤ (encode frames).length) : d'.socket.input ≠ [] := by
  induction frames generalizing d with
  | nil => simp [encode] at hlen
  | cons p rest ih =>
    have hcons : encode (p::rest) = p.frame ++ encode rest := by simp [encode]
    rw [hcons] at hin hlen
    by_cases hc : Complete d.socket.input
    · have hannounced := hc.2.2
      rw [hin,p.announced] at hannounced
      obtain ⟨_,hnext,_⟩ := frame_complete p _ hannounced
      refine ih ((returns_next_iff (pass_complete _ _ hc)).mp h) ?_ ?_
      · simp only [hin,hnext]
        exact TcpSocket.setInput_input (Complete.isSome hc) _
      · rw [List.length_append,p.frame_length] at hlen hannounced
        simp only [uint32] at hannounced
        omega
    · rw [returns_stop_iff (pass_incomplete _ _ hc)] at h
      cases h
      have hkept : kept d.socket.input = d.socket.input := by
        rw [kept,fromPacket,hin,if_pos (p.hasMagic _)]
        simp
      have hself : d.socket.setInput (kept d.socket.input) = d.socket := by
        rw [hkept,TcpSocket.setInput_self]
      have hne : 0 < (p.frame ++ encode rest).length := by omega
      change (d.socket.setInput (kept d.socket.input)).input ≠ []
      rw [hself,hin]
      exact List.length_pos_iff.mp hne

theorem encode_cons (p : Payload) (ps : List Payload) : encode (p::ps) = p.frame ++ encode ps := by
  simp [encode]

theorem reads_framePass (ps : List Payload) :
    (ps.map framePass).flatMap reads = ps.map fun p => (p.frame,some (.ofPayload p.bytes)) := by
  induction ps with
  | nil => rfl
  | cons p ps ih =>
    rw [List.map_cons,List.flatMap_cons,ih,reads,frame_message]
    rfl

theorem frames_drained {frames : List Payload} (hlen : (encode frames).length < 2^32)
    {d : Decoding} (hd : d.socket.input = encode frames) :
    ∃ exit, Returns onSessionReadBody d
      (exit,⟨d.socket.setInput [],d.passes ++ frames.map framePass⟩) := by
  have hw : Framing.Whole Payload.frame frames (encode frames) frames [] :=
    ⟨List.prefix_rfl,by simp [encode],fun p hp => by simp⟩
  obtain ⟨exit,hret,_⟩ := decode_frames .returned hw List.prefix_rfl hlen hd
  rw [← onSessionReadBody_eq] at hret
  exact ⟨exit,hret⟩

/-- The length read one byte early in front of a frame is the length of the frame only
if the three bytes of the length field are `01`. -/
theorem announced_early (x : Byte) (p : Payload) (rest : List Byte) :
    announced (x :: (p.frame ++ rest)) = p.bytes.length+4 ↔ p.bytes.length+4 = 0x010101 := by
  have hlt := p.length_lt
  simp only [announced,Payload.frame,frame,lengthField,tpkt1Length,tpktVersion1LowByte,
    List.cons_append,List.nil_append,List.getD_cons_succ,List.getD_cons_zero,UInt8.toNat_ofNat']
  have hone : (0x1 : Byte).toNat = 1 := rfl
  rw [hone]
  generalize p.bytes.length+4 = n at hlt ⊢
  norm_num at hlt ⊢
  have hn : n = n/65536*65536 + n/256%256*256 + n%256 := by omega
  have hhigh : n/65536%256 = n/65536 := Nat.mod_eq_of_lt (by omega)
  have hmid : n/256%256 < 256 := Nat.mod_lt _ (by decide)
  have hlow : n%256 < 256 := Nat.mod_lt _ (by decide)
  rw [hhigh]
  generalize n/65536 = a at hn ⊢
  generalize n/256%256 = b at hn hmid ⊢
  generalize n%256 = c at hn hlow
  omega

theorem passOf_lost {x : Byte} {b : List Byte} (hx : x ≠ tpktVersion1LowByte) :
    reads (passOf id (x::b)) =
      [([x],none),(b.take (announced (x::b)),(passOf id (x::b)).message)] := by
  have hm : ¬ HasMagic (x::b) := by simpa [HasMagic] using hx
  simp [reads,passOf,fromPacket,hm]

theorem passOf_message_len {b : List Byte} {p : Payload}
    (h : (passOf id b).message = some (.ofPayload p.bytes)) : announced b = p.bytes.length+4 := by
  have hlt := announced_lt b
  have hp := p.length_lt
  have hlen : sub32 (announced b) tpkt1Length = p.bytes.length := by
    simp only [passOf,Pass.message,Message.ofPayload,Option.map_some,Option.some.injEq,
      Message.mk.injEq] at h
    exact h.1
  simp only [sub32,uint32,tpkt1Length] at hlen
  omega

/-- One lost byte in front of a frame with the length `0x010101`. -/
theorem lost_frame {x : Byte} {p : Payload} {b : List Byte} (hx : x ≠ tpktVersion1LowByte)
    (hsize : p.bytes.length+4 = 0x010101) (hfit : 0x010101 ≤ uint32 (x :: (p.frame ++ b)).length) :
    Complete (x :: (p.frame ++ b)) ∧ next (x :: (p.frame ++ b)) = b ∧
      reads (passOf id (x :: (p.frame ++ b))) =
        [([x],none),(p.frame,some (.ofPayload p.bytes))] := by
  have ha := (announced_early x p b).mpr hsize
  have hm : ¬ HasMagic (x :: (p.frame ++ b)) := by simpa [HasMagic] using hx
  have hlong : 4 ≤ (x :: (p.frame ++ b)).length := by
    rw [List.length_cons,List.length_append,p.frame_length]
    omega
  have hpass : passOf id (x :: (p.frame ++ b)) = { framePass p with resync := [x] } := by
    have hsub : sub32 (p.bytes.length+4) tpkt1Length = p.bytes.length := by
      simp only [sub32,uint32,tpkt1Length]
      omega
    simp [passOf,fromPacket,hm,ha,hsub,framePass]
  refine ⟨⟨hlong,by omega,by rw [ha]; omega⟩,?_,?_⟩
  · rw [next,fromPacket,if_neg hm,List.tail_cons,ha,← p.frame_length,List.drop_left]
  · rw [hpass,← frame_message p]
    rfl

theorem Resynchronises.inStep {session : TcpSocket} {g : List Byte} {frames : List Payload}
    (hin : session.input = g ++ encode frames) (hg : ∀ x ∈ g, x ≠ tpktVersion1LowByte)
    (h : Resynchronises session g frames) : InStep g frames := by
  obtain ⟨exit,d,hret,hempty,hreads⟩ := h
  unfold OnSessionRead at hret
  rw [onSessionReadBody_eq] at hret
  cases g with
  | nil =>
    refine .inl ⟨rfl,not_le.mp fun hlen => ?_⟩
    exact wrapped_not_drained hret (by simpa using hin) hlen hempty
  | cons x g =>
    by_cases hc : Complete session.input
    · have hret' := (returns_next_iff (pass_complete _ _ hc)).mp hret
      obtain ⟨more,hmore⟩ := returns_passes hret'
      have hx := hg x (by simp)
      rw [← hmore,List.nil_append,List.flatMap_append,List.flatMap_singleton,hin,List.cons_append,
        passOf_lost hx] at hreads
      cases g with
      | cons y g => simp [passOf,Pass.message] at hreads
      | nil =>
        cases frames with
        | nil => simp at hreads
        | cons p rest =>
          simp only [List.nil_append,List.cons_append,List.map_cons,List.map_nil,List.cons.injEq,
            Prod.mk.injEq,true_and] at hreads
          have ha := passOf_message_len hreads.1.2
          rw [encode_cons] at ha
          have hsize := (announced_early x p (encode rest)).mp ha
          have hfit := hc.2.2
          rw [hin,List.cons_append,List.nil_append,encode_cons,ha] at hfit
          refine .inr ⟨x,p,rest,rfl,rfl,hsize,by rw [encode_cons]; omega,
            not_le.mp fun hlen => wrapped_not_drained hret' ?_ hlen hempty⟩
          have hnext : next session.input = encode rest := by
            rw [hin,List.singleton_append,encode_cons]
            exact (lost_frame hx hsize (by omega)).2.1
          rw [← hnext]
          exact TcpSocket.setInput_input (Complete.isSome hc) _
    · have hstop := (returns_stop_iff (pass_incomplete _ _ hc)).mp hret
      rw [(Prod.mk.inj hstop).2] at hreads
      simp at hreads

/-- Resynchronisation works exactly when there is nothing to skip, or by the accident
`InStep` names; and no more bytes may be buffered than the cached length counts. -/
theorem resynchronises_iff (session : TcpSocket) (g : List Byte) (frames : List Payload)
    (hin : session.input = g ++ encode frames) (hg : ∀ x ∈ g, x ≠ tpktVersion1LowByte) :
    Resynchronises session g frames ↔ InStep g frames := by
  constructor
  · exact fun h => h.inStep hin hg
  · rintro (⟨rfl,hlen⟩ | ⟨x,p,rest,rfl,rfl,hsize,hfit,hlen⟩)
    · obtain ⟨exit,hret⟩ := frames_drained hlen (d := ⟨session,[]⟩) hin
      refine ⟨exit,_,hret,?_,?_⟩
      · cases hb : session.bev <;> simp [TcpSocket.setInput,TcpSocket.withBev,TcpSocket.input,hb]
      · simpa using reads_framePass frames
    · have hx : x ≠ tpktVersion1LowByte := hg x (by simp)
      have hsize' : p.bytes.length+4 = 0x010101 := hsize
      rw [List.singleton_append,encode_cons] at hin
      rw [encode_cons] at hfit
      obtain ⟨hc,hnext,hreads⟩ := lost_frame hx hsize' hfit
      rw [← hin] at hc hnext hreads
      have hbev := Complete.isSome hc
      obtain ⟨exit,hret⟩ := frames_drained hlen
        (d := ⟨session.setInput (encode rest),[passOf id session.input]⟩)
        (TcpSocket.setInput_input hbev _)
      refine ⟨exit,⟨session.setInput [],passOf id session.input :: rest.map framePass⟩,?_,
        TcpSocket.setInput_input hbev _,?_⟩
      · have hstep := pass_complete .returned id (d := ⟨session,[]⟩) hc
        rw [← onSessionReadBody_eq,hnext] at hstep
        exact (returns_next_iff hstep).mpr (by simpa using hret)
      · rw [List.flatMap_cons,hreads,reads_framePass]
        rfl

theorem resynchronises_stray :
    let frame : Payload := ⟨List.replicate 0x0100FD 0xAA,by rw [List.length_replicate]; decide⟩
    Resynchronises ⟨some (.fresh ([0] ++ encode [frame])),false⟩ [0] [frame] := by
  intro frame
  have hsize : frame.bytes.length+tpkt1Length = 0x010101 := by
    rw [List.length_replicate,tpkt1Length]
  have hlen : (0 :: encode [frame]).length = 0x010102 := by
    rw [encode_cons,List.length_cons,List.length_append,frame.frame_length,List.length_replicate]
    rfl
  have hstray (x : Byte) (hx : x ∈ [(0 : Byte)]) : x ≠ tpktVersion1LowByte := by
    rw [List.mem_singleton.mp hx]
    decide
  refine (resynchronises_iff _ [0] [frame] rfl hstray).mpr
    (.inr ⟨0,frame,[],rfl,rfl,hsize,?_,by decide⟩)
  rw [hlen]
  decide

/-- One byte `00` in front of a frame is enough: the length read across it is
`01 00 00`, the loop is left, and the frame stays in the buffer. -/
theorem stray_byte_blocks :
    let frame : Payload := ⟨[0xAA],by decide⟩
    ¬ ∃ exit d, OnSessionRead ⟨some (.fresh ([0] ++ encode [frame])),false⟩ exit d ∧
      messages d.passes = [.ofPayload frame.bytes] ∧ d.socket.input = [] := by
  rintro frame ⟨exit,d,hret,hmsg,_⟩
  have hstop : Returns onSessionReadBody ⟨⟨some (.fresh ([0] ++ encode [frame])),false⟩,[]⟩
      (.broke,⟨⟨some (.fresh (encode [frame])),false⟩,[]⟩) := ⟨1,by decide⟩
  rw [(Prod.mk.inj (hret.det hstop)).2] at hmsg
  simp [messages] at hmsg

end TpktResync
end Translib
