import Mathlib.Data.Set.List
import Translib.TcpServerTPKT
import Translib.TpktDecoderRuns

/-! What the server's decoder accepts: the streams it takes apart into packets without a byte
lost are the streams of whole frames with part of a frame behind them, and each in one way. -/

namespace Translib
namespace TpktAcceptance

open TpktFormat TpktDecoder TcpServerTPKT LoopMachine

/-- What may follow the last whole frame: bytes too few for a header, or a header and not all
of the packet it announces. -/
def Pending (t : List Byte) : Prop := t.length < 4 ∨ HasMagic t ∧ t.length < announced t

instance (t : List Byte) : Decidable (Pending t) := inferInstanceAs (Decidable (_ ∨ _))

/-- The bytes are the frames of the payloads, and `t`. -/
structure Parses (b : List Byte) (ps : List Payload) (t : List Byte) : Prop where
  frames : b = encode ps ++ t
  pending : Pending t

theorem Parses.cons {b t : List Byte} {ps : List Payload} (h : Parses b ps t) (p : Payload) :
    Parses (p.frame ++ b) (p::ps) t :=
  ⟨by rw [h.frames,encode,encode,List.flatMap_cons,List.append_assoc],h.pending⟩

theorem Parses.tail {p : Payload} {b t : List Byte} {ps : List Payload}
    (h : Parses b (p::ps) t) : ∃ b', b = p.frame ++ b' ∧ Parses b' ps t :=
  ⟨encode ps ++ t,by rw [h.frames,encode,encode,List.flatMap_cons,List.append_assoc],rfl,h.pending⟩

theorem not_pending (p : Payload) (rest : List Byte) : ¬ Pending (p.frame ++ rest) := by
  have hf := p.frame_length
  have ha := p.announced rest
  rintro (h | ⟨_,h⟩) <;> rw [List.length_append] at h <;> omega

theorem pending_part {p : Payload} {b : List Byte} (hp : b <+: p.frame)
    (hlt : b.length < p.frame.length) : Pending b := by
  by_cases h4 : b.length < 4
  · exact .inl h4
  · obtain ⟨hm,ha⟩ := header_prefix hp (not_lt.mp h4)
    have hframe : announced p.frame = p.bytes.length+4 := by simpa using p.announced []
    refine .inr ⟨hm.mpr (by simpa using p.hasMagic []),?_⟩
    rw [ha,hframe,← p.frame_length]
    exact hlt

theorem pending_prefix {b t : List Byte} (h : Pending t) (hb : b <+: t) : Pending b := by
  have hle := hb.length_le
  rcases h with h | ⟨hm,ha⟩
  · exact .inl (by omega)
  · by_cases h4 : b.length < 4
    · exact .inl h4
    · obtain ⟨hmagic,hannounced⟩ := header_prefix hb (not_lt.mp h4)
      exact .inr ⟨hmagic.mpr hm,by omega⟩

theorem frame_append_inj {p q : Payload} {b c : List Byte} (h : p.frame ++ b = q.frame ++ c) :
    p = q ∧ b = c := by
  have hp := p.announced b
  rw [h,q.announced c] at hp
  have hlen : p.frame.length = q.frame.length := by
    rw [p.frame_length,q.frame_length,hp]
  obtain ⟨hframe,hrest⟩ := List.append_inj h hlen
  have hbytes : p.bytes = q.bytes := by
    rw [← frame_drop p.bytes,← frame_drop q.bytes]
    exact congrArg (List.drop 4) hframe
  obtain ⟨bytes,fits⟩ := p
  obtain ⟨bytes',fits'⟩ := q
  cases hbytes
  exact ⟨rfl,hrest⟩

/-- A stream is taken apart in one way. -/
theorem Parses.unique {b t u : List Byte} {ps qs : List Payload} (h : Parses b ps t)
    (h' : Parses b qs u) : ps = qs ∧ t = u := by
  induction ps generalizing b qs with
  | nil =>
    have hb : b = t := h.frames
    cases qs with
    | nil => exact ⟨rfl,hb.symm.trans h'.frames⟩
    | cons q qs =>
      obtain ⟨b',rfl,_⟩ := h'.tail
      exact absurd (hb ▸ h.pending) (not_pending q b')
  | cons p ps ih =>
    obtain ⟨b',rfl,hps⟩ := h.tail
    cases qs with
    | nil =>
      have hb : p.frame ++ b' = u := h'.frames
      exact absurd (hb ▸ h'.pending) (not_pending p b')
    | cons q qs =>
      obtain ⟨c,hc,hqs⟩ := h'.tail
      obtain ⟨rfl,rfl⟩ := frame_append_inj hc
      obtain ⟨rfl,rfl⟩ := ih hps hqs
      exact ⟨rfl,rfl⟩

theorem Parses.cut {b c u : List Byte} {ps : List Payload} (h : Parses (b++c) ps u) :
    ∃ front t back, Parses b front t ∧ Parses (t++c) back u ∧ ps = front ++ back := by
  induction ps generalizing b with
  | nil =>
    have hu : b ++ c = u := h.frames
    have hpending : Pending b := pending_prefix (hu ▸ h.pending) (List.prefix_append b c)
    exact ⟨[],b,[],⟨rfl,hpending⟩,h,rfl⟩
  | cons p ps ih =>
    obtain ⟨rest,hrest,hps⟩ := h.tail
    by_cases hlen : b.length < p.frame.length
    · have hpart : b <+: p.frame := List.prefix_of_prefix_length_le (List.prefix_append b c)
        (hrest ▸ List.prefix_append p.frame rest) hlen.le
      exact ⟨[],b,p::ps,⟨rfl,pending_part hpart hlen⟩,h,rfl⟩
    · obtain ⟨b',rfl⟩ : p.frame <+: b := List.prefix_of_prefix_length_le
        (List.prefix_append p.frame rest) (hrest ▸ List.prefix_append b c) (not_lt.mp hlen)
      have hback : b' ++ c = rest := by
        rw [List.append_assoc] at hrest
        exact List.append_cancel_left hrest
      obtain ⟨front,t,back,hfront,hrest',rfl⟩ := ih (hback ▸ hps)
      exact ⟨p::front,t,back,hfront.cons p,hrest',rfl⟩

theorem pending_incomplete {t : List Byte} (h : Pending t) : ¬ Complete t ∧ kept t = t := by
  rcases h with h | ⟨hm,ha⟩
  · exact ⟨fun hc => not_lt.mpr hc.1 h,by simp [kept,h]⟩
  · refine ⟨fun hc => ?_,by simp [kept,fromPacket,hm]⟩
    have hle := hc.announced_le
    omega

theorem decode_parses (short : Exit) {b t : List Byte} {ps : List Payload} (h : Parses b ps t)
    (hlen : b.length < 2^32) {d : Decoding} (hd : d.socket.input = b) :
    ∃ exit, Returns (pass short id) d
        (exit,⟨d.socket.setInput t,d.passes ++ ps.map framePass⟩) ∧
      (exit = .broke ∨ exit = short) := by
  induction ps generalizing b d with
  | nil =>
    have hb : b = t := h.frames
    have hstop := pending_incomplete h.pending
    rw [← hb,← hd] at hstop
    refine ⟨exitOf short d.socket.input,?_,exitOf_cases _ _⟩
    refine (returns_stop_iff (pass_incomplete short id hstop.1)).mpr ?_
    rw [hstop.2,hd,hb]
    simp
  | cons p ps ih =>
    obtain ⟨b',rfl,hps⟩ := h.tail
    have hf : p.frame.length = p.bytes.length+4 := p.frame_length
    have h32 : uint32 (p.frame ++ b').length = (p.frame ++ b').length := Nat.mod_eq_of_lt hlen
    rw [List.length_append] at hlen h32
    obtain ⟨hc,hnext,hpass⟩ := frame_complete p b' (by rw [List.length_append]; omega)
    have hc' : Complete d.socket.input := by rwa [hd]
    have hstep := pass_complete short id hc'
    rw [hd,hnext,hpass] at hstep
    obtain ⟨exit,hret,hexit⟩ := ih hps (by omega)
      (d := ⟨d.socket.setInput b',d.passes ++ [framePass p]⟩)
      (TcpSocket.setInput_input (Complete.isSome hc') b')
    exact ⟨exit,(returns_next_iff hstep).mpr (by simpa using hret),hexit⟩

/-- Fewer than `2^32` bytes are buffered when a call is made. -/
def Fits (session : TcpSocket) (chunks : List (List Byte)) : Prop :=
  ∀ arrived chunk d, arrived ++ [chunk] <+: chunks →
    Receives onSessionReadBody ⟨session,[]⟩ arrived d → (d.socket.input ++ chunk).length < 2^32

theorem receives_parses {session : TcpSocket} (hopen : session.bev.isSome)
    (hempty : session.input = []) {chunks : List (List Byte)} (hfits : Fits session chunks)
    {ps : List Payload} {t : List Byte} (h : Parses chunks.flatten ps t) :
    ∃ d, Receives onSessionReadBody ⟨session,[]⟩ chunks d ∧ d.socket.bev.isSome ∧
      d.passes = ps.map framePass ∧ d.socket.input = t := by
  induction chunks using List.reverseRecOn generalizing ps t with
  | nil =>
    have hnone : Parses [] [] [] := ⟨rfl,.inl (by decide)⟩
    obtain ⟨rfl,rfl⟩ := h.unique hnone
    exact ⟨_,.nil _,hopen,rfl,hempty⟩
  | append_singleton chunks chunk ih =>
    rw [List.flatten_append,List.flatten_singleton] at h
    obtain ⟨front,tail,back,hfront,hback,rfl⟩ := h.cut
    have hbefore : Fits session chunks := fun arrived next d hp =>
      hfits arrived next d (hp.trans (List.prefix_append _ _))
    obtain ⟨d,hd,hsome,hpasses,rfl⟩ := ih hbefore hfront
    have hsome' : (d.socket.arrive chunk).bev.isSome := by simpa [arrive_isSome] using hsome
    obtain ⟨exit,hret,hexit⟩ := decode_parses .returned hback
      (hfits chunks chunk d List.prefix_rfl hd) (d := ⟨d.socket.arrive chunk,d.passes⟩)
      (arrive_input hsome chunk)
    rw [← onSessionReadBody_eq] at hret
    refine ⟨_,.snoc hd hret (by rcases hexit with rfl | rfl <;> decide),by simpa using hsome',?_,
      TcpSocket.setInput_input hsome' _⟩
    rw [hpasses,← List.map_append]

/-- The bytes of the packets read, and the bytes still there, are all that came, and no packet
is shorter than its header. -/
structure Accounted (received : List Byte) (d : Decoding) : Prop where
  bytes : d.passes.flatMap Pass.removed ++ d.socket.input = received
  headers : ∀ p ∈ d.passes, tpkt1Length ≤ p.removed.length

def account (d : Decoding) : List Byte :=
  d.passes.flatMap (fun p => p.resync ++ p.removed) ++ d.socket.input

theorem pass_account {d d' : Decoding} (h : pass .returned id d = .inl d') :
    account d' = account d := by
  obtain ⟨hc,_,hin,hpasses⟩ := pass_next h
  have hfour := hc.1
  have htaken : (passOf id d.socket.input).resync ++ ((passOf id d.socket.input).removed ++
      next d.socket.input) = d.socket.input := by
    simp only [passOf,next,List.take_append_drop,fromPacket]
    split_ifs
    · rfl
    · rw [← List.drop_one,List.take_append_drop]
  rw [account,hin,hpasses,List.flatMap_append,List.flatMap_singleton,List.append_assoc,
    List.append_assoc,htaken,account]

theorem reaches_account {d d' : Decoding} (h : Reaches (pass .returned id) d d') :
    account d' = account d := by
  induction h with
  | refl => rfl
  | tail _ hb ih => rw [pass_account hb,ih]

theorem reaches_input_le {d d' : Decoding} (h : Reaches (pass .returned id) d d') :
    d'.socket.input.length ≤ d.socket.input.length := by
  obtain ⟨more,hmore⟩ := reaches_passes h
  have hlength := congrArg List.length (reaches_account h)
  simp only [account,← hmore,List.flatMap_append,List.length_append] at hlength
  omega

theorem kept_length_le (b : List Byte) : (kept b).length ≤ b.length := by
  unfold kept
  split_ifs
  · exact le_rfl
  · rw [fromPacket_length]
    split_ifs <;> omega

/-- What is left of an incomplete packet is pending, if it is all of it. -/
theorem kept_pending {b : List Byte} (hc : ¬ Complete b) (hlen : b.length < 2^32)
    (hall : b.length ≤ (kept b).length) : kept b = b ∧ Pending b := by
  have h32 : uint32 b.length = b.length := Nat.mod_eq_of_lt hlen
  by_cases h4 : b.length < 4
  · exact ⟨by simp [kept,h4],.inl h4⟩
  · have hkept : kept b = fromPacket b := by
      rw [kept,if_neg (by rw [h32]; omega)]
    by_cases hm : HasMagic b
    · refine ⟨by rw [hkept,fromPacket,if_pos hm],.inr ⟨hm,?_⟩⟩
      by_contra hle
      exact hc ⟨not_lt.mp h4,by omega,by omega⟩
    · rw [hkept,fromPacket_length,if_neg hm] at hall
      omega

theorem returns_account {d d' : Decoding} {exit : Exit}
    (h : Returns (pass .returned id) d (exit,d')) (hopen : d.socket.bev.isSome)
    (hlen : d.socket.input.length < 2^32) :
    (account d').length ≤ (account d).length ∧
      ((account d).length ≤ (account d').length →
        account d' = account d ∧ Pending d'.socket.input) := by
  obtain ⟨u,hu,hc,rfl⟩ := returns_cases h
  have hsame := reaches_account hu
  have hin : (u.socket.setInput (kept u.socket.input)).input = kept u.socket.input :=
    TcpSocket.setInput_input (Reaches.isSome hu hopen) _
  have hle := kept_length_le u.socket.input
  have hless := reaches_input_le hu
  rw [← hsame]
  simp only [account,hin,List.length_append]
  refine ⟨by omega,fun hall => ?_⟩
  obtain ⟨hkept,hpending⟩ := kept_pending hc (by omega) (by omega)
  rw [hkept]
  exact ⟨rfl,hpending⟩

/-- A decoding that has received the bytes. Only packets that were complete are passes. -/
structure Receiving (received : List Byte) (d : Decoding) : Prop where
  opened : d.socket.bev.isSome
  passes : ∀ p ∈ d.passes, ∃ b, Complete b ∧ p = passOf id b
  bound : (account d).length ≤ received.length
  whole : received.length ≤ (account d).length → account d = received ∧ Pending d.socket.input

theorem receives_receiving {session : TcpSocket} (hopen : session.bev.isSome)
    (hempty : session.input = []) {chunks : List (List Byte)} (hfits : Fits session chunks)
    {d : Decoding} (h : Receives onSessionReadBody ⟨session,[]⟩ chunks d) :
    Receiving chunks.flatten d := by
  induction chunks using List.reverseRecOn generalizing d with
  | nil =>
    rw [receives_nil h]
    exact ⟨hopen,by simp,by simp [account,hempty],fun _ => ⟨by simp [account,hempty],
      .inl (by simp [hempty])⟩⟩
  | append_singleton chunks chunk ih =>
    obtain ⟨u,exit,hu,hret,_⟩ := receives_snoc h
    have hbefore := ih (fun arrived next v hp =>
      hfits arrived next v (hp.trans (List.prefix_append _ _))) hu
    have hsome : (u.socket.arrive chunk).bev.isSome := by
      simpa [arrive_isSome] using hbefore.opened
    have hin := arrive_input hbefore.opened chunk
    have haccount : account ⟨u.socket.arrive chunk,u.passes⟩ = account u ++ chunk := by
      rw [account,hin,account,List.append_assoc]
    rw [onSessionReadBody_eq] at hret
    obtain ⟨hle,hall⟩ := returns_account hret hsome
      (by rw [hin]; exact hfits chunks chunk u List.prefix_rfl hu)
    obtain ⟨v,hv,_,hd⟩ := returns_cases hret
    rw [haccount,List.length_append] at hle hall
    have hbound := hbefore.bound
    simp only [List.flatten_append,List.flatten_singleton]
    refine ⟨Returns.isSome hret hsome,fun p hp => ?_,by rw [List.length_append]; omega,
      fun hlen => ?_⟩
    · rw [hd] at hp
      rcases (reaches_leads hv).2 p hp with hp | ⟨b,_,hb,rfl⟩
      · exact hbefore.passes p hp
      · exact ⟨b,hb,rfl⟩
    · rw [List.length_append] at hlen
      obtain ⟨hsame,hpending⟩ := hall (by omega)
      obtain ⟨hreceived,_⟩ := hbefore.whole (by omega)
      exact ⟨by rw [hsame,hreceived],hpending⟩

theorem lengthField_announced (x y z : Byte) :
    lengthField (x.toNat*2^16 + y.toNat*2^8 + z.toNat) = [x,y,z] := by
  have hx := x.toNat_lt
  have hy := y.toNat_lt
  have hz := z.toNat_lt
  have hhigh : (x.toNat*2^16 + y.toNat*2^8 + z.toNat)/2^16 = x.toNat := by omega
  have hmiddle : (x.toNat*2^16 + y.toNat*2^8 + z.toNat)/2^8 = x.toNat*2^8 + y.toNat := by omega
  rw [lengthField,hhigh,hmiddle]
  simp only [List.cons.injEq,and_true,← UInt8.toNat_inj,UInt8.toNat_ofNat']
  omega

theorem four_bytes {b : List Byte} (h : 4 ≤ b.length) :
    ∃ b0 b1 b2 b3 rest, b = b0::b1::b2::b3::rest := by
  rcases b with _ | ⟨b0,_ | ⟨b1,_ | ⟨b2,_ | ⟨b3,rest⟩⟩⟩⟩
  · simp at h
  · simp at h
  · simp at h
  · simp at h
  · exact ⟨b0,b1,b2,b3,rest,rfl⟩

theorem passOf_frame {b : List Byte} (hc : Complete b) (hresync : (passOf id b).resync = [])
    (hheader : tpkt1Length ≤ (passOf id b).removed.length) :
    ∃ p, passOf id b = framePass p := by
  have hfour := hc.1
  have hle := hc.announced_le
  have hlt := announced_lt b
  have hm : HasMagic b := by
    by_contra hm
    have hnil : b = [] := by simpa [passOf,hm] using hresync
    simp [hnil] at hfour
  have hremoved : (passOf id b).removed = b.take (announced b) := by simp [passOf,fromPacket,hm]
  have hatleast : 4 ≤ announced b := by
    rw [hremoved,List.length_take] at hheader
    exact hheader.trans (min_le_left _ _)
  obtain ⟨b0,b1,b2,b3,rest,rfl⟩ := four_bytes hfour
  obtain ⟨n,hn⟩ := Nat.exists_eq_add_of_le' hatleast
  rw [hn] at hle hlt hremoved
  have hpayload : (rest.take n).length = n := by
    simp only [List.length_cons] at hle
    rw [List.length_take]
    omega
  have hfits : (rest.take n).length+tpkt1Length ≤ tpkt1MaxMsgLength := by
    rw [hpayload,tpkt1Length,tpkt1MaxMsgLength]
    omega
  have hmagic : b0 = tpktVersion1LowByte := hm
  have hfields : lengthField (n+4) = [b1,b2,b3] := by
    rw [← hn]
    exact lengthField_announced b1 b2 b3
  have hframe : (passOf id (b0::b1::b2::b3::rest)).removed = frame (rest.take n) := by
    rw [hremoved,frame,hpayload,tpkt1Length,hfields,hmagic]
    rfl
  have hread : sub32 (n+4) tpkt1Length = n := by
    simp only [sub32,uint32,tpkt1Length]
    omega
  refine ⟨⟨rest.take n,hfits⟩,?_⟩
  rw [framePass,Payload.frame,frame_length,← hframe,hpayload]
  simp [passOf,hm,hn,hread]

theorem resync_nil {ps : List Pass}
    (h : (ps.flatMap fun p => p.resync ++ p.removed).length ≤ (ps.flatMap Pass.removed).length) :
    ∀ p ∈ ps, p.resync = [] := by
  induction ps with
  | nil => simp
  | cons p ps ih =>
    have hmore : (ps.flatMap Pass.removed).length ≤
        (ps.flatMap fun p => p.resync ++ p.removed).length := by
      simp only [List.length_flatMap,List.length_append]
      exact List.sum_le_sum fun q _ => Nat.le_add_left _ _
    simp only [List.flatMap_cons,List.length_append] at h
    have hp : p.resync.length = 0 := by omega
    intro q hq
    rcases List.mem_cons.mp hq with rfl | hq
    · exact List.length_eq_zero_iff.mp hp
    · exact ih (by omega) q hq

theorem Receiving.frames {received : List Byte} {d : Decoding} (h : Receiving received d)
    (hd : Accounted received d) : ∃ ps : List Payload, d.passes = ps.map framePass := by
  have hresync : ∀ p ∈ d.passes, p.resync = [] := by
    have hbound := h.bound
    rw [← hd.bytes,account,List.length_append,List.length_append] at hbound
    exact resync_nil (Nat.le_of_add_le_add_right hbound)
  have hframe : ∀ p ∈ d.passes, p ∈ Set.range framePass := by
    intro p hp
    obtain ⟨b,hb,rfl⟩ := h.passes p hp
    obtain ⟨q,hq⟩ := passOf_frame hb (hresync _ hp) (hd.headers _ hp)
    exact ⟨q,hq.symm⟩
  have hrange : d.passes ∈ Set.range (List.map framePass) := by
    rw [Set.range_list_map]
    exact hframe
  obtain ⟨ps,hps⟩ := hrange
  exact ⟨ps,hps.symm⟩

theorem removed_framePass (ps : List Payload) :
    (ps.map framePass).flatMap Pass.removed = encode ps := by
  rw [encode,List.flatMap_map]
  rfl

/-- The decoder accepts the language of the format, however a stream is cut. Frames with part
of a frame behind them are received with every byte accounted for: the payloads are delivered
and the part is kept. Where every byte of what was received is accounted for, it is such
frames, in one way only, and their payloads were delivered. -/
theorem accepts_frames_only (session : TcpSocket) (hopen : session.bev.isSome)
    (hempty : session.input = []) (chunks : List (List Byte)) (hfits : Fits session chunks) :
    (∀ ps t, Parses chunks.flatten ps t →
      ∃ d, Receives onSessionReadBody ⟨session,[]⟩ chunks d ∧ Accounted chunks.flatten d ∧
        messages d.passes = ps.map (fun p => .ofPayload p.bytes) ∧ d.socket.input = t) ∧
    ∀ d, Receives onSessionReadBody ⟨session,[]⟩ chunks d → Accounted chunks.flatten d →
      ∃ ps, Parses chunks.flatten ps d.socket.input ∧
        messages d.passes = ps.map (fun p => .ofPayload p.bytes) ∧
        ∀ qs u, Parses chunks.flatten qs u → qs = ps ∧ u = d.socket.input := by
  constructor
  · intro ps t h
    obtain ⟨d,hd,_,hpasses,rfl⟩ := receives_parses hopen hempty hfits h
    refine ⟨d,hd,⟨?_,fun p hp => ?_⟩,by rw [hpasses,messages_framePass],rfl⟩
    · rw [hpasses,removed_framePass,← h.frames]
    · rw [hpasses] at hp
      obtain ⟨q,_,rfl⟩ := List.mem_map.mp hp
      simp [framePass,tpkt1Length]
  · intro d hd haccounted
    have hreceiving := receives_receiving hopen hempty hfits hd
    obtain ⟨ps,hpasses⟩ := hreceiving.frames haccounted
    have hbytes := haccounted.bytes
    rw [hpasses,removed_framePass] at hbytes
    have haccount : account d = chunks.flatten := by
      rw [← hbytes,account,hpasses,List.flatMap_map,encode]
      rfl
    obtain ⟨_,hpending⟩ := hreceiving.whole (by rw [haccount])
    have hparses : Parses chunks.flatten ps d.socket.input := ⟨hbytes.symm,hpending⟩
    exact ⟨ps,hparses,by rw [hpasses,messages_framePass],fun qs u hqs => hqs.unique hparses⟩

theorem receives_input_le {session : TcpSocket} (hopen : session.bev.isSome)
    (hempty : session.input = []) {chunks : List (List Byte)} {d : Decoding}
    (h : Receives onSessionReadBody ⟨session,[]⟩ chunks d) :
    d.socket.bev.isSome ∧ d.socket.input.length ≤ chunks.flatten.length := by
  induction chunks using List.reverseRecOn generalizing d with
  | nil =>
    rw [receives_nil h]
    exact ⟨hopen,by simp [hempty]⟩
  | append_singleton chunks chunk ih =>
    obtain ⟨u,exit,hu,hret,_⟩ := receives_snoc h
    obtain ⟨hsome,hle⟩ := ih hu
    have hsome' : (u.socket.arrive chunk).bev.isSome := by simpa [arrive_isSome] using hsome
    have hin := arrive_input hsome chunk
    rw [onSessionReadBody_eq] at hret
    refine ⟨Returns.isSome hret hsome',?_⟩
    obtain ⟨v,hv,_,rfl⟩ := returns_cases hret
    have hkept := kept_length_le v.socket.input
    have hless := reaches_input_le hv
    rw [hin,List.length_append] at hless
    rw [TcpSocket.setInput_input (Reaches.isSome hv hsome'),List.flatten_append,
      List.flatten_singleton,List.length_append]
    omega

theorem fits_of_length {session : TcpSocket} (hopen : session.bev.isSome)
    (hempty : session.input = []) {chunks : List (List Byte)} (h : chunks.flatten.length < 2^32) :
    Fits session chunks := by
  rintro arrived chunk d ⟨rest,rfl⟩ hd
  obtain ⟨_,hle⟩ := receives_input_le hopen hempty hd
  simp only [List.flatten_append,List.flatten_singleton,List.length_append] at h ⊢
  omega

theorem accepts_frames_only_cut :
    ∃ d, Receives onSessionReadBody ⟨⟨some (.fresh []),false⟩,[]⟩ [[1,0],[0,5,9,7],[7]] d ∧
      Accounted [1,0,0,5,9,7,7] d ∧ messages d.passes = [.ofPayload [9]] ∧
      d.socket.input = [7,7] := by
  exact (accepts_frames_only ⟨some (.fresh []),false⟩ rfl rfl [[1,0],[0,5,9,7],[7]]
    (fits_of_length rfl rfl (by decide))).1 [⟨[9],by decide⟩] [7,7] ⟨rfl,by decide⟩

end TpktAcceptance
end Translib
