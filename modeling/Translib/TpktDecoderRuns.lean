import Translib.Framing
import Translib.TpktDecoder

/-! Runs of a decoding loop over arbitrary bytes, and over a stream of frames. -/

namespace Translib
namespace TpktDecoder

open TpktFormat LoopMachine

variable {short : Exit} {alloc : ℕ → ℕ}

theorem pass_complete (short : Exit) (alloc : ℕ → ℕ) {d : Decoding} (h : Complete d.socket.input) :
    pass short alloc d =
      .inl ⟨d.socket.setInput (next d.socket.input),d.passes ++ [passOf alloc d.socket.input]⟩ := by
  have h1 : ¬ uint32 d.socket.input.length < 1 := not_lt.mpr h.2.1
  have h4 : ¬ d.socket.input.length < 4 := not_lt.mpr h.1
  simp only [pass]
  rw [if_neg h1,if_neg h4,if_pos h]

theorem Complete.isSome {s : TcpSocket} (h : Complete s.input) : s.bev.isSome :=
  TcpSocket.isSome_of_input_ne fun hn => by simp [hn,Complete] at h

def exitOf (short : Exit) (b : List Byte) : Exit :=
  if 1 ≤ uint32 b.length ∧ b.length < 4 then short else .broke

theorem exitOf_cases (short : Exit) (b : List Byte) :
    exitOf short b = .broke ∨ exitOf short b = short := by
  unfold exitOf
  split_ifs <;> simp

theorem pass_incomplete (short : Exit) (alloc : ℕ → ℕ) {d : Decoding}
    (h : ¬ Complete d.socket.input) :
    pass short alloc d =
      .inr (exitOf short d.socket.input,
        ⟨d.socket.setInput (kept d.socket.input),d.passes⟩) := by
  simp only [pass,kept,exitOf]
  by_cases h1 : uint32 d.socket.input.length < 1
  · rw [if_pos h1,if_neg (fun h => not_lt.mpr h.1 h1),if_pos (.inl h1),TcpSocket.setInput_self]
  · by_cases h4 : d.socket.input.length < 4
    · rw [if_neg h1,if_pos h4,if_pos ⟨not_lt.mp h1,h4⟩,if_pos (.inr h4),TcpSocket.setInput_self]
    · rw [if_neg h1,if_neg h4,if_neg h,if_neg (fun h => h4 h.2),
        if_neg (by rintro (h | h) <;> contradiction)]

theorem pass_next {d d' : Decoding} (h : pass short alloc d = .inl d') :
    Complete d.socket.input ∧ d'.socket = d.socket.setInput (next d.socket.input) ∧
      d'.socket.input = next d.socket.input ∧
      d'.passes = d.passes ++ [passOf alloc d.socket.input] := by
  by_cases hc : Complete d.socket.input
  · rw [pass_complete short alloc hc] at h
    cases h
    exact ⟨hc,rfl,TcpSocket.setInput_input (Complete.isSome hc) _,rfl⟩
  · rw [pass_incomplete short alloc hc] at h
    cases h

/-- The loop heads reached are at the header positions the input leads to, and the
passes made are the packets found there. -/
theorem reaches_leads {d d' : Decoding} (h : Reaches (pass short alloc) d d') :
    Leads d.socket.input d'.socket.input ∧
      ∀ p ∈ d'.passes, p ∈ d.passes ∨
        ∃ b, Leads d.socket.input b ∧ Complete b ∧ p = passOf alloc b := by
  induction h with
  | refl => exact ⟨.refl,fun p hp => .inl hp⟩
  | tail _ hb ih =>
    obtain ⟨hc,_,hin,hpasses⟩ := pass_next hb
    refine ⟨ih.1.tail ⟨hc,hin⟩,fun p hp => ?_⟩
    rw [hpasses,List.mem_append,List.mem_singleton] at hp
    rcases hp with hp | hp
    · exact ih.2 p hp
    · exact .inr ⟨_,ih.1,hc,hp⟩

theorem Reaches.isSome {d d' : Decoding} (h : Reaches (pass short alloc) d d')
    (hopen : d.socket.bev.isSome) : d'.socket.bev.isSome :=
  h.invariant (I := fun d => d.socket.bev.isSome) hopen fun a b ha hb => by
    rw [(pass_next hb).2.1]
    simpa using ha

/-- A loop that returns is left at the first header position with an incomplete packet. -/
theorem returns_cases {d d' : Decoding} {exit : Exit}
    (h : Returns (pass short alloc) d (exit,d')) :
    ∃ u, Reaches (pass short alloc) d u ∧ ¬ Complete u.socket.input ∧
      d' = ⟨u.socket.setInput (kept u.socket.input),u.passes⟩ := by
  obtain ⟨u,hu,hstop⟩ := returns_iff_reaches.mp h
  have hc : ¬ Complete u.socket.input := fun hc => by simp [pass_complete short alloc hc] at hstop
  rw [pass_incomplete short alloc hc] at hstop
  cases hstop
  exact ⟨u,hu,hc,rfl⟩

theorem Returns.isSome {d d' : Decoding} {exit : Exit}
    (h : Returns (pass short alloc) d (exit,d')) (hopen : d.socket.bev.isSome) :
    d'.socket.bev.isSome := by
  obtain ⟨u,hu,_,rfl⟩ := returns_cases h
  simpa using Reaches.isSome hu hopen

theorem reaches_passes {d d' : Decoding} (h : Reaches (pass short alloc) d d') :
    d.passes <+: d'.passes := by
  induction h with
  | refl => exact List.prefix_rfl
  | tail _ hb ih =>
    obtain ⟨_,_,_,hpasses⟩ := pass_next hb
    rw [hpasses]
    exact ih.trans (List.prefix_append _ _)

theorem returns_passes {d d' : Decoding} {exit : Exit}
    (h : Returns (pass short alloc) d (exit,d')) : d.passes <+: d'.passes := by
  obtain ⟨u,hu,_,rfl⟩ := returns_cases h
  exact show d.passes <+: u.passes from reaches_passes hu

theorem leads_reaches (short : Exit) (alloc : ℕ → ℕ) {d : Decoding} {b : List Byte}
    (h : Leads d.socket.input b) :
    ∃ d', Reaches (pass short alloc) d d' ∧ d'.socket.input = b := by
  induction h with
  | refl => exact ⟨d,.refl,rfl⟩
  | tail _ hb ih =>
    obtain ⟨d',hd,hin⟩ := ih
    obtain ⟨hc,rfl⟩ := hb
    subst hin
    exact ⟨_,hd.tail (pass_complete short alloc hc),TcpSocket.setInput_input (Complete.isSome hc) _⟩

theorem returns_leaves {d d' : Decoding} {exit : Exit}
    (h : Returns (pass short alloc) d (exit,d')) : Leaves d.socket.input d'.socket.input := by
  obtain ⟨u,hu,hc,rfl⟩ := returns_cases h
  refine ⟨u.socket.input,(reaches_leads hu).1,hc,?_⟩
  cases hb : u.socket.bev with
  | none => simp [TcpSocket.setInput,TcpSocket.withBev,TcpSocket.input,hb,kept]
  | some b => exact TcpSocket.setInput_input (by simp [hb]) _

theorem leaves_returns (short : Exit) (alloc : ℕ → ℕ) {d : Decoding} {t : List Byte}
    (hopen : d.socket.bev.isSome) (h : Leaves d.socket.input t) :
    ∃ exit d', Returns (pass short alloc) d (exit,d') ∧ d'.socket.input = t := by
  obtain ⟨b,hb,hc,rfl⟩ := h
  obtain ⟨u,hu,rfl⟩ := leads_reaches short alloc hb
  have hret := hu.returns ((returns_stop_iff (pass_incomplete short alloc hc)).mpr rfl)
  exact ⟨_,_,hret,TcpSocket.setInput_input (Reaches.isSome hu hopen) _⟩

/-- Chunks arrive one after another, and after each the loop is run and returns
normally. The passes of all these runs are recorded one after another. -/
inductive Receives (loop : Loop) : Decoding → List (List Byte) → Decoding → Prop
  | nil (d) : Receives loop d [] d
  | snoc {d d' d'' chunks chunk exit} : Receives loop d chunks d' →
      Returns loop ⟨d'.socket.arrive chunk,d'.passes⟩ (exit,d'') → exit ≠ .nullRead →
      Receives loop d (chunks ++ [chunk]) d''

theorem receives_nil {loop : Loop} {d d' : Decoding} (h : Receives loop d [] d') : d' = d := by
  generalize hc : ([] : List (List Byte)) = chunks at h
  cases h with
  | nil => rfl
  | snoc => simp at hc

theorem receives_snoc {loop : Loop} {d d'' : Decoding} {chunks : List (List Byte)}
    {chunk : List Byte} (h : Receives loop d (chunks ++ [chunk]) d'') :
    ∃ d' exit, Receives loop d chunks d' ∧
      Returns loop ⟨d'.socket.arrive chunk,d'.passes⟩ (exit,d'') ∧ exit ≠ .nullRead := by
  generalize hc : chunks ++ [chunk] = all at h
  cases h with
  | nil => simp at hc
  | @snoc d' _ chunks' chunk' exit hd hret hne =>
    obtain ⟨rfl,h2⟩ := List.append_inj' hc rfl
    cases h2
    exact ⟨d',exit,hd,hret,hne⟩

theorem Receives.det {loop : Loop} {d d' d'' : Decoding} {chunks : List (List Byte)}
    (h : Receives loop d chunks d') (h' : Receives loop d chunks d'') : d' = d'' := by
  induction h generalizing d'' with
  | nil => exact (receives_nil h').symm
  | snoc _ hret _ ih =>
    obtain ⟨u,exit,hu,hret',_⟩ := receives_snoc h'
    rw [← ih hu] at hret'
    exact congrArg Prod.snd (hret.det hret')

theorem receives_single_iff {loop : Loop} {d d' : Decoding} {chunk : List Byte} :
    Receives loop d [chunk] d' ↔
      ∃ exit, Returns loop ⟨d.socket.arrive chunk,d.passes⟩ (exit,d') ∧ exit ≠ .nullRead := by
  rw [← List.nil_append [chunk]]
  constructor
  · intro h
    obtain ⟨u,exit,hu,hret,hne⟩ := receives_snoc h
    rw [receives_nil hu] at hret
    exact ⟨exit,hret,hne⟩
  · rintro ⟨exit,hret,hne⟩
    exact .snoc (.nil d) hret hne

theorem receives_prefix {loop : Loop} {d d' : Decoding} {chunks arrived : List (List Byte)}
    (h : Receives loop d chunks d') (hp : arrived <+: chunks) : ∃ u, Receives loop d arrived u := by
  induction chunks using List.reverseRecOn generalizing d' with
  | nil => exact ⟨d',by simpa using List.prefix_nil.mp hp ▸ h⟩
  | append_singleton chunks chunk ih =>
    rcases List.prefix_concat_iff.mp hp with rfl | hp
    · exact ⟨d',h⟩
    · obtain ⟨u,_,hu,_,_⟩ := receives_snoc h
      exact ih hu hp

/-- What is buffered after each of the chunks, by the length fields alone. -/
inductive Buffered (b : List Byte) : List (List Byte) → List Byte → Prop
  | nil : Buffered b [] b
  | snoc {chunks chunk b' t} : Buffered b chunks b' → Leaves (b' ++ chunk) t →
      Buffered b (chunks ++ [chunk]) t

theorem buffered_nil {b t : List Byte} (h : Buffered b [] t) : t = b := by
  generalize hc : ([] : List (List Byte)) = chunks at h
  cases h with
  | nil => rfl
  | snoc => simp at hc

theorem buffered_snoc {b t : List Byte} {chunks : List (List Byte)} {chunk : List Byte}
    (h : Buffered b (chunks ++ [chunk]) t) :
    ∃ b', Buffered b chunks b' ∧ Leaves (b' ++ chunk) t := by
  generalize hc : chunks ++ [chunk] = all at h
  cases h with
  | nil => simp at hc
  | @snoc chunks' chunk' b' _ hb hleaves =>
    obtain ⟨rfl,h2⟩ := List.append_inj' hc rfl
    cases h2
    exact ⟨b',hb,hleaves⟩

theorem arrive_input {s : TcpSocket} (hopen : s.bev.isSome) (chunk : List Byte) :
    (s.arrive chunk).input = s.input ++ chunk := by
  rw [TcpSocket.arrive_eq]
  exact TcpSocket.setInput_input hopen _

theorem arrive_isSome (s : TcpSocket) (chunk : List Byte) :
    (s.arrive chunk).bev.isSome = s.bev.isSome := by
  rw [TcpSocket.arrive_eq]
  simp

theorem Receives.isSome {d d' : Decoding} {chunks : List (List Byte)}
    (h : Receives (pass short alloc) d chunks d') (hopen : d.socket.bev.isSome) :
    d'.socket.bev.isSome := by
  induction h with
  | nil => exact hopen
  | snoc _ hret _ ih => exact Returns.isSome hret (by simpa [arrive_isSome] using ih)

theorem receives_buffered {d d' : Decoding} {chunks : List (List Byte)}
    (h : Receives (pass short alloc) d chunks d') (hopen : d.socket.bev.isSome) :
    Buffered d.socket.input chunks d'.socket.input := by
  induction h with
  | nil => exact .nil
  | snoc hd hret _ ih =>
    have hleaves := returns_leaves hret
    rw [arrive_input (Receives.isSome hd hopen)] at hleaves
    exact .snoc ih hleaves

theorem buffered_unique {d d' : Decoding} {chunks : List (List Byte)} {t : List Byte}
    (h : Receives (pass short alloc) d chunks d') (hopen : d.socket.bev.isSome)
    (ht : Buffered d.socket.input chunks t) : d'.socket.input = t := by
  induction h generalizing t with
  | nil => exact (buffered_nil ht).symm
  | @snoc d' _ chunks chunk exit hd hret _ ih =>
    obtain ⟨b',hb',hleaves⟩ := buffered_snoc ht
    have hsome := Receives.isSome hd hopen
    rw [← ih hb',← arrive_input hsome] at hleaves
    obtain ⟨exit',u,hu,rfl⟩ := leaves_returns short alloc
      (d := ⟨d'.socket.arrive chunk,d'.passes⟩) (by simpa [arrive_isSome] using hsome) hleaves
    rw [(Prod.mk.inj (hret.det hu)).2]

def framePass (p : Payload) : Pass where
  resync := []
  removed := p.frame
  allocated := p.frame.length
  onRead := some p.bytes.length

theorem frame_message (p : Payload) : (framePass p).message = some (.ofPayload p.bytes) := by
  simp [framePass,Pass.message,Pass.frameBuffer,Message.ofPayload,Payload.frame,tpkt1Length,
    ← List.map_drop,List.take_of_length_le]

theorem messages_framePass (ps : List Payload) :
    messages (ps.map framePass) = ps.map fun p => .ofPayload p.bytes := by
  simp [messages,List.filterMap_map,frame_message]

theorem frame_complete (p : Payload) (rest : List Byte)
    (hlen : p.bytes.length+4 ≤ uint32 (p.frame ++ rest).length) :
    Complete (p.frame ++ rest) ∧ next (p.frame ++ rest) = rest ∧
      passOf id (p.frame ++ rest) = framePass p := by
  have hm := p.hasMagic rest
  have ha := p.announced rest
  have hf := p.frame_length
  have hlt := p.length_lt
  have hsub : sub32 (p.bytes.length+4) tpkt1Length = p.bytes.length := by
    simp only [sub32,uint32,tpkt1Length]
    omega
  refine ⟨⟨by simp [hf]; omega,by omega,by omega⟩,?_,?_⟩
  · rw [next,fromPacket,if_pos hm,ha,List.drop_append_of_le_length hf.ge,← hf]
    simp
  · rw [passOf,fromPacket,if_pos hm,if_pos hm,ha,hsub,List.take_append_of_le_length hf.ge,← hf]
    simp [framePass]

theorem part_incomplete (p : Payload) {b : List Byte} (hp : b <+: p.frame)
    (hlt : b.length < p.frame.length) : ¬ Complete b ∧ kept b = b := by
  have hf := p.frame_length
  by_cases h4 : b.length < 4
  · exact ⟨fun h => not_lt.mpr h.1 h4,by simp [kept,h4]⟩
  · obtain ⟨hm,ha⟩ := header_prefix hp (not_lt.mp h4)
    have hframe : announced p.frame = p.bytes.length+4 := by simpa using p.announced []
    have hmagic : HasMagic b := hm.mpr (by simpa using p.hasMagic [])
    refine ⟨fun h => ?_,by simp [kept,fromPacket,hmagic]⟩
    have hle := h.announced_le
    omega

/-- A loop over the frames a buffer holds whole, and part of the next one. -/
theorem decode_frames (short : Exit) {sent done : List Payload} {b tail : List Byte}
    (hw : Framing.Whole Payload.frame sent b done tail) (hp : b <+: encode sent)
    (hlen : b.length < 2^32) {d : Decoding} (hd : d.socket.input = b) :
    ∃ exit, Returns (pass short id) d
        (exit,⟨d.socket.setInput tail,d.passes ++ done.map framePass⟩) ∧
      (exit = .broke ∨ exit = short) := by
  induction done generalizing sent b d with
  | nil =>
    have hb : b = tail := by simpa using hw.received_eq
    subst hb
    have hstop : ¬ Complete b ∧ kept b = b := by
      rcases hw.tail_prefix hp with ⟨_,rfl⟩ | ⟨p,hsent,hpart⟩
      · exact ⟨by simp [Complete],by simp [kept]⟩
      · exact part_incomplete p hpart (hw.tail_short p hsent)
    rw [← hd] at hstop
    refine ⟨exitOf short d.socket.input,(returns_stop_iff (pass_incomplete short id hstop.1)).mpr ?_,
      exitOf_cases _ _⟩
    rw [hstop.2,hd]
    simp
  | cons p done ih =>
    obtain ⟨rest,rfl⟩ : ∃ rest, sent = p::rest := by
      obtain ⟨t,rfl⟩ := hw.done_prefix
      exact ⟨done++t,by simp⟩
    obtain ⟨b',rfl⟩ : ∃ b', b = p.frame ++ b' := ⟨done.flatMap Payload.frame ++ tail,by
      simp [hw.received_eq]⟩
    have hf : p.frame.length = p.bytes.length+4 := frame_length p.bytes
    have h32 : uint32 (p.frame ++ b').length = (p.frame ++ b').length := Nat.mod_eq_of_lt hlen
    rw [List.length_append] at hlen h32
    obtain ⟨hc,hnext,hpass⟩ := frame_complete p b' (by rw [List.length_append]; omega)
    have hw' : Framing.Whole Payload.frame rest b' done tail := by
      refine ⟨by simpa using hw.done_prefix,?_,fun a ha => hw.tail_short a (by simpa using ha)⟩
      simpa using hw.received_eq
    have hp' : b' <+: encode rest := by
      simpa [encode,List.flatMap_cons,List.prefix_append_right_inj] using hp
    have hc' : Complete d.socket.input := by rwa [hd]
    have hstep := pass_complete short id hc'
    rw [hd,hnext,hpass] at hstep
    obtain ⟨exit,hret,hexit⟩ := ih hw' hp' (by omega)
      (d := ⟨d.socket.setInput b',d.passes ++ [framePass p]⟩)
      (TcpSocket.setInput_input (Complete.isSome hc') b')
    exact ⟨exit,(returns_next_iff hstep).mpr (by simpa using hret),hexit⟩

end TpktDecoder
end Translib
