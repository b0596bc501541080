import Translib.TcpClientTPKT
import Translib.TcpServerTPKT
import Translib.TpktDecoderRuns

/-! The two copies of the decoding loop compared pass by pass. -/

namespace Translib
namespace TpktAgreement

open TpktFormat TpktDecoder LoopMachine

/-- After no chunk is a header position of the buffered bytes one to three bytes before
their end. -/
def NoShortHeader (buffered : List Byte) (chunks : List (List Byte)) : Prop :=
  ∀ arrived chunk, arrived ++ [chunk] <+: chunks → ∀ b, Buffered buffered arrived b →
    ∀ b', Leads (b ++ chunk) b' → b' = [] ∨ 4 ≤ b'.length

/-- Whatever the server has done after some of the chunks, the client has returned
too, was given messages of the same lengths, and buffers the same bytes. -/
def Agrees (socket : TcpSocket) (chunks : List (List Byte)) : Prop :=
  ∀ arrived, arrived <+: chunks → ∀ d,
    Receives TcpServerTPKT.onSessionReadBody ⟨socket,[]⟩ arrived d →
    ∃ d', Receives TcpClientTPKT.onReadBody ⟨socket,[]⟩ arrived d' ∧
      lengths d'.passes = lengths d.passes ∧ d'.socket.input = d.socket.input

def Same (d d' : Decoding) : Prop :=
  d'.socket = d.socket ∧ lengths d'.passes = lengths d.passes

theorem exitOf_broke {short : Exit} {b : List Byte} (h : b = [] ∨ 4 ≤ b.length) :
    exitOf short b = .broke := by
  rcases h with rfl | h
  · rfl
  · exact if_neg fun hshort => not_lt.mpr h hshort.2

theorem exitOf_short {short : Exit} {b : List Byte} (hne : b ≠ []) (hlt : b.length < 4) :
    exitOf short b = short := by
  have hpos := List.length_pos_iff.mpr hne
  have h32 : uint32 b.length = b.length := Nat.mod_eq_of_lt (by omega)
  exact if_pos ⟨by omega,hlt⟩

/-- One pass of both loops, at a header position that is not a short one. -/
theorem lockstep_pass {d d' : Decoding} (hlong : d.socket.input = [] ∨ 4 ≤ d.socket.input.length)
    (h : Same d d') :
    Lockstep Same (fun r r' => r'.1 ≠ .nullRead ∧ Same r.2 r'.2)
      (TcpServerTPKT.onSessionReadBody d) (TcpClientTPKT.onReadBody d') := by
  obtain ⟨hsocket,hlengths⟩ := h
  rw [TcpServerTPKT.onSessionReadBody_eq,TcpClientTPKT.onReadBody_eq]
  by_cases hc : Complete d.socket.input
  · have hc' : Complete d'.socket.input := by rwa [hsocket]
    rw [pass_complete .returned id hc,pass_complete .nullRead _ hc']
    refine ⟨by simp only [hsocket],?_⟩
    have hpass : (passOf (fun _ => TcpClientTPKT.sizeofPacketLength) d'.socket.input).onRead =
        (passOf id d.socket.input).onRead := by
      rw [hsocket]
      rfl
    simp only [lengths,List.filterMap_append,List.filterMap_cons,List.filterMap_nil,hpass]
    simp only [lengths] at hlengths
    rw [hlengths]
  · have hc' : ¬ Complete d'.socket.input := by rwa [hsocket]
    rw [pass_incomplete .returned id hc,pass_incomplete .nullRead _ hc']
    have hexit : exitOf .nullRead d'.socket.input ≠ .nullRead := by
      rw [hsocket,exitOf_broke hlong]
      decide
    exact ⟨hexit,by simp only [hsocket],hlengths⟩

theorem short_header_nullRead {d d' : Decoding} {b : List Byte} {exit : Exit}
    (hret : Returns TcpClientTPKT.onReadBody d (exit,d')) (hb : Leads d.socket.input b)
    (hne : b ≠ []) (hlt : b.length < 4) : exit = .nullRead := by
  rw [TcpClientTPKT.onReadBody_eq] at hret
  obtain ⟨u,hu,rfl⟩ := leads_reaches .nullRead (fun _ => TcpClientTPKT.sizeofPacketLength) hb
  have hc : ¬ Complete u.socket.input := fun hc => not_lt.mpr hc.1 hlt
  have hstop := (returns_stop_iff (pass_incomplete _ _ hc)).mp (hu.returns_iff.mp hret)
  rw [(Prod.mk.inj hstop).1,exitOf_short hne hlt]

/-- The run lemma: chunk by chunk, the client follows the server. -/
theorem client_follows {socket : TcpSocket} (hopen : socket.bev.isSome)
    {chunks : List (List Byte)} (hlong : NoShortHeader socket.input chunks) {d : Decoding}
    (h : Receives TcpServerTPKT.onSessionReadBody ⟨socket,[]⟩ chunks d) :
    ∃ d', Receives TcpClientTPKT.onReadBody ⟨socket,[]⟩ chunks d' ∧ Same d d' := by
  induction chunks using List.reverseRecOn generalizing d with
  | nil =>
    rw [receives_nil h]
    exact ⟨_,.nil _,rfl,rfl⟩
  | append_singleton chunks chunk ih =>
    obtain ⟨u,exit,hu,hret,_⟩ := receives_snoc h
    obtain ⟨u',hu',hsocket,hlengths⟩ := ih
      (fun arrived c hp => hlong arrived c (hp.trans (List.prefix_append _ _))) hu
    rw [TcpServerTPKT.onSessionReadBody_eq] at hu
    have hbuffered := receives_buffered hu hopen
    have harrive := arrive_input (Receives.isSome hu hopen) chunk
    have hstart : Same ⟨u.socket.arrive chunk,u.passes⟩ ⟨u'.socket.arrive chunk,u'.passes⟩ :=
      ⟨by simp only [hsocket],hlengths⟩
    have hheads (v : Decoding) (hv : Reaches TcpServerTPKT.onSessionReadBody
        ⟨u.socket.arrive chunk,u.passes⟩ v) :
        v.socket.input = [] ∨ 4 ≤ v.socket.input.length := by
      rw [TcpServerTPKT.onSessionReadBody_eq] at hv
      have hleads := (reaches_leads hv).1
      rw [harrive] at hleads
      exact hlong chunks chunk List.prefix_rfl _ hbuffered _ hleads
    obtain ⟨⟨exit',d'⟩,hret',hne,hsame⟩ :=
      hret.lockstep hheads hstart (fun a b ha hab => lockstep_pass ha hab)
    exact ⟨d',.snoc hu' hret' hne,hsame⟩

/-- The client does what the server does, exactly on the streams whose chunks never end
within a header. -/
theorem agrees_iff (socket : TcpSocket) (hopen : socket.bev.isSome) (chunks : List (List Byte))
    (d : Decoding) (h : Receives TcpServerTPKT.onSessionReadBody ⟨socket,[]⟩ chunks d) :
    Agrees socket chunks ↔ NoShortHeader socket.input chunks := by
  constructor
  · intro hagrees arrived chunk hp b hb b' hb'
    obtain ⟨u,hu⟩ := receives_prefix h hp
    obtain ⟨u',hu',_⟩ := hagrees _ hp u hu
    obtain ⟨v,exit,hv,hret,hne⟩ := receives_snoc hu'
    rw [TcpClientTPKT.onReadBody_eq] at hv
    rw [← buffered_unique hv hopen hb,← arrive_input (Receives.isSome hv hopen)] at hb'
    by_contra hshort
    rw [not_or,not_le] at hshort
    exact hne (short_header_nullRead hret hb' hshort.1 hshort.2)
  · intro hlong arrived hp u hu
    obtain ⟨u',hu',hsocket,hlengths⟩ := client_follows hopen
      (fun a c ha => hlong a c (ha.trans hp)) hu
    exact ⟨u',hu',hlengths,by rw [hsocket]⟩

theorem agrees_whole_frame : Agrees ⟨some (.fresh []),false⟩ [[1,0,0,5,7]] := by
  refine (agrees_iff ⟨some (.fresh []),false⟩ rfl [[1,0,0,5,7]]
    ⟨⟨some (.fresh []),false⟩,[⟨[],[1,0,0,5,7],5,some 1⟩]⟩
    (receives_single_iff.mpr ⟨.broke,⟨2,by decide⟩,by decide⟩)).mpr ?_
  intro arrived chunk hp b hb b' hb'
  have harrived : arrived = [] := by simpa using hp.length_le
  subst harrived
  have hchunk : chunk = [1,0,0,5,7] := by simpa using hp
  rw [buffered_nil hb,hchunk] at hb'
  have hpositions : b' = [1,0,0,5,7] ∨ b' = [] := by
    induction hb' with
    | refl => exact .inl rfl
    | tail _ hstep ih =>
      obtain ⟨hc,rfl⟩ := hstep
      rcases ih with rfl | rfl
      · exact .inr (by decide)
      · exact absurd hc (by decide)
  rcases hpositions with rfl | rfl
  · exact .inr (by decide)
  · exact .inl rfl

/-- One byte of a header: the server returns, the client reads through NULL. -/
theorem first_byte_disagrees : ¬ Agrees ⟨some (.fresh []),false⟩ [[1]] := by
  intro h
  have hserver : Receives TcpServerTPKT.onSessionReadBody ⟨⟨some (.fresh []),false⟩,[]⟩ [[1]]
      ⟨⟨some (.fresh [1]),false⟩,[]⟩ :=
    receives_single_iff.mpr ⟨.returned,⟨1,by decide⟩,by decide⟩
  obtain ⟨d,hd,_⟩ := h _ List.prefix_rfl _ hserver
  obtain ⟨exit,hret,hne⟩ := receives_single_iff.mp hd
  exact hne (short_header_nullRead hret .refl (by decide) (by decide))

end TpktAgreement
end Translib
