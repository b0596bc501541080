import Translib.TcpServerTPKT
import Translib.TpktDecoderRuns

/-! The server's decoding loop on arbitrary bytes: when it ends, and when what it
delivers was received. Both are decided by the header positions of the input. -/

namespace Translib
namespace TpktRobustness

open TpktFormat TpktDecoder TcpServerTPKT LoopMachine

/-- The call returns, and every pass that goes round again removes a byte. -/
def DecodeEnds (session : TcpSocket) : Prop :=
  (∃ exit d, OnSessionRead session exit d) ∧
    ∀ d d', Reaches onSessionReadBody ⟨session,[]⟩ d → onSessionReadBody d = .inl d' →
      d'.socket.input.length < d.socket.input.length

/-- A packet that announces no byte at all is taken again and again. -/
theorem zero_packet_trap {d : Decoding} (hc : Complete d.socket.input)
    (hm : HasMagic d.socket.input) (ha : announced d.socket.input = 0) (r : Exit × Decoding) :
    ¬ Returns onSessionReadBody d r := by
  have hnext : next d.socket.input = d.socket.input := by
    rw [next,fromPacket,if_pos hm,ha,List.drop_zero]
  refine not_returns_of_trap (fun u => u.socket.input = d.socket.input) (fun u hu => ?_) rfl r
  rw [onSessionReadBody_eq]
  refine ⟨_,pass_complete _ _ (hu ▸ hc),?_⟩
  simp only [hu,hnext]
  exact TcpSocket.setInput_input (Complete.isSome (hu ▸ hc)) _

/-- The decoding loop ends exactly when no header position of the input announces a
packet of length zero after a valid magic number. -/
theorem decode_ends_iff (session : TcpSocket) :
    DecodeEnds session ↔
      ∀ b, Leads session.input b → Complete b → ¬ (HasMagic b ∧ announced b = 0) := by
  constructor
  · rintro ⟨⟨exit,d,hret⟩,_⟩ b hb hc ⟨hm,ha⟩
    obtain ⟨u,hu,rfl⟩ := leads_reaches .returned id (d := ⟨session,[]⟩) hb
    rw [← onSessionReadBody_eq] at hu
    exact zero_packet_trap hc hm ha _ (hu.returns_iff.mp hret)
  · intro hpos
    have hless {d d' : Decoding} (hd : Leads session.input d.socket.input)
        (hpass : onSessionReadBody d = .inl d') :
        d'.socket.input.length < d.socket.input.length := by
      rw [onSessionReadBody_eq] at hpass
      obtain ⟨hc,_,hin,_⟩ := pass_next hpass
      rw [hin]
      exact next_length_lt hc (hpos _ hd hc)
    constructor
    · obtain ⟨⟨exit,d⟩,hret⟩ := returns_of_measure onSessionReadBody
        (fun d => Leads session.input d.socket.input) (fun d => d.socket.input.length)
        (fun d d' hd hpass => by
          have hlt := hless hd hpass
          rw [onSessionReadBody_eq] at hpass
          obtain ⟨hc,_,hin,_⟩ := pass_next hpass
          exact ⟨hd.tail ⟨hc,hin⟩,hlt⟩) (s := ⟨session,[]⟩) .refl
      exact ⟨exit,d,hret⟩
    · intro d d' hd hpass
      rw [onSessionReadBody_eq] at hd
      exact hless (reaches_leads hd).1 hpass

/-- The four bytes `01 00 00 00` are never taken out of the buffer. -/
theorem zero_header_hangs :
    ¬ ∃ exit d, OnSessionRead ⟨some (.fresh [1,0,0,0]),false⟩ exit d := by
  rintro ⟨exit,d,hret⟩
  exact zero_packet_trap (d := ⟨⟨some (.fresh [1,0,0,0]),false⟩,[]⟩) (by decide) (by decide)
    (by decide) _ hret

/-- A delivery passes on received bytes only: `len` bytes and a header fit into what
was read, and the message is the end of it. -/
def Sound (p : Pass) (m : Message) : Prop :=
  m.len + tpkt1Length ≤ p.removed.length ∧
    m.bytes = (p.removed.drop (p.removed.length-m.len)).map some

instance (p : Pass) (m : Message) : Decidable (Sound p m) := inferInstanceAs (Decidable (_ ∧ _))

def DeliversReceived (session : TcpSocket) : Prop :=
  ∀ d, Reaches onSessionReadBody ⟨session,[]⟩ d → ∀ p ∈ d.passes, ∀ m, p.message = some m →
    Sound p m

/-- The header position `b` announces a header at least, and no byte that is not there. -/
def Covered (b : List Byte) : Prop :=
  tpkt1Length ≤ announced b ∧ (HasMagic b ∨ announced b < b.length)

instance (b : List Byte) : Decidable (Covered b) := inferInstanceAs (Decidable (_ ∧ _))

theorem covered_iff {b : List Byte} (hc : Complete b) :
    Covered b ↔ tpkt1Length ≤ announced b ∧ announced b ≤ (fromPacket b).length := by
  have hle := hc.announced_le
  have hfour := hc.1
  rw [Covered,fromPacket_length]
  split_ifs with hm
  · simp [hm,hle]
  · simp only [hm,false_or]
    constructor <;> rintro ⟨h4,h⟩ <;> exact ⟨h4,by omega⟩

theorem passOf_sound_iff {b : List Byte} (hc : Complete b) :
    (∀ m, (passOf id b).message = some m → Sound (passOf id b) m) ↔ Covered b := by
  have hlt := announced_lt b
  rw [covered_iff hc]
  constructor
  · intro h
    have hs := (h _ rfl).1
    simp only [passOf,List.length_take,sub32,uint32,tpkt1Length] at hs ⊢
    omega
  · rintro ⟨h4,hle⟩ m hm
    have hlen : (passOf id b).removed.length = announced b := by
      simp [passOf,hle]
    have hsub : sub32 (announced b) tpkt1Length = announced b - tpkt1Length := by
      simp only [sub32,uint32,tpkt1Length] at h4 ⊢
      omega
    have hfull : (passOf id b).frameBuffer = (passOf id b).removed.map some := by
      rw [Pass.frameBuffer,hlen]
      simp [passOf,List.take_of_length_le]
    have hread : (passOf id b).onRead = some (announced b-tpkt1Length) := by
      rw [← hsub]
      rfl
    have hmsg : m = ⟨announced b-tpkt1Length,
        (((passOf id b).removed.map some).drop tpkt1Length).take (announced b-tpkt1Length)⟩ := by
      rw [Pass.message,hread,hfull] at hm
      exact (Option.some.inj hm).symm
    subst hmsg
    refine ⟨by rw [hlen]; simp only; omega,?_⟩
    simp only
    have hback : announced b-(announced b-tpkt1Length) = tpkt1Length := by omega
    rw [List.take_of_length_le (by simp [hlen]),hlen,hback,← List.map_drop]

theorem DeliversReceived.covered {session : TcpSocket} (h : DeliversReceived session)
    {b : List Byte} (hb : Leads session.input b) (hc : Complete b) : Covered b := by
  unfold DeliversReceived at h
  rw [onSessionReadBody_eq] at h
  obtain ⟨d,hd,rfl⟩ := leads_reaches .returned id (d := ⟨session,[]⟩) hb
  refine (passOf_sound_iff hc).mp fun m hm => ?_
  exact h _ (hd.tail (pass_complete _ _ hc)) _ (by simp) m hm

/-- What is delivered was received exactly when every header position of the input
announces at least a header, and no more bytes than there are without a lost magic. -/
theorem delivers_received_iff (session : TcpSocket) :
    DeliversReceived session ↔ ∀ b, Leads session.input b → Complete b → Covered b := by
  constructor
  · intro h b hb hc
    exact h.covered hb hc
  · intro h d hd p hp m hm
    rw [onSessionReadBody_eq] at hd
    rcases (reaches_leads hd).2 p hp with hp | ⟨b,hb,hc,rfl⟩
    · simp at hp
    · exact (passOf_sound_iff hc).mpr (h b hb hc) m hm

/-- `01 00 00 00` delivers `2^32-4` bytes out of none. Without a magic number,
`00 00 00 05 07` delivers a byte that was never written. -/
theorem unreceived_delivered :
    ¬ DeliversReceived ⟨some (.fresh [1,0,0,0]),false⟩ ∧
      ¬ DeliversReceived ⟨some (.fresh [0,0,0,5,7]),false⟩ := by
  constructor <;> exact fun h => absurd (h.covered .refl (by decide)) (by decide)

end TpktRobustness
end Translib
