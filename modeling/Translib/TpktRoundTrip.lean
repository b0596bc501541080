import Translib.TcpClientTPKT
import Translib.TcpServerTPKT
import Translib.TpktDecoderRuns

/-! What the client frames, the server unframes, however the stream is cut. -/

namespace Translib
namespace TpktRoundTrip

open TpktFormat TpktDecoder TcpServerTPKT LoopMachine Framing

/-- The client sends the payloads in order, no write failing: the results of the
calls, and the client after them. -/
def sendEach : List Payload → TcpSocket → List Bool × TcpSocket
  | [], client => ([],client)
  | p::ps, client =>
    let ret := TcpClientTPKT.sendWithTPKT true true p.bytes client
    let rest := sendEach ps ret.2
    (ret.1::rest.1,rest.2)

theorem sendEach_written (ps : List Payload) (client : TcpSocket)
    (h : ∀ ret ∈ (sendEach ps client).1, ret = true) :
    (sendEach ps client).2.written = client.written ++ encode ps := by
  induction ps generalizing client with
  | nil => simp [sendEach,encode]
  | cons p ps ih =>
    have hp : (TcpClientTPKT.sendWithTPKT true true p.bytes client).1 = true :=
      h _ (by simp [sendEach])
    have hps := ih (TcpClientTPKT.sendWithTPKT true true p.bytes client).2
      (fun ret hret => h ret (by simp [sendEach,hret]))
    simp only [sendEach,hps]
    rw [TcpClientTPKT.sendWithTPKT,TpktSender.sendWithTPKT_true hp]
    simp [encode,Payload.frame]

/-- After some chunks the server has delivered the payloads of the frames they
contain whole, and buffers the rest. -/
def Delivered (payloads : List Payload) (received : List Byte) (d : Decoding) : Prop :=
  ∃ done tail, Whole Payload.frame payloads received done tail ∧
    messages d.passes = done.map (fun p => .ofPayload p.bytes) ∧ d.socket.input = tail

theorem chunk_delivered {payloads : List Payload} {received chunk : List Byte} {d : Decoding}
    (hopen : d.socket.bev.isSome) (h : Delivered payloads received d)
    (hp : received ++ chunk <+: encode payloads)
    (hlen : (d.socket.input ++ chunk).length < 2^32) :
    ∃ exit d', Returns onSessionReadBody ⟨d.socket.arrive chunk,d.passes⟩ (exit,d') ∧
      exit ≠ .nullRead ∧ d'.socket.bev.isSome ∧ Delivered payloads (received ++ chunk) d' := by
  obtain ⟨done,tail,hw,hmsg,rfl⟩ := h
  obtain ⟨rest,next,tail',_,hrest,hnext,hw'⟩ := hw.extend hp
  have hin := arrive_input hopen chunk
  have hopen' : (d.socket.arrive chunk).bev.isSome := by simpa [arrive_isSome] using hopen
  obtain ⟨exit,hret,hexit⟩ := decode_frames .returned hnext hrest hlen
    (d := ⟨d.socket.arrive chunk,d.passes⟩) hin
  rw [← onSessionReadBody_eq] at hret
  refine ⟨exit,_,hret,by rcases hexit with rfl | rfl <;> decide,by simpa using hopen',?_⟩
  refine ⟨_,_,hw',?_,TcpSocket.setInput_input hopen' _⟩
  rw [messages,List.filterMap_append,← messages,← messages,hmsg,messages_framePass,
    List.map_append]

/-- The round trip. The client's calls all return true and write `stream`, which is
cut into chunks in any way. After every chunk the server has delivered exactly the
payloads whose frames have arrived whole, and the buffer holds the bytes after them;
after the last chunk that is every payload and no byte. Fewer than `2^32` bytes are
buffered at any time. -/
theorem round_trip (payloads : List Payload) (client : TcpSocket) (stream : List Byte)
    (hret : ∀ ret ∈ (sendEach payloads client).1, ret = true)
    (hstream : (sendEach payloads client).2.written = client.written ++ stream)
    (session : TcpSocket) (hopen : session.bev.isSome) (hempty : session.input = [])
    (chunks : List (List Byte)) (hcut : chunks.flatten = stream)
    (hbuf : ∀ arrived chunk done tail, arrived ++ [chunk] <+: chunks →
      Whole Payload.frame payloads arrived.flatten done tail →
      (tail ++ chunk).length < 2^32) :
    (∀ arrived, arrived <+: chunks → ∃ d, Receives onSessionReadBody ⟨session,[]⟩ arrived d ∧
      Delivered payloads arrived.flatten d) ∧
    ∃ d, Receives onSessionReadBody ⟨session,[]⟩ chunks d ∧
      messages d.passes = payloads.map (fun p => .ofPayload p.bytes) ∧ d.socket.input = [] := by
  have hs : stream = encode payloads := by
    rw [sendEach_written payloads client hret] at hstream
    exact (List.append_cancel_left hstream).symm
  have hall (arrived : List (List Byte)) (hp : arrived <+: chunks) :
      ∃ d, Receives onSessionReadBody ⟨session,[]⟩ arrived d ∧ d.socket.bev.isSome ∧
        Delivered payloads arrived.flatten d := by
    induction arrived using List.reverseRecOn with
    | nil =>
      refine ⟨_,.nil _,hopen,[],[],⟨by simp,by simp,fun p _ => by simp⟩,by simp [messages],hempty⟩
    | append_singleton arrived chunk ih =>
      obtain ⟨d,hd,hsome,done,tail,hw,hmsg,htail⟩ := ih ((List.prefix_append _ _).trans hp)
      have hpre : arrived.flatten ++ chunk <+: encode payloads := by
        obtain ⟨rest,rfl⟩ := hp
        rw [← hs,← hcut]
        simp
      obtain ⟨exit,d',hd',hexit,hsome',hdel⟩ := chunk_delivered hsome ⟨done,tail,hw,hmsg,htail⟩
        hpre (by rw [htail]; exact hbuf arrived chunk done tail hp hw)
      exact ⟨d',.snoc hd hd' hexit,hsome',by simpa using hdel⟩
  constructor
  · intro arrived hp
    obtain ⟨d,hd,_,hdel⟩ := hall arrived hp
    exact ⟨d,hd,hdel⟩
  · obtain ⟨d,hd,_,done,tail,hw,hmsg,htail⟩ := hall chunks List.prefix_rfl
    rw [hcut,hs] at hw
    obtain ⟨rfl,rfl⟩ := hw.all
    exact ⟨d,hd,hmsg,htail⟩

theorem round_trip_two_frames :
    ∃ d, Receives onSessionReadBody ⟨⟨some (.fresh []),false⟩,[]⟩ [[1,0],[0,6,1],[7,1,0,0,4]] d ∧
      messages d.passes = [.ofPayload [1,7],.ofPayload []] ∧ d.socket.input = [] := by
  refine (round_trip [⟨[1,7],by decide⟩,⟨[],by decide⟩] ⟨some (.fresh []),false⟩
    [1,0,0,6,1,7,1,0,0,4] (by decide) (by decide) ⟨some (.fresh []),false⟩ rfl rfl
    [[1,0],[0,6,1],[7,1,0,0,4]] rfl ?_).2
  intro arrived chunk done tail hp hw
  obtain ⟨rest,hrest⟩ := hp
  have hall := congrArg (fun chunks => (chunks.flatten).length) hrest
  have harrived := congrArg List.length hw.received_eq
  simp only [List.flatten_append,List.flatten_singleton,List.length_append] at hall harrived
  have hten : ([[1,0],[0,6,1],[7,1,0,0,4]] : List (List Byte)).flatten.length = 10 := rfl
  rw [List.length_append]
  omega

end TpktRoundTrip
end Translib
