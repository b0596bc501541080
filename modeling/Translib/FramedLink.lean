import Translib.FifoQueue
import Translib.GracefulClose
import Translib.TpktRoundTrip

/-! A framing client, the connection, and the session of the framing server at its other end,
as one system: a queue of messages. -/

namespace Translib
namespace FramedLink

open TransitionMachine FifoQueue TpktFormat TpktDecoder TcpServerTPKT

/-- `arrived` counts the bytes handed to the socket that are at the other end, `reading` says
that the read callback of the session is due or running. -/
structure Link where
  client : TcpSocket
  session : TcpSocket
  arrived : ℕ
  reading : Bool
  deriving DecidableEq, Repr

/-- A pass is one round of the loop of `onSessionRead`. -/
inductive Step
  | sendWithTPKT (okHeader okPayload : Bool) (data : List Byte)
  | close (waiting : Bool)
  | handOver (k : ℕ)
  | writeCallback
  | arrive (k : ℕ)
  | pass
  deriving DecidableEq, Repr

def connected (fd sock : SocketFd) : Link :=
  ⟨⟨some (.socketNew fd),false⟩,⟨some (.socketNew sock),false⟩,0,false⟩

/-- At most `k` of the bytes in the air. -/
def inAir (k : ℕ) (s : Link) : List Byte := (s.client.sent.drop s.arrived).take k

def step (s : Link) : Step → Link
  | .sendWithTPKT okHeader okPayload data =>
    { s with client := (TcpClientTPKT.sendWithTPKT okHeader okPayload data s.client).2 }
  | .close waiting => { s with client := s.client.close waiting }
  | .handOver k => { s with client := s.client.handOver k }
  | .writeCallback => { s with client := s.client.writeCallback }
  | .arrive k =>
    { s with
      session := s.session.arrive (inAir k s)
      arrived := s.arrived + (inAir k s).length
      reading := s.reading || !(inAir k s).isEmpty }
  | .pass =>
    if s.reading then
      match onSessionReadBody ⟨s.session,[]⟩ with
      | .inl d => { s with session := d.socket }
      | .inr (_,d) => { s with session := d.socket, reading := false }
    else s

def accepted (s : Link) : Step → List Message
  | .sendWithTPKT okHeader okPayload data =>
    if (TcpClientTPKT.sendWithTPKT okHeader okPayload data s.client).1 then [.ofPayload data] else []
  | _ => []

/-- What `onRead` is given. -/
def delivered (s : Link) : Step → List Message
  | .pass =>
    if s.reading then
      match onSessionReadBody ⟨s.session,[]⟩ with
      | .inl d => messages d.passes
      | .inr (_,d) => messages d.passes
    else []
  | _ => []

/-- A message fits its frame and is not refused after its header, and fewer than `2^32` bytes
are buffered. -/
def Admissible (s : Link) : Step → Prop
  | .sendWithTPKT okHeader okPayload data => s.client.Accepts okHeader →
    okPayload = true ∧ data.length+tpkt1Length ≤ tpkt1MaxMsgLength
  | .arrive k => (s.session.input ++ inAir k s).length < 2^32
  | _ => True

/-- Nothing is left to hand over or in the air, and no callback is due. -/
def Settled (s : Link) : Prop :=
  s.client.output = [] ∧ s.arrived = s.client.sent.length ∧ s.reading = false

/-- The client closes after its data is sent, and sends nothing once its socket is shut down. -/
def Graceful (s : Link) : Step → Prop
  | .sendWithTPKT _ _ _ => s.client.isShut = false
  | .close waiting => waiting = true
  | _ => True

def ByLibevent : Step → Prop
  | .sendWithTPKT _ _ _ => False
  | .close _ => False
  | _ => True

theorem body_passes (session : TcpSocket) (passes : List Pass) :
    onSessionReadBody ⟨session,passes⟩ = (onSessionReadBody ⟨session,[]⟩).map
      (fun d => ⟨d.socket,passes ++ d.passes⟩)
      (fun r => (r.1,⟨r.2.socket,passes ++ r.2.passes⟩)) := by
  simp only [onSessionReadBody_eq,TpktDecoder.pass]
  split_ifs <;> simp

theorem onSessionRead_passes {s : Link} {exit : Exit} {d : Decoding} (hreading : s.reading = true)
    (h : OnSessionRead s.session exit d) :
    ∃ n, exec step s (List.replicate n .pass) = { s with session := d.socket, reading := false } ∧
      shown step delivered s (List.replicate n .pass) = messages d.passes := by
  have hall {start : Decoding} (hret : LoopMachine.Returns onSessionReadBody start (exit,d)) :
      ∀ s : Link, s.reading = true → s.session = start.socket →
        ∃ n, exec step s (List.replicate n .pass) =
            { s with session := d.socket, reading := false } ∧
          messages start.passes ++ shown step delivered s (List.replicate n .pass) =
            messages d.passes := by
    induction hret using LoopMachine.Returns.induct with
    | stop start hb =>
      intro s hs hsession
      refine ⟨1,?_⟩
      rw [show start = ⟨s.session,start.passes⟩ by rw [hsession],body_passes] at hb
      cases hone : onSessionReadBody ⟨s.session,[]⟩ with
      | inl e => simp [hone] at hb
      | inr r =>
        simp only [hone,Sum.map_inr,Sum.inr.injEq,Prod.mk.injEq] at hb
        obtain ⟨-,rfl⟩ := hb
        simp [exec,step,delivered,hs,hone,messages]
    | next start start' hb _ ih =>
      intro s hs hsession
      rw [show start = ⟨s.session,start.passes⟩ by rw [hsession],body_passes] at hb
      cases hone : onSessionReadBody ⟨s.session,[]⟩ with
      | inr r => simp [hone] at hb
      | inl e =>
        simp only [hone,Sum.map_inl,Sum.inl.injEq] at hb
        subst hb
        have hstep : step s .pass = { s with session := e.socket } := by simp [step,hs,hone]
        obtain ⟨n,hexec,hshown⟩ := ih { s with session := e.socket } hs rfl
        refine ⟨n+1,?_,?_⟩
        · rw [List.replicate_succ,exec,hstep,hexec]
        · rw [List.replicate_succ,shown_cons,hstep,← hshown]
          simp [delivered,hs,hone,messages]
  obtain ⟨n,hexec,hshown⟩ := hall h s hreading rfl
  exact ⟨n,hexec,hshown⟩

/-- A step of the client writes `data`, and takes nothing back from the socket. -/
structure Writes (data : List Byte) (client client' : TcpSocket) : Prop where
  isSome : client'.bev.isSome
  written : client'.written = client.written ++ data
  sent : client.sent <+: client'.sent

theorem writes_refl {client : TcpSocket} (h : client.bev.isSome) : Writes [] client client :=
  ⟨h,(List.append_nil _).symm,List.prefix_rfl⟩

theorem writes_append {client : TcpSocket} (h : client.bev.isSome) (data : List Byte) :
    Writes data client (client.append data) := by
  refine ⟨by simpa [TcpSocket.append,TcpSocket.withBev] using h,TcpSocket.append_written h data,?_⟩
  obtain ⟨bev,closing⟩ := client
  cases bev <;> exact List.prefix_rfl

theorem Writes.trans {data data' : List Byte} {client client' client'' : TcpSocket}
    (h : Writes data client client') (h' : Writes data' client' client'') :
    Writes (data++data') client client'' :=
  ⟨h'.isSome,by rw [h'.written,h.written,List.append_assoc],h.sent.trans h'.sent⟩

theorem closeImpl_writes {client : TcpSocket} (h : client.bev.isSome) :
    Writes [] client client.closeImpl := by
  refine ⟨by simpa using h,by simp [TcpSocket.closeImpl_written],?_⟩
  obtain ⟨bev,closing⟩ := client
  cases bev <;> exact List.prefix_rfl

theorem close_writes {client : TcpSocket} (h : client.bev.isSome) (waiting : Bool) :
    Writes [] client (client.close waiting) := by
  rw [TcpSocket.close_eq h]
  split_ifs
  · exact ⟨h,(List.append_nil _).symm,List.prefix_rfl⟩
  · exact closeImpl_writes h

theorem handOver_writes {client : TcpSocket} (h : client.bev.isSome) (k : ℕ) :
    Writes [] client (client.handOver k) := by
  refine ⟨(TcpSocket.handOver_flags k client).1.trans h,by simp [TcpSocket.handOver_written],?_⟩
  obtain ⟨bev,closing⟩ := client
  cases bev with
  | none => exact List.prefix_rfl
  | some b =>
    simp only [TcpSocket.sent,TcpSocket.handOver,TcpSocket.withBev,Bufferevent.handOver,
      Option.map_some,Option.getD_some]
    split_ifs
    · exact List.prefix_append _ _
    · exact List.prefix_rfl

theorem writeCallback_writes {client : TcpSocket} (h : client.bev.isSome) :
    Writes [] client client.writeCallback := by
  have hpending : Writes [] client (client.withBev fun b => { b with writePending := false }) := by
    obtain ⟨bev,closing⟩ := client
    cases bev with
    | none => cases h
    | some b => exact ⟨rfl,(List.append_nil _).symm,List.prefix_rfl⟩
  rw [TcpSocket.writeCallback_eq]
  split_ifs
  · exact hpending.trans (closeImpl_writes hpending.isSome)
  · exact hpending
  · exact writes_refl h

theorem sendWithTPKT_writes {client : TcpSocket} (h : client.bev.isSome) {okHeader okPayload : Bool}
    {data : List Byte} (hok : client.Accepts okHeader → okPayload = true) :
    let ret := TcpClientTPKT.sendWithTPKT okHeader okPayload data client
    (ret.1 = true ∧ Writes (frame data) client ret.2) ∨ ret = (false,client) := by
  simp only [TcpClientTPKT.sendWithTPKT,TpktSender.sendWithTPKT,TcpSocket.send_eq]
  by_cases hheader : client.Accepts okHeader
  · left
    have hpayload : (client.append (TpktSender.tpktHeader data.length)).Accepts okPayload :=
      ⟨(writes_append h _).isSome,hheader.2.1,hok hheader⟩
    simp only [hheader,if_true,Bool.not_true,Bool.false_eq_true,if_false,hpayload,true_and]
    rw [← TpktSender.tpktHeader_append]
    exact (writes_append h _).trans (writes_append (writes_append h _).isSome _)
  · right
    simp [hheader]

/-- The messages whose frames are not yet taken out at the other end: their bytes are buffered
there, in the air, or still to be handed over. Where a frame is there whole a callback is due. -/
structure Holds (s : Link) (ps : List Payload) : Prop where
  client : s.client.bev.isSome
  session : s.session.bev.isSome
  arrived : s.arrived ≤ s.client.sent.length
  stream : s.session.input ++ s.client.written.drop s.arrived = encode ps
  few : s.session.input.length < 2^32
  due : s.reading = false → ∀ p rest, ps = p::rest → s.session.input.length < p.frame.length

theorem connected_holds (fd sock : SocketFd) : Holds (connected fd sock) [] where
  client := rfl
  session := rfl
  arrived := le_rfl
  stream := rfl
  few := Nat.two_pow_pos 32
  due := fun _ _ _ h => by cases h

theorem Holds.writes {s : Link} {ps qs : List Payload} (h : Holds s ps) {client : TcpSocket}
    (hw : Writes (encode qs) s.client client) : Holds { s with client := client } (ps++qs) where
  client := hw.isSome
  session := h.session
  arrived := h.arrived.trans hw.sent.length_le
  stream := by
    have hle : s.arrived ≤ s.client.written.length := by
      rw [TcpSocket.written_eq,List.length_append]
      exact h.arrived.trans (Nat.le_add_right _ _)
    calc s.session.input ++ client.written.drop s.arrived =
        s.session.input ++ s.client.written.drop s.arrived ++ encode qs := by
          rw [hw.written,List.drop_append_of_le_length hle,List.append_assoc]
      _ = encode (ps++qs) := by rw [h.stream,encode,encode,encode,List.flatMap_append]
  few := h.few
  due := fun hr p rest hps => by
    cases ps with
    | cons q ps =>
      cases hps
      exact h.due hr _ _ rfl
    | nil =>
      have hempty : s.session.input = [] := (List.append_eq_nil_iff.mp h.stream).1
      simp [hempty]

theorem Holds.keeps {s : Link} {ps : List Payload} (h : Holds s ps) {client : TcpSocket}
    (hw : Writes [] s.client client) : Holds { s with client := client } ps := by
  have hnone : Writes (encode []) s.client client := hw
  simpa using h.writes hnone

theorem arrive_holds {s : Link} {ps : List Payload} (h : Holds s ps) {k : ℕ}
    (hfew : (s.session.input ++ inAir k s).length < 2^32) : Holds (step s (.arrive k)) ps := by
  have hinput : (s.session.arrive (inAir k s)).input = s.session.input ++ inAir k s :=
    arrive_input h.session _
  have hair : inAir k s <+: s.client.written.drop s.arrived := by
    rw [TcpSocket.written_eq,List.drop_append_of_le_length h.arrived]
    exact (List.take_prefix _ _).trans (List.prefix_append _ _)
  refine ⟨h.client,by simpa [step,arrive_isSome] using h.session,?_,?_,
    by simpa [step,hinput] using hfew,?_⟩
  · have hle : (inAir k s).length ≤ s.client.sent.length - s.arrived := by
      simp only [inAir,List.length_take,List.length_drop]
      exact min_le_right _ _
    have harrived := h.arrived
    simp only [step]
    omega
  · simp only [step,hinput]
    rw [List.append_assoc,← List.drop_drop,List.prefix_iff_eq_append.mp hair,h.stream]
  · intro hr p rest hps
    simp only [step,Bool.or_eq_false_iff,Bool.not_eq_false',List.isEmpty_iff] at hr
    have hlen : (s.session.arrive (inAir k s)).input.length = s.session.input.length := by
      rw [hinput,hr.2,List.append_nil]
    exact hlen ▸ h.due hr.1 p rest hps

/-- The outcome of a pass: the first message is taken out, or the callback returns. -/
inductive PassEffect (s : Link) (ps : List Payload) : Prop
  | takes (p : Payload) (rest : List Payload) (hps : ps = p::rest)
      (hholds : Holds (step s .pass) rest) (hreading : (step s .pass).reading = true)
      (hdelivered : delivered s .pass = [.ofPayload p.bytes])
  | returns (hholds : Holds (step s .pass) ps) (hdone : (step s .pass).reading = false)
      (hinput : (step s .pass).session = s.session) (hdelivered : delivered s .pass = [])

theorem pass_effect {s : Link} {ps : List Payload} (h : Holds s ps) : PassEffect s ps := by
  by_cases hreading : s.reading = true
  · have hprefix : s.session.input <+: encode ps := ⟨_,h.stream⟩
    have hincomplete (hc : ¬ Complete s.session.input) (hkept : kept s.session.input = s.session.input)
        (hshort : ∀ p rest, ps = p::rest → s.session.input.length < p.frame.length) :
        PassEffect s ps := by
      have hstep : onSessionReadBody ⟨s.session,[]⟩ =
          .inr (exitOf .returned s.session.input,⟨s.session,[]⟩) := by
        rw [onSessionReadBody_eq,pass_incomplete .returned id hc,hkept,TcpSocket.setInput_self]
      have hnext : step s .pass = { s with reading := false } := by simp [step,hreading,hstep]
      refine .returns ?_ (by rw [hnext]) (by rw [hnext])
        (by simp [delivered,hreading,hstep,messages])
      rw [hnext]
      exact ⟨h.client,h.session,h.arrived,h.stream,h.few,fun _ => hshort⟩
    cases ps with
    | nil =>
      have hempty : s.session.input = [] := List.prefix_nil.mp hprefix
      exact hincomplete (by simp [hempty,Complete]) (by simp [hempty,kept]) fun _ _ hps => by cases hps
    | cons p rest =>
      have hencode : encode (p::rest) = p.frame ++ encode rest := List.flatMap_cons
      rw [hencode] at hprefix
      by_cases hlen : s.session.input.length < p.frame.length
      · have hpart : s.session.input <+: p.frame :=
          List.prefix_of_prefix_length_le hprefix (List.prefix_append _ _) hlen.le
        obtain ⟨hc,hkept⟩ := part_incomplete p hpart hlen
        exact hincomplete hc hkept fun _ _ hps => by cases hps; exact hlen
      · obtain ⟨b,hb⟩ : p.frame <+: s.session.input :=
          List.prefix_of_prefix_length_le (List.prefix_append _ _) hprefix (not_lt.mp hlen)
        have hfew := h.few
        have h32 : uint32 (p.frame ++ b).length = (p.frame ++ b).length :=
          Nat.mod_eq_of_lt (hb ▸ hfew)
        obtain ⟨hc,hnext,hpass⟩ := frame_complete p b (by
          rw [h32,List.length_append,Payload.frame_length]
          exact Nat.le_add_right _ _)
        rw [hb] at hc hnext hpass
        have hstep : onSessionReadBody ⟨s.session,[]⟩ = .inl ⟨s.session.setInput b,[framePass p]⟩ := by
          rw [onSessionReadBody_eq,pass_complete .returned id hc,hnext,hpass]
          rfl
        have hafter : step s .pass = { s with session := s.session.setInput b } := by
          simp [step,hreading,hstep]
        refine .takes p rest rfl ?_ (by simp [hafter,hreading]) ?_
        · rw [hafter]
          refine ⟨h.client,by simpa using h.session,h.arrived,?_,?_,fun hr => ?_⟩
          · have hstream := h.stream
            rw [← hb,hencode,List.append_assoc] at hstream
            rw [TcpSocket.setInput_input h.session]
            exact List.append_cancel_left hstream
          · rw [TcpSocket.setInput_input h.session]
            rw [← hb,List.length_append] at hfew
            omega
          · exact absurd (hreading.symm.trans hr) (by decide)
        · simp [delivered,hreading,hstep,messages,frame_message]
  · have hstep : step s .pass = s := by simp [step,hreading]
    exact .returns (by rwa [hstep]) (by rw [hstep]; simpa using hreading) (by rw [hstep])
      (by simp [delivered,hreading])

/-- A row of messages as `onRead` is given them. -/
def messagesOf (ps : List Payload) : List Message := ps.map fun p => .ofPayload p.bytes

theorem messagesOf_append (ps qs : List Payload) :
    messagesOf (ps++qs) = messagesOf ps ++ messagesOf qs := List.map_append

theorem sendWithTPKT_moves {s : Link} {ps : List Payload} {okHeader okPayload : Bool}
    {data : List Byte} (h : Holds s ps) (ha : Admissible s (.sendWithTPKT okHeader okPayload data)) :
    ∃ ps', Holds (step s (.sendWithTPKT okHeader okPayload data)) ps' ∧
      Moves (messagesOf ps) (accepted s (.sendWithTPKT okHeader okPayload data)) [] (messagesOf ps') := by
  rcases sendWithTPKT_writes h.client (fun hheader => (ha hheader).1) with ⟨hret,hw⟩ | hret
  · have hheader : s.client.Accepts okHeader := by
      by_contra hrefused
      simp [TcpClientTPKT.sendWithTPKT,TpktSender.sendWithTPKT,TcpSocket.send_eq,hrefused] at hret
    let p : Payload := ⟨data,(ha hheader).2⟩
    have hframe : encode [p] = frame data := List.append_nil _
    refine ⟨ps ++ [p],h.writes (hframe ▸ hw),?_⟩
    rw [messagesOf_append,accepted,if_pos hret]
    exact moves_put _ _
  · refine ⟨ps,?_,?_⟩
    · rw [step,hret]
      exact h
    · rw [accepted,hret]
      exact moves_refl _

/-- The step lemma: a link is a queue of messages. -/
theorem step_moves {s : Link} {l : Step} {ps : List Payload} (h : Holds s ps) (ha : Admissible s l) :
    ∃ ps', Holds (step s l) ps' ∧
      Moves (messagesOf ps) (accepted s l) (delivered s l) (messagesOf ps') := by
  have hquiet {client : TcpSocket} (hw : Writes [] s.client client) :
      ∃ ps', Holds { s with client := client } ps' ∧ Moves (messagesOf ps) [] [] (messagesOf ps') :=
    ⟨ps,h.keeps hw,moves_refl _⟩
  cases l with
  | sendWithTPKT okHeader okPayload data => exact sendWithTPKT_moves h ha
  | close waiting => exact hquiet (close_writes h.client waiting)
  | handOver k => exact hquiet (handOver_writes h.client k)
  | writeCallback => exact hquiet (writeCallback_writes h.client)
  | arrive k => exact ⟨ps,arrive_holds h ha,moves_refl _⟩
  | pass =>
    cases pass_effect h with
    | takes p rest hps hholds hreading hdelivered =>
      subst hps
      exact ⟨rest,hholds,by rw [hdelivered]; exact moves_take _ _⟩
    | returns hholds hdone hinput hdelivered =>
      exact ⟨ps,hholds,by rw [hdelivered]; exact moves_refl _⟩

theorem Holds.settled {s : Link} {ps : List Payload} (h : Holds s ps) (hs : Settled s) : ps = [] := by
  obtain ⟨houtput,harrived,hreading⟩ := hs
  cases ps with
  | nil => rfl
  | cons p rest =>
    have hlen := congrArg List.length h.stream
    have hshort := h.due hreading p rest rfl
    rw [TcpSocket.written_eq,houtput,List.append_nil,harrived,List.drop_length,List.append_nil,
      encode,List.flatMap_cons,List.length_append] at hlen
    omega

/-- A client that was only ever closed gracefully: what it has not handed over it still can. -/
structure Flowing (client : TcpSocket) : Prop where
  isSome : client.bev.isSome
  shut : client.isShut = true → client.output = []
  enabled : client.isShut = false → client.writeEnabled = true
  remembered : GracefulClose.Remembered client

theorem send_flowing {client : TcpSocket} (h : Flowing client) (hopen : client.isShut = false)
    (ok : Bool) (data : List Byte) :
    Flowing (client.send ok data).2 ∧ (client.send ok data).2.isShut = false := by
  have hshut : (client.send ok data).2.isShut = false :=
    (GracefulClose.send_isShut ok data client).trans hopen
  obtain ⟨hsome,-,henabled⟩ := TcpSocket.send_flags ok data client
  exact ⟨⟨hsome.trans h.isSome,fun hs => absurd (hshut.symm.trans hs) (by decide),
    fun _ => henabled.trans (h.enabled hopen),
    GracefulClose.send_remembered ok data h.remembered⟩,hshut⟩

theorem sendWithTPKT_flowing {client : TcpSocket} (h : Flowing client) (hopen : client.isShut = false)
    (okHeader okPayload : Bool) (data : List Byte) :
    Flowing (TcpClientTPKT.sendWithTPKT okHeader okPayload data client).2 := by
  obtain ⟨hheader,hstill⟩ := send_flowing h hopen okHeader (TpktSender.tpktHeader data.length)
  simp only [TcpClientTPKT.sendWithTPKT,TpktSender.sendWithTPKT]
  split_ifs
  · exact hheader
  · exact (send_flowing hheader hstill okPayload data).1

theorem closeImpl_flowing {client : TcpSocket} (hsome : client.bev.isSome) (hout : client.output = []) :
    Flowing client.closeImpl where
  isSome := by simpa using hsome
  shut := fun _ => by simpa using hout
  enabled := fun hs => by simp [hsome] at hs
  remembered := GracefulClose.closeImpl_remembered client

theorem close_flowing {client : TcpSocket} (h : Flowing client) : Flowing (client.close true) := by
  have hremembered := GracefulClose.close_remembered h.remembered
  rcases GracefulClose.close_cases h.isSome with ⟨hout,hclose⟩ | hclose
  · rw [hclose]
    exact closeImpl_flowing h.isSome hout
  · rw [hclose] at hremembered ⊢
    exact ⟨h.isSome,h.shut,h.enabled,hremembered⟩

theorem handOver_flowing {client : TcpSocket} (h : Flowing client) (k : ℕ) :
    Flowing (client.handOver k) := by
  obtain ⟨hsome,-,henabled⟩ := TcpSocket.handOver_flags k client
  have hshut := GracefulClose.handOver_isShut k client
  refine ⟨hsome.trans h.isSome,fun hs => ?_,fun hs => henabled.trans (h.enabled (hshut.symm.trans hs)),
    GracefulClose.handOver_remembered k h.remembered⟩
  have hout := h.shut (hshut.symm.trans hs)
  obtain ⟨bev,closing⟩ := client
  cases bev with
  | none => rfl
  | some b =>
    have hb : b.output = [] := hout
    simp only [TcpSocket.output,TcpSocket.handOver,TcpSocket.withBev,Bufferevent.handOver,
      Option.map_some,Option.getD_some]
    split_ifs
    · rw [hb,List.drop_nil]
    · exact hb

theorem writeCallback_flowing {client : TcpSocket} (h : Flowing client) :
    Flowing client.writeCallback := by
  have hremembered := GracefulClose.writeCallback_remembered h.remembered
  rw [TcpSocket.writeCallback_eq] at hremembered ⊢
  split_ifs at hremembered ⊢ with hpending hclose
  · obtain ⟨bev,closing⟩ := client
    obtain ⟨b,rfl⟩ := Option.isSome_iff_exists.mp h.isSome
    exact closeImpl_flowing rfl hclose.2
  · obtain ⟨bev,closing⟩ := client
    obtain ⟨b,rfl⟩ := Option.isSome_iff_exists.mp h.isSome
    exact ⟨rfl,h.shut,h.enabled,hremembered⟩
  · exact h

theorem step_flowing {s : Link} {l : Step} (h : Flowing s.client) (hl : Graceful s l) :
    Flowing (step s l).client := by
  cases l with
  | sendWithTPKT okHeader okPayload data => exact sendWithTPKT_flowing h hl okHeader okPayload data
  | close waiting =>
    cases hl
    exact close_flowing h
  | handOver k => exact handOver_flowing h k
  | writeCallback => exact writeCallback_flowing h
  | arrive k => exact h
  | pass =>
    simp only [step]
    split_ifs
    · split <;> exact h
    · exact h

theorem connected_flowing (fd sock : SocketFd) : Flowing (connected fd sock).client where
  isSome := rfl
  shut := fun _ => rfl
  enabled := fun _ => rfl
  remembered := fun h => by cases h

theorem run_flowing {fd sock : SocketFd} {run : List Step}
    (h : Along step Graceful (connected fd sock) run) :
    Flowing (exec step (connected fd sock) run).client :=
  exec_invariant (I := fun s => Flowing s.client) (fun _ _ hs hl => step_flowing hs hl)
    (connected_flowing fd sock) h

theorem run_holds {fd sock : SocketFd} {run : List Step}
    (h : Along step Admissible (connected fd sock) run) :
    ∃ ps, Holds (exec step (connected fd sock) run) ps ∧
      Moves [] (shown step accepted (connected fd sock) run)
        (shown step delivered (connected fd sock) run) (messagesOf ps) := by
  have hrun : ∃ q, (∃ ps, q = messagesOf ps ∧ Holds (exec step (connected fd sock) run) ps) ∧
      Moves [] (shown step accepted (connected fd sock) run)
        (shown step delivered (connected fd sock) run) q := by
    refine exec_moves (H := fun s q => ∃ ps, q = messagesOf ps ∧ Holds s ps)
      (fun s l q hq ha => ?_) ⟨[],rfl,connected_holds fd sock⟩ h
    obtain ⟨ps,rfl,hholds⟩ := hq
    obtain ⟨ps',hholds',hmove⟩ := step_moves hholds ha
    exact ⟨_,⟨ps',rfl,hholds'⟩,hmove⟩
  obtain ⟨q,⟨ps,rfl,hholds⟩,hmoves⟩ := hrun
  exact ⟨ps,hholds,hmoves⟩

/-- In every run the messages delivered at one end are, in order and nothing left out, the first
of those accepted at the other end. They are all of them once the link is settled, and once the
client is shut down by a graceful close and its bytes have arrived and been read. -/
theorem messages_delivered (fd sock : SocketFd) (run : List Step)
    (h : Along step Admissible (connected fd sock) run) :
    let s := exec step (connected fd sock) run
    let sent := shown step accepted (connected fd sock) run
    let received := shown step delivered (connected fd sock) run
    received <+: sent ∧ (Settled s → received = sent) ∧
      (Along step Graceful (connected fd sock) run → s.client.isShut = true →
        s.arrived = s.client.sent.length → s.reading = false → received = sent) := by
  intro s sent received
  obtain ⟨ps,hholds,hmoves⟩ := run_holds h
  have hall (hs : Settled s) : received = sent := by
    have hps := hholds.settled hs
    subst hps
    simpa [Moves,messagesOf] using hmoves.symm
  refine ⟨hmoves.takes_prefix,hall,fun hgraceful hshut harrived hreading => ?_⟩
  refine hall ⟨?_,harrived,hreading⟩
  exact (run_flowing hgraceful).shut hshut

theorem messages_delivered_two :
    let run : List Step := [.sendWithTPKT true true [7],.sendWithTPKT true true [8,9],.close true,
      .handOver 7,.arrive 3,.pass,.arrive 4,.pass,.pass,.handOver 4,.writeCallback,.arrive 9,.pass,.pass]
    shown step delivered (connected 3 4) run = shown step accepted (connected 3 4) run := by
  intro run
  refine (messages_delivered 3 4 run ?_).2.2 ?_ (by decide) (by decide) (by decide)
  · refine ⟨fun _ => ⟨rfl,by decide⟩,fun _ => ⟨rfl,by decide⟩,trivial,trivial,?_,trivial,?_,trivial,
      trivial,trivial,trivial,?_,trivial,trivial,trivial⟩ <;>
      exact lt_of_le_of_lt (by decide) (show 10 < 2^32 by decide)
  · exact ⟨rfl,rfl,rfl,trivial,trivial,trivial,trivial,trivial,trivial,trivial,trivial,trivial,trivial,
      trivial,trivial⟩

theorem pass_frame (s : Link) :
    (step s .pass).client = s.client ∧ (step s .pass).arrived = s.arrived := by
  simp only [step]
  split_ifs
  · split <;> exact ⟨rfl,rfl⟩
  · exact ⟨rfl,rfl⟩

theorem next_frame {s : Link} {p : Payload} {rest : List Payload} (h : Holds s (p::rest))
    (hout : s.client.output = []) :
    ∃ k, Admissible s (.arrive k) ∧ Holds (exec step s [.arrive k,.pass]) rest ∧
      delivered (step s (.arrive k)) .pass = [.ofPayload p.bytes] := by
  let k := p.frame.length - s.session.input.length
  have hwritten : s.client.written = s.client.sent := by
    rw [TcpSocket.written_eq,hout,List.append_nil]
  have hlen := congrArg List.length h.stream
  rw [hwritten,encode,List.flatMap_cons,List.length_append,List.length_append,List.length_drop] at hlen
  have hair : (inAir k s).length = k := by
    rw [inAir,List.length_take,List.length_drop]
    omega
  have hfits : p.frame.length < 2^32 := by
    have hlt := p.length_lt
    rw [Payload.frame_length]
    omega
  have hadm : Admissible s (.arrive k) := by
    have hfew := h.few
    rw [Admissible,List.length_append,hair]
    omega
  have harrived := arrive_holds h hadm
  refine ⟨k,hadm,?_⟩
  have hinput : (step s (.arrive k)).session.input.length = s.session.input.length + k := by
    rw [step,arrive_input h.session,List.length_append,hair]
  cases pass_effect harrived with
  | takes q qs hps hholds hreading hdelivered =>
    cases hps
    exact ⟨hholds,hdelivered⟩
  | returns hholds hdone hsame hdelivered =>
    have hshort := hholds.due hdone p rest rfl
    rw [hsame,hinput] at hshort
    omega

/-- From a client with nothing left to hand over, everything comes through. -/
theorem drains {s : Link} {ps : List Payload} (h : Holds s ps) (hout : s.client.output = []) :
    ∃ ext, (∀ l ∈ ext, ByLibevent l) ∧ Along step Admissible s ext ∧
      (exec step s ext).client = s.client ∧ Settled (exec step s ext) ∧
      shown step accepted s ext = [] := by
  induction ps generalizing s with
  | nil =>
    have hair : s.client.written.drop s.arrived = [] := (List.append_eq_nil_iff.mp h.stream).2
    have harrived : s.arrived = s.client.sent.length := by
      have hle := List.drop_eq_nil_iff.mp hair
      rw [TcpSocket.written_eq,hout,List.append_nil] at hle
      exact le_antisymm h.arrived hle
    obtain ⟨hclient,hsame⟩ := pass_frame s
    have hdone : (step s .pass).reading = false := by
      cases pass_effect h with
      | takes p rest hps => cases hps
      | returns hholds hdone hinput hdelivered => exact hdone
    refine ⟨[.pass],?_,⟨trivial,trivial⟩,hclient,⟨?_,?_,hdone⟩,rfl⟩
    · exact fun l hl => List.mem_singleton.mp hl ▸ trivial
    · rw [exec,exec,hclient,hout]
    · rw [exec,exec,hclient,hsame,harrived]
  | cons p rest ih =>
    obtain ⟨k,hadm,hrest,-⟩ := next_frame h hout
    have hclient : (exec step s [.arrive k,.pass]).client = s.client :=
      (pass_frame (step s (.arrive k))).1
    have hfirst : Along step Admissible s [.arrive k,.pass] := ⟨hadm,trivial,trivial⟩
    obtain ⟨ext,hlib,halong,hkeep,hsettled,hsent⟩ := ih hrest (by rw [hclient,hout])
    refine ⟨[.arrive k,.pass] ++ ext,?_,(along_append _ _ _ _ _).mpr ⟨hfirst,halong⟩,?_⟩
    · intro l hl
      simp only [List.cons_append,List.nil_append,List.mem_cons] at hl
      rcases hl with rfl | rfl | hl
      · trivial
      · trivial
      · exact hlib l hl
    · rw [exec_append,shown_append,hsent]
      exact ⟨hkeep.trans hclient,hsettled,rfl⟩

theorem hands_over {client : TcpSocket} (h : Flowing client) :
    ((client.handOver client.output.length).writeCallback).output = [] ∧
      (client.isClosing = true →
        ((client.handOver client.output.length).writeCallback).isShut = true) := by
  have hflowing := handOver_flowing h client.output.length
  have hout : (client.handOver client.output.length).output = [] := by
    cases hshut : client.isShut with
    | true => exact hflowing.shut ((GracefulClose.handOver_isShut _ client).trans hshut)
    | false => rw [GracefulClose.handOver_output (h.enabled hshut),List.drop_length]
  refine ⟨?_,fun hclosing => ?_⟩
  · have hkeep (s : TcpSocket) (hs : s.output = []) : s.writeCallback.output = [] := by
      rw [TcpSocket.writeCallback_eq]
      obtain ⟨bev,closing⟩ := s
      cases bev <;> split_ifs <;> exact hs
    exact hkeep _ hout
  · have hclosing' : (client.handOver client.output.length).isClosing = true := hclosing
    rcases hflowing.remembered hclosing' with hne | hpending
    · exact absurd hout hne
    · exact GracefulClose.writeCallback_shuts hpending hclosing' hout

/-- After every run of a client that was only closed gracefully, libevent alone can bring the link
to where everything accepted is delivered, and a close that was asked for is carried out. -/
theorem delivery_completes (fd sock : SocketFd) (run : List Step)
    (h : Along step Admissible (connected fd sock) run)
    (hgraceful : Along step Graceful (connected fd sock) run) :
    ∃ ext, (∀ l ∈ ext, ByLibevent l) ∧ Along step Admissible (connected fd sock) (run++ext) ∧
      shown step delivered (connected fd sock) (run++ext) =
        shown step accepted (connected fd sock) run ∧
      ((exec step (connected fd sock) run).client.isClosing = true →
        (exec step (connected fd sock) (run++ext)).client.isShut = true) := by
  obtain ⟨ps,hholds,-⟩ := run_holds h
  obtain ⟨hout,hshut⟩ := hands_over (run_flowing hgraceful)
  let flush : List Step :=
    [.handOver (exec step (connected fd sock) run).client.output.length,.writeCallback]
  have hflush : Holds (exec step (exec step (connected fd sock) run) flush) ps := by
    have hhanded := hholds.keeps (handOver_writes hholds.client
      (exec step (connected fd sock) run).client.output.length)
    exact hhanded.keeps (writeCallback_writes hhanded.client)
  obtain ⟨ext,hlib,halong,hclient,hsettled,hsent⟩ := drains hflush hout
  have hadm : Along step Admissible (connected fd sock) (run ++ (flush ++ ext)) := by
    rw [along_append,along_append]
    exact ⟨h,⟨trivial,trivial,trivial⟩,halong⟩
  refine ⟨flush ++ ext,?_,hadm,?_,?_⟩
  · intro l hl
    rcases List.mem_append.mp hl with hl | hl
    · rcases List.mem_cons.mp hl with rfl | hl
      · trivial
      · exact List.mem_singleton.mp hl ▸ trivial
    · exact hlib l hl
  · obtain ⟨ps',hholds',hmoves⟩ := run_holds hadm
    have hps : ps' = [] := hholds'.settled (by rwa [exec_append,exec_append])
    subst hps
    have hsame : shown step accepted (connected fd sock) (run ++ (flush ++ ext)) =
        shown step accepted (connected fd sock) run := by
      rw [shown_append,shown_append,hsent]
      exact List.append_nil _
    rw [Moves,hsame] at hmoves
    simpa [messagesOf] using hmoves.symm
  · intro hclosing
    rw [exec_append,exec_append,hclient]
    exact hshut hclosing

theorem delivery_completes_one :
    let run : List Step := [.sendWithTPKT true true [7],.close true]
    ∃ ext, shown step delivered (connected 3 4) (run++ext) = [⟨1,[some 7]⟩] ∧
      (exec step (connected 3 4) (run++ext)).client.isShut = true := by
  intro run
  obtain ⟨ext,-,-,hdelivered,hshut⟩ := delivery_completes 3 4 run
    ⟨fun _ => ⟨rfl,by decide⟩,trivial,trivial⟩ ⟨rfl,rfl,trivial⟩
  exact ⟨ext,hdelivered,hshut rfl⟩

end FramedLink
end Translib
