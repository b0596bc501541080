import Translib.TcpClientTPKT
import Translib.TcpServerTPKT
import Translib.TransitionMachine

/-! Calls of `sendWithTPKT` from several threads on one connection. Each of the two
sends of a call is one step; between them anything may happen. -/

namespace Translib
namespace TpktSenders

open TpktFormat TpktSender TransitionMachine

/-- Where a call stands: before its first send, between the two, or returned. -/
inductive Progress
  | header | payload | returned (ret : Bool)
  deriving DecidableEq, Repr

structure Senders (ι : Type*) where
  socket : TcpSocket
  progress : ι → Progress

inductive Step (ι : Type*)
  | header (i : ι) (ok : Bool)
  | payload (i : ι) (ok : Bool)
  | close (waiting : Bool)
  | handOver (k : ℕ)
  | writeCallback
  deriving DecidableEq, Repr

variable {ι : Type*} [DecidableEq ι]

/-- The first send of call `i`. -/
def sendHeader (data : ι → List Byte) (i : ι) (ok : Bool) (s : Senders ι) : Senders ι :=
  let ret := s.socket.send ok (tpktHeader (data i).length)
  ⟨ret.2,Function.update s.progress i (if !ret.1 then .returned false else .payload)⟩

/-- The second send of call `i`, whose result the call returns. -/
def sendPayload (data : ι → List Byte) (i : ι) (ok : Bool) (s : Senders ι) : Senders ι :=
  let ret := s.socket.send ok (data i)
  ⟨ret.2,Function.update s.progress i (.returned ret.1)⟩

def step (data : ι → List Byte) (s : Senders ι) : Step ι → Senders ι
  | .header i ok => if s.progress i = .header then sendHeader data i ok s else s
  | .payload i ok => if s.progress i = .payload then sendPayload data i ok s else s
  | .close waiting => { s with socket := s.socket.close waiting }
  | .handOver k => { s with socket := s.socket.handOver k }
  | .writeCallback => { s with socket := s.socket.writeCallback }

/-- The two steps of a call, one right after the other, are the call. -/
theorem call_steps (data : ι → List Byte) (i : ι) (okHeader okPayload : Bool) (s : Senders ι)
    (hi : s.progress i = .header) :
    let s' := exec (step data) s [.header i okHeader,.payload i okPayload]
    s'.progress i = .returned (sendWithTPKT okHeader okPayload (data i) s.socket).1 ∧
      s'.socket = (sendWithTPKT okHeader okPayload (data i) s.socket).2 := by
  simp only [exec,step,hi,if_true,sendHeader,sendWithTPKT,Function.update_self]
  cases hret : (s.socket.send okHeader (tpktHeader (data i).length)).1 <;>
    simp [sendPayload]

/-- What the calls wrote since `s`: one complete frame for each call that returned
true, nothing for the others. -/
def FramesOnly (data : ι → List Byte) (s s' : Senders ι) : Prop :=
  ∃ order : List ι, order.Nodup ∧ (∀ i, i ∈ order ↔ s'.progress i = .returned true) ∧
    (∀ i ∈ order, (data i).length+tpkt1Length ≤ tpkt1MaxMsgLength) ∧
    s'.socket.written = s.socket.written ++ order.flatMap fun i => frame (data i)

/-- A header is accepted only when its packet fits the length field and no other call
still has bytes to send; a payload is sent only when it is accepted. -/
def Undisturbed (data : ι → List Byte) (s : Senders ι) : Step ι → Prop
  | .header i ok => s.progress i = .header → s.socket.Accepts ok →
    (data i).length+tpkt1Length ≤ tpkt1MaxMsgLength ∧
      ∀ j, s.progress j = .payload → data j = []
  | .payload i ok => s.progress i = .payload → s.socket.Accepts ok
  | _ => True

/-- The bytes written so far: the frames of `order`, and the header of the call that is
between its two sends with bytes left to send. -/
structure Framed (data : ι → List Byte) (old : List Byte) (order : List ι) (mid : Option ι)
    (s : Senders ι) : Prop where
  nodup : order.Nodup
  done : ∀ i, i ∈ order ↔ s.progress i = .returned true ∨ (s.progress i = .payload ∧ data i = [])
  between : ∀ i, (s.progress i = .payload ∧ data i ≠ []) ↔ mid = some i
  fits : ∀ i, i ∈ order ∨ mid = some i → (data i).length+tpkt1Length ≤ tpkt1MaxMsgLength
  written : s.socket.written = old ++ order.flatMap (fun i => frame (data i)) ++
    (mid.map fun i => tpktHeader (data i).length).getD []

theorem Framed.update {data : ι → List Byte} {old : List Byte} {order order' : List ι}
    {mid mid' : Option ι} {s : Senders ι} {i : ι} {p : Progress} {socket : TcpSocket}
    (h : Framed data old order mid s) (hnodup : order'.Nodup)
    (hdone : i ∈ order' ↔ p = .returned true ∨ (p = .payload ∧ data i = []))
    (hmid : (p = .payload ∧ data i ≠ []) ↔ mid' = some i)
    (hothers : ∀ j, j ≠ i → (j ∈ order' ↔ j ∈ order) ∧ (mid' = some j ↔ mid = some j))
    (hfits : i ∈ order' ∨ mid' = some i → (data i).length+tpkt1Length ≤ tpkt1MaxMsgLength)
    (hwritten : socket.written = old ++ order'.flatMap (fun i => frame (data i)) ++
      (mid'.map fun i => tpktHeader (data i).length).getD []) :
    Framed data old order' mid' ⟨socket,Function.update s.progress i p⟩ where
  nodup := hnodup
  done := fun j => by
    by_cases hj : j = i
    · subst hj
      simpa using hdone
    · simpa [hj,(hothers j hj).1] using h.done j
  between := fun j => by
    by_cases hj : j = i
    · subst hj
      simpa using hmid
    · simpa [hj,(hothers j hj).2] using h.between j
  fits := fun j hfit => by
    by_cases hj : j = i
    · subst hj
      exact hfits hfit
    · rw [(hothers j hj).1,(hothers j hj).2] at hfit
      exact h.fits j hfit
  written := hwritten

theorem sendHeader_framed {data : ι → List Byte} {old : List Byte} {order : List ι}
    {mid : Option ι} {s : Senders ι} {i : ι} {ok : Bool} (h : Framed data old order mid s)
    (hi : s.progress i = .header) (hu : Undisturbed data s (.header i ok)) :
    ∃ order' mid', Framed data old order' mid' (sendHeader data i ok s) := by
  have hnew : i ∉ order := fun hmem => by simpa [hi] using (h.done i).mp hmem
  have hidle : mid ≠ some i := fun hmid => by simpa [hi] using (h.between i).mpr hmid
  unfold sendHeader
  rw [TcpSocket.send_eq]
  by_cases ha : s.socket.Accepts ok
  · obtain ⟨hfit,hempty⟩ := hu hi ha
    have hnone : mid = none := by
      rw [Option.eq_none_iff_forall_ne_some]
      intro j hj
      obtain ⟨hpayload,hdata⟩ := (h.between j).mpr hj
      exact hdata (hempty j hpayload)
    subst hnone
    have hwritten := TcpSocket.append_written ha.1 (tpktHeader (data i).length)
    rw [h.written] at hwritten
    simp only [ha,if_true,Bool.not_true,Bool.false_eq_true,if_false]
    by_cases hdata : data i = []
    · refine ⟨order ++ [i],none,h.update ?_ ?_ ?_ ?_ (fun _ => hfit) ?_⟩
      · exact List.concat_eq_append ▸ h.nodup.concat hnew
      · simp [hdata]
      · simp [hdata]
      · intro j hj
        simp [hj]
      · have hframe : tpktHeader 0 = frame [] := by simpa [hdata] using tpktHeader_append (data i)
        simpa [hdata,hframe] using hwritten
    · refine ⟨order,some i,h.update h.nodup ?_ ?_ ?_ (fun _ => hfit) ?_⟩
      · simp [hnew,hdata]
      · simp [hdata]
      · intro j hj
        simp [Ne.symm hj]
      · simpa using hwritten
  · simp only [ha,if_false,Bool.not_false,if_true]
    refine ⟨order,mid,h.update h.nodup ?_ ?_ (fun _ _ => ⟨Iff.rfl,Iff.rfl⟩) ?_ h.written⟩
    · simp [hnew]
    · simp [hidle]
    · rintro (hmem | hmid) <;> contradiction

theorem sendPayload_framed {data : ι → List Byte} {old : List Byte} {order : List ι}
    {mid : Option ι} {s : Senders ι} {i : ι} {ok : Bool} (h : Framed data old order mid s)
    (hi : s.progress i = .payload) (ha : s.socket.Accepts ok) :
    ∃ order' mid', Framed data old order' mid' (sendPayload data i ok s) := by
  have hwritten := TcpSocket.append_written ha.1 (data i)
  rw [h.written] at hwritten
  unfold sendPayload
  rw [TcpSocket.send_eq]
  simp only [ha,if_true]
  by_cases hdata : data i = []
  · have hmem : i ∈ order := (h.done i).mpr (.inr ⟨hi,hdata⟩)
    have hidle : mid ≠ some i := fun hmid => ((h.between i).mpr hmid).2 hdata
    refine ⟨order,mid,h.update h.nodup ?_ ?_ (fun _ _ => ⟨Iff.rfl,Iff.rfl⟩)
      (fun _ => h.fits i (.inl hmem)) ?_⟩
    · simp [hmem]
    · simp [hidle]
    · simpa [hdata] using hwritten
  · have hmid : mid = some i := (h.between i).mp ⟨hi,hdata⟩
    subst hmid
    have hnew : i ∉ order := fun hmem => by simpa [hi,hdata] using (h.done i).mp hmem
    refine ⟨order ++ [i],none,h.update ?_ ?_ ?_ ?_ (fun _ => h.fits i (.inr rfl)) ?_⟩
    · exact List.concat_eq_append ▸ h.nodup.concat hnew
    · simp
    · simp
    · intro j hj
      simp [hj,Ne.symm hj]
    · simpa [← tpktHeader_append] using hwritten

/-- The step lemma: an undisturbed step leaves whole frames and at most one header. -/
theorem step_framed {data : ι → List Byte} {old : List Byte} {s : Senders ι} {l : Step ι}
    (h : ∃ order mid, Framed data old order mid s) (hu : Undisturbed data s l) :
    ∃ order mid, Framed data old order mid (step data s l) := by
  obtain ⟨order,mid,hf⟩ := h
  have hsocket (socket : TcpSocket) (hw : socket.written = s.socket.written) :
      Framed data old order mid { s with socket := socket } :=
    ⟨hf.nodup,hf.done,hf.between,hf.fits,hw.trans hf.written⟩
  cases l with
  | header i ok =>
    simp only [step]
    split_ifs with hi
    · exact sendHeader_framed hf hi hu
    · exact ⟨order,mid,hf⟩
  | payload i ok =>
    simp only [step]
    split_ifs with hi
    · exact sendPayload_framed hf hi (hu hi)
    · exact ⟨order,mid,hf⟩
  | close waiting => exact ⟨order,mid,hsocket _ (TcpSocket.close_written waiting s.socket)⟩
  | handOver k => exact ⟨order,mid,hsocket _ (TcpSocket.handOver_written k s.socket)⟩
  | writeCallback => exact ⟨order,mid,hsocket _ (TcpSocket.writeCallback_written s.socket)⟩

/-- Frames reach the output buffer whole or not at all, in every run whose steps are
undisturbed: of any number of calls, with closes and failed writes anywhere else. -/
theorem frames_only (data : ι → List Byte) (s : Senders ι) (run : List (Step ι))
    (hstart : ∀ i, s.progress i = .header)
    (hrun : Along (step data) (Undisturbed data) s run)
    (hret : ∀ i, ∃ ret, (exec (step data) s run).progress i = .returned ret) :
    FramesOnly data s (exec (step data) s run) := by
  have hfirst : Framed data s.socket.written [] none s :=
    ⟨by simp,by simp [hstart],by simp [hstart],by simp,by simp⟩
  obtain ⟨order,mid,hf⟩ := exec_invariant
    (I := fun s' => ∃ order mid, Framed data s.socket.written order mid s')
    (fun _ _ h hu => step_framed h hu) ⟨_,_,hfirst⟩ hrun
  have hnone : mid = none := by
    rw [Option.eq_none_iff_forall_ne_some]
    intro i hi
    obtain ⟨ret,hr⟩ := hret i
    simpa [hr] using (hf.between i).mpr hi
  subst hnone
  refine ⟨order,hf.nodup,fun i => ?_,fun i hi => hf.fits i (.inl hi),by simpa using hf.written⟩
  obtain ⟨ret,hr⟩ := hret i
  simpa [hr] using hf.done i

theorem frames_only_in_turn :
    let data : Bool → List Byte := fun i => if i then [0xBB] else [0xAA]
    let s : Senders Bool := ⟨⟨some (.fresh []),false⟩,fun _ => .header⟩
    FramesOnly data s (exec (step data) s
      [.header false true,.payload false true,.close true,.header true true]) := by
  intro data s
  refine frames_only data s _ (fun _ => rfl) ?_ ?_
  · refine ⟨fun _ _ => ⟨by decide,by decide⟩,fun _ => by decide,trivial,?_,trivial⟩
    exact fun _ ha => absurd ha (by decide)
  · exact fun i => by cases i <;> exact ⟨_,rfl⟩

/-- Runs after which all calls have returned and the stream is not a row of frames: two
headers before two payloads, a close between a header and its payload, a second write
that fails. -/
theorem frames_torn :
    let data : Bool → List Byte := fun i => if i then [0xBB] else [0xAA]
    let s : Senders Bool := ⟨⟨some (.fresh []),false⟩,fun _ => .header⟩
    ∀ run ∈ ([[.header false true,.header true true,.payload false true,.payload true true],
        [.header false true,.close true,.payload false true,.header true true],
        [.header false true,.payload false false,.header true false]] : List (List (Step Bool))),
      (∀ i, ∃ ret, (exec (step data) s run).progress i = .returned ret) ∧
        ¬ FramesOnly data s (exec (step data) s run) := by
  intro data s run hrun
  have hreturned (run : List (Step Bool)) (ret ret' : Bool)
      (h : (exec (step data) s run).progress false = .returned ret)
      (h' : (exec (step data) s run).progress true = .returned ret') :
      ∀ i, ∃ ret, (exec (step data) s run).progress i = .returned ret := by
    intro i
    cases i
    · exact ⟨ret,h⟩
    · exact ⟨ret',h'⟩
  have hfailed (run : List (Step Bool))
      (h : ∀ i, (exec (step data) s run).progress i = .returned false)
      (hwritten : (exec (step data) s run).socket.written ≠ []) :
      ¬ FramesOnly data s (exec (step data) s run) := by
    rintro ⟨order,_,hmem,_,heq⟩
    cases order with
    | nil => exact hwritten heq
    | cons i order => simpa [h] using hmem i
  simp only [List.mem_cons,List.not_mem_nil,or_false] at hrun
  rcases hrun with rfl | rfl | rfl
  · refine ⟨hreturned _ true true (by decide) (by decide),?_⟩
    rintro ⟨order,_,_,_,heq⟩
    have hfifth := congrArg (fun bytes => bytes.getD 4 0) heq
    cases order with
    | nil => exact absurd hfifth (by decide)
    | cons i order =>
      have hbyte : (0x1 : Byte) = (data i).headD 0 := by
        cases i <;> exact hfifth
      cases i <;> exact absurd hbyte (by decide)
  · exact ⟨hreturned _ false false (by decide) (by decide),
      hfailed _ (by decide) (by decide)⟩
  · exact ⟨hreturned _ false false (by decide) (by decide),
      hfailed _ (by decide) (by decide)⟩

end TpktSenders
end Translib
