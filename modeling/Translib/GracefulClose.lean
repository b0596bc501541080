import Translib.TcpSocket
import Translib.TransitionMachine

/-! Closing after the data is sent: `close(true)` on a connection from which bytes are
still being handed over, with write callbacks that run late. -/

namespace Translib
namespace GracefulClose

open TransitionMachine

/-- A connection on its loop thread, and the data of the sends accepted so far. -/
structure Connection where
  socket : TcpSocket
  accepted : List (List Byte)
  deriving DecidableEq, Repr

inductive Op
  | send (ok : Bool) (data : List Byte)
  | close
  | handOver (k : ℕ)
  | writeCallback
  deriving DecidableEq, Repr

def step (c : Connection) : Op → Connection
  | .send ok data =>
    let ret := c.socket.send ok data
    ⟨ret.2,if ret.1 then c.accepted ++ [data] else c.accepted⟩
  | .close => { c with socket := c.socket.close true }
  | .handOver k => { c with socket := c.socket.handOver k }
  | .writeCallback => { c with socket := c.socket.writeCallback }

/-- A new connection. A write callback may be scheduled from the start, as it is when
connecting has just finished. -/
def connected (input : List Byte) (pending : Bool) : Connection :=
  ⟨⟨some { Bufferevent.fresh input with writePending := pending },false⟩,[]⟩

/-- The close is not forgotten: there is a byte to hand over, or a callback to come. -/
def Remembered (s : TcpSocket) : Prop :=
  s.isClosing = true → s.output ≠ [] ∨ s.writePending = true

theorem send_remembered (ok : Bool) (data : List Byte) {s : TcpSocket} (h : Remembered s) :
    Remembered (s.send ok data).2 := by
  rw [TcpSocket.send_eq]
  split_ifs with ha
  · intro hclosing
    exact absurd (ha.2.1.symm.trans hclosing) (by decide)
  · exact h

theorem closeImpl_remembered (s : TcpSocket) : Remembered s.closeImpl := by
  intro hclosing
  simp at hclosing

theorem close_remembered {s : TcpSocket} (h : Remembered s) : Remembered (s.close true) := by
  obtain ⟨bev,closing⟩ := s
  cases bev with
  | none => exact h
  | some b =>
    by_cases hout : 0 < b.output.length
    · intro _
      left
      simpa [TcpSocket.close,TcpSocket.output,hout] using List.length_pos_iff.mp hout
    · simpa [TcpSocket.close,hout] using closeImpl_remembered _

theorem handOver_remembered (k : ℕ) {s : TcpSocket} (h : Remembered s) :
    Remembered (s.handOver k) := by
  obtain ⟨bev,closing⟩ := s
  cases bev with
  | none => exact h
  | some b =>
    intro hclosing
    have hb := h hclosing
    simp only [TcpSocket.handOver,TcpSocket.withBev,TcpSocket.output,TcpSocket.writePending,
      Option.map_some,Option.getD_some,Bufferevent.handOver] at hb ⊢
    cases b.writeEnabled with
    | false => exact hb
    | true =>
      by_cases hdrop : b.output.drop k = []
      · right
        rcases hb with hout | hpending
        · simp [hdrop,hout]
        · simp [hpending]
      · left
        exact hdrop

theorem writeCallback_remembered {s : TcpSocket} (h : Remembered s) :
    Remembered s.writeCallback := by
  unfold TcpSocket.writeCallback TcpSocket.checkClosing
  split_ifs with hpending hclose
  · exact closeImpl_remembered _
  · intro hclosing
    left
    intro hout
    exact hclose (by simp [hclosing,hout])
  · exact h

theorem send_isShut (ok : Bool) (data : List Byte) (s : TcpSocket) :
    (s.send ok data).2.isShut = s.isShut := by
  rw [TcpSocket.send_eq]
  split_ifs
  · obtain ⟨bev,closing⟩ := s
    cases bev <;> rfl
  · rfl

theorem handOver_isShut (k : ℕ) (s : TcpSocket) : (s.handOver k).isShut = s.isShut := by
  obtain ⟨bev,closing⟩ := s
  cases bev with
  | none => rfl
  | some b =>
    simp only [TcpSocket.handOver,TcpSocket.withBev,TcpSocket.isShut,Option.map_some,
      Option.getD_some,Bufferevent.handOver]
    split_ifs <;> rfl

theorem close_cases {s : TcpSocket} (hopen : s.bev.isSome) :
    (s.output = [] ∧ s.close true = s.closeImpl) ∨ s.close true = { s with isClosing := true } := by
  obtain ⟨bev,closing⟩ := s
  obtain ⟨b,hb⟩ := Option.isSome_iff_exists.mp hopen
  simp only at hb
  subst hb
  by_cases hout : 0 < b.output.length
  · right
    simp [TcpSocket.close,hout]
  · left
    refine ⟨by simpa [TcpSocket.output] using hout,?_⟩
    simp [TcpSocket.close,hout]

theorem writeCallback_cases (s : TcpSocket) :
    (s.output = [] ∧ s.writeCallback.isShut = s.closeImpl.isShut ∧ s.writeCallback.output = []) ∨
      (s.writeCallback.isShut = s.isShut ∧ s.writeCallback.isClosing = s.isClosing) := by
  obtain ⟨bev,closing⟩ := s
  cases bev with
  | none =>
    right
    simp [TcpSocket.writeCallback,TcpSocket.writePending]
  | some b =>
    cases hpending : b.writePending with
    | false =>
      right
      simp [TcpSocket.writeCallback,TcpSocket.writePending,hpending]
    | true =>
      by_cases hclose : closing = true ∧ b.output = []
      · left
        obtain ⟨rfl,hout⟩ := hclose
        simp [TcpSocket.writeCallback,TcpSocket.writePending,TcpSocket.checkClosing,
          TcpSocket.output,TcpSocket.withBev,TcpSocket.closeImpl,TcpSocket.clearInputBuffer,
          TcpSocket.isShut,hpending,hout]
      · right
        simp [TcpSocket.writeCallback,TcpSocket.writePending,TcpSocket.checkClosing,
          TcpSocket.output,TcpSocket.withBev,TcpSocket.isShut,hpending,hclose]

/-- The socket is shut down only when everything was handed over. -/
theorem shut_drained {c : Connection} {op : Op} (hopen : c.socket.bev.isSome)
    (hbefore : c.socket.isShut = false) (hshut : (step c op).socket.isShut = true) :
    (step c op).socket.output = [] := by
  have hsame (b : Bool) (hb : b = c.socket.isShut) : b ≠ true := by simp [hb,hbefore]
  cases op with
  | send ok data => exact absurd hshut (hsame _ (send_isShut ok data c.socket))
  | close =>
    rcases close_cases hopen with ⟨hout,hclose⟩ | hclose
    · simpa [step,hclose] using hout
    · exact absurd hshut (hsame _ (by simp [step,hclose,TcpSocket.isShut]))
  | handOver k => exact absurd hshut (hsame _ (handOver_isShut k c.socket))
  | writeCallback =>
    rcases writeCallback_cases c.socket with ⟨_,_,hout⟩ | ⟨hsh,_⟩
    · exact hout
    · exact absurd hshut (hsame _ hsh)

structure Flushing (c : Connection) : Prop where
  isSome : c.socket.bev.isSome
  accounted : c.socket.written = c.accepted.flatten
  remembered : Remembered c.socket

theorem step_flushing {c : Connection} (op : Op) (h : Flushing c) : Flushing (step c op) := by
  have hbev (f : TcpSocket → TcpSocket) (hf : (f c.socket).bev.isSome = c.socket.bev.isSome)
      (hw : (f c.socket).written = c.socket.written) (hr : Remembered (f c.socket)) :
      Flushing { c with socket := f c.socket } :=
    ⟨hf.trans h.isSome,hw.trans h.accounted,hr⟩
  cases op with
  | send ok data =>
    have hrem := send_remembered ok data h.remembered
    simp only [step]
    rw [TcpSocket.send_eq] at hrem ⊢
    by_cases ha : c.socket.Accepts ok
    · rw [if_pos ha] at hrem ⊢
      refine ⟨?_,?_,hrem⟩
      · simpa [TcpSocket.append,TcpSocket.withBev] using ha.1
      · simpa [h.accounted] using TcpSocket.append_written ha.1 data
    · rw [if_neg ha]
      exact h
  | close =>
    refine hbev (TcpSocket.close true) ?_ (TcpSocket.close_written true _)
      (close_remembered h.remembered)
    rcases close_cases h.isSome with ⟨_,hclose⟩ | hclose
    · rw [hclose,TcpSocket.closeImpl_isSome]
    · rw [hclose]
  | handOver k =>
    refine hbev (TcpSocket.handOver k) ?_ (TcpSocket.handOver_written k _)
      (handOver_remembered k h.remembered)
    simp [TcpSocket.handOver,TcpSocket.withBev]
  | writeCallback =>
    refine hbev TcpSocket.writeCallback ?_ (TcpSocket.writeCallback_written _)
      (writeCallback_remembered h.remembered)
    unfold TcpSocket.writeCallback TcpSocket.checkClosing
    split_ifs <;> simp [TcpSocket.withBev]

theorem run_flushing (input : List Byte) (pending : Bool) (run : List Op) :
    Flushing (exec step (connected input pending) run) :=
  exec_preserves (fun _ op h => step_flushing op h) ⟨rfl,rfl,fun h => by simp [connected] at h⟩ run

theorem step_closing {c : Connection} (op : Op) (hopen : c.socket.bev.isSome)
    (h : c.socket.isShut = true ∨ c.socket.isClosing = true) :
    (step c op).socket.isShut = true ∨ (step c op).socket.isClosing = true := by
  cases op with
  | send ok data =>
    have hclosing : (c.socket.send ok data).2.isClosing = c.socket.isClosing := by
      rw [TcpSocket.send_eq]
      split_ifs <;> rfl
    simpa [step,send_isShut,hclosing] using h
  | close =>
    rcases close_cases hopen with ⟨_,hclose⟩ | hclose
    · left
      simpa [step,hclose] using hopen
    · right
      simp [step,hclose]
  | handOver k =>
    have hclosing : (c.socket.handOver k).isClosing = c.socket.isClosing := rfl
    simpa [step,handOver_isShut,hclosing] using h
  | writeCallback =>
    rcases writeCallback_cases c.socket with ⟨_,hsh,_⟩ | ⟨hsh,hclosing⟩
    · left
      exact hsh.trans ((TcpSocket.closeImpl_isShut _).trans hopen)
    · simpa [step,hsh,hclosing] using h

theorem run_closing {c : Connection} (hf : Flushing c) (rest : List Op) :
    (exec step (step c .close) rest).socket.isShut = true ∨
      (exec step (step c .close) rest).socket.isClosing = true := by
  have hfirst : (step c .close).socket.isShut = true ∨ (step c .close).socket.isClosing = true := by
    rcases close_cases hf.isSome with ⟨_,hclose⟩ | hclose
    · left
      simpa [step,hclose] using hf.isSome
    · right
      simp [step,hclose]
  have hrun := exec_preserves
    (I := fun c => Flushing c ∧ (c.socket.isShut = true ∨ c.socket.isClosing = true))
    (fun c op h => ⟨step_flushing op h.1,step_closing op h.1.isSome h.2⟩)
    ⟨step_flushing .close hf,hfirst⟩ rest
  exact hrun.2

/-- Graceful close, after any run of a new connection. The step that shuts the socket
down leaves everything accepted handed over and nothing else; from a close until then a
send is refused and changes nothing; and a close that waits has something to wait for. -/
theorem graceful_close (input : List Byte) (pending : Bool) (run : List Op) :
    let c := exec step (connected input pending) run
    (∀ op, c.socket.isShut = false → (step c op).socket.isShut = true →
      (step c op).socket.sent = (step c op).accepted.flatten) ∧
    (∀ before after, run = before ++ Op.close :: after → c.socket.isShut = false →
      ∀ ok data, c.socket.send ok data = (false,c.socket)) ∧
    (c.socket.isClosing = true → c.socket.output ≠ [] ∨ c.socket.writePending = true) := by
  intro c
  have hf : Flushing c := run_flushing input pending run
  refine ⟨fun op hbefore hshut => ?_,fun before after hrun hopen ok data => ?_,hf.remembered⟩
  · have hout := shut_drained hf.isSome hbefore hshut
    have hwritten := (step_flushing op hf).accounted
    rwa [TcpSocket.written_eq,hout,List.append_nil] at hwritten
  · have hclosing := run_closing (run_flushing input pending before) after
    have hc : c = exec step (step (exec step (connected input pending) before) .close) after := by
      simp only [c,hrun,exec_append]
      rfl
    rw [← hc,hopen] at hclosing
    have hrefused : ¬ c.socket.Accepts ok := fun ha => by simp [ha.2.1] at hclosing
    rw [TcpSocket.send_eq,if_neg hrefused]

theorem handOver_output {s : TcpSocket} (henabled : s.writeEnabled = true) (k : ℕ) :
    (s.handOver k).output = s.output.drop k := by
  obtain ⟨bev,closing⟩ := s
  cases bev with
  | none => simp [TcpSocket.writeEnabled] at henabled
  | some b =>
    have hb : b.writeEnabled = true := henabled
    simp [TcpSocket.handOver,TcpSocket.withBev,TcpSocket.output,Bufferevent.handOver,hb]

theorem writeCallback_shuts {s : TcpSocket} (hpending : s.writePending = true)
    (hclosing : s.isClosing = true) (hout : s.output = []) : s.writeCallback.isShut = true := by
  obtain ⟨bev,closing⟩ := s
  cases bev with
  | none => simp [TcpSocket.writePending] at hpending
  | some b =>
    simp only at hclosing
    subst hclosing
    have hb : b.output = [] := hout
    simp [TcpSocket.writeCallback,TcpSocket.checkClosing,TcpSocket.withBev,TcpSocket.output,
      TcpSocket.closeImpl,TcpSocket.clearInputBuffer,TcpSocket.isShut,hpending,hb]

/-- A close that waits is completed once everything is handed over: the callback that
follows shuts the socket down. -/
theorem close_completes {c : Connection} (hf : Flushing c) (henabled : c.socket.writeEnabled = true)
    (hclosing : c.socket.isClosing = true) :
    (exec step c [.handOver c.socket.output.length,.writeCallback]).socket.isShut = true := by
  have hdrained : (c.socket.handOver c.socket.output.length).output = [] := by
    rw [handOver_output henabled,List.drop_length]
  have hpending : (c.socket.handOver c.socket.output.length).writePending = true := by
    rcases handOver_remembered c.socket.output.length hf.remembered hclosing with hout | hpending
    · exact absurd hdrained hout
    · exact hpending
  exact writeCallback_shuts hpending hclosing hdrained

end GracefulClose
end Translib
