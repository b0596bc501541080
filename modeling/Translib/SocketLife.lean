import Translib.TcpClient
import Translib.TransitionMachine

/-! The life of a socket from one bufferevent to the next: when it accepts data, and when it
refuses it. -/

namespace Translib
namespace SocketLife

open TransitionMachine

/-- `ended` says that the connection was closed by a call, or its disconnect handled. -/
structure Life where
  socket : TcpSocket
  ended : Bool
  deriving DecidableEq, Repr

inductive Step
  | opened (fd : SocketFd)
  | send (ok : Bool) (data : List Byte)
  | close (waiting : Bool)
  | handOver (k : ℕ)
  | writeCallback
  | disconnect
  | freed
  deriving DecidableEq, Repr

def step (s : Life) : Step → Life
  | .opened fd => ⟨{ s.socket with bev := some (.socketNew fd) },false⟩
  | .send ok data => { s with socket := (s.socket.send ok data).2 }
  | .close waiting => ⟨s.socket.close waiting,s.ended || s.socket.bev.isSome⟩
  | .handOver k => { s with socket := s.socket.handOver k }
  | .writeCallback => { s with socket := s.socket.writeCallback }
  | .disconnect => ⟨s.socket.disable,true⟩
  | .freed => { s with socket.bev := none }

/-- Until the connection is over, a send whose `bufferevent_write` succeeds returns true. -/
def Accepting (s : Life) : Prop :=
  s.socket.bev.isSome → s.ended = false → ∀ data, (s.socket.send true data).1 = true

/-- Data is accepted only while writing is enabled and the connection is not over. -/
def Refusing (s : Life) : Prop :=
  ∀ ok data, (s.socket.send ok data).1 = true → s.ended = false ∧ s.socket.writeEnabled = true

/-- No connection is opened while the close of an earlier one is pending. -/
def CleanlyOpened (s : Life) : Step → Prop
  | .opened _ => s.socket.isClosing = false
  | _ => True

/-- Every close waits and has something to wait for, what it waits for is never completed,
and a disconnect is handled only while a close waits. -/
def Unfinished (s : Life) : Step → Prop
  | .close waiting => s.socket.bev.isSome → waiting = true ∧ s.socket.output ≠ []
  | .writeCallback =>
    ¬ (s.socket.writePending = true ∧ s.socket.isClosing = true ∧ s.socket.output = [])
  | .disconnect => s.socket.bev.isSome → s.socket.isClosing = true
  | _ => True

theorem accepting_flags (s : Life) :
    Accepting s ↔ (s.socket.bev.isSome → s.ended = false → s.socket.isClosing = false) := by
  refine forall₂_congr fun hbev hended => ?_
  simp only [TcpSocket.send_eq,TcpSocket.Accepts,hbev,true_and,and_true]
  constructor
  · intro h
    by_contra hclosing
    simpa [hclosing] using h []
  · intro h data
    simp [h]

theorem refusing_flags (s : Life) :
    Refusing s ↔ (s.socket.bev.isSome → s.socket.isClosing = false →
      s.ended = false ∧ s.socket.writeEnabled = true) := by
  constructor
  · intro h hbev hclosing
    exact h true [] (by simp [TcpSocket.send_eq,TcpSocket.Accepts,hbev,hclosing])
  · intro h ok data hsend
    rw [TcpSocket.send_eq] at hsend
    by_cases haccepts : s.socket.Accepts ok
    · exact h haccepts.1 haccepts.2.1
    · simp [haccepts] at hsend

/-- A connection goes on accepting, and a new one accepts unless a close is still pending. -/
theorem step_accepting {s : Life} (l : Step) (h : Accepting s) :
    Accepting (step s l) ↔ CleanlyOpened s l := by
  rw [accepting_flags] at h ⊢
  have hkeep {s' : Life} (hbev : s'.socket.bev.isSome = s.socket.bev.isSome)
      (hended : s'.ended = s.ended) (hclosing : s'.socket.isClosing = s.socket.isClosing) :
      s'.socket.bev.isSome → s'.ended = false → s'.socket.isClosing = false := by
    rw [hbev,hended,hclosing]
    exact h
  cases l with
  | opened fd => exact ⟨fun hopen => hopen rfl rfl,fun hclean _ _ => hclean⟩
  | send ok data =>
    obtain ⟨hbev,hclosing,_⟩ := TcpSocket.send_flags ok data s.socket
    exact ⟨fun _ => trivial,fun _ => hkeep hbev rfl hclosing⟩
  | close waiting =>
    refine ⟨fun _ => trivial,fun _ hbev hended => ?_⟩
    cases hs : s.socket.bev with
    | none => simp [step,TcpSocket.close,hs] at hbev
    | some b => simp [step,hs] at hended
  | handOver k =>
    obtain ⟨hbev,hclosing,_⟩ := TcpSocket.handOver_flags k s.socket
    exact ⟨fun _ => trivial,fun _ => hkeep hbev rfl hclosing⟩
  | writeCallback =>
    refine ⟨fun _ => trivial,fun _ => ?_⟩
    by_cases hcarry : s.socket.writePending = true ∧ s.socket.isClosing = true ∧ s.socket.output = []
    · intro _ _
      simp [step,TcpSocket.writeCallback_eq,hcarry]
    · obtain ⟨hbev,hclosing,_⟩ := TcpSocket.writeCallback_flags hcarry
      exact hkeep hbev rfl hclosing
  | disconnect => exact ⟨fun _ => trivial,fun _ _ hended => by cases hended⟩
  | freed => exact ⟨fun _ => trivial,fun _ hbev => by cases hbev⟩

/-- What is over goes on being refused, unless a close is carried out, or a disconnect
handled with no close pending. -/
theorem step_refusing {s : Life} (l : Step) (h : Refusing s) :
    Refusing (step s l) ↔ Unfinished s l := by
  rw [refusing_flags] at h ⊢
  have hkeep {socket : TcpSocket} (hbev : socket.bev.isSome = s.socket.bev.isSome)
      (hclosing : socket.isClosing = s.socket.isClosing)
      (henabled : socket.writeEnabled = s.socket.writeEnabled) :
      socket.bev.isSome → socket.isClosing = false → s.ended = false ∧ socket.writeEnabled = true := by
    rw [hbev,hclosing,henabled]
    exact h
  cases l with
  | opened fd => exact ⟨fun _ => trivial,fun _ _ _ => ⟨rfl,rfl⟩⟩
  | send ok data =>
    obtain ⟨hbev,hclosing,henabled⟩ := TcpSocket.send_flags ok data s.socket
    exact ⟨fun _ => trivial,fun _ => hkeep hbev hclosing henabled⟩
  | handOver k =>
    obtain ⟨hbev,hclosing,henabled⟩ := TcpSocket.handOver_flags k s.socket
    exact ⟨fun _ => trivial,fun _ => hkeep hbev hclosing henabled⟩
  | freed => exact ⟨fun _ => trivial,fun _ hbev => by cases hbev⟩
  | close waiting =>
    simp only [step,Unfinished]
    cases hs : s.socket.bev with
    | none =>
      have hsame : s.socket.close waiting = s.socket := by simp [TcpSocket.close,hs]
      simp [hsame,hs]
    | some b =>
      have hbev : s.socket.bev.isSome := by simp [hs]
      rw [TcpSocket.close_eq hbev]
      by_cases hwait : waiting = true ∧ s.socket.output ≠ []
      · simp [hwait]
      · simp [hwait,hbev]
  | writeCallback =>
    simp only [step,Unfinished]
    by_cases hcarry :
        s.socket.writePending = true ∧ s.socket.isClosing = true ∧ s.socket.output = []
    · have hbev : s.socket.bev.isSome := by
        by_contra hnone
        have hno : s.socket.bev = none := by simpa using hnone
        simp [TcpSocket.writePending,hno] at hcarry
      rw [TcpSocket.writeCallback_eq]
      simp [hcarry,TcpSocket.withBev,hbev]
    · obtain ⟨hbev,hclosing,henabled⟩ := TcpSocket.writeCallback_flags hcarry
      exact ⟨fun _ => hcarry,fun _ => hkeep hbev hclosing henabled⟩
  | disconnect =>
    simp only [step,Unfinished,TcpSocket.disable,TcpSocket.withBev,Option.isSome_map]
    constructor
    · intro hrefusing hbev
      by_contra hopen
      exact absurd (hrefusing hbev (by simpa using hopen)).1 (by simp)
    · intro hpending hbev hopen
      rw [hpending hbev] at hopen
      cases hopen

end SocketLife
end Translib
