import Translib.EventFd
import Translib.TransitionMachine

/-! A timer whose handler sends on an event descriptor that a server on another loop reads. -/

namespace Translib
namespace EventCounting

open Timer TransitionMachine

/-- The results of the sends, the expirations and the values read are recorded. -/
structure State where
  timer : Timer Unit
  calling : Option (Handler Unit)
  client : EventFdClient
  server : EventFdServer
  fds : EventFds
  sends : List Bool
  expirations : ℕ
  total : ℕ

inductive Label
  | expiration
  | read
  deriving DecidableEq, Repr

def expire (s : State) : State :=
  match s.timer.expire with
  | none => s
  | some (handler,timer) =>
    { s with timer, calling := some handler, expirations := s.expirations+1 }

def callHandler (s : State) : State :=
  match s.calling with
  | some (.user ()) =>
    let sent := s.client.send s.fds
    { s with calling := none, fds := sent.2, sends := s.sends ++ [sent.1] }
  | _ => { s with calling := none }

def read (s : State) : State :=
  match s.server.activate with
  | none => s
  | some server =>
    let value := s.fds.read s.server.eventFd
    { s with server, fds := value.2, total := s.total + value.1.getD 0 }

def step (s : State) : Label → State
  | .expiration => callHandler (expire s)
  | .read => read s

def started (timer : Timer Unit) (efd : ℤ) (server : EventFdServer) (fds : EventFds) : State :=
  ⟨timer,none,.create efd,server,fds,[],0,0⟩

/-- A timer with rounds to go has an event, which is persistent before the last round. -/
structure Going (n k : ℕ) (t : Timer Unit) : Prop where
  armed : ∃ event, t.event = some event ∧ event.pending = true ∧ event.persist = decide (1 < n)
  round : t.round = n
  curRound : t.curRound = k
  handler : t.handler = .user ()
  left : k < n

structure Done (n k : ℕ) (t : Timer Unit) : Prop where
  event : t.event = none
  finished : t.isFinished = true
  rounds : k = n

structure Serves (efd : ℤ) (server : EventFdServer) : Prop where
  eventFd : server.eventFd = efd
  armed : server.activate = some server

structure Counted (n : ℕ) (efd : ℤ) (s : State) : Prop where
  timer : Going n s.expirations s.timer ∨ Done n s.expirations s.timer
  calling : s.calling = none
  client : s.client = .create efd
  server : Serves efd s.server
  sends : s.sends = List.replicate s.expirations true
  conserved : s.total + s.fds efd = s.expirations

theorem Counted.bounded {n : ℕ} {efd : ℤ} {s : State} (h : Counted n efd s) : s.expirations ≤ n := by
  rcases h.timer with hgoing | hdone
  · exact hgoing.left.le
  · exact hdone.rounds.le

theorem Counted.finished_iff {n : ℕ} {efd : ℤ} {s : State} (h : Counted n efd s) :
    s.timer.isFinished = true ↔ s.expirations = n := by
  rcases h.timer with hgoing | hdone
  · have hround : s.timer.isFinished = true ↔ n ≤ s.expirations := by
      simp [isFinished,hgoing.round,hgoing.curRound]
    rw [hround]
    exact iff_of_false (not_le.mpr hgoing.left) hgoing.left.ne
  · exact iff_of_true hdone.finished hdone.rounds

theorem Going.expire {n k : ℕ} {t : Timer Unit} (h : Going n k t) (hn : n < 2^64-1) :
    ∃ t', t.expire = some (.user (),t') ∧ (Going n (k+1) t' ∨ Done n (k+1) t') := by
  obtain ⟨event,he,hpending,hpersist⟩ := h.armed
  have hleft := h.left
  have h64 : t.curRound+1 < 2^64 := by
    rw [h.curRound]
    omega
  by_cases hmore : k+1 < n
  · have hlong : event.persist = true := by
      rw [hpersist,decide_eq_true_eq]
      omega
    have hstep := expire_counts he hpending hlong h64 (by rwa [h.curRound,h.round])
    rw [h.handler] at hstep
    refine ⟨_,hstep,.inl ⟨⟨event,he,hpending,hpersist⟩,h.round,?_,rfl,hmore⟩⟩
    exact congrArg (· + 1) h.curRound
  · have hstep := expire_last he hpending h64 (by rw [h.curRound,h.round]; omega)
    rw [h.handler] at hstep
    refine ⟨_,hstep,.inr ⟨rfl,?_,by omega⟩⟩
    have hfits : uint64 (n+1) = n+1 := Nat.mod_eq_of_lt (by omega)
    simp [isFinished,h.round,hfits]

theorem Counted.expiration {n : ℕ} {efd : ℤ} {s : State} (h : Counted n efd s) (hn : n < 2^64-1) :
    Counted n efd (step s .expiration) := by
  rcases h.timer with hgoing | hdone
  · obtain ⟨t,ht,hnext⟩ := hgoing.expire hn
    have hroom : s.fds s.client.eventFd + s.client.one ≤ EventFds.maxCount := by
      have hleft := hgoing.left
      have hconserved := h.conserved
      rw [h.client]
      simp only [EventFdClient.create,EventFds.maxCount]
      omega
    have hstep : step s .expiration =
        { s with
          timer := t, calling := none, expirations := s.expirations+1, sends := s.sends ++ [true]
          fds := Function.update s.fds s.client.eventFd (s.fds s.client.eventFd + s.client.one) } := by
      simp only [step,expire,ht,callHandler,EventFdClient.send_counts hroom]
    rw [hstep]
    refine ⟨hnext,rfl,h.client,h.server,?_,?_⟩
    · simp [h.sends,List.replicate_succ']
    · have hconserved := h.conserved
      simp only [h.client,EventFdClient.create,Function.update_self]
      omega
  · have hstep : step s .expiration = s := by
      have hcalling := h.calling
      obtain ⟨timer,calling,client,server,fds,sends,expirations,total⟩ := s
      subst hcalling
      simp only [step,expire,Timer.expire_idle hdone.event,callHandler]
    rw [hstep]
    exact h

theorem Counted.read {n : ℕ} {efd : ℤ} {s : State} (h : Counted n efd s) :
    Counted n efd (step s .read) := by
  have hmoves := EventFds.read_moves s.server.eventFd s.fds
  rw [h.server.eventFd,Prod.mk.injEq] at hmoves
  have hconserved := h.conserved
  simp only [step,EventCounting.read,h.server.armed,h.server.eventFd]
  refine ⟨h.timer,h.calling,h.client,h.server,h.sends,?_⟩
  simp only [hmoves]
  omega

theorem counted_step {n : ℕ} {efd : ℤ} (hn : n < 2^64-1) (s : State) (l : Label)
    (h : Counted n efd s) : Counted n efd (step s l) := by
  cases l with
  | expiration => exact h.expiration hn
  | read => exact h.read

theorem counted_started {n interval : ℕ} {lib lib' : Libevent} {efd : ℤ} {t t' : Timer Unit}
    {server : EventFdServer} {fds : EventFds} (hpos : 1 ≤ n)
    (hstart : startRounds lib interval n (.user ()) t = (true,t'))
    (hserver : EventFdServer.create lib' efd = .ok server) (hzero : fds efd = 0) :
    Counted n efd (started t' efd server fds) := by
  obtain ⟨hidle,rfl⟩ := startRounds_true (congrArg Prod.fst hstart)
  obtain ⟨hfd,harmed⟩ := EventFdServer.create_activate hserver
  rw [startRounds_idle interval n _ hidle] at hstart
  cases hstart
  exact ⟨.inl ⟨⟨_,rfl,rfl,rfl⟩,rfl,rfl,rfl,hpos⟩,rfl,rfl,⟨hfd,harmed⟩,rfl,by simp [started,hzero]⟩

theorem counted_run {n : ℕ} {efd : ℤ} {s : State} (hn : n ≤ 2^64-2) (h : Counted n efd s)
    (ls : List Label) : Counted n efd (exec step s ls) :=
  exec_preserves (counted_step (by omega)) h ls

/-- What the timer counts is what the reader gets, in whatever order they take their steps. -/
theorem nothing_lost (n interval : ℕ) (hpos : 1 ≤ n) (hn : n ≤ 2^64-2) (lib lib' : Libevent)
    (efd : ℤ) (fds : EventFds) (t t' : Timer Unit) (server : EventFdServer)
    (hstart : startRounds lib interval n (.user ()) t = (true,t'))
    (hserver : EventFdServer.create lib' efd = .ok server) (hzero : fds efd = 0)
    (ls : List Label) :
    let s := exec step (started t' efd server fds) ls
    s.sends = List.replicate s.expirations true ∧
      s.total + s.fds efd = s.expirations ∧ s.total + s.fds efd ≤ n ∧
      (s.timer.isFinished = true → s.fds efd = 0 → s.total = n) := by
  intro s
  have hcounted : Counted n efd s :=
    counted_run hn (counted_started hpos hstart hserver hzero) ls
  refine ⟨hcounted.sends,hcounted.conserved,hcounted.conserved.trans_le hcounted.bounded,?_⟩
  intro hfinished hread
  have hall := hcounted.conserved.trans (hcounted.finished_iff.mp hfinished)
  simpa [hread] using hall

theorem nothing_lost_two :
    let s := exec step (started (startRounds ⟨true,true⟩ 1 2 (.user ()) .create).2 7 ⟨7,⟨true,true⟩⟩
      fun _ => 0) [.expiration,.read,.read,.expiration,.expiration,.read]
    s.expirations = 2 ∧ s.sends = [true,true] ∧ s.total = 2 := by
  intro s
  obtain ⟨hsends,-,-,hall⟩ := nothing_lost 2 1 (by decide) (by norm_num) ⟨true,true⟩ ⟨true,true⟩ 7
    (fun _ => 0) .create _ _ rfl rfl rfl [.expiration,.read,.read,.expiration,.expiration,.read]
  have hexpirations : s.expirations = 2 := by decide
  refine ⟨hexpirations,hsends.trans ?_,hall (by decide) (by decide)⟩
  exact congrArg (List.replicate · true) hexpirations

/-- A read does not see the first half of an expiration. -/
theorem read_expire (s : State) : read (expire s) = expire (read s) := by
  cases ht : s.timer.expire <;> cases ha : s.server.activate <;> simp only [read,expire,ht,ha]

/-- The two loops, where reads come between an expiration and its handler too. -/
def halfStep : State × Bool → SplitStep.Half Unit → State × Bool :=
  SplitStep.halfStep expire callHandler fun s _ => read s

theorem Counted.expire {n : ℕ} {efd : ℤ} {s : State} (h : Counted n efd s) (hn : n < 2^64-1) :
    let s' := expire s
    s'.sends.length + s'.calling.toList.length = s'.expirations ∧
      s'.total + s'.fds efd + s'.calling.toList.length = s'.expirations := by
  intro s'
  have hsends : s.sends.length = s.expirations := by simp [h.sends]
  have hconserved := h.conserved
  rcases h.timer with hgoing | hdone
  · obtain ⟨t,ht,-⟩ := hgoing.expire hn
    have hs' : s' = { s with
        timer := t, calling := some (.user ()), expirations := s.expirations+1 } := by
      simp only [s',EventCounting.expire,ht]
    rw [hs']
    exact ⟨congrArg (· + 1) hsends,congrArg (· + 1) hconserved⟩
  · have hs' : s' = s := by simp only [s',EventCounting.expire,Timer.expire_idle hdone.event]
    rw [hs',h.calling]
    exact ⟨hsends,hconserved⟩

/-- Whenever the reads come, all that is missing is the call that is on its way. -/
theorem nothing_lost_halves {n : ℕ} {efd : ℤ} {s : State} (hn : n ≤ 2^64-2) (h : Counted n efd s)
    (hs : List (SplitStep.Half Unit)) :
    let s' := (exec halfStep (s,false) hs).1
    s'.sends.length + s'.calling.toList.length = s'.expirations ∧
      s'.total + s'.fds efd + s'.calling.toList.length = s'.expirations := by
  intro s'
  obtain ⟨ls,hls⟩ : ∃ ls, exec halfStep (s,false) hs = (exec step s ls,false) ∨
      exec halfStep (s,false) hs = (expire (exec step s ls),true) :=
    SplitStep.exec_halves step .expiration (fun _ => .read) (fun _ => rfl) (fun _ _ => rfl)
      (fun s _ => read_expire s) s hs
  have hcounted := counted_run hn h ls
  rcases hls with hls | hls
  · have hs' : s' = exec step s ls := congrArg Prod.fst hls
    rw [hs',hcounted.calling]
    exact ⟨by simp [hcounted.sends],hcounted.conserved⟩
  · have hs' : s' = expire (exec step s ls) := congrArg Prod.fst hls
    rw [hs']
    exact hcounted.expire (by omega)

end EventCounting
end Translib
