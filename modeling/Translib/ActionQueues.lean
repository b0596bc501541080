import Translib.AcceptedConnections
import Translib.FifoQueue

/-! The queue of a dispatcher as what it is for: connections are served in the order they were
accepted in, and none waits for more passes than there were actions before it. -/

namespace Translib
namespace AcceptedConnections

open TransitionMachine FifoQueue

def queue (r : DispatcherRef) (s : System) : List SessionAction := (s.server.dispatchers r).actions

def added (r : DispatcherRef) (s : System) : Step → List SessionAction
  | .accept sock =>
    if s.server.getSessionDispatcher s.server.nextId = r then [⟨s.server.nextId,sock⟩] else []
  | .pass _ _ => []
  | .disconnect r' id =>
    match (s.server.dispatchers r').getSession id with
    | none => []
    | some session => if session.dispatcher = some r then [⟨session.id,socketFdInvalid⟩] else []

def processed (r : DispatcherRef) (s : System) : Step → List SessionAction
  | .pass r' _ => if r' = r then (queue r s).head?.toList else []
  | _ => []

def isPass (r : DispatcherRef) : Step → Bool
  | .pass r' _ => decide (r' = r)
  | _ => false

def connection (action : SessionAction) : Option (SessionId × SocketFd) :=
  if action.sock = socketFdInvalid then none else some (action.id,action.sock)

def served (r : DispatcherRef) (s : System) (l : Step) : List (SessionId × SocketFd) :=
  (processed r s l).filterMap connection

def acceptedFor (r : DispatcherRef) (s : System) : List (SessionId × SocketFd) :=
  s.accepted.filter fun c => s.server.getSessionDispatcher c.1 = r

theorem queue_atDispatcher (s : System) (r r' : DispatcherRef)
    (f : TcpServerDispatcher → TcpServerDispatcher) :
    ((s.server.atDispatcher r' f).dispatchers r).actions =
      if r' = r then (f (s.server.dispatchers r)).actions else queue r s := by
  by_cases hr : r' = r
  · subst hr
    simp [TcpServer.atDispatcher]
  · rw [if_neg hr]
    simp [TcpServer.atDispatcher,queue,Ne.symm hr]

theorem step_moves {r : DispatcherRef} {s : System} {l : Step} (hl : Admissible s l) :
    Moves (queue r s) (added r s l) (processed r s l) (queue r (step s l)) := by
  cases l with
  | accept sock =>
    have hqueue : queue r (step s (.accept sock)) = _ := queue_atDispatcher
      { s with server := { s.server with sessionIdGenerator := s.server.nextId } } r
      (s.server.getSessionDispatcher s.server.nextId) (.addSession s.server.nextId sock)
    rw [hqueue]
    simp only [added,processed]
    split_ifs
    · exact moves_put _ _
    · exact moves_refl _
  | pass r' o =>
    cases hfront : (s.server.dispatchers r').actions with
    | nil =>
      have hstep : step s (.pass r' o) = s := by simp [step,hfront]
      rw [hstep]
      by_cases hr : r' = r
      · subst hr
        simp [processed,added,queue,hfront,Moves]
      · simp [processed,added,hr,Moves]
    | cons action rest =>
      have hqueue : queue r (step s (.pass r' o)) =
          ((s.server.atDispatcher r' (.frontAction r' o action)).dispatchers r).actions := by
        rw [step_pass hfront]
        rfl
      rw [hqueue,queue_atDispatcher]
      by_cases hr : r' = r
      · subst hr
        rw [if_pos rfl,TcpServerDispatcher.frontAction_actions hl,hfront]
        simp [processed,added,queue,hfront,Moves]
      · simp [processed,added,hr,Moves]
  | disconnect r' id =>
    cases hsession : (s.server.dispatchers r').getSession id with
    | none =>
      have hstep : step s (.disconnect r' id) = s := by simp [step,TcpServer.handleEvent,hsession]
      rw [hstep]
      simp [processed,added,hsession,Moves]
    | some session =>
      let s' : System := { s with server := s.server.atDispatcher r' fun d =>
        { d with sessions := Function.update d.sessions id (some session.handleEvent) } }
      have hsame : queue r s' = queue r s := by
        rw [queue,queue_atDispatcher]
        split_ifs <;> rfl
      cases hdispatcher : session.dispatcher with
      | none =>
        have hstep : step s (.disconnect r' id) = s' := by
          simp only [step,TcpServer.handleEvent,hsession,hdispatcher]
          rfl
        rw [hstep,hsame]
        simp [processed,added,hsession,hdispatcher,Moves]
      | some home =>
        have hstep : step s (.disconnect r' id) =
            { s' with server := s'.server.atDispatcher home (.removeSession session.id) } := by
          simp only [step,TcpServer.handleEvent,hsession,hdispatcher]
          rfl
        have hqueue : queue r (step s (.disconnect r' id)) =
            ((s'.server.atDispatcher home (.removeSession session.id)).dispatchers r).actions := by
          rw [hstep]
          rfl
        rw [hqueue,queue_atDispatcher,hsame]
        simp only [added,processed,hsession,hdispatcher,Option.some.injEq]
        split_ifs with hhome
        · have hactions : (TcpServerDispatcher.removeSession session.id (s'.server.dispatchers r)).actions =
              queue r s ++ [⟨session.id,socketFdInvalid⟩] := by
            rw [← hsame]
            rfl
          rw [hactions]
          exact moves_put _ _
        · exact moves_refl _

theorem added_accepted {r : DispatcherRef} {s : System} {l : Step} (hl : Admissible s l) :
    acceptedFor r (step s l) = acceptedFor r s ++ (added r s l).filterMap connection := by
  have hhome := step_home s l
  unfold acceptedFor
  simp only [hhome]
  cases l with
  | accept sock =>
    have haccepted : (step s (.accept sock)).accepted = s.accepted ++ [(s.server.nextId,sock)] := rfl
    rw [haccepted,List.filter_append]
    by_cases hr : s.server.getSessionDispatcher s.server.nextId = r
    · simp [added,connection,hr,hl.1]
    · simp [added,hr]
  | pass r' o =>
    have haccepted : (step s (.pass r' o)).accepted = s.accepted := by
      simp only [step]
      cases (s.server.dispatchers r').actions <;> rfl
    rw [haccepted]
    simp [added]
  | disconnect r' id =>
    have haccepted : (step s (.disconnect r' id)).accepted = s.accepted := rfl
    rw [haccepted]
    cases hsession : (s.server.dispatchers r').getSession id with
    | none => simp [added,hsession]
    | some session =>
      by_cases hr : session.dispatcher = some r <;> simp [added,hsession,hr,connection]

theorem served_logged (r : DispatcherRef) (s : System) (l : Step) :
    s.log <+: (step s l).log ∧ ∀ c ∈ served r s l,
      (c.1,.attached) ∈ (step s l).log ∨ (c.1,.attachFailed) ∈ (step s l).log := by
  cases l with
  | accept sock => exact ⟨List.prefix_rfl,by simp [served,processed]⟩
  | disconnect r' id => exact ⟨List.prefix_rfl,by simp [served,processed]⟩
  | pass r' o =>
    cases hfront : (s.server.dispatchers r').actions with
    | nil =>
      have hstep : step s (.pass r' o) = s := by simp [step,hfront]
      rw [hstep]
      refine ⟨List.prefix_rfl,fun c hc => ?_⟩
      by_cases hr : r' = r
      · subst hr
        simp [served,processed,queue,hfront] at hc
      · simp [served,processed,hr] at hc
    | cons action rest =>
      rw [step_pass hfront]
      refine ⟨List.prefix_append _ _,fun c hc => ?_⟩
      by_cases hr : r' = r
      · subst hr
        by_cases hsock : action.sock = socketFdInvalid
        · simp [served,processed,queue,hfront,connection,hsock] at hc
        · have hc : c = (action.id,action.sock) := by
            simpa [served,processed,queue,hfront,connection,hsock] using hc
          subst hc
          simp only [List.mem_append,List.mem_singleton,Prod.mk.injEq,true_and]
          rw [show action = ⟨action.id,action.sock⟩ from rfl,entryOf_add r' o action.id hsock]
          split_ifs
          · exact .inl (.inr rfl)
          · exact .inr (.inr rfl)
      · simp [served,processed,hr] at hc

/-- The dispatchers are a queue each: in every run, the connections a dispatcher has served are
the ones accepted for it, in the order they were accepted in, up to one of them; each of them
was attached, or could not be. Those accepted before some moment are all served after as many
passes at their dispatcher as there were actions in its queue, whatever else happens. -/
theorem served_in_order (server : TcpServer) (hserver : ∀ r, server.dispatchers r = .create)
    (earlier later : List Step)
    (hrun : Along step Admissible (start server) (earlier ++ later)) (r : DispatcherRef) :
    let s₀ := exec step (start server) earlier
    let s := exec step s₀ later
    let done := shown step (served r) (start server) (earlier ++ later)
    done <+: acceptedFor r s ∧
    (∀ c ∈ done, (c.1,.attached) ∈ s.log ∨ (c.1,.attachFailed) ∈ s.log) ∧
    ((queue r s₀).length ≤ later.countP (isPass r) → acceptedFor r s₀ <+: done) := by
  intro s₀ s done
  obtain ⟨hearlier,hlater⟩ := (along_append step Admissible _ earlier later).mp hrun
  have hexec : s = exec step (start server) (earlier ++ later) := (exec_append step _ _ _).symm
  have hmove : ∀ s l q, queue r s = q → Admissible s l →
      ∃ q', queue r (step s l) = q' ∧ Moves q (added r s l) (processed r s l) q' :=
    fun s l q hq hl => ⟨_,rfl,hq ▸ step_moves hl⟩
  have hempty : queue r (start server) = [] := by
    rw [queue,start,hserver]
    rfl
  have haccepted {run : List Step} (h : Along step Admissible (start server) run) :
      acceptedFor r (exec step (start server) run) =
        (shown step (added r) (start server) run).filterMap connection := by
    have hhistory := @exec_shown _ _ _ _ _ (added r)
      (fun s h => acceptedFor r s = h.filterMap connection)
      (fun s l h hs hl => by rw [added_accepted hl,hs,List.filterMap_append]) _ [] _ rfl h
    exact hhistory
  have hdone : done =
      (shown step (processed r) (start server) (earlier ++ later)).filterMap connection :=
    shown_filterMap connection step (processed r) (start server) (earlier ++ later)
  refine ⟨?_,?_,fun hpasses => ?_⟩
  · obtain ⟨q,_,hmoves⟩ := exec_moves hmove hempty hrun
    rw [hexec,haccepted hrun,hdone]
    exact (Moves.takes_prefix hmoves).filterMap connection
  · have hlogged := @exec_shown _ _ _ _ _ (served r)
      (fun s cs => ∀ c ∈ cs, (c.1,Entry.attached) ∈ s.log ∨ (c.1,Entry.attachFailed) ∈ s.log)
      (fun s l cs hs _ => ?_) _ [] _ (fun _ hc => absurd hc List.not_mem_nil) hrun
    · rw [hexec]
      exact hlogged
    · intro c hc
      obtain ⟨hlog,hnew⟩ := served_logged r s l
      rcases List.mem_append.mp hc with hc | hc
      · exact (hs c hc).imp (fun hmem => hlog.subset hmem) (fun hmem => hlog.subset hmem)
      · exact hnew c hc
  · obtain ⟨q,hq,hmoves⟩ := exec_moves hmove hempty hearlier
    have hfront : ∀ s l q, queue r s = q → isPass r l = true → q ≠ [] → processed r s l ≠ [] := by
      rintro s l q rfl hl hne
      cases l with
      | pass r' o =>
        obtain rfl : r' = r := of_decide_eq_true hl
        cases hqueue : queue r' s with
        | nil => exact absurd hqueue hne
        | cons action rest => simp [processed,hqueue]
      | _ => cases hl
    have htaken := exec_takes hmove hfront hq hlater
    have hlength : q.length ≤ later.countP (isPass r) := hq ▸ hpasses
    rw [List.take_of_length_le hlength] at htaken
    have hbefore : shown step (added r) (start server) earlier =
        shown step (processed r) (start server) earlier ++ q := hmoves
    rw [haccepted hearlier,hbefore,hdone,shown_append,List.filterMap_append,List.filterMap_append]
    exact (List.prefix_append_right_inj _).mpr (htaken.filterMap connection)

theorem served_in_order_two :
    let server : TcpServer := ⟨0,[],fun _ => .create,0⟩
    let s₀ := exec step (start server) [.accept 5,.accept 6]
    acceptedFor 0 s₀ <+: shown step (served 0) (start server)
      ([.accept 5,.accept 6] ++ [.pass 0 ⟨true,true,[]⟩,.accept 7,.pass 0 ⟨true,false,[]⟩]) := by
  intro server s₀
  have hrun : Along step Admissible (start server)
      ([.accept 5,.accept 6] ++ [.pass 0 ⟨true,true,[]⟩,.accept 7,.pass 0 ⟨true,false,[]⟩]) :=
    ⟨⟨by decide,by decide⟩,⟨by decide,by decide⟩,rfl,⟨by decide,by decide⟩,rfl,trivial⟩
  exact (served_in_order server (fun _ => rfl) [.accept 5,.accept 6]
    [.pass 0 ⟨true,true,[]⟩,.accept 7,.pass 0 ⟨true,false,[]⟩] hrun 0).2.2 (by decide)

end AcceptedConnections
end Translib
