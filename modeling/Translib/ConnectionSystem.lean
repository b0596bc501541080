import Translib.TcpServer
import Translib.TransitionMachine

/-! A server in any interleaving of accepts, passes of frames and disconnects, and what
each of these steps changes for one session id. -/

namespace Translib
namespace AcceptedConnections

open TransitionMachine

inductive Entry
  | attached | attachFailed | removal
  deriving DecidableEq, Repr

/-- The server, the sockets accepted with their ids, and what the passes did. -/
structure System where
  server : TcpServer
  accepted : List (SessionId × SocketFd)
  log : List (SessionId × Entry)

/-- A pass is one round of the loop of `onFrame`, at the dispatcher `r`. -/
inductive Step
  | accept (sock : SocketFd)
  | pass (r : DispatcherRef) (o : AttachOutcome)
  | disconnect (r : DispatcherRef) (id : SessionId)
  deriving DecidableEq, Repr

def entryOf (r : DispatcherRef) (o : AttachOutcome) (action : SessionAction) : Entry :=
  if action.sock ≠ socketFdInvalid then
    if (TcpSession.create.attach o r action.id action.sock).1 then .attached else .attachFailed
  else .removal

theorem entryOf_add (r : DispatcherRef) (o : AttachOutcome) (id : SessionId) {sock : SocketFd}
    (h : sock ≠ socketFdInvalid) :
    entryOf r o ⟨id,sock⟩ =
      if (TcpSession.create.attach o r id sock).1 then .attached else .attachFailed := if_pos h

theorem entryOf_removal (r : DispatcherRef) (o : AttachOutcome) (id : SessionId) :
    entryOf r o ⟨id,socketFdInvalid⟩ = .removal := if_neg (not_not.mpr rfl)

def step (s : System) : Step → System
  | .accept sock =>
    { s with
      server := s.server.listenEventCallback sock
      accepted := s.accepted ++ [(s.server.nextId,sock)] }
  | .pass r o =>
    match (s.server.dispatchers r).actions with
    | [] => s
    | action::_ =>
      { s with
        server := s.server.atDispatcher r (.frontAction r o action)
        log := s.log ++ [(action.id,entryOf r o action)] }
  | .disconnect r id => { s with server := s.server.handleEvent r id }

/-- Accepted sockets are valid, the generator does not wrap (it counts the accepts of the
process), and `onNewSession` leaves no action. -/
def Admissible (s : System) : Step → Prop
  | .accept sock => sock ≠ socketFdInvalid ∧ s.server.sessionIdGenerator+1 < 2^64
  | .pass _ o => o.onNewSession = []
  | .disconnect _ _ => True

theorem onFrame_passes {r : DispatcherRef} {outcomes : ℕ → AttachOutcome} {s : System}
    {d' : TcpServerDispatcher}
    (h : TcpServerDispatcher.OnFrame r outcomes (s.server.dispatchers r) d') :
    ∃ run : List Step, (∀ l ∈ run, ∃ k, l = .pass r (outcomes k)) ∧
      (exec step s run).server = s.server.atDispatcher r fun _ => d' := by
  have hall {start : TcpServerDispatcher × ℕ}
      (hret : LoopMachine.Returns (TcpServerDispatcher.onFrameBody r outcomes) start d') :
      ∀ s : System, s.server.dispatchers r = start.1 →
        ∃ run : List Step, (∀ l ∈ run, ∃ k, l = .pass r (outcomes k)) ∧
          (exec step s run).server = s.server.atDispatcher r fun _ => d' := by
    induction hret using LoopMachine.Returns.induct with
    | stop start hb =>
      intro s hs
      obtain ⟨d,k⟩ := start
      change s.server.dispatchers r = d at hs
      cases hd : d.actions with
      | cons action rest => simp [TcpServerDispatcher.onFrameBody,hd] at hb
      | nil =>
        simp only [TcpServerDispatcher.onFrameBody,hd,Sum.inr.injEq] at hb
        refine ⟨[],by simp,?_⟩
        have hsame : Function.update s.server.dispatchers r d' = s.server.dispatchers := by
          rw [← hb,← hs,Function.update_eq_self]
        rw [TcpServer.atDispatcher,hsame]
        rfl
    | next start start' hb _ ih =>
      intro s hs
      obtain ⟨d,k⟩ := start
      change s.server.dispatchers r = d at hs
      cases hd : d.actions with
      | nil => simp [TcpServerDispatcher.onFrameBody,hd] at hb
      | cons action rest =>
        simp only [TcpServerDispatcher.onFrameBody,hd,Sum.inl.injEq] at hb
        subst hb
        have hserver : (step s (.pass r (outcomes k))).server =
            s.server.atDispatcher r (.frontAction r (outcomes k) action) := by
          simp [step,hs,hd]
        obtain ⟨run,hrun,hend⟩ := ih (step s (.pass r (outcomes k))) (by
          rw [hserver]
          simp [TcpServer.atDispatcher,hs])
        refine ⟨.pass r (outcomes k)::run,?_,?_⟩
        · intro l hl
          rcases List.mem_cons.mp hl with rfl | hl
          · exact ⟨k,rfl⟩
          · exact hrun l hl
        · rw [exec,hend,hserver]
          simp [TcpServer.atDispatcher]
  exact hall h s rfl

def actionsOf (s : System) (id : SessionId) (r : DispatcherRef) : List SessionAction :=
  (s.server.dispatchers r).actions.filter fun a => a.id = id

def sessionOf (s : System) (id : SessionId) (r : DispatcherRef) : Option TcpSession :=
  (s.server.dispatchers r).sessions id

def entriesOf (id : SessionId) (log : List (SessionId × Entry)) : List Entry :=
  log.filterMap fun e => if e.1 = id then some e.2 else none

def logOf (s : System) (id : SessionId) : List Entry := entriesOf id s.log

structure View where
  actions : DispatcherRef → List SessionAction
  session : DispatcherRef → Option TcpSession
  log : List Entry

def view (s : System) (id : SessionId) : View := ⟨actionsOf s id,sessionOf s id,logOf s id⟩

def onlyAt (home : DispatcherRef) (actions : List SessionAction) :
    DispatcherRef → List SessionAction :=
  Function.update (fun _ => []) home actions

def mappedAt (home : DispatcherRef) (session : TcpSession) : DispatcherRef → Option TcpSession :=
  Function.update (fun _ => none) home (some session)

namespace View

def push (r : DispatcherRef) (action : SessionAction) (v : View) : View :=
  { v with actions := Function.update v.actions r (v.actions r ++ [action]) }

def pop (r : DispatcherRef) (v : View) : View :=
  { v with actions := Function.update v.actions r (v.actions r).tail }

def map (r : DispatcherRef) (session : Option TcpSession) (v : View) : View :=
  { v with session := Function.update v.session r session }

def enter (e : Entry) (v : View) : View := { v with log := v.log ++ [e] }

end View

theorem filterMap_snoc {α : Type*} (xs : List (SessionId × α)) (id : SessionId) (x : α)
    (i : SessionId) :
    (xs ++ [(id,x)]).filterMap (fun e => if e.1 = i then some e.2 else none) =
      if id = i then xs.filterMap (fun e => if e.1 = i then some e.2 else none) ++ [x]
      else xs.filterMap fun e => if e.1 = i then some e.2 else none := by
  by_cases hi : id = i <;> simp [hi]

theorem logOf_append (s : System) (server : TcpServer) (id i : SessionId) (e : Entry) :
    logOf ⟨server,s.accepted,s.log ++ [(id,e)]⟩ i =
      if id = i then logOf s i ++ [e] else logOf s i :=
  filterMap_snoc s.log id e i

theorem view_atDispatcher (s : System) (r : DispatcherRef)
    (f : TcpServerDispatcher → TcpServerDispatcher) (i : SessionId) :
    view { s with server := s.server.atDispatcher r f } i =
      ⟨Function.update (actionsOf s i) r
          ((f (s.server.dispatchers r)).actions.filter fun a => a.id = i),
        Function.update (sessionOf s i) r ((f (s.server.dispatchers r)).sessions i),logOf s i⟩ := by
  simp only [view,View.mk.injEq]
  refine ⟨funext fun r' => ?_,funext fun r' => ?_,rfl⟩
  · by_cases hr : r' = r
    · subst hr
      simp [actionsOf,TcpServer.atDispatcher]
    · simp [actionsOf,TcpServer.atDispatcher,hr]
  · by_cases hr : r' = r
    · subst hr
      simp [sessionOf,TcpServer.atDispatcher]
    · simp [sessionOf,TcpServer.atDispatcher,hr]

theorem view_map (s : System) (r : DispatcherRef) (id : SessionId) (session : Option TcpSession)
    (i : SessionId) :
    view { s with server := s.server.atDispatcher r fun d =>
        { d with sessions := Function.update d.sessions id session } } i =
      if id = i then (view s i).map r session else view s i := by
  have hactions : Function.update (actionsOf s i) r
      ((s.server.dispatchers r).actions.filter fun a => a.id = i) = actionsOf s i :=
    Function.update_eq_self r _
  rw [view_atDispatcher]
  simp only [hactions]
  split_ifs with hi
  · subst hi
    rw [Function.update_self]
    rfl
  · have hsession : Function.update (sessionOf s i) r ((s.server.dispatchers r).sessions i) =
        sessionOf s i := Function.update_eq_self r _
    rw [Function.update_of_ne (Ne.symm hi),hsession]
    rfl

theorem view_push (s : System) (r : DispatcherRef) (action : SessionAction) (i : SessionId) :
    view { s with server := s.server.atDispatcher r fun d =>
        { d with actions := d.actions ++ [action] } } i =
      if action.id = i then (view s i).push r action else view s i := by
  have hsession : Function.update (sessionOf s i) r ((s.server.dispatchers r).sessions i) =
      sessionOf s i := Function.update_eq_self r _
  rw [view_atDispatcher]
  simp only [hsession,List.filter_append,List.filter_singleton]
  split_ifs with hi
  · simp [view,View.push,actionsOf,hi]
  · have hactions : Function.update (actionsOf s i) r
        ((s.server.dispatchers r).actions.filter fun a => a.id = i) = actionsOf s i :=
      Function.update_eq_self r _
    simp [view,hi,hactions]

def mapped (r : DispatcherRef) (o : AttachOutcome) (action : SessionAction)
    (old : Option TcpSession) : Option TcpSession :=
  match entryOf r o action with
  | .attached => some (TcpSession.create.attach o r action.id action.sock).2
  | .attachFailed => old
  | .removal => none

theorem frontAction_sessions (r : DispatcherRef) (o : AttachOutcome) (action : SessionAction)
    (d : TcpServerDispatcher) :
    (d.frontAction r o action).sessions =
      Function.update d.sessions action.id (mapped r o action (d.sessions action.id)) := by
  have hid := (TcpSession.attach_id o r action.id action.sock .create).1
  unfold TcpServerDispatcher.frontAction mapped entryOf
  simp only
  split_ifs with hsock hok
  · simp [hid]
  · simp
  · rfl

theorem step_pass {s : System} {r : DispatcherRef} {action : SessionAction}
    {rest : List SessionAction} (hfront : (s.server.dispatchers r).actions = action::rest)
    (o : AttachOutcome) :
    step s (.pass r o) = ⟨s.server.atDispatcher r (.frontAction r o action),s.accepted,
      s.log ++ [(action.id,entryOf r o action)]⟩ := by
  simp [step,hfront]

theorem view_pass {s : System} {r : DispatcherRef} {o : AttachOutcome} (ho : o.onNewSession = [])
    {action : SessionAction} {rest : List SessionAction}
    (hfront : (s.server.dispatchers r).actions = action::rest) (i : SessionId) :
    view (step s (.pass r o)) i =
      if action.id = i then
        (((view s i).pop r).map r (mapped r o action (sessionOf s i r))).enter (entryOf r o action)
      else view s i := by
  have hview := view_atDispatcher s r (.frontAction r o action) i
  simp only [view,View.mk.injEq,TcpServerDispatcher.frontAction_actions ho,frontAction_sessions,
    hfront,List.tail_cons] at hview
  obtain ⟨hactions,hsession,_⟩ := hview
  rw [step_pass hfront]
  simp only [view,logOf_append]
  have hqueue : actionsOf s i r =
      if action.id = i then action :: rest.filter (fun a => a.id = i)
        else rest.filter (fun a => a.id = i) := by
    simp only [actionsOf,hfront,List.filter_cons,decide_eq_true_eq]
  split_ifs with hi
  · rw [if_pos hi] at hqueue
    subst hi
    simp only [View.pop,View.map,View.enter,View.mk.injEq,hqueue,List.tail_cons]
    rw [Function.update_self] at hsession
    exact ⟨hactions,hsession,trivial⟩
  · rw [if_neg hi] at hqueue
    rw [← hqueue,Function.update_eq_self] at hactions
    rw [Function.update_of_ne (Ne.symm hi)] at hsession
    have hsame : sessionOf s i r = (s.server.dispatchers r).sessions i := rfl
    rw [← hsame,Function.update_eq_self] at hsession
    rw [View.mk.injEq]
    exact ⟨hactions,hsession,rfl⟩

theorem view_disconnect {s : System} {r home : DispatcherRef} {id : SessionId}
    {session : TcpSession} (hlive : sessionOf s id r = some session) (hid : session.id = id)
    (hhome : session.dispatcher = some home) (i : SessionId) :
    view (step s (.disconnect r id)) i =
      if id = i then ((view s i).map r (some session.handleEvent)).push home ⟨id,socketFdInvalid⟩
        else view s i := by
  let s' : System := { s with server := s.server.atDispatcher r fun d =>
    { d with sessions := Function.update d.sessions id (some session.handleEvent) } }
  have hstep : step s (.disconnect r id) =
      { s' with server := s'.server.atDispatcher home fun d =>
        { d with actions := d.actions ++ [⟨id,socketFdInvalid⟩] } } := by
    have hget : (s.server.dispatchers r).getSession id = some session := hlive
    simp only [step,TcpServer.handleEvent,hget,hhome,hid]
    rfl
  have hmap : view s' i = _ := view_map s r id (some session.handleEvent) i
  rw [hstep,view_push s' home ⟨id,socketFdInvalid⟩ i,hmap]
  split_ifs <;> rfl

theorem view_accept (s : System) (sock : SocketFd) (i : SessionId) :
    view (step s (.accept sock)) i =
      if s.server.nextId = i then
        (view s i).push (s.server.getSessionDispatcher i) ⟨i,sock⟩
      else view s i := by
  let s' : System := ⟨{ s.server with sessionIdGenerator := s.server.nextId },
    s.accepted ++ [(s.server.nextId,sock)],s.log⟩
  have hview : view s' i = view s i := rfl
  have hpush := view_push s' (s.server.getSessionDispatcher s.server.nextId)
    ⟨s.server.nextId,sock⟩ i
  rw [hview] at hpush
  refine Eq.trans hpush ?_
  by_cases hi : s.server.nextId = i
  · subst hi
    rfl
  · rw [if_neg hi,if_neg hi]

theorem step_home (s : System) (l : Step) (id : SessionId) :
    (step s l).server.getSessionDispatcher id = s.server.getSessionDispatcher id := by
  cases l with
  | accept sock => rfl
  | pass r o =>
    simp only [step]
    split <;> rfl
  | disconnect r i =>
    simp only [step,TcpServer.handleEvent]
    cases (s.server.dispatchers r).getSession i with
    | none => rfl
    | some session =>
      simp only
      cases session.dispatcher <;> rfl

end AcceptedConnections
end Translib
