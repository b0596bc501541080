import Translib.DispatcherTeardown
import Translib.Precedence
import Translib.ServerRuns

/-! The destruction of a server, statement by statement, after any run of its loops, sessions
and listens. -/

namespace Translib
namespace ServerTeardown

open TransitionMachine Precedence

/-- `listeners` are the ones that are open, `created` the next one `evconnlistener_new_bind`
returns, `freed` the dispatchers whose base is freed. -/
structure System where
  sessions : ServerRuns.System
  loops : DispatcherRef → Loop
  frameLoops : DispatcherRef → FrameLoop Unit
  eventListener : Option ℕ
  listeners : List ℕ
  created : ℕ
  freed : List DispatcherRef
  deleted : List DispatcherRef

inductive Step
  | listen (bound : Bool)
  | setThreads (threads : ℕ)
  | start (r : DispatcherRef) | stop (r : DispatcherRef) (waiting : Bool) | wait (r : DispatcherRef)
  | owner (r : DispatcherRef)
  | run (r : DispatcherRef) (t : ThreadRef) (lib : Libevent) (haveEvents : Bool)
  | tick (r : DispatcherRef) (t : ThreadRef)
  | session (l : ServerRuns.Step)
  deriving DecidableEq, Repr

def server (s : System) : TcpServer := s.sessions.base.server

def dispatchers (s : System) : List DispatcherRef := (server s).master :: (server s).slavers

def create (threads sessionIdGenerator : ℕ) : System where
  sessions := ServerRuns.start (.create threads sessionIdGenerator)
  loops := fun _ => .create
  frameLoops := fun _ => .create
  eventListener := none
  listeners := []
  created := 0
  freed := []
  deleted := []

def atLoop (r : DispatcherRef) (x : ThreadJoins.Step) (s : System) : System :=
  { s with loops := Function.update s.loops r (ThreadJoins.step (s.loops r) x) }

def atFrameTimer (r : DispatcherRef) (f : Timer Unit → Timer Unit) (s : System) : System :=
  let frameLoop := s.frameLoops r
  { s with
    frameLoops := Function.update s.frameLoops r
      { frameLoop with frameTimer := f frameLoop.frameTimer } }

/-- The listener is made anew by every call. It is freed when the loop of the master is not
started by this one. -/
def listen (bound : Bool) (s : System) : Bool × System :=
  if !bound then (false,{ s with eventListener := none })
  else
    let master := (server s).master
    let listening := { s with
      eventListener := some s.created
      listeners := s.created :: s.listeners
      created := s.created+1 }
    if !(s.loops master).start.1 then
      (false,{ listening with
        eventListener := none
        listeners := listening.listeners.erase s.created })
    else
      (true,(dispatchers s).foldl (fun s r => atLoop r .start s) listening)

/-- `_run`, with the frame timer started before the loop. -/
def run (r : DispatcherRef) (t : ThreadRef) (lib : Libevent) (haveEvents : Bool) (s : System) :
    System :=
  let started := atLoop r (.run t haveEvents) s
  if ((s.loops r).threads t).point = .ready then
    { started with
      frameLoops := Function.update s.frameLoops r (.onBeforeLoop lib () (s.frameLoops r)) }
  else started

/-- The owner of the server calls a loop of it when it is in no other call. -/
def step (s : System) : Step → System
  | .listen bound => if ∀ r ∈ dispatchers s, (s.loops r).Idle then (listen bound s).2 else s
  | .setThreads threads => { s with sessions.base.server := (server s).setThreads threads }
  | .start r => atLoop r .start s
  | .stop r waiting => atLoop r (.stop waiting) s
  | .wait r => atLoop r .wait s
  | .owner r => atLoop r .owner s
  | .run r t lib haveEvents => run r t lib haveEvents s
  | .tick r t =>
    if ((s.loops r).threads t).point = .looping then
      match (s.frameLoops r).frameTimer.expire with
      | none => s
      | some (_,timer) => atFrameTimer r (fun _ => timer) s
    else s
  | .session l => if l = .destroy then s else { s with sessions := ServerRuns.step s.sessions l }

/-- What is destroyed of a dispatcher: `_sessions` and `_actions`, `_frameTimer`, the thread,
the base, the object. -/
inductive TeardownStmt
  | sessions (r : DispatcherRef)
  | frameTimer (r : DispatcherRef)
  | loop (r : DispatcherRef)
  | base (r : DispatcherRef)
  | delete (r : DispatcherRef)
  | listener
  | sessionFactory
  deriving DecidableEq, Repr

/-- `delete dispatcher`. -/
def deleteDispatcher (r : DispatcherRef) : List TeardownStmt :=
  [.sessions r,.frameTimer r,.loop r,.base r,.delete r]

/-- `~TcpServer`. -/
def destructor (s : System) : List TeardownStmt :=
  (dispatchers s).flatMap deleteDispatcher ++
    ((if s.eventListener.isSome then [.listener] else []) ++ [.sessionFactory])

/-- Sessions user code holds outlive the map. `~Loop` comes to the base when its calls on the
thread are through. -/
def teardown (s : System) : TeardownStmt → System
  | .sessions r =>
    let left (d : TcpServerDispatcher) : TcpServerDispatcher :=
      ⟨fun id => if id ∈ s.sessions.held then d.sessions id else none,[]⟩
    { s with sessions.base.server := (server s).atDispatcher r left }
  | .frameTimer r => atFrameTimer r Timer.reset s
  | .loop r =>
    { s with loops := Function.update s.loops r (s.loops r).destroy.owner.owner.owner }
  | .base r =>
    if (s.loops r).todo = [] ∧ (s.loops r).terminated = false then { s with freed := r :: s.freed }
    else s
  | .delete r => { s with deleted := r :: s.deleted }
  | .listener =>
    let listeners := match s.eventListener with
      | none => s.listeners
      | some n => s.listeners.erase n
    { s with listeners := listeners }
  | .sessionFactory => s

def dispatcherOf : TeardownStmt → Option DispatcherRef
  | .sessions r => some r
  | .frameTimer r => some r
  | .loop r => some r
  | .base r => some r
  | .delete r => some r
  | .listener => none
  | .sessionFactory => none

inductive Object
  | listener (n : ℕ)
  | mapped (r : DispatcherRef) (id : SessionId)
  | detached (id : SessionId)
  | frameTimer
  deriving DecidableEq, Repr

def Attached (r : DispatcherRef) (session : TcpSession) : Prop :=
  session.dispatcher = some r ∧ session.socket.bev.isSome

def LivesOn (s : System) (r : DispatcherRef) : Object → Prop
  | .listener n => r = (server s).master ∧ n ∈ s.listeners
  | .mapped r' id => ∃ session, ServerRuns.mapped r' id s.sessions = some session ∧ Attached r session
  | .detached id => ∃ session, s.sessions.detached id = some session ∧ Attached r session
  | .frameTimer => (s.frameLoops r).frameTimer.event.isSome

/-- Nothing lives on a base that is freed. -/
def Released (s : System) : Prop := ∀ r ∈ s.freed, ∀ o, ¬ LivesOn s r o

def Untouched (s : System) (stmt : TeardownStmt) : Prop :=
  ∀ r ∈ s.freed, ∀ o, LivesOn (teardown s stmt) r o ↔ LivesOn s r o

def Undeleted (s : System) (stmt : TeardownStmt) : Prop :=
  ∀ r, dispatcherOf stmt = some r → r ∉ s.deleted

/-- A loop that was never started, or was stopped and waited for. -/
def Waited (l : Loop) : Prop :=
  l.Idle ∧ ∀ t, l.thread = some t → l.status = .finished ∧ (l.threads t).joinable = false

/-- The call of `listen` returns true. -/
def Listened (s : System) (l : Step) : Prop :=
  ∃ bound, l = .listen bound ∧ (∀ r ∈ dispatchers s, (s.loops r).Idle) ∧ (listen bound s).1 = true

def Unheld (s : System) : Prop :=
  ∀ r ∈ dispatchers s, ∀ id,
    (id ∈ s.sessions.held → ¬ LivesOn s r (.mapped r id)) ∧ ¬ LivesOn s r (.detached id)

def Homed (server : TcpServer) : Prop :=
  ∀ r id session, (server.dispatchers r).getSession id = some session → session.dispatcher = some r

/-- The dispatchers are the same, and the sessions are where they are attached. -/
structure Kept (server server' : TcpServer) : Prop where
  master : server'.master = server.master
  slavers : server'.slavers = server.slavers
  homed : Homed server'

theorem kept_atDispatcher {server : TcpServer} (h : Homed server) {r : DispatcherRef}
    {f : TcpServerDispatcher → TcpServerDispatcher}
    (hf : ∀ id session, (f (server.dispatchers r)).sessions id = some session →
      session.dispatcher = some r) : Kept server (server.atDispatcher r f) := by
  refine ⟨rfl,rfl,fun r' id session hsession => ?_⟩
  by_cases hr : r' = r
  · subst hr
    exact hf id session (by simpa [TcpServer.atDispatcher,TcpServerDispatcher.getSession] using hsession)
  · exact h r' id session (by simpa [TcpServer.atDispatcher,hr] using hsession)

theorem kept_frontAction {server : TcpServer} (h : Homed server) (r : DispatcherRef)
    (o : AttachOutcome) (action : SessionAction) :
    Kept server (server.atDispatcher r (.frontAction r o action)) := by
  refine kept_atDispatcher h fun id session hsession => ?_
  have hold {id : SessionId} {session : TcpSession}
      (hs : (server.dispatchers r).sessions id = some session) : session.dispatcher = some r :=
    h r id session hs
  unfold TcpServerDispatcher.frontAction at hsession
  simp only at hsession
  split_ifs at hsession with hsock hattach
  · by_cases hid : id = (TcpSession.create.attach o r action.id action.sock).2.id
    · subst hid
      simp only [Function.update_self,Option.some.injEq] at hsession
      exact hsession ▸ (TcpSession.attach_id o r action.id action.sock .create).2
    · exact hold (by simpa [hid] using hsession)
  · exact hold hsession
  · by_cases hid : id = action.id
    · subst hid
      simp at hsession
    · exact hold (by simpa [hid] using hsession)

theorem kept_update {server : TcpServer} (h : Homed server) {r : DispatcherRef} (id : SessionId)
    {session : TcpSession} (hsession : session.dispatcher = some r) :
    Kept server (server.atDispatcher r fun d =>
      { d with sessions := Function.update d.sessions id (some session) }) := by
  refine kept_atDispatcher h fun i session' hs => ?_
  by_cases hi : i = id
  · subst hi
    simp only [Function.update_self,Option.some.injEq] at hs
    exact hs ▸ hsession
  · simp only [Function.update_of_ne hi] at hs
    exact h r i session' hs

theorem kept_removeSession {server : TcpServer} (h : Homed server) (r : DispatcherRef)
    (id : SessionId) : Kept server (server.atDispatcher r (.removeSession id)) :=
  kept_atDispatcher h fun i session hs => h r i session hs

theorem kept_handleEvent {server : TcpServer} (h : Homed server) (r : DispatcherRef)
    (id : SessionId) : Kept server (server.handleEvent r id) := by
  unfold TcpServer.handleEvent
  cases hmapped : (server.dispatchers r).getSession id with
  | none => exact ⟨rfl,rfl,h⟩
  | some session =>
    have hhome : session.handleEvent.dispatcher = some r := h r id session hmapped
    have hupdate := kept_update h id hhome
    simp only
    cases session.dispatcher with
    | none => exact hupdate
    | some dispatcher =>
      have hremove := kept_removeSession hupdate.homed dispatcher session.id
      exact ⟨hremove.master.trans hupdate.master,hremove.slavers.trans hupdate.slavers,hremove.homed⟩

theorem kept_put {s : ServerRuns.System} (h : Homed s.base.server) {r : DispatcherRef} {id : SessionId}
    {session : TcpSession}
    (hsession : (ServerRuns.mapped r id s).isSome → session.dispatcher = some r) :
    Kept s.base.server (ServerRuns.put r id session s).base.server := by
  unfold ServerRuns.put
  split_ifs with hmapped
  · exact kept_update h id (hsession hmapped)
  · exact ⟨rfl,rfl,h⟩

theorem kept_touch {s : ServerRuns.System} (h : Homed s.base.server) (r : DispatcherRef)
    (id : SessionId) (f : TcpSocket → TcpSocket) (ops : TcpSocket → List SocketOp) :
    Kept s.base.server (ServerRuns.touch r id f ops s).base.server := by
  unfold ServerRuns.touch
  cases hfind : ServerRuns.find r id s with
  | none => exact ⟨rfl,rfl,h⟩
  | some session =>
    refine kept_put (s := { s with ops := s.ops ++ (ops session.socket).map fun op => (id,op) }) h ?_
    intro hmapped
    obtain ⟨session',hs⟩ := Option.isSome_iff_exists.mp hmapped
    have hs' : ServerRuns.mapped r id s = some session' := hs
    rw [ServerRuns.find,hs'] at hfind
    cases hfind
    exact h r id session hs'

theorem kept_callback {s : ServerRuns.System} (h : Homed s.base.server) {r : DispatcherRef}
    {id : SessionId} {f : TcpSession → ServerRuns.System → ServerRuns.System}
    (hf : ∀ session, Kept s.base.server (f session s).base.server) :
    Kept s.base.server (ServerRuns.callback r id f s).base.server := by
  rcases ServerRuns.callback_cases r id f s with hnone | ⟨session,_,_,hmade⟩
  · rw [hnone]
    exact ⟨rfl,rfl,h⟩
  · rw [hmade]
    exact hf session

theorem kept_step {s : ServerRuns.System} (h : Homed s.base.server) {l : ServerRuns.Step}
    (hl : l ≠ .destroy) : Kept s.base.server (ServerRuns.step s l).base.server := by
  have hsame : Kept s.base.server s.base.server := ⟨rfl,rfl,h⟩
  unfold ServerRuns.step
  split_ifs
  · exact hsame
  cases l with
  | accept sock =>
    let server := { s.base.server with sessionIdGenerator := s.base.server.nextId }
    let home := server.getSessionDispatcher server.sessionIdGenerator
    have hserver : Homed server := h
    have hkept : Kept server (server.atDispatcher home (.addSession server.sessionIdGenerator sock)) :=
      kept_atDispatcher hserver fun i session hs => hserver home i session hs
    exact ⟨hkept.master,hkept.slavers,hkept.homed⟩
  | pass r o =>
    rw [ServerRuns.serverStep,ServerRuns.pass_base,AcceptedConnections.step]
    cases (s.base.server.dispatchers r).actions with
    | nil => exact hsame
    | cons action rest => exact kept_frontAction h r o action
  | read r id => exact kept_callback h fun _ => hsame
  | event r id events =>
    refine kept_callback h fun session => ?_
    unfold ServerRuns.handleEvent
    simp only
    split_ifs
    · exact kept_handleEvent h r id
    · cases session.dispatcher with
      | none => exact hsame
      | some dispatcher => exact kept_removeSession h dispatcher session.id
  | writeCallback r id => exact kept_callback h fun _ => kept_touch h r id _ _
  | handOver r id k => exact kept_callback h fun _ => kept_touch h r id _ _
  | send r id ok data => exact kept_touch h r id _ _
  | close r id waiting => exact kept_touch h r id _ _
  | clearInputBuffer r id => exact kept_touch h r id _ _
  | getSession r id =>
    simp only [ServerRuns.serverStep]
    split_ifs <;> exact hsame
  | release id => exact hsame
  | removeSession r id => exact kept_removeSession h r id
  | destroy => exact absurd rfl hl

def Numbered (server : TcpServer) : Prop :=
  server.master = 0 ∧ ∃ n, server.slavers = (List.range n).map (· + 1)

structure Reached (s : System) : Prop where
  numbered : Numbered (server s)
  homed : Homed (server s)
  loops : ∀ r, DispatcherTeardown.Undestroyed (s.loops r)
  listener : ∀ n, s.eventListener = some n → n ∈ s.listeners
  freed : s.freed = []
  deleted : s.deleted = []

theorem setThreads_reached {server : TcpServer} (h : Numbered server ∧ Homed server) (threads : ℕ) :
    Numbered (server.setThreads threads) ∧ Homed (server.setThreads threads) := by
  unfold TcpServer.setThreads
  split_ifs with hslavers
  · exact h
  · refine ⟨⟨h.1.1,threads,rfl⟩,fun r id session hs => ?_⟩
    simp only at hs
    split_ifs at hs
    · cases hs
    · exact h.2 r id session hs

theorem create_reached (threads sessionIdGenerator : ℕ) : Reached (create threads sessionIdGenerator) := by
  have hempty : Numbered ⟨0,[],fun _ => .create,sessionIdGenerator⟩ ∧
      Homed ⟨0,[],fun _ => .create,sessionIdGenerator⟩ :=
    ⟨⟨rfl,0,rfl⟩,fun _ _ _ hs => by cases hs⟩
  obtain ⟨hnumbered,hhomed⟩ := setThreads_reached hempty threads
  exact ⟨hnumbered,hhomed,fun _ => DispatcherTeardown.create_whole.loop,(fun _ hn => by cases hn),rfl,rfl⟩

theorem atLoop_undestroyed {s : System} (h : ∀ r, DispatcherTeardown.Undestroyed (s.loops r))
    (r : DispatcherRef) {x : ThreadJoins.Step} (hx : x ≠ .destroy) (r' : DispatcherRef) :
    DispatcherTeardown.Undestroyed ((atLoop r x s).loops r') := by
  by_cases hr : r' = r
  · subst hr
    simpa [atLoop] using DispatcherTeardown.step_undestroyed (h r') x hx
  · simpa [atLoop,hr] using h r'

theorem atLoop_reached {s : System} (h : Reached s) (r : DispatcherRef) {x : ThreadJoins.Step}
    (hx : x ≠ .destroy) : Reached (atLoop r x s) :=
  ⟨h.numbered,h.homed,atLoop_undestroyed h.loops r hx,h.listener,h.freed,h.deleted⟩

theorem start_all (rs : List DispatcherRef) {s : System}
    (h : ∀ r, DispatcherTeardown.Undestroyed (s.loops r)) :
    ∃ loops, rs.foldl (fun s r => atLoop r .start s) s = { s with loops := loops } ∧
      ∀ r, DispatcherTeardown.Undestroyed (loops r) := by
  induction rs generalizing s with
  | nil => exact ⟨s.loops,rfl,h⟩
  | cons r rs ih =>
    obtain ⟨loops,hloops,hundestroyed⟩ := ih (atLoop_undestroyed h r (x := .start) (by simp))
    exact ⟨loops,hloops,hundestroyed⟩

/-- A listen that returns true leaves a listener open, one that returns false opens none. -/
inductive Listening (s : System) : Bool × System → Prop
  | failed (created : ℕ) : Listening s (false,{ s with eventListener := none, created := created })
  | opened (n : ℕ) (loops : DispatcherRef → Loop)
      (hloops : ∀ r, DispatcherTeardown.Undestroyed (loops r)) :
      Listening s (true,{ s with
        eventListener := some n
        listeners := n :: s.listeners
        created := n+1
        loops := loops })

theorem listen_listening {s : System} (h : ∀ r, DispatcherTeardown.Undestroyed (s.loops r))
    (bound : Bool) : Listening s (listen bound s) := by
  unfold listen
  cases bound with
  | false => exact .failed s.created
  | true =>
    simp only [Bool.not_true,Bool.false_eq_true,if_false,List.erase_cons_head]
    split_ifs
    · exact .failed (s.created+1)
    · obtain ⟨loops,hstart,hloops⟩ := start_all (dispatchers s) (s := { s with
        eventListener := some s.created
        listeners := s.created :: s.listeners
        created := s.created+1 }) h
      rw [hstart]
      exact .opened s.created loops hloops

theorem step_reached {s : System} (l : Step) (h : Reached s) : Reached (step s l) := by
  cases l with
  | listen bound =>
    simp only [step]
    split_ifs
    · have hlistening := listen_listening h.loops bound
      generalize listen bound s = r at hlistening
      cases hlistening with
      | failed created => exact ⟨h.numbered,h.homed,h.loops,(fun _ hn => by cases hn),h.freed,h.deleted⟩
      | opened n loops hloops =>
        refine ⟨h.numbered,h.homed,hloops,fun m hm => ?_,h.freed,h.deleted⟩
        cases hm
        exact List.mem_cons_self
    · exact h
  | setThreads threads =>
    obtain ⟨hnumbered,hhomed⟩ := setThreads_reached ⟨h.numbered,h.homed⟩ threads
    exact ⟨hnumbered,hhomed,h.loops,h.listener,h.freed,h.deleted⟩
  | start r => exact atLoop_reached h r (by simp)
  | stop r waiting => exact atLoop_reached h r (by simp)
  | wait r => exact atLoop_reached h r (by simp)
  | owner r => exact atLoop_reached h r (by simp)
  | run r t lib haveEvents =>
    have hstarted := atLoop_reached h r (x := .run t haveEvents) (by simp)
    simp only [step,run]
    split_ifs
    · exact ⟨hstarted.numbered,hstarted.homed,hstarted.loops,hstarted.listener,hstarted.freed,
        hstarted.deleted⟩
    · exact hstarted
  | tick r t =>
    simp only [step]
    split_ifs
    · split
      · exact h
      · exact ⟨h.numbered,h.homed,h.loops,h.listener,h.freed,h.deleted⟩
    · exact h
  | session l =>
    simp only [step]
    split_ifs with hl
    · exact h
    · have hkept := kept_step (s := s.sessions) h.homed hl
      refine ⟨⟨hkept.master.trans h.numbered.1,?_⟩,hkept.homed,h.loops,h.listener,h.freed,h.deleted⟩
      obtain ⟨n,hn⟩ := h.numbered.2
      exact ⟨n,hkept.slavers.trans hn⟩

theorem step_quiet (s : System) {l : Step} (hl : ∀ bound, l ≠ .listen bound) :
    (step s l).eventListener = s.eventListener ∧ (step s l).listeners = s.listeners := by
  cases l with
  | listen bound => exact absurd rfl (hl bound)
  | run r t lib haveEvents =>
    simp only [step,run]
    split_ifs <;> exact ⟨rfl,rfl⟩
  | tick r t =>
    simp only [step]
    split_ifs
    · split <;> exact ⟨rfl,rfl⟩
    · exact ⟨rfl,rfl⟩
  | session l =>
    simp only [step]
    split_ifs <;> exact ⟨rfl,rfl⟩
  | _ => exact ⟨rfl,rfl⟩

theorem step_listening {s : System} (l : Step) (h : Reached s) :
    (step s l).listeners ≠ [] ↔ s.listeners ≠ [] ∨ Listened s l := by
  by_cases hl : ∃ bound, l = .listen bound
  · obtain ⟨bound,rfl⟩ := hl
    simp only [step,Listened,Step.listen.injEq]
    split_ifs with hidle
    · have hlistening := listen_listening h.loops bound
      generalize hr : listen bound s = r at hlistening
      cases hlistening with
      | failed created => simp [hr]
      | opened n loops hloops =>
        exact iff_of_true (List.cons_ne_nil _ _) (.inr ⟨bound,rfl,hidle,by rw [hr]⟩)
    · exact (or_iff_left fun ⟨_,_,hall,_⟩ => hidle hall).symm
  · rw [(step_quiet s (not_exists.mp hl)).2]
    exact (or_iff_left fun ⟨bound,hbound,_⟩ => hl ⟨bound,hbound⟩).symm

theorem run_listening {s : System} (h : Reached s) (run : List Step) :
    (exec step s run).listeners ≠ [] ↔ s.listeners ≠ [] ∨ Sometime step Listened s run := by
  induction run generalizing s with
  | nil => exact (or_false _).to_iff.symm
  | cons l run ih => rw [exec,ih (step_reached l h),step_listening l h,or_assoc,Sometime]

structure Through (l : Loop) : Prop where
  todo : l.todo = []
  running : l.terminated = false
  joined : ∀ t, l.thread = some t → l.status = .finished ∧ (l.threads t).joinable = false

theorem destroy_through {l : Loop} (h : Through l) : Through l.destroy.owner.owner.owner := by
  cases ht : l.thread with
  | none =>
    have hstep : l.destroy.owner.owner.owner = { l with destroyed := true, todo := [] } := by
      simp [Loop.destroy,Loop.owner,ht]
    rw [hstep]
    exact ⟨rfl,h.running,h.joined⟩
  | some t =>
    obtain ⟨hstatus,hjoinable⟩ := h.joined t ht
    have hstep : l.destroy.owner.owner.owner =
        { l with destroyed := true, todo := [], terminated := false } := by
      simp [Loop.destroy,Loop.owner,ht,hstatus,hjoinable]
    rw [hstep]
    exact ⟨rfl,rfl,h.joined⟩

structure After (s s' : System) (pre : List TeardownStmt) : Prop where
  master : (server s').master = (server s).master
  held : s'.sessions.held = s.sessions.held
  detached : s'.sessions.detached = s.sessions.detached
  mapped : ∀ r id, ServerRuns.mapped r id s'.sessions =
    if .sessions r ∈ pre ∧ id ∉ s.sessions.held then none else ServerRuns.mapped r id s.sessions
  frameTimer : ∀ r, (s'.frameLoops r).frameTimer.event =
    if .frameTimer r ∈ pre then none else (s.frameLoops r).frameTimer.event
  loops : ∀ r ∈ dispatchers s, Through (s'.loops r)
  freed : ∀ r, r ∈ s'.freed ↔ .base r ∈ pre
  deleted : ∀ r, r ∈ s'.deleted ↔ .delete r ∈ pre
  listeners : .listener ∉ pre → s'.listeners = s.listeners

theorem after_nil {s : System} (h : Reached s) (hwaited : ∀ r ∈ dispatchers s, Waited (s.loops r)) :
    After s s [] where
  master := rfl
  held := rfl
  detached := rfl
  mapped := by simp
  frameTimer := by simp
  loops := fun r hr => ⟨(hwaited r hr).1.1,(h.loops r).running,(hwaited r hr).2⟩
  freed := by simp [h.freed]
  deleted := by simp [h.deleted]
  listeners := fun _ => rfl

/-! Each field after one statement. -/

theorem mapped_teardown (stmt : TeardownStmt) (r : DispatcherRef) (id : SessionId) (s : System) :
    ServerRuns.mapped r id (teardown s stmt).sessions =
      if stmt = .sessions r ∧ id ∉ s.sessions.held then none else ServerRuns.mapped r id s.sessions := by
  cases stmt with
  | sessions r' =>
    by_cases hr : r' = r
    · subst hr
      by_cases hheld : id ∈ s.sessions.held <;>
        simp [teardown,ServerRuns.mapped,server,TcpServer.atDispatcher,
          TcpServerDispatcher.getSession,hheld]
    · have hne : r ≠ r' := Ne.symm hr
      simp [teardown,ServerRuns.mapped,server,TcpServer.atDispatcher,hr,hne]
  | base r' =>
    rw [if_neg (by simp)]
    simp only [teardown]
    split_ifs <;> rfl
  | _ => simp [teardown,atFrameTimer]

theorem frameTimer_teardown (stmt : TeardownStmt) (r : DispatcherRef) (s : System) :
    ((teardown s stmt).frameLoops r).frameTimer.event =
      if stmt = .frameTimer r then none else (s.frameLoops r).frameTimer.event := by
  cases stmt with
  | frameTimer r' =>
    by_cases hr : r' = r
    · subst hr
      simp [teardown,atFrameTimer,Timer.reset_event]
    · have hne : r ≠ r' := Ne.symm hr
      simp [teardown,atFrameTimer,hr,hne]
  | base r' =>
    rw [if_neg (by simp)]
    simp only [teardown]
    split_ifs <;> rfl
  | _ => simp [teardown]

theorem through_teardown {s : System} {r : DispatcherRef} (h : Through (s.loops r))
    (stmt : TeardownStmt) : Through ((teardown s stmt).loops r) := by
  cases stmt with
  | loop r' =>
    by_cases hr : r = r'
    · subst hr
      simpa [teardown] using destroy_through h
    · simpa [teardown,hr] using h
  | base r' =>
    simp only [teardown]
    split_ifs <;> exact h
  | _ => exact h

theorem freed_teardown {s : System} {stmt : TeardownStmt}
    (h : ∀ r, stmt = .base r → Through (s.loops r)) (r : DispatcherRef) :
    r ∈ (teardown s stmt).freed ↔ r ∈ s.freed ∨ stmt = .base r := by
  cases stmt with
  | base r' =>
    have hthrough := h r' rfl
    have hstep : (teardown s (.base r')).freed = r' :: s.freed :=
      congrArg System.freed (if_pos ⟨hthrough.todo,hthrough.running⟩)
    simp [hstep,or_comm,eq_comm]
  | _ => simp [teardown,atFrameTimer]

theorem deleted_teardown (s : System) (stmt : TeardownStmt) (r : DispatcherRef) :
    r ∈ (teardown s stmt).deleted ↔ r ∈ s.deleted ∨ stmt = .delete r := by
  cases stmt with
  | delete r' => simp [teardown,or_comm,eq_comm]
  | base r' =>
    simp only [teardown]
    split_ifs <;> simp
  | _ => simp [teardown,atFrameTimer]

theorem listeners_teardown (s : System) {stmt : TeardownStmt} (h : stmt ≠ .listener) :
    (teardown s stmt).listeners = s.listeners := by
  cases stmt with
  | listener => exact absurd rfl h
  | base r =>
    simp only [teardown]
    split_ifs <;> rfl
  | _ => rfl

theorem teardown_frame (s : System) (stmt : TeardownStmt) :
    (server (teardown s stmt)).master = (server s).master ∧
      (teardown s stmt).sessions.held = s.sessions.held ∧
      (teardown s stmt).sessions.detached = s.sessions.detached := by
  cases stmt with
  | base r =>
    simp only [teardown]
    split_ifs <;> exact ⟨rfl,rfl,rfl⟩
  | _ => exact ⟨rfl,rfl,rfl⟩

theorem After.step {s s' : System} {pre : List TeardownStmt} (h : After s s' pre) {stmt : TeardownStmt}
    (hstmt : ∀ r, dispatcherOf stmt = some r → r ∈ dispatchers s) :
    After s (teardown s' stmt) (pre ++ [stmt]) := by
  obtain ⟨hmaster,hheld,hdetached⟩ := teardown_frame s' stmt
  have hmem (x : TeardownStmt) : x ∈ pre ++ [stmt] ↔ x ∈ pre ∨ stmt = x := by
    rw [List.mem_append,List.mem_singleton,eq_comm (a := stmt)]
  refine {
    master := hmaster.trans h.master
    held := hheld.trans h.held
    detached := hdetached.trans h.detached
    mapped := fun r id => ?_
    frameTimer := fun r => ?_
    loops := fun r hr => through_teardown (h.loops r hr) stmt
    freed := fun r => ?_
    deleted := fun r => by rw [deleted_teardown,h.deleted,hmem]
    listeners := fun hnot => ?_ }
  · simp only [mapped_teardown,h.mapped,h.held,hmem]
    split_ifs <;> tauto
  · simp only [frameTimer_teardown,h.frameTimer,hmem]
    split_ifs <;> tauto
  · have hbase (r : DispatcherRef) (hr : stmt = .base r) : Through (s'.loops r) :=
      h.loops r (hstmt r (by rw [hr]; rfl))
    rw [freed_teardown hbase,h.freed,hmem]
  · rw [hmem,not_or] at hnot
    rw [listeners_teardown s' hnot.2,h.listeners hnot.1]

theorem mem_deleteDispatcher {stmt : TeardownStmt} {r : DispatcherRef} :
    stmt ∈ deleteDispatcher r ↔ dispatcherOf stmt = some r := by
  cases stmt <;> simp [deleteDispatcher,dispatcherOf]

theorem mem_destructor {s : System} {stmt : TeardownStmt} {r : DispatcherRef}
    (hr : dispatcherOf stmt = some r) : stmt ∈ destructor s ↔ r ∈ dispatchers s := by
  have hlast : stmt ∉ (if s.eventListener.isSome then [.listener] else []) ++ [.sessionFactory] := by
    split_ifs <;> cases stmt <;> cases hr <;> simp
  rw [destructor,List.mem_append,or_iff_left hlast,List.mem_flatMap]
  simp only [mem_deleteDispatcher,hr,Option.some.injEq,exists_eq_right']

theorem after_statements {s : System} (h : Reached s) (hwaited : ∀ r ∈ dispatchers s, Waited (s.loops r))
    {pre : List TeardownStmt} (hpre : pre <+: destructor s) : After s (exec teardown s pre) pre := by
  induction pre using List.reverseRecOn with
  | nil => exact after_nil h hwaited
  | append_singleton pre stmt ih =>
    rw [exec_append]
    refine (ih ((List.prefix_append pre [stmt]).trans hpre)).step fun r hr => ?_
    exact (mem_destructor hr).mp (hpre.subset (by simp))

/-- What comes first in the deletion of a dispatcher comes first in the destructor. -/
theorem destructor_precedes {s : System} {a b : TeardownStmt} {r : DispatcherRef}
    (hr : dispatcherOf b = some r) (h : Precedes a b (deleteDispatcher r)) :
    Precedes a b (destructor s) := by
  refine (precedes_flatMap fun r' _ => ?_).append (precedes_of_notMem ?_)
  · by_cases hne : r' = r
    · exact hne ▸ h
    · refine precedes_of_notMem fun hb => hne ?_
      exact Option.some.inj ((mem_deleteDispatcher.mp hb).symm.trans hr)
  · split_ifs <;> cases b <;> cases hr <;> simp

theorem precedes_base (r : DispatcherRef) :
    Precedes (.sessions r) (.base r) (deleteDispatcher r) ∧
      Precedes (.frameTimer r) (.base r) (deleteDispatcher r) :=
  ⟨precedes_head _ _ _,(precedes_head _ _ _).cons (by simp)⟩

theorem precedes_delete {stmt : TeardownStmt} {r : DispatcherRef} (h : stmt ∈ deleteDispatcher r) :
    Precedes stmt (.delete r) (deleteDispatcher r) := by
  simp only [deleteDispatcher,List.mem_cons,List.not_mem_nil,or_false] at h
  rcases h with rfl | rfl | rfl | rfl | rfl
  · exact precedes_head _ _ _
  · exact (precedes_head _ _ _).cons (by simp)
  · exact ((precedes_head _ _ _).cons (by simp)).cons (by simp)
  · exact (((precedes_head _ _ _).cons (by simp)).cons (by simp)).cons (by simp)
  · exact ((((precedes_head _ _ _).cons (by simp)).cons (by simp)).cons (by simp)).cons (by simp)

theorem dispatchers_nodup {s : System} (h : Numbered (server s)) : (dispatchers s).Nodup := by
  obtain ⟨hmaster,n,hslavers⟩ := h
  rw [dispatchers,hmaster,hslavers,List.nodup_cons]
  refine ⟨by simp,?_⟩
  exact List.nodup_range.map fun a b hab => Nat.succ.inj hab

theorem destructor_nodup {s : System} (h : Numbered (server s)) : (destructor s).Nodup := by
  have hdispatchers : ((dispatchers s).flatMap deleteDispatcher).Nodup := by
    rw [List.nodup_flatMap]
    refine ⟨fun r _ => by simp [deleteDispatcher],(dispatchers_nodup h).imp fun {r r'} hne => ?_⟩
    intro stmt hr hr'
    rw [mem_deleteDispatcher] at hr hr'
    exact hne (Option.some.inj (hr.symm.trans hr'))
  rw [destructor,List.nodup_append]
  refine ⟨hdispatchers,?_,fun stmt hstmt stmt' hstmt' => ?_⟩
  · split_ifs <;> simp
  · rintro rfl
    obtain ⟨r,_,hr⟩ := List.mem_flatMap.mp hstmt
    rw [mem_deleteDispatcher] at hr
    revert hstmt'
    split_ifs <;> cases stmt <;> cases hr <;> simp

/-- No dispatcher is used after it is deleted, whatever the server is. -/
theorem destructor_undeleted {s : System} (h : Reached s)
    (hwaited : ∀ r ∈ dispatchers s, Waited (s.loops r)) : Along teardown Undeleted s (destructor s) := by
  refine along_iff_prefixes.mpr fun pre stmt hpre r hr hdeleted => ?_
  have hafter := after_statements h hwaited ((List.prefix_append pre [stmt]).trans hpre)
  have hmem : stmt ∈ deleteDispatcher r := mem_deleteDispatcher.mpr hr
  exact (destructor_precedes rfl (precedes_delete hmem)).not_after (destructor_nodup h.numbered) hpre
    ((hafter.deleted r).mp hdeleted)

/-- Where no listener is open and no session held, nothing is left on a base. -/
theorem destructor_released {s : System} (h : Reached s)
    (hwaited : ∀ r ∈ dispatchers s, Waited (s.loops r)) (hlisteners : s.listeners = [])
    (hunheld : Unheld s) : Always teardown Released s (destructor s) := by
  intro pre hpre r hr o ho
  have hafter := after_statements h hwaited hpre
  have hbase : .base r ∈ pre := (hafter.freed r).mp hr
  have hdispatcher : r ∈ dispatchers s := (mem_destructor rfl).mp (hpre.subset hbase)
  have hsessions : .sessions r ∈ pre := destructor_precedes rfl (precedes_base r).1 pre hpre hbase
  have hframe : .frameTimer r ∈ pre := destructor_precedes rfl (precedes_base r).2 pre hpre hbase
  cases o with
  | listener n =>
    have hnone : s.eventListener = none :=
      Option.eq_none_iff_forall_ne_some.mpr fun m hm => by simpa [hlisteners] using h.listener m hm
    have hnot : .listener ∉ pre := by
      intro hmem
      have hin := hpre.subset hmem
      simp [destructor,hnone,deleteDispatcher] at hin
    have hopen := ho.2
    rw [hafter.listeners hnot,hlisteners] at hopen
    cases hopen
  | mapped r' id =>
    obtain ⟨session,hsession,hattached⟩ := ho
    rw [hafter.mapped] at hsession
    split_ifs at hsession with hgone
    have hhome : r' = r :=
      Option.some.inj ((h.homed r' id session hsession).symm.trans hattached.1)
    subst hhome
    have hheld : id ∈ s.sessions.held := by
      by_contra hnot
      exact hgone ⟨hsessions,hnot⟩
    exact (hunheld r' hdispatcher id).1 hheld ⟨session,hsession,hattached⟩
  | detached id =>
    obtain ⟨session,hsession,hattached⟩ := ho
    rw [hafter.detached] at hsession
    exact (hunheld r hdispatcher id).2 ⟨session,hsession,hattached⟩
  | frameTimer =>
    have hevent : ((exec teardown s pre).frameLoops r).frameTimer.event = none := by
      rw [hafter.frameTimer,if_pos hframe]
    rw [LivesOn,hevent] at ho
    cases ho

theorem released_only {s : System} (h : Reached s)
    (hwaited : ∀ r ∈ dispatchers s, Waited (s.loops r))
    (hreleased : Always teardown Released s (destructor s)) : s.listeners = [] ∧ Unheld s := by
  have hpre : (dispatchers s).flatMap deleteDispatcher <+: destructor s := List.prefix_append _ _
  have hafter := after_statements h hwaited hpre
  have hnone {r : DispatcherRef} (hr : r ∈ dispatchers s) (o : Object) :
      ¬ LivesOn (exec teardown s ((dispatchers s).flatMap deleteDispatcher)) r o := by
    refine hreleased _ hpre r ((hafter.freed r).mpr ?_) o
    exact List.mem_flatMap.mpr ⟨r,hr,by simp [deleteDispatcher]⟩
  refine ⟨List.eq_nil_iff_forall_not_mem.mpr fun n hn => ?_,fun r hr id => ⟨fun hheld ho => ?_,fun ho => ?_⟩⟩
  · refine hnone (r := (server s).master) List.mem_cons_self (.listener n) ⟨hafter.master.symm,?_⟩
    rwa [hafter.listeners (by simp [deleteDispatcher])]
  · obtain ⟨session,hsession,hattached⟩ := ho
    refine hnone hr (.mapped r id) ⟨session,?_,hattached⟩
    rw [hafter.mapped,if_neg fun hgone => hgone.2 hheld]
    exact hsession
  · obtain ⟨session,hsession,hattached⟩ := ho
    refine hnone hr (.detached id) ⟨session,?_,hattached⟩
    rw [hafter.detached]
    exact hsession

/-- A statement after the release of a base finds nothing there. -/
theorem untouched_of_released {s : System} (h : Reached s)
    (hwaited : ∀ r ∈ dispatchers s, Waited (s.loops r))
    (hreleased : Always teardown Released s (destructor s)) :
    Along teardown Untouched s (destructor s) := by
  refine along_iff_prefixes.mpr fun pre stmt hpre r hr o => ?_
  have hbefore : pre <+: destructor s := (List.prefix_append pre [stmt]).trans hpre
  have hbase : .base r ∈ pre := ((after_statements h hwaited hbefore).freed r).mp hr
  have hfreed : r ∈ (exec teardown s (pre ++ [stmt])).freed :=
    ((after_statements h hwaited hpre).freed r).mpr (List.mem_append_left _ hbase)
  have hstep : exec teardown s (pre ++ [stmt]) = teardown (exec teardown s pre) stmt :=
    exec_append _ _ _ _
  rw [← hstep]
  exact iff_of_false (hreleased _ hpre r hfreed o) (hreleased pre hbefore r hr o)

theorem run_sessions (r : DispatcherRef) (t : ThreadRef) (lib : Libevent) (haveEvents : Bool)
    (s : System) : (run r t lib haveEvents s).sessions = s.sessions := by
  unfold run
  simp only
  split_ifs <;> rfl

/-- In every run that ends with the loops waited for, the destructor frees what lives on a base
before the base, and uses nothing after it is gone, if and only if no `listen` has returned
true and user code holds no session with a bufferevent. -/
theorem bases_released_iff (threads sessionIdGenerator : ℕ) (run : List Step)
    (hwaited : ∀ r ∈ dispatchers (exec step (create threads sessionIdGenerator) run),
      Waited ((exec step (create threads sessionIdGenerator) run).loops r)) :
    let s := exec step (create threads sessionIdGenerator) run
    (Always teardown Released s (destructor s) ∧ Along teardown Untouched s (destructor s) ∧
        Along teardown Undeleted s (destructor s)) ↔
      ¬ Sometime step Listened (create threads sessionIdGenerator) run ∧ Unheld s := by
  intro s
  have hcreate := create_reached threads sessionIdGenerator
  have h : Reached s := exec_preserves (fun _ l => step_reached l) hcreate run
  have hlisteners : s.listeners ≠ [] ↔ Sometime step Listened (create threads sessionIdGenerator) run :=
    (run_listening hcreate run).trans (or_iff_right fun hne => hne rfl)
  constructor
  · rintro ⟨hreleased,-,-⟩
    obtain ⟨hnone,hunheld⟩ := released_only h hwaited hreleased
    exact ⟨fun hlistened => hlisteners.mpr hlistened hnone,hunheld⟩
  · rintro ⟨hlistened,hunheld⟩
    have hnone : s.listeners = [] := not_not.mp fun hne => hlistened (hlisteners.mp hne)
    have hreleased := destructor_released h hwaited hnone hunheld
    exact ⟨hreleased,untouched_of_released h hwaited hreleased,destructor_undeleted h hwaited⟩

/-- A loop with a session on it, stopped and waited for. -/
theorem released_stopped :
    let turn : Step := .run 0 0 ⟨true,true⟩ true
    let run := [.start 0,turn,turn,.session (.accept 7),.session (.pass 0 ⟨true,true,[]⟩),.stop 0 true,
      .owner 0,.owner 0,.wait 0,.owner 0,turn,turn,turn,.owner 0]
    let s := exec step (create 0 0) run
    (s.loops 0).status = .finished ∧ (s.loops 0).thread = some 0 ∧
      Always teardown Released s (destructor s) ∧ Along teardown Untouched s (destructor s) ∧
        Along teardown Undeleted s (destructor s) := by
  intro turn run s
  have hstatus : (s.loops 0).status = .finished := by decide
  have hthread : (s.loops 0).thread = some 0 := by decide
  have hwaited (r : DispatcherRef) (hr : r ∈ dispatchers s) : Waited (s.loops r) := by
    have hone : dispatchers s = [0] := by decide
    obtain rfl : r = 0 := List.mem_singleton.mp (hone ▸ hr)
    refine ⟨by decide,fun t ht => ⟨hstatus,?_⟩⟩
    obtain rfl : t = 0 := Option.some.inj (ht.symm.trans hthread)
    decide
  have hunlistened : ¬ Sometime step Listened (create 0 0) run := by
    simp [Sometime,Listened,turn,run]
  have hsessions : s.sessions = exec ServerRuns.step (create 0 0).sessions
      [.accept 7,.pass 0 ⟨true,true,[]⟩] := by
    simp only [s,run,turn,exec,step,run_sessions,atLoop]
    rfl
  have hunheld : Unheld s := by
    intro r _ id
    simp only [LivesOn,hsessions]
    refine ⟨fun hid => absurd hid List.not_mem_nil,?_⟩
    rintro ⟨session,hsession,-⟩
    cases hsession
  exact ⟨hstatus,hthread,(bases_released_iff 0 0 run hwaited).mpr ⟨hunlistened,hunheld⟩⟩

/-- The base of the master is freed before its listener. -/
theorem listener_after_base : ¬ ∀ threads sessionIdGenerator run,
    (∀ r ∈ dispatchers (exec step (create threads sessionIdGenerator) run),
      Waited ((exec step (create threads sessionIdGenerator) run).loops r)) →
    let s := exec step (create threads sessionIdGenerator) run
    Always teardown Released s (destructor s) ∧ Along teardown Untouched s (destructor s) ∧
      Along teardown Undeleted s (destructor s) := by
  intro h
  obtain ⟨hreleased,-,-⟩ := h 0 0 [.listen true,.run 0 0 ⟨true,true⟩ true,.run 0 0 ⟨true,true⟩ true,
    .stop 0 true,.owner 0,.owner 0,.wait 0,.owner 0,.run 0 0 ⟨true,true⟩ true,
    .run 0 0 ⟨true,true⟩ true,.run 0 0 ⟨true,true⟩ true,.owner 0] fun r hr => by
      have hzero : r = 0 := List.mem_singleton.mp hr
      subst hzero
      refine ⟨by decide,fun t ht => ?_⟩
      cases ht
      decide
  exact hreleased [.sessions 0,.frameTimer 0,.loop 0,.base 0] (by decide) 0 (by decide) (.listener 0)
    ⟨rfl,by decide⟩

end ServerTeardown
end Translib
