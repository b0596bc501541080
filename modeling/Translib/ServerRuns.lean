import Translib.ConnectionSystem
import Translib.TcpClient

/-! A server with the callbacks of its sessions, the calls user code makes on them, and what
is done to their descriptors. -/

namespace Translib
namespace ServerRuns

open AcceptedConnections TransitionMachine

/-- What is seen of a session. `left` is its removal from the map of its dispatcher. -/
inductive Mark
  | onNewSession | onSessionRead | onSessionDisconnected | left
  deriving DecidableEq, Repr

/-- `held` are the ids user code has a session pointer for; `detached` the sessions that are
in no map any more but held. -/
structure System where
  base : AcceptedConnections.System
  held : List SessionId
  detached : SessionId → Option TcpSession
  marks : List (SessionId × Mark)
  ops : List (SessionId × SocketOp)
  destroyed : Bool

/-- `r` is the dispatcher a session is looked for at. -/
inductive Step
  | accept (sock : SocketFd)
  | pass (r : DispatcherRef) (o : AttachOutcome)
  | read (r : DispatcherRef) (id : SessionId)
  | event (r : DispatcherRef) (id : SessionId) (events : ℕ)
  | writeCallback (r : DispatcherRef) (id : SessionId)
  | handOver (r : DispatcherRef) (id : SessionId) (k : ℕ)
  | send (r : DispatcherRef) (id : SessionId) (ok : Bool) (data : List Byte)
  | close (r : DispatcherRef) (id : SessionId) (waiting : Bool)
  | clearInputBuffer (r : DispatcherRef) (id : SessionId)
  | getSession (r : DispatcherRef) (id : SessionId)
  | release (id : SessionId)
  | removeSession (r : DispatcherRef) (id : SessionId)
  | destroy
  deriving DecidableEq, Repr

def start (server : TcpServer) : System := ⟨⟨server,[],[]⟩,[],fun _ => none,[],[],false⟩

def mapped (r : DispatcherRef) (id : SessionId) (s : System) : Option TcpSession :=
  (s.base.server.dispatchers r).getSession id

def find (r : DispatcherRef) (id : SessionId) (s : System) : Option TcpSession :=
  (mapped r id s).or (s.detached id)

def put (r : DispatcherRef) (id : SessionId) (session : TcpSession) (s : System) : System :=
  if (mapped r id s).isSome then
    { s with base.server := s.base.server.atDispatcher r fun d =>
      { d with sessions := Function.update d.sessions id (some session) } }
  else { s with detached := Function.update s.detached id (some session) }

def Disconnected (s : System) (id : SessionId) : Prop := (id,.onSessionDisconnected) ∈ s.marks

instance (s : System) (id : SessionId) : Decidable (Disconnected s id) :=
  inferInstanceAs (Decidable (_ ∈ _))

/-- A call on the socket of a session, with what it does to the descriptor. -/
def touch (r : DispatcherRef) (id : SessionId) (f : TcpSocket → TcpSocket)
    (ops : TcpSocket → List SocketOp) (s : System) : System :=
  match find r id s with
  | none => s
  | some session =>
    let s := { s with ops := s.ops ++ (ops session.socket).map fun op => (id,op) }
    put r id { session with socket := f session.socket } s

/-- A callback of libevent, which there is none of once the event callback has run. -/
def callback (r : DispatcherRef) (id : SessionId) (f : TcpSession → System → System) (s : System) :
    System :=
  match find r id s with
  | none => s
  | some session => if Disconnected s id then s else f session s

/-- `handleEvent`: the socket is closed before the server is told, and the removal asked for
after it. -/
def handleEvent (r : DispatcherRef) (id : SessionId) (session : TcpSession) (s : System) : System :=
  let s := { s with
    marks := s.marks ++ [(id,.onSessionDisconnected)]
    ops := s.ops ++ [(id,.closed session.socket.socket)] }
  if (mapped r id s).isSome then { s with base := AcceptedConnections.step s.base (.disconnect r id) }
  else
    let s := { s with detached := Function.update s.detached id (some session.handleEvent) }
    match session.dispatcher with
    | none => s
    | some dispatcher =>
      { s with base.server := s.base.server.atDispatcher dispatcher (.removeSession session.id) }

/-- A pass, and what it shows: a session is announced when it is attached, and one that is
removed stays with those who hold it. -/
def pass (r : DispatcherRef) (o : AttachOutcome) (s : System) : System :=
  match (s.base.server.dispatchers r).actions with
  | [] => s
  | action::_ =>
    let passed := { s with base := AcceptedConnections.step s.base (.pass r o) }
    match entryOf r o action with
    | .attached => { passed with marks := s.marks ++ [(action.id,.onNewSession)] }
    | .attachFailed => passed
    | .removal =>
      match mapped r action.id s with
      | none => passed
      | some session =>
        { passed with
          marks := s.marks ++ [(action.id,.left)]
          detached := if action.id ∈ s.held then Function.update s.detached action.id (some session)
            else s.detached }

def serverStep (s : System) : Step → System
  | .accept sock =>
    { s with
      base := AcceptedConnections.step s.base (.accept sock)
      ops := s.ops ++ [(s.base.server.nextId,.opened sock)] }
  | .pass r o => pass r o s
  | .read r id => callback r id (fun _ s => { s with marks := s.marks ++ [(id,.onSessionRead)] }) s
  | .event r id _ => callback r id (handleEvent r id) s
  | .writeCallback r id =>
    callback r id (fun _ => touch r id TcpSocket.writeCallback TcpSocket.writeCallbackOps) s
  | .handOver r id k => callback r id (fun _ => touch r id (TcpSocket.handOver k) fun _ => []) s
  | .send r id ok data => touch r id (fun socket => (socket.send ok data).2) (fun _ => []) s
  | .close r id waiting => touch r id (TcpSocket.close waiting) (TcpSocket.closeOps waiting) s
  | .clearInputBuffer r id => touch r id TcpSocket.clearInputBuffer (fun _ => []) s
  | .getSession r id => if (mapped r id s).isSome then { s with held := id :: s.held } else s
  | .release id =>
    { s with
      held := s.held.filter (· ≠ id)
      detached := Function.update s.detached id none }
  | .removeSession r id =>
    { s with base.server := s.base.server.atDispatcher r (.removeSession id) }
  | .destroy =>
    { s with
      base.server := { s.base.server with dispatchers := fun _ => .create }
      detached := fun _ => none
      destroyed := true }

def step (s : System) (l : Step) : System := if s.destroyed then s else serverStep s l

def marksOf (s : System) (id : SessionId) : List Mark :=
  s.marks.filterMap fun e => if e.1 = id then some e.2 else none

def opsOf (s : System) (id : SessionId) : List SocketOp :=
  s.ops.filterMap fun e => if e.1 = id then some e.2 else none

theorem opsOf_snoc {s s' : System} {id : SessionId} {op : SocketOp}
    (h : s'.ops = s.ops ++ [(id,op)]) (i : SessionId) :
    opsOf s' i = if id = i then opsOf s i ++ [op] else opsOf s i := by
  rw [opsOf,h]
  exact filterMap_snoc s.ops id op i

theorem marksOf_snoc {s s' : System} {id : SessionId} {m : Mark}
    (h : s'.marks = s.marks ++ [(id,m)]) (i : SessionId) :
    marksOf s' i = if id = i then marksOf s i ++ [m] else marksOf s i := by
  rw [marksOf,h]
  exact filterMap_snoc s.marks id m i

theorem mem_marksOf {s : System} {id : SessionId} {m : Mark} :
    m ∈ marksOf s id ↔ (id,m) ∈ s.marks := by
  simp [marksOf]

/-- The accepted sockets, the generator, and the dispatchers of the ids. -/
structure Settled (s s' : System) : Prop where
  accepted : s'.base.accepted = s.base.accepted
  generator : s'.base.server.sessionIdGenerator = s.base.server.sessionIdGenerator
  home : ∀ id, s'.base.server.getSessionDispatcher id = s.base.server.getSessionDispatcher id

theorem put_settled (r : DispatcherRef) (id : SessionId) (session : TcpSession) (s : System) :
    Settled s (put r id session s) := by
  unfold put
  split_ifs <;> exact ⟨rfl,rfl,fun _ => rfl⟩

theorem touch_settled (r : DispatcherRef) (id : SessionId) (f : TcpSocket → TcpSocket)
    (ops : TcpSocket → List SocketOp) (s : System) : Settled s (touch r id f ops s) := by
  unfold touch
  cases find r id s with
  | none => exact ⟨rfl,rfl,fun _ => rfl⟩
  | some session =>
    obtain ⟨haccepted,hgenerator,hhome⟩ := put_settled r id
      { session with socket := f session.socket }
      { s with ops := s.ops ++ (ops session.socket).map fun op => (id,op) }
    exact ⟨haccepted,hgenerator,hhome⟩

theorem handleEvent_settled (r : DispatcherRef) (id : SessionId) (session : TcpSession)
    (s : System) : Settled s (handleEvent r id session s) := by
  unfold handleEvent
  simp only
  split_ifs
  · exact ⟨rfl,TcpServer.handleEvent_generator r id s.base.server,step_home s.base (.disconnect r id)⟩
  · cases session.dispatcher <;> exact ⟨rfl,rfl,fun _ => rfl⟩

theorem pass_base (r : DispatcherRef) (o : AttachOutcome) (s : System) :
    (pass r o s).base = AcceptedConnections.step s.base (.pass r o) := by
  unfold pass
  cases hfront : (s.base.server.dispatchers r).actions with
  | nil => simp [AcceptedConnections.step,hfront]
  | cons action rest =>
    simp only
    cases entryOf r o action with
    | attached => rfl
    | attachFailed => rfl
    | removal => cases ServerRuns.mapped r action.id s <;> rfl

theorem pass_destroyed (r : DispatcherRef) (o : AttachOutcome) (s : System) :
    (pass r o s).destroyed = s.destroyed := by
  unfold pass
  cases (s.base.server.dispatchers r).actions with
  | nil => rfl
  | cons action rest =>
    simp only
    cases entryOf r o action with
    | attached => rfl
    | attachFailed => rfl
    | removal => cases ServerRuns.mapped r action.id s <;> rfl

theorem exec_passes {r : DispatcherRef} {outcomes : ℕ → AttachOutcome}
    {run : List AcceptedConnections.Step} (hrun : ∀ l ∈ run, ∃ k, l = .pass r (outcomes k))
    {s : System} (hlive : s.destroyed = false) :
    ∃ passes : List Step, (∀ l ∈ passes, ∃ k, l = .pass r (outcomes k)) ∧
      (exec step s passes).base = exec AcceptedConnections.step s.base run := by
  induction run generalizing s with
  | nil => exact ⟨[],by simp,rfl⟩
  | cons l run ih =>
    obtain ⟨k,rfl⟩ := hrun l List.mem_cons_self
    have hstep : step s (.pass r (outcomes k)) = pass r (outcomes k) s := by
      simp [step,hlive,serverStep]
    obtain ⟨passes,hpasses,hend⟩ := ih (fun l hl => hrun l (List.mem_cons_of_mem _ hl))
      ((pass_destroyed r (outcomes k) s).trans hlive)
    refine ⟨.pass r (outcomes k)::passes,fun l hl => ?_,?_⟩
    · rcases List.mem_cons.mp hl with rfl | hl
      · exact ⟨k,rfl⟩
      · exact hpasses l hl
    · rw [exec,exec,hstep,hend,pass_base]

theorem onFrame_passes {r : DispatcherRef} {outcomes : ℕ → AttachOutcome} {s : System}
    (hlive : s.destroyed = false) {d' : TcpServerDispatcher}
    (h : TcpServerDispatcher.OnFrame r outcomes (s.base.server.dispatchers r) d') :
    ∃ passes : List Step, (∀ l ∈ passes, ∃ k, l = .pass r (outcomes k)) ∧
      (exec step s passes).base.server = s.base.server.atDispatcher r fun _ => d' := by
  obtain ⟨run,hrun,hserver⟩ := AcceptedConnections.onFrame_passes h
  obtain ⟨passes,hpasses,hbase⟩ := exec_passes hrun hlive
  exact ⟨passes,hpasses,by rw [hbase,hserver]⟩

theorem pass_settled (r : DispatcherRef) (o : AttachOutcome) (s : System) :
    Settled s (pass r o s) := by
  refine ⟨?_,?_,fun id => ?_⟩
  · rw [pass_base,AcceptedConnections.step]
    split <;> rfl
  · rw [pass_base,AcceptedConnections.step]
    split <;> rfl
  · rw [pass_base,step_home]

@[simp] theorem put_marks (r : DispatcherRef) (id : SessionId) (session : TcpSession) (s : System) :
    (put r id session s).marks = s.marks := by
  unfold put
  split_ifs <;> rfl

@[simp] theorem touch_marks (r : DispatcherRef) (id : SessionId) (f : TcpSocket → TcpSocket)
    (ops : TcpSocket → List SocketOp) (s : System) : (touch r id f ops s).marks = s.marks := by
  unfold touch
  cases find r id s with
  | none => rfl
  | some session => exact put_marks r id _ _

@[simp] theorem handleEvent_marks (r : DispatcherRef) (id : SessionId) (session : TcpSession)
    (s : System) :
    (handleEvent r id session s).marks = s.marks ++ [(id,.onSessionDisconnected)] := by
  unfold handleEvent
  simp only
  split_ifs
  · rfl
  · cases session.dispatcher <;> rfl

theorem pass_disconnected (r : DispatcherRef) (o : AttachOutcome) (s : System) (id : SessionId) :
    Disconnected (pass r o s) id ↔ Disconnected s id := by
  unfold pass
  cases (s.base.server.dispatchers r).actions with
  | nil => exact Iff.rfl
  | cons action rest =>
    simp only
    cases entryOf r o action with
    | attached => simp [Disconnected]
    | attachFailed => exact Iff.rfl
    | removal =>
      cases ServerRuns.mapped r action.id s with
      | none => exact Iff.rfl
      | some session => simp [Disconnected]

theorem callback_cases (r : DispatcherRef) (id : SessionId) (f : TcpSession → System → System)
    (s : System) :
    callback r id f s = s ∨ ∃ session, find r id s = some session ∧ ¬ Disconnected s id ∧
      callback r id f s = f session s := by
  unfold callback
  cases find r id s with
  | none => exact .inl rfl
  | some session =>
    simp only
    split_ifs with hd
    · exact .inl rfl
    · exact .inr ⟨session,rfl,hd,rfl⟩

theorem callback_disconnected {r : DispatcherRef} {id : SessionId} {f : TcpSession → System → System}
    {s : System} {i : SessionId} (h : ∀ session, Disconnected (f session s) i ↔ Disconnected s i) :
    Disconnected (callback r id f s) i ↔ Disconnected s i := by
  rcases callback_cases r id f s with hnone | ⟨session,_,_,hmade⟩
  · rw [hnone]
  · rw [hmade]
    exact h session

def Dropped (id : SessionId) (s : System) (l : Step) : Prop :=
  s.destroyed = false ∧ ∃ r events, l = .event r id events ∧ (find r id s).isSome

theorem event_disconnected (r : DispatcherRef) (id : SessionId) (s : System) (i : SessionId) :
    Disconnected (callback r id (handleEvent r id) s) i ↔
      Disconnected s i ∨ id = i ∧ (find r id s).isSome := by
  unfold callback
  cases find r id s with
  | none => simp
  | some session =>
    simp only [Option.isSome_some,and_true]
    split_ifs with hd
    · exact (or_iff_left_of_imp fun hi => hi ▸ hd).symm
    · simp [Disconnected,eq_comm]

theorem disconnected_step (id : SessionId) (s : System) (l : Step) :
    Disconnected (step s l) id ↔ Disconnected s id ∨ Dropped id s l := by
  have hquiet {s' : System} (h : Disconnected s' id ↔ Disconnected s id)
      (hl : ∀ r events, l ≠ .event r id events) :
      Disconnected s' id ↔ Disconnected s id ∨ Dropped id s l := by
    have hdropped : ¬ Dropped id s l := fun ⟨_,r,events,heq,_⟩ => hl r events heq
    rw [h,or_iff_left hdropped]
  have htouch {s' : System} (h : s'.marks = s.marks) : Disconnected s' id ↔ Disconnected s id := by
    rw [Disconnected,h,Disconnected]
  unfold step
  cases hlive : s.destroyed with
  | true => simp [Dropped,hlive]
  | false =>
    simp only [Bool.false_eq_true,if_false]
    cases l with
    | event r i events =>
      refine (event_disconnected r i s id).trans (or_congr_right ?_)
      constructor
      · rintro ⟨rfl,hs⟩
        exact ⟨hlive,r,events,rfl,hs⟩
      · rintro ⟨_,r',events',heq,hs⟩
        cases heq
        exact ⟨rfl,hs⟩
    | pass r o => exact hquiet (pass_disconnected r o s id) (by simp)
    | read r i =>
      exact hquiet (callback_disconnected fun _ => by simp [Disconnected]) (by simp)
    | writeCallback r i =>
      exact hquiet (callback_disconnected fun _ => htouch (touch_marks ..)) (by simp)
    | handOver r i k =>
      exact hquiet (callback_disconnected fun _ => htouch (touch_marks ..)) (by simp)
    | send r i ok data => exact hquiet (htouch (touch_marks ..)) (by simp)
    | close r i waiting => exact hquiet (htouch (touch_marks ..)) (by simp)
    | clearInputBuffer r i => exact hquiet (htouch (touch_marks ..)) (by simp)
    | getSession r i =>
      refine hquiet (htouch ?_) (by simp)
      simp only [serverStep]
      split_ifs <;> rfl
    | accept sock => exact hquiet Iff.rfl (by simp)
    | release i => exact hquiet Iff.rfl (by simp)
    | removeSession r i => exact hquiet Iff.rfl (by simp)
    | destroy => exact hquiet Iff.rfl (by simp)

end ServerRuns
end Translib
