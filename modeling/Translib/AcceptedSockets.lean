import Translib.AcceptedConnections
import Translib.TransitionMachine
import Translib.ServerRuns

/-! The descriptor of every accepted socket, from the accept to the end of its session. -/

namespace Translib
namespace AcceptedSockets

open TransitionMachine ServerRuns Protocol

inductive Phase
  | unopened | opened | closed
  deriving DecidableEq, Repr

/-- The descriptor `sock` is opened, shut down while it is open, closed, and then left alone. -/
def next (sock : SocketFd) : Phase → SocketOp → Option Phase
  | .unopened, .opened fd => if fd = sock then some .opened else none
  | .opened, .shut fd => if fd = sock then some .opened else none
  | .opened, .closed fd => if fd = sock then some .closed else none
  | _, _ => none

/-- The generator does not wrap, and `onNewSession` may ask for removals only. -/
def Admissible (s : System) : Step → Prop
  | .accept _ => s.base.server.sessionIdGenerator+1 < 2^64
  | .pass _ o => ∀ action ∈ o.onNewSession, action.sock = socketFdInvalid
  | _ => True

/-- After the disconnect of a session, a close through a pointer to it has something to wait
for. -/
def NoLateClose (s : System) : Step → Prop
  | .close r id waiting => s.destroyed = false → Disconnected s id →
      ∀ session, find r id s = some session → waiting = true ∧ session.socket.output ≠ []
  | _ => True

def Backed (accepted : List (SessionId × SocketFd)) (id : SessionId) (session : TcpSession) : Prop :=
  ∃ sock, session.socket.descriptor = some sock ∧ sock ≠ socketFdInvalid ∧ (id,sock) ∈ accepted

structure BackedAt (accepted : List (SessionId × SocketFd)) (d : TcpServerDispatcher) : Prop where
  queued : ∀ action ∈ d.actions, action.sock ≠ socketFdInvalid → (action.id,action.sock) ∈ accepted
  mapped : ∀ id session, d.sessions id = some session → Backed accepted id session

theorem Backed.mono {accepted more : List (SessionId × SocketFd)} (h : accepted ⊆ more)
    {id : SessionId} {session : TcpSession} (hs : Backed accepted id session) :
    Backed more id session := by
  obtain ⟨sock,hsock,hvalid,hmem⟩ := hs
  exact ⟨sock,hsock,hvalid,h hmem⟩

theorem BackedAt.mono {accepted more : List (SessionId × SocketFd)} (h : accepted ⊆ more)
    {d : TcpServerDispatcher} (hd : BackedAt accepted d) : BackedAt more d :=
  ⟨fun action hmem hsock => h (hd.queued action hmem hsock),
    fun id session hs => (hd.mapped id session hs).mono h⟩

theorem create_backed (accepted : List (SessionId × SocketFd)) : BackedAt accepted .create where
  queued := fun _ hmem => absurd hmem (List.not_mem_nil)
  mapped := fun _ _ hs => absurd hs.symm (Option.some_ne_none _)

theorem addSession_backed {accepted : List (SessionId × SocketFd)} {d : TcpServerDispatcher}
    (hd : BackedAt accepted d) {id : SessionId} {sock : SocketFd} (hmem : (id,sock) ∈ accepted) :
    BackedAt accepted (d.addSession id sock) := by
  refine ⟨fun action ha hsock => ?_,hd.mapped⟩
  rcases List.mem_append.mp ha with ha | ha
  · exact hd.queued action ha hsock
  · cases List.mem_singleton.mp ha
    exact hmem

theorem removeSession_backed {accepted : List (SessionId × SocketFd)} {d : TcpServerDispatcher}
    (hd : BackedAt accepted d) (id : SessionId) : BackedAt accepted (d.removeSession id) := by
  refine ⟨fun action ha hsock => ?_,hd.mapped⟩
  rcases List.mem_append.mp ha with ha | ha
  · exact hd.queued action ha hsock
  · cases List.mem_singleton.mp ha
    exact absurd rfl hsock

theorem update_backed {accepted : List (SessionId × SocketFd)} {d : TcpServerDispatcher}
    (hd : BackedAt accepted d) {id : SessionId} {session : Option TcpSession}
    (hs : ∀ x, session = some x → Backed accepted id x) :
    BackedAt accepted { d with sessions := Function.update d.sessions id session } := by
  refine ⟨hd.queued,fun i x hx => ?_⟩
  by_cases hi : i = id
  · subst hi
    simp only [Function.update_self] at hx
    exact hs x hx
  · simp only [Function.update_of_ne hi] at hx
    exact hd.mapped i x hx

theorem attach_backed {accepted : List (SessionId × SocketFd)} {o : AttachOutcome} {r : DispatcherRef}
    {id : SessionId} {sock : SocketFd} (hok : (TcpSession.create.attach o r id sock).1 = true)
    (hmem : (id,sock) ∈ accepted) :
    Backed accepted id (TcpSession.create.attach o r id sock).2 := by
  unfold TcpSession.attach at hok ⊢
  simp only at hok ⊢
  split_ifs at hok ⊢ with hvalid
  exact ⟨sock,rfl,hvalid,hmem⟩

theorem frontAction_backed {accepted : List (SessionId × SocketFd)} {d : TcpServerDispatcher}
    (hd : BackedAt accepted d) {r : DispatcherRef} {o : AttachOutcome}
    (ho : ∀ action ∈ o.onNewSession, action.sock = socketFdInvalid) {action : SessionAction}
    (ha : action ∈ d.actions) : BackedAt accepted (d.frontAction r o action) := by
  have hqueued (action' : SessionAction) (hmem : action' ∈ (d.frontAction r o action).actions) :
      action' ∈ d.actions ∨ action' ∈ o.onNewSession := by
    unfold TcpServerDispatcher.frontAction at hmem
    simp only at hmem
    split_ifs at hmem
    · exact List.mem_append.mp (List.mem_of_mem_tail hmem)
    · exact .inl (List.mem_of_mem_tail hmem)
    · exact .inl (List.mem_of_mem_tail hmem)
  refine ⟨fun action' hmem hsock => ?_,fun id session hs => ?_⟩
  · rcases hqueued action' hmem with hmem | hmem
    · exact hd.queued action' hmem hsock
    · exact absurd (ho action' hmem) hsock
  rw [AcceptedConnections.frontAction_sessions] at hs
  have hnew (x : TcpSession)
      (hx : AcceptedConnections.mapped r o action (d.sessions action.id) = some x) :
      Backed accepted action.id x := by
    unfold AcceptedConnections.mapped AcceptedConnections.entryOf at hx
    split_ifs at hx with hsock hok
    · cases hx
      exact attach_backed hok (hd.queued action ha hsock)
    · exact hd.mapped action.id x hx
  exact (update_backed hd hnew).mapped id session hs

theorem atDispatcher_backed {accepted : List (SessionId × SocketFd)} {server : TcpServer}
    (h : ∀ r, BackedAt accepted (server.dispatchers r)) {r : DispatcherRef}
    {f : TcpServerDispatcher → TcpServerDispatcher} (hf : BackedAt accepted (f (server.dispatchers r)))
    (r' : DispatcherRef) : BackedAt accepted ((server.atDispatcher r f).dispatchers r') := by
  unfold TcpServer.atDispatcher
  by_cases hr : r' = r
  · subst hr
    simpa using hf
  · simpa [hr] using h r'

/-- All sessions there are, and those still queued, are of accepted sockets. -/
structure Stored (s : System) : Prop where
  backed : ∀ r, BackedAt s.base.accepted (s.base.server.dispatchers r)
  detached : ∀ id session, s.detached id = some session → Backed s.base.accepted id session

theorem Stored.find {s : System} (h : Stored s) {r : DispatcherRef} {id : SessionId}
    {session : TcpSession} (hs : find r id s = some session) : Backed s.base.accepted id session := by
  rcases Option.or_eq_some_iff.mp hs with hs | ⟨_,hs⟩
  · exact (h.backed r).mapped id session hs
  · exact h.detached id session hs

theorem Stored.detach {s : System} (h : Stored s) {id : SessionId} {session : Option TcpSession}
    (hs : ∀ x, session = some x → Backed s.base.accepted id x) (i : SessionId) (x : TcpSession)
    (hx : Function.update s.detached id session i = some x) : Backed s.base.accepted i x := by
  by_cases hi : i = id
  · subst hi
    rw [Function.update_self] at hx
    exact hs x hx
  · rw [Function.update_of_ne hi] at hx
    exact h.detached i x hx

theorem put_ops (r : DispatcherRef) (id : SessionId) (session : TcpSession) (s : System) :
    (put r id session s).ops = s.ops := by
  unfold put
  split_ifs <;> rfl

theorem put_stored {s : System} (h : Stored s) (r : DispatcherRef) {id : SessionId}
    {session : TcpSession} (hs : Backed s.base.accepted id session) : Stored (put r id session s) := by
  have hsome (x : TcpSession) (hx : some session = some x) : Backed s.base.accepted id x := by
    cases hx
    exact hs
  unfold put
  split_ifs
  · exact ⟨fun r' => atDispatcher_backed
      (f := fun d => { d with sessions := Function.update d.sessions id (some session) })
      h.backed (update_backed (h.backed r) hsome) r',h.detached⟩
  · exact ⟨h.backed,h.detach hsome⟩

theorem touch_spec {s : System} (h : Stored s) (r : DispatcherRef) (id : SessionId)
    {f : TcpSocket → TcpSocket} (hf : ∀ socket, (f socket).descriptor = socket.descriptor)
    (ops : TcpSocket → List SocketOp) :
    Stored (touch r id f ops s) ∧ (touch r id f ops s).ops = s.ops ++
      (((find r id s).map fun x => ops x.socket).getD []).map fun op => (id,op) := by
  unfold touch
  cases hs : find r id s with
  | none => exact ⟨h,by simp⟩
  | some session =>
    obtain ⟨sock,hsock,hvalid,hmem⟩ := h.find hs
    have hbacked : Backed s.base.accepted id { session with socket := f session.socket } :=
      ⟨sock,(hf _).trans hsock,hvalid,hmem⟩
    let recorded : System := { s with ops := s.ops ++ (ops session.socket).map fun op => (id,op) }
    have hstored : Stored recorded := ⟨h.backed,h.detached⟩
    exact ⟨put_stored hstored r hbacked,put_ops r id _ recorded⟩

theorem removeSession_stored {s : System} (h : Stored s) (r : DispatcherRef) (id : SessionId) :
    Stored { s with base.server := s.base.server.atDispatcher r (.removeSession id) } :=
  ⟨atDispatcher_backed h.backed (removeSession_backed (h.backed r) id),h.detached⟩

theorem handleEvent_backed {accepted : List (SessionId × SocketFd)} {id : SessionId}
    {session : TcpSession} (h : Backed accepted id session) : Backed accepted id session.handleEvent := by
  obtain ⟨sock,hsock,hvalid,hmem⟩ := h
  exact ⟨sock,(TcpSocket.disable_descriptor session.socket).trans hsock,hvalid,hmem⟩

theorem handleEvent_spec {s : System} (h : Stored s) {r : DispatcherRef} {id : SessionId}
    {session : TcpSession} (hs : find r id s = some session) :
    Stored (handleEvent r id session s) ∧
      (handleEvent r id session s).ops = s.ops ++ [(id,.closed session.socket.socket)] := by
  have hbacked := handleEvent_backed (h.find hs)
  unfold handleEvent
  simp only
  cases hm : mapped r id s with
  | some session' =>
    have hmap : mapped r id { s with
        marks := s.marks ++ [(id,.onSessionDisconnected)]
        ops := s.ops ++ [(id,.closed session.socket.socket)] } = some session' := hm
    have hsame : session' = session := by
      simpa [find,hm] using hs
    subst hsame
    have hget : (s.base.server.dispatchers r).getSession id = some session' := hm
    have hstored : ∀ r', BackedAt s.base.accepted ((s.base.server.atDispatcher r fun d =>
        { d with sessions := Function.update d.sessions id (some session'.handleEvent) }).dispatchers
          r') :=
      atDispatcher_backed h.backed (update_backed (h.backed r) fun x hx => by
        cases hx
        exact hbacked)
    simp only [hmap,Option.isSome_some,if_true,AcceptedConnections.step,TcpServer.handleEvent,hget]
    cases session'.dispatcher with
    | none => exact ⟨⟨hstored,h.detached⟩,trivial⟩
    | some dispatcher =>
      exact ⟨⟨atDispatcher_backed hstored (removeSession_backed (hstored dispatcher) _),h.detached⟩,
        trivial⟩
  | none =>
    have hmap : mapped r id { s with
        marks := s.marks ++ [(id,.onSessionDisconnected)]
        ops := s.ops ++ [(id,.closed session.socket.socket)] } = none := hm
    have hdetached : ∀ i x, Function.update s.detached id (some session.handleEvent) i = some x →
        Backed s.base.accepted i x :=
      h.detach fun x hx => by
        cases hx
        exact hbacked
    simp only [hmap,Option.isSome_none,Bool.false_eq_true,if_false]
    cases session.dispatcher with
    | none => exact ⟨⟨h.backed,hdetached⟩,rfl⟩
    | some dispatcher =>
      exact ⟨⟨atDispatcher_backed h.backed (removeSession_backed (h.backed dispatcher) _),hdetached⟩,
        rfl⟩

theorem pass_spec {s : System} (h : Stored s) (r : DispatcherRef) {o : AttachOutcome}
    (ho : ∀ action ∈ o.onNewSession, action.sock = socketFdInvalid) :
    Stored (pass r o s) ∧ (pass r o s).ops = s.ops := by
  unfold ServerRuns.pass
  cases hfront : (s.base.server.dispatchers r).actions with
  | nil => exact ⟨h,rfl⟩
  | cons action rest =>
    have hbase := AcceptedConnections.step_pass hfront o
    have hbacked : ∀ r', BackedAt s.base.accepted
        ((s.base.server.atDispatcher r (.frontAction r o action)).dispatchers r') :=
      atDispatcher_backed h.backed
        (frontAction_backed (h.backed r) ho (by rw [hfront]; exact List.mem_cons_self))
    simp only [hbase]
    cases AcceptedConnections.entryOf r o action with
    | attached => exact ⟨⟨hbacked,h.detached⟩,rfl⟩
    | attachFailed => exact ⟨⟨hbacked,h.detached⟩,rfl⟩
    | removal =>
      cases hm : mapped r action.id s with
      | none => exact ⟨⟨hbacked,h.detached⟩,rfl⟩
      | some session =>
        refine ⟨⟨hbacked,fun i x hx => ?_⟩,rfl⟩
        simp only at hx
        split_ifs at hx with hheld
        · refine h.detach (fun y hy => ?_) i x hx
          cases hy
          exact (h.backed r).mapped action.id session hm
        · exact h.detached i x hx

/-- Where the descriptor of an accepted socket stands, if nothing was out of order. -/
def phase (s : System) (id : SessionId) : Phase := if Disconnected s id then .closed else .opened

/-- The descriptor of every accepted socket was treated as it should be, so far. -/
def InOrder (s : System) : Prop :=
  ∀ id sock, (id,sock) ∈ s.base.accepted → sock ≠ socketFdInvalid →
    ∃ p, follow (next sock) .unopened (opsOf s id) = some p

/-- The invariant: accepted ids are distinct and given out in order, nothing is known of the
others, and an id is closed when its session is disconnected. -/
structure Ledger (s : System) : Prop where
  distinct : (AcceptedConnections.ids s.base).Nodup
  issued : ∀ id ∈ AcceptedConnections.ids s.base, id ≤ s.base.server.sessionIdGenerator
  stored : Stored s
  unissued : ∀ id, id ∉ AcceptedConnections.ids s.base → opsOf s id = [] ∧ ¬ Disconnected s id
  phased : ∀ id sock p, (id,sock) ∈ s.base.accepted →
    follow (next sock) .unopened (opsOf s id) = some p → p = phase s id

theorem Ledger.sock_unique {s : System} (h : Ledger s) {id : SessionId} {sock sock' : SocketFd}
    (hmem : (id,sock) ∈ s.base.accepted) (hmem' : (id,sock') ∈ s.base.accepted) : sock = sock' :=
  congrArg Prod.snd (List.inj_on_of_nodup_map h.distinct hmem hmem' rfl)

theorem Ledger.same {s s' : System} (h : Ledger s) (hsettled : Settled s s') (hstored : Stored s')
    (hops : s'.ops = s.ops) (hdisconnected : ∀ id, Disconnected s' id ↔ Disconnected s id) :
    Ledger s' ∧ (InOrder s' ↔ InOrder s) := by
  have hopsOf : opsOf s' = opsOf s := by
    funext id
    simp only [opsOf,hops]
  have hids : AcceptedConnections.ids s'.base = AcceptedConnections.ids s.base := by
    simp only [AcceptedConnections.ids,hsettled.accepted]
  refine ⟨⟨hids ▸ h.distinct,fun id hid => ?_,hstored,fun id hid => ?_,fun id sock p hmem hp => ?_⟩,?_⟩
  · rw [hsettled.generator]
    exact h.issued id (hids ▸ hid)
  · rw [hopsOf,hdisconnected]
    exact h.unissued id (hids ▸ hid)
  · rw [hopsOf] at hp
    simp only [phase,hdisconnected]
    exact h.phased id sock p (hsettled.accepted ▸ hmem) hp
  · simp only [InOrder,hopsOf,hsettled.accepted]

theorem Ledger.act {s s' : System} (h : Ledger s) {id : SessionId} {sock : SocketFd}
    (hmem : (id,sock) ∈ s.base.accepted) (hvalid : sock ≠ socketFdInvalid) {op : SocketOp}
    (hop : op = .shut sock ∨ op = .closed sock)
    (hsettled : Settled s s') (hstored : Stored s') (hops : s'.ops = s.ops ++ [(id,op)])
    (hdisconnected : ∀ i, Disconnected s' i ↔ Disconnected s i ∨ i = id ∧ op = .closed sock) :
    Ledger s' ∧ (InOrder s → (InOrder s' ↔ ¬ Disconnected s id)) := by
  have hopsOf := opsOf_snoc hops
  have hids : AcceptedConnections.ids s'.base = AcceptedConnections.ids s.base := by
    simp only [AcceptedConnections.ids,hsettled.accepted]
  have hother (i : SessionId) (hi : i ≠ id) : phase s' i = phase s i := by
    simp [phase,hdisconnected,hi]
  refine ⟨⟨hids ▸ h.distinct,fun i hi => ?_,hstored,fun i hi => ?_,fun i sock' p hmem' hp => ?_⟩,
    fun horder => ⟨fun horder' hd => ?_,fun hd i sock' hmem' hvalid' => ?_⟩⟩
  · rw [hsettled.generator]
    exact h.issued i (hids ▸ hi)
  · rw [hids] at hi
    have hne : i ≠ id := fun heq => hi (heq ▸ AcceptedConnections.mem_ids hmem)
    rw [hopsOf,if_neg (Ne.symm hne),hdisconnected]
    refine ⟨(h.unissued i hi).1,?_⟩
    rintro (hd | ⟨heq,_⟩)
    · exact (h.unissued i hi).2 hd
    · exact hne heq
  · rw [hsettled.accepted] at hmem'
    rw [hopsOf] at hp
    by_cases hi : id = i
    · subst hi
      cases h.sock_unique hmem hmem'
      rw [if_pos rfl] at hp
      obtain ⟨q,hq,hlast⟩ := follow_split hp
      have hphase := h.phased id sock q hmem hq
      subst hphase
      by_cases hd : Disconnected s id
      · rcases hop with rfl | rfl <;> simp [follow,next,phase,hd] at hlast
      · rcases hop with rfl | rfl <;>
          simpa [follow,next,phase,hd,hdisconnected] using hlast.symm
    · rw [if_neg hi] at hp
      rw [hother i (Ne.symm hi)]
      exact h.phased i sock' p hmem' hp
  · obtain ⟨p,hp⟩ := horder' id sock (hsettled.accepted ▸ hmem) hvalid
    rw [hopsOf,if_pos rfl] at hp
    obtain ⟨q,hq,hlast⟩ := follow_split hp
    have hphase := h.phased id sock q hmem hq
    subst hphase
    rcases hop with rfl | rfl <;> simp [follow,next,phase,hd] at hlast
  · rw [hsettled.accepted] at hmem'
    obtain ⟨p,hp⟩ := horder i sock' hmem' hvalid'
    rw [hopsOf]
    by_cases hi : id = i
    · subst hi
      cases h.sock_unique hmem hmem'
      have hphase := h.phased id sock p hmem hp
      subst hphase
      rw [if_pos rfl,follow_snoc hp]
      rcases hop with rfl | rfl <;> simp [next,phase,hd]
    · rw [if_neg hi]
      exact ⟨p,hp⟩

theorem accept_ledger {s : System} (h : Ledger s) {sock : SocketFd}
    (hgenerator : s.base.server.sessionIdGenerator+1 < 2^64) :
    Ledger (serverStep s (.accept sock)) ∧
      (InOrder s → InOrder (serverStep s (.accept sock))) := by
  obtain ⟨hlater,hnew⟩ := AcceptedConnections.nextId_fresh h.issued hgenerator
  have hids : AcceptedConnections.ids (serverStep s (.accept sock)).base =
      AcceptedConnections.ids s.base ++ [s.base.server.nextId] :=
    AcceptedConnections.ids_accept s.base sock
  have hopsOf (i : SessionId) : opsOf (serverStep s (.accept sock)) i =
      if s.base.server.nextId = i then opsOf s i ++ [.opened sock] else opsOf s i := opsOf_snoc rfl i
  have hfirst : opsOf (serverStep s (.accept sock)) s.base.server.nextId = [.opened sock] := by
    rw [hopsOf,if_pos rfl,(h.unissued _ hnew).1]
    rfl
  have hsub : s.base.accepted ⊆ s.base.accepted ++ [(s.base.server.nextId,sock)] :=
    List.subset_append_left _ _
  have hold {i : SessionId} {sock' : SocketFd} (hmem : (i,sock') ∈ s.base.accepted) :
      s.base.server.nextId ≠ i := fun heq => hnew (heq ▸ AcceptedConnections.mem_ids hmem)
  refine ⟨⟨?_,fun i hi => ?_,⟨?_,fun i x hx => (h.stored.detached i x hx).mono hsub⟩,fun i hi => ?_,
    fun i sock' p hmem hp => ?_⟩,fun horder i sock' hmem hvalid => ?_⟩
  · rw [hids]
    exact List.concat_eq_append ▸ h.distinct.concat hnew
  · change i ≤ s.base.server.nextId
    rw [hids,List.mem_append,List.mem_singleton] at hi
    rcases hi with hi | hi
    · exact (h.issued i hi).trans hlater.le
    · exact hi.le
  · have hmem : (s.base.server.nextId,sock) ∈ s.base.accepted ++ [(s.base.server.nextId,sock)] :=
      List.mem_append_right _ (List.mem_singleton.mpr rfl)
    have hbacked (r : DispatcherRef) :
        BackedAt (s.base.accepted ++ [(s.base.server.nextId,sock)]) (s.base.server.dispatchers r) :=
      (h.stored.backed r).mono hsub
    let server : TcpServer := { s.base.server with sessionIdGenerator := s.base.server.nextId }
    have hserver : ∀ r, BackedAt (s.base.accepted ++ [(s.base.server.nextId,sock)])
        (server.dispatchers r) := hbacked
    exact atDispatcher_backed hserver (addSession_backed (hbacked _) hmem)
  · rw [hids,List.mem_append,List.mem_singleton,not_or] at hi
    rw [hopsOf,if_neg (Ne.symm hi.2)]
    exact h.unissued i hi.1
  · rcases List.mem_append.mp hmem with hmem | hmem
    · rw [hopsOf,if_neg (hold hmem)] at hp
      exact h.phased i sock' p hmem hp
    · cases List.mem_singleton.mp hmem
      have hd : ¬ Disconnected (serverStep s (.accept sock)) s.base.server.nextId :=
        (h.unissued _ hnew).2
      rw [hfirst] at hp
      rw [phase,if_neg hd]
      simpa [follow,next] using hp.symm
  · rcases List.mem_append.mp hmem with hmem | hmem
    · rw [hopsOf,if_neg (hold hmem)]
      exact horder i sock' hmem hvalid
    · cases List.mem_singleton.mp hmem
      exact ⟨.opened,by rw [hfirst]; simp [follow,next]⟩

theorem touch_ledger {s : System} (h : Ledger s) (r : DispatcherRef) (id : SessionId)
    {f : TcpSocket → TcpSocket} (hf : ∀ socket, (f socket).descriptor = socket.descriptor)
    {ops : TcpSocket → List SocketOp}
    (hops : ∀ socket, ops socket = [] ∨ ∃ fd, socket.descriptor = some fd ∧ ops socket = [.shut fd]) :
    Ledger (touch r id f ops s) ∧ (InOrder s → (InOrder (touch r id f ops s) ↔
      (Disconnected s id → ∀ session, find r id s = some session → ops session.socket = []))) := by
  have hsettled := touch_settled r id f ops s
  obtain ⟨hstored,hrecorded⟩ := touch_spec h.stored r id hf ops
  have hdisconnected (i : SessionId) : Disconnected (touch r id f ops s) i ↔ Disconnected s i := by
    rw [Disconnected,touch_marks,Disconnected]
  have hnone (hempty : ∀ session, find r id s = some session → ops session.socket = [])
      (hsame : (touch r id f ops s).ops = s.ops) :
      Ledger (touch r id f ops s) ∧ (InOrder s → (InOrder (touch r id f ops s) ↔
        (Disconnected s id → ∀ session, find r id s = some session → ops session.socket = []))) := by
    obtain ⟨hledger,horder⟩ := h.same hsettled hstored hsame hdisconnected
    exact ⟨hledger,fun hs => ⟨fun _ _ => hempty,fun _ => horder.mpr hs⟩⟩
  cases hs : find r id s with
  | none => exact hs ▸ hnone (by simp [hs]) (by simpa [hs] using hrecorded)
  | some session =>
    rcases hops session.socket with hempty | ⟨fd,hfd,hshut⟩
    · exact hs ▸ hnone (by simp [hs,hempty]) (by simpa [hs,hempty] using hrecorded)
    · obtain ⟨sock,hsock,hvalid,hmem⟩ := h.stored.find hs
      cases hfd.symm.trans hsock
      obtain ⟨hledger,horder⟩ := h.act hmem hvalid (.inl rfl) hsettled hstored
        (by simpa [hs,hshut] using hrecorded) (fun i => by simp [hdisconnected])
      refine ⟨hledger,fun hin => (horder hin).trans ⟨fun hd hd' => absurd hd' hd,fun hcond hd => ?_⟩⟩
      have hempty := hcond hd session rfl
      rw [hshut] at hempty
      cases hempty

theorem callback_ledger {s : System} (h : Ledger s) (r : DispatcherRef) (id : SessionId)
    {f : TcpSession → System → System}
    (hf : ∀ session, find r id s = some session → ¬ Disconnected s id →
      Ledger (f session s) ∧ (InOrder s → InOrder (f session s))) :
    Ledger (callback r id f s) ∧ (InOrder s → InOrder (callback r id f s)) := by
  rcases callback_cases r id f s with hnone | ⟨session,hs,hd,hmade⟩
  · rw [hnone]
    exact ⟨h,fun hin => hin⟩
  · rw [hmade]
    exact hf session hs hd

theorem closeOps_eq_nil {socket : TcpSocket} {fd : SocketFd} (h : socket.descriptor = some fd)
    (waiting : Bool) : socket.closeOps waiting = [] ↔ waiting = true ∧ socket.output ≠ [] := by
  obtain ⟨bev,closing⟩ := socket
  cases bev with
  | none => cases h
  | some b => cases waiting <;> simp [TcpSocket.closeOps,TcpSocket.output,List.length_pos_iff]

theorem close_ledger {s : System} (h : Ledger s) (r : DispatcherRef) (id : SessionId) (waiting : Bool)
    (hlive : s.destroyed = false) :
    Ledger (serverStep s (.close r id waiting)) ∧
      (InOrder s → (InOrder (serverStep s (.close r id waiting)) ↔
        NoLateClose s (.close r id waiting))) := by
  obtain ⟨hledger,horder⟩ := touch_ledger h r id (TcpSocket.close_descriptor waiting)
    (TcpSocket.closeOps_cases waiting)
  refine ⟨hledger,fun hin => (horder hin).trans ?_⟩
  simp only [NoLateClose,hlive,true_imp_iff]
  refine imp_congr_right fun _ => forall_congr' fun session => imp_congr_right fun hs => ?_
  obtain ⟨_,hsock,_⟩ := h.stored.find hs
  exact closeOps_eq_nil hsock waiting

theorem event_ledger {s : System} (h : Ledger s) (r : DispatcherRef) (id : SessionId) (events : ℕ) :
    Ledger (serverStep s (.event r id events)) ∧
      (InOrder s → InOrder (serverStep s (.event r id events))) := by
  refine callback_ledger h r id fun session hs hd => ?_
  obtain ⟨hstored,hops⟩ := handleEvent_spec h.stored hs
  obtain ⟨sock,hsock,hvalid,hmem⟩ := h.stored.find hs
  have hfd : session.socket.socket = sock := by
    rw [TcpSocket.socket]
    exact congrArg (Option.getD · socketFdInvalid) hsock
  rw [hfd] at hops
  obtain ⟨hledger,horder⟩ := h.act hmem hvalid (.inr rfl)
    (handleEvent_settled r id session s) hstored hops
    (fun i => by simp [Disconnected])
  exact ⟨hledger,fun hin => (horder hin).mpr hd⟩

theorem quiet_ledger {s : System} (h : Ledger s) (r : DispatcherRef) (id : SessionId)
    {f : TcpSocket → TcpSocket} (hf : ∀ socket, (f socket).descriptor = socket.descriptor) :
    Ledger (touch r id f (fun _ => []) s) ∧ (InOrder s → InOrder (touch r id f (fun _ => []) s)) := by
  have hnone (socket : TcpSocket) : (fun _ : TcpSocket => ([] : List SocketOp)) socket = [] ∨
      ∃ fd, socket.descriptor = some fd ∧
        (fun _ : TcpSocket => ([] : List SocketOp)) socket = [.shut fd] := .inl rfl
  obtain ⟨hledger,horder⟩ := touch_ledger h r id hf hnone
  exact ⟨hledger,fun hin => (horder hin).mpr fun _ _ _ => rfl⟩

theorem serverStep_ledger {s : System} {l : Step} (h : Ledger s) (ha : Admissible s l)
    (hlive : s.destroyed = false) :
    Ledger (serverStep s l) ∧ (InOrder s → (InOrder (serverStep s l) ↔ NoLateClose s l)) := by
  have hkept {s' : System} (hkeep : Ledger s' ∧ (InOrder s → InOrder s')) :
      Ledger s' ∧ (InOrder s → (InOrder s' ↔ True)) :=
    ⟨hkeep.1,fun hin => iff_true_intro (hkeep.2 hin)⟩
  have hsame {s' : System} (hkeep : Ledger s' ∧ (InOrder s' ↔ InOrder s)) :
      Ledger s' ∧ (InOrder s → (InOrder s' ↔ True)) := hkept ⟨hkeep.1,hkeep.2.mpr⟩
  cases l with
  | accept sock => exact hkept (accept_ledger h ha)
  | pass r o =>
    obtain ⟨hstored,hops⟩ := pass_spec h.stored r ha
    exact hsame (h.same (pass_settled r o s) hstored hops (pass_disconnected r o s))
  | read r id =>
    let read : System := { s with marks := s.marks ++ [(id,.onSessionRead)] }
    obtain ⟨hledger,horder⟩ : Ledger read ∧ (InOrder read ↔ InOrder s) :=
      h.same ⟨rfl,rfl,fun _ => rfl⟩ ⟨h.stored.backed,h.stored.detached⟩ rfl fun i => by simp [read,Disconnected]
    exact hkept (callback_ledger h r id (f := fun _ s => { s with
      marks := s.marks ++ [(id,.onSessionRead)] }) fun _ _ _ => ⟨hledger,horder.mpr⟩)
  | event r id events => exact hkept (event_ledger h r id events)
  | writeCallback r id =>
    refine hkept (callback_ledger h r id fun session hs hd => ?_)
    obtain ⟨hledger,horder⟩ := touch_ledger h r id TcpSocket.writeCallback_descriptor
      TcpSocket.writeCallbackOps_cases
    exact ⟨hledger,fun hin => (horder hin).mpr fun hd' => absurd hd' hd⟩
  | handOver r id k =>
    exact hkept (callback_ledger h r id fun _ _ _ =>
      quiet_ledger h r id (TcpSocket.handOver_descriptor k))
  | send r id ok data => exact hkept (quiet_ledger h r id (TcpSocket.send_descriptor ok data))
  | close r id waiting => exact close_ledger h r id waiting hlive
  | clearInputBuffer r id => exact hkept (quiet_ledger h r id TcpSocket.clearInputBuffer_descriptor)
  | getSession r id =>
    simp only [serverStep]
    split_ifs
    · exact hsame (h.same ⟨rfl,rfl,fun _ => rfl⟩ ⟨h.stored.backed,h.stored.detached⟩ rfl fun _ => Iff.rfl)
    · exact hkept ⟨h,fun hin => hin⟩
  | release id =>
    exact hsame (h.same ⟨rfl,rfl,fun _ => rfl⟩ ⟨h.stored.backed,h.stored.detach fun x hx => by cases hx⟩ rfl
      fun _ => Iff.rfl)
  | removeSession r id =>
    exact hsame (h.same ⟨rfl,rfl,fun _ => rfl⟩ (removeSession_stored h.stored r id) rfl fun _ => Iff.rfl)
  | destroy =>
    exact hsame (h.same ⟨rfl,rfl,fun _ => rfl⟩ ⟨fun _ => create_backed _,fun id session hs => by cases hs⟩ rfl
      fun _ => Iff.rfl)

theorem step_ledger {s : System} {l : Step} (h : Ledger s) (ha : Admissible s l) :
    Ledger (step s l) ∧ (InOrder s → (InOrder (step s l) ↔ NoLateClose s l)) := by
  unfold step
  cases hlive : s.destroyed with
  | false =>
    simp only [Bool.false_eq_true,if_false]
    exact serverStep_ledger h ha hlive
  | true =>
    simp only [if_true]
    refine ⟨h,fun hin => iff_of_true hin ?_⟩
    cases l <;> simp [NoLateClose,hlive]

theorem start_ledger {server : TcpServer} (hserver : ∀ r, server.dispatchers r = .create) :
    Ledger (start server) where
  distinct := List.nodup_nil
  issued := fun id hid => by cases hid
  stored := ⟨fun r => (hserver r).symm ▸ create_backed [],fun id session hs => by cases hs⟩
  unissued := fun id _ => ⟨rfl,List.not_mem_nil⟩
  phased := fun id sock p hmem => by cases hmem

theorem follow_closed_iff {sock : SocketFd} {ms : List SocketOp} :
    follow (next sock) .closed ms = some .closed ↔ ms = [] := by
  cases ms with
  | nil => simp [follow]
  | cons m ms => simp [follow,next]

theorem follow_opened_iff {sock : SocketFd} {ms : List SocketOp} :
    follow (next sock) .opened ms = some .closed ↔
      ∃ n, ms = List.replicate n (.shut sock) ++ [.closed sock] := by
  induction ms with
  | nil => simp [follow]
  | cons m ms ih =>
    constructor
    · intro h
      cases m with
      | opened fd => simp [follow,next] at h
      | shut fd =>
        by_cases hfd : fd = sock
        · subst hfd
          obtain ⟨n,hn⟩ := ih.mp (by simpa [follow,next] using h)
          exact ⟨n+1,by rw [hn,List.replicate_succ,List.cons_append]⟩
        · simp [follow,next,hfd] at h
      | closed fd =>
        by_cases hfd : fd = sock
        · subst hfd
          have hms : ms = [] := follow_closed_iff.mp (by simpa [follow,next] using h)
          exact ⟨0,by rw [hms]; rfl⟩
        · simp [follow,next,hfd] at h
    · rintro ⟨n,hn⟩
      cases n with
      | zero =>
        cases hn
        simp [follow,next]
      | succ n =>
        rw [List.replicate_succ,List.cons_append,List.cons.injEq] at hn
        obtain ⟨rfl,hrest⟩ := hn
        simpa [follow,next] using ih.mpr ⟨n,hrest⟩

/-- The descriptor was closed exactly once, and not touched afterwards. -/
def ClosedOnce (sock : SocketFd) (ops : List SocketOp) : Prop :=
  ∃ n, ops = .opened sock :: (List.replicate n (.shut sock) ++ [.closed sock])

theorem closedOnce_iff {sock : SocketFd} {ops : List SocketOp} :
    ClosedOnce sock ops ↔ follow (next sock) .unopened ops = some .closed := by
  cases ops with
  | nil => simp [ClosedOnce,follow]
  | cons op ops =>
    constructor
    · rintro ⟨n,hn⟩
      obtain ⟨rfl,hrest⟩ := List.cons.inj hn
      simpa [follow,next] using follow_opened_iff.mpr ⟨n,hrest⟩
    · intro h
      cases op with
      | shut fd => simp [follow,next] at h
      | closed fd => simp [follow,next] at h
      | opened fd =>
        by_cases hfd : fd = sock
        · subst hfd
          obtain ⟨n,hn⟩ := follow_opened_iff.mp (by simpa [follow,next] using h)
          exact ⟨n,by rw [hn]⟩
        · simp [follow,next,hfd] at h

def Extends (s s' : System) : Prop := s.base.accepted <+: s'.base.accepted ∧ s.ops <+: s'.ops

theorem extends_refl (s : System) : Extends s s := ⟨List.prefix_rfl,List.prefix_rfl⟩

theorem extends_trans (s s' s'' : System) (h : Extends s s') (h' : Extends s' s'') : Extends s s'' :=
  ⟨h.1.trans h'.1,h.2.trans h'.2⟩

theorem touch_extends (r : DispatcherRef) (id : SessionId) (f : TcpSocket → TcpSocket)
    (ops : TcpSocket → List SocketOp) (s : System) : Extends s (touch r id f ops s) := by
  unfold touch
  cases find r id s with
  | none => exact extends_refl s
  | some session =>
    unfold put
    simp only
    split_ifs <;> exact ⟨List.prefix_rfl,List.prefix_append _ _⟩

theorem callback_extends (r : DispatcherRef) (id : SessionId) {f : TcpSession → System → System}
    {s : System} (h : ∀ session, Extends s (f session s)) : Extends s (callback r id f s) := by
  rcases callback_cases r id f s with hnone | ⟨session,_,_,hmade⟩
  · rw [hnone]
    exact extends_refl s
  · rw [hmade]
    exact h session

theorem handleEvent_extends (r : DispatcherRef) (id : SessionId) (session : TcpSession) (s : System) :
    Extends s (handleEvent r id session s) := by
  unfold handleEvent
  simp only
  split_ifs
  · exact ⟨List.prefix_rfl,List.prefix_append _ _⟩
  · cases session.dispatcher <;> exact ⟨List.prefix_rfl,List.prefix_append _ _⟩

theorem pass_extends (r : DispatcherRef) (o : AttachOutcome) (s : System) :
    Extends s (pass r o s) := by
  unfold ServerRuns.pass
  cases hfront : (s.base.server.dispatchers r).actions with
  | nil => exact extends_refl s
  | cons action rest =>
    simp only [AcceptedConnections.step_pass hfront o]
    cases AcceptedConnections.entryOf r o action with
    | attached => exact ⟨List.prefix_rfl,List.prefix_rfl⟩
    | attachFailed => exact ⟨List.prefix_rfl,List.prefix_rfl⟩
    | removal => cases mapped r action.id s <;> exact ⟨List.prefix_rfl,List.prefix_rfl⟩

theorem step_extends (s : System) (l : Step) : Extends s (step s l) := by
  unfold step
  split_ifs
  · exact extends_refl s
  cases l with
  | accept sock => exact ⟨List.prefix_append _ _,List.prefix_append _ _⟩
  | pass r o => exact pass_extends r o s
  | read r id => exact callback_extends r id fun _ => ⟨List.prefix_rfl,List.prefix_rfl⟩
  | event r id events => exact callback_extends r id fun session => handleEvent_extends r id session s
  | writeCallback r id => exact callback_extends r id fun _ => touch_extends r id _ _ s
  | handOver r id k => exact callback_extends r id fun _ => touch_extends r id _ _ s
  | send r id ok data => exact touch_extends r id _ _ s
  | close r id waiting => exact touch_extends r id _ _ s
  | clearInputBuffer r id => exact touch_extends r id _ _ s
  | getSession r id =>
    simp only [serverStep]
    split_ifs <;> exact extends_refl s
  | release id => exact extends_refl s
  | removeSession r id => exact extends_refl s
  | destroy => exact extends_refl s

theorem exec_extends (s : System) (run : List Step) : Extends s (exec step s run) :=
  exec_monotone (I := fun _ => True) extends_refl extends_trans
    (fun s l _ _ => ⟨trivial,step_extends s l⟩) trivial (along_true step s run)

/-- Where every descriptor was closed once at the end, it was treated as it should be throughout. -/
theorem inOrder_of_closedOnce {s : System} {run : List Step}
    (h : ∀ id sock, (id,sock) ∈ (exec step s run).base.accepted → sock ≠ socketFdInvalid →
      ClosedOnce sock (opsOf (exec step s run) id)) : Always step InOrder s run := by
  rintro pre ⟨rest,rfl⟩ id sock hmem hvalid
  rw [exec_append] at h
  obtain ⟨haccepted,more,hmore⟩ := exec_extends (exec step s pre) rest
  have hclosed := closedOnce_iff.mp (h id sock (haccepted.subset hmem) hvalid)
  rw [opsOf,← hmore,List.filterMap_append] at hclosed
  obtain ⟨p,hp,_⟩ := follow_split hclosed
  exact ⟨p,hp⟩

/-- Every accepted socket is closed exactly once, and not touched afterwards, in the runs in
which the event callback of every accepted connection runs, and no session is closed after
it with nothing to wait for. -/
theorem closed_once_iff {server : TcpServer} {run : List Step}
    (hserver : ∀ r, server.dispatchers r = .create)
    (hrun : Along step Admissible (start server) run) :
    (∀ id sock, (id,sock) ∈ (exec step (start server) run).base.accepted → sock ≠ socketFdInvalid →
        ClosedOnce sock (opsOf (exec step (start server) run) id)) ↔
      (∀ id sock, (id,sock) ∈ (exec step (start server) run).base.accepted →
          sock ≠ socketFdInvalid → Sometime step (Dropped id) (start server) run) ∧
        Along step NoLateClose (start server) run := by
  have hledger : Ledger (exec step (start server) run) :=
    exec_invariant (I := Ledger) (fun _ _ hs ha => (step_ledger hs ha).1) (start_ledger hserver) hrun
  have halways : Always step InOrder (start server) run ↔
      Along step NoLateClose (start server) run :=
    always_iff_along (J := Ledger)
      (fun s l hs hin ha => ⟨(step_ledger hs ha).1,(step_ledger hs ha).2 hin⟩)
      (start_ledger hserver) (fun id sock hmem => by cases hmem) hrun
  have hdropped (id : SessionId) : Disconnected (exec step (start server) run) id ↔
      Sometime step (Dropped id) (start server) run := by
    have hfresh : ¬ Disconnected (start server) id := List.not_mem_nil
    rw [exec_iff_sometime (I := fun s => Disconnected s id) (disconnected_step id),
      or_iff_right hfresh]
  constructor
  · intro h
    refine ⟨fun id sock hmem hvalid => (hdropped id).mp ?_,halways.mp (inOrder_of_closedOnce h)⟩
    by_contra hd
    have hphase := hledger.phased id sock .closed hmem (closedOnce_iff.mp (h id sock hmem hvalid))
    rw [phase,if_neg hd] at hphase
    cases hphase
  · rintro ⟨hall,hquiet⟩ id sock hmem hvalid
    have hd := (hdropped id).mpr (hall id sock hmem hvalid)
    obtain ⟨p,hp⟩ := halways.mpr hquiet run List.prefix_rfl id sock hmem hvalid
    have hphase := hledger.phased id sock p hmem hp
    rw [phase,if_pos hd] at hphase
    exact closedOnce_iff.mpr (hphase ▸ hp)

/-- A session that is closed, then disconnected and removed. -/
theorem closed_once_removed :
    ClosedOnce 7 (opsOf (exec step (start ⟨0,[],fun _ => .create,0⟩) [.accept 7,
      .pass 0 ⟨true,true,[]⟩,.close 0 1 false,.event 0 1 0x10,.pass 0 ⟨true,true,[]⟩,.destroy]) 1) := by
  have hrun : Along step Admissible (start ⟨0,[],fun _ => .create,0⟩) [.accept 7,
      .pass 0 ⟨true,true,[]⟩,.close 0 1 false,.event 0 1 0x10,.pass 0 ⟨true,true,[]⟩,.destroy] :=
    ⟨by simp [Admissible,start],by simp [Admissible],trivial,trivial,by simp [Admissible],trivial,trivial⟩
  refine (closed_once_iff (fun _ => rfl) hrun).mpr ⟨fun id sock hmem _ => ?_,?_⟩ 1 7
    (List.mem_singleton.mpr rfl) (by decide)
  · cases List.mem_singleton.mp hmem
    exact .inr (.inr (.inr (.inl ⟨rfl,0,0x10,rfl,rfl⟩)))
  · exact ⟨trivial,trivial,fun _ hd => absurd hd (by decide),trivial,trivial,trivial,trivial⟩

/-- A descriptor whose attach fails is never closed; a close after the disconnect shuts down
a number that was closed. -/
theorem accepted_socket_leaks :
    (¬ ∀ run, Along step Admissible (start ⟨0,[],fun _ => .create,0⟩) run →
      (exec step (start ⟨0,[],fun _ => .create,0⟩) run).destroyed = true →
      ∀ id sock, (id,sock) ∈ (exec step (start ⟨0,[],fun _ => .create,0⟩) run).base.accepted →
        sock ≠ socketFdInvalid →
        ClosedOnce sock (opsOf (exec step (start ⟨0,[],fun _ => .create,0⟩) run) id)) ∧
    opsOf (exec step (start ⟨0,[],fun _ => .create,0⟩) [.accept 7,.pass 0 ⟨true,false,[]⟩,.destroy]) 1 =
      [.opened 7] ∧
    opsOf (exec step (start ⟨0,[],fun _ => .create,0⟩) [.accept 7,.pass 0 ⟨true,true,[]⟩,
      .event 0 1 0x10,.close 0 1 false,.pass 0 ⟨true,true,[]⟩,.destroy]) 1 =
        [.opened 7,.closed 7,.shut 7] := by
  have hleak : opsOf (exec step (start ⟨0,[],fun _ => .create,0⟩) [.accept 7,
      .pass 0 ⟨true,false,[]⟩,.destroy]) 1 = [.opened 7] := by decide
  refine ⟨fun h => ?_,hleak,by decide⟩
  obtain ⟨n,hn⟩ := h [.accept 7,.pass 0 ⟨true,false,[]⟩,.destroy]
    ⟨by simp [Admissible,start],by simp [Admissible],trivial,trivial⟩ rfl 1 7
    (List.mem_singleton.mpr rfl) (by decide)
  rw [hleak] at hn
  simp at hn

end AcceptedSockets
end Translib
