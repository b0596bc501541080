import Translib.AcceptedConnections
import Translib.ServerRuns

/-! The callbacks of every session, in any interleaving of frames, events and user code
that asks for no removal. -/

namespace Translib
namespace SessionCallbacks

open TransitionMachine ServerRuns
open AcceptedConnections (View InStage Conserved view onlyAt mappedAt entryOf ids)

/-- The loop threads run, with the accepts and frames of the accepted connections, and no
user code asks for the removal of a session. -/
def Admissible (s : System) : Step → Prop
  | .accept sock => AcceptedConnections.Admissible s.base (.accept sock)
  | .pass r o => AcceptedConnections.Admissible s.base (.pass r o)
  | .removeSession _ _ => False
  | .destroy => False
  | _ => True

/-- The life of the session of `id`, with what was seen of it. -/
inductive Life (home : DispatcherRef) (id : SessionId) (sock : SocketFd) : View → List Mark → Prop
  | pending : Life home id sock ⟨onlyAt home [⟨id,sock⟩],fun _ => none,[]⟩ []
  | failed : Life home id sock ⟨onlyAt home [],fun _ => none,[.attachFailed]⟩ []
  | live (n : ℕ) (session : TcpSession) (hid : session.id = id)
      (hdispatcher : session.dispatcher = some home) (hsocket : session.socket.socket = sock) :
      Life home id sock ⟨onlyAt home [],mappedAt home session,[.attached]⟩
        (.onNewSession :: List.replicate n .onSessionRead)
  | disconnected (n : ℕ) (session : TcpSession) (hid : session.id = id)
      (hdispatcher : session.dispatcher = some home) (hsocket : session.socket.socket = sock) :
      Life home id sock ⟨onlyAt home [⟨id,socketFdInvalid⟩],mappedAt home session,[.attached]⟩
        (.onNewSession :: (List.replicate n .onSessionRead ++ [.onSessionDisconnected]))
  | left (n : ℕ) :
      Life home id sock ⟨onlyAt home [],fun _ => none,[.attached,.removal]⟩
        (.onNewSession :: (List.replicate n .onSessionRead ++ [.onSessionDisconnected,.left]))

variable {home r : DispatcherRef} {id : SessionId} {sock : SocketFd} {v : View} {marks : List Mark}

theorem Life.inStage (h : Life home id sock v marks) : ∃ stage, InStage home id sock v stage := by
  cases h with
  | pending => exact ⟨.pending,.pending⟩
  | failed => exact ⟨.retired,.failed⟩
  | live n session hid hdispatcher hsocket =>
    exact ⟨.live,.live 0 session hid hdispatcher hsocket⟩
  | disconnected n session hid hdispatcher hsocket =>
    exact ⟨.live,.live 1 session hid hdispatcher hsocket⟩
  | left n => exact ⟨.retired,.removed 0 0⟩

theorem Life.in_order (h : Life home id sock v marks) :
    ∃ n, marks <+: .onNewSession :: (List.replicate n .onSessionRead ++
      [.onSessionDisconnected,.left]) := by
  cases h with
  | pending => exact ⟨0,List.nil_prefix⟩
  | failed => exact ⟨0,List.nil_prefix⟩
  | live n => exact ⟨n,List.cons_prefix_cons.mpr ⟨rfl,List.prefix_append _ _⟩⟩
  | disconnected n =>
    refine ⟨n,List.cons_prefix_cons.mpr ⟨rfl,(List.prefix_append_right_inj _).mpr ?_⟩⟩
    exact List.prefix_append [Mark.onSessionDisconnected] [.left]
  | left n => exact ⟨n,List.prefix_rfl⟩

/-- A session is in a map from its announcement to its removal. -/
theorem Life.mapped_iff (h : Life home id sock v marks) :
    (∃ r, (v.session r).isSome) ↔ .onNewSession ∈ marks ∧ .left ∉ marks := by
  have hmapped (session : TcpSession) : ∃ r, (mappedAt home session r).isSome :=
    ⟨home,by simp [mappedAt]⟩
  cases h with
  | pending => simp
  | failed => simp
  | live n session => simp [hmapped]
  | disconnected n session => simp [hmapped]
  | left n => simp

theorem Life.disconnected_of_left (h : Life home id sock v marks) (hleft : .left ∈ marks) :
    .onSessionDisconnected ∈ marks := by
  cases h with
  | pending => cases hleft
  | failed => cases hleft
  | live n => simp at hleft
  | disconnected n => simp
  | left n => simp

theorem mappedAt_eq {session session' : TcpSession} (h : mappedAt home session r = some session') :
    r = home ∧ session' = session := by
  by_cases hr : r = home
  · subst hr
    exact ⟨rfl,by simpa [mappedAt,eq_comm] using h⟩
  · simp [mappedAt,hr] at h

/-- What a pass over the action shows, with the session there is for it in the map. -/
def seen (r : DispatcherRef) (o : AttachOutcome) (action : SessionAction)
    (session : Option TcpSession) : List Mark :=
  match entryOf r o action with
  | .attached => [.onNewSession]
  | .attachFailed => []
  | .removal => if session.isSome then [.left] else []

theorem Life.pass (h : Life home id sock v marks) (hsock : sock ≠ socketFdInvalid)
    {action : SessionAction} {rest : List SessionAction} (hfront : v.actions r = action::rest)
    (o : AttachOutcome) :
    Life home id sock
      (((v.pop r).map r (AcceptedConnections.mapped r o action (v.session r))).enter
        (entryOf r o action)) (marks ++ seen r o action (v.session r)) := by
  have hadd := AcceptedConnections.entryOf_add r o id hsock
  cases h with
  | pending =>
    obtain ⟨rfl,hactions⟩ := AcceptedConnections.onlyAt_cons hfront
    cases hactions
    cases hok : (TcpSession.create.attach o r id sock).1 with
    | true =>
      have hentry : entryOf r o ⟨id,sock⟩ = .attached := by rw [hadd,hok]; rfl
      obtain ⟨hid,hdispatcher⟩ := TcpSession.attach_id o r id sock .create
      simp only [AcceptedConnections.mapped,seen,hentry,View.pop_onlyAt,View.map_unmapped,
        View.enter_mk,List.nil_append]
      exact .live 0 _ hid hdispatcher (TcpSession.attach_socket hok)
    | false =>
      have hentry : entryOf r o ⟨id,sock⟩ = .attachFailed := by rw [hadd,hok]; rfl
      simp only [AcceptedConnections.mapped,seen,hentry,View.pop_onlyAt,View.unmap_unmapped,
        View.enter_mk,List.nil_append]
      exact .failed
  | failed =>
    obtain ⟨_,hactions⟩ := AcceptedConnections.onlyAt_cons hfront
    cases hactions
  | live n session hid hdispatcher hsocket =>
    obtain ⟨_,hactions⟩ := AcceptedConnections.onlyAt_cons hfront
    cases hactions
  | disconnected n session hid hdispatcher hsocket =>
    obtain ⟨rfl,hactions⟩ := AcceptedConnections.onlyAt_cons hfront
    cases hactions
    have hentry := AcceptedConnections.entryOf_removal r o id
    have hmapped : (mappedAt r session r).isSome := by simp [mappedAt]
    simp only [AcceptedConnections.mapped,seen,hentry,hmapped,if_true,View.pop_onlyAt,
      View.unmap_mapped,View.enter_mk,List.cons_append,List.append_assoc,List.nil_append]
    exact .left n
  | left n =>
    obtain ⟨_,hactions⟩ := AcceptedConnections.onlyAt_cons hfront
    cases hactions

theorem Life.read (h : Life home id sock v marks) {session : TcpSession}
    (hsession : v.session r = some session) (hd : .onSessionDisconnected ∉ marks) :
    Life home id sock v (marks ++ [.onSessionRead]) := by
  cases h with
  | pending => cases hsession
  | failed => cases hsession
  | live n session hid hdispatcher hsocket =>
    rw [List.cons_append,← List.replicate_succ']
    exact .live (n+1) session hid hdispatcher hsocket
  | disconnected n => simp at hd
  | left n => cases hsession

theorem Life.event (h : Life home id sock v marks) {session : TcpSession}
    (hsession : v.session r = some session) (hd : .onSessionDisconnected ∉ marks) :
    session.id = id ∧ session.dispatcher = some home ∧
      Life home id sock ((v.map r (some session.handleEvent)).push home ⟨id,socketFdInvalid⟩)
        (marks ++ [.onSessionDisconnected]) := by
  cases h with
  | pending => cases hsession
  | failed => cases hsession
  | live n session' hid hdispatcher hsocket =>
    obtain ⟨rfl,rfl⟩ := mappedAt_eq hsession
    refine ⟨hid,hdispatcher,?_⟩
    rw [View.map_mapped,View.push_onlyAt,List.nil_append]
    exact .disconnected n session.handleEvent hid hdispatcher
      ((TcpSession.handleEvent_socket session).trans hsocket)
  | disconnected n => simp at hd
  | left n => cases hsession

theorem Life.touch (h : Life home id sock v marks) {session : TcpSession}
    (hsession : v.session r = some session) {socket : TcpSocket}
    (hsocket : socket.socket = session.socket.socket) :
    Life home id sock (v.map r (some { session with socket := socket })) marks := by
  cases h with
  | pending => cases hsession
  | failed => cases hsession
  | live n session' hid hdispatcher hsock =>
    obtain ⟨rfl,rfl⟩ := mappedAt_eq hsession
    rw [View.map_mapped]
    exact .live n _ hid hdispatcher (hsocket.trans hsock)
  | disconnected n session' hid hdispatcher hsock =>
    obtain ⟨rfl,rfl⟩ := mappedAt_eq hsession
    rw [View.map_mapped]
    exact .disconnected n _ hid hdispatcher (hsocket.trans hsock)
  | left n => cases hsession

/-- The invariant: every accepted connection is in its life, nothing is seen of any other id,
and a session that has left its map was disconnected. -/
structure Orderly (s : System) : Prop where
  conserved : Conserved s.base
  silent : ∀ id, id ∉ ids s.base → marksOf s id = []
  lives : ∀ id sock, (id,sock) ∈ s.base.accepted →
    Life (s.base.server.getSessionDispatcher id) id sock (view s.base id) (marksOf s id)
  detached : ∀ id, (s.detached id).isSome → Disconnected s id

theorem Orderly.act {s s' : System} (h : Orderly s) {id : SessionId} (hid : id ∈ ids s.base)
    (hsettled : Settled s s')
    (hothers : ∀ i, i ≠ id → view s'.base i = view s.base i ∧ marksOf s' i = marksOf s i ∧
      s'.detached i = s.detached i)
    (hlife : ∀ sock, (id,sock) ∈ s.base.accepted →
      Life (s.base.server.getSessionDispatcher id) id sock (view s'.base id) (marksOf s' id))
    (hdetached : (s'.detached id).isSome → Disconnected s' id) : Orderly s' := by
  have hids : ids s'.base = ids s.base := by simp only [ids,hsettled.accepted]
  have hlives (i : SessionId) (sock : SocketFd) (hmem : (i,sock) ∈ s'.base.accepted) :
      Life (s'.base.server.getSessionDispatcher i) i sock (view s'.base i) (marksOf s' i) := by
    rw [hsettled.accepted] at hmem
    rw [hsettled.home]
    by_cases hi : i = id
    · subst hi
      exact hlife sock hmem
    · obtain ⟨hview,hmarks,_⟩ := hothers i hi
      rw [hview,hmarks]
      exact h.lives i sock hmem
  have hother {i : SessionId} (hi : i ∉ ids s'.base) : i ∉ ids s.base ∧ i ≠ id := by
    rw [hids] at hi
    exact ⟨hi,fun heq => hi (heq ▸ hid)⟩
  refine ⟨⟨hids ▸ h.conserved.distinct,fun i hi => ?_,fun i sock hmem => ?_,fun i hi => ?_,
    fun i sock hmem => (hlives i sock hmem).inStage⟩,fun i hi => ?_,hlives,fun i hi => ?_⟩
  · rw [hsettled.generator]
    exact h.conserved.issued i (hids ▸ hi)
  · exact h.conserved.valid i sock (hsettled.accepted ▸ hmem)
  · obtain ⟨hold,hne⟩ := hother hi
    rw [(hothers i hne).1]
    exact h.conserved.others i hold
  · obtain ⟨hold,hne⟩ := hother hi
    rw [(hothers i hne).2.1]
    exact h.silent i hold
  · by_cases heq : i = id
    · exact heq ▸ hdetached (heq ▸ hi)
    · obtain ⟨_,hmarks,hdet⟩ := hothers i heq
      rw [Disconnected,← mem_marksOf,hmarks,mem_marksOf]
      exact h.detached i (hdet ▸ hi)

theorem Orderly.same {s s' : System} (h : Orderly s) (hbase : s'.base = s.base)
    (hmarks : s'.marks = s.marks)
    (hdetached : ∀ id, (s'.detached id).isSome → (s.detached id).isSome) : Orderly s' := by
  have hmarksOf (id : SessionId) : marksOf s' id = marksOf s id := by rw [marksOf,hmarks,marksOf]
  refine ⟨hbase ▸ h.conserved,fun id hid => ?_,fun id sock hmem => ?_,fun id hid => ?_⟩
  · rw [hmarksOf]
    exact h.silent id (hbase ▸ hid)
  · rw [hbase,hmarksOf]
    exact h.lives id sock (hbase ▸ hmem)
  · rw [Disconnected,hmarks]
    exact h.detached id (hdetached id hid)

theorem Orderly.mem_of_mapped {s : System} (h : Orderly s) {r : DispatcherRef} {id : SessionId}
    {session : TcpSession} (hm : mapped r id s = some session) : id ∈ ids s.base :=
  (h.conserved.placed (r := r) (.inr (Option.isSome_of_eq_some hm))).1

theorem Orderly.mapped_of_find {s : System} (h : Orderly s) {r : DispatcherRef} {id : SessionId}
    {session : TcpSession} (hs : find r id s = some session) (hd : ¬ Disconnected s id) :
    mapped r id s = some session := by
  rcases Option.or_eq_some_iff.mp hs with hm | ⟨_,hdetached⟩
  · exact hm
  · exact absurd (h.detached id (Option.isSome_of_eq_some hdetached)) hd

theorem accept_orderly {s : System} (h : Orderly s) {sock : SocketFd}
    (ha : Admissible s (.accept sock)) : Orderly (serverStep s (.accept sock)) := by
  have hconserved := (AcceptedConnections.accept_conserved h.conserved ha).1
  have hnew := (AcceptedConnections.nextId_fresh h.conserved.issued ha.2).2
  have hids : ids (serverStep s (.accept sock)).base = ids s.base ++ [s.base.server.nextId] :=
    AcceptedConnections.ids_accept s.base sock
  have hmarks (i : SessionId) : marksOf (serverStep s (.accept sock)) i = marksOf s i := rfl
  have hview (i : SessionId) := AcceptedConnections.view_accept s.base sock i
  refine ⟨hconserved,fun i hi => ?_,fun i sock' hmem => ?_,h.detached⟩
  · rw [hids,List.mem_append,not_or] at hi
    exact h.silent i hi.1
  · have hstep : (serverStep s (.accept sock)).base = AcceptedConnections.step s.base (.accept sock) := rfl
    rw [hmarks,hstep,AcceptedConnections.step_home,hview]
    rcases List.mem_append.mp hmem with hmem | hmem
    · have hne : s.base.server.nextId ≠ i := fun heq =>
        hnew (heq ▸ AcceptedConnections.mem_ids hmem)
      rw [if_neg hne]
      exact h.lives i sock' hmem
    · cases List.mem_singleton.mp hmem
      rw [if_pos rfl,h.conserved.others _ hnew,h.silent _ hnew]
      exact .pending

theorem pass_marksOf {s : System} {r : DispatcherRef} {action : SessionAction}
    {rest : List SessionAction} (hfront : (s.base.server.dispatchers r).actions = action::rest)
    (o : AttachOutcome) (i : SessionId) :
    marksOf (pass r o s) i =
      if action.id = i then marksOf s i ++ seen r o action (mapped r action.id s)
      else marksOf s i := by
  unfold ServerRuns.pass seen
  simp only [hfront]
  cases entryOf r o action with
  | attached => exact marksOf_snoc rfl i
  | attachFailed => simp [marksOf]
  | removal =>
    cases hm : mapped r action.id s with
    | none => simp [marksOf]
    | some session => exact marksOf_snoc rfl i

theorem pass_detached {s : System} {r : DispatcherRef} {action : SessionAction}
    {rest : List SessionAction} (hfront : (s.base.server.dispatchers r).actions = action::rest)
    (o : AttachOutcome) (i : SessionId) :
    (pass r o s).detached i = s.detached i ∨
      i = action.id ∧ .left ∈ seen r o action (mapped r action.id s) := by
  unfold ServerRuns.pass seen
  simp only [hfront]
  cases entryOf r o action with
  | attached => exact .inl rfl
  | attachFailed => exact .inl rfl
  | removal =>
    cases hm : mapped r action.id s with
    | none => exact .inl rfl
    | some session =>
      by_cases hi : i = action.id
      · exact .inr ⟨hi,by simp⟩
      · refine .inl ?_
        simp only
        split_ifs
        · exact Function.update_of_ne hi _ _
        · rfl

theorem pass_orderly {s : System} (h : Orderly s) {r : DispatcherRef} {o : AttachOutcome}
    (ho : o.onNewSession = []) : Orderly (pass r o s) := by
  cases hfront : (s.base.server.dispatchers r).actions with
  | nil =>
    have hsame : pass r o s = s := by simp [ServerRuns.pass,hfront]
    rw [hsame]
    exact h
  | cons action rest =>
    have hview (i : SessionId) := AcceptedConnections.view_pass ho hfront i
    have hmarks := pass_marksOf hfront o
    have hqueue : (view s.base action.id).actions r =
        action :: rest.filter fun a => a.id = action.id := by
      simp [view,AcceptedConnections.actionsOf,hfront]
    have hid : action.id ∈ ids s.base :=
      (h.conserved.placed (r := r) (.inl (by simp [hqueue]))).1
    have hlife (sock : SocketFd) (hmem : (action.id,sock) ∈ s.base.accepted) :
        Life (s.base.server.getSessionDispatcher action.id) action.id sock
          (view (pass r o s).base action.id) (marksOf (pass r o s) action.id) := by
      rw [pass_base,hview,hmarks,if_pos rfl,if_pos rfl]
      exact (h.lives _ sock hmem).pass (h.conserved.valid _ sock hmem) hqueue o
    refine h.act hid (pass_settled r o s) (fun i hi => ⟨?_,?_,?_⟩) hlife fun hdetached => ?_
    · rw [pass_base,hview,if_neg (Ne.symm hi)]
    · rw [hmarks,if_neg (Ne.symm hi)]
    · exact (pass_detached hfront o i).resolve_right fun hseen => hi hseen.1
    · rcases pass_detached hfront o action.id with hsame | ⟨_,hleft⟩
      · exact (pass_disconnected r o s action.id).mpr (h.detached _ (hsame ▸ hdetached))
      · obtain ⟨sock,hmem⟩ := AcceptedConnections.exists_of_mem_ids hid
        refine mem_marksOf.mp ((hlife sock hmem).disconnected_of_left ?_)
        rw [hmarks,if_pos rfl]
        exact List.mem_append_right _ hleft

theorem touch_mapped {s : System} {r : DispatcherRef} {id : SessionId} {session : TcpSession}
    (hm : mapped r id s = some session) (f : TcpSocket → TcpSocket)
    (ops : TcpSocket → List SocketOp) :
    (touch r id f ops s).base =
        { s.base with server := s.base.server.atDispatcher r fun d => { d with
          sessions := Function.update d.sessions id
            (some { session with socket := f session.socket }) } } ∧
      (touch r id f ops s).detached = s.detached := by
  have hs : find r id s = some session := by rw [find,hm,Option.some_or]
  have hput (ops' : List (SessionId × SocketOp)) :
      mapped r id { s with ops := ops' } = some session := hm
  simp [touch,hs,put,hput]

theorem touch_held {s : System} {r : DispatcherRef} {id : SessionId} {session : TcpSession}
    (hm : mapped r id s = none) (hs : s.detached id = some session) (f : TcpSocket → TcpSocket)
    (ops : TcpSocket → List SocketOp) :
    (touch r id f ops s).base = s.base ∧ (touch r id f ops s).detached =
      Function.update s.detached id (some { session with socket := f session.socket }) := by
  have hfind : find r id s = some session := by rw [find,hm,Option.none_or,hs]
  have hput (ops' : List (SessionId × SocketOp)) : mapped r id { s with ops := ops' } = none := hm
  simp [touch,hfind,put,hput]

theorem touch_orderly {s : System} (h : Orderly s) (r : DispatcherRef) (id : SessionId)
    {f : TcpSocket → TcpSocket} (hf : ∀ socket, (f socket).descriptor = socket.descriptor)
    (ops : TcpSocket → List SocketOp) : Orderly (touch r id f ops s) := by
  cases hm : mapped r id s with
  | some session =>
    obtain ⟨hbase,hdetached⟩ := touch_mapped hm f ops
    have hview (i : SessionId) := AcceptedConnections.view_map s.base r id
      (some { session with socket := f session.socket }) i
    have hmarks (i : SessionId) : marksOf (touch r id f ops s) i = marksOf s i := by
      rw [marksOf,touch_marks,marksOf]
    have hsocket : (f session.socket).socket = session.socket.socket :=
      congrArg (Option.getD · socketFdInvalid) (hf session.socket)
    refine h.act (h.mem_of_mapped hm) (touch_settled r id f ops s) (fun i hi => ⟨?_,hmarks i,?_⟩)
      (fun sock hmem => ?_) fun hdet => ?_
    · rw [hbase,hview,if_neg (Ne.symm hi)]
    · rw [hdetached]
    · rw [hbase,hview,if_pos rfl,hmarks]
      exact (h.lives id sock hmem).touch hm hsocket
    · rw [Disconnected,touch_marks]
      exact h.detached id (hdetached ▸ hdet)
  | none =>
    cases hs : s.detached id with
    | none =>
      have hfind : find r id s = none := by rw [find,hm,hs,Option.none_or]
      have hsame : touch r id f ops s = s := by simp [touch,hfind]
      rw [hsame]
      exact h
    | some session =>
      obtain ⟨hbase,hdetached⟩ := touch_held hm hs f ops
      refine h.same hbase (touch_marks r id f ops s) fun i hi => ?_
      by_cases heq : i = id
      · exact heq ▸ Option.isSome_of_eq_some hs
      · rwa [hdetached,Function.update_of_ne heq] at hi

theorem callback_orderly {s : System} (h : Orderly s) (r : DispatcherRef) (id : SessionId)
    {f : TcpSession → System → System}
    (hf : ∀ session, mapped r id s = some session → ¬ Disconnected s id → Orderly (f session s)) :
    Orderly (callback r id f s) := by
  rcases callback_cases r id f s with hnone | ⟨session,hs,hd,hmade⟩
  · rw [hnone]
    exact h
  · rw [hmade]
    exact hf session (h.mapped_of_find hs hd) hd

theorem read_orderly {s : System} (h : Orderly s) {r : DispatcherRef} {id : SessionId}
    {session : TcpSession} (hm : mapped r id s = some session) (hd : ¬ Disconnected s id) :
    Orderly { s with marks := s.marks ++ [(id,.onSessionRead)] } := by
  let read : System := { s with marks := s.marks ++ [(id,.onSessionRead)] }
  have hmarks (i : SessionId) :
      marksOf read i = if id = i then marksOf s i ++ [.onSessionRead] else marksOf s i :=
    marksOf_snoc rfl i
  refine h.act (h.mem_of_mapped hm) ⟨rfl,rfl,fun _ => rfl⟩ (fun i hi => ⟨rfl,?_,rfl⟩)
    (fun sock hmem => ?_) fun hdet => List.mem_append_left _ (h.detached id hdet)
  · rw [hmarks,if_neg (Ne.symm hi)]
  · rw [hmarks,if_pos rfl]
    exact (h.lives id sock hmem).read hm (mt mem_marksOf.mp hd)

theorem event_orderly {s : System} (h : Orderly s) {r : DispatcherRef} {id : SessionId}
    {session : TcpSession} (hm : mapped r id s = some session) (hd : ¬ Disconnected s id) :
    Orderly (handleEvent r id session s) := by
  have hid := h.mem_of_mapped hm
  obtain ⟨sock,hmem⟩ := AcceptedConnections.exists_of_mem_ids hid
  obtain ⟨hsid,hdispatcher,_⟩ := (h.lives id sock hmem).event hm (mt mem_marksOf.mp hd)
  have hview := AcceptedConnections.view_disconnect (s := s.base) hm hsid hdispatcher
  have hbase : (handleEvent r id session s).base = AcceptedConnections.step s.base (.disconnect r id) ∧
      (handleEvent r id session s).detached = s.detached := by
    have hmapped (marks : List (SessionId × Mark)) (ops : List (SessionId × SocketOp)) :
        mapped r id { s with marks := marks, ops := ops } = some session := hm
    simp [handleEvent,hmapped]
  have hmarks := marksOf_snoc (handleEvent_marks r id session s)
  refine h.act hid (handleEvent_settled r id session s) (fun i hi => ⟨?_,?_,?_⟩)
    (fun sock hmem => ?_) fun _ => ?_
  · rw [hbase.1,hview,if_neg (Ne.symm hi)]
  · rw [hmarks,if_neg (Ne.symm hi)]
  · rw [hbase.2]
  · rw [hbase.1,hview,hmarks,if_pos rfl,if_pos rfl]
    exact ((h.lives id sock hmem).event hm (mt mem_marksOf.mp hd)).2.2
  · rw [Disconnected,handleEvent_marks]
    exact List.mem_append_right _ (List.mem_singleton.mpr rfl)

theorem step_orderly {s : System} {l : Step} (h : Orderly s) (ha : Admissible s l) :
    Orderly (step s l) := by
  unfold step
  split_ifs
  · exact h
  cases l with
  | accept sock => exact accept_orderly h ha
  | pass r o => exact pass_orderly h ha
  | read r id =>
    exact callback_orderly h r id (f := fun _ s => { s with marks := s.marks ++ [(id,.onSessionRead)] })
      fun _ hm hd => read_orderly h hm hd
  | event r id events => exact callback_orderly h r id fun _ hm hd => event_orderly h hm hd
  | writeCallback r id =>
    exact callback_orderly h r id fun _ _ _ =>
      touch_orderly h r id TcpSocket.writeCallback_descriptor _
  | handOver r id k =>
    exact callback_orderly h r id fun _ _ _ =>
      touch_orderly h r id (TcpSocket.handOver_descriptor k) fun _ => []
  | send r id ok data => exact touch_orderly h r id (TcpSocket.send_descriptor ok data) fun _ => []
  | close r id waiting => exact touch_orderly h r id (TcpSocket.close_descriptor waiting) _
  | clearInputBuffer r id =>
    exact touch_orderly h r id TcpSocket.clearInputBuffer_descriptor fun _ => []
  | getSession r id =>
    simp only [serverStep]
    split_ifs
    · exact h.same rfl rfl fun _ hi => hi
    · exact h
  | release id =>
    refine h.same rfl rfl fun i hi => ?_
    by_cases heq : i = id
    · subst heq
      simp [serverStep] at hi
    · simpa [serverStep,heq] using hi
  | removeSession r id => exact ha.elim
  | destroy => exact ha.elim

theorem start_orderly {server : TcpServer} (hserver : ∀ r, server.dispatchers r = .create) :
    Orderly (start server) where
  conserved := AcceptedConnections.start_conserved hserver
  silent := fun _ _ => rfl
  lives := fun _ _ hmem => by cases hmem
  detached := fun _ hi => by cases hi

/-- What is seen of every session is in order: it is announced, read any number of times,
disconnected, and only then removed from the map, in which it is in between. -/
theorem callbacks_in_order {server : TcpServer} {run : List Step}
    (hserver : ∀ r, server.dispatchers r = .create)
    (hrun : Along step Admissible (start server) run) (id : SessionId) :
    (∃ n, marksOf (exec step (start server) run) id <+: .onNewSession ::
        (List.replicate n .onSessionRead ++ [.onSessionDisconnected,.left])) ∧
      ((∃ r, (mapped r id (exec step (start server) run)).isSome) ↔
        .onNewSession ∈ marksOf (exec step (start server) run) id ∧
          .left ∉ marksOf (exec step (start server) run) id) := by
  have h : Orderly (exec step (start server) run) :=
    exec_invariant (I := Orderly) (fun _ _ hs ha => step_orderly hs ha) (start_orderly hserver) hrun
  by_cases hid : id ∈ ids (exec step (start server) run).base
  · obtain ⟨sock,hmem⟩ := AcceptedConnections.exists_of_mem_ids hid
    have hlife := h.lives id sock hmem
    exact ⟨hlife.in_order,hlife.mapped_iff⟩
  · have hunmapped (r : DispatcherRef) : ¬ (mapped r id (exec step (start server) run)).isSome :=
      fun hm => hid (h.conserved.placed (r := r) (.inr hm)).1
    rw [h.silent id hid]
    exact ⟨⟨0,List.nil_prefix⟩,by simp [hunmapped]⟩

/-- A session that is read, disconnected, closed by user code and then removed. -/
theorem callbacks_of_removed :
    marksOf (exec step (start ⟨0,[],fun _ => .create,0⟩) [.accept 7,.pass 0 ⟨true,true,[]⟩,
        .read 0 1,.event 0 1 0x10,.close 0 1 false,.pass 0 ⟨true,true,[]⟩]) 1 =
      [.onNewSession,.onSessionRead,.onSessionDisconnected,.left] ∧
    ¬ ∃ r, (mapped r 1 (exec step (start ⟨0,[],fun _ => .create,0⟩) [.accept 7,
      .pass 0 ⟨true,true,[]⟩,.read 0 1,.event 0 1 0x10,.close 0 1 false,
      .pass 0 ⟨true,true,[]⟩])).isSome := by
  have hmarks : marksOf (exec step (start ⟨0,[],fun _ => .create,0⟩) [.accept 7,
      .pass 0 ⟨true,true,[]⟩,.read 0 1,.event 0 1 0x10,.close 0 1 false,.pass 0 ⟨true,true,[]⟩]) 1 =
        [.onNewSession,.onSessionRead,.onSessionDisconnected,.left] := by decide
  have hrun : Along step Admissible (start ⟨0,[],fun _ => .create,0⟩) [.accept 7,
      .pass 0 ⟨true,true,[]⟩,.read 0 1,.event 0 1 0x10,.close 0 1 false,.pass 0 ⟨true,true,[]⟩] :=
    ⟨⟨by decide,by simp [start]⟩,rfl,trivial,trivial,trivial,rfl,trivial⟩
  refine ⟨hmarks,fun hmapped => ?_⟩
  have hleft := ((callbacks_in_order (fun _ => rfl) hrun 1).2.mp hmapped).2
  rw [hmarks] at hleft
  exact hleft (by decide)

end SessionCallbacks
end Translib
