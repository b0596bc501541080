import Translib.ConnectionSystem

/-! The way of every accepted connection through the queue and the map of its
dispatcher, in any interleaving of accepts, passes of frames and disconnects. -/

namespace Translib
namespace AcceptedConnections

open TransitionMachine

inductive Stage
  | pending | live | retired
  deriving DecidableEq, Repr

def Stage.rank : Stage → ℕ
  | .pending => 0
  | .live => 1
  | .retired => 2

/-- The life of the connection `id`, accepted on `sock`, whose dispatcher is `home`. -/
inductive InStage (home : DispatcherRef) (id : SessionId) (sock : SocketFd) : View → Stage → Prop
  | pending : InStage home id sock ⟨onlyAt home [⟨id,sock⟩],fun _ => none,[]⟩ .pending
  | live (removals : ℕ) (session : TcpSession) (hid : session.id = id)
      (hdispatcher : session.dispatcher = some home) (hsocket : session.socket.socket = sock) :
      InStage home id sock ⟨onlyAt home (List.replicate removals ⟨id,socketFdInvalid⟩),
        mappedAt home session,[.attached]⟩ .live
  | failed : InStage home id sock ⟨onlyAt home [],fun _ => none,[.attachFailed]⟩ .retired
  | removed (removals done : ℕ) :
      InStage home id sock ⟨onlyAt home (List.replicate removals ⟨id,socketFdInvalid⟩),
        fun _ => none,.attached :: List.replicate (done+1) .removal⟩ .retired

theorem onlyAt_cons {home r : DispatcherRef} {actions rest : List SessionAction}
    {action : SessionAction} (h : onlyAt home actions r = action::rest) :
    r = home ∧ actions = action::rest := by
  by_cases hr : r = home
  · subst hr
    exact ⟨rfl,by simpa [onlyAt] using h⟩
  · simp [onlyAt,hr] at h

theorem replicate_cons {α : Type*} {n : ℕ} {x y : α} {ys : List α} (h : List.replicate n x = y::ys) :
    ∃ m, n = m+1 ∧ y = x ∧ ys = List.replicate m x := by
  cases n with
  | zero => simp at h
  | succ m =>
    rw [List.replicate_succ] at h
    cases h
    exact ⟨m,rfl,rfl,rfl⟩

namespace View

@[simp] theorem pop_onlyAt (home : DispatcherRef) (action : SessionAction) (rest : List SessionAction)
    (session : DispatcherRef → Option TcpSession) (log : List Entry) :
    pop home ⟨onlyAt home (action::rest),session,log⟩ = ⟨onlyAt home rest,session,log⟩ := by
  simp [pop,onlyAt]

@[simp] theorem push_onlyAt (home : DispatcherRef) (action : SessionAction)
    (actions : List SessionAction) (session : DispatcherRef → Option TcpSession) (log : List Entry) :
    push home action ⟨onlyAt home actions,session,log⟩ =
      ⟨onlyAt home (actions ++ [action]),session,log⟩ := by
  simp [push,onlyAt]

@[simp] theorem map_unmapped (home : DispatcherRef) (session : TcpSession)
    (actions : DispatcherRef → List SessionAction) (log : List Entry) :
    map home (some session) ⟨actions,fun _ => none,log⟩ = ⟨actions,mappedAt home session,log⟩ := rfl

@[simp] theorem map_mapped (home : DispatcherRef) (session session' : TcpSession)
    (actions : DispatcherRef → List SessionAction) (log : List Entry) :
    map home (some session') ⟨actions,mappedAt home session,log⟩ =
      ⟨actions,mappedAt home session',log⟩ := by
  simp [map,mappedAt]

@[simp] theorem unmap_mapped (home : DispatcherRef) (session : TcpSession)
    (actions : DispatcherRef → List SessionAction) (log : List Entry) :
    map home none ⟨actions,mappedAt home session,log⟩ = ⟨actions,fun _ => none,log⟩ := by
  simp [map,mappedAt]

@[simp] theorem unmap_unmapped (home : DispatcherRef)
    (actions : DispatcherRef → List SessionAction) (log : List Entry) :
    map home none ⟨actions,fun _ => none,log⟩ = ⟨actions,fun _ => none,log⟩ := by
  simp [map]

@[simp] theorem enter_mk (actions : DispatcherRef → List SessionAction)
    (session : DispatcherRef → Option TcpSession) (log : List Entry) (e : Entry) :
    enter e ⟨actions,session,log⟩ = ⟨actions,session,log ++ [e]⟩ := rfl

end View

theorem InStage.pass {home r : DispatcherRef} {id : SessionId} {sock : SocketFd} {v : View}
    {stage : Stage} (h : InStage home id sock v stage) (hsock : sock ≠ socketFdInvalid)
    {action : SessionAction} {rest : List SessionAction} (hfront : v.actions r = action::rest)
    (o : AttachOutcome) :
    ∃ stage', stage.rank ≤ stage'.rank ∧ InStage home id sock
      (((v.pop r).map r (mapped r o action (v.session r))).enter (entryOf r o action)) stage' := by
  have hremoval := entryOf_removal r o id
  have hadd := entryOf_add r o id hsock
  have hunmapped (old : Option TcpSession) : mapped r o ⟨id,socketFdInvalid⟩ old = none := by
    simp [mapped,hremoval]
  cases h with
  | pending =>
    obtain ⟨rfl,hactions⟩ := onlyAt_cons hfront
    cases hactions
    cases hok : (TcpSession.create.attach o r id sock).1 with
    | true =>
      have hentry : entryOf r o ⟨id,sock⟩ = .attached := by rw [hadd,hok]; rfl
      obtain ⟨hid,hdispatcher⟩ := TcpSession.attach_id o r id sock .create
      refine ⟨.live,by decide,?_⟩
      simp only [mapped,hentry,View.pop_onlyAt,View.map_unmapped,View.enter_mk,List.nil_append]
      exact .live 0 _ hid hdispatcher (TcpSession.attach_socket hok)
    | false =>
      have hentry : entryOf r o ⟨id,sock⟩ = .attachFailed := by rw [hadd,hok]; rfl
      refine ⟨.retired,by decide,?_⟩
      simp only [mapped,hentry,View.pop_onlyAt,View.unmap_unmapped,View.enter_mk,List.nil_append]
      exact .failed
  | live removals session hid hdispatcher hsocket =>
    obtain ⟨rfl,hactions⟩ := onlyAt_cons hfront
    obtain ⟨removals,rfl,rfl,rfl⟩ := replicate_cons hactions
    refine ⟨.retired,by decide,?_⟩
    simp only [List.replicate_succ,hunmapped,hremoval,View.pop_onlyAt,View.unmap_mapped,View.enter_mk]
    exact .removed removals 0
  | failed =>
    obtain ⟨_,hactions⟩ := onlyAt_cons hfront
    cases hactions
  | removed removals done =>
    obtain ⟨rfl,hactions⟩ := onlyAt_cons hfront
    obtain ⟨removals,rfl,rfl,rfl⟩ := replicate_cons hactions
    refine ⟨.retired,le_rfl,?_⟩
    have hlog : (.attached :: List.replicate (done+1) Entry.removal) ++ [.removal] =
        .attached :: List.replicate (done+1+1) .removal := by
      rw [List.cons_append,← List.replicate_succ']
    rw [List.replicate_succ,View.pop_onlyAt,hunmapped,View.unmap_unmapped,hremoval,View.enter_mk,hlog]
    exact .removed removals (done+1)

theorem InStage.disconnect {home r : DispatcherRef} {id : SessionId} {sock : SocketFd} {v : View}
    {stage : Stage} (h : InStage home id sock v stage) {session : TcpSession}
    (hsession : v.session r = some session) :
    r = home ∧ session.id = id ∧ session.dispatcher = some home ∧ stage = .live ∧
      InStage home id sock
        ((v.map r (some session.handleEvent)).push home ⟨id,socketFdInvalid⟩) .live := by
  cases h with
  | pending => cases hsession
  | failed => cases hsession
  | removed => cases hsession
  | live removals session' hid hdispatcher hsocket =>
    have hr : r = home := by
      by_contra hr
      simp [mappedAt,hr] at hsession
    subst hr
    have hsame : session' = session := by simpa [mappedAt] using hsession
    subst hsame
    refine ⟨rfl,hid,hdispatcher,rfl,?_⟩
    rw [View.map_mapped,View.push_onlyAt,← List.replicate_succ']
    exact .live (removals+1) session'.handleEvent hid hdispatcher
      ((TcpSession.handleEvent_socket session').trans hsocket)

def unused : View := ⟨fun _ => [],fun _ => none,[]⟩

def ids (s : System) : List SessionId := s.accepted.map Prod.fst

/-- The invariant: the accepted ids are distinct and were given out, every other id is
unused, and every accepted connection is in some stage of its life. -/
structure Conserved (s : System) : Prop where
  distinct : (ids s).Nodup
  issued : ∀ id ∈ ids s, id ≤ s.server.sessionIdGenerator
  valid : ∀ id sock, (id,sock) ∈ s.accepted → sock ≠ socketFdInvalid
  others : ∀ id, id ∉ ids s → view s id = unused
  staged : ∀ id sock, (id,sock) ∈ s.accepted →
    ∃ stage, InStage (s.server.getSessionDispatcher id) id sock (view s id) stage

def View.stage (v : View) : Stage :=
  if v.log = [] then .pending else if v.log = [.attached] then .live else .retired

theorem InStage.stage_eq {home : DispatcherRef} {id : SessionId} {sock : SocketFd} {v : View}
    {stage : Stage} (h : InStage home id sock v stage) : stage = v.stage := by
  cases h <;> simp [View.stage]

/-- Every connection accepted so far is still there, and no further back in its life. -/
def Forward (s s' : System) : Prop :=
  s.accepted <+: s'.accepted ∧ ∀ id ∈ ids s, (view s id).stage.rank ≤ (view s' id).stage.rank

theorem forward_refl (s : System) : Forward s s := ⟨List.prefix_rfl,fun _ _ => le_rfl⟩

theorem forward_trans (s s' s'' : System) (h : Forward s s') (h' : Forward s' s'') :
    Forward s s'' := by
  refine ⟨h.1.trans h'.1,fun id hid => (h.2 id hid).trans (h'.2 id ?_)⟩
  obtain ⟨rest,hrest⟩ := h.1
  simp only [ids,← hrest,List.map_append,List.mem_append]
  exact .inl hid

theorem mem_ids {s : System} {id : SessionId} {sock : SocketFd} (h : (id,sock) ∈ s.accepted) :
    id ∈ ids s := List.mem_map.mpr ⟨(id,sock),h,rfl⟩

theorem exists_of_mem_ids {s : System} {id : SessionId} (h : id ∈ ids s) :
    ∃ sock, (id,sock) ∈ s.accepted := by
  obtain ⟨⟨_,sock⟩,hmem,rfl⟩ := List.mem_map.mp h
  exact ⟨sock,hmem⟩

theorem nextId_fresh {s : System} (hissued : ∀ id ∈ ids s, id ≤ s.server.sessionIdGenerator)
    (hgenerator : s.server.sessionIdGenerator+1 < 2^64) :
    s.server.sessionIdGenerator < s.server.nextId ∧ s.server.nextId ∉ ids s := by
  have hnext : s.server.nextId = s.server.sessionIdGenerator+1 := Nat.mod_eq_of_lt hgenerator
  have hlater : s.server.sessionIdGenerator < s.server.nextId := by
    rw [hnext]
    exact Nat.lt_succ_self _
  exact ⟨hlater,fun hid => not_le.mpr hlater (hissued _ hid)⟩

theorem ids_accept (s : System) (sock : SocketFd) :
    ids (step s (.accept sock)) = ids s ++ [s.server.nextId] := by
  simp [ids,step]

theorem accept_conserved {s : System} {sock : SocketFd} (h : Conserved s)
    (ha : Admissible s (.accept sock)) :
    Conserved (step s (.accept sock)) ∧ Forward s (step s (.accept sock)) := by
  obtain ⟨hsock,hgenerator⟩ := ha
  obtain ⟨hlater,hnew⟩ := nextId_fresh h.issued hgenerator
  have hids := ids_accept s sock
  have hold (id : SessionId) (hid : id ∈ ids s) : view (step s (.accept sock)) id = view s id := by
    rw [view_accept,if_neg (fun heq : s.server.nextId = id => hnew (heq ▸ hid))]
  refine ⟨⟨?_,?_,?_,?_,?_⟩,⟨⟨_,rfl⟩,fun id hid => by rw [hold id hid]⟩⟩
  · rw [hids]
    exact List.concat_eq_append ▸ h.distinct.concat hnew
  · intro id hid
    have hgen : (step s (.accept sock)).server.sessionIdGenerator = s.server.nextId := rfl
    rw [hids,List.mem_append,List.mem_singleton] at hid
    rw [hgen]
    rcases hid with hid | hid
    · exact (h.issued id hid).trans hlater.le
    · exact hid.le
  · intro id sock' hmem
    rcases List.mem_append.mp hmem with hmem | hmem
    · exact h.valid id sock' hmem
    · cases List.mem_singleton.mp hmem
      exact hsock
  · intro id hid
    rw [hids,List.mem_append,List.mem_singleton,not_or] at hid
    rw [view_accept,if_neg (Ne.symm hid.2)]
    exact h.others id hid.1
  · intro id sock' hmem
    rw [step_home]
    rcases List.mem_append.mp hmem with hmem | hmem
    · rw [hold id (mem_ids hmem)]
      exact h.staged id sock' hmem
    · cases List.mem_singleton.mp hmem
      rw [view_accept,if_pos rfl,h.others _ hnew]
      exact ⟨.pending,.pending⟩

theorem pass_conserved {s : System} {r : DispatcherRef} {o : AttachOutcome} (h : Conserved s)
    (ho : o.onNewSession = []) :
    Conserved (step s (.pass r o)) ∧ Forward s (step s (.pass r o)) := by
  cases hfront : (s.server.dispatchers r).actions with
  | nil =>
    have hstep : step s (.pass r o) = s := by simp [step,hfront]
    rw [hstep]
    exact ⟨h,forward_refl s⟩
  | cons action rest =>
    have hview := view_pass ho hfront
    have haccepted : (step s (.pass r o)).accepted = s.accepted := by rw [step_pass hfront]
    have hids : ids (step s (.pass r o)) = ids s := by rw [ids,haccepted,ids]
    have hgenerator : (step s (.pass r o)).server.sessionIdGenerator =
        s.server.sessionIdGenerator := by rw [step_pass hfront]; rfl
    have hqueue : (view s action.id).actions r =
        action :: rest.filter fun a => a.id = action.id := by
      simp [view,actionsOf,hfront]
    have hmoves (id : SessionId) (sock : SocketFd) (hmem : (id,sock) ∈ s.accepted) :
        ∃ stage stage', InStage (s.server.getSessionDispatcher id) id sock (view s id) stage ∧
          stage.rank ≤ stage'.rank ∧ InStage (s.server.getSessionDispatcher id) id sock
            (view (step s (.pass r o)) id) stage' := by
      obtain ⟨stage,hstage⟩ := h.staged id sock hmem
      rw [hview]
      split_ifs with hid
      · subst hid
        obtain ⟨stage',hrank,hstage'⟩ := hstage.pass (h.valid _ sock hmem) hqueue o
        exact ⟨stage,stage',hstage,hrank,hstage'⟩
      · exact ⟨stage,stage,hstage,le_rfl,hstage⟩
    refine ⟨⟨by rw [hids]; exact h.distinct,?_,?_,?_,?_⟩,⟨by rw [haccepted],?_⟩⟩
    · intro id hid
      rw [hgenerator]
      exact h.issued id (hids ▸ hid)
    · intro id sock hmem
      exact h.valid id sock (haccepted ▸ hmem)
    · intro id hid
      rw [hids] at hid
      have hne : action.id ≠ id := by
        rintro rfl
        rw [h.others _ hid] at hqueue
        cases hqueue
      rw [hview,if_neg hne]
      exact h.others id hid
    · intro id sock hmem
      obtain ⟨_,stage',_,_,hstage'⟩ := hmoves id sock (haccepted ▸ hmem)
      rw [step_home]
      exact ⟨stage',hstage'⟩
    · intro id hid
      obtain ⟨sock,hmem⟩ := exists_of_mem_ids hid
      obtain ⟨stage,stage',hstage,hrank,hstage'⟩ := hmoves id sock hmem
      rwa [hstage.stage_eq,hstage'.stage_eq] at hrank

theorem disconnect_conserved {s : System} {r : DispatcherRef} {id : SessionId} (h : Conserved s) :
    Conserved (step s (.disconnect r id)) ∧ Forward s (step s (.disconnect r id)) := by
  cases hsession : sessionOf s id r with
  | none =>
    have hget : (s.server.dispatchers r).getSession id = none := hsession
    have hstep : step s (.disconnect r id) = s := by simp [step,TcpServer.handleEvent,hget]
    rw [hstep]
    exact ⟨h,forward_refl s⟩
  | some session =>
    have hmapped : (view s id).session r = some session := hsession
    have hid : id ∈ ids s := by
      by_contra hid
      rw [h.others id hid] at hmapped
      cases hmapped
    obtain ⟨sock,hmem⟩ := exists_of_mem_ids hid
    obtain ⟨stage,hstage⟩ := h.staged id sock hmem
    obtain ⟨rfl,hsid,hhome,rfl,hlive⟩ := hstage.disconnect hmapped
    have hview := view_disconnect hsession hsid hhome
    have hgenerator :
        (step s (.disconnect (s.server.getSessionDispatcher id) id)).server.sessionIdGenerator =
          s.server.sessionIdGenerator := TcpServer.handleEvent_generator _ id s.server
    refine ⟨⟨h.distinct,?_,h.valid,?_,?_⟩,⟨List.prefix_rfl,?_⟩⟩
    · rw [hgenerator]
      exact h.issued
    · intro id' hid'
      rw [hview,if_neg (fun heq : id = id' => hid' (heq ▸ hid))]
      exact h.others id' hid'
    · intro id' sock' hmem'
      rw [step_home,hview]
      split_ifs with heq
      · subst heq
        obtain ⟨stage',hstage'⟩ := h.staged id sock' hmem'
        exact ⟨.live,(hstage'.disconnect hmapped).2.2.2.2⟩
      · exact h.staged id' sock' hmem'
    · intro id' _
      rw [hview]
      split_ifs with heq
      · subst heq
        rw [← hlive.stage_eq,← hstage.stage_eq]
      · exact le_rfl

theorem step_conserved {s : System} {l : Step} (h : Conserved s) (ha : Admissible s l) :
    Conserved (step s l) ∧ Forward s (step s l) := by
  cases l with
  | accept sock => exact accept_conserved h ha
  | pass r o => exact pass_conserved h ha
  | disconnect r id => exact disconnect_conserved h

def start (server : TcpServer) : System := ⟨server,[],[]⟩

theorem start_conserved {server : TcpServer} (hserver : ∀ r, server.dispatchers r = .create) :
    Conserved (start server) where
  distinct := List.nodup_nil
  issued := fun id hid => by cases hid
  valid := fun id sock hmem => by cases hmem
  others := fun id _ => by
    simp only [view,unused,View.mk.injEq]
    refine ⟨funext fun r => ?_,funext fun r => ?_,rfl⟩
    · simp [actionsOf,start,hserver,TcpServerDispatcher.create]
    · simp [sessionOf,start,hserver,TcpServerDispatcher.create]
  staged := fun id sock hmem => by cases hmem

theorem run_conserved {s : System} (h : Conserved s) {run : List Step}
    (hrun : Along step Admissible s run) :
    Conserved (exec step s run) ∧ Forward s (exec step s run) :=
  ⟨exec_invariant (I := Conserved) (fun _ _ hs ha => (step_conserved hs ha).1) h hrun,
    exec_monotone forward_refl forward_trans (fun _ _ hs ha => step_conserved hs ha) h hrun⟩

/-- The states a connection can be seen in: its add action is in the queue; the map has a
session for its id; a pass has failed to attach it or has removed it. -/
def Seen (s : System) (id : SessionId) (sock : SocketFd) : Stage → Prop
  | .pending => ⟨id,sock⟩ ∈ (s.server.dispatchers (s.server.getSessionDispatcher id)).actions
  | .live => (sessionOf s id (s.server.getSessionDispatcher id)).isSome
  | .retired => (id,Entry.attachFailed) ∈ s.log ∨ (id,Entry.removal) ∈ s.log

theorem mem_entriesOf {id : SessionId} {log : List (SessionId × Entry)} {e : Entry} :
    e ∈ entriesOf id log ↔ (id,e) ∈ log := by
  simp only [entriesOf,List.mem_filterMap]
  constructor
  · rintro ⟨⟨i,e'⟩,hmem,heq⟩
    by_cases hi : i = id
    · subst hi
      simp only [if_true,Option.some.injEq] at heq
      subst heq
      exact hmem
    · simp [hi] at heq
  · intro hmem
    exact ⟨(id,e),hmem,by simp⟩

theorem count_entriesOf (id : SessionId) (log : List (SessionId × Entry)) (e : Entry) :
    log.count (id,e) = (entriesOf id log).count e := by
  induction log with
  | nil => rfl
  | cons a log ih =>
    obtain ⟨i,e'⟩ := a
    by_cases hi : i = id
    · subst hi
      have hcons : entriesOf i ((i,e')::log) = e' :: entriesOf i log := by simp [entriesOf]
      rw [hcons,List.count_cons,List.count_cons,ih]
      simp
    · have hcons : entriesOf id ((i,e')::log) = entriesOf id log := by simp [entriesOf,hi]
      rw [hcons,List.count_cons,ih]
      simp [hi]

theorem seen_iff {s : System} {id : SessionId} {sock : SocketFd} {stage stage' : Stage}
    (h : InStage (s.server.getSessionDispatcher id) id sock (view s id) stage)
    (hsock : sock ≠ socketFdInvalid) : Seen s id sock stage' ↔ stage' = stage := by
  have hremovals (n : ℕ) : ⟨id,sock⟩ ∉ List.replicate n (⟨id,socketFdInvalid⟩ : SessionAction) := by
    intro hmem
    exact hsock (congrArg SessionAction.sock (List.eq_of_mem_replicate hmem))
  have hseen : Seen s id sock stage' ↔
      match stage' with
      | .pending => ⟨id,sock⟩ ∈ (view s id).actions (s.server.getSessionDispatcher id)
      | .live => ((view s id).session (s.server.getSessionDispatcher id)).isSome
      | .retired => .attachFailed ∈ (view s id).log ∨ .removal ∈ (view s id).log := by
    cases stage' with
    | pending => simp [Seen,view,actionsOf]
    | live => exact Iff.rfl
    | retired => exact or_congr mem_entriesOf.symm mem_entriesOf.symm
  rw [hseen]
  generalize view s id = v at h
  cases h <;> cases stage' <;> simp [onlyAt,mappedAt,hremovals]

theorem Conserved.log_cases {s : System} (h : Conserved s) (id : SessionId) :
    logOf s id = [] ∨ logOf s id = [.attachFailed] ∨
      ∃ n, logOf s id = .attached :: List.replicate n .removal := by
  by_cases hid : id ∈ ids s
  · obtain ⟨sock,hmem⟩ := exists_of_mem_ids hid
    obtain ⟨stage,hstage⟩ := h.staged id sock hmem
    have hlog : logOf s id = (view s id).log := rfl
    rw [hlog]
    generalize view s id = v at hstage
    cases hstage with
    | pending => exact .inl rfl
    | live => exact .inr (.inr ⟨0,rfl⟩)
    | failed => exact .inr (.inl rfl)
    | removed removals done => exact .inr (.inr ⟨done+1,rfl⟩)
  · left
    exact congrArg View.log (h.others id hid)

theorem Conserved.attached_first {s : System} (h : Conserved s) {id : SessionId}
    {before after : List (SessionId × Entry)} (hlog : s.log = before ++ (id,.removal)::after) :
    (id,.attached) ∈ before := by
  have hsplit : logOf s id = entriesOf id before ++ .removal :: entriesOf id after := by
    simp [logOf,entriesOf,hlog]
  rcases h.log_cases id with hnil | hfailed | ⟨n,hremoved⟩
  · simp [hnil] at hsplit
  · rw [hfailed,List.cons_eq_append_iff] at hsplit
    simp at hsplit
  · rw [hremoved] at hsplit
    cases hbefore : entriesOf id before with
    | nil => simp [hbefore] at hsplit
    | cons e rest =>
      rw [hbefore,List.cons_append,List.cons.injEq] at hsplit
      refine mem_entriesOf.mp ?_
      rw [hbefore,← hsplit.1]
      exact List.mem_cons_self

theorem Conserved.attached_once {s : System} (h : Conserved s) (id : SessionId) :
    s.log.count (id,.attached) ≤ 1 := by
  rw [count_entriesOf]
  change (logOf s id).count .attached ≤ 1
  rcases h.log_cases id with hlog | hlog | ⟨n,hlog⟩ <;> simp [hlog,List.count_replicate]

theorem InStage.placed {home r : DispatcherRef} {id : SessionId} {sock : SocketFd} {v : View}
    {stage : Stage} (h : InStage home id sock v stage)
    (hv : v.actions r ≠ [] ∨ (v.session r).isSome) : r = home := by
  by_contra hr
  cases h <;> simp [onlyAt,mappedAt,hr] at hv

theorem Conserved.placed {s : System} (h : Conserved s) {r : DispatcherRef} {id : SessionId}
    (hv : (view s id).actions r ≠ [] ∨ ((view s id).session r).isSome) :
    id ∈ ids s ∧ r = s.server.getSessionDispatcher id := by
  have hid : id ∈ ids s := by
    by_contra hid
    simp [h.others id hid,unused] at hv
  obtain ⟨sock,hmem⟩ := exists_of_mem_ids hid
  obtain ⟨stage,hstage⟩ := h.staged id sock hmem
  exact ⟨hid,hstage.placed hv⟩

theorem Conserved.live_session {s : System} (h : Conserved s) {r : DispatcherRef} {id : SessionId}
    {session : TcpSession} (hsession : (view s id).session r = some session) :
    session.id = id ∧ (id,session.socket.socket) ∈ s.accepted := by
  obtain ⟨hid,_⟩ := h.placed (r := r) (.inr (by rw [hsession]; rfl))
  obtain ⟨sock,hmem⟩ := exists_of_mem_ids hid
  obtain ⟨stage,hstage⟩ := h.staged id sock hmem
  generalize view s id = v at hstage hsession
  cases hstage with
  | pending => cases hsession
  | failed => cases hsession
  | removed => cases hsession
  | live removals session' hsid hdispatcher hsocket =>
    have hsame : session' = session := by
      by_cases hr : r = s.server.getSessionDispatcher id
      · subst hr
        simpa [mappedAt] using hsession
      · simp [mappedAt,hr] at hsession
    subst hsame
    rw [hsocket]
    exact ⟨hsid,hmem⟩

theorem exec_home (s : System) (run : List Step) (id : SessionId) :
    (exec step s run).server.getSessionDispatcher id = s.server.getSessionDispatcher id := by
  induction run generalizing s with
  | nil => rfl
  | cons l run ih => rw [exec,ih,step_home]

def sockets (run : List Step) : List SocketFd :=
  run.filterMap fun | .accept sock => some sock | _ => none

theorem exec_accepted (s : System) (run : List Step) :
    (exec step s run).accepted.map Prod.snd = s.accepted.map Prod.snd ++ sockets run := by
  induction run generalizing s with
  | nil => simp [exec,sockets]
  | cons l run ih =>
    rw [exec,ih]
    cases l with
    | accept sock => simp [step,sockets]
    | pass r o =>
      have hsame : (step s (.pass r o)).accepted = s.accepted := by
        simp only [step]
        cases (s.server.dispatchers r).actions <;> rfl
      rw [hsame]
      rfl
    | disconnect r id => rfl

/-- No accepted connection is lost, duplicated or misrouted, in any run of accepts, passes
of frames and disconnects from an unused server. Every accept gets an id of its own; an
id is seen at its dispatcher only, in exactly one state at any time, and moves forward
only; it is attached at most once, a live entry holds the session attached to the socket
accepted under its id, and a removal is processed after the attach. -/
theorem connections_conserved (server : TcpServer) (hserver : ∀ r, server.dispatchers r = .create)
    (earlier later : List Step)
    (hrun : Along step Admissible (start server) (earlier ++ later)) :
    let s₀ := exec step (start server) earlier
    let s := exec step s₀ later
    s.accepted.map Prod.snd = sockets (earlier ++ later) ∧ (s.accepted.map Prod.fst).Nodup ∧
    (∀ r id, ((∃ action ∈ (s.server.dispatchers r).actions, action.id = id) ∨
        ((s.server.dispatchers r).getSession id).isSome) →
      id ∈ s.accepted.map Prod.fst ∧ r = server.getSessionDispatcher id) ∧
    (∀ id sock, (id,sock) ∈ s.accepted → ∃! stage, Seen s id sock stage) ∧
    (∀ id sock stage stage', (id,sock) ∈ s₀.accepted → Seen s₀ id sock stage →
      Seen s id sock stage' → stage.rank ≤ stage'.rank) ∧
    (∀ id, s.log.count (id,.attached) ≤ 1) ∧
    (∀ r id session, (s.server.dispatchers r).getSession id = some session →
      session.id = id ∧ (id,session.socket.socket) ∈ s.accepted) ∧
    ∀ id before after, s.log = before ++ (id,.removal)::after → (id,.attached) ∈ before := by
  intro s₀ s
  obtain ⟨hearlier,hlater⟩ := (along_append step Admissible _ earlier later).mp hrun
  obtain ⟨h₀,_⟩ := run_conserved (start_conserved hserver) hearlier
  obtain ⟨h,hforward⟩ := run_conserved h₀ hlater
  have hexec : s = exec step (start server) (earlier ++ later) := (exec_append step _ _ _).symm
  have hhome (id : SessionId) :
      s.server.getSessionDispatcher id = server.getSessionDispatcher id := by
    rw [hexec,exec_home]
    rfl
  refine ⟨?_,h.distinct,?_,?_,?_,h.attached_once,fun r id session hs => h.live_session hs,
    fun id before after hlog => h.attached_first hlog⟩
  · rw [hexec,exec_accepted]
    rfl
  · intro r id hv
    rw [← hhome id]
    refine h.placed (hv.imp ?_ fun hs => hs)
    rintro ⟨action,hmem,rfl⟩
    exact List.ne_nil_of_mem (List.mem_filter.mpr ⟨hmem,by simp⟩)
  · intro id sock hmem
    obtain ⟨stage,hstage⟩ := h.staged id sock hmem
    have hsock := h.valid id sock hmem
    exact ⟨stage,(seen_iff hstage hsock).mpr rfl,fun stage' hs => (seen_iff hstage hsock).mp hs⟩
  · intro id sock stage stage' hmem hseen hseen'
    obtain ⟨_,hstage⟩ := h₀.staged id sock hmem
    obtain ⟨rest,hrest⟩ := hforward.1
    have hmem' : (id,sock) ∈ s.accepted := by
      rw [← hrest]
      exact List.mem_append_left _ hmem
    obtain ⟨_,hstage'⟩ := h.staged id sock hmem'
    have hsock := h.valid id sock hmem'
    rw [(seen_iff hstage hsock).mp hseen,(seen_iff hstage' hsock).mp hseen',hstage.stage_eq,
      hstage'.stage_eq]
    exact hforward.2 id (mem_ids hmem)

theorem connections_conserved_three :
    let server : TcpServer := ⟨0,[1,2],fun _ => .create,0⟩
    let run : List Step := [.accept 5,.accept 6,.pass 2 ⟨true,true,[]⟩,.disconnect 2 1,.accept 7,
      .pass 1 ⟨true,true,[]⟩,.pass 2 ⟨true,true,[]⟩,.pass 2 ⟨true,false,[]⟩]
    ∀ id sock, (id,sock) ∈ (exec step (start server) run).accepted →
      ∃! stage, Seen (exec step (start server) run) id sock stage := by
  intro server run
  refine (connections_conserved server (fun _ => rfl) [] run ?_).2.2.2.1
  exact ⟨⟨by decide,by decide⟩,⟨by decide,by decide⟩,rfl,trivial,⟨by decide,by decide⟩,rfl,rfl,rfl,
    trivial⟩

end AcceptedConnections
end Translib
