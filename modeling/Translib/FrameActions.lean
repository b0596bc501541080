import Translib.TcpServerDispatcher
import Translib.WorkQueue

/-! A frame works the actions off in the order they were enqueued, also those the callback of a
new session enqueues meanwhile. -/

namespace Translib
namespace FrameActions

open LoopMachine TcpServerDispatcher

def Attaches (o : AttachOutcome) (action : SessionAction) : Prop :=
  action.sock ≠ socketFdInvalid ∧ o.socketNew = true ∧ o.enable = true

instance (o : AttachOutcome) (action : SessionAction) : Decidable (Attaches o action) :=
  inferInstanceAs (Decidable (_ ∧ _ ∧ _))

def attached (this : DispatcherRef) (action : SessionAction) : TcpSession :=
  ⟨⟨some (.socketNew action.sock),false⟩,some this,action.id⟩

/-- A remove erases its id, an add that succeeds inserts it, one that fails changes nothing. -/
def applied (this : DispatcherRef) (o : AttachOutcome) (action : SessionAction)
    (sessions : SessionId → Option TcpSession) : SessionId → Option TcpSession :=
  if action.sock = socketFdInvalid then Function.update sessions action.id none
  else if Attaches o action then
    Function.update sessions action.id (some (attached this action))
  else sessions

def enqueued (o : AttachOutcome) (action : SessionAction) : List SessionAction :=
  if Attaches o action then o.onNewSession else []

theorem frontAction_eq (this : DispatcherRef) (o : AttachOutcome) {action : SessionAction}
    {rest : List SessionAction} (sessions : SessionId → Option TcpSession) :
    frontAction this o action ⟨sessions,action::rest⟩ =
      ⟨applied this o action sessions,rest ++ enqueued o action⟩ := by
  obtain ⟨socketNew,enable,onNewSession⟩ := o
  unfold frontAction applied enqueued Attaches TcpSession.attach
  by_cases hsock : action.sock = socketFdInvalid
  · simp [hsock]
  · cases socketNew <;> cases enable <;> simp [hsock,attached,TcpSession.create]

section Frame

variable (this : DispatcherRef) (outcomes : ℕ → AttachOutcome)

/-- Pass `k` works `action` off. -/
def Takes (d : TcpServerDispatcher) (k : ℕ) (action : SessionAction) : Prop :=
  ∃ d', Reaches (onFrameBody this outcomes) (d,0) (d',k) ∧ d'.actions.head? = some action

def queueBody : Body (WorkQueue.Queue SessionAction (SessionId → Option TcpSession))
    (WorkQueue.Queue SessionAction (SessionId → Option TcpSession)) :=
  WorkQueue.body (fun k => applied this (outcomes k)) (fun k => enqueued (outcomes k))

def dispatcherOf (q : WorkQueue.Queue SessionAction (SessionId → Option TcpSession)) :
    TcpServerDispatcher :=
  ⟨q.state,q.waiting⟩

theorem queueBody_maps :
    Maps (fun q => (dispatcherOf q,q.taken.length)) dispatcherOf (queueBody this outcomes)
      (onFrameBody this outcomes) := by
  rintro ⟨sessions,waiting,taken,pushed⟩
  cases waiting with
  | nil => rfl
  | cons action rest =>
    simp only [onFrameBody,queueBody,WorkQueue.body,dispatcherOf,Sum.map_inl,frontAction_eq,
      List.length_append,List.length_singleton]

theorem takes_queue (d : TcpServerDispatcher) (k : ℕ) (action : SessionAction) :
    Takes this outcomes d k action ↔
      WorkQueue.Takes (fun k => applied this (outcomes k)) (fun k => enqueued (outcomes k)) d.sessions
        d.actions k action := by
  have hreaches {y : TcpServerDispatcher × ℕ} :=
    (queueBody_maps this outcomes).reaches_iff (s := WorkQueue.start d.sessions d.actions) (u := y)
  constructor
  · rintro ⟨d',hd',hhead⟩
    obtain ⟨q,hq,hsame⟩ := hreaches.mp hd'
    cases hsame
    exact ⟨q,hq,rfl,hhead⟩
  · rintro ⟨q,hq,rfl,hhead⟩
    exact ⟨dispatcherOf q,hreaches.mpr ⟨q,hq,rfl⟩,hhead⟩

end Frame

/-- For every queue, every map, every attach outcomes and callbacks that enqueue finitely many
actions: the frame ends with an empty queue, its passes take all the actions, each once and in
the order they were enqueued in, and the sessions are what the actions make of them in turn. -/
theorem onFrame_fold (this : DispatcherRef) (outcomes : ℕ → AttachOutcome)
    (hfinite : ∃ n, ∀ k, n ≤ k → (outcomes k).onNewSession = []) (d : TcpServerDispatcher) :
    ∃ (all : List SessionAction) (d' : TcpServerDispatcher),
      OnFrame this outcomes d d' ∧ d'.actions = [] ∧
      all = d.actions ++ all.zipIdx.flatMap (fun i => enqueued (outcomes i.2) i.1) ∧
      (∀ k action, Takes this outcomes d k action ↔ all[k]? = some action) ∧
      d'.sessions =
        all.zipIdx.foldl (fun sessions i => applied this (outcomes i.2) i.1 sessions) d.sessions := by
  obtain ⟨n,hn⟩ := hfinite
  have hnone (k : ℕ) (action : SessionAction) (hk : n ≤ k) : enqueued (outcomes k) action = [] := by
    unfold enqueued
    split_ifs
    · exact hn k hk
    · rfl
  have hroom (k : ℕ) (action : SessionAction) :
      (enqueued (outcomes k) action).length ≤ (outcomes k).onNewSession.length := by
    unfold enqueued
    split_ifs
    · exact le_rfl
    · exact Nat.zero_le _
  obtain ⟨q,hq⟩ : ∃ q, Returns (queueBody this outcomes) (WorkQueue.start d.sessions d.actions) q :=
    WorkQueue.drains hnone hroom d.sessions d.actions
  obtain ⟨hreaches,hwaiting⟩ := WorkQueue.drained hq
  have horder := WorkQueue.reaches_inOrder hreaches
  have htaken := WorkQueue.taken_eq_pushed hq
  refine ⟨q.pushed,dispatcherOf q,(queueBody_maps this outcomes).returns hq,hwaiting,?_,?_,?_⟩
  · rw [← htaken]
    exact htaken.trans horder.pushed
  · intro k action
    exact (takes_queue this outcomes d k action).trans (WorkQueue.takes_iff hq k action)
  · rw [← htaken]
    exact horder.state

theorem onFrame_fold_reentrant :
    let outcomes (k : ℕ) : AttachOutcome := ⟨true,true,if k = 0 then [⟨1,-1⟩,⟨2,8⟩] else []⟩
    ∃ (all : List SessionAction) (d' : TcpServerDispatcher),
      OnFrame 0 outcomes (.addSession 1 7 .create) d' ∧ d'.actions = [] ∧
      all = [⟨1,7⟩] ++ all.zipIdx.flatMap (fun i => enqueued (outcomes i.2) i.1) ∧
      (∀ k action, Takes 0 outcomes (.addSession 1 7 .create) k action ↔ all[k]? = some action) ∧
      d'.sessions = all.zipIdx.foldl (fun sessions i => applied 0 (outcomes i.2) i.1 sessions)
        fun _ => none :=
  onFrame_fold 0 _ ⟨1,fun k hk => if_neg (by omega)⟩ (.addSession 1 7 .create)

end FrameActions
end Translib
