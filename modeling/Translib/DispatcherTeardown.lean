import Translib.ForeverTimers
import Translib.TcpServerDispatcher
import Translib.ThreadJoins

/-! The destruction of a dispatcher, member by member, while its loop thread may run. -/

namespace Translib
namespace DispatcherTeardown

open TransitionMachine Timer ForeverTimers

/-- The members and base classes of a dispatcher, in the order they are destroyed in. -/
inductive TeardownStmt
  | mutex | actions | sessions | frameTimer | loop
  deriving DecidableEq, Repr

inductive Callback
  | onFrame
  | session (id : SessionId)
  deriving DecidableEq, Repr

/-- `live` are the sessions whose bufferevent is enabled, `held` those user code has a pointer
to. `begun` is set with the destruction of the first member. -/
structure System where
  loop : Loop
  frameLoop : Option (FrameLoop Unit)
  dispatcher : TcpServerDispatcher
  live : List SessionId
  held : List SessionId
  callback : Option Callback
  todo : List TeardownStmt
  destroying : Bool
  begun : Bool

inductive Step
  | start | stop (waiting : Bool) | wait | destroy | owner
  | addSession (id : SessionId) (sock : SocketFd)
  | hold (id : SessionId) | release (id : SessionId)
  | run (t : ThreadRef) (lib : Libevent) (haveEvents : Bool)
  | tick (t : ThreadRef)
  | pass (o : AttachOutcome)
  | session (t : ThreadRef) (id : SessionId)
  | handleEvent
  | returned
  deriving DecidableEq, Repr

def create : System where
  loop := .create
  frameLoop := some .create
  dispatcher := .create
  live := []
  held := []
  callback := none
  todo := []
  destroying := false
  begun := false

def frameArmed (s : System) : Bool := s.frameLoop.any fun l => l.frameTimer.isArmed

def drop (id : SessionId) (s : System) : System :=
  if id ∈ s.held then s else { s with live := s.live.filter (· ≠ id) }

/-- A public call, none of which is made once the destructor has begun. -/
def ownerCall (l : ThreadJoins.Step) (s : System) : System :=
  if s.destroying then s else { s with loop := ThreadJoins.step s.loop l }

/-- The next statement of the destructors, or of the call the owner is in. The timer is freed
when its handler is not running. -/
def owner (s : System) : System :=
  match s.todo with
  | [] => { s with loop := ThreadJoins.step s.loop .owner }
  | .mutex::rest => { s with begun := true, todo := rest }
  | .actions::rest => { s with dispatcher := { s.dispatcher with actions := [] }, todo := rest }
  | .sessions::rest =>
    { s with
      dispatcher := { s.dispatcher with sessions := fun _ => none }
      live := s.live.filter (· ∈ s.held)
      todo := rest }
  | .frameTimer::rest =>
    if s.callback = some .onFrame then s else { s with frameLoop := none, todo := rest }
  | .loop::rest => { s with loop := ThreadJoins.step s.loop .destroy, todo := rest }

/-- `_run`, with the frame timer started before the loop. A thread that executes a callback
does not leave `event_base_loop`. -/
def run (t : ThreadRef) (lib : Libevent) (haveEvents : Bool) (s : System) : System :=
  match (s.loop.threads t).point with
  | .ready =>
    { s with
      frameLoop := s.frameLoop.map (.onBeforeLoop lib ())
      loop := ThreadJoins.step s.loop (.run t haveEvents) }
  | .looping =>
    if s.callback.isSome then s
    else
      let registered := haveEvents || frameArmed s || !s.live.isEmpty
      { s with loop := ThreadJoins.step s.loop (.run t registered) }
  | _ => { s with loop := ThreadJoins.step s.loop (.run t haveEvents) }

/-- The thread `t` is in `event_base_loop` and executes nothing. -/
def Polling (s : System) (t : ThreadRef) : Prop :=
  (s.loop.threads t).point = .looping ∧ s.callback = none

instance (s : System) (t : ThreadRef) : Decidable (Polling s t) :=
  inferInstanceAs (Decidable (_ ∧ _))

/-- One pass of the loop of `onFrame`. -/
def pass (o : AttachOutcome) (s : System) : System :=
  match s.dispatcher.actions with
  | [] => s
  | action::_ =>
    let dispatcher := s.dispatcher.frontAction 0 o action
    if action.sock ≠ socketFdInvalid then
      if (TcpSession.create.attach o 0 action.id action.sock).1 then
        { s with dispatcher := dispatcher, live := action.id :: s.live }
      else { s with dispatcher := dispatcher }
    else drop action.id { s with dispatcher := dispatcher }

/-- The event callback of a session disables its bufferevent and asks for its removal. -/
def disconnect (id : SessionId) (s : System) : System :=
  { s with
    dispatcher := TcpServerDispatcher.removeSession id { s.dispatcher with
      sessions := Function.update s.dispatcher.sessions id
        ((s.dispatcher.sessions id).map TcpSession.handleEvent) }
    live := s.live.filter (· ≠ id) }

def step (s : System) : Step → System
  | .start => ownerCall .start s
  | .stop waiting => ownerCall (.stop waiting) s
  | .wait => ownerCall .wait s
  | .destroy =>
    if s.destroying = false ∧ s.loop.Idle then
      { s with destroying := true, todo := [.mutex,.actions,.sessions,.frameTimer,.loop] }
    else s
  | .owner => owner s
  | .addSession id sock => { s with dispatcher := s.dispatcher.addSession id sock }
  | .hold id => if (s.dispatcher.getSession id).isSome then { s with held := id :: s.held } else s
  | .release id =>
    let s := { s with held := s.held.filter (· ≠ id) }
    if (s.dispatcher.getSession id).isSome then s else drop id s
  | .run t lib haveEvents => run t lib haveEvents s
  | .tick t =>
    if Polling s t then
      match s.frameLoop with
      | none => s
      | some l =>
        match l.frameTimer.expire with
        | none => s
        | some (_,timer) =>
          { s with frameLoop := some { l with frameTimer := timer }, callback := some .onFrame }
    else s
  | .pass o => if s.callback = some .onFrame then pass o s else s
  | .session t id =>
    if Polling s t ∧ id ∈ s.live then { s with callback := some (.session id) } else s
  | .handleEvent =>
    match s.callback with
    | some (.session id) => disconnect id s
    | _ => s
  | .returned => { s with callback := none }

/-- No callback is executing once the destruction of the members has begun. -/
def Untouched (s : System) : Prop := s.begun = true → s.callback = none

/-- No callback is executing, no thread is on its way into `event_base_loop`, and a thread that
is in it has neither a frame timer nor a session to call back. -/
structure Quiescent (s : System) : Prop where
  returned : s.callback = none
  entering : ∀ t, (s.loop.threads t).point ∉ [.entered,.ready]
  registered : ∀ t, (s.loop.threads t).point = .looping → frameArmed s = false ∧ s.live = []

theorem drop_frame (id : SessionId) (s : System) :
    ∃ live, live ⊆ s.live ∧ drop id s = { s with live := live } := by
  unfold drop
  split_ifs
  · exact ⟨s.live,List.Subset.refl _,rfl⟩
  · exact ⟨_,List.filter_sublist.subset,rfl⟩

theorem pass_frame (o : AttachOutcome) (s : System) :
    ∃ d live, pass o s = { s with dispatcher := d, live := live } := by
  unfold pass
  cases s.dispatcher.actions with
  | nil => exact ⟨_,_,rfl⟩
  | cons action rest =>
    simp only
    split_ifs
    · exact ⟨_,_,rfl⟩
    · exact ⟨_,_,rfl⟩
    · obtain ⟨live,_,hdrop⟩ := drop_frame action.id
        { s with dispatcher := s.dispatcher.frontAction 0 o action }
      exact ⟨_,live,hdrop⟩

/-- What a step can make of a state. Sessions are added by a callback only. -/
inductive Effect (s : System) : System → Prop
  | same : Effect s s
  | call (x : ThreadJoins.Step) (hx : x ≠ .destroy) (hd : s.destroying = false) :
      Effect s { s with loop := ThreadJoins.step s.loop x }
  | destroy (hd : s.destroying = false) :
      Effect s { s with destroying := true, todo := [.mutex,.actions,.sessions,.frameTimer,.loop] }
  | owner (htodo : s.todo = []) : Effect s { s with loop := ThreadJoins.step s.loop .owner }
  | member (stmt : TeardownStmt) (rest : List TeardownStmt) (htodo : s.todo = stmt::rest)
      (d : TcpServerDispatcher) (live : List SessionId) (hlive : live ⊆ s.live) (begun : Bool)
      (hbegun : s.begun = true → begun = true) :
      Effect s { s with dispatcher := d, live := live, begun := begun, todo := rest }
  | frameTimer (rest : List TeardownStmt) (htodo : s.todo = .frameTimer::rest) :
      Effect s { s with frameLoop := none, todo := rest }
  | loop (rest : List TeardownStmt) (htodo : s.todo = .loop::rest) :
      Effect s { s with loop := ThreadJoins.step s.loop .destroy, todo := rest }
  | thread (t : ThreadRef) (haveEvents : Bool) :
      Effect s { s with loop := ThreadJoins.step s.loop (.run t haveEvents) }
  | beforeLoop (t : ThreadRef) (lib : Libevent) (haveEvents : Bool)
      (hready : (s.loop.threads t).point = .ready) :
      Effect s { s with
        frameLoop := s.frameLoop.map (.onBeforeLoop lib ())
        loop := ThreadJoins.step s.loop (.run t haveEvents) }
  | tick (t : ThreadRef) (hpolling : Polling s t) (l : FrameLoop Unit) (hl : s.frameLoop = some l)
      (handler : Handler Unit) (timer : Timer Unit)
      (he : l.frameTimer.expire = some (handler,timer)) :
      Effect s { s with frameLoop := some { l with frameTimer := timer }, callback := some .onFrame }
  | session (t : ThreadRef) (hpolling : Polling s t) (id : SessionId) (hlive : id ∈ s.live) :
      Effect s { s with callback := some (.session id) }
  | sessions (d : TcpServerDispatcher) (live held : List SessionId)
      (hlive : s.callback = none → live ⊆ s.live) :
      Effect s { s with dispatcher := d, live := live, held := held }
  | returned : Effect s { s with callback := none }

theorem ownerCall_effect (s : System) {x : ThreadJoins.Step} (hx : x ≠ .destroy) :
    Effect s (ownerCall x s) := by
  unfold ownerCall
  split_ifs with hd
  · exact .same
  · exact .call x hx (by simpa using hd)

theorem owner_effect (s : System) : Effect s (owner s) := by
  unfold owner
  split
  next htodo => exact .owner htodo
  next rest htodo =>
    exact .member .mutex rest htodo s.dispatcher s.live (List.Subset.refl _) true fun _ => rfl
  next rest htodo =>
    exact .member .actions rest htodo _ s.live (List.Subset.refl _) s.begun fun h => h
  next rest htodo =>
    exact .member .sessions rest htodo _ _ List.filter_sublist.subset s.begun fun h => h
  next rest htodo =>
    split_ifs
    · exact .same
    · exact .frameTimer rest htodo
  next rest htodo => exact .loop rest htodo

theorem run_effect (t : ThreadRef) (lib : Libevent) (haveEvents : Bool) (s : System) :
    Effect s (run t lib haveEvents s) := by
  unfold run
  cases hpoint : (s.loop.threads t).point with
  | ready => exact .beforeLoop t lib haveEvents hpoint
  | looping =>
    simp only
    split_ifs
    · exact .same
    · exact .thread t _
  | _ => exact .thread t haveEvents

theorem tick_effect (t : ThreadRef) (s : System) : Effect s (step s (.tick t)) := by
  simp only [step]
  split_ifs with hpolling
  · cases hl : s.frameLoop with
    | none => exact .same
    | some l =>
      cases he : l.frameTimer.expire with
      | none => simpa only [he] using Effect.same
      | some r => simpa only [he] using Effect.tick t hpolling l hl r.1 r.2 he
  · exact .same

theorem step_effect (s : System) (l : Step) : Effect s (step s l) := by
  cases l with
  | start => exact ownerCall_effect s (by simp)
  | stop waiting => exact ownerCall_effect s (by simp)
  | wait => exact ownerCall_effect s (by simp)
  | destroy =>
    simp only [step]
    split_ifs with h
    · exact .destroy h.1
    · exact .same
  | owner => exact owner_effect s
  | addSession id sock => exact .sessions _ s.live s.held fun _ => List.Subset.refl _
  | hold id =>
    simp only [step]
    split_ifs
    · exact .sessions s.dispatcher s.live _ fun _ => List.Subset.refl _
    · exact .same
  | release id =>
    simp only [step]
    split_ifs
    · exact .sessions s.dispatcher s.live _ fun _ => List.Subset.refl _
    · obtain ⟨live,hsub,hdrop⟩ := drop_frame id { s with held := s.held.filter (· ≠ id) }
      rw [hdrop]
      exact .sessions s.dispatcher live _ fun _ => hsub
  | run t lib haveEvents => exact run_effect t lib haveEvents s
  | tick t => exact tick_effect t s
  | pass o =>
    simp only [step]
    split_ifs with hframe
    · obtain ⟨d,live,hpass⟩ := pass_frame o s
      rw [hpass]
      exact .sessions d live s.held fun hnone => by simp [hnone] at hframe
    · exact .same
  | session t id =>
    simp only [step]
    split_ifs with hcalls
    · exact .session t hcalls.1 id hcalls.2
    · exact .same
  | handleEvent =>
    simp only [step]
    split
    · exact .sessions _ _ s.held fun _ => List.filter_sublist.subset
    · exact .same
  | returned => exact .returned

structure Undestroyed (l : Loop) : Prop where
  looping : l.base.isLooping = true → ∃ t, (l.threads t).point = .looping
  unborn : ∀ t, l.created ≤ t → (l.threads t).point = .unborn
  destroyed : l.destroyed = false
  running : l.terminated = false
  todo : .deleteThread ∉ l.todo

theorem start_undestroyed {l : Loop} (h : Undestroyed l) : Undestroyed l.start.2 := by
  unfold Loop.start
  split_ifs
  · exact h
  · refine ⟨fun hlooping => ?_,fun t ht => ?_,h.destroyed,h.running,h.todo⟩
    · obtain ⟨t,ht⟩ := h.looping hlooping
      have hne : t ≠ l.created := by
        rintro rfl
        rw [h.unborn _ le_rfl] at ht
        cases ht
      exact ⟨t,by simpa [Loop.setThread,hne] using ht⟩
    · have hlt : l.created < t := ht
      simpa [Loop.setThread,hlt.ne'] using h.unborn t hlt.le

theorem run_undestroyed {l : Loop} (h : Undestroyed l) (t : ThreadRef) (haveEvents : Bool) :
    Undestroyed (l.run t haveEvents) := by
  refine ⟨fun hlooping => ?_,fun u hu => ?_,?_,?_,?_⟩
  · -- a thread that was in the loop and did not leave it, or the one that has entered it
    have hother {u : ThreadRef} (hu : (l.threads u).point = .looping)
        (ht : (l.threads t).point ≠ .looping) : ∃ u, ((l.run t haveEvents).threads u).point = .looping := by
      have hne : u ≠ t := by
        rintro rfl
        exact ht hu
      exact ⟨u,by rw [Loop.run_threads_of_ne hne,hu]⟩
    have heffect := l.run_effect t haveEvents
    generalize l.run t haveEvents = l' at heffect hlooping hother ⊢
    cases heffect with
    | running hpoint =>
      obtain ⟨u,hu⟩ := h.looping hlooping
      exact hother hu (by simp [hpoint])
    | refused hpoint hin =>
      obtain ⟨u,hu⟩ := h.looping hin
      exact hother hu (by simp [hpoint])
    | loops => exact ⟨t,Loop.setPoint_point t .looping l⟩
    | leaves => cases hlooping
    | stays hpoint => exact ⟨t,hpoint⟩
    | finished hpoint =>
      obtain ⟨u,hu⟩ := h.looping hlooping
      exact hother hu (by simp [hpoint])
    | exits hpoint =>
      obtain ⟨u,hu⟩ := h.looping hlooping
      exact hother hu (by simp [hpoint])
    | outside => exact h.looping hlooping
  · rw [Loop.run_created] at hu
    by_cases hut : u = t
    · subst hut
      simp [Loop.run,h.unborn u hu]
    · rw [Loop.run_threads_of_ne hut]
      exact h.unborn u hu
  · rw [(Loop.run_destroyed t haveEvents l).1]
    exact h.destroyed
  · rw [(Loop.run_destroyed t haveEvents l).2]
    exact h.running
  · rw [Loop.run_todo]
    exact h.todo

theorem owner_undestroyed {l : Loop} (h : Undestroyed l) : Undestroyed l.owner := by
  obtain ⟨hrunning,htodo⟩ := Loop.owner_alive h.destroyed h.running h.todo
  have hframe := Loop.owner_frame l
  refine ⟨fun hlooping => ?_,fun t ht => ?_,?_,hrunning,htodo⟩
  · obtain ⟨t,ht⟩ := h.looping ((hframe 0).2.1 ▸ hlooping)
    exact ⟨t,(hframe t).1.trans ht⟩
  · rw [(hframe t).1]
    exact h.unborn t ((hframe t).2.2.1 ▸ ht)
  · exact (hframe 0).2.2.2.trans h.destroyed

theorem step_undestroyed {l : Loop} (h : Undestroyed l) (x : ThreadJoins.Step) (hx : x ≠ .destroy) :
    Undestroyed (ThreadJoins.step l x) := by
  cases x with
  | destroy => exact absurd rfl hx
  | start =>
    simp only [ThreadJoins.step]
    split_ifs
    · exact start_undestroyed h
    · exact h
  | wait =>
    simp only [ThreadJoins.step]
    split_ifs
    · exact ⟨h.looping,h.unborn,h.destroyed,h.running,by simp [Loop.wait]⟩
    · exact h
  | stop waiting =>
    simp only [ThreadJoins.step]
    split_ifs
    · exact ⟨h.looping,h.unborn,h.destroyed,h.running,by simp [Loop.stop]⟩
    · exact h
  | owner =>
    simp only [ThreadJoins.step,h.running]
    exact owner_undestroyed h
  | run t haveEvents =>
    simp only [ThreadJoins.step,h.running]
    exact run_undestroyed h t haveEvents

def Framing (timer : Timer Unit) : Prop :=
  timer.event = none ∨ ∃ n, Counting foreverRounds n () timer

theorem onBeforeLoop_framing {l : FrameLoop Unit} (h : Framing l.frameTimer) (lib : Libevent) :
    Framing (l.onBeforeLoop lib ()).frameTimer := by
  have hsame : (startForever lib l.frameInterval (.user ()) l.frameTimer) =
      ((startForever lib l.frameInterval (.user ()) l.frameTimer).1,
        (l.onBeforeLoop lib ()).frameTimer) := rfl
  cases hstart : (startForever lib l.frameInterval (.user ()) l.frameTimer).1 with
  | true =>
    rw [hstart] at hsame
    exact .inr ⟨0,startForever_counting hsame⟩
  | false =>
    rcases h with hidle | ⟨n,hcounting⟩
    · refine .inl ?_
      obtain ⟨eventNew,eventAdd⟩ := lib
      cases eventNew <;> cases eventAdd <;>
        simp [startForever,startRounds,hidle,FrameLoop.onBeforeLoop,reset] at hstart ⊢
    · obtain ⟨event,harmed,_⟩ := hcounting.armed
      have hrefused := startRounds_armed lib l.frameInterval foreverRounds (.user ())
        (show l.frameTimer.event.isSome by simp [harmed])
      refine .inr ⟨n,?_⟩
      rw [FrameLoop.onBeforeLoop,startForever,hrefused]
      exact hcounting

theorem expire_framing {timer timer' : Timer Unit} {handler : Handler Unit} (h : Framing timer)
    (he : timer.expire = some (handler,timer')) : Framing timer' := by
  rcases h with hidle | ⟨n,hcounting⟩
  · simp [expire_idle hidle] at he
  · rcases hcounting.expired he with hnext | ⟨_,hidle⟩
    · exact .inr ⟨_,hnext⟩
    · exact .inl hidle

structure Whole (s : System) : Prop where
  loop : Undestroyed s.loop
  frame : ∃ l, s.frameLoop = some l ∧ Framing l.frameTimer
  todo : s.todo = []
  begun : s.begun = false

theorem create_whole : Whole create where
  loop := ⟨fun h => absurd h (by decide),fun _ _ => rfl,rfl,rfl,by decide⟩
  frame := ⟨.create,rfl,.inl rfl⟩
  todo := rfl
  begun := rfl

theorem step_whole {s : System} (l : Step) (h : Whole s) (hstep : (step s l).destroying = false) :
    Whole (step s l) := by
  have heffect := step_effect s l
  generalize step s l = s' at heffect hstep
  cases heffect with
  | same => exact h
  | call x hx hd => exact ⟨step_undestroyed h.loop x hx,h.frame,h.todo,h.begun⟩
  | destroy hd => cases hstep
  | owner htodo => exact ⟨step_undestroyed h.loop .owner (by simp),h.frame,h.todo,h.begun⟩
  | member stmt rest htodo => exact absurd (h.todo.symm.trans htodo) (by simp)
  | frameTimer rest htodo => exact absurd (h.todo.symm.trans htodo) (by simp)
  | loop rest htodo => exact absurd (h.todo.symm.trans htodo) (by simp)
  | thread t haveEvents =>
    exact ⟨step_undestroyed h.loop (.run t haveEvents) (by simp),h.frame,h.todo,h.begun⟩
  | beforeLoop t lib haveEvents hready =>
    obtain ⟨l,hl,hframing⟩ := h.frame
    exact ⟨step_undestroyed h.loop (.run t haveEvents) (by simp),
      ⟨_,by simp [hl],onBeforeLoop_framing hframing lib⟩,h.todo,h.begun⟩
  | tick t hpolling l hl handler timer he =>
    obtain ⟨l',hl',hframing⟩ := h.frame
    cases hl.symm.trans hl'
    exact ⟨h.loop,⟨_,rfl,expire_framing hframing he⟩,h.todo,h.begun⟩
  | session t hpolling id hlive => exact ⟨h.loop,h.frame,h.todo,h.begun⟩
  | sessions d live held hlive => exact ⟨h.loop,h.frame,h.todo,h.begun⟩
  | returned => exact ⟨h.loop,h.frame,h.todo,h.begun⟩

theorem step_forward (s : System) (l : Step) :
    (s.destroying = true → (step s l).destroying = true) ∧
      (s.begun = true → (step s l).begun = true) := by
  have heffect := step_effect s l
  generalize step s l = s' at heffect ⊢
  cases heffect with
  | destroy hd => exact ⟨fun _ => rfl,fun h => h⟩
  | member stmt rest htodo d live hlive begun hbegun => exact ⟨fun h => h,hbegun⟩
  | _ => exact ⟨fun h => h,fun h => h⟩

theorem reached_whole (run : List Step) :
    (exec step create run).destroying = false → Whole (exec step create run) := by
  refine exec_preserves (I := fun s => s.destroying = false → Whole s) (fun s l h hstep => ?_)
    (fun _ => create_whole) run
  cases hs : s.destroying with
  | false => exact step_whole l (h hs) hstep
  | true =>
    rw [(step_forward s l).1 hs] at hstep
    cases hstep

theorem step_enters_none {l : Loop} (h : ∀ t, (l.threads t).point ∉ [.entered,.ready])
    (x : ThreadJoins.Step) (hx : x ≠ .start) (u : ThreadRef) :
    ((ThreadJoins.step l x).threads u).point ∉ [.entered,.ready] ∧
      (((ThreadJoins.step l x).threads u).point = .looping → (l.threads u).point = .looping) := by
  have hsame {l' : Loop} (hl : (l'.threads u).point = (l.threads u).point) :
      (l'.threads u).point ∉ [.entered,.ready] ∧
        ((l'.threads u).point = .looping → (l.threads u).point = .looping) := by
    rw [hl]
    exact ⟨h u,id⟩
  cases x with
  | start => exact absurd rfl hx
  | wait =>
    simp only [ThreadJoins.step]
    split_ifs <;> exact hsame rfl
  | stop waiting =>
    simp only [ThreadJoins.step]
    split_ifs <;> exact hsame rfl
  | destroy =>
    simp only [ThreadJoins.step]
    split_ifs <;> exact hsame rfl
  | owner =>
    simp only [ThreadJoins.step]
    split_ifs
    · exact hsame rfl
    · exact hsame (l.owner_frame u).1
  | run t haveEvents =>
    simp only [ThreadJoins.step]
    split_ifs
    · exact hsame rfl
    by_cases hu : u = t
    · subst hu
      have hnot := h u
      have heffect := l.run_effect u haveEvents
      generalize l.run u haveEvents = l' at heffect ⊢
      cases heffect with
      | running hpoint => simp [hpoint] at hnot
      | refused hpoint => simp [hpoint] at hnot
      | loops hpoint => simp [hpoint] at hnot
      | stays => exact hsame rfl
      | outside => exact hsame rfl
      | _ => simp
    · exact hsame (by rw [Loop.run_threads_of_ne hu])

theorem Quiescent.mono {s s' : System} (h : Quiescent s) (hcallback : s'.callback = none)
    (hpoints : ∀ t, (s'.loop.threads t).point ∉ [.entered,.ready] ∧
      ((s'.loop.threads t).point = .looping → (s.loop.threads t).point = .looping))
    (hframe : frameArmed s = false → frameArmed s' = false) (hlive : s.live = [] → s'.live = []) :
    Quiescent s' where
  returned := hcallback
  entering := fun t => (hpoints t).1
  registered := fun t ht =>
    have hold := h.registered t ((hpoints t).2 ht)
    ⟨hframe hold.1,hlive hold.2⟩

theorem step_quiescent {s : System} (l : Step) (h : Quiescent s) (hd : s.destroying = true) :
    Quiescent (step s l) := by
  have hsame (t : ThreadRef) : (s.loop.threads t).point ∉ [.entered,.ready] ∧
      ((s.loop.threads t).point = .looping → (s.loop.threads t).point = .looping) :=
    ⟨h.entering t,id⟩
  have hloop (x : ThreadJoins.Step) (hx : x ≠ .start) := step_enters_none h.entering x hx
  have heffect := step_effect s l
  generalize step s l = s' at heffect ⊢
  cases heffect with
  | same => exact h
  | call x hx hno => exact absurd (hd.symm.trans hno) (by decide)
  | destroy hno => exact absurd (hd.symm.trans hno) (by decide)
  | owner htodo => exact h.mono h.returned (hloop .owner (by simp)) id id
  | member stmt rest htodo d live hlive =>
    exact h.mono h.returned hsame id fun hnone => List.subset_nil.mp (hnone ▸ hlive)
  | frameTimer rest htodo => exact h.mono h.returned hsame (fun _ => rfl) id
  | loop rest htodo => exact h.mono h.returned (hloop .destroy (by simp)) id id
  | thread t haveEvents => exact h.mono h.returned (hloop (.run t haveEvents) (by simp)) id id
  | beforeLoop t lib haveEvents hready => exact absurd (h.entering t) (by simp [hready])
  | tick t hpolling l hl handler timer he =>
    have harmed := (h.registered t hpolling.1).1
    rw [frameArmed,hl,Option.any_some,expire_armed he] at harmed
    cases harmed
  | session t hpolling id hlive =>
    rw [(h.registered t hpolling.1).2] at hlive
    cases hlive
  | sessions d live held hlive =>
    exact h.mono h.returned hsame id fun hnone => List.subset_nil.mp (hnone ▸ hlive h.returned)
  | returned => exact h.mono rfl hsame id id

def begin (s : System) : System :=
  { s with
    destroying := true
    begun := true
    todo := [.actions,.sessions,.frameTimer,.loop] }

theorem begin_eq {s : System} (hd : s.destroying = false) (hidle : s.loop.Idle) :
    step (step s .destroy) .owner = begin s := by
  simp [step,owner,begin,hd,hidle]

theorem tick_callback {s : System} {t : ThreadRef} {l : FrameLoop Unit} (hpolling : Polling s t)
    (hl : s.frameLoop = some l) (harmed : l.frameTimer.isArmed = true) :
    (step s (.tick t)).callback = some .onFrame := by
  obtain ⟨r,hr⟩ := armed_expire harmed
  simp [step,hpolling,hl,hr]

theorem onBeforeLoop_armed {l : FrameLoop Unit} (h : Framing l.frameTimer) :
    (l.onBeforeLoop ⟨true,true⟩ ()).frameTimer.isArmed = true := by
  rcases h with hidle | ⟨n,hcounting⟩
  · rw [FrameLoop.onBeforeLoop,startForever,startRounds_idle _ _ _ hidle]
    rfl
  · obtain ⟨event,harmed,hpending,_⟩ := hcounting.armed
    rw [FrameLoop.onBeforeLoop,startForever,startRounds_armed _ _ _ _ (by simp [harmed])]
    simp [isArmed,harmed,hpending]

theorem ready_ticks {s : System} {t : ThreadRef} (hloop : Undestroyed s.loop)
    (hframe : ∃ l, s.frameLoop = some l ∧ Framing l.frameTimer) (hcallback : s.callback = none)
    (hready : (s.loop.threads t).point = .ready) :
    ∃ u, (exec step s [.run t ⟨true,true⟩ true,.tick u]).callback = some .onFrame := by
  obtain ⟨l,hl,hframing⟩ := hframe
  have hrun : step s (.run t ⟨true,true⟩ true) = { s with
      frameLoop := some (l.onBeforeLoop ⟨true,true⟩ ())
      loop := s.loop.run t true } := by
    simp [step,run,hready,hl,ThreadJoins.step,hloop.running]
  have htick {u : ThreadRef} (hu : ((s.loop.run t true).threads u).point = .looping) :
      (exec step s [.run t ⟨true,true⟩ true,.tick u]).callback = some .onFrame := by
    rw [exec,exec,exec,hrun]
    exact tick_callback ⟨hu,hcallback⟩ rfl (onBeforeLoop_armed hframing)
  by_cases hin : s.loop.base.isLooping = true
  · obtain ⟨u,hu⟩ := hloop.looping hin
    have hne : u ≠ t := by
      rintro rfl
      rw [hready] at hu
      cases hu
    exact ⟨u,htick (by rw [Loop.run_threads_of_ne hne,hu])⟩
  · exact ⟨t,htick (by simp [Loop.run,hready,hin,Loop.setPoint,Loop.setThread])⟩

/-- If no interleaving of the destructor with the loop thread shows a callback, the dispatcher
was quiescent. -/
theorem quiescent_of_untouched {s : System} (h : Whole s) (hd : s.destroying = false)
    (hidle : s.loop.Idle) (hsafe : ∀ after, Always step Untouched s (.destroy::after)) :
    Quiescent s := by
  have hnone (after : List Step) : (exec step (begin s) after).callback = none := by
    have huntouched := hsafe (.owner::after) _ List.prefix_rfl
    rw [exec,exec,begin_eq hd hidle] at huntouched
    exact huntouched (exec_preserves (I := fun s => s.begun = true)
      (fun s l => (step_forward s l).2) rfl after)
  have hreturned : s.callback = none := hnone []
  refine ⟨hreturned,fun t ht => ?_,fun t ht => ⟨?_,?_⟩⟩
  · have hready {x : System} (hloop : Undestroyed x.loop)
        (hframe : ∃ l, x.frameLoop = some l ∧ Framing l.frameTimer) (hcallback : x.callback = none)
        (hpoint : (x.loop.threads t).point = .ready)
        (hx : ∀ after, (exec step x after).callback = none) : False := by
      obtain ⟨u,hu⟩ := ready_ticks hloop hframe hcallback hpoint
      rw [hx] at hu
      cases hu
    rcases List.mem_cons.mp ht with hentered | hmem
    · have hrun : step (begin s) (.run t ⟨true,true⟩ true) =
          { begin s with loop := s.loop.run t true } := by
        simp [step,run,begin,hentered,ThreadJoins.step,h.loop.running]
      refine hready (x := { begin s with loop := s.loop.run t true })
        (run_undestroyed h.loop t true) h.frame hreturned ?_ fun after => ?_
      · simp [Loop.run,hentered,Loop.setPoint,Loop.setThread]
      · rw [← hrun]
        exact hnone (.run t ⟨true,true⟩ true::after)
    · exact hready (x := begin s) h.loop h.frame hreturned (List.mem_singleton.mp hmem) hnone
  · by_contra harmed
    obtain ⟨l,hl,_⟩ := h.frame
    have hon : l.frameTimer.isArmed = true := by simpa [frameArmed,hl] using harmed
    have htick := tick_callback (s := begin s) ⟨ht,hreturned⟩ hl hon
    have hno := hnone [.tick t]
    rw [exec,exec,htick] at hno
    cases hno
  · by_contra hlive
    obtain ⟨id,hid⟩ := List.exists_mem_of_ne_nil s.live hlive
    have hno := hnone [.session t id]
    have hcalls : Polling (begin s) t ∧ id ∈ (begin s).live := ⟨⟨ht,hreturned⟩,hid⟩
    rw [exec,exec,step,if_pos hcalls] at hno
    cases hno

/-- A destructor that begins when its owner is in no other call sees no callback, whatever
comes in between, if and only if the dispatcher was quiescent by then. -/
theorem untouched_iff (run : List Step) (hwhole : (exec step create run).destroying = false)
    (hidle : (exec step create run).loop.Idle) :
    (∀ after, Always step Untouched (exec step create run) (.destroy::after)) ↔
      Quiescent (exec step create run) := by
  have h := reached_whole run hwhole
  refine ⟨quiescent_of_untouched h hwhole hidle,fun hquiescent after => ?_⟩
  have hdestroy : step (exec step create run) .destroy =
      { exec step create run with
        destroying := true
        todo := [.mutex,.actions,.sessions,.frameTimer,.loop] } := by
    simp [step,hwhole,hidle]
  have hstart : Quiescent (step (exec step create run) .destroy) ∧
      (step (exec step create run) .destroy).destroying = true := by
    rw [hdestroy]
    exact ⟨⟨hquiescent.returned,hquiescent.entering,hquiescent.registered⟩,rfl⟩
  rw [always_cons]
  refine ⟨fun _ => hquiescent.returned,fun pre _ _ => ?_⟩
  have hend := exec_preserves (I := fun s => Quiescent s ∧ s.destroying = true)
    (fun s l hs => ⟨step_quiescent l hs.1 hs.2,(step_forward s l).1 hs.2⟩) hstart pre
  exact hend.1.returned

/-- A dispatcher that was stopped and waited for, and is destroyed piece by piece. -/
theorem untouched_stopped :
    Always step Untouched (exec step create [.start,.run 0 ⟨true,true⟩ true,
      .run 0 ⟨true,true⟩ true,.tick 0,.returned,.stop true,.owner,.owner,.wait,.owner,
      .run 0 ⟨true,true⟩ true,.run 0 ⟨true,true⟩ true,.run 0 ⟨true,true⟩ true,.owner])
      [.destroy,.owner,.owner,.owner,.tick 0,.owner,.owner] := by
  have hunborn := (reached_whole [.start,.run 0 ⟨true,true⟩ true,.run 0 ⟨true,true⟩ true,.tick 0,
    .returned,.stop true,.owner,.owner,.wait,.owner,.run 0 ⟨true,true⟩ true,
    .run 0 ⟨true,true⟩ true,.run 0 ⟨true,true⟩ true,.owner] (by decide)).loop.unborn
  refine (untouched_iff _ (by decide) (by decide)).mpr ⟨by decide,fun t => ?_,fun t => ?_⟩ _
  all_goals
    rcases Nat.eq_zero_or_pos t with rfl | ht
    · decide
    · rw [hunborn t ht]
      decide

/-- The loop thread is in `event_base_loop`, and the frame timer expires when the mutex is gone. -/
theorem tick_after_mutex :
    ¬ ∀ run, (exec step create run).destroying = false → (exec step create run).loop.Idle →
      ∀ after, Always step Untouched (exec step create run) (.destroy::after) := by
  intro h
  have htick := h [.start,.run 0 ⟨true,true⟩ true,.run 0 ⟨true,true⟩ true] (by decide) (by decide)
    [.owner,.tick 0] _ List.prefix_rfl
  exact absurd (htick (by decide)) (by decide)

end DispatcherTeardown
end Translib
