import Translib.DispatcherTeardown
import Translib.HttpServer

/-! The destruction of an HTTP server, which frees its `evhttp` before `~Loop` stops the
thread that may be serving requests. -/

namespace Translib
namespace HttpTeardown

open TransitionMachine DispatcherTeardown

/-- `~HttpServer`: its body, its members, `~Loop` and the base in it. -/
inductive TeardownStmt
  | http | handlers | loop | base
  deriving DecidableEq, Repr

def destructor : List TeardownStmt := [.http,.handlers,.loop,.base]

/-- `callback` is the path of the request a loop thread has called the server back for.
`httpFreed` tells of the `evhttp` that `_http` points to; the pointer stays. `begun` is set
with the first statement. -/
structure System where
  loop : Loop
  server : HttpServer
  httpFreed : Bool
  callback : Option CString
  todo : List TeardownStmt
  destroying : Bool
  begun : Bool
  baseFreed : Bool

/-- What is called while a callback executes may be called by its handler. -/
inductive Step
  | start | stop (waiting : Bool) | wait | destroy | owner
  | listen (made bound : Bool) (ip : CString) (port : ℕ)
  | regHandler (allocated : Bool) (path : CString) (handler : HttpHandler)
  | run (t : ThreadRef) (haveEvents : Bool)
  | request (t : ThreadRef) (path : CString)
  | returned

def create : System := ⟨.create,.create,false,none,[],false,false,false⟩

/-- A public call, none of which the owner makes once it destroys the server. -/
def ownerCall (x : ThreadJoins.Step) (s : System) : System :=
  if s.destroying then s else { s with loop := ThreadJoins.step s.loop x }

/-- The server may be used: it is not being destroyed, or by a handler. -/
def Usable (s : System) : Prop := s.destroying = false ∨ s.callback.isSome

instance (s : System) : Decidable (Usable s) := inferInstanceAs (Decidable (_ ∨ _))

def Open (s : System) : Prop := s.server.http.isSome ∧ s.httpFreed = false

instance (s : System) : Decidable (Open s) := inferInstanceAs (Decidable (_ ∧ _))

/-- The next statement of the call the owner is in, or of the destructors. -/
def owner (s : System) : System :=
  if s.loop.todo ≠ [] then { s with loop := ThreadJoins.step s.loop .owner }
  else if s.loop.terminated then s
  else match s.todo with
  | [] => s
  | .http::rest => { s with begun := true, httpFreed := s.server.http.isSome, todo := rest }
  | .handlers::rest => { s with server := { s.server with handlers := .empty }, todo := rest }
  | .loop::rest => { s with loop := ThreadJoins.step s.loop .destroy, todo := rest }
  | .base::rest => { s with baseFreed := true, todo := rest }

/-- A thread of the loop is in `event_base_loop` and executes nothing. -/
def Polling (s : System) (t : ThreadRef) : Prop :=
  (s.loop.threads t).point = .looping ∧ s.callback = none

instance (s : System) (t : ThreadRef) : Decidable (Polling s t) :=
  inferInstanceAs (Decidable (_ ∧ _))

/-- A thread that executes a callback does not leave `event_base_loop`, and one that listens
has an event registered. -/
def run (t : ThreadRef) (haveEvents : Bool) (s : System) : System :=
  if (s.loop.threads t).point = .looping ∧ s.callback.isSome then s
  else { s with loop := ThreadJoins.step s.loop (.run t (haveEvents || decide (Open s))) }

def step (s : System) : Step → System
  | .start => ownerCall .start s
  | .stop waiting => ownerCall (.stop waiting) s
  | .wait => ownerCall .wait s
  | .destroy =>
    if s.destroying = false ∧ s.loop.Idle then { s with destroying := true, todo := destructor }
    else s
  | .owner => owner s
  | .listen made bound ip port =>
    if Usable s then { s with server := (s.server.listen made bound ip port).2 } else s
  | .regHandler allocated path handler =>
    if Usable s then { s with server := s.server.regHandler allocated path handler } else s
  | .run t haveEvents => run t haveEvents s
  | .request t path => if Polling s t ∧ Open s then { s with callback := some path } else s
  | .returned => { s with callback := none }

/-- No callback is executing once the `evhttp` is freed. -/
def Untouched (s : System) : Prop := s.begun = true → s.callback = none

/-- The server has never listened, or no thread is in `event_base_loop` or on its way there. -/
def Quiescent (s : System) : Prop :=
  s.server.http = none ∨ ∀ t, (s.loop.threads t).point ∉ [.entered,.ready,.looping]

inductive Effect (s : System) : System → Prop
  | same : Effect s s
  | call (x : ThreadJoins.Step) (hx : x ≠ .destroy) (hrun : ∀ t haveEvents, x ≠ .run t haveEvents)
      (hno : s.destroying = false) : Effect s { s with loop := ThreadJoins.step s.loop x }
  | destroy (hno : s.destroying = false) (hidle : s.loop.Idle) :
      Effect s { s with destroying := true, todo := destructor }
  | owner (htodo : s.loop.todo ≠ []) : Effect s { s with loop := ThreadJoins.step s.loop .owner }
  | http (rest : List TeardownStmt) (htodo : s.todo = .http::rest) :
      Effect s { s with begun := true, httpFreed := s.server.http.isSome, todo := rest }
  | handlers (rest : List TeardownStmt) (htodo : s.todo = .handlers::rest) :
      Effect s { s with server := { s.server with handlers := .empty }, todo := rest }
  | loop (rest : List TeardownStmt) (htodo : s.todo = .loop::rest) :
      Effect s { s with loop := ThreadJoins.step s.loop .destroy, todo := rest }
  | base (rest : List TeardownStmt) (htodo : s.todo = .base::rest) :
      Effect s { s with baseFreed := true, todo := rest }
  | server (server : HttpServer) (husable : Usable s)
      (hhttp : s.server.http.isSome → server.http.isSome) : Effect s { s with server := server }
  | thread (t : ThreadRef) (haveEvents : Bool)
      (hfree : s.callback.isSome → (s.loop.threads t).point ≠ .looping) :
      Effect s { s with loop := ThreadJoins.step s.loop (.run t haveEvents) }
  | request (t : ThreadRef) (path : CString) (hpolling : Polling s t) (hopen : Open s) :
      Effect s { s with callback := some path }
  | returned : Effect s { s with callback := none }

theorem owner_effect (s : System) : Effect s (owner s) := by
  unfold owner
  split_ifs with htodo
  · exact .owner htodo
  · exact .same
  · split
    · exact .same
    · exact .http _ ‹_›
    · exact .handlers _ ‹_›
    · exact .loop _ ‹_›
    · exact .base _ ‹_›

theorem ownerCall_effect (s : System) {x : ThreadJoins.Step} (hx : x ≠ .destroy)
    (hrun : ∀ t haveEvents, x ≠ .run t haveEvents) : Effect s (ownerCall x s) := by
  unfold ownerCall
  split_ifs with hd
  · exact .same
  · exact .call x hx hrun (by simpa using hd)

theorem listen_isSome (made bound : Bool) (ip : CString) (port : ℕ) {server : HttpServer}
    (h : server.http.isSome) : (server.listen made bound ip port).2.http.isSome := by
  simp [HttpServer.listen,h]

theorem regHandler_isSome (allocated : Bool) (path : CString) (handler : HttpHandler)
    {server : HttpServer} (h : server.http.isSome) :
    (server.regHandler allocated path handler).http.isSome := by
  obtain ⟨http,hhttp⟩ := Option.isSome_iff_exists.mp h
  simp [HttpServer.regHandler,hhttp]

theorem step_effect (s : System) (l : Step) : Effect s (step s l) := by
  cases l with
  | start => exact ownerCall_effect s (by simp) (by simp)
  | stop waiting => exact ownerCall_effect s (by simp) (by simp)
  | wait => exact ownerCall_effect s (by simp) (by simp)
  | destroy =>
    simp only [step]
    split_ifs with h
    · exact .destroy h.1 h.2
    · exact .same
  | owner => exact owner_effect s
  | listen made bound ip port =>
    simp only [step]
    split_ifs with h
    · exact .server _ h (listen_isSome made bound ip port)
    · exact .same
  | regHandler allocated path handler =>
    simp only [step]
    split_ifs with h
    · exact .server _ h (regHandler_isSome allocated path handler)
    · exact .same
  | run t haveEvents =>
    simp only [step,run]
    split_ifs with h
    · exact .same
    · exact .thread t _ fun hcallback hpoint => h ⟨hpoint,hcallback⟩
  | request t path =>
    simp only [step]
    split_ifs with h
    · exact .request t path h.1 h.2
    · exact .same
  | returned => exact .returned

theorem step_looping {l : Loop} {u : ThreadRef} (hu : (l.threads u).point = .looping)
    (x : ThreadJoins.Step) (hrun : ∀ haveEvents, x ≠ .run u haveEvents)
    (hstart : x = .start → u < l.created) :
    ((ThreadJoins.step l x).threads u).point = .looping := by
  cases x with
  | start => rw [ThreadJoins.step_point (hstart rfl) (by simp),hu]
  | owner =>
    simp only [ThreadJoins.step]
    split_ifs
    · exact hu
    · rw [(l.owner_frame u).1,hu]
  | run t haveEvents =>
    have hne : u ≠ t := fun h => hrun haveEvents (by rw [h])
    simp only [ThreadJoins.step]
    split_ifs
    · exact hu
    · rw [Loop.run_threads_of_ne hne,hu]
  | _ =>
    simp only [ThreadJoins.step]
    split_ifs <;> exact hu

structure Whole (s : System) : Prop where
  opened : s.callback.isSome → s.server.http.isSome
  looping : s.callback.isSome → ∃ t, (s.loop.threads t).point = .looping
  begun : s.begun = true → s.destroying = true ∧ s.httpFreed = s.server.http.isSome
  stage : s.begun = true ∨
    s.baseFreed = false ∧ s.httpFreed = false ∧ (s.todo = [] ∨ s.todo = destructor)
  loop : s.destroying = false → Undestroyed s.loop ∧ s.todo = []

theorem create_whole : Whole create where
  opened := by simp [create]
  looping := by simp [create]
  begun := by simp [create]
  stage := .inr ⟨rfl,rfl,.inl rfl⟩
  loop := fun _ => ⟨⟨by simp [create,Loop.create],by simp [create,Loop.create],rfl,rfl,
    by simp [create,Loop.create]⟩,rfl⟩

theorem looping_kept {s : System} {x : ThreadJoins.Step}
    (h : s.callback.isSome → ∃ t, (s.loop.threads t).point = .looping)
    (hrun : s.callback.isSome → ∀ t haveEvents, x = .run t haveEvents →
      (s.loop.threads t).point ≠ .looping)
    (hstart : x = .start → Undestroyed s.loop) (hcallback : s.callback.isSome) :
    ∃ t, ((ThreadJoins.step s.loop x).threads t).point = .looping := by
  obtain ⟨u,hu⟩ := h hcallback
  refine ⟨u,step_looping hu x (fun haveEvents hx => hrun hcallback u haveEvents hx hu) fun hx => ?_⟩
  by_contra hle
  rw [(hstart hx).unborn u (not_lt.mp hle)] at hu
  cases hu

theorem step_whole {s : System} (l : Step) (h : Whole s) : Whole (step s l) := by
  have hbefore {stmt : TeardownStmt} {rest : List TeardownStmt} (htodo : s.todo = stmt::rest)
      (hhttp : stmt ≠ .http) : s.begun = true := by
    refine h.stage.resolve_right fun ⟨_,_,hstage⟩ => ?_
    rcases hstage with hnil | hall
    · cases hnil.symm.trans htodo
    · rw [htodo,destructor] at hall
      exact hhttp (List.cons.inj hall).1
  have hdestroying {stmt : TeardownStmt} {rest : List TeardownStmt} (htodo : s.todo = stmt::rest) :
      s.destroying = true := by
    by_contra hno
    cases (h.loop (by simpa using hno)).2.symm.trans htodo
  have hnever {p : Prop} (hd : s.destroying = true) (hno : s.destroying = false) : p :=
    absurd (hd.symm.trans hno) (by decide)
  have heffect := step_effect s l
  generalize step s l = s' at heffect ⊢
  cases heffect with
  | same => exact h
  | call x hx hrun hno =>
    obtain ⟨hloop,htodo⟩ := h.loop hno
    have hother (t : ThreadRef) (haveEvents : Bool) (hx : x = .run t haveEvents) :
        (s.loop.threads t).point ≠ .looping := absurd hx (hrun t haveEvents)
    exact ⟨h.opened,looping_kept h.looping (fun _ => hother) fun _ => hloop,h.begun,h.stage,
      fun _ => ⟨step_undestroyed hloop x hx,htodo⟩⟩
  | destroy hno hidle =>
    have hbegun : ¬ s.begun = true := fun hb => hnever (h.begun hb).1 hno
    obtain ⟨hbase,hfreed,_⟩ := h.stage.resolve_left hbegun
    exact ⟨h.opened,h.looping,fun hb => absurd hb hbegun,.inr ⟨hbase,hfreed,.inr rfl⟩,nofun⟩
  | owner htodo =>
    exact ⟨h.opened,looping_kept h.looping (by simp) (by simp),h.begun,h.stage,
      fun hno => ⟨step_undestroyed (h.loop hno).1 .owner (by simp),(h.loop hno).2⟩⟩
  | http rest htodo =>
    have hd := hdestroying htodo
    exact ⟨h.opened,h.looping,fun _ => ⟨hd,rfl⟩,.inl rfl,hnever hd⟩
  | handlers rest htodo =>
    have hd := hdestroying htodo
    exact ⟨h.opened,h.looping,h.begun,.inl (hbefore htodo (by decide)),hnever hd⟩
  | loop rest htodo =>
    have hd := hdestroying htodo
    exact ⟨h.opened,looping_kept h.looping (by simp) (by simp),h.begun,
      .inl (hbefore htodo (by decide)),hnever hd⟩
  | base rest htodo =>
    have hd := hdestroying htodo
    exact ⟨h.opened,h.looping,h.begun,.inl (hbefore htodo (by decide)),hnever hd⟩
  | server server husable hhttp =>
    refine ⟨fun hcallback => hhttp (h.opened hcallback),h.looping,fun hb => ?_,h.stage,h.loop⟩
    -- what a handler does while the members are destroyed finds the pointer as it was
    obtain ⟨hd,hfreed⟩ := h.begun hb
    have hhad := h.opened (husable.resolve_left (by simp [hd]))
    exact ⟨hd,hfreed.trans (hhad.trans (hhttp hhad).symm)⟩
  | thread t haveEvents hfree =>
    refine ⟨h.opened,looping_kept h.looping (fun hcallback u _ hx => ?_) (by simp),h.begun,h.stage,
      fun hno => ⟨step_undestroyed (h.loop hno).1 (.run t haveEvents) (by simp),(h.loop hno).2⟩⟩
    cases hx
    exact hfree hcallback
  | request t path hpolling hopen =>
    exact ⟨fun _ => hopen.1,fun _ => ⟨t,hpolling.1⟩,h.begun,h.stage,h.loop⟩
  | returned => exact ⟨by simp,by simp,h.begun,h.stage,h.loop⟩

theorem reached_whole (run : List Step) : Whole (exec step create run) :=
  exec_preserves (fun _ l h => step_whole l h) create_whole run

structure Quiet (s : System) : Prop where
  returned : s.callback = none
  quiescent : Quiescent s
  destroying : s.destroying = true

theorem step_outside {l : Loop} (h : ∀ t, (l.threads t).point ∉ [.entered,.ready,.looping])
    {x : ThreadJoins.Step} (hx : x ≠ .start) (t : ThreadRef) :
    ((ThreadJoins.step l x).threads t).point ∉ [.entered,.ready,.looping] := by
  have hentering (u : ThreadRef) : (l.threads u).point ∉ [.entered,.ready] :=
    fun hu => h u (List.mem_append_left [RunPoint.looping] hu)
  obtain ⟨hnot,hlooping⟩ := step_enters_none hentering x hx t
  intro ht
  have hmem : _ ∈ [RunPoint.entered,.ready] ++ [.looping] := ht
  rcases List.mem_append.mp hmem with hin | hin
  · exact hnot hin
  · exact h t (by simp [hlooping (List.mem_singleton.mp hin)])

theorem Quiescent.outside {s : System} (h : Quiescent s) {x : ThreadJoins.Step} (hx : x ≠ .start) :
    Quiescent { s with loop := ThreadJoins.step s.loop x } :=
  h.imp_right fun hout => step_outside hout hx

theorem step_quiet {s : System} (l : Step) (h : Quiet s) : Quiet (step s l) := by
  have hbusy {p : Prop} (hno : s.destroying = false) : p :=
    absurd (h.destroying.symm.trans hno) (by decide)
  have heffect := step_effect s l
  generalize step s l = s' at heffect ⊢
  cases heffect with
  | same => exact h
  | call x hx hrun hno => exact hbusy hno
  | destroy hno => exact hbusy hno
  | owner htodo => exact ⟨h.returned,h.quiescent.outside (by simp),h.destroying⟩
  | loop rest htodo => exact ⟨h.returned,h.quiescent.outside (x := .destroy) (by simp),h.destroying⟩
  | server server husable hhttp =>
    rcases husable with hno | hcallback
    · exact hbusy hno
    · simp [h.returned] at hcallback
  | thread t haveEvents hfree => exact ⟨h.returned,h.quiescent.outside (by simp),h.destroying⟩
  | request t path hpolling hopen =>
    rcases h.quiescent with hnone | hout
    · exact absurd hopen.1 (by simp [hnone])
    · exact absurd (hout t) (by simp [hpolling.1])
  | returned => exact ⟨rfl,h.quiescent,h.destroying⟩
  | _ => exact ⟨h.returned,h.quiescent,h.destroying⟩

theorem gets_looping {l : Loop} (h : Undestroyed l) {t : ThreadRef}
    (ht : (l.threads t).point ∈ [.entered,.ready,.looping]) :
    ∃ n u, ((exec ThreadJoins.step l (List.replicate n (.run t true))).threads u).point =
      .looping := by
  by_cases hin : l.base.isLooping = true
  · obtain ⟨u,hu⟩ := h.looping hin
    exact ⟨0,u,hu⟩
  rcases List.mem_cons.mp ht with hentered | hrest
  · refine ⟨2,t,?_⟩
    simp [exec,ThreadJoins.step,h.running,Loop.run,hentered,hin,Loop.setPoint,Loop.setThread]
  rcases List.mem_cons.mp hrest with hready | hlooping
  · refine ⟨1,t,?_⟩
    simp [exec,ThreadJoins.step,h.running,Loop.run,hready,hin,Loop.setPoint,Loop.setThread]
  · exact ⟨0,t,List.mem_singleton.mp hlooping⟩

theorem runs_undestroyed {l : Loop} (h : Undestroyed l) (t : ThreadRef) (n : ℕ) :
    Undestroyed (exec ThreadJoins.step l (List.replicate n (.run t true))) ∧
      (exec ThreadJoins.step l (List.replicate n (.run t true))).todo = l.todo := by
  induction n generalizing l with
  | zero => exact ⟨h,rfl⟩
  | succ n ih =>
    rw [List.replicate_succ,exec]
    obtain ⟨hloop,htodo⟩ := ih (step_undestroyed h (.run t true) (by simp))
    exact ⟨hloop,htodo.trans (by simp [ThreadJoins.step,h.running])⟩

theorem exec_runs {s : System} (hcallback : s.callback = none) (t : ThreadRef) (n : ℕ) :
    exec step s (List.replicate n (.run t true)) =
      { s with loop := exec ThreadJoins.step s.loop (List.replicate n (.run t true)) } := by
  induction n generalizing s with
  | zero => rfl
  | succ n ih =>
    have hstep : step s (.run t true) =
        { s with loop := ThreadJoins.step s.loop (.run t true) } := by
      simp [step,run,hcallback]
    rw [List.replicate_succ,List.replicate_succ,exec,exec,hstep]
    exact ih hcallback

/-- A callback of a server that is going to be destroyed goes on while its `evhttp` is freed. -/
theorem touched {s : System} (hcallback : s.callback.isSome) (hrunning : s.loop.terminated = false)
    (htodo : s.loop.todo = []) (hnext : s.todo = destructor) : ¬ Untouched (step s .owner) := by
  intro h
  have howner : step s .owner = { s with
      begun := true
      httpFreed := s.server.http.isSome
      todo := [.handlers,.loop,.base] } := by
    simp [step,owner,htodo,hrunning,hnext,destructor]
  rw [howner] at h
  rw [show s.callback = none from h rfl] at hcallback
  cases hcallback

/-- If no interleaving of the destructor with the threads of the loop shows a callback, none was
to come. -/
theorem quiescent_of_untouched {s : System} (h : Whole s) (hd : s.destroying = false)
    (hidle : s.loop.Idle) (hsafe : ∀ after, Always step Untouched s (.destroy::after)) :
    s.callback = none ∧ Quiescent s := by
  obtain ⟨hloop,htodo⟩ := h.loop hd
  have hdestroy : step s .destroy = { s with destroying := true, todo := destructor } := by
    simp [step,hd,hidle]
  have hreturned : s.callback = none := by
    by_contra hcallback
    refine touched (s := step s .destroy) ?_ ?_ ?_ ?_ (hsafe [.owner] _ List.prefix_rfl)
    all_goals rw [hdestroy]
    · simpa [Option.isSome_iff_ne_none] using hcallback
    · exact hloop.running
    · exact hidle.1
  refine ⟨hreturned,?_⟩
  by_contra hbusy
  rw [Quiescent,not_or] at hbusy
  obtain ⟨hhttp,hin⟩ := hbusy
  obtain ⟨t,ht⟩ := not_forall.mp hin
  obtain ⟨n,u,hu⟩ := gets_looping hloop (not_not.mp ht)
  obtain ⟨hloop',htodo'⟩ := runs_undestroyed hloop t n
  have hfreed : s.httpFreed = false := by
    refine (h.stage.resolve_left fun hb => ?_).2.1
    exact absurd ((h.begun hb).1.symm.trans hd) (by decide)
  have hsome : s.server.http.isSome := Option.isSome_iff_ne_none.mpr hhttp
  let after : List Step := List.replicate n (.run t true) ++ [.request u [],.owner]
  have hcalled : exec step s (.destroy::after) = step { s with
      destroying := true
      todo := destructor
      loop := exec ThreadJoins.step s.loop (List.replicate n (.run t true))
      callback := some [] } .owner := by
    rw [exec,hdestroy,exec_append,
      exec_runs (s := { s with destroying := true, todo := destructor }) hreturned]
    simp [exec,step,Polling,Open,hu,hreturned,hsome,hfreed]
  have huntouched := hsafe after _ List.prefix_rfl
  rw [hcalled] at huntouched
  exact touched rfl hloop'.running (htodo'.trans hidle.1) rfl huntouched

/-- The `evhttp` of a server that has listened is freed before its base. -/
def FreedInOrder (s : System) : Prop :=
  s.baseFreed = true → s.server.http.isSome → s.httpFreed = true

theorem Whole.freed_in_order {s : System} (h : Whole s) : FreedInOrder s := by
  intro hbase hhttp
  rcases h.stage with hbegun | hstage
  · exact (h.begun hbegun).2.trans hhttp
  · exact absurd (hbase.symm.trans hstage.1) (by decide)

/-- A destructor that begins when its owner is in no other call sees no callback of libevent
while and after it frees the `evhttp`, whatever comes in between, if and only if the server has
never listened or no thread of its loop is in `event_base_loop` or on its way there: the
`~Loop` that stops the thread comes later. It always frees the `evhttp` before the base. -/
theorem freed_undisturbed_iff (run : List Step) (hwhole : (exec step create run).destroying = false)
    (hidle : (exec step create run).loop.Idle) :
    ((∀ after, Always step Untouched (exec step create run) (.destroy::after)) ↔
      Quiescent (exec step create run)) ∧
    ∀ after, Always step FreedInOrder (exec step create run) (.destroy::after) := by
  have h := reached_whole run
  generalize exec step create run = s at h hwhole hidle ⊢
  refine ⟨⟨fun hsafe => (quiescent_of_untouched h hwhole hidle hsafe).2,fun hquiescent after => ?_⟩,
    fun after pre _ => (exec_preserves (fun _ l h => step_whole l h) h pre).freed_in_order⟩
  have hreturned : s.callback = none := by
    by_contra hcallback
    have hsome := Option.isSome_iff_ne_none.mpr hcallback
    rcases hquiescent with hnone | hout
    · exact absurd (h.opened hsome) (by simp [hnone])
    · obtain ⟨t,ht⟩ := h.looping hsome
      exact hout t (by simp [ht])
  have hdestroy : step s .destroy = { s with destroying := true, todo := destructor } := by
    simp [step,hwhole,hidle]
  have hquiet : Quiet (step s .destroy) := by
    rw [hdestroy]
    exact ⟨hreturned,hquiescent,rfl⟩
  rw [always_cons]
  exact ⟨fun _ => hreturned,
    fun pre _ _ => (exec_preserves (fun _ l h => step_quiet l h) hquiet pre).returned⟩

/-- A server that listened, has answered, and was stopped and waited for. -/
theorem freed_undisturbed_stopped :
    Always step Untouched (exec step create [.listen true true [] 80,.start,.run 0 true,
      .run 0 true,.request 0 [],.returned,.stop true,.owner,.owner,.wait,.owner,.run 0 true,
      .run 0 true,.run 0 true,.owner]) [.destroy,.owner,.owner,.request 0 [],.owner,.owner] ∧
    Always step FreedInOrder (exec step create [.listen true true [] 80,.start,.run 0 true,
      .run 0 true,.request 0 [],.returned,.stop true,.owner,.owner,.wait,.owner,.run 0 true,
      .run 0 true,.run 0 true,.owner]) [.destroy,.owner,.owner,.request 0 [],.owner,.owner] := by
  have hunborn := ((reached_whole [.listen true true [] 80,.start,.run 0 true,.run 0 true,
    .request 0 [],.returned,.stop true,.owner,.owner,.wait,.owner,.run 0 true,.run 0 true,
    .run 0 true,.owner]).loop (by decide)).1.unborn
  obtain ⟨hiff,horder⟩ := freed_undisturbed_iff [.listen true true [] 80,.start,.run 0 true,
    .run 0 true,.request 0 [],.returned,.stop true,.owner,.owner,.wait,.owner,.run 0 true,
    .run 0 true,.run 0 true,.owner] (by decide) (by decide)
  refine ⟨hiff.mpr (.inr fun t => ?_) _,horder _⟩
  rcases Nat.eq_zero_or_pos t with rfl | ht
  · decide
  · rw [hunborn t ht]
    decide

end HttpTeardown
end Translib
