import Translib.TimerManager
import Translib.TransitionMachine

/-! Any number of timer managers, built by either constructor, and which map an audit timer
audits. -/

namespace Translib
namespace ManagerAudits

open TransitionMachine Timer

variable {α : Type*}

abbrev ManagerRef := ℕ

/-- The closures the two constructors start the audit timer with: one asks for the
process-wide instance, the other has captured `this`. -/
inductive AuditClosure
  | viaInstance
  | viaThis (m : ManagerRef)
  deriving DecidableEq, Repr

/-- `ownLoop` says that the loop is a member, and not passed in. -/
structure Manager (α : Type*) where
  ownLoop : Bool
  timers : TimerManager α
  auditTimer : Timer AuditClosure

/-- The managers by address. `ins` is the static pointer of `instance`. -/
structure System (α : Type*) where
  managers : ManagerRef → Option (Manager α)
  ins : Option ManagerRef
  created : ℕ

inductive Step (α : Type*)
  | constructOwnLoop (lib : Libevent)
  | constructOnLoop (lib : Libevent)
  | getInstance (lib : Libevent)
  | destroy (m : ManagerRef)
  | getTimer (m : ManagerRef)
  | killTimer (m : ManagerRef) (tid : ℤ)
  | auditTimer (m : ManagerRef)
  | call (m : ManagerRef) (tid : ℤ) (lib : Libevent) (c : Call α)
  | expire (m : ManagerRef) (tid : ℤ) (lib : Libevent)
  | expireAudit (m : ManagerRef) (lib : Libevent)
  deriving DecidableEq, Repr

def create : System α := ⟨fun _ => none,none,0⟩

def construct (lib : Libevent) (ownLoop : Bool) (closure : AuditClosure) (s : System α) :
    ManagerRef × System α :=
  (s.created,{ s with
    managers := Function.update s.managers s.created
      (some ⟨ownLoop,.create,TimerManager.newAuditTimer lib closure⟩)
    created := s.created+1 })

/-- `TimerManager()` -/
def constructOwnLoop (lib : Libevent) (s : System α) : ManagerRef × System α :=
  construct lib true .viaInstance s

/-- `TimerManager(Loop &)` -/
def constructOnLoop (lib : Libevent) (s : System α) : ManagerRef × System α :=
  construct lib false (.viaThis s.created) s

def getInstance (lib : Libevent) (s : System α) : ManagerRef × System α :=
  match s.ins with
  | some m => (m,s)
  | none =>
    let made := constructOwnLoop lib s
    (made.1,{ made.2 with ins := some made.1 })

def atManager (m : ManagerRef) (f : Manager α → Manager α) (s : System α) : System α :=
  { s with managers := Function.update s.managers m ((s.managers m).map f) }

def atTimers (m : ManagerRef) (f : TimerManager α → TimerManager α) (s : System α) : System α :=
  atManager m (fun manager => { manager with timers := f manager.timers }) s

def auditTimer (m : ManagerRef) (s : System α) : System α :=
  atTimers m (fun timers => timers.auditTimer.2) s

def AuditClosure.run (lib : Libevent) (s : System α) : AuditClosure → System α
  | .viaInstance => auditTimer (getInstance lib s).1 (getInstance lib s).2
  | .viaThis m => auditTimer m s

def expireAudit (m : ManagerRef) (lib : Libevent) (s : System α) : System α :=
  match (s.managers m).bind fun manager => manager.auditTimer.expire with
  | none => s
  | some (handler,timer) =>
    let s := atManager m (fun manager => { manager with auditTimer := timer }) s
    match handler with
    | .user closure => closure.run lib s
    | _ => s

/-- The event of a timer fires, and a closure of `startAfter` runs to its end. What any other
handler does comes after. -/
def expired (lib : Libevent) (t : Timer α) : Timer α :=
  match t.expire with
  | none => t
  | some (.startRounds interval rounds handler,t) =>
    (t.startRounds lib interval rounds handler).2
  | some (_,t) => t

def step (s : System α) : Step α → System α
  | .constructOwnLoop lib => (constructOwnLoop lib s).2
  | .constructOnLoop lib => (constructOnLoop lib s).2
  | .getInstance lib => (getInstance lib s).2
  | .destroy m =>
    if s.ins = some m then s else { s with managers := Function.update s.managers m none }
  | .getTimer m => atTimers m (fun timers => timers.getTimer.2) s
  | .killTimer m tid => atTimers m (fun timers => (timers.killTimer tid).2) s
  | .auditTimer m => auditTimer m s
  | .call m tid lib c => atTimers m (fun timers => timers.atTimer tid fun t => (callIn lib c t).2) s
  | .expire m tid lib => atTimers m (fun timers => timers.atTimer tid (expired lib)) s
  | .expireAudit m lib => expireAudit m lib s

def tMap (s : System α) (m : ManagerRef) : Option (List (ℤ × Timer α)) :=
  (s.managers m).map fun manager => manager.timers.t_map.entries

def AuditDue (s : System α) (m : ManagerRef) : Prop :=
  ∃ manager, s.managers m = some manager ∧ manager.auditTimer.isArmed = true

/-- When the audit timer of a manager expires, the finished timers leave the map of that
manager, and every other map stays as it is. -/
def AuditsItself (s : System α) : Step α → Prop
  | .expireAudit m lib => AuditDue s m →
    tMap (expireAudit m lib s) m = (tMap s m).map (List.filter fun i => !i.2.isFinished) ∧
      ∀ n, n ≠ m → (tMap s n).isSome → tMap (expireAudit m lib s) n = tMap s n
  | _ => True

def NoneFinished (s : System α) (m : ManagerRef) : Prop :=
  ∀ entries ∈ tMap s m, ∀ i ∈ entries, i.2.isFinished = false

/-- When the audit timer of a manager expires, the manager was given its loop, or is the
instance, or there is nothing to remove, neither from its map nor from that of the instance. -/
def WiredRight (s : System α) : Step α → Prop
  | .expireAudit m _ => AuditDue s m →
    (∃ manager, s.managers m = some manager ∧ manager.ownLoop = false) ∨ s.ins = some m ∨
      NoneFinished s m ∧ ∀ ins, s.ins = some ins → NoneFinished s ins
  | _ => True

theorem atManager_managers (m : ManagerRef) (f : Manager α → Manager α) (s : System α)
    (n : ManagerRef) :
    (atManager m f s).managers n = if n = m then (s.managers m).map f else s.managers n :=
  Function.update_apply _ _ _ _

theorem construct_managers (lib : Libevent) (ownLoop : Bool) (closure : AuditClosure) (s : System α)
    (n : ManagerRef) :
    (construct lib ownLoop closure s).2.managers n =
      if n = s.created then some ⟨ownLoop,.create,TimerManager.newAuditTimer lib closure⟩
      else s.managers n :=
  Function.update_apply _ _ _ _

theorem auditTimer_tMap (m : ManagerRef) (s : System α) (n : ManagerRef) :
    tMap (auditTimer m s) n =
      if n = m then (tMap s n).map (List.filter fun i => !i.2.isFinished) else tMap s n := by
  have hfilter (manager : Manager α) : manager.timers.auditTimer.2.t_map.entries =
      manager.timers.t_map.entries.filter fun i => !i.2.isFinished :=
    TimerManager.auditLoop_eq manager.timers.t_map.entries
  simp only [tMap,auditTimer,atTimers,atManager_managers]
  split_ifs with hn
  · rw [hn,Option.map_map,Option.map_map]
    exact congrFun (congrArg Option.map (funext hfilter)) (s.managers m)
  · rfl

theorem setAuditTimer_tMap (m : ManagerRef) (timer : Timer AuditClosure) (s : System α)
    (n : ManagerRef) :
    tMap (atManager m (fun manager => { manager with auditTimer := timer }) s) n = tMap s n := by
  simp only [tMap,atManager_managers]
  split_ifs with hn
  · rw [hn,Option.map_map]
    rfl
  · rfl

theorem getInstance_tMap (lib : Libevent) {s : System α} {n : ManagerRef} (hn : n ≠ s.created) :
    tMap (getInstance lib s).2 n = tMap s n := by
  unfold getInstance
  cases s.ins with
  | some m => rfl
  | none => exact congrArg (Option.map _) ((construct_managers _ _ _ s n).trans (if_neg hn))

theorem getInstance_ref (lib : Libevent) (s : System α) :
    (getInstance lib s).1 = s.ins.getD s.created := by
  unfold getInstance
  cases s.ins <;> rfl

def closureOf (m : ManagerRef) (ownLoop : Bool) : AuditClosure :=
  if ownLoop then .viaInstance else .viaThis m

/-- The invariant: audit timers run the closure of their constructor, and the instance is a
manager that was built with a loop of its own. -/
structure Wired (s : System α) : Prop where
  fresh : ∀ m, s.created ≤ m → s.managers m = none
  ins : ∀ m, s.ins = some m → ∃ manager, s.managers m = some manager
  closure : ∀ m manager, s.managers m = some manager → manager.auditTimer.event.isSome →
    manager.auditTimer.handler = .user (closureOf m manager.ownLoop)

theorem create_wired : Wired (create : System α) where
  fresh := fun _ _ => rfl
  ins := fun _ h => by cases h
  closure := fun _ _ h => by cases h

theorem expire_handler {β : Type*} {t t' : Timer β} {handler : Handler β}
    (h : t.expire = some (handler,t')) :
    t.event.isSome ∧ handler = t.handler ∧ t'.handler = t.handler := by
  cases he : t.event with
  | none => simp [Timer.expire,he] at h
  | some event =>
    simp only [Timer.expire,he] at h
    split_ifs at h
    cases h
    refine ⟨rfl,rfl,?_⟩
    dsimp only
    split_ifs <;> rfl

theorem newAuditTimer_handler {β : Type*} {lib : Libevent} {closure : β}
    (h : (TimerManager.newAuditTimer lib closure).event.isSome) :
    (TimerManager.newAuditTimer lib closure).handler = .user closure := by
  obtain ⟨eventNew,eventAdd⟩ := lib
  cases eventNew <;> cases eventAdd <;>
    simp_all [TimerManager.newAuditTimer,startForever,startRounds,Timer.create,reset]

theorem Wired.old {s : System α} (h : Wired s) {m : ManagerRef} {manager : Manager α}
    (hm : s.managers m = some manager) : m ≠ s.created := by
  rintro rfl
  cases hm.symm.trans (h.fresh s.created le_rfl)

theorem construct_wired {s : System α} (h : Wired s) (lib : Libevent) (ownLoop : Bool) :
    Wired (construct lib ownLoop (closureOf s.created ownLoop) s).2 := by
  refine ⟨fun m hm => ?_,fun m hm => ?_,fun m manager hm hevent => ?_⟩
  · have hm' : s.created < m := hm
    exact (construct_managers _ _ _ s m).trans ((if_neg hm'.ne').trans (h.fresh m hm'.le))
  · obtain ⟨manager,hmanager⟩ := h.ins m hm
    exact ⟨manager,(construct_managers _ _ _ s m).trans ((if_neg (h.old hmanager)).trans hmanager)⟩
  · rw [construct_managers] at hm
    split_ifs at hm with hnew
    · cases hm
      rw [hnew]
      exact newAuditTimer_handler hevent
    · exact h.closure m manager hm hevent

theorem getInstance_wired {s : System α} (h : Wired s) (lib : Libevent) :
    Wired (getInstance lib s).2 := by
  unfold getInstance
  cases s.ins with
  | some m => exact h
  | none =>
    have hmade : Wired (constructOwnLoop lib s).2 := construct_wired h lib true
    refine ⟨hmade.fresh,fun m hm => ?_,hmade.closure⟩
    cases hm
    exact ⟨_,(construct_managers _ _ _ s s.created).trans (if_pos rfl)⟩

theorem atManager_wired {s : System α} (h : Wired s) (m : ManagerRef) {f : Manager α → Manager α}
    (hf : ∀ manager, s.managers m = some manager → (f manager).auditTimer.event.isSome →
      (f manager).auditTimer.handler = .user (closureOf m (f manager).ownLoop)) :
    Wired (atManager m f s) := by
  refine ⟨fun n hn => ?_,fun n hn => ?_,fun n manager hn hevent => ?_⟩
  · have hnone := h.fresh n hn
    rw [atManager_managers]
    split_ifs with hnm
    · rw [← hnm,hnone]
      rfl
    · exact hnone
  · obtain ⟨manager,hmanager⟩ := h.ins n hn
    rw [atManager_managers]
    split_ifs with hnm
    · rw [← hnm,hmanager]
      exact ⟨_,rfl⟩
    · exact ⟨manager,hmanager⟩
  · rw [atManager_managers] at hn
    split_ifs at hn with hnm
    · obtain ⟨old,hold,rfl⟩ := Option.map_eq_some_iff.mp hn
      rw [hnm]
      exact hf old hold hevent
    · exact h.closure n manager hn hevent

theorem atTimers_wired {s : System α} (h : Wired s) (m : ManagerRef)
    (f : TimerManager α → TimerManager α) : Wired (atTimers m f s) :=
  atManager_wired h m fun manager hm => h.closure m manager hm

theorem auditTimer_wired {s : System α} (h : Wired s) (m : ManagerRef) : Wired (auditTimer m s) :=
  atTimers_wired h m fun timers => timers.auditTimer.2

theorem run_wired {s : System α} (h : Wired s) (lib : Libevent) (closure : AuditClosure) :
    Wired (closure.run lib s) := by
  cases closure with
  | viaInstance => exact auditTimer_wired (getInstance_wired h lib) _
  | viaThis m => exact auditTimer_wired h m

theorem expireAudit_wired {s : System α} (h : Wired s) (m : ManagerRef) (lib : Libevent) :
    Wired (expireAudit m lib s) := by
  unfold expireAudit
  cases hexpire : (s.managers m).bind fun manager => manager.auditTimer.expire with
  | none => exact h
  | some r =>
    obtain ⟨handler,timer⟩ := r
    obtain ⟨manager,hm,hfired⟩ := Option.bind_eq_some_iff.mp hexpire
    obtain ⟨hevent,hhandler,hsame⟩ := expire_handler hfired
    have hclosure := h.closure m manager hm hevent
    have hfree : Wired (atManager m (fun manager => { manager with auditTimer := timer }) s) := by
      refine atManager_wired h m fun old hold _ => ?_
      cases hm.symm.trans hold
      exact hsame.trans hclosure
    rw [hhandler,hclosure]
    exact run_wired hfree lib _

theorem step_wired {s : System α} (l : Step α) (h : Wired s) : Wired (step s l) := by
  cases l with
  | constructOwnLoop lib => exact construct_wired h lib true
  | constructOnLoop lib => exact construct_wired h lib false
  | getInstance lib => exact getInstance_wired h lib
  | destroy m =>
    simp only [step]
    split_ifs with hins
    · exact h
    · refine ⟨fun n hn => ?_,fun n hn => ?_,fun n manager hn => ?_⟩
      · by_cases hnm : n = m
        · rw [hnm]
          exact Function.update_self _ _ _
        · exact (Function.update_of_ne hnm _ _).trans (h.fresh n hn)
      · have hnm : n ≠ m := fun hnm => hins (hnm ▸ hn)
        obtain ⟨manager,hmanager⟩ := h.ins n hn
        exact ⟨manager,(Function.update_of_ne hnm _ _).trans hmanager⟩
      · simp only at hn
        have hnm : n ≠ m := by
          rintro rfl
          rw [Function.update_self] at hn
          cases hn
        rw [Function.update_of_ne hnm] at hn
        exact h.closure n manager hn
  | getTimer m => exact atTimers_wired h m fun timers => timers.getTimer.2
  | killTimer m tid => exact atTimers_wired h m fun timers => (timers.killTimer tid).2
  | auditTimer m => exact auditTimer_wired h m
  | call m tid lib c => exact atTimers_wired h m _
  | expire m tid lib => exact atTimers_wired h m _
  | expireAudit m lib => exact expireAudit_wired h m lib

def AuditClosure.target (s : System α) : AuditClosure → ManagerRef
  | .viaInstance => s.ins.getD s.created
  | .viaThis m => m

/-- Of the maps there are, the audit is that of one. -/
theorem run_tMap (lib : Libevent) (s : System α) (closure : AuditClosure) {n : ManagerRef}
    (hn : n ≠ s.created) :
    tMap (closure.run lib s) n =
      if n = closure.target s then (tMap s n).map (List.filter fun i => !i.2.isFinished)
      else tMap s n := by
  cases closure with
  | viaInstance =>
    have hold := getInstance_tMap lib hn
    rw [AuditClosure.run,auditTimer_tMap,hold,getInstance_ref]
    rfl
  | viaThis m => exact auditTimer_tMap m s n

theorem expireAudit_tMap {s : System α} (h : Wired s) {m : ManagerRef} {manager : Manager α}
    (hm : s.managers m = some manager) (hdue : manager.auditTimer.isArmed = true) (lib : Libevent)
    {n : ManagerRef} (hn : (tMap s n).isSome) :
    tMap (expireAudit m lib s) n =
      if n = (closureOf m manager.ownLoop).target s then
        (tMap s n).map (List.filter fun i => !i.2.isFinished)
      else tMap s n := by
  obtain ⟨⟨handler,timer⟩,hfired⟩ := armed_expire hdue
  obtain ⟨hevent,hhandler,_⟩ := expire_handler hfired
  have hbind : ((s.managers m).bind fun manager => manager.auditTimer.expire) =
      some (handler,timer) := by rw [hm]; exact hfired
  have hold : n ≠ s.created := by
    rintro rfl
    simp [tMap,h.fresh s.created le_rfl] at hn
  rw [expireAudit,hbind,hhandler,h.closure m manager hm hevent]
  have hrun := run_tMap lib
    (atManager m (fun manager => { manager with auditTimer := timer }) s)
    (closureOf m manager.ownLoop) hold
  rw [setAuditTimer_tMap] at hrun
  exact hrun

theorem filter_finished_iff {s : System α} {m : ManagerRef} :
    (tMap s m).map (List.filter fun i => !i.2.isFinished) = tMap s m ↔ NoneFinished s m := by
  unfold NoneFinished
  cases tMap s m with
  | none => simp
  | some entries => simp [List.filter_eq_self]

theorem noneFinished_instance {s : System α} (h : Wired s) :
    NoneFinished s (s.ins.getD s.created) ↔ ∀ ins, s.ins = some ins → NoneFinished s ins := by
  cases s.ins with
  | none =>
    refine iff_of_true (fun entries hentries => ?_) (fun _ hins => by cases hins)
    simp [tMap,h.fresh s.created le_rfl] at hentries
  | some ins => simp

/-- The audit of another manager changes nothing where there is nothing to remove. -/
theorem frame_iff {s : System α} {m target : ManagerRef} (hother : m ≠ target) :
    (∀ n, n ≠ m → (tMap s n).isSome →
      (if n = target then (tMap s n).map (List.filter fun i => !i.2.isFinished) else tMap s n) =
        tMap s n) ↔ NoneFinished s target := by
  rw [← filter_finished_iff]
  constructor
  · intro hframe
    cases ht : tMap s target with
    | none => rfl
    | some entries =>
      have hunchanged := hframe target hother.symm (by rw [ht]; rfl)
      rwa [if_pos rfl,ht] at hunchanged
  · intro hnone n _ _
    split_ifs with hn
    · rw [hn]
      exact hnone
    · rfl

theorem target_iff {s : System α} {m target : ManagerRef}
    {after : ManagerRef → Option (List (ℤ × Timer α))} (hm : (tMap s m).isSome)
    (hafter : ∀ n, (tMap s n).isSome → after n =
      if n = target then (tMap s n).map (List.filter fun i => !i.2.isFinished) else tMap s n) :
    (after m = (tMap s m).map (List.filter fun i => !i.2.isFinished) ∧
        ∀ n, n ≠ m → (tMap s n).isSome → after n = tMap s n) ↔
      m = target ∨ NoneFinished s m ∧ NoneFinished s target := by
  have hframe : (∀ n, n ≠ m → (tMap s n).isSome → after n = tMap s n) ↔
      ∀ n, n ≠ m → (tMap s n).isSome →
        (if n = target then (tMap s n).map (List.filter fun i => !i.2.isFinished) else tMap s n) =
          tMap s n :=
    forall₂_congr fun n _ => forall_congr' fun hn => by rw [hafter n hn]
  rw [hframe,hafter m hm]
  by_cases hself : m = target
  · refine iff_of_true ⟨if_pos hself,fun n hne _ => ?_⟩ (.inl hself)
    exact if_neg (hself ▸ hne)
  · rw [if_neg hself,frame_iff hself,eq_comm,filter_finished_iff,or_iff_right hself]

theorem auditsItself_iff {s : System α} (h : Wired s) (l : Step α) :
    AuditsItself s l ↔ WiredRight s l := by
  cases l with
  | expireAudit m lib =>
    refine forall_congr' fun ⟨manager,hm,hdue⟩ => ?_
    have hself : (tMap s m).isSome := by simp [tMap,hm]
    have hgiven : (∃ manager, s.managers m = some manager ∧ manager.ownLoop = false) ↔
        manager.ownLoop = false := by simp [hm]
    rw [target_iff hself fun n hn => expireAudit_tMap h hm hdue lib hn,hgiven]
    cases manager.ownLoop with
    | false => exact iff_of_true (.inl rfl) (.inl rfl)
    | true =>
      have hinstance : m = s.ins.getD s.created ↔ s.ins = some m := by
        cases s.ins with
        | none => simpa using h.old hm
        | some ins => simp [eq_comm]
      have htarget : (closureOf m true).target s = s.ins.getD s.created := rfl
      rw [htarget,hinstance,noneFinished_instance h]
      simp
  | _ => exact Iff.rfl

/-- Any number of managers, in any order of events: every expiration of an audit timer audits
the map of its own manager and no other, if and only if the ones that ask for the instance
are its own or have nothing to remove. -/
theorem audits_itself_iff (run : List (Step α)) :
    Along step AuditsItself create run ↔ Along step WiredRight create run :=
  along_congr (A := fun _ _ => True) (fun _ l h _ => step_wired l h)
    (fun _ l h _ => auditsItself_iff h l) create_wired (along_true step _ run)

/-- A manager with a loop of its own that is not the instance: its finished timer stays, and
that of the instance goes in its place. -/
theorem instance_audited :
    let s := exec step (create : System Unit) [.getInstance ⟨true,true⟩,.constructOwnLoop ⟨true,true⟩,
      .getTimer 0,.call 0 0 ⟨true,true⟩ (.startOnce 10 (.user ())),.expire 0 0 ⟨true,true⟩,
      .getTimer 1,.call 1 0 ⟨true,true⟩ (.startOnce 10 (.user ())),.expire 1 0 ⟨true,true⟩]
    let audited := step s (.expireAudit 1 ⟨true,true⟩)
    (¬ ∀ run : List (Step Unit), Along step AuditsItself create run) ∧
    (∃ t, t.isFinished = true ∧ tMap s 1 = some [(0,t)] ∧ tMap audited 1 = some [(0,t)]) ∧
    (∃ t, tMap s 0 = some [(0,t)]) ∧ tMap audited 0 = some [] := by
  refine ⟨fun h => ?_,⟨_,rfl,rfl,rfl⟩,⟨_,rfl⟩,rfl⟩
  have haudit := h [.constructOwnLoop ⟨true,true⟩,.getTimer 0,
    .call 0 0 ⟨true,true⟩ (.startOnce 10 (.user ())),.expire 0 0 ⟨true,true⟩,
    .expireAudit 0 ⟨true,true⟩]
  obtain ⟨hself,-⟩ := haudit.2.2.2.2.1 ⟨_,rfl,rfl⟩
  cases hself

end ManagerAudits
end Translib
