import Translib.Countdown
import Translib.Timer

/-! The timer refines the countdown, from outside and from inside its handlers. -/

namespace Translib
namespace TimerRefinement

open Timer CallbackMachine

variable {α : Type*}

def Counts (rounds : ℕ) : Prop := 1 ≤ rounds ∧ rounds ≤ 2^64-2

/-- Functions of the user, and closures of `startAfter` around valid handlers. -/
def ValidHandler : Handler α → Prop
  | .user _ => True
  | .startRounds _ rounds handler => Counts rounds ∧ ValidHandler handler
  | .null => False
  | .callCB => False

def ValidCall : Call α → Prop
  | .startRounds _ rounds handler => Counts rounds ∧ ValidHandler handler
  | .startOnce _ handler => ValidHandler handler
  | .startForever _ handler => ValidHandler handler
  | .startAfter _ _ rounds handler => Counts rounds ∧ ValidHandler handler
  | .startCB _ _ _ _ => False
  | .stop => True

abbrev Reference (α : Type*) := Countdown.State (Handler α)

def referenceStart (rounds : ℕ) (handler : Handler α) (s : Reference α) : Option Bool × Reference α :=
  (Countdown.start rounds handler s).map some id

def referenceCall : Call α → Reference α → Option Bool × Reference α
  | .startRounds _ rounds handler, s => referenceStart rounds handler s
  | .startOnce _ handler, s => referenceStart 1 handler s
  | .startForever _ handler, s => referenceStart (2^32-1) handler s
  | .startAfter _ interval rounds handler, s =>
    referenceStart 1 (.startRounds interval rounds handler) s
  | .startCB _ _ _ _, s => referenceStart (2^32-1) .callCB s
  | .stop, s => (none,Countdown.stop s)

def reference : Machine (Reference α) (Call α) (Option Bool) (Handler α) Report where
  call := referenceCall
  invoke := Countdown.expire
  report := fun s => ⟨Countdown.isRunning s,Countdown.isFinished s⟩

inductive Refines (t : Timer α) : Reference α → Prop
  | never (idle : t.event = none) (unfinished : t.curRound < t.round) : Refines t .never
  | running (event : TimerEvent) (n k : ℕ) (h : Handler α) (armed : t.event = some event)
      (pending : event.pending = true) (persist : event.persist = decide (1 < n))
      (round : t.round = n) (curRound : t.curRound = k) (handler : t.handler = h)
      (counts : Counts n) (left : k < n) (valid : ValidHandler h) : Refines t (.running n k h)
  | done (idle : t.event = none) (finished : t.round ≤ t.curRound) : Refines t .done

theorem create_refines : Refines (create : Timer α) .never := .never rfl Nat.one_pos

theorem startRounds_refines {t : Timer α} {s : Reference α} (hr : Refines t s) (interval : ℕ)
    {rounds : ℕ} (hrounds : Counts rounds) {handler : Handler α} (hvalid : ValidHandler handler) :
    (startRounds ⟨true,true⟩ interval rounds handler t).1 = (Countdown.start rounds handler s).1 ∧
      Refines (startRounds ⟨true,true⟩ interval rounds handler t).2
        (Countdown.start rounds handler s).2 := by
  have hnew (hidle : t.event = none) :
      (startRounds ⟨true,true⟩ interval rounds handler t).1 = true ∧
        Refines (startRounds ⟨true,true⟩ interval rounds handler t).2 (.running rounds 0 handler) := by
    rw [startRounds_idle interval rounds handler hidle]
    exact ⟨rfl,.running (newEvent interval rounds) rounds 0 handler rfl rfl rfl rfl rfl rfl hrounds
      hrounds.1 hvalid⟩
  cases hr with
  | never idle _ => exact hnew idle
  | done idle _ => exact hnew idle
  | running event n k h armed pending persist hn hk hh counts left valid =>
    rw [startRounds_armed _ interval rounds handler (by simp [armed])]
    exact ⟨rfl,.running event n k h armed pending persist hn hk hh counts left valid⟩

theorem stop_refines {t : Timer α} {s : Reference α} (hr : Refines t s) :
    Refines (stop t) (Countdown.stop s) := by
  cases hr with
  | never idle unfinished =>
    rw [stop,reset_idle idle]
    exact .never idle unfinished
  | done idle finished =>
    rw [stop,reset_idle idle]
    exact .done idle finished
  | running event n k h armed pending persist hn hk hh counts left valid =>
    rw [stop,reset_armed (by simp [armed])]
    refine .done rfl ?_
    have hbound := counts.2
    have hlast : uint64 (t.round+1) = t.round+1 := Nat.mod_eq_of_lt (by omega)
    simp only [hlast]
    omega

/-- One expiration. The relation holds again when the handler is entered. -/
theorem expire_refines {t : Timer α} {s : Reference α} (hr : Refines t s) :
    (expire t = none ∧ Countdown.expire s = none) ∨
      ∃ h t' s', expire t = some (h,t') ∧ Countdown.expire s = some (h,s') ∧ Refines t' s' ∧
        ValidHandler h := by
  cases hr with
  | never idle _ => exact .inl ⟨expire_idle idle,rfl⟩
  | done idle _ => exact .inl ⟨expire_idle idle,rfl⟩
  | running event n k h armed pending persist hn hk hh counts left valid =>
    right
    have hbound := counts.2
    have h64 : t.curRound+1 < 2^64 := by omega
    by_cases hlast : k+1 = n
    · refine ⟨h,{ t with event := none, curRound := uint64 (t.round+1) },.done,?_,
        by simp [Countdown.expire,hlast],?_,valid⟩
      · rw [← hh]
        exact expire_last armed pending h64 (by omega)
      · refine .done rfl ?_
        have hpast : uint64 (t.round+1) = t.round+1 := Nat.mod_eq_of_lt (by omega)
        simp only [hpast]
        omega
    · have hpersist : event.persist = true := by
        rw [persist,decide_eq_true_eq]
        omega
      refine ⟨h,{ t with curRound := t.curRound+1 },.running n (k+1) h,?_,
        by simp [Countdown.expire,hlast],?_,valid⟩
      · rw [← hh]
        exact expire_counts armed pending hpersist h64 (by omega)
      · exact .running event n (k+1) h armed pending persist hn (by rw [← hk]) hh counts
          (by omega) valid

theorem simulation :
    Simulation (machine : Machine (Timer α) _ _ _ _) reference script ValidCall Refines where
  call := by
    intro c t s hc hr
    have hone : Counts 1 := ⟨le_rfl,by decide⟩
    have hforever : Counts foreverRounds := ⟨by decide,by decide⟩
    have hstart {interval rounds : ℕ} {handler : Handler α} (hrounds : Counts rounds)
        (hvalid : ValidHandler handler) :
        ((startRounds ⟨true,true⟩ interval rounds handler t).map some id).1 =
            (referenceStart rounds handler s).1 ∧
          Refines ((startRounds ⟨true,true⟩ interval rounds handler t).map some id).2
            (referenceStart rounds handler s).2 := by
      obtain ⟨hanswer,hafter⟩ := startRounds_refines hr interval hrounds hvalid
      exact ⟨congrArg some hanswer,hafter⟩
    cases c with
    | startRounds interval rounds handler => exact hstart hc.1 hc.2
    | startOnce interval handler => exact hstart hone hc
    | startForever interval handler => exact hstart hforever hc
    | startAfter after interval rounds handler => exact hstart hone hc
    | startCB interval handler userData tid => exact hc.elim
    | stop => exact ⟨rfl,stop_refines hr⟩
  invoke := by
    intro t s hr
    rcases expire_refines hr with hnone | ⟨h,t',s',ht,hs,hr',hvalid⟩
    · exact .inl hnone
    · refine .inr ⟨h,t',s',ht,hs,hr',fun cs hcs c hc => ?_⟩
      cases h with
      | startRounds interval round handler =>
        cases hcs
        simp only [List.mem_singleton] at hc
        subst hc
        exact hvalid
      | null => cases hcs
      | user f => cases hcs
      | callCB => cases hcs
  report := by
    intro t s hr
    cases hr with
    | never idle unfinished =>
      simp [machine,reference,isArmed,isFinished,Countdown.isRunning,Countdown.isFinished,idle,
        unfinished]
    | done idle finished =>
      simp [machine,reference,isArmed,isFinished,Countdown.isRunning,Countdown.isFinished,idle,
        finished]
    | running event n k h armed pending persist hn hk hh counts left valid =>
      simp [machine,reference,isArmed,isFinished,Countdown.isRunning,Countdown.isFinished,armed,
        pending,hn,hk,left]

theorem start_idle {s : Reference α} (h : Countdown.isRunning s = false) (n : ℕ) (g : Handler α) :
    Countdown.start n g s = (true,.running n 0 g) := by
  cases s with
  | never => rfl
  | running n' k g' => cases h
  | done => rfl

theorem reference_startRounds {s : Reference α} (hidle : Countdown.isRunning s = false)
    (interval : ℕ) {n : ℕ} (hn : Counts n) (f : α) (N : ℕ) :
    entered (trace reference script s
      (.call (.startRounds interval n (.user f)) :: List.replicate N (.invoke []))).2 =
        List.replicate (min N n) (.user f) := by
  have hcall : (reference.call (.startRounds interval n (.user f)) s).2 = .running n 0 (.user f) :=
    congrArg Prod.snd (start_idle hidle n (.user f))
  rw [trace,step_call,hcall,entered_append]
  exact Countdown.entered_undisturbed rfl rfl hn.1 N

theorem reference_startAfter {s : Reference α} (hidle : Countdown.isRunning s = false)
    (after interval : ℕ) {n : ℕ} (hn : Counts n) (f : α) (N : ℕ) :
    entered (trace reference script s
      (.call (.startAfter after interval n (.user f)) :: List.replicate (N+1) (.invoke []))).2 =
        .startRounds interval n (.user f) :: List.replicate (min N n) (.user f) := by
  have hcall : (reference.call (.startAfter after interval n (.user f)) s).2 =
      .running 1 0 (.startRounds interval n (.user f)) :=
    congrArg Prod.snd (start_idle hidle 1 (.startRounds interval n (.user f)))
  have hexpire : reference.invoke (.running 1 0 (.startRounds interval n (.user f))) =
      some (.startRounds interval n (.user f),.done) := rfl
  have hbody : (calls reference (.done : Reference α) [.startRounds interval n (.user f)]).1 =
      .running n 0 (.user f) := rfl
  rw [trace,step_call,hcall,List.replicate_succ,trace,step_invoke hexpire]
  simp only [script,Option.getD_some,hbody,entered_append,entered_answer,entered_report,
    entered_nil,entered_entered,calls_entered,List.nil_append,List.singleton_append]
  exact congrArg _ (Countdown.entered_undisturbed rfl rfl hn.1 N)

/-- The timer refines the countdown: in every run of starts, stops and expirations, with
starts and stops made in handlers too, it enters the same handlers in the same order,
gives the same answers, and shows the same reports after each call and at the entry of
each handler. Hence after any such run that leaves the timer idle, an undisturbed
`startRounds` or `startAfter` of `n` rounds calls the handler `n` times and no more. -/
theorem timer_refines_countdown (es : List (Event (Call α))) (hes : ∀ e ∈ es, e.All ValidCall) :
    let t := (trace machine script (create : Timer α) es).1
    (trace machine script (create : Timer α) es).2 = (trace reference script .never es).2 ∧
      (t.isArmed = false → ∀ interval n f N, Counts n →
        entered (trace machine script t
          (.call (.startRounds interval n (.user f)) :: List.replicate N (.invoke []))).2 =
            List.replicate (min N n) (.user f) ∧
        ∀ after, entered (trace machine script t
          (.call (.startAfter after interval n (.user f)) :: List.replicate (N+1) (.invoke []))).2 =
            .startRounds interval n (.user f) :: List.replicate (min N n) (.user f)) := by
  intro t
  obtain ⟨hsame,hr⟩ := simulation.trace create_refines es hes
  refine ⟨hsame,fun hidle interval n f N hn => ?_⟩
  have hidle' : Countdown.isRunning (trace reference script (.never : Reference α) es).1 = false := by
    have hreport := simulation.report _ _ hr
    exact (congrArg Report.armed hreport).symm.trans hidle
  have hundisturbed (c : Call α) (hc : ValidCall c) (M : ℕ) :
      ∀ e ∈ .call c :: List.replicate M (Event.invoke []), e.All ValidCall := by
    intro e he
    rcases List.mem_cons.mp he with rfl | he
    · exact hc
    · rw [List.eq_of_mem_replicate he]
      simp [Event.All]
  constructor
  · rw [(simulation.trace hr _ (hundisturbed (.startRounds interval n (.user f)) ⟨hn,trivial⟩ N)).1]
    exact reference_startRounds hidle' interval hn f N
  · intro after
    rw [(simulation.trace hr _
      (hundisturbed (.startAfter after interval n (.user f)) ⟨hn,trivial⟩ (N+1))).1]
    exact reference_startAfter hidle' after interval hn f N

theorem timer_refines_restarted :
    let es : List (Event (Call ℕ)) := [.call (.startRounds 100 2 (.user 0)),.invoke [],
      .invoke [.startRounds 100 5 (.user 1)],.invoke [.stop,.startOnce 7 (.user 2)],.invoke []]
    let t := (trace machine script (create : Timer ℕ) es).1
    (trace machine script (create : Timer ℕ) es).2 = (trace reference script .never es).2 ∧
      entered (trace machine script t
        (.call (.startRounds 10 3 (.user 3)) :: List.replicate 5 (.invoke []))).2 =
          List.replicate 3 (.user 3) := by
  intro es t
  obtain ⟨hsame,hundisturbed⟩ :=
    timer_refines_countdown es (by simp [es,Event.All,ValidCall,ValidHandler,Counts])
  exact ⟨hsame,(hundisturbed (by decide) 10 3 3 5 ⟨by decide,by decide⟩).1⟩

end TimerRefinement
end Translib
