import Mathlib.Data.List.Basic
import Mathlib.Tactic

/-!
# Machines called from inside their own callbacks

A machine is called from outside, and now and then invokes a callback, during
which it may be called again. What an observer sees is the result of each call,
each callback invoked, and a report of the machine after each call and at the
entry of each callback. Two machines related by a simulation show the same.
-/

namespace Translib
namespace CallbackMachine

/-- `invoke` is the machine acting on its own: the callback it runs and the state
in which the callback is entered. -/
structure Machine (S C A H V : Type*) where
  call : C → S → A × S
  invoke : S → Option (H × S)
  report : S → V

/-- A run alternates calls from outside with invocations; `body` is what the
callback of this invocation does, when its script is not fixed. -/
inductive Event (C : Type*)
  | call (c : C)
  | invoke (body : List C)
  deriving DecidableEq, Repr

inductive Observation (A H V : Type*)
  | answer (a : A)
  | entered (h : H)
  | report (v : V)
  deriving DecidableEq, Repr

variable {S S' C A H V : Type*}

def calls (m : Machine S C A H V) : S → List C → S × List (Observation A H V)
  | s, [] => (s,[])
  | s, c::cs =>
    let r := m.call c s
    let rest := calls m r.2 cs
    (rest.1,.answer r.1 :: .report (m.report r.2) :: rest.2)

/-- `script h` is the body of the callback `h` where it is fixed. -/
def step (m : Machine S C A H V) (script : H → Option (List C)) (s : S) :
    Event C → S × List (Observation A H V)
  | .call c => calls m s [c]
  | .invoke body =>
    match m.invoke s with
    | none => (s,[.report (m.report s)])
    | some (h,s') =>
      let r := calls m s' ((script h).getD body)
      (r.1,.entered h :: .report (m.report s') :: r.2)

def trace (m : Machine S C A H V) (script : H → Option (List C)) :
    S → List (Event C) → S × List (Observation A H V)
  | s, [] => (s,[])
  | s, e::es =>
    let r := step m script s e
    let rest := trace m script r.1 es
    (rest.1,r.2 ++ rest.2)

theorem step_call (m : Machine S C A H V) (script : H → Option (List C)) (s : S) (c : C) :
    step m script s (.call c) =
      ((m.call c s).2,[.answer (m.call c s).1,.report (m.report (m.call c s).2)]) := rfl

theorem step_invoke {m : Machine S C A H V} {s t : S} {h : H} (hm : m.invoke s = some (h,t))
    (script : H → Option (List C)) (body : List C) :
    step m script s (.invoke body) =
      ((calls m t ((script h).getD body)).1,
        .entered h :: .report (m.report t) :: (calls m t ((script h).getD body)).2) := by
  simp [step,hm]

def invocations (es : List (Event C)) : ℕ :=
  es.countP fun | .invoke _ => true | .call _ => false

@[simp] theorem invocations_nil : invocations ([] : List (Event C)) = 0 := rfl

@[simp] theorem invocations_call (c : C) (es : List (Event C)) :
    invocations (.call c :: es) = invocations es := by
  simp [invocations]

@[simp] theorem invocations_invoke (body : List C) (es : List (Event C)) :
    invocations (.invoke body :: es) = invocations es + 1 := by
  simp [invocations]

theorem invocations_replicate (n : ℕ) (body : List C) :
    invocations (List.replicate n (.invoke body)) = n := by
  induction n with
  | zero => rfl
  | succ n ih => simp [List.replicate_succ,ih]

def entered (os : List (Observation A H V)) : List H :=
  os.filterMap fun | .entered h => some h | _ => none

def reports (os : List (Observation A H V)) : List V :=
  os.filterMap fun | .report v => some v | _ => none

@[simp] theorem entered_nil : entered ([] : List (Observation A H V)) = [] := rfl

@[simp] theorem entered_entered (h : H) (os : List (Observation A H V)) :
    entered (.entered h :: os) = h :: entered os := rfl

@[simp] theorem entered_answer (a : A) (os : List (Observation A H V)) :
    entered (.answer a :: os) = entered os := rfl

@[simp] theorem entered_report (v : V) (os : List (Observation A H V)) :
    entered (.report v :: os) = entered os := rfl

@[simp] theorem entered_append (os ps : List (Observation A H V)) :
    entered (os++ps) = entered os ++ entered ps := List.filterMap_append

@[simp] theorem reports_nil : reports ([] : List (Observation A H V)) = [] := rfl

@[simp] theorem reports_entered (h : H) (os : List (Observation A H V)) :
    reports (.entered h :: os) = reports os := rfl

@[simp] theorem reports_report (v : V) (os : List (Observation A H V)) :
    reports (.report v :: os) = v :: reports os := rfl

@[simp] theorem reports_answer (a : A) (os : List (Observation A H V)) :
    reports (.answer a :: os) = reports os := rfl

@[simp] theorem reports_append (os ps : List (Observation A H V)) :
    reports (os++ps) = reports os ++ reports ps := List.filterMap_append

@[simp] theorem calls_entered (m : Machine S C A H V) (s : S) (cs : List C) :
    entered (calls m s cs).2 = [] := by
  induction cs generalizing s with
  | nil => rfl
  | cons c cs ih => simpa [calls] using ih (m.call c s).2

theorem calls_invariant {m : Machine S C A H V} {P : C → Prop} {I : S → Prop}
    (hcall : ∀ c s, P c → I s → I (m.call c s).2) {s : S} (hs : I s) {cs : List C}
    (hcs : ∀ c ∈ cs, P c) : I (calls m s cs).1 := by
  induction cs generalizing s with
  | nil => exact hs
  | cons c cs ih => exact ih (hcall c s (hcs c (by simp)) hs) fun c hc => hcs c (by simp [hc])

theorem calls_keep {m : Machine S C A H V} {P : C → Prop} {I : S → Prop} {V' : V → Prop}
    (hcall : ∀ c s, P c → I s → I (m.call c s).2) (hreport : ∀ s, I s → V' (m.report s)) {s : S}
    (hs : I s) {cs : List C} (hcs : ∀ c ∈ cs, P c) :
    I (calls m s cs).1 ∧ ∀ v ∈ reports (calls m s cs).2, V' v := by
  refine ⟨calls_invariant hcall hs hcs,?_⟩
  induction cs generalizing s with
  | nil => simp [calls]
  | cons c cs ih =>
    have hc := hcall c s (hcs c (by simp)) hs
    intro v hv
    simp only [calls,reports_answer,reports_report,List.mem_cons] at hv
    rcases hv with rfl | hv
    · exact hreport _ hc
    · exact ih hc (fun c hc => hcs c (by simp [hc])) v hv

/-- Every call of the run, made outside or inside a callback, satisfies `P`. -/
def Event.All (P : C → Prop) : Event C → Prop
  | .call c => P c
  | .invoke body => ∀ c ∈ body, P c

theorem trace_keep {m : Machine S C A H V} {P : C → Prop} {I : S → Prop}
    (hcall : ∀ c s, P c → I s → I (m.call c s).2)
    (hinvoke : ∀ s h t, I s → m.invoke s = some (h,t) → I t) {s : S} (hs : I s) {es : List (Event C)}
    (hes : ∀ e ∈ es, e.All P) : I (trace m (fun _ => none) s es).1 := by
  induction es generalizing s with
  | nil => exact hs
  | cons e es ih =>
    refine ih ?_ fun e he => hes e (by simp [he])
    have he : e.All P := hes e (by simp)
    cases e with
    | call c => exact calls_invariant hcall hs (by simpa [Event.All] using he)
    | invoke body =>
      cases hm : m.invoke s with
      | none => simpa [step,hm] using hs
      | some r =>
        obtain ⟨h,t⟩ := r
        rw [step_invoke hm]
        exact calls_invariant hcall (hinvoke s h t hs hm) he

/-- What a relation between two machines must satisfy to be a simulation for the
calls in `P` and the callbacks in `Q`. -/
structure Simulation (m : Machine S C A H V) (m' : Machine S' C A H V)
    (script : H → Option (List C)) (P : C → Prop) (R : S → S' → Prop) : Prop where
  call : ∀ c s s', P c → R s s' →
    (m.call c s).1 = (m'.call c s').1 ∧ R (m.call c s).2 (m'.call c s').2
  invoke : ∀ s s', R s s' →
    (m.invoke s = none ∧ m'.invoke s' = none) ∨
    ∃ h t t', m.invoke s = some (h,t) ∧ m'.invoke s' = some (h,t') ∧ R t t' ∧
      ∀ cs, script h = some cs → ∀ c ∈ cs, P c
  report : ∀ s s', R s s' → m.report s = m'.report s'

namespace Simulation

variable {m : Machine S C A H V} {m' : Machine S' C A H V} {script : H → Option (List C)}
  {P : C → Prop} {R : S → S' → Prop}

theorem calls (sim : Simulation m m' script P R) {s : S} {s' : S'} (h : R s s') (cs : List C)
    (hcs : ∀ c ∈ cs, P c) :
    (CallbackMachine.calls m s cs).2 = (CallbackMachine.calls m' s' cs).2 ∧
      R (CallbackMachine.calls m s cs).1 (CallbackMachine.calls m' s' cs).1 := by
  induction cs generalizing s s' with
  | nil => exact ⟨rfl,h⟩
  | cons c cs ih =>
    obtain ⟨ha,hR⟩ := sim.call c s s' (hcs c (by simp)) h
    obtain ⟨htrace,hend⟩ := ih hR (fun c hc => hcs c (by simp [hc]))
    exact ⟨by simp [CallbackMachine.calls,ha,sim.report _ _ hR,htrace],hend⟩

theorem step (sim : Simulation m m' script P R) {s : S} {s' : S'} (h : R s s') (e : Event C)
    (he : e.All P) :
    (CallbackMachine.step m script s e).2 = (CallbackMachine.step m' script s' e).2 ∧
      R (CallbackMachine.step m script s e).1 (CallbackMachine.step m' script s' e).1 := by
  cases e with
  | call c => exact sim.calls h [c] (by simpa [Event.All] using he)
  | invoke body =>
    rcases sim.invoke s s' h with ⟨hn,hn'⟩ | ⟨g,t,t',hg,hg',hR,hscript⟩
    · simp [CallbackMachine.step,hn,hn',sim.report s s' h,h]
    · have hbody : ∀ c ∈ (script g).getD body, P c := by
        cases hs : script g with
        | none => simpa [Event.All] using he
        | some cs => simpa using hscript cs hs
      obtain ⟨htrace,hend⟩ := sim.calls hR _ hbody
      exact ⟨by simp [CallbackMachine.step,hg,hg',sim.report t t' hR,htrace],
        by simpa [CallbackMachine.step,hg,hg'] using hend⟩

/-- Related machines show the same in every run, of any length and nesting. -/
theorem trace (sim : Simulation m m' script P R) {s : S} {s' : S'} (h : R s s')
    (es : List (Event C)) (hes : ∀ e ∈ es, e.All P) :
    (CallbackMachine.trace m script s es).2 = (CallbackMachine.trace m' script s' es).2 ∧
      R (CallbackMachine.trace m script s es).1 (CallbackMachine.trace m' script s' es).1 := by
  induction es generalizing s s' with
  | nil => exact ⟨rfl,h⟩
  | cons e es ih =>
    obtain ⟨ho,hR⟩ := sim.step h e (hes e (by simp))
    obtain ⟨htrace,hend⟩ := ih hR (fun e he => hes e (by simp [he]))
    exact ⟨by simp [CallbackMachine.trace,ho,htrace],hend⟩

end Simulation
end CallbackMachine
end Translib
