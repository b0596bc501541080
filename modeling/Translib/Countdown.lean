import Translib.CallbackMachine

/-!
# A countdown

A countdown is started with a number of rounds and a callback. Each expiration counts
one round and then enters the callback; the last one ends the countdown before the
callback is entered, so that it can be started again from there.
-/

namespace Translib
namespace Countdown

variable {H C A V : Type*}

inductive State (H : Type*)
  | never
  | running (n k : ℕ) (h : H)
  | done
  deriving DecidableEq, Repr

def start (n : ℕ) (h : H) : State H → Bool × State H
  | .never => (true,.running n 0 h)
  | .running n' k h' => (false,.running n' k h')
  | .done => (true,.running n 0 h)

def expire : State H → Option (H × State H)
  | .running n k h => some (h,if k+1 = n then .done else .running n (k+1) h)
  | _ => none

def stop : State H → State H
  | .running _ _ _ => .done
  | s => s

def isRunning : State H → Bool
  | .running _ _ _ => true
  | _ => false

def isFinished : State H → Bool
  | .done => true
  | _ => false

section Undisturbed

variable {m : CallbackMachine.Machine (State H) C A H V} {script : H → Option (List C)}

theorem trace_done (hm : m.invoke = expire) (N : ℕ) :
    CallbackMachine.entered (CallbackMachine.trace m script .done
      (List.replicate N (.invoke []))).2 = [] := by
  induction N with
  | zero => rfl
  | succ N ih =>
    simpa [List.replicate_succ,CallbackMachine.trace,CallbackMachine.step,hm,expire] using ih

/-- Expirations of a countdown nobody calls: each of the rounds left enters the callback,
and no expiration after them does. -/
theorem entered_undisturbed (hm : m.invoke = expire) {h : H} (hscript : script h = none)
    {n k : ℕ} (hk : k < n) (N : ℕ) :
    CallbackMachine.entered (CallbackMachine.trace m script (.running n k h)
      (List.replicate N (.invoke []))).2 = List.replicate (min N (n-k)) h := by
  induction N generalizing k with
  | zero => simp [CallbackMachine.trace]
  | succ N ih =>
    have hstep (s : State H) (hs : expire (.running n k h) = some (h,s)) :
        CallbackMachine.step m script (.running n k h) (.invoke []) =
          (s,[.entered h,.report (m.report s)]) := by
      rw [CallbackMachine.step_invoke (by rw [hm,hs]),hscript]
      rfl
    rw [List.replicate_succ,CallbackMachine.trace]
    by_cases hlast : k+1 = n
    · have hone : min (N+1) (n-k) = 1 := by omega
      rw [hstep .done (by simp [expire,hlast]),hone]
      simp [trace_done hm]
    · have hmore : min (N+1) (n-k) = min N (n-(k+1))+1 := by omega
      rw [hstep (.running n (k+1) h) (by simp [expire,hlast]),hmore]
      simp [ih (show k+1 < n by omega),List.replicate_succ]

end Undisturbed

end Countdown
end Translib
