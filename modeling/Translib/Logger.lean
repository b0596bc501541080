import Translib.GuardedWriters

/-! The logger all classes write to, called from any number of threads. A call tests the level
first, and then takes the lock and writes its line piece by piece. -/

namespace Translib

inductive LogLevel
  | error | warn | info | debug
  deriving DecidableEq, Repr

def LogLevel.value : LogLevel → ℕ
  | .error => 0
  | .warn => 1
  | .info => 2
  | .debug => 3

inductive OStream
  | cout | cerr
  deriving DecidableEq, Repr

structure LogLine where
  level : LogLevel
  stream : OStream
  colour : List Char
  label : List Char
  msg : List Char
  file : List Char
  line : ℕ
  deriving DecidableEq, Repr

def black : List Char := '\x1b' :: "[1;30m".toList
def red : List Char := '\x1b' :: "[1;31m".toList
def yellow : List Char := '\x1b' :: "[1;33m".toList
def blue : List Char := '\x1b' :: "[1;34m".toList
def normal : List Char := '\x1b' :: "[0;39m".toList

/-- The operands of the `<<` operators. -/
def LogLine.pieces (l : LogLine) : List (List Char) :=
  [['['],l.colour,l.label,normal,"] [".toList,l.file,[':'],(toString l.line).toList,"] ".toList,l.msg,
    ['\n']]

structure Logger where
  level : LogLevel
  deriving DecidableEq, Repr

namespace Logger

def setLogLevel (level : LogLevel) (_ : Logger) : Logger := ⟨level⟩

/-- The line a call writes, if its level is not above that of the logger. -/
def logAt (level : LogLevel) (stream : OStream) (colour label msg file : List Char) (line : ℕ)
    (logger : Logger) : Option LogLine :=
  if logger.level.value ≥ level.value then some ⟨level,stream,colour,label,msg,file,line⟩ else none

def debug : List Char → List Char → ℕ → Logger → Option LogLine :=
  logAt .debug .cout black "DEBUG".toList

def info : List Char → List Char → ℕ → Logger → Option LogLine :=
  logAt .info .cout blue "INFO ".toList

def warn : List Char → List Char → ℕ → Logger → Option LogLine :=
  logAt .warn .cout yellow "WARN ".toList

def error : List Char → List Char → ℕ → Logger → Option LogLine :=
  logAt .error .cerr red "ERROR".toList

def ofLevel : LogLevel → List Char → List Char → ℕ → Logger → Option LogLine
  | .error => error
  | .warn => warn
  | .info => info
  | .debug => debug

/-- The macro `__LOG`, which calls through the active logger, if there is one. -/
def log (level : LogLevel) (func msg file : List Char) (line : ℕ) (activeLogger : Option Logger) :
    Option LogLine :=
  activeLogger.bind (ofLevel level ("[fuction:".toList ++ func ++ "] ".toList ++ msg) file line)

theorem log_level {level : LogLevel} {func msg file : List Char} {line : ℕ}
    {activeLogger : Option Logger} {l : LogLine}
    (h : log level func msg file line activeLogger = some l) :
    ∃ logger, activeLogger = some logger ∧ l.level = level ∧ level.value ≤ logger.level.value := by
  obtain ⟨logger,hactive,hat⟩ := Option.bind_eq_some_iff.mp h
  refine ⟨logger,hactive,?_⟩
  cases level <;> simp only [ofLevel,error,warn,info,debug,logAt] at hat <;> split_ifs at hat with hlevel <;>
    cases hat <;> exact ⟨rfl,hlevel⟩

end Logger

namespace LogLines

open TransitionMachine FifoQueue GuardedWriters

/-- The active logger, and the threads that have a call of it in progress. -/
structure System (ι : Type*) where
  activeLogger : Option Logger
  writers : Writers ι LogLine OStream Char

inductive Step (ι : Type*)
  | setLogLevel (level : LogLevel)
  | log (i : ι) (level : LogLevel) (func msg file : List Char) (line : ℕ)
  | lock (i : ι)
  | write (i : ι)
  | unlock (i : ι)
  deriving DecidableEq, Repr

variable {ι : Type*} [DecidableEq ι]

def format : Format LogLine OStream Char := ⟨LogLine.stream,LogLine.pieces⟩

def create : System ι := ⟨some ⟨.error⟩,GuardedWriters.create⟩

def asWriter (s : System ι) : Step ι → List (GuardedWriters.Step ι LogLine)
  | .setLogLevel _ => []
  | .log i level func msg file line =>
    (Logger.log level func msg file line s.activeLogger).toList.map (.submit i)
  | .lock i => [.lock i]
  | .write i => [.write i]
  | .unlock i => [.unlock i]

def step (s : System ι) (l : Step ι) : System ι where
  activeLogger := match l with
    | .setLogLevel level => s.activeLogger.map (Logger.setLogLevel level)
    | _ => s.activeLogger
  writers := exec (GuardedWriters.step format) s.writers (asWriter s l)

def passed (s : System ι) (l : Step ι) : List (ι × LogLine) :=
  shown (GuardedWriters.step format) submitted s.writers (asWriter s l)

def completed (s : System ι) (l : Step ι) : List (ι × LogLine) :=
  shown (GuardedWriters.step format) GuardedWriters.completed s.writers (asWriter s l)

theorem step_writers (s : System ι) (l : Step ι) :
    (step s l).writers = exec (GuardedWriters.step format) s.writers (asWriter s l) := rfl

theorem passed_of_completed {run : List (Step ι)} {p : ι × LogLine}
    (hwriter : ∀ i, ofWriter i (shown step passed create run) =
      ofWriter i (shown step completed create run) ++ ((exec step create run).writers.phase i).pending)
    (hp : p ∈ shown step completed create run) : p ∈ shown step passed create run := by
  have hdone : p.2 ∈ ofWriter p.1 (shown step completed create run) :=
    List.mem_filterMap.mpr ⟨p,hp,if_pos rfl⟩
  have hpassed : p.2 ∈ ofWriter p.1 (shown step passed create run) := by
    rw [hwriter]
    exact List.mem_append_left _ hdone
  obtain ⟨q,hq,hsome⟩ := List.mem_filterMap.mp hpassed
  split_ifs at hsome with hi
  have hqp : q = p := Prod.ext hi (Option.some.inj hsome)
  exact hqp ▸ hq

/-- A logger whose level is never set above `level` lets no line above it pass. -/
theorem passed_level {level : LogLevel} {run : List (Step ι)}
    (h : ∀ level' : LogLevel, .setLogLevel level' ∈ run → level'.value ≤ level.value) :
    ∀ p ∈ shown step passed create run, p.2.level.value ≤ level.value := by
  have hallowed : Along step (fun _ l => ∀ level' : LogLevel, l = .setLogLevel level' →
      level'.value ≤ level.value) (create : System ι) run := by
    rw [along_iff_prefixes]
    rintro pre l ⟨post,rfl⟩ level' rfl
    exact h level' (by simp)
  have hrun := @exec_shown _ _ _ _ _ passed
    (fun s ps => (∀ logger, s.activeLogger = some logger → logger.level.value ≤ level.value) ∧
      ∀ p ∈ ps, p.2.level.value ≤ level.value)
    (fun s l ps hs hl => ?_) _ [] _ ⟨fun logger hactive => ?_,fun _ hp => absurd hp List.not_mem_nil⟩
    hallowed
  · exact hrun.2
  · refine ⟨fun logger hactive => ?_,fun p hp => ?_⟩
    · cases l with
      | setLogLevel level' =>
        obtain ⟨old,-,rfl⟩ := Option.map_eq_some_iff.mp hactive
        exact hl level' rfl
      | _ => exact hs.1 logger hactive
    · rcases List.mem_append.mp hp with hp | hp
      · exact hs.2 p hp
      · cases l with
        | log i level' func msg file line =>
          cases hlog : Logger.log level' func msg file line s.activeLogger with
          | none => simp [passed,asWriter,hlog] at hp
          | some r =>
            obtain ⟨logger,hactive,hlevel,hle⟩ := Logger.log_level hlog
            have hr : p.2 = r := by
              cases hphase : s.writers.phase i <;>
                simp [passed,asWriter,hlog,submitted,hphase] at hp
              rw [hp]
            rw [hr,hlevel]
            exact hle.trans (hs.1 logger hactive)
        | _ => simp [passed,asWriter,submitted] at hp
  · cases hactive
    exact Nat.zero_le _

/-- In every interleaving of the threads: the lines a thread's calls were let write are written
in the order of its calls, none is lost and none written twice; each stream consists of whole
lines, but for a part of the one being written; and no line is above all the levels set. -/
theorem lines_whole (run : List (Step ι)) :
    let s := exec step create run
    let done := shown step completed create run
    (∀ i, ofWriter i (shown step passed create run) =
      ofWriter i done ++ (s.writers.phase i).pending) ∧
    (∀ out, ∃ part, s.writers.output out = texts format out done ++ part ∧
      Part format s.writers out part) ∧
    ∀ level : LogLevel,
      (∀ level' : LogLevel, .setLogLevel level' ∈ run → level'.value ≤ level.value) →
      ∀ p ∈ done, p.2.level.value ≤ level.value := by
  intro s done
  obtain ⟨hwriter,houtput⟩ := run_written format (shown step asWriter create run)
  have hstate : s.writers = exec (GuardedWriters.step format) GuardedWriters.create
      (shown step asWriter create run) := exec_part step_writers create run
  have hpassed : shown (GuardedWriters.step format) submitted GuardedWriters.create
      (shown step asWriter create run) = shown step passed create run :=
    shown_part step_writers submitted create run
  have hdone : shown (GuardedWriters.step format) GuardedWriters.completed GuardedWriters.create
      (shown step asWriter create run) = done :=
    shown_part step_writers GuardedWriters.completed create run
  rw [← hstate,hdone] at houtput
  rw [← hstate,hdone,hpassed] at hwriter
  exact ⟨hwriter,houtput,
    fun level hlevel p hp => passed_level hlevel p (passed_of_completed hwriter hp)⟩

end LogLines
end Translib
