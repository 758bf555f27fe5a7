import RegisterIR.DeadCode

/-! What functions do when they run, up to the meaning of values. Computations are functions of
their operands, calls are recorded and answered by the outside, and a selection runs the first case
that applies. Only registers that have been written can be read. -/

namespace RegisterIR

abbrev Trace (V : Type) := List (V × List V)

/-- What values are and how they are computed, tested and obtained from the outside. -/
structure Meaning (φ V : Type) where
  undefined : V
  literal : Literal φ → ValueType → V
  tuple : List V → V
  member : Nat → V → V
  construct : ElementRef → ValueType → V → V
  global : V
  equals : V → V → Bool
  isElement : ElementRef → V → Bool
  payload : ElementRef → V → V
  answer : Trace V → V

abbrev Contents (V : Type) := Register → Option V

structure State (V : Type) where
  registers : Contents V
  trace : Trace V

variable {φ V : Type}

namespace State

def write (state : State V) (register : Register) (value : V) : State V :=
  { state with registers := fun r => if r = register then some value else state.registers r }

def record (state : State V) (callee : V) (arguments : List V) : State V :=
  { state with trace := state.trace ++ [(callee, arguments)] }

end State

namespace Meaning

variable (meaning : Meaning φ V)

def compute (registers : Contents V) : Operation φ → Option V
  | .literal value type => some (meaning.literal value type)
  | .tuple elements => (elements.mapM registers).map meaning.tuple
  | .member source index => (registers source).map (meaning.member index)
  | .construct which state stateType => (registers state).map (meaning.construct which stateType)
  | .global => some meaning.global

def holds (registers : Contents V) (key : V) : Guard → Option Bool
  | .equals other => (registers other).map (meaning.equals key)
  | .element which _ => some (meaning.isElement which key)

def enter (state : State V) (key : V) : Guard → State V
  | .equals _ => state
  | .element which binding => state.write binding (meaning.payload which key)

def choose (registers : Contents V) (key : V) : Cases φ → Option (Option (Case (Body φ)))
  | [] => some none
  | case :: cases => do
    if ← meaning.holds registers key case.guard then some (some case)
    else choose registers key cases

def yielded (registers : Contents V) : Option Register → Option V
  | some register => registers register
  | none => some meaning.undefined

end Meaning

variable (meaning : Meaning φ V)

inductive Completion
  | normal
  | left
  /-- At a selection of which no case applies. -/
  | failed
deriving DecidableEq, Repr

inductive Executes : Body φ → State V → Completion → State V → Prop
  | nil {state : State V} : Executes [] state .normal state
  | compute {result operation rest state value completion final} :
      meaning.compute state.registers operation = some value →
      Executes rest (state.write result value) completion final →
      Executes (.compute result operation :: rest) state completion final
  | call {result callee arguments rest state function values completion final} :
      state.registers callee = some function → arguments.mapM state.registers = some values →
      Executes rest ((state.record function values).write result
        (meaning.answer (state.record function values).trace)) completion final →
      Executes (.call result callee arguments :: rest) state completion final
  | select {result key cases rest state value case inner yield completion final} :
      state.registers key = some value →
      meaning.choose state.registers value cases = some (some case) →
      Executes case.action (meaning.enter state value case.guard) .normal inner →
      meaning.yielded inner.registers case.value = some yield →
      Executes rest (inner.write result yield) completion final →
      Executes (.select result key cases :: rest) state completion final
  | interrupt {result key cases rest state value case completion inner} :
      state.registers key = some value →
      meaning.choose state.registers value cases = some (some case) →
      Executes case.action (meaning.enter state value case.guard) completion inner →
      completion ≠ .normal →
      Executes (.select result key cases :: rest) state completion inner
  | exhaust {result key cases rest state value} :
      state.registers key = some value →
      meaning.choose state.registers value cases = some none →
      Executes (.select result key cases :: rest) state .failed state
  | again {body rest state inner completion final} :
      Executes body state .normal inner →
      Executes (.loop body :: rest) inner completion final →
      Executes (.loop body :: rest) state completion final
  | exit {body rest state inner completion final} :
      Executes body state .left inner → Executes rest inner completion final →
      Executes (.loop body :: rest) state completion final
  | abort {body rest state inner} :
      Executes body state .failed inner → Executes (.loop body :: rest) state .failed inner
  | leave {rest state} : Executes (.leave :: rest) state .left state

inductive Outcome (V : Type)
  | returned (value : V)
  | failed
deriving DecidableEq, Repr

namespace Function

/-- The state at entry: parameters hold the arguments, missing ones are undefined. -/
def start (function : Function φ) (arguments : List V) : State V where
  registers := fun r =>
    if r < function.parameterCount then some (arguments.getD r meaning.undefined) else none
  trace := []

inductive Terminates (function : Function φ) (arguments : List V) : Outcome V → Trace V → Prop
  | returned {final value} :
      Executes meaning function.body (function.start meaning arguments) .normal final →
      final.registers function.returnValue = some value →
      Terminates function arguments (.returned value) final.trace
  | failed {final} :
      Executes meaning function.body (function.start meaning arguments) .failed final →
      Terminates function arguments .failed final.trace

end Function

theorem Meaning.mem_of_choose {meaning : Meaning φ V} {registers : Contents V} {key : V}
    {cases : Cases φ} {case : Case (Body φ)}
    (h : meaning.choose registers key cases = some (some case)) :
    case ∈ cases := by
  induction cases with
  | nil => simp [choose] at h
  | cons other cases ih =>
    rw [choose] at h
    cases test : meaning.holds registers key other.guard with
    | none => simp [test] at h
    | some applies =>
      cases applies with
      | true => simp_all
      | false => exact List.mem_cons_of_mem _ (ih (by simpa [test] using h))

/-- A run is determined by its start. -/
theorem Executes.unique {meaning : Meaning φ V} {body : Body φ} {state final final' : State V}
    {completion completion' : Completion} (h : Executes meaning body state completion final)
    (h' : Executes meaning body state completion' final') :
    completion = completion' ∧ final = final' := by
  induction h generalizing completion' final' with
  | nil => cases h'; exact ⟨rfl, rfl⟩
  | compute value _ ih =>
    cases h' with
    | compute value' rest' => rw [value] at value'; cases value'; exact ih rest'
  | call callee arguments _ ih =>
    cases h' with
    | call callee' arguments' rest' =>
      rw [callee] at callee'; rw [arguments] at arguments'; cases callee'; cases arguments'
      exact ih rest'
  | select key chosen action yield _ ihAction ihRest =>
    cases h' with
    | select key' chosen' action' yield' rest' =>
      rw [key] at key'; cases key'; rw [chosen] at chosen'; cases chosen'
      obtain ⟨_, rfl⟩ := ihAction action'
      rw [yield] at yield'; cases yield'
      exact ihRest rest'
    | interrupt key' chosen' action' abrupt =>
      rw [key] at key'; cases key'; rw [chosen] at chosen'; cases chosen'
      exact absurd (ihAction action').1.symm abrupt
    | exhaust key' chosen' => rw [key] at key'; cases key'; rw [chosen] at chosen'; cases chosen'
  | interrupt key chosen action abrupt ih =>
    cases h' with
    | select key' chosen' action' =>
      rw [key] at key'; cases key'; rw [chosen] at chosen'; cases chosen'
      exact absurd (ih action').1 abrupt
    | interrupt key' chosen' action' =>
      rw [key] at key'; cases key'; rw [chosen] at chosen'; cases chosen'
      exact ih action'
    | exhaust key' chosen' => rw [key] at key'; cases key'; rw [chosen] at chosen'; cases chosen'
  | exhaust key chosen =>
    cases h' with
    | select key' chosen' => rw [key] at key'; cases key'; rw [chosen] at chosen'; cases chosen'
    | interrupt key' chosen' => rw [key] at key'; cases key'; rw [chosen] at chosen'; cases chosen'
    | exhaust => exact ⟨rfl, rfl⟩
  | again _ _ ihBody ihRest =>
    cases h' with
    | again body' rest' => obtain ⟨_, rfl⟩ := ihBody body'; exact ihRest rest'
    | exit body' => exact absurd (ihBody body').1 (by decide)
    | abort body' => exact absurd (ihBody body').1 (by decide)
  | exit _ _ ihBody ihRest =>
    cases h' with
    | again body' => exact absurd (ihBody body').1 (by decide)
    | exit body' rest' => obtain ⟨_, rfl⟩ := ihBody body'; exact ihRest rest'
    | abort body' => exact absurd (ihBody body').1 (by decide)
  | abort _ ih =>
    cases h' with
    | again body' => exact absurd (ih body').1 (by decide)
    | exit body' => exact absurd (ih body').1 (by decide)
    | abort body' => exact ⟨rfl, (ih body').2⟩
  | leave => cases h'; exact ⟨rfl, rfl⟩

theorem Function.Terminates.unique {meaning : Meaning φ V} {function : Function φ}
    {arguments : List V} {outcome outcome' : Outcome V} {trace trace' : Trace V}
    (h : function.Terminates meaning arguments outcome trace)
    (h' : function.Terminates meaning arguments outcome' trace') :
    outcome = outcome' ∧ trace = trace' := by
  cases h with
  | returned run value =>
    cases h' with
    | returned run' value' =>
      obtain ⟨_, rfl⟩ := run.unique run'
      rw [value] at value'
      cases value'
      exact ⟨rfl, rfl⟩
    | failed run' => exact absurd (run.unique run').1 (by decide)
  | failed run =>
    cases h' with
    | returned run' => exact absurd (run.unique run').1 (by decide)
    | failed run' => exact ⟨rfl, by rw [(run.unique run').2]⟩

end RegisterIR
