import RegisterIR.Program
import RegisterIR.Traced

/-! Dead code elimination. One layer keeps the registers that are read somewhere, drops the
computations of all others and numbers the kept registers densely. Dropping a computation can
leave its operands unread, so layers follow one another until one removes no register. -/

namespace RegisterIR

abbrev Renumbering := List (Option Register)

namespace Renumbering

def assign (next : Nat) : List Bool → Renumbering
  | [] => []
  | true :: flags => some next :: assign (next + 1) flags
  | false :: flags => none :: assign next flags

def target (renumbering : Renumbering) (register : Register) : Except Fault (Option Register) :=
  entry renumbering register

def operand (renumbering : Renumbering) (register : Register) : Except Fault Register := do
  match ← renumbering.target register with
  | some renamed => pure renamed
  | none => throw (.notLive register)

end Renumbering

variable {φ : Type}

def Operation.renumber (renumbering : Renumbering) : Operation φ → Except Fault (Operation φ)
  | literal value type => pure (literal value type)
  | tuple elements => do
    let elements ← elements.mapM renumbering.operand
    pure (tuple elements)
  | member source index => do
    let source ← renumbering.operand source
    pure (member source index)
  | construct which state stateType => do
    let state ← renumbering.operand state
    pure (construct which state stateType)
  | global => pure global

namespace Guard

def register : Guard → Register
  | equals key => key
  | element _ binding => binding

def renumber (renumbering : Renumbering) : Guard → Except Fault Guard
  | equals key => do
    let key ← renumbering.operand key
    pure (equals key)
  | element which binding => do
    let binding ← renumbering.operand binding
    pure (element which binding)

end Guard

namespace Instruction

mutual

/-- The registers that an instruction keeps: all that it reads, and what calls and selections
write and bind. -/
def demands : Instruction φ → List Register
  | compute _ operation => operation.operands
  | call result callee arguments => result :: callee :: arguments
  | select result key cases => result :: key :: demandsCases cases
  | loop body => demandsBody body
  | leave => []

def demandsBody : Body φ → List Register
  | [] => []
  | instruction :: body => instruction.demands ++ demandsBody body

def demandsCases : Cases φ → List Register
  | [] => []
  | ⟨guard, action, value⟩ :: cases =>
    guard.register :: value.toList ++ demandsBody action ++ demandsCases cases

end

mutual

/-- The instruction over the new numbers, or nothing if it is dropped: a computation whose result
is not kept, or a loop of which nothing is left. -/
def sweep (renumbering : Renumbering) : Instruction φ → Except Fault (Option (Instruction φ))
  | compute result operation => do
    match ← renumbering.target result with
    | none => pure none
    | some result => do
      let operation ← operation.renumber renumbering
      pure (some (compute result operation))
  | call result callee arguments => do
    let callee ← renumbering.operand callee
    let arguments ← arguments.mapM renumbering.operand
    let result ← renumbering.operand result
    pure (some (call result callee arguments))
  | select result key cases => do
    let key ← renumbering.operand key
    let cases ← sweepCases renumbering cases
    let result ← renumbering.operand result
    pure (some (select result key cases))
  | loop body => do
    match ← sweepBody renumbering body with
    | [] => pure none
    | instruction :: rest => pure (some (loop (instruction :: rest)))
  | leave => pure (some leave)

def sweepBody (renumbering : Renumbering) : Body φ → Except Fault (Body φ)
  | [] => pure []
  | instruction :: body => do
    let swept ← sweep renumbering instruction
    let rest ← sweepBody renumbering body
    pure (swept.toList ++ rest)

def sweepCases (renumbering : Renumbering) : Cases φ → Except Fault (Cases φ)
  | [] => pure []
  | ⟨guard, action, value⟩ :: cases => do
    let guard ← guard.renumber renumbering
    let action ← sweepBody renumbering action
    let value ← value.mapM renumbering.operand
    let rest ← sweepCases renumbering cases
    pure (⟨guard, action, value⟩ :: rest)

end

end Instruction

structure DeadCodeStats where
  /-- The layers run, with the last one, which removed nothing. -/
  layers : Nat
  registers : Nat
  instructions : Nat
deriving DecidableEq, Repr

namespace DeadCodeStats

def render (stats : DeadCodeStats) : String :=
  s!"{stats.layers} layers, {stats.registers} registers and {stats.instructions} " ++
    "instructions removed"

end DeadCodeStats

namespace Function

def demands (function : Function φ) : List Register :=
  function.returnValue :: Instruction.demandsBody function.body

def liveness (function : Function φ) : Except Fault (List Bool) :=
  let demands := function.demands
  if function.parameterCount ≤ function.registerCount ∧
      demands.all (· < function.registerCount) then
    .ok ((List.range function.registerCount).map fun register =>
      register < function.parameterCount || demands.contains register)
  else .error .outOfRange

def layer (function : Function φ) : Except Fault (Function φ) := do
  let live ← function.liveness
  let renumbering := Renumbering.assign 0 live
  let body ← Instruction.sweepBody renumbering function.body
  let returnValue ← renumbering.operand function.returnValue
  pure { function with
    body
    returnValue
    registerCount := live.count true
    registerNames := (function.registerNames.zip live).filterMap fun (name, isLive) =>
      if isLive then some name else none }

/-- The number of registers left after each layer that removed some, and the function after the
last layer. -/
def layers (function : Function φ) : Except Fault (List Nat × Function φ) :=
  match function.layer with
  | .error fault => .error fault
  | .ok next =>
    if next.registerCount < function.registerCount then
      match next.layers with
      | .error fault => .error fault
      | .ok (counts, last) => .ok (next.registerCount :: counts, last)
    else .ok ([], next)
termination_by function.registerCount

def layerEvents (name : String) : (number before : Nat) → List Nat → List Event
  | _, _, [] => []
  | number, before, left :: counts =>
    .layerRemoved name number (before - left) left :: layerEvents name (number + 1) left counts

def removeDeadCode (function : Function φ) : Traced (Function φ × DeadCodeStats) :=
  match function.layers with
  | .error fault => .fault fault
  | .ok (counts, last) =>
    let stats : DeadCodeStats :=
      { layers := counts.length + 1
        registers := function.registerCount - last.registerCount
        instructions := Instruction.sizeBody function.body - Instruction.sizeBody last.body }
    ⟨layerEvents function.name 1 function.registerCount counts, .ok (last, stats)⟩

end Function

def Program.removeDeadCode (program : Program) : Traced Program := do
  let functions ← program.functions.mapM fun function => do
    let (function, stats) ← function.removeDeadCode
    Traced.record
      (.deadCodeRemoved function.name stats.layers stats.registers stats.instructions)
    pure function
  pure { program with functions }

end RegisterIR
