import RegisterIR.Reading.Literal

/-! Readers of function bodies. All registers of a function share one name space and are numbered
in the order in which they are defined; what is in sight where is left to verification. -/

namespace RegisterIR.Reading

structure Registers where
  function : String
  names : List String

/-- Gives the register the next number, which stays within 32 bits while there are at most `maxWord`
registers (`Program.atMost_of_parse`). -/
def define (registers : Registers) (name : String) : Reader (Register × Registers) :=
  if name ∈ registers.names then raise (.duplicateRegister registers.function name)
  else pure (registers.names.length, ⟨registers.function, registers.names ++ [name]⟩)

def findRegister (registers : Registers) (name : String) : Reader Register :=
  match registers.names.idxOf? name with
  | some register => pure register
  | none => raise (.undefinedRegister registers.function name)

def register (registers : Registers) : Reader Register := do
  let name ← registerName
  findRegister registers name

def newRegister (registers : Registers) : Reader (Register × Registers) := do
  let name ← registerName
  define registers name

variable (types : TypeTable)

def operation (registers : Registers) : String → Option (Reader (Operation String))
  | "literal" => some do
    let value ← literal types
    expect ":"
    let type ← type types
    pure (.literal value type)
  | "tuple" => some do
    let elements ← list (register registers)
    pure (.tuple elements)
  | "read_struct" => some do
    let source ← register registers
    expect "."
    let index ← smallNumber
    pure (.member source index)
  | "enum_construct" => some do
    let (which, element) ← elementRef types
    expect "("
    let state ← register registers
    expect ")"
    pure (.construct which state (element.state.getD .unit))
  | "global" => some (pure .global)
  | _ => none

def guard (registers : Registers) : Reader (Guard × Registers) := do
  skip
  if (← peek?) = some '%' then
    let key ← register registers
    pure (.equals key, registers)
  else
    let (which, _) ← elementRef types
    expect "("
    let (binding, registers) ← newRegister registers
    expect ")"
    pure (.element which binding, registers)

/-- Reads the body of a loop or a case after its opening brace. -/
abbrev Nested := Registers → Reader (Body String × Registers)

def caseOf (nested : Nested) (registers : Registers) :
    Reader (Case (Body String) × Registers) := do
  unless ← acceptKeyword "case" do unexpected "'case'"
  let (guard, registers) ← guard types registers
  expect "\x7b"
  let (action, registers) ← nested registers
  if ← acceptKeyword "yield" then
    let value ← register registers
    pure (⟨guard, action, some value⟩, registers)
  else pure (⟨guard, action, none⟩, registers)

def casesRound (nested : Nested) (next : Registers → Reader (Cases String × Registers))
    (registers : Registers) : Reader (Cases String × Registers) := do
  if ← accept "\x7d" then pure ([], registers)
  else do
    let (case, registers) ← caseOf types nested registers
    let (cases, registers) ← next registers
    pure (case :: cases, registers)

def casesWithin (nested : Nested) : (bound : Nat) → Registers → Reader (Cases String × Registers)
  | 0, registers => do
    if ← accept "\x7d" then pure ([], registers)
    else unexpected "'case'"
  | bound + 1, registers => casesRound types nested (casesWithin nested bound) registers

def assignment (nested : Nested) (registers : Registers) (result : Register) :
    Reader (Instruction String × Registers) := do
  match ← identifier with
  | "call" => do
    let callee ← register registers
    let arguments ← list (register registers)
    pure (.call result callee arguments, registers)
  | "match" => do
    let key ← register registers
    expect "\x7b"
    let (cases, registers) ← fun text => casesWithin types nested text.length registers text
    pure (.select result key cases, registers)
  | keyword =>
    match operation types registers keyword with
    | some reader => do
      let operation ← reader
      pure (.compute result operation, registers)
    | none => fail (.unknownInstruction keyword)

def instruction (nested : Nested) (registers : Registers) :
    Reader (Instruction String × Registers) := do
  skip
  if (← peek?) = some '%' then
    let (result, registers) ← newRegister registers
    expect "="
    assignment types nested registers result
  else
    match ← identifier with
    | "loop" => do
      expect "\x7b"
      let (body, registers) ← nested registers
      pure (.loop body, registers)
    | "break" => pure (.leave, registers)
    | other => fail (.unknownInstruction other)

/-- One round of reading a body; `next` reads the bodies inside the first instruction, and the
instructions after it. -/
def bodyRound (next : Nested) : Nested := fun registers => do
  if ← accept "\x7d" then pure ([], registers)
  else if (← peek?).isNone then unexpected "'\x7d'"
  else do
    let (first, registers) ← instruction types next registers
    let (rest, registers) ← next registers
    pure (first :: rest, registers)

def bodyWithin : (bound : Nat) → Nested
  | 0, registers => do
    expect "\x7d"
    pure ([], registers)
  | bound + 1, registers => bodyRound types (bodyWithin bound) registers

def body : Nested := fun registers text => bodyWithin types text.length registers text

end RegisterIR.Reading
