import RegisterIR.Reading.Program
import RegisterIR.Scanning.References
import RegisterIR.Scanning.Token

/-! Scanning of types, bodies and programs. What is looked up in a table by its number is a fault if
it is not there. A reference to a function leaves its name with the current function and a stand-in
in the body. -/

namespace RegisterIR.Scanning

open Reading (Registers keptName)

section Types

variable (types : TypeTable)

def findEnum (name : String) : Scanner EnumId :=
  match types.enums.findIdx? (·.name == name) with
  | some id => pure id
  | none => raise (.undefinedType .enumeration name)

def findRecord (name : String) : Scanner Nat :=
  match types.records.findIdx? (·.name == name) with
  | some id => pure id
  | none => raise (.undefinedType .record name)

def findInterface (name : String) : Scanner Nat :=
  match types.interfaces.findIdx? (· == name) with
  | some id => pure id
  | none => raise (.undefinedType .interface name)

def findElement (enumeration element : String) : Scanner ElementRef := do
  let id ← findEnum types enumeration
  let declared ← ofFault (entry types.enums id)
  match declared.elements.findIdx? (·.name == element) with
  | some which => pure ⟨id, which⟩
  | none => raise (.undefinedElement enumeration element)

def elementOf (enumeration : String) : Scanner ElementRef := do
  expectChar '.'
  let element ← identifier
  findElement types enumeration element

def elementRef : Scanner ElementRef := do
  let enumeration ← identifier
  elementOf types enumeration

def integerRange : Scanner IntegerRange := do
  let minimum ← number
  expect ".."
  let maximum ← number
  if minimum > maximum then fail (.emptyRange minimum maximum)
  else ofFault (IntegerRange.ofBounds minimum maximum)

def typeRound (inner : Scanner ValueType) : Scanner ValueType := do
  match ← identifier with
  | "unit" => pure .unit
  | "string" => pure .string
  | "host" => pure .host
  | "int" => do
    let range ← integerRange
    pure (.integer range)
  | "enum" => do
    let name ← identifier
    let id ← findEnum types name
    pure (.enumeration id)
  | "struct" => do
    let name ← identifier
    let id ← findRecord types name
    pure (.record id)
  | "interface" => do
    let name ← identifier
    let id ← findInterface types name
    pure (.interface id)
  | "constructor" => do
    let which ← elementRef types
    pure (.constructor which)
  | "function" => do
    let parameters ← list inner
    expect "->"
    let result ← inner
    pure (.function parameters result)
  | "tuple" => do
    let elements ← list inner
    pure (.tuple elements)
  | other => fail (.unknownType other)

def typeWithin : (bound : Nat) → Scanner ValueType
  | 0 => do
    skip
    unexpected "identifier"
  | bound + 1 => typeRound types (typeWithin bound)

def type : Scanner ValueType := bounded (typeWithin types)

end Types

section Literals

def functionName : Scanner String := do
  let _ ← advance
  let name ← word
  if name.isEmpty then unexpected "function name" else pure name

variable (types : TypeTable)

def literalRound (inner : Scanner (Literal FunctionId)) : Scanner (Literal FunctionId) := do
  skip
  match ← peek with
  | some '"' => do
    let content ← quoted
    pure (.string content)
  | some '@' => do
    let name ← functionName
    note name
    pure (.function unresolved)
  | some '(' => do
    let _ ← advance
    let elements ← itemsAfter (appending inner) []
    pure (.tuple elements)
  | next => do
    if next.any Char.isDigit then
      let value ← number
      pure (.integer value)
    else
      match ← identifier with
      | "unit" => pure .unit
      | "constructor" => do
        let which ← elementRef types
        pure (.constructor which)
      | enumeration => do
        let which ← elementOf types enumeration
        if ← acceptChar '(' then
          let state ← inner
          expectChar ')'
          pure (.wrapped which state)
        else pure (.element which)

def literalWithin : (bound : Nat) → Scanner (Literal FunctionId)
  | 0 => do
    skip
    unexpected "identifier"
  | bound + 1 => literalRound types (literalWithin bound)

def literal : Scanner (Literal FunctionId) := bounded (literalWithin types)

end Literals

section Bodies

def define (registers : Registers) (name : String) : Scanner (Register × Registers) :=
  if name ∈ registers.names then raise (.duplicateRegister registers.function name)
  else pure (registers.names.length, ⟨registers.function, registers.names ++ [name]⟩)

def findRegister (registers : Registers) (name : String) : Scanner Register :=
  match registers.names.idxOf? name with
  | some register => pure register
  | none => raise (.undefinedRegister registers.function name)

def register (registers : Registers) : Scanner Register := do
  let name ← registerName
  findRegister registers name

def newRegister (registers : Registers) : Scanner (Register × Registers) := do
  let name ← registerName
  define registers name

variable (types : TypeTable)

/-- The type of the payload of an element; one that has none is left to verification. -/
def stateType (which : ElementRef) : Except Fault ValueType := do
  let declared ← entry types.enums which.enumeration
  let element ← entry declared.elements which.which
  pure (element.state.getD .unit)

def operation (registers : Registers) : String → Option (Scanner (Operation FunctionId))
  | "literal" => some do
    let value ← literal types
    expectChar ':'
    let type ← type types
    pure (.literal value type)
  | "tuple" => some do
    let elements ← list (register registers)
    pure (.tuple elements)
  | "read_struct" => some do
    let source ← register registers
    expectChar '.'
    let index ← smallNumber
    pure (.member source index)
  | "enum_construct" => some do
    let which ← elementRef types
    expectChar '('
    let state ← register registers
    expectChar ')'
    let stateType ← ofFault (stateType types which)
    pure (.construct which state stateType)
  | "global" => some (pure .global)
  | _ => none

def guard (registers : Registers) : Scanner (Guard × Registers) := do
  skip
  if (← peek) = some '%' then
    let key ← register registers
    pure (.equals key, registers)
  else
    let which ← elementRef types
    expectChar '('
    let (binding, registers) ← newRegister registers
    expectChar ')'
    pure (.element which binding, registers)

abbrev Nested := Registers → Scanner (Body FunctionId × Registers)

def caseOf (nested : Nested) (registers : Registers) :
    Scanner (Case (Body FunctionId) × Registers) := do
  unless ← acceptKeyword "case" do unexpected "'case'"
  let (guard, registers) ← guard types registers
  expectChar '\x7b'
  let (action, registers) ← nested registers
  if ← acceptKeyword "yield" then
    let value ← register registers
    pure (⟨guard, action, some value⟩, registers)
  else pure (⟨guard, action, none⟩, registers)

def casesWithin (nested : Nested) :
    (bound : Nat) → Registers → Scanner (Cases FunctionId × Registers)
  | 0, registers => do
    if ← acceptChar '\x7d' then pure ([], registers)
    else unexpected "'case'"
  | bound + 1, registers => do
    if ← acceptChar '\x7d' then pure ([], registers)
    else do
      let (case, registers) ← caseOf types nested registers
      let (cases, registers) ← casesWithin nested bound registers
      pure (case :: cases, registers)

def assignment (nested : Nested) (registers : Registers) (result : Register) :
    Scanner (Instruction FunctionId × Registers) := do
  match ← identifier with
  | "call" => do
    let callee ← register registers
    let arguments ← list (register registers)
    pure (.call result callee arguments, registers)
  | "match" => do
    let key ← register registers
    expectChar '\x7b'
    let (cases, registers) ← bounded fun bound => casesWithin types nested bound registers
    pure (.select result key cases, registers)
  | keyword =>
    match operation types registers keyword with
    | some scanner => do
      let operation ← scanner
      pure (.compute result operation, registers)
    | none => fail (.unknownInstruction keyword)

def instruction (nested : Nested) (registers : Registers) :
    Scanner (Instruction FunctionId × Registers) := do
  skip
  if (← peek) = some '%' then
    let (result, registers) ← newRegister registers
    expectChar '='
    assignment types nested registers result
  else
    match ← identifier with
    | "loop" => do
      expectChar '\x7b'
      let (body, registers) ← nested registers
      pure (.loop body, registers)
    | "break" => pure (.leave, registers)
    | other => fail (.unknownInstruction other)

def bodyRound (next : Nested) : Nested := fun registers => do
  if ← acceptChar '\x7d' then pure ([], registers)
  else if ← atEnd then unexpected "'\x7d'"
  else do
    let (first, registers) ← instruction types next registers
    let (rest, registers) ← next registers
    pure (first :: rest, registers)

def bodyWithin : (bound : Nat) → Nested
  | 0, registers => do
    expectChar '\x7d'
    pure ([], registers)
  | bound + 1, registers => bodyRound types (bodyWithin bound) registers

def body : Nested := fun registers => bounded fun bound => bodyWithin types bound registers

end Bodies

section Declarations

def element (types : TypeTable) (enumeration : String) (elements : List Element) :
    Scanner (List Element) := do
  let name ← identifier
  if elements.any (·.name == name) then fail (.duplicateElement name enumeration)
  else if ← acceptChar '(' then
    let state ← type types
    expectChar ')'
    pure (elements ++ [⟨name, some state⟩])
  else pure (elements ++ [⟨name, none⟩])

def enumeration (types : TypeTable) : Scanner Enumeration := do
  let name ← identifier
  if types.enums.any (·.name == name) then raise (.duplicateType .enumeration name)
  else
    let elements ← fields (element types name) []
    pure ⟨name, elements⟩

def member (types : TypeTable) (members : List Member) : Scanner (List Member) := do
  let name ← identifier
  expectChar ':'
  let type ← type types
  pure (members ++ [⟨name, type⟩])

def record (types : TypeTable) : Scanner Record := do
  let name ← identifier
  if types.records.any (·.name == name) then raise (.duplicateType .record name)
  else
    let members ← fields (member types) []
    pure ⟨name, members⟩

def interface (types : TypeTable) : Scanner String := do
  let name ← identifier
  if name ∈ types.interfaces then raise (.duplicateType .interface name)
  else pure name

def parameter (registers : Registers) : Scanner Registers := do
  let (_, registers) ← newRegister registers
  pure registers

def function (program : Program) : Scanner (Function FunctionId) := do
  let name ← identifier
  if program.functions.any (·.name == name) then raise (.duplicateFunction name)
  else
    enter
    let parameters ← items parameter ⟨name, []⟩
    expect "->"
    let returned ← registerName
    expectChar '\x7b'
    let (body, registers) ← body program.toTypeTable parameters
    let returnValue ← findRegister registers returned
    pure
      { name
        parameterCount := parameters.names.length
        registerCount := registers.names.length
        returnValue
        registerNames := registers.names.map keptName
        body }

def declaration (program : Program) : Scanner Program := do
  match ← identifier with
  | "enum" => do
    let enumeration ← enumeration program.toTypeTable
    pure { program with enums := program.enums ++ [enumeration] }
  | "struct" => do
    let record ← record program.toTypeTable
    pure { program with records := program.records ++ [record] }
  | "interface" => do
    let name ← interface program.toTypeTable
    pure { program with interfaces := program.interfaces ++ [name] }
  | "fn" => do
    let function ← function program
    pure { program with functions := program.functions ++ [function] }
  | other => fail (.notDeclaration other)

def declarationsWithin : (bound : Nat) → Program → Scanner Program
  | 0, program => pure program
  | bound + 1, program => do
    skip
    if ← atEnd then pure program
    else do
      let program ← declaration program
      declarationsWithin bound program

end Declarations

/-- The declarations of a text, with stand-ins for all references, and the names recorded for each
function. -/
def declarations (text : String) : Except Stop (Program × List (List String)) := do
  let (program, parser) ←
    bounded (fun bound => declarationsWithin bound ⟨⟨[], [], []⟩, []⟩) ⟨text, 0, []⟩
  pure (program, parser.references)

def program (text : String) : Except Stop Program := do
  let (declared, references) ← declarations text
  let names := declared.functions.map Function.name
  match resolveAll names declared.functions references with
  | .error error => .error (.error error)
  | .ok functions =>
    let program : Program := { declared with functions }
    match program.verify with
    | .ok () => pure program
    | .error error => .error (.error (.invalid error))

end RegisterIR.Scanning
