import RegisterIR.Event
import RegisterIR.Program.Verify
import RegisterIR.Reading.Body

/-! Readers of declarations and programs. A type can only be named after its declaration is
complete; functions may be named anywhere, and their names are resolved at the end.

What is declared is numbered by its place in a list. These numbers are natural numbers here, where
32 bits are meant: they agree as long as no list has more than `maxWord` entries. No text of at most
`maxWord` characters declares more, see `Program.atMost_of_parse`. -/

namespace RegisterIR

namespace Reading

/-- What has been declared so far, in lists of at most `maxWord` entries each. -/
structure Declarations where
  types : TypeTable
  functions : List (Function String)

namespace Declarations

def empty : Declarations := ⟨⟨[], [], []⟩, []⟩

def addEnum (declarations : Declarations) (enumeration : Enumeration) : Declarations :=
  let types := declarations.types
  { declarations with types := { types with enums := types.enums ++ [enumeration] } }

def addRecord (declarations : Declarations) (record : Record) : Declarations :=
  let types := declarations.types
  { declarations with types := { types with records := types.records ++ [record] } }

def addInterface (declarations : Declarations) (name : String) : Declarations :=
  let types := declarations.types
  { declarations with types := { types with interfaces := types.interfaces ++ [name] } }

def addFunction (declarations : Declarations) (function : Function String) : Declarations :=
  { declarations with functions := declarations.functions ++ [function] }

end Declarations

def element (types : TypeTable) (enumeration : String) (elements : List Element) :
    Reader (List Element) := do
  let name ← identifier
  if elements.any (·.name == name) then fail (.duplicateElement name enumeration)
  else if ← accept "(" then
    let state ← type types
    expect ")"
    pure (elements ++ [⟨name, some state⟩])
  else pure (elements ++ [⟨name, none⟩])

def enumeration (types : TypeTable) : Reader Enumeration := do
  let name ← identifier
  if types.enums.any (·.name == name) then raise (.duplicateType .enumeration name)
  else
    let elements ← fields (element types name) []
    pure ⟨name, elements⟩

def member (types : TypeTable) (members : List Member) : Reader (List Member) := do
  let name ← identifier
  expect ":"
  let type ← type types
  pure (members ++ [⟨name, type⟩])

def record (types : TypeTable) : Reader Record := do
  let name ← identifier
  if types.records.any (·.name == name) then raise (.duplicateType .record name)
  else
    let members ← fields (member types) []
    pure ⟨name, members⟩

def interface (types : TypeTable) : Reader String := do
  let name ← identifier
  if name ∈ types.interfaces then raise (.duplicateType .interface name)
  else pure name

/-- The name that a register keeps for listings: none if it is a number. -/
def keptName (name : String) : Option String :=
  if name.toList.all Char.isDigit then none else some name

/-- Reads a function, whose number is that of the functions before it. Like that number, its counts
of parameters and registers are at most `maxWord`. -/
def function (declarations : Declarations) : Reader (Function String) := do
  let name ← identifier
  if declarations.functions.any (·.name == name) then raise (.duplicateFunction name)
  else
    let parameters ← items (fun registers => do
      let (_, registers) ← newRegister registers
      pure registers) ⟨name, []⟩
    expect "->"
    let returned ← registerName
    expect "\x7b"
    let (body, registers) ← body declarations.types parameters
    let returnValue ← findRegister registers returned
    pure
      { name
        parameterCount := parameters.names.length
        registerCount := registers.names.length
        returnValue
        registerNames := registers.names.map keptName
        body }

def declaration (declarations : Declarations) : Reader Declarations := do
  match ← identifier with
  | "enum" => do
    let enumeration ← enumeration declarations.types
    pure (declarations.addEnum enumeration)
  | "struct" => do
    let record ← record declarations.types
    pure (declarations.addRecord record)
  | "interface" => do
    let name ← interface declarations.types
    pure (declarations.addInterface name)
  | "fn" => do
    let function ← function declarations
    pure (declarations.addFunction function)
  | other => fail (.notDeclaration other)

def declarationsRound (next : Declarations → Reader Declarations) (declarations : Declarations) :
    Reader Declarations := do
  skip
  if (← peek?).isNone then pure declarations
  else do
    let declarations ← declaration declarations
    next declarations

def declarationsWithin : (bound : Nat) → Declarations → Reader Declarations
  | 0, declarations => pure declarations
  | bound + 1, declarations => declarationsRound (declarationsWithin bound) declarations

/-- The function with its references resolved among the given function names. -/
def resolve (names : List String) (function : Function String) :
    Except (ParseError (List Char)) (Function FunctionId) :=
  match function.functions.find? (· ∉ names) with
  | some name => .error (.undefinedFunction name)
  | none => .ok (function.relabel names.idxOf)

def program (text : List Char) : Except (ParseError (List Char)) Program := do
  let (declarations, _) ← declarationsWithin text.length .empty text
  let names := declarations.functions.map Function.name
  let functions ← declarations.functions.mapM (resolve names)
  let program : Program := { declarations.types with functions }
  match program.verify with
  | .ok () => pure program
  | .error error => throw (.invalid error)

end Reading

namespace Program

def parse (text : String) : Except (ParseError Position) Program :=
  (Reading.program text.toList).mapError (.mapPlace (Position.ofRest text.toList))

def parsedEvent (program : Program) : Event :=
  .parsed program.functions.length program.enums.length program.records.length
    program.interfaces.length

end Program

end RegisterIR
