import RegisterIR.Reading.Token

/-! Readers of types and of references to enum elements. Names are looked up among the types
declared so far. -/

namespace RegisterIR.Reading

variable (types : TypeTable)

def findEnum (name : String) : Reader EnumId :=
  match types.enums.findIdx? (·.name == name) with
  | some id => pure id
  | none => raise (.undefinedType .enumeration name)

def findRecord (name : String) : Reader Nat :=
  match types.records.findIdx? (·.name == name) with
  | some id => pure id
  | none => raise (.undefinedType .record name)

def findInterface (name : String) : Reader Nat :=
  match types.interfaces.findIdx? (· == name) with
  | some id => pure id
  | none => raise (.undefinedType .interface name)

def findElement (enumeration element : String) : Reader (ElementRef × Element) :=
  match types.enums.zipIdx.find? (·.1.name == enumeration) with
  | none => raise (.undefinedType .enumeration enumeration)
  | some (declared, id) =>
    match declared.elements.zipIdx.find? (·.1.name == element) with
    | none => raise (.undefinedElement enumeration element)
    | some (found, which) => pure (⟨id, which⟩, found)

def elementOf (enumeration : String) : Reader (ElementRef × Element) := do
  expect "."
  let element ← identifier
  findElement types enumeration element

def elementRef : Reader (ElementRef × Element) := do
  let enumeration ← identifier
  elementOf types enumeration

def integerRange : Reader IntegerRange := do
  let minimum ← number
  expect ".."
  let maximum ← number
  if ordered : minimum ≤ maximum then pure ⟨minimum, maximum, ordered⟩
  else fail (.emptyRange minimum maximum)

/-- Reads a type; `inner` reads the types inside it. -/
def typeRound (inner : Reader ValueType) : Reader ValueType := do
  match ← identifier with
  | "unit" => pure .unit
  | "string" => pure .string
  | "host" => pure .host
  | "int" => do
    let range ← integerRange
    pure (.integer range)
  | "enum" => do
    let name ← identifier
    let id ← findEnum types name
    pure (.enumeration id)
  | "struct" => do
    let name ← identifier
    let id ← findRecord types name
    pure (.record id)
  | "interface" => do
    let name ← identifier
    let id ← findInterface types name
    pure (.interface id)
  | "constructor" => do
    let (which, _) ← elementRef types
    pure (.constructor which)
  | "function" => do
    let parameters ← list inner
    expect "->"
    let result ← inner
    pure (.function parameters result)
  | "tuple" => do
    let elements ← list inner
    pure (.tuple elements)
  | other => fail (.unknownType other)

def typeWithin : (bound : Nat) → Reader ValueType
  | 0 => do
    skip
    unexpected "identifier"
  | bound + 1 => typeRound types (typeWithin bound)

def type : Reader ValueType := fun text => typeWithin types text.length text

end RegisterIR.Reading
