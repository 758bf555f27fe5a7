import RegisterIR.Reading.Type

/-! Readers of literals. A function is referred to by name. -/

namespace RegisterIR.Reading

variable (types : TypeTable)

def functionName : Reader String := do
  expect "@"
  let name ← word
  if name.isEmpty then unexpected "function name" else pure name

/-- Reads a literal; `inner` reads the literals inside it. -/
def literalRound (inner : Reader (Literal String)) : Reader (Literal String) := do
  skip
  match ← peek? with
  | some '"' => do
    let content ← quoted
    pure (.string content)
  | some '@' => do
    let name ← functionName
    pure (.function name)
  | some '(' => do
    let elements ← list inner
    pure (.tuple elements)
  | next => do
    if next.any Char.isDigit then
      let value ← number
      pure (.integer value)
    else
      match ← identifier with
      | "unit" => pure .unit
      | "constructor" => do
        let (which, _) ← elementRef types
        pure (.constructor which)
      | enumeration => do
        let (which, _) ← elementOf types enumeration
        if ← accept "(" then
          let state ← inner
          expect ")"
          pure (.wrapped which state)
        else pure (.element which)

def literalWithin : (bound : Nat) → Reader (Literal String)
  | 0 => do
    skip
    unexpected "identifier"
  | bound + 1 => literalRound types (literalWithin bound)

def literal : Reader (Literal String) := fun text => literalWithin types text.length text

end RegisterIR.Reading
