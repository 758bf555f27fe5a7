import RegisterIR.Encoding.Element
import RegisterIR.ValueType

/-! Strategies: one encoding for each element of an enum, in order of declaration. -/

namespace RegisterIR

abbrev Strategy := List ElementEncoding

namespace Strategy

def addValues (set : ValueSet) (encoding : ElementEncoding) : Except Fault ValueSet := do
  let own ← encoding.valueSet
  pure (set.union own)

def valueSet (strategy : Strategy) : Except Fault ValueSet := strategy.foldlM addValues .empty

def constants (count : Nat) : Strategy :=
  (List.range count).map fun index =>
    .stateless (if count = 2 then .boolean (index == 1) else .integer index)

def tagged (elements : List Element) : Strategy :=
  elements.zipIdx.map fun (element, index) =>
    if element.state.isSome then .indirect index else .stateless (.integer index)

/-- The first of the tags that can be merged into the used values, and the values used with it. -/
def firstFree (used : ValueSet) : List Tag → Except Fault (Option (Tag × ValueSet))
  | [] => .ok none
  | tag :: tags => do
    let set ← tag.valueSet
    let (merged, used) := used.merge set
    if merged then pure (some (tag, used)) else firstFree used tags

/-- Payloads as themselves, and for each element without payload the first constant that is apart
from the values used so far; `index` is the ordinal of the first element. -/
def direct (index : Nat) (used : ValueSet) :
    List (Option ValueSet) → Except Fault (Option Strategy)
  | [] => .ok (some [])
  | some payload :: payloads => do
    let rest ← direct (index + 1) used payloads
    pure (rest.map (.direct payload :: ·))
  | none :: payloads => do
    match ← firstFree used [.undefined, .null, .integer index] with
    | none => pure none
    | some (tag, used) => do
      let rest ← direct (index + 1) used payloads
      pure (rest.map (.stateless tag :: ·))

end Strategy

end RegisterIR
