import RegisterIR.ValueSet

/-! Constants that a script can write out and compare with `===`. -/

namespace RegisterIR

inductive Tag
  | integer (value : Nat)
  | boolean (value : Bool)
  | undefined
  | null
deriving DecidableEq, Repr

namespace Tag

/-- The set with this constant as its only member; an integer has to be safe. -/
def valueSet : Tag → Except Fault ValueSet
  | integer value => ValueSet.ofRange <$> SafeRange.ofBounds value value
  | boolean value => .ok (ValueSet.ofBool value)
  | undefined => .ok (ValueSet.ofKind .undefined)
  | null => .ok (ValueSet.ofKind .null)

def render : Tag → String
  | integer value => toString value
  | boolean true => "true"
  | boolean false => "false"
  | undefined => "undefined"
  | null => "null"

end Tag

end RegisterIR
