import RegisterIR.Fault

/-! Types of values and the tables of declared types. A type says how a value is represented;
enums, structs and interfaces are declared in tables and referred to by position. -/

namespace RegisterIR

abbrev EnumId := Nat

/-- A range of integers with both bounds included. Bounds in the wrong order are refused before
there is a range: `ofBounds` ends in a fault, and a text that has such bounds is not read
(`Malformation.emptyRange`). The bounds that `SafeRange.clamped` takes may have any order. -/
structure IntegerRange where
  minimum : Nat
  maximum : Nat
  ordered : minimum ≤ maximum
deriving Repr

namespace IntegerRange

theorem ext_iff (a b : IntegerRange) :
    a = b ↔ a.minimum = b.minimum ∧ a.maximum = b.maximum := by
  cases a
  cases b
  simp

instance : DecidableEq IntegerRange := fun a b => decidable_of_iff _ (ext_iff a b).symm

def ofBounds (minimum maximum : Nat) : Except Fault IntegerRange :=
  if ordered : minimum ≤ maximum then .ok ⟨minimum, maximum, ordered⟩
  else .error (.emptyIntegerRange minimum maximum)

end IntegerRange

structure ElementRef where
  enumeration : EnumId
  which : Nat
deriving DecidableEq, Repr

inductive ValueType
  | unit
  | string
  /-- A value of the host, about whose shape nothing is known. -/
  | host
  | integer (range : IntegerRange)
  | enumeration (id : EnumId)
  | constructor (element : ElementRef)
  | function (parameters : List ValueType) (result : ValueType)
  | tuple (elements : List ValueType)
  | record (id : Nat)
  | interface (id : Nat)
deriving Repr

namespace ValueType

mutual

def beq : ValueType → ValueType → Bool
  | unit, unit => true
  | string, string => true
  | host, host => true
  | integer range, integer range' => range == range'
  | enumeration id, enumeration id' => id == id'
  | constructor element, constructor element' => element == element'
  | function parameters result, function parameters' result' =>
    beqAll parameters parameters' && beq result result'
  | tuple elements, tuple elements' => beqAll elements elements'
  | record id, record id' => id == id'
  | interface id, interface id' => id == id'
  | _, _ => false

def beqAll : List ValueType → List ValueType → Bool
  | [], [] => true
  | type :: types, type' :: types' => beq type type' && beqAll types types'
  | _, _ => false

end

mutual

theorem beq_iff : ∀ a b : ValueType, beq a b = true ↔ a = b
  | unit, b => by cases b <;> simp [beq]
  | string, b => by cases b <;> simp [beq]
  | host, b => by cases b <;> simp [beq]
  | integer _, b => by cases b <;> simp [beq]
  | enumeration _, b => by cases b <;> simp [beq]
  | constructor _, b => by cases b <;> simp [beq]
  | function parameters result, b => by
    cases b <;> simp [beq, beqAll_iff parameters, beq_iff result]
  | tuple elements, b => by cases b <;> simp [beq, beqAll_iff elements]
  | record _, b => by cases b <;> simp [beq]
  | interface _, b => by cases b <;> simp [beq]

theorem beqAll_iff : ∀ a b : List ValueType, beqAll a b = true ↔ a = b
  | [], b => by cases b <;> simp [beqAll]
  | type :: types, b => by cases b <;> simp [beqAll, beq_iff type, beqAll_iff types]

end

instance : DecidableEq ValueType := fun a b => decidable_of_iff (beq a b = true) (beq_iff a b)

end ValueType

structure Element where
  name : String
  state : Option ValueType
deriving DecidableEq, Repr

structure Enumeration where
  name : String
  elements : List Element
deriving DecidableEq, Repr

namespace Enumeration

def hasState (enumeration : Enumeration) : Bool :=
  enumeration.elements.any (·.state.isSome)

def find? (enumeration : Enumeration) (name : String) : Option Nat :=
  enumeration.elements.findIdx? (·.name == name)

end Enumeration

structure Member where
  name : String
  type : ValueType
deriving DecidableEq, Repr

structure Record where
  name : String
  members : List Member
deriving DecidableEq, Repr

end RegisterIR
