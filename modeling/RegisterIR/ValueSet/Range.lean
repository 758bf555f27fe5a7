import RegisterIR.Fault

/-! Ranges of the integers that a script number holds exactly. A range is given by its first integer
and the one that follows its last. Every range that ends before it begins is empty, so the empty
range has many forms, and ranges are compared by `==` and not by their bounds. -/

namespace RegisterIR

/-- The largest integer below which all integers are exact script numbers. -/
def maxSafeInteger : Nat := 9007199254740991

structure SafeRange where
  first : Nat
  afterLast : Nat
  safe : afterLast ≤ maxSafeInteger + 1
deriving DecidableEq, Repr

namespace SafeRange

def ofBounds (first last : Nat) : Except Fault SafeRange :=
  if first ≤ last then
    if safe : last ≤ maxSafeInteger then .ok ⟨first, last + 1, Nat.succ_le_succ safe⟩
    else .error (.beyondSafe last)
  else .error (.emptySafeRange first last)

def empty : SafeRange := ⟨0, 0, Nat.zero_le _⟩

def full : SafeRange := ⟨0, maxSafeInteger + 1, Nat.le_refl _⟩

def clamped (minimum maximum : Nat) : SafeRange :=
  if minimum > maxSafeInteger ∨ minimum > maximum then empty
  else ⟨minimum, min maximum maxSafeInteger + 1, Nat.succ_le_succ (Nat.min_le_right _ _)⟩

def isEmpty (range : SafeRange) : Bool := range.afterLast ≤ range.first

def size (range : SafeRange) : Nat := range.afterLast - range.first

def first? (range : SafeRange) : Option Nat :=
  if range.isEmpty then none else some range.first

def last? (range : SafeRange) : Option Nat :=
  if range.isEmpty then none else some (range.afterLast - 1)

instance : Membership Nat SafeRange where
  mem range n := range.first ≤ n ∧ n < range.afterLast

theorem mem_def {n : Nat} {range : SafeRange} :
    n ∈ range ↔ range.first ≤ n ∧ n < range.afterLast := Iff.rfl

instance (n : Nat) (range : SafeRange) : Decidable (n ∈ range) :=
  inferInstanceAs (Decidable (range.first ≤ n ∧ n < range.afterLast))

@[simp] theorem not_mem_empty (n : Nat) : ¬ n ∈ empty := fun h => Nat.not_lt_zero n h.2

def covering (range other : SafeRange) : SafeRange :=
  ⟨min range.first other.first, max range.afterLast other.afterLast,
    Nat.max_le.mpr ⟨range.safe, other.safe⟩⟩

/-- The least range that contains both: a gap between the two belongs to it. -/
def union (range other : SafeRange) : SafeRange :=
  if range.isEmpty then other
  else if other.isEmpty then range
  else range.covering other

/-- Two ranges are apart when one is empty or the range over both has room for more than their
members, so at least one integer lies between them. -/
def isApart (range other : SafeRange) : Bool :=
  if range.isEmpty || other.isEmpty then true
  else range.size + other.size < (range.covering other).size

/-- Extends the range by another from which it is apart. Gives whether it did, and the range that
is left. -/
def merge (range other : SafeRange) : Bool × SafeRange := Id.run do
  let mut range := range
  if !range.isApart other then
    return (false, range)
  range := range.union other
  return (true, range)

/-- The bounds of an empty range do not matter. -/
instance : BEq SafeRange where
  beq range other :=
    if range.isEmpty || other.isEmpty then range.isEmpty && other.isEmpty
    else range.first == other.first && range.afterLast == other.afterLast

end SafeRange

end RegisterIR
