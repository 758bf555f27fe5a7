import RegisterIR.Text.Layout
import RegisterIR.ValueSet.Range

/-! Sets of script values. A set is a range of safe integers together with a choice of the kinds
of value that are not integers, each of which it contains entirely or not at all. -/

namespace RegisterIR

inductive Kind
  | undefined
  | null
  | string
  | array
  | object
  | function
  | isTrue
  | isFalse
deriving DecidableEq, Repr

namespace Kind

/-- All kinds, in the order in which sets list them. -/
def all : List Kind := [undefined, null, string, array, object, function, isTrue, isFalse]

theorem mem_all (kind : Kind) : kind ∈ all := by cases kind <;> decide

def name : Kind → String
  | undefined => "undefined"
  | null => "null"
  | string => "string"
  | array => "array"
  | object => "object"
  | function => "function"
  | isTrue => "true"
  | isFalse => "false"

def ofBool : Bool → Kind
  | true => isTrue
  | false => isFalse

end Kind

structure ValueSet where
  integers : SafeRange
  has : Kind → Bool

namespace ValueSet

@[ext] theorem ext {a b : ValueSet} (integers : a.integers = b.integers)
    (has : ∀ kind, a.has kind = b.has kind) : a = b := by
  cases a
  cases b
  simp only [mk.injEq]
  exact ⟨integers, funext has⟩

instance : DecidableEq ValueSet := fun a b =>
  decidable_of_iff (a.integers = b.integers ∧ ∀ kind ∈ Kind.all, a.has kind = b.has kind)
    ⟨fun h => ext h.1 fun kind => h.2 kind kind.mem_all, fun h => h ▸ ⟨rfl, fun _ _ => rfl⟩⟩

instance : BEq ValueSet where
  beq a b := a.integers == b.integers && Kind.all.all fun kind => a.has kind == b.has kind

def empty : ValueSet := ⟨.empty, fun _ => false⟩

def ofKind (kind : Kind) : ValueSet := ⟨.empty, fun other => other == kind⟩

def ofRange (range : SafeRange) : ValueSet := ⟨range, fun _ => false⟩

def ofBool (value : Bool) : ValueSet := ofKind (Kind.ofBool value)

def booleans : ValueSet := ⟨.empty, fun kind => kind == .isTrue || kind == .isFalse⟩

def anything : ValueSet := ⟨.full, fun _ => true⟩

def kinds (set : ValueSet) : List Kind := Kind.all.filter set.has

def isEmpty (set : ValueSet) : Bool := set.integers.isEmpty && set.kinds.isEmpty

def union (a b : ValueSet) : ValueSet :=
  ⟨a.integers.union b.integers, fun kind => a.has kind || b.has kind⟩

/-- Folds another set in that shares no kind with the set and whose integers are apart from its
own. Gives whether it did, and the set that is left. -/
def merge (set other : ValueSet) : Bool × ValueSet := Id.run do
  let mut set := set
  let collide := Kind.all.any fun kind => set.has kind && other.has kind
  if collide || !set.integers.isApart other.integers then
    return (false, set)
  set := { set with integers := set.integers.union other.integers }
  set := { set with has := fun kind => set.has kind || other.has kind }
  return (true, set)

def parts (set : ValueSet) : List String :=
  (match set.integers.first?, set.integers.last? with
    | some first, some last => [s!"int {first}..{last}"]
    | _, _ => []) ++
  set.kinds.map Kind.name

def render (set : ValueSet) : String := "\x7b" ++ Text.listed set.parts ++ "\x7d"

end ValueSet

end RegisterIR
