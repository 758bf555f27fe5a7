import RegisterIR.Program
import RegisterIR.Reading.Error

/-! Resolution of references in place. The visitor takes the next of the recorded names at each
label, whatever the label was. -/

namespace RegisterIR

namespace Scanning

/-- Stands for a function that is not known yet. -/
def unresolved : FunctionId := 4294967295

/-- The recorded names that are still to come, and the first name that no function has. -/
structure Pending where
  names : List String
  undefined : Option String

def nextReference (functions : List String) (label : FunctionId) : StateM Pending FunctionId :=
  fun pending =>
    match pending.names with
    | [] => (label, pending)
    | name :: names =>
      match functions.idxOf? name with
      | some resolved => (resolved, ⟨names, pending.undefined⟩)
      | none => (label, ⟨names, pending.undefined.or (some name)⟩)

/-- Resolves the functions one after the other, each with the names that were recorded for it. -/
def resolveAll (names : List String) :
    List (Function FunctionId) → List (List String) →
      Except (ParseError Position) (List (Function FunctionId))
  | function :: functions, recorded :: references =>
    let (updated, pending) := function.update (nextReference names) ⟨recorded, none⟩
    match pending.undefined with
    | some name => .error (.undefinedFunction name)
    | none => do
      let others ← resolveAll names functions references
      pure (updated :: others)
  | functions, _ => pure functions

end Scanning

end RegisterIR
