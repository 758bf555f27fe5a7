import RegisterIR.Proofs.Relabelling
import RegisterIR.Scanning.References

/-! Resolution of references in place. A visitor that takes the next of the recorded names at each
label meets the labels in the order in which the names were recorded, so that each name ends up
where it stood. -/

namespace RegisterIR

namespace Scanning

variable {α β : Type} {names : List String}

def standIn (_ : String) : FunctionId := unresolved

def placed (names : List String) (name : String) : FunctionId :=
  (names.idxOf? name).getD unresolved

/-- The visitor takes the recorded names, gives the value and keeps the first name that no function
has. -/
def Visits (names : List String) (update : StateM Pending α) (recorded : List String)
    (value : α) : Prop :=
  ∀ more undefined, update ⟨recorded ++ more, undefined⟩ =
    (value, ⟨more, undefined.or (recorded.find? (· ∉ names))⟩)

theorem visits_pure (value : α) : Visits names (pure value) [] value := by
  intro more undefined
  rw [List.find?_nil, Option.or_none]
  rfl

theorem Visits.bind {first : StateM Pending α} {next : α → StateM Pending β}
    {recorded recorded' : List String} {value : α} {result : β}
    (h : Visits names first recorded value)
    (later : Visits names (next value) recorded' result) :
    Visits names (first >>= next) (recorded ++ recorded') result := by
  intro more undefined
  have unfolded (pending : Pending) :
      (first >>= next) pending = next (first pending).1 (first pending).2 := rfl
  rw [unfolded, List.append_assoc, h, later, List.find?_append, Option.or_assoc]

theorem Visits.map {first : StateM Pending α} {recorded : List String} {value : α}
    (h : Visits names first recorded value) (f : α → β) :
    Visits names (do
      let value ← first
      pure (f value)) recorded (f value) := by
  rw [← List.append_nil recorded]
  exact Visits.bind h (visits_pure (f value))

theorem idxOf?_of_mem {name : String} (member : name ∈ names) :
    names.idxOf? name = some (names.idxOf name) := by
  have whole : names.idxOf name = (names.idxOf? name).getD names.length :=
    List.findIdx_eq_getD_findIdx?
  rw [whole]
  cases found : names.idxOf? name with
  | some id => rfl
  | none => exact absurd member (List.idxOf?_eq_none_iff.mp found)

theorem placed_of_mem {name : String} (member : name ∈ names) :
    placed names name = names.idxOf name := by
  rw [placed, idxOf?_of_mem member, Option.getD_some]

theorem visits_nextReference (name : String) :
    Visits names (nextReference names unresolved) [name] (placed names name) := by
  intro more undefined
  by_cases member : name ∈ names
  · rw [placed_of_mem member]
    simp [nextReference, idxOf?_of_mem member, member]
  · have absent := List.idxOf?_eq_none_iff.mpr member
    simp [nextReference, placed, absent, member]

end Scanning

open Scanning

variable (names : List String)

namespace Literal

mutual

theorem visits_update : ∀ literal : Literal String,
    Visits names ((literal.relabel standIn).update (nextReference names)) literal.functions
      (literal.relabel (placed names))
  | function name => (visits_nextReference name).map function
  | wrapped which state => (visits_update state).map (wrapped which)
  | tuple elements => (visits_updateAll elements).map tuple
  | unit => visits_pure unit
  | integer value => visits_pure (integer value)
  | string content => visits_pure (string content)
  | element which => visits_pure (element which)
  | constructor which => visits_pure (constructor which)

theorem visits_updateAll : ∀ literals : List (Literal String),
    Visits names (updateAll (nextReference names) (relabelAll standIn literals))
      (functionsAll literals) (relabelAll (placed names) literals)
  | [] => visits_pure []
  | literal :: literals =>
    (visits_update literal).bind ((visits_updateAll literals).map (_ :: ·))

end

end Literal

theorem Operation.visits_update (operation : Operation String) :
    Visits names ((operation.relabel standIn).update (nextReference names)) operation.functions
      (operation.relabel (placed names)) := by
  cases operation with
  | literal value type => exact (Literal.visits_update names value).map (literal · type)
  | _ => exact visits_pure _

namespace Instruction

mutual

theorem visits_update : ∀ instruction : Instruction String,
    Visits names ((instruction.relabel standIn).update (nextReference names))
      instruction.functions (instruction.relabel (placed names))
  | compute result operation => (operation.visits_update names).map (compute result)
  | select result key cases => (visits_updateCases cases).map (select result key)
  | loop body => (visits_updateBody body).map loop
  | call result callee arguments => visits_pure (call result callee arguments)
  | leave => visits_pure leave

theorem visits_updateBody : ∀ body : Body String,
    Visits names (updateBody (nextReference names) (relabelBody standIn body))
      (functionsBody body) (relabelBody (placed names) body)
  | [] => visits_pure []
  | instruction :: body =>
    (visits_update instruction).bind ((visits_updateBody body).map (_ :: ·))

theorem visits_updateCases : ∀ cases : Cases String,
    Visits names (updateCases (nextReference names) (relabelCases standIn cases))
      (functionsCases cases) (relabelCases (placed names) cases)
  | [] => visits_pure []
  | ⟨guard, action, value⟩ :: cases =>
    (visits_updateBody action).bind
      ((visits_updateCases cases).map (⟨guard, relabelBody (placed names) action, value⟩ :: ·))

end

end Instruction

theorem Function.visits_update (function : Function String) :
    Visits names ((function.relabel standIn).update (nextReference names)) function.functions
      (function.relabel (placed names)) :=
  (Instruction.visits_updateBody names function.body).map fun body =>
    ({ function.relabel (placed names) with body } : Function FunctionId)

namespace Scanning

/-- All references are resolved, or the first name is reported that no function has. -/
theorem resolveAll_eq (functions : List (Function String)) :
    resolveAll names (functions.map (Function.relabel standIn))
        (functions.map Function.functions) =
      match (functions.flatMap Function.functions).find? (· ∉ names) with
      | some name => .error (.undefinedFunction name)
      | none => .ok (functions.map (.relabel names.idxOf)) := by
  induction functions with
  | nil => rfl
  | cons function functions ih =>
    have first := function.visits_update names [] none
    rw [List.append_nil, Option.none_or] at first
    rw [List.map_cons, List.map_cons, resolveAll, first, ih, List.flatMap_cons,
      List.find?_append, List.map_cons]
    -- An unknown name is reported at the end of the function, before the next one is visited.
    cases unknown : function.functions.find? (· ∉ names) with
    | some name => rfl
    | none =>
      have same : function.relabel (placed names) = function.relabel names.idxOf :=
        Function.relabel_congr fun name used =>
          placed_of_mem (by simpa using List.find?_eq_none.mp unknown name used)
      cases (functions.flatMap Function.functions).find? (· ∉ names) with
      | some name => rfl
      | none =>
        rw [← same]
        rfl

end Scanning

end RegisterIR
