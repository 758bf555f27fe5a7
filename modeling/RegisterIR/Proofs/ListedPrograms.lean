import RegisterIR.Proofs.Optimization
import RegisterIR.Proofs.ReadBodies

/-! Programs as their text declares them: registers in the order of their definitions, types before
their uses, and a name for everything that is named. Reading leads to such programs, and the
optimizer keeps them so, since it only leaves things out and keeps the order of what stays. -/

namespace RegisterIR

open Reading (IsWord IsIdentifier)

variable {φ ψ : Type}

theorem filterMap_getElem?_sublist {α : Type} (values : List α) (keep : Nat → Bool) (n : Nat) :
    (((List.range n).filter keep).filterMap (values[·]?)).Sublist values := by
  have first : ((List.range n).filterMap (values[·]?)).Sublist values := by
    rw [filterMap_getElem?_range]
    exact List.take_sublist n values
  exact (List.filter_sublist.filterMap _).trans first

namespace Operation

theorem Known.extend {types large : TypeTable} {operation : Operation φ}
    (known : operation.Known types) (extends' : large.Extends types) : operation.Known large := by
  cases operation with
  | literal value type => exact ⟨known.1.extend extends', extends'.known known.2⟩
  | construct which state stateType =>
    obtain ⟨element, found, payload⟩ := Option.map_eq_some_iff.mp known
    exact Option.map_eq_some_iff.mpr ⟨element, extends'.element? found, payload⟩
  | _ => exact known

theorem Known.rename {types : TypeTable} {operation : Operation φ} (known : operation.Known types)
    (f : Register → Register) : (operation.rename f).Known types := by
  cases operation <;> exact known

theorem Known.relabel {types : TypeTable} {operation : Operation φ} (known : operation.Known types)
    (f : φ → ψ) : (operation.relabel f).Known types := by
  cases operation with
  | literal value type => exact ⟨known.1.relabel f, known.2⟩
  | _ => exact known

end Operation

namespace Instruction

@[simp] theorem operationsBody_append (first second : Body φ) :
    operationsBody (first ++ second) = operationsBody first ++ operationsBody second := by
  induction first with
  | nil => rfl
  | cons instruction body ih => simp [operationsBody, ih]

mutual

theorem operations_prune_subset (keep : Register → Bool) : ∀ instruction : Instruction φ,
    operationsBody (instruction.prune keep).toList ⊆ instruction.operations
  | compute result _ => by
    by_cases h : keep result <;> simp [prune, operations, operationsBody, h]
  | call .. => by simp [prune, operations, operationsBody]
  | select _ _ cases => by
    simpa [prune, operations, operationsBody] using operationsCases_prune_subset keep cases
  | loop body => by
    have inner := operationsBody_prune_subset keep body
    by_cases h : (pruneBody keep body).isEmpty
    · simp [prune, h, operationsBody]
    · simpa [prune, h, operationsBody, operations] using inner
  | leave => by simp [prune, operations, operationsBody]

theorem operationsBody_prune_subset (keep : Register → Bool) : ∀ body : Body φ,
    operationsBody (pruneBody keep body) ⊆ operationsBody body
  | [] => by simp [pruneBody]
  | instruction :: body => by
    simp only [pruneBody, operationsBody_append, operationsBody]
    exact List.append_subset.mpr
      ⟨fun _ h => List.mem_append_left _ (operations_prune_subset keep instruction h),
        fun _ h => List.mem_append_right _ (operationsBody_prune_subset keep body h)⟩

theorem operationsCases_prune_subset (keep : Register → Bool) : ∀ cases : Cases φ,
    operationsCases (pruneCases keep cases) ⊆ operationsCases cases
  | [] => by simp [pruneCases]
  | ⟨_, action, _⟩ :: cases => by
    simp only [pruneCases, operationsCases]
    exact List.append_subset.mpr
      ⟨fun _ h => List.mem_append_left _ (operationsBody_prune_subset keep action h),
        fun _ h => List.mem_append_right _ (operationsCases_prune_subset keep cases h)⟩

end

mutual

theorem operations_rename (f : Register → Register) : ∀ instruction : Instruction φ,
    (instruction.rename f).operations = instruction.operations.map (·.rename f)
  | compute .. => by simp [rename, operations]
  | call .. => by simp [rename, operations]
  | select _ _ cases => by simp [rename, operations, operationsCases_rename f cases]
  | loop body => by simp [rename, operations, operationsBody_rename f body]
  | leave => by simp [rename, operations]

theorem operationsBody_rename (f : Register → Register) : ∀ body : Body φ,
    operationsBody (renameBody f body) = (operationsBody body).map (·.rename f)
  | [] => rfl
  | instruction :: body => by
    simp [renameBody, operationsBody, operations_rename f instruction, operationsBody_rename f body]

theorem operationsCases_rename (f : Register → Register) : ∀ cases : Cases φ,
    operationsCases (renameCases f cases) = (operationsCases cases).map (·.rename f)
  | [] => rfl
  | ⟨_, action, _⟩ :: cases => by
    simp [renameCases, operationsCases, operationsBody_rename f action,
      operationsCases_rename f cases]

end

mutual

theorem operations_relabel (f : φ → ψ) : ∀ instruction : Instruction φ,
    (instruction.relabel f).operations = instruction.operations.map (·.relabel f)
  | compute .. => by simp [relabel, operations]
  | call .. => by simp [relabel, operations]
  | select _ _ cases => by simp [relabel, operations, operationsCases_relabel f cases]
  | loop body => by simp [relabel, operations, operationsBody_relabel f body]
  | leave => by simp [relabel, operations]

theorem operationsBody_relabel (f : φ → ψ) : ∀ body : Body φ,
    operationsBody (relabelBody f body) = (operationsBody body).map (·.relabel f)
  | [] => rfl
  | instruction :: body => by
    simp [relabelBody, operationsBody, operations_relabel f instruction,
      operationsBody_relabel f body]

theorem operationsCases_relabel (f : φ → ψ) : ∀ cases : Cases φ,
    operationsCases (relabelCases f cases) = (operationsCases cases).map (·.relabel f)
  | [] => rfl
  | ⟨_, action, _⟩ :: cases => by
    simp [relabelCases, operationsCases, operationsBody_relabel f action,
      operationsCases_relabel f cases]

end

end Instruction

namespace Function

/-- The function is as its text gives it: it defines its registers in order, and the names that it
keeps for them are different words, none of them a number. -/
structure Listed (types : TypeTable) (function : Function φ) : Prop where
  name : IsIdentifier function.name
  numbers : function.definitions = List.range function.registerCount
  words : ∀ name, some name ∈ function.registerNames →
    IsWord name ∧ name.toList.all Char.isDigit = false
  distinct : (function.registerNames.filterMap id).Nodup
  operations : ∀ operation ∈ Instruction.operationsBody function.body, operation.Known types

variable {types : TypeTable} {function : Function φ}

theorem Listed.extend {large : TypeTable} (listed : function.Listed types)
    (extends' : large.Extends types) : function.Listed large :=
  { listed with
    operations := fun operation member => (listed.operations operation member).extend extends' }

theorem Listed.relabel (listed : function.Listed types) (f : φ → ψ) :
    (function.relabel f).Listed types where
  name := listed.name
  numbers := by
    rw [definitions, Function.relabel, Instruction.definitionsBody_relabel]
    exact listed.numbers
  words := listed.words
  distinct := listed.distinct
  operations operation member := by
    rw [Function.relabel, Instruction.operationsBody_relabel] at member
    obtain ⟨original, inside, rfl⟩ := List.mem_map.mp member
    exact (listed.operations original inside).relabel f

theorem Listed.restrict (listed : function.Listed types) {keep : Register → Bool}
    (covers : function.Covers keep) : (function.restrict keep).Listed types where
  name := listed.name
  numbers := by
    rw [definitions_restrict covers, listed.numbers, map_rank_filter]
    rfl
  words name member := listed.words name ((filterMap_getElem?_sublist _ _ _).subset member)
  distinct := listed.distinct.sublist ((filterMap_getElem?_sublist _ _ _).filterMap id)
  operations operation member := by
    rw [Function.restrict, Instruction.operationsBody_rename] at member
    obtain ⟨original, inside, rfl⟩ := List.mem_map.mp member
    exact (listed.operations original
      (Instruction.operationsBody_prune_subset keep _ inside)).rename _

theorem Listed.reduced {program : Program} {function : Function FunctionId}
    (listed : function.Listed types) (verified : function.check program = .ok ()) :
    function.reduced.Listed types :=
  reduced_run (P := fun function => function.Listed types) verified
    (fun _ _ listed => listed.restrict (covers_keeps _)) listed

end Function

/-- Types are declared before their uses, and names of one kind are different. -/
structure TypeTable.Listed (types : TypeTable) : Prop where
  named : types.WellNamed
  payloads : ∀ before enumeration after, types.enums = before ++ enumeration :: after →
    ∀ element ∈ enumeration.elements, ∀ state ∈ element.state,
      state.Known ⟨before, types.records, types.interfaces⟩
  members : ∀ before record after, types.records = before ++ record :: after →
    ∀ member ∈ record.members, member.type.Known ⟨types.enums, before, types.interfaces⟩

theorem TypeTable.Listed.known_payload {types : TypeTable} (listed : types.Listed) {number : EnumId}
    {enumeration : Enumeration} (declared : types.enums[number]? = some enumeration)
    {element : Element} (member : element ∈ enumeration.elements) {state : ValueType}
    (payload : state ∈ element.state) :
    state.Known ⟨types.enums.take number, types.records, types.interfaces⟩ := by
  obtain ⟨inside, rfl⟩ := List.getElem?_eq_some_iff.mp declared
  have parts : types.enums =
      types.enums.take number ++ types.enums[number] :: types.enums.drop (number + 1) := by
    rw [← List.drop_eq_getElem_cons inside, List.take_append_drop]
  exact listed.payloads _ _ _ parts element member state payload

structure FunctionsListed (types : TypeTable) (functions : List (Function φ)) : Prop where
  each : ∀ function ∈ functions, function.Listed types
  distinct : (functions.map Function.name).Nodup

theorem FunctionsListed.relabel {types : TypeTable} {functions : List (Function φ)}
    (listed : FunctionsListed types functions) (f : φ → ψ) :
    FunctionsListed types (functions.map (.relabel f)) where
  each function member := by
    obtain ⟨original, inside, rfl⟩ := List.mem_map.mp member
    exact (listed.each original inside).relabel f
  distinct := by
    rw [List.map_map]
    exact listed.distinct

structure Program.Listed (program : Program) : Prop where
  types : program.toTypeTable.Listed
  functions : FunctionsListed program.toTypeTable program.functions

namespace Program

variable {program : Program}

theorem Listed.reduced (listed : program.Listed) (verified : program.verify = .ok ()) :
    program.reduced.Listed where
  types := listed.types
  functions := by
    refine ⟨fun function member => ?_, ?_⟩
    · obtain ⟨original, inside, rfl⟩ := List.mem_map.mp member
      exact (listed.functions.each original inside).reduced
        (verify_eq_ok_iff.mp verified original inside)
    · have names : program.reduced.functions.map Function.name =
          program.functions.map Function.name := by
        rw [Program.reduced, List.map_map]
        refine List.map_congr_left fun function member => ?_
        exact Function.reduced_run (P := fun other => other.name = function.name)
          (verify_eq_ok_iff.mp verified function member) (fun _ _ same => same) rfl
      rw [names]
      exact listed.functions.distinct

theorem Listed.trimmed (listed : program.Listed) : program.trimmed.Listed where
  types := listed.types
  functions := by
    have order := filterMap_getElem?_sublist program.functions program.isMarked
      program.functions.length
    have stays : FunctionsListed program.toTypeTable
        (program.kept.filterMap (program.functions[·]?)) :=
      ⟨fun function member => listed.functions.each function (order.subset member),
        listed.functions.distinct.sublist (order.map _)⟩
    exact stays.relabel _

theorem Listed.optimize (listed : program.Listed) (verified : program.verify = .ok ())
    (passes : Optimization) : ∃ optimized, (program.optimize passes).outcome = .ok optimized ∧
      optimized.toTypeTable = program.toTypeTable ∧ optimized.Listed ∧
      optimized.verify = .ok () := by
  obtain ⟨optimized, equation, form⟩ := optimize_of_verify verified passes
  have kept := verify_base verified passes
  have base : (program.base passes).Listed := by
    rw [Program.base]
    split
    · exact listed.reduced verified
    · exact listed
  have types : (program.base passes).toTypeTable = program.toTypeTable := by
    rw [Program.base]
    split <;> rfl
  rcases form with rfl | rfl
  · exact ⟨_, equation, types, base, kept⟩
  · exact ⟨_, equation, types, base.trimmed, verify_trimmed kept⟩

end Program

end RegisterIR
