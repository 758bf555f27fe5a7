import RegisterIR.Proofs.Pruning
import RegisterIR.Proofs.WrittenLiterals
import RegisterIR.Reading.Body

/-! Bodies that have been read. Registers are numbered in the order in which the text defines them,
each under a name of its own, and all computations refer to declared types and elements. -/

namespace RegisterIR

open Reading (IsWord maxWord)

variable {φ : Type}

section Concat

variable {α : Type} {values : List α} {value : α}

theorem forall_mem_concat {P : α → Prop} (old : ∀ other ∈ values, P other) (new : P value) :
    ∀ other ∈ values ++ [value], P other :=
  List.forall_mem_append.mpr ⟨old, List.forall_mem_singleton.mpr new⟩

theorem nodup_concat (distinct : values.Nodup) (new : value ∉ values) :
    (values ++ [value]).Nodup := by
  rw [← List.concat_eq_append]
  exact distinct.concat new

end Concat

def Operation.Known (types : TypeTable) : Operation φ → Prop
  | literal value type => value.Known types ∧ type.Known types
  | member _ index => index ≤ maxWord
  | construct which _ stateType =>
    (types.element? which).map (·.state.getD .unit) = some stateType
  | _ => True

namespace Instruction

mutual

def operations : Instruction φ → List (Operation φ)
  | compute _ operation => [operation]
  | select _ _ cases => operationsCases cases
  | loop body => operationsBody body
  | _ => []

def operationsBody : Body φ → List (Operation φ)
  | [] => []
  | instruction :: body => instruction.operations ++ operationsBody body

def operationsCases : Cases φ → List (Operation φ)
  | [] => []
  | ⟨_, action, _⟩ :: cases => operationsBody action ++ operationsCases cases

end

end Instruction

namespace Reading

structure Registers.Valid (registers : Registers) : Prop where
  distinct : registers.names.Nodup
  words : ∀ name ∈ registers.names, IsWord name

/-- Reading has defined the given registers on top of those before. -/
structure Defines (definitions : List Register) (before after : Registers) : Prop where
  valid : before.Valid → after.Valid
  numbers : ∃ new, after.names = before.names ++ new ∧
    definitions = List.range' before.names.length new.length

namespace Defines

variable {first second : List Register} {before middle after : Registers}

theorem refl (registers : Registers) : Defines [] registers registers :=
  ⟨id, [], by simp, rfl⟩

theorem trans (h : Defines first before middle) (h' : Defines second middle after) :
    Defines (first ++ second) before after := by
  obtain ⟨new, names, rfl⟩ := h.numbers
  obtain ⟨new', names', rfl⟩ := h'.numbers
  refine ⟨fun valid => h'.valid (h.valid valid), new ++ new', ?_, ?_⟩
  · rw [names', names, List.append_assoc]
  · rw [names, List.length_append, List.length_append, List.range'_append_1]

end Defines

variable {types : TypeTable} {text rest : List Char} {registers after : Registers}

theorem defines_of_reads_newRegister {result : Register}
    (h : Reads (newRegister registers) text (result, after) rest) :
    Defines [result] registers after := by
  obtain ⟨name, _, named, defined⟩ := reads_bind.mp h
  rw [define] at defined
  split at defined
  · exact absurd defined not_reads_raise
  · rename_i new
    obtain ⟨rfl, rfl, _⟩ := reads_pure_pair.mp defined
    have word := isWord_of_reads_registerName named
    exact ⟨fun valid => ⟨nodup_concat valid.distinct new, forall_mem_concat valid.words word⟩,
      [name], rfl, rfl⟩

theorem known_of_reads_operation {keyword : String} {reader : Reader (Operation String)}
    {value : Operation String} (chosen : operation types registers keyword = some reader)
    (h : Reads reader text value rest) : value.Known types := by
  unfold operation at chosen
  split at chosen
  · obtain rfl := Option.some.inj chosen
    obtain ⟨literal, _, read, afterLiteral⟩ := reads_bind.mp h
    obtain ⟨_, _, _, afterColon⟩ := reads_bind.mp afterLiteral
    obtain ⟨type, _, readType, done⟩ := reads_bind.mp afterColon
    obtain ⟨rfl, _⟩ := reads_pure.mp done
    exact ⟨known_of_reads_literal read, known_of_reads_type readType⟩
  · obtain rfl := Option.some.inj chosen
    obtain ⟨elements, _, _, done⟩ := reads_bind.mp h
    obtain ⟨rfl, _⟩ := reads_pure.mp done
    trivial
  · obtain rfl := Option.some.inj chosen
    obtain ⟨source, _, _, afterSource⟩ := reads_bind.mp h
    obtain ⟨_, _, _, afterDot⟩ := reads_bind.mp afterSource
    obtain ⟨index, _, read, done⟩ := reads_bind.mp afterDot
    obtain ⟨rfl, _⟩ := reads_pure.mp done
    exact le_maxWord_of_reads read
  · obtain rfl := Option.some.inj chosen
    obtain ⟨⟨which, element⟩, _, read, afterElement⟩ := reads_bind.mp h
    obtain ⟨_, _, _, opened⟩ := reads_bind.mp afterElement
    obtain ⟨state, _, _, afterState⟩ := reads_bind.mp opened
    obtain ⟨_, _, _, done⟩ := reads_bind.mp afterState
    obtain ⟨rfl, _⟩ := reads_pure.mp done
    exact congrArg (Option.map _) (element?_of_reads_elementRef read)
  · obtain rfl := Option.some.inj chosen
    obtain ⟨rfl, _⟩ := reads_pure.mp h
    trivial
  · cases chosen

theorem defines_of_reads_guard {guard' : Guard}
    (h : Reads (guard types registers) text (guard', after) rest) :
    Defines guard'.bindings registers after := by
  obtain ⟨_, _, _, skipped⟩ := reads_bind.mp h
  obtain ⟨first, _, _, peeked⟩ := reads_bind.mp skipped
  split at peeked
  · obtain ⟨key, _, _, done⟩ := reads_bind.mp peeked
    obtain ⟨rfl, rfl, _⟩ := reads_pure_pair.mp done
    exact .refl _
  · obtain ⟨⟨which, element⟩, _, _, afterElement⟩ := reads_bind.mp peeked
    obtain ⟨_, _, _, opened⟩ := reads_bind.mp afterElement
    obtain ⟨⟨binding, defined⟩, _, read, afterBinding⟩ := reads_bind.mp opened
    obtain ⟨_, _, _, done⟩ := reads_bind.mp afterBinding
    obtain ⟨rfl, rfl, _⟩ := reads_pure_pair.mp done
    exact defines_of_reads_newRegister read

section Nested

open Instruction

variable {nested : Nested}
  (ensures : ∀ {registers after : Registers} {text rest : List Char} {body : Body String},
    Reads (nested registers) text (body, after) rest →
      Defines (definitionsBody body) registers after ∧
        ∀ operation ∈ operationsBody body, operation.Known types)
include ensures

theorem known_of_reads_caseOf {case : Case (Body String)}
    (h : Reads (caseOf types nested registers) text (case, after) rest) :
    Defines (case.guard.bindings ++ definitionsBody case.action) registers after ∧
      ∀ operation ∈ operationsBody case.action, operation.Known types := by
  obtain ⟨found, _, _, started⟩ := reads_bind.mp h
  cases found with
  | false =>
    obtain ⟨_, _, failed, _⟩ := reads_bind.mp started
    exact absurd failed not_reads_unexpected
  | true =>
    obtain ⟨⟨guard, entered⟩, _, guarded, afterGuard⟩ := reads_bind.mp started
    obtain ⟨_, _, _, opened⟩ := reads_bind.mp afterGuard
    obtain ⟨⟨action, last⟩, _, read, afterAction⟩ := reads_bind.mp opened
    obtain ⟨yields, _, _, ending⟩ := reads_bind.mp afterAction
    obtain ⟨defines, known⟩ := ensures read
    have whole := (defines_of_reads_guard guarded).trans defines
    cases yields with
    | true =>
      obtain ⟨value, _, _, done⟩ := reads_bind.mp ending
      obtain ⟨rfl, rfl, _⟩ := reads_pure_pair.mp done
      exact ⟨whole, known⟩
    | false =>
      obtain ⟨rfl, rfl, _⟩ := reads_pure_pair.mp ending
      exact ⟨whole, known⟩

theorem known_of_reads_casesWithin {bound : Nat} {cases : Cases String}
    (h : Reads (casesWithin types nested bound registers) text (cases, after) rest) :
    Defines (definitionsCases cases) registers after ∧
      ∀ operation ∈ operationsCases cases, operation.Known types := by
  induction bound generalizing registers after text rest cases with
  | zero =>
    obtain ⟨closed, _, _, next⟩ := reads_bind.mp h
    cases closed with
    | true =>
      obtain ⟨rfl, rfl, _⟩ := reads_pure_pair.mp next
      exact ⟨.refl _, by simp [operationsCases]⟩
    | false => exact absurd next not_reads_unexpected
  | succ bound ih =>
    obtain ⟨closed, _, _, next⟩ := reads_bind.mp h
    cases closed with
    | true =>
      obtain ⟨rfl, rfl, _⟩ := reads_pure_pair.mp next
      exact ⟨.refl _, by simp [operationsCases]⟩
    | false =>
      obtain ⟨⟨⟨guard, action, value⟩, middle⟩, _, first, later⟩ := reads_bind.mp next
      obtain ⟨⟨others, last⟩, _, more, done⟩ := reads_bind.mp later
      obtain ⟨rfl, rfl, _⟩ := reads_pure_pair.mp done
      obtain ⟨defines, known⟩ := known_of_reads_caseOf ensures first
      obtain ⟨definesMore, knownMore⟩ := ih more
      exact ⟨defines.trans definesMore, List.forall_mem_append.mpr ⟨known, knownMore⟩⟩

theorem known_of_reads_assignment {result : Register} {value : Instruction String}
    (h : Reads (assignment types nested registers result) text (value, after) rest) :
    (∃ inner, value.definitions = result :: inner ∧ Defines inner registers after) ∧
      ∀ operation ∈ value.operations, operation.Known types := by
  obtain ⟨keyword, _, _, next⟩ := reads_bind.mp h
  split at next
  · obtain ⟨callee, _, _, afterCallee⟩ := reads_bind.mp next
    obtain ⟨arguments, _, _, done⟩ := reads_bind.mp afterCallee
    obtain ⟨rfl, rfl, _⟩ := reads_pure_pair.mp done
    exact ⟨⟨[], rfl, .refl _⟩, by simp [operations]⟩
  · obtain ⟨key, _, _, afterKey⟩ := reads_bind.mp next
    obtain ⟨_, _, _, opened⟩ := reads_bind.mp afterKey
    obtain ⟨⟨cases, last⟩, _, read, done⟩ := reads_bind.mp opened
    obtain ⟨rfl, rfl, _⟩ := reads_pure_pair.mp done
    obtain ⟨defines, known⟩ := known_of_reads_casesWithin ensures read
    exact ⟨⟨definitionsCases cases, rfl, defines⟩, known⟩
  · split at next
    · rename_i reader chosen
      obtain ⟨operation, _, read, done⟩ := reads_bind.mp next
      obtain ⟨rfl, rfl, _⟩ := reads_pure_pair.mp done
      refine ⟨⟨[], rfl, .refl _⟩, ?_⟩
      simpa [operations] using known_of_reads_operation chosen read
    · exact absurd next not_reads_fail

theorem known_of_reads_instruction {value : Instruction String}
    (h : Reads (instruction types nested registers) text (value, after) rest) :
    Defines value.definitions registers after ∧
      ∀ operation ∈ value.operations, operation.Known types := by
  obtain ⟨_, _, _, skipped⟩ := reads_bind.mp h
  obtain ⟨first, _, _, peeked⟩ := reads_bind.mp skipped
  split at peeked
  · obtain ⟨⟨result, defined⟩, _, read, afterResult⟩ := reads_bind.mp peeked
    obtain ⟨_, _, _, assigned⟩ := reads_bind.mp afterResult
    obtain ⟨⟨inner, whole, defines⟩, known⟩ := known_of_reads_assignment ensures assigned
    rw [whole]
    exact ⟨(defines_of_reads_newRegister read).trans defines, known⟩
  · obtain ⟨keyword, _, _, next⟩ := reads_bind.mp peeked
    split at next
    · obtain ⟨_, _, _, opened⟩ := reads_bind.mp next
      obtain ⟨⟨body, last⟩, _, read, done⟩ := reads_bind.mp opened
      obtain ⟨rfl, rfl, _⟩ := reads_pure_pair.mp done
      exact ensures read
    · obtain ⟨rfl, rfl, _⟩ := reads_pure_pair.mp next
      exact ⟨.refl _, by simp [operations]⟩
    · exact absurd next not_reads_fail

end Nested

/-- A body that is read numbers its registers in the order of the text. -/
theorem known_of_reads_bodyWithin {bound : Nat} {value : Body String}
    (h : Reads (bodyWithin types bound registers) text (value, after) rest) :
    Defines (Instruction.definitionsBody value) registers after ∧
      ∀ operation ∈ Instruction.operationsBody value, operation.Known types := by
  induction bound generalizing registers after text rest value with
  | zero =>
    obtain ⟨_, _, _, done⟩ := reads_bind.mp h
    obtain ⟨rfl, rfl, _⟩ := reads_pure_pair.mp done
    exact ⟨.refl _, by simp [Instruction.operationsBody]⟩
  | succ bound ih =>
    obtain ⟨closed, _, _, next⟩ := reads_bind.mp h
    cases closed with
    | true =>
      obtain ⟨rfl, rfl, _⟩ := reads_pure_pair.mp next
      exact ⟨.refl _, by simp [Instruction.operationsBody]⟩
    | false =>
      obtain ⟨_, _, _, peeked⟩ := reads_bind.mp next
      split at peeked
      · exact absurd peeked not_reads_unexpected
      · obtain ⟨⟨first, middle⟩, _, read, later⟩ := reads_bind.mp peeked
        obtain ⟨⟨others, last⟩, _, more, done⟩ := reads_bind.mp later
        obtain ⟨rfl, rfl, _⟩ := reads_pure_pair.mp done
        obtain ⟨defines, known⟩ := known_of_reads_instruction ih read
        obtain ⟨definesMore, knownMore⟩ := ih more
        exact ⟨defines.trans definesMore, List.forall_mem_append.mpr ⟨known, knownMore⟩⟩

end Reading

end RegisterIR
