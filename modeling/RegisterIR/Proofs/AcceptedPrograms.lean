import RegisterIR.Proofs.LexicalScope
import RegisterIR.Proofs.ReadLengths
import RegisterIR.Proofs.ReadPrograms
import RegisterIR.Proofs.RequestFaults
import RegisterIR.Script.Compile

/-! What is read can be compiled. A payload refers to enums that are declared before its own, so
requests for strategies go down in the table and never come back to an enum that is still being
encoded. Every element that a verified function mentions exists, and strategies have an encoding for
each element. One obstacle is left: the ordinals of an enum with more elements than there are safe
integers, which takes a text of more than `2 ^ 53` characters. -/

namespace RegisterIR

def UnsafeOrdinal (enums : List Enumeration) (fault : Fault) : Prop :=
  ∃ enumeration ∈ enums, ∃ ordinal < enumeration.elements.length,
    maxSafeInteger < ordinal ∧ fault = .beyondSafe ordinal

/-- On sound caches with the given active enums, results have the property and leave such a cache,
and the only faults are ordinals that are no safe integers. -/
abbrev Cached.Completes {α : Type} (enums : List Enumeration) (active : List EnumId) (x : Cached α)
    (P : α → Prop) : Prop :=
  Cached.Ends enums active (UnsafeOrdinal enums) x P

open Cached (Completes ends_pure ends_lift ends_record)
open Relation (ReflTransGen TransGen)

namespace Strategy

variable {enums : List Enumeration}

def Descends (enums : List Enumeration) : Prop :=
  ∀ (id : EnumId) (enumeration : Enumeration), enums[id]? = some enumeration →
    ∀ element ∈ enumeration.elements, ∀ payload, element.state = some (.enumeration payload) →
      payload < id

theorem Descends.lt_of_contains (descends : Descends enums) {outer inner : EnumId}
    (h : Contains enums outer inner) : inner < outer := by
  obtain ⟨enumeration, declared, element, member, state⟩ := h
  exact descends outer enumeration declared element member inner state

theorem Descends.acyclic (descends : Descends enums) (id : EnumId) :
    ¬ TransGen (Contains enums) id id := by
  have below : ∀ {outer inner}, TransGen (Contains enums) outer inner → inner < outer := by
    intro outer inner path
    induction path with
    | single contains => exact descends.lt_of_contains contains
    | tail _ contains ih => exact Nat.lt_trans (descends.lt_of_contains contains) ih
  exact fun cycle => Nat.lt_irrefl id (below cycle)

theorem Descends.le_of_reaches (descends : Descends enums) {outer inner : EnumId}
    (h : ReflTransGen (Contains enums) outer inner) : inner ≤ outer := by
  induction h with
  | refl => exact Nat.le_refl _
  | tail _ contains ih => exact Nat.le_trans (Nat.le_of_lt (descends.lt_of_contains contains)) ih

/-- Requests that go down in the table meet no enum again and none that is missing. -/
theorem completes_require (descends : Descends enums) {id : EnumId} (inside : id < enums.length) :
    Completes enums [] (require enums id) (Chosen enums id) := by
  refine (ends_require id).mono fun fault accounts => ?_
  obtain ⟨outer, _, enumeration, declared, beyond⟩ := accounts.overflows
    (fun n _ => descends.acyclic n)
    fun n reached => Nat.lt_of_le_of_lt (descends.le_of_reaches reached) inside
  exact ⟨enumeration, List.mem_of_getElem? declared, beyond⟩

theorem descends_of_listed {types : TypeTable} (listed : types.Listed) :
    Descends types.enums := by
  intro id enumeration declared element member payload state
  have below : payload < (types.enums.take id).length :=
    (listed.known_payload declared member state).declared
  exact Nat.lt_of_lt_of_le below (List.length_take_le _ _)

end Strategy

open Strategy (Descends)

section Compile

variable {program : Program}

theorem ElementRef.completes_encoding {which : ElementRef} {withState : Bool}
    (descends : Descends program.enums) (exists' : program.HasElement which withState) :
    Completes program.enums [] (which.encoding program.enums) fun _ => True := by
  obtain ⟨enumeration, element, declared, found, _⟩ := exists'
  have inside := (List.getElem?_eq_some_iff.mp declared).1
  refine (Strategy.completes_require descends inside).bind fun strategy chosen => ?_
  refine ends_lift (fun _ _ => trivial) fun fault failed => ?_
  have beyond := (entry_eq_error_iff.mp failed).1
  rw [← (chosen.fits declared).length_eq] at beyond
  exact absurd (List.getElem?_eq_some_iff.mp found).1 (Nat.not_lt.mpr beyond)

namespace Literal

mutual

theorem completes_compile (descends : Descends program.enums) :
    ∀ literal : Literal FunctionId, literal.Resolves program →
    Completes program.enums [] (literal.compile program.enums) fun _ => True
  | unit, _ => ends_pure trivial
  | integer _, _ => ends_pure trivial
  | string _, _ => ends_pure trivial
  | function _, _ => ends_pure trivial
  | element _, .element found =>
    (ElementRef.completes_encoding descends found).bind fun _ _ => ends_pure trivial
  | wrapped _ state, .wrapped found inner =>
    (ElementRef.completes_encoding descends found).bind fun _ _ =>
      (completes_compile descends state inner).bind fun _ _ => ends_pure trivial
  | constructor _, .constructor found =>
    (ElementRef.completes_encoding descends found).bind fun _ _ => ends_pure trivial
  | tuple elements, .tuple each =>
    (completes_compileAll descends elements each).bind fun _ _ => ends_pure trivial

theorem completes_compileAll (descends : Descends program.enums) :
    ∀ literals : List (Literal FunctionId), (∀ literal ∈ literals, literal.Resolves program) →
    Completes program.enums [] (compileAll program.enums literals) fun _ => True
  | [], _ => ends_pure trivial
  | literal :: literals, each => by
    obtain ⟨first, others⟩ := List.forall_mem_cons.mp each
    exact (completes_compile descends literal first).bind fun _ _ =>
      (completes_compileAll descends literals others).bind fun _ _ => ends_pure trivial

end

end Literal

theorem Operation.completes_compile (descends : Descends program.enums) {name : Register → String}
    {operation : Operation FunctionId} (resolves : operation.Resolves program) :
    Completes program.enums [] (operation.compile program.enums name) fun _ => True := by
  cases operation with
  | literal value type => exact Literal.completes_compile descends value resolves
  | construct which state type =>
    exact (ElementRef.completes_encoding descends resolves).bind fun _ _ => ends_pure trivial
  | _ => exact ends_pure trivial

theorem Guard.completes_compile (descends : Descends program.enums) {name : Register → String}
    {key : Register} {guard : Guard} (resolves : guard.Resolves program) :
    Completes program.enums [] (guard.compile program.enums name key) fun _ => True := by
  cases guard with
  | equals other => exact ends_pure trivial
  | element which binding =>
    exact (ElementRef.completes_encoding descends resolves).bind fun _ _ => ends_pure trivial

namespace Instruction

variable {function : Function FunctionId} {name : Register → String}

mutual

theorem completes_compile (descends : Descends program.enums) :
    ∀ (instruction : Instruction FunctionId) {inLoop : Bool} {scope after : Scope},
    (function.surroundings program).verify inLoop scope instruction = .ok after →
    Completes program.enums [] (instruction.compile program.enums name) fun _ => True
  | compute _ operation, _, _, _, h => by
    have declared := (Surroundings.verify_compute.mp h).1.1
    exact (Operation.completes_compile descends (Function.declares_iff.mp declared)).bind
      fun _ _ => ends_pure trivial
  | call .., _, _, _, _ => ends_pure trivial
  | select _ _ cases, _, _, _, h => by
    obtain ⟨_, _, chosen, _⟩ := Surroundings.verify_select.mp h
    exact (completes_compileCases descends cases chosen).bind fun _ _ => ends_pure trivial
  | loop body, _, _, _, h => by
    obtain ⟨_, verified, _⟩ := Surroundings.verify_loop.mp h
    exact (completes_compileBody descends body verified).bind fun _ _ => ends_pure trivial
  | leave, _, _, _, _ => ends_pure trivial

theorem completes_compileBody (descends : Descends program.enums) :
    ∀ (body : Body FunctionId) {inLoop : Bool} {scope after : Scope},
    (function.surroundings program).verifyBody inLoop scope body = .ok after →
    Completes program.enums [] (compileBody program.enums name body) fun _ => True
  | [], _, _, _, _ => ends_pure trivial
  | instruction :: body, _, _, _, h => by
    obtain ⟨_, first, rest⟩ := Surroundings.verifyBody_cons.mp h
    exact (completes_compile descends instruction first).bind fun _ _ =>
      (completes_compileBody descends body rest).bind fun _ _ => ends_pure trivial

theorem completes_compileCases (descends : Descends program.enums) :
    ∀ (cases : Cases FunctionId) {result key : Register} {inLoop : Bool} {scope after : Scope},
    (function.surroundings program).verifyCases inLoop scope cases = .ok after →
    Completes program.enums [] (compileCases program.enums name result key cases) fun _ => True
  | [], _, _, _, _, _, _ => ends_pure trivial
  | ⟨guard, action, value⟩ :: cases, _, _, _, _, _, h => by
    obtain ⟨admits, _, body, _, rest⟩ := Surroundings.verifyCases_cons.mp h
    have resolves : guard.Resolves program := by
      cases guard with
      | equals key => trivial
      | element which binding => exact Function.checkElement_eq_ok_iff.mp admits.1
    exact (Guard.completes_compile descends resolves).bind fun _ _ =>
      (completes_compileBody descends action body).bind fun _ _ =>
        (completes_compileCases descends cases rest).bind fun _ _ => ends_pure trivial

end

end Instruction

theorem Function.completes_compile (descends : Descends program.enums)
    {function : Function FunctionId} (verified : function.check program = .ok ()) :
    Completes program.enums [] (function.compile program.enums) fun _ => True := by
  obtain ⟨_, _, _, _, body, _⟩ := Function.check_eq_ok_iff.mp verified
  exact (Instruction.completes_compileBody descends function.body body).bind
    fun _ _ => ends_pure trivial

theorem Program.completes_compileAll (descends : Descends program.enums)
    (functions : List (Function FunctionId × FunctionId))
    (verified : ∀ entry ∈ functions, entry.1.check program = .ok ()) :
    Completes program.enums [] (compileAll program.enums functions) fun _ => True := by
  induction functions with
  | nil => exact ends_pure trivial
  | cons entry functions ih =>
    obtain ⟨first, others⟩ := List.forall_mem_cons.mp verified
    exact ends_record.bind fun _ _ =>
      (Function.completes_compile descends first).bind fun _ _ =>
        (ih others).bind fun _ _ => ends_pure trivial

end Compile

namespace Program

/-- Nothing fails on text that is accepted. Whatever passes run, the optimizer returns, every enum
of its result gets a strategy on every cache that requests leave, and the result has a script. The
only exception is a text of more than `2 ^ 53` characters, with an enum of so many elements that an
ordinal is no safe integer. -/
theorem compile_of_parse {text : String} {program : Program}
    (parsed : Program.parse text = .ok program) (passes : Optimization) :
    ∃ optimized, (program.optimize passes).outcome = .ok optimized ∧
      (∀ cache, Strategy.Reachable optimized.enums cache → ∀ id < optimized.enums.length,
        (∃ strategy after,
          ((Strategy.require optimized.enums id).run cache).outcome = .ok (strategy, after)) ∨
        (maxSafeInteger + 1 < text.length ∧ ∃ fault, UnsafeOrdinal optimized.enums fault ∧
          ((Strategy.require optimized.enums id).run cache).outcome = .error fault)) ∧
      ((∃ script, optimized.script.outcome = .ok script) ∨
        (maxSafeInteger + 1 < text.length ∧ ∃ fault, UnsafeOrdinal optimized.enums fault ∧
          optimized.script.outcome = .error fault)) := by
  obtain ⟨listed, verified⟩ := listed_of_parse parsed
  obtain ⟨optimized, result, types, kept, accepted⟩ := listed.optimize verified passes
  have descends := Strategy.descends_of_listed kept.types
  have long (fault : Fault) (beyond : UnsafeOrdinal optimized.enums fault) :
      maxSafeInteger + 1 < text.length := by
    obtain ⟨enumeration, member, ordinal, inside, above, _⟩ := beyond
    rw [types] at member
    have fits := (atMost_of_parse parsed).elements enumeration member
    omega
  refine ⟨optimized, result, fun cache reachable id inside => ?_, ?_⟩
  · rcases (Strategy.completes_require descends inside).outcome reachable.sound
      reachable.settled.2 with returned | ⟨fault, beyond, failed⟩
    · exact .inl returned
    · exact .inr ⟨long fault beyond, fault, beyond, failed⟩
  · have each : ∀ entry ∈ optimized.functions.zipIdx, entry.1.check optimized = .ok () :=
      fun entry member => verify_eq_ok_iff.mp accepted _ (List.fst_mem_of_mem_zipIdx member)
    have empty : Cache.empty.Sound optimized.enums := Strategy.Reachable.empty.sound
    rw [script, Traced.outcome_bind]
    rcases (completes_compileAll descends _ each).outcome empty rfl with
      ⟨lambdas, after, returned⟩ | ⟨fault, beyond, failed⟩
    · exact .inl ⟨_, by rw [returned]; rfl⟩
    · exact .inr ⟨long fault beyond, fault, beyond, by rw [failed]; rfl⟩

/-- Enums inside enums, payloads that collide, and elements in literals, in a constructor, in a
construction and in cases. -/
def signalsText : String :=
  "\n".intercalate
    ["enum Bit \x7b off, on \x7d",
      "enum Level \x7b low(enum Bit), high(int 0..7), none \x7d",
      "enum Signal \x7b raw(enum Level), named(string), level(enum Level) \x7d",
      "fn main(%port) -> %out \x7b",
      "%s = literal (Signal.raw(Level.low(Bit.on)), Level.none) : tuple(enum Signal, enum Level)",
      "%c = literal constructor Signal.named : constructor Signal.named",
      "%out = match %port \x7b",
      "case Signal.level(%l) \x7b",
      "%x = enum_construct Level.low(%l)",
      "%y = call %c(%s)",
      "\x7d yield %y",
      "case Signal.raw(%r) \x7b \x7d yield %r",
      "\x7d",
      "\x7d",
      "fn spare() -> %u \x7b",
      "%u = literal Bit.off : enum Bit",
      "\x7d"]

theorem compile_of_parse_signalsText : ∃ program optimized,
    Program.parse signalsText = .ok program ∧ (program.optimize .all).outcome = .ok optimized ∧
    (∀ cache, Strategy.Reachable optimized.enums cache → ∀ id < optimized.enums.length,
      ∃ strategy after,
        ((Strategy.require optimized.enums id).run cache).outcome = .ok (strategy, after)) ∧
    ∃ script, optimized.script.outcome = .ok script := by
  have accepted : (Program.parse signalsText).isOk = true := by
    rw [parse, signalsText, String.toList_intercalate]
    decide +kernel
  have short : ¬ maxSafeInteger + 1 < signalsText.length := by
    rw [signalsText, ← String.length_toList, String.toList_intercalate]
    decide +kernel
  cases parsed : Program.parse signalsText with
  | error error =>
    rw [parsed] at accepted
    cases accepted
  | ok program =>
    obtain ⟨optimized, result, requests, script⟩ := compile_of_parse parsed .all
    exact ⟨program, optimized, rfl, result,
      fun cache reachable id inside =>
        (requests cache reachable id inside).resolve_right fun long => short long.1,
      script.resolve_right fun long => short long.1⟩

end Program

end RegisterIR
