import RegisterIR.Proofs.LexicalScope
import RegisterIR.Proofs.ReadPrograms

/-! Programs in canonical form. Reading gives every register its number at its definition, keeps
names apart and lets types refer to earlier ones only; the optimizer takes things out and closes the
gaps, so what it leaves is in canonical form again, however often it runs. -/

namespace RegisterIR

open Reading (IsWord)

namespace ValueType

def enum? : ValueType → Option EnumId
  | enumeration id => some id
  | constructor element => some element.enumeration
  | _ => none

def enums (type : ValueType) : List EnumId := type.parts.filterMap enum?

theorem lt_of_mem_enums {types : TypeTable} {type : ValueType} (known : type.Known types)
    {id : EnumId} (mentioned : id ∈ type.enums) : id < types.enums.length := by
  obtain ⟨part, member, names⟩ := List.mem_filterMap.mp mentioned
  have declared := known part member
  cases part with
  | enumeration other =>
    obtain rfl := Option.some.inj names
    exact declared
  | constructor element =>
    obtain rfl := Option.some.inj names
    obtain ⟨found, some⟩ := Option.isSome_iff_exists.mp declared
    obtain ⟨enumeration, declaration, _⟩ := Option.bind_eq_some_iff.mp some
    exact (List.getElem?_eq_some_iff.mp declaration).1
  | _ => cases names

end ValueType

/-- Names of one kind are different, and payloads mention only enums with lower numbers. -/
structure TypeTable.Canonical (types : TypeTable) : Prop where
  enums : (types.enums.map Enumeration.name).Nodup
  elements : ∀ enumeration ∈ types.enums, (enumeration.elements.map Element.name).Nodup
  records : (types.records.map Record.name).Nodup
  interfaces : types.interfaces.Nodup
  payloads : ∀ (number : EnumId) (enumeration : Enumeration),
    types.enums[number]? = some enumeration → ∀ element ∈ enumeration.elements,
      ∀ state ∈ element.state, ∀ mentioned ∈ state.enums, mentioned < number

/-- The registers are numbered in the order of the text, the names kept for them are different words
with something else than digits in them, and constructions have the declared type of payload. -/
structure Function.Canonical {φ : Type} (types : TypeTable) (function : Function φ) : Prop where
  numbers : function.definitions = List.range function.registerCount
  names : (function.registerNames.filterMap id).Nodup
  words : ∀ name, some name ∈ function.registerNames →
    IsWord name ∧ ∃ c ∈ name.toList, c.isDigit = false
  constructions : ∀ which state stateType,
    .construct which state stateType ∈ Instruction.operationsBody function.body →
      (types.element? which).bind Element.state = some stateType

structure Program.Canonical (program : Program) : Prop where
  types : program.toTypeTable.Canonical
  functions : (program.functions.map Function.name).Nodup
  each : ∀ function ∈ program.functions, function.Canonical program.toTypeTable

theorem TypeTable.Listed.canonical {types : TypeTable} (listed : types.Listed) :
    types.Canonical where
  enums := listed.named.distinctEnums
  elements := listed.named.distinctElements
  records := listed.named.distinctRecords
  interfaces := listed.named.distinctInterfaces
  payloads number enumeration declared element member state payload mentioned inside := by
    have below : mentioned < (types.enums.take number).length :=
      ValueType.lt_of_mem_enums (listed.known_payload declared member payload) inside
    exact Nat.lt_of_lt_of_le below (List.length_take_le _ _)

namespace Surroundings

variable {surroundings : Surroundings}

open Instruction (operationsBody operationsCases)

mutual

theorem declares_of_verify : ∀ {inLoop : Bool} {scope after : Scope}
    (instruction : Instruction FunctionId),
    surroundings.verify inLoop scope instruction = .ok after →
    ∀ operation ∈ instruction.operations, surroundings.Declares operation
  | _, _, _, .compute result operation, h => by
    simpa [Instruction.operations] using (verify_compute.mp h).1.1
  | _, _, _, .call result callee arguments, _ => by simp [Instruction.operations]
  | _, _, _, .select result key cases, h => by
    obtain ⟨_, inner, chosen, _⟩ := verify_select.mp h
    exact declares_of_verifyCases cases chosen
  | _, _, _, .loop body, h => by
    obtain ⟨inner, verified, _⟩ := verify_loop.mp h
    exact declares_of_verifyBody body verified
  | _, _, _, .leave, _ => by simp [Instruction.operations]

theorem declares_of_verifyBody : ∀ {inLoop : Bool} {scope after : Scope} (body : Body FunctionId),
    surroundings.verifyBody inLoop scope body = .ok after →
    ∀ operation ∈ operationsBody body, surroundings.Declares operation
  | _, _, _, [], _ => by simp [operationsBody]
  | _, _, _, instruction :: body, h => by
    obtain ⟨inner, first, rest⟩ := verifyBody_cons.mp h
    exact List.forall_mem_append.mpr
      ⟨declares_of_verify instruction first, declares_of_verifyBody body rest⟩

theorem declares_of_verifyCases : ∀ {inLoop : Bool} {scope after : Scope}
    (cases : Cases FunctionId), surroundings.verifyCases inLoop scope cases = .ok after →
    ∀ operation ∈ operationsCases cases, surroundings.Declares operation
  | _, _, _, [], _ => by simp [operationsCases]
  | _, _, _, ⟨guard, action, value⟩ :: cases, h => by
    obtain ⟨_, inner, body, _, rest⟩ := verifyCases_cons.mp h
    exact List.forall_mem_append.mpr
      ⟨declares_of_verifyBody action body, declares_of_verifyCases cases rest⟩

end

end Surroundings

/-- Reading takes a missing payload for a unit, and verification rejects the construction then. -/
theorem Function.Listed.canonical {program : Program} {function : Function FunctionId}
    (listed : function.Listed program.toTypeTable) (verified : function.check program = .ok ()) :
    function.Canonical program.toTypeTable where
  numbers := listed.numbers
  names := listed.distinct
  words name member := by
    obtain ⟨word, number⟩ := listed.words name member
    refine ⟨word, ?_⟩
    obtain ⟨c, inside, other⟩ := List.all_eq_false.mp number
    exact ⟨c, inside, Bool.eq_false_iff.mpr other⟩
  constructions which state stateType member := by
    obtain ⟨_, _, _, after, body, _⟩ := check_eq_ok_iff.mp verified
    have declared := declares_iff.mp (Surroundings.declares_of_verifyBody _ body _ member)
    obtain ⟨enumeration, element, entry, found, stateful⟩ := declared
    have known := listed.operations _ member
    have same : program.toTypeTable.element? which = some element := by
      rw [TypeTable.element?, entry, Option.bind_some, found]
    obtain ⟨payload, carried⟩ := Option.isSome_iff_exists.mp stateful
    rw [Operation.Known, same, Option.map_some, Option.some.injEq, carried] at known
    rw [same, Option.bind_some, carried]
    exact congrArg some known

theorem Program.Listed.canonical {program : Program} (listed : program.Listed)
    (verified : program.verify = .ok ()) : program.Canonical where
  types := listed.types.canonical
  functions := listed.functions.distinct
  each function member := (listed.functions.each function member).canonical
    (verify_eq_ok_iff.mp verified function member)

namespace Program

def optimizeAll (program : Program) : List Optimization → Traced Program
  | [] => pure program
  | passes :: more => do
    let program ← program.optimize passes
    program.optimizeAll more

theorem Listed.optimizeAll {program : Program} (listed : program.Listed)
    (verified : program.verify = .ok ()) (passes : List Optimization) :
    ∃ optimized, (program.optimizeAll passes).outcome = .ok optimized ∧ optimized.Listed ∧
      optimized.verify = .ok () := by
  induction passes generalizing program with
  | nil => exact ⟨program, rfl, listed, verified⟩
  | cons first more ih =>
    obtain ⟨next, result, _, kept, accepted⟩ := listed.optimize verified first
    obtain ⟨optimized, results, kept', accepted'⟩ := ih kept accepted
    exact ⟨optimized, Traced.outcome_bind_eq_ok_iff.mpr ⟨next, result, results⟩, kept', accepted'⟩

/-- A program that has been read is in canonical form, and stays so under any optimization. -/
theorem canonical_of_parse {text : String} {program : Program}
    (parsed : Program.parse text = .ok program) :
    program.Canonical ∧
      (∀ passes : Optimization, ∃ optimized,
        (program.optimize passes).outcome = .ok optimized ∧ optimized.Canonical) ∧
      ∀ passes : List Optimization, ∃ optimized,
        (program.optimizeAll passes).outcome = .ok optimized ∧ optimized.Canonical := by
  obtain ⟨listed, verified⟩ := listed_of_parse parsed
  refine ⟨listed.canonical verified, fun passes => ?_, fun passes => ?_⟩
  · obtain ⟨optimized, result, _, kept, accepted⟩ := listed.optimize verified passes
    exact ⟨optimized, result, kept.canonical accepted⟩
  · obtain ⟨optimized, result, kept, accepted⟩ := listed.optimizeAll verified passes
    exact ⟨optimized, result, kept.canonical accepted⟩

/-- References forwards, backwards and of a function to itself, at different depths; at signs in a
comment and in strings; names of registers that are numbers, and registers that are never used. -/
def relaysText : String :=
  "\n".intercalate
    ["enum Reply \x7b none, some(int 0..9) \x7d",
      "enum Pair \x7b left(enum Reply), both(tuple(constructor Reply.some, host)) \x7d",
      "struct Box \x7b content: enum Pair \x7d",
      "interface Console",
      "fn first(%x, %1) -> %done \x7b ; mentions no @comment",
      "%t = literal (@second, Pair.left((@first, \"; @text\"))) : host",
      "loop \x7b",
      "%m = match %t \x7b",
      "case Pair.left(%p) \x7b %i = literal @second : host break \x7d",
      "case %x \x7b",
      "%e = enum_construct Pair.left(%1)",
      "\x7d yield %e",
      "\x7d",
      "\x7d",
      "%done = call %t(%x, %1)",
      "\x7d",
      "fn second() -> %f \x7b",
      "%f = literal (\"\\u;@\"",
      "\x7b40\x7d\", @first) : host",
      "\x7d"]

def relays : Program where
  enums :=
    [⟨"Reply", [⟨"none", none⟩, ⟨"some", some (.integer ⟨0, 9, by decide⟩)⟩]⟩,
      ⟨"Pair", [⟨"left", some (.enumeration 0)⟩,
        ⟨"both", some (.tuple [.constructor ⟨0, 1⟩, .host])⟩]⟩]
  records := [⟨"Box", [⟨"content", .enumeration 1⟩]⟩]
  interfaces := ["Console"]
  functions :=
    [{ name := "first"
       parameterCount := 2
       registerCount := 8
       returnValue := 7
       registerNames := [some "x", none, some "t", some "m", some "p", some "i", some "e",
         some "done"]
       body :=
         [.compute 2 (.literal
             (.tuple [.function 1, .wrapped ⟨1, 0⟩ (.tuple [.function 0, .string "; @text"])])
             .host),
           .loop
             [.select 3 2 [⟨.element ⟨1, 0⟩ 4, [.compute 5 (.literal (.function 1) .host), .leave],
                 none⟩,
               ⟨.equals 0, [.compute 6 (.construct ⟨1, 0⟩ 1 (.enumeration 0))], some 6⟩]],
           .call 7 2 [0, 1]] },
      { name := "second"
        parameterCount := 0
        registerCount := 1
        returnValue := 0
        registerNames := [some "f"]
        body := [.compute 0 (.literal (.tuple [.string "@", .function 0]) .host)] }]

theorem parse_relaysText : Program.parse relaysText = .ok relays := by
  -- Line by line, as one long string literal is slow to evaluate.
  rw [parse, relaysText, String.toList_intercalate]
  decide +kernel

theorem canonical_of_parse_relaysText : Program.parse relaysText = .ok relays ∧
    relays.Canonical ∧ ∀ passes : List Optimization, ∃ optimized,
      (relays.optimizeAll passes).outcome = .ok optimized ∧ optimized.Canonical :=
  ⟨parse_relaysText, (canonical_of_parse parse_relaysText).1,
    (canonical_of_parse parse_relaysText).2.2⟩

end Program

end RegisterIR
