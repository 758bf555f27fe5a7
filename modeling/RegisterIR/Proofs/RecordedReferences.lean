import RegisterIR.Proofs.ReadLengths
import RegisterIR.Proofs.ScannedPrograms

/-! Recorded references. The names that are recorded while a text is scanned are consumed later, by
another traversal of the bodies; both meet them in the order of the text. -/

namespace RegisterIR.Program

open Reading Scanning

/-- What scanning keeps of a text: for each function the names that its part of the text mentions,
and a body with a stand-in for each of them. -/
structure Records (text : String) (declared : Program) (references : List (List String))
    (parts : List (List Char)) : Prop where
  scanned : Scanning.declarations text = .ok (declared, references)
  ordered : InOrder parts text.toList
  names : references = parts.map mentions
  whole : references.flatten = mentions text.toList
  standIns : List.Forall₂ (fun function recorded => function.functions =
    List.replicate recorded.length unresolved) declared.functions references

/-- The functions that the function refers to have the given names, in the same order. -/
def RefersTo (program : Program) (function : Function FunctionId) (names : List String) : Prop :=
  function.functions.map (fun id => program.functions[id]?.map Function.name) = names.map some

theorem RefersTo.lt {program : Program} {function : Function FunctionId} {names : List String}
    (h : program.RefersTo function names) :
    ∀ id ∈ function.functions, id < program.functions.length := by
  intro id member
  have found : program.functions[id]?.map Function.name ∈ names.map some :=
    h ▸ List.mem_map_of_mem member
  obtain ⟨name, _, there⟩ := List.mem_map.mp found
  obtain ⟨other, here, _⟩ := Option.map_eq_some_iff.mp there.symm
  exact (List.getElem?_eq_some_iff.mp here).1

theorem lt_of_refersTo {program : Program} {functions : List (Function FunctionId)}
    {references : List (List String)} (h : List.Forall₂ program.RefersTo functions references) :
    ∀ function ∈ functions, ∀ id ∈ function.functions, id < program.functions.length := by
  induction h with
  | nil => simp
  | cons refers _ ih => exact List.forall_mem_cons.mpr ⟨refers.lt, ih⟩

theorem records_of_declarations {text : String} {declarations : Declarations} {rest : List Char}
    (read : Reads (declarationsWithin text.toList.length .empty) text.toList declarations rest) :
    ∃ parts, Records text (marked declarations) (declarations.functions.map Function.functions)
        parts ∧ List.Forall₂ DeclaredBy declarations.functions parts := by
  obtain ⟨functions, parts, all, ordered, declared⟩ := parts_of_reads_declarationsWithin read
  obtain rfl : declarations.functions = functions := all
  have result : declarationsWithin text.toList.length .empty text.toList =
    .ok (declarations, rest) := read
  have scanned := declarations_eq text
  rw [result] at scanned
  refine ⟨parts, ⟨scanned, ordered, functions_of_declared declared,
    (mentions_of_declarations read).symm, ?_⟩, declared⟩
  rw [marked, List.forall₂_map_left_iff, List.forall₂_map_right_iff, List.forall₂_same]
  intro function _
  rw [Function.functions_relabel, ← List.map_const']
  rfl

section Known

variable {declarations : Declarations}
  (known : ∀ name ∈ declarations.functions.flatMap Function.functions,
    name ∈ declarations.functions.map Function.name)
include known

theorem refersAsWritten_of_declared {parts : List (List Char)}
    (declared : List.Forall₂ DeclaredBy declarations.functions parts) :
    List.Forall₂ (ofDeclarations declarations).RefersAsWritten
      (ofDeclarations declarations).functions parts := by
  have each : ∀ function ∈ declarations.functions, ∀ name ∈ function.functions,
      name ∈ declarations.functions.map Function.name := fun function member name used =>
    known name (List.mem_flatMap.mpr ⟨function, member, used⟩)
  have both := (List.forall₂_and_left ..).mpr ⟨each, declared⟩
  exact List.forall₂_map_left_iff.mpr (both.imp fun _ _ h => refersAsWritten h.2 h.1)

theorem resolveAll_marked :
    resolveAll ((marked declarations).functions.map Function.name) (marked declarations).functions
      (declarations.functions.map Function.functions) =
        .ok (ofDeclarations declarations).functions := by
  have all : (declarations.functions.flatMap Function.functions).find?
      (· ∉ declarations.functions.map Function.name) = none := by
    refine List.find?_eq_none.mpr fun name used => ?_
    rw [decide_eq_true_iff, not_not]
    exact known name used
  have resolved := resolveAll_eq (declarations.functions.map Function.name) declarations.functions
  rw [all] at resolved
  rw [functionNames_marked]
  exact resolved

end Known

theorem parse_eq_undefinedFunction_iff {text : String} {declared : Program}
    {references : List (List String)}
    (scanned : Scanning.declarations text = .ok (declared, references)) {name : String} :
    Program.parse text = .error (.undefinedFunction name) ↔
      references.flatten.find? (· ∉ declared.functions.map Function.name) = some name := by
  rw [declarations_eq] at scanned
  cases result : declarationsWithin text.toList.length .empty text.toList with
  | error error =>
    rw [result] at scanned
    cases scanned
  | ok read =>
    rw [result] at scanned
    obtain ⟨rfl, rfl⟩ := Prod.mk.inj (Except.ok.inj scanned)
    rw [parse_eq_of_declarations result, functionNames_marked, mentions_of_declarations result,
      List.flatMap_def]
    split
    · rename_i found
      rw [found, Except.error.injEq, ParseError.undefinedFunction.injEq, Option.some.injEq]
    · rename_i all
      simp only [all, reduceCtorEq, iff_false]
      -- Verification comes after all names are known, and reports none of them.
      split
      · simp
      · simp

/-- In a program that is read, every function refers to the functions whose names were recorded
while its part of the text was read, in the order in which they stand there, and no stand-in is
left. Where a name was recorded that no function has, the first such name is reported. -/
theorem parse_resolves_references (text : String) :
    Scanning.program text = (Program.parse text).mapError Stop.error ∧
      (∀ program, Program.parse text = .ok program →
        (program.functions.map Function.name).Nodup ∧
          ∃ declared references parts, Records text declared references parts ∧
            resolveAll (declared.functions.map Function.name) declared.functions references =
              .ok program.functions ∧
            List.Forall₂ program.RefersTo program.functions references ∧
            List.Forall₂ program.RefersAsWritten program.functions parts ∧
            (text.length ≤ unresolved →
              ∀ function ∈ program.functions, unresolved ∉ function.functions)) ∧
      ∀ declared references, Scanning.declarations text = .ok (declared, references) →
        ∀ name, Program.parse text = .error (.undefinedFunction name) ↔
          references.flatten.find? (· ∉ declared.functions.map Function.name) = some name := by
  refine ⟨program_eq text,
    fun program parsed => ⟨(listed_of_parse parsed).1.functions.distinct, ?_⟩,
    fun declared references scanned name => parse_eq_undefinedFunction_iff scanned⟩
  obtain ⟨declarations, rest, read, rfl, known⟩ := exists_declarations_of_parse parsed
  obtain ⟨parts, records, declared⟩ := records_of_declarations read
  rw [mentions_of_declarations read] at known
  have written := refersAsWritten_of_declared known declared
  have refers : List.Forall₂ (ofDeclarations declarations).RefersTo
      (ofDeclarations declarations).functions
      (declarations.functions.map Function.functions) := by
    rw [records.names, List.forall₂_map_right_iff]
    exact written.imp fun _ _ h => h.names
  refine ⟨_, _, parts, records, resolveAll_marked known, refers, written,
    fun short function member left => ?_⟩
  -- A text of this length has fewer functions than the number of the stand-in.
  have inside := lt_of_refersTo refers function member unresolved left
  have counted := (atMost_of_parse parsed).functions
  exact Nat.lt_irrefl _ (Nat.lt_of_lt_of_le inside (Nat.le_trans counted short))

/-- The names `lost` and `gone` are mentioned, but no function has them. -/
def straysText : String :=
  "\n".intercalate
    ["fn first() -> %a \x7b",
      "%a = literal (@second, (@first, @lost)) : host ; @nobody",
      "\x7d",
      "fn second() -> %b \x7b",
      "%b = literal (\"@none\", @gone) : host",
      "\x7d"]

theorem parse_resolves_references_relaysText :
    (Program.parse relaysText = .ok relays ∧
      ∀ function ∈ relays.functions, unresolved ∉ function.functions) ∧
      Program.parse straysText = .error (.undefinedFunction "lost") := by
  have short : relaysText.length ≤ unresolved := by
    rw [← String.length_toList, relaysText, String.toList_intercalate]
    decide +kernel
  obtain ⟨_, _, _, _, _, _, _, _, none⟩ :=
    (parse_resolves_references relaysText).2.1 _ parse_relaysText
  refine ⟨⟨parse_relaysText, none short⟩, ?_⟩
  have mentioned : mentions straysText.toList = ["second", "first", "lost", "gone"] := by
    rw [straysText, String.toList_intercalate]
    decide +kernel
  have names : (declarationsWithin straysText.toList.length .empty straysText.toList).map
      (fun read => read.1.functions.map Function.name) = .ok ["first", "second"] := by
    rw [straysText, String.toList_intercalate]
    decide +kernel
  cases result : declarationsWithin straysText.toList.length .empty straysText.toList with
  | error error =>
    rw [result] at names
    cases names
  | ok read =>
    rw [result] at names
    have declared : read.1.functions.map Function.name = ["first", "second"] := Except.ok.inj names
    obtain ⟨_, records, _⟩ := records_of_declarations result
    refine ((parse_resolves_references straysText).2.2 _ _ records.scanned "lost").mpr ?_
    rw [records.whole, mentioned, functionNames_marked, declared]
    decide

end RegisterIR.Program
