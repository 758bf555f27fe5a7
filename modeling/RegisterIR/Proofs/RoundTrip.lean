import RegisterIR.Proofs.Relabelling
import RegisterIR.Proofs.WrittenPrograms

/-! Writing a program and reading the text gives the program back, for every program that reading
and optimization produce. A text refers to functions by name where a program has numbers; names
are distinct, so each number is found again from its name. -/

namespace RegisterIR

namespace Program

variable {program : Program}

theorem idxOf_functionName (distinct : (program.functions.map Function.name).Nodup)
    {id : FunctionId} (bound : id < program.functions.length) :
    (program.functions.map Function.name).idxOf (program.functionName id) = id := by
  have inside : id < (program.functions.map Function.name).length := by rwa [List.length_map]
  have name := functionName_eq (List.getElem?_eq_getElem bound)
  rw [name, ← List.getElem_map Function.name (h := inside)]
  exact distinct.idxOf_getElem id inside

theorem resolve_relabel (distinct : (program.functions.map Function.name).Nodup)
    {function : Function FunctionId}
    (labels : ∀ id ∈ function.functions, id < program.functions.length) :
    Reading.resolve (program.functions.map Function.name) (function.relabel program.functionName) =
      .ok function := by
  have defined : (function.relabel program.functionName).functions.find?
      (· ∉ program.functions.map Function.name) = none := by
    rw [List.find?_eq_none, Function.functions_relabel, List.forall_mem_map]
    intro id refers
    have found := List.getElem?_eq_getElem (labels id refers)
    rw [functionName_eq found]
    simpa using ⟨_, List.mem_of_getElem? found, rfl⟩
  rw [Reading.resolve, defined]
  have back : (function.relabel program.functionName).relabel
      (program.functions.map Function.name).idxOf = function.relabel id :=
    Function.relabel_relabel fun label refers => idxOf_functionName distinct (labels label refers)
  exact congrArg Except.ok (back.trans function.relabel_id)

theorem mapM_resolve_relabel (distinct : (program.functions.map Function.name).Nodup) :
    ∀ functions : List (Function FunctionId),
    (∀ function ∈ functions, ∀ id ∈ function.functions, id < program.functions.length) →
    (functions.map (.relabel program.functionName)).mapM
      (Reading.resolve (program.functions.map Function.name)) = .ok functions
  | [], _ => rfl
  | function :: functions, labels => by
    rw [List.forall_mem_cons] at labels
    rw [List.map_cons, List.mapM_cons]
    refine bind_eq_ok_iff.mpr ⟨function, resolve_relabel distinct labels.1, ?_⟩
    exact bind_eq_ok_iff.mpr ⟨functions, mapM_resolve_relabel distinct functions labels.2, rfl⟩

def texts (program : Program) : List (List Char) :=
  program.enums.map (fun enumeration => (enumeration.render program.toTypeTable).toList) ++
    program.records.map (fun record => (record.render program.toTypeTable).toList) ++
    program.interfaces.map (fun name => ("interface " ++ name ++ "\n").toList) ++
    program.functions.map (fun function => (program.renderFunction function).toList)

theorem toList_render (program : Program) :
    program.render.toList = ['\n'].intercalate program.texts := by
  simp only [render, texts, String.toList_intercalate, List.map_append, List.map_map]
  rfl

theorem chain_texts (listed : program.Listed) (verified : program.verify = .ok ())
    (ordered : program.toTypeTable.Ordered) :
    Reading.Chain Reading.Declares .empty program.texts
      ⟨program.toTypeTable, program.functions.map (.relabel program.functionName)⟩ :=
  (((Reading.chain_enums listed.types ordered [] program.enums rfl).append
    (Reading.chain_records listed.types ordered [] program.records rfl)).append
    (Reading.chain_interfaces listed.types.named [] program.interfaces rfl)).append
    (Reading.chain_functions listed verified [] program.functions rfl)

theorem program_render (listed : program.Listed) (verified : program.verify = .ok ())
    (ordered : program.toTypeTable.Ordered) :
    Reading.program program.render.toList = .ok program := by
  have chain := chain_texts listed verified ordered
  obtain ⟨rest, read⟩ := Reading.reads_declarationsWithin chain chain.length_le_intercalate rfl
  rw [← toList_render] at read
  refine bind_eq_ok_iff.mpr ⟨_, read, ?_⟩
  have names : (program.functions.map (.relabel program.functionName)).map Function.name =
      program.functions.map Function.name := by
    rw [List.map_map]
    rfl
  refine bind_eq_ok_iff.mpr ⟨program.functions, ?_, ?_⟩
  · rw [names]
    exact mapM_resolve_relabel listed.functions.distinct _ fun function member =>
      Function.functions_of_check (verify_eq_ok_iff.mp verified function member)
  · dsimp only
    rw [verified]
    rfl

theorem parse_render (listed : program.Listed) (verified : program.verify = .ok ())
    (ordered : program.toTypeTable.Ordered) : Program.parse program.render = .ok program := by
  rw [parse, program_render listed verified ordered]
  rfl

/-- Writing and reading change nothing in a program that has been read and optimized. Enum payloads
may not mention structs or interfaces, nor struct members interfaces, as these are written later. -/
theorem parse_render_optimized {text : String} {program : Program}
    (parsed : Program.parse text = .ok program) (passes : Optimization) :
    ∃ optimized, (program.optimize passes).outcome = .ok optimized ∧
      optimized.toTypeTable = program.toTypeTable ∧
      (optimized.toTypeTable.Ordered → Program.parse optimized.render = .ok optimized) := by
  obtain ⟨listed, verified⟩ := listed_of_parse parsed
  obtain ⟨optimized, result, types, kept, accepted⟩ := listed.optimize verified passes
  exact ⟨optimized, result, types, parse_render kept accepted⟩

/-- Has a dead register and an unused function, and refers to a function declared later. -/
def repliesText : String :=
  "\n".intercalate
    ["; a reply, or none yet",
      "enum Reply \x7b none, some(int 0..0x10) \x7d",
      "struct Pair \x7b",
      "first: enum Reply,",
      "second: function(string) -> tuple()",
      "\x7d",
      "interface Console",
      "fn main(%input) -> %result \x7b",
      "%g = global",
      "%k = literal (Reply.none, @twice, \"a\\n\")",
      ": tuple(enum Reply, host)",
      "%2 = tuple(%g, %k)",
      "loop \x7b",
      "%c = call %k(%g, %input)",
      "%d = match %c \x7b",
      "case Reply.some(%p) \x7b break \x7d",
      "case %k \x7b",
      "%e = enum_construct Reply.some(%input)",
      "\x7d yield %e",
      "\x7d",
      "\x7d",
      "%result = tuple(%k, %input)",
      "\x7d",
      "fn unused() -> %u \x7b",
      "%u = literal 7 : interface Console",
      "\x7d",
      "fn twice(%q) -> %q \x7b \x7d"]

def replies : Program where
  enums := [⟨"Reply", [⟨"none", none⟩, ⟨"some", some (.integer ⟨0, 16, by decide⟩)⟩]⟩]
  records := [⟨"Pair", [⟨"first", .enumeration 0⟩, ⟨"second", .function [.string] (.tuple [])⟩]⟩]
  interfaces := ["Console"]
  functions :=
    [{ name := "main"
       parameterCount := 1
       registerCount := 9
       returnValue := 8
       registerNames := [some "input", some "g", some "k", none, some "c", some "d", some "p",
         some "e", some "result"]
       body :=
         [.compute 1 .global,
           .compute 2 (.literal
             (.tuple [.element ⟨0, 0⟩, .function 2, .string "a\n"])
             (.tuple [.enumeration 0, .host])),
           .compute 3 (.tuple [1, 2]),
           .loop
             [.call 4 2 [1, 0],
               .select 5 4 [⟨.element ⟨0, 1⟩ 6, [.leave], none⟩,
                 ⟨.equals 2, [.compute 7 (.construct ⟨0, 1⟩ 0 (.integer ⟨0, 16, by decide⟩))],
                   some 7⟩]],
           .compute 8 (.tuple [2, 0])] },
      { name := "unused", parameterCount := 0, registerCount := 1, returnValue := 0,
        registerNames := [some "u"], body := [.compute 0 (.literal (.integer 7) (.interface 0))] },
      { name := "twice", parameterCount := 1, registerCount := 1, returnValue := 0,
        registerNames := [some "q"], body := [] }]

theorem parse_render_optimized_replies : Program.parse repliesText = .ok replies ∧
    ∃ optimized, (replies.optimize .all).outcome = .ok optimized ∧
      optimized.toTypeTable = replies.toTypeTable ∧
      Program.parse optimized.render = .ok optimized := by
  have parsed : Program.parse repliesText = .ok replies := by
    -- Line by line, as one long string literal is slow to evaluate.
    rw [parse, repliesText, String.toList_intercalate]
    decide +kernel
  obtain ⟨optimized, result, types, back⟩ := parse_render_optimized parsed .all
  have ordered : optimized.toTypeTable.Ordered := by
    rw [types]
    exact ⟨by decide, by decide⟩
  exact ⟨parsed, optimized, result, types, back ordered⟩

end Program

end RegisterIR
