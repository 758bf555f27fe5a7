import RegisterIR.Proofs.ReferenceResolution
import RegisterIR.Proofs.References
import RegisterIR.Proofs.ScannedTokens
import RegisterIR.Scanning.Program

/-! Scanning of whole programs. It follows reading; the names that it records are those that the
reader keeps in the bodies, and each of them stands where the scanner has left a stand-in. -/

namespace RegisterIR.Scanning

open Reading (Reader Reads Registers)

variable {α β : Type} {rest : List Char} {references : List (List String)}

section Types

variable (types : TypeTable)

theorem mirrors_lookup (found : Option Nat) {error : ParseError Position}
    {error' : ParseError (List Char)} (same : ∀ places, error'.mapPlace places = error) :
    Mirrors (match found with | some id => pure id | none => raise error)
      (match found with | some id => pure id | none => Reading.raise error') := by
  cases found with
  | some id => exact mirrors_pure id
  | none => exact fun _ _ => follows_raise same

theorem mirrors_findEnum (name : String) :
    Mirrors (findEnum types name) (Reading.findEnum types name) :=
  mirrors_lookup _ fun _ => rfl

theorem mirrors_findRecord (name : String) :
    Mirrors (findRecord types name) (Reading.findRecord types name) :=
  mirrors_lookup _ fun _ => rfl

theorem mirrors_findInterface (name : String) :
    Mirrors (findInterface types name) (Reading.findInterface types name) :=
  mirrors_lookup _ fun _ => rfl

def First (references references' : List (List String)) (result : α × β) (value : α) : Prop :=
  references' = references ∧ value = result.1

theorem scans_ofFault {result : Except Fault α} {value : α} (h : result = .ok value) :
    Scans (ofFault result) rest value rest := by
  subst h
  exact scans_pure value

theorem follows_findElement (enumeration element : String) :
    Follows rest references (findElement types enumeration element)
      (Reading.findElement types enumeration element) (First references) := by
  rw [findElement, findEnum, Reading.findElement, List.findIdx?_eq_fst_find?_zipIdx]
  cases found : types.enums.zipIdx.find? (·.1.name == enumeration) with
  | none => exact follows_of_halts rfl (Halts.bind (fun _ _ _ => rfl) _)
  | some declared =>
    have there : entry types.enums declared.2 = .ok declared.1 :=
      entry_eq_ok_iff.mpr (Reading.getElem?_of_find?_zipIdx found)
    refine .after (scans_pure declared.2 _) rfl (.after (scans_ofFault there _) rfl ?_)
    rw [List.findIdx?_eq_fst_find?_zipIdx]
    dsimp only
    cases declared.1.elements.zipIdx.find? (·.1.name == element) with
    | none => exact follows_raise fun _ => rfl
    | some which => exact follows_pure ⟨rfl, rfl⟩

theorem follows_elementOf (enumeration : String) :
    Follows rest references (elementOf types enumeration) (Reading.elementOf types enumeration)
      (First references) :=
  (mirrors_expectChar (by decide)).andThen fun _ =>
    mirrors_identifier.andThen fun _ => follows_findElement types enumeration _

theorem follows_elementRef :
    Follows rest references (elementRef types) (Reading.elementRef types) (First references) :=
  mirrors_identifier.andThen fun _ => follows_elementOf types _

theorem mirrors_integerRange : Mirrors integerRange Reading.integerRange := by
  refine mirrors_number.bind fun minimum => (mirrors_expect "..").bind fun _ =>
    mirrors_number.bind fun maximum => ?_
  by_cases ordered : minimum ≤ maximum
  · rw [if_neg (Nat.not_lt.mpr ordered), dif_pos ordered]
    exact fun _ _ => follows_of_scans rfl (scans_ofFault (dif_pos ordered))
  · rw [if_pos (Nat.lt_of_not_le ordered), dif_neg ordered]
    exact mirrors_fail _

theorem Mirrors.items {step : α → Scanner α} {step' : α → Reader α}
    (each : ∀ state, Mirrors (step state) (step' state)) (start : α) :
    Mirrors (items step start) (Reading.items step' start) := by
  refine fun rest references => follows_items (fun agreed => ?_) ⟨rfl, rfl⟩
  obtain ⟨rfl, rfl⟩ := agreed
  exact each _ _ _

theorem Mirrors.fields {step : α → Scanner α} {step' : α → Reader α}
    (each : ∀ state, Mirrors (step state) (step' state)) (start : α) :
    Mirrors (fields step start) (Reading.fields step' start) := by
  refine fun rest references => follows_fields (fun agreed => ?_) ⟨rfl, rfl⟩
  obtain ⟨rfl, rfl⟩ := agreed
  exact each _ _ _

theorem Mirrors.list {scanner : Scanner α} {reader : Reader α} (h : Mirrors scanner reader) :
    Mirrors (list scanner) (Reading.list reader) :=
  Mirrors.items (fun _ => h.bind fun _ => mirrors_pure _) []

theorem mirrors_typeRound {inner : Scanner ValueType} {inner' : Reader ValueType}
    (h : Mirrors inner inner') :
    Mirrors (typeRound types inner) (Reading.typeRound types inner') := by
  refine mirrors_identifier.bind fun keyword => ?_
  split
  · exact mirrors_pure _
  · exact mirrors_pure _
  · exact mirrors_pure _
  · exact mirrors_integerRange.bind fun _ => mirrors_pure _
  · exact mirrors_identifier.bind fun _ => (mirrors_findEnum types _).bind fun _ => mirrors_pure _
  · exact mirrors_identifier.bind fun _ => (mirrors_findRecord types _).bind fun _ => mirrors_pure _
  · exact mirrors_identifier.bind fun _ => (mirrors_findInterface types _).bind fun _ =>
      mirrors_pure _
  · refine fun _ _ => (follows_elementRef types).bind fun _ agreed => ?_
    obtain ⟨rfl, rfl⟩ := agreed
    exact follows_pure ⟨rfl, rfl⟩
  · exact h.list.bind fun _ => (mirrors_expect "->").bind fun _ => h.bind fun _ => mirrors_pure _
  · exact h.list.bind fun _ => mirrors_pure _
  · -- The reader has the same cases, of which only the last one is left.
    try simp only
    exact mirrors_fail _

theorem mirrors_typeWithin (bound : Nat) :
    Mirrors (typeWithin types bound) (Reading.typeWithin types bound) := by
  induction bound with
  | zero => exact mirrors_skip.bind fun _ => mirrors_unexpected _
  | succ bound ih => exact mirrors_typeRound types ih

theorem mirrors_type : Mirrors (type types) (Reading.type types) :=
  .bounded (mirrors_typeWithin types)

end Types

section Literals

/-- The names of the result are recorded, and each of them is replaced by a stand-in. -/
def Marks (names : β → List String) (mark : β → α) (references references' : List (List String))
    (result : β) (value : α) : Prop :=
  references' = noted (names result) references ∧ value = mark result

@[simp]
theorem noted_nil (references : List (List String)) : noted [] references = references := by
  induction references with
  | nil => rfl
  | cons first others ih =>
    cases others with
    | nil => simp [noted]
    | cons second others => rw [noted, ih]; simp

theorem noted_append (names more : List String) (references : List (List String)) :
    noted (names ++ more) references = noted more (noted names references) := by
  induction references with
  | nil => rfl
  | cons first others ih =>
    cases others with
    | nil => simp [noted]
    | cons second others =>
      cases others with
      | nil => simp [noted]
      | cons third others =>
        have later := ih
        simp only [noted] at later ⊢
        rw [later]

theorem marks_nil {names : β → List String} {mark : β → α} {result : β} (none : names result = []) :
    Marks names mark references references result (mark result) :=
  ⟨by rw [none, noted_nil], rfl⟩

abbrev MarksLiteral := Marks Literal.functions (Literal.relabel standIn)

theorem follows_elements {scanner : Scanner α} {reader : Reader β} {names : β → List String}
    {mark : β → α}
    (each : ∀ {rest references},
      Follows rest references scanner reader (Marks names mark references)) :
    Follows rest references (itemsAfter (appending scanner) []) (do
      if ← Reading.accept ")" then pure []
      else fun text => Reading.itemsWithin (fun items => do
        let item ← reader
        pure (items ++ [item])) text.length [] text)
      (Marks (List.flatMap names) (List.map mark) references) := by
  refine follows_itemsAfter (fun agreed => each.bind fun _ marked => follows_pure ?_)
    (marks_nil rfl)
  obtain ⟨rfl, rfl⟩ := agreed
  obtain ⟨rfl, rfl⟩ := marked
  exact ⟨by simp [noted_append], by simp⟩

theorem follows_functionName :
    Follows ('@' :: rest) references functionName Reading.functionName (Same references) := by
  refine follows_opened (by decide) (by decide) (mirrors_word.andThen fun {name _} _ => ?_)
  cases name.isEmpty with
  | true => exact follows_unexpected _
  | false => exact follows_pure ⟨rfl, rfl⟩

theorem runs_note (name : String) :
    Runs (note name) rest references () rest (noted [name] references) :=
  fun _ position here => ⟨position, rfl, here⟩

variable (types : TypeTable)

theorem follows_literalRound {inner : Scanner (Literal FunctionId)}
    {inner' : Reader (Literal String)}
    (each : ∀ {rest references}, Follows rest references inner inner' (MarksLiteral references)) :
    Follows rest references (literalRound types inner) (Reading.literalRound types inner')
      (MarksLiteral references) := by
  refine mirrors_skip.andThen fun {_ between} _ => mirrors_peek.andThen fun {next _} peeked => ?_
  obtain ⟨head, rfl⟩ := Reading.reads_peek?.mp peeked
  by_cases quote : next = some '"'
  · subst quote
    exact mirrors_quoted.andThen fun _ => follows_pure (marks_nil rfl)
  by_cases sign : next = some '@'
  · subst sign
    obtain ⟨tail, rfl⟩ := List.head?_eq_some_iff.mp head.symm
    refine follows_functionName.bind fun _ agreed => ?_
    obtain ⟨rfl, rfl⟩ := agreed
    exact .after (runs_note _) rfl (follows_pure ⟨rfl, rfl⟩)
  by_cases parenthesis : next = some '('
  · subst parenthesis
    obtain ⟨tail, rfl⟩ := List.head?_eq_some_iff.mp head.symm
    have opened : Reads (Reading.expect "(") ('(' :: tail) () tail :=
      reads_expect_cons (by decide) (by decide) tail
    refine .after (scans_advance_cons '(' tail _) ((congrFun (bind_assoc ..) _).trans
      (Reading.bind_of_reads opened)) ((follows_elements each).bind fun _ agreed => ?_)
    obtain ⟨rfl, rfl⟩ := agreed
    refine follows_pure ⟨?_, ?_⟩
    · rw [Literal.functions, Reading.functionsAll_eq_flatMap]
    · rw [Literal.relabel, Reading.relabelAll_eq_map]
  -- Both matches are at their last case now.
  simp only
  by_cases digit : next.any Char.isDigit = true
  · rw [if_pos digit, if_pos digit]
    exact mirrors_number.andThen fun _ => follows_pure (marks_nil rfl)
  rw [if_neg digit, if_neg digit]
  refine mirrors_identifier.andThen fun {word _} _ => ?_
  split
  · exact follows_pure (marks_nil rfl)
  · refine (follows_elementRef types).bind fun _ agreed => ?_
    obtain ⟨rfl, rfl⟩ := agreed
    exact follows_pure (marks_nil rfl)
  · try simp only
    refine (follows_elementOf types _).bind fun _ agreed => ?_
    obtain ⟨rfl, rfl⟩ := agreed
    refine (mirrors_acceptChar (by decide)).andThen fun {opened between} _ => ?_
    cases opened with
    | true =>
      refine each.bind fun _ marked => ?_
      obtain ⟨rfl, rfl⟩ := marked
      exact (mirrors_expectChar (by decide)).andThen fun _ => follows_pure ⟨rfl, rfl⟩
    | false => exact follows_pure (marks_nil rfl)

theorem follows_literalWithin (bound : Nat) :
    Follows rest references (literalWithin types bound) (Reading.literalWithin types bound)
      (MarksLiteral references) := by
  induction bound generalizing rest references with
  | zero => exact mirrors_skip.andThen fun _ => follows_unexpected _
  | succ bound ih => exact follows_literalRound types ih

theorem follows_literal : Follows rest references (literal types) (Reading.literal types)
    (MarksLiteral references) :=
  .bounded _ (follows_literalWithin types _)

end Literals

section Bodies

theorem mirrors_findRegister (registers : Registers) (name : String) :
    Mirrors (findRegister registers name) (Reading.findRegister registers name) :=
  mirrors_lookup _ fun _ => rfl

theorem mirrors_register (registers : Registers) :
    Mirrors (register registers) (Reading.register registers) :=
  mirrors_registerName.bind fun _ => mirrors_findRegister registers _

theorem mirrors_newRegister (registers : Registers) :
    Mirrors (newRegister registers) (Reading.newRegister registers) := by
  refine mirrors_registerName.bind fun name => ?_
  rw [define, Reading.define]
  split
  · exact fun _ _ => follows_raise fun _ => rfl
  · exact mirrors_pure _

variable (types : TypeTable)

theorem stateType_eq {which : ElementRef} {element : Element}
    (h : types.element? which = some element) :
    stateType types which = .ok (element.state.getD .unit) := by
  obtain ⟨enumeration, found, there⟩ := Option.bind_eq_some_iff.mp h
  rw [stateType, entry_eq_ok_iff.mpr found]
  dsimp only [bind, Except.bind]
  rw [entry_eq_ok_iff.mpr there]
  rfl

abbrev MarksOperation := Marks Operation.functions (Operation.relabel standIn)

theorem follows_operation (registers : Registers) (keyword : String) :
    (operation types registers keyword = none ∧
      Reading.operation types registers keyword = none) ∨
    ∃ scanner reader, operation types registers keyword = some scanner ∧
      Reading.operation types registers keyword = some reader ∧
      ∀ {rest references}, Follows rest references scanner reader (MarksOperation references) := by
  rw [operation.eq_def, Reading.operation.eq_def]
  split
  · refine .inr ⟨_, _, rfl, rfl, (follows_literal types).bind fun _ marked => ?_⟩
    obtain ⟨rfl, rfl⟩ := marked
    exact (mirrors_expectChar (by decide)).andThen fun _ =>
      (mirrors_type types).andThen fun _ => follows_pure ⟨rfl, rfl⟩
  · exact .inr ⟨_, _, rfl, rfl, (mirrors_register registers).list.andThen fun _ =>
      follows_pure (marks_nil rfl)⟩
  · exact .inr ⟨_, _, rfl, rfl, (mirrors_register registers).andThen fun _ =>
      (mirrors_expectChar (by decide)).andThen fun _ => mirrors_smallNumber.andThen fun _ =>
        follows_pure (marks_nil rfl)⟩
  · refine .inr ⟨_, _, rfl, rfl, (follows_elementRef types).bind fun read agreed => ?_⟩
    have there := stateType_eq types (Reading.element?_of_reads_elementRef read)
    obtain ⟨rfl, rfl⟩ := agreed
    exact (mirrors_expectChar (by decide)).andThen fun _ =>
      (mirrors_register registers).andThen fun _ =>
        (mirrors_expectChar (by decide)).andThen fun _ =>
          .after (scans_ofFault there _) rfl (follows_pure (marks_nil rfl))
  · exact .inr ⟨_, _, rfl, rfl, follows_pure (marks_nil rfl)⟩
  · exact .inl ⟨by simp only, by simp only⟩

theorem mirrors_guard (registers : Registers) :
    Mirrors (guard types registers) (Reading.guard types registers) := by
  refine mirrors_skip.bind fun _ => mirrors_peek.bind fun next => ?_
  split
  · exact (mirrors_register registers).bind fun _ => mirrors_pure _
  · refine fun _ _ => (follows_elementRef types).bind fun _ agreed => ?_
    obtain ⟨rfl, rfl⟩ := agreed
    exact (mirrors_expectChar (by decide)).andThen fun _ =>
      (mirrors_newRegister registers).andThen fun _ =>
        (mirrors_expectChar (by decide)).andThen fun _ => follows_pure ⟨rfl, rfl⟩

open Instruction (functionsBody functionsCases relabelBody relabelCases)

abbrev MarksBody := Marks (fun read : Body String × Registers => functionsBody read.1)
  fun read => (relabelBody standIn read.1, read.2)

def markCase (case : Case (Body String)) : Case (Body FunctionId) :=
  ⟨case.guard, relabelBody standIn case.action, case.value⟩

abbrev MarksCase := Marks (fun read : Case (Body String) × Registers => functionsBody read.1.action)
  fun read => (markCase read.1, read.2)

abbrev MarksCases := Marks (fun read : Cases String × Registers => functionsCases read.1)
  fun read => (relabelCases standIn read.1, read.2)

abbrev MarksInstruction :=
  Marks (fun read : Instruction String × Registers => read.1.functions)
    fun read => (read.1.relabel standIn, read.2)

variable {nested : Nested} {nested' : Reading.Nested}
  (inner : ∀ registers {rest references},
    Follows rest references (nested registers) (nested' registers) (MarksBody references))
include inner

theorem follows_caseOf (registers : Registers) :
    Follows rest references (caseOf types nested registers)
      (Reading.caseOf types nested' registers) (MarksCase references) := by
  refine (mirrors_acceptKeyword "case").andThen fun {found _} _ => ?_
  cases found
  case' false => refine (mirrors_unexpected _).andThen fun _ => ?_
  all_goals
    refine (mirrors_guard types registers).andThen fun _ =>
      (mirrors_expectChar (by decide)).andThen fun _ => (inner _).bind fun _ marked => ?_
    obtain ⟨rfl, rfl⟩ := marked
    refine (mirrors_acceptKeyword "yield").andThen fun {yields _} _ => ?_
    cases yields with
    | true => exact (mirrors_register _).andThen fun _ => follows_pure ⟨rfl, rfl⟩
    | false => exact follows_pure ⟨rfl, rfl⟩

theorem follows_casesWithin (bound : Nat) (registers : Registers) :
    Follows rest references (casesWithin types nested bound registers)
      (Reading.casesWithin types nested' bound registers) (MarksCases references) := by
  induction bound generalizing registers rest references with
  | zero =>
    refine (mirrors_acceptChar (by decide)).andThen fun {closed _} _ => ?_
    cases closed with
    | true => exact follows_pure (marks_nil rfl)
    | false => exact follows_unexpected _
  | succ bound ih =>
    refine (mirrors_acceptChar (by decide)).andThen fun {closed _} _ => ?_
    cases closed with
    | true => exact follows_pure (marks_nil rfl)
    | false =>
      refine (follows_caseOf types inner registers).bind fun {first _ _ _} _ marked => ?_
      obtain ⟨⟨guard, action, value⟩, after⟩ := first
      obtain ⟨rfl, rfl⟩ := marked
      refine (ih after).bind fun _ later => ?_
      obtain ⟨rfl, rfl⟩ := later
      refine follows_pure ⟨?_, ?_⟩
      · dsimp only
        rw [functionsCases, noted_append]
      · dsimp only
        rw [relabelCases]
        rfl

theorem follows_assignment (registers : Registers) (result : Register) :
    Follows rest references (assignment types nested registers result)
      (Reading.assignment types nested' registers result) (MarksInstruction references) := by
  refine mirrors_identifier.andThen fun {keyword _} _ => ?_
  by_cases call : keyword = "call"
  · subst call
    exact (mirrors_register registers).andThen fun _ =>
      (mirrors_register registers).list.andThen fun _ => follows_pure (marks_nil rfl)
  by_cases select : keyword = "match"
  · subst select
    refine (mirrors_register registers).andThen fun _ =>
      (mirrors_expectChar (by decide)).andThen fun {_ between} _ => ?_
    have cases : Follows between references
        (bounded fun bound => casesWithin types nested bound registers)
        (fun text => Reading.casesWithin types nested' text.length registers text)
        (MarksCases references) :=
      .bounded (fun bound => Reading.casesWithin types nested' bound registers)
        (follows_casesWithin types inner _ registers)
    refine cases.bind fun _ marked => ?_
    obtain ⟨rfl, rfl⟩ := marked
    exact follows_pure ⟨rfl, rfl⟩
  -- Both matches are at their last case now.
  simp only
  rcases follows_operation types registers keyword with ⟨none, none'⟩ | ⟨_, _, some, some', h⟩
  · rw [none, none']
    exact follows_fail _
  · rw [some, some']
    refine h.bind fun _ marked => ?_
    obtain ⟨rfl, rfl⟩ := marked
    exact follows_pure ⟨rfl, rfl⟩

theorem follows_instruction (registers : Registers) :
    Follows rest references (instruction types nested registers)
      (Reading.instruction types nested' registers) (MarksInstruction references) := by
  refine mirrors_skip.andThen fun _ => mirrors_peek.andThen fun {next _} _ => ?_
  split
  · exact (mirrors_newRegister registers).andThen fun _ =>
      (mirrors_expectChar (by decide)).andThen fun _ => follows_assignment types inner _ _
  · refine mirrors_identifier.andThen fun {word _} _ => ?_
    split
    · refine (mirrors_expectChar (by decide)).andThen fun _ => (inner registers).bind
        fun _ marked => ?_
      obtain ⟨rfl, rfl⟩ := marked
      exact follows_pure ⟨rfl, rfl⟩
    · exact follows_pure (marks_nil rfl)
    · try simp only
      exact follows_fail _

omit inner in
theorem follows_atEnd : Follows rest references atEnd Reading.peek? fun recorded next ended =>
    recorded = references ∧ ended = next.isNone where
  reads read := by
    obtain ⟨rfl, rfl⟩ := Reading.reads_peek?.mp read
    refine ⟨_, _, scans_atEnd _ _, rfl, ?_⟩
    rw [Bool.eq_iff_iff, List.isEmpty_iff, Option.isNone_iff_eq_none, List.head?_eq_none_iff]
  stops failed := by cases failed

theorem follows_bodyRound (registers : Registers) :
    Follows rest references (bodyRound types nested registers)
      (Reading.bodyRound types nested' registers) (MarksBody references) := by
  refine (mirrors_acceptChar (by decide)).andThen fun {closed _} _ => ?_
  cases closed with
  | true => exact follows_pure (marks_nil rfl)
  | false =>
    refine follows_atEnd.bind fun {next _ _ _} _ agreed => ?_
    obtain ⟨rfl, rfl⟩ := agreed
    cases next with
    | none => exact follows_unexpected _
    | some c =>
      refine (follows_instruction types inner registers).bind fun _ marked => ?_
      obtain ⟨rfl, rfl⟩ := marked
      refine (inner _).bind fun _ later => ?_
      obtain ⟨rfl, rfl⟩ := later
      refine follows_pure ⟨?_, ?_⟩
      · dsimp only
        rw [functionsBody, noted_append]
      · dsimp only
        rw [relabelBody]

omit inner in
theorem follows_bodyWithin (bound : Nat) (registers : Registers) :
    Follows rest references (bodyWithin types bound registers)
      (Reading.bodyWithin types bound registers) (MarksBody references) := by
  induction bound generalizing registers rest references with
  | zero =>
    exact (mirrors_expectChar (by decide)).andThen fun _ => follows_pure (marks_nil rfl)
  | succ bound ih => exact follows_bodyRound types (fun registers => ih registers) registers

omit inner in
theorem follows_body (registers : Registers) :
    Follows rest references (body types registers) (Reading.body types registers)
      (MarksBody references) :=
  .bounded (fun bound => Reading.bodyWithin types bound registers)
    (follows_bodyWithin types _ registers)

end Bodies

section Declarations

variable (types : TypeTable)

theorem mirrors_element (enumeration : String) (elements : List Element) :
    Mirrors (element types enumeration elements) (Reading.element types enumeration elements) := by
  refine mirrors_identifier.bind fun name => ?_
  split
  · exact mirrors_fail _
  · refine (mirrors_acceptChar (by decide)).bind fun opened => ?_
    cases opened with
    | true =>
      exact (mirrors_type types).bind fun _ =>
        (mirrors_expectChar (by decide)).bind fun _ => mirrors_pure _
    | false => exact mirrors_pure _

theorem mirrors_member (members : List Member) :
    Mirrors (member types members) (Reading.member types members) :=
  mirrors_identifier.bind fun _ => (mirrors_expectChar (by decide)).bind fun _ =>
    (mirrors_type types).bind fun _ => mirrors_pure _

theorem mirrors_enumeration : Mirrors (enumeration types) (Reading.enumeration types) := by
  refine mirrors_identifier.bind fun name => ?_
  split
  · exact fun _ _ => follows_raise fun _ => rfl
  · exact (Mirrors.fields (mirrors_element types name) []).bind fun _ => mirrors_pure _

theorem mirrors_record : Mirrors (record types) (Reading.record types) := by
  refine mirrors_identifier.bind fun name => ?_
  split
  · exact fun _ _ => follows_raise fun _ => rfl
  · exact (Mirrors.fields (mirrors_member types) []).bind fun _ => mirrors_pure _

theorem mirrors_interface : Mirrors (interface types) (Reading.interface types) := by
  refine mirrors_identifier.bind fun name => ?_
  split
  · exact fun _ _ => follows_raise fun _ => rfl
  · exact mirrors_pure _

theorem mirrors_parameter (registers : Registers) : Mirrors (parameter registers) (do
    let (_, registers) ← Reading.newRegister registers
    pure registers) :=
  (mirrors_newRegister registers).bind fun _ => mirrors_pure _

def marked (declarations : Reading.Declarations) : Program :=
  { declarations.types with functions := declarations.functions.map (Function.relabel standIn) }

theorem functionNames_marked (declarations : Reading.Declarations) :
    (marked declarations).functions.map Function.name =
      declarations.functions.map Function.name := by
  rw [marked, List.map_map]
  rfl

def Marked (references : List (List String)) (declarations : Reading.Declarations)
    (program : Program) : Prop :=
  references = declarations.functions.map Function.functions ∧ program = marked declarations

theorem runs_enter : Runs enter rest references () rest (references ++ [[]]) :=
  fun _ position here => ⟨position, rfl, here⟩

theorem noted_concat (names : List String) (references : List (List String)) :
    noted names (references ++ [[]]) = references ++ [names] := by
  induction references with
  | nil => rfl
  | cons first others ih =>
    cases others with
    | nil => rfl
    | cons second others =>
      have later : noted names (first :: (second :: others ++ [[]])) =
        first :: noted names (second :: others ++ [[]]) := rfl
      exact later.trans (congrArg (first :: ·) ih)

variable {declarations : Reading.Declarations}

theorem follows_function :
    Follows rest references (function (marked declarations)) (Reading.function declarations)
      fun references' result value => references' = references ++ [result.functions] ∧
        value = result.relabel standIn := by
  refine mirrors_identifier.andThen fun {name _} _ => ?_
  have names : (marked declarations).functions.any (·.name == name) =
      declarations.functions.any (·.name == name) := List.any_map
  rw [names]
  split
  · exact follows_raise fun _ => rfl
  · refine .after runs_enter rfl ((Mirrors.items mirrors_parameter _).andThen fun _ =>
      (mirrors_expect "->").andThen fun _ => mirrors_registerName.andThen fun _ =>
        (mirrors_expectChar (by decide)).andThen fun _ =>
          (follows_body declarations.types _).bind fun _ marked => ?_)
    obtain ⟨rfl, rfl⟩ := marked
    exact (mirrors_findRegister _ _).andThen fun _ => follows_pure ⟨noted_concat _ _, rfl⟩

theorem follows_declaration {program : Program} (start : Marked references declarations program) :
    Follows rest references (declaration program) (Reading.declaration declarations) Marked := by
  obtain ⟨rfl, rfl⟩ := start
  refine mirrors_identifier.andThen fun {keyword _} _ => ?_
  split
  · exact (mirrors_enumeration _).andThen fun _ => follows_pure ⟨rfl, rfl⟩
  · exact (mirrors_record _).andThen fun _ => follows_pure ⟨rfl, rfl⟩
  · exact (mirrors_interface _).andThen fun _ => follows_pure ⟨rfl, rfl⟩
  · refine follows_function.bind fun _ agreed => ?_
    obtain ⟨rfl, rfl⟩ := agreed
    refine follows_pure ⟨?_, ?_⟩
    · rw [Reading.Declarations.addFunction, List.map_append]
      rfl
    · rw [marked, marked, Reading.Declarations.addFunction, List.map_append]
      rfl
  · try simp only
    exact follows_fail _

theorem follows_declarationsWithin (bound : Nat) {program : Program}
    (start : Marked references declarations program) :
    Follows rest references (declarationsWithin bound program)
      (Reading.declarationsWithin bound declarations) Marked := by
  induction bound generalizing rest references declarations program with
  | zero => exact follows_pure start
  | succ bound ih =>
    refine mirrors_skip.andThen fun _ => follows_atEnd.bind fun {next _ _ _} _ agreed => ?_
    obtain ⟨rfl, rfl⟩ := agreed
    cases next with
    | none => exact follows_pure start
    | some c => exact (follows_declaration start).bind fun _ later => ih later

end Declarations

/-- What is recorded in the text, and where stand-ins are left for it. -/
theorem declarations_eq (text : String) : declarations text =
    match Reading.declarationsWithin text.toList.length .empty text.toList with
    | .ok (declared, _) => .ok (marked declared, declared.functions.map Function.functions)
    | .error error => .error (.error (error.mapPlace (Position.ofRest text.toList))) := by
  have start : Marked [] .empty ⟨⟨[], [], []⟩, []⟩ := ⟨rfl, rfl⟩
  have follows : Follows text.toList []
      (bounded fun bound => declarationsWithin bound ⟨⟨[], [], []⟩, []⟩)
      (fun text => Reading.declarationsWithin text.length .empty text) Marked :=
    .bounded (fun bound => Reading.declarationsWithin bound .empty)
      (follows_declarationsWithin _ start)
  rw [declarations]
  cases result : Reading.declarationsWithin text.toList.length .empty text.toList with
  | error error =>
    rw [follows.stops result text 0 (stands_start text)]
    rfl
  | ok read =>
    obtain ⟨value, references, runs, rfl, rfl⟩ := follows.reads result
    obtain ⟨position, scanned, _⟩ := runs text 0 (stands_start text)
    rw [scanned]
    rfl

/-- Scanning gives the program or the error that reading gives, and never a fault. -/
theorem program_eq (text : String) : program text = (Program.parse text).mapError Stop.error := by
  rw [program, declarations_eq]
  cases result : Reading.declarationsWithin text.toList.length .empty text.toList with
  | error error =>
    rw [Program.parse, Reading.program, result]
    rfl
  | ok read =>
    rw [Program.parse_eq_of_declarations result, Program.mentions_of_declarations result]
    dsimp only [bind, Except.bind]
    have resolved := resolveAll_eq (read.1.functions.map Function.name) read.1.functions
    rw [functionNames_marked]
    have same : (marked read.1).functions = read.1.functions.map (Function.relabel standIn) := rfl
    rw [same, resolved]
    cases (read.1.functions.flatMap Function.functions).find?
      (· ∉ read.1.functions.map Function.name) with
    | some name => rfl
    | none =>
      have program : ({ marked read.1 with
          functions := read.1.functions.map
            (.relabel (read.1.functions.map Function.name).idxOf) } : Program) =
          Program.ofDeclarations read.1 := rfl
      dsimp only
      rw [program]
      cases (Program.ofDeclarations read.1).verify with
      | ok value => rfl
      | error error => rfl

end RegisterIR.Scanning
