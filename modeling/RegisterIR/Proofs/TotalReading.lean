import RegisterIR.Proofs.ReadingLoops
import RegisterIR.Proofs.ScannedPrograms
import RegisterIR.Proofs.VerifierTables

/-! Reading is total. Every loop and every descent into a nested part makes progress; the offset of
what comes next always lies between two characters of the text; and what could fail in the course of
it never does: ranges are checked before they are built, looked-up elements are there, digits are as
many bytes as characters, and verification stays inside its tables. -/

namespace RegisterIR

namespace Reading

open Motion

variable {α β σ : Type}

section Ranges

/-- Bounds that are refused for a range are reported as malformed instead. -/
theorem integerRange_eq {minimum maximum : Nat} {text first second rest : List Char}
    (low : Reads number text minimum first) (dots : Reads (expect "..") first () second)
    (high : Reads number second maximum rest) :
    integerRange text = match IntegerRange.ofBounds minimum maximum with
      | .ok range => .ok (range, rest)
      | .error _ => .error (.malformed rest (.emptyRange minimum maximum)) := by
  rw [integerRange, bind_of_reads low, bind_of_reads dots, bind_of_reads high,
    IntegerRange.ofBounds]
  by_cases ordered : minimum ≤ maximum
  · rw [dif_pos ordered, dif_pos ordered]
    rfl
  · rw [dif_neg ordered, dif_neg ordered]
    rfl

end Ranges

def parameter (registers : Registers) : Reader Registers := do
  let (_, registers) ← newRegister registers
  pure registers

/-- A loop that counts down from the number of characters that are left. -/
abbrev Loops (round : (σ → Reader α) → σ → Reader α) (within : Nat → σ → Reader α) : Prop :=
  IsLoop round fun state text => within text.length state text

/-- All loops and descents of the readers, given the types declared so far. -/
structure MakesProgress (types : TypeTable) : Prop where
  quoted : Loops (fun next (_ : Unit) => quotedRound (next ())) fun bound _ => quotedWithin bound
  type : Loops (fun next (_ : Unit) => typeRound types (next ())) fun bound _ =>
    typeWithin types bound
  literal : Loops (fun next (_ : Unit) => literalRound types (next ())) fun bound _ =>
    literalWithin types bound
  typeList : Loops (itemsRound (appending (Reading.type types)))
    (itemsWithin (appending (Reading.type types)))
  literalList : Loops (itemsRound (appending (Reading.literal types)))
    (itemsWithin (appending (Reading.literal types)))
  registerList : ∀ registers, Loops (itemsRound (appending (register registers)))
    (itemsWithin (appending (register registers)))
  parameterList : Loops (itemsRound parameter) (itemsWithin parameter)
  elements : ∀ enumeration, Loops (fieldsRound (element types enumeration))
    (fieldsWithin (element types enumeration))
  members : Loops (fieldsRound (member types)) (fieldsWithin (member types))
  cases : Loops (casesRound types (body types)) (casesWithin types (body types))
  body : Loops (bodyRound types) (bodyWithin types)
  declarations : Loops declarationsRound declarationsWithin

theorem makesProgress (types : TypeTable) : MakesProgress types where
  quoted := isLoop_quoted
  type := isLoop_type types
  literal := isLoop_literal types
  typeList := isLoop_list (allows_type types) (needsText_type types)
  literalList := isLoop_list (inside_literal types) (needsText_literal types)
  registerList registers := isLoop_list (allows_register registers)
    (consumes_registerName.needsText.bind _)
  parameterList := isLoop_items allows_parameters fun registers =>
    (consumes_newRegister registers).needsText.bind _
  elements enumeration := isLoop_fields (allows_element types enumeration) fun _ =>
    consumes_identifier.needsText.bind _
  members := isLoop_fields (allows_member types) fun _ => consumes_identifier.needsText.bind _
  cases := isLoop_cases types
  body := isLoop_body types
  declarations := isLoop_declarations

/-- What is computed from the text or looked up for it is there. -/
structure NeverFaults (types : TypeTable) : Prop where
  ranges : ∀ {minimum maximum text first second rest}, Reads number text minimum first →
    Reads (expect "..") first () second → Reads number second maximum rest →
      integerRange text = match IntegerRange.ofBounds minimum maximum with
        | .ok range => .ok (range, rest)
        | .error _ => .error (.malformed rest (.emptyRange minimum maximum))
  enums : ∀ {name text id rest}, Reads (findEnum types name) text id rest →
    id < types.enums.length
  elements : ∀ {text which element rest}, Reads (elementRef types) text (which, element) rest →
    types.element? which = some element
  digits : ∀ text : List Char,
    Text.before? (String.ofList text) (text.takeWhile Char.isDigit).length =
      some (String.ofList (text.takeWhile Char.isDigit))
  hexDigits : ∀ text : List Char,
    Text.before? (String.ofList text) (text.takeWhile Text.isHexDigit).length =
      some (String.ofList (text.takeWhile Text.isHexDigit))
  tables : ∀ (program : Program) (function : Function FunctionId),
    function.checkIn program = settled (function.check program)

theorem neverFaults (types : TypeTable) : NeverFaults types where
  ranges := integerRange_eq
  enums := lt_of_reads_findEnum
  elements := element?_of_reads_elementRef
  digits := Scanning.before?_takeWhile fun _ => isWordChar_of_isDigit
  hexDigits := Scanning.before?_takeWhile fun _ => isWordChar_of_isHexDigit
  tables := Function.checkIn_eq

end Reading

namespace Scanning

variable {α β : Type}

def IsBoundary (text : String) (position : Nat) : Prop := String.Pos.Raw.IsValid text ⟨position⟩

theorem isBoundary_iff {text : String} {position : Nat} :
    IsBoundary text position ↔ ∃ rest, Stands text position rest := by
  constructor
  · intro boundary
    obtain ⟨before, rest, parts, offset⟩ :=
      String.Pos.Raw.isValid_iff_exists_append.mp boundary
    rw [← String.ofList_toList (s := rest)] at parts
    exact ⟨_, stands_iff.mpr ⟨before, parts, congrArg String.Pos.Raw.byteIdx offset⟩⟩
  · rintro ⟨rest, here⟩
    obtain ⟨before, parts, rfl⟩ := stands_iff.mp here
    exact String.Pos.Raw.isValid_iff_exists_append.mpr ⟨before, _, parts, rfl⟩

/-- From a boundary the scanner goes to another one of the same text, or it reports an error: no
slice is taken inside a character, and no fault comes up. -/
def KeepsBoundaries (references : List (List String)) (scanner : Scanner α) : Prop :=
  ∀ text position, IsBoundary text position →
    (∃ value position' references', IsBoundary text position' ∧
      scanner ⟨text, position, references⟩ = .ok (value, ⟨text, position', references'⟩)) ∨
    ∃ error, scanner ⟨text, position, references⟩ = .error (.error error)

theorem keepsBoundaries {references : List (List String)} {scanner : Scanner α}
    {reader : Reading.Reader β} {agree : List (List String) → β → α → Prop}
    (h : ∀ {rest}, Follows rest references scanner reader agree) :
    KeepsBoundaries references scanner := by
  intro text position boundary
  obtain ⟨rest, here⟩ := isBoundary_iff.mp boundary
  cases result : reader rest with
  | error error => exact .inr ⟨_, h.stops result text position here⟩
  | ok read =>
    obtain ⟨value, references', runs, _⟩ := h.reads result
    obtain ⟨position', scanned, there⟩ := runs text position here
    exact .inl ⟨value, position', references', isBoundary_iff.mpr ⟨_, there⟩, scanned⟩

theorem Mirrors.keepsBoundaries {scanner : Scanner α} {reader : Reading.Reader α}
    (h : Mirrors scanner reader) (references : List (List String)) :
    KeepsBoundaries references scanner :=
  Scanning.keepsBoundaries (h _ references)

/-- The scanners that move the position, given the types, registers and names so far. -/
structure StaysInText (types : TypeTable) (registers : Reading.Registers)
    (references : List (List String)) : Prop where
  peek : KeepsBoundaries references peek
  skip : KeepsBoundaries references skip
  acceptChar : ∀ c, KeepsBoundaries references (acceptChar c)
  accept : ∀ token, KeepsBoundaries references (accept token)
  expect : ∀ token, KeepsBoundaries references (expect token)
  word : KeepsBoundaries references word
  identifier : KeepsBoundaries references identifier
  acceptKeyword : ∀ keyword, KeepsBoundaries references (acceptKeyword keyword)
  number : KeepsBoundaries references number
  escape : KeepsBoundaries references escape
  quoted : KeepsBoundaries references quoted
  registerName : KeepsBoundaries references registerName
  type : KeepsBoundaries references (type types)
  literal : KeepsBoundaries references (literal types)
  instruction : KeepsBoundaries references (instruction types (Scanning.body types) registers)
  caseOf : KeepsBoundaries references (caseOf types (Scanning.body types) registers)
  body : KeepsBoundaries references (body types registers)
  declaration : ∀ declarations, KeepsBoundaries (declarations.functions.map Function.functions)
    (declaration (marked declarations))
  declarations : ∀ bound declarations,
    KeepsBoundaries (declarations.functions.map Function.functions)
      (declarationsWithin bound (marked declarations))

theorem staysInText (types : TypeTable) (registers : Reading.Registers)
    (references : List (List String)) : StaysInText types registers references where
  peek := mirrors_peek.keepsBoundaries references
  skip := mirrors_skip.keepsBoundaries references
  acceptChar _ := (mirrors_acceptChar rfl).keepsBoundaries references
  accept token := (mirrors_accept token).keepsBoundaries references
  expect token := (mirrors_expect token).keepsBoundaries references
  word := mirrors_word.keepsBoundaries references
  identifier := mirrors_identifier.keepsBoundaries references
  acceptKeyword keyword := (mirrors_acceptKeyword keyword).keepsBoundaries references
  number := mirrors_number.keepsBoundaries references
  escape := mirrors_escape.keepsBoundaries references
  quoted := mirrors_quoted.keepsBoundaries references
  registerName := mirrors_registerName.keepsBoundaries references
  type := (mirrors_type types).keepsBoundaries references
  literal := keepsBoundaries (follows_literal types)
  instruction :=
    keepsBoundaries (follows_instruction types (fun _ => follows_body types _) registers)
  caseOf := keepsBoundaries (follows_caseOf types (fun _ => follows_body types _) registers)
  body := keepsBoundaries (follows_body types registers)
  declaration _ := keepsBoundaries (follows_declaration ⟨rfl, rfl⟩)
  declarations bound _ := keepsBoundaries (follows_declarationsWithin bound ⟨rfl, rfl⟩)

end Scanning

namespace Program

open Reading Scanning

theorem exists_place_of_parse {text : String} {position : Position} {reason : Malformation}
    (h : Program.parse text = .error (.malformed position reason)) :
    ∃ offset rest, Stands text offset rest ∧ position = Position.ofRest text.toList rest := by
  cases result : Reading.declarationsWithin text.toList.length .empty text.toList with
  | error error =>
    rw [parse, Reading.program, result] at h
    have same := Except.error.inj h
    cases error with
    | malformed place reason =>
      obtain ⟨rfl, _⟩ := ParseError.malformed.inj same
      obtain ⟨part, whole⟩ := (inside_declarationsWithin _ _).stops result
      have start := stands_start text
      rw [← whole] at start
      exact ⟨_, place, start.move, rfl⟩
    | _ => cases same
  | ok read =>
    rw [parse_eq_of_declarations result] at h
    split at h
    · cases h
    · split at h
      · cases h
      · cases h

/-- Reading comes to an end for every text. Each round of a loop and each descent into a nested
part goes on only on a shorter end of the text, and no loop is cut short; the offset of what comes
next always lies between two characters of the text, where every slice is taken; and nothing that is
looked up or asserted on the way is missing. -/
theorem parse_total (text : String) :
    Scanning.program text = (Program.parse text).mapError Stop.error ∧
      (∀ types, MakesProgress types) ∧
      (∀ types registers references, StaysInText types registers references) ∧
      (∀ position reason, Program.parse text = .error (.malformed position reason) →
        ∃ offset rest, Stands text offset rest ∧ position = Position.ofRest text.toList rest) ∧
      ∀ types, NeverFaults types :=
  ⟨program_eq text, makesProgress, staysInText, fun _ _ => exists_place_of_parse, neverFaults⟩

/-- A text that ends in an escape, after characters of several bytes. -/
def brokenText : String :=
  "\n".intercalate ["fn f() -> %x \x7b ; é", "%x = literal \"€\\u\x7b1F"]

theorem parse_total_brokenText :
    Scanning.program brokenText =
        .error (.error (.malformed ⟨2, 21⟩ (.expected "'\x7d'" none))) ∧
      ∃ offset rest, Stands brokenText offset rest ∧
        ⟨2, 21⟩ = Position.ofRest brokenText.toList rest := by
  have malformed : Program.parse brokenText =
      .error (.malformed ⟨2, 21⟩ (.expected "'\x7d'" none)) := by
    rw [parse, brokenText, String.toList_intercalate]
    decide +kernel
  obtain ⟨scanned, _, _, places, _⟩ := parse_total brokenText
  rw [malformed] at scanned
  exact ⟨scanned, places _ _ malformed⟩

end Program

end RegisterIR
