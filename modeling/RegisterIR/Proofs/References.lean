import RegisterIR.Proofs.CanonicalForm
import RegisterIR.Proofs.Mentions
import RegisterIR.Proofs.ReadPlaces
import Mathlib.Data.List.Forall2

/-! References to functions. Every function records the names that its part of the text mentions;
they are then resolved to the functions that have them, and the first name that no function has is
reported. -/

namespace RegisterIR

namespace Reading

variable {α : Type}

section Parts

open Motion

variable {text between rest : List Char}

def Closed (text rest : List Char) : Prop := ∃ before, text = before ++ '\x7d' :: rest

theorem Closed.of_suffix (suffix : between <:+ text) (h : Closed between rest) :
    Closed text rest := by
  obtain ⟨part, rfl⟩ := suffix
  obtain ⟨before, rfl⟩ := h
  exact ⟨part ++ before, (List.append_assoc ..).symm⟩

theorem Closed.after {reader : Reader α} {value : α} (stays : inside.Allows reader)
    (read : Reads reader text value between) (h : Closed between rest) : Closed text rest :=
  .of_suffix (stays.reads read) h

theorem closed_of_skipFrom (h : skipFrom false text = '\x7d' :: rest) : Closed text rest :=
  .of_suffix (h ▸ suffix_skipFrom false text) ⟨[], rfl⟩

theorem closed_of_reads_bodyWithin {types : TypeTable} {bound : Nat} {registers : Registers}
    {value : Body String × Registers}
    (read : Reads (bodyWithin types bound registers) text value rest) : Closed text rest := by
  induction bound generalizing registers text value with
  | zero =>
    obtain ⟨_, _, brace, done⟩ := reads_bind.mp read
    obtain ⟨_, rfl⟩ := reads_pure.mp done
    exact closed_of_skipFrom (reads_expect.mp brace)
  | succ bound ih =>
    obtain ⟨closed, _, brace, read⟩ := reads_bind.mp read
    cases closed with
    | true =>
      obtain ⟨_, rfl⟩ := reads_pure.mp read
      exact closed_of_skipFrom (reads_accept_true.mp brace)
    | false =>
      obtain ⟨next, _, peeked, read⟩ := reads_bind.mp read
      split at read
      · exact absurd read not_reads_unexpected
      · obtain ⟨first, _, instruction, read⟩ := reads_bind.mp read
        obtain ⟨others, _, body, done⟩ := reads_bind.mp read
        obtain ⟨_, rfl⟩ := reads_pure.mp done
        obtain ⟨_, rfl⟩ := reads_peek?.mp peeked
        have further := consumes_instruction types (inside_bodyWithin types bound) registers
        exact .after (allows_accept (by decide)) brace (.after further.stays instruction (ih body))

theorem closed_of_reads_function {declarations : Declarations} {value : Function String}
    (read : Reads (function declarations) text value rest) : Closed text rest := by
  obtain ⟨name, _, named, read⟩ := reads_bind.mp read
  split at read
  · exact absurd read not_reads_raise
  · obtain ⟨parameters, _, listed, read⟩ := reads_bind.mp read
    obtain ⟨_, _, arrow, read⟩ := reads_bind.mp read
    obtain ⟨returned, _, register, read⟩ := reads_bind.mp read
    obtain ⟨_, _, brace, read⟩ := reads_bind.mp read
    obtain ⟨body, _, closed, read⟩ := reads_bind.mp read
    obtain ⟨value, _, found, done⟩ := reads_bind.mp read
    obtain ⟨_, rfl⟩ := reads_pure.mp done
    obtain ⟨_, rfl⟩ := reads_lookup.mp found
    exact .after allows_identifier named (.after (allows_items allows_parameters _) listed
      (.after (allows_expect (by decide)) arrow (.after allows_registerName register
        (.after (allows_expect (by decide)) brace (closed_of_reads_bodyWithin closed)))))

/-- The names in the text of a function are those that are recorded with it. -/
theorem mentions_of_reads_function {declarations : Declarations} {value : Function String}
    {part rest : List Char} (read : Reads (function declarations) (part ++ rest) value rest) :
    mentions part = value.functions := by
  obtain ⟨names, recorded, passed⟩ := (records_function declarations).passes read
  obtain ⟨before, closed⟩ := closed_of_reads_function read
  have ending : part = before ++ ['\x7d'] :=
    List.append_cancel_right (closed.trans (List.append_cons ..))
  obtain ⟨part', same, after⟩ := passed.consumed
  obtain rfl := List.append_cancel_right same
  have whole := passed.mentioned
  rw [closed, mentionsFrom_append _ _ _ (by decide) (by decide), ← ending] at whole
  have tail : mentionsFrom (part.foldl Mode.next .code) rest = mentionsFrom .code rest := by
    rcases after with back | rfl
    · rw [back]
    · rfl
  rw [tail] at whole
  rw [recorded, List.nil_append]
  exact List.append_cancel_right whole

/-- The parts of a text in the order in which they stand in it, without overlap. -/
def InOrder : List (List Char) → List Char → Prop
  | [], _ => True
  | part :: parts, text => ∃ before rest, text = before ++ part ++ rest ∧ InOrder parts rest

theorem InOrder.of_suffix {parts : List (List Char)} (suffix : between <:+ text)
    (h : InOrder parts between) : InOrder parts text := by
  cases parts with
  | nil => trivial
  | cons part parts =>
    obtain ⟨skipped, rfl⟩ := suffix
    obtain ⟨before, rest, rfl, later⟩ := h
    exact ⟨skipped ++ before, rest, by simp, later⟩

def DeclaredBy (function : Function String) (part : List Char) : Prop :=
  ∃ declarations rest, Reads (Reading.function declarations) (part ++ rest) function rest

theorem parts_of_reads_declaration {declarations next : Declarations}
    (read : Reads (declaration declarations) text next rest) :
    next.functions = declarations.functions ∨ ∃ function part before,
      next.functions = declarations.functions ++ [function] ∧ text = before ++ part ++ rest ∧
        DeclaredBy function part := by
  obtain ⟨keyword, between, identifies, chosen⟩ := reads_bind.mp read
  split at chosen
  · obtain ⟨value, _, _, done⟩ := reads_bind.mp chosen
    obtain ⟨rfl, _⟩ := reads_pure.mp done
    exact .inl rfl
  · obtain ⟨value, _, _, done⟩ := reads_bind.mp chosen
    obtain ⟨rfl, _⟩ := reads_pure.mp done
    exact .inl rfl
  · obtain ⟨value, _, _, done⟩ := reads_bind.mp chosen
    obtain ⟨rfl, _⟩ := reads_pure.mp done
    exact .inl rfl
  · obtain ⟨value, _, declared, done⟩ := reads_bind.mp chosen
    obtain ⟨rfl, rfl⟩ := reads_pure.mp done
    have keyword : inside.reads text between := allows_identifier.reads identifies
    obtain ⟨part, rfl⟩ := (inside_function declarations).reads declared
    obtain ⟨before, rfl⟩ := keyword
    exact .inr ⟨value, part, before, rfl, (List.append_assoc ..).symm, declarations, rest, declared⟩
  · exact absurd chosen not_reads_fail

theorem parts_of_reads_declarationsWithin {bound : Nat} {declarations last : Declarations}
    (read : Reads (declarationsWithin bound declarations) text last rest) :
    ∃ functions parts, last.functions = declarations.functions ++ functions ∧ InOrder parts text ∧
      List.Forall₂ DeclaredBy functions parts := by
  induction bound generalizing declarations text with
  | zero =>
    obtain ⟨rfl, _⟩ := reads_pure.mp read
    exact ⟨[], [], by simp, trivial, .nil⟩
  | succ bound ih =>
    obtain ⟨_, _, skipped, read⟩ := reads_bind.mp read
    obtain ⟨_, _, peeked, read⟩ := reads_bind.mp read
    obtain rfl := reads_skip.mp skipped
    obtain ⟨_, rfl⟩ := reads_peek?.mp peeked
    split at read
    · obtain ⟨rfl, _⟩ := reads_pure.mp read
      exact ⟨[], [], by simp, trivial, .nil⟩
    · obtain ⟨declared, between, first, later⟩ := reads_bind.mp read
      obtain ⟨functions, parts, all, ordered, each⟩ := ih later
      rcases parts_of_reads_declaration first with same | ⟨function, part, before, one, here, own⟩
      · have further := ((consumes_declaration declarations).stays.reads first).trans
          (suffix_skipFrom false text)
        exact ⟨functions, parts, by rw [all, same], ordered.of_suffix further, each⟩
      · have whole : InOrder (part :: parts) (skipFrom false text) :=
          ⟨before, between, here, ordered⟩
        refine ⟨function :: functions, part :: parts, ?_,
          whole.of_suffix (suffix_skipFrom false text), .cons own each⟩
        rw [all, one, List.append_assoc, List.singleton_append]

theorem eq_nil_of_reads_declarationsWithin {bound : Nat} {declarations last : Declarations}
    (enough : text.length ≤ bound)
    (read : Reads (declarationsWithin bound declarations) text last rest) : rest = [] := by
  induction bound generalizing declarations text with
  | zero =>
    obtain ⟨_, rfl⟩ := reads_pure.mp read
    exact List.eq_nil_of_length_eq_zero (Nat.le_zero.mp enough)
  | succ bound ih =>
    obtain ⟨_, _, skipped, read⟩ := reads_bind.mp read
    obtain ⟨_, _, peeked, read⟩ := reads_bind.mp read
    obtain rfl := reads_skip.mp skipped
    obtain ⟨rfl, rfl⟩ := reads_peek?.mp peeked
    split at read
    · rename_i ended
      obtain ⟨_, rfl⟩ := reads_pure.mp read
      simpa using ended
    · obtain ⟨declared, between, first, later⟩ := reads_bind.mp read
      have less := (consumes_declaration declarations).less first
      have shorter := length_skipFrom_le false text
      exact ih (by omega) later

theorem mentions_of_reads_declarationsWithin {bound : Nat} {declarations last : Declarations}
    (enough : text.length ≤ bound)
    (read : Reads (declarationsWithin bound declarations) text last rest) :
    last.functions.flatMap Function.functions =
      declarations.functions.flatMap Function.functions ++ mentions text := by
  obtain rfl := eq_nil_of_reads_declarationsWithin enough read
  obtain ⟨names, recorded, passed⟩ := (records_declarationsWithin bound declarations).passes read
  rw [recorded, mentions, passed.mentioned]
  simp [mentionsFrom]

end Parts

section Resolution

theorem mapM_resolve_eq (names : List String) (functions : List (Function String)) :
    functions.mapM (resolve names) =
      match (functions.flatMap Function.functions).find? (· ∉ names) with
      | some name => .error (.undefinedFunction name)
      | none => .ok (functions.map (.relabel names.idxOf)) := by
  induction functions with
  | nil => rfl
  | cons function functions ih =>
    rw [List.mapM_cons, ih, resolve, List.flatMap_cons, List.find?_append]
    cases function.functions.find? (· ∉ names) with
    | some name => rfl
    | none =>
      cases (functions.flatMap Function.functions).find? (· ∉ names) with
      | some name => rfl
      | none => rfl

theorem map_idxOf_names {names used : List String} (known : ∀ name ∈ used, name ∈ names) :
    (used.map names.idxOf).map (names[·]?) = used.map some := by
  rw [List.map_map]
  exact List.map_congr_left fun name member => List.getElem?_idxOf (known name member)

theorem functions_of_declared {functions : List (Function String)} {parts : List (List Char)}
    (h : List.Forall₂ DeclaredBy functions parts) :
    functions.map Function.functions = parts.map mentions := by
  induction h with
  | nil => rfl
  | cons declared _ ih =>
    obtain ⟨declarations, rest, read⟩ := declared
    rw [List.map_cons, List.map_cons, ih, mentions_of_reads_function read]

end Resolution

end Reading

namespace Program

open Reading

/-- The function is the one that the part of the text declares, and the functions that it refers to
have the names that the part mentions, in the same order. -/
structure RefersAsWritten (program : Program) (function : Function FunctionId) (part : List Char) :
    Prop where
  declared : ∃ written, DeclaredBy written part ∧
    function = written.relabel (program.functions.map Function.name).idxOf
  names : function.functions.map (fun id => program.functions[id]?.map Function.name) =
    (mentions part).map some

def ofDeclarations (declarations : Declarations) : Program :=
  { declarations.types with
    functions := declarations.functions.map
      (.relabel (declarations.functions.map Function.name).idxOf) }

variable {text : String} {declarations : Declarations} {rest : List Char}

theorem functionNames_ofDeclarations :
    (ofDeclarations declarations).functions.map Function.name =
      declarations.functions.map Function.name := by
  rw [ofDeclarations, List.map_map]
  rfl

theorem mentions_of_declarations
    (read : Reads (declarationsWithin text.toList.length .empty) text.toList declarations rest) :
    mentions text.toList = declarations.functions.flatMap Function.functions :=
  (mentions_of_reads_declarationsWithin (Nat.le_refl _) read).symm

/-- What becomes of declarations that have been read: a name may be undefined, or the program may be
rejected by verification. -/
theorem parse_eq_of_declarations
    (read : Reads (declarationsWithin text.toList.length .empty) text.toList declarations rest) :
    Program.parse text =
      match (mentions text.toList).find? (· ∉ declarations.functions.map Function.name) with
      | some name => .error (.undefinedFunction name)
      | none =>
        match (ofDeclarations declarations).verify with
        | .ok () => .ok (ofDeclarations declarations)
        | .error error => .error (.invalid error) := by
  rw [mentions_of_declarations read, parse, Reading.program]
  have first : declarationsWithin text.toList.length .empty text.toList =
      .ok (declarations, rest) := read
  rw [first]
  dsimp only [bind, Except.bind]
  rw [mapM_resolve_eq]
  cases (declarations.functions.flatMap Function.functions).find?
    (· ∉ declarations.functions.map Function.name) with
  | some name => rfl
  | none =>
    have same : ({ declarations.types with
        functions := declarations.functions.map
          (.relabel (declarations.functions.map Function.name).idxOf) } : Program) =
        ofDeclarations declarations := rfl
    dsimp only
    rw [same]
    cases (ofDeclarations declarations).verify with
    | ok value => rfl
    | error error => rfl

theorem exists_declarations_of_parse {program : Program} (h : Program.parse text = .ok program) :
    ∃ declarations rest,
      Reads (declarationsWithin text.toList.length .empty) text.toList declarations rest ∧
        program = ofDeclarations declarations ∧
        ∀ name ∈ mentions text.toList, name ∈ declarations.functions.map Function.name := by
  cases result : declarationsWithin text.toList.length .empty text.toList with
  | error error =>
    rw [parse, Reading.program, result] at h
    cases h
  | ok read =>
    have parsed := parse_eq_of_declarations result
    rw [h] at parsed
    refine ⟨read.1, read.2, result, ?_⟩
    split at parsed
    · cases parsed
    · rename_i all
      split at parsed
      · exact ⟨Except.ok.inj parsed, by simpa using all⟩
      · cases parsed

theorem refersAsWritten {written : Function String} {part : List Char}
    (declared : DeclaredBy written part)
    (known : ∀ name ∈ written.functions, name ∈ declarations.functions.map Function.name) :
    (ofDeclarations declarations).RefersAsWritten
      (written.relabel (declarations.functions.map Function.name).idxOf) part where
  declared := by
    rw [functionNames_ofDeclarations]
    exact ⟨written, declared, rfl⟩
  names := by
    obtain ⟨_, _, read⟩ := declared
    rw [Function.functions_relabel, mentions_of_reads_function read, ← map_idxOf_names known,
      ← functionNames_ofDeclarations]
    simp only [List.getElem?_map]

end Program

end RegisterIR
