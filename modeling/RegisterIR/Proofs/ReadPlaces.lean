import RegisterIR.Proofs.ReaderMotions

/-! The position of a reader stays inside its text: a reader leaves an end of its text, and an error
is reported at such an end. What a loop repeats takes up at least one character. -/

namespace RegisterIR.Reading

variable {α β : Type}

section Inside

theorem suffix_skipFrom (inComment : Bool) (text : List Char) :
    skipFrom inComment text <:+ text := by
  induction text generalizing inComment with
  | nil => exact List.suffix_refl _
  | cons c rest ih =>
    have further (inComment : Bool) : skipFrom inComment rest <:+ c :: rest :=
      (ih inComment).trans (List.suffix_cons c rest)
    rw [skipFrom]
    split
    · exact further _
    · split
      · exact further _
      · split
        · exact further _
        · exact List.suffix_refl _

def inside : Motion where
  reads text rest := rest <:+ text
  stops text place := place <:+ text
  refl := List.suffix_refl
  trans first later := later.trans first
  here := List.suffix_refl
  later first failed := failed.trans first
  blanks := suffix_skipFrom false
  plain _ rest := List.suffix_append _ rest

theorem length_le_of_inside {reader : Reader α} (h : inside.Allows reader) {text rest : List Char}
    {value : α} (read : Reads reader text value rest) : rest.length ≤ text.length :=
  List.IsSuffix.length_le (h.reads read)

end Inside

section Consuming

open Motion

/-- Whatever the reader reads takes up at least one character. -/
structure Consumes (reader : Reader α) : Prop where
  stays : inside.Allows reader
  less : ∀ {text value rest}, Reads reader text value rest → rest.length < text.length

theorem consumes_of_not_reads {reader : Reader α} (stays : inside.Allows reader)
    (h : ∀ {text value rest}, ¬ Reads reader text value rest) : Consumes reader :=
  ⟨stays, fun read => absurd read h⟩

theorem Consumes.bind {reader : Reader α} {next : α → Reader β} (first : Consumes reader)
    (later : ∀ value, inside.Allows (next value)) : Consumes (reader >>= next) where
  stays := first.stays.bind later
  less read := by
    obtain ⟨value, between, read, read'⟩ := reads_bind.mp read
    exact Nat.lt_of_le_of_lt (length_le_of_inside (later value) read') (first.less read)

theorem Motion.Allows.consuming {reader : Reader α} {next : α → Reader β}
    (first : inside.Allows reader) (later : ∀ value, Consumes (next value)) :
    Consumes (reader >>= next) where
  stays := first.bind fun value => (later value).stays
  less read := by
    obtain ⟨value, between, read, read'⟩ := reads_bind.mp read
    exact Nat.lt_of_lt_of_le ((later value).less read') (length_le_of_inside first read)

theorem less_of_skipFrom {token text rest : List Char} (nonempty : token ≠ [])
    (h : skipFrom false text = token ++ rest) : rest.length < text.length := by
  have shorter := length_skipFrom_le false text
  rw [h, List.length_append] at shorter
  have := List.length_pos_iff.mpr nonempty
  omega

theorem less_of_reads_accept {token : String} {text rest : List Char} (nonempty : token.toList ≠ [])
    (read : Reads (accept token) text true rest) : rest.length < text.length :=
  less_of_skipFrom nonempty (reads_accept_true.mp read)

theorem inside_expect (token : String) : inside.Allows (expect token) :=
  allows_expect_of fun rest => List.suffix_append _ rest

theorem consumes_expect {token : String} (nonempty : token.toList ≠ []) :
    Consumes (expect token) where
  stays := inside_expect token
  less read := less_of_skipFrom nonempty (reads_expect.mp read)

theorem length_dropWhile_lt {p : Char → Bool} {text : List Char}
    (nonempty : text.takeWhile p ≠ []) : (text.dropWhile p).length < text.length := by
  have parts := congrArg List.length (text.takeWhile_append_dropWhile (p := p))
  rw [List.length_append] at parts
  have := List.length_pos_iff.mpr nonempty
  omega

theorem consumes_identifier : Consumes identifier where
  stays := allows_identifier
  less {text name rest} read := by
    obtain ⟨_, between, skipped, read⟩ := reads_bind.mp read
    obtain ⟨next, _, peeked, read⟩ := reads_bind.mp read
    obtain ⟨rfl, rfl⟩ := reads_peek?.mp peeked
    obtain rfl := reads_skip.mp skipped
    refine Nat.lt_of_lt_of_le ?_ (length_skipFrom_le false text)
    cases here : skipFrom false text with
    | nil =>
      rw [here] at read
      exact absurd read not_reads_unexpected
    | cons c tail =>
      rw [here] at read
      dsimp only [List.head?_cons] at read
      split at read
      · rename_i start
        obtain ⟨_, rfl⟩ := Prod.mk.inj (Except.ok.inj read)
        exact length_dropWhile_lt (by simp [isWordChar_of_isAlpha start])
      · exact absurd read not_reads_unexpected

theorem consumes_registerName : Consumes registerName := by
  refine (consumes_expect (by decide)).bind fun _ => allows_word.bind fun name => ?_
  split
  · exact allows_unexpected _
  · exact allows_pure _

theorem consumes_newRegister (registers : Registers) : Consumes (newRegister registers) := by
  refine consumes_registerName.bind fun name => ?_
  rw [define]
  split
  · exact allows_raise (by simp)
  · exact allows_pure _

theorem consumes_after_keyword {keyword : String} {next : Bool → Reader β}
    (plain : keyword.toList.all isPlain = true) (nonempty : keyword.toList ≠ [])
    (found : inside.Allows (next true)) (missing : Consumes (next false)) :
    Consumes (acceptKeyword keyword >>= next) where
  stays := by
    refine (allows_acceptKeyword plain).bind fun value => ?_
    cases value with
    | true => exact found
    | false => exact missing.stays
  less {text value rest} read := by
    obtain ⟨value, between, read, read'⟩ := reads_bind.mp read
    cases value with
    | true =>
      exact Nat.lt_of_le_of_lt (length_le_of_inside found read')
        (less_of_skipFrom nonempty (of_reads_acceptKeyword read))
    | false =>
      exact Nat.lt_of_lt_of_le (missing.less read')
        (length_le_of_inside (allows_acceptKeyword plain) read)

end Consuming

section Inside

open Motion

theorem inside_takeWhile (p : Char → Bool) :
    inside.Allows (fun text => .ok (text.takeWhile p, text.dropWhile p) : Reader (List Char)) where
  reads read := by
    obtain ⟨_, rfl⟩ := Prod.mk.inj (Except.ok.inj read)
    exact List.dropWhile_suffix p
  stops failed := by cases failed

theorem inside_escapeByNumber : inside.Allows escapeByNumber := by
  refine (allows_expect (by decide)).bind fun _ => (inside_takeWhile _).bind fun taken => ?_
  dsimp only
  split
  · exact (allows_expect (by decide)).bind fun _ => allows_pure _
  · exact allows_fail _

theorem inside_cons {reader : Reader α} (h : inside.Allows reader) (c : Char) (rest : List Char) :
    (∀ {value rest'}, reader rest = .ok (value, rest') → rest' <:+ c :: rest) ∧
      ∀ {place reason}, reader rest = .error (.malformed place reason) → place <:+ c :: rest :=
  ⟨fun read => (h.reads read).trans (List.suffix_cons c rest),
    fun failed => (h.stops failed).trans (List.suffix_cons c rest)⟩

theorem inside_escape : inside.Allows escape where
  reads {text value rest} read := by
    unfold Reads escape at read
    split at read
    · cases read
    iterate 5
      · obtain ⟨_, rfl⟩ := Prod.mk.inj (Except.ok.inj read)
        exact List.suffix_cons _ _
    · exact (inside_cons inside_escapeByNumber _ _).1 read
    · cases read
  stops {text place reason} failed := by
    unfold escape at failed
    split at failed
    · cases failed
      exact List.suffix_refl _
    iterate 5 cases failed
    · exact (inside_cons inside_escapeByNumber _ _).2 failed
    · cases failed
      exact List.suffix_cons _ _

theorem inside_quotedRound {next : Reader (List Char)} (h : inside.Allows next) :
    inside.Allows (quotedRound next) := by
  have content (c : Char) : inside.Allows (do
      let content ← next
      pure (c :: content) : Reader (List Char)) := h.bind fun _ => allows_pure _
  have escaped := inside_escape.bind content
  refine ⟨fun {text value rest} read => ?_, fun {text place reason} failed => ?_⟩
  · unfold Reads quotedRound at read
    split at read
    · cases read
    · obtain ⟨_, rfl⟩ := Prod.mk.inj (Except.ok.inj read)
      exact List.suffix_cons _ _
    · exact (inside_cons escaped _ _).1 read
    · exact (inside_cons (content _) _ _).1 read
  · unfold quotedRound at failed
    split at failed
    · cases failed
      exact List.suffix_refl _
    · cases failed
    · exact (inside_cons escaped _ _).2 failed
    · exact (inside_cons (content _) _ _).2 failed

theorem inside_quotedWithin (bound : Nat) : inside.Allows (quotedWithin bound) := by
  induction bound with
  | zero => exact allows_fail _
  | succ bound ih => exact inside_quotedRound ih

theorem inside_quoted : inside.Allows quoted :=
  (inside_expect _).bind fun _ =>
    (allows_unbounded inside_quotedWithin).bind fun _ => allows_pure _

theorem inside_functionName : inside.Allows functionName := by
  refine (inside_expect _).bind fun _ => allows_word.bind fun name => ?_
  split
  · exact allows_unexpected _
  · exact allows_pure _

variable (types : TypeTable)

theorem inside_literalRound {inner : Reader (Literal String)} (h : inside.Allows inner) :
    inside.Allows (literalRound types inner) := by
  refine allows_skip.bind fun _ => allows_peek?.bind fun next => ?_
  split
  · exact inside_quoted.bind fun _ => allows_pure _
  · exact inside_functionName.bind fun _ => allows_pure _
  · exact h.list.bind fun _ => allows_pure _
  · split
    · exact allows_number.bind fun _ => allows_pure _
    · refine allows_identifier.bind fun word => ?_
      split
      · exact allows_pure _
      · exact (allows_elementRef types).bind fun _ => allows_pure _
      · refine (allows_elementOf types _).bind fun _ =>
          (allows_accept (by decide)).bind fun opened => ?_
        cases opened with
        | true => exact h.bind fun _ => (allows_expect (by decide)).bind fun _ => allows_pure _
        | false => exact allows_pure _

theorem inside_literalWithin (bound : Nat) : inside.Allows (literalWithin types bound) := by
  induction bound with
  | zero => exact allows_skip.bind fun _ => allows_unexpected _
  | succ bound ih => exact inside_literalRound types ih

theorem inside_literal : inside.Allows (literal types) :=
  allows_unbounded (inside_literalWithin types)

theorem inside_operation {registers : Registers} {keyword : String}
    {reader : Reader (Operation String)} (h : operation types registers keyword = some reader) :
    inside.Allows reader := by
  rw [operation.eq_def] at h
  split at h
  · obtain rfl := Option.some.inj h
    exact (inside_literal types).bind fun _ => (allows_expect (by decide)).bind fun _ =>
      (allows_type types).bind fun _ => allows_pure _
  · obtain rfl := Option.some.inj h
    exact (allows_register registers).list.bind fun _ => allows_pure _
  · obtain rfl := Option.some.inj h
    exact (allows_register registers).bind fun _ => (allows_expect (by decide)).bind fun _ =>
      allows_smallNumber.bind fun _ => allows_pure _
  · obtain rfl := Option.some.inj h
    exact (allows_elementRef types).bind fun _ => (allows_expect (by decide)).bind fun _ =>
      (allows_register registers).bind fun _ => (allows_expect (by decide)).bind fun _ =>
        allows_pure _
  · obtain rfl := Option.some.inj h
    exact allows_pure _
  · cases h

section Nested

variable {nested : Nested} (inner : ∀ registers, inside.Allows (nested registers))
include inner

theorem consumes_caseOf (registers : Registers) : Consumes (caseOf types nested registers) := by
  have content : inside.Allows (do
      let guarded ← guard types registers
      expect "\x7b"
      let acted ← nested guarded.2
      if ← acceptKeyword "yield" then
        let value ← register acted.2
        pure (⟨guarded.1, acted.1, some value⟩, acted.2)
      else pure (⟨guarded.1, acted.1, none⟩, acted.2) :
      Reader (Case (Body String) × Registers)) := by
    refine (allows_guard types registers).bind fun _ => (allows_expect (by decide)).bind fun _ =>
      (inner _).bind fun _ => (allows_acceptKeyword (by decide)).bind fun yields => ?_
    cases yields with
    | true => exact (allows_register _).bind fun _ => allows_pure _
    | false => exact allows_pure _
  refine consumes_after_keyword (by decide) (by decide) content ?_
  exact (consumes_of_not_reads (allows_unexpected _) not_reads_unexpected).bind fun _ => content

theorem inside_casesWithin (bound : Nat) (registers : Registers) :
    inside.Allows (casesWithin types nested bound registers) := by
  induction bound generalizing registers with
  | zero =>
    refine (allows_accept (by decide)).bind fun closed => ?_
    cases closed with
    | true => exact allows_pure _
    | false => exact allows_unexpected _
  | succ bound ih =>
    refine (allows_accept (by decide)).bind fun closed => ?_
    cases closed with
    | true => exact allows_pure _
    | false =>
      exact (consumes_caseOf types inner registers).stays.bind fun _ => (ih _).bind fun _ =>
        allows_pure _

theorem inside_assignment (registers : Registers) (result : Register) :
    inside.Allows (assignment types nested registers result) := by
  refine allows_identifier.bind fun keyword => ?_
  split
  · exact (allows_register _).bind fun _ => (allows_register _).list.bind fun _ => allows_pure _
  · exact (allows_register _).bind fun _ => (allows_expect (by decide)).bind fun _ =>
      (allows_unbounded (inside_casesWithin types inner · _)).bind fun _ => allows_pure _
  · split
    · exact (inside_operation types ‹_›).bind fun _ => allows_pure _
    · exact allows_fail _

theorem consumes_instruction (registers : Registers) :
    Consumes (instruction types nested registers) := by
  refine allows_skip.consuming fun _ => allows_peek?.consuming fun next => ?_
  split
  · exact (consumes_newRegister registers).bind fun _ => (allows_expect (by decide)).bind fun _ =>
      inside_assignment types inner _ _
  · refine consumes_identifier.bind fun keyword => ?_
    split
    · exact (allows_expect (by decide)).bind fun _ => (inner registers).bind fun _ => allows_pure _
    · exact allows_pure _
    · exact allows_fail _

end Nested

theorem inside_bodyWithin (bound : Nat) (registers : Registers) :
    inside.Allows (bodyWithin types bound registers) := by
  induction bound generalizing registers with
  | zero => exact (allows_expect (by decide)).bind fun _ => allows_pure _
  | succ bound ih =>
    refine (allows_accept (by decide)).bind fun closed => ?_
    cases closed with
    | true => exact allows_pure _
    | false =>
      refine allows_peek?.bind fun next => ?_
      split
      · exact allows_unexpected _
      · exact (consumes_instruction types ih registers).stays.bind fun _ => (ih _).bind fun _ =>
          allows_pure _

theorem inside_function (declarations : Declarations) :
    inside.Allows (function declarations) := by
  refine allows_identifier.bind fun name => ?_
  split
  · exact allows_raise (by simp)
  · exact (allows_items allows_parameters _).bind fun _ => (allows_expect (by decide)).bind fun _ =>
      allows_registerName.bind fun _ => (allows_expect (by decide)).bind fun _ =>
        (allows_unbounded (inside_bodyWithin _ · _)).bind fun _ =>
          (allows_lookup _ (by simp)).bind fun _ => allows_pure _

theorem consumes_declaration (declarations : Declarations) :
    Consumes (declaration declarations) := by
  refine consumes_identifier.bind fun keyword => ?_
  split
  · exact (allows_enumeration _).bind fun _ => allows_pure _
  · exact (allows_record _).bind fun _ => allows_pure _
  · exact (allows_interface _).bind fun _ => allows_pure _
  · exact (inside_function _).bind fun _ => allows_pure _
  · exact allows_fail _

theorem inside_declarationsWithin (bound : Nat) (declarations : Declarations) :
    inside.Allows (declarationsWithin bound declarations) := by
  induction bound generalizing declarations with
  | zero => exact allows_pure _
  | succ bound ih =>
    refine allows_skip.bind fun _ => allows_peek?.bind fun next => ?_
    split
    · exact allows_pure _
    · exact (consumes_declaration declarations).stays.bind fun _ => ih _

end Inside

end RegisterIR.Reading
