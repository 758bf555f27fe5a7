import RegisterIR.Proofs.Sequences
import RegisterIR.Reading.Program

/-! Where readers can go. A motion says what readers may leave of a text and where they may report
an error. Readers that meet neither quoted texts nor references keep to every motion that allows
blanks and plain characters, whatever else it says about the text. -/

namespace RegisterIR.Reading

variable {α β : Type}

/-- No comment, quoted text or reference to a function starts with the character. -/
def isPlain (c : Char) : Bool := c ≠ ';' && c ≠ '"' && c ≠ '@'

theorem ne_of_class {p : Char → Bool} {c d : Char} (h : p c = true) (outside : p d = false) :
    c ≠ d := by
  rintro rfl
  exact absurd h (Bool.eq_false_iff.mp outside)

theorem isPlain_of_isWordChar {c : Char} (h : isWordChar c = true) : isPlain c = true := by
  have comment : c ≠ ';' := ne_of_class h (by decide)
  have quote : c ≠ '"' := ne_of_class h (by decide)
  have reference : c ≠ '@' := ne_of_class h (by decide)
  simp [isPlain, comment, quote, reference]

theorem isWordChar_of_isHexDigit {c : Char} (h : Text.isHexDigit c = true) :
    isWordChar c = true := by
  simp only [Text.isHexDigit, Bool.or_eq_true, Bool.and_eq_true, decide_eq_true_eq] at h
  rcases h with (digit | ⟨first, last⟩) | ⟨first, last⟩
  · exact isWordChar_of_isDigit digit
  · have bound : c ≤ 'z' := Char.le_trans last (by decide)
    have lower : c.isLower = true :=
      Bool.and_eq_true_iff.mpr ⟨decide_eq_true first, decide_eq_true bound⟩
    have alpha : c.isAlpha = true := Bool.or_eq_true_iff.mpr (.inr lower)
    exact isWordChar_of_isAlpha (by simp [alpha])
  · have bound : c ≤ 'Z' := Char.le_trans last (by decide)
    have upper : c.isUpper = true := decide_eq_true ⟨first, bound⟩
    have alpha : c.isAlpha = true := Bool.or_eq_true_iff.mpr (.inl upper)
    exact isWordChar_of_isAlpha (by simp [alpha])

theorem acceptKeyword_eq (keyword : String) (text : List Char) : acceptKeyword keyword text =
    if keyword.toList.isPrefixOf (skipFrom false text) &&
        !((skipFrom false text).drop keyword.length).head?.any isWordChar then
      .ok (true, (skipFrom false text).drop keyword.length)
    else .ok (false, skipFrom false text) := rfl

theorem of_reads_acceptKeyword {keyword : String} {text rest : List Char} {found : Bool}
    (read : Reads (acceptKeyword keyword) text found rest) :
    skipFrom false text = (if found then keyword.toList else []) ++ rest := by
  rw [Reads, acceptKeyword_eq] at read
  split at read
  · rename_i starts
    obtain ⟨rfl, rfl⟩ := Prod.mk.inj (Except.ok.inj read)
    obtain ⟨tail, whole⟩ := List.isPrefixOf_iff_prefix.mp (Bool.and_eq_true_iff.mp starts).1
    rw [← whole, ← String.length_toList, List.drop_left, if_pos rfl]
  · obtain ⟨rfl, rfl⟩ := Prod.mk.inj (Except.ok.inj read)
    rfl

/-- Where readers may go: what they may leave of a text, and where they may report an error. -/
structure Motion where
  reads : List Char → List Char → Prop
  stops : List Char → List Char → Prop
  refl : ∀ text, reads text text
  trans : ∀ {text between rest}, reads text between → reads between rest → reads text rest
  here : ∀ text, stops text text
  later : ∀ {text between place}, reads text between → stops between place → stops text place
  blanks : ∀ text, reads text (skipFrom false text)
  plain : ∀ {shown : List Char}, (∀ c ∈ shown, isPlain c = true) →
    ∀ rest, reads (shown ++ rest) rest

namespace Motion

structure Allows (motion : Motion) (reader : Reader α) : Prop where
  reads : ∀ {text value rest}, Reads reader text value rest → motion.reads text rest
  stops : ∀ {text place reason}, reader text = .error (.malformed place reason) →
    motion.stops text place

variable {motion : Motion}

section Basic

theorem allows_pure (value : α) : motion.Allows (pure value) where
  reads read := by
    obtain ⟨_, rfl⟩ := reads_pure.mp read
    exact motion.refl _
  stops failed := by cases failed

theorem allows_fail (reason : Malformation) : motion.Allows (fail reason : Reader α) where
  reads read := absurd read not_reads_fail
  stops failed := by
    cases failed
    exact motion.here _

theorem allows_unexpected (what : String) : motion.Allows (unexpected what : Reader α) where
  reads read := absurd read not_reads_unexpected
  stops failed := by
    cases failed
    exact motion.here _

theorem allows_raise {error : ParseError (List Char)}
    (placeless : ∀ place reason, error ≠ .malformed place reason) :
    motion.Allows (raise error : Reader α) where
  reads read := absurd read not_reads_raise
  stops failed := absurd (Except.error.inj failed) (placeless _ _)

theorem Allows.bind {reader : Reader α} {next : α → Reader β} (first : motion.Allows reader)
    (later : ∀ value, motion.Allows (next value)) : motion.Allows (reader >>= next) where
  reads read := by
    obtain ⟨value, between, read, read'⟩ := reads_bind.mp read
    exact motion.trans (first.reads read) ((later value).reads read')
  stops failed := by
    rcases bind_eq_error_iff.mp failed with failed | ⟨⟨value, between⟩, read, failed⟩
    · exact first.stops failed
    · exact motion.later (first.reads read) ((later value).stops failed)

theorem allows_unbounded {within : Nat → Reader α} (h : ∀ bound, motion.Allows (within bound)) :
    motion.Allows fun text => within text.length text where
  reads {text _ _} read := (h text.length).reads read
  stops {text _ _} failed := (h text.length).stops failed

theorem allows_skip : motion.Allows skip where
  reads read := by
    rw [reads_skip.mp read]
    exact motion.blanks _
  stops failed := by cases failed

theorem allows_peek? : motion.Allows peek? where
  reads read := by
    obtain ⟨_, rfl⟩ := reads_peek?.mp read
    exact motion.refl _
  stops failed := by cases failed

theorem reads_dropWhile {p : Char → Bool} (plain : ∀ c, p c = true → isPlain c = true)
    (text : List Char) : motion.reads text (text.dropWhile p) := by
  have shown (c : Char) (member : c ∈ text.takeWhile p) : isPlain c = true :=
    plain c (List.all_eq_true.mp List.all_takeWhile c member)
  have taken := motion.plain shown (text.dropWhile p)
  rwa [List.takeWhile_append_dropWhile] at taken

theorem allows_accept_of {token : String}
    (passes : ∀ rest, motion.reads (token.toList ++ rest) rest) :
    motion.Allows (accept token) where
  reads {text found rest} read := by
    have skipped := motion.blanks text
    cases found with
    | true =>
      rw [reads_accept_true.mp read] at skipped
      exact motion.trans skipped (passes rest)
    | false =>
      rw [(reads_accept_false.mp read).2]
      exact skipped
  stops failed := by
    rw [accept_eq] at failed
    split at failed <;> cases failed

theorem allows_accept {token : String} (plain : token.toList.all isPlain = true) :
    motion.Allows (accept token) := allows_accept_of (motion.plain (List.all_eq_true.mp plain))

theorem allows_expect_of {token : String}
    (passes : ∀ rest, motion.reads (token.toList ++ rest) rest) :
    motion.Allows (expect token) := by
  refine (allows_accept_of passes).bind fun found => ?_
  cases found with
  | true => exact allows_pure ()
  | false => exact allows_unexpected _

theorem allows_expect {token : String} (plain : token.toList.all isPlain = true) :
    motion.Allows (expect token) := allows_expect_of (motion.plain (List.all_eq_true.mp plain))

theorem allows_word : motion.Allows word where
  reads {text value rest} read := by
    obtain ⟨_, rfl⟩ := Prod.mk.inj (Except.ok.inj read)
    exact reads_dropWhile (fun c => isPlain_of_isWordChar) text
  stops failed := by cases failed

theorem allows_identifier : motion.Allows identifier := by
  refine allows_skip.bind fun _ => allows_peek?.bind fun next => ?_
  cases next with
  | none => exact allows_unexpected _
  | some c =>
    dsimp only
    split
    · exact allows_word
    · exact allows_unexpected _

theorem allows_acceptKeyword {keyword : String} (plain : keyword.toList.all isPlain = true) :
    motion.Allows (acceptKeyword keyword) where
  reads {text found rest} read := by
    have skipped := motion.blanks text
    rw [of_reads_acceptKeyword read] at skipped
    cases found with
    | true => exact motion.trans skipped (motion.plain (List.all_eq_true.mp plain) rest)
    | false => exact skipped
  stops failed := by
    rw [acceptKeyword_eq] at failed
    split at failed <;> cases failed

theorem allows_digits {base : Nat} {isDigit : Char → Bool}
    (plain : ∀ c, isDigit c = true → isPlain c = true) : motion.Allows (digits base isDigit) where
  reads {text value rest} read := by
    rw [Reads, digits] at read
    split at read
    · cases read
    · dsimp only at read
      split at read
      · obtain ⟨_, rfl⟩ := Prod.mk.inj (Except.ok.inj read)
        exact reads_dropWhile plain text
      · cases read
  stops {text place reason} failed := by
    rw [digits] at failed
    split at failed
    · cases failed
      exact motion.here text
    · dsimp only at failed
      split at failed
      · cases failed
      · cases failed
        exact motion.here text

theorem allows_number : motion.Allows number := by
  have decimal : motion.Allows (digits 10 Char.isDigit) :=
    allows_digits fun c digit => isPlain_of_isWordChar (isWordChar_of_isDigit digit)
  have hexadecimal : motion.Allows (digits 16 Text.isHexDigit) :=
    allows_digits fun c digit => isPlain_of_isWordChar (isWordChar_of_isHexDigit digit)
  have marked (x : Char) (plain : isPlain x = true) (rest : List Char) :
      motion.reads ('0' :: x :: rest) rest := by
    have both : ∀ c ∈ ['0', x], isPlain c = true := by simpa [plain] using by decide
    exact motion.plain both rest
  refine allows_skip.bind fun _ => ⟨fun read => ?_, fun failed => ?_⟩
  · dsimp only [Reads] at read
    split at read
    · exact motion.trans (marked 'x' (by decide) _) (hexadecimal.reads read)
    · exact motion.trans (marked 'X' (by decide) _) (hexadecimal.reads read)
    · exact decimal.reads read
  · split at failed
    · exact motion.later (marked 'x' (by decide) _) (hexadecimal.stops failed)
    · exact motion.later (marked 'X' (by decide) _) (hexadecimal.stops failed)
    · exact decimal.stops failed

theorem allows_smallNumber : motion.Allows smallNumber := by
  refine allows_number.bind fun value => ?_
  split
  · exact allows_pure _
  · exact allows_fail _

theorem allows_registerName : motion.Allows registerName := by
  refine (allows_expect (by decide)).bind fun _ => allows_word.bind fun name => ?_
  split
  · exact allows_unexpected _
  · exact allows_pure _

end Basic

section Sequences

variable {step : β → Reader β} (each : ∀ state, motion.Allows (step state))
include each

theorem allows_itemsWithin (bound : Nat) (start : β) :
    motion.Allows (itemsWithin step bound start) := by
  induction bound generalizing start with
  | zero =>
    exact (each start).bind fun _ => (allows_expect (by decide)).bind fun _ => allows_pure _
  | succ bound ih =>
    refine (each start).bind fun items => (allows_accept (by decide)).bind fun closed => ?_
    cases closed with
    | true => exact allows_pure _
    | false => exact (allows_expect (by decide)).bind fun _ => ih items

theorem allows_items (start : β) : motion.Allows (items step start) := by
  refine (allows_expect (by decide)).bind fun _ => (allows_accept (by decide)).bind fun closed => ?_
  cases closed with
  | true => exact allows_pure _
  | false => exact allows_unbounded (allows_itemsWithin each · start)

theorem allows_fieldsWithin (bound : Nat) (start : β) :
    motion.Allows (fieldsWithin step bound start) := by
  have last (fields : β) : motion.Allows (do
      expect "\x7d"
      pure fields) := (allows_expect (by decide)).bind fun _ => allows_pure _
  induction bound generalizing start with
  | zero =>
    refine (allows_accept (by decide)).bind fun closed => ?_
    cases closed with
    | true => exact allows_pure _
    | false => exact (each start).bind last
  | succ bound ih =>
    refine (allows_accept (by decide)).bind fun closed => ?_
    cases closed with
    | true => exact allows_pure _
    | false =>
      refine (each start).bind fun fields => (allows_accept (by decide)).bind fun comma => ?_
      cases comma with
      | true => exact ih fields
      | false => exact last fields

theorem allows_fields (start : β) : motion.Allows (fields step start) :=
  (allows_expect (by decide)).bind fun _ => allows_unbounded (allows_fieldsWithin each · start)

end Sequences

theorem Allows.list {reader : Reader α} (h : motion.Allows reader) : motion.Allows (list reader) :=
  allows_items (fun _ => h.bind fun _ => allows_pure _) []

section Types

variable (types : TypeTable)

theorem allows_lookup (position : Option Nat) {error : ParseError (List Char)}
    (placeless : ∀ place reason, error ≠ .malformed place reason) :
    motion.Allows (match position with
      | some id => pure id
      | none => raise error : Reader Nat) := by
  cases position with
  | none => exact allows_raise placeless
  | some id => exact allows_pure _

theorem allows_elementOf (enumeration : String) :
    motion.Allows (elementOf types enumeration) := by
  refine (allows_expect (by decide)).bind fun _ => allows_identifier.bind fun element => ?_
  rw [findElement]
  split
  · exact allows_raise (by simp)
  · split
    · exact allows_raise (by simp)
    · exact allows_pure _

theorem allows_elementRef : motion.Allows (elementRef types) :=
  allows_identifier.bind fun enumeration => allows_elementOf types enumeration

theorem allows_integerRange : motion.Allows integerRange := by
  refine allows_number.bind fun minimum => (allows_expect (by decide)).bind fun _ =>
    allows_number.bind fun maximum => ?_
  split
  · exact allows_pure _
  · exact allows_fail _

theorem allows_typeRound {inner : Reader ValueType} (h : motion.Allows inner) :
    motion.Allows (typeRound types inner) := by
  refine allows_identifier.bind fun word => ?_
  split
  · exact allows_pure _
  · exact allows_pure _
  · exact allows_pure _
  · exact allows_integerRange.bind fun _ => allows_pure _
  · exact allows_identifier.bind fun _ => (allows_lookup _ (by simp)).bind fun _ => allows_pure _
  · exact allows_identifier.bind fun _ => (allows_lookup _ (by simp)).bind fun _ => allows_pure _
  · exact allows_identifier.bind fun _ => (allows_lookup _ (by simp)).bind fun _ => allows_pure _
  · exact (allows_elementRef types).bind fun _ => allows_pure _
  · exact h.list.bind fun _ => (allows_expect (by decide)).bind fun _ => h.bind fun _ =>
      allows_pure _
  · exact h.list.bind fun _ => allows_pure _
  · exact allows_fail _

theorem allows_typeWithin (bound : Nat) : motion.Allows (typeWithin types bound) := by
  induction bound with
  | zero => exact allows_skip.bind fun _ => allows_unexpected _
  | succ bound ih => exact allows_typeRound types ih

theorem allows_type : motion.Allows (type types) := allows_unbounded (allows_typeWithin types)

end Types

section Declarations

variable (types : TypeTable)

theorem allows_register (registers : Registers) : motion.Allows (register registers) :=
  allows_registerName.bind fun _ => allows_lookup _ (by simp)

theorem allows_newRegister (registers : Registers) : motion.Allows (newRegister registers) := by
  refine allows_registerName.bind fun name => ?_
  rw [define]
  split
  · exact allows_raise (by simp)
  · exact allows_pure _

theorem allows_guard (registers : Registers) : motion.Allows (guard types registers) := by
  refine allows_skip.bind fun _ => allows_peek?.bind fun next => ?_
  split
  · exact (allows_register registers).bind fun _ => allows_pure _
  · exact (allows_elementRef types).bind fun _ => (allows_expect (by decide)).bind fun _ =>
      (allows_newRegister registers).bind fun _ => (allows_expect (by decide)).bind fun _ =>
        allows_pure _

theorem allows_parameters (registers : Registers) :
    motion.Allows (do
      let (_, registers) ← newRegister registers
      pure registers) :=
  (allows_newRegister registers).bind fun _ => allows_pure _

theorem allows_element (enumeration : String) (elements : List Element) :
    motion.Allows (element types enumeration elements) := by
  refine allows_identifier.bind fun name => ?_
  split
  · exact allows_fail _
  · refine (allows_accept (by decide)).bind fun opened => ?_
    cases opened with
    | true =>
      exact (allows_type types).bind fun _ => (allows_expect (by decide)).bind fun _ =>
        allows_pure _
    | false => exact allows_pure _

theorem allows_enumeration : motion.Allows (enumeration types) := by
  refine allows_identifier.bind fun name => ?_
  split
  · exact allows_raise (by simp)
  · exact (allows_fields (allows_element types name) []).bind fun _ => allows_pure _

theorem allows_member (members : List Member) : motion.Allows (member types members) :=
  allows_identifier.bind fun _ => (allows_expect (by decide)).bind fun _ =>
    (allows_type types).bind fun _ => allows_pure _

theorem allows_record : motion.Allows (record types) := by
  refine allows_identifier.bind fun name => ?_
  split
  · exact allows_raise (by simp)
  · exact (allows_fields (allows_member types) []).bind fun _ => allows_pure _

theorem allows_interface : motion.Allows (interface types) := by
  refine allows_identifier.bind fun name => ?_
  split
  · exact allows_raise (by simp)
  · exact allows_pure _

end Declarations

end Motion

end RegisterIR.Reading
