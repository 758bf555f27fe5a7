import RegisterIR.Proofs.Mentions
import RegisterIR.Proofs.ReadingLoops

/-! Blanks and comments do not matter between tokens. Two texts are alike if they have the same
characters but for blanks and comments where tokens are separated, and alike texts are read alike:
what one reader reads from the first, another reads from the second, and alike texts are left. -/

namespace RegisterIR.Reading

open Motion

variable {α β : Type} {mode mode' : Mode} {text text' rest : List Char}

section Relation

/-- No token starts here: the text is at its end, at a blank or at a comment. -/
def Open (text : List Char) : Prop := ∀ c ∈ text.head?, isSolid c = false

def Mode.Verbatim (mode : Mode) : Prop := mode = .quoted ∨ mode = .escaped

instance (mode : Mode) : Decidable mode.Verbatim := inferInstanceAs (Decidable (_ ∨ _))

/-- The texts are the same but for the gaps between tokens, where both have some. In a quoted text
every character counts, unless the quoted text is never closed. -/
inductive Alike : Mode → List Char → List Char → Prop
  | ended {mode : Mode} : Alike mode [] []
  | gap {mode : Mode} {text text' : List Char} : mode.Spaced → Open text → Open text' →
      Alike mode (skipFrom false text) (skipFrom false text') → Alike mode text text'
  | same {mode : Mode} {c : Char} {text text' : List Char} : (mode.Spaced → isSolid c = true) →
      Alike (mode.next c) text text' → Alike mode (c :: text) (c :: text')
  | unclosed {mode : Mode} {text text' : List Char} : mode.Verbatim → '"' ∉ text → '"' ∉ text' →
      Alike mode text text'

theorem Alike.symm (h : Alike mode text text') : Alike mode text' text := by
  induction h with
  | ended => exact .ended
  | gap spaced here there _ ih => exact .gap spaced there here ih
  | same solid _ ih => exact .same solid ih
  | unclosed verbatim here there => exact .unclosed verbatim there here

theorem Mode.Verbatim.not_spaced (h : mode.Verbatim) : ¬ mode.Spaced := by
  intro spaced
  have comment := spaced.comment
  rcases h with rfl | rfl <;> exact absurd comment (by decide)

theorem Open.not_solid {c : Char} (h : Open (c :: text)) : isSolid c ≠ true :=
  Bool.eq_false_iff.mp (h c rfl)

theorem Open.eq_nil (h : Open text) (settled : skipFrom false text = text) : text = [] := by
  cases text with
  | nil => rfl
  | cons c text =>
    have shorter : (skipFrom false (c :: text)).length ≤ text.length := by
      rw [skipFrom]
      split
      · rename_i comment
        cases comment
      · split
        · exact length_skipFrom_le true text
        · split
          · exact length_skipFrom_le false text
          · rename_i semicolon blank
            refine absurd ?_ h.not_solid
            simp [isSolid, semicolon, blank]
    rw [settled, List.length_cons] at shorter
    omega

theorem Alike.skip (spaced : mode.Spaced) (h : Alike mode text text') :
    Alike mode (skipFrom false text) (skipFrom false text') := by
  cases h with
  | ended => exact .ended
  | gap _ _ _ skipped => exact skipped
  | same solid rest =>
    rw [skipFrom_solid (solid spaced), skipFrom_solid (solid spaced)]
    exact .same solid rest
  | unclosed verbatim => exact absurd spaced verbatim.not_spaced

theorem Alike.of_cons {c : Char} (spaced : mode.Spaced) (solid : isSolid c = true)
    (h : Alike mode (c :: text) text') :
    ∃ rest, text' = c :: rest ∧ Alike (mode.next c) text rest := by
  cases h with
  | gap _ here => exact absurd solid here.not_solid
  | same _ rest => exact ⟨_, rfl, rest⟩
  | unclosed verbatim => exact absurd spaced verbatim.not_spaced

theorem Alike.of_append {shown : List Char} (spaced : mode.Spaced)
    (token : ∀ c ∈ shown, isSolid c = true ∧ mode.next c = mode)
    (h : Alike mode (shown ++ text) text') :
    ∃ rest, text' = shown ++ rest ∧ Alike mode text rest := by
  induction shown generalizing text' with
  | nil => exact ⟨text', rfl, h⟩
  | cons c shown ih =>
    obtain ⟨first, others⟩ := List.forall_mem_cons.mp token
    obtain ⟨tail, rfl, alike⟩ := h.of_cons spaced first.1
    rw [first.2] at alike
    obtain ⟨rest, rfl, left⟩ := ih others alike
    exact ⟨rest, rfl, left⟩

theorem Alike.takeWhile {p : Char → Bool} (spaced : mode.Spaced)
    (token : ∀ c, p c = true → isSolid c = true ∧ mode.next c = mode)
    (h : Alike mode text text') :
    text.takeWhile p = text'.takeWhile p ∧
      Alike mode (text.dropWhile p) (text'.dropWhile p) := by
  have stopped {text : List Char} (h : Open text) :
      text.takeWhile p = [] ∧ text.dropWhile p = text := by
    cases text with
    | nil => exact ⟨rfl, rfl⟩
    | cons c text =>
      have other : ¬ p c = true := fun inside => h.not_solid (token c inside).1
      exact ⟨List.takeWhile_cons_of_neg other, List.dropWhile_cons_of_neg other⟩
  induction h with
  | ended => exact ⟨rfl, .ended⟩
  | gap _ here there alike =>
    rw [(stopped here).1, (stopped there).1, (stopped here).2, (stopped there).2]
    exact ⟨rfl, .gap spaced here there alike⟩
  | @same mode c text text' solid alike ih =>
    by_cases inside : p c = true
    · have stays := (token c inside).2
      rw [stays] at ih
      obtain ⟨taken, left⟩ := ih spaced token
      rw [List.takeWhile_cons_of_pos inside, List.takeWhile_cons_of_pos inside,
        List.dropWhile_cons_of_pos inside, List.dropWhile_cons_of_pos inside, taken]
      exact ⟨rfl, left⟩
    · rw [List.takeWhile_cons_of_neg inside, List.takeWhile_cons_of_neg inside,
        List.dropWhile_cons_of_neg inside, List.dropWhile_cons_of_neg inside]
      exact ⟨rfl, .same solid alike⟩
  | unclosed verbatim => exact absurd spaced verbatim.not_spaced

end Relation

section Following

/-- What the first reader reads from one text, the second reads from the other, and what is left of
the texts is related again. -/
structure Follows (before : List Char → List Char → Prop) (reader reader' : Reader α)
    (after : α → List Char → List Char → Prop) : Prop where
  reads : ∀ {text text' rest : List Char} {value : α}, before text text' →
    Reads reader text value rest → ∃ rest', Reads reader' text' value rest' ∧ after value rest rest'

structure Level (text text' : List Char) : Prop where
  alike : Alike .code text text'
  settled : skipFrom false text = text
  settled' : skipFrom false text' = text'

abbrev Keeps (reader reader' : Reader α) : Prop :=
  Follows (Alike .code) reader reader' fun _ => Alike .code

variable {before before' between : List Char → List Char → Prop}
  {after after' : α → List Char → List Char → Prop} {last : β → List Char → List Char → Prop}
  {reader reader' : Reader α}

theorem follows_pure (value : α) : Follows before (pure value) (pure value) fun _ => before where
  reads related read := by
    obtain ⟨rfl, rfl⟩ := reads_pure.mp read
    exact ⟨_, reads_pure.mpr ⟨rfl, rfl⟩, related⟩

theorem follows_of_not_reads (h : ∀ {text value rest}, ¬ Reads reader text value rest) :
    Follows before reader reader' after := ⟨fun _ read => absurd read h⟩

theorem Follows.bind {next next' : α → Reader β} (first : Follows before reader reader' after)
    (later : ∀ value, Follows (after value) (next value) (next' value) last) :
    Follows before (reader >>= next) (reader' >>= next') last where
  reads related read := by
    obtain ⟨value, _, read, read'⟩ := reads_bind.mp read
    obtain ⟨_, follows, middle⟩ := first.reads related read
    obtain ⟨rest, follows', end'⟩ := (later value).reads middle read'
    exact ⟨rest, reads_bind.mpr ⟨value, _, follows, follows'⟩, end'⟩

theorem Follows.from (h : Follows before reader reader' after)
    (weaker : ∀ {text text'}, before' text text' → before text text') :
    Follows before' reader reader' after := ⟨fun related => h.reads (weaker related)⟩

theorem Follows.to (h : Follows before reader reader' after)
    (weaker : ∀ {value text text'}, after value text text' → after' value text text') :
    Follows before reader reader' after' where
  reads related read := by
    obtain ⟨rest, follows, left⟩ := h.reads related read
    exact ⟨rest, follows, weaker left⟩

theorem follows_unbounded {within : Nat → Reader α}
    (h : ∀ bound, Follows before (within bound) reader' after) :
    Follows before (fun text => within text.length text) reader' after :=
  ⟨fun {text _ _ _} related read => (h text.length).reads related read⟩

theorem Follows.leveled (h : Follows (Alike .code) reader reader' after) :
    Follows Level reader reader' after := h.from Level.alike

end Following

section Tokens

theorem follows_skip_of_skipped :
    Follows (fun text text' => Alike .code (skipFrom false text) (skipFrom false text')) skip skip
      fun _ => Level where
  reads {text text' rest value} alike read := by
    rw [reads_skip.mp read]
    exact ⟨_, reads_skip.mpr rfl, ⟨alike, skipFrom_skipFrom _ _, skipFrom_skipFrom _ _⟩⟩

theorem follows_skip : Follows (Alike .code) skip skip fun _ => Level :=
  follows_skip_of_skipped.from fun alike => alike.skip spaced_code

theorem Level.head?_eq (h : Level text text') : text.head? = text'.head? := by
  obtain ⟨alike, settled, settled'⟩ := h
  cases alike with
  | ended => rfl
  | gap _ here there => rw [here.eq_nil settled, there.eq_nil settled']
  | same => rfl
  | unclosed verbatim => exact absurd spaced_code verbatim.not_spaced

theorem follows_peek? : Follows Level peek? peek? fun _ => Level where
  reads level read := by
    obtain ⟨rfl, rfl⟩ := reads_peek?.mp read
    exact ⟨_, reads_peek?.mpr ⟨level.head?_eq, rfl⟩, level⟩

theorem follows_peeking {next next' : Option Char → Reader α}
    (h : ∀ first, Keeps (next first) (next' first)) :
    Keeps (do
      skip
      let first ← peek?
      next first) (do
      skip
      let first ← peek?
      next' first) :=
  follows_skip.bind fun _ => follows_peek?.bind fun first => (h first).leveled

structure InBoth (mode : Mode) (token : List Char) (mode' : Mode) : Prop where
  spaced : mode.Spaced
  shared : ∀ {rest text' : List Char}, Alike mode (token ++ rest) text' →
    ∃ rest', text' = token ++ rest' ∧ Alike mode' rest rest'

theorem inBoth_single {c : Char} (spaced : mode.Spaced) (solid : isSolid c = true)
    (next : mode.next c = mode') : InBoth mode [c] mode' where
  spaced := spaced
  shared alike := by
    rw [← next]
    exact alike.of_cons spaced solid

def isTokenChar (c : Char) : Bool := isSolid c && c ≠ '"'

theorem next_code_of_isTokenChar {c : Char} (h : isTokenChar c = true) :
    isSolid c = true ∧ Mode.code.next c = .code := by
  simp only [isTokenChar, Bool.and_eq_true, decide_eq_true_eq] at h
  obtain ⟨solid, quote⟩ := h
  have semicolon : c ≠ ';' := ne_of_class solid (by decide)
  exact ⟨solid, by rw [Mode.next, if_neg quote, if_neg semicolon]⟩

theorem inBoth_code {token : List Char} (h : token.all isTokenChar = true) :
    InBoth .code token .code where
  spaced := spaced_code
  shared alike := alike.of_append spaced_code fun c member =>
    next_code_of_isTokenChar (List.all_eq_true.mp h c member)

theorem InBoth.prefix_iff {token : List Char} (h : InBoth mode token mode')
    (alike : Alike mode text text') : token <+: text ↔ token <+: text' := by
  constructor
  · rintro ⟨rest, rfl⟩
    obtain ⟨rest', rfl, _⟩ := h.shared alike
    exact List.prefix_append _ _
  · rintro ⟨rest, rfl⟩
    obtain ⟨rest', rfl, _⟩ := h.shared alike.symm
    exact List.prefix_append _ _

theorem follows_expect_of {token : String} (h : InBoth mode token.toList mode') :
    Follows (Alike mode) (expect token) (expect token) fun _ => Alike mode' where
  reads {text text' rest value} alike read := by
    have skipped := alike.skip h.spaced
    rw [reads_expect.mp read] at skipped
    obtain ⟨rest', shown, left⟩ := h.shared skipped
    exact ⟨rest', reads_expect.mpr shown, left⟩

theorem keeps_expect {token : String} (h : token.toList.all isTokenChar = true) :
    Keeps (expect token) (expect token) := follows_expect_of (inBoth_code h)

/-- How alike texts are left after a token was looked for: if it was not there, then at the next
token. -/
def afterAccept : Bool → List Char → List Char → Prop
  | true => Alike .code
  | false => Level

theorem follows_accept {token : String} (h : token.toList.all isTokenChar = true) :
    Follows (Alike .code) (accept token) (accept token) afterAccept where
  reads {text text' rest found} alike read := by
    have skipped := alike.skip spaced_code
    cases found with
    | true =>
      rw [reads_accept_true.mp read] at skipped
      obtain ⟨rest', shown, left⟩ := (inBoth_code h).shared skipped
      exact ⟨rest', reads_accept_true.mpr shown, left⟩
    | false =>
      obtain ⟨other, rfl⟩ := reads_accept_false.mp read
      rw [(inBoth_code h).prefix_iff skipped] at other
      exact ⟨_, reads_accept_false.mpr ⟨other, rfl⟩,
        ⟨skipped, skipFrom_skipFrom _ _, skipFrom_skipFrom _ _⟩⟩

theorem keeps_accept {token : String} (h : token.toList.all isTokenChar = true) :
    Keeps (accept token) (accept token) := by
  refine (follows_accept h).to fun {found text text'} left => ?_
  cases found with
  | true => exact left
  | false => exact left.alike

theorem isTokenChar_of_isWordChar {c : Char} (h : isWordChar c = true) : isTokenChar c = true := by
  have quote : c ≠ '"' := ne_of_class h (by decide)
  simp [isTokenChar, isSolid_of_isWordChar h, quote]

theorem Alike.takeWhile_code {p : Char → Bool} (word : ∀ c, p c = true → isWordChar c = true)
    (h : Alike .code text text') : text.takeWhile p = text'.takeWhile p ∧
      Alike .code (text.dropWhile p) (text'.dropWhile p) :=
  h.takeWhile spaced_code fun c inside =>
    next_code_of_isTokenChar (isTokenChar_of_isWordChar (word c inside))

theorem keeps_word : Keeps word word where
  reads {text text' rest name} alike read := by
    obtain ⟨rfl, rfl⟩ := Prod.mk.inj (Except.ok.inj read)
    obtain ⟨taken, left⟩ := alike.takeWhile_code fun c word => word
    rw [taken]
    exact ⟨_, rfl, left⟩

theorem keeps_identifier : Keeps identifier identifier := by
  refine follows_peeking fun first => ?_
  cases first with
  | none => exact follows_of_not_reads not_reads_unexpected
  | some c =>
    dsimp only
    split
    · exact keeps_word
    · exact follows_of_not_reads not_reads_unexpected

theorem ends_iff_takeWhile : Ends rest ↔ rest.takeWhile isWordChar = [] := by
  cases rest with
  | nil => simp [Ends]
  | cons c rest => simp [Ends, List.takeWhile_cons]

theorem Alike.ends (h : Alike .code text text') (ends : Ends text) : Ends text' := by
  rw [ends_iff_takeWhile] at ends ⊢
  rw [← (h.takeWhile_code fun c word => word).1, ends]

theorem Alike.keyword {keyword : String} (word : keyword.toList.all isTokenChar = true)
    (h : Alike .code text text') (read : Reads (acceptKeyword keyword) text true rest) :
    ∃ rest', Reads (acceptKeyword keyword) text' true rest' ∧ Alike .code rest rest' := by
  have ends : Ends rest := by
    rw [Reads, acceptKeyword_eq] at read
    split at read
    · rename_i starts
      obtain ⟨_, rfl⟩ := Prod.mk.inj (Except.ok.inj read)
      have stop := (Bool.and_eq_true_iff.mp starts).2
      intro c first
      simpa [Option.mem_def.mp first] using stop
    · cases read
  have skipped := h.skip spaced_code
  rw [of_reads_acceptKeyword read, if_pos rfl] at skipped
  obtain ⟨rest', shown, left⟩ := (inBoth_code word).shared skipped
  exact ⟨rest', reads_acceptKeyword_true (left.ends ends) shown, left⟩

theorem exists_reads_acceptKeyword (keyword : String) (text : List Char) :
    ∃ found rest, Reads (acceptKeyword keyword) text found rest := by
  by_cases starts : (keyword.toList.isPrefixOf (skipFrom false text) &&
      !((skipFrom false text).drop keyword.length).head?.any isWordChar) = true
  · exact ⟨true, _, by rw [Reads, acceptKeyword_eq, if_pos starts]⟩
  · exact ⟨false, _, by rw [Reads, acceptKeyword_eq, if_neg starts]⟩

theorem keeps_acceptKeyword {keyword : String} (word : keyword.toList.all isTokenChar = true) :
    Keeps (acceptKeyword keyword) (acceptKeyword keyword) where
  reads {text text' rest found} alike read := by
    cases found with
    | true => exact alike.keyword word read
    | false =>
      obtain ⟨found', rest', read'⟩ := exists_reads_acceptKeyword keyword text'
      cases found' with
      | true =>
        -- The keyword would be in the first text as well.
        obtain ⟨_, other, _⟩ := alike.symm.keyword word read'
        cases read.symm.trans other
      | false =>
        have here : skipFrom false text = rest := of_reads_acceptKeyword read
        have there : skipFrom false text' = rest' := of_reads_acceptKeyword read'
        exact ⟨rest', read', here ▸ there ▸ alike.skip spaced_code⟩

theorem reads_digits_iff {base value : Nat} {isDigit : Char → Bool} :
    Reads (digits base isDigit) text value rest ↔ text.takeWhile isDigit ≠ [] ∧
      value = Text.ofDigits base (text.takeWhile isDigit) ∧ value ≤ maxLong ∧
        rest = text.dropWhile isDigit := by
  rw [Reads, digits]
  split
  · rename_i none
    simp [none]
  · rename_i taken some
    dsimp only
    split
    · rename_i fits
      simp only [Except.ok.injEq, Prod.mk.injEq]
      constructor
      · rintro ⟨rfl, rfl⟩
        exact ⟨some, rfl, fits, rfl⟩
      · rintro ⟨_, rfl, _, rfl⟩
        exact ⟨rfl, rfl⟩
    · rename_i large
      simp only [reduceCtorEq, false_iff]
      rintro ⟨_, rfl, fits, _⟩
      exact large fits

theorem keeps_digits {base : Nat} {isDigit : Char → Bool}
    (word : ∀ c, isDigit c = true → isWordChar c = true) :
    Keeps (digits base isDigit) (digits base isDigit) where
  reads {text text' rest value} alike read := by
    obtain ⟨taken, left⟩ := alike.takeWhile_code word
    obtain ⟨some, same, fits, rfl⟩ := reads_digits_iff.mp read
    rw [taken] at some same
    exact ⟨_, reads_digits_iff.mpr ⟨some, same, fits, rfl⟩, left⟩

theorem Alike.marked {x : Char} (token : isTokenChar x = true)
    (h : Alike .code ('0' :: x :: text) text') :
    ∃ rest, text' = '0' :: x :: rest ∧ Alike .code text rest := by
  have both : ['0', x].all isTokenChar = true := by
    simp only [List.all_cons, List.all_nil, token]
    decide
  exact (inBoth_code both).shared h

theorem keeps_number : Keeps number number := by
  have decimal : Keeps (digits 10 Char.isDigit) (digits 10 Char.isDigit) :=
    keeps_digits fun c digit => isWordChar_of_isDigit digit
  have hexadecimal : Keeps (digits 16 Text.isHexDigit) (digits 16 Text.isHexDigit) :=
    keeps_digits fun c digit => isWordChar_of_isHexDigit digit
  refine follows_skip.bind fun _ => Follows.leveled ⟨fun {text text' rest value} alike read => ?_⟩
  dsimp only [Reads] at read ⊢
  split at read
  · obtain ⟨digits, rfl, left⟩ := alike.marked (by decide)
    exact hexadecimal.reads left read
  · obtain ⟨digits, rfl, left⟩ := alike.marked (by decide)
    exact hexadecimal.reads left read
  · rename_i lower upper
    obtain ⟨rest', read', left⟩ := decimal.reads alike read
    refine ⟨rest', ?_, left⟩
    split
    · obtain ⟨_, marked, _⟩ := alike.symm.marked (by decide)
      exact (lower _ marked).elim
    · obtain ⟨_, marked, _⟩ := alike.symm.marked (by decide)
      exact (upper _ marked).elim
    · exact read'

theorem keeps_smallNumber : Keeps smallNumber smallNumber := by
  refine keeps_number.bind fun value => ?_
  split
  · exact follows_pure _
  · exact follows_of_not_reads not_reads_fail

theorem keeps_signed {sign : String} (what : String) (h : sign.toList.all isTokenChar = true) :
    Keeps (do
      expect sign
      let name ← word
      if name.isEmpty then unexpected what else pure name) (do
      expect sign
      let name ← word
      if name.isEmpty then unexpected what else pure name) := by
  refine (keeps_expect h).bind fun _ => keeps_word.bind fun name => ?_
  split
  · exact follows_of_not_reads not_reads_unexpected
  · exact follows_pure _

theorem keeps_registerName : Keeps registerName registerName := keeps_signed _ (by decide)

theorem keeps_functionName : Keeps functionName functionName := keeps_signed _ (by decide)

end Tokens

section Quoted

theorem next_number_of_isHexDigit {c : Char} (h : Text.isHexDigit c = true) :
    isSolid c = true ∧ Mode.number.next c = .number := by
  have brace : c ≠ '\x7d' := ne_of_class h (by decide)
  have semicolon : c ≠ ';' := ne_of_class h (by decide)
  exact ⟨isSolid_of_isWordChar (isWordChar_of_isHexDigit h),
    by rw [Mode.next, if_neg brace, if_neg semicolon]⟩

theorem follows_hexDigits : Follows (Alike .number)
    (fun text => .ok (text.takeWhile Text.isHexDigit, text.dropWhile Text.isHexDigit))
    (fun text => .ok (text.takeWhile Text.isHexDigit, text.dropWhile Text.isHexDigit))
    fun _ => Alike .number where
  reads alike read := by
    obtain ⟨same, left⟩ := alike.takeWhile spaced_number fun c => next_number_of_isHexDigit
    obtain ⟨rfl, rfl⟩ := Prod.mk.inj (Except.ok.inj read)
    rw [same]
    exact ⟨_, rfl, left⟩

theorem follows_escapeByNumber :
    Follows (Alike .number) escapeByNumber escapeByNumber fun _ => Alike .quoted := by
  have opening : Follows (Alike .number) (expect "\x7b") (expect "\x7b") fun _ => Alike .number :=
    follows_expect_of (inBoth_single spaced_number (by decide) rfl)
  have closing : Follows (Alike .number) (expect "\x7d") (expect "\x7d") fun _ => Alike .quoted :=
    follows_expect_of (inBoth_single spaced_number (by decide) rfl)
  refine opening.bind fun _ => follows_hexDigits.bind fun taken => ?_
  dsimp only
  split
  · exact closing.bind fun _ => follows_pure _
  · exact follows_of_not_reads not_reads_fail

theorem of_reads_escape {c d : Char} (read : Reads escape (c :: text) d rest) :
    (c = 'u' ∧ Reads escapeByNumber text d rest) ∨
      (c ≠ 'u' ∧ rest = text ∧ ∀ text', Reads escape (c :: text') d text') := by
  unfold Reads escape at read
  split at read
  · rename_i nil
    cases nil
  iterate 5
    · rename_i shape
      obtain ⟨rfl, rfl⟩ := List.cons.inj shape
      obtain ⟨rfl, rfl⟩ := Prod.mk.inj (Except.ok.inj read)
      exact .inr ⟨by decide, rfl, fun text' => rfl⟩
  · rename_i shape
    obtain ⟨rfl, rfl⟩ := List.cons.inj shape
    exact .inl ⟨rfl, read⟩
  · cases read

theorem follows_escape :
    Follows (fun text text' => Alike .escaped text text' ∧ '"' ∈ text) escape escape
      fun _ => Alike .quoted where
  reads {text text' rest c} related read := by
    obtain ⟨alike, closed⟩ := related
    cases alike with
    | ended => cases closed
    | gap spaced => exact absurd spaced (Mode.Verbatim.not_spaced (.inr rfl))
    | unclosed _ here => exact absurd closed here
    | same _ alike =>
      rcases of_reads_escape read with ⟨rfl, read⟩ | ⟨other, rfl, reads⟩
      · exact follows_escapeByNumber.reads alike read
      · rw [Mode.next, if_neg other] at alike
        exact ⟨_, reads _, alike⟩

theorem quotedRound_of_ne (next : Reader (List Char)) {c : Char} (quote : c ≠ '"')
    (backslash : c ≠ '\\') (text : List Char) :
    quotedRound next (c :: text) = (next >>= fun content => pure (c :: content)) text := by
  simp only [quotedRound]

theorem quote_mem_of_reads {bound : Nat} {content : List Char}
    (read : Reads (quotedWithin bound) text content rest) : '"' ∈ text := by
  induction bound generalizing text content rest with
  | zero => exact absurd read not_reads_fail
  | succ bound ih =>
    have further {c : Char} {text content rest : List Char} (read : Reads (do
        let content ← quotedWithin bound
        pure (c :: content) : Reader (List Char)) text content rest) : '"' ∈ text := by
      obtain ⟨_, _, read, _⟩ := reads_bind.mp read
      exact ih read
    cases text with
    | nil => cases read
    | cons c text =>
      by_cases quote : c = '"'
      · rw [quote]
        exact List.mem_cons_self
      · refine List.mem_cons_of_mem c ?_
        by_cases backslash : c = '\\'
        · subst backslash
          obtain ⟨d, _, escaped, read⟩ := reads_bind.mp
            (show Reads (escape >>= fun d => quotedWithin bound >>= fun content =>
              pure (d :: content)) text content rest from read)
          exact (inside_escape.reads escaped).subset (further read)
        · rw [Reads, quotedWithin, quotedRound_of_ne _ quote backslash] at read
          exact further read

theorem follows_quotedWithin (bound : Nat) :
    Follows (Alike .quoted) (quotedWithin bound) (fun text => quotedWithin text.length text)
      fun _ => Alike .code := by
  induction bound with
  | zero => exact follows_of_not_reads not_reads_fail
  | succ bound ih =>
    have unrolled : (fun text => quotedWithin text.length text) =
        quotedRound fun text => quotedWithin text.length text := isLoop_quoted.unrolled ()
    rw [unrolled]
    refine ⟨fun {text text' rest content} alike read => ?_⟩
    have closed := quote_mem_of_reads read
    have further (c : Char) := ih.bind fun content =>
      (follows_pure (c :: content) : Follows (Alike .code) _ _ fun _ => Alike .code)
    cases alike with
    | ended => cases closed
    | gap spaced => exact absurd spaced (Mode.Verbatim.not_spaced (.inl rfl))
    | unclosed _ here => exact absurd closed here
    | @same _ c text text' _ alike =>
      by_cases quote : c = '"'
      · subst quote
        obtain ⟨rfl, rfl⟩ := Prod.mk.inj (Except.ok.inj read)
        exact ⟨text', rfl, alike⟩
      by_cases backslash : c = '\\'
      · subst backslash
        exact (follows_escape.bind further).reads ⟨alike, List.mem_of_ne_of_mem (by decide) closed⟩
          read
      · rw [Mode.next, if_neg quote, if_neg backslash] at alike
        rw [Reads, quotedWithin, quotedRound_of_ne _ quote backslash] at read
        obtain ⟨rest', read', left⟩ := (further c).reads alike read
        exact ⟨rest', by rw [Reads, quotedRound_of_ne _ quote backslash]; exact read', left⟩

theorem keeps_quoted : Keeps quoted quoted := by
  have opening : Follows (Alike .code) (expect "\"") (expect "\"") fun _ => Alike .quoted :=
    follows_expect_of (inBoth_single spaced_code (by decide) rfl)
  exact opening.bind fun _ => (follows_unbounded follows_quotedWithin).bind fun _ => follows_pure _

end Quoted

end RegisterIR.Reading
