import RegisterIR.Proofs.ByteOffsets

/-! Scanning of tokens. Each of these scanners gives what the reader of the same token gives, so
that every slice is taken between two characters. -/

namespace RegisterIR.Scanning

open Reading (Reader Reads isWordChar skipFrom)

variable {α β : Type}

theorem scans_lineWithin {bound : Nat} {rest : List Char} (enough : rest.length ≤ bound) :
    ∃ rest', Scans (lineWithin bound) rest () rest' ∧
      skipFrom true rest = skipFrom false rest' ∧ rest'.length ≤ rest.length - 1 := by
  induction bound generalizing rest with
  | zero =>
    obtain rfl := List.eq_nil_of_length_eq_zero (Nat.le_zero.mp enough)
    exact ⟨[], scans_pure (), rfl, Nat.le_refl _⟩
  | succ bound ih =>
    cases rest with
    | nil => exact ⟨[], scans_advance_nil.bind (scans_pure ()), rfl, Nat.le_refl _⟩
    | cons c rest =>
      by_cases ended : c = '\n'
      · subst ended
        exact ⟨rest, (scans_advance_cons '\n' rest).bind (scans_pure ()), rfl, Nat.le_refl _⟩
      · obtain ⟨rest', scanned, same, shorter⟩ := ih (Nat.le_of_succ_le_succ enough)
        refine ⟨rest', (scans_advance_cons c rest).bind ?_, ?_, ?_⟩
        · dsimp only
          rw [if_neg ended]
          exact scanned
        · rw [skipFrom, if_pos rfl, decide_eq_true ended]
          exact same
        · exact Nat.le_trans shorter (Nat.sub_le ..)

theorem scans_skipWithin {bound : Nat} {rest : List Char} (enough : rest.length ≤ bound) :
    Scans (skipWithin bound) rest () (skipFrom false rest) := by
  induction bound generalizing rest with
  | zero =>
    obtain rfl := List.eq_nil_of_length_eq_zero (Nat.le_zero.mp enough)
    exact scans_pure ()
  | succ bound ih =>
    cases rest with
    | nil => exact (scans_peek []).bind (scans_pure ())
    | cons c rest =>
      have fewer : rest.length ≤ bound := Nat.le_of_succ_le_succ enough
      refine (scans_peek (c :: rest)).bind ?_
      dsimp only [List.head?_cons]
      rw [skipFrom, if_neg Bool.false_ne_true]
      by_cases comment : c = ';'
      -- The line of a comment is passed in one round, so the bound is still large enough.
      · obtain ⟨rest', line, same, shorter⟩ := scans_lineWithin (Nat.le_refl (c :: rest).length)
        have later : Scans (skipWithin bound) rest' () (skipFrom false rest') :=
          ih (Nat.le_trans shorter fewer)
        rw [if_pos comment, if_pos comment]
        subst comment
        have skipped : skipFrom true rest = skipFrom false rest' := same
        rw [skipped]
        exact Scans.bind (fun references => (line references).bounded) later
      · rw [if_neg comment, if_neg comment]
        by_cases blank : Text.isBlank c = true
        · rw [if_pos blank, if_pos blank]
          exact (scans_advance_cons c rest).bind (ih fewer)
        · rw [if_neg blank, if_neg blank]
          exact scans_pure ()

theorem scans_skip (rest : List Char) : Scans skip rest () (skipFrom false rest) :=
  fun references => (scans_skipWithin (Nat.le_refl _) references).bounded

theorem mirrors_skip : Mirrors skip Reading.skip := fun rest _ =>
  follows_of_scans rfl (scans_skip rest)

theorem mirrors_acceptChar {c : Char} {token : String} (single : token = String.singleton c) :
    Mirrors (acceptChar c) (Reading.accept token) := by
  intro rest references
  subst single
  cases here : skipFrom false rest with
  | nil =>
    have read : Reads (Reading.accept (String.singleton c)) rest false [] := by
      rw [Reads, Reading.accept_eq, here, String.toList_singleton]
      rfl
    exact follows_of_scans read
      ((here ▸ scans_skip rest).bind ((scans_peek []).bind (scans_pure false)))
  | cons d tail =>
    by_cases same : d = c
    · subst same
      have read : Reads (Reading.accept (String.singleton d)) rest true tail := by
        rw [Reading.reads_accept_true, here, String.toList_singleton, List.singleton_append]
      refine follows_of_scans read
        ((here ▸ scans_skip rest).bind ((scans_peek (d :: tail)).bind ?_))
      dsimp only [List.head?_cons]
      rw [if_pos rfl]
      exact (scans_advance_cons d tail).bind (scans_pure true)
    · have read := Reading.reads_accept_false_of_ne (String.toList_singleton c) here same
      refine follows_of_scans read
        ((here ▸ scans_skip rest).bind ((scans_peek (d :: tail)).bind ?_))
      dsimp only [List.head?_cons]
      rw [if_neg (by simpa using same)]
      exact scans_pure false

theorem mirrors_unexpected (what : String) :
    Mirrors (unexpected what : Scanner α) (Reading.unexpected what) :=
  fun _ _ => follows_unexpected what

theorem mirrors_fail (reason : Malformation) :
    Mirrors (fail reason : Scanner α) (Reading.fail reason) :=
  fun _ _ => follows_fail reason

theorem mirrors_expectChar {c : Char} {token : String} (single : token = String.singleton c) :
    Mirrors (expectChar c) (Reading.expect token) := by
  refine (mirrors_acceptChar single).bind fun accepted => ?_
  subst single
  cases accepted with
  | true => exact mirrors_pure ()
  | false => exact mirrors_unexpected _

theorem reads_expect_cons {c : Char} {token : String} (single : token = String.singleton c)
    (solid : Reading.isSolid c = true) (tail : List Char) :
    Reads (Reading.expect token) (c :: tail) () tail := by
  rw [Reading.reads_expect, Reading.skipFrom_solid solid, single, String.toList_singleton,
    List.singleton_append]

/-- A character that has been looked at is not looked for again. -/
theorem follows_opened {c : Char} {token : String} (single : token = String.singleton c)
    (solid : Reading.isSolid c = true) {next : Scanner α} {next' : Unit → Reader β}
    {references : List (List String)} {agree : List (List String) → β → α → Prop}
    {tail : List Char} (h : Follows tail references next (next' ()) agree) :
    Follows (c :: tail) references (advance >>= fun _ => next) (Reading.expect token >>= next')
      agree :=
  .after (scans_advance_cons c tail references)
    (Reading.bind_of_reads (reads_expect_cons single solid tail)) h

theorem mirrors_accept (token : String) : Mirrors (accept token) (Reading.accept token) := by
  intro rest references
  cases starts : token.toList.isPrefixOf (skipFrom false rest) with
  | true =>
    obtain ⟨tail, whole⟩ := List.isPrefixOf_iff_prefix.mp starts
    refine follows_of_scans (Reading.reads_accept_true.mpr whole.symm)
      ((scans_skip rest).bind ((scans_remaining _).bind ?_))
    rw [String.toList_ofList, if_pos starts]
    have moved := scans_move token.toList tail
    rw [String.ofList_toList, whole] at moved
    exact moved.bind (scans_pure true)
  | false =>
    have other : ¬ token.toList <+: skipFrom false rest := fun starting =>
      absurd (List.isPrefixOf_iff_prefix.mpr starting) (by simp [starts])
    refine follows_of_scans (Reading.reads_accept_false.mpr ⟨other, rfl⟩)
      ((scans_skip rest).bind ((scans_remaining _).bind ?_))
    rw [String.toList_ofList, starts]
    exact scans_pure false

theorem mirrors_expect (token : String) : Mirrors (expect token) (Reading.expect token) := by
  refine (mirrors_accept token).bind fun accepted => ?_
  cases accepted with
  | true => exact mirrors_pure ()
  | false => exact mirrors_unexpected _

theorem scans_whileWithin (p : Char → Bool) {bound : Nat} {rest : List Char}
    (enough : rest.length ≤ bound) :
    Scans (whileWithin p bound) rest () (rest.dropWhile p) := by
  induction bound generalizing rest with
  | zero =>
    obtain rfl := List.eq_nil_of_length_eq_zero (Nat.le_zero.mp enough)
    exact scans_pure ()
  | succ bound ih =>
    cases rest with
    | nil => exact (scans_peek []).bind (scans_pure ())
    | cons c rest =>
      refine (scans_peek (c :: rest)).bind ?_
      dsimp only [List.head?_cons, Option.any_some]
      by_cases inside : p c = true
      · rw [List.dropWhile_cons_of_pos inside, if_pos inside]
        exact (scans_advance_cons c rest).bind (ih (Nat.le_of_succ_le_succ enough))
      · rw [List.dropWhile_cons_of_neg inside, if_neg inside]
        exact scans_pure ()

theorem scans_takeWhile (p : Char → Bool) (rest : List Char) :
    Scans (takeWhile p) rest (String.ofList (rest.takeWhile p)) (rest.dropWhile p) := by
  intro references text position here
  obtain ⟨before, whole, rfl⟩ := stands_iff.mp here
  obtain ⟨last, scanned, there⟩ :=
    (scans_whileWithin p (Nat.le_refl rest.length) references).bounded text _ here
  refine ⟨last, ?_, there⟩
  have parts : text = before ++ String.ofList (rest.takeWhile p) ++
      String.ofList (rest.dropWhile p) := by
    rw [String.append_assoc, ← String.ofList_append, List.takeWhile_append_dropWhile]
    exact whole
  obtain ⟨before', whole', rfl⟩ := stands_iff.mp there
  -- What lies before the offset where the loop ends is fixed by what lies behind it.
  obtain rfl : before' = before ++ String.ofList (rest.takeWhile p) :=
    String.append_left_inj _ |>.mp (whole'.symm.trans parts)
  have unfolded : takeWhile p ⟨text, before.utf8ByteSize, references⟩ =
    (bounded (whileWithin p) ⟨text, before.utf8ByteSize, references⟩ >>= fun scanned =>
      slice (Text.between? text before.utf8ByteSize scanned.2.position) scanned.2) := rfl
  rw [unfolded, scanned]
  dsimp only [bind, Except.bind]
  rw [Text.between?_of_append parts]
  rfl

theorem mirrors_word : Mirrors word Reading.word := fun rest _ =>
  follows_of_scans rfl (scans_takeWhile isWordChar rest)

theorem mirrors_identifier : Mirrors identifier Reading.identifier := by
  refine mirrors_skip.bind fun _ => mirrors_peek.bind fun next => ?_
  cases next with
  | none => exact mirrors_unexpected _
  | some c =>
    dsimp only
    split
    · exact mirrors_word
    · exact mirrors_unexpected _

theorem mirrors_acceptKeyword (keyword : String) :
    Mirrors (acceptKeyword keyword) (Reading.acceptKeyword keyword) := by
  intro rest references
  have whole := Reading.acceptKeyword_eq keyword rest
  cases starts : keyword.toList.isPrefixOf (skipFrom false rest) with
  | false =>
    rw [starts, Bool.false_and, if_neg Bool.false_ne_true] at whole
    refine follows_of_scans whole ((scans_skip rest).bind ((scans_remaining _).bind ?_))
    rw [String.toList_ofList, starts]
    exact scans_pure false
  | true =>
    obtain ⟨tail, parts⟩ := List.isPrefixOf_iff_prefix.mp starts
    have behind : Text.after? (String.ofList (skipFrom false rest)) keyword.utf8ByteSize =
        some (String.ofList tail) := by
      refine Text.after?_eq_some_iff.mpr ⟨keyword, ?_, rfl⟩
      rw [← parts, String.ofList_append, String.ofList_toList]
    rw [starts, Bool.true_and, ← parts, ← String.length_toList, List.drop_left] at whole
    cases longer : tail.head?.any isWordChar with
    -- The keyword is only the start of a longer word.
    | true =>
      rw [longer, if_neg (by simp), parts] at whole
      refine follows_of_scans whole ((scans_skip rest).bind ((scans_remaining _).bind ?_))
      rw [String.toList_ofList, if_pos starts]
      refine (scans_slice behind _).bind ?_
      rw [String.toList_ofList, if_pos longer]
      exact scans_pure false
    | false =>
      rw [longer, if_pos (by simp)] at whole
      refine follows_of_scans whole ((scans_skip rest).bind ((scans_remaining _).bind ?_))
      rw [String.toList_ofList, if_pos starts]
      refine (scans_slice behind _).bind ?_
      rw [String.toList_ofList, if_neg (by simp [longer])]
      have moved := scans_move keyword.toList tail
      rw [String.ofList_toList, parts] at moved
      exact moved.bind (scans_pure true)

section Numbers

/-- Digits are as many bytes as characters. -/
theorem before?_takeWhile {p : Char → Bool} (words : ∀ c, p c = true → isWordChar c = true)
    (rest : List Char) : Text.before? (String.ofList rest) (rest.takeWhile p).length =
      some (String.ofList (rest.takeWhile p)) := by
  refine Text.before?_eq_some_iff.mpr ⟨String.ofList (rest.dropWhile p), ?_, ?_⟩
  · rw [← String.ofList_append, List.takeWhile_append_dropWhile]
  · refine (Text.utf8ByteSize_ofList fun c member => ?_).symm
    exact Reading.utf8Size_of_isWordChar (words c (List.all_eq_true.mp List.all_takeWhile c member))

theorem follows_digits (base : Nat) {p : Char → Bool}
    (words : ∀ c, p c = true → isWordChar c = true) (rest : List Char)
    {references : List (List String)} :
    Follows rest references (digits base p (String.ofList rest)) (Reading.digits base p)
      (Same references) := by
  have cut := before?_takeWhile words rest
  have start : Scans (slice (Text.before? (String.ofList rest)
      ((String.ofList rest).toList.takeWhile p).length)) rest
      (String.ofList (rest.takeWhile p)) rest := by
    rw [String.toList_ofList]
    exact scans_slice cut rest
  cases taken : rest.takeWhile p with
  | nil =>
    rw [taken] at start
    have failed : Reading.digits base p rest =
        .error (.malformed rest (.expected "number" rest.head?)) := by
      rw [Reading.digits, taken]
    refine follows_of_halts failed (start.stops ?_ references)
    exact stops_unexpected "number" rest
  | cons c others =>
    rw [taken] at start
    have some : (String.ofList (c :: others)).isEmpty = false := by simp
    by_cases fits : Text.ofDigits base (c :: others) ≤ Reading.maxLong
    · have read : Reads (Reading.digits base p) rest (Text.ofDigits base (c :: others))
          (rest.dropWhile p) := by
        rw [Reads, Reading.digits, taken]
        exact if_pos fits
      refine follows_of_scans read (start.bind ?_)
      rw [some, if_neg Bool.false_ne_true, String.toList_ofList]
      dsimp only
      rw [if_pos fits]
      have moved := scans_move (rest.takeWhile p) (rest.dropWhile p)
      rw [List.takeWhile_append_dropWhile, taken] at moved
      exact moved.bind (scans_pure _)
    · have failed : Reading.digits base p rest =
          .error (.malformed rest (.numberTooLarge (String.ofList (c :: others)))) := by
        rw [Reading.digits, taken]
        exact if_neg fits
      refine follows_of_halts failed (start.stops ?_ references)
      rw [some, if_neg Bool.false_ne_true, String.toList_ofList]
      dsimp only
      rw [if_neg fits]
      exact stops_fail _ rest

theorem mirrors_number : Mirrors number Reading.number := by
  refine fun rest references => mirrors_skip.andThen fun {_ between} _ => .remaining ?_
  rw [String.toList_ofList]
  split
  · rename_i hex _
    exact .after (scans_move ['0', 'x'] hex references) rfl
      (follows_digits 16 (fun _ => Reading.isWordChar_of_isHexDigit) hex)
  · rename_i hex _
    exact .after (scans_move ['0', 'X'] hex references) rfl
      (follows_digits 16 (fun _ => Reading.isWordChar_of_isHexDigit) hex)
  · rename_i lower upper
    refine (follows_digits 10 (fun _ => Reading.isWordChar_of_isDigit) between).congr ?_
    split
    · exact absurd rfl (lower _)
    · exact absurd rfl (upper _)
    · rfl

theorem mirrors_smallNumber : Mirrors smallNumber Reading.smallNumber := by
  refine mirrors_number.bind fun _ => ?_
  split
  · exact mirrors_pure _
  · exact mirrors_fail _

end Numbers

theorem mirrors_escapeByNumber : Mirrors escapeByNumber Reading.escapeByNumber := by
  refine fun rest references => (mirrors_expectChar (by decide)).andThen fun {_ between} _ => ?_
  have taken : Follows between references (takeWhile Text.isHexDigit)
      (fun text => .ok (text.takeWhile Text.isHexDigit, text.dropWhile Text.isHexDigit))
      fun recorded letters value => recorded = references ∧ value = String.ofList letters :=
    ⟨fun read => by
      obtain ⟨rfl, rfl⟩ := Prod.mk.inj (Except.ok.inj read)
      exact ⟨_, _, scans_takeWhile _ _ _, rfl, rfl⟩, fun failed => by cases failed⟩
  refine taken.bind fun _ agreed => ?_
  obtain ⟨rfl, rfl⟩ := agreed
  rw [String.toList_ofList]
  dsimp only
  split
  · exact (mirrors_expectChar (by decide)).andThen fun _ => follows_pure ⟨rfl, rfl⟩
  · exact follows_fail _

theorem mirrors_advance {next : Option Char → Scanner α} {reader : Reader α}
    {error : ParseError (List Char)} (failed : reader [] = .error error)
    (nil : Stops (next none) [] error)
    (cons : ∀ c tail, ∃ reader', reader (c :: tail) = reader' tail ∧
      Mirrors (next (some c)) reader') : Mirrors (advance >>= next) reader := by
  intro rest references
  cases rest with
  | nil =>
    exact .after (scans_advance_nil references) rfl (follows_of_halts failed (nil references))
  | cons c tail =>
    obtain ⟨reader', same, h⟩ := cons c tail
    exact .after (scans_advance_cons c tail references) same (h tail references)

theorem mirrors_escape : Mirrors escape Reading.escape := by
  refine mirrors_advance rfl (stops_fail .unterminatedString []) fun c tail => ?_
  split
  · cases ‹some c = some _›
    exact ⟨pure '\n', rfl, mirrors_pure _⟩
  · cases ‹some c = some _›
    exact ⟨pure '\r', rfl, mirrors_pure _⟩
  · cases ‹some c = some _›
    exact ⟨pure '\t', rfl, mirrors_pure _⟩
  · cases ‹some c = some _›
    exact ⟨pure '"', rfl, mirrors_pure _⟩
  · cases ‹some c = some _›
    exact ⟨pure '\\', rfl, mirrors_pure _⟩
  · cases ‹some c = some _›
    exact ⟨Reading.escapeByNumber, rfl, mirrors_escapeByNumber⟩
  · rename_i here
    cases here
    refine ⟨_, ?_, mirrors_fail _⟩
    unfold Reading.escape
    split
    all_goals simp_all [Reading.fail]
  · cases ‹some c = none›

theorem mirrors_quotedWithin (bound : Nat) :
    Mirrors (quotedWithin bound) (Reading.quotedWithin bound) := by
  induction bound with
  | zero => exact mirrors_fail _
  | succ bound ih =>
    have next (c : Char) : Mirrors (do
        let content ← quotedWithin bound
        pure (c :: content)) (do
        let content ← Reading.quotedWithin bound
        pure (c :: content)) := ih.bind fun _ => mirrors_pure _
    refine mirrors_advance rfl (stops_fail .unterminatedString []) fun c tail => ?_
    split
    · cases ‹some c = some _›
      exact ⟨pure [], rfl, mirrors_pure _⟩
    · cases ‹some c = some _›
      exact ⟨_, rfl, mirrors_escape.bind next⟩
    · rename_i here
      cases here
      refine ⟨_, ?_, next _⟩
      change Reading.quotedRound (Reading.quotedWithin bound) _ = _
      unfold Reading.quotedRound
      split
      all_goals simp_all
    · cases ‹some c = none›

theorem Mirrors.bounded {loop : Nat → Scanner α} {loop' : Nat → Reader α}
    (h : ∀ bound, Mirrors (loop bound) (loop' bound)) :
    Mirrors (Scanning.bounded loop) fun text => loop' text.length text :=
  fun _ _ => .bounded loop' (h _ _ _)

theorem mirrors_quoted : Mirrors quoted Reading.quoted :=
  (mirrors_expectChar (by decide)).bind fun _ =>
    (Mirrors.bounded mirrors_quotedWithin).bind fun _ => mirrors_pure _

theorem mirrors_registerName : Mirrors registerName Reading.registerName := by
  refine (mirrors_expectChar (by decide)).bind fun _ => mirrors_word.bind fun name => ?_
  cases name.isEmpty with
  | true => exact mirrors_unexpected _
  | false => exact mirrors_pure _

section Sequences

variable {agree : List (List String) → β → α → Prop} {step : α → Scanner α} {step' : β → Reader β}
  (each : ∀ {rest references items items'}, agree references items' items →
    Follows rest references (step items) (step' items') agree)
include each

theorem follows_itemsWithin (bound : Nat) {rest : List Char} {references : List (List String)}
    {items : α} {items' : β} (start : agree references items' items) :
    Follows rest references (itemsWithin step bound items)
      (Reading.itemsWithin step' bound items') agree := by
  induction bound generalizing rest references items items' with
  | zero =>
    exact (each start).bind fun _ agreed =>
      (mirrors_expectChar (by decide)).andThen fun _ => follows_pure agreed
  | succ bound ih =>
    refine (each start).bind fun _ agreed =>
      (mirrors_acceptChar (by decide)).andThen fun {closed _} _ => ?_
    cases closed with
    | true => exact follows_pure agreed
    | false => exact (mirrors_expectChar (by decide)).andThen fun _ => ih agreed

theorem follows_itemsAfter {rest : List Char} {references : List (List String)} {start : α}
    {start' : β} (none : agree references start' start) :
    Follows rest references (itemsAfter step start) (do
      if ← Reading.accept ")" then pure start'
      else fun text => Reading.itemsWithin step' text.length start' text) agree := by
  refine (mirrors_acceptChar (by decide)).andThen fun {closed _} _ => ?_
  cases closed with
  | true => exact follows_pure none
  | false =>
    rw [if_neg Bool.false_ne_true, if_neg Bool.false_ne_true]
    exact .bounded (fun bound => Reading.itemsWithin step' bound start')
      (follows_itemsWithin each _ none)

theorem follows_items {rest : List Char} {references : List (List String)} {start : α} {start' : β}
    (none : agree references start' start) :
    Follows rest references (items step start) (Reading.items step' start') agree :=
  (mirrors_expectChar (by decide)).andThen fun _ => follows_itemsAfter each none

theorem follows_fieldsWithin (bound : Nat) {rest : List Char} {references : List (List String)}
    {fields : α} {fields' : β} (start : agree references fields' fields) :
    Follows rest references (fieldsWithin step bound fields)
      (Reading.fieldsWithin step' bound fields') agree := by
  induction bound generalizing rest references fields fields' with
  | zero =>
    refine (mirrors_acceptChar (by decide)).andThen fun {closed _} _ => ?_
    cases closed with
    | true => exact follows_pure start
    | false =>
      exact (each start).bind fun _ agreed =>
        (mirrors_expectChar (by decide)).andThen fun _ => follows_pure agreed
  | succ bound ih =>
    refine (mirrors_acceptChar (by decide)).andThen fun {closed _} _ => ?_
    cases closed with
    | true => exact follows_pure start
    | false =>
      refine (each start).bind fun _ agreed =>
        (mirrors_acceptChar (by decide)).andThen fun {comma _} _ => ?_
      cases comma with
      | true => exact ih agreed
      | false => exact (mirrors_expectChar (by decide)).andThen fun _ => follows_pure agreed

theorem follows_fields {rest : List Char} {references : List (List String)} {start : α}
    {start' : β} (none : agree references start' start) :
    Follows rest references (fields step start) (Reading.fields step' start') agree :=
  (mirrors_expectChar (by decide)).andThen fun _ =>
    .bounded (fun bound => Reading.fieldsWithin step' bound start')
      (follows_fieldsWithin each _ none)

end Sequences

end RegisterIR.Scanning
