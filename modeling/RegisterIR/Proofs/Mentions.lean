import RegisterIR.Proofs.ReaderMotions

/-! The names that a text mentions. They are found by going through its characters once, keeping
track of comments and quoted texts only. Reading records the same names in the same order, however
deep the literals, cases and loops are nested in which they stand. -/

namespace RegisterIR.Reading

variable {α β : Type}

section Modes

inductive Mode
  | code
  | quoted
  | escaped
  | number
  | comment (outside : Mode)
deriving DecidableEq

def Mode.next : Mode → Char → Mode
  | code, c => if c = '"' then quoted else if c = ';' then comment code else code
  | quoted, c => if c = '"' then code else if c = '\\' then escaped else quoted
  | escaped, c => if c = 'u' then number else quoted
  | number, c => if c = '\x7d' then quoted else if c = ';' then comment number else number
  | comment outside, c => if c = '\n' then outside else comment outside

/-- The name that is mentioned at a character, if it is an at sign outside of comments and quoted
texts. -/
def mentionAt (mode : Mode) (c : Char) (rest : List Char) : List String :=
  if mode = .code ∧ c = '@' then [String.ofList (rest.takeWhile isWordChar)] else []

def mentionsFrom (mode : Mode) : List Char → List String
  | [] => []
  | c :: rest => mentionAt mode c rest ++ mentionsFrom (mode.next c) rest

def mentions (text : List Char) : List String := mentionsFrom .code text

theorem mentionAt_of_code_ne {mode : Mode} {c : Char} (h : mode ≠ .code ∨ c ≠ '@')
    (rest : List Char) : mentionAt mode c rest = [] :=
  if_neg fun both => h.elim (· both.1) (· both.2)

/-- What is mentioned in the first part of a text does not depend on what follows, if no name
continues there. -/
theorem mentionsFrom_append (mode : Mode) (before rest : List Char) {closing : Char}
    (stop : isWordChar closing = false) (other : closing ≠ '@') :
    mentionsFrom mode (before ++ closing :: rest) = mentionsFrom mode (before ++ [closing]) ++
      mentionsFrom ((before ++ [closing]).foldl Mode.next mode) rest := by
  induction before generalizing mode with
  | nil => simp [mentionsFrom, mentionAt_of_code_ne (.inr other)]
  | cons c before ih =>
    have same : mentionAt mode c (before ++ closing :: rest) =
        mentionAt mode c (before ++ [closing]) := by
      simp [mentionAt, List.takeWhile_append, stop]
    rw [List.cons_append, mentionsFrom, ih, same, List.cons_append, mentionsFrom, List.foldl_cons,
      List.append_assoc]

/-- A part of a text that mentions the names, and the modes before and after it. At the end of the
text the mode does not matter, as it may end inside a comment. -/
structure Passes (mode : Mode) (text : List Char) (names : List String) (mode' : Mode)
    (rest : List Char) : Prop where
  consumed : ∃ part, text = part ++ rest ∧ (part.foldl Mode.next mode = mode' ∨ rest = [])
  mentioned : mentionsFrom mode text = names ++ mentionsFrom mode' rest

variable {mode mode' mode'' : Mode} {text between rest : List Char} {names names' : List String}

theorem passes_refl (mode : Mode) (text : List Char) : Passes mode text [] mode text :=
  ⟨⟨[], rfl, .inl rfl⟩, rfl⟩

theorem Passes.trans (first : Passes mode text names mode' between)
    (second : Passes mode' between names' mode'' rest) :
    Passes mode text (names ++ names') mode'' rest := by
  obtain ⟨part, rfl, after⟩ := first.consumed
  obtain ⟨part', rfl, after'⟩ := second.consumed
  refine ⟨⟨part ++ part', (List.append_assoc ..).symm, ?_⟩, ?_⟩
  · rcases after with rfl | ended
    · rw [List.foldl_append]
      exact after'
    · exact .inr (List.append_eq_nil_iff.mp ended).2
  · rw [first.mentioned, second.mentioned, List.append_assoc]

theorem passes_cons (c : Char) (rest : List Char) :
    Passes mode (c :: rest) (mentionAt mode c rest) (mode.next c) rest :=
  ⟨⟨[c], rfl, .inl rfl⟩, rfl⟩

theorem passes_step {c : Char} (quiet : mode ≠ .code ∨ c ≠ '@') (after : mode.next c = mode')
    (rest : List Char) : Passes mode (c :: rest) [] mode' rest := by
  have step : Passes mode (c :: rest) (mentionAt mode c rest) (mode.next c) rest :=
    passes_cons c rest
  rwa [mentionAt_of_code_ne quiet, after] at step

theorem passes_append {shown : List Char}
    (quiet : ∀ c ∈ shown, (mode ≠ .code ∨ c ≠ '@') ∧ mode.next c = mode) (rest : List Char) :
    Passes mode (shown ++ rest) [] mode rest := by
  induction shown with
  | nil => exact passes_refl mode rest
  | cons c shown ih =>
    obtain ⟨first, others⟩ := List.forall_mem_cons.mp quiet
    exact (passes_step first.1 first.2 _).trans (ih others)

end Modes

section Tokens

variable {mode mode' : Mode} {text rest : List Char}

structure Mode.Spaced (mode : Mode) : Prop where
  blank : ∀ c, Text.isBlank c = true → mode.next c = mode
  comment : mode.next ';' = .comment mode

theorem spaced_code : Mode.Spaced .code where
  blank c blank := by
    have quote : c ≠ '"' := ne_of_class blank (by decide)
    have comment : c ≠ ';' := ne_of_class blank (by decide)
    rw [Mode.next, if_neg quote, if_neg comment]
  comment := rfl

theorem spaced_number : Mode.Spaced .number where
  blank c blank := by
    have brace : c ≠ '\x7d' := ne_of_class blank (by decide)
    have comment : c ≠ ';' := ne_of_class blank (by decide)
    rw [Mode.next, if_neg brace, if_neg comment]
  comment := rfl

theorem passes_skipFrom (spaced : mode.Spaced) (inComment : Bool) (text : List Char) :
    Passes (if inComment then .comment mode else mode) text [] mode (skipFrom inComment text) := by
  induction text generalizing inComment with
  | nil => exact ⟨⟨[], rfl, .inr rfl⟩, rfl⟩
  | cons c text ih =>
    rw [skipFrom]
    split
    · -- A comment goes on up to the end of its line.
      rename_i comment
      have after : (Mode.comment mode).next c = if c ≠ '\n' then .comment mode else mode := by
        simp [Mode.next]
      have further := ih (c ≠ '\n')
      simp only [decide_eq_true_eq] at further
      exact (passes_step (.inl (by simp)) after text).trans further
    · split
      · rename_i semicolon
        subst semicolon
        exact (passes_step (.inr (by decide)) spaced.comment text).trans (ih true)
      · split
        · rename_i blank
          have quiet : c ≠ '@' := ne_of_class blank (by decide)
          exact (passes_step (.inr quiet) (spaced.blank c blank) text).trans (ih false)
        · exact passes_refl mode _

theorem passes_expect (spaced : mode.Spaced) {token : String} {c : Char}
    (shape : token.toList = [c]) (quiet : mode ≠ .code ∨ c ≠ '@') (after : mode.next c = mode')
    {value : Unit} (read : Reads (expect token) text value rest) :
    Passes mode text [] mode' rest := by
  have skipped := passes_skipFrom spaced false text
  rw [reads_expect.mp read, shape] at skipped
  exact skipped.trans (passes_step quiet after rest)

theorem passes_escapeByNumber {c : Char} (read : Reads escapeByNumber text c rest) :
    Passes .number text [] .quoted rest := by
  obtain ⟨_, opened, brace, read⟩ := reads_bind.mp read
  obtain ⟨taken, closing, digits, read⟩ := reads_bind.mp read
  obtain ⟨rfl, rfl⟩ := Prod.mk.inj (Except.ok.inj digits)
  dsimp only at read
  split at read
  · obtain ⟨_, _, closed, done⟩ := reads_bind.mp read
    obtain ⟨_, rfl⟩ := reads_pure.mp done
    have shown : ∀ d ∈ opened.takeWhile Text.isHexDigit,
        (Mode.number ≠ .code ∨ d ≠ '@') ∧ Mode.number.next d = .number := by
      intro d member
      have digit := List.all_eq_true.mp List.all_takeWhile d member
      have brace : d ≠ '\x7d' := ne_of_class digit (by decide)
      have comment : d ≠ ';' := ne_of_class digit (by decide)
      exact ⟨.inl (by decide), by rw [Mode.next, if_neg brace, if_neg comment]⟩
    have passed := passes_append shown (opened.dropWhile Text.isHexDigit)
    rw [List.takeWhile_append_dropWhile] at passed
    have before : Passes .number text [] .number opened :=
      passes_expect spaced_number (c := '\x7b') rfl (.inl (by decide)) rfl brace
    have after := passes_expect spaced_number (c := '\x7d') rfl (.inl (by decide)) rfl closed
    exact before.trans (passed.trans after)
  · exact absurd read not_reads_fail

theorem passes_escape {c : Char} (read : Reads escape text c rest) :
    Passes .escaped text [] .quoted rest := by
  have step {mode : Mode} (d : Char) (after : Mode.escaped.next d = mode) (rest : List Char) :
      Passes .escaped (d :: rest) [] mode rest := passes_step (.inl (by decide)) after rest
  unfold Reads escape at read
  split at read
  · cases read
  iterate 5
    · obtain ⟨_, rfl⟩ := Prod.mk.inj (Except.ok.inj read)
      exact step _ rfl _
  · exact (step 'u' rfl _).trans (passes_escapeByNumber read)
  · cases read

theorem passes_quotedWithin {bound : Nat} {content : List Char}
    (read : Reads (quotedWithin bound) text content rest) : Passes .quoted text [] .code rest := by
  induction bound generalizing text content with
  | zero => exact absurd read not_reads_fail
  | succ bound ih =>
    have further {c : Char} {text content : List Char} (read : Reads (do
        let content ← quotedWithin bound
        pure (c :: content) : Reader (List Char)) text content rest) :
        Passes .quoted text [] .code rest := by
      obtain ⟨_, _, read, done⟩ := reads_bind.mp read
      obtain ⟨_, rfl⟩ := reads_pure.mp done
      exact ih read
    unfold Reads quotedWithin quotedRound at read
    split at read
    · cases read
    · obtain ⟨_, rfl⟩ := Prod.mk.inj (Except.ok.inj read)
      exact passes_step (.inl (by decide)) rfl _
    · rename_i tail
      have backslash : Passes .quoted ('\\' :: tail) [] .escaped tail :=
        passes_step (.inl (by decide)) rfl tail
      obtain ⟨c, _, escaped, read⟩ := reads_bind.mp read
      exact backslash.trans ((passes_escape escaped).trans (further read))
    · rename_i c text quote backslash
      have stays : Mode.quoted.next c = .quoted := by
        rw [Mode.next, if_neg quote, if_neg backslash]
      exact (passes_step (.inl (by decide)) stays text).trans (further read)

theorem passes_quoted {content : String} (read : Reads quoted text content rest) :
    Passes .code text [] .code rest := by
  obtain ⟨_, _, opened, read⟩ := reads_bind.mp read
  obtain ⟨_, _, read, done⟩ := reads_bind.mp read
  obtain ⟨_, rfl⟩ := reads_pure.mp done
  have quote := passes_expect spaced_code (c := '"') rfl (.inr (by decide)) rfl opened
  exact quote.trans (passes_quotedWithin read)

theorem next_code_of_isPlain {c : Char} (plain : isPlain c = true) :
    (Mode.code ≠ .code ∨ c ≠ '@') ∧ Mode.code.next c = .code := by
  simp only [isPlain, ne_eq, Bool.and_eq_true, decide_eq_true_eq] at plain
  exact ⟨.inr plain.2, by simp [Mode.next, plain]⟩

def silent : Motion where
  reads text rest := Passes .code text [] .code rest
  stops _ _ := True
  refl := passes_refl .code
  trans first later := first.trans later
  here _ := trivial
  later _ _ := trivial
  blanks := passes_skipFrom spaced_code false
  plain shown := passes_append fun c member => next_code_of_isPlain (shown c member)

theorem passes_functionName {name : String} (read : Reads functionName text name rest) :
    Passes .code text [name] .code rest := by
  obtain ⟨_, letters, sign, read⟩ := reads_bind.mp read
  obtain ⟨_, _, letter, named⟩ := reads_bind.mp read
  obtain ⟨rfl, rfl⟩ := Prod.mk.inj (Except.ok.inj letter)
  have skipped := passes_skipFrom spaced_code false text
  rw [reads_expect.mp sign] at skipped
  have word : silent.reads letters (letters.dropWhile isWordChar) :=
    Motion.reads_dropWhile (fun c => isPlain_of_isWordChar) letters
  split at named
  · exact absurd named not_reads_unexpected
  · obtain ⟨rfl, rfl⟩ := reads_pure.mp named
    exact skipped.trans ((passes_cons '@' letters).trans word)

end Tokens

section Recording

/-- On top of the names before it, the reader records what it passes. -/
structure Records (before : List String) (reader : Reader α) (names : α → List String) : Prop where
  passes : ∀ {text value rest}, Reads reader text value rest →
    ∃ new, names value = before ++ new ∧ Passes .code text new .code rest

variable {before : List String} {names : α → List String} {names' : β → List String}

theorem records_pure {value : α} (h : names value = before) :
    Records before (pure value) names where
  passes read := by
    obtain ⟨rfl, rfl⟩ := reads_pure.mp read
    exact ⟨[], by rw [h, List.append_nil], passes_refl .code _⟩

theorem records_of_not_reads {reader : Reader α}
    (h : ∀ {text value rest}, ¬ Reads reader text value rest) : Records before reader names :=
  ⟨fun read => absurd read h⟩

theorem Records.bind {reader : Reader α} {next : α → Reader β} (first : Records before reader names)
    (later : ∀ value, Records (names value) (next value) names') :
    Records before (reader >>= next) names' where
  passes read := by
    obtain ⟨value, between, read, read'⟩ := reads_bind.mp read
    obtain ⟨new, here, passed⟩ := first.passes read
    obtain ⟨new', there, passed'⟩ := (later value).passes read'
    exact ⟨new ++ new', by rw [there, here, List.append_assoc], passed.trans passed'⟩

theorem Motion.Allows.then {reader : Reader α} {next : α → Reader β} (first : silent.Allows reader)
    (later : ∀ value, Records before (next value) names') :
    Records before (reader >>= next) names' where
  passes {text result rest} read := by
    obtain ⟨value, between, read, read'⟩ := reads_bind.mp read
    obtain ⟨new, there, passed⟩ := (later value).passes read'
    exact ⟨new, there, (first.reads read : Passes .code text [] .code between).trans passed⟩

theorem Records.after {reader : Reader α} (h : Records [] reader names) (before : List String) :
    Records before reader fun value => before ++ names value where
  passes read := by
    obtain ⟨new, here, passed⟩ := h.passes read
    exact ⟨new, congrArg (before ++ ·) here, passed⟩

theorem records_unbounded {within : Nat → Reader α}
    (h : ∀ bound, Records before (within bound) names) :
    Records before (fun text => within text.length text) names :=
  ⟨fun {text _ _} read => (h text.length).passes read⟩

open Motion

section Sequences

variable {step : β → Reader β} (each : ∀ state, Records (names' state) (step state) names')
include each

theorem records_itemsWithin (bound : Nat) (start : β) :
    Records (names' start) (itemsWithin step bound start) names' := by
  induction bound generalizing start with
  | zero =>
    exact (each start).bind fun _ => (allows_expect (by decide)).then fun _ => records_pure rfl
  | succ bound ih =>
    refine (each start).bind fun items => (allows_accept (by decide)).then fun closed => ?_
    cases closed with
    | true => exact records_pure rfl
    | false => exact (allows_expect (by decide)).then fun _ => ih items

theorem records_items (start : β) : Records (names' start) (items step start) names' := by
  refine (allows_expect (by decide)).then fun _ => (allows_accept (by decide)).then fun closed => ?_
  cases closed with
  | true => exact records_pure rfl
  | false => exact records_unbounded (records_itemsWithin each · start)

end Sequences

theorem Records.list {reader : Reader α} (h : Records [] reader names) :
    Records [] (list reader) fun values => values.flatMap names := by
  have each (values : List α) : Records (values.flatMap names) (do
      let value ← reader
      pure (values ++ [value])) fun values => values.flatMap names :=
    (h.after _).bind fun _ => records_pure (by simp)
  exact records_items each []

end Recording

section Functions

open Motion

variable (types : TypeTable)

theorem functionsAll_eq_flatMap {φ : Type} (literals : List (Literal φ)) :
    Literal.functionsAll literals = literals.flatMap Literal.functions := by
  induction literals with
  | nil => rfl
  | cons literal literals ih => rw [Literal.functionsAll, ih, List.flatMap_cons]

theorem records_quoted : Records [] quoted fun _ => [] :=
  ⟨fun read => ⟨[], rfl, passes_quoted read⟩⟩

theorem records_functionName : Records [] functionName fun name => [name] :=
  ⟨fun read => ⟨_, rfl, passes_functionName read⟩⟩

theorem records_literalWithin (bound : Nat) :
    Records [] (literalWithin types bound) Literal.functions := by
  induction bound with
  | zero => exact allows_skip.then fun _ => records_of_not_reads not_reads_unexpected
  | succ bound ih =>
    refine allows_skip.then fun _ => allows_peek?.then fun next => ?_
    split
    · exact records_quoted.bind fun _ => records_pure rfl
    · exact records_functionName.bind fun _ => records_pure rfl
    · exact ih.list.bind fun elements => records_pure (functionsAll_eq_flatMap elements)
    · split
      · exact allows_number.then fun _ => records_pure rfl
      · refine allows_identifier.then fun word => ?_
        split
        · exact records_pure rfl
        · exact (allows_elementRef types).then fun _ => records_pure rfl
        · refine (allows_elementOf types _).then fun _ =>
            (allows_accept (by decide)).then fun opened => ?_
          cases opened with
          | true =>
            exact ih.bind fun _ => (allows_expect (by decide)).then fun _ => records_pure rfl
          | false => exact records_pure rfl

theorem records_literal : Records [] (literal types) Literal.functions :=
  records_unbounded (records_literalWithin types)

theorem records_operation {registers : Registers} {keyword : String}
    {reader : Reader (Operation String)} (h : operation types registers keyword = some reader) :
    Records [] reader Operation.functions := by
  rw [operation.eq_def] at h
  split at h
  · obtain rfl := Option.some.inj h
    exact (records_literal types).bind fun _ => (allows_expect (by decide)).then fun _ =>
      (allows_type types).then fun _ => records_pure rfl
  · obtain rfl := Option.some.inj h
    exact (allows_register registers).list.then fun _ => records_pure rfl
  · obtain rfl := Option.some.inj h
    exact (allows_register registers).then fun _ => (allows_expect (by decide)).then fun _ =>
      allows_smallNumber.then fun _ => records_pure rfl
  · obtain rfl := Option.some.inj h
    exact (allows_elementRef types).then fun _ => (allows_expect (by decide)).then fun _ =>
      (allows_register registers).then fun _ => (allows_expect (by decide)).then fun _ =>
        records_pure rfl
  · obtain rfl := Option.some.inj h
    exact records_pure rfl
  · cases h

section Nested

variable {nested : Nested}
  (inner : ∀ registers, Records [] (nested registers) fun read => Instruction.functionsBody read.1)
include inner

theorem records_caseOf (registers : Registers) : Records [] (caseOf types nested registers)
    fun read => Instruction.functionsBody read.1.action := by
  refine (allows_acceptKeyword (by decide)).then fun found => ?_
  cases found
  case' false => refine (allows_unexpected _).then fun _ => ?_
  all_goals
    refine (allows_guard types registers).then fun _ => (allows_expect (by decide)).then fun _ =>
      (inner _).bind fun _ => (allows_acceptKeyword (by decide)).then fun yields => ?_
    cases yields with
    | true => exact (allows_register _).then fun _ => records_pure rfl
    | false => exact records_pure rfl

theorem records_casesWithin (bound : Nat) (registers : Registers) :
    Records [] (casesWithin types nested bound registers)
      fun read => Instruction.functionsCases read.1 := by
  induction bound generalizing registers with
  | zero =>
    refine (allows_accept (by decide)).then fun closed => ?_
    cases closed with
    | true => exact records_pure rfl
    | false => exact records_of_not_reads not_reads_unexpected
  | succ bound ih =>
    refine (allows_accept (by decide)).then fun closed => ?_
    cases closed with
    | true => exact records_pure rfl
    | false =>
      exact (records_caseOf types inner registers).bind fun _ => ((ih _).after _).bind fun _ =>
        records_pure rfl

theorem records_assignment (registers : Registers) (result : Register) :
    Records [] (assignment types nested registers result) fun read => read.1.functions := by
  refine allows_identifier.then fun keyword => ?_
  split
  · exact (allows_register _).then fun _ => (allows_register _).list.then fun _ => records_pure rfl
  · exact (allows_register _).then fun _ => (allows_expect (by decide)).then fun _ =>
      (records_unbounded (records_casesWithin types inner · _)).bind fun _ => records_pure rfl
  · split
    · exact (records_operation types ‹_›).bind fun _ => records_pure rfl
    · exact records_of_not_reads not_reads_fail

theorem records_instruction (registers : Registers) :
    Records [] (instruction types nested registers) fun read => read.1.functions := by
  refine allows_skip.then fun _ => allows_peek?.then fun next => ?_
  split
  · exact (allows_newRegister registers).then fun _ => (allows_expect (by decide)).then fun _ =>
      records_assignment types inner _ _
  · refine allows_identifier.then fun keyword => ?_
    split
    · exact (allows_expect (by decide)).then fun _ => (inner registers).bind fun _ =>
        records_pure rfl
    · exact records_pure rfl
    · exact records_of_not_reads not_reads_fail

end Nested

theorem records_bodyWithin (bound : Nat) (registers : Registers) :
    Records [] (bodyWithin types bound registers)
      fun read => Instruction.functionsBody read.1 := by
  induction bound generalizing registers with
  | zero => exact (allows_expect (by decide)).then fun _ => records_pure rfl
  | succ bound ih =>
    refine (allows_accept (by decide)).then fun closed => ?_
    cases closed with
    | true => exact records_pure rfl
    | false =>
      refine allows_peek?.then fun next => ?_
      split
      · exact records_of_not_reads not_reads_unexpected
      · exact (records_instruction types ih registers).bind fun _ => ((ih _).after _).bind fun _ =>
          records_pure rfl

theorem records_function (declarations : Declarations) :
    Records [] (function declarations) Function.functions := by
  refine allows_identifier.then fun name => ?_
  split
  · exact records_of_not_reads not_reads_raise
  · exact (allows_items allows_parameters _).then fun _ => (allows_expect (by decide)).then fun _ =>
      allows_registerName.then fun _ => (allows_expect (by decide)).then fun _ =>
        (records_unbounded (records_bodyWithin _ · _)).bind fun _ =>
          (allows_lookup _ (by simp)).then fun _ => records_pure rfl

theorem records_declaration (declarations : Declarations) :
    Records (declarations.functions.flatMap Function.functions) (declaration declarations)
      fun declarations => declarations.functions.flatMap Function.functions := by
  refine allows_identifier.then fun keyword => ?_
  split
  · exact (allows_enumeration _).then fun _ => records_pure rfl
  · exact (allows_record _).then fun _ => records_pure rfl
  · exact (allows_interface _).then fun _ => records_pure rfl
  · exact ((records_function _).after _).bind fun _ =>
      records_pure (by simp [Declarations.addFunction])
  · exact records_of_not_reads not_reads_fail

theorem records_declarationsWithin (bound : Nat) (declarations : Declarations) :
    Records (declarations.functions.flatMap Function.functions)
      (declarationsWithin bound declarations)
      fun declarations => declarations.functions.flatMap Function.functions := by
  induction bound generalizing declarations with
  | zero => exact records_pure rfl
  | succ bound ih =>
    refine allows_skip.then fun _ => allows_peek?.then fun next => ?_
    split
    · exact records_pure rfl
    · exact (records_declaration declarations).bind fun _ => ih _

end Functions

end RegisterIR.Reading
