import RegisterIR.Proofs.ScriptEvaluation
import RegisterIR.Proofs.ScriptGrammar
import RegisterIR.Proofs.Tokens

/-! The text of the test on whether a value lies in a set. An expression is `Written` at a level
when its text reads as the expression itself there, whatever follows that does not continue its
last token; the tests are, and so their text has the meaning of the expression. -/

namespace RegisterIR

namespace Script

variable {rest : List Char} {tokens tokens' more : List Token}

/-- What follows an expression: nothing, or a character that continues neither a word nor a
number. -/
def Ends (rest : List Char) : Prop := ∀ c ∈ rest.head?, isWordChar c = false ∧ c ≠ '.'

theorem ends_cons {c : Char} (h : isWordChar c = false ∧ c ≠ '.') (rest : List Char) :
    Ends (c :: rest) := by
  rintro _ ⟨⟩
  exact h

def IsName (identifier : String) : Prop :=
  identifier.toList.all isWordChar = true ∧
    (∃ c ∈ identifier.toList.head?, c.isDigit = false) ∧
    Token.ofWord identifier = some (.name identifier)

namespace Token

theorem next_word {word : String} {token : Token} (all : word.toList.all isWordChar = true)
    (head : ∃ c ∈ word.toList.head?, c.isDigit = false) (meaning : ofWord word = some token)
    (ends : ∀ c ∈ rest.head?, isWordChar c = false) :
    next (word.toList ++ rest) = some (token, rest) := by
  have each := List.all_eq_true.mp all
  obtain ⟨taken, left⟩ := Reading.takeWhile_append_of_ends each ends
  obtain ⟨c, first, noDigit⟩ := head
  have wordChar : isWordChar c = true := each c (List.mem_of_mem_head? first)
  rw [next, List.head?_append, Option.mem_def.mp first, taken, left, String.ofList_toList]
  simp [noDigit, wordChar, meaning]

theorem next_digits {digits : String} {token : Token} (nonempty : digits.toList ≠ [])
    (all : ∀ c ∈ digits.toList, c.isDigit = true) (meaning : ofDigits digits = some token)
    (ends : Ends rest) : next (digits.toList ++ rest) = some (token, rest) := by
  have wordChars : ∀ c ∈ digits.toList, isWordChar c = true := fun c member => by
    simp [isWordChar, Char.isAlphanum, all c member]
  obtain ⟨taken, left⟩ := Reading.takeWhile_append_of_ends wordChars fun c head => (ends c head).1
  obtain ⟨c, first⟩ : ∃ c, digits.toList.head? = some c :=
    Option.ne_none_iff_exists'.mp (mt List.head?_eq_none_iff.mp nonempty)
  have noPoint : rest.head? ≠ some '.' := fun head => (ends '.' head).2 rfl
  rw [next, List.head?_append, first, taken, left, String.ofList_toList]
  simp [all c (List.mem_of_mem_head? first), noPoint, meaning]

theorem next_number {n : Nat} (safe : n ≤ maxSafeInteger) (ends : Ends rest) :
    next ((toString n).toList ++ rest) = some (.constant (.integer n), rest) := by
  have meaning : ofDigits (toString n) = some (.constant (.integer n)) := by
    rw [ofDigits, Reading.ofDigits_toString]
    exact if_pos ⟨rfl, safe⟩
  exact next_digits (Reading.isWord_toString n).1 (fun _ => Reading.isDigit_of_mem_toString)
    meaning ends

theorem next_text {content : String} (plain : content.toList.all isPlain = true) :
    next ('"' :: content.toList ++ '"' :: rest) = some (.text content, rest) := by
  have ends : ∀ c ∈ ('"' :: rest).head?, isPlain c = false := by simp [isPlain]
  obtain ⟨taken, left⟩ :=
    Reading.takeWhile_append_of_ends (List.all_eq_true.mp plain) ends
  rw [next, List.cons_append, List.head?_cons, List.tail_cons, taken, left, String.ofList_toList]
  rfl

end Token

theorem escaped_of_isPlain {c : Char} (plain : isPlain c = true) : Text.escaped c = [c] := by
  simp only [isPlain, Bool.not_eq_true', Bool.or_eq_false_iff, decide_eq_false_iff_not] at plain
  obtain ⟨⟨noQuote, noBackslash⟩, noControl⟩ := plain
  have noNewline : c ≠ '\n' := by rintro rfl; cases noControl
  have noReturn : c ≠ '\r' := by rintro rfl; cases noControl
  have noTab : c ≠ '\t' := by rintro rfl; cases noControl
  simp [Text.escaped, noQuote, noBackslash, noNewline, noReturn, noTab, noControl]

def Operator.symbol : Operator → String
  | either => "||"
  | both => "&&"
  | compare comparison => comparison.symbol

/-- The text is cut into the tokens, whatever follows it. -/
def Cuts (text : String) (tokens : List Token) : Prop :=
  ∀ ⦃rest more⦄, Ends rest → Lexes rest more → Lexes (text.toList ++ rest) (tokens ++ more)

namespace Cuts

theorem word {word : String} {token : Token} (all : word.toList.all isWordChar = true)
    (head : ∃ c ∈ word.toList.head?, c.isDigit = false)
    (meaning : Token.ofWord word = some token) : Cuts word [token] := fun _ _ ends lexed =>
  .token (Token.next_word all head meaning fun c first => (ends c first).1) lexed

theorem constant (tag : Tag) (safe : ∀ n, tag = .integer n → n ≤ maxSafeInteger) :
    Cuts tag.render [.constant tag] := by
  cases tag with
  | integer n =>
    intro rest more ends lexed
    exact .token (Token.next_number (safe n rfl) ends) lexed
  | boolean b => cases b <;> exact word (by decide) (by simp [Tag.render]) (by decide)
  | undefined => exact word (by decide) (by simp [Tag.render]) (by decide)
  | null => exact word (by decide) (by simp [Tag.render]) (by decide)

theorem text {content : String} (plain : content.toList.all isPlain = true) :
    Cuts (Text.quoted content) [.text content] := by
  intro rest more _ lexed
  have each : ∀ c ∈ content.toList, Text.escaped c = [c] := fun c member =>
    escaped_of_isPlain (List.all_eq_true.mp plain c member)
  have unescaped : content.toList.flatMap Text.escaped = content.toList := by
    rw [List.flatMap_def, List.map_congr_left each, ← List.flatMap_def, List.flatMap_singleton']
  have shown : (Text.quoted content).toList ++ rest = '"' :: content.toList ++ '"' :: rest := by
    simp [Text.quotedChars, unescaped]
  rw [shown]
  exact .token (Token.next_text plain) lexed

variable {inner left right : String}

theorem typeOf (h : Cuts inner tokens) : Cuts ("typeof " ++ inner) (.typeOf :: tokens) := by
  intro rest more ends lexed
  have blank : Lexes (' ' :: (inner.toList ++ rest)) (tokens ++ more) := .blank rfl (h ends lexed)
  have keyword : Cuts "typeof" [.typeOf] := word (by decide) (by simp) (by decide)
  simpa using keyword (ends_cons (by decide) _) blank

theorem parenthesized (h : Cuts inner tokens) (lexed : Lexes rest more) :
    Lexes ('(' :: (inner.toList ++ ')' :: rest)) (.opening :: (tokens ++ .closing :: more)) := by
  have behind : Lexes (')' :: rest) (.closing :: more) := .token rfl lexed
  exact .token rfl (h (ends_cons (by decide) _) behind)

theorem group (h : Cuts inner tokens) :
    Cuts ("(" ++ inner ++ ")") (.opening :: tokens ++ [.closing]) := by
  intro rest more _ lexed
  simpa using h.parenthesized lexed

theorem isArray (h : Cuts inner tokens) : Cuts ("Array.isArray(" ++ inner ++ ")")
    (.array :: .dot :: .name "isArray" :: .opening :: tokens ++ [.closing]) := by
  intro rest more _ lexed
  have method : Cuts "isArray" [.name "isArray"] := word (by decide) (by simp) (by decide)
  have called := method (ends_cons (by decide) _) (h.parenthesized lexed)
  have pointed : Lexes ('.' :: ("isArray".toList ++ '(' :: (inner.toList ++ ')' :: rest)))
      (.dot :: .name "isArray" :: .opening :: (tokens ++ .closing :: more)) := .token rfl called
  -- The point that follows `Array` ends a word, though not a number.
  have object : Token.next
      ("Array".toList ++ '.' :: ("isArray".toList ++ '(' :: (inner.toList ++ ')' :: rest))) =
        some (.array, '.' :: ("isArray".toList ++ '(' :: (inner.toList ++ ')' :: rest))) :=
    Token.next_word (by decide) (by simp) (by decide) (by simp [isWordChar])
  simpa using Lexes.token object pointed

theorem notArray (h : Cuts inner tokens) : Cuts ("!" ++ ("Array.isArray(" ++ inner ++ ")"))
    (.negate :: .array :: .dot :: .name "isArray" :: .opening :: tokens ++ [.closing]) := by
  intro rest more ends lexed
  have called := h.isArray ends lexed
  simp only [String.toList_append, List.append_assoc] at called ⊢
  exact .token rfl called

theorem operator (operator : Operator) (h : Cuts left tokens) (h' : Cuts right tokens') :
    Cuts (left ++ " " ++ operator.symbol ++ " " ++ right)
      (tokens ++ .operator operator :: tokens') := by
  intro rest more ends lexed
  have blank : Lexes (' ' :: (right.toList ++ rest)) (tokens' ++ more) :=
    .blank rfl (h' ends lexed)
  have found : Token.next (operator.symbol.toList ++ ' ' :: (right.toList ++ rest)) =
      some (.operator operator, ' ' :: (right.toList ++ rest)) := by
    rcases operator with _ | _ | (_ | _ | _ | _) <;> rfl
  have blank' : Lexes (' ' :: (operator.symbol.toList ++ ' ' :: (right.toList ++ rest)))
      (.operator operator :: (tokens' ++ more)) := .blank rfl (.token found blank)
  simpa using h (ends_cons (by decide) _) blank'

end Cuts

/-- The text of the expression reads as the expression, on the level, whatever follows it. -/
def Written (level : Nat) (expression : Expr) : Prop :=
  ∃ tokens, Cuts expression.render tokens ∧ Parses level tokens expression

theorem Written.mono {level level' : Nat} {expression : Expr} (h : Written level' expression)
    (looser : level ≤ level') : Written level expression := by
  obtain ⟨tokens, cut, parsed⟩ := h
  refine ⟨tokens, cut, ?_⟩
  induction looser with
  | refl => exact parsed
  | step _ ih => exact ih (.looser parsed)

theorem Written.reads {expression : Expr} (h : Written 1 expression) :
    Reads expression.render expression := by
  obtain ⟨tokens, cut, parsed⟩ := h
  have lexed : Lexes (expression.render.toList ++ []) (tokens ++ []) := cut (by simp [Ends]) .nil
  rw [List.append_nil, List.append_nil] at lexed
  exact ⟨tokens, lexed, parsed⟩

namespace Expr

variable {subject left right : Expr}

theorem written_name {identifier : String} (h : IsName identifier) :
    Written 6 (name identifier) :=
  ⟨_, .word h.1 h.2.1 h.2.2, .name⟩

theorem written_constant (tag : Tag) (safe : ∀ n, tag = .integer n → n ≤ maxSafeInteger) :
    Written 6 (constant tag) :=
  ⟨_, .constant tag safe, .constant⟩

theorem written_text {content : String} (plain : content.toList.all isPlain = true) :
    Written 6 (text content) :=
  ⟨_, .text plain, .text⟩

theorem written_group (h : Written 1 subject) : Written 6 (group subject) := by
  obtain ⟨tokens, cut, parsed⟩ := h
  exact ⟨_, cut.group, .group parsed⟩

theorem written_isArray (h : Written 1 subject) : Written 6 (isArray subject) := by
  obtain ⟨tokens, cut, parsed⟩ := h
  exact ⟨_, cut.isArray, .isArray parsed⟩

theorem written_notArray (h : Written 1 subject) : Written 5 (negate (isArray subject)) := by
  obtain ⟨tokens, cut, parsed⟩ := h
  exact ⟨_, cut.notArray, .negate (.looser (.isArray parsed))⟩

theorem written_typeOf (h : Written 5 subject) : Written 5 (typeOf subject) := by
  obtain ⟨tokens, cut, parsed⟩ := h
  exact ⟨_, cut.typeOf, .typeOf parsed⟩

theorem render_apply (operator : Operator) (left right : Expr) :
    (operator.apply left right).render =
      left.render ++ " " ++ operator.symbol ++ " " ++ right.render := by
  have spaced (symbol : String) : left.render ++ (" " ++ symbol ++ " ") ++ right.render =
      left.render ++ " " ++ symbol ++ " " ++ right.render := by
    simp only [String.append_assoc]
  cases operator with
  | either => exact spaced "||"
  | both => exact spaced "&&"
  | compare comparison => rfl

theorem written_apply (operator : Operator) (h : Written operator.strength left)
    (h' : Written (operator.strength + 1) right) :
    Written operator.strength (operator.apply left right) := by
  obtain ⟨tokens, cut, parsed⟩ := h
  obtain ⟨tokens', cut', parsed'⟩ := h'
  refine ⟨_, ?_, .binary operator parsed parsed'⟩
  rw [render_apply]
  exact cut.operator operator cut'

theorem written_compared (comparison : Comparison) (h : Written 5 left) (h' : Written 5 right) :
    Written 6 (compared comparison left right) := by
  have compares :
      Written (Operator.compare comparison).strength (compare comparison left right) := by
    cases comparison <;>
      exact written_apply (.compare _) (h.mono (by decide)) (h'.mono (by decide))
  refine written_group (compares.mono ?_)
  cases comparison <;> decide

theorem written_compared_constant (comparison : Comparison) (h : Written 6 subject) (tag : Tag)
    (safe : ∀ n, tag = .integer n → n ≤ maxSafeInteger) :
    Written 6 (compared comparison subject (constant tag)) :=
  written_compared comparison (h.mono (by decide)) ((written_constant tag safe).mono (by decide))

theorem written_hasType (h : Written 6 subject) {type : String}
    (plain : type.toList.all isPlain = true) : Written 6 (hasType subject type) :=
  written_compared .same (written_typeOf (h.mono (by decide)))
    ((written_text plain).mono (by decide))

theorem written_conjunction {last : Expr} (h : Written 6 left) (h' : Written 6 right)
    (h'' : Written 5 last) : Written 6 (group (both (both left right) last)) := by
  have first : Written 2 (both left right) :=
    written_apply .both (h.mono (by decide)) (h'.mono (by decide))
  have all : Written 2 (both (both left right) last) :=
    written_apply .both first (h''.mono (by decide))
  exact written_group (all.mono (by decide))

theorem written_foldl_either (tests : List Expr) : ∀ {first : Expr}, Written 1 first →
    (∀ test ∈ tests, Written 6 test) → Written 1 (tests.foldl either first) := by
  induction tests with
  | nil => exact fun h _ => h
  | cons test tests ih =>
    intro first h each
    have head : Written 2 test := (each test List.mem_cons_self).mono (by decide)
    exact ih (written_apply .either h head) fun other member =>
      each other (List.mem_cons_of_mem _ member)

end Expr

end Script

open Script (Written)

variable {subject : Script.Expr}

theorem Kind.written_check (h : Written 6 subject) (kind : Kind) :
    Written 6 (kind.check subject) := by
  cases kind with
  | undefined => exact Script.Expr.written_compared_constant .same h .undefined (by simp)
  | null => exact Script.Expr.written_compared_constant .same h .null (by simp)
  | string => exact Script.Expr.written_hasType h (by decide)
  | array => exact Script.Expr.written_isArray (h.mono (by decide))
  | object =>
    have isObject : Written 6 (.hasType subject "object") :=
      Script.Expr.written_hasType h (by decide)
    have nonNull : Written 6 (.compared .differs subject (.constant .null)) :=
      Script.Expr.written_compared_constant .differs h .null (by simp)
    exact Script.Expr.written_conjunction isObject nonNull
      (Script.Expr.written_notArray (h.mono (by decide)))
  | function => exact Script.Expr.written_hasType h (by decide)
  | isTrue => exact Script.Expr.written_compared_constant .same h (.boolean true) (by simp)
  | isFalse => exact Script.Expr.written_compared_constant .same h (.boolean false) (by simp)

theorem SafeRange.written_checks (h : Written 6 subject) (range : SafeRange) :
    ∀ test ∈ range.checks subject, Written 6 test := by
  intro test member
  rw [checks_eq] at member
  split at member
  · simp at member
  rename_i filled
  rw [isEmpty, decide_eq_true_iff] at filled
  have safe := range.safe
  have bound (comparison : Script.Comparison) {n : Nat} (inside : n < range.afterLast) :
      Written 6 (.compared comparison subject (.number n)) := by
    refine Script.Expr.written_compared_constant comparison h (.integer n) ?_
    rintro _ ⟨⟩
    omega
  split at member <;> obtain rfl := List.mem_singleton.mp member
  · exact bound .same (Nat.not_le.mp filled)
  · exact Script.Expr.written_conjunction (Script.Expr.written_hasType h (by decide))
      (bound .atLeast (Nat.not_le.mp filled)) ((bound .atMost (by omega)).mono (by decide))

namespace ValueSet

theorem written_check (h : Written 6 subject) (set : ValueSet) :
    Written 6 (set.check subject) := by
  have each : ∀ test ∈ set.integers.checks subject ++ set.kinds.map (Kind.check subject),
      Written 6 test := by
    intro test member
    rcases List.mem_append.mp member with range | mapped
    · exact set.integers.written_checks h test range
    · obtain ⟨kind, _, rfl⟩ := List.mem_map.mp mapped
      exact kind.written_check h
  rw [check]
  split
  · exact Script.Expr.written_constant (.boolean false) (by simp)
  · rename_i test only
    exact each test (by simp [only])
  · rename_i first rest _ several
    rw [several] at each
    have chain := Script.Expr.written_foldl_either rest
      ((each first List.mem_cons_self).mono (by decide)) fun test member =>
        each test (List.mem_cons_of_mem _ member)
    exact Script.Expr.written_group chain

/-- The text of the test for a set has a reading, and read in whichever way it tests whether the
value of the variable lies in the set. -/
theorem reading_tests_membership {identifier : String} (named : Script.IsName identifier)
    {environment : Script.Environment} {value : Script.Value}
    (bound : environment identifier = some value) (ordinary : ∀ type, value ≠ .other type)
    (set : ValueSet) :
    (∃ reading, Script.Reads (set.check (.name identifier)).render reading) ∧
    ∀ reading, Script.Reads (set.check (.name identifier)).render reading →
      Script.Expr.Tests environment reading (value ∈ set) := by
  have written : Written 1 (set.check (.name identifier)) :=
    (set.written_check (Script.Expr.written_name named)).mono (by decide)
  refine ⟨⟨_, written.reads⟩, fun reading read => ?_⟩
  have known : (Script.Expr.name identifier).eval environment = some value := bound
  rw [read.unique written.reads]
  exact set.tests_check known ordinary

def smallOrObject : ValueSet :=
  ⟨⟨2, 6, by decide⟩, fun kind => kind = .object || kind = .isTrue⟩

/-- Null has the type of an object, but does not pass for one. -/
theorem reading_tests_membership_null :
    let text := "(((typeof r3_key === \"number\") && (r3_key >= 2) && (r3_key <= 5))" ++
      " || ((typeof r3_key === \"object\") && (r3_key !== null) && !Array.isArray(r3_key))" ++
      " || (r3_key === true))"
    Script.IsName "r3_key" ∧ (smallOrObject.check (.name "r3_key")).render = text ∧
    (∃ reading, Script.Reads text reading) ∧
    ∀ reading, Script.Reads text reading →
      reading.eval (fun _ => some .null) = some (.boolean false) := by
  have named : Script.IsName "r3_key" := ⟨by decide, ⟨'r', rfl, rfl⟩, by decide⟩
  intro text
  have shown : (smallOrObject.check (.name "r3_key")).render = text := rfl
  have outside : ¬ Script.Value.null ∈ smallOrObject := by
    simp [mem_def, Script.Value.natural?, Script.Value.kind?, smallOrObject]
  let environment : Script.Environment := fun _ => some .null
  have bound : environment "r3_key" = some .null := rfl
  obtain ⟨readable, tests⟩ := reading_tests_membership named bound (by simp) smallOrObject
  rw [shown] at readable tests
  refine ⟨named, shown, readable, fun reading read => ?_⟩
  obtain ⟨holds, evaluated, meaning⟩ := tests reading read
  rw [evaluated, Bool.eq_false_iff.mpr (mt meaning.mp outside)]

end ValueSet

end RegisterIR
