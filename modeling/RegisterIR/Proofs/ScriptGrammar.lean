import RegisterIR.Script.Expr
import RegisterIR.Text.Digits

/-! How the text of a script expression is read. The text is cut into tokens, each as long as it
can be, and the tokens are put together by a grammar with one level for each strength of operator.
Both follow the script language as far as the expressions on enum values go: whatever else the
language has is read by neither. Main result: a text has at most one reading. -/

namespace RegisterIR.Script

inductive Operator
  | either
  | both
  | compare (comparison : Comparison)
deriving DecidableEq

namespace Operator

/-- The level of the grammar on which the operator stands; a larger one binds tighter. -/
def strength : Operator → Nat
  | either => 1
  | both => 2
  | compare .same => 3
  | compare .differs => 3
  | compare .atLeast => 4
  | compare .atMost => 4

def apply : Operator → Expr → Expr → Expr
  | either => .either
  | both => .both
  | compare comparison => .compare comparison

end Operator

inductive Token
  | name (identifier : String)
  | constant (tag : Tag)
  | text (content : String)
  | operator (operator : Operator)
  | negate
  | typeOf
  | array
  | dot
  | comma
  | opening
  | closing
  | openingBracket
  | closingBracket
deriving DecidableEq

section Tokens

def keywords : List (String × Token) :=
  [("typeof", .typeOf), ("Array", .array), ("true", .constant (.boolean true)),
    ("false", .constant (.boolean false)), ("undefined", .constant .undefined),
    ("null", .constant .null)]

def reserved : List String :=
  ["await", "break", "case", "catch", "class", "const", "continue", "debugger", "default", "delete",
    "do", "else", "enum", "export", "extends", "finally", "for", "function", "if", "implements",
    "import", "in", "instanceof", "interface", "let", "new", "package", "private", "protected",
    "public", "return", "static", "super", "switch", "this", "throw", "try", "var", "void", "while",
    "with", "yield"]

/-- Every punctuator of the language, none of them before a longer one that it begins. -/
def punctuators : List String :=
  [">>>=", "...", "===", "!==", "**=", "<<=", ">>=", ">>>", "&&=", "||=", "??=", "=>", "==", "!=",
    "<=", ">=", "&&", "||", "??", "?.", "++", "--", "**", "<<", ">>", "+=", "-=", "*=", "/=", "%=",
    "&=", "|=", "^=", "\x7b", "\x7d", "(", ")", "[", "]", ".", ";", ",", "<", ">", "+", "-", "*",
    "/", "%", "&", "|", "^", "!", "~", "?", ":", "=", "@", "#"]

def isBlank (c : Char) : Bool := c = ' ' || c = '\t' || c = '\n' || c = '\r'

def isWordChar (c : Char) : Bool := c.isAlphanum || c = '_' || c = '$'

def isPlain (c : Char) : Bool := !(c = '"' || c = '\\' || Text.isControl c)

namespace Token

def ofWord (word : String) : Option Token :=
  match keywords.lookup word with
  | some token => some token
  | none => if word ∈ reserved then none else some (name word)

/-- Integers in base ten, without a sign and without leading zeros, as far as all are exact. -/
def ofDigits (digits : String) : Option Token :=
  let value := Text.ofDigits 10 digits.toList
  if toString value = digits ∧ value ≤ maxSafeInteger then some (constant (.integer value))
  else none

def ofPunctuator : String → Option Token
  | "||" => some (operator .either)
  | "&&" => some (operator .both)
  | "===" => some (operator (.compare .same))
  | "!==" => some (operator (.compare .differs))
  | ">=" => some (operator (.compare .atLeast))
  | "<=" => some (operator (.compare .atMost))
  | "!" => some negate
  | "." => some dot
  | "," => some comma
  | "(" => some opening
  | ")" => some closing
  | "[" => some openingBracket
  | "]" => some closingBracket
  | _ => none

/-- The token at the start of a text, which is as long as it can be, and what follows it. -/
def next (text : List Char) : Option (Token × List Char) := do
  let c ← text.head?
  let word := String.ofList (text.takeWhile isWordChar)
  let behind := text.dropWhile isWordChar
  if c.isDigit then
    -- Digits before a point belong to a fraction.
    if behind.head? = some '.' then none else (ofDigits word).map (·, behind)
  else if isWordChar c then
    (ofWord word).map (·, behind)
  else if c = '"' then
    let content := String.ofList (text.tail.takeWhile isPlain)
    let behind := text.tail.dropWhile isPlain
    if behind.head? = some '"' then some (.text content, behind.tail) else none
  else
    let punctuator ← punctuators.find? fun punctuator => punctuator.toList.isPrefixOf text
    let token ← ofPunctuator punctuator
    some (token, text.drop punctuator.length)

end Token

inductive Lexes : List Char → List Token → Prop
  | nil : Lexes [] []
  | blank {c text tokens} : isBlank c = true → Lexes text tokens → Lexes (c :: text) tokens
  | token {text token rest tokens} : Token.next text = some (token, rest) → Lexes rest tokens →
      Lexes text (token :: tokens)

theorem Token.next_blank {c : Char} (blank : isBlank c = true) (text : List Char) :
    next (c :: text) = none := by
  simp only [isBlank, Bool.or_eq_true, decide_eq_true_eq] at blank
  rcases blank with ((rfl | rfl) | rfl) | rfl <;> rfl

theorem Lexes.unique {text : List Char} {tokens tokens' : List Token} (first : Lexes text tokens)
    (second : Lexes text tokens') : tokens = tokens' := by
  induction first generalizing tokens' with
  | nil =>
    cases second with
    | nil => rfl
    | token found _ => simp [Token.next] at found
  | blank blank _ ih =>
    cases second with
    | blank _ rest => exact ih rest
    | token found _ => simp [Token.next_blank blank] at found
  | token found _ ih =>
    cases second with
    | nil => simp [Token.next] at found
    | blank blank _ => simp [Token.next_blank blank] at found
    | token found' rest =>
      rw [found] at found'
      cases found'
      rw [ih rest]

end Tokens

/-- The grammar of expressions. The operators of `Operator` have the levels 1 to 4, and those on a
level are grouped from the left; level 5 has the operators before their operand, and level 6 names,
literals, expressions in parentheses, arrays, calls, and the elements of such. -/
inductive Parses : Nat → List Token → Expr → Prop
  | name {identifier} : Parses 6 [.name identifier] (.name identifier)
  | constant {tag} : Parses 6 [.constant tag] (.constant tag)
  | text {content} : Parses 6 [.text content] (.text content)
  | group {tokens inner} : Parses 1 tokens inner →
      Parses 6 (.opening :: tokens ++ [.closing]) (.group inner)
  | array {elements : List (List Token × Expr)} :
      (∀ element ∈ elements, Parses 1 element.1 element.2) →
      Parses 6 (.openingBracket :: [.comma].intercalate (elements.map Prod.fst) ++
        [.closingBracket]) (.array (elements.map Prod.snd))
  | isArray {tokens subject} : Parses 1 tokens subject →
      Parses 6 (.array :: .dot :: .name "isArray" :: .opening :: tokens ++ [.closing])
        (.isArray subject)
  | item {tokens subject index} : Parses 6 tokens subject →
      Parses 6 (tokens ++ [.openingBracket, .constant (.integer index), .closingBracket])
        (.item subject index)
  | typeOf {tokens subject} : Parses 5 tokens subject →
      Parses 5 (.typeOf :: tokens) (.typeOf subject)
  | negate {tokens operand} : Parses 5 tokens operand →
      Parses 5 (.negate :: tokens) (.negate operand)
  | binary {tokens tokens' left right} (operator : Operator) :
      Parses operator.strength tokens left → Parses (operator.strength + 1) tokens' right →
      Parses operator.strength (tokens ++ .operator operator :: tokens') (operator.apply left right)
  | looser {level tokens expression} : Parses (level + 1) tokens expression →
      Parses level tokens expression

def Reads (text : String) (expression : Expr) : Prop :=
  ∃ tokens, Lexes text.toList tokens ∧ Parses 1 tokens expression

/-! The grammar repeats itself on the left, so a reading is not found by following it. `Takes` says
how tokens are read from left to right, one decision at a time; it reads whatever the grammar
allows, and it leaves no choice. -/

inductive Task
  | primary
  | elements (before : List Expr)
  | indices (subject : Expr)
  | operand
  | expression (level : Nat)
  | operators (level : Nat) (left : Expr)

/-- What a task makes of the tokens, and the tokens that it leaves. -/
inductive Takes : Task → List Token → Expr → List Token → Prop
  | name {identifier rest} : Takes .primary (.name identifier :: rest) (.name identifier) rest
  | constant {tag rest} : Takes .primary (.constant tag :: rest) (.constant tag) rest
  | text {content rest} : Takes .primary (.text content :: rest) (.text content) rest
  | group {tokens inner rest} : Takes (.expression 1) tokens inner (.closing :: rest) →
      Takes .primary (.opening :: tokens) (.group inner) rest
  | noElements {rest} :
      Takes .primary (.openingBracket :: .closingBracket :: rest) (.array []) rest
  | array {tokens result rest} : Takes (.elements []) tokens result rest →
      Takes .primary (.openingBracket :: tokens) result rest
  | lastElement {before tokens element rest} :
      Takes (.expression 1) tokens element (.closingBracket :: rest) →
      Takes (.elements before) tokens (.array (before ++ [element])) rest
  | nextElement {before tokens element behind result rest} :
      Takes (.expression 1) tokens element (.comma :: behind) →
      Takes (.elements (before ++ [element])) behind result rest →
      Takes (.elements before) tokens result rest
  | isArray {tokens subject rest} : Takes (.expression 1) tokens subject (.closing :: rest) →
      Takes .primary (.array :: .dot :: .name "isArray" :: .opening :: tokens)
        (.isArray subject) rest
  | index {subject index tokens result rest} :
      Takes (.indices (.item subject index)) tokens result rest →
      Takes (.indices subject)
        (.openingBracket :: .constant (.integer index) :: .closingBracket :: tokens) result rest
  | noIndex {subject tokens} : tokens.head? ≠ some .openingBracket →
      Takes (.indices subject) tokens subject tokens
  | subject {tokens subject behind result rest} : Takes .primary tokens subject behind →
      Takes (.indices subject) behind result rest → Takes .operand tokens result rest
  | typeOf {tokens subject rest} : Takes .operand tokens subject rest →
      Takes .operand (.typeOf :: tokens) (.typeOf subject) rest
  | negate {tokens operand rest} : Takes .operand tokens operand rest →
      Takes .operand (.negate :: tokens) (.negate operand) rest
  | expression {level tokens left behind result rest} : Takes .operand tokens left behind →
      Takes (.operators level left) behind result rest →
      Takes (.expression level) tokens result rest
  | operator {level operator left right tokens behind result rest} : level ≤ operator.strength →
      Takes (.expression (operator.strength + 1)) tokens right behind →
      Takes (.operators level (operator.apply left right)) behind result rest →
      Takes (.operators level left) (.operator operator :: tokens) result rest
  | noOperator {level left tokens} :
      (∀ operator, tokens.head? = some (.operator operator) → operator.strength < level) →
      Takes (.operators level left) tokens left tokens

theorem not_takes_closingBracket {tokens rest : List Token} {level : Nat} {result : Expr} :
    ¬ Takes (.expression level) (.closingBracket :: tokens) result rest := by
  intro h
  cases h with
  | expression operand _ =>
    cases operand with
    | subject primary _ => cases primary

theorem Takes.unique {task : Task} {tokens rest rest' : List Token} {result result' : Expr}
    (first : Takes task tokens result rest) (second : Takes task tokens result' rest') :
    result = result' ∧ rest = rest' := by
  induction first generalizing result' rest' with
  | name => cases second with | name => exact ⟨rfl, rfl⟩
  | constant => cases second with | constant => exact ⟨rfl, rfl⟩
  | text => cases second with | text => exact ⟨rfl, rfl⟩
  | group _ ih =>
    cases second with
    | group inner =>
      obtain ⟨rfl, same⟩ := ih inner
      exact ⟨rfl, List.tail_eq_of_cons_eq same⟩
  | noElements =>
    cases second with
    | noElements => exact ⟨rfl, rfl⟩
    | array elements =>
      cases elements with
      | lastElement element => exact absurd element not_takes_closingBracket
      | nextElement element _ => exact absurd element not_takes_closingBracket
  | array elements ih =>
    cases second with
    | noElements =>
      cases elements with
      | lastElement element => exact absurd element not_takes_closingBracket
      | nextElement element _ => exact absurd element not_takes_closingBracket
    | array elements' => exact ih elements'
  | lastElement _ ih =>
    cases second with
    | lastElement element =>
      obtain ⟨rfl, same⟩ := ih element
      exact ⟨rfl, List.tail_eq_of_cons_eq same⟩
    | nextElement element _ => cases (ih element).2
  | nextElement _ _ elementIH ih =>
    cases second with
    | lastElement element => cases (elementIH element).2
    | nextElement element later =>
      obtain ⟨rfl, same⟩ := elementIH element
      obtain rfl := List.tail_eq_of_cons_eq same
      exact ih later
  | isArray _ ih =>
    cases second with
    | isArray subject =>
      obtain ⟨rfl, same⟩ := ih subject
      exact ⟨rfl, List.tail_eq_of_cons_eq same⟩
  | index _ ih =>
    cases second with
    | index later => exact ih later
    | noIndex stop => exact absurd rfl stop
  | noIndex stop =>
    cases second with
    | index _ => exact absurd rfl stop
    | noIndex _ => exact ⟨rfl, rfl⟩
  | subject primary _ primaryIH ih =>
    cases second with
    | subject primary' later =>
      obtain ⟨rfl, rfl⟩ := primaryIH primary'
      exact ih later
    | typeOf _ => cases primary
    | negate _ => cases primary
  | typeOf _ ih =>
    cases second with
    | subject primary _ => cases primary
    | typeOf subject =>
      obtain ⟨rfl, rfl⟩ := ih subject
      exact ⟨rfl, rfl⟩
  | negate _ ih =>
    cases second with
    | subject primary _ => cases primary
    | negate operand =>
      obtain ⟨rfl, rfl⟩ := ih operand
      exact ⟨rfl, rfl⟩
  | expression _ _ operandIH ih =>
    cases second with
    | expression operand second =>
      obtain ⟨rfl, rfl⟩ := operandIH operand
      exact ih second
  | operator level _ _ rightIH ih =>
    cases second with
    | operator _ right second =>
      obtain ⟨rfl, rfl⟩ := rightIH right
      exact ih second
    | noOperator stop => exact absurd (stop _ rfl) (Nat.not_lt.mpr level)
  | noOperator stop =>
    cases second with
    | operator level _ _ => exact absurd (stop _ rfl) (Nat.not_lt.mpr level)
    | noOperator _ => exact ⟨rfl, rfl⟩

/-- The tokens continue no expression of the level: they begin neither with an index nor with a
tighter operator. -/
structure Stops (level : Nat) (rest : List Token) : Prop where
  noIndex : rest.head? ≠ some .openingBracket
  operator : ∀ operator, rest.head? = some (.operator operator) → operator.strength ≤ level

theorem Stops.mono {level level' : Nat} {rest : List Token} (h : Stops level rest)
    (looser : level ≤ level') : Stops level' rest where
  noIndex := h.noIndex
  operator operator next := Nat.le_trans (h.operator operator next) looser

/-- Reading from left to right finds an expression of the grammar, whatever follows it: on the
highest level with the indices behind it still to read, above the operators as an operand, and on
any level with those operators behind it still to read that are not tighter. -/
structure Found (level : Nat) (tokens : List Token) (expression : Expr) : Prop where
  subject : 6 ≤ level → ∀ {rest result rest'}, Takes (.indices expression) rest result rest' →
    Takes .operand (tokens ++ rest) result rest'
  operand : 5 ≤ level → ∀ {rest}, rest.head? ≠ some .openingBracket →
    Takes .operand (tokens ++ rest) expression rest
  expression : ∀ {floor rest result rest'}, floor ≤ level → Stops level rest →
    Takes (.operators floor expression) rest result rest' →
    Takes (.expression floor) (tokens ++ rest) result rest'

namespace Found

variable {level : Nat} {tokens tokens' : List Token} {expression left right : Expr}

theorem of_subject (subject : ∀ {rest result rest'},
    Takes (.indices expression) rest result rest' → Takes .operand (tokens ++ rest) result rest') :
    Found level tokens expression where
  subject _ _ _ _ := subject
  operand _ _ stop := subject (.noIndex stop)
  expression _ stops := .expression (subject (.noIndex stops.noIndex))

theorem of_primary (primary : ∀ rest, Takes .primary (tokens ++ rest) expression rest) :
    Found level tokens expression :=
  of_subject fun indices => .subject (primary _) indices

theorem of_operand (low : level < 6) (operand : ∀ {rest},
    rest.head? ≠ some .openingBracket → Takes .operand (tokens ++ rest) expression rest) :
    Found level tokens expression where
  subject high := absurd low (Nat.not_lt.mpr high)
  operand _ _ := operand
  expression _ stops := .expression (operand stops.noIndex)

theorem item (found : Found 6 tokens expression) (index : Nat) :
    Found 6 (tokens ++ [.openingBracket, .constant (.integer index), .closingBracket])
      (.item expression index) := by
  refine of_subject fun indices => ?_
  rw [List.append_assoc]
  exact found.subject (Nat.le_refl 6) (.index indices)

theorem binary (operator : Operator) (first : Found operator.strength tokens left)
    (second : Found (operator.strength + 1) tokens' right) :
    Found operator.strength (tokens ++ .operator operator :: tokens')
      (operator.apply left right) := by
  have weak : operator.strength < 5 := by rcases operator with _ | _ | (_ | _ | _ | _) <;> decide
  refine ⟨fun strong => absurd strong (by omega), fun strong => absurd strong (by omega), ?_⟩
  intro floor rest result rest' reached stops taken
  -- The right operand stops before the operators behind it, which are not tighter.
  have rightTaken : Takes (.expression (operator.strength + 1)) (tokens' ++ rest) right rest :=
    second.expression (Nat.le_refl _) (stops.mono (Nat.le_succ _))
      (.noOperator fun next head => Nat.lt_succ_of_le (stops.operator next head))
  rw [List.append_assoc, List.cons_append]
  refine first.expression reached ⟨by simp, ?_⟩ (.operator reached rightTaken taken)
  intro next head
  cases head
  exact Nat.le_refl _

theorem looser (found : Found (level + 1) tokens expression) : Found level tokens expression where
  subject high := found.subject (Nat.le_succ_of_le high)
  operand strong := found.operand (Nat.le_succ_of_le strong)
  expression reached stops :=
    found.expression (Nat.le_succ_of_le reached) (stops.mono (Nat.le_succ level))

theorem takes (found : Found 1 tokens expression) {rest : List Token}
    (noIndex : rest.head? ≠ some .openingBracket)
    (noOperator : ∀ operator, rest.head? ≠ some (.operator operator)) :
    Takes (.expression 1) (tokens ++ rest) expression rest :=
  found.expression (Nat.le_refl 1) ⟨noIndex, fun operator next => absurd next (noOperator operator)⟩
    (.noOperator fun operator next => absurd next (noOperator operator))

theorem takes_elements {element : List Token × Expr} {elements : List (List Token × Expr)}
    (each : ∀ part ∈ element :: elements, Found 1 part.1 part.2) (before : List Expr)
    (rest : List Token) :
    Takes (.elements before)
      ([.comma].intercalate ((element :: elements).map Prod.fst) ++ .closingBracket :: rest)
      (.array (before ++ (element :: elements).map Prod.snd)) rest := by
  obtain ⟨own, others⟩ := List.forall_mem_cons.mp each
  induction elements generalizing element before with
  | nil =>
    have last : Takes (.expression 1) (element.1 ++ .closingBracket :: rest) element.2
        (.closingBracket :: rest) := own.takes (by simp) (by simp)
    simpa [List.intercalate] using Takes.lastElement last
  | cons next elements ih =>
    obtain ⟨own', others'⟩ := List.forall_mem_cons.mp others
    have later := ih others (before ++ [element.2]) own' others'
    have shown : [.comma].intercalate ((element :: next :: elements).map Prod.fst) ++
        .closingBracket :: rest = element.1 ++ .comma ::
          ([.comma].intercalate ((next :: elements).map Prod.fst) ++ .closingBracket :: rest) := by
      simp [List.intercalate]
    rw [shown]
    refine .nextElement (own.takes (by simp) (by simp)) ?_
    simpa using later

end Found

theorem Parses.found {level : Nat} {tokens : List Token} {expression : Expr}
    (h : Parses level tokens expression) : Found level tokens expression := by
  induction h with
  | name => exact .of_primary fun _ => .name
  | constant => exact .of_primary fun _ => .constant
  | text => exact .of_primary fun _ => .text
  | group _ ih =>
    refine .of_primary fun rest => ?_
    simp only [List.cons_append, List.append_assoc]
    exact .group (ih.takes (by simp) (by simp))
  | @array elements _ ih =>
    refine .of_primary fun rest => ?_
    simp only [List.cons_append, List.append_assoc]
    cases elements with
    | nil => exact .noElements
    | cons element elements => exact .array (Found.takes_elements ih [] rest)
  | isArray _ ih =>
    refine .of_primary fun rest => ?_
    simp only [List.cons_append, List.append_assoc]
    exact .isArray (ih.takes (by simp) (by simp))
  | item _ ih => exact ih.item _
  | typeOf _ ih =>
    exact .of_operand (by decide) fun stop => .typeOf (ih.operand (Nat.le_refl 5) stop)
  | negate _ ih =>
    exact .of_operand (by decide) fun stop => .negate (ih.operand (Nat.le_refl 5) stop)
  | binary operator _ _ first second => exact first.binary operator second
  | looser _ ih => exact ih.looser

theorem Parses.unique {tokens : List Token} {first second : Expr} (h : Parses 1 tokens first)
    (h' : Parses 1 tokens second) : first = second := by
  have taken : Takes (.expression 1) (tokens ++ []) first [] := h.found.takes (by simp) (by simp)
  exact (taken.unique (h'.found.takes (by simp) (by simp))).1

/-- A text has at most one reading. -/
theorem Reads.unique {text : String} {first second : Expr} (h : Reads text first)
    (h' : Reads text second) : first = second := by
  obtain ⟨tokens, lexed, parsed⟩ := h
  obtain ⟨tokens', lexed', parsed'⟩ := h'
  rw [lexed'.unique lexed] at parsed'
  exact parsed.unique parsed'

end RegisterIR.Script
