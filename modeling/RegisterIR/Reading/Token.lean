import RegisterIR.Reading.Error
import RegisterIR.Text.Blank
import RegisterIR.Text.Digits

/-! Readers over the rest of a text, and the tokens of the written form. Blanks and comments may
stand before any token; a comment runs from a semicolon to the end of its line. Loops are bounded
by the number of characters left: each round reads at least one, and with none left a loop fails
as its first token does. -/

namespace RegisterIR.Reading

/-- A reader turns the rest of a text into a result and what is left after it. -/
abbrev Reader := StateT (List Char) (Except (ParseError (List Char)))

variable {α β : Type}

def skipFrom (inComment : Bool) : List Char → List Char
  | [] => []
  | c :: rest =>
    if inComment then skipFrom (c ≠ '\n') rest
    else if c = ';' then skipFrom true rest
    else if Text.isBlank c then skipFrom false rest
    else c :: rest

def skip : Reader Unit := fun text => .ok ((), skipFrom false text)

def fail (reason : Malformation) : Reader α := fun text => .error (.malformed text reason)

def raise (error : ParseError (List Char)) : Reader α := fun _ => .error error

def peek? : Reader (Option Char) := fun text => .ok (text.head?, text)

def unexpected (what : String) : Reader α := fun text =>
  .error (.malformed text (.expected what text.head?))

def accept (token : String) : Reader Bool := do
  skip
  fun text =>
    if token.toList.isPrefixOf text then .ok (true, text.drop token.length)
    else .ok (false, text)

def expect (token : String) : Reader Unit := do
  unless ← accept token do unexpected s!"'{token}'"

def isWordChar (c : Char) : Bool := c.isAlphanum || c = '_'

/-- Reads the letters, digits and underscores that follow, without blanks before them. -/
def word : Reader String := fun text =>
  .ok (String.ofList (text.takeWhile isWordChar), text.dropWhile isWordChar)

def identifier : Reader String := do
  skip
  match ← peek? with
  | some c => if c.isAlpha || c = '_' then word else unexpected "identifier"
  | none => unexpected "identifier"

/-- Reads the given word, if it comes next and is not part of a longer one. -/
def acceptKeyword (keyword : String) : Reader Bool := do
  skip
  fun text =>
    let rest := text.drop keyword.length
    if keyword.toList.isPrefixOf text && !rest.head?.any isWordChar then .ok (true, rest)
    else .ok (false, text)

def maxWord : Nat := 4294967295

def maxLong : Nat := 18446744073709551615

def digits (base : Nat) (isDigit : Char → Bool) : Reader Nat := fun text =>
  match text.takeWhile isDigit with
  | [] => .error (.malformed text (.expected "number" text.head?))
  | taken =>
    let value := Text.ofDigits base taken
    if value ≤ maxLong then .ok (value, text.dropWhile isDigit)
    else .error (.malformed text (.numberTooLarge (String.ofList taken)))

def number : Reader Nat := do
  skip
  fun text =>
    match text with
    | '0' :: 'x' :: rest => digits 16 Text.isHexDigit rest
    | '0' :: 'X' :: rest => digits 16 Text.isHexDigit rest
    | _ => digits 10 Char.isDigit text

def smallNumber : Reader Nat := do
  let value ← number
  if value ≤ maxWord then pure value else fail (.beyondWord value)

def escapeByNumber : Reader Char := do
  expect "\x7b"
  let taken ← fun text => .ok (text.takeWhile Text.isHexDigit, text.dropWhile Text.isHexDigit)
  let value := Text.ofDigits 16 taken
  if taken ≠ [] ∧ value.isValidChar then
    expect "\x7d"
    pure (Char.ofNat value)
  else fail (.invalidEscape (String.ofList taken))

def escape : Reader Char := fun text =>
  match text with
  | [] => .error (.malformed [] .unterminatedString)
  | 'n' :: rest => .ok ('\n', rest)
  | 'r' :: rest => .ok ('\r', rest)
  | 't' :: rest => .ok ('\t', rest)
  | '"' :: rest => .ok ('"', rest)
  | '\\' :: rest => .ok ('\\', rest)
  | 'u' :: rest => escapeByNumber rest
  | c :: rest => .error (.malformed rest (.unknownEscape c))

def quotedRound (next : Reader (List Char)) : Reader (List Char) := fun text =>
  match text with
  | [] => .error (.malformed [] .unterminatedString)
  | '"' :: rest => .ok ([], rest)
  | '\\' :: rest => (do
    let c ← escape
    let content ← next
    pure (c :: content) : Reader (List Char)) rest
  | c :: rest => (do
    let content ← next
    pure (c :: content) : Reader (List Char)) rest

def quotedWithin : (bound : Nat) → Reader (List Char)
  | 0 => fail .unterminatedString
  | bound + 1 => quotedRound (quotedWithin bound)

def quoted : Reader String := do
  expect "\""
  let content ← fun text => quotedWithin text.length text
  pure (String.ofList content)

def registerName : Reader String := do
  expect "%"
  let name ← word
  if name.isEmpty then unexpected "register name" else pure name

/-- One round of reading items: `step` reads one of them on top of those before it, and `next` goes
on after a comma. -/
def itemsRound (step : β → Reader β) (next : β → Reader β) (items : β) : Reader β := do
  let items ← step items
  if ← accept ")" then pure items
  else do
    expect ","
    next items

def itemsWithin (step : β → Reader β) : (bound : Nat) → β → Reader β
  | 0, items => do
    let items ← step items
    expect ")"
    pure items
  | bound + 1, items => itemsRound step (itemsWithin step bound) items

def items (step : β → Reader β) (start : β) : Reader β := do
  expect "("
  if ← accept ")" then pure start
  else fun text => itemsWithin step text.length start text

def list (reader : Reader α) : Reader (List α) :=
  items (fun items => do
    let item ← reader
    pure (items ++ [item])) []

def fieldsRound (step : β → Reader β) (next : β → Reader β) (fields : β) : Reader β := do
  if ← accept "\x7d" then pure fields
  else do
    let fields ← step fields
    if ← accept "," then next fields
    else do
      expect "\x7d"
      pure fields

def fieldsWithin (step : β → Reader β) : (bound : Nat) → β → Reader β
  | 0, fields => do
    if ← accept "\x7d" then pure fields
    else do
      let fields ← step fields
      expect "\x7d"
      pure fields
  | bound + 1, fields => fieldsRound step (fieldsWithin step bound) fields

/-- Reads items in braces; the last one may be followed by a comma. -/
def fields (step : β → Reader β) (start : β) : Reader β := do
  expect "\x7b"
  fun text => fieldsWithin step text.length start text

end RegisterIR.Reading
