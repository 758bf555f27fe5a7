import RegisterIR.Reading.Token
import RegisterIR.Text.Slice

/-! Reading by byte offsets. The whole text is kept beside the offset of what comes next, and every
look at the text is a slice of it: a slice that begins or ends inside a character, or beyond the end
of the text, is a fault. Functions refer to others by name before those are known, so the names are
recorded for each function in the order in which they are read. -/

namespace RegisterIR.Scanning

open Reading (isWordChar maxWord maxLong)

structure Parser where
  text : String
  /-- The offset in bytes of what comes next. -/
  position : Nat
  /-- For each function the names that it refers to. -/
  references : List (List String)

inductive Stop
  | error (error : ParseError Position)
  | fault (fault : Fault)

abbrev Scanner := StateT Parser (Except Stop)

variable {α β : Type}

def stop (reason : Stop) : Scanner α := fun _ => .error reason

def raise (error : ParseError Position) : Scanner α := stop (.error error)

def ofFault : Except Fault α → Scanner α
  | .ok value => pure value
  | .error fault => stop (.fault fault)

def slice : Option String → Scanner String
  | some part => pure part
  | none => stop (.fault .outOfRange)

def move (bytes : Nat) : Scanner Unit := fun parser =>
  .ok ((), { parser with position := parser.position + bytes })

def remaining : Scanner String := fun parser =>
  slice (Text.after? parser.text parser.position) parser

def peek : Scanner (Option Char) := do
  let rest ← remaining
  pure rest.toList.head?

def advance : Scanner (Option Char) := do
  match ← peek with
  | some c => do
    move c.utf8Size
    pure (some c)
  | none => pure none

def atEnd : Scanner Bool := fun parser =>
  .ok (decide (parser.text.utf8ByteSize ≤ parser.position), parser)

def bounded (loop : Nat → Scanner α) : Scanner α := do
  let rest ← remaining
  loop rest.toList.length

/-- The lists of names with more names in the last of them, if there is one. -/
def noted (names : List String) : List (List String) → List (List String)
  | [] => []
  | [last] => [last ++ names]
  | first :: others => first :: noted names others

def note (name : String) : Scanner Unit := fun parser =>
  .ok ((), { parser with references := noted [name] parser.references })

def enter : Scanner Unit := fun parser =>
  .ok ((), { parser with references := parser.references ++ [[]] })

/-- The offset of the last occurrence of a character, where the text starts at the given one. -/
def lastOffset? (c : Char) : Nat → List Char → Option Nat
  | _, [] => none
  | offset, first :: rest =>
    (lastOffset? c (offset + first.utf8Size) rest).or (if first = c then some offset else none)

def place : Scanner Position := do
  let parser ← get
  let before ← slice (Text.before? parser.text parser.position)
  let line ← slice (Text.after? before ((lastOffset? '\n' 0 before.toList).elim 0 (· + 1)))
  pure ⟨before.toList.count '\n' + 1, line.toList.length + 1⟩

def fail (reason : Malformation) : Scanner α := do
  let place ← place
  raise (.malformed place reason)

def unexpected (what : String) : Scanner α := do
  let found ← peek
  fail (.expected what found)

def lineWithin : (bound : Nat) → Scanner Unit
  | 0 => pure ()
  | bound + 1 => do
    match ← advance with
    | some c => if c = '\n' then pure () else lineWithin bound
    | none => pure ()

def skipWithin : (bound : Nat) → Scanner Unit
  | 0 => pure ()
  | bound + 1 => do
    match ← peek with
    | some c =>
      if c = ';' then do
        bounded lineWithin
        skipWithin bound
      else if Text.isBlank c then do
        let _ ← advance
        skipWithin bound
      else pure ()
    | none => pure ()

def skip : Scanner Unit := bounded skipWithin

def acceptChar (c : Char) : Scanner Bool := do
  skip
  if (← peek) = some c then do
    let _ ← advance
    pure true
  else pure false

def accept (token : String) : Scanner Bool := do
  skip
  let rest ← remaining
  if token.toList.isPrefixOf rest.toList then do
    move token.utf8ByteSize
    pure true
  else pure false

def expectChar (c : Char) : Scanner Unit := do
  unless ← acceptChar c do unexpected s!"'{c}'"

def expect (token : String) : Scanner Unit := do
  unless ← accept token do unexpected s!"'{token}'"

def whileWithin (p : Char → Bool) : (bound : Nat) → Scanner Unit
  | 0 => pure ()
  | bound + 1 => do
    if (← peek).any p then do
      let _ ← advance
      whileWithin p bound
    else pure ()

def takeWhile (p : Char → Bool) : Scanner String := do
  let start ← get
  bounded (whileWithin p)
  let stop ← get
  slice (Text.between? start.text start.position stop.position)

def word : Scanner String := takeWhile isWordChar

def identifier : Scanner String := do
  skip
  match ← peek with
  | some c => if c.isAlpha || c = '_' then word else unexpected "identifier"
  | none => unexpected "identifier"

def acceptKeyword (keyword : String) : Scanner Bool := do
  skip
  let rest ← remaining
  if keyword.toList.isPrefixOf rest.toList then do
    let behind ← slice (Text.after? rest keyword.utf8ByteSize)
    if behind.toList.head?.any isWordChar then pure false
    else do
      move keyword.utf8ByteSize
      pure true
  else pure false

/-- Reads the digits at the start of the rest of the text. They are counted in characters and cut
off in bytes. -/
def digits (base : Nat) (isDigit : Char → Bool) (rest : String) : Scanner Nat := do
  let taken ← slice (Text.before? rest (rest.toList.takeWhile isDigit).length)
  if taken.isEmpty then unexpected "number"
  else
    let value := Text.ofDigits base taken.toList
    if value ≤ maxLong then do
      move taken.utf8ByteSize
      pure value
    else fail (.numberTooLarge taken)

def number : Scanner Nat := do
  skip
  let rest ← remaining
  match rest.toList with
  | '0' :: 'x' :: hex => do
    move 2
    digits 16 Text.isHexDigit (String.ofList hex)
  | '0' :: 'X' :: hex => do
    move 2
    digits 16 Text.isHexDigit (String.ofList hex)
  | _ => digits 10 Char.isDigit rest

def smallNumber : Scanner Nat := do
  let value ← number
  if value ≤ maxWord then pure value else fail (.beyondWord value)

def escapeByNumber : Scanner Char := do
  expectChar '\x7b'
  let taken ← takeWhile Text.isHexDigit
  let value := Text.ofDigits 16 taken.toList
  if taken.toList ≠ [] ∧ value.isValidChar then
    expectChar '\x7d'
    pure (Char.ofNat value)
  else fail (.invalidEscape taken)

def escape : Scanner Char := do
  match ← advance with
  | some 'n' => pure '\n'
  | some 'r' => pure '\r'
  | some 't' => pure '\t'
  | some '"' => pure '"'
  | some '\\' => pure '\\'
  | some 'u' => escapeByNumber
  | some c => fail (.unknownEscape c)
  | none => fail .unterminatedString

def quotedWithin : (bound : Nat) → Scanner (List Char)
  | 0 => fail .unterminatedString
  | bound + 1 => do
    match ← advance with
    | some '"' => pure []
    | some '\\' => do
      let c ← escape
      let content ← quotedWithin bound
      pure (c :: content)
    | some c => do
      let content ← quotedWithin bound
      pure (c :: content)
    | none => fail .unterminatedString

def quoted : Scanner String := do
  expectChar '"'
  let content ← bounded quotedWithin
  pure (String.ofList content)

def registerName : Scanner String := do
  expectChar '%'
  let name ← word
  if name.isEmpty then unexpected "register name" else pure name

def itemsWithin (step : β → Scanner β) : (bound : Nat) → β → Scanner β
  | 0, items => do
    let items ← step items
    expectChar ')'
    pure items
  | bound + 1, items => do
    let items ← step items
    if ← acceptChar ')' then pure items
    else do
      expectChar ','
      itemsWithin step bound items

def itemsAfter (step : β → Scanner β) (start : β) : Scanner β := do
  if ← acceptChar ')' then pure start
  else bounded fun bound => itemsWithin step bound start

def items (step : β → Scanner β) (start : β) : Scanner β := do
  expectChar '('
  itemsAfter step start

def appending (scanner : Scanner α) (items : List α) : Scanner (List α) := do
  let item ← scanner
  pure (items ++ [item])

def list (scanner : Scanner α) : Scanner (List α) := items (appending scanner) []

def fieldsWithin (step : β → Scanner β) : (bound : Nat) → β → Scanner β
  | 0, fields => do
    if ← acceptChar '\x7d' then pure fields
    else do
      let fields ← step fields
      expectChar '\x7d'
      pure fields
  | bound + 1, fields => do
    if ← acceptChar '\x7d' then pure fields
    else do
      let fields ← step fields
      if ← acceptChar ',' then fieldsWithin step bound fields
      else do
        expectChar '\x7d'
        pure fields

def fields (step : β → Scanner β) (start : β) : Scanner β := do
  expectChar '\x7b'
  bounded fun bound => fieldsWithin step bound start

end RegisterIR.Scanning
