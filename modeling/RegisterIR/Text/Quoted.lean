/-! Quoted text. Quotes, backslashes and control characters are written as escapes, so that a
quoted text has no control character and ends at its first unescaped quote. -/

namespace RegisterIR.Text

def isControl (c : Char) : Bool :=
  c.toNat < 0x20 || (0x7f ≤ c.toNat && c.toNat < 0xa0)

/-- One character inside quotes. Control characters without a short escape are written by their
number in base sixteen. -/
def escaped (c : Char) : List Char :=
  if c = '"' then ['\\', '"']
  else if c = '\\' then ['\\', '\\']
  else if c = '\n' then ['\\', 'n']
  else if c = '\r' then ['\\', 'r']
  else if c = '\t' then ['\\', 't']
  else if isControl c then ['\\', 'u', '\x7b'] ++ Nat.toDigits 16 c.toNat ++ ['\x7d']
  else [c]

def quotedChars (content : List Char) : List Char :=
  '"' :: content.flatMap escaped ++ ['"']

def quoted (content : String) : String := String.ofList (quotedChars content.toList)

@[simp] theorem toList_quoted (content : String) :
    (quoted content).toList = quotedChars content.toList := by
  simp [quoted]

end RegisterIR.Text
