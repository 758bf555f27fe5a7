import RegisterIR.Program.Violation

/-! Why a text is not a program. Where a text is malformed, the error names a place; while the
text is being read this is what is left of it, and in a report the line and the column. -/

namespace RegisterIR

inductive Malformation
  | expected (what : String) (found : Option Char)
  | notDeclaration (word : String)
  | unknownType (word : String)
  | unknownInstruction (word : String)
  | duplicateElement (element enumeration : String)
  | emptyRange (minimum maximum : Nat)
  | numberTooLarge (digits : String)
  | beyondWord (value : Nat)
  | unterminatedString
  | unknownEscape (c : Char)
  | invalidEscape (digits : String)
deriving DecidableEq, Repr

namespace Malformation

def message : Malformation → String
  | expected what (some found) => s!"expected {what} but found '{found}'"
  | expected what none => s!"expected {what} but reached the end of input"
  | notDeclaration word => s!"expected enum, struct, interface or fn but found '{word}'"
  | unknownType word => s!"unknown type '{word}'"
  | unknownInstruction word => s!"unknown instruction '{word}'"
  | duplicateElement element enumeration => s!"duplicate element {element} in enum {enumeration}"
  | emptyRange minimum maximum => s!"empty integer range {minimum}..{maximum}"
  | numberTooLarge digits => s!"invalid number '{digits}': number too large to fit in target type"
  | beyondWord value => s!"{value} does not fit in 32 bits"
  | unterminatedString => "unterminated string"
  | unknownEscape c => s!"unknown escape \\{c}"
  | invalidEscape digits => "invalid escape \\u\x7b" ++ digits ++ "\x7d"

end Malformation

inductive TypeKind
  | enumeration
  | record
  | interface
deriving DecidableEq, Repr

namespace TypeKind

def keyword : TypeKind → String
  | enumeration => "enum"
  | record => "struct"
  | interface => "interface"

end TypeKind

inductive ParseError (π : Type)
  | malformed (place : π) (reason : Malformation)
  | undefinedRegister (function name : String)
  | duplicateRegister (function name : String)
  | undefinedFunction (name : String)
  | duplicateFunction (name : String)
  | undefinedType (kind : TypeKind) (name : String)
  | duplicateType (kind : TypeKind) (name : String)
  | undefinedElement (enumeration element : String)
  | invalid (error : VerifyError)
deriving DecidableEq, Repr

/-- A line and a column, both counted from one. -/
structure Position where
  line : Nat
  column : Nat
deriving DecidableEq, Repr

namespace Position

def after (consumed : List Char) : Position :=
  ⟨consumed.count '\n' + 1, (consumed.reverse.takeWhile (· ≠ '\n')).length + 1⟩

/-- The position in a text at which the given end of it starts. -/
def ofRest (text rest : List Char) : Position := after (text.take (text.length - rest.length))

end Position

namespace ParseError

variable {π ρ : Type}

def mapPlace (f : π → ρ) : ParseError π → ParseError ρ
  | malformed place reason => malformed (f place) reason
  | undefinedRegister function name => undefinedRegister function name
  | duplicateRegister function name => duplicateRegister function name
  | undefinedFunction name => undefinedFunction name
  | duplicateFunction name => duplicateFunction name
  | undefinedType kind name => undefinedType kind name
  | duplicateType kind name => duplicateType kind name
  | undefinedElement enumeration element => undefinedElement enumeration element
  | invalid error => invalid error

def message : ParseError Position → String
  | malformed ⟨line, column⟩ reason => s!"{line}:{column}: " ++ reason.message
  | undefinedRegister function name => s!"Undefined register %{name} in function {function}"
  | duplicateRegister function name => s!"Register %{name} defined twice in function {function}"
  | undefinedFunction name => s!"Undefined function @{name}"
  | duplicateFunction name => s!"Duplicate function definition: {name}"
  | undefinedType kind name => s!"Undefined {kind.keyword} {name}"
  | duplicateType kind name => s!"Duplicate {kind.keyword} definition: {name}"
  | undefinedElement enumeration element => s!"Enum {enumeration} has no element {element}"
  | invalid error => error.message

end ParseError

end RegisterIR
