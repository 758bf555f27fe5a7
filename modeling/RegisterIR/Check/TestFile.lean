import RegisterIR.Check.Directive

/-! Test files: a program whose comment lines hold commands and directives. -/

namespace RegisterIR.Check

structure Command where
  name : String
  arguments : List String
deriving DecidableEq, Repr

structure TestFile where
  commands : List Command
  directives : List Directive
  programLines : List String
deriving DecidableEq, Repr

inductive Line
  | command (words : List String)
  | directive (directive : Directive)
  | program
deriving DecidableEq, Repr

def after? (start text : List Char) : Option (List Char) :=
  if start.isPrefixOf text then some (text.drop start.length) else none

/-- The starts that make a line a directive, and the directives they make. None of them starts
another, so at most one fits a line. -/
def directiveStarts : List (String × (String → Directive)) :=
  [("; CHECK-LABEL:", .find .heading), ("; CHECK-NEXT:", .next), ("; CHECK-NOT:", .absent),
    ("; CHECK-EMPTY", fun _ => .blank), ("; CHECK:", .find .plain), ("; COM:", .comment)]

def Line.classify (line : String) : Line :=
  let text := Text.trimmed line.toList
  match after? "; RUN:".toList text with
  | some rest => .command ((Text.wordsFrom [] rest).map String.ofList)
  | none =>
    match directiveStarts.findSome? fun (start, make) =>
        (after? start.toList text).map fun rest => make (String.ofList (Text.trimmed rest)) with
    | some found => .directive found
    | none => .program

namespace TestFile

def addCommand (command : Command) (file : TestFile) : TestFile :=
  { file with commands := command :: file.commands }

def addDirective (directive : Directive) (file : TestFile) : TestFile :=
  { file with directives := directive :: file.directives }

def addLine (line : String) (file : TestFile) : TestFile :=
  { file with programLines := line :: file.programLines }

/-- Reads lines numbered from `number` on. The error is the number of a line whose command is
missing. -/
def ofLines (number : Nat) : List String → Except Nat TestFile
  | [] => .ok ⟨[], [], []⟩
  | line :: lines =>
    match Line.classify line with
    | .command [] => .error number
    | .command (name :: arguments) => addCommand ⟨name, arguments⟩ <$> ofLines (number + 1) lines
    | .directive directive => addDirective directive <$> ofLines (number + 1) lines
    | .program => addLine line <$> ofLines (number + 1) lines

def parse (content : String) : Except String TestFile :=
  (ofLines 1 (Text.lines content)).mapError fun number =>
    s!"line {number}: RUN directive without a command"

def programText (file : TestFile) : String := "\n".intercalate file.programLines

end TestFile

end RegisterIR.Check
