import RegisterIR.Text.Blank
import RegisterIR.Text.Lines

/-! Directives that an output is checked against, and the check itself. Matching is greedy: each
directive takes the first line that fits after the lines taken before it. -/

namespace RegisterIR.Check

inductive Search
  | plain
  | heading
deriving DecidableEq, Repr

namespace Search

def name : Search → String
  | plain => "CHECK"
  | heading => "CHECK-LABEL"

end Search

inductive Directive
  | find (search : Search) (pattern : String)
  | next (pattern : String)
  /-- A pattern on none of the lines before the next match. -/
  | absent (pattern : String)
  | blank
  | comment (content : String)
deriving DecidableEq, Repr

inductive Note
  | found (search : Search) (pattern : String) (line : Nat)
  | followed (pattern : String) (line : Nat)
  | blank (line : Nat)
deriving DecidableEq, Repr

namespace Note

def render : Note → String
  | found search pattern line => s!"{search.name}: '{pattern}' found at line {line}"
  | followed pattern line => s!"CHECK-NEXT: '{pattern}' matches at line {line}"
  | blank line => s!"CHECK-EMPTY: matches at line {line}"

end Note

inductive Mismatch
  | notFound (search : Search) (pattern : String)
  | noMoreLines (pattern : String)
  | notNext (pattern line : String)
  | notBlank (line : String)
  | present (pattern line : String)
deriving DecidableEq, Repr

namespace Mismatch

def message : Mismatch → String
  | notFound search pattern => s!"{search.name}: pattern '{pattern}' not found in output"
  | noMoreLines pattern => s!"CHECK-NEXT: no more lines, expected '{pattern}'"
  | notNext pattern line => s!"CHECK-NEXT: expected '{pattern}' but got '{line}'"
  | notBlank line => s!"CHECK-EMPTY: expected empty line but got '{line}'"
  | present pattern line => s!"CHECK-NOT: pattern '{pattern}' found in '{line}'"

end Mismatch

structure Verdict where
  notes : List Note
  result : Except Mismatch Unit

namespace Verdict

def note (note : Note) (verdict : Verdict) : Verdict := ⟨note :: verdict.notes, verdict.result⟩

def mismatch (reason : Mismatch) : Verdict := ⟨[], .error reason⟩

end Verdict

def checkAbsent (lines : List String) : List String → Except Mismatch Unit
  | [] => .ok ()
  | pattern :: patterns =>
    match lines.find? (Text.contains · pattern) with
    | some line => .error (.present pattern line)
    | none => checkAbsent lines patterns

/-- Checks the lines that are left; `index` is the number of the first of them, and the pending
patterns may not occur before the next match. -/
def validateFrom (index : Nat) (lines pending : List String) : List Directive → Verdict
  | [] => ⟨[], checkAbsent lines pending⟩
  | .comment _ :: directives => validateFrom index lines pending directives
  | .absent pattern :: directives => validateFrom index lines (pending ++ [pattern]) directives
  | .find search pattern :: directives =>
    match lines.findIdx? (Text.contains · pattern) with
    | none => .mismatch (.notFound search pattern)
    | some skipped =>
      match checkAbsent (lines.take skipped) pending with
      | .error reason => .mismatch reason
      | .ok () =>
        (validateFrom (index + skipped + 1) (lines.drop (skipped + 1)) [] directives).note
          (.found search pattern (index + skipped))
  | .next pattern :: directives =>
    match lines with
    | [] => .mismatch (.noMoreLines pattern)
    | line :: lines =>
      if Text.contains line pattern then
        (validateFrom (index + 1) lines [] directives).note (.followed pattern index)
      else .mismatch (.notNext pattern line)
  | .blank :: directives =>
    match lines with
    | [] => validateFrom index [] pending directives
    | line :: lines =>
      if line.toList.all Text.isBlank then
        (validateFrom (index + 1) lines pending directives).note (.blank index)
      else .mismatch (.notBlank line)

def validate (output : String) (directives : List Directive) : Verdict :=
  validateFrom 0 (Text.lines output) [] directives

end RegisterIR.Check
