import RegisterIR.Script.Expr

/-! How one element of an enum is represented in a script, and the expressions that build such a
value, recognise it and take its payload out. -/

namespace RegisterIR

inductive ElementEncoding
  | stateless (tag : Tag)
  /-- The payload itself, which lies in the given set. -/
  | direct (payload : ValueSet)
  /-- An array of the tag and the payload. -/
  | indirect (tag : Nat)
deriving DecidableEq

def Kind.check (subject : Script.Expr) : Kind → Script.Expr
  | undefined => .same subject (.constant .undefined)
  | null => .same subject (.constant .null)
  | string => .hasType subject "string"
  | array => .isArray subject
  | object => .group (.both (.both (.hasType subject "object")
      (.compared .differs subject (.constant .null))) (.negate (.isArray subject)))
  | function => .hasType subject "function"
  | isTrue => .same subject (.constant (.boolean true))
  | isFalse => .same subject (.constant (.boolean false))

/-- Whether a script value lies in a range: a single integer is compared with it, and a longer
range by its bounds. -/
def SafeRange.checks (subject : Script.Expr) (range : SafeRange) : List Script.Expr :=
  match range.first?, range.last? with
  | some first, some last =>
    if first = last then [.same subject (.number first)]
    else [.group (.both (.both (.hasType subject "number")
      (.compared .atLeast subject (.number first)))
      (.compared .atMost subject (.number last)))]
  | _, _ => []

def ValueSet.check (set : ValueSet) (subject : Script.Expr) : Script.Expr :=
  match set.integers.checks subject ++ set.kinds.map (Kind.check subject) with
  | [] => .constant (.boolean false)
  | [test] => test
  | test :: tests => .group (tests.foldl .either test)

namespace ElementEncoding

def valueSet : ElementEncoding → Except Fault ValueSet
  | stateless tag => tag.valueSet
  | direct payload => .ok payload
  | indirect _ => .ok (ValueSet.ofKind .array)

def render : ElementEncoding → String
  | stateless tag => "stateless " ++ tag.render
  | direct payload => "direct " ++ payload.render
  | indirect tag => "indirect " ++ toString tag

/-- The value of the element with the given payload, which an element without state ignores. -/
def construct (payload : Script.Expr) : ElementEncoding → Script.Expr
  | stateless tag => .constant tag
  | direct _ => payload
  | indirect tag => .array [.number tag, payload]

def constructor (encoding : ElementEncoding) : Script.Expr :=
  .function "state" (encoding.construct (.name "state"))

def check (subject : Script.Expr) : ElementEncoding → Script.Expr
  | stateless tag => .same subject (.constant tag)
  | direct payload => payload.check subject
  | indirect tag => .group (.both
      (.compared .differs (.typeOf subject) (.text "number"))
      (.same (.item subject 0) (.number tag)))

def payload (subject : Script.Expr) : ElementEncoding → Script.Expr
  | stateless _ => .constant .undefined
  | direct _ => subject
  | indirect _ => .item subject 1

end ElementEncoding

end RegisterIR
