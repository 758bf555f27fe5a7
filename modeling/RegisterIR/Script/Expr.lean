import RegisterIR.Script.Tag
import RegisterIR.Text.Layout
import RegisterIR.Text.Quoted

/-! Script expressions as they are written: parentheses are part of the tree, and rendering adds
none. -/

namespace RegisterIR.Script

inductive Comparison
  | same
  | differs
  | atLeast
  | atMost
deriving DecidableEq, Repr

namespace Comparison

def symbol : Comparison → String
  | same => "==="
  | differs => "!=="
  | atLeast => ">="
  | atMost => "<="

end Comparison

inductive Expr
  | name (identifier : String)
  | constant (tag : Tag)
  | text (content : String)
  | array (elements : List Expr)
  | item (subject : Expr) (index : Nat)
  | typeOf (subject : Expr)
  | isArray (subject : Expr)
  | negate (operand : Expr)
  | compare (comparison : Comparison) (left right : Expr)
  | both (left right : Expr)
  | either (left right : Expr)
  | group (inner : Expr)
  | call (callee : String) (arguments : List String)
  | function (parameter : String) (result : Expr)
deriving Repr

namespace Expr

mutual

def render : Expr → String
  | name identifier => identifier
  | constant tag => tag.render
  | text content => Text.quoted content
  | array elements => "[" ++ Text.listed (renderAll elements) ++ "]"
  | item subject index => subject.render ++ "[" ++ toString index ++ "]"
  | typeOf subject => "typeof " ++ subject.render
  | isArray subject => "Array.isArray(" ++ subject.render ++ ")"
  | negate operand => "!" ++ operand.render
  | compare comparison left right =>
    left.render ++ " " ++ comparison.symbol ++ " " ++ right.render
  | both left right => left.render ++ " && " ++ right.render
  | either left right => left.render ++ " || " ++ right.render
  | group inner => "(" ++ inner.render ++ ")"
  | call callee arguments => callee ++ Text.parenthesized arguments
  | function parameter result =>
    "function (" ++ parameter ++ ") \x7b return " ++ result.render ++ "; \x7d"

def renderAll : List Expr → List String
  | [] => []
  | element :: elements => element.render :: renderAll elements

end

theorem renderAll_eq_map (elements : List Expr) : renderAll elements = elements.map render := by
  induction elements with
  | nil => rfl
  | cons element elements ih => simp [renderAll, ih]

def compared (comparison : Comparison) (left right : Expr) : Expr :=
  group (compare comparison left right)

def same (left right : Expr) : Expr := compared .same left right

def hasType (subject : Expr) (type : String) : Expr := same (typeOf subject) (text type)

def number (value : Nat) : Expr := constant (.integer value)

end Expr

end RegisterIR.Script
