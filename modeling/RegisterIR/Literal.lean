import RegisterIR.ValueType

/-! Literal values. Functions are referred to by a label: their name while a program is being
read, and their position in the function table afterwards. -/

namespace RegisterIR

inductive Literal (φ : Type)
  | unit
  | integer (value : Nat)
  | string (content : String)
  | function (label : φ)
  | element (which : ElementRef)
  | wrapped (which : ElementRef) (state : Literal φ)
  | constructor (which : ElementRef)
  | tuple (elements : List (Literal φ))
deriving Repr

namespace Literal

variable {φ ψ : Type} {m : Type → Type} [Monad m]

mutual

def beq [DecidableEq φ] : Literal φ → Literal φ → Bool
  | unit, unit => true
  | integer value, integer value' => value == value'
  | string content, string content' => content == content'
  | function label, function label' => label == label'
  | element which, element which' => which == which'
  | wrapped which state, wrapped which' state' => which == which' && beq state state'
  | constructor which, constructor which' => which == which'
  | tuple elements, tuple elements' => beqAll elements elements'
  | _, _ => false

def beqAll [DecidableEq φ] : List (Literal φ) → List (Literal φ) → Bool
  | [], [] => true
  | literal :: literals, literal' :: literals' => beq literal literal' && beqAll literals literals'
  | _, _ => false

end

mutual

theorem beq_iff [DecidableEq φ] : ∀ a b : Literal φ, beq a b = true ↔ a = b
  | unit, b => by cases b <;> simp [beq]
  | integer _, b => by cases b <;> simp [beq]
  | string _, b => by cases b <;> simp [beq]
  | function _, b => by cases b <;> simp [beq]
  | element _, b => by cases b <;> simp [beq]
  | wrapped _ state, b => by cases b <;> simp [beq, beq_iff state]
  | constructor _, b => by cases b <;> simp [beq]
  | tuple elements, b => by cases b <;> simp [beq, beqAll_iff elements]

theorem beqAll_iff [DecidableEq φ] : ∀ a b : List (Literal φ), beqAll a b = true ↔ a = b
  | [], b => by cases b <;> simp [beqAll]
  | literal :: literals, b => by
    cases b <;> simp [beqAll, beq_iff literal, beqAll_iff literals]

end

instance [DecidableEq φ] : DecidableEq (Literal φ) := fun a b =>
  decidable_of_iff (beq a b = true) (beq_iff a b)

mutual

def functions : Literal φ → List φ
  | function label => [label]
  | wrapped _ state => state.functions
  | tuple elements => functionsAll elements
  | _ => []

def functionsAll : List (Literal φ) → List φ
  | [] => []
  | literal :: literals => literal.functions ++ functionsAll literals

end

mutual

def relabel (f : φ → ψ) : Literal φ → Literal ψ
  | unit => unit
  | integer value => integer value
  | string content => string content
  | function label => function (f label)
  | element which => element which
  | wrapped which state => wrapped which (state.relabel f)
  | constructor which => constructor which
  | tuple elements => tuple (relabelAll f elements)

def relabelAll (f : φ → ψ) : List (Literal φ) → List (Literal ψ)
  | [] => []
  | literal :: literals => literal.relabel f :: relabelAll f literals

end

mutual

/-- Visits the functions that the literal refers to, from left to right, and puts what the visitor
gives in their place. -/
def update (visit : φ → m ψ) : Literal φ → m (Literal ψ)
  | function label => do
    let label ← visit label
    pure (function label)
  | wrapped which state => do
    let state ← update visit state
    pure (wrapped which state)
  | tuple elements => do
    let elements ← updateAll visit elements
    pure (tuple elements)
  | unit => pure unit
  | integer value => pure (integer value)
  | string content => pure (string content)
  | element which => pure (element which)
  | constructor which => pure (constructor which)

def updateAll (visit : φ → m ψ) : List (Literal φ) → m (List (Literal ψ))
  | [] => pure []
  | literal :: literals => do
    let literal ← update visit literal
    let literals ← updateAll visit literals
    pure (literal :: literals)

end

end Literal

end RegisterIR
