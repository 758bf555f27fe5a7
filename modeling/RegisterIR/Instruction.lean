import RegisterIR.Literal

/-! Instructions over numbered registers. A loop and the cases of a selection hold bodies of
their own, so the body of a function is a tree; all of its registers are numbered together. -/

namespace RegisterIR

abbrev Register := Nat

inductive Operation (φ : Type)
  | literal (value : Literal φ) (type : ValueType)
  | tuple (elements : List Register)
  | member (source : Register) (index : Nat)
  | construct (which : ElementRef) (state : Register) (stateType : ValueType)
  | global
deriving DecidableEq, Repr

inductive Guard
  | equals (key : Register)
  /-- The key is a value of an element, whose payload is bound to a register. -/
  | element (which : ElementRef) (binding : Register)
deriving DecidableEq, Repr

/-- One case of a selection, with a body of type `β` and the register it yields. -/
structure Case (β : Type) where
  guard : Guard
  action : β
  value : Option Register
deriving DecidableEq, Repr

inductive Instruction (φ : Type)
  | compute (result : Register) (operation : Operation φ)
  | call (result callee : Register) (arguments : List Register)
  | select (result key : Register) (cases : List (Case (List (Instruction φ))))
  | loop (body : List (Instruction φ))
  | leave
deriving Repr

abbrev Body (φ : Type) := List (Instruction φ)

abbrev Cases (φ : Type) := List (Case (Body φ))

variable {φ ψ : Type} {m : Type → Type} [Monad m]

namespace Operation

def operands : Operation φ → List Register
  | literal .. => []
  | tuple elements => elements
  | member source _ => [source]
  | construct _ state _ => [state]
  | global => []

def functions : Operation φ → List φ
  | literal value _ => value.functions
  | _ => []

def relabel (f : φ → ψ) : Operation φ → Operation ψ
  | literal value type => literal (value.relabel f) type
  | tuple elements => tuple elements
  | member source index => member source index
  | construct which state stateType => construct which state stateType
  | global => global

def update (visit : φ → m ψ) : Operation φ → m (Operation ψ)
  | literal value type => do
    let value ← value.update visit
    pure (literal value type)
  | tuple elements => pure (tuple elements)
  | member source index => pure (member source index)
  | construct which state stateType => pure (construct which state stateType)
  | global => pure global

end Operation

namespace Guard

def operands : Guard → List Register
  | equals key => [key]
  | element .. => []

end Guard

namespace Instruction

mutual

def beq [DecidableEq φ] : Instruction φ → Instruction φ → Bool
  | compute result operation, compute result' operation' =>
    result == result' && operation == operation'
  | call result callee arguments, call result' callee' arguments' =>
    result == result' && (callee == callee' && arguments == arguments')
  | select result key cases, select result' key' cases' =>
    result == result' && (key == key' && beqCases cases cases')
  | loop body, loop body' => beqBody body body'
  | leave, leave => true
  | _, _ => false

def beqBody [DecidableEq φ] : Body φ → Body φ → Bool
  | [], [] => true
  | instruction :: body, instruction' :: body' =>
    beq instruction instruction' && beqBody body body'
  | _, _ => false

def beqCases [DecidableEq φ] : Cases φ → Cases φ → Bool
  | [], [] => true
  | ⟨guard, action, value⟩ :: cases, ⟨guard', action', value'⟩ :: cases' =>
    (guard == guard' && (beqBody action action' && value == value')) && beqCases cases cases'
  | _, _ => false

end

mutual

theorem beq_iff [DecidableEq φ] : ∀ a b : Instruction φ, beq a b = true ↔ a = b
  | compute .., b => by cases b <;> simp [beq]
  | call .., b => by cases b <;> simp [beq]
  | select _ _ cases, b => by cases b <;> simp [beq, beqCases_iff cases]
  | loop body, b => by cases b <;> simp [beq, beqBody_iff body]
  | leave, b => by cases b <;> simp [beq]

theorem beqBody_iff [DecidableEq φ] : ∀ a b : Body φ, beqBody a b = true ↔ a = b
  | [], b => by cases b <;> simp [beqBody]
  | instruction :: body, b => by
    cases b <;> simp [beqBody, beq_iff instruction, beqBody_iff body]

theorem beqCases_iff [DecidableEq φ] : ∀ a b : Cases φ, beqCases a b = true ↔ a = b
  | [], b => by cases b <;> simp [beqCases]
  | ⟨_, action, _⟩ :: cases, [] => by simp [beqCases]
  | ⟨_, action, _⟩ :: cases, ⟨_, _, _⟩ :: _ => by
    simp [beqCases, beqBody_iff action, beqCases_iff cases]

end

instance [DecidableEq φ] : DecidableEq (Instruction φ) := fun a b =>
  decidable_of_iff (beq a b = true) (beq_iff a b)

def result? : Instruction φ → Option Register
  | compute result _ => some result
  | call result _ _ => some result
  | select result _ _ => some result
  | loop _ => none
  | leave => none

/-- The registers that the instruction itself reads, apart from those its bodies read. -/
def operands : Instruction φ → List Register
  | compute _ operation => operation.operands
  | call _ callee arguments => callee :: arguments
  | select _ key cases => key :: cases.flatMap fun case => case.guard.operands ++ case.value.toList
  | loop _ => []
  | leave => []

def isCall : Instruction φ → Bool
  | call .. => true
  | _ => false

mutual

def size : Instruction φ → Nat
  | select _ _ cases => 1 + sizeCases cases
  | loop body => 1 + sizeBody body
  | _ => 1

def sizeBody : Body φ → Nat
  | [] => 0
  | instruction :: body => instruction.size + sizeBody body

def sizeCases : Cases φ → Nat
  | [] => 0
  | ⟨_, action, _⟩ :: cases => sizeBody action + sizeCases cases

end

mutual

def functions : Instruction φ → List φ
  | compute _ operation => operation.functions
  | select _ _ cases => functionsCases cases
  | loop body => functionsBody body
  | _ => []

def functionsBody : Body φ → List φ
  | [] => []
  | instruction :: body => instruction.functions ++ functionsBody body

def functionsCases : Cases φ → List φ
  | [] => []
  | ⟨_, action, _⟩ :: cases => functionsBody action ++ functionsCases cases

end

mutual

def relabel (f : φ → ψ) : Instruction φ → Instruction ψ
  | compute result operation => compute result (operation.relabel f)
  | call result callee arguments => call result callee arguments
  | select result key cases => select result key (relabelCases f cases)
  | loop body => loop (relabelBody f body)
  | leave => leave

def relabelBody (f : φ → ψ) : Body φ → Body ψ
  | [] => []
  | instruction :: body => instruction.relabel f :: relabelBody f body

def relabelCases (f : φ → ψ) : Cases φ → Cases ψ
  | [] => []
  | ⟨guard, action, value⟩ :: cases => ⟨guard, relabelBody f action, value⟩ :: relabelCases f cases

end

mutual

/-- Visits the functions that literals refer to, in program order. -/
def update (visit : φ → m ψ) : Instruction φ → m (Instruction ψ)
  | compute result operation => do
    let operation ← operation.update visit
    pure (compute result operation)
  | select result key cases => do
    let cases ← updateCases visit cases
    pure (select result key cases)
  | loop body => do
    let body ← updateBody visit body
    pure (loop body)
  | call result callee arguments => pure (call result callee arguments)
  | leave => pure leave

def updateBody (visit : φ → m ψ) : Body φ → m (Body ψ)
  | [] => pure []
  | instruction :: body => do
    let instruction ← update visit instruction
    let body ← updateBody visit body
    pure (instruction :: body)

def updateCases (visit : φ → m ψ) : Cases φ → m (Cases ψ)
  | [] => pure []
  | ⟨guard, action, value⟩ :: cases => do
    let action ← updateBody visit action
    let cases ← updateCases visit cases
    pure (⟨guard, action, value⟩ :: cases)

end

structure Row where
  depth : Nat
  result : Option Register
  operands : List Register
  isCall : Bool
deriving DecidableEq, Repr

mutual

def rows (depth : Nat) : Instruction φ → List Row
  | compute result operation => [⟨depth, some result, operation.operands, false⟩]
  | call result callee arguments => [⟨depth, some result, callee :: arguments, true⟩]
  | select result key cases =>
    ⟨depth, some result, operands (select result key cases), false⟩ :: rowsCases (depth + 1) cases
  | loop body => ⟨depth, none, [], false⟩ :: rowsBody (depth + 1) body
  | leave => [⟨depth, none, [], false⟩]

def rowsBody (depth : Nat) : Body φ → List Row
  | [] => []
  | instruction :: body => instruction.rows depth ++ rowsBody depth body

def rowsCases (depth : Nat) : Cases φ → List Row
  | [] => []
  | ⟨_, action, _⟩ :: cases => rowsBody depth action ++ rowsCases depth cases

end

end Instruction

end RegisterIR
