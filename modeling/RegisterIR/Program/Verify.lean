import RegisterIR.Program.Violation

/-! Verification of functions. A register is written at most once in a function. A nested body
sees what was defined before it was entered, and its own definitions go out of sight when it
ends, although they still count as written. -/

namespace RegisterIR

structure Surroundings where
  enums : List Enumeration
  functionCount : Nat
  registerCount : Nat

/-- The registers written so far and those of them in sight. -/
structure Scope where
  written : List Register
  visible : List Register
deriving DecidableEq, Repr

namespace Scope

def empty : Scope := ⟨[], []⟩

/-- What a nested body wrote stays written, but goes out of sight. -/
def close (outer inner : Scope) : Scope := ⟨inner.written, outer.visible⟩

end Scope

namespace Surroundings

variable (surroundings : Surroundings)

def checkRange (register : Register) : Except Violation Unit :=
  if register < surroundings.registerCount then .ok ()
  else .error (.registerOutOfRange register surroundings.registerCount)

def define (scope : Scope) (register : Register) : Except Violation Scope := do
  surroundings.checkRange register
  if register ∈ scope.written then .error (.registerRedefined register)
  else .ok ⟨register :: scope.written, register :: scope.visible⟩

def defineAll : Scope → List Register → Except Violation Scope
  | scope, [] => .ok scope
  | scope, register :: registers => do
    let scope ← surroundings.define scope register
    defineAll scope registers

def read (scope : Scope) (register : Register) : Except Violation Unit := do
  surroundings.checkRange register
  if register ∈ scope.visible then .ok () else .error (.useBeforeDefinition register)

def readAll (scope : Scope) : List Register → Except Violation Unit
  | [] => .ok ()
  | register :: registers => do
    surroundings.read scope register
    readAll scope registers

/-- Whether an element exists and carries a payload exactly when one is expected. -/
def checkElement (which : ElementRef) (withState : Bool) : Except Violation Unit :=
  match surroundings.enums[which.enumeration]? with
  | none => .error (.unknownEnum which.enumeration)
  | some enumeration =>
    match enumeration.elements[which.which]? with
    | none => .error (.unknownElement which)
    | some element =>
      match element.state.isSome, withState with
      | false, true => .error (.statelessElement which)
      | true, false => .error (.missingState which)
      | _, _ => .ok ()

mutual

def checkLiteral : Literal FunctionId → Except Violation Unit
  | .unit => .ok ()
  | .integer _ => .ok ()
  | .string _ => .ok ()
  | .function callee =>
    if callee < surroundings.functionCount then .ok () else .error (.unknownFunction callee)
  | .element which => surroundings.checkElement which false
  | .wrapped which state => do
    surroundings.checkElement which true
    checkLiteral state
  | .constructor which => surroundings.checkElement which true
  | .tuple elements => checkLiterals elements

def checkLiterals : List (Literal FunctionId) → Except Violation Unit
  | [] => .ok ()
  | literal :: literals => do
    checkLiteral literal
    checkLiterals literals

end

def checkOperation (scope : Scope) : Operation FunctionId → Except Violation Unit
  | .literal value _ => surroundings.checkLiteral value
  | .tuple elements => surroundings.readAll scope elements
  | .member source _ => surroundings.read scope source
  | .construct which state _ => do
    surroundings.checkElement which true
    surroundings.read scope state
  | .global => .ok ()

def enterCase (scope : Scope) : Guard → Except Violation Scope
  | .equals key => do
    surroundings.read scope key
    pure scope
  | .element which binding => do
    surroundings.checkElement which true
    surroundings.define scope binding

mutual

def verify (inLoop : Bool) (scope : Scope) : Instruction FunctionId → Except Violation Scope
  | .compute result operation => do
    surroundings.checkOperation scope operation
    surroundings.define scope result
  | .call result callee arguments => do
    surroundings.readAll scope (callee :: arguments)
    surroundings.define scope result
  | .select result key cases => do
    surroundings.read scope key
    let scope ← verifyCases inLoop scope cases
    surroundings.define scope result
  | .loop body => do
    let inner ← verifyBody true scope body
    pure (scope.close inner)
  | .leave => if inLoop then .ok scope else .error .leaveOutsideLoop

def verifyBody (inLoop : Bool) (scope : Scope) : Body FunctionId → Except Violation Scope
  | [] => .ok scope
  | instruction :: body => do
    let scope ← verify inLoop scope instruction
    verifyBody inLoop scope body

def verifyCases (inLoop : Bool) (scope : Scope) : Cases FunctionId → Except Violation Scope
  | [] => .ok scope
  | ⟨guard, action, value⟩ :: cases => do
    let inner ← surroundings.enterCase scope guard
    let inner ← verifyBody inLoop inner action
    surroundings.readAll inner value.toList
    verifyCases inLoop (scope.close inner) cases

end

end Surroundings

namespace Function

def check (program : Program) (function : Function FunctionId) : Except Violation Unit := do
  let surroundings : Surroundings :=
    ⟨program.enums, program.functions.length, function.registerCount⟩
  if function.registerNames.length ≠ function.registerCount then
    throw (.registerNameCount function.registerNames.length function.registerCount)
  if function.registerCount < function.parameterCount then
    throw (.tooManyParameters function.parameterCount function.registerCount)
  surroundings.checkRange function.returnValue
  let scope ← surroundings.defineAll .empty (List.range function.parameterCount)
  let scope ← surroundings.verifyBody false scope function.body
  if function.returnValue ∉ scope.visible then
    throw (.returnValueUndefined function.returnValue)

def verify (program : Program) (function : Function FunctionId) : Except VerifyError Unit :=
  (function.check program).mapError (⟨function.name, ·⟩)

end Function

namespace Program

def verifyAll (program : Program) : List (Function FunctionId) → Except VerifyError Unit
  | [] => .ok ()
  | function :: functions => do
    function.verify program
    verifyAll program functions

def verify (program : Program) : Except VerifyError Unit := program.verifyAll program.functions

end Program

end RegisterIR
