import RegisterIR.Instruction

/-! Functions and programs. The registers of a function are numbered from zero, its parameters
first. Function zero of a program is its entry point. -/

namespace RegisterIR

abbrev FunctionId := Nat

structure Function (φ : Type) where
  name : String
  parameterCount : Nat
  registerCount : Nat
  returnValue : Register
  /-- Names for listings; a register without one is shown by its number. -/
  registerNames : List (Option String)
  body : Body φ
deriving DecidableEq, Repr

namespace Function

variable {φ ψ : Type}

def registerName? (function : Function φ) (register : Register) : Option String :=
  (function.registerNames[register]?).join

def functions (function : Function φ) : List φ := Instruction.functionsBody function.body

def relabel (f : φ → ψ) (function : Function φ) : Function ψ where
  name := function.name
  parameterCount := function.parameterCount
  registerCount := function.registerCount
  returnValue := function.returnValue
  registerNames := function.registerNames
  body := Instruction.relabelBody f function.body

def update {m : Type → Type} [Monad m] (visit : φ → m ψ) (function : Function φ) :
    m (Function ψ) := do
  let body ← Instruction.updateBody visit function.body
  pure
    { name := function.name
      parameterCount := function.parameterCount
      registerCount := function.registerCount
      returnValue := function.returnValue
      registerNames := function.registerNames
      body }

end Function

structure TypeTable where
  enums : List Enumeration
  records : List Record
  interfaces : List String
deriving DecidableEq, Repr

structure Program extends TypeTable where
  functions : List (Function FunctionId)
deriving DecidableEq, Repr

end RegisterIR
