import RegisterIR.Program

/-! Rules that a function can break, and how a broken rule is reported. -/

namespace RegisterIR

inductive Violation
  | registerOutOfRange (register : Register) (count : Nat)
  | registerRedefined (register : Register)
  | useBeforeDefinition (register : Register)
  | leaveOutsideLoop
  | returnValueUndefined (register : Register)
  | tooManyParameters (parameters count : Nat)
  | registerNameCount (names count : Nat)
  | unknownEnum (id : EnumId)
  | unknownElement (which : ElementRef)
  | statelessElement (which : ElementRef)
  | missingState (which : ElementRef)
  | unknownFunction (callee : FunctionId)
deriving DecidableEq, Repr

namespace Violation

def message : Violation → String
  | registerOutOfRange register count => s!"register %{register} out of range ({count} registers)"
  | registerRedefined register => s!"register %{register} defined more than once"
  | useBeforeDefinition register => s!"register %{register} used before its definition"
  | leaveOutsideLoop => "break outside of a loop"
  | returnValueUndefined register => s!"return value %{register} is never defined"
  | tooManyParameters parameters count => s!"{parameters} parameters but only {count} registers"
  | registerNameCount names count => s!"{names} register names for {count} registers"
  | unknownEnum id => s!"unknown enum {id}"
  | unknownElement ⟨enumeration, which⟩ => s!"enum {enumeration} has no element {which}"
  | statelessElement ⟨enumeration, which⟩ =>
    s!"element {which} of enum {enumeration} carries no state"
  | missingState ⟨enumeration, which⟩ => s!"element {which} of enum {enumeration} requires state"
  | unknownFunction callee => s!"unknown function {callee}"

end Violation

structure VerifyError where
  function : String
  violation : Violation
deriving DecidableEq, Repr

namespace VerifyError

def message (error : VerifyError) : String := error.function ++ ": " ++ error.violation.message

end VerifyError

end RegisterIR
