import RegisterIR.Encoding.Cache
import RegisterIR.Program
import RegisterIR.Script.Statement

/-! From programs to scripts. A register becomes a variable, a selection a chain of tests, and
enum values take the encodings of the strategy cache. -/

namespace RegisterIR

open Script

/-- The variable of a register, by number and with the letters and digits of its name. -/
def Function.variableName {φ : Type} (function : Function φ) (register : Register) : String :=
  "r" ++ toString register ++
    (match function.registerName? register with
      | some name => "_" ++ name.map fun c => if c.isAlphanum then c else '_'
      | none => "")

namespace Literal

mutual

def compile (enums : List Enumeration) : Literal FunctionId → Cached Expr
  | unit => pure (.constant .undefined)
  | integer value => pure (.number value)
  | string content => pure (.text content)
  | function id => pure (.name (lambdaName id))
  | element which => do
    let encoding ← which.encoding enums
    pure (encoding.construct (.constant .undefined))
  | wrapped which state => do
    let encoding ← which.encoding enums
    let payload ← state.compile enums
    pure (encoding.construct payload)
  | constructor which => do
    let encoding ← which.encoding enums
    pure encoding.constructor
  | tuple elements => do
    let elements ← compileAll enums elements
    pure (.array elements)

def compileAll (enums : List Enumeration) : List (Literal FunctionId) → Cached (List Expr)
  | [] => pure []
  | literal :: literals => do
    let element ← literal.compile enums
    let elements ← compileAll enums literals
    pure (element :: elements)

end

end Literal

def Operation.compile (enums : List Enumeration) (name : Register → String) :
    Operation FunctionId → Cached Expr
  | literal value _ => value.compile enums
  | tuple elements => pure (.array (elements.map fun element => .name (name element)))
  | member source index => pure (.item (.name (name source)) index)
  | construct which state _ => do
    let encoding ← which.encoding enums
    pure (encoding.construct (.name (name state)))
  | global => pure (.name "globals")

def Guard.compile (enums : List Enumeration) (name : Register → String) (key : Register) :
    Guard → Cached (Expr × List Statement)
  | equals other => pure (.compare .same (.name (name key)) (.name (name other)), [])
  | element which binding => do
    let encoding ← which.encoding enums
    let subject : Expr := .name (name key)
    pure (encoding.check subject, [.declare (name binding) (some (encoding.payload subject))])

namespace Instruction

mutual

def compile (enums : List Enumeration) (name : Register → String) :
    Instruction FunctionId → Cached (List Statement)
  | compute result operation => do
    let value ← operation.compile enums name
    pure [.declare (name result) (some value)]
  | call result callee arguments =>
    pure [.declare (name result) (some (.call (name callee) (arguments.map name)))]
  | select result key cases => do
    let branches ← compileCases enums name result key cases
    pure [.declare (name result) none, .dispatch branches]
  | loop body => do
    let body ← compileBody enums name body
    pure [.forever body]
  | leave => pure [.leave]

def compileBody (enums : List Enumeration) (name : Register → String) :
    Body FunctionId → Cached (List Statement)
  | [] => pure []
  | instruction :: body => do
    let statements ← instruction.compile enums name
    let rest ← compileBody enums name body
    pure (statements ++ rest)

def compileCases (enums : List Enumeration) (name : Register → String)
    (result key : Register) : Cases FunctionId → Cached (List (Expr × List Statement))
  | [] => pure []
  | ⟨guard, action, value⟩ :: cases => do
    let (test, bindings) ← guard.compile enums name key
    let action ← compileBody enums name action
    let yields := value.toList.map fun register =>
      Statement.assign (name result) (.name (name register))
    let branches ← compileCases enums name result key cases
    pure ((test, bindings ++ action ++ yields) :: branches)

end

end Instruction

def Function.compile (enums : List Enumeration) (function : Function FunctionId) :
    Cached Lambda := do
  let body ← Instruction.compileBody enums function.variableName function.body
  pure
    { parameters := (List.range function.parameterCount).map function.variableName
      body
      result := function.variableName function.returnValue }

namespace Program

def compileAll (enums : List Enumeration) :
    List (Function FunctionId × FunctionId) → Cached (List Lambda)
  | [] => pure []
  | (function, id) :: functions => do
    Traced.record (.generating id function.name)
    let lambda ← function.compile enums
    let lambdas ← compileAll enums functions
    pure (lambda :: lambdas)

def script (program : Program) : Traced String := do
  let (lambdas, _) ← (compileAll program.enums program.functions.zipIdx).run .empty
  pure (renderModule lambdas)

end Program

def Script.writeFailure (reason : String) : String := "Failed to write generated code: " ++ reason

end RegisterIR
