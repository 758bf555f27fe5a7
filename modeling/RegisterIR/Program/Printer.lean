import RegisterIR.Program
import RegisterIR.Text.Layout
import RegisterIR.Text.Quoted

/-! The written form of programs. A reference beyond its table is shown by number, so every
program has a written form, verified or not. -/

namespace RegisterIR

open Text (indentation parenthesized)

structure Naming (φ : Type) where
  types : TypeTable
  function : φ → String
  register : Register → String

def nameOr (name : Option String) (id : Nat) : String := name.getD ("#" ++ toString id)

def ElementRef.render (types : TypeTable) (element : ElementRef) : String :=
  match types.enums[element.enumeration]? with
  | some enumeration =>
    enumeration.name ++ "." ++
      nameOr (enumeration.elements[element.which]?.map Element.name) element.which
  | none => "#" ++ toString element.enumeration ++ ".#" ++ toString element.which

namespace ValueType

mutual

def render (types : TypeTable) : ValueType → String
  | unit => "unit"
  | string => "string"
  | host => "host"
  | integer range => "int " ++ toString range.minimum ++ ".." ++ toString range.maximum
  | enumeration id => "enum " ++ nameOr (types.enums[id]?.map Enumeration.name) id
  | constructor element => "constructor " ++ element.render types
  | function parameters result =>
    "function" ++ parenthesized (renderAll types parameters) ++ " -> " ++ result.render types
  | tuple elements => "tuple" ++ parenthesized (renderAll types elements)
  | record id => "struct " ++ nameOr (types.records[id]?.map Record.name) id
  | interface id => "interface " ++ nameOr types.interfaces[id]? id

def renderAll (types : TypeTable) : List ValueType → List String
  | [] => []
  | type :: rest => type.render types :: renderAll types rest

end

end ValueType

namespace Literal

variable {φ : Type}

mutual

def render (naming : Naming φ) : Literal φ → String
  | unit => "unit"
  | integer value => toString value
  | string content => Text.quoted content
  | function label => "@" ++ naming.function label
  | element which => which.render naming.types
  | wrapped which state => which.render naming.types ++ "(" ++ state.render naming ++ ")"
  | constructor which => "constructor " ++ which.render naming.types
  | tuple elements => parenthesized (renderAll naming elements)

def renderAll (naming : Naming φ) : List (Literal φ) → List String
  | [] => []
  | literal :: literals => literal.render naming :: renderAll naming literals

end

end Literal

def Operation.render {φ : Type} (naming : Naming φ) : Operation φ → String
  | literal value type => "literal " ++ value.render naming ++ " : " ++ type.render naming.types
  | tuple elements => "tuple" ++ parenthesized (elements.map naming.register)
  | member source index => "read_struct " ++ naming.register source ++ "." ++ toString index
  | construct which state _ =>
    "enum_construct " ++ which.render naming.types ++ "(" ++ naming.register state ++ ")"
  | global => "global"

def Guard.render {φ : Type} (naming : Naming φ) : Guard → String
  | equals key => naming.register key
  | element which binding => which.render naming.types ++ "(" ++ naming.register binding ++ ")"

namespace Instruction

variable {φ : Type}

mutual

def render (naming : Naming φ) (depth : Nat) : Instruction φ → String
  | compute result operation =>
    indentation depth ++ naming.register result ++ " = " ++ operation.render naming ++ "\n"
  | call result callee arguments =>
    indentation depth ++ naming.register result ++ " = call " ++ naming.register callee ++
      parenthesized (arguments.map naming.register) ++ "\n"
  | select result key cases =>
    indentation depth ++ naming.register result ++ " = match " ++ naming.register key ++
      " \x7b\n" ++ renderCases naming (depth + 1) cases ++ indentation depth ++ "\x7d\n"
  | loop body =>
    indentation depth ++ "loop \x7b\n" ++ renderBody naming (depth + 1) body ++
      indentation depth ++ "\x7d\n"
  | leave => indentation depth ++ "break\n"

def renderBody (naming : Naming φ) (depth : Nat) : Body φ → String
  | [] => ""
  | instruction :: body => instruction.render naming depth ++ renderBody naming depth body

def renderCases (naming : Naming φ) (depth : Nat) : Cases φ → String
  | [] => ""
  | ⟨guard, action, value⟩ :: cases =>
    indentation depth ++ "case " ++ guard.render naming ++ " \x7b\n" ++
      renderBody naming (depth + 1) action ++ indentation depth ++ "\x7d" ++
      (match value with
        | some register => " yield " ++ naming.register register
        | none => "") ++
      "\n" ++ renderCases naming depth cases

end

end Instruction

def Enumeration.render (types : TypeTable) (enumeration : Enumeration) : String :=
  "enum " ++ enumeration.name ++ " \x7b\n" ++
    String.join (enumeration.elements.map fun element =>
      indentation 1 ++ element.name ++
        (match element.state with
          | some state => "(" ++ state.render types ++ ")"
          | none => "") ++ ",\n") ++
    "\x7d\n"

def Record.render (types : TypeTable) (record : Record) : String :=
  "struct " ++ record.name ++ " \x7b\n" ++
    String.join (record.members.map fun member =>
      indentation 1 ++ member.name ++ ": " ++ member.type.render types ++ ",\n") ++
    "\x7d\n"

def Function.registerText {φ : Type} (function : Function φ) (register : Register) : String :=
  "%" ++ (function.registerName? register).getD (toString register)

def Function.render {φ : Type} (types : TypeTable) (functionName : φ → String)
    (function : Function φ) : String :=
  let naming : Naming φ := ⟨types, functionName, function.registerText⟩
  "fn " ++ function.name ++
    parenthesized ((List.range function.parameterCount).map function.registerText) ++
    " -> " ++ function.registerText function.returnValue ++ " \x7b\n" ++
    Instruction.renderBody naming 1 function.body ++ "\x7d\n"

namespace Program

def functionName (program : Program) (id : FunctionId) : String :=
  nameOr (program.functions[id]?.map Function.name) id

def renderFunction (program : Program) (function : Function FunctionId) : String :=
  function.render program.toTypeTable program.functionName

def render (program : Program) : String :=
  "\n".intercalate
    (program.enums.map (Enumeration.render program.toTypeTable) ++
      program.records.map (Record.render program.toTypeTable) ++
      program.interfaces.map (fun name => "interface " ++ name ++ "\n") ++
      program.functions.map program.renderFunction)

end Program

end RegisterIR
