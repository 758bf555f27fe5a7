import RegisterIR.Script.Expr

/-! Script statements, functions and modules, and their layout. -/

namespace RegisterIR.Script

open Text (line)

inductive Statement
  | declare (name : String) (value : Option Expr)
  | assign (name : String) (value : Expr)
  /-- Runs the first branch whose test holds, and fails if there is none. -/
  | dispatch (branches : List (Expr × List Statement))
  | forever (body : List Statement)
  | leave
deriving Repr

namespace Statement

mutual

def render (depth : Nat) : Statement → String
  | declare name none => line depth ("var " ++ name ++ ";")
  | declare name (some value) => line depth ("var " ++ name ++ " = " ++ value.render ++ ";")
  | assign name value => line depth (name ++ " = " ++ value.render ++ ";")
  | dispatch [] => line depth "fail();"
  | dispatch ((test, body) :: branches) =>
    line depth ("if (" ++ test.render ++ ")") ++ line depth "\x7b" ++
      renderAll (depth + 1) body ++ line depth "\x7d" ++ renderBranches depth branches
  | forever body =>
    line depth "for (;;)" ++ line depth "\x7b" ++ renderAll (depth + 1) body ++ line depth "\x7d"
  | leave => line depth "break;"

def renderAll (depth : Nat) : List Statement → String
  | [] => ""
  | statement :: statements => statement.render depth ++ renderAll depth statements

def renderBranches (depth : Nat) : List (Expr × List Statement) → String
  | [] => line depth "else" ++ line depth "\x7b" ++ line (depth + 1) "fail();" ++ line depth "\x7d"
  | (test, body) :: branches =>
    line depth ("else if (" ++ test.render ++ ")") ++ line depth "\x7b" ++
      renderAll (depth + 1) body ++ line depth "\x7d" ++ renderBranches depth branches

end

end Statement

structure Lambda where
  parameters : List String
  body : List Statement
  result : String

def lambdaName (id : Nat) : String := "lambda_" ++ toString id

def Lambda.render (id : Nat) (lambda : Lambda) : String :=
  line 1 (lambdaName id ++ " = function " ++ Text.parenthesized lambda.parameters) ++
    line 1 "\x7b" ++ Statement.renderAll 2 lambda.body ++
    line 2 ("return " ++ lambda.result ++ ";") ++ line 1 "\x7d;"

/-- A function of the host's globals that declares all lambdas, so that they can refer to each
other in any order, and returns the first one. -/
def renderModule (lambdas : List Lambda) : String :=
  line 0 "(function (globals)" ++ line 0 "\x7b" ++ line 1 "\"use strict\";" ++
    line 1 "var fail = function () \x7b throw \"fail\"; \x7d;" ++
    String.join
      ((List.range lambdas.length).map fun id => line 1 ("var " ++ lambdaName id ++ ";")) ++
    String.join (lambdas.zipIdx.map fun (lambda, id) => lambda.render id) ++
    (if lambdas.isEmpty then "" else line 1 ("return " ++ lambdaName 0 ++ ";")) ++
    line 0 "\x7d)"

end RegisterIR.Script
