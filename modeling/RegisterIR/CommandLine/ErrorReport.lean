import RegisterIR.Reading.Error
import RegisterIR.Text.Layout
import RegisterIR.Text.Shown

/-! How the command line reports errors: a name with its fields. -/

namespace RegisterIR.CommandLine

def fielded (name : String) (fields : List (String × String)) : String :=
  name ++ " \x7b " ++ Text.listed (fields.map fun (field, value) => field ++ ": " ++ value) ++
    " \x7d"

def registerField (register : Register) : String × String :=
  ("register", "RegisterId(" ++ toString register ++ ")")

def elementFields (which : ElementRef) : List (String × String) :=
  [("enumeration", toString which.enumeration), ("which", toString which.which)]

def violationParts : Violation → String × List (String × String)
  | .registerOutOfRange register count =>
    ("RegisterOutOfRange", [registerField register, ("count", toString count)])
  | .registerRedefined register => ("RegisterRedefined", [registerField register])
  | .useBeforeDefinition register => ("UseBeforeDefinition", [registerField register])
  | .leaveOutsideLoop => ("BreakOutsideLoop", [])
  | .returnValueUndefined register => ("ReturnValueUndefined", [registerField register])
  | .tooManyParameters parameters count =>
    ("TooManyParameters", [("parameters", toString parameters), ("count", toString count)])
  | .registerNameCount names count =>
    ("RegisterNameCount", [("names", toString names), ("count", toString count)])
  | .unknownEnum id => ("UnknownEnum", [("enumeration", toString id)])
  | .unknownElement which => ("UnknownEnumElement", elementFields which)
  | .statelessElement which => ("StatelessElement", elementFields which)
  | .missingState which => ("MissingState", elementFields which)
  | .unknownFunction callee => ("UnknownFunction", [("callee", toString callee)])

def verifyReport (error : VerifyError) : String :=
  let (name, fields) := violationParts error.violation
  fielded name (("function", Text.reported error.function) :: fields)

def parseReport : ParseError Position → String
  | .malformed position reason =>
    fielded "Syntax" [("line", toString position.line), ("column", toString position.column),
      ("reason", Text.reported reason.message)]
  | .undefinedRegister function name =>
    fielded "UndefinedRegister" [("function", Text.reported function), ("name", Text.reported name)]
  | .duplicateRegister function name =>
    fielded "DuplicateRegister" [("function", Text.reported function), ("name", Text.reported name)]
  | .undefinedFunction name => fielded "UndefinedFunction" [("name", Text.reported name)]
  | .duplicateFunction name => fielded "DuplicateFunction" [("name", Text.reported name)]
  | .undefinedType kind name =>
    fielded "UndefinedType" [("kind", Text.reported kind.keyword), ("name", Text.reported name)]
  | .duplicateType kind name =>
    fielded "DuplicateType" [("kind", Text.reported kind.keyword), ("name", Text.reported name)]
  | .undefinedElement enumeration element =>
    fielded "UndefinedEnumElement"
      [("enumeration", Text.reported enumeration), ("element", Text.reported element)]
  | .invalid error => "Invalid(" ++ verifyReport error ++ ")"

end RegisterIR.CommandLine
