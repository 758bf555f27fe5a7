import RegisterIR.Optimization

/-! The arguments of the command line. They are read from left to right, and the first that is
wrong or that asks for information only decides what happens. -/

namespace RegisterIR.CommandLine

inductive Emit
  | program
  | script
  | encoding
deriving DecidableEq, Repr

def Emit.ofName? : String → Option Emit
  | "ir" => some program
  | "ecmascript" => some script
  | "encoding" => some encoding
  | _ => none

/-- What the arguments have said so far. Each of these can be said once, except for verbosity,
which counts. -/
structure Options where
  input : Option String
  emit : Option Emit
  noDeadCode : Bool
  keepUnused : Bool
  verbosity : Nat
deriving DecidableEq, Repr

inductive Stop
  | version
  | help
  | misuse
deriving DecidableEq, Repr

namespace Options

def empty : Options := ⟨none, none, false, false, 0⟩

def setInput (options : Options) (path : String) : Except Stop Options :=
  if path.isEmpty || options.input.isSome then .error .misuse
  else .ok { options with input := some path }

def setEmit (options : Options) (name : String) : Except Stop Options :=
  match Emit.ofName? name, options.emit with
  | some emit, none => .ok { options with emit := some emit }
  | _, _ => .error .misuse

def addVerbosity (options : Options) : Options :=
  { options with verbosity := options.verbosity + 1 }

def readLong (options : Options) : String → Except Stop Options
  | "--no-dce" =>
    if options.noDeadCode then .error .misuse else .ok { options with noDeadCode := true }
  | "--keep-unused-functions" =>
    if options.keepUnused then .error .misuse else .ok { options with keepUnused := true }
  | "--verbose" => .ok options.addVerbosity
  | "--version" => .error .version
  | "--help" => .error .help
  | _ => .error .misuse

def readLetters (options : Options) : List Char → Except Stop Options
  | [] => .ok options
  | 'v' :: letters => readLetters options.addVerbosity letters
  | 'V' :: _ => .error .version
  | 'h' :: _ => .error .help
  | _ :: _ => .error .misuse

def readOne (options : Options) (argument : String) : Except Stop Options :=
  match argument.toList with
  | '-' :: '-' :: _ =>
    if "--emit=".toList.isPrefixOf argument.toList then
      options.setEmit (String.ofList (argument.toList.drop 7))
    else options.readLong argument
  | '-' :: letter :: letters => options.readLetters (letter :: letters)
  | _ => options.setInput argument

def readInputs (options : Options) : List String → Except Stop Options
  | [] => .ok options
  | path :: paths => do
    let options ← options.setInput path
    readInputs options paths

def readFrom (options : Options) : List String → Except Stop Options
  | [] => .ok options
  | "--" :: paths => options.readInputs paths
  | "--emit" :: name :: arguments => do
    let options ← options.setEmit name
    readFrom options arguments
  | argument :: arguments => do
    let options ← options.readOne argument
    readFrom options arguments

def parse (arguments : List String) : Except Stop Options := empty.readFrom arguments

def passes (options : Options) : Optimization := ⟨!options.noDeadCode, !options.keepUnused⟩

/-- Whether an event of a level is shown: with one `-v` all but the finest. -/
def shows (options : Options) : Level → Bool
  | .trace => 2 ≤ options.verbosity
  | .debug => 1 ≤ options.verbosity
  | .info => 1 ≤ options.verbosity

end Options

end RegisterIR.CommandLine
