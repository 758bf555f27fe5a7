import RegisterIR.Check.TestFile
import RegisterIR.Encoding.Listing
import RegisterIR.Optimization
import RegisterIR.Program.Printer
import RegisterIR.Reading.Program
import RegisterIR.Script.Compile

/-! Running test files. Each command applies its actions in order to the program of the file, and
what they print is checked against all directives of the file. -/

namespace RegisterIR.Check

inductive Failure
  | unreadable (error : ParseError Position)
  | unknownArgument (argument : String)
  | mismatch (reason : Mismatch)
  | fault (fault : Fault)

namespace Failure

def message? : Failure → Option String
  | unreadable error => some error.message
  | unknownArgument argument => some s!"unknown RUN argument '{argument}'"
  | mismatch reason => some reason.message
  | fault _ => none

end Failure

/-- A pass as part of a command, which keeps no events. -/
def applied {α : Type} (pass : Traced α) : Except Failure α := pass.outcome.mapError .fault

def perform (program : Program) (argument : String) : Except Failure (Program × List String) :=
  match argument with
  | "--dce" => do
    let program ← applied program.removeDeadCode
    pure (program, [])
  | "--remove-unused-functions" => do
    let (_, program) ← applied program.removeUnused
    pure (program, [])
  | "--optimize" => do
    let program ← applied (program.optimize .all)
    pure (program, [])
  | "--print-ir" => pure (program, ["Printing IR", program.render])
  | "--emit-ecmascript" => do
    let text ← applied program.script
    pure (program, [text])
  | "--print-encoding" => do
    let listings ← applied program.encodings
    pure (program, listings.flatMap fun listing =>
      ["Encoding " ++ listing.name] ++ listing.lines ++ ["End Encoding"])
  | other =>
    -- A placeholder for the input file stands for nothing here.
    if other.toList.head? = some '%' then pure (program, [])
    else throw (.unknownArgument other)

def performAll (program : Program) : List String → Except Failure (List String)
  | [] => pure []
  | argument :: arguments => do
    let (program, printed) ← perform program argument
    let rest ← performAll program arguments
    pure (printed ++ rest)

def Command.execute (program : Program) (command : Command) : Except Failure String := do
  let printed ← performAll program command.arguments
  pure ("\n".intercalate printed)

structure Report where
  lines : List String
  result : Except Failure Unit

namespace Report

def ofVerdict (verdict : Verdict) : Report :=
  ⟨verdict.notes.map Note.render, verdict.result.mapError .mismatch⟩

def andThen (report next : Report) : Report :=
  match report.result with
  | .ok () => ⟨report.lines ++ next.lines, next.result⟩
  | .error failure => ⟨report.lines, .error failure⟩

def printed (verbose : Bool) (report : Report) : String :=
  if verbose then String.join (report.lines.map (· ++ "\n")) else ""

end Report

def Command.run (program : Program) (directives : List Directive) (command : Command) : Report :=
  match command.execute program with
  | .error failure => ⟨[], .error failure⟩
  | .ok output =>
    let heading := "Output of " ++ command.name ++ " " ++ " ".intercalate command.arguments ++ ":\n"
    Report.andThen ⟨[heading ++ output], .ok ()⟩ (.ofVerdict (validate output directives))

def runAll (program : Program) (directives : List Directive) : List Command → Report
  | [] => ⟨[], .ok ()⟩
  | command :: commands =>
    (command.run program directives).andThen (runAll program directives commands)

def TestFile.run (file : TestFile) : Report :=
  match Program.parse file.programText with
  | .error error => ⟨[], .error (.unreadable error)⟩
  | .ok program => runAll program file.directives file.commands

end RegisterIR.Check
