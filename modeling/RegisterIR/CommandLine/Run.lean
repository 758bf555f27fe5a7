import RegisterIR.CommandLine.FileTree
import RegisterIR.CommandLine.Options
import RegisterIR.Encoding.Listing
import RegisterIR.Program.Printer
import RegisterIR.Reading.Program
import RegisterIR.Script.Compile

/-! A run of the command line, from its arguments and its input to what it writes. -/

namespace RegisterIR.CommandLine

structure Completion where
  exit : Nat
  output : String
  reports : List String
deriving DecidableEq, Repr

namespace Completion

def error (report : String) : Completion := ⟨1, "", ["Error: " ++ report]⟩

end Completion

def Stop.completion : Stop → Completion
  | version => ⟨0, "tessel 0.1.0\n", []⟩
  | help => ⟨0, "Optimize textual IR and compile it to ECMAScript\n\nUsage: tessel [OPTIONS] [INPUT]\n", []⟩
  | misuse => ⟨2, "", ["Usage: tessel [OPTIONS] [INPUT]"]⟩

def eventLine (event : Event) : String :=
  let level := event.level.name
  "[" ++ level.pushn ' ' (5 - level.length) ++ " " ++ event.source ++ "] " ++ event.message

def written (program : Program) : Emit → Traced String
  | .program => pure program.render
  | .script => program.script
  | .encoding => do
    let listings ← program.encodings
    pure (String.join (listings.map fun listing =>
      Text.line 0 ("enum " ++ listing.name) ++ String.join (listing.lines.map (Text.line 1))))

def process (options : Options) (program : Program) : Traced String := do
  Traced.record program.parsedEvent
  Traced.record (.loaded program.functions.length program.enums.length)
  let program ← program.optimize options.passes
  written program (options.emit.getD .script)

def runOn (options : Options) : Except ReadFailure String → Completion
  | .error failure => .error failure.report
  | .ok content =>
    match Program.parse content with
    | .error error => .error (parseReport error)
    | .ok program =>
      let run := process options program
      let reports := (run.events.filter fun event => options.shows event.level).map eventLine
      match run.outcome with
      | .ok output => ⟨0, output, reports⟩
      | .error fault => ⟨101, "", reports ++ fault.message.toList⟩

/-- A run at a place among files. The input is the file that the arguments name, or else what the
run is given. -/
def run (arguments : List String) (place : Place) (given : ByteArray) : Completion :=
  match Options.parse arguments with
  | .error stop => stop.completion
  | .ok options =>
    runOn options
      (match options.input with
        | some path => place.read path
        | none => decode given)

end RegisterIR.CommandLine
