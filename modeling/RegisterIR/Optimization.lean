import RegisterIR.DeadCode
import RegisterIR.Reachability

/-! The optimizer: dead code goes first, since without it functions may lose their last
reference. -/

namespace RegisterIR

structure Optimization where
  deadCode : Bool
  unusedFunctions : Bool
deriving DecidableEq, Repr

namespace Optimization

def all : Optimization := ⟨true, true⟩

end Optimization

def Program.optimize (program : Program) (passes : Optimization) : Traced Program := do
  let program ← if passes.deadCode then program.removeDeadCode else pure program
  if passes.unusedFunctions then
    let (_, program) ← program.removeUnused
    pure program
  else pure program

end RegisterIR
