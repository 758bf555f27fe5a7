import RegisterIR.DeadCode

/-! Functions that the entry point can reach. A function reaches those that literals of its body
refer to. -/

namespace RegisterIR

theorem count_set_lt {used : List Bool} {id : Nat} (seen : used[id]? = some false) :
    (used.set id true).count false < used.count false := by
  induction used generalizing id with
  | nil => cases seen
  | cons flag used ih =>
    cases id with
    | zero =>
      obtain rfl : flag = false := Option.some.inj seen
      rw [List.set_cons_zero, List.count_cons_self, List.count_cons_of_ne (by decide)]
      exact Nat.lt_succ_self _
    | succ id =>
      rw [List.set_cons_succ, List.count_cons, List.count_cons]
      exact Nat.add_lt_add_right (ih seen) _

namespace Program

/-- Marks what is reached from the functions on the worklist, of which the one that was added last
comes first. A number beyond the table is a fault when its turn comes. -/
def mark (program : Program) (used : List Bool) :
    (worklist : List FunctionId) → Except Fault (List Bool)
  | [] => pure used
  | id :: worklist =>
    match _ : used[id]? with
    | none => throw .outOfRange
    | some true => mark program used worklist
    | some false => do
      let function ← entry program.functions id
      mark program (used.set id true) (function.functions.reverse ++ worklist)
termination_by worklist => (used.count false, worklist.length)
decreasing_by
  · exact Prod.Lex.right _ (Nat.lt_succ_self _)
  · rename_i unseen
    exact Prod.Lex.left _ _ (count_set_lt unseen)

end Program

namespace Renumbering

def function (renumbering : Renumbering) (id : FunctionId) : Except Fault FunctionId := do
  match ← renumbering.target id with
  | some renamed => pure renamed
  | none => throw (.notReached id)

def functions (renumbering : Renumbering) (kept : List (Function FunctionId)) :
    Except Fault (List (Function FunctionId)) :=
  kept.mapM (Function.update renumbering.function)

end Renumbering

namespace Program

/-- The program with its reachable functions only, numbered anew in their old order, and how many
functions were dropped. -/
def removeUnused (program : Program) : Traced (Nat × Program) :=
  let count := program.functions.length
  if count = 0 then pure (0, program)
  else do
    let used ← program.mark (List.replicate count false) [0]
    let renumbering := Renumbering.assign 0 used
    let left := used.count true
    let removed := count - left
    if removed = 0 then pure (0, program)
    else do
      let kept := (program.functions.zip used).filterMap fun (function, isUsed) =>
        if isUsed then some function else none
      let functions ← renumbering.functions kept
      Traced.record (.unusedRemoved removed left)
      pure (removed, { program with functions })

end Program

end RegisterIR
