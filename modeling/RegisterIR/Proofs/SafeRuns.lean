import RegisterIR.Proofs.Execution
import RegisterIR.Proofs.LexicalScope
import Mathlib.Logic.Relation

/-! Runs without values, one step at a time. Any case may be chosen and nothing is known about the
answers of calls, so the runs of a function include all its executions. A run of a verified function
reads only what it has written, because what the verifier has in sight at a place has been written
on every path to it. -/

namespace RegisterIR

variable {φ : Type}

/-- What goes on after a nested sequence. -/
inductive Frame (φ : Type)
  | loop (body rest : Body φ)
  | case (value : Option Register) (result : Register) (rest : Body φ)

/-- A moment of a run: what is left of the sequence at hand, the sequences around it, innermost
first, and the registers written so far. -/
structure Moment (φ : Type) where
  code : Body φ
  frames : List (Frame φ)
  written : List Register

def Frame.exit : List (Frame φ) → Option (Body φ × List (Frame φ))
  | [] => none
  | loop _ rest :: frames => some (rest, frames)
  | case .. :: frames => exit frames

namespace Moment

/-- The registers that the next step reads. A selection reads what its cases test, and a case at its
end what it yields. -/
def reads : Moment φ → List Register
  | ⟨instruction :: _, _, _⟩ => instruction.reads
  | ⟨[], .case value _ _ :: _, _⟩ => value.toList
  | ⟨[], _, _⟩ => []

/-- A selection goes on with any of its cases. It may also fail, and the run then stops there. -/
inductive Step : Moment φ → Moment φ → Prop
  | compute {result operation code frames written} :
      Step ⟨.compute result operation :: code, frames, written⟩ ⟨code, frames, result :: written⟩
  | call {result callee arguments code frames written} :
      Step ⟨.call result callee arguments :: code, frames, written⟩
        ⟨code, frames, result :: written⟩
  | choose {result key cases case code frames written} : case ∈ cases →
      Step ⟨.select result key cases :: code, frames, written⟩
        ⟨case.action, .case case.value result code :: frames, case.guard.bindings ++ written⟩
  | yield {value result rest frames written} :
      Step ⟨[], .case value result rest :: frames, written⟩ ⟨rest, frames, result :: written⟩
  | enter {body code frames written} :
      Step ⟨.loop body :: code, frames, written⟩ ⟨body, .loop body code :: frames, written⟩
  | again {body rest frames written} :
      Step ⟨[], .loop body rest :: frames, written⟩ ⟨.loop body :: rest, frames, written⟩
  | leave {code frames rest outer written} : Frame.exit frames = some (rest, outer) →
      Step ⟨.leave :: code, frames, written⟩ ⟨rest, outer, written⟩

structure Safe (returnValue : Register) (moment : Moment φ) : Prop where
  reads : ∀ r ∈ moment.reads, r ∈ moment.written
  leaves : ∀ {code}, moment.code = .leave :: code →
    ∃ body rest, .loop body rest ∈ moment.frames
  returns : moment.code = [] → moment.frames = [] → returnValue ∈ moment.written

end Moment

/-- The moments of the runs of a function, of which at first only the parameters are written. -/
def Function.Reaches (function : Function φ) : Moment φ → Prop :=
  Relation.ReflTransGen Moment.Step ⟨function.body, [], List.range function.parameterCount⟩

section Safety

variable {surroundings : Surroundings} {returnValue : Register}

/-- The frames go on well from a sequence that ends in the scope: what each of them sees is written
by then. -/
inductive Waits (surroundings : Surroundings) (returnValue : Register) (written : List Register) :
    Bool → Scope → List (Frame FunctionId) → Prop
  | done {scope} : returnValue ∈ scope.visible →
      Waits surroundings returnValue written false scope []
  | loop {inLoop scope outer after body rest frames} :
      surroundings.verifyBody inLoop outer (.loop body :: rest) = .ok after →
      outer.visible ⊆ written → Waits surroundings returnValue written inLoop after frames →
      Waits surroundings returnValue written true scope (.loop body rest :: frames)
  | case {inLoop scope outer after value result rest frames} :
      surroundings.Readable scope value.toList →
      surroundings.verifyBody inLoop outer rest = .ok after →
      outer.visible ⊆ result :: written →
      Waits surroundings returnValue written inLoop after frames →
      Waits surroundings returnValue written inLoop scope (.case value result rest :: frames)

theorem Waits.mono {inLoop : Bool} {scope : Scope} {frames : List (Frame FunctionId)}
    {written written' : List Register} (more : written ⊆ written')
    (h : Waits surroundings returnValue written inLoop scope frames) :
    Waits surroundings returnValue written' inLoop scope frames := by
  induction h with
  | done returned => exact .done returned
  | loop verified seen _ ih => exact .loop verified (List.Subset.trans seen more) ih
  | case readable verified seen _ ih =>
    exact .case readable verified (List.Subset.trans seen (List.cons_subset_cons _ more)) ih

namespace Moment

/-- The code at hand is verified from a scope whose visible registers have been written. -/
def Covered (surroundings : Surroundings) (returnValue : Register) (moment : Moment FunctionId) :
    Prop :=
  ∃ inLoop scope after, surroundings.verifyBody inLoop scope moment.code = .ok after ∧
    scope.visible ⊆ moment.written ∧
    Waits surroundings returnValue moment.written inLoop after moment.frames

end Moment

theorem Waits.exit {inLoop : Bool} {scope : Scope} {frames : List (Frame FunctionId)}
    {written : List Register} (h : Waits surroundings returnValue written inLoop scope frames)
    (inside : inLoop = true) :
    ∃ rest outer, Frame.exit frames = some (rest, outer) ∧
      Moment.Covered surroundings returnValue ⟨rest, outer, written⟩ := by
  induction h with
  | done => exact absurd inside (by decide)
  | loop verified seen waits _ =>
    obtain ⟨next, _, later⟩ := Surroundings.verifyBody_cons.mp verified
    obtain ⟨inner, _, rfl⟩ := Surroundings.verify_loop.mp ‹_›
    exact ⟨_, _, rfl, _, _, _, later, seen, waits⟩
  | case _ _ _ _ ih => exact ih inside

theorem Frame.isSome_exit_iff {frames : List (Frame φ)} :
    (exit frames).isSome ↔ ∃ body rest, .loop body rest ∈ frames := by
  induction frames with
  | nil => simp [exit]
  | cons frame frames ih =>
    cases frame with
    | loop body rest => exact iff_of_true rfl ⟨body, rest, List.mem_cons_self⟩
    | case => simp [exit, ih]

namespace Moment

variable {moment next : Moment FunctionId}

theorem Covered.step (h : moment.Covered surroundings returnValue) (step : Step moment next) :
    next.Covered surroundings returnValue := by
  obtain ⟨inLoop, scope, after, verified, seen, waits⟩ := h
  -- What a plain instruction brings in sight is what it writes.
  have grows {instruction : Instruction FunctionId} {middle : Scope} {result : Register}
      (first : surroundings.verify inLoop scope instruction = .ok middle)
      (writes : instruction.result? = some result) :
      middle.visible ⊆ result :: moment.written := by
    rw [Surroundings.visible_verify first, writes]
    exact List.cons_subset_cons _ seen
  cases step with
  | compute =>
    obtain ⟨middle, first, later⟩ := Surroundings.verifyBody_cons.mp verified
    exact ⟨_, _, _, later, grows first rfl, waits.mono (List.subset_cons_self _ _)⟩
  | call =>
    obtain ⟨middle, first, later⟩ := Surroundings.verifyBody_cons.mp verified
    exact ⟨_, _, _, later, grows first rfl, waits.mono (List.subset_cons_self _ _)⟩
  | choose member =>
    obtain ⟨middle, first, later⟩ := Surroundings.verifyBody_cons.mp verified
    obtain ⟨_, _, chosen, _⟩ := Surroundings.verify_select.mp first
    obtain ⟨start, inner, same, _, action, yielded⟩ :=
      Surroundings.exists_of_mem_cases chosen member
    refine ⟨_, _, _, action, ?_, .case yielded later ?_ (waits.mono (List.subset_append_right _ _))⟩
    · rw [Scope.foldl_write, same]
      exact List.append_subset.mpr
        ⟨fun r bound => List.mem_append_left _ (List.mem_reverse.mp bound),
          List.subset_append_of_subset_right _ seen⟩
    · exact List.Subset.trans (grows first rfl)
        (List.cons_subset_cons _ (List.subset_append_right _ _))
  | yield =>
    cases waits with
    | case _ later visible outer =>
      exact ⟨_, _, _, later, visible, outer.mono (List.subset_cons_self _ _)⟩
  | enter =>
    obtain ⟨middle, first, later⟩ := Surroundings.verifyBody_cons.mp verified
    obtain ⟨inner, body, _⟩ := Surroundings.verify_loop.mp first
    exact ⟨_, _, _, body, seen, .loop verified seen waits⟩
  | again =>
    cases waits with
    | loop verified seen outer => exact ⟨_, _, _, verified, seen, outer⟩
  | leave found =>
    obtain ⟨middle, first, _⟩ := Surroundings.verifyBody_cons.mp verified
    obtain ⟨inside, _⟩ := Surroundings.verify_leave.mp first
    obtain ⟨rest, outer, target, covered⟩ := waits.exit inside
    rw [target] at found
    cases found
    exact covered

theorem Covered.run (h : moment.Covered surroundings returnValue)
    (run : Relation.ReflTransGen Step moment next) : next.Covered surroundings returnValue := by
  induction run with
  | refl => exact h
  | tail _ step ih => exact ih.step step

theorem Covered.safe (h : moment.Covered surroundings returnValue) : moment.Safe returnValue := by
  obtain ⟨inLoop, scope, after, verified, seen, waits⟩ := h
  obtain ⟨code, frames, written⟩ := moment
  constructor
  case reads =>
    intro r read
    cases code with
    | cons instruction code =>
      obtain ⟨middle, first, _⟩ := Surroundings.verifyBody_cons.mp verified
      exact seen (Surroundings.visible_of_mem_reads first read)
    | nil =>
      cases waits with
      | done | loop => exact absurd read List.not_mem_nil
      | case readable =>
        rw [Surroundings.verifyBody_nil.mp verified] at readable
        exact seen (readable r read).2
  case leaves =>
    rintro code rfl
    obtain ⟨middle, first, _⟩ := Surroundings.verifyBody_cons.mp verified
    obtain ⟨rest, outer, target, _⟩ := waits.exit (Surroundings.verify_leave.mp first).1
    exact Frame.isSome_exit_iff.mp (target ▸ rfl)
  case returns =>
    rintro rfl rfl
    cases waits with
    | done returned => exact seen (Surroundings.verifyBody_nil.mp verified ▸ returned)

end Moment

end Safety

namespace Function

variable {program : Program} {function : Function FunctionId}

theorem covered_of_reaches (h : function.check program = .ok ()) {moment : Moment FunctionId}
    (run : function.Reaches moment) :
    moment.Covered (function.surroundings program) function.returnValue := by
  obtain ⟨_, _, _, after, verified, returned⟩ := check_eq_ok_iff.mp h
  refine Moment.Covered.run ⟨false, _, after, verified, ?_, .done returned⟩ run
  simp [parameterScope_eq]

/-- At every moment of every run, a verified function has written what it reads next, leaves only
loops that it is in, and has written its return value when it ends. -/
theorem verified_runs_safely (program : Program) (function : Function FunctionId)
    (h : function.verify program = .ok ()) (moment : Moment FunctionId)
    (run : function.Reaches moment) : moment.Safe function.returnValue :=
  (covered_of_reaches (verify_eq_ok_iff.mp h) run).safe

def retrying : Function FunctionId where
  name := "main"
  parameterCount := 2
  registerCount := 7
  returnValue := 6
  registerNames := List.replicate 7 none
  body :=
    [.loop
      [.call 2 0 [1],
        .select 3 2 [⟨.element ⟨0, 0⟩ 4, [.leave], none⟩,
          ⟨.equals 1, [.compute 5 (.tuple [2])], some 5⟩]],
      .compute 6 (.tuple [0])]

theorem verified_runs_safely_retrying :
    retrying.verify ⟨⟨[⟨"Step", [⟨"done", some .unit⟩]⟩], [], []⟩, []⟩ = .ok () ∧
      ∃ left ended, retrying.Reaches left ∧ left.code = [.leave] ∧ left.Safe 6 ∧
        retrying.Reaches ended ∧ ended.code = [] ∧ ended.frames = [] ∧ ended.Safe 6 := by
  have safely := verified_runs_safely ⟨⟨[⟨"Step", [⟨"done", some .unit⟩]⟩], [], []⟩, []⟩ retrying
    rfl
  -- The first round takes the second case, the second round the first.
  have entry : retrying.Reaches ⟨retrying.body, [], [0, 1]⟩ := .refl
  have first := ((((entry.tail .enter).tail .call).tail (.choose (.tail _ (.head _)))).tail
    .compute).tail .yield
  have left := (((first.tail .again).tail .enter).tail .call).tail (.choose (.head _))
  have ended := (left.tail (.leave rfl)).tail .compute
  exact ⟨rfl, _, _, left, rfl, safely _ left, ended, rfl, rfl, safely _ ended⟩

end Function

section Executions

variable {V : Type} {meaning : Meaning φ V}

def State.Holds (state : State V) (written : List Register) : Prop :=
  ∀ r, (state.registers r).isSome ↔ r ∈ written

theorem State.Holds.write {state : State V} {written : List Register} (h : state.Holds written)
    (register : Register) (value : V) :
    (state.write register value).Holds (register :: written) := by
  intro r
  by_cases same : r = register
  · simp [State.write, same]
  · simpa [State.write, same] using h r

theorem State.Holds.enter {state : State V} {written : List Register} (h : state.Holds written)
    (key : V) (guard : Guard) :
    (meaning.enter state key guard).Holds (guard.bindings ++ written) := by
  cases guard with
  | equals => exact h
  | element which binding => exact h.write binding _

def Moment.EndsAs (frames : List (Frame φ)) (moment : Moment φ) : Completion → Prop
  | .normal => moment.code = [] ∧ moment.frames = frames
  | .left => (∃ code, moment.code = .leave :: code) ∧ Frame.exit moment.frames = Frame.exit frames
  | .failed => ∃ result key cases code, moment.code = .select result key cases :: code

/-- Every execution is a run, and its registers hold values exactly where the run has written. -/
theorem Executes.reaches {body : Body φ} {state final : State V} {completion : Completion}
    (h : Executes meaning body state completion final) {frames : List (Frame φ)}
    {written : List Register} (held : state.Holds written) :
    ∃ moment, Relation.ReflTransGen Moment.Step ⟨body, frames, written⟩ moment ∧
      final.Holds moment.written ∧ moment.EndsAs frames completion := by
  induction h generalizing frames written with
  | nil => exact ⟨_, .refl, held, rfl, rfl⟩
  | compute _ _ ih =>
    obtain ⟨moment, run, ends⟩ := ih (held.write _ _)
    exact ⟨moment, .head .compute run, ends⟩
  | call _ _ _ ih =>
    obtain ⟨moment, run, ends⟩ := ih (State.Holds.write held _ _)
    exact ⟨moment, .head .call run, ends⟩
  | select _ chosen _ _ _ ihAction ihRest =>
    obtain ⟨⟨_, _, _⟩, action, held, rfl, rfl⟩ := ihAction (held.enter _ _)
    obtain ⟨moment, rest, ends⟩ := ihRest (held.write _ _)
    exact ⟨moment, .head (.choose (Meaning.mem_of_choose chosen))
      (action.trans (.head .yield rest)), ends⟩
  | interrupt _ chosen _ abrupt ih =>
    obtain ⟨moment, action, held, ends⟩ := ih (held.enter _ _)
    refine ⟨moment, .head (.choose (Meaning.mem_of_choose chosen)) action, held, ?_⟩
    cases ‹Completion› with
    | normal => exact absurd rfl abrupt
    | left | failed => exact ends
  | exhaust => exact ⟨_, .refl, held, _, _, _, _, rfl⟩
  | again _ _ ihBody ihRest =>
    obtain ⟨⟨_, _, _⟩, round, held, rfl, rfl⟩ := ihBody held
    obtain ⟨moment, rest, ends⟩ := ihRest held
    exact ⟨moment, .head .enter (round.trans (.head .again rest)), ends⟩
  | exit _ _ ihBody ihRest =>
    obtain ⟨⟨_, _, _⟩, round, held, ⟨code, rfl⟩, target⟩ := ihBody held
    obtain ⟨moment, rest, ends⟩ := ihRest held
    exact ⟨moment, .head .enter (round.trans (.head (.leave target) rest)), ends⟩
  | abort _ ih =>
    obtain ⟨moment, round, ends⟩ := ih held
    exact ⟨moment, .head .enter round, ends⟩
  | leave => exact ⟨_, .refl, held, ⟨_, rfl⟩, rfl⟩

theorem Function.exists_terminates {program : Program} {function : Function FunctionId}
    {meaning : Meaning FunctionId V} {arguments : List V} {completion : Completion}
    {final : State V} (h : function.check program = .ok ())
    (execution : Executes meaning function.body (function.start meaning arguments) completion
      final) :
    ∃ outcome, function.Terminates meaning arguments outcome final.trace := by
  have entry : (function.start meaning arguments).Holds (List.range function.parameterCount) := by
    intro r
    by_cases parameter : r < function.parameterCount <;> simp [Function.start, parameter]
  obtain ⟨moment, run, held, ends⟩ := execution.reaches entry
  have safe := (covered_of_reaches h run).safe
  cases completion with
  | normal =>
    obtain ⟨value, returned⟩ := Option.isSome_iff_exists.mp
      ((held function.returnValue).mpr (safe.returns ends.1 ends.2))
    exact ⟨_, .returned execution returned⟩
  | left =>
    obtain ⟨⟨code, leaving⟩, outside⟩ := ends
    have inside := Frame.isSome_exit_iff.mpr (safe.leaves leaving)
    rw [outside] at inside
    exact absurd inside (by decide)
  | failed => exact ⟨_, .failed execution⟩

end Executions

end RegisterIR
