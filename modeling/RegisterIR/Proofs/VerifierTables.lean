import RegisterIR.Proofs.LexicalScope

/-! Verification over tables of flags. What is in sight and what has been written is kept in one
flag for each register, and the registers in sight on a stack, from which a nested body is removed
when it ends. The loops around a place are counted. An access beyond a table gives no result at all,
and neither does the end of a loop where none was entered. The tables follow the scopes step by
step, so that never happens, and the verdict is the same. -/

namespace RegisterIR

variable {α β : Type}

/-- Checks that may break a rule, and have no result where an index lies beyond a table or a counter
would fall below zero. -/
abbrev Tabled := ExceptT Violation Option

def settled (result : Except Violation α) : Tabled α := ExceptT.mk (some result)

def flag (table : List Bool) (register : Register) : Tabled Bool :=
  ExceptT.mk ((table[register]?).map .ok)

def setFlag (table : List Bool) (register : Register) (value : Bool) : Tabled (List Bool) :=
  ExceptT.mk (if register < table.length then some (.ok (table.set register value)) else none)

def clearFlags (table : List Bool) : List Register → Tabled (List Bool)
  | [] => pure table
  | register :: registers => do
    let table ← setFlag table register false
    clearFlags table registers

/-- One flag for each register, the registers in sight, last first, and the number of loops
around. -/
structure Tables where
  visible : List Bool
  written : List Bool
  stack : List Register
  loopDepth : Nat

namespace Tables

def enterLoop (tables : Tables) : Tables := { tables with loopDepth := tables.loopDepth + 1 }

def exitLoop (tables : Tables) : Tabled Tables :=
  ExceptT.mk
    (if 0 < tables.loopDepth then some (.ok { tables with loopDepth := tables.loopDepth - 1 })
    else none)

end Tables

namespace Surroundings

variable (surroundings : Surroundings)

def checkRangeIn (tables : Tables) (register : Register) : Tabled Unit :=
  if register < tables.visible.length then pure ()
  else throw (.registerOutOfRange register surroundings.registerCount)

def defineIn (tables : Tables) (register : Register) : Tabled Tables := do
  surroundings.checkRangeIn tables register
  if ← flag tables.written register then throw (.registerRedefined register)
  else
    let written ← setFlag tables.written register true
    let visible ← setFlag tables.visible register true
    pure { tables with visible, written, stack := register :: tables.stack }

def defineAllIn : Tables → List Register → Tabled Tables
  | tables, [] => pure tables
  | tables, register :: registers => do
    let tables ← surroundings.defineIn tables register
    defineAllIn tables registers

def readIn (tables : Tables) (register : Register) : Tabled Unit := do
  surroundings.checkRangeIn tables register
  if ← flag tables.visible register then pure () else throw (.useBeforeDefinition register)

def readAllIn (tables : Tables) : List Register → Tabled Unit
  | [] => pure ()
  | register :: registers => do
    surroundings.readIn tables register
    readAllIn tables registers

def checkOperationIn (tables : Tables) : Operation FunctionId → Tabled Unit
  | .literal value _ => settled (surroundings.checkLiteral value)
  | .tuple elements => surroundings.readAllIn tables elements
  | .member source _ => surroundings.readIn tables source
  | .construct which state _ => do
    settled (surroundings.checkElement which true)
    surroundings.readIn tables state
  | .global => pure ()

def enterCaseIn (tables : Tables) : Guard → Tabled Tables
  | .equals key => do
    surroundings.readIn tables key
    pure tables
  | .element which binding => do
    settled (surroundings.checkElement which true)
    surroundings.defineIn tables binding

def closeIn (height : Nat) (tables : Tables) : Tabled Tables := do
  let nested := tables.stack.length - height
  let visible ← clearFlags tables.visible (tables.stack.take nested)
  pure { tables with visible, stack := tables.stack.drop nested }

mutual

def verifyIn (tables : Tables) : Instruction FunctionId → Tabled Tables
  | .compute result operation => do
    surroundings.checkOperationIn tables operation
    surroundings.defineIn tables result
  | .call result callee arguments => do
    surroundings.readAllIn tables (callee :: arguments)
    surroundings.defineIn tables result
  | .select result key cases => do
    surroundings.readIn tables key
    let tables ← verifyCasesIn tables cases
    surroundings.defineIn tables result
  | .loop body => do
    let inner ← verifyBodyIn tables.enterLoop body
    let outer ← closeIn tables.stack.length inner
    outer.exitLoop
  | .leave => if tables.loopDepth = 0 then throw .leaveOutsideLoop else pure tables

def verifyBodyIn (tables : Tables) : Body FunctionId → Tabled Tables
  | [] => pure tables
  | instruction :: body => do
    let tables ← verifyIn tables instruction
    verifyBodyIn tables body

def verifyCasesIn (tables : Tables) : Cases FunctionId → Tabled Tables
  | [] => pure tables
  | ⟨guard, action, value⟩ :: cases => do
    let inner ← surroundings.enterCaseIn tables guard
    let inner ← verifyBodyIn inner action
    surroundings.readAllIn inner value.toList
    let tables ← closeIn tables.stack.length inner
    verifyCasesIn tables cases

end

end Surroundings

def Function.checkIn (program : Program) (function : Function FunctionId) : Tabled Unit := do
  let surroundings : Surroundings :=
    ⟨program.enums, program.functions.length, function.registerCount⟩
  if function.registerNames.length ≠ function.registerCount then
    throw (.registerNameCount function.registerNames.length function.registerCount)
  if function.registerCount < function.parameterCount then
    throw (.tooManyParameters function.parameterCount function.registerCount)
  let flags := List.replicate function.registerCount false
  surroundings.checkRangeIn ⟨flags, flags, [], 0⟩ function.returnValue
  let tables ← surroundings.defineAllIn ⟨flags, flags, [], 0⟩ (List.range function.parameterCount)
  let tables ← surroundings.verifyBodyIn tables function.body
  unless ← flag tables.visible function.returnValue do
    throw (.returnValueUndefined function.returnValue)

section Settled

variable {γ δ : Type} {f : α → γ} {g : β → δ} {first : Except Violation α}
  {next : α → Except Violation β}

theorem settled_ok_bind (value : α) (next : α → Tabled β) :
    settled (.ok value) >>= next = next value := rfl

theorem settled_bind {next' : α → Tabled β}
    (h : ∀ value, first = .ok value → next' value = settled (next value)) :
    settled first >>= next' = settled (first >>= next) := by
  cases first with
  | error violation => rfl
  | ok value => exact h value rfl

theorem settled_map_bind {next' : γ → Tabled β}
    (h : ∀ value, first = .ok value → next' (f value) = settled (next value)) :
    settled (first.map f) >>= next' = settled (first >>= next) := by
  cases first with
  | error violation => rfl
  | ok value => exact h value rfl

theorem settled_bind_map {next' : α → Tabled δ}
    (h : ∀ value, first = .ok value → next' value = settled ((next value).map g)) :
    settled first >>= next' = settled ((first >>= next).map g) := by
  cases first with
  | error violation => rfl
  | ok value => exact h value rfl

theorem settled_map_bind_map {next' : γ → Tabled δ}
    (h : ∀ value, first = .ok value → next' (f value) = settled ((next value).map g)) :
    settled (first.map f) >>= next' = settled ((first >>= next).map g) := by
  cases first with
  | error violation => rfl
  | ok value => exact h value rfl

end Settled

section Flags

variable {count : Nat} {p : Register → Bool} {register : Register}

def flagged (count : Nat) (p : Register → Bool) : List Bool := (List.range count).map p

@[simp] theorem length_flagged : (flagged count p).length = count := by simp [flagged]

theorem flag_flagged (inRange : register < count) :
    flag (flagged count p) register = settled (.ok (p register)) := by
  simp [flag, flagged, settled, inRange]

theorem setFlag_flagged (inRange : register < count) (value : Bool) :
    setFlag (flagged count p) register value =
      settled (.ok (flagged count fun r => if r = register then value else p r)) := by
  rw [setFlag, length_flagged, if_pos inRange, settled]
  congr 2
  refine congrArg _ (List.ext_getElem? fun r => ?_)
  simp only [flagged, List.getElem?_set, List.getElem?_map, List.length_map, List.length_range]
  grind

theorem clearFlags_flagged {registers : List Register} (inRange : ∀ r ∈ registers, r < count) :
    clearFlags (flagged count p) registers =
      settled (.ok (flagged count fun r => p r && !decide (r ∈ registers))) := by
  induction registers generalizing p with
  | nil => simp [clearFlags, settled, pure, ExceptT.pure]
  | cons register registers ih =>
    obtain ⟨first, others⟩ := List.forall_mem_cons.mp inRange
    rw [clearFlags, setFlag_flagged first, settled_ok_bind, ih others]
    congr 3
    funext r
    by_cases same : r = register
    · simp [same]
    · simp [same]

end Flags

namespace Scope

variable {count depth : Nat} {scope outer inner after : Scope}

def tables (count depth : Nat) (scope : Scope) : Tables :=
  ⟨flagged count (· ∈ scope.visible), flagged count (· ∈ scope.written), scope.visible, depth⟩

theorem stack_tables : (scope.tables count depth).stack = scope.visible := rfl

structure Orderly (count : Nat) (scope : Scope) : Prop where
  nodup : scope.visible.Nodup
  seen : scope.visible ⊆ scope.written
  inRange : ∀ r ∈ scope.visible, r < count

theorem Orderly.of_written (h : scope.Orderly count) (same : after.visible = scope.visible)
    (more : scope.written ⊆ after.written) : after.Orderly count where
  nodup := same ▸ h.nodup
  seen := by
    rw [same]
    exact List.Subset.trans h.seen more
  inRange := same ▸ h.inRange

structure Encloses (count : Nat) (outer inner : Scope) : Prop where
  orderly : inner.Orderly count
  visible : outer.visible <:+ inner.visible
  written : outer.written ⊆ inner.written

theorem Encloses.trans {middle : Scope} (first : outer.Encloses count middle)
    (second : middle.Encloses count inner) : outer.Encloses count inner :=
  ⟨second.orderly, first.visible.trans second.visible,
    List.Subset.trans first.written second.written⟩

theorem Encloses.close (h : outer.Encloses count inner) (orderly : outer.Orderly count) :
    (outer.close inner).Orderly count :=
  orderly.of_written rfl h.written

/-- Clearing what a nested body added to the scope leaves what was in sight before. -/
theorem Encloses.closeIn_tables (h : outer.Encloses count inner) :
    Surroundings.closeIn outer.visible.length (inner.tables count depth) =
      settled (.ok ((outer.close inner).tables count depth)) := by
  obtain ⟨added, all⟩ := h.visible
  have unique := h.orderly.nodup
  rw [← all, List.nodup_append'] at unique
  have height : inner.visible.length - outer.visible.length = added.length := by
    rw [← all, List.length_append, Nat.add_sub_cancel_right]
  have inRange : ∀ r ∈ added, r < count := fun r member =>
    h.orderly.inRange r (all ▸ List.mem_append_left _ member)
  have stays : (fun r => decide (r ∈ inner.visible) && !decide (r ∈ added)) =
      fun r => decide (r ∈ outer.visible) := by
    funext r
    have apart : r ∈ added → r ∉ outer.visible := fun new old => unique.2.2 new old
    rw [← all]
    by_cases new : r ∈ added
    · simp [new, apart new]
    · simp [new]
  rw [Surroundings.closeIn]
  dsimp only [tables]
  rw [height, ← all, List.take_left, List.drop_left, all, clearFlags_flagged inRange, stays]
  rfl

theorem exitLoop_tables :
    (scope.tables count (depth + 1)).exitLoop = settled (.ok (scope.tables count depth)) :=
  congrArg ExceptT.mk (if_pos depth.succ_pos)

end Scope

namespace Surroundings

variable {surroundings : Surroundings} {scope after : Scope} {inLoop : Bool} {depth : Nat}

section Orderly

theorem orderly_define {register : Register} (h : scope.Orderly surroundings.registerCount)
    (defined : surroundings.define scope register = .ok after) :
    after.Orderly surroundings.registerCount := by
  obtain ⟨inRange, new, rfl⟩ := define_eq_ok_iff.mp defined
  exact ⟨List.nodup_cons.mpr ⟨fun seen => new (h.seen seen), h.nodup⟩,
    List.cons_subset_cons _ h.seen, List.forall_mem_cons.mpr ⟨inRange, h.inRange⟩⟩

theorem orderly_defineAll {registers : List Register}
    (h : scope.Orderly surroundings.registerCount)
    (defined : surroundings.defineAll scope registers = .ok after) :
    after.Orderly surroundings.registerCount := by
  induction registers generalizing scope with
  | nil =>
    obtain rfl := Except.ok.inj defined
    exact h
  | cons register registers ih =>
    obtain ⟨inner, first, later⟩ := bind_eq_ok_iff.mp defined
    exact ih (orderly_define h first) later

theorem orderly_verifyCases {cases : Cases FunctionId}
    (h : scope.Orderly surroundings.registerCount)
    (verified : surroundings.verifyCases inLoop scope cases = .ok after) :
    after.Orderly surroundings.registerCount :=
  h.of_written (visible_verifyCases verified) (advance_verifyCases cases verified).written_subset

theorem orderly_verify {instruction : Instruction FunctionId}
    (h : scope.Orderly surroundings.registerCount)
    (verified : surroundings.verify inLoop scope instruction = .ok after) :
    after.Orderly surroundings.registerCount := by
  cases instruction with
  | compute result operation => exact orderly_define h (verify_compute.mp verified).2
  | call result callee arguments => exact orderly_define h (verify_call.mp verified).2
  | select result key cases =>
    obtain ⟨_, inner, chosen, defined⟩ := verify_select.mp verified
    exact orderly_define (orderly_verifyCases h chosen) defined
  | loop body =>
    exact h.of_written (visible_verify verified) (advance_verify _ verified).written_subset
  | leave =>
    exact h.of_written (visible_verify verified) (advance_verify _ verified).written_subset

theorem encloses_verifyBody {body : Body FunctionId} (h : scope.Orderly surroundings.registerCount)
    (verified : surroundings.verifyBody inLoop scope body = .ok after) :
    scope.Encloses surroundings.registerCount after := by
  induction body generalizing scope with
  | nil =>
    obtain rfl := verifyBody_nil.mp verified
    exact ⟨h, List.suffix_refl _, List.Subset.refl _⟩
  | cons instruction body ih =>
    obtain ⟨inner, first, later⟩ := verifyBody_cons.mp verified
    have orderly := orderly_verify h first
    have one : scope.Encloses surroundings.registerCount inner :=
      ⟨orderly, visible_verify first ▸ List.suffix_append _ _,
        (advance_verify instruction first).written_subset⟩
    exact one.trans (ih orderly later)

theorem encloses_enter {guard : Guard} (h : scope.Orderly surroundings.registerCount)
    (entered : surroundings.enterCase scope guard = .ok after) :
    scope.Encloses surroundings.registerCount after := by
  obtain ⟨admitted, rfl⟩ := enterCase_eq_ok_iff.mp entered
  cases guard with
  | equals key => exact ⟨h, List.suffix_refl _, List.Subset.refl _⟩
  | element which binding =>
    exact ⟨orderly_define h (define_eq_ok_iff.mpr ⟨admitted.2.1, admitted.2.2, rfl⟩),
      List.suffix_cons _ _, List.subset_cons_self _ _⟩

end Orderly

section Simulation

theorem checkRangeIn_tables (register : Register) :
    surroundings.checkRangeIn (scope.tables surroundings.registerCount depth) register =
      settled (surroundings.checkRange register) := by
  rw [checkRangeIn, checkRange, Scope.tables, length_flagged]
  split <;> rfl

theorem defineIn_tables (register : Register) :
    surroundings.defineIn (scope.tables surroundings.registerCount depth) register =
      settled ((surroundings.define scope register).map
        (Scope.tables surroundings.registerCount depth)) := by
  have shown (registers : List Register) :
      (fun r => if r = register then true else decide (r ∈ registers)) =
        fun r => decide (r ∈ register :: registers) := by
    funext r
    by_cases same : r = register <;> simp [same]
  rw [defineIn, checkRangeIn_tables, define]
  refine settled_bind_map fun _ range => ?_
  have inRange := checkRange_eq_ok_iff.mp range
  dsimp only [Scope.tables]
  rw [flag_flagged inRange, settled_ok_bind]
  by_cases again : register ∈ scope.written
  · rw [if_pos (decide_eq_true again), if_pos again]
    rfl
  · rw [if_neg (by simpa using again), if_neg again, setFlag_flagged inRange, settled_ok_bind,
      setFlag_flagged inRange, settled_ok_bind, shown, shown]
    rfl

theorem defineAllIn_tables (registers : List Register) :
    surroundings.defineAllIn (scope.tables surroundings.registerCount depth) registers =
      settled ((surroundings.defineAll scope registers).map
        (Scope.tables surroundings.registerCount depth)) := by
  induction registers generalizing scope with
  | nil => rfl
  | cons register registers ih =>
    rw [defineAllIn, defineIn_tables, defineAll]
    exact settled_map_bind_map fun _ _ => ih

theorem readIn_tables (register : Register) :
    surroundings.readIn (scope.tables surroundings.registerCount depth) register =
      settled (surroundings.read scope register) := by
  rw [readIn, checkRangeIn_tables, read]
  refine settled_bind fun _ range => ?_
  have inRange := checkRange_eq_ok_iff.mp range
  dsimp only [Scope.tables]
  rw [flag_flagged inRange, settled_ok_bind]
  by_cases seen : register ∈ scope.visible
  · rw [if_pos (decide_eq_true seen), if_pos seen]
    rfl
  · rw [if_neg (by simpa using seen), if_neg seen]
    rfl

theorem readAllIn_tables (registers : List Register) :
    surroundings.readAllIn (scope.tables surroundings.registerCount depth) registers =
      settled (surroundings.readAll scope registers) := by
  induction registers with
  | nil => rfl
  | cons register registers ih =>
    rw [readAllIn, readIn_tables, readAll]
    exact settled_bind fun _ _ => ih

theorem checkOperationIn_tables (operation : Operation FunctionId) :
    surroundings.checkOperationIn (scope.tables surroundings.registerCount depth) operation =
      settled (surroundings.checkOperation scope operation) := by
  cases operation with
  | literal value type => rfl
  | tuple elements => exact readAllIn_tables elements
  | member source index => exact readIn_tables source
  | construct which state type => exact settled_bind fun _ _ => readIn_tables state
  | global => rfl

theorem enterCaseIn_tables (guard : Guard) :
    surroundings.enterCaseIn (scope.tables surroundings.registerCount depth) guard =
      settled ((surroundings.enterCase scope guard).map
        (Scope.tables surroundings.registerCount depth)) := by
  cases guard with
  | equals key =>
    rw [enterCaseIn, readIn_tables, enterCase]
    exact settled_bind_map fun _ _ => rfl
  | element which binding => exact settled_bind_map fun _ _ => defineIn_tables binding

mutual

theorem verifyIn_tables : ∀ {depth : Nat} {scope : Scope} (instruction : Instruction FunctionId),
    scope.Orderly surroundings.registerCount →
    surroundings.verifyIn (scope.tables surroundings.registerCount depth) instruction =
      settled ((surroundings.verify (decide (0 < depth)) scope instruction).map
        (Scope.tables surroundings.registerCount depth))
  | _, _, .compute result operation, _ => by
    rw [verifyIn, checkOperationIn_tables, verify]
    exact settled_bind_map fun _ _ => defineIn_tables result
  | _, _, .call result callee arguments, _ => by
    rw [verifyIn, readAllIn_tables, verify]
    exact settled_bind_map fun _ _ => defineIn_tables result
  | _, _, .select result key cases, orderly => by
    rw [verifyIn, readIn_tables, verify]
    refine settled_bind_map fun _ _ => ?_
    rw [verifyCasesIn_tables cases orderly]
    exact settled_map_bind_map fun _ _ => defineIn_tables result
  | depth, scope, .loop body, orderly => by
    -- Inside, the counter is not zero, and the body ends with the counter that it began with.
    have entered : (scope.tables surroundings.registerCount depth).enterLoop =
      scope.tables surroundings.registerCount (depth + 1) := rfl
    rw [verifyIn, entered, verifyBodyIn_tables body orderly, decide_eq_true depth.succ_pos, verify]
    refine settled_map_bind_map fun _ verified => ?_
    have nested := encloses_verifyBody orderly verified
    rw [Scope.stack_tables, nested.closeIn_tables, settled_ok_bind, Scope.exitLoop_tables]
    rfl
  | depth, _, .leave, _ => by cases depth <;> rfl

theorem verifyBodyIn_tables : ∀ {depth : Nat} {scope : Scope} (body : Body FunctionId),
    scope.Orderly surroundings.registerCount →
    surroundings.verifyBodyIn (scope.tables surroundings.registerCount depth) body =
      settled ((surroundings.verifyBody (decide (0 < depth)) scope body).map
        (Scope.tables surroundings.registerCount depth))
  | _, _, [], _ => rfl
  | _, _, instruction :: body, orderly => by
    rw [verifyBodyIn, verifyIn_tables instruction orderly, verifyBody]
    exact settled_map_bind_map fun _ verified =>
      verifyBodyIn_tables body (orderly_verify orderly verified)

theorem verifyCasesIn_tables : ∀ {depth : Nat} {scope : Scope} (cases : Cases FunctionId),
    scope.Orderly surroundings.registerCount →
    surroundings.verifyCasesIn (scope.tables surroundings.registerCount depth) cases =
      settled ((surroundings.verifyCases (decide (0 < depth)) scope cases).map
        (Scope.tables surroundings.registerCount depth))
  | _, _, [], _ => rfl
  | _, scope, ⟨guard, action, value⟩ :: cases, orderly => by
    rw [verifyCasesIn, enterCaseIn_tables, verifyCases]
    refine settled_map_bind_map fun entered admitted => ?_
    have opened := encloses_enter orderly admitted
    rw [verifyBodyIn_tables action opened.orderly]
    refine settled_map_bind_map fun inner verified => ?_
    have nested := opened.trans (encloses_verifyBody opened.orderly verified)
    rw [readAllIn_tables]
    refine settled_bind_map fun _ _ => ?_
    rw [Scope.stack_tables, nested.closeIn_tables, settled_ok_bind]
    exact verifyCasesIn_tables cases (nested.close orderly)

end

end Simulation

end Surroundings

namespace Function

/-- The check over tables always has a result, the one of the check over scopes: no index lies
beyond a table, and each loop that ends has been entered. -/
theorem checkIn_eq (program : Program) (function : Function FunctionId) :
    function.checkIn program = settled (function.check program) := by
  have start : (⟨List.replicate function.registerCount false,
      List.replicate function.registerCount false, [], 0⟩ : Tables) =
      Scope.empty.tables function.registerCount 0 := by
    simp [Scope.tables, Scope.empty, flagged]
  rw [checkIn, check]
  dsimp only
  rw [start]
  by_cases names : function.registerNames.length ≠ function.registerCount
  · rw [if_pos names, if_pos names]
    rfl
  rw [if_neg names, if_neg names]
  by_cases parameters : function.registerCount < function.parameterCount
  · rw [if_pos parameters, if_pos parameters]
    rfl
  rw [if_neg parameters, if_neg parameters]
  refine (congrArg (· >>= _) (Surroundings.checkRangeIn_tables _)).trans
    (settled_bind fun _ range => ?_)
  have inRange := Surroundings.checkRange_eq_ok_iff.mp range
  refine (congrArg (· >>= _) (Surroundings.defineAllIn_tables _)).trans
    (settled_map_bind fun scope defined => ?_)
  have orderly := Surroundings.orderly_defineAll ⟨List.nodup_nil, by simp [Scope.empty],
    by simp [Scope.empty]⟩ defined
  refine (congrArg (· >>= _) (Surroundings.verifyBodyIn_tables _ orderly)).trans
    (settled_map_bind fun after verified => ?_)
  refine (congrArg (· >>= _) (flag_flagged inRange)).trans ?_
  rw [settled_ok_bind]
  by_cases seen : function.returnValue ∈ after.visible
  · rw [if_pos (decide_eq_true seen), if_neg (not_not_intro seen)]
    rfl
  · rw [if_neg (by simpa using seen), if_pos seen]
    rfl

/-- The check over tables accepts exactly the well-formed functions. -/
theorem checkIn_iff_wellFormed (program : Program) (function : Function FunctionId) :
    function.checkIn program = settled (.ok ()) ↔ function.WellFormed program := by
  have injective : settled (function.check program) = settled (.ok ()) ↔
      function.check program = .ok () :=
    ⟨fun same => Option.some.inj same, congrArg settled⟩
  rw [checkIn_eq, injective]
  exact ⟨wellFormed_of_check, WellFormed.check⟩

end Function

end RegisterIR
