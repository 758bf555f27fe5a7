import RegisterIR.Proofs.ReadBodies
import RegisterIR.Proofs.Verification

/-! Written bodies are read back. A verified body reads registers only after the text has defined
them, so if its registers are numbered in the order of the text, every name is found again. -/

namespace RegisterIR

open Reading (IsWord)

structure Naming.Shows {φ : Type} (naming : Naming φ) (names : Register → String) (count : Nat) :
    Prop where
  register : ∀ register, naming.register register = "%" ++ names register
  words : ∀ register, IsWord (names register)
  distinct : ∀ {a b : Nat}, a < count → b < count → names a = names b → a = b

structure Scope.Below (scope : Scope) (n : Nat) : Prop where
  visible : scope.visible ⊆ scope.written
  written : ∀ r ∈ scope.written, r < n

namespace Scope.Below

variable {surroundings : Surroundings} {scope after : Scope} {n m : Nat}

theorem mono (below : scope.Below n) (h : n ≤ m) : scope.Below m :=
  ⟨below.visible, fun r member => Nat.lt_of_lt_of_le (below.written r member) h⟩

theorem readable (below : scope.Below n) {registers : List Register}
    (readable : surroundings.Readable scope registers) : ∀ r ∈ registers, r < n :=
  fun r member => below.written r (below.visible (readable r member).2)

theorem admits (below : scope.Below n) {guard : Guard}
    (admitted : surroundings.Admits scope guard) : ∀ r ∈ guard.operands, r < n := by
  cases guard with
  | equals key => exact below.readable admitted
  | element which binding => exact fun r member => absurd member List.not_mem_nil

theorem advance {definitions demands : List Register} (below : scope.Below n)
    (advance : surroundings.Advance definitions demands scope after)
    (numbers : definitions = List.range' n definitions.length) :
    after.Below (n + definitions.length) := by
  refine ⟨advance.visible below.visible, fun r member => ?_⟩
  rcases List.mem_append.mp (advance.written.mem_iff.mp member) with new | old
  · rw [numbers] at new
    exact (List.mem_range'_1.mp new).2
  · exact Nat.lt_add_right _ (below.written r old)

end Scope.Below

/-- A part of a body that can be written: it defines registers from `n` on in the order of the text,
and what it refers to is declared. -/
structure Listable (naming : Naming FunctionId) (count n : Nat) (definitions : List Register)
    (operations : List (Operation FunctionId)) (functions : List FunctionId) : Prop where
  numbers : definitions = List.range' n definitions.length
  within : n + definitions.length ≤ count
  known : ∀ operation ∈ operations, operation.Known naming.types
  labels : ∀ label ∈ functions, IsWord (naming.function label)

namespace Listable

variable {naming : Naming FunctionId} {count n : Nat} {definitions definitions' : List Register}
  {operations operations' : List (Operation FunctionId)} {functions functions' : List FunctionId}

theorem split (h : Listable naming count n (definitions ++ definitions') (operations ++ operations')
    (functions ++ functions')) :
    Listable naming count n definitions operations functions ∧
      Listable naming count (n + definitions.length) definitions' operations' functions' := by
  have numbers := h.numbers
  have within := h.within
  rw [List.length_append, ← List.range'_append_1] at numbers
  rw [List.length_append] at within
  obtain ⟨first, second⟩ := List.append_inj numbers (by simp)
  exact ⟨⟨first, by omega, fun operation member => h.known operation (by simp [member]),
      fun label member => h.labels label (by simp [member])⟩,
    ⟨second, by omega, fun operation member => h.known operation (by simp [member]),
      fun label member => h.labels label (by simp [member])⟩⟩

theorem enter
    (h : Listable naming count n (definitions ++ definitions') operations functions) :
    Listable naming count n definitions [] [] ∧
      Listable naming count (n + definitions.length) definitions' operations functions := by
  have parts : Listable naming count n (definitions ++ definitions') ([] ++ operations)
    ([] ++ functions) := h
  exact parts.split

theorem head {result : Register}
    (h : Listable naming count n (result :: definitions) operations functions) :
    result = n ∧ n < count ∧ Listable naming count (n + 1) definitions operations functions := by
  have parts : Listable naming count n ([result] ++ definitions) operations functions := h
  obtain ⟨first, second⟩ := parts.enter
  exact ⟨List.head_eq_of_cons_eq first.numbers, first.within, second⟩

end Listable

namespace Reading

def Registers.upTo (function : String) (names : Register → String) (n : Nat) : Registers :=
  ⟨function, (List.range n).map names⟩

variable {naming : Naming FunctionId} {names : Register → String} {count n : Nat}
  {function : String} {text rest : List Char}

variable {nested : Nested} {result : Register}

theorem reads_computation {types : TypeTable} {registers : Registers} {keyword : String}
    {between : List Char} {reader : Reader (Operation String)} {value : Operation String}
    (identifies : IsIdentifier keyword) (ends : Ends between)
    (here : skipFrom false text = keyword.toList ++ between)
    (chosen : operation types registers keyword = some reader)
    (h : Reads reader between value rest) :
    Reads (assignment types nested registers result) text (.compute result value, registers)
      rest := by
  refine reads_bind.mpr ⟨keyword, between, reads_identifier identifies ends here, ?_⟩
  split
  · cases chosen
  · cases chosen
  · rw [chosen]
    exact reads_bind.mpr ⟨value, rest, h, reads_pure.mpr ⟨rfl, rfl⟩⟩

theorem reads_typedLiteral (named : naming.types.WellNamed) {value : Literal FunctionId}
    {type : ValueType} (known : value.Known naming.types) (knownType : type.Known naming.types)
    (labels : ∀ label ∈ value.functions, IsWord (naming.function label)) (ends : Ends rest) :
    Reads (do
      let value ← literal naming.types
      expect ":"
      let type ← Reading.type naming.types
      pure (Operation.literal value type))
      (' ' :: ((value.render naming).toList ++
        (' ' :: ':' :: ' ' :: ((type.render naming.types).toList ++ rest))))
      (.literal (value.relabel naming.function) type) rest := by
  have colon (later : List Char) : skipFrom false (' ' :: ':' :: later) = ':' :: later := rfl
  have stops (later : List Char) : Stops (' ' :: ':' :: later) :=
    ⟨ends_cons (by decide) _, by rw [colon]; simp⟩
  have written := (begins_render_literal named known).skip
    (' ' :: ':' :: ' ' :: ((type.render naming.types).toList ++ rest))
  rw [← skipFrom_space] at written
  obtain ⟨left, same, read⟩ := reads_literal named known labels (stops _) written
  refine reads_bind.mpr ⟨_, left, read, ?_⟩
  have afterwards : skipFrom false left =
      ':' :: ' ' :: ((type.render naming.types).toList ++ rest) := by
    rcases same with rfl | rfl
    · exact colon _
    · exact skipFrom_solid (by decide) _
  refine reads_bind.mpr ⟨(), _, reads_expect.mpr afterwards, ?_⟩
  refine reads_bind.mpr ⟨type, rest, reads_type named knownType ends ?_,
    reads_pure.mpr ⟨rfl, rfl⟩⟩
  exact (begins_render_type _ type).skip rest

theorem begins_operation (naming : Naming FunctionId) (operation : Operation FunctionId) :
    Begins (operation.render naming).toList := by
  have keyword {word more : String} (begins : Begins word.toList) :
      Begins (word ++ more).toList := by
    rw [String.toList_append]
    exact begins.append _
  cases operation with
  | literal value type =>
    have first : Begins "literal ".toList := ⟨'l', _, rfl, by decide, by decide, by decide⟩
    exact keyword (keyword (keyword first))
  | tuple elements => exact keyword (begins_of_isWord (by decide))
  | member source index =>
    have first : Begins "read_struct ".toList := ⟨'r', _, rfl, by decide, by decide, by decide⟩
    exact keyword (keyword (keyword first))
  | construct which state stateType =>
    have first : Begins "enum_construct ".toList := ⟨'e', _, rfl, by decide, by decide, by decide⟩
    exact keyword (keyword (keyword (keyword first)))
  | global => exact begins_of_isWord (by decide : IsWord "global")

section Registers

variable (shows : naming.Shows names count)
include shows

theorem begins_register (register : Register) : Begins (naming.register register).toList := by
  rw [shows.register, String.toList_append]
  exact ⟨'%', _, rfl, by decide, by decide, by decide⟩

theorem reads_registerText {register : Register} (ends : Ends rest)
    (here : skipFrom false text = (naming.register register).toList ++ rest) :
    Reads registerName text (names register) rest := by
  rw [shows.register, String.toList_append, List.append_assoc] at here
  exact reads_registerName (shows.words register) ends here

theorem reads_findRegister {register : Nat} (defined : register < n) (within : n ≤ count)
    (text : List Char) :
    Reads (findRegister (.upTo function names n) (names register)) text register text := by
  have distinct : ((List.range n).map names).Nodup := by
    refine List.Nodup.map_on (fun a below b below' same => ?_) List.nodup_range
    exact shows.distinct (Nat.lt_of_lt_of_le (List.mem_range.mp below) within)
      (Nat.lt_of_lt_of_le (List.mem_range.mp below') within) same
  have found : ((List.range n).map names)[register]? = some (names register) := by
    rw [List.getElem?_map, List.getElem?_range defined, Option.map_some]
  rw [findRegister, Registers.upTo, idxOf?_of_nodup distinct found]
  exact reads_pure.mpr ⟨rfl, rfl⟩

theorem reads_register {register : Nat} (defined : register < n) (within : n ≤ count)
    (ends : Ends rest) (here : skipFrom false text = (naming.register register).toList ++ rest) :
    Reads (Reading.register (.upTo function names n)) text register rest :=
  reads_bind.mpr ⟨_, rest, reads_registerText shows ends here,
    reads_findRegister shows defined within rest⟩

theorem reads_newRegister (next : n < count) (ends : Ends rest)
    (here : skipFrom false text = (naming.register n).toList ++ rest) :
    Reads (newRegister (.upTo function names n)) text (n, .upTo function names (n + 1)) rest := by
  have new : names n ∉ (List.range n).map names := by
    intro member
    obtain ⟨other, below, same⟩ := List.mem_map.mp member
    have less := List.mem_range.mp below
    exact absurd (shows.distinct (Nat.lt_trans less next) next same) (Nat.ne_of_lt less)
  refine reads_bind.mpr ⟨_, rest, reads_registerText shows ends here, ?_⟩
  rw [define, Registers.upTo, if_neg new]
  refine reads_pure.mpr ⟨?_, rfl⟩
  simp [Registers.upTo, List.range_succ]

theorem reads_registers {registers : List Register} (defined : ∀ r ∈ registers, r < n)
    (within : n ≤ count)
    (here : skipFrom false text =
      (Text.parenthesized (registers.map naming.register)).toList ++ rest) :
    Reads (list (Reading.register (.upTo function names n))) text registers rest := by
  have read : Reads (list (Reading.register (.upTo function names n))) text (registers.map id)
      rest :=
    reads_list (fun register _ => begins_register shows register)
      (fun register member _ _ closes shown =>
        reads_register shows (defined register member) within closes.ends shown) here
  rwa [List.map_id] at read

theorem reads_operation (named : naming.types.WellNamed) {value : Operation FunctionId}
    (known : value.Known naming.types) (within : n ≤ count) (defined : ∀ r ∈ value.operands, r < n)
    (labels : ∀ label ∈ value.functions, IsWord (naming.function label))
    (here : skipFrom false text = (value.render naming).toList ++ '\n' :: rest) :
    Reads (assignment naming.types nested (.upTo function names n) result) text
      (.compute result (value.relabel naming.function), .upTo function names n)
      ('\n' :: rest) := by
  have ends : Ends ('\n' :: rest) := ends_cons (by decide) rest
  have operand {register : Register} {text rest : List Char} (member : register ∈ value.operands)
      (ends : Ends rest) (here : skipFrom false text = (naming.register register).toList ++ rest) :
      Reads (Reading.register (.upTo function names n)) text register rest :=
    reads_register shows (defined register member) within ends here
  cases value with
  | literal value type =>
    have here : skipFrom false text = ("literal " ++ value.render naming ++ " : " ++
      type.render naming.types).toList ++ '\n' :: rest := here
    simp only [String.toList_append, List.append_assoc] at here
    exact reads_computation (by decide : IsIdentifier "literal") (ends_cons (by decide) _) here rfl
      (reads_typedLiteral named known.1 known.2 labels ends)
  | tuple elements =>
    have here : skipFrom false text =
      ("tuple" ++ Text.parenthesized (elements.map naming.register)).toList ++ '\n' :: rest := here
    rw [String.toList_append, List.append_assoc] at here
    refine reads_computation (by decide : IsIdentifier "tuple") (ends_parenthesized _ _) here rfl ?_
    refine reads_bind.mpr ⟨elements, _, reads_registers shows defined within ?_,
      reads_pure.mpr ⟨rfl, rfl⟩⟩
    exact (begins_parenthesized _).skip _
  | member source index =>
    have here : skipFrom false text =
      ("read_struct " ++ naming.register source ++ "." ++ toString index).toList ++ '\n' :: rest :=
      here
    simp only [String.toList_append, List.append_assoc] at here
    refine reads_computation (by decide : IsIdentifier "read_struct") (ends_cons (by decide) _)
      here rfl ?_
    refine reads_bind.mpr ⟨source, _, operand List.mem_cons_self (ends_cons (by decide) _)
      ((begins_register shows source).skip _), ?_⟩
    refine reads_bind.mpr ⟨(), _, reads_expect.mpr (skipFrom_solid (by decide) _), ?_⟩
    refine reads_bind.mpr ⟨index, _, reads_smallNumber known ends ?_, reads_pure.mpr ⟨rfl, rfl⟩⟩
    exact (begins_of_isWord (isWord_toString index)).skip _
  | construct which state stateType =>
    have here : skipFrom false text = ("enum_construct " ++ which.render naming.types ++ "(" ++
      naming.register state ++ ")").toList ++ '\n' :: rest := here
    simp only [String.toList_append, List.append_assoc] at here
    obtain ⟨element, found, payload⟩ := Option.map_eq_some_iff.mp known
    refine reads_computation (by decide : IsIdentifier "enum_construct") (ends_cons (by decide) _)
      here rfl ?_
    refine reads_bind.mpr ⟨(which, element), _, reads_elementRef named found
      (ends_cons (by decide) _) ((begins_render_element named found).skip _), ?_⟩
    refine reads_bind.mpr ⟨(), _, reads_expect.mpr (skipFrom_solid (by decide) _), ?_⟩
    refine reads_bind.mpr ⟨state, _, operand List.mem_cons_self (ends_cons (by decide) _)
      ((begins_register shows state).skip _), ?_⟩
    refine reads_bind.mpr ⟨(), _, reads_expect.mpr (skipFrom_solid (by decide) _), ?_⟩
    exact reads_pure.mpr ⟨by rw [payload]; rfl, rfl⟩
  | global =>
    exact reads_computation (by decide : IsIdentifier "global") ends here rfl
      (reads_pure.mpr ⟨rfl, rfl⟩)

theorem reads_marked {α : Type} {marked other : Reader α} {value : α} {register : Register}
    {between : List Char}
    (here : skipFrom false text = (naming.register register).toList ++ between)
    (h : Reads marked ((naming.register register).toList ++ between) value rest) :
    Reads (do
      skip
      if (← peek?) = some '%' then marked else other) text value rest := by
  rw [shows.register, String.toList_append, List.append_assoc] at here h
  refine reads_peeking (c := '%') here ?_
  rw [if_pos rfl]
  exact h

omit shows in
theorem reads_notMarked {α : Type} {marked other : Reader α} {value : α} {c : Char}
    {between : List Char} (isWord : isWordChar c = true)
    (here : skipFrom false text = c :: between) (h : Reads other (c :: between) value rest) :
    Reads (do
      skip
      if (← peek?) = some '%' then marked else other) text value rest := by
  have different : some c ≠ some '%' := by
    rintro ⟨⟩
    exact absurd isWord (by decide)
  refine reads_peeking here ?_
  rw [if_neg different]
  exact h

theorem reads_guard (named : naming.types.WellNamed) {value : Guard}
    (numbers : value.bindings = List.range' n value.bindings.length)
    (within : n + value.bindings.length ≤ count) (defined : ∀ r ∈ value.operands, r < n)
    (declared : ∀ which binding, value = .element which binding →
      (naming.types.element? which).isSome = true) (ends : Ends rest)
    (here : skipFrom false text = (value.render naming).toList ++ rest) :
    Reads (guard naming.types (.upTo function names n)) text
      (value, .upTo function names (n + value.bindings.length)) rest := by
  cases value with
  | equals key =>
    refine reads_marked shows here ?_
    refine reads_bind.mpr ⟨key, rest, ?_, reads_pure.mpr ⟨rfl, rfl⟩⟩
    exact reads_register shows (defined key List.mem_cons_self) within ends
      ((begins_register shows key).skip rest)
  | element which binding =>
    obtain rfl : binding = n := List.head_eq_of_cons_eq numbers
    obtain ⟨element, found⟩ := Option.isSome_iff_exists.mp (declared which binding rfl)
    simp only [Guard.render, String.toList_append, List.append_assoc] at here
    obtain ⟨enumeration, listed, member⟩ := Option.bind_eq_some_iff.mp found
    obtain ⟨c, tail, letters, isWord⟩ :=
      (named.enums enumeration (List.mem_of_getElem? listed)).1.exists_cons
    have shape := toList_render_element listed member
    rw [letters] at shape
    have skip := (begins_render_element named found).skip ("(".toList ++
      ((naming.register binding).toList ++ (")".toList ++ rest)))
    have element := reads_elementRef named found (ends_cons (by decide) _) skip
    rw [shape] at here element
    refine reads_notMarked isWord here ?_
    refine reads_bind.mpr ⟨_, _, element, ?_⟩
    refine reads_bind.mpr ⟨(), _, reads_expect.mpr (skipFrom_solid (by decide) _), ?_⟩
    refine reads_bind.mpr ⟨_, _, reads_newRegister shows within (ends_cons (by decide) _)
      ((begins_register shows binding).skip _), ?_⟩
    refine reads_bind.mpr ⟨(), _, reads_expect.mpr (skipFrom_solid (by decide) _), ?_⟩
    exact reads_pure.mpr ⟨rfl, rfl⟩

theorem begins_guard (named : naming.types.WellNamed) {value : Guard}
    (declared : ∀ which binding, value = .element which binding →
      (naming.types.element? which).isSome = true) : Begins (value.render naming).toList := by
  cases value with
  | equals key => exact begins_register shows key
  | element which binding =>
    obtain ⟨element, found⟩ := Option.isSome_iff_exists.mp (declared which binding rfl)
    simp only [Guard.render, String.toList_append, List.append_assoc]
    exact (begins_render_element named found).append _

theorem reads_assigned {types : TypeTable} {value : Instruction String} {after : Registers}
    {between : List Char} (next : n < count)
    (here : skipFrom false text = (naming.register n).toList ++ (" = ".toList ++ between))
    (h : Reads (assignment types nested (.upTo function names (n + 1)) n) (' ' :: between)
      (value, after) rest) :
    Reads (instruction types nested (.upTo function names n)) text (value, after) rest := by
  refine reads_marked shows here ?_
  refine reads_bind.mpr ⟨_, _, reads_newRegister shows next (ends_cons (by decide) _)
    ((begins_register shows n).skip _), ?_⟩
  exact reads_bind.mpr ⟨(), ' ' :: between, reads_expect.mpr rfl, h⟩

theorem begins_instruction (value : Instruction FunctionId) (depth : Nat) (rest : List Char) :
    Begins (skipFrom false ((value.render naming depth).toList ++ rest)) := by
  cases value <;> simp only [Instruction.render, String.toList_append, List.append_assoc,
    toList_indentation, skipFrom_indentation]
  case loop body => exact ⟨'l', _, rfl, by decide, by decide, by decide⟩
  case leave => exact ⟨'b', _, rfl, by decide, by decide, by decide⟩
  all_goals exact (begins_register shows _).skipped _

theorem reads_compute (named : naming.types.WellNamed) {operation : Operation FunctionId}
    {depth : Nat} (next : n < count) (known : operation.Known naming.types)
    (defined : ∀ r ∈ operation.operands, r < n)
    (labels : ∀ label ∈ operation.functions, IsWord (naming.function label))
    (here : skipFrom false text = skipFrom false
      ((Instruction.render naming depth (.compute n operation)).toList ++ rest)) :
    Reads (instruction naming.types nested (.upTo function names n)) text
      (.compute n (operation.relabel naming.function), .upTo function names (n + 1))
      ('\n' :: rest) := by
  simp only [Instruction.render, String.toList_append, List.append_assoc, toList_indentation,
    skipFrom_indentation] at here
  rw [(begins_register shows n).skip] at here
  refine reads_assigned shows next here (reads_operation shows named known next
    (fun r member => Nat.lt_succ_of_lt (defined r member)) labels ?_)
  exact (begins_operation naming operation).skip _

theorem reads_call {types : TypeTable} {callee : Register} {arguments : List Register}
    {depth : Nat} (next : n < count) (defined : ∀ r ∈ callee :: arguments, r < n)
    (here : skipFrom false text = skipFrom false
      ((Instruction.render naming depth (.call n callee arguments)).toList ++ rest)) :
    Reads (instruction types nested (.upTo function names n)) text
      (.call n callee arguments, .upTo function names (n + 1)) ('\n' :: rest) := by
  have below : ∀ r ∈ callee :: arguments, r < n + 1 :=
    fun r member => Nat.lt_succ_of_lt (defined r member)
  simp only [Instruction.render, String.toList_append, List.append_assoc, toList_indentation,
    skipFrom_indentation] at here
  rw [(begins_register shows n).skip] at here
  refine reads_assigned shows next here ?_
  refine reads_bind.mpr ⟨"call", _, reads_identifier_cons (by decide) (by decide) rfl, ?_⟩
  refine reads_bind.mpr ⟨callee, _, reads_register shows (below callee List.mem_cons_self) next
    (ends_parenthesized _ _) ((begins_register shows callee).skip _), ?_⟩
  refine reads_bind.mpr ⟨arguments, _, reads_registers shows
    (fun r member => below r (List.mem_cons_of_mem _ member)) next
    ((begins_parenthesized _).skip _), ?_⟩
  exact reads_pure.mpr ⟨rfl, rfl⟩

omit shows in
theorem length_le_renderCases (naming : Naming FunctionId) (depth : Nat)
    (cases : Cases FunctionId) :
    cases.length ≤ (Instruction.renderCases naming depth cases).toList.length := by
  induction cases with
  | nil => exact Nat.zero_le _
  | cons case cases ih =>
    have keyword : "case ".toList.length = 5 := rfl
    simp only [Instruction.renderCases, String.toList_append, List.length_append, List.length_cons]
    omega

theorem reads_select {types : TypeTable} {key : Register} {cases : Cases FunctionId}
    {read : Cases String} {after : Registers} {depth : Nat} (next : n < count) (defined : key < n)
    (inner : ∀ text tail rest, cases.length ≤ text.length → skipFrom false tail = '\x7d' :: rest →
      skipFrom false text =
        skipFrom false ((Instruction.renderCases naming (depth + 1) cases).toList ++ tail) →
      Reads (casesWithin types nested text.length (.upTo function names (n + 1))) text
        (read, after) rest)
    (here : skipFrom false text = skipFrom false
      ((Instruction.render naming depth (.select n key cases)).toList ++ rest)) :
    Reads (instruction types nested (.upTo function names n)) text (.select n key read, after)
      ('\n' :: rest) := by
  simp only [Instruction.render, String.toList_append, List.append_assoc] at here
  rw [toList_indentation, skipFrom_indentation, (begins_register shows n).skip] at here
  refine reads_assigned shows next here ?_
  refine reads_bind.mpr ⟨"match", _, reads_identifier_cons (by decide) (by decide) rfl, ?_⟩
  refine reads_bind.mpr ⟨key, _, reads_register shows (Nat.lt_succ_of_lt defined) next
    (ends_cons (by decide) _) ((begins_register shows key).skip _), ?_⟩
  refine reads_bind.mpr ⟨(), _, reads_expect.mpr rfl, ?_⟩
  have closing := skipFrom_closing (4 * depth) ('\n' :: rest)
  have enough : cases.length ≤ ((Instruction.renderCases naming (depth + 1) cases).toList ++
      (List.replicate (4 * depth) ' ' ++ ("\x7d\n".toList ++ rest))).length := by
    rw [List.length_append]
    exact Nat.le_add_right_of_le (length_le_renderCases naming (depth + 1) cases)
  exact reads_bind.mpr ⟨_, _, inner _ _ _ (Nat.le_succ_of_le enough) closing (skipFrom_newline _),
    reads_pure.mpr ⟨rfl, rfl⟩⟩

omit shows in
theorem reads_loop {types : TypeTable} {body : Body FunctionId} {read : Body String}
    {registers after : Registers} {depth : Nat}
    (inner : ∀ text tail rest, skipFrom false tail = '\x7d' :: rest →
      skipFrom false text =
        skipFrom false ((Instruction.renderBody naming (depth + 1) body).toList ++ tail) →
      Reads (nested registers) text (read, after) rest)
    (here : skipFrom false text = skipFrom false
      ((Instruction.render naming depth (.loop body)).toList ++ rest)) :
    Reads (instruction types nested registers) text (.loop read, after) ('\n' :: rest) := by
  simp only [Instruction.render, String.toList_append, List.append_assoc] at here
  rw [toList_indentation, skipFrom_indentation] at here
  refine reads_notMarked (c := 'l') (by decide) here ?_
  refine reads_bind.mpr ⟨"loop", _, reads_identifier_cons (by decide) (by decide) rfl, ?_⟩
  refine reads_bind.mpr ⟨(), _, reads_expect.mpr rfl, ?_⟩
  have closing := skipFrom_closing (4 * depth) ('\n' :: rest)
  exact reads_bind.mpr ⟨_, _, inner _ _ _ closing (skipFrom_newline _), reads_pure.mpr ⟨rfl, rfl⟩⟩

omit shows in
theorem reads_leave {types : TypeTable} {registers : Registers} {depth : Nat}
    (here : skipFrom false text = skipFrom false
      ((Instruction.render naming depth .leave).toList ++ rest)) :
    Reads (instruction types nested registers) text (.leave, registers) ('\n' :: rest) := by
  simp only [Instruction.render, String.toList_append, List.append_assoc, toList_indentation,
    skipFrom_indentation] at here
  refine reads_notMarked (c := 'b') (by decide) here ?_
  refine reads_bind.mpr ⟨"break", _, reads_identifier_cons (by decide) (by decide) rfl, ?_⟩
  exact reads_pure.mpr ⟨rfl, rfl⟩

end Registers

theorem isSome_of_checkElement {surroundings : Surroundings} {types : TypeTable}
    (enums : surroundings.enums = types.enums) {which : ElementRef} {withState : Bool}
    (h : surroundings.checkElement which withState = .ok ()) :
    (types.element? which).isSome = true := by
  rw [Surroundings.checkElement, enums] at h
  split at h
  · cases h
  · rename_i enumeration declared
    split at h
    · cases h
    · rename_i element found
      rw [TypeTable.element?, declared]
      exact Option.isSome_iff_exists.mpr ⟨element, found⟩

theorem not_startsWith_yield {depth : Nat} {cases : Cases FunctionId} {tail : List Char}
    (closes : skipFrom false tail = '\x7d' :: rest) :
    ¬ "yield".toList <+:
      skipFrom false ('\n' :: ((Instruction.renderCases naming depth cases).toList ++ tail)) := by
  cases cases with
  | nil =>
    rw [skipFrom_newline, Instruction.renderCases, String.toList_empty, List.nil_append, closes]
    simp
  | cons case cases =>
    simp only [skipFrom_newline, Instruction.renderCases, String.toList_append, List.append_assoc,
      toList_indentation, skipFrom_indentation]
    rintro ⟨later, equation⟩
    cases equation

section Case

variable {types : TypeTable} {nested : Nested} {registers entered : Registers} {guard' : Guard}
  {action : Body FunctionId} {body : Body String} {depth m : Nat} {value : Option Register}
  (guards : ∀ text rest, Ends rest → skipFrom false text = (guard'.render naming).toList ++ rest →
    Reads (guard types registers) text (guard', entered) rest)
  (acts : ∀ text tail rest, skipFrom false tail = '\x7d' :: rest →
    skipFrom false text =
      skipFrom false ((Instruction.renderBody naming (depth + 1) action).toList ++ tail) →
    Reads (nested entered) text (body, .upTo function names m) rest)
  (begins : Begins (guard'.render naming).toList)
include guards acts begins

theorem reads_case_closed {ending left : List Char} {result : Case (Body String) × Registers}
    (here : skipFrom false text = "case ".toList ++ ((guard'.render naming).toList ++
      (" \x7b\n".toList ++ ((Instruction.renderBody naming (depth + 1) action).toList ++
        ((Text.indentation depth).toList ++ '\x7d' :: ending)))))
    (h : Reads (do
      if ← acceptKeyword "yield" then
        let value ← register (.upTo function names m)
        pure (⟨guard', body, some value⟩, .upTo function names m)
      else pure (⟨guard', body, none⟩, .upTo function names m)) ending result left) :
    Reads (caseOf types nested registers) text result left := by
  have closing : skipFrom false ((Text.indentation depth).toList ++ '\x7d' :: ending) =
      '\x7d' :: ending := by
    rw [toList_indentation, skipFrom_closing]
  refine reads_bind.mpr ⟨true, _, reads_acceptKeyword_true (ends_cons (by decide) _) here, ?_⟩
  refine reads_bind.mpr ⟨_, _, guards _ _ (ends_cons (by decide) _) (begins.skip _), ?_⟩
  refine reads_bind.mpr ⟨(), _, reads_expect.mpr rfl, ?_⟩
  exact reads_bind.mpr ⟨_, _, acts _ _ _ closing (skipFrom_newline _), h⟩

/-- After a case that yields nothing, the blanks before the next case have been looked at. -/
theorem reads_caseOf (shows : naming.Shows names count) (within : m ≤ count)
    (defined : ∀ r ∈ value, r < m) {cases : Cases FunctionId} {tail : List Char}
    (closes : skipFrom false tail = '\x7d' :: rest)
    (here : skipFrom false text = skipFrom false
      ((Instruction.renderCases naming depth (⟨guard', action, value⟩ :: cases)).toList ++ tail)) :
    ∃ left, skipFrom false left =
        skipFrom false ((Instruction.renderCases naming depth cases).toList ++ tail) ∧
      Reads (caseOf types nested registers) text (⟨guard', body, value⟩, .upTo function names m)
        left := by
  simp only [Instruction.renderCases, String.toList_append, List.append_assoc] at here
  rw [toList_indentation, skipFrom_indentation, ← toList_indentation] at here
  cases value with
  | some register =>
    simp only [String.toList_append, List.append_assoc] at here
    refine ⟨_, skipFrom_newline _, reads_case_closed guards acts begins
      (here.trans (skipFrom_solid (by decide) _)) ?_⟩
    refine reads_bind.mpr ⟨true, _, reads_acceptKeyword_true (ends_cons (by decide) _) rfl, ?_⟩
    refine reads_bind.mpr ⟨register, _, reads_register shows (defined register rfl) within
      (ends_cons (by decide) _) ((begins_register shows register).skip _), ?_⟩
    exact reads_pure.mpr ⟨rfl, rfl⟩
  | none =>
    refine ⟨_, skipFrom_skipFrom _ _, reads_case_closed guards acts begins
      (here.trans (skipFrom_solid (by decide) _)) ?_⟩
    exact reads_bind.mpr ⟨false, _, reads_acceptKeyword_false (not_startsWith_yield closes),
      reads_pure.mpr ⟨rfl, rfl⟩⟩

end Case

theorem size_pos (value : Instruction FunctionId) : 0 < value.size := by
  cases value with
  | select result key cases => exact Nat.lt_add_right _ Nat.zero_lt_one
  | loop body => exact Nat.lt_add_right _ Nat.zero_lt_one
  | _ => exact Nat.zero_lt_one

mutual

/-- Every instruction takes up a part of the text. -/
theorem size_le_render (naming : Naming FunctionId) (depth : Nat) :
    ∀ value : Instruction FunctionId, value.size ≤ (value.render naming depth).toList.length
  | .compute .. => by
    simp only [Instruction.size, Instruction.render, String.toList_append, List.length_append]
    have line : "\n".toList.length = 1 := rfl
    omega
  | .call .. => by
    simp only [Instruction.size, Instruction.render, String.toList_append, List.length_append]
    have line : "\n".toList.length = 1 := rfl
    omega
  | .select _ _ cases => by
    have inner := sizeCases_le_render naming (depth + 1) cases
    simp only [Instruction.size, Instruction.render, String.toList_append, List.length_append]
    have line : "\x7d\n".toList.length = 2 := rfl
    omega
  | .loop body => by
    have inner := sizeBody_le_render naming (depth + 1) body
    simp only [Instruction.size, Instruction.render, String.toList_append, List.length_append]
    have line : "\x7d\n".toList.length = 2 := rfl
    omega
  | .leave => by
    simp only [Instruction.size, Instruction.render, String.toList_append, List.length_append]
    have line : "break\n".toList.length = 6 := rfl
    omega

theorem sizeBody_le_render (naming : Naming FunctionId) (depth : Nat) :
    ∀ body : Body FunctionId, Instruction.sizeBody body ≤
      (Instruction.renderBody naming depth body).toList.length
  | [] => Nat.zero_le _
  | instruction :: body => by
    have first := size_le_render naming depth instruction
    have later := sizeBody_le_render naming depth body
    rw [Instruction.sizeBody, Instruction.renderBody, String.toList_append, List.length_append]
    omega

theorem sizeCases_le_render (naming : Naming FunctionId) (depth : Nat) :
    ∀ cases : Cases FunctionId, Instruction.sizeCases cases ≤
      (Instruction.renderCases naming depth cases).toList.length
  | [] => Nat.zero_le _
  | ⟨guard, action, value⟩ :: cases => by
    have first := sizeBody_le_render naming (depth + 1) action
    have later := sizeCases_le_render naming depth cases
    simp only [Instruction.sizeCases, Instruction.renderCases, String.toList_append,
      List.length_append]
    omega

end

section Trees

variable {surroundings : Surroundings}

open Instruction (renderBody renderCases relabelBody relabelCases)

mutual

/-- A written instruction is read back, up to the end of its last line. -/
theorem reads_instruction (named : naming.types.WellNamed) (shows : naming.Shows names count)
    (enums : surroundings.enums = naming.types.enums) : ∀ {inLoop : Bool} {scope after : Scope}
    {n bound depth : Nat} {text rest : List Char} (value : Instruction FunctionId),
    surroundings.verify inLoop scope value = .ok after → scope.Below n →
    Listable naming count n value.definitions value.operations value.functions →
    value.size ≤ bound + 1 →
    skipFrom false text = skipFrom false ((value.render naming depth).toList ++ rest) →
    Reads (instruction naming.types (bodyWithin naming.types bound) (.upTo function names n)) text
      (value.relabel naming.function, .upTo function names (n + value.definitions.length))
      ('\n' :: rest)
  | _, _, _, _, _, _, _, _, .compute result operation, verified, below, listable, _, here => by
    obtain ⟨⟨_, readable⟩, _⟩ := Surroundings.verify_compute.mp verified
    obtain ⟨rfl, next, later⟩ := listable.head
    exact reads_compute shows named next (later.known operation List.mem_cons_self)
      (below.readable readable) later.labels here
  | _, _, _, _, _, _, _, _, .call result callee arguments, verified, below, listable, _, here => by
    obtain ⟨readable, _⟩ := Surroundings.verify_call.mp verified
    obtain ⟨rfl, next, _⟩ := listable.head
    exact reads_call shows next (below.readable readable) here
  | _, _, _, _, bound, _, _, _, .select result key cases, verified, below, listable, size,
      here => by
    obtain ⟨readable, inner, chosen, _⟩ := Surroundings.verify_select.mp verified
    obtain ⟨rfl, next, later⟩ := listable.head
    have smaller : Instruction.sizeCases cases ≤ bound := by
      rw [Instruction.size] at size
      omega
    have position : result + (Instruction.select result key cases).definitions.length =
        result + 1 + (Instruction.definitionsCases cases).length :=
      Nat.add_right_comm result _ 1
    rw [position]
    exact reads_select shows next (below.readable readable key List.mem_cons_self)
      (fun _ _ _ counted closes shown => reads_casesWithin named shows enums cases chosen
        (below.mono (Nat.le_succ result)) later smaller counted closes shown) here
  | _, _, _, _, bound, _, _, _, .loop body, verified, below, listable, size, here => by
    obtain ⟨inner, inside, _⟩ := Surroundings.verify_loop.mp verified
    have smaller : Instruction.sizeBody body ≤ bound := by
      rw [Instruction.size] at size
      omega
    exact reads_loop (fun _ _ _ closes shown => reads_bodyWithin named shows enums body inside below
      listable smaller closes shown) here
  | _, _, _, _, _, _, _, _, .leave, _, _, _, _, here => reads_leave here

theorem reads_bodyWithin (named : naming.types.WellNamed) (shows : naming.Shows names count)
    (enums : surroundings.enums = naming.types.enums) : ∀ {inLoop : Bool} {scope after : Scope}
    {n bound depth : Nat} {text tail rest : List Char} (body : Body FunctionId),
    surroundings.verifyBody inLoop scope body = .ok after → scope.Below n →
    Listable naming count n (Instruction.definitionsBody body) (Instruction.operationsBody body)
      (Instruction.functionsBody body) →
    Instruction.sizeBody body ≤ bound → skipFrom false tail = '\x7d' :: rest →
    skipFrom false text = skipFrom false ((renderBody naming depth body).toList ++ tail) →
    Reads (bodyWithin naming.types bound (.upTo function names n)) text
      (relabelBody naming.function body,
        .upTo function names (n + (Instruction.definitionsBody body).length)) rest
  | _, _, _, _, bound, _, _, _, _, [], _, _, _, _, closes, here => by
    have closed := here.trans closes
    cases bound with
    | zero => exact reads_bind.mpr ⟨(), _, reads_expect.mpr closed, reads_pure.mpr ⟨rfl, rfl⟩⟩
    | succ bound =>
      exact reads_bind.mpr ⟨true, _, reads_accept_true.mpr closed, reads_pure.mpr ⟨rfl, rfl⟩⟩
  | _, _, _, n, bound, depth, text, tail, rest, instruction :: body, verified, below, listable,
      size, closes, here => by
    obtain ⟨inner, first, later⟩ := Surroundings.verifyBody_cons.mp verified
    obtain ⟨listableFirst, listableLater⟩ := listable.split
    have positive := size_pos instruction
    rw [Instruction.sizeBody] at size
    rw [Instruction.definitionsBody, List.length_append, ← Nat.add_assoc]
    cases bound with
    | zero => omega
    | succ bound =>
      rw [renderBody, String.toList_append, List.append_assoc] at here
      have begins := begins_instruction shows instruction depth
        ((renderBody naming depth body).toList ++ tail)
      rw [← here] at begins
      obtain ⟨c, more, shape, _, _, other⟩ := begins
      have peeked := skipFrom_skipFrom false text
      rw [shape] at peeked
      refine reads_bind.mpr ⟨false, _, reads_accept_false_of_ne rfl shape other, ?_⟩
      refine reads_bind.mpr ⟨some c, _, reads_peek?.mpr ⟨rfl, rfl⟩, ?_⟩
      refine reads_bind.mpr ⟨_, _, reads_instruction named shows enums instruction first below
        listableFirst (by omega) (peeked.trans (shape.symm.trans here)), ?_⟩
      refine reads_bind.mpr ⟨_, _, reads_bodyWithin named shows enums body later
        (below.advance (Surroundings.advance_verify instruction first) listableFirst.numbers)
        listableLater (by omega) closes (skipFrom_newline _), ?_⟩
      exact reads_pure.mpr ⟨rfl, rfl⟩

theorem reads_casesWithin (named : naming.types.WellNamed) (shows : naming.Shows names count)
    (enums : surroundings.enums = naming.types.enums) : ∀ {inLoop : Bool} {scope after : Scope}
    {n bound rounds depth : Nat} {text tail rest : List Char} (cases : Cases FunctionId),
    surroundings.verifyCases inLoop scope cases = .ok after → scope.Below n →
    Listable naming count n (Instruction.definitionsCases cases)
      (Instruction.operationsCases cases) (Instruction.functionsCases cases) →
    Instruction.sizeCases cases ≤ bound → cases.length ≤ rounds →
    skipFrom false tail = '\x7d' :: rest →
    skipFrom false text = skipFrom false ((renderCases naming depth cases).toList ++ tail) →
    Reads (casesWithin naming.types (bodyWithin naming.types bound) rounds
      (.upTo function names n)) text
      (relabelCases naming.function cases,
        .upTo function names (n + (Instruction.definitionsCases cases).length)) rest
  | _, _, _, _, _, rounds, _, _, _, _, [], _, _, _, _, _, closes, here => by
    have closed := here.trans closes
    cases rounds <;>
      exact reads_bind.mpr ⟨true, _, reads_accept_true.mpr closed, reads_pure.mpr ⟨rfl, rfl⟩⟩
  | _, _, _, n, bound, rounds, depth, text, tail, rest, ⟨guard', action, value⟩ :: cases, verified,
      below, listable, size, counted, closes, here => by
    obtain ⟨admitted, inner, acted, yielded, later⟩ := Surroundings.verifyCases_cons.mp verified
    obtain ⟨listableCase, listableLater⟩ := listable.split
    obtain ⟨listableGuard, listableAction⟩ := listableCase.enter
    have entered := below.advance (Surroundings.advance_enter admitted) listableGuard.numbers
    have acting := entered.advance (Surroundings.advance_verifyBody action acted)
      listableAction.numbers
    have closed := below.advance ((Surroundings.advance_enter admitted).trans
      (Surroundings.advance_verifyBody action acted)).close listableCase.numbers
    have declared : ∀ which binding, guard' = .element which binding →
        (naming.types.element? which).isSome = true := by
      rintro which binding rfl
      exact isSome_of_checkElement enums admitted.1
    rw [Instruction.sizeCases] at size
    obtain ⟨left, remains, read⟩ := reads_caseOf
      (fun _ _ ends shown => reads_guard shows named listableGuard.numbers listableGuard.within
        (below.admits admitted) declared ends shown)
      (fun _ _ _ closes shown => reads_bodyWithin named shows enums action acted entered
        listableAction (Nat.le_of_add_right_le size) closes shown)
      (begins_guard shows named declared) shows listableAction.within
      (fun r member => acting.readable yielded r (by simpa using member)) closes
      ((skipFrom_skipFrom false text).trans here)
    rw [Nat.add_assoc, ← List.length_append] at read
    rw [Instruction.definitionsCases, List.length_append, ← Nat.add_assoc]
    cases rounds with
    | zero => exact absurd counted (Nat.not_succ_le_zero _)
    | succ rounds =>
      have open' : Reads (accept "\x7d") text false (skipFrom false text) := by
        refine reads_accept_false.mpr ⟨?_, rfl⟩
        rw [here]
        simp only [renderCases, String.toList_append, List.append_assoc, toList_indentation,
          skipFrom_indentation]
        rintro ⟨others, equation⟩
        cases equation
      refine reads_bind.mpr ⟨false, _, open', ?_⟩
      refine reads_bind.mpr ⟨_, left, read, ?_⟩
      refine reads_bind.mpr ⟨_, _, reads_casesWithin named shows enums cases later closed
        listableLater (Nat.le_of_add_left_le size) (Nat.le_of_succ_le_succ counted) closes remains,
        ?_⟩
      exact reads_pure.mpr ⟨rfl, rfl⟩

end

end Trees

end Reading

end RegisterIR
