import RegisterIR.Proofs.References

/-! Whatever is counted while a text is read takes up a part of the text: the elements of an enum,
the registers of a function, and the declarations. So no number that is given out exceeds the
number of characters. -/

namespace RegisterIR

namespace Reading

open Motion

variable {α β σ : Type} {before : Nat} {count : α → Nat} {count' : β → Nat}

/-- What is counted in a value, on top of what was counted before, takes up as many characters. -/
structure Pays (before : Nat) (reader : Reader α) (count : α → Nat) : Prop where
  pays : ∀ {text value rest}, Reads reader text value rest →
    count value + rest.length ≤ before + text.length

theorem pays_pure {value : α} (h : count value ≤ before) : Pays before (pure value) count where
  pays read := by
    obtain ⟨rfl, rfl⟩ := reads_pure.mp read
    omega

theorem pays_of_not_reads {reader : Reader α}
    (h : ∀ {text value rest}, ¬ Reads reader text value rest) : Pays before reader count :=
  ⟨fun read => absurd read h⟩

theorem Pays.bind {reader : Reader α} {next : α → Reader β} (first : Pays before reader count)
    (later : ∀ value, Pays (count value) (next value) count') :
    Pays before (reader >>= next) count' where
  pays read := by
    obtain ⟨value, between, read, read'⟩ := reads_bind.mp read
    have paid := first.pays read
    have paid' := (later value).pays read'
    omega

theorem Motion.Allows.paying {reader : Reader α} {next : α → Reader β}
    (first : inside.Allows reader) (later : ∀ value, Pays before (next value) count') :
    Pays before (reader >>= next) count' where
  pays read := by
    obtain ⟨value, between, read, read'⟩ := reads_bind.mp read
    have shorter := length_le_of_inside first read
    have paid := (later value).pays read'
    omega

theorem Consumes.paying {reader : Reader α} {next : α → Reader β} (first : Consumes reader)
    (later : ∀ value, Pays (before + 1) (next value) count') :
    Pays before (reader >>= next) count' where
  pays read := by
    obtain ⟨value, between, read, read'⟩ := reads_bind.mp read
    have less := first.less read
    have paid := (later value).pays read'
    omega

theorem pays_unbounded {within : Nat → Reader α} (h : ∀ bound, Pays before (within bound) count) :
    Pays before (fun text => within text.length text) count :=
  ⟨fun {text _ _} read => (h text.length).pays read⟩

section Sequences

variable {step : σ → Reader σ} {size : σ → Nat}
  (each : ∀ state, Pays (size state) (step state) size)
include each

theorem pays_itemsWithin (bound : Nat) (start : σ) :
    Pays (size start) (itemsWithin step bound start) size := by
  induction bound generalizing start with
  | zero =>
    exact (each start).bind fun _ => (allows_expect (by decide)).paying fun _ =>
      pays_pure (Nat.le_refl _)
  | succ bound ih =>
    refine (each start).bind fun items => (allows_accept (by decide)).paying fun closed => ?_
    cases closed with
    | true => exact pays_pure (Nat.le_refl _)
    | false => exact (allows_expect (by decide)).paying fun _ => ih items

theorem pays_items (start : σ) : Pays (size start) (items step start) size := by
  refine (allows_expect (by decide)).paying fun _ => (allows_accept (by decide)).paying
    fun closed => ?_
  cases closed with
  | true => exact pays_pure (Nat.le_refl _)
  | false => exact pays_unbounded (pays_itemsWithin each · start)

theorem pays_fieldsWithin (bound : Nat) (start : σ) :
    Pays (size start) (fieldsWithin step bound start) size := by
  induction bound generalizing start with
  | zero =>
    refine (allows_accept (by decide)).paying fun closed => ?_
    cases closed with
    | true => exact pays_pure (Nat.le_refl _)
    | false =>
      exact (each start).bind fun _ => (allows_expect (by decide)).paying fun _ =>
        pays_pure (Nat.le_refl _)
  | succ bound ih =>
    refine (allows_accept (by decide)).paying fun closed => ?_
    cases closed with
    | true => exact pays_pure (Nat.le_refl _)
    | false =>
      refine (each start).bind fun fields => (allows_accept (by decide)).paying fun comma => ?_
      cases comma with
      | true => exact ih fields
      | false => exact (allows_expect (by decide)).paying fun _ => pays_pure (Nat.le_refl _)

theorem pays_fields (start : σ) : Pays (size start) (fields step start) size :=
  (allows_expect (by decide)).paying fun _ => pays_unbounded (pays_fieldsWithin each · start)

end Sequences

section Bodies

abbrev Registers.used (registers : Registers) : Nat := registers.names.length

variable (types : TypeTable)

theorem pays_newRegister (registers : Registers) :
    Pays registers.used (newRegister registers) fun read => read.2.used := by
  refine consumes_registerName.paying fun name => ?_
  rw [define]
  split
  · exact pays_of_not_reads not_reads_raise
  · exact pays_pure (Nat.le_of_eq List.length_append)

theorem pays_guard (registers : Registers) :
    Pays registers.used (guard types registers) fun read => read.2.used := by
  refine allows_skip.paying fun _ => allows_peek?.paying fun next => ?_
  split
  · exact (allows_register registers).paying fun _ => pays_pure (Nat.le_refl _)
  · exact (allows_elementRef types).paying fun _ => (allows_expect (by decide)).paying fun _ =>
      (pays_newRegister registers).bind fun _ => (allows_expect (by decide)).paying fun _ =>
        pays_pure (Nat.le_refl _)

variable {nested : Nested}
  (inner : ∀ registers, Pays registers.used (nested registers) fun read => read.2.used)
include inner

theorem pays_caseOf (registers : Registers) :
    Pays registers.used (caseOf types nested registers) fun read => read.2.used := by
  refine (allows_acceptKeyword (by decide)).paying fun found => ?_
  cases found
  case' false => refine (allows_unexpected _).paying fun _ => ?_
  all_goals
    refine (pays_guard types registers).bind fun _ => (allows_expect (by decide)).paying fun _ =>
      (inner _).bind fun _ => (allows_acceptKeyword (by decide)).paying fun yields => ?_
    cases yields with
    | true => exact (allows_register _).paying fun _ => pays_pure (Nat.le_refl _)
    | false => exact pays_pure (Nat.le_refl _)

theorem pays_casesWithin (bound : Nat) (registers : Registers) :
    Pays registers.used (casesWithin types nested bound registers) fun read => read.2.used := by
  induction bound generalizing registers with
  | zero =>
    refine (allows_accept (by decide)).paying fun closed => ?_
    cases closed with
    | true => exact pays_pure (Nat.le_refl _)
    | false => exact pays_of_not_reads not_reads_unexpected
  | succ bound ih =>
    refine (allows_accept (by decide)).paying fun closed => ?_
    cases closed with
    | true => exact pays_pure (Nat.le_refl _)
    | false =>
      exact (pays_caseOf types inner registers).bind fun _ => (ih _).bind fun _ =>
        pays_pure (Nat.le_refl _)

theorem pays_assignment (registers : Registers) (result : Register) :
    Pays registers.used (assignment types nested registers result) fun read => read.2.used := by
  refine allows_identifier.paying fun keyword => ?_
  split
  · exact (allows_register _).paying fun _ => (allows_register _).list.paying fun _ =>
      pays_pure (Nat.le_refl _)
  · exact (allows_register _).paying fun _ => (allows_expect (by decide)).paying fun _ =>
      (pays_unbounded (pays_casesWithin types inner · _)).bind fun _ => pays_pure (Nat.le_refl _)
  · split
    · exact (inside_operation types ‹_›).paying fun _ => pays_pure (Nat.le_refl _)
    · exact pays_of_not_reads not_reads_fail

theorem pays_instruction (registers : Registers) :
    Pays registers.used (instruction types nested registers) fun read => read.2.used := by
  refine allows_skip.paying fun _ => allows_peek?.paying fun next => ?_
  split
  · exact (pays_newRegister registers).bind fun _ => (allows_expect (by decide)).paying fun _ =>
      pays_assignment types inner _ _
  · refine allows_identifier.paying fun keyword => ?_
    split
    · exact (allows_expect (by decide)).paying fun _ => (inner registers).bind fun _ =>
        pays_pure (Nat.le_refl _)
    · exact pays_pure (Nat.le_refl _)
    · exact pays_of_not_reads not_reads_fail

omit inner in
theorem pays_bodyWithin (bound : Nat) (registers : Registers) :
    Pays registers.used (bodyWithin types bound registers) fun read => read.2.used := by
  induction bound generalizing registers with
  | zero => exact (allows_expect (by decide)).paying fun _ => pays_pure (Nat.le_refl _)
  | succ bound ih =>
    refine (allows_accept (by decide)).paying fun closed => ?_
    cases closed with
    | true => exact pays_pure (Nat.le_refl _)
    | false =>
      refine allows_peek?.paying fun next => ?_
      split
      · exact pays_of_not_reads not_reads_unexpected
      · exact (pays_instruction types ih registers).bind fun _ => (ih _).bind fun _ =>
          pays_pure (Nat.le_refl _)

end Bodies

section Declarations

theorem pays_element (types : TypeTable) (enumeration : String) (elements : List Element) :
    Pays elements.length (element types enumeration elements) List.length := by
  refine consumes_identifier.paying fun name => ?_
  split
  · exact pays_of_not_reads not_reads_fail
  · refine (allows_accept (by decide)).paying fun opened => ?_
    cases opened with
    | true =>
      exact (allows_type types).paying fun _ => (allows_expect (by decide)).paying fun _ =>
        pays_pure (by simp)
    | false => exact pays_pure (by simp)

theorem pays_enumeration (types : TypeTable) :
    Pays 0 (enumeration types) fun value => value.elements.length := by
  refine allows_identifier.paying fun name => ?_
  split
  · exact pays_of_not_reads not_reads_raise
  · exact (pays_fields (pays_element types name) []).bind fun _ => pays_pure (Nat.le_refl _)

theorem pays_function (declarations : Declarations) :
    Pays 0 (function declarations) fun value => value.registerCount := by
  refine allows_identifier.paying fun name => ?_
  split
  · exact pays_of_not_reads not_reads_raise
  · have parameters (registers : Registers) : Pays registers.used (do
        let read ← newRegister registers
        pure read.2 : Reader Registers) Registers.used :=
      (pays_newRegister registers).bind fun _ => pays_pure (Nat.le_refl _)
    exact (pays_items parameters ⟨name, []⟩).bind fun _ => (allows_expect (by decide)).paying
      fun _ => allows_registerName.paying fun _ => (allows_expect (by decide)).paying fun _ =>
        (pays_unbounded (pays_bodyWithin _ · _)).bind fun _ =>
          (allows_lookup _ (by simp)).paying fun _ => pays_pure (Nat.le_refl _)

def Declarations.size (declarations : Declarations) : Nat :=
  declarations.types.enums.length + declarations.types.records.length +
    declarations.types.interfaces.length + declarations.functions.length

theorem pays_declaration (declarations : Declarations) :
    Pays declarations.size (declaration declarations) Declarations.size := by
  refine consumes_identifier.paying fun keyword => ?_
  split
  · refine (allows_enumeration _).paying fun _ => pays_pure ?_
    simp [Declarations.size, Declarations.addEnum]
    omega
  · refine (allows_record _).paying fun _ => pays_pure ?_
    simp [Declarations.size, Declarations.addRecord]
    omega
  · refine (allows_interface _).paying fun _ => pays_pure ?_
    simp [Declarations.size, Declarations.addInterface]
    omega
  · refine (inside_function _).paying fun _ => pays_pure ?_
    simp [Declarations.size, Declarations.addFunction]
    omega
  · exact pays_of_not_reads not_reads_fail

theorem pays_declarationsWithin (bound : Nat) (declarations : Declarations) :
    Pays declarations.size (declarationsWithin bound declarations) Declarations.size := by
  induction bound generalizing declarations with
  | zero => exact pays_pure (Nat.le_refl _)
  | succ bound ih =>
    refine allows_skip.paying fun _ => allows_peek?.paying fun next => ?_
    split
    · exact pays_pure (Nat.le_refl _)
    · exact (pays_declaration declarations).bind fun _ => ih _

structure Declarations.AtMost (declarations : Declarations) (size : Nat) : Prop where
  elements : ∀ enumeration ∈ declarations.types.enums, enumeration.elements.length ≤ size
  registers : ∀ function ∈ declarations.functions, function.registerCount ≤ size

theorem atMost_of_reads_declaration {declarations next : Declarations} {size : Nat}
    {text rest : List Char} (holds : declarations.AtMost size) (fits : text.length ≤ size)
    (h : Reads (declaration declarations) text next rest) : next.AtMost size := by
  obtain ⟨keyword, between, identifies, chosen⟩ := reads_bind.mp h
  have shorter := length_le_of_inside allows_identifier identifies
  split at chosen
  · obtain ⟨value, _, read, done⟩ := reads_bind.mp chosen
    obtain ⟨rfl, _⟩ := reads_pure.mp done
    have paid := (pays_enumeration _).pays read
    exact ⟨List.forall_mem_append.mpr ⟨holds.elements, by simpa using by omega⟩, holds.registers⟩
  · obtain ⟨value, _, _, done⟩ := reads_bind.mp chosen
    obtain ⟨rfl, _⟩ := reads_pure.mp done
    exact ⟨holds.elements, holds.registers⟩
  · obtain ⟨value, _, _, done⟩ := reads_bind.mp chosen
    obtain ⟨rfl, _⟩ := reads_pure.mp done
    exact ⟨holds.elements, holds.registers⟩
  · obtain ⟨value, _, read, done⟩ := reads_bind.mp chosen
    obtain ⟨rfl, _⟩ := reads_pure.mp done
    have paid := (pays_function _).pays read
    exact ⟨holds.elements, List.forall_mem_append.mpr ⟨holds.registers, by simpa using by omega⟩⟩
  · exact absurd chosen not_reads_fail

theorem atMost_of_reads_declarationsWithin {bound size : Nat} {declarations last : Declarations}
    {text rest : List Char} (holds : declarations.AtMost size) (fits : text.length ≤ size)
    (h : Reads (declarationsWithin bound declarations) text last rest) : last.AtMost size := by
  induction bound generalizing declarations text with
  | zero =>
    obtain ⟨rfl, _⟩ := reads_pure.mp h
    exact holds
  | succ bound ih =>
    obtain ⟨_, _, skipped, peeked⟩ := reads_bind.mp h
    obtain ⟨found, _, seen, next⟩ := reads_bind.mp peeked
    have shorter := length_le_of_inside allows_skip skipped
    -- Looking ahead takes nothing; each declaration is read from an end of the same text.
    obtain ⟨_, rfl⟩ := reads_peek?.mp seen
    split at next
    · obtain ⟨rfl, _⟩ := reads_pure.mp next
      exact holds
    · obtain ⟨declared, between, first, later⟩ := reads_bind.mp next
      have shorter' := length_le_of_inside (consumes_declaration declarations).stays first
      exact ih (atMost_of_reads_declaration holds (by omega) first) (by omega) later

end Declarations

end Reading

namespace Program

variable {text : String} {program : Program}

/-- The numbers that reading gives out: none exceeds the size. -/
structure AtMost (program : Program) (size : Nat) : Prop where
  enums : program.enums.length ≤ size
  records : program.records.length ≤ size
  interfaces : program.interfaces.length ≤ size
  functions : program.functions.length ≤ size
  elements : ∀ enumeration ∈ program.enums, enumeration.elements.length ≤ size
  registers : ∀ function ∈ program.functions, function.registerCount ≤ size

/-- Nothing in a program is counted beyond the number of characters of its text. So all numbers of a
text of at most `maxWord` characters fit into 32 bits. -/
theorem atMost_of_parse (h : Program.parse text = .ok program) : program.AtMost text.length := by
  obtain ⟨declarations, rest, read, rfl, _⟩ := exists_declarations_of_parse h
  have none : Reading.Declarations.empty.AtMost text.length :=
    ⟨by simp [Reading.Declarations.empty], by simp [Reading.Declarations.empty]⟩
  have whole := Nat.le_of_eq (String.length_toList (s := text))
  obtain ⟨elements, registers⟩ := Reading.atMost_of_reads_declarationsWithin none whole read
  have paid := (Reading.pays_declarationsWithin _ .empty).pays read
  have start : Reading.Declarations.empty.size = 0 := rfl
  have functions : (ofDeclarations declarations).functions.length =
    declarations.functions.length := List.length_map _
  rw [start, Reading.Declarations.size] at paid
  refine ⟨?_, ?_, ?_, ?_, elements, ?_⟩
  · change declarations.types.enums.length ≤ text.length
    omega
  · change declarations.types.records.length ≤ text.length
    omega
  · change declarations.types.interfaces.length ≤ text.length
    omega
  · omega
  · exact List.forall_mem_map.mpr registers

end Program

end RegisterIR
