import RegisterIR.Proofs.Spacing

/-! Programs in alike texts. Every reader of types, literals, bodies and declarations reads the same
from alike texts, so that blanks and comments between tokens make no difference to a program. A loop
that counts down is compared with the loop that it stands for, one round at a time. -/

namespace RegisterIR.Reading

open Motion

variable {α β : Type}

section Sequences

theorem keeps_expect_accept {token : String} (h : token.toList.all isTokenChar = true)
    {next : Reader α} {next' : Bool → Reader α} (later : Keeps next (next' true)) :
    Keeps (do
      expect token
      next) (accept token >>= next') where
  reads alike read := by
    obtain ⟨_, _, expected, read⟩ := reads_bind.mp read
    have accepted := reads_accept_true.mpr (reads_expect.mp expected)
    obtain ⟨_, accepted', left⟩ := (follows_accept h).reads alike accepted
    obtain ⟨rest', read', left'⟩ := later.reads left read
    exact ⟨rest', reads_bind.mpr ⟨true, _, accepted', read'⟩, left'⟩

theorem keeps_expect_otherwise {token other : String} {c d : Char} (shape : token.toList = [c])
    (shape' : other.toList = [d]) (different : c ≠ d) (h : isTokenChar c = true)
    {next : Reader α} {next' : Bool → Reader α}
    (later : Keeps (do
      expect token
      next) (next' false)) :
    Keeps (do
      expect token
      next) (accept other >>= next') where
  reads {text text' rest value} alike read := by
    obtain ⟨_, between, expected, read⟩ := reads_bind.mp read
    have skipped := alike.skip spaced_code
    have here : skipFrom false (skipFrom false text) = token.toList ++ between := by
      rw [skipFrom_skipFrom]
      exact reads_expect.mp expected
    obtain ⟨rest', read', left⟩ :=
      later.reads skipped (reads_bind.mpr ⟨(), between, reads_expect.mpr here, read⟩)
    rw [reads_expect.mp expected, shape] at skipped
    obtain ⟨tail, there, _⟩ := skipped.of_cons spaced_code (next_code_of_isTokenChar h).1
    rw [there] at read'
    have passed := reads_accept_false_of_ne shape' there different
    exact ⟨rest', reads_bind.mpr ⟨false, _, passed, read'⟩, left⟩

variable {step step' : β → Reader β} (each : ∀ state, Keeps (step state) (step' state))
  (stays : ∀ state, inside.Allows (step' state)) (needs : ∀ state, NeedsText (step' state))
include each stays needs

theorem keeps_itemsWithin (bound : Nat) (start : β) :
    Keeps (itemsWithin step bound start) fun text => itemsWithin step' text.length start text := by
  have unrolled := (isLoop_items stays needs).unrolled
  induction bound generalizing start with
  | zero =>
    rw [unrolled]
    exact (each start).bind fun items => keeps_expect_accept (by decide) (follows_pure _)
  | succ bound ih =>
    rw [unrolled]
    refine (each start).bind fun items => (keeps_accept (by decide)).bind fun closed => ?_
    cases closed with
    | true => exact follows_pure _
    | false => exact (keeps_expect (by decide)).bind fun _ => ih items

theorem keeps_items (start : β) : Keeps (items step start) (items step' start) := by
  refine (keeps_expect (by decide)).bind fun _ => (keeps_accept (by decide)).bind fun closed => ?_
  cases closed with
  | true => exact follows_pure _
  | false => exact follows_unbounded (keeps_itemsWithin each stays needs · start)

theorem keeps_fieldsWithin (bound : Nat) (start : β) :
    Keeps (fieldsWithin step bound start)
      fun text => fieldsWithin step' text.length start text := by
  have unrolled := (isLoop_fields stays needs).unrolled
  have last (fields : β) : Keeps (do
      expect "\x7d"
      pure fields) (do
      expect "\x7d"
      pure fields) := (keeps_expect (by decide)).bind fun _ => follows_pure _
  induction bound generalizing start with
  | zero =>
    rw [unrolled]
    refine (keeps_accept (by decide)).bind fun closed => ?_
    cases closed with
    | true => exact follows_pure _
    | false =>
      exact (each start).bind fun fields =>
        keeps_expect_otherwise (d := ',') rfl rfl (by decide) (by decide) (last fields)
  | succ bound ih =>
    rw [unrolled]
    refine (keeps_accept (by decide)).bind fun closed => ?_
    cases closed with
    | true => exact follows_pure _
    | false =>
      refine (each start).bind fun fields => (keeps_accept (by decide)).bind fun comma => ?_
      cases comma with
      | true => exact ih fields
      | false => exact last fields

theorem keeps_fields (start : β) : Keeps (fields step start) (fields step' start) :=
  (keeps_expect (by decide)).bind fun _ =>
    follows_unbounded (keeps_fieldsWithin each stays needs · start)

end Sequences

theorem Follows.list {reader reader' : Reader α} (h : Keeps reader reader')
    (stays : inside.Allows reader') (needs : NeedsText reader') :
    Keeps (list reader) (list reader') :=
  keeps_items (fun _ => h.bind fun _ => follows_pure _) (allows_appending stays)
    (fun _ => needs.bind _) []

theorem keeps_unexpected (what : String) :
    Keeps (unexpected what : Reader α) (unexpected what) :=
  follows_of_not_reads not_reads_unexpected

theorem not_reads_skip_unexpected {what : String} {text rest : List Char} {value : α} :
    ¬ Reads (do
      skip
      unexpected what) text value rest := by
  intro read
  obtain ⟨_, _, _, read⟩ := reads_bind.mp read
  exact not_reads_unexpected read

section Types

variable (types : TypeTable)

theorem keeps_lookup (position : Option Nat) (error : ParseError (List Char)) :
    Keeps (match position with
      | some id => pure id
      | none => raise error : Reader Nat) (match position with
      | some id => pure id
      | none => raise error : Reader Nat) := by
  cases position with
  | none => exact follows_of_not_reads not_reads_raise
  | some id => exact follows_pure _

theorem keeps_elementOf (enumeration : String) :
    Keeps (elementOf types enumeration) (elementOf types enumeration) := by
  refine (keeps_expect (by decide)).bind fun _ => keeps_identifier.bind fun element => ?_
  rw [findElement]
  split
  · exact follows_of_not_reads not_reads_raise
  · split
    · exact follows_of_not_reads not_reads_raise
    · exact follows_pure _

theorem keeps_elementRef : Keeps (elementRef types) (elementRef types) :=
  keeps_identifier.bind fun enumeration => keeps_elementOf types enumeration

theorem keeps_integerRange : Keeps integerRange integerRange := by
  refine keeps_number.bind fun minimum => (keeps_expect (by decide)).bind fun _ =>
    keeps_number.bind fun maximum => ?_
  split
  · exact follows_pure _
  · exact follows_of_not_reads not_reads_fail

theorem keeps_typeWithin (bound : Nat) : Keeps (typeWithin types bound) (type types) := by
  induction bound with
  | zero => exact follows_of_not_reads not_reads_skip_unexpected
  | succ bound ih =>
    have unrolled : type types = typeRound types (type types) := (isLoop_type types).unrolled ()
    have listed := ih.list (allows_type types) (needsText_type types)
    rw [unrolled]
    refine keeps_identifier.bind fun word => ?_
    split
    · exact follows_pure _
    · exact follows_pure _
    · exact follows_pure _
    · exact keeps_integerRange.bind fun _ => follows_pure _
    · exact keeps_identifier.bind fun _ => (keeps_lookup _ _).bind fun _ => follows_pure _
    · exact keeps_identifier.bind fun _ => (keeps_lookup _ _).bind fun _ => follows_pure _
    · exact keeps_identifier.bind fun _ => (keeps_lookup _ _).bind fun _ => follows_pure _
    · exact (keeps_elementRef types).bind fun _ => follows_pure _
    · exact listed.bind fun _ => (keeps_expect (by decide)).bind fun _ => ih.bind fun _ =>
        follows_pure _
    · exact listed.bind fun _ => follows_pure _
    · exact follows_of_not_reads not_reads_fail

theorem keeps_type : Keeps (type types) (type types) := follows_unbounded (keeps_typeWithin types)

theorem keeps_literalWithin (bound : Nat) : Keeps (literalWithin types bound) (literal types) := by
  induction bound with
  | zero => exact follows_of_not_reads not_reads_skip_unexpected
  | succ bound ih =>
    have unrolled : literal types = literalRound types (literal types) :=
      (isLoop_literal types).unrolled ()
    rw [unrolled]
    refine follows_peeking fun first => ?_
    split
    · exact keeps_quoted.bind fun _ => follows_pure _
    · exact keeps_functionName.bind fun _ => follows_pure _
    · exact (ih.list (inside_literal types) (needsText_literal types)).bind fun _ => follows_pure _
    · split
      · exact keeps_number.bind fun _ => follows_pure _
      · refine keeps_identifier.bind fun word => ?_
        split
        · exact follows_pure _
        · exact (keeps_elementRef types).bind fun _ => follows_pure _
        · refine (keeps_elementOf types _).bind fun _ => (keeps_accept (by decide)).bind
            fun opened => ?_
          cases opened with
          | true =>
            exact ih.bind fun _ => (keeps_expect (by decide)).bind fun _ => follows_pure _
          | false => exact follows_pure _

theorem keeps_literal : Keeps (literal types) (literal types) :=
  follows_unbounded (keeps_literalWithin types)

end Types

section Bodies

variable (types : TypeTable)

theorem keeps_register (registers : Registers) :
    Keeps (register registers) (register registers) :=
  keeps_registerName.bind fun _ => keeps_lookup _ _

theorem keeps_registers (registers : Registers) :
    Keeps (list (register registers)) (list (register registers)) :=
  (keeps_register registers).list (allows_register registers)
    (consumes_registerName.needsText.bind _)

theorem keeps_newRegister (registers : Registers) :
    Keeps (newRegister registers) (newRegister registers) := by
  refine keeps_registerName.bind fun name => ?_
  rw [define]
  split
  · exact follows_of_not_reads not_reads_raise
  · exact follows_pure _

theorem keeps_guard (registers : Registers) :
    Keeps (guard types registers) (guard types registers) := by
  refine follows_peeking fun first => ?_
  split
  · exact (keeps_register registers).bind fun _ => follows_pure _
  · exact (keeps_elementRef types).bind fun _ => (keeps_expect (by decide)).bind fun _ =>
      (keeps_newRegister registers).bind fun _ => (keeps_expect (by decide)).bind fun _ =>
        follows_pure _

theorem keeps_operation {registers : Registers} {keyword : String}
    {reader : Reader (Operation String)} (h : operation types registers keyword = some reader) :
    Keeps reader reader := by
  rw [operation.eq_def] at h
  split at h
  · obtain rfl := Option.some.inj h
    exact (keeps_literal types).bind fun _ => (keeps_expect (by decide)).bind fun _ =>
      (keeps_type types).bind fun _ => follows_pure _
  · obtain rfl := Option.some.inj h
    exact (keeps_registers registers).bind fun _ => follows_pure _
  · obtain rfl := Option.some.inj h
    exact (keeps_register registers).bind fun _ => (keeps_expect (by decide)).bind fun _ =>
      keeps_smallNumber.bind fun _ => follows_pure _
  · obtain rfl := Option.some.inj h
    exact (keeps_elementRef types).bind fun _ => (keeps_expect (by decide)).bind fun _ =>
      (keeps_register registers).bind fun _ => (keeps_expect (by decide)).bind fun _ =>
        follows_pure _
  · obtain rfl := Option.some.inj h
    exact follows_pure _
  · cases h

section Nested

variable {nested : Nested} (inner : ∀ registers, Keeps (nested registers) (body types registers))
include inner

theorem keeps_caseOf (registers : Registers) :
    Keeps (caseOf types nested registers) (caseOf types (body types) registers) := by
  refine (keeps_acceptKeyword (by decide)).bind fun found => ?_
  cases found
  case' false => refine (keeps_unexpected _).bind fun _ => ?_
  all_goals
    refine (keeps_guard types registers).bind fun _ => (keeps_expect (by decide)).bind fun _ =>
      (inner _).bind fun _ => (keeps_acceptKeyword (by decide)).bind fun yields => ?_
    cases yields with
    | true => exact (keeps_register _).bind fun _ => follows_pure _
    | false => exact follows_pure _

theorem keeps_casesWithin (bound : Nat) (registers : Registers) :
    Keeps (casesWithin types nested bound registers)
      fun text => casesWithin types (body types) text.length registers text := by
  have unrolled := (isLoop_cases types).unrolled
  induction bound generalizing registers with
  | zero =>
    rw [unrolled]
    refine (keeps_accept (by decide)).bind fun closed => ?_
    cases closed with
    | true => exact follows_pure _
    | false => exact follows_of_not_reads not_reads_unexpected
  | succ bound ih =>
    rw [unrolled]
    refine (keeps_accept (by decide)).bind fun closed => ?_
    cases closed with
    | true => exact follows_pure _
    | false =>
      exact (keeps_caseOf types inner registers).bind fun _ => (ih _).bind fun _ => follows_pure _

theorem keeps_assignment (registers : Registers) (result : Register) :
    Keeps (assignment types nested registers result)
      (assignment types (body types) registers result) := by
  refine keeps_identifier.bind fun keyword => ?_
  split
  · exact (keeps_register _).bind fun _ => (keeps_registers _).bind fun _ => follows_pure _
  · exact (keeps_register _).bind fun _ => (keeps_expect (by decide)).bind fun _ =>
      (follows_unbounded (keeps_casesWithin types inner · _)).bind fun _ => follows_pure _
  · split
    · exact (keeps_operation types ‹_›).bind fun _ => follows_pure _
    · exact follows_of_not_reads not_reads_fail

theorem keeps_instruction (registers : Registers) :
    Keeps (instruction types nested registers) (instruction types (body types) registers) := by
  refine follows_peeking fun first => ?_
  split
  · exact (keeps_newRegister registers).bind fun _ => (keeps_expect (by decide)).bind fun _ =>
      keeps_assignment types inner _ _
  · refine keeps_identifier.bind fun keyword => ?_
    split
    · exact (keeps_expect (by decide)).bind fun _ => (inner registers).bind fun _ => follows_pure _
    · exact follows_pure _
    · exact follows_of_not_reads not_reads_fail

end Nested

theorem keeps_bodyWithin (bound : Nat) (registers : Registers) :
    Keeps (bodyWithin types bound registers) (body types registers) := by
  have unrolled := (isLoop_body types).unrolled
  induction bound generalizing registers with
  | zero =>
    rw [unrolled]
    exact keeps_expect_accept (by decide) (follows_pure _)
  | succ bound ih =>
    rw [unrolled]
    refine (follows_accept (by decide)).bind fun closed => ?_
    cases closed with
    | true => exact follows_pure _
    | false =>
      refine follows_peek?.bind fun first => Follows.leveled ?_
      split
      · exact keeps_unexpected _
      · exact (keeps_instruction types ih registers).bind fun _ => (ih _).bind fun _ =>
          follows_pure _

theorem keeps_body (registers : Registers) : Keeps (body types registers) (body types registers) :=
  follows_unbounded (keeps_bodyWithin types · registers)

end Bodies

section Declarations

variable (types : TypeTable)

theorem keeps_element (enumeration : String) (elements : List Element) :
    Keeps (element types enumeration elements) (element types enumeration elements) := by
  refine keeps_identifier.bind fun name => ?_
  split
  · exact follows_of_not_reads not_reads_fail
  · refine (keeps_accept (by decide)).bind fun opened => ?_
    cases opened with
    | true =>
      exact (keeps_type types).bind fun _ => (keeps_expect (by decide)).bind fun _ =>
        follows_pure _
    | false => exact follows_pure _

theorem keeps_enumeration : Keeps (enumeration types) (enumeration types) := by
  refine keeps_identifier.bind fun name => ?_
  split
  · exact follows_of_not_reads not_reads_raise
  · exact (keeps_fields (keeps_element types name) (allows_element types name)
      (fun _ => consumes_identifier.needsText.bind _) []).bind fun _ => follows_pure _

theorem keeps_member (members : List Member) :
    Keeps (member types members) (member types members) :=
  keeps_identifier.bind fun _ => (keeps_expect (by decide)).bind fun _ =>
    (keeps_type types).bind fun _ => follows_pure _

theorem keeps_record : Keeps (record types) (record types) := by
  refine keeps_identifier.bind fun name => ?_
  split
  · exact follows_of_not_reads not_reads_raise
  · exact (keeps_fields (keeps_member types) (allows_member types)
      (fun _ => consumes_identifier.needsText.bind _) []).bind fun _ => follows_pure _

theorem keeps_interface : Keeps (interface types) (interface types) := by
  refine keeps_identifier.bind fun name => ?_
  split
  · exact follows_of_not_reads not_reads_raise
  · exact follows_pure _

theorem keeps_function (declarations : Declarations) :
    Keeps (function declarations) (function declarations) := by
  refine keeps_identifier.bind fun name => ?_
  split
  · exact follows_of_not_reads not_reads_raise
  · exact (keeps_items (fun _ => (keeps_newRegister _).bind fun _ => follows_pure _)
      allows_parameters (fun _ => (consumes_newRegister _).needsText.bind _) _).bind fun _ =>
        (keeps_expect (by decide)).bind fun _ => keeps_registerName.bind fun _ =>
          (keeps_expect (by decide)).bind fun _ => (keeps_body _ _).bind fun _ =>
            (keeps_lookup _ _).bind fun _ => follows_pure _

theorem keeps_declaration (declarations : Declarations) :
    Keeps (declaration declarations) (declaration declarations) := by
  refine keeps_identifier.bind fun keyword => ?_
  split
  · exact (keeps_enumeration _).bind fun _ => follows_pure _
  · exact (keeps_record _).bind fun _ => follows_pure _
  · exact (keeps_interface _).bind fun _ => follows_pure _
  · exact (keeps_function _).bind fun _ => follows_pure _
  · exact follows_of_not_reads not_reads_fail

theorem reads_declarations_of_alike {declarations result : Declarations}
    {text text' rest : List Char}
    (alike : Alike .code (skipFrom false text) (skipFrom false text'))
    (read : Reads (declarationsWithin text.length declarations) text result rest) :
    ∃ rest', Reads (declarationsWithin text'.length declarations) text' result rest' := by
  have unrolled (declarations : Declarations) (text : List Char) :
      declarationsWithin text.length declarations text = declarationsRound
        (fun declarations text => declarationsWithin text.length declarations text)
        declarations text :=
    congrFun (isLoop_declarations.unrolled declarations) text
  induction size : text.length using Nat.strongRecOn generalizing declarations text text' with
  | _ length ih =>
    rw [Reads, unrolled] at read
    obtain ⟨_, _, skipped, read⟩ := reads_bind.mp read
    obtain ⟨_, skipped', level⟩ := follows_skip_of_skipped.reads alike skipped
    obtain ⟨first, between, peeked, read⟩ := reads_bind.mp read
    obtain ⟨between', peeked', level⟩ := follows_peek?.reads level peeked
    have round {result : Declarations} {rest : List Char}
        (h : Reads (if first.isNone then pure declarations else do
          let declarations ← declaration declarations
          fun text => declarationsWithin text.length declarations text) between' result rest) :
        Reads (declarationsWithin text'.length declarations) text' result rest := by
      rw [Reads, unrolled]
      exact reads_bind.mpr ⟨(), _, skipped', reads_bind.mpr ⟨first, _, peeked', h⟩⟩
    split at read
    · rename_i ended
      obtain ⟨rfl, rfl⟩ := reads_pure.mp read
      refine ⟨between', round ?_⟩
      rw [if_pos ended]
      exact reads_pure.mpr ⟨rfl, rfl⟩
    · rename_i more
      obtain ⟨declared, after, declares, read⟩ := reads_bind.mp read
      obtain ⟨after', declares', left⟩ :=
        (keeps_declaration declarations).leveled.reads level declares
      -- A declaration takes up a part of the text, so fewer characters are left for the others.
      have shorter : after.length < length := by
        have less := (consumes_declaration declarations).less declares
        obtain ⟨_, rfl⟩ := reads_peek?.mp peeked
        rw [reads_skip.mp skipped] at less
        have fewer := length_skipFrom_le false text
        omega
      obtain ⟨rest', read'⟩ := ih after.length shorter (left.skip spaced_code) read rfl
      refine ⟨rest', round ?_⟩
      rw [if_neg more]
      exact reads_bind.mpr ⟨declared, _, declares', read'⟩

end Declarations

/-- Blanks and comments between tokens make no difference to the program of a text. -/
theorem program_eq_ok_iff_of_alike {text text' : List Char} {result : Program}
    (alike : Alike .code (skipFrom false text) (skipFrom false text')) :
    program text = .ok result ↔ program text' = .ok result := by
  have forward {text text' : List Char}
      (alike : Alike .code (skipFrom false text) (skipFrom false text'))
      (h : program text = .ok result) : program text' = .ok result := by
    obtain ⟨⟨declarations, rest⟩, read, resolved⟩ := bind_eq_ok_iff.mp h
    obtain ⟨rest', read'⟩ := reads_declarations_of_alike alike read
    exact bind_eq_ok_iff.mpr ⟨(declarations, rest'), read', resolved⟩
  exact ⟨forward alike, forward alike.symm⟩

end RegisterIR.Reading
