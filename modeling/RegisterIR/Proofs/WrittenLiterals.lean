import RegisterIR.Proofs.WrittenTypes

/-! The written form of literals. A literal that has been read refers to declared elements, and
never to an enum whose name is a keyword of literals; such a literal is read back with its functions
referred to by name. -/

namespace RegisterIR

open Reading (IsWord IsIdentifier maxLong)

/-- The element is declared, and its enum has a name that literals can start with. -/
def TypeTable.Writable (types : TypeTable) (which : ElementRef) : Prop :=
  (types.element? which).isSome = true ∧
    ∀ enumeration ∈ types.enums[which.enumeration]?,
      enumeration.name ≠ "unit" ∧ enumeration.name ≠ "constructor"

theorem TypeTable.Extends.writable {large small : TypeTable} (extends' : large.Extends small)
    {which : ElementRef} (h : small.Writable which) : large.Writable which := by
  obtain ⟨element, found⟩ := Option.isSome_iff_exists.mp h.1
  obtain ⟨enumeration, declared, _⟩ := Option.bind_eq_some_iff.mp found
  refine ⟨Option.isSome_iff_exists.mpr ⟨element, extends'.element? found⟩, ?_⟩
  rw [getElem?_of_initial extends'.enums declared, ← declared]
  exact h.2

namespace Literal

variable {φ ψ : Type}

mutual

def parts : Literal φ → List (Literal φ)
  | wrapped which state => wrapped which state :: state.parts
  | tuple elements => tuple elements :: partsAll elements
  | literal => [literal]

def partsAll : List (Literal φ) → List (Literal φ)
  | [] => []
  | literal :: literals => literal.parts ++ partsAll literals

end

def Declared (types : TypeTable) : Literal φ → Prop
  | integer value => value ≤ maxLong
  | element which => types.Writable which
  | wrapped which _ => types.Writable which
  | constructor which => (types.element? which).isSome = true
  | _ => True

def Known (types : TypeTable) (literal : Literal φ) : Prop :=
  ∀ part ∈ literal.parts, part.Declared types

variable {types : TypeTable} {literal : Literal φ}

theorem partsAll_eq_flatMap (literals : List (Literal φ)) :
    partsAll literals = literals.flatMap parts := by
  induction literals with
  | nil => rfl
  | cons literal literals ih => rw [partsAll, ih, List.flatMap_cons]

theorem mem_parts_self (literal : Literal φ) : literal ∈ literal.parts := by
  cases literal <;> simp [parts]

theorem Known.declared (h : literal.Known types) : literal.Declared types :=
  h literal (mem_parts_self literal)

theorem known_of_declared (leaf : literal.parts = [literal]) (h : literal.Declared types) :
    literal.Known types := by
  intro part member
  rw [leaf] at member
  rwa [List.mem_singleton.mp member]

theorem known_wrapped {which : ElementRef} {state : Literal φ} :
    (wrapped which state).Known types ↔ types.Writable which ∧ state.Known types := by
  simp [Known, parts, Declared]

theorem known_tuple {elements : List (Literal φ)} :
    (tuple elements).Known types ↔ ∀ literal ∈ elements, literal.Known types := by
  rw [Known, parts, partsAll_eq_flatMap, List.forall_mem_cons, List.forall_mem_flatMap]
  exact and_iff_right trivial

theorem Known.extend {large : TypeTable} (h : literal.Known types)
    (extends' : large.Extends types) : literal.Known large := by
  intro part member
  have declared := h part member
  cases part with
  | element which => exact extends'.writable declared
  | wrapped which state => exact extends'.writable declared
  | constructor which =>
    obtain ⟨element, found⟩ := Option.isSome_iff_exists.mp declared
    exact Option.isSome_iff_exists.mpr ⟨element, extends'.element? found⟩
  | _ => exact declared

mutual

theorem Known.relabel (f : φ → ψ) : ∀ {literal : Literal φ}, literal.Known types →
    (literal.relabel f).Known types
  | unit, _ => known_of_declared rfl trivial
  | integer _, known => known_of_declared rfl known.declared
  | string _, _ => known_of_declared rfl trivial
  | function _, _ => known_of_declared rfl trivial
  | element _, known => known_of_declared rfl known.declared
  | wrapped _ _, known =>
    known_wrapped.mpr ⟨(known_wrapped.mp known).1, Known.relabel f (known_wrapped.mp known).2⟩
  | constructor _, known => known_of_declared rfl known.declared
  | tuple _, known => known_tuple.mpr (Known.relabelAll f (known_tuple.mp known))

theorem Known.relabelAll (f : φ → ψ) : ∀ {literals : List (Literal φ)},
    (∀ literal ∈ literals, literal.Known types) →
    ∀ literal ∈ Literal.relabelAll f literals, literal.Known types
  | [], _ => by simp [Literal.relabelAll]
  | literal :: literals, known => by
    rw [Literal.relabelAll, List.forall_mem_cons]
    rw [List.forall_mem_cons] at known
    exact ⟨Known.relabel f known.1, Known.relabelAll f known.2⟩

end

end Literal

namespace Reading

variable {φ : Type} {types : TypeTable} {text rest : List Char}

theorem known_of_reads_literalWithin {bound : Nat} {value : Literal String}
    (h : Reads (literalWithin types bound) text value rest) : value.Known types := by
  induction bound generalizing text value rest with
  | zero =>
    obtain ⟨_, _, _, failed⟩ := reads_bind.mp h
    exact absurd failed not_reads_unexpected
  | succ bound ih =>
    obtain ⟨_, _, _, skipped⟩ := reads_bind.mp h
    obtain ⟨next, _, _, peeked⟩ := reads_bind.mp skipped
    split at peeked
    · obtain ⟨content, _, _, done⟩ := reads_bind.mp peeked
      obtain ⟨rfl, _⟩ := reads_pure.mp done
      exact Literal.known_of_declared rfl trivial
    · obtain ⟨name, _, _, done⟩ := reads_bind.mp peeked
      obtain ⟨rfl, _⟩ := reads_pure.mp done
      exact Literal.known_of_declared rfl trivial
    · obtain ⟨elements, _, listed, done⟩ := reads_bind.mp peeked
      obtain ⟨rfl, _⟩ := reads_pure.mp done
      exact Literal.known_tuple.mpr (list_forall ih listed)
    · split at peeked
      · obtain ⟨value, _, read, done⟩ := reads_bind.mp peeked
        obtain ⟨rfl, _⟩ := reads_pure.mp done
        exact Literal.known_of_declared rfl (le_maxLong_of_reads_number read)
      · obtain ⟨word, _, _, named⟩ := reads_bind.mp peeked
        split at named
        · obtain ⟨rfl, _⟩ := reads_pure.mp named
          exact Literal.known_of_declared rfl trivial
        · obtain ⟨⟨which, element⟩, _, read, done⟩ := reads_bind.mp named
          obtain ⟨rfl, _⟩ := reads_pure.mp done
          refine Literal.known_of_declared rfl (Option.isSome_iff_exists.mpr ⟨element, ?_⟩)
          exact element?_of_reads_elementRef read
        · rename_i notUnit notConstructor
          obtain ⟨⟨which, element⟩, _, read, afterElement⟩ := reads_bind.mp named
          obtain ⟨found, enumName⟩ := element?_of_reads_elementOf read
          have writable : types.Writable which := by
            refine ⟨Option.isSome_iff_exists.mpr ⟨element, found⟩, fun enumeration member => ?_⟩
            have same : enumeration.name = word := by
              rw [Option.mem_def.mp member] at enumName
              exact Option.some.inj enumName
            exact ⟨fun unit => notUnit (same ▸ unit), fun wraps => notConstructor (same ▸ wraps)⟩
          obtain ⟨opened, _, _, last⟩ := reads_bind.mp afterElement
          cases opened with
          | true =>
            obtain ⟨state, _, inner, closed⟩ := reads_bind.mp last
            obtain ⟨_, _, _, done⟩ := reads_bind.mp closed
            obtain ⟨rfl, _⟩ := reads_pure.mp done
            exact Literal.known_wrapped.mpr ⟨writable, ih inner⟩
          | false =>
            obtain ⟨rfl, _⟩ := reads_pure.mp last
            exact Literal.known_of_declared rfl writable

theorem known_of_reads_literal {value : Literal String}
    (h : Reads (literal types) text value rest) : value.Known types :=
  known_of_reads_literalWithin (h : Reads (literalWithin types text.length) text value rest)

/-- What follows a literal: it ends a word, and opens no payload. -/
structure Stops (rest : List Char) : Prop where
  ends : Ends rest
  closed : ¬ ['('] <+: skipFrom false rest

theorem Closes.stops (h : Closes rest) : Stops rest := by
  refine ⟨h.ends, ?_⟩
  obtain ⟨tail, rfl | rfl⟩ := h <;> rw [skipFrom_solid (by decide)] <;> simp

theorem isDigit_eq_false_of_letter {c : Char} (letter : (c.isAlpha || c = '_') = true) :
    c.isDigit = false := by
  refine Bool.eq_false_iff.mpr fun digit => ?_
  have below : c.toNat ≤ 57 := (Char.isDigit_iff_toNat.mp digit).2
  simp only [Bool.or_eq_true, decide_eq_true_eq] at letter
  rcases letter with alpha | rfl
  · rcases toNat_of_isAlpha alpha with upper | lower <;> omega
  · exact absurd below (by decide)

section Dispatch

variable {α : Type} {value : α} {quoted function tuple : Reader α}

theorem reads_unmarked {c : Char} {other : Option Char → Reader α} (isWord : isWordChar c = true)
    (h : Reads (other (some c)) text value rest) :
    Reads (match some c with
      | some '"' => quoted
      | some '@' => function
      | some '(' => tuple
      | next => other next) text value rest := by
  split
  · rename_i same
    cases same
    exact absurd isWord (by decide)
  · rename_i same
    cases same
    exact absurd isWord (by decide)
  · rename_i same
    cases same
    exact absurd isWord (by decide)
  · exact h

theorem reads_by_word {name : String} {between : List Char} {numeric : Reader α}
    {other : String → Reader α} (identifies : IsIdentifier name) (ends : Ends between)
    (here : skipFrom false text = name.toList ++ between)
    (h : Reads (other name) between value rest) :
    Reads (do
      skip
      match ← peek? with
      | some '"' => quoted
      | some '@' => function
      | some '(' => tuple
      | next => do
        if next.any Char.isDigit then numeric
        else
          let word ← identifier
          other word) text value rest := by
  have word := reads_identifier identifies ends ((begins_of_isWord identifies.1).skip between)
  obtain ⟨c, tail, letters, isWord⟩ := identifies.1.exists_cons
  have first : (c.isAlpha || c = '_') = true := identifies.2 c (by rw [letters]; rfl)
  rw [letters] at word here
  refine reads_peeking here (reads_unmarked isWord ?_)
  rw [Option.any_some, isDigit_eq_false_of_letter first]
  exact reads_bind.mpr ⟨name, between, word, h⟩

end Dispatch

theorem renderAll_literals (naming : Naming φ) (literals : List (Literal φ)) :
    Literal.renderAll naming literals = literals.map (·.render naming) := by
  induction literals with
  | nil => rfl
  | cons literal literals ih => rw [Literal.renderAll, ih, List.map_cons]

theorem relabelAll_eq_map {ψ : Type} (f : φ → ψ) (literals : List (Literal φ)) :
    Literal.relabelAll f literals = literals.map (·.relabel f) := by
  induction literals with
  | nil => rfl
  | cons literal literals ih => rw [Literal.relabelAll, ih, List.map_cons]

theorem mem_functionsAll {label : φ} {literals : List (Literal φ)} :
    label ∈ Literal.functionsAll literals ↔ ∃ literal ∈ literals, label ∈ literal.functions := by
  induction literals with
  | nil => simp [Literal.functionsAll]
  | cons literal literals ih => simp [Literal.functionsAll, ih]

section Written

variable {naming : Naming φ} (named : naming.types.WellNamed)
include named

theorem begins_render_literal {value : Literal φ} (known : value.Known naming.types) :
    Begins (value.render naming).toList := by
  cases value with
  | unit => exact begins_of_isWord (by decide : IsWord "unit")
  | integer value => exact begins_of_isWord (isWord_toString value)
  | string content =>
    rw [Literal.render, Text.toList_quoted]
    exact ⟨'"', _, rfl, by decide, by decide, by decide⟩
  | function label =>
    rw [Literal.render, String.toList_append]
    exact ⟨'@', _, rfl, by decide, by decide, by decide⟩
  | element which =>
    obtain ⟨element, found⟩ := Option.isSome_iff_exists.mp known.declared.1
    exact begins_render_element named found
  | wrapped which state =>
    obtain ⟨element, found⟩ := Option.isSome_iff_exists.mp known.declared.1
    simp only [Literal.render, String.toList_append, List.append_assoc]
    exact (begins_render_element named found).append _
  | constructor which =>
    rw [Literal.render, String.toList_append]
    exact ⟨'c', _, rfl, by decide, by decide, by decide⟩
  | tuple elements => exact begins_parenthesized _

theorem reads_enumLiteral {bound : Nat} {which : ElementRef} {between : List Char}
    {value : Literal String} (writable : naming.types.Writable which) (ends : Ends between)
    (here : skipFrom false text = (which.render naming.types).toList ++ between)
    (h : Reads (do
      if ← accept "(" then
        let state ← literalWithin naming.types bound
        expect ")"
        pure (.wrapped which state)
      else pure (.element which)) between value rest) :
    Reads (literalWithin naming.types (bound + 1)) text value rest := by
  obtain ⟨element, found⟩ := Option.isSome_iff_exists.mp writable.1
  obtain ⟨enumeration, declared, member⟩ := Option.bind_eq_some_iff.mp found
  obtain ⟨notUnit, notConstructor⟩ := writable.2 enumeration declared
  rw [toList_render_element declared member, List.append_assoc] at here
  refine reads_by_word (named.enums _ (List.mem_of_getElem? declared)) (ends_cons (by decide) _)
    here ?_
  split
  · contradiction
  · contradiction
  · exact reads_bind.mpr ⟨(which, element), between,
      reads_elementOf named declared member ends (skipFrom_solid (by decide) _), h⟩

/-- A written literal is read back, with its functions by name. After an element, the blanks before
a payload have been looked at. -/
theorem reads_literalWithin {bound : Nat} {value : Literal φ} (known : value.Known naming.types)
    (labels : ∀ label ∈ value.functions, IsWord (naming.function label))
    (enough : (value.render naming).toList.length ≤ bound) (stops : Stops rest)
    (here : skipFrom false text = (value.render naming).toList ++ rest) :
    ∃ left, (left = rest ∨ left = skipFrom false rest) ∧
      Reads (literalWithin naming.types bound) text (value.relabel naming.function) left := by
  induction bound generalizing text value rest with
  | zero =>
    obtain ⟨c, tail, shape, _⟩ := begins_render_literal named known
    rw [shape] at enough
    exact absurd enough (Nat.not_succ_le_zero _)
  | succ bound ih =>
    cases value with
    | unit =>
      exact ⟨rest, .inl rfl, reads_by_word (by decide : IsIdentifier "unit") stops.ends here
        (reads_pure.mpr ⟨rfl, rfl⟩)⟩
    | integer value =>
      obtain ⟨c, tail, shape, _⟩ := begins_of_isWord (isWord_toString value)
      have digit : c.isDigit = true := isDigit_of_mem_toString (by rw [shape]; simp)
      have read := reads_number known.declared stops.ends
        ((begins_of_isWord (isWord_toString value)).skip rest)
      rw [Literal.render] at here
      rw [shape] at here read
      refine ⟨rest, .inl rfl, ?_⟩
      refine reads_peeking here (reads_unmarked (isWordChar_of_isDigit digit) ?_)
      rw [Option.any_some, digit]
      exact reads_bind.mpr ⟨value, rest, read, reads_pure.mpr ⟨rfl, rfl⟩⟩
    | string content =>
      rw [Literal.render, Text.toList_quoted] at here
      refine ⟨rest, .inl rfl, reads_peeking (c := '"') here ?_⟩
      refine reads_bind.mpr ⟨content, rest, reads_quoted ?_, reads_pure.mpr ⟨rfl, rfl⟩⟩
      rw [Text.toList_quoted]
      exact skipFrom_solid (by decide) _
    | function label =>
      rw [Literal.render, String.toList_append, List.append_assoc] at here
      refine ⟨rest, .inl rfl, reads_peeking (c := '@') here ?_⟩
      refine reads_bind.mpr ⟨naming.function label, rest, ?_, reads_pure.mpr ⟨rfl, rfl⟩⟩
      exact reads_signed (labels label List.mem_cons_self) stops.ends
        (skipFrom_solid (by decide) _)
    | element which =>
      refine ⟨skipFrom false rest, .inr rfl, ?_⟩
      refine reads_enumLiteral named known.declared stops.ends here ?_
      exact reads_bind.mpr ⟨false, _, reads_accept_false.mpr ⟨stops.closed, rfl⟩,
        reads_pure.mpr ⟨rfl, rfl⟩⟩
    | wrapped which state =>
      obtain ⟨writable, knownState⟩ := Literal.known_wrapped.mp known
      simp only [Literal.render, String.toList_append, List.append_assoc] at here
      simp only [Literal.render, String.toList_append, List.length_append] at enough
      have opening : "(".toList.length = 1 := rfl
      have closes : Closes (")".toList ++ rest) := ⟨rest, .inr rfl⟩
      obtain ⟨left, same, read⟩ := ih knownState labels (by omega) closes.stops
        ((begins_render_literal named knownState).skip _)
      rw [closes.skip, or_self] at same
      subst same
      refine ⟨rest, .inl rfl, reads_enumLiteral named writable (ends_cons (by decide) _) here ?_⟩
      refine reads_bind.mpr ⟨true, _, reads_accept_true.mpr (skipFrom_solid (by decide) _), ?_⟩
      refine reads_bind.mpr ⟨_, _, read, ?_⟩
      exact reads_bind.mpr ⟨(), rest, reads_expect.mpr closes.skip, reads_pure.mpr ⟨rfl, rfl⟩⟩
    | constructor which =>
      obtain ⟨element, found⟩ := Option.isSome_iff_exists.mp known.declared
      rw [Literal.render, String.toList_append, List.append_assoc] at here
      refine ⟨rest, .inl rfl, reads_by_word (by decide : IsIdentifier "constructor")
        (ends_cons (by decide) _) here ?_⟩
      refine reads_bind.mpr ⟨(which, element), rest, reads_elementRef named found stops.ends ?_,
        reads_pure.mpr ⟨rfl, rfl⟩⟩
      exact (begins_render_element named found).skip rest
    | tuple elements =>
      rw [Literal.render, renderAll_literals] at here enough
      have opened := here
      rw [toList_parenthesized] at opened
      have members := Literal.known_tuple.mp known
      refine ⟨rest, .inl rfl, reads_peeking (c := '(') opened ?_⟩
      refine reads_bind.mpr ⟨_, rest, ?_, reads_pure.mpr ⟨by rw [Literal.relabel], rfl⟩⟩
      rw [relabelAll_eq_map]
      refine reads_list (fun item member => begins_render_literal named (members item member))
        (fun item member text rest closes shown => ?_) ?_
      · have listed : item.render naming ∈ elements.map (·.render naming) :=
          List.mem_map_of_mem member
        have shorter := length_lt_parenthesized listed
        obtain ⟨left, same, read⟩ := ih (members item member)
          (fun label inside => labels label (mem_functionsAll.mpr ⟨item, member, inside⟩))
          (Nat.le_of_lt_succ (Nat.lt_of_lt_of_le shorter enough)) closes.stops shown
        rw [closes.skip, or_self] at same
        subst same
        exact read
      · rw [toList_parenthesized]
        exact skipFrom_solid (by decide) _

theorem reads_literal {value : Literal φ} (known : value.Known naming.types)
    (labels : ∀ label ∈ value.functions, IsWord (naming.function label)) (stops : Stops rest)
    (here : skipFrom false text = (value.render naming).toList ++ rest) :
    ∃ left, (left = rest ∨ left = skipFrom false rest) ∧
      Reads (literal naming.types) text (value.relabel naming.function) left := by
  have shorter := length_skipFrom_le false text
  rw [here, List.length_append] at shorter
  have within : (value.render naming).toList.length ≤ text.length := by omega
  exact reads_literalWithin named known labels within stops here

end Written

end Reading

end RegisterIR
