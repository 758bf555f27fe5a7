/-! Faults: uses of an operation outside its domain. Passes over unverified programs report
one of these instead of a result, and nothing they computed is kept. -/

namespace RegisterIR

inductive Fault
  | outOfRange
  | emptyIntegerRange (minimum maximum : Nat)
  | emptySafeRange (first last : Nat)
  | beyondSafe (value : Nat)
  | unknownEnum (id count : Nat)
  | recursiveEnum (id : Nat)
  /-- A register that is read, but is not among those that are kept. -/
  | notLive (register : Nat)
  /-- A function that a kept one refers to, but that is not kept itself. -/
  | notReached (function : Nat)
deriving DecidableEq, Repr

namespace Fault

/-- The wording of a fault. A plain look-up that fails has none. -/
def message : Fault → Option String
  | outOfRange => none
  | notLive _ => none
  | emptyIntegerRange minimum maximum => some s!"empty integer range {minimum}..{maximum}"
  | emptySafeRange first last => some s!"empty safe integer range {first}..{last}"
  | beyondSafe value => some s!"{value} is beyond the largest safe integer"
  | unknownEnum id count => some s!"enum {id} is not part of the program ({count} enums)"
  | notReached function => some <|
    s!"internal error: entered unreachable code: function {function} is referenced " ++
      "from a reachable function"
  | recursiveEnum id => some s!"enum {id} contains itself through its payload types"

end Fault

theorem bind_eq_ok_iff {ε α β : Type} {x : Except ε α} {f : α → Except ε β} {b : β} :
    (x >>= f) = .ok b ↔ ∃ a, x = .ok a ∧ f a = .ok b := by
  cases x <;> simp [bind, Except.bind]

theorem bind_eq_error_iff {ε α β : Type} {x : Except ε α} {f : α → Except ε β} {fault : ε} :
    (x >>= f) = .error fault ↔ x = .error fault ∨ ∃ a, x = .ok a ∧ f a = .error fault := by
  cases x <;> simp [bind, Except.bind]

theorem seq_eq_ok_iff {ε β : Type} {x : Except ε Unit} {f : Unit → Except ε β} {b : β} :
    (x >>= f) = .ok b ↔ x = .ok () ∧ f () = .ok b := by
  cases x <;> simp [bind, Except.bind]

def entry {α : Type} (table : List α) (index : Nat) : Except Fault α :=
  match table[index]? with
  | some found => .ok found
  | none => .error .outOfRange

theorem entry_eq_ok_iff {α : Type} {table : List α} {index : Nat} {found : α} :
    entry table index = .ok found ↔ table[index]? = some found := by
  unfold entry
  split <;> simp_all

theorem entry_eq_error_iff {α : Type} {table : List α} {index : Nat} {fault : Fault} :
    entry table index = .error fault ↔ table.length ≤ index ∧ fault = .outOfRange := by
  unfold entry
  split
  · rename_i found h
    have := (List.getElem?_eq_some_iff.mp h).1
    simp only [reduceCtorEq, false_iff, not_and]
    omega
  · rename_i h
    simp only [Except.error.injEq]
    exact ⟨fun e => ⟨List.getElem?_eq_none_iff.mp h, e.symm⟩, fun e => e.2.symm⟩

end RegisterIR
