import Mathlib.Order.Bounds.Basic
import RegisterIR.Proofs.EncodingDisjointness

/-! The order of value sets by their members. It is a preorder: the empty range has many forms, and
`==` holds between sets that lie below each other. The union is the least set that contains both,
and a merge succeeds exactly where no kind is shared and an integer lies between the ranges. -/

namespace RegisterIR

open Script (Value)

namespace SafeRange

variable {range other bound : SafeRange}

theorem size_le_afterLast (range : SafeRange) : range.size ≤ range.afterLast := Nat.sub_le _ _

/-- Sizes of ranges are added in 64 bits without overflow. -/
theorem toNat_size_add_size (range other : SafeRange) :
    (UInt64.ofNat range.size + UInt64.ofNat other.size).toNat = range.size + other.size := by
  have bound := range.size_le_afterLast.trans range.safe
  have bound' := other.size_le_afterLast.trans other.safe
  unfold maxSafeInteger at bound bound'
  rw [UInt64.toNat_add, UInt64.toNat_ofNat', UInt64.toNat_ofNat']
  omega

theorem isEmpty_iff : range.isEmpty = true ↔ range.afterLast ≤ range.first :=
  decide_eq_true_iff

theorem not_mem_of_isEmpty (nothing : range.isEmpty = true) (n : Nat) : n ∉ range := by
  rw [isEmpty_iff] at nothing
  rw [mem_def]
  omega

theorem bounds_mem (filled : ¬ range.isEmpty = true) :
    range.first ∈ range ∧ range.afterLast - 1 ∈ range := by
  rw [isEmpty_iff] at filled
  rw [mem_def, mem_def]
  omega

instance : LE SafeRange where
  le range other := ∀ n, n ∈ range → n ∈ other

instance : Preorder SafeRange where
  le_refl _ _ inside := inside
  le_trans _ _ _ first second n inside := second n (first n inside)

theorem le_iff : range ≤ other ↔ range.isEmpty = true ∨
    other.first ≤ range.first ∧ range.afterLast ≤ other.afterLast := by
  constructor
  · intro sub
    by_cases filled : range.isEmpty = true
    · exact .inl filled
    · obtain ⟨head, tail⟩ := bounds_mem filled
      have head' := sub _ head
      have tail' := sub _ tail
      rw [isEmpty_iff] at filled
      rw [mem_def] at head' tail'
      exact .inr ⟨head'.1, by omega⟩
  · rintro (nothing | ⟨head, tail⟩) n inside
    · exact absurd inside (not_mem_of_isEmpty nothing n)
    · exact ⟨head.trans inside.1, inside.2.trans_le tail⟩

/-- Equal ranges are those with the same members, whatever their bounds. -/
theorem beq_iff_le_and_le : (range == other) = true ↔ range ≤ other ∧ other ≤ range := by
  have unfolded : (range == other) =
      if range.isEmpty || other.isEmpty then range.isEmpty && other.isEmpty
      else range.first == other.first && range.afterLast == other.afterLast := rfl
  rw [unfolded, le_iff, le_iff]
  have here := @isEmpty_iff range
  have there := @isEmpty_iff other
  cases nothing : range.isEmpty <;> cases nothing' : other.isEmpty <;>
    simp only [nothing, nothing', Bool.false_eq_true, Bool.or_false, Bool.or_true, Bool.and_false,
      Bool.and_true, if_true, if_false, true_or, false_or, true_and, and_true, true_iff, false_iff,
      Bool.and_eq_true, beq_iff_eq] at here there ⊢ <;>
    omega

theorem union_le_iff : range.union other ≤ bound ↔ range ≤ bound ∧ other ≤ bound := by
  constructor
  · intro sub
    exact ⟨fun n inside => sub n (mem_union_left inside),
      fun n inside => sub n (mem_union_right inside)⟩
  · rintro ⟨left, right⟩
    rw [union]
    split
    · exact right
    split
    · exact left
    · rename_i filled filled'
      rw [le_iff, or_iff_right filled] at left
      rw [le_iff, or_iff_right filled'] at right
      refine le_iff.mpr (.inr ?_)
      simp only [covering]
      omega

theorem isLUB_union (range other : SafeRange) : IsLUB {range, other} (range.union other) := by
  simp [isLUB_iff_le_iff, union_le_iff, upperBounds]

/-- One of the ranges ends before an integer and the other begins after it. -/
def Gap (range other : SafeRange) : Prop :=
  ∃ gap, ((∀ n, n ∈ range → n < gap) ∧ ∀ n, n ∈ other → gap < n) ∨
    ((∀ n, n ∈ other → n < gap) ∧ ∀ n, n ∈ range → gap < n)

theorem gap_comm : range.Gap other ↔ other.Gap range :=
  exists_congr fun _ => or_comm

/-- The comparison of sizes finds exactly the gaps. -/
theorem isApart_iff :
    range.isApart other = true ↔ range.isEmpty = true ∨ other.isEmpty = true ∨ range.Gap other := by
  rw [isApart]
  split
  · rename_i nothing
    rw [← or_assoc, ← Bool.or_eq_true]
    simp [nothing]
  rename_i filled
  obtain ⟨filled, filled'⟩ := not_or.mp (mt Bool.or_eq_true_iff.mpr filled)
  obtain ⟨head, tail⟩ := bounds_mem filled
  obtain ⟨head', tail'⟩ := bounds_mem filled'
  rw [or_iff_right filled, or_iff_right filled', decide_eq_true_iff]
  rw [isEmpty_iff] at filled filled'
  simp only [size, covering]
  constructor
  · -- The range over both has room for one more integer, after the range that ends first.
    intro room
    rcases Nat.lt_or_ge range.afterLast other.first with before | after
    · exact ⟨range.afterLast, .inl ⟨fun n inside => inside.2, fun n inside =>
        before.trans_le inside.1⟩⟩
    · refine ⟨other.afterLast, .inr ⟨fun n inside => inside.2, fun n inside => ?_⟩⟩
      have := inside.1
      omega
  · rintro ⟨gap, ⟨below, above⟩ | ⟨below, above⟩⟩
    · have := below _ tail
      have := above _ head'
      omega
    · have := below _ tail'
      have := above _ head
      omega

theorem isApart_comm (range other : SafeRange) : range.isApart other = other.isApart range := by
  rw [Bool.eq_iff_iff, isApart_iff, isApart_iff, gap_comm, or_left_comm]

theorem merge_eq (range other : SafeRange) :
    range.merge other =
      if range.isApart other then (true, range.union other) else (false, range) := by
  cases apart : range.isApart other <;> simp [merge, apart]

end SafeRange

namespace ValueSet

variable {a b c : ValueSet}

theorem number_mem_iff {n : Nat} : Value.number n ∈ a ↔ n ∈ a.integers := by
  simp [mem_def, Value.natural?, Value.kind?]

theorem specimen_mem_iff {kind : Kind} : kind.specimen ∈ a ↔ a.has kind = true := by
  constructor
  · rintro (⟨n, natural, _⟩ | ⟨other, described, has⟩)
    · cases kind <;> cases natural
    · rw [kind.kind?_specimen, Option.mem_some] at described
      rw [described]
      exact has
  · exact mem_of_has

instance : LE ValueSet where
  le a b := ∀ value : Value, value ∈ a → value ∈ b

instance : Preorder ValueSet where
  le_refl _ _ inside := inside
  le_trans _ _ _ first second value inside := second value (first value inside)

theorem le_iff :
    a ≤ b ↔ a.integers ≤ b.integers ∧ ∀ kind, a.has kind = true → b.has kind = true := by
  constructor
  · intro sub
    constructor
    · intro n inside
      exact number_mem_iff.mp (sub _ (number_mem_iff.mpr inside))
    · intro kind has
      exact specimen_mem_iff.mp (sub _ (specimen_mem_iff.mpr has))
  · rintro ⟨integers, kinds⟩ value (⟨n, natural, inside⟩ | ⟨kind, described, has⟩)
    · exact .inl ⟨n, natural, integers n inside⟩
    · exact .inr ⟨kind, described, kinds kind has⟩

theorem beq_iff_le_and_le : (a == b) = true ↔ a ≤ b ∧ b ≤ a := by
  have unfolded : (a == b) =
      (a.integers == b.integers && Kind.all.all fun kind => a.has kind == b.has kind) := rfl
  have kinds_iff : (Kind.all.all fun kind => a.has kind == b.has kind) = true ↔
      ∀ kind, (a.has kind = true → b.has kind = true) ∧
        (b.has kind = true → a.has kind = true) := by
    simp only [List.all_eq_true, Kind.mem_all, true_implies, beq_iff_eq]
    exact forall_congr' fun kind => Bool.eq_iff_iff.trans iff_iff_implies_and_implies
  rw [unfolded, Bool.and_eq_true_iff, SafeRange.beq_iff_le_and_le, kinds_iff, le_iff, le_iff,
    forall_and]
  exact and_and_and_comm

theorem beq_of_le_iff (same : ∀ bound, a ≤ bound ↔ b ≤ bound) : (a == b) = true :=
  beq_iff_le_and_le.mpr ⟨(same b).mpr (le_refl b), (same a).mp (le_refl a)⟩

theorem union_le_iff : a.union b ≤ c ↔ a ≤ c ∧ b ≤ c := by
  have kinds_iff : (∀ kind, (a.union b).has kind = true → c.has kind = true) ↔
      ∀ kind, (a.has kind = true → c.has kind = true) ∧
        (b.has kind = true → c.has kind = true) := by
    simp only [union, Bool.or_eq_true, or_imp]
  rw [le_iff, le_iff, le_iff, kinds_iff, forall_and]
  exact (and_congr_left fun _ => SafeRange.union_le_iff).trans and_and_and_comm

theorem isLUB_union (a b : ValueSet) : IsLUB {a, b} (a.union b) := by
  simp [isLUB_iff_le_iff, union_le_iff, upperBounds]

theorem empty_le (a : ValueSet) : empty ≤ a :=
  le_iff.mpr ⟨fun n inside => absurd inside (SafeRange.not_mem_empty n), by simp [empty]⟩

theorem merge_fst_comm (a b : ValueSet) : (b.merge a).1 = (a.merge b).1 := by
  rw [Bool.eq_iff_iff, merge_fst_iff, merge_fst_iff, SafeRange.isApart_comm]
  simp only [and_comm]

end ValueSet

/-- A merge is exact and leaves a set alone that it cannot extend. No bound exceeds the safe
integers and no sum of sizes overflows; the merge succeeds exactly where no kind is shared and,
unless a range is empty, an integer lies strictly between the two; the set then becomes the least
one over both and otherwise stays what it was; and the other way round the verdict is the same, with
an equal set on success. Ranges are merged in the same way. -/
theorem ValueSet.merge_exact (a b : ValueSet) (range other : SafeRange) :
    (a.integers.afterLast ≤ maxSafeInteger + 1 ∧ b.integers.afterLast ≤ maxSafeInteger + 1 ∧
      (UInt64.ofNat a.integers.size + UInt64.ofNat b.integers.size).toNat =
        a.integers.size + b.integers.size) ∧
    ((a.merge b).1 = true ↔ (∀ kind, ¬ (a.has kind = true ∧ b.has kind = true)) ∧
      (a.integers.isEmpty = true ∨ b.integers.isEmpty = true ∨ a.integers.Gap b.integers)) ∧
    (if (a.merge b).1 then IsLUB {a, b} (a.merge b).2 else (a.merge b).2 = a) ∧
    (b.merge a).1 = (a.merge b).1 ∧
    (if (a.merge b).1 then ((b.merge a).2 == (a.merge b).2) = true else (b.merge a).2 = b) ∧
    ((range.merge other).1 = true ↔
      range.isEmpty = true ∨ other.isEmpty = true ∨ range.Gap other) ∧
    (if (range.merge other).1 then IsLUB {range, other} (range.merge other).2
      else (range.merge other).2 = range) := by
  refine ⟨⟨a.integers.safe, b.integers.safe, a.integers.toNat_size_add_size _⟩, ?_, ?_,
    merge_fst_comm a b, ?_, ?_, ?_⟩
  · rw [merge_fst_iff, SafeRange.isApart_iff]
  · rw [merge_snd]
    split
    · exact isLUB_union a b
    · rfl
  · rw [merge_snd, merge_snd, merge_fst_comm]
    split
    · exact beq_of_le_iff fun bound => by rw [union_le_iff, union_le_iff, and_comm]
    · rfl
  · rw [SafeRange.merge_eq, ← SafeRange.isApart_iff]
    cases range.isApart other <;> simp
  · rw [SafeRange.merge_eq]
    cases range.isApart other with
    | true => exact SafeRange.isLUB_union range other
    | false => rfl

namespace Strategy

variable {strategy : Strategy} {start set : ValueSet}

theorem foldlM_addValues_le_iff (h : strategy.foldlM addValues start = .ok set)
    (bound : ValueSet) : set ≤ bound ↔ start ≤ bound ∧
      ∀ encoding ∈ strategy, ∀ own, encoding.valueSet = .ok own → own ≤ bound := by
  induction strategy generalizing start with
  | nil =>
    obtain rfl := Except.ok.inj h
    simp
  | cons encoding rest ih =>
    obtain ⟨own, single, later⟩ := foldlM_addValues_cons h
    rw [ih later, ValueSet.union_le_iff, List.forall_mem_cons, and_assoc]
    simp [single]

theorem valueSet_le_iff (h : strategy.valueSet = .ok set) (bound : ValueSet) :
    set ≤ bound ↔ ∀ encoding ∈ strategy, ∀ own, encoding.valueSet = .ok own → own ≤ bound := by
  rw [foldlM_addValues_le_iff h, and_iff_right (ValueSet.empty_le bound)]

theorem forall_valueSet_eq_ok (h : strategy.foldlM addValues start = .ok set) :
    ∀ encoding ∈ strategy, ∃ own, encoding.valueSet = .ok own := by
  induction strategy generalizing start with
  | nil => simp
  | cons encoding rest ih =>
    obtain ⟨own, single, later⟩ := foldlM_addValues_cons h
    exact List.forall_mem_cons.mpr ⟨⟨own, single⟩, ih later⟩

end Strategy

/-- The union of value sets is their join. Sets and ranges are equal when they have the same
members, and empty ranges whatever their bounds; up to this equality the union is commutative,
associative and idempotent and has the empty set as identity, and it is the least set over both. So
the values of an enum do not depend on the order of its elements, and contain those of each
element. -/
theorem ValueSet.union_joins (a b c : ValueSet) (range other : SafeRange)
    (strategy shuffled : Strategy) (same : strategy.Perm shuffled) :
    ((a == b) = true ↔ ∀ value : Value, value ∈ a ↔ value ∈ b) ∧
    ((range == other) = true ↔ ∀ n, n ∈ range ↔ n ∈ other) ∧
    (range.afterLast ≤ range.first → other.afterLast ≤ other.first → (range == other) = true) ∧
    (a.union b == b.union a) = true ∧
    ((a.union b).union c == a.union (b.union c)) = true ∧
    (a.union a == a) = true ∧ (a.union .empty == a) = true ∧
    (ValueSet.empty.union a == a) = true ∧ IsLUB {a, b} (a.union b) ∧
    (∀ set, strategy.valueSet = .ok set →
      ∃ set', shuffled.valueSet = .ok set' ∧ (set == set') = true) ∧
    ∀ set, strategy.valueSet = .ok set → ∀ encoding ∈ strategy,
      ∃ own, encoding.valueSet = .ok own ∧ own ≤ set := by
  refine ⟨?_, ?_, ?_, ?_, ?_, ?_, ?_, ?_, isLUB_union a b, ?_, ?_⟩
  · rw [beq_iff_le_and_le]
    exact ⟨fun h value => ⟨h.1 value, h.2 value⟩,
      fun h => ⟨fun value => (h value).mp, fun value => (h value).mpr⟩⟩
  · rw [SafeRange.beq_iff_le_and_le]
    exact ⟨fun h n => ⟨h.1 n, h.2 n⟩, fun h => ⟨fun n => (h n).mp, fun n => (h n).mpr⟩⟩
  · intro nothing nothing'
    rw [SafeRange.beq_iff_le_and_le, SafeRange.le_iff, SafeRange.le_iff, SafeRange.isEmpty_iff,
      SafeRange.isEmpty_iff]
    exact ⟨.inl nothing, .inl nothing'⟩
  · exact beq_of_le_iff fun bound => by rw [union_le_iff, union_le_iff, and_comm]
  · exact beq_of_le_iff fun bound => by simp only [union_le_iff, and_assoc]
  · exact beq_of_le_iff fun bound => by rw [union_le_iff, and_self_iff]
  · exact beq_of_le_iff fun bound => by rw [union_le_iff, and_iff_left (empty_le bound)]
  · exact beq_of_le_iff fun bound => by rw [union_le_iff, and_iff_right (empty_le bound)]
  · intro set listed
    have each : ∀ encoding ∈ shuffled, ∃ own, encoding.valueSet = .ok own := fun encoding member =>
      Strategy.forall_valueSet_eq_ok listed encoding (same.mem_iff.mpr member)
    obtain ⟨set', listed'⟩ := Strategy.exists_valueSet each .empty
    refine ⟨set', listed', beq_of_le_iff fun bound => ?_⟩
    rw [Strategy.valueSet_le_iff listed, Strategy.valueSet_le_iff listed']
    simp only [same.mem_iff]
  · intro set listed encoding member
    obtain ⟨own, single⟩ := Strategy.forall_valueSet_eq_ok listed encoding member
    exact ⟨own, single, (Strategy.valueSet_le_iff listed set).mp (le_refl set) encoding member own
      single⟩

example : ((⟨7, 7, by decide⟩ : SafeRange) == .empty) = true := by decide

def textOrMark : Strategy := [.direct (.ofKind .string), .stateless .null]

theorem ValueSet.union_joins_textOrMark :
    textOrMark.Perm textOrMark.reverse ∧
    ∃ set, textOrMark.valueSet = .ok set ∧
      (∃ set', Strategy.valueSet textOrMark.reverse = .ok set' ∧ (set == set') = true) ∧
      ∀ encoding ∈ textOrMark, ∃ own, encoding.valueSet = .ok own ∧ own ≤ set := by
  have same : textOrMark.Perm textOrMark.reverse := (List.reverse_perm _).symm
  have joins := ValueSet.union_joins .booleans .anything .empty .full .empty textOrMark
    textOrMark.reverse same
  obtain ⟨_, _, _, _, _, _, _, _, _, order, parts⟩ := joins
  exact ⟨same, _, rfl, order _ rfl, parts _ rfl⟩

end RegisterIR
