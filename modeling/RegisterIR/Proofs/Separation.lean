import RegisterIR.Encoding.Strategy
import RegisterIR.Proofs.ScriptEvaluation
import Mathlib.Data.List.Forall2

/-! No value is accepted by two elements of a strategy. Where payloads stand for themselves, every
new set and every new constant is apart from all values used before it. -/

namespace RegisterIR

open Script (Value)

namespace SafeRange

variable {range other : SafeRange} {n : Nat}

theorem isEmpty_eq_false_of_mem (h : n ∈ range) : range.isEmpty = false := by
  rw [mem_def] at h
  rw [isEmpty, decide_eq_false_iff_not]
  omega

theorem mem_covering_left (h : n ∈ range) : n ∈ range.covering other := by
  rw [mem_def] at h ⊢
  simp only [covering]
  omega

theorem mem_covering_right (h : n ∈ other) : n ∈ range.covering other := by
  rw [mem_def] at h ⊢
  simp only [covering]
  omega

theorem mem_union_left (h : n ∈ range) : n ∈ range.union other := by
  rw [union, isEmpty_eq_false_of_mem h, if_neg Bool.false_ne_true]
  split
  · exact h
  · exact mem_covering_left h

theorem mem_union_right (h : n ∈ other) : n ∈ range.union other := by
  rw [union, isEmpty_eq_false_of_mem h, if_neg Bool.false_ne_true]
  split
  · exact h
  · exact mem_covering_right h

theorem not_mem_of_isApart (apart : range.isApart other = true) (h : n ∈ range) : n ∉ other := by
  intro h'
  rw [isApart, isEmpty_eq_false_of_mem h, isEmpty_eq_false_of_mem h', Bool.or_self,
    if_neg Bool.false_ne_true] at apart
  have room := of_decide_eq_true apart
  rw [mem_def] at h h'
  simp only [covering, size] at room
  omega

end SafeRange

namespace ValueSet

variable {used used' set : ValueSet} {value : Value}

theorem mem_union (h : value ∈ used ∨ value ∈ set) : value ∈ used.union set := by
  rcases h with (⟨n, natural, inside⟩ | ⟨kind, described, has⟩) |
    (⟨n, natural, inside⟩ | ⟨kind, described, has⟩)
  · exact .inl ⟨n, natural, SafeRange.mem_union_left inside⟩
  · exact .inr ⟨kind, described, by simp [union, has]⟩
  · exact .inl ⟨n, natural, SafeRange.mem_union_right inside⟩
  · exact .inr ⟨kind, described, by simp [union, has]⟩

theorem merge_fst_iff : (used.merge set).1 = true ↔
    (∀ kind, ¬ (used.has kind = true ∧ set.has kind = true)) ∧
      used.integers.isApart set.integers = true := by
  have kinds_iff : (Kind.all.any fun kind => used.has kind && set.has kind) = false ↔
      ∀ kind, ¬ (used.has kind = true ∧ set.has kind = true) := by
    simp [List.any_eq_false, Kind.mem_all]
  rw [← kinds_iff]
  cases collide : Kind.all.any fun kind => used.has kind && set.has kind <;>
    cases apart : used.integers.isApart set.integers <;>
    simp [merge, collide, apart]

theorem merge_snd : (used.merge set).2 = if (used.merge set).1 then used.union set else used := by
  cases collide : Kind.all.any fun kind => used.has kind && set.has kind <;>
    cases apart : used.integers.isApart set.integers <;>
    simp [merge, collide, apart, union]

theorem eq_union_of_merge_true (h : used.merge set = (true, used')) : used' = used.union set := by
  have left : (used.merge set).2 = used.union set := by rw [merge_snd, h, if_pos rfl]
  rw [← left, h]

theorem eq_of_merge_false (h : used.merge set = (false, used')) : used' = used := by
  have left : (used.merge set).2 = used := by rw [merge_snd, h, if_neg Bool.false_ne_true]
  rw [← left, h]

theorem merge_spec (h : used.merge set = (true, used')) :
    (∀ value : Value, value ∈ used → value ∉ set) ∧
      ∀ value : Value, value ∈ used ∨ value ∈ set → value ∈ used' := by
  obtain ⟨kinds, integers⟩ := merge_fst_iff.mp (congrArg Prod.fst h)
  obtain rfl := eq_union_of_merge_true h
  refine ⟨?_, fun value => mem_union⟩
  rintro value member (⟨n, natural, inside⟩ | ⟨kind, described, has⟩)
  · rcases member with ⟨m, natural', inside'⟩ | ⟨kind, described, _⟩
    · obtain rfl := Option.mem_unique natural natural'
      exact SafeRange.not_mem_of_isApart integers inside' inside
    · rw [Value.natural?_eq_some_iff.mp natural] at described
      simp [Value.kind?] at described
  · rcases member with ⟨n, natural, _⟩ | ⟨kind', described', has'⟩
    · rw [Value.natural?_eq_some_iff.mp natural] at described
      simp [Value.kind?] at described
    · obtain rfl := Option.mem_unique described described'
      exact kinds kind ⟨has', has⟩

end ValueSet

theorem Tag.mem_valueSet {tag : Tag} {set : ValueSet} (h : tag.valueSet = .ok set) (value : Value) :
    value ∈ set ↔ value = tag.value := by
  cases tag with
  | integer n =>
    obtain ⟨range, bounds, rfl⟩ : ∃ range, SafeRange.ofBounds n n = .ok range ∧
        ValueSet.ofRange range = set := by
      cases bounds : SafeRange.ofBounds n n <;> simp_all [valueSet, Functor.map, Except.map]
    rw [SafeRange.ofBounds, if_pos (Nat.le_refl n)] at bounds
    split at bounds
    · cases bounds
      simp [ValueSet.mem_def, ValueSet.ofRange, SafeRange.mem_def, Value.natural?_eq_some_iff,
        Tag.value, Nat.lt_succ_iff, ← Nat.le_antisymm_iff]
    · simp at bounds
  | boolean b =>
    obtain rfl := Except.ok.inj h
    rcases value with _ | _ | (_ | _) | _ | _ | _ | _ | _ | _ <;> cases b <;>
      simp [ValueSet.mem_def, ValueSet.ofBool, ValueSet.ofKind, Kind.ofBool, Value.kind?,
        Value.natural?_eq_some_iff, SafeRange.not_mem_empty, Tag.value]
  | undefined =>
    obtain rfl := Except.ok.inj h
    rcases value with _ | _ | (_ | _) | _ | _ | _ | _ | _ | _ <;>
      simp [ValueSet.mem_def, ValueSet.ofKind, Value.kind?, Tag.value]
  | null =>
    obtain rfl := Except.ok.inj h
    rcases value with _ | _ | (_ | _) | _ | _ | _ | _ | _ | _ <;>
      simp [ValueSet.mem_def, ValueSet.ofKind, Value.kind?, Tag.value]

theorem Tag.value_inj {a b : Tag} : a.value = b.value ↔ a = b := by
  refine ⟨fun h => ?_, congrArg Tag.value⟩
  cases a <;> cases b <;> cases h <;> rfl

def ElementEncoding.Accepts (value : Value) : ElementEncoding → Prop
  | stateless tag => value = tag.value
  | direct payload => value ∈ payload
  | indirect tag => ∃ rest, value = .array (.number tag :: rest)

namespace Strategy

def Separated (strategy : Strategy) : Prop :=
  ∀ {i k : Nat} {a b : ElementEncoding} {value : Value}, strategy[i]? = some a →
    strategy[k]? = some b → a.Accepts value → b.Accepts value → i = k

theorem separated_of_pairwise {strategy : Strategy}
    (h : strategy.Pairwise fun a b => ∀ value, a.Accepts value → ¬ b.Accepts value) :
    strategy.Separated := by
  intro i k a b value first second accepts accepts'
  obtain ⟨inside, rfl⟩ := List.getElem?_eq_some_iff.mp first
  obtain ⟨inside', rfl⟩ := List.getElem?_eq_some_iff.mp second
  have apart := List.pairwise_iff_getElem.mp h
  rcases Nat.lt_trichotomy i k with less | same | greater
  · exact absurd accepts' (apart i k inside inside' less value accepts)
  · exact same
  · exact absurd accepts (apart k i inside' inside greater value accepts')

theorem getElem?_constants {count index : Nat} {encoding : ElementEncoding} :
    (constants count)[index]? = some encoding ↔ index < count ∧
      encoding = .stateless (if count = 2 then .boolean (index == 1) else .integer index) := by
  simp only [constants, List.getElem?_map, Option.map_eq_some_iff, List.getElem?_eq_some_iff,
    List.length_range, List.getElem_range]
  constructor
  · rintro ⟨_, ⟨inside, rfl⟩, rfl⟩
    exact ⟨inside, rfl⟩
  · rintro ⟨inside, rfl⟩
    exact ⟨index, ⟨inside, rfl⟩, rfl⟩

theorem separated_constants (count : Nat) : (constants count).Separated := by
  intro i k a b value first second accepts accepts'
  obtain ⟨inside, rfl⟩ := getElem?_constants.mp first
  obtain ⟨inside', rfl⟩ := getElem?_constants.mp second
  have same := Tag.value_inj.mp (accepts.symm.trans accepts')
  split at same
  · have positions := Bool.eq_iff_iff.mp (Tag.boolean.inj same)
    rw [beq_iff_eq, beq_iff_eq] at positions
    omega
  · exact Tag.integer.inj same

theorem getElem?_tagged {elements : List Element} {index : Nat} {encoding : ElementEncoding} :
    (tagged elements)[index]? = some encoding ↔ ∃ element, elements[index]? = some element ∧
      encoding = if element.state.isSome then .indirect index else .stateless (.integer index) := by
  simp only [tagged, List.getElem?_map, List.getElem?_zipIdx, Option.map_map, Nat.zero_add,
    Option.map_eq_some_iff, Function.comp_apply]
  exact exists_congr fun element => and_congr_right fun _ => eq_comm

theorem separated_tagged (elements : List Element) : (tagged elements).Separated := by
  intro i k a b value first second accepts accepts'
  obtain ⟨element, _, rfl⟩ := getElem?_tagged.mp first
  obtain ⟨element', _, rfl⟩ := getElem?_tagged.mp second
  cases stateful : element.state.isSome <;> cases stateful' : element'.state.isSome <;>
    simp only [stateful, stateful', ElementEncoding.Accepts, if_true, Bool.false_eq_true, if_false,
      Tag.value] at accepts accepts'
  · rw [accepts] at accepts'
    exact_mod_cast Value.number.inj accepts'
  · obtain ⟨rest, rfl⟩ := accepts'
    simp at accepts
  · obtain ⟨rest, rfl⟩ := accepts
    simp at accepts'
  · obtain ⟨rest, rfl⟩ := accepts
    obtain ⟨rest', same⟩ := accepts'
    simp only [Value.array.injEq, List.cons.injEq, Value.number.injEq] at same
    exact_mod_cast same.1

/-- A tag that is found is merged into the values that were used before the search: the tags that
were tried in vain have left no trace. -/
theorem firstFree_spec {used used' : ValueSet} {tag : Tag} {tags : List Tag}
    (h : firstFree used tags = .ok (some (tag, used'))) :
    ∃ set, tag.valueSet = .ok set ∧ used.merge set = (true, used') := by
  induction tags with
  | nil => simp [firstFree] at h
  | cons candidate tags ih =>
    obtain ⟨set, single, chosen⟩ := bind_eq_ok_iff.mp h
    split at chosen
    rename_i merged left fits
    cases merged with
    | true =>
      cases chosen
      exact ⟨set, single, fits⟩
    | false =>
      obtain rfl := ValueSet.eq_of_merge_false fits
      exact ih chosen

inductive Direct : Option ValueSet → ElementEncoding → Prop
  | payload {set} : Direct (some set) (.direct set)
  | constant {tag} : Direct none (.stateless tag)

/-- One step of the choice: a payload changes nothing in use, a constant is new and in use from
then on. -/
theorem direct_cons {index : Nat} {used : ValueSet} {set : Option ValueSet}
    {sets : List (Option ValueSet)} {strategy : Strategy}
    (h : direct index used (set :: sets) = .ok (some strategy)) :
    ∃ encoding rest used', strategy = encoding :: rest ∧ Direct set encoding ∧
      (∃ values, encoding.valueSet = .ok values) ∧
      direct (index + 1) used' sets = .ok (some rest) ∧
      (∀ value : Value, value ∈ used → value ∈ used') ∧
      (set = none → ∀ value, encoding.Accepts value → value ∉ used ∧ value ∈ used') := by
  cases set with
  | some payload =>
    obtain ⟨rest, equation, shape⟩ := bind_eq_ok_iff.mp h
    obtain ⟨later, rfl, rfl⟩ := Option.map_eq_some_iff.mp (Except.ok.inj shape)
    exact ⟨_, later, used, rfl, .payload, ⟨_, rfl⟩, equation, fun _ => id, by simp⟩
  | none =>
    obtain ⟨free, searched, next⟩ := bind_eq_ok_iff.mp h
    cases free with
    | none => simp [pure, Except.pure] at next
    | some free =>
      obtain ⟨tag, used'⟩ := free
      obtain ⟨rest, equation, shape⟩ := bind_eq_ok_iff.mp next
      obtain ⟨later, rfl, rfl⟩ := Option.map_eq_some_iff.mp (Except.ok.inj shape)
      obtain ⟨single, constant, merged⟩ := firstFree_spec searched
      obtain ⟨new, extended⟩ := ValueSet.merge_spec merged
      refine ⟨_, later, used', rfl, .constant, ⟨single, constant⟩, equation,
        fun value h => extended value (.inl h), ?_⟩
      rintro - value rfl
      have inside := (Tag.mem_valueSet constant _).mpr rfl
      exact ⟨fun old => new _ old inside, extended _ (.inr inside)⟩

/-- What is chosen around the payloads is apart from all values in use but those of payloads. -/
theorem separated_direct {index : Nat} {used : ValueSet} {sets : List (Option ValueSet)}
    {strategy : Strategy} (h : direct index used sets = .ok (some strategy))
    (inUse : ∀ set, some set ∈ sets → ∀ value : Value, value ∈ set → value ∈ used)
    (apart : sets.Pairwise fun a b => ∀ set ∈ a, ∀ other ∈ b, ∀ value : Value, value ∈ set →
      value ∉ other) :
    (strategy.Pairwise fun a b => ∀ value, a.Accepts value → ¬ b.Accepts value) ∧
      ∀ encoding ∈ strategy, ∀ value, encoding.Accepts value → value ∈ used →
        ∃ set, some set ∈ sets ∧ value ∈ set := by
  induction sets generalizing index used strategy with
  | nil =>
    cases h
    simp
  | cons set sets ih =>
    obtain ⟨head, tail⟩ := List.pairwise_cons.mp apart
    obtain ⟨encoding, rest, used', rfl, fits, -, equation, grows, new⟩ := direct_cons h
    have inUse' : ∀ other, some other ∈ sets → ∀ value : Value, value ∈ other → value ∈ used :=
      fun other member => inUse other (List.mem_cons_of_mem _ member)
    obtain ⟨pairwise, others⟩ := ih equation
      (fun other member value inside => grows value (inUse' other member value inside)) tail
    have later : ∀ other ∈ rest, ∀ value, other.Accepts value → value ∈ used →
        ∃ set, some set ∈ sets ∧ value ∈ set := fun other member value accepts inside =>
      others other member value accepts (grows value inside)
    cases fits with
    | payload =>
      rename_i payload
      refine ⟨List.pairwise_cons.mpr ⟨fun other member value accepts accepts' => ?_, pairwise⟩,
        List.forall_mem_cons.mpr ⟨fun value accepts _ => ⟨payload, by simp, accepts⟩, ?_⟩⟩
      · obtain ⟨set, member', inside⟩ :=
          later other member value accepts' (inUse payload (by simp) value accepts)
        exact head _ member' payload rfl set rfl value accepts inside
      · intro other member value accepts inside
        obtain ⟨set, member', inside⟩ := later other member value accepts inside
        exact ⟨set, List.mem_cons_of_mem _ member', inside⟩
    | constant =>
      refine ⟨List.pairwise_cons.mpr ⟨fun other member value accepts accepts' => ?_, pairwise⟩,
        List.forall_mem_cons.mpr ⟨fun value accepts inside => ?_, ?_⟩⟩
      · obtain ⟨unused, inside⟩ := new rfl value accepts
        obtain ⟨set, member', inside⟩ := others other member value accepts' inside
        exact unused (inUse' set member' value inside)
      · exact absurd inside (new rfl value accepts).1
      · intro other member value accepts inside
        obtain ⟨set, member', inside⟩ := later other member value accepts inside
        exact ⟨set, List.mem_cons_of_mem _ member', inside⟩

theorem forall₂_direct {index : Nat} {used : ValueSet} {sets : List (Option ValueSet)}
    {strategy : Strategy} (h : direct index used sets = .ok (some strategy)) :
    List.Forall₂ Direct sets strategy := by
  induction sets generalizing index used strategy with
  | nil =>
    cases h
    exact .nil
  | cons set sets ih =>
    obtain ⟨encoding, rest, used', rfl, fits, _, equation, _⟩ := direct_cons h
    exact .cons fits (ih equation)

end Strategy

end RegisterIR
