import RegisterIR.Check.Directive

/-! What an accepted output satisfies. Every directive that looks for a line takes one, each after
the lines taken before it, and the directives between two such lines rule out what lies between
them. The check itself walks over the lines that are left; it does the same as a walk over line
numbers, none of which ever lies beyond the output. -/

namespace RegisterIR.Check

def Occurs (lines : List String) (number : Nat) (pattern : String) : Prop :=
  ∃ line, lines[number]? = some line ∧ pattern.toList <:+: line.toList

def IsBlankLine (lines : List String) (number : Nat) : Prop :=
  ∃ line, lines[number]? = some line ∧ ∀ c ∈ line.toList, Text.isBlank c = true

/-- The line that directly follows the last one taken, and the given one if none is. -/
def following (start : Nat) (taken : List (Option Nat)) : Nat :=
  taken.foldl (fun next line => (line.map (· + 1)).getD next) start

def firstTaken (lines : List String) (taken : List (Option Nat)) : Nat :=
  (taken.filterMap id).head?.getD lines.length

/-- The line that a directive may take, where `next` follows the line taken before it, and `later`
are the lines that the directives after it take. -/
inductive Meets (lines : List String) (next : Nat) (later : List (Option Nat)) :
    Directive → Option Nat → Prop
  | find {search pattern number} : next ≤ number → Occurs lines number pattern →
      (∀ other, next ≤ other → other < number → ¬ Occurs lines other pattern) →
      Meets lines next later (.find search pattern) (some number)
  | next {pattern} : Occurs lines next pattern → Meets lines next later (.next pattern) (some next)
  | blank : IsBlankLine lines next → Meets lines next later .blank (some next)
  /-- The end of the output passes for an empty line, but no line is taken. -/
  | ended : lines.length ≤ next → Meets lines next later .blank none
  | absent {pattern} :
      (∀ other, next ≤ other → other < firstTaken lines later → ¬ Occurs lines other pattern) →
      Meets lines next later (.absent pattern) none
  | comment {content} : Meets lines next later (.comment content) none

/-- The lines that the directives take, one entry for each directive, from line `start` on. -/
structure Assigned (lines : List String) (start : Nat) (directives : List Directive)
    (taken : List (Option Nat)) : Prop where
  length : taken.length = directives.length
  inside : ∀ number ∈ taken.filterMap id, start ≤ number ∧ number < lines.length
  increasing : (taken.filterMap id).Pairwise (· < ·)
  meets : ∀ (i : Nat) (directive : Directive), directives[i]? = some directive →
    ∃ line, taken[i]? = some line ∧
      Meets lines (following start (taken.take i)) (taken.drop (i + 1)) directive line

section Occurrence

variable {all : List String} {index : Nat} {pattern : String}

theorem contains_iff {line : String} :
    Text.contains line pattern = true ↔ pattern.toList <:+: line.toList :=
  Text.occursIn_iff _ _

theorem occurs_iff {line : String} {number : Nat} (here : all[number]? = some line) :
    Occurs all number pattern ↔ Text.contains line pattern = true := by
  simp [Occurs, here, contains_iff]

theorem Occurs.lt_length {number : Nat} (h : Occurs all number pattern) : number < all.length := by
  obtain ⟨line, here, _⟩ := h
  exact (List.getElem?_eq_some_iff.mp here).1

theorem checkAbsent_eq_ok_iff {lines patterns : List String} :
    checkAbsent lines patterns = .ok () ↔
      ∀ pattern ∈ patterns, ∀ line ∈ lines, Text.contains line pattern = false := by
  induction patterns with
  | nil => simp [checkAbsent]
  | cons pattern patterns ih =>
    rw [checkAbsent, List.forall_mem_cons, ← ih]
    cases found : lines.find? (Text.contains · pattern) with
    | some line =>
      have member := List.mem_of_find?_eq_some found
      have present := List.find?_some found
      simp only [reduceCtorEq, false_iff, not_and]
      intro absent
      exact absurd present (Bool.eq_false_iff.mp (absent line member))
    | none =>
      have absent : ∀ line ∈ lines, Text.contains line pattern = false := by
        simpa using List.find?_eq_none.mp found
      exact (and_iff_right absent).symm

theorem not_occurs_of_checkAbsent {patterns : List String} {count : Nat}
    (h : checkAbsent ((all.drop index).take count) patterns = .ok ()) (member : pattern ∈ patterns)
    {number : Nat} (after : index ≤ number) (before : number < index + count) :
    ¬ Occurs all number pattern := by
  rintro ⟨line, here, occurs⟩
  have inside : line ∈ (all.drop index).take count := by
    refine List.mem_of_getElem? (i := number - index) ?_
    rw [List.getElem?_take_of_lt (by omega), List.getElem?_drop, Nat.add_sub_cancel' after, here]
  exact absurd (contains_iff.mpr occurs)
    (Bool.eq_false_iff.mp (checkAbsent_eq_ok_iff.mp h pattern member line inside))

theorem drop_eq_cons {line : String} {rest : List String} (h : all.drop index = line :: rest) :
    all[index]? = some line ∧ index < all.length ∧ rest = all.drop (index + 1) := by
  have here : all[index]? = some line := by
    rw [← Nat.add_zero index, ← List.getElem?_drop, h]
    rfl
  refine ⟨here, (List.getElem?_eq_some_iff.mp here).1, ?_⟩
  rw [← List.drop_drop, h, List.drop_one, List.tail_cons]

theorem occurs_of_findIdx? {skipped : Nat}
    (found : (all.drop index).findIdx? (Text.contains · pattern) = some skipped) :
    Occurs all (index + skipped) pattern ∧
      ∀ other, index ≤ other → other < index + skipped → ¬ Occurs all other pattern := by
  obtain ⟨inside, fits, first⟩ := List.findIdx?_eq_some_iff_getElem.mp found
  have entry : (all.drop index)[skipped]? = some _ := List.getElem?_eq_getElem inside
  rw [List.getElem?_drop] at entry
  refine ⟨(occurs_iff entry).mpr fits, fun other after before occurs => ?_⟩
  obtain ⟨distance, rfl⟩ := Nat.exists_eq_add_of_le after
  have nearer : distance < skipped := by omega
  have entry' : (all.drop index)[distance]? = some _ :=
    List.getElem?_eq_getElem (Nat.lt_trans nearer inside)
  rw [List.getElem?_drop] at entry'
  exact first distance nearer ((occurs_iff entry').mp occurs)

end Occurrence

section Assignment

variable {lines : List String} {start : Nat} {directives : List Directive}
  {taken : List (Option Nat)}

theorem assigned_nil : Assigned lines start [] [] :=
  ⟨rfl, by simp, by simp, by simp⟩

theorem Assigned.pass {directive : Directive} (assigned : Assigned lines start directives taken)
    (meets : Meets lines start taken directive none) :
    Assigned lines start (directive :: directives) (none :: taken) where
  length := congrArg Nat.succ assigned.length
  inside := assigned.inside
  increasing := assigned.increasing
  meets i other found := by
    cases i with
    | zero =>
      obtain rfl := Option.some.inj found
      exact ⟨none, rfl, meets⟩
    | succ i => exact assigned.meets i other found

theorem Assigned.take {directive : Directive} {number : Nat}
    (assigned : Assigned lines (number + 1) directives taken) (after : start ≤ number)
    (inside : number < lines.length) (meets : Meets lines start taken directive (some number)) :
    Assigned lines start (directive :: directives) (some number :: taken) where
  length := congrArg Nat.succ assigned.length
  inside := by
    refine List.forall_mem_cons.mpr ⟨⟨after, inside⟩, fun other member => ?_⟩
    have later := assigned.inside other member
    omega
  increasing := List.pairwise_cons.mpr
    ⟨fun other member => (assigned.inside other member).1, assigned.increasing⟩
  meets i other found := by
    cases i with
    | zero =>
      obtain rfl := Option.some.inj found
      exact ⟨some number, rfl, meets⟩
    | succ i => exact assigned.meets i other found

end Assignment

def Note.line : Note → Nat
  | found _ _ line => line
  | followed _ line => line
  | blank line => line

/-- What the check of the lines from `index` on finds is an assignment; the pending patterns occur
nowhere before the first line that it takes. -/
theorem assigned_of_validateFrom {all : List String} {index : Nat} {pending : List String}
    {directives : List Directive} (inside : index ≤ all.length)
    (accepted : (validateFrom index (all.drop index) pending directives).result = .ok ()) :
    ∃ taken, Assigned all index directives taken ∧
      (validateFrom index (all.drop index) pending directives).notes.map Note.line =
        taken.filterMap id ∧
      ∀ pattern ∈ pending, ∀ other, index ≤ other → other < firstTaken all taken →
        ¬ Occurs all other pattern := by
  induction directives generalizing index pending with
  | nil =>
    refine ⟨[], assigned_nil, rfl, fun pattern member other after before => ?_⟩
    have whole : checkAbsent ((all.drop index).take (all.length - index)) pending = .ok () := by
      rw [List.take_of_length_le (Nat.le_of_eq List.length_drop)]
      exact accepted
    have end' : other < all.length := before
    exact not_occurs_of_checkAbsent whole member after (by omega)
  | cons directive directives ih =>
    cases directive with
    | comment content =>
      obtain ⟨taken, assigned, notes, absent⟩ := ih inside accepted
      exact ⟨none :: taken, assigned.pass .comment, notes, absent⟩
    | absent pattern =>
      obtain ⟨taken, assigned, notes, absent⟩ := ih inside accepted
      have own := absent pattern (List.mem_append_right _ List.mem_cons_self)
      refine ⟨none :: taken, assigned.pass (.absent own), notes, fun other member => ?_⟩
      exact absent other (List.mem_append_left _ member)
    | find search pattern =>
      rw [validateFrom] at accepted ⊢
      split at accepted
      · cases accepted
      · rename_i skipped found
        split at accepted
        · cases accepted
        · rename_i free
          obtain ⟨occurs, first⟩ := occurs_of_findIdx? found
          have bound := occurs.lt_length
          have rest : (all.drop index).drop (skipped + 1) = all.drop (index + skipped + 1) :=
            List.drop_drop
          simp only [rest] at accepted ⊢
          obtain ⟨taken, assigned, notes, _⟩ := ih bound accepted
          refine ⟨some (index + skipped) :: taken,
            assigned.take (Nat.le_add_right _ _) bound
              (.find (Nat.le_add_right _ _) occurs first), congrArg (_ :: ·) notes, ?_⟩
          exact fun other member number after before =>
            not_occurs_of_checkAbsent free member after before
    | next pattern =>
      cases left : all.drop index with
      | nil =>
        rw [left] at accepted
        cases accepted
      | cons line rest =>
        obtain ⟨here, bound, rfl⟩ := drop_eq_cons left
        rw [left, validateFrom] at accepted
        rw [validateFrom]
        split at accepted
        · rename_i occurs
          obtain ⟨taken, assigned, notes, _⟩ := ih bound accepted
          refine ⟨some index :: taken, assigned.take (Nat.le_refl _) bound
            (.next ((occurs_iff here).mpr occurs)), ?_, ?_⟩
          · rw [if_pos occurs]
            exact congrArg (_ :: ·) notes
          · exact fun _ _ other after before => absurd before (Nat.not_lt.mpr after)
        · cases accepted
    | blank =>
      cases left : all.drop index with
      | nil =>
        have ended : all.length ≤ index := List.drop_eq_nil_iff.mp left
        have same : validateFrom index [] pending (.blank :: directives) =
            validateFrom index [] pending directives := rfl
        rw [left, same, ← left] at accepted
        rw [same, ← left]
        obtain ⟨taken, assigned, notes, absent⟩ := ih inside accepted
        exact ⟨none :: taken, assigned.pass (.ended ended), notes, absent⟩
      | cons line rest =>
        obtain ⟨here, bound, rfl⟩ := drop_eq_cons left
        rw [left, validateFrom] at accepted
        rw [validateFrom]
        split at accepted
        · rename_i blank
          obtain ⟨taken, assigned, notes, _⟩ := ih bound accepted
          refine ⟨some index :: taken, assigned.take (Nat.le_refl _) bound
            (.blank ⟨line, here, List.all_eq_true.mp blank⟩), ?_, ?_⟩
          · rw [if_pos blank]
            exact congrArg (_ :: ·) notes
          · exact fun _ _ other after before => absurd before (Nat.not_lt.mpr after)
        · cases accepted

section Walk

def slice? (lines : List String) (first last : Nat) : Option (List String) :=
  if first ≤ last ∧ last ≤ lines.length then some ((lines.take last).drop first) else none

theorem slice?_eq_some {lines : List String} {first count : Nat}
    (inside : first + count ≤ lines.length) :
    slice? lines first (first + count) = some ((lines.drop first).take count) := by
  rw [slice?, if_pos ⟨Nat.le_add_right _ _, inside⟩, List.drop_take, Nat.add_sub_cancel_left]

/-- The check as a walk over line numbers. There is no result if a slice goes beyond the lines. -/
def walk (lines : List String) (index : Nat) (pending : List String) :
    List Directive → Option Verdict
  | [] => do
    let rest ← slice? lines index lines.length
    pure ⟨[], checkAbsent rest pending⟩
  | .comment _ :: directives => walk lines index pending directives
  | .absent pattern :: directives => walk lines index (pending ++ [pattern]) directives
  | .find search pattern :: directives => do
    let rest ← slice? lines index lines.length
    match rest.findIdx? (Text.contains · pattern) with
    | none => pure (.mismatch (.notFound search pattern))
    | some skipped => do
      let between ← slice? lines index (index + skipped)
      match checkAbsent between pending with
      | .error reason => pure (.mismatch reason)
      | .ok () =>
        (walk lines (index + skipped + 1) [] directives).map
          (.note (.found search pattern (index + skipped)))
  | .next pattern :: directives =>
    match lines[index]? with
    | none => pure (.mismatch (.noMoreLines pattern))
    | some line =>
      if Text.contains line pattern then
        (walk lines (index + 1) [] directives).map (.note (.followed pattern index))
      else pure (.mismatch (.notNext pattern line))
  | .blank :: directives =>
    match lines[index]? with
    | none => walk lines index pending directives
    | some line =>
      if line.toList.all Text.isBlank then
        (walk lines (index + 1) pending directives).map (.note (.blank index))
      else pure (.mismatch (.notBlank line))

theorem slice?_rest {lines : List String} {index : Nat} (inside : index ≤ lines.length) :
    slice? lines index lines.length = some (lines.drop index) := by
  rw [slice?, if_pos ⟨inside, Nat.le_refl _⟩, List.take_length]

/-- Both ways of checking agree from every line on, so no slice goes beyond the lines. -/
theorem walk_eq {lines : List String} {index : Nat} (inside : index ≤ lines.length)
    (pending : List String) (directives : List Directive) :
    walk lines index pending directives =
      some (validateFrom index (lines.drop index) pending directives) := by
  induction directives generalizing index pending with
  | nil =>
    rw [walk, slice?_rest inside]
    rfl
  | cons directive directives ih =>
    cases directive with
    | comment content => exact ih inside pending
    | absent pattern => exact ih inside (pending ++ [pattern])
    | find search pattern =>
      rw [walk, slice?_rest inside, validateFrom, Option.bind_eq_bind, Option.bind_some]
      cases found : (lines.drop index).findIdx? (Text.contains · pattern) with
      | none => rfl
      | some skipped =>
        have bound := (occurs_of_findIdx? found).1.lt_length
        dsimp only
        rw [slice?_eq_some (Nat.le_of_lt bound), Option.bind_some, ih bound, List.drop_drop]
        cases checkAbsent ((lines.drop index).take skipped) pending <;> rfl
    | next pattern =>
      cases left : lines.drop index with
      | nil =>
        rw [walk, List.getElem?_eq_none (List.drop_eq_nil_iff.mp left)]
        rfl
      | cons line rest =>
        obtain ⟨here, bound, rfl⟩ := drop_eq_cons left
        rw [walk, here, validateFrom]
        dsimp only
        rw [ih bound]
        split <;> rfl
    | blank =>
      cases left : lines.drop index with
      | nil =>
        rw [walk, List.getElem?_eq_none (List.drop_eq_nil_iff.mp left)]
        have rest := ih inside pending
        rw [left] at rest
        exact rest
      | cons line rest =>
        obtain ⟨here, bound, rfl⟩ := drop_eq_cons left
        rw [walk, here, validateFrom]
        dsimp only
        rw [ih bound]
        split <;> rfl

end Walk

/-- Checking never goes beyond the lines of the output, and an output that is accepted has lines for
all directives: in order, each pattern in its line, and none of the excluded ones in between. The
notes name these lines. -/
theorem validate_assigns (output : String) (directives : List Directive) :
    walk (Text.lines output) 0 [] directives = some (validate output directives) ∧
      ((validate output directives).result = .ok () →
        ∃ taken, Assigned (Text.lines output) 0 directives taken ∧
          (validate output directives).notes.map Note.line = taken.filterMap id) := by
  have start : 0 ≤ (Text.lines output).length := Nat.zero_le _
  refine ⟨walk_eq start [] directives, fun accepted => ?_⟩
  obtain ⟨taken, assigned, notes, _⟩ := assigned_of_validateFrom start accepted
  exact ⟨taken, assigned, notes⟩

/-- Two sections with a heading each. The excluded patterns occur before, between and after the
lines where they are excluded, and the last empty line is the end of the output. -/
def sections : String := "\n".intercalate ["call", "first", "a", "", "b", "call", "second", "c"]

def sectionDirectives : List Directive :=
  [.find .heading "first", .absent "call", .next "a", .blank, .absent "c", .comment "middle",
    .find .plain "b", .find .heading "sec", .absent "call", .find .plain "c", .absent "b", .blank]

theorem validate_assigns_sections :
    (validate sections sectionDirectives).result = .ok () ∧
      ∃ taken, Assigned (Text.lines sections) 0 sectionDirectives taken ∧
        taken.filterMap id = [1, 2, 3, 4, 6, 7] := by
  have passes : (validate sections sectionDirectives).result.toBool = true := by decide +kernel
  have accepted : (validate sections sectionDirectives).result = .ok () := by
    cases result : (validate sections sectionDirectives).result with
    | ok value => rfl
    | error reason =>
      rw [result] at passes
      cases passes
  have notes : (validate sections sectionDirectives).notes.map Note.line = [1, 2, 3, 4, 6, 7] := by
    decide +kernel
  obtain ⟨taken, assigned, lines⟩ := (validate_assigns sections sectionDirectives).2 accepted
  exact ⟨accepted, taken, assigned, lines.symm.trans notes⟩

end RegisterIR.Check
