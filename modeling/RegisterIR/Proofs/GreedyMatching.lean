import Mathlib.Data.List.Forall2
import RegisterIR.Proofs.CheckedOutputs

/-! Taking the first line that fits loses nothing. A check that only looks for lines succeeds if
there is any choice of lines for its patterns, since the lines it takes are never after those of
the choice. What an excluded pattern ranges over is the lines before the next line that is found or
follows; an empty line that is asked for does not end it. -/

namespace RegisterIR.Check

section Searches

def Directive.isSearch : Directive → Bool
  | find .. => true
  | comment _ => true
  | next _ => false
  | absent _ => false
  | blank => false

def Directive.sought? : Directive → Option String
  | find _ pattern => some pattern
  | _ => none

/-- A choice of lines for patterns: one for each, in the same order, and no two the same. -/
structure Choice (lines patterns : List String) (chosen : List Nat) : Prop where
  increasing : chosen.Pairwise (· < ·)
  fits : List.Forall₂ (fun pattern number => Occurs lines number pattern) patterns chosen

variable {all : List String} {index : Nat} {pattern : String} {search : Search}
  {directives : List Directive}

theorem exists_findIdx?_of_occurs {number : Nat} (after : index ≤ number)
    (occurs : Occurs all number pattern) : ∃ skipped,
      (all.drop index).findIdx? (Text.contains · pattern) = some skipped ∧
        index + skipped ≤ number := by
  obtain ⟨line, here, inside⟩ := id occurs
  have entry : (all.drop index)[number - index]? = some line := by
    rw [List.getElem?_drop, Nat.add_sub_cancel' after, here]
  cases found : (all.drop index).findIdx? (Text.contains · pattern) with
  | none =>
    have absent := List.findIdx?_eq_none_iff.mp found line (List.mem_of_getElem? entry)
    exact absurd (contains_iff.mpr inside) (Bool.eq_false_iff.mp absent)
  | some skipped =>
    refine ⟨skipped, rfl, Nat.le_of_not_lt fun early => ?_⟩
    exact (occurs_of_findIdx? found).2 number after early occurs

theorem validateFrom_find {skipped : Nat}
    (found : (all.drop index).findIdx? (Text.contains · pattern) = some skipped) :
    validateFrom index (all.drop index) [] (.find search pattern :: directives) =
      (validateFrom (index + skipped + 1) (all.drop (index + skipped + 1)) [] directives).note
        (.found search pattern (index + skipped)) := by
  have rest : (all.drop index).drop (skipped + 1) = all.drop (index + skipped + 1) :=
    List.drop_drop
  simp only [validateFrom, found, checkAbsent, rest]

theorem choice_of_accepted (index : Nat)
    (searches : ∀ directive ∈ directives, directive.isSearch = true)
    (accepted : (validateFrom index (all.drop index) [] directives).result = .ok ()) :
    ∃ chosen, Choice all (directives.filterMap Directive.sought?) chosen ∧
      ∀ number ∈ chosen, index ≤ number := by
  induction directives generalizing index with
  | nil => exact ⟨[], ⟨.nil, .nil⟩, by simp⟩
  | cons directive directives ih =>
    obtain ⟨first, others⟩ := List.forall_mem_cons.mp searches
    cases directive with
    | comment content => exact ih _ others accepted
    | find search pattern =>
      cases found : (all.drop index).findIdx? (Text.contains · pattern) with
      | none =>
        rw [validateFrom, found] at accepted
        cases accepted
      | some skipped =>
        rw [validateFrom_find found] at accepted
        obtain ⟨chosen, choice, later⟩ := ih _ others accepted
        refine ⟨(index + skipped) :: chosen, ⟨?_, ?_⟩, ?_⟩
        · exact List.pairwise_cons.mpr ⟨later, choice.increasing⟩
        · exact .cons (occurs_of_findIdx? found).1 choice.fits
        · refine List.forall_mem_cons.mpr ⟨Nat.le_add_right _ _, fun number member => ?_⟩
          have after := later number member
          omega
    | next pattern => cases first
    | absent pattern => cases first
    | blank => cases first

/-- Whatever lines are chosen for the patterns, the check takes lines as well, and none of them is
after the one chosen in its place. -/
theorem accepted_of_choice (index : Nat)
    (searches : ∀ directive ∈ directives, directive.isSearch = true)
    {chosen : List Nat} (choice : Choice all (directives.filterMap Directive.sought?) chosen)
    (later : ∀ number ∈ chosen, index ≤ number) :
    (validateFrom index (all.drop index) [] directives).result = .ok () ∧
      List.Forall₂ (· ≤ ·)
        ((validateFrom index (all.drop index) [] directives).notes.map Note.line) chosen := by
  induction directives generalizing index chosen with
  | nil =>
    obtain rfl := List.forall₂_nil_left_iff.mp choice.fits
    exact ⟨rfl, .nil⟩
  | cons directive directives ih =>
    obtain ⟨first, others⟩ := List.forall_mem_cons.mp searches
    cases directive with
    | comment content => exact ih _ others choice later
    | find search pattern =>
      obtain ⟨number, rest, occurs, fits, rfl⟩ := List.forall₂_cons_left_iff.mp choice.fits
      obtain ⟨further, increasing⟩ := List.pairwise_cons.mp choice.increasing
      obtain ⟨skipped, found, early⟩ :=
        exists_findIdx?_of_occurs (later number List.mem_cons_self) occurs
      -- The lines chosen for the other patterns are after the chosen one, so after the first that
      -- fits too: the rest of the choice is one for the rest of the check.
      have after : ∀ other ∈ rest, index + skipped + 1 ≤ other := fun other member =>
        Nat.lt_of_le_of_lt early (further other member)
      obtain ⟨accepted, ahead⟩ := ih _ others ⟨increasing, fits⟩ after
      rw [validateFrom_find found]
      exact ⟨accepted, .cons early ahead⟩
    | next pattern => cases first
    | absent pattern => cases first
    | blank => cases first

/-- A check that only looks for lines accepts an output exactly if some lines can be chosen for its
patterns in order, and it takes each of them as early as any choice does. -/
theorem validate_finds_any_choice (output : String) (directives : List Directive)
    (searches : ∀ directive ∈ directives, directive.isSearch = true) :
    ((validate output directives).result = .ok () ↔
      ∃ chosen, Choice (Text.lines output) (directives.filterMap Directive.sought?) chosen) ∧
    ∀ chosen, Choice (Text.lines output) (directives.filterMap Directive.sought?) chosen →
      List.Forall₂ (· ≤ ·) ((validate output directives).notes.map Note.line) chosen := by
  have ahead {chosen : List Nat}
      (choice : Choice (Text.lines output) (directives.filterMap Directive.sought?) chosen) :=
    accepted_of_choice 0 searches choice fun number _ => Nat.zero_le number
  refine ⟨⟨fun accepted => ?_, ?_⟩, fun chosen choice => (ahead choice).2⟩
  · obtain ⟨chosen, choice, _⟩ := choice_of_accepted 0 searches accepted
    exact ⟨chosen, choice⟩
  · rintro ⟨chosen, choice⟩
    exact (ahead choice).1

/-- The first pattern occurs again after the line taken for it, and the second one before. -/
def repeated : String := "\n".intercalate ["b", "a", "a b", "b", "c"]

def repeatedDirectives : List Directive :=
  [.find .heading "a", .comment "later", .find .plain "b", .find .plain "b"]

theorem validate_finds_any_choice_repeated :
    (∀ directive ∈ repeatedDirectives, directive.isSearch = true) ∧
      (∃ chosen, Choice (Text.lines repeated) ["a", "b", "b"] chosen) ∧
      ¬ ∃ chosen, Choice (Text.lines repeated) ["c", "a"] chosen := by
  have searches : ∀ directive ∈ repeatedDirectives, directive.isSearch = true := by decide
  have reversed : ∀ directive ∈ [Directive.find .plain "c", .find .plain "a"],
      directive.isSearch = true := by decide
  refine ⟨searches, ?_, fun chosen => ?_⟩
  · exact (validate_finds_any_choice repeated _ searches).1.mp (by decide +kernel)
  · have accepted := (validate_finds_any_choice repeated _ reversed).1.mpr chosen
    revert accepted
    decide +kernel

end Searches

section Exclusions

def Directive.pass (lines : List String) : Directive → List String
  | find _ pattern => lines.drop (lines.findIdx (Text.contains · pattern) + 1)
  | next _ => lines.drop 1
  | blank => lines.drop 1
  | absent _ => lines
  | comment _ => lines

def remaining (lines : List String) (directives : List Directive) : List String :=
  directives.foldl Directive.pass lines

/-- The lines before the next one that is found or follows, without those that empty lines are asked
for on. -/
def untilMatch (lines : List String) : List Directive → List String
  | [] => lines
  | .find _ pattern :: _ => lines.takeWhile fun line => !Text.contains line pattern
  | .next _ :: _ => []
  | .blank :: directives => untilMatch (lines.drop 1) directives
  | .absent _ :: directives => untilMatch lines directives
  | .comment _ :: directives => untilMatch lines directives

def Verdict.after (notes : List Note) (verdict : Verdict) : Verdict :=
  ⟨notes ++ verdict.notes, verdict.result⟩

theorem validateFrom_cons (directive : Directive) (index : Nat) (lines pending : List String) :
    (∃ notes reason, ∀ rest, validateFrom index lines pending (directive :: rest) =
      ⟨notes, .error reason⟩) ∨
    ∃ notes index' pending', ∀ rest, validateFrom index lines pending (directive :: rest) =
      (validateFrom index' (directive.pass lines) pending' rest).after notes := by
  cases directive with
  | comment content => exact .inr ⟨[], index, pending, fun rest => rfl⟩
  | absent pattern => exact .inr ⟨[], index, pending ++ [pattern], fun rest => rfl⟩
  | find search pattern =>
    cases found : lines.findIdx? (Text.contains · pattern) with
    | none =>
      refine .inl ⟨[], .notFound search pattern, fun rest => ?_⟩
      rw [validateFrom, found]
      rfl
    | some skipped =>
      have first : lines.findIdx (Text.contains · pattern) = skipped :=
        (List.findIdx?_eq_some_iff_findIdx_eq.mp found).2
      cases absent : checkAbsent (lines.take skipped) pending with
      | error reason =>
        refine .inl ⟨[], reason, fun rest => ?_⟩
        simp only [validateFrom, found, absent]
        rfl
      | ok value =>
        refine .inr ⟨[.found search pattern (index + skipped)], index + skipped + 1, [],
          fun rest => ?_⟩
        simp only [validateFrom, found, absent, Directive.pass, first]
        rfl
  | next pattern =>
    cases lines with
    | nil => exact .inl ⟨[], .noMoreLines pattern, fun rest => rfl⟩
    | cons line lines =>
      cases fits : Text.contains line pattern with
      | true =>
        refine .inr ⟨[.followed pattern index], index + 1, [], fun rest => ?_⟩
        rw [validateFrom, if_pos fits]
        rfl
      | false =>
        refine .inl ⟨[], .notNext pattern line, fun rest => ?_⟩
        rw [validateFrom, if_neg (Bool.eq_false_iff.mp fits)]
        rfl
  | blank =>
    cases lines with
    | nil => exact .inr ⟨[], index, pending, fun rest => rfl⟩
    | cons line lines =>
      cases empty : line.toList.all Text.isBlank with
      | true =>
        refine .inr ⟨[.blank index], index + 1, pending, fun rest => ?_⟩
        rw [validateFrom, if_pos empty]
        rfl
      | false =>
        refine .inl ⟨[], .notBlank line, fun rest => ?_⟩
        rw [validateFrom, if_neg (Bool.eq_false_iff.mp empty)]
        rfl

theorem validateFrom_append (before : List Directive) (index : Nat) (lines pending : List String) :
    (∃ notes reason, ∀ rest, validateFrom index lines pending (before ++ rest) =
      ⟨notes, .error reason⟩) ∨
    ∃ notes index' pending', ∀ rest, validateFrom index lines pending (before ++ rest) =
      (validateFrom index' (remaining lines before) pending' rest).after notes := by
  induction before generalizing index lines pending with
  | nil => exact .inr ⟨[], index, pending, fun rest => rfl⟩
  | cons directive before ih =>
    rcases validateFrom_cons directive index lines pending with
      ⟨notes, reason, decided⟩ | ⟨notes, index', pending', step⟩
    · exact .inl ⟨notes, reason, fun rest => decided (before ++ rest)⟩
    · rcases ih index' (directive.pass lines) pending' with
        ⟨notes', reason, decided⟩ | ⟨notes', index'', pending'', run⟩
      · refine .inl ⟨notes ++ notes', reason, fun rest => ?_⟩
        rw [List.cons_append, step, decided]
        rfl
      · refine .inr ⟨notes ++ notes', index'', pending'', fun rest => ?_⟩
        rw [List.cons_append, step, run, Verdict.after, Verdict.after, Verdict.after,
          List.append_assoc]
        rfl

/-- The patterns that are pending add one condition to a check: none of them occurs before the next
match. -/
theorem accepted_iff_of_pending (index : Nat) (lines pending : List String)
    (directives : List Directive) :
    (validateFrom index lines pending directives).result = .ok () ↔
      (validateFrom index lines [] directives).result = .ok () ∧
        checkAbsent (untilMatch lines directives) pending = .ok () := by
  induction directives generalizing index lines pending with
  | nil => exact (and_iff_right rfl).symm
  | cons directive directives ih =>
    cases directive with
    | comment content => exact ih index lines pending
    | absent pattern =>
      have alone : validateFrom index lines [] (.absent pattern :: directives) =
          validateFrom index lines [pattern] directives := rfl
      rw [validateFrom, ih, alone, ih index lines [pattern], and_assoc, untilMatch]
      refine and_congr_right fun _ => ?_
      simp only [checkAbsent_eq_ok_iff, List.forall_mem_append, List.forall_mem_singleton]
      exact and_comm
    | find search pattern =>
      cases found : lines.findIdx? (Text.contains · pattern) with
      | none => simp only [validateFrom, found, Verdict.mismatch, reduceCtorEq, false_and]
      | some skipped =>
        have before : lines.take skipped =
            lines.takeWhile fun line => !Text.contains line pattern := by
          rw [List.takeWhile_eq_take_findIdx_not]
          simp only [Bool.not_not]
          rw [(List.findIdx?_eq_some_iff_findIdx_eq.mp found).2]
        rw [untilMatch, ← before]
        simp only [validateFrom, found, checkAbsent]
        cases checkAbsent (lines.take skipped) pending with
        | error reason => simp only [Verdict.mismatch, reduceCtorEq, and_false]
        | ok value => exact (and_iff_left rfl).symm
    | next pattern =>
      have none : checkAbsent [] pending = .ok () := checkAbsent_eq_ok_iff.mpr (by simp)
      rw [untilMatch, none, eq_self, and_true]
      cases lines with
      | nil => rfl
      | cons line lines => rfl
    | blank =>
      cases lines with
      | nil => exact ih index [] pending
      | cons line lines =>
        rw [untilMatch, List.drop_one, List.tail_cons, validateFrom, validateFrom]
        split
        · exact ih (index + 1) lines pending
        · simp only [Verdict.mismatch, reduceCtorEq, false_and]

theorem accepted_iff_of_absent (output : String) (before rest : List Directive) (pattern : String) :
    (validate output (before ++ .absent pattern :: rest)).result = .ok () ↔
      (validate output (before ++ rest)).result = .ok () ∧
        ∀ line ∈ untilMatch (remaining (Text.lines output) before) rest,
          ¬ pattern.toList <:+: line.toList := by
  have excluded (lines : List String) : checkAbsent lines [pattern] = .ok () ↔
      ∀ line ∈ lines, ¬ pattern.toList <:+: line.toList := by
    simp only [checkAbsent_eq_ok_iff, List.forall_mem_singleton, ← contains_iff,
      Bool.not_eq_true]
  rw [validate, validate, ← excluded]
  rcases validateFrom_append before 0 (Text.lines output) [] with
    ⟨notes, reason, decided⟩ | ⟨notes, index, pending, run⟩
  · simp only [decided, reduceCtorEq, false_and]
  · rw [run, run, Verdict.after, Verdict.after, validateFrom, accepted_iff_of_pending,
      accepted_iff_of_pending _ _ pending, and_assoc]
    simp only [checkAbsent_eq_ok_iff, List.forall_mem_append]

/-- An exclusion in front of a directive for the following line changes nothing. In front of an
empty line it ranges over what comes after that line, up to the next line that is found or
follows. -/
theorem validate_absent_inserted (output : String) (before after : List Directive)
    (pattern : String) :
    (∀ next, validate output (before ++ .absent pattern :: .next next :: after) =
      validate output (before ++ .next next :: after)) ∧
    ((validate output (before ++ .absent pattern :: .blank :: after)).result = .ok () ↔
      (validate output (before ++ .blank :: after)).result = .ok () ∧
        ∀ line ∈ untilMatch (remaining (Text.lines output) (before ++ [.blank])) after,
          ¬ pattern.toList <:+: line.toList) := by
  constructor
  · intro next
    have ignored (index : Nat) (lines pending : List String) :
        validateFrom index lines pending (.absent pattern :: .next next :: after) =
          validateFrom index lines pending (.next next :: after) := by
      cases lines with
      | nil => rfl
      | cons line lines => rfl
    rcases validateFrom_append before 0 (Text.lines output) [] with
      ⟨notes, reason, decided⟩ | ⟨notes, index, pending, run⟩
    · rw [validate, validate, decided, decided]
    · rw [validate, validate, run, run, ignored]
  · have blank : remaining (Text.lines output) (before ++ [.blank]) =
        (remaining (Text.lines output) before).drop 1 := List.foldl_concat ..
    rw [accepted_iff_of_absent, blank]
    rfl

/-- The pattern occurs after the empty line, and nothing is found or follows in between. -/
theorem absent_outlives_blank :
    (validate "\nq\n" [.blank]).result = .ok () ∧
      (validate "\nq\n" [.absent "q", .blank]).result = .error (.present "q" "q") := by
  constructor <;> decide +kernel

end Exclusions

end RegisterIR.Check
