import RegisterIR.Proofs.ReaderMotions
import RegisterIR.Scanning.Token

/-! Scanning by byte offsets. From the offset at which some rest of the text begins, a scanner does
what the reader does with that rest: it ends at the offset of what the reader leaves, or reports the
error of the reader with its line and column. So no slice is ever taken inside a character. -/

namespace RegisterIR

namespace Text

theorem utf8ByteSize_ofList_append (first second : List Char) :
    (String.ofList (first ++ second)).utf8ByteSize =
      (String.ofList first).utf8ByteSize + (String.ofList second).utf8ByteSize := by
  rw [String.ofList_append, String.utf8ByteSize_append]

theorem utf8ByteSize_ofList_cons (c : Char) (rest : List Char) :
    (String.ofList (c :: rest)).utf8ByteSize = c.utf8Size + (String.ofList rest).utf8ByteSize := by
  rw [String.ofList_cons, String.utf8ByteSize_append, String.utf8ByteSize_singleton]

theorem utf8ByteSize_ofList {letters : List Char} (small : ∀ c ∈ letters, c.utf8Size = 1) :
    (String.ofList letters).utf8ByteSize = letters.length := by
  induction letters with
  | nil => rfl
  | cons c letters ih =>
    obtain ⟨first, others⟩ := List.forall_mem_cons.mp small
    rw [utf8ByteSize_ofList_cons, first, ih others, List.length_cons, Nat.add_comm]

end Text

open Reading (Reader Reads reads_bind reads_pure isWordChar skipFrom)

namespace Reading

theorem utf8Size_of_isWordChar {c : Char} (h : isWordChar c = true) : c.utf8Size = 1 := by
  have range := toNat_of_isWordChar h
  refine Char.utf8Size_eq_one_iff.mpr (UInt32.le_iff_toNat_le.mpr ?_)
  have number : c.val.toNat = c.toNat := rfl
  have bound : (127 : UInt32).toNat = 127 := rfl
  omega

theorem bind_of_reads {α β : Type} {reader : Reader α} {next : α → Reader β}
    {text between : List Char} {value : α} (read : Reads reader text value between) :
    (reader >>= next) text = next value between := by
  have unfolded : (reader >>= next) text = (reader text >>= fun read => next read.1 read.2) := rfl
  have first : reader text = .ok (value, between) := read
  rw [unfolded, first]
  rfl

end Reading

namespace Scanning

variable {α β γ δ : Type}

section Offsets

/-- The text goes on with the given characters at the offset. -/
def Stands (text : String) (position : Nat) (rest : List Char) : Prop :=
  Text.after? text position = some (String.ofList rest)

variable {text : String} {position : Nat} {part rest : List Char}

theorem stands_iff : Stands text position rest ↔
    ∃ before, text = before ++ String.ofList rest ∧ position = before.utf8ByteSize :=
  Text.after?_eq_some_iff

theorem stands_start (text : String) : Stands text 0 text.toList :=
  stands_iff.mpr ⟨"", by simp, rfl⟩

theorem Stands.move (h : Stands text position (part ++ rest)) :
    Stands text (position + (String.ofList part).utf8ByteSize) rest := by
  obtain ⟨before, whole, rfl⟩ := stands_iff.mp h
  refine stands_iff.mpr ⟨before ++ String.ofList part, ?_, (String.utf8ByteSize_append ..).symm⟩
  rw [whole, String.ofList_append, String.append_assoc]

theorem Stands.atEnd_iff (h : Stands text position rest) :
    text.utf8ByteSize ≤ position ↔ rest = [] := by
  obtain ⟨before, rfl, rfl⟩ := stands_iff.mp h
  rw [String.utf8ByteSize_append]
  constructor
  · intro ended
    have none : (String.ofList rest).utf8ByteSize = 0 := by omega
    simpa using String.utf8ByteSize_eq_zero_iff.mp none
  · rintro rfl
    exact Nat.le_refl _

end Offsets

section Following

variable {rest rest' between : List Char} {references references' recorded : List (List String)}

/-- From every offset at which `rest` begins, with the names recorded so far, the scanner gives the
value and ends where `rest'` begins. -/
def Runs (scanner : Scanner α) (rest : List Char) (references : List (List String)) (value : α)
    (rest' : List Char) (references' : List (List String)) : Prop :=
  ∀ text position, Stands text position rest → ∃ position',
    scanner ⟨text, position, references⟩ = .ok (value, ⟨text, position', references'⟩) ∧
      Stands text position' rest'

def Halts (scanner : Scanner α) (rest : List Char) (references : List (List String))
    (error : ParseError (List Char)) : Prop :=
  ∀ text position, Stands text position rest →
    scanner ⟨text, position, references⟩ =
      .error (.error (error.mapPlace (Position.ofRest text.toList)))

/-- Where `rest` begins, the scanner does what the reader does with it. What is recorded after it
and what the two give are in the relation. -/
structure Follows (rest : List Char) (references : List (List String)) (scanner : Scanner α)
    (reader : Reader β) (agree : List (List String) → β → α → Prop) : Prop where
  reads : ∀ {result rest'}, Reads reader rest result rest' → ∃ value references',
    Runs scanner rest references value rest' references' ∧ agree references' result value
  stops : ∀ {error}, reader rest = .error error → Halts scanner rest references error

theorem runs_pure (value : α) : Runs (pure value) rest references value rest references :=
  fun _ position here => ⟨position, rfl, here⟩

theorem bind_eq (scanner : Scanner α) (next : α → Scanner γ) (parser : Parser) :
    (scanner >>= next) parser = (scanner parser >>= fun scanned => next scanned.1 scanned.2) := rfl

theorem Runs.bind {scanner : Scanner α} {next : α → Scanner γ} {value : α} {result : γ}
    (first : Runs scanner rest references value between recorded)
    (second : Runs (next value) between recorded result rest' references') :
    Runs (scanner >>= next) rest references result rest' references' := by
  intro text position here
  obtain ⟨middle, scanned, there⟩ := first text position here
  obtain ⟨last, done, ending⟩ := second text middle there
  refine ⟨last, ?_, ending⟩
  rw [bind_eq, scanned]
  exact done

theorem Halts.bind {scanner : Scanner α} {error : ParseError (List Char)}
    (first : Halts scanner rest references error) (next : α → Scanner γ) :
    Halts (scanner >>= next) rest references error := by
  intro text position here
  rw [bind_eq, first text position here]
  rfl

theorem Runs.halts {scanner : Scanner α} {next : α → Scanner γ} {value : α}
    {error : ParseError (List Char)} (first : Runs scanner rest references value between recorded)
    (second : Halts (next value) between recorded error) :
    Halts (scanner >>= next) rest references error := by
  intro text position here
  obtain ⟨middle, scanned, there⟩ := first text position here
  rw [bind_eq, scanned]
  exact second text middle there

variable {agree : List (List String) → β → α → Prop} {agree' : List (List String) → δ → γ → Prop}

theorem follows_pure {value : α} {result : β} (h : agree references result value) :
    Follows rest references (pure value) (pure result) agree where
  reads read := by
    obtain ⟨rfl, rfl⟩ := reads_pure.mp read
    exact ⟨value, references, runs_pure value, h⟩
  stops failed := by cases failed

theorem Follows.bind {scanner : Scanner α} {reader : Reader β} {next : α → Scanner γ}
    {next' : β → Reader δ} (first : Follows rest references scanner reader agree)
    (later : ∀ {result value between recorded}, Reads reader rest result between →
      agree recorded result value → Follows between recorded (next value) (next' result) agree') :
    Follows rest references (scanner >>= next) (reader >>= next') agree' where
  reads read := by
    obtain ⟨result, between, firstRead, read⟩ := reads_bind.mp read
    obtain ⟨value, recorded, scanned, agreed⟩ := first.reads firstRead
    obtain ⟨last, references', done, settled⟩ := (later firstRead agreed).reads read
    exact ⟨last, references', scanned.bind done, settled⟩
  stops failed := by
    rcases bind_eq_error_iff.mp failed with failed | ⟨read, firstRead, failed⟩
    · exact (first.stops failed).bind next
    · obtain ⟨value, recorded, scanned, agreed⟩ := first.reads firstRead
      exact scanned.halts ((later firstRead agreed).stops failed)

theorem Follows.congr {scanner : Scanner α} {reader reader' : Reader β}
    (h : Follows rest references scanner reader agree) (same : reader' rest = reader rest) :
    Follows rest references scanner reader' agree where
  reads read := h.reads (same.symm.trans read)
  stops failed := h.stops (same.symm.trans failed)

theorem Follows.after {first : Scanner α} {next : α → Scanner γ} {reader reader' : Reader δ}
    {value : α} (moved : Runs first rest references value between recorded)
    (same : reader' rest = reader between)
    (h : Follows between recorded (next value) reader agree') :
    Follows rest references (first >>= next) reader' agree' where
  reads read := by
    obtain ⟨result, references', scanned, agreed⟩ := h.reads (same.symm.trans read)
    exact ⟨result, references', moved.bind scanned, agreed⟩
  stops failed := moved.halts (h.stops (same.symm.trans failed))

theorem follows_of_halts {scanner : Scanner α} {reader : Reader β}
    {error : ParseError (List Char)} (failed : reader rest = .error error)
    (stopped : Halts scanner rest references error) :
    Follows rest references scanner reader agree where
  reads read := by
    have same := failed.symm.trans read
    cases same
  stops other := by
    obtain rfl := Except.error.inj (failed.symm.trans other)
    exact stopped

def Scans (scanner : Scanner α) (rest : List Char) (value : α) (rest' : List Char) : Prop :=
  ∀ references, Runs scanner rest references value rest' references

def Stops (scanner : Scanner α) (rest : List Char) (error : ParseError (List Char)) : Prop :=
  ∀ references, Halts scanner rest references error

def Same (references references' : List (List String)) (result value : α) : Prop :=
  references' = references ∧ value = result

/-- The scanner gives what the reader gives, and records nothing. -/
def Mirrors (scanner : Scanner α) (reader : Reader α) : Prop :=
  ∀ rest references, Follows rest references scanner reader (Same references)

theorem scans_pure (value : α) : Scans (pure value) rest value rest := fun _ => runs_pure value

theorem Scans.bind {scanner : Scanner α} {next : α → Scanner γ} {value : α} {result : γ}
    (first : Scans scanner rest value between) (second : Scans (next value) between result rest') :
    Scans (scanner >>= next) rest result rest' :=
  fun references => (first references).bind (second references)

theorem Scans.stops {scanner : Scanner α} {next : α → Scanner γ} {value : α}
    {error : ParseError (List Char)} (first : Scans scanner rest value between)
    (second : Stops (next value) between error) : Stops (scanner >>= next) rest error :=
  fun references => (first references).halts (second references)

theorem follows_of_scans {scanner : Scanner α} {reader : Reader α} {value : α}
    (read : Reads reader rest value rest') (scanned : Scans scanner rest value rest') :
    Follows rest references scanner reader (Same references) where
  reads other := by
    obtain ⟨rfl, rfl⟩ := Prod.mk.inj (Except.ok.inj (read.symm.trans other))
    exact ⟨value, references, scanned references, rfl, rfl⟩
  stops failed := by
    have same := read.symm.trans failed
    cases same

theorem Mirrors.andThen {scanner : Scanner α} {reader : Reader α} {next : α → Scanner γ}
    {next' : α → Reader δ} (first : Mirrors scanner reader)
    (later : ∀ {value between}, Reads reader rest value between →
      Follows between references (next value) (next' value) agree') :
    Follows rest references (scanner >>= next) (reader >>= next') agree' :=
  (first rest references).bind fun read agreed => by
    obtain ⟨rfl, rfl⟩ := agreed
    exact later read

theorem mirrors_pure (value : α) : Mirrors (pure value) (pure value) :=
  fun _ _ => follows_pure ⟨rfl, rfl⟩

theorem Mirrors.bind {scanner : Scanner α} {reader : Reader α} {next : α → Scanner γ}
    {next' : α → Reader γ} (first : Mirrors scanner reader)
    (later : ∀ value, Mirrors (next value) (next' value)) :
    Mirrors (scanner >>= next) (reader >>= next') :=
  fun _ _ => first.andThen fun _ => later _ _ _

end Following

section Slices

variable {rest tail : List Char}

theorem scans_remaining (rest : List Char) :
    Scans remaining rest (String.ofList rest) rest := by
  intro references text position here
  refine ⟨position, ?_, here⟩
  have unfolded : remaining ⟨text, position, references⟩ =
    slice (Text.after? text position) ⟨text, position, references⟩ := rfl
  rw [unfolded, here]
  rfl

theorem scans_slice {cut : Option String} {part : String} (h : cut = some part)
    (rest : List Char) : Scans (slice cut) rest part rest := by
  subst h
  exact scans_pure part

theorem scans_move (part rest : List Char) :
    Scans (move (String.ofList part).utf8ByteSize) (part ++ rest) () rest :=
  fun _ _ position here => ⟨position + (String.ofList part).utf8ByteSize, rfl, here.move⟩

theorem scans_peek (rest : List Char) : Scans peek rest rest.head? rest := by
  have done : Scans (pure (String.ofList rest).toList.head?) rest rest.head? rest := by
    rw [String.toList_ofList]
    exact scans_pure rest.head?
  exact (scans_remaining rest).bind done

theorem scans_advance_cons (c : Char) (rest : List Char) :
    Scans advance (c :: rest) (some c) rest := by
  have moved := scans_move [c] rest
  rw [Text.utf8ByteSize_ofList_cons] at moved
  exact (scans_peek (c :: rest)).bind (Scans.bind moved (scans_pure (some c)))

theorem scans_advance_nil : Scans advance [] none [] :=
  (scans_peek []).bind (scans_pure none)

theorem scans_atEnd (rest : List Char) : Scans atEnd rest rest.isEmpty rest := by
  intro references text position here
  refine ⟨position, ?_, here⟩
  have ended : decide (text.utf8ByteSize ≤ position) = rest.isEmpty := by
    rw [Bool.eq_iff_iff, decide_eq_true_iff, here.atEnd_iff, List.isEmpty_iff]
  rw [← ended]
  rfl

theorem Runs.bounded {loop : Nat → Scanner α} {references references' : List (List String)}
    {value : α} {rest' : List Char}
    (h : Runs (loop rest.length) rest references value rest' references') :
    Runs (bounded loop) rest references value rest' references' := by
  have inner : Runs (loop (String.ofList rest).toList.length) rest references value rest'
      references' := by
    rw [String.toList_ofList]
    exact h
  exact (scans_remaining rest references).bind inner

theorem Follows.remaining {next : String → Scanner α} {reader : Reader β}
    {references : List (List String)} {agree : List (List String) → β → α → Prop}
    (h : Follows rest references (next (String.ofList rest)) reader agree) :
    Follows rest references (remaining >>= next) reader agree :=
  .after (scans_remaining rest references) rfl h

theorem Follows.bounded {loop : Nat → Scanner α} (loop' : Nat → Reader β)
    {references : List (List String)} {agree : List (List String) → β → α → Prop}
    (h : Follows rest references (loop rest.length) (loop' rest.length) agree) :
    Follows rest references (bounded loop) (fun text => loop' text.length text) agree := by
  have inner : Follows rest references (loop (String.ofList rest).toList.length)
      (loop' rest.length) agree := by
    rw [String.toList_ofList]
    exact h
  exact .after (scans_remaining rest references) rfl inner

theorem mirrors_peek : Mirrors peek Reading.peek? := fun rest _ =>
  follows_of_scans rfl (scans_peek rest)

end Slices

section Places

variable {rest : List Char}

theorem lastOffset?_eq_none {c : Char} {letters : List Char} {offset : Nat}
    (h : lastOffset? c offset letters = none) : c ∉ letters := by
  induction letters generalizing offset with
  | nil => exact List.not_mem_nil
  | cons first letters ih =>
    obtain ⟨later, here⟩ := Option.or_eq_none_iff.mp h
    rintro (_ | ⟨_, member⟩)
    · simp at here
    · exact ih later member

theorem lastOffset?_eq_some {c : Char} {letters : List Char} {offset last : Nat}
    (h : lastOffset? c offset letters = some last) : ∃ before line,
      letters = before ++ c :: line ∧ c ∉ line ∧
        last = offset + (String.ofList before).utf8ByteSize := by
  induction letters generalizing offset with
  | nil => cases h
  | cons first letters ih =>
    rw [lastOffset?] at h
    rcases Option.or_eq_some_iff.mp h with later | ⟨none, here⟩
    · obtain ⟨before, line, rfl, absent, rfl⟩ := ih later
      refine ⟨first :: before, line, rfl, absent, ?_⟩
      rw [Text.utf8ByteSize_ofList_cons, Nat.add_assoc]
    -- None stands later, so this one is the last.
    · obtain ⟨rfl, same⟩ := Option.ite_none_right_eq_some.mp here
      exact ⟨[], letters, rfl, lastOffset?_eq_none none, (Option.some.inj same).symm⟩

theorem takeWhile_reverse {line : List Char} (absent : '\n' ∉ line) (before : List Char) :
    (line.reverse ++ '\n' :: before).takeWhile (· ≠ '\n') = line.reverse ∧
      line.reverse.takeWhile (· ≠ '\n') = line.reverse := by
  have all : ∀ c ∈ line.reverse, decide (c ≠ '\n') = true := by
    intro c member
    have other : c ≠ '\n' := fun same => absent (same ▸ List.mem_reverse.mp member)
    simpa using other
  have alone : (line.reverse ++ []).takeWhile (· ≠ '\n') = line.reverse ++ [] :=
    List.takeWhile_append_of_pos all
  rw [List.takeWhile_append_of_pos all]
  exact ⟨by simp, by simpa using alone⟩

theorem exists_lastLine (before : List Char) : ∃ line,
    Text.after? (String.ofList before) ((lastOffset? '\n' 0 before).elim 0 (· + 1)) =
      some (String.ofList line) ∧
    line.length = (before.reverse.takeWhile (· ≠ '\n')).length := by
  cases found : lastOffset? '\n' 0 before with
  | none =>
    have absent := lastOffset?_eq_none found
    refine ⟨before, Text.after?_eq_some_iff.mpr ⟨"", by simp, rfl⟩, ?_⟩
    rw [(takeWhile_reverse absent []).2, List.length_reverse]
  | some last =>
    obtain ⟨first, line, rfl, absent, rfl⟩ := lastOffset?_eq_some found
    refine ⟨line, Text.after?_eq_some_iff.mpr ⟨String.ofList (first ++ ['\n']), ?_, ?_⟩, ?_⟩
    · rw [← String.ofList_append, List.append_assoc, List.singleton_append]
    · rw [Text.utf8ByteSize_ofList_append, Nat.zero_add]
      rfl
    · rw [List.reverse_append, List.reverse_cons, List.append_assoc, List.singleton_append,
        (takeWhile_reverse absent _).1, List.length_reverse]

theorem place_eq {text : String} {position : Nat} (references : List (List String))
    (here : Stands text position rest) : ∃ parser,
      place ⟨text, position, references⟩ = .ok (Position.ofRest text.toList rest, parser) := by
  obtain ⟨before, rfl, rfl⟩ := stands_iff.mp here
  have first : Text.before? (before ++ String.ofList rest) before.utf8ByteSize = some before :=
    Text.before?_eq_some_iff.mpr ⟨_, rfl, rfl⟩
  obtain ⟨line, found, length⟩ := exists_lastLine before.toList
  rw [String.ofList_toList] at found
  have consumed : Position.ofRest (before ++ String.ofList rest).toList rest =
      Position.after before.toList := by
    rw [Position.ofRest, String.toList_append, String.toList_ofList, List.length_append,
      Nat.add_sub_cancel, List.take_left]
  rw [consumed, Position.after, ← length]
  -- The column is counted in characters, on the slice behind the last line break.
  have steps : Scans (do
      let before ← slice (Text.before? (before ++ String.ofList rest) before.utf8ByteSize)
      let line ← slice (Text.after? before ((lastOffset? '\n' 0 before.toList).elim 0 (· + 1)))
      pure (⟨before.toList.count '\n' + 1, line.toList.length + 1⟩ : Position)) rest
      ⟨before.toList.count '\n' + 1, (String.ofList line).toList.length + 1⟩ rest :=
    (scans_slice first rest).bind ((scans_slice found rest).bind (scans_pure _))
  rw [String.toList_ofList] at steps
  obtain ⟨_, placed, _⟩ := steps references _ _ here
  exact ⟨_, placed⟩

theorem stops_fail (reason : Malformation) (rest : List Char) :
    Stops (fail reason : Scanner α) rest (.malformed rest reason) := by
  intro references text position here
  have unfolded : (fail reason : Scanner α) ⟨text, position, references⟩ =
    (place ⟨text, position, references⟩ >>=
      fun placed => .error (.error (.malformed placed.1 reason))) := rfl
  obtain ⟨parser, placed⟩ := place_eq references here
  rw [unfolded, placed]
  rfl

theorem stops_unexpected (what : String) (rest : List Char) :
    Stops (unexpected what : Scanner α) rest (.malformed rest (.expected what rest.head?)) :=
  (scans_peek rest).stops (stops_fail _ rest)

variable {references : List (List String)} {agree : List (List String) → β → α → Prop}

theorem follows_fail (reason : Malformation) :
    Follows rest references (fail reason) (Reading.fail reason) agree :=
  follows_of_halts rfl (stops_fail reason rest references)

theorem follows_unexpected (what : String) :
    Follows rest references (unexpected what) (Reading.unexpected what) agree :=
  follows_of_halts rfl (stops_unexpected what rest references)

theorem follows_raise {error : ParseError Position} {error' : ParseError (List Char)}
    (same : ∀ places, error'.mapPlace places = error) :
    Follows rest references (raise error) (Reading.raise error') agree := by
  refine follows_of_halts rfl fun text position _ => ?_
  rw [same]
  rfl

end Places

end Scanning

end RegisterIR
