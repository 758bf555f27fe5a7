import RegisterIR.Proofs.ReadPlaces

/-! Every loop of the readers makes progress. A round calls for another one only on a shorter end of
its text, so the number of characters bounds the number of rounds: a loop is the one reader that is
its own round, and the bound that its definition counts down never cuts it short. -/

namespace RegisterIR.Reading

open Motion

variable {α β σ : Type} {text between rest : List Char}

section Loops

def Below (text rest : List Char) : Prop := rest <:+ text ∧ rest.length < text.length

theorem Below.further (h : Below text between) (later : rest <:+ between) : Below text rest :=
  ⟨later.trans h.1, Nat.lt_of_le_of_lt later.length_le h.2⟩

theorem Below.of_suffix (first : between <:+ text) (h : Below between rest) : Below text rest :=
  ⟨h.1.trans first, Nat.lt_of_lt_of_le h.2 first.length_le⟩

theorem below_cons (c : Char) (h : rest <:+ text) : Below (c :: text) rest :=
  ⟨h.trans (List.suffix_cons c text), Nat.lt_succ_of_le h.length_le⟩

theorem Consumes.below {reader : Reader α} (h : Consumes reader) {value : α}
    (read : Reads reader text value rest) : Below text rest :=
  ⟨h.stays.reads read, h.less read⟩

/-- A round goes on only on shorter ends of its text: what follows may be replaced by anything that
does the same there. -/
def Descends (round : (σ → Reader α) → σ → Reader α) : Prop :=
  ∀ {next next' : σ → Reader α} {text : List Char}, (∀ state, inside.Allows (next state)) →
    (∀ state rest, Below text rest → next state rest = next' state rest) →
      ∀ state, round next state text = round next' state text

/-- The reader repeats the round until it does not go on; it is the only one that does. -/
structure IsLoop (round : (σ → Reader α) → σ → Reader α) (reader : σ → Reader α) : Prop where
  unrolled : ∀ state, reader state = round reader state
  descends : Descends round
  unique : ∀ other : σ → Reader α, (∀ state, other state = round other state) → other = reader

section Bounds

variable {round : (σ → Reader α) → σ → Reader α} (within : Nat → σ → Reader α)
  (stays : ∀ bound state, inside.Allows (within bound state))
  (succ : ∀ bound state, within (bound + 1) state = round (within bound) state)
  (empty : ∀ next state, within 0 state [] = round next state [])
  (descends : Descends round)
include stays succ empty descends

/-- More rounds than characters make no difference. -/
theorem within_eq {bound : Nat} (enough : text.length ≤ bound) (state : σ) :
    within bound state text = within text.length state text := by
  induction size : text.length using Nat.strongRecOn generalizing text bound state with
  | _ length ih =>
    subst size
    cases bound with
    | zero =>
      rw [Nat.le_zero.mp enough]
    | succ bound =>
      cases text with
      | nil => rw [succ, List.length_nil, empty]
      | cons c tail =>
        rw [List.length_cons, succ, succ]
        refine descends (stays bound) (fun state rest below => ?_) state
        have fewer : rest.length ≤ tail.length := Nat.le_of_lt_succ below.2
        rw [ih _ below.2 (Nat.le_trans fewer (Nat.le_of_succ_le_succ enough)) state rfl,
          ih _ below.2 fewer state rfl]

theorem isLoop_of_rounds : IsLoop round fun state text => within text.length state text := by
  have unrolled (state : σ) (text : List Char) : within text.length state text =
      round (fun state text => within text.length state text) state text := by
    cases text with
    | nil => exact empty _ state
    | cons c tail =>
      rw [List.length_cons, succ]
      refine descends (stays _) (fun state rest below => ?_) state
      exact within_eq within stays succ empty descends (Nat.le_of_lt_succ below.2) state
  refine ⟨fun state => funext (unrolled state), descends, fun other same => ?_⟩
  funext state text
  induction size : text.length using Nat.strongRecOn generalizing text state with
  | _ length ih =>
    rw [← size, unrolled, same]
    refine (descends (fun state => allows_unbounded (stays · state)) (fun state rest below => ?_)
      state).symm
    rw [ih rest.length (size ▸ below.2) state rest rfl]

end Bounds

end Loops

section Congruence

theorem bind_congr_at {first first' : Reader α} {next next' : α → Reader β}
    (same : first text = first' text)
    (later : ∀ value rest, Reads first text value rest → next value rest = next' value rest) :
    (first >>= next) text = (first' >>= next') text := by
  have unfolded (first : Reader α) (next : α → Reader β) : (first >>= next) text =
      (first text >>= fun read => next read.1 read.2) := rfl
  rw [unfolded, unfolded, ← same]
  cases result : first text with
  | error error => rfl
  | ok read => exact later read.1 read.2 result

theorem itemsWithin_congr {step step' : β → Reader β} (stays : ∀ state, inside.Allows (step state))
    (same : ∀ state rest, rest <:+ text → step state rest = step' state rest) (bound : Nat)
    (start : β) : itemsWithin step bound start text = itemsWithin step' bound start text := by
  induction bound generalizing start text with
  | zero => exact bind_congr_at (same start text (List.suffix_refl _)) fun _ _ _ => rfl
  | succ bound ih =>
    refine bind_congr_at (same start text (List.suffix_refl _)) fun items rest read => ?_
    refine bind_congr_at rfl fun closed rest' accepted => ?_
    cases closed with
    | true => rfl
    | false =>
      refine bind_congr_at rfl fun _ rest'' comma => ?_
      have first : rest <:+ text := (stays start).reads read
      have second : inside.reads rest rest' := (allows_accept (by decide)).reads accepted
      have third : inside.reads rest' rest'' := (allows_expect (by decide)).reads comma
      exact ih (fun state rest below =>
        same state rest (((below.trans third).trans second).trans first)) items

def appending (reader : Reader α) (items : List α) : Reader (List α) := do
  let item ← reader
  pure (items ++ [item])

theorem allows_appending {motion : Motion} {reader : Reader α} (h : motion.Allows reader)
    (items : List α) : motion.Allows (appending reader items) :=
  h.bind fun _ => allows_pure _

theorem list_congr {reader reader' : Reader α} (stays : inside.Allows reader)
    (same : ∀ rest, Below text rest → reader rest = reader' rest) :
    list reader text = list reader' text := by
  refine bind_congr_at rfl fun _ between opened => ?_
  have below := (consumes_expect (by decide)).below opened
  refine bind_congr_at rfl fun closed rest accepted => ?_
  cases closed with
  | true => rfl
  | false =>
    have further : inside.reads between rest := (allows_accept (by decide)).reads accepted
    refine itemsWithin_congr (allows_appending stays) (fun items rest' later => ?_) _ []
    exact bind_congr_at (same rest' (below.further (later.trans further))) fun _ _ _ => rfl

end Congruence

section Rounds

variable (types : TypeTable)

theorem descends_quotedRound : Descends fun next (_ : Unit) => quotedRound (next ()) := by
  intro next next' text stays same _
  have content (c : Char) {rest : List Char} (below : Below text rest) :
      (do
        let content ← next ()
        pure (c :: content) : Reader (List Char)) rest =
      (do
        let content ← next' ()
        pure (c :: content) : Reader (List Char)) rest :=
    bind_congr_at (same () rest below) fun _ _ _ => rfl
  dsimp only [quotedRound]
  split
  · rfl
  · rfl
  · refine bind_congr_at rfl fun c rest read => ?_
    exact content c (below_cons _ (inside_escape.reads read))
  · exact content _ (below_cons _ (List.suffix_refl _))

theorem descends_itemsRound {step : β → Reader β} (stays : ∀ state, inside.Allows (step state)) :
    Descends (itemsRound step) := by
  intro next next' text _ same start
  refine bind_congr_at rfl fun items between read => ?_
  refine bind_congr_at rfl fun closed rest accepted => ?_
  cases closed with
  | true => rfl
  | false =>
    refine bind_congr_at rfl fun _ rest' comma => ?_
    have first : between <:+ text := (stays start).reads read
    have second : inside.reads between rest := (allows_accept (by decide)).reads accepted
    have below := (consumes_expect (by decide)).below comma
    exact same items rest' (below.of_suffix (second.trans first))

theorem descends_fieldsRound {step : β → Reader β} (stays : ∀ state, inside.Allows (step state)) :
    Descends (fieldsRound step) := by
  intro next next' text _ same start
  refine bind_congr_at rfl fun closed between accepted => ?_
  have first : inside.reads text between := (allows_accept (by decide)).reads accepted
  cases closed with
  | true => rfl
  | false =>
    refine bind_congr_at rfl fun fields rest read => bind_congr_at rfl fun comma rest' found => ?_
    cases comma with
    | true =>
      have second : rest <:+ between := (stays start).reads read
      have third : inside.reads rest rest' := (allows_accept (by decide)).reads found
      have below : Below rest rest' := ⟨third, less_of_reads_accept (by decide) found⟩
      exact same fields rest' (below.of_suffix (second.trans first))
    | false => rfl

theorem descends_typeRound : Descends fun next (_ : Unit) => typeRound types (next ()) := by
  intro next next' text stays same _
  refine bind_congr_at rfl fun word rest read => ?_
  have below := consumes_identifier.below read
  have lists {rest : List Char} (below : Below text rest) :
      list (next ()) rest = list (next' ()) rest :=
    list_congr (stays ()) fun rest' later => same () rest' (below.further later.1)
  split
  iterate 8 rfl
  · refine bind_congr_at (lists below) fun _ between listed => ?_
    refine bind_congr_at rfl fun _ rest' arrow => ?_
    have second : between <:+ rest := (stays ()).list.reads listed
    have third : inside.reads between rest' := (allows_expect (by decide)).reads arrow
    exact bind_congr_at (same () rest' (below.further (third.trans second))) fun _ _ _ => rfl
  · exact bind_congr_at (lists below) fun _ _ _ => rfl
  · rfl

theorem descends_literalRound : Descends fun next (_ : Unit) => literalRound types (next ()) := by
  intro next next' text stays same _
  refine bind_congr_at rfl fun _ between skipped => bind_congr_at rfl fun first rest peeked => ?_
  obtain ⟨_, rfl⟩ := reads_peek?.mp peeked
  have start : inside.reads text rest := allows_skip.reads skipped
  split
  · rfl
  · rfl
  · refine bind_congr_at (list_congr (stays ()) fun rest' below => ?_) fun _ _ _ => rfl
    exact same () rest' (below.of_suffix start)
  · split
    · rfl
    · refine bind_congr_at rfl fun word rest' read => ?_
      have below := (consumes_identifier.below read).of_suffix start
      split
      · rfl
      · rfl
      · refine bind_congr_at rfl fun element after found => ?_
        have second : inside.reads rest' after := (allows_elementOf types _).reads found
        refine bind_congr_at rfl fun opened after' accepted => ?_
        have third : inside.reads after after' := (allows_accept (by decide)).reads accepted
        cases opened with
        | true =>
          exact bind_congr_at (same () after' (below.further (third.trans second))) fun _ _ _ => rfl
        | false => rfl

section Nested

variable {nested nested' : Nested} (stays : ∀ registers, inside.Allows (nested registers))
  (same : ∀ registers rest, Below text rest → nested registers rest = nested' registers rest)

include same in
theorem caseOf_congr (registers : Registers) :
    caseOf types nested registers text = caseOf types nested' registers text := by
  refine bind_congr_at rfl fun found between keyword => ?_
  have first : inside.reads text between := (allows_acceptKeyword (by decide)).reads keyword
  cases found with
  | true =>
    refine bind_congr_at rfl fun guarded rest guard => bind_congr_at rfl fun _ rest' opened => ?_
    have second : inside.reads between rest := (allows_guard types registers).reads guard
    have below := (consumes_expect (by decide)).below opened
    exact bind_congr_at (same _ rest' (below.of_suffix (second.trans first))) fun _ _ _ => rfl
  | false => exact bind_congr_at rfl fun _ _ read => absurd read not_reads_unexpected

include stays in
theorem descends_casesRound : Descends (casesRound types nested) := by
  intro next next' text _ same registers
  refine bind_congr_at rfl fun closed between accepted => ?_
  have first : inside.reads text between := (allows_accept (by decide)).reads accepted
  cases closed with
  | true => rfl
  | false =>
    refine bind_congr_at rfl fun case rest read => ?_
    have below := ((consumes_caseOf types stays registers).below read).of_suffix first
    exact bind_congr_at (same _ rest below) fun _ _ _ => rfl

include stays same in
theorem casesWithin_congr (bound : Nat) (registers : Registers) :
    casesWithin types nested bound registers text =
      casesWithin types nested' bound registers text := by
  induction bound generalizing registers text with
  | zero => rfl
  | succ bound ih =>
    refine bind_congr_at rfl fun closed between accepted => ?_
    have first : inside.reads text between := (allows_accept (by decide)).reads accepted
    cases closed with
    | true => rw [if_pos rfl, if_pos rfl]
    | false =>
      have shorter {rest : List Char} (below : rest <:+ between) :
          ∀ registers rest', Below rest rest' → nested registers rest' = nested' registers rest' :=
        fun registers rest' later => same registers rest' (later.of_suffix (below.trans first))
      refine bind_congr_at (caseOf_congr types (shorter (List.suffix_refl _)) registers)
        fun case rest read => ?_
      have below : rest <:+ between := (consumes_caseOf types stays registers).stays.reads read
      exact bind_congr_at (ih (shorter below) _) fun _ _ _ => rfl

include stays same in
theorem instruction_congr (registers : Registers) :
    instruction types nested registers text = instruction types nested' registers text := by
  refine bind_congr_at rfl fun _ between skipped => bind_congr_at rfl fun first rest peeked => ?_
  obtain ⟨_, rfl⟩ := reads_peek?.mp peeked
  have start : inside.reads text rest := allows_skip.reads skipped
  split
  · refine bind_congr_at rfl fun result after defined => bind_congr_at rfl fun _ after' equals => ?_
    have below := ((consumes_newRegister registers).below defined).of_suffix start
    have second : inside.reads after after' := (allows_expect (by decide)).reads equals
    refine bind_congr_at rfl fun keyword after'' read => ?_
    have third : inside.reads after' after'' := allows_identifier.reads read
    split
    · rfl
    · refine bind_congr_at rfl fun key rest' named => bind_congr_at rfl fun _ rest'' opened => ?_
      have fourth : inside.reads after'' rest' := (allows_register _).reads named
      have fifth : inside.reads rest' rest'' := (allows_expect (by decide)).reads opened
      refine bind_congr_at (casesWithin_congr types stays (fun registers last later => ?_) _ _)
        fun _ _ _ => rfl
      have ends := ((fifth.trans fourth).trans third).trans second
      exact same registers last (below.further (later.1.trans ends))
    · rfl
  · refine bind_congr_at rfl fun keyword after read => ?_
    have below := (consumes_identifier.below read).of_suffix start
    split
    · refine bind_congr_at rfl fun _ after' opened => ?_
      have second : inside.reads after after' := (allows_expect (by decide)).reads opened
      exact bind_congr_at (same registers after' (below.further second)) fun _ _ _ => rfl
    · rfl
    · rfl

end Nested

theorem descends_bodyRound : Descends (bodyRound types) := by
  intro next next' text stays same registers
  refine bind_congr_at rfl fun closed between accepted => ?_
  have first : inside.reads text between := (allows_accept (by decide)).reads accepted
  cases closed with
  | true => rfl
  | false =>
    refine bind_congr_at rfl fun found rest peeked => ?_
    obtain ⟨_, rfl⟩ := reads_peek?.mp peeked
    split
    · rfl
    · have shorter (registers : Registers) (rest' : List Char) (below : Below rest rest') :
          next registers rest' = next' registers rest' :=
        same registers rest' (below.of_suffix first)
      refine bind_congr_at (instruction_congr types stays shorter registers)
        fun instruction after read => ?_
      have below := (consumes_instruction types stays registers).below read
      exact bind_congr_at (shorter _ after below) fun _ _ _ => rfl

theorem descends_declarationsRound : Descends declarationsRound := by
  intro next next' text _ same declarations
  refine bind_congr_at rfl fun _ between skipped => bind_congr_at rfl fun found rest peeked => ?_
  obtain ⟨_, rfl⟩ := reads_peek?.mp peeked
  have start : inside.reads text rest := allows_skip.reads skipped
  split
  · rfl
  · refine bind_congr_at rfl fun declared after read => ?_
    exact same declared after (((consumes_declaration declarations).below read).of_suffix start)

end Rounds

section Instances

def NeedsText (reader : Reader α) : Prop := ∀ value rest, ¬ Reads reader [] value rest

theorem Consumes.needsText {reader : Reader α} (h : Consumes reader) : NeedsText reader :=
  fun _ _ read => absurd (h.less read) (Nat.not_lt_zero _)

theorem NeedsText.bind {reader : Reader α} (h : NeedsText reader) (next : α → Reader β) :
    NeedsText (reader >>= next) := by
  intro value rest read
  obtain ⟨first, between, read, _⟩ := reads_bind.mp read
  exact h first between read

variable (types : TypeTable)

theorem needsText_type : NeedsText (type types) := by
  intro value rest read
  obtain ⟨_, _, _, read⟩ := reads_bind.mp (read : Reads (typeWithin types 0) [] value rest)
  exact not_reads_unexpected read

theorem needsText_literal : NeedsText (literal types) := by
  intro value rest read
  obtain ⟨_, _, _, read⟩ := reads_bind.mp (read : Reads (literalWithin types 0) [] value rest)
  exact not_reads_unexpected read

theorem isLoop_items {step : β → Reader β} (stays : ∀ state, inside.Allows (step state))
    (needs : ∀ state, NeedsText (step state)) :
    IsLoop (itemsRound step) fun items text => itemsWithin step text.length items text :=
  isLoop_of_rounds (itemsWithin step) (allows_itemsWithin stays) (fun _ _ => rfl)
    (fun _ items => bind_congr_at rfl fun _ _ read => absurd read (needs items _ _))
    (descends_itemsRound stays)

theorem isLoop_list {reader : Reader α} (stays : inside.Allows reader) (needs : NeedsText reader) :
    IsLoop (itemsRound (appending reader))
      fun items text => itemsWithin (appending reader) text.length items text :=
  isLoop_items (allows_appending stays) fun _ => needs.bind _

theorem isLoop_fields {step : β → Reader β} (stays : ∀ state, inside.Allows (step state))
    (needs : ∀ state, NeedsText (step state)) :
    IsLoop (fieldsRound step) fun fields text => fieldsWithin step text.length fields text := by
  refine isLoop_of_rounds (fieldsWithin step) (allows_fieldsWithin stays) (fun _ _ => rfl)
    (fun next fields => bind_congr_at rfl fun closed rest accepted => ?_)
    (descends_fieldsRound stays)
  cases closed with
  | true => rfl
  | false =>
    obtain rfl := (reads_accept_false.mp accepted).2
    exact bind_congr_at rfl fun _ _ read => absurd read (needs fields _ _)

theorem isLoop_quoted : IsLoop (fun next (_ : Unit) => quotedRound (next ()))
    fun _ text => quotedWithin text.length text :=
  isLoop_of_rounds (fun bound _ => quotedWithin bound) (fun bound _ => inside_quotedWithin bound)
    (fun _ _ => rfl) (fun _ _ => rfl) descends_quotedRound

theorem isLoop_type : IsLoop (fun next (_ : Unit) => typeRound types (next ()))
    fun _ => type types :=
  isLoop_of_rounds (fun bound _ => typeWithin types bound)
    (fun bound _ => allows_typeWithin types bound) (fun _ _ => rfl) (fun _ _ => rfl)
    (descends_typeRound types)

theorem isLoop_literal : IsLoop (fun next (_ : Unit) => literalRound types (next ()))
    fun _ => literal types :=
  isLoop_of_rounds (fun bound _ => literalWithin types bound)
    (fun bound _ => inside_literalWithin types bound) (fun _ _ => rfl) (fun _ _ => rfl)
    (descends_literalRound types)

theorem isLoop_body : IsLoop (bodyRound types) (body types) :=
  isLoop_of_rounds (bodyWithin types) (inside_bodyWithin types) (fun _ _ => rfl) (fun _ _ => rfl)
    (descends_bodyRound types)

theorem inside_body (registers : Registers) : inside.Allows (body types registers) :=
  allows_unbounded (inside_bodyWithin types · registers)

theorem isLoop_cases : IsLoop (casesRound types (body types))
    fun registers text => casesWithin types (body types) text.length registers text :=
  isLoop_of_rounds (casesWithin types (body types)) (inside_casesWithin types (inside_body types))
    (fun _ _ => rfl) (fun _ _ => rfl) (descends_casesRound types (inside_body types))

theorem isLoop_declarations : IsLoop declarationsRound
    fun declarations text => declarationsWithin text.length declarations text :=
  isLoop_of_rounds declarationsWithin inside_declarationsWithin (fun _ _ => rfl) (fun _ _ => rfl)
    descends_declarationsRound

end Instances

end RegisterIR.Reading
