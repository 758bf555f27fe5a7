import RegisterIR.Proofs.Tokens
import RegisterIR.Text.Layout

/-! Reading sequences: items between parentheses and fields between braces. What the reader of one
item keeps is kept by the whole sequence, and a written sequence is read back item by item. The
bound on the rounds is no restriction, since every item takes up a part of the text. -/

namespace RegisterIR.Reading

variable {α β : Type} {step : β → Reader β} {start last : β} {text rest : List Char}

section Invariant

variable {P : β → Prop}
  (keeps : ∀ {state next : β} {text rest : List Char}, P state → Reads (step state) text next rest →
    P next)
include keeps

theorem itemsWithin_keeps {bound : Nat} (holds : P start)
    (h : Reads (itemsWithin step bound start) text last rest) : P last := by
  induction bound generalizing start text with
  | zero =>
    obtain ⟨items, _, first, closed⟩ := reads_bind.mp h
    obtain ⟨_, _, _, done⟩ := reads_bind.mp closed
    obtain ⟨rfl, _⟩ := reads_pure.mp done
    exact keeps holds first
  | succ bound ih =>
    obtain ⟨items, _, first, more⟩ := reads_bind.mp h
    obtain ⟨found, _, _, next⟩ := reads_bind.mp more
    cases found with
    | true =>
      obtain ⟨rfl, _⟩ := reads_pure.mp next
      exact keeps holds first
    | false =>
      obtain ⟨_, _, _, later⟩ := reads_bind.mp next
      exact ih (keeps holds first) later

theorem items_keeps (holds : P start) (h : Reads (items step start) text last rest) : P last := by
  obtain ⟨_, _, _, opened⟩ := reads_bind.mp h
  obtain ⟨found, _, _, next⟩ := reads_bind.mp opened
  cases found with
  | true =>
    obtain ⟨rfl, _⟩ := reads_pure.mp next
    exact holds
  | false => exact itemsWithin_keeps keeps holds next

theorem fieldsWithin_keeps {bound : Nat} (holds : P start)
    (h : Reads (fieldsWithin step bound start) text last rest) : P last := by
  induction bound generalizing start text with
  | zero =>
    obtain ⟨found, _, _, next⟩ := reads_bind.mp h
    cases found with
    | true =>
      obtain ⟨rfl, _⟩ := reads_pure.mp next
      exact holds
    | false =>
      obtain ⟨fields, _, first, closed⟩ := reads_bind.mp next
      obtain ⟨_, _, _, done⟩ := reads_bind.mp closed
      obtain ⟨rfl, _⟩ := reads_pure.mp done
      exact keeps holds first
  | succ bound ih =>
    obtain ⟨found, _, _, next⟩ := reads_bind.mp h
    cases found with
    | true =>
      obtain ⟨rfl, _⟩ := reads_pure.mp next
      exact holds
    | false =>
      obtain ⟨fields, _, first, more⟩ := reads_bind.mp next
      obtain ⟨comma, _, _, later⟩ := reads_bind.mp more
      cases comma with
      | true => exact ih (keeps holds first) later
      | false =>
        obtain ⟨_, _, _, done⟩ := reads_bind.mp later
        obtain ⟨rfl, _⟩ := reads_pure.mp done
        exact keeps holds first

theorem fields_keeps (holds : P start) (h : Reads (fields step start) text last rest) : P last := by
  obtain ⟨_, _, _, opened⟩ := reads_bind.mp h
  exact fieldsWithin_keeps keeps holds opened

end Invariant

theorem list_forall {reader : Reader α} {P : α → Prop} {values : List α}
    (ensures : ∀ {text rest : List Char} {value : α}, Reads reader text value rest → P value)
    (h : Reads (list reader) text values rest) : ∀ value ∈ values, P value := by
  refine items_keeps (P := fun values => ∀ value ∈ values, P value) ?_ (by simp) h
  intro state next text rest holds read
  obtain ⟨item, _, first, done⟩ := reads_bind.mp read
  obtain ⟨rfl, _⟩ := reads_pure.mp done
  intro value member
  rcases List.mem_append.mp member with old | new
  · exact holds value old
  · rw [List.mem_singleton.mp new]
    exact ensures first

def Closes (rest : List Char) : Prop := ∃ tail, rest = ',' :: tail ∨ rest = ')' :: tail

theorem Closes.ends (h : Closes rest) : Ends rest := by
  obtain ⟨tail, rfl | rfl⟩ := h <;> exact ends_cons (by decide) tail

theorem Closes.skip (h : Closes rest) : skipFrom false rest = rest := by
  obtain ⟨tail, rfl | rfl⟩ := h <;> exact skipFrom_solid (by decide) tail

def Begins (shown : List Char) : Prop :=
  ∃ c tail, shown = c :: tail ∧ isSolid c = true ∧ c ≠ ')' ∧ c ≠ '\x7d'

theorem Begins.skip {shown : List Char} (h : Begins shown) (rest : List Char) :
    skipFrom false (shown ++ rest) = shown ++ rest := by
  obtain ⟨c, tail, rfl, solid, _⟩ := h
  exact skipFrom_solid solid _

theorem Begins.append {shown : List Char} (h : Begins shown) (rest : List Char) :
    Begins (shown ++ rest) := by
  obtain ⟨c, tail, rfl, first⟩ := h
  exact ⟨c, tail ++ rest, rfl, first⟩

theorem Begins.skipped {shown : List Char} (h : Begins shown) (rest : List Char) :
    Begins (skipFrom false (shown ++ rest)) := by
  rw [h.skip]
  exact h.append rest

theorem begins_of_isWord {name : String} (h : IsWord name) : Begins name.toList := by
  obtain ⟨c, tail, letters, isWord⟩ := h.exists_cons
  refine ⟨c, tail, letters, isSolid_of_isWordChar isWord, ?_, ?_⟩ <;> rintro rfl <;>
    exact absurd isWord (by decide)

/-- Written parts of a text one after the other, each of which leads from one result to the next. -/
inductive Chain (reads : β → List Char → β → Prop) : β → List (List Char) → β → Prop
  | nil {state} : Chain reads state [] state
  | cons {state next last shown texts} : Begins shown → reads state shown next →
      Chain reads next texts last → Chain reads state (shown :: texts) last

theorem Chain.begins {reads : β → List Char → β → Prop} {first last : β} {shown : List Char}
    {texts : List (List Char)} (h : Chain reads first (shown :: texts) last) : Begins shown := by
  cases h with
  | cons begins _ _ => exact begins

theorem Chain.append {reads : β → List Char → β → Prop} {first middle last : β}
    {texts texts' : List (List Char)} (h : Chain reads first texts middle)
    (h' : Chain reads middle texts' last) : Chain reads first (texts ++ texts') last := by
  induction h with
  | nil => exact h'
  | cons begins read _ ih => exact .cons begins read (ih h')

theorem Chain.length_le_intercalate {reads : β → List Char → β → Prop} {first last : β}
    {texts : List (List Char)} {separator : List Char} (h : Chain reads first texts last) :
    texts.length ≤ (separator.intercalate texts).length := by
  induction h with
  | nil => exact Nat.zero_le _
  | @cons _ _ _ shown texts begins _ _ ih =>
    obtain ⟨c, tail, rfl, _⟩ := begins
    cases texts with
    | nil => simp
    | cons second texts =>
      rw [List.intercalate_cons_cons, List.length_append, List.length_append]
      simp only [List.length_cons] at ih ⊢
      omega

/-- The written item is read on top of the result so far, whatever closes it. -/
def Steps (step : β → Reader β) (state : β) (shown : List Char) (next : β) : Prop :=
  ∀ text rest, Closes rest → skipFrom false text = shown ++ rest →
    Reads (step state) text next rest

def following (texts : List (List Char)) : List Char :=
  texts.flatMap fun shown => ',' :: ' ' :: shown

theorem reads_itemsWithin {texts : List (List Char)} {shown : List Char} {bound : Nat}
    (chain : Chain (Steps step) start (shown :: texts) last) (rounds : texts.length ≤ bound)
    (here : skipFrom false text = shown ++ following texts ++ ')' :: rest) :
    Reads (itemsWithin step bound start) text last rest := by
  induction texts generalizing start shown bound text with
  | nil =>
    cases chain with
    | cons _ reads later =>
      cases later
      have first := reads text (')' :: rest) ⟨rest, .inr rfl⟩ (by simpa [following] using here)
      cases bound with
      | zero =>
        refine reads_bind.mpr ⟨_, _, first, reads_bind.mpr ⟨(), rest, reads_expect.mpr rfl, ?_⟩⟩
        exact reads_pure.mpr ⟨rfl, rfl⟩
      | succ bound =>
        refine reads_bind.mpr ⟨_, _, first, reads_bind.mpr ⟨true, rest, ?_, ?_⟩⟩
        · exact reads_accept_true.mpr rfl
        · exact reads_pure.mpr ⟨rfl, rfl⟩
  | cons second texts ih =>
    cases chain with
    | @cons _ next _ _ _ _ reads later =>
      cases bound with
      | zero => simp at rounds
      | succ bound =>
        have begins := later.begins
        have first := reads text (following (second :: texts) ++ ')' :: rest)
          ⟨_, .inl rfl⟩ (by rw [here, List.append_assoc])
        refine reads_bind.mpr ⟨next, _, first, ?_⟩
        have comma : skipFrom false (following (second :: texts) ++ ')' :: rest) =
            ',' :: ' ' :: (second ++ following texts ++ ')' :: rest) := by
          simp only [following, List.flatMap_cons, List.cons_append]
          exact skipFrom_solid (by decide) _
        refine reads_bind.mpr ⟨false, _, reads_accept_false_of_ne rfl comma (by decide), ?_⟩
        refine reads_bind.mpr ⟨(), _, reads_expect.mpr rfl, ?_⟩
        refine ih later (Nat.le_of_succ_le_succ rounds) ?_
        rw [skipFrom_space, List.append_assoc, begins.skip]

theorem intercalate_comma : ∀ (shown : List Char) (texts : List (List Char)),
    [',', ' '].intercalate (shown :: texts) = shown ++ following texts
  | shown, [] => by simp [following]
  | shown, second :: texts => by
    rw [List.intercalate_cons_cons, intercalate_comma second texts]
    simp [following]

theorem reads_items {texts : List (List Char)} (chain : Chain (Steps step) start texts last)
    (here : skipFrom false text = '(' :: [',', ' '].intercalate texts ++ ')' :: rest) :
    Reads (items step start) text last rest := by
  cases texts with
  | nil =>
    cases chain
    refine reads_bind.mpr ⟨(), ')' :: rest, reads_expect.mpr here, ?_⟩
    exact reads_bind.mpr ⟨true, rest, reads_accept_true.mpr rfl, reads_pure.mpr ⟨rfl, rfl⟩⟩
  | cons shown texts =>
    rw [intercalate_comma] at here
    have skip := chain.begins.skip (following texts ++ ')' :: rest)
    rw [← List.append_assoc] at skip
    have open' : Reads (accept ")") (shown ++ following texts ++ ')' :: rest) false
        (shown ++ following texts ++ ')' :: rest) := by
      obtain ⟨c, tail, rfl, _, other, _⟩ := chain.begins
      exact reads_accept_false_of_ne rfl skip other
    have enough : texts.length ≤ (shown ++ following texts ++ ')' :: rest).length := by
      have longer : texts.length ≤ (following texts).length := length_le_flatMap (by simp) texts
      rw [List.length_append, List.length_append]
      omega
    refine reads_bind.mpr ⟨(), _, reads_expect.mpr here, ?_⟩
    refine reads_bind.mpr ⟨false, _, open', ?_⟩
    exact reads_itemsWithin chain enough skip

theorem toList_indentation (depth : Nat) :
    (Text.indentation depth).toList = List.replicate (4 * depth) ' ' := by
  rw [Text.indentation, String.pushn_eq_repeat_push]
  induction 4 * depth with
  | zero => rfl
  | succ n ih => rw [Nat.repeat, String.toList_push, ih, List.replicate_succ']

theorem skipFrom_closing (n : Nat) (rest : List Char) :
    skipFrom false (List.replicate n ' ' ++ '\x7d' :: rest) = '\x7d' :: rest := by
  rw [skipFrom_indentation]
  exact skipFrom_solid (by decide) _

theorem toList_parenthesized (texts : List String) :
    (Text.parenthesized texts).toList =
      '(' :: [',', ' '].intercalate (texts.map String.toList) ++ [')'] := by
  simp only [Text.parenthesized, Text.listed, String.toList_append, String.toList_intercalate]
  rfl

theorem begins_parenthesized (texts : List String) : Begins (Text.parenthesized texts).toList := by
  rw [toList_parenthesized]
  exact ⟨'(', _, rfl, by decide, by decide, by decide⟩

theorem ends_parenthesized (texts : List String) (rest : List Char) :
    Ends ((Text.parenthesized texts).toList ++ rest) := by
  rw [toList_parenthesized]
  exact ends_cons (by decide) _

theorem length_le_following {texts : List (List Char)} {shown : List Char}
    (member : shown ∈ texts) : shown.length ≤ (following texts).length := by
  induction texts with
  | nil => simp at member
  | cons head texts ih =>
    simp only [following, List.flatMap_cons, List.length_append, List.length_cons]
    rcases List.mem_cons.mp member with rfl | later
    · omega
    · have shorter : shown.length ≤ (following texts).length := ih later
      rw [following] at shorter
      omega

theorem length_lt_parenthesized {texts : List String} {shown : String} (member : shown ∈ texts) :
    shown.toList.length < (Text.parenthesized texts).toList.length := by
  rw [toList_parenthesized, List.cons_append, List.length_cons, List.length_append]
  have within : shown.toList.length ≤
      ([',', ' '].intercalate (texts.map String.toList)).length := by
    cases texts with
    | nil => simp at member
    | cons head texts =>
      rw [List.map_cons, intercalate_comma, List.length_append]
      rcases List.mem_cons.mp member with rfl | later
      · exact Nat.le_add_right _ _
      · exact Nat.le_add_left_of_le (length_le_following (List.mem_map_of_mem later))
  omega

theorem reads_parenthesized {texts : List String}
    (chain : Chain (Steps step) start (texts.map String.toList) last)
    (here : skipFrom false text = (Text.parenthesized texts).toList ++ rest) :
    Reads (items step start) text last rest := by
  rw [toList_parenthesized, List.append_assoc] at here
  exact reads_items chain here

section List

variable {γ : Type} {reader : Reader α} {source : List γ} {shown : γ → String} {value : γ → α}
  (begins : ∀ item ∈ source, Begins (shown item).toList)
  (reads : ∀ item ∈ source, ∀ text rest, Closes rest →
    skipFrom false text = (shown item).toList ++ rest → Reads reader text (value item) rest)
include begins reads

theorem chain_list (values : List α) :
    Chain (Steps fun items => do
      let item ← reader
      pure (items ++ [item])) values ((source.map shown).map String.toList)
        (values ++ source.map value) := by
  induction source generalizing values with
  | nil => simpa using Chain.nil
  | cons item source ih =>
    have later := ih (fun item member => begins item (List.mem_cons_of_mem _ member))
      (fun item member => reads item (List.mem_cons_of_mem _ member)) (values ++ [value item])
    rw [List.append_assoc, List.singleton_append] at later
    refine .cons (begins item List.mem_cons_self) (fun text rest closes written => ?_) later
    exact reads_bind.mpr ⟨_, rest, reads item List.mem_cons_self text rest closes written,
      reads_pure.mpr ⟨rfl, rfl⟩⟩

theorem reads_list
    (here : skipFrom false text = (Text.parenthesized (source.map shown)).toList ++ rest) :
    Reads (list reader) text (source.map value) rest :=
  reads_parenthesized (chain_list begins reads []) here

end List

def fieldLine (shown : List Char) : List Char := List.replicate 4 ' ' ++ shown ++ [',', '\n']

theorem reads_fieldsWithin {texts : List (List Char)} {bound : Nat}
    (chain : Chain (Steps step) start texts last) (rounds : texts.length ≤ bound)
    (here : skipFrom false text = skipFrom false (texts.flatMap fieldLine ++ '\x7d' :: rest)) :
    Reads (fieldsWithin step bound start) text last rest := by
  induction texts generalizing start bound text with
  | nil =>
    cases chain
    have closed : Reads (accept "\x7d") text true rest := reads_accept_true.mpr here
    cases bound <;> exact reads_bind.mpr ⟨true, rest, closed, reads_pure.mpr ⟨rfl, rfl⟩⟩
  | cons shown texts ih =>
    cases bound with
    | zero => simp at rounds
    | succ bound =>
      cases chain with
      | @cons _ next _ _ _ begins reads later =>
        have skipped : skipFrom false ((shown :: texts).flatMap fieldLine ++ '\x7d' :: rest) =
            shown ++ ',' :: '\n' :: (texts.flatMap fieldLine ++ '\x7d' :: rest) := by
          rw [← begins.skip]
          simp [fieldLine]
        rw [skipped] at here
        have more : Reads (accept "\x7d") text false
            (shown ++ ',' :: '\n' :: (texts.flatMap fieldLine ++ '\x7d' :: rest)) := by
          obtain ⟨c, tail, rfl, _, _, other⟩ := begins
          exact reads_accept_false_of_ne rfl here other
        refine reads_bind.mpr ⟨false, _, more, ?_⟩
        have first := reads _ (',' :: '\n' :: (texts.flatMap fieldLine ++ '\x7d' :: rest))
          ⟨_, .inl rfl⟩ (begins.skip _)
        refine reads_bind.mpr ⟨next, _, first, ?_⟩
        refine reads_bind.mpr ⟨true, _, reads_accept_true.mpr rfl, ?_⟩
        exact ih later (Nat.le_of_succ_le_succ rounds) (skipFrom_newline _)

theorem reads_fields {texts : List (List Char)} (chain : Chain (Steps step) start texts last)
    (here : skipFrom false text = '\x7b' :: '\n' :: texts.flatMap fieldLine ++ '\x7d' :: rest) :
    Reads (fields step start) text last rest := by
  have enough : texts.length ≤ ('\n' :: texts.flatMap fieldLine ++ '\x7d' :: rest).length := by
    have nonempty : ∀ shown, fieldLine shown ≠ [] := by simp [fieldLine]
    have longer := length_le_flatMap nonempty texts
    rw [List.length_append, List.length_cons]
    omega
  refine reads_bind.mpr ⟨(), _, reads_expect.mpr here, ?_⟩
  exact reads_fieldsWithin chain enough (skipFrom_newline _)

end RegisterIR.Reading
