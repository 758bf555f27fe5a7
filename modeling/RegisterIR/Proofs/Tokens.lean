import RegisterIR.Reading.Token
import RegisterIR.Text.Quoted

/-! Reading tokens. What a reader does is said by what it reads from a text and what it leaves, and
this relation follows the reader in both directions: from a reading one learns what was read, and a
token in its written form is read back whatever follows it, as long as that does not continue it. -/

namespace RegisterIR

namespace Text

theorem digitValue_digitChar : ∀ d < 16, digitValue (Nat.digitChar d) = d := by decide

theorem isHexDigit_digitChar : ∀ d < 16, isHexDigit (Nat.digitChar d) = true := by decide

theorem ofDigits_append_singleton (base : Nat) (digits : List Char) (c : Char) :
    ofDigits base (digits ++ [c]) = ofDigits base digits * base + digitValue c := by
  simp [ofDigits]

theorem ofDigits_toDigits {base : Nat} (two : 1 < base) (sixteen : base ≤ 16) (n : Nat) :
    ofDigits base (Nat.toDigits base n) = n := by
  induction n using Nat.strongRecOn with
  | _ n ih =>
    rw [Nat.toDigits_eq_if two]
    split
    · rename_i small
      simp [ofDigits, digitValue_digitChar n (Nat.lt_of_lt_of_le small sixteen)]
    · rename_i large
      have shorter : n / base < n := Nat.div_lt_self (by omega) two
      have digit : n % base < 16 := Nat.lt_of_lt_of_le (Nat.mod_lt n (by omega)) sixteen
      rw [ofDigits_append_singleton, ih _ shorter, digitValue_digitChar _ digit]
      exact Nat.div_add_mod' n base

theorem isHexDigit_of_mem_toDigits (n : Nat) : ∀ c ∈ Nat.toDigits 16 n, isHexDigit c = true := by
  induction n using Nat.strongRecOn with
  | _ n ih =>
    rw [Nat.toDigits_eq_if (by decide)]
    split
    · rename_i small
      simpa using isHexDigit_digitChar n small
    · rename_i large
      have shorter : n / 16 < n := Nat.div_lt_self (by omega) (by decide)
      have digit : n % 16 < 16 := Nat.mod_lt n (by decide)
      simpa [isHexDigit_digitChar _ digit, or_imp, forall_and] using ih _ shorter

end Text

namespace Reading

variable {α β : Type} {text rest : List Char}

/-- The reader reads a value from a text and leaves the rest. -/
def Reads (reader : Reader α) (text : List Char) (value : α) (rest : List Char) : Prop :=
  reader text = .ok (value, rest)

theorem reads_pure {value result : α} :
    Reads (pure value) text result rest ↔ result = value ∧ rest = text := by
  have unfolded : (pure value : Reader α) text = .ok (value, text) := rfl
  rw [Reads, unfolded, Except.ok.injEq, Prod.mk.injEq, @eq_comm _ value, @eq_comm _ text]

theorem reads_pure_pair {value first : α} {result second : β} :
    Reads (pure (value, result)) text (first, second) rest ↔
      first = value ∧ second = result ∧ rest = text := by
  rw [reads_pure, Prod.mk.injEq, and_assoc]

theorem reads_bind {reader : Reader α} {next : α → Reader β} {result : β} :
    Reads (reader >>= next) text result rest ↔ ∃ value between,
      Reads reader text value between ∧ Reads (next value) between result rest := by
  have unfolded : (reader >>= next) text =
      (reader text >>= fun (value, between) => next value between) := rfl
  rw [Reads, unfolded, bind_eq_ok_iff]
  exact ⟨fun ⟨⟨value, between⟩, first, second⟩ => ⟨value, between, first, second⟩,
    fun ⟨value, between, first, second⟩ => ⟨(value, between), first, second⟩⟩

theorem not_reads_fail {reason : Malformation} {value : α} :
    ¬ Reads (fail reason) text value rest := by
  simp [Reads, fail]

theorem not_reads_raise {error : ParseError (List Char)} {value : α} :
    ¬ Reads (raise error) text value rest := by
  simp [Reads, raise]

theorem not_reads_unexpected {what : String} {value : α} :
    ¬ Reads (unexpected what) text value rest := by
  simp [Reads, unexpected]

theorem reads_skip {value : Unit} : Reads skip text value rest ↔ rest = skipFrom false text := by
  simp [Reads, skip, eq_comm]

theorem reads_peek? {next : Option Char} :
    Reads peek? text next rest ↔ next = text.head? ∧ rest = text := by
  simp [Reads, peek?, eq_comm]

theorem accept_eq (token : String) (text : List Char) : accept token text =
    if token.toList.isPrefixOf (skipFrom false text) then
      .ok (true, (skipFrom false text).drop token.length)
    else .ok (false, skipFrom false text) := rfl

theorem reads_accept_true {token : String} :
    Reads (accept token) text true rest ↔ skipFrom false text = token.toList ++ rest := by
  rw [Reads, accept_eq, ← String.length_toList]
  split
  · rename_i starts
    obtain ⟨tail, whole⟩ := List.isPrefixOf_iff_prefix.mp starts
    rw [← whole, List.drop_left]
    simp
  · rename_i other
    constructor
    · simp
    · intro shown
      exact absurd (List.isPrefixOf_iff_prefix.mpr ⟨rest, shown.symm⟩) other

theorem reads_accept_false {token : String} :
    Reads (accept token) text false rest ↔
      ¬ token.toList <+: skipFrom false text ∧ rest = skipFrom false text := by
  rw [Reads, accept_eq, ← List.isPrefixOf_iff_prefix]
  split
  · rename_i starts
    simp [starts]
  · rename_i other
    simp [other, eq_comm (a := rest)]

theorem reads_accept_false_of_ne {token : String} {close c : Char} {more tail : List Char}
    (shape : token.toList = close :: more) (here : skipFrom false text = c :: tail)
    (other : c ≠ close) : Reads (accept token) text false (c :: tail) := by
  refine reads_accept_false.mpr ⟨?_, here.symm⟩
  rw [shape, here, List.cons_prefix_cons]
  exact fun same => other same.1.symm

theorem reads_expect {token : String} {value : Unit} :
    Reads (expect token) text value rest ↔ skipFrom false text = token.toList ++ rest := by
  rw [expect, reads_bind, ← reads_accept_true]
  constructor
  · rintro ⟨_ | _, between, accepted, next⟩
    · exact absurd next not_reads_unexpected
    · obtain ⟨_, rfl⟩ := reads_pure.mp next
      exact accepted
  · intro accepted
    exact ⟨true, rest, accepted, reads_pure.mpr ⟨rfl, rfl⟩⟩

theorem reads_peeking {c : Char} {tail : List Char} {next : Option Char → Reader α} {value : α}
    (here : skipFrom false text = c :: tail) (h : Reads (next (some c)) (c :: tail) value rest) :
    Reads (do
      skip
      let first ← peek?
      next first) text value rest :=
  reads_bind.mpr ⟨(), _, reads_skip.mpr here.symm,
    reads_bind.mpr ⟨some c, _, reads_peek?.mpr ⟨rfl, rfl⟩, h⟩⟩

section Skip

def isSolid (c : Char) : Bool := !Text.isBlank c && c ≠ ';'

theorem skipFrom_solid {c : Char} (solid : isSolid c = true) (text : List Char) :
    skipFrom false (c :: text) = c :: text := by
  simp only [isSolid, Bool.and_eq_true, Bool.not_eq_true', ne_eq, decide_eq_true_eq] at solid
  simp [skipFrom, solid]

@[simp] theorem skipFrom_space (text : List Char) :
    skipFrom false (' ' :: text) = skipFrom false text := rfl

@[simp] theorem skipFrom_newline (text : List Char) :
    skipFrom false ('\n' :: text) = skipFrom false text := rfl

@[simp] theorem skipFrom_indentation (n : Nat) (text : List Char) :
    skipFrom false (List.replicate n ' ' ++ text) = skipFrom false text := by
  induction n with
  | zero => rfl
  | succ n ih => rw [List.replicate_succ, List.cons_append, skipFrom_space, ih]

@[simp] theorem skipFrom_skipFrom (inComment : Bool) (text : List Char) :
    skipFrom false (skipFrom inComment text) = skipFrom inComment text := by
  induction text generalizing inComment with
  | nil => rfl
  | cons c text ih =>
    rw [skipFrom]
    split
    · exact ih _
    · split
      · exact ih _
      · split
        · exact ih _
        · rename_i comment semicolon blank
          simp [skipFrom, semicolon, blank]

theorem length_skipFrom_le (inComment : Bool) (text : List Char) :
    (skipFrom inComment text).length ≤ text.length := by
  induction text generalizing inComment with
  | nil => exact Nat.le_refl _
  | cons c text ih =>
    rw [skipFrom]
    repeat' split
    · exact Nat.le_succ_of_le (ih _)
    · exact Nat.le_succ_of_le (ih _)
    · exact Nat.le_succ_of_le (ih _)
    · exact Nat.le_refl _

theorem toNat_of_isAlpha {c : Char} (h : c.isAlpha = true) :
    (65 ≤ c.toNat ∧ c.toNat ≤ 90) ∨ (97 ≤ c.toNat ∧ c.toNat ≤ 122) := by
  rcases Bool.or_eq_true_iff.mp h with upper | lower
  · exact .inl (of_decide_eq_true upper)
  · obtain ⟨above, below⟩ := Bool.and_eq_true_iff.mp lower
    exact .inr ⟨of_decide_eq_true above, of_decide_eq_true below⟩

theorem toNat_of_isWordChar {c : Char} (h : isWordChar c = true) :
    (48 ≤ c.toNat ∧ c.toNat ≤ 57) ∨ (65 ≤ c.toNat ∧ c.toNat ≤ 90) ∨ c.toNat = 95 ∨
      (97 ≤ c.toNat ∧ c.toNat ≤ 122) := by
  simp only [isWordChar, Char.isAlphanum, Bool.or_eq_true, Char.isDigit_iff_toNat,
    decide_eq_true_eq] at h
  rcases h with (alpha | digit) | rfl
  · rcases toNat_of_isAlpha alpha with upper | lower
    · exact .inr (.inl upper)
    · exact .inr (.inr (.inr lower))
  · exact .inl digit
  · decide

theorem isSolid_of_isWordChar {c : Char} (h : isWordChar c = true) : isSolid c = true := by
  have range := toNat_of_isWordChar h
  have semicolon : c ≠ ';' := by
    rintro rfl
    revert range
    decide
  have solid : Text.isBlank c = false := by
    simp only [Text.isBlank, Text.blankRanges, List.any_cons, List.any_nil, Bool.or_false,
      Bool.or_eq_false_iff, Bool.and_eq_false_iff, decide_eq_false_iff_not]
    omega
  simp [isSolid, solid, semicolon]

end Skip

/-- What follows a word: nothing, or a character that is not part of it. -/
def Ends (rest : List Char) : Prop := ∀ c ∈ rest.head?, isWordChar c = false

theorem ends_cons {c : Char} (h : isWordChar c = false) (rest : List Char) : Ends (c :: rest) := by
  rintro _ ⟨⟩
  exact h

theorem takeWhile_append_of_ends {p : Char → Bool} {shown : List Char}
    (all : ∀ c ∈ shown, p c = true) (ends : ∀ c ∈ rest.head?, p c = false) :
    (shown ++ rest).takeWhile p = shown ∧ (shown ++ rest).dropWhile p = rest := by
  have stop : rest.takeWhile p = [] ∧ rest.dropWhile p = rest := by
    cases rest with
    | nil => exact ⟨rfl, rfl⟩
    | cons c rest => simp [ends c rfl]
  rw [List.takeWhile_append_of_pos all, List.dropWhile_append_of_pos all, stop.1, stop.2,
    List.append_nil]
  exact ⟨rfl, rfl⟩

/-- Names of registers, and of functions in references. -/
def IsWord (name : String) : Prop := name.toList ≠ [] ∧ ∀ c ∈ name.toList, isWordChar c = true

/-- Names of everything that is declared. -/
def IsIdentifier (name : String) : Prop :=
  IsWord name ∧ ∀ c ∈ name.toList.head?, (c.isAlpha || c = '_') = true

instance (name : String) : Decidable (IsWord name) :=
  decidable_of_iff (name.toList ≠ [] ∧ name.toList.all isWordChar = true)
    (and_congr_right fun _ => List.all_eq_true)

instance (name : String) : Decidable (IsIdentifier name) :=
  decidable_of_iff (IsWord name ∧ name.toList.head?.all (fun c => c.isAlpha || c = '_') = true)
    (and_congr_right fun _ => Option.all_eq_true _ _)

theorem IsWord.exists_cons {name : String} (h : IsWord name) :
    ∃ c tail, name.toList = c :: tail ∧ isWordChar c = true := by
  obtain ⟨nonempty, all⟩ := h
  cases letters : name.toList with
  | nil => exact absurd letters nonempty
  | cons c tail => exact ⟨c, tail, rfl, all c (letters ▸ List.mem_cons_self)⟩

theorem reads_word_of_isWord {name : String} (h : IsWord name) (ends : Ends rest) :
    Reads word (name.toList ++ rest) name rest := by
  obtain ⟨taken, left⟩ := takeWhile_append_of_ends h.2 ends
  rw [Reads, word, taken, left, String.ofList_toList]

theorem isWord_of_reads_word {name : String} (h : Reads word text name rest) (ne : name ≠ "") :
    IsWord name := by
  obtain ⟨rfl, rfl⟩ : String.ofList (text.takeWhile isWordChar) = name ∧
      text.dropWhile isWordChar = rest := by
    simpa [Reads, word] using h
  refine ⟨by simpa [← String.toList_inj] using ne, fun c member => ?_⟩
  rw [String.toList_ofList] at member
  exact List.all_eq_true.mp List.all_takeWhile c member

theorem isWordChar_of_isAlpha {c : Char} (h : (c.isAlpha || c = '_') = true) :
    isWordChar c = true := by
  simp only [isWordChar, Char.isAlphanum, Bool.or_eq_true] at h ⊢
  rcases h with alpha | underscore
  · exact .inl (.inl alpha)
  · exact .inr underscore

theorem reads_identifier {name : String} (h : IsIdentifier name) (ends : Ends rest)
    (shown : skipFrom false text = name.toList ++ rest) : Reads identifier text name rest := by
  refine reads_bind.mpr ⟨(), _, reads_skip.mpr shown.symm, ?_⟩
  refine reads_bind.mpr ⟨_, _, reads_peek?.mpr ⟨rfl, rfl⟩, ?_⟩
  have word := reads_word_of_isWord h.1 ends
  obtain ⟨c, tail, letters, _⟩ := h.1.exists_cons
  have first : (c.isAlpha || c = '_') = true := h.2 c (by rw [letters]; rfl)
  rw [letters] at word ⊢
  simpa [first] using word

theorem reads_identifier_cons {name : String} {c : Char} (h : IsIdentifier name)
    (stop : isWordChar c = false) (shown : skipFrom false text = name.toList ++ c :: rest) :
    Reads identifier text name (c :: rest) :=
  reads_identifier h (ends_cons stop rest) shown

theorem isIdentifier_of_reads {name : String} (h : Reads identifier text name rest) :
    IsIdentifier name := by
  obtain ⟨_, _, _, peeked⟩ := reads_bind.mp h
  obtain ⟨next, here, peek, read⟩ := reads_bind.mp peeked
  obtain ⟨rfl, rfl⟩ := reads_peek?.mp peek
  cases here with
  | nil => exact absurd read not_reads_unexpected
  | cons c here =>
    simp only [List.head?_cons] at read
    split at read
    · rename_i start
      have shape : name.toList = c :: here.takeWhile isWordChar := by
        have equation := read
        simp only [Reads, word, Except.ok.injEq, Prod.mk.injEq] at equation
        rw [← equation.1, String.toList_ofList,
          List.takeWhile_cons_of_pos (isWordChar_of_isAlpha start)]
      refine ⟨isWord_of_reads_word read ?_, ?_⟩
      · rintro rfl
        simp at shape
      · rw [shape]
        rintro _ ⟨⟩
        exact start
    · exact absurd read not_reads_unexpected

theorem reads_digits {base : Nat} {isDigit : Char → Bool} {n : Nat} {shown : List Char}
    (nonempty : shown ≠ []) (all : ∀ c ∈ shown, isDigit c = true)
    (ends : ∀ c ∈ rest.head?, isDigit c = false) (value : Text.ofDigits base shown = n)
    (fits : n ≤ maxLong) : Reads (digits base isDigit) (shown ++ rest) n rest := by
  obtain ⟨taken, left⟩ := takeWhile_append_of_ends all ends
  rw [Reads, digits, taken, left]
  cases shown with
  | nil => exact absurd rfl nonempty
  | cons c shown => simp [value, fits]

theorem isWordChar_of_isDigit {c : Char} (h : c.isDigit = true) : isWordChar c = true := by
  simp [isWordChar, Char.isAlphanum, h]

theorem isDigit_of_mem_toString {n : Nat} {c : Char} (member : c ∈ (toString n).toList) :
    c.isDigit = true := by
  rw [Nat.toString_eq_repr, Nat.toList_repr] at member
  exact Nat.isDigit_of_mem_toDigits (by decide) (by decide) member

theorem all_isDigit_toString (n : Nat) : (toString n).toList.all Char.isDigit = true :=
  List.all_eq_true.mpr fun _ => isDigit_of_mem_toString

theorem ofDigits_toString (n : Nat) : Text.ofDigits 10 (toString n).toList = n := by
  rw [Nat.toString_eq_repr, Nat.toList_repr]
  exact Text.ofDigits_toDigits (by decide) (by decide) n

theorem isWord_toString (n : Nat) : IsWord (toString n) :=
  ⟨by simp, fun _ member => isWordChar_of_isDigit (isDigit_of_mem_toString member)⟩

/-- The written form of a number is read in base ten: no letter follows its first digit. -/
theorem reads_number {n : Nat} (fits : n ≤ maxLong) (ends : Ends rest)
    (shown : skipFrom false text = (toString n).toList ++ rest) : Reads number text n rest := by
  refine reads_bind.mpr ⟨(), _, reads_skip.mpr shown.symm, ?_⟩
  have all : ∀ c ∈ (toString n).toList, c.isDigit = true := fun _ => isDigit_of_mem_toString
  have nonempty : (toString n).toList ≠ [] := by simp
  have decimal : Reads (digits 10 Char.isDigit) ((toString n).toList ++ rest) n rest := by
    refine reads_digits nonempty all (fun c member => ?_) (ofDigits_toString n) fits
    exact Bool.eq_false_iff.mpr fun digit =>
      absurd (isWordChar_of_isDigit digit) (Bool.eq_false_iff.mp (ends c member))
  have second : ∀ first c others, (toString n).toList ++ rest = first :: c :: others →
      c ≠ 'x' ∧ c ≠ 'X' := by
    intro first c others split
    cases shape : (toString n).toList with
    | nil => exact absurd shape nonempty
    | cons digit more =>
      rw [shape] at split all
      cases more with
      | nil =>
        have tail : rest = c :: others := (List.cons.inj split).2
        have other : isWordChar c = false := ends c (by rw [tail]; rfl)
        constructor <;> rintro rfl <;> exact absurd other (by decide)
      | cons digit' more =>
        obtain ⟨rfl, _⟩ := List.cons.inj (List.cons.inj split).2
        have isDigit := all digit' (by simp)
        constructor <;> rintro rfl <;> exact absurd isDigit (by decide)
  rw [Reads] at decimal ⊢
  split
  · rename_i tail equation
    exact absurd rfl (second _ _ _ equation).1
  · rename_i tail equation
    exact absurd rfl (second _ _ _ equation).2
  · exact decimal

theorem le_maxLong_of_reads_digits {base : Nat} {isDigit : Char → Bool} {n : Nat}
    (h : Reads (digits base isDigit) text n rest) : n ≤ maxLong := by
  rw [Reads, digits] at h
  split at h
  · simp at h
  · dsimp only at h
    split at h
    · rename_i fits
      cases h
      exact fits
    · simp at h

theorem le_maxLong_of_reads_number {n : Nat} (h : Reads number text n rest) : n ≤ maxLong := by
  obtain ⟨_, here, _, read⟩ := reads_bind.mp h
  rw [Reads] at read
  split at read <;> exact le_maxLong_of_reads_digits read

theorem reads_smallNumber {n : Nat} (fits : n ≤ maxWord) (ends : Ends rest)
    (shown : skipFrom false text = (toString n).toList ++ rest) :
    Reads smallNumber text n rest := by
  have long : n ≤ maxLong := Nat.le_trans fits (by decide)
  refine reads_bind.mpr ⟨n, rest, reads_number long ends shown, ?_⟩
  rw [if_pos fits]
  exact reads_pure.mpr ⟨rfl, rfl⟩

theorem le_maxWord_of_reads {n : Nat} (h : Reads smallNumber text n rest) : n ≤ maxWord := by
  obtain ⟨value, between, _, checked⟩ := reads_bind.mp h
  split at checked
  · rename_i fits
    obtain ⟨rfl, _⟩ := reads_pure.mp checked
    exact fits
  · exact absurd checked not_reads_fail

theorem reads_signed {sign name what : String} (h : IsWord name) (ends : Ends rest)
    (shown : skipFrom false text = sign.toList ++ (name.toList ++ rest)) :
    Reads (do
      expect sign
      let name ← word
      if name.isEmpty then unexpected what else pure name) text name rest := by
  refine reads_bind.mpr ⟨(), _, reads_expect.mpr shown, ?_⟩
  refine reads_bind.mpr ⟨name, rest, reads_word_of_isWord h ends, ?_⟩
  have nonempty : name.isEmpty = false :=
    Bool.eq_false_iff.mpr fun empty => h.1 (by simp [String.isEmpty_iff.mp empty])
  rw [nonempty]
  exact reads_pure.mpr ⟨rfl, rfl⟩

theorem reads_registerName {name : String} (h : IsWord name) (ends : Ends rest)
    (shown : skipFrom false text = '%' :: name.toList ++ rest) :
    Reads registerName text name rest :=
  reads_signed h ends shown

theorem isWord_of_reads_registerName {name : String} (h : Reads registerName text name rest) :
    IsWord name := by
  obtain ⟨_, _, _, named⟩ := reads_bind.mp h
  obtain ⟨name', _, read, checked⟩ := reads_bind.mp named
  split at checked
  · exact absurd checked not_reads_unexpected
  · rename_i nonempty
    obtain ⟨rfl, _⟩ := reads_pure.mp checked
    exact isWord_of_reads_word read (by rintro rfl; simp at nonempty)

theorem reads_acceptKeyword_true {keyword : String} (ends : Ends rest)
    (shown : skipFrom false text = keyword.toList ++ rest) :
    Reads (acceptKeyword keyword) text true rest := by
  refine reads_bind.mpr ⟨(), _, reads_skip.mpr shown.symm, ?_⟩
  have starts : keyword.toList.isPrefixOf (keyword.toList ++ rest) = true :=
    List.isPrefixOf_iff_prefix.mpr (List.prefix_append _ _)
  have ended : rest.head?.any isWordChar = false := by
    cases rest with
    | nil => rfl
    | cons c rest => simpa using ends c rfl
  simp [Reads, starts, ended, ← String.length_toList]

theorem reads_acceptKeyword_false {keyword : String}
    (other : ¬ keyword.toList <+: skipFrom false text) :
    Reads (acceptKeyword keyword) text false (skipFrom false text) := by
  refine reads_bind.mpr ⟨(), _, reads_skip.mpr rfl, ?_⟩
  have fails : keyword.toList.isPrefixOf (skipFrom false text) = false :=
    Bool.eq_false_iff.mpr fun starts => other (List.isPrefixOf_iff_prefix.mp starts)
  simp [Reads, fails]

section Quoted

theorem reads_escapeByNumber (c : Char) (rest : List Char) :
    Reads escapeByNumber ('\x7b' :: Nat.toDigits 16 c.toNat ++ '\x7d' :: rest) c rest := by
  have ends : ∀ d ∈ ('\x7d' :: rest).head?, Text.isHexDigit d = false := by
    rintro _ ⟨⟩
    decide
  obtain ⟨taken, left⟩ :=
    takeWhile_append_of_ends (Text.isHexDigit_of_mem_toDigits c.toNat) ends
  refine reads_bind.mpr ⟨(), _, reads_expect.mpr rfl, ?_⟩
  refine reads_bind.mpr ⟨Nat.toDigits 16 c.toNat, '\x7d' :: rest, ?_, ?_⟩
  · exact congrArg Except.ok (Prod.ext taken left)
  · have value := Text.ofDigits_toDigits (by decide : 1 < 16) (by decide) c.toNat
    have valid : Nat.toDigits 16 c.toNat ≠ [] ∧ c.toNat.isValidChar :=
      ⟨Nat.toDigits_ne_nil, c.valid⟩
    rw [value, if_pos valid, Char.ofNat_toNat]
    exact reads_bind.mpr ⟨(), rest, reads_expect.mpr rfl, reads_pure.mpr ⟨rfl, rfl⟩⟩

theorem reads_quotedWithin_escape {bound : Nat} {c : Char} {between content rest' : List Char}
    (first : Reads escape text c between)
    (later : Reads (quotedWithin bound) between content rest') :
    Reads (quotedWithin (bound + 1)) ('\\' :: text) (c :: content) rest' :=
  reads_bind.mpr ⟨c, between, first,
    reads_bind.mpr ⟨content, rest', later, reads_pure.mpr ⟨rfl, rfl⟩⟩⟩

theorem reads_escaped {bound : Nat} (c : Char) {content rest' : List Char}
    (later : Reads (quotedWithin bound) rest content rest') :
    Reads (quotedWithin (bound + 1)) (Text.escaped c ++ rest) (c :: content) rest' := by
  by_cases quote : c = '"'
  · subst quote
    exact reads_quotedWithin_escape rfl later
  by_cases backslash : c = '\\'
  · subst backslash
    exact reads_quotedWithin_escape rfl later
  by_cases newline : c = '\n'
  · subst newline
    exact reads_quotedWithin_escape rfl later
  by_cases carriage : c = '\r'
  · subst carriage
    exact reads_quotedWithin_escape rfl later
  by_cases tab : c = '\t'
  · subst tab
    exact reads_quotedWithin_escape rfl later
  rw [Text.escaped, if_neg quote, if_neg backslash, if_neg newline, if_neg carriage, if_neg tab]
  split
  · have byNumber :
        Reads escape ('u' :: '\x7b' :: Nat.toDigits 16 c.toNat ++ '\x7d' :: rest) c rest :=
      reads_escapeByNumber c rest
    simpa using reads_quotedWithin_escape byNumber later
  · have plain : quotedWithin (bound + 1) (c :: rest) =
        (quotedWithin bound >>= fun content => pure (c :: content)) rest := by
      simp only [quotedWithin, quotedRound]
    rw [List.singleton_append, Reads, plain]
    exact reads_bind.mpr ⟨content, rest', later, reads_pure.mpr ⟨rfl, rfl⟩⟩

theorem reads_quotedWithin : ∀ (content : List Char) (bound : Nat), content.length < bound →
    Reads (quotedWithin bound) (content.flatMap Text.escaped ++ '"' :: rest) content rest
  | [], bound + 1, _ => rfl
  | c :: content, bound + 1, less => by
    have later := reads_quotedWithin content bound (Nat.lt_of_succ_lt_succ less)
    rw [List.flatMap_cons, List.append_assoc]
    exact reads_escaped c later

theorem length_le_flatMap {written : α → List Char} (nonempty : ∀ value, written value ≠ [])
    (values : List α) : values.length ≤ (values.flatMap written).length := by
  induction values with
  | nil => exact Nat.le_refl _
  | cons value values ih =>
    have some := List.length_pos_iff.mpr (nonempty value)
    rw [List.flatMap_cons, List.length_append, List.length_cons]
    omega

theorem escaped_ne_nil (c : Char) : Text.escaped c ≠ [] := by
  rw [Text.escaped]
  repeat' split
  all_goals simp

theorem reads_quoted {content : String}
    (shown : skipFrom false text = (Text.quoted content).toList ++ rest) :
    Reads quoted text content rest := by
  have longer := length_le_flatMap escaped_ne_nil content.toList
  have bound : content.toList.length <
      (content.toList.flatMap Text.escaped ++ '"' :: rest).length := by
    rw [List.length_append, List.length_cons]
    omega
  simp only [Text.toList_quoted, Text.quotedChars, List.cons_append, List.append_assoc,
    List.nil_append] at shown
  refine reads_bind.mpr ⟨(), _, reads_expect.mpr shown, ?_⟩
  refine reads_bind.mpr ⟨content.toList, rest, reads_quotedWithin content.toList _ bound, ?_⟩
  rw [String.ofList_toList]
  exact reads_pure.mpr ⟨rfl, rfl⟩

end Quoted

end Reading

end RegisterIR
