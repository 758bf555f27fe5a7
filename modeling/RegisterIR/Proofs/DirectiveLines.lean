import RegisterIR.Check.TestFile
import RegisterIR.Proofs.SpacedPrograms

/-! The program of a test file. Directives are taken out line by line and the other lines are joined
again, whatever ended them. Outside of quoted texts a directive is a comment and the end of a line
is a blank, so the program is the same with and without the directives, as long as no quoted text
goes over a directive or over a line that ends with a carriage return. -/

namespace RegisterIR.Reading

section Places

variable {mode mode' : Mode} {text text' : List Char} {c : Char}

theorem of_next_eq_comment (h : mode.next c = .comment mode') :
    c = ';' ∧ mode.Spaced ∧ mode' = mode ∨ ∃ outside, mode = .comment outside := by
  cases mode with
  | code =>
    rw [Mode.next] at h
    split at h
    · cases h
    · split at h
      · rename_i semicolon
        cases h
        exact .inl ⟨semicolon, spaced_code, rfl⟩
      · cases h
  | number =>
    rw [Mode.next] at h
    split at h
    · cases h
    · split at h
      · rename_i semicolon
        cases h
        exact .inl ⟨semicolon, spaced_number, rfl⟩
      · cases h
  | quoted =>
    rw [Mode.next] at h
    split at h
    · cases h
    · split at h <;> cases h
  | escaped =>
    rw [Mode.next] at h
    split at h <;> cases h
  | comment outside => exact .inr ⟨outside, rfl⟩

theorem Mode.Spaced.ne_comment (h : mode.Spaced) (outside : Mode) : mode ≠ .comment outside := by
  rintro rfl
  have deeper : Mode.comment outside = .comment (.comment outside) := h.comment
  have sizes := congrArg sizeOf deeper
  simp at sizes

theorem Mode.Verbatim.ne_comment (h : mode.Verbatim) (outside : Mode) :
    mode ≠ .comment outside := by
  rcases h with rfl | rfl <;> exact Mode.noConfusion

theorem Mode.Verbatim.next_newline (h : mode.Verbatim) : mode.next '\n' = .quoted := by
  rcases h with rfl | rfl <;> rfl

theorem Mode.cases_place (mode : Mode) :
    mode.Spaced ∨ mode.Verbatim ∨ ∃ outside, mode = .comment outside := by
  cases mode with
  | code => exact .inl spaced_code
  | number => exact .inl spaced_number
  | quoted => exact .inr (.inl (.inl rfl))
  | escaped => exact .inr (.inl (.inr rfl))
  | comment outside => exact .inr (.inr ⟨outside, rfl⟩)

theorem spaced_of_foldl_next {part : List Char}
    (start : ∀ outside, mode = .comment outside → outside.Spaced)
    (h : part.foldl Mode.next mode = .comment mode') : mode'.Spaced := by
  induction part generalizing mode with
  | nil => exact start mode' h
  | cons c part ih =>
    refine ih (fun outside next => ?_) h
    rcases of_next_eq_comment next with ⟨_, spaced, rfl⟩ | ⟨before, rfl⟩
    · exact spaced
    · have spaced := start before rfl
      rw [Mode.next] at next
      split at next
      · exact absurd next (spaced.ne_comment outside)
      · cases next
        exact spaced

/-- The texts are alike from a place on that may lie in a comment. -/
def AlikeAt : Mode → List Char → List Char → Prop
  | .comment mode, text, text' => Alike mode (skipFrom true text) (skipFrom true text')
  | mode, text, text' => Alike mode text text'

theorem alikeAt_iff (outside : ∀ mode', mode ≠ .comment mode') :
    AlikeAt mode text text' ↔ Alike mode text text' := by
  cases mode with
  | comment mode' => exact absurd rfl (outside mode')
  | _ => exact Iff.rfl

theorem alikeAt_nil (mode : Mode) : AlikeAt mode [] [] := by
  cases mode <;> exact Alike.ended

theorem alike_cons_of_spaced (spaced : mode.Spaced) (h : AlikeAt (mode.next c) text text') :
    Alike mode (c :: text) (c :: text') := by
  have gapped (between : isSolid c = false)
      (skipped : Alike mode (skipFrom false (c :: text)) (skipFrom false (c :: text'))) :
      Alike mode (c :: text) (c :: text') := by
    refine .gap spaced ?_ ?_ skipped <;>
    · rintro _ ⟨⟩
      exact between
  by_cases comment : c = ';'
  · subst comment
    rw [spaced.comment] at h
    exact gapped (by decide) h
  · have next : ∀ outside, mode.next c ≠ .comment outside := by
      intro outside next
      rcases of_next_eq_comment next with ⟨semicolon, _⟩ | ⟨before, inside⟩
      · exact comment semicolon
      · exact spaced.ne_comment before inside
    have stays := (alikeAt_iff next).mp h
    by_cases blank : Text.isBlank c = true
    · rw [spaced.blank c blank] at stays
      refine gapped (by simp [isSolid, blank]) ?_
      simpa [skipFrom, comment, blank] using stays.skip spaced
    · exact .same (fun _ => by simp [isSolid, comment, blank]) stays

theorem alikeAt_cons (inside : c ≠ '\n') (h : AlikeAt (mode.next c) text text') :
    AlikeAt mode (c :: text) (c :: text') := by
  rcases mode.cases_place with spaced | verbatim | ⟨outside, rfl⟩
  · exact (alikeAt_iff spaced.ne_comment).mpr (alike_cons_of_spaced spaced h)
  · have next : ∀ outside, mode.next c ≠ .comment outside := by
      intro outside next
      rcases of_next_eq_comment next with ⟨_, spaced, _⟩ | ⟨before, inside⟩
      · exact verbatim.not_spaced spaced
      · exact verbatim.ne_comment before inside
    refine (alikeAt_iff verbatim.ne_comment).mpr (.same ?_ ((alikeAt_iff next).mp h))
    exact fun spaced => absurd spaced verbatim.not_spaced
  · rw [Mode.next, if_neg inside] at h
    simpa [AlikeAt, skipFrom, inside] using h

theorem alikeAt_append {line : List Char} (whole : '\n' ∉ line)
    (h : AlikeAt (line.foldl Mode.next mode) text text') :
    AlikeAt mode (line ++ text) (line ++ text') := by
  induction line generalizing mode with
  | nil => exact h
  | cons c line ih =>
    have inside : c ≠ '\n' := Ne.symm (List.ne_of_not_mem_cons whole)
    exact alikeAt_cons inside (ih (List.not_mem_of_not_mem_cons whole) h)

end Places

end RegisterIR.Reading

namespace RegisterIR.Check

open Reading

section Lines

def LineEnd (ending : List Char) : Prop := ending = ['\n'] ∨ ending = ['\r', '\n']

/-- A text cut into lines. Each line but the last has an end, which is not part of it. -/
inductive Cut : List Char → List (List Char) → Prop
  | nil : Cut [] []
  | last {line : List Char} : '\n' ∉ line → Cut line [line]
  | line {line ending rest : List Char} {lines : List (List Char)} : '\n' ∉ line →
      LineEnd ending → Cut rest lines →
      Cut (line ++ (ending ++ rest)) (line :: lines)

theorem linesFrom_feed_of_ne {c : Char} (h : c ≠ '\r') (current text : List Char) :
    Text.linesFrom (c :: current) ('\n' :: text) =
      (c :: current).reverse :: Text.linesFrom [] text := by
  simp [Text.linesFrom, h]

theorem linesFrom_of_ne {c : Char} (h : c ≠ '\n') (current text : List Char) :
    Text.linesFrom current (c :: text) = Text.linesFrom (c :: current) text := by
  simp [Text.linesFrom]

theorem cut_linesFrom {current : List Char} (whole : '\n' ∉ current) (text : List Char) :
    Cut (current.reverse ++ text) (Text.linesFrom current text) := by
  have reversed : '\n' ∉ current.reverse := fun member => whole (List.mem_reverse.mp member)
  induction text generalizing current with
  | nil =>
    rw [Text.linesFrom, List.append_nil]
    split
    · rename_i empty
      rw [List.isEmpty_iff.mp empty]
      exact .nil
    · exact .last reversed
  | cons c text ih =>
    by_cases newline : c = '\n'
    · subst newline
      have rest : Cut text (Text.linesFrom [] text) := ih List.not_mem_nil List.not_mem_nil
      cases current with
      | nil => exact .line reversed (.inl rfl) rest
      | cons c current =>
        by_cases carriage : c = '\r'
        · subst carriage
          have shorter : '\n' ∉ current.reverse := fun member =>
            whole (List.mem_cons_of_mem _ (List.mem_reverse.mp member))
          have line : Cut (current.reverse ++ (['\r', '\n'] ++ text)) _ :=
            .line shorter (.inr rfl) rest
          rw [List.reverse_cons, List.append_assoc]
          exact line
        · rw [linesFrom_feed_of_ne carriage]
          exact .line reversed (.inl rfl) rest
    · have longer : '\n' ∉ c :: current :=
        List.not_mem_cons_of_ne_of_not_mem (Ne.symm newline) whole
      have further := ih longer fun member => longer (List.mem_reverse.mp member)
      rw [List.reverse_cons, List.append_assoc] at further
      rw [linesFrom_of_ne newline]
      exact further

end Lines

section Directives

def isDirective (line : List Char) : Bool := Line.classify (String.ofList line) ≠ .program

def joined (lines : List (List Char)) : List Char :=
  (lines.filter (!isDirective ·)).flatMap ('\n' :: ·)

theorem prefix_of_after? {start text rest : List Char} (h : after? start text = some rest) :
    start <+: text := by
  rw [after?] at h
  split at h
  · rename_i starts
    exact List.isPrefixOf_iff_prefix.mp starts
  · cases h

theorem front_trimmed (text : List Char) : Text.trimmed text <+: text.dropWhile Text.isBlank := by
  have suffix := List.dropWhile_suffix (l := (text.dropWhile Text.isBlank).reverse) Text.isBlank
  have front := List.reverse_prefix.mpr suffix
  rwa [List.reverse_reverse] at front

theorem comment_of_isDirective {line : List Char} (h : isDirective line = true) :
    ∃ tail, line.dropWhile Text.isBlank = ';' :: tail := by
  have starts {start rest : List Char} (comment : start.head? = some ';')
      (found : after? start (Text.trimmed line) = some rest) :
      ∃ tail, line.dropWhile Text.isBlank = ';' :: tail := by
    obtain ⟨rest, whole⟩ := (prefix_of_after? found).trans (front_trimmed line)
    obtain ⟨others, letters⟩ := List.head?_eq_some_iff.mp comment
    exact ⟨others ++ rest, by rw [← whole, letters, List.cons_append]⟩
  have comments : ∀ entry ∈ directiveStarts, entry.1.toList.head? = some ';' := by decide
  have other : Line.classify (String.ofList line) ≠ .program := of_decide_eq_true h
  simp only [Line.classify, String.toList_ofList] at other
  split at other
  · rename_i found
    exact starts rfl found
  · split at other
    · rename_i found
      obtain ⟨entry, member, fits⟩ := List.exists_of_findSome?_eq_some found
      obtain ⟨rest, fits, _⟩ := Option.map_eq_some_iff.mp fits
      exact starts (comments entry member) fits
    · exact absurd rfl other

theorem skipFrom_append_of_comment {line : List Char} (whole : '\n' ∉ line) (rest : List Char) :
    skipFrom true (line ++ rest) = skipFrom true rest := by
  induction line with
  | nil => rfl
  | cons c line ih =>
    have other : c ≠ '\n' := Ne.symm (List.ne_of_not_mem_cons whole)
    have further := ih (List.not_mem_of_not_mem_cons whole)
    simpa [skipFrom, other] using further

theorem foldl_next_comment {mode : Mode} {line : List Char} (whole : '\n' ∉ line) :
    line.foldl Mode.next (.comment mode) = .comment mode := by
  induction line with
  | nil => rfl
  | cons c line ih =>
    have other : c ≠ '\n' := Ne.symm (List.ne_of_not_mem_cons whole)
    have further := ih (List.not_mem_of_not_mem_cons whole)
    rwa [List.foldl_cons, Mode.next, if_neg other]

/-- Where blanks and comments may stand, a directive is read as the start of a comment. -/
theorem directive_is_comment {mode : Mode} (spaced : mode.Spaced) {line : List Char}
    (directive : isDirective line = true) (whole : '\n' ∉ line) :
    line.foldl Mode.next mode = .comment mode ∧
      ∀ rest, skipFrom false (line ++ rest) = skipFrom true rest := by
  obtain ⟨tail, comment⟩ := comment_of_isDirective directive
  clear directive
  induction line with
  | nil => cases comment
  | cons c line ih =>
    have shorter := List.not_mem_of_not_mem_cons whole
    by_cases blank : Text.isBlank c = true
    · rw [List.dropWhile_cons_of_pos blank] at comment
      obtain ⟨after, skipped⟩ := ih shorter comment
      have other : c ≠ ';' := ne_of_class blank (by decide)
      refine ⟨by rw [List.foldl_cons, spaced.blank c blank, after], fun rest => ?_⟩
      rw [← skipped rest, List.cons_append]
      simp [skipFrom, other, blank]
    · rw [List.dropWhile_cons_of_neg blank] at comment
      obtain ⟨rfl, rfl⟩ := List.cons.inj comment
      refine ⟨?_, fun rest => skipFrom_append_of_comment shorter rest⟩
      rw [List.foldl_cons, spaced.comment, foldl_next_comment shorter]

theorem comment_ending {ending : List Char} (ends : LineEnd ending)
    (mode : Mode) (rest : List Char) :
    ending.foldl Mode.next (.comment mode) = mode ∧
      skipFrom true (ending ++ rest) = skipFrom false rest := by
  rcases ends with rfl | rfl <;> exact ⟨rfl, rfl⟩

theorem blank_ending {ending : List Char} (ends : LineEnd ending)
    {mode : Mode} (spaced : mode.Spaced) (rest : List Char) :
    ending.foldl Mode.next mode = mode ∧
      skipFrom false (ending ++ rest) = skipFrom false rest := by
  have feed : mode.next '\n' = mode := spaced.blank '\n' (by decide)
  have carriage : mode.next '\r' = mode := spaced.blank '\r' (by decide)
  rcases ends with rfl | rfl
  · exact ⟨feed, rfl⟩
  · refine ⟨?_, rfl⟩
    rw [List.foldl_cons, carriage]
    exact feed

end Directives

section KeptTexts

def InQuotes (content : List Char) (place : Nat) : Prop :=
  ((content.take place).foldl Mode.next .code).Verbatim

def StartsDirective (content : List Char) (place : Nat) : Prop :=
  (content.take place).getLast? = some '\n' ∧
    isDirective ((content.drop place).takeWhile (· ≠ '\n')) = true

/-- Nothing is taken out of a quoted text: it holds no directive, and none of its lines ends with a
carriage return. -/
def QuotesKept (content : List Char) : Prop :=
  ∀ place ≤ content.length, InQuotes content place →
    ¬ StartsDirective content place ∧ ¬ ['\r', '\n'] <+: content.drop place

instance (content : List Char) (place : Nat) : Decidable (InQuotes content place) :=
  inferInstanceAs (Decidable (Mode.Verbatim _))

instance (content : List Char) (place : Nat) : Decidable (StartsDirective content place) :=
  inferInstanceAs (Decidable (_ ∧ _))

instance (content : List Char) : Decidable (QuotesKept content) :=
  inferInstanceAs (Decidable (∀ place ≤ content.length, InQuotes content place →
    ¬ StartsDirective content place ∧ ¬ ['\r', '\n'] <+: content.drop place))

variable {mode : Mode} {content before text line ending rest : List Char}
  {lines : List (List Char)}

theorem QuotesKept.split (kept : QuotesKept content) (parts : content = before ++ text)
    (quoted : (before.foldl Mode.next .code).Verbatim) :
    ¬ (before.getLast? = some '\n' ∧ isDirective (text.takeWhile (· ≠ '\n')) = true) ∧
      ¬ ['\r', '\n'] <+: text := by
  subst parts
  have here := kept before.length (by simp)
  rw [InQuotes, StartsDirective, List.take_left, List.drop_left] at here
  exact here quoted

theorem trimmed_append_blank {c : Char} (blank : Text.isBlank c = true) (text : List Char) :
    Text.trimmed (text ++ [c]) = Text.trimmed text := by
  rw [Text.trimmed, List.dropWhile_append, Text.trimmed]
  split
  · rename_i blanks
    rw [List.isEmpty_iff.mp blanks, List.dropWhile_cons_of_pos blank]
    rfl
  · rw [List.reverse_append, List.reverse_singleton, List.singleton_append,
      List.dropWhile_cons_of_pos blank]

theorem isDirective_append_blank {c : Char} (blank : Text.isBlank c = true) (line : List Char) :
    isDirective (line ++ [c]) = isDirective line := by
  simp only [isDirective, Line.classify, String.toList_ofList, trimmed_append_blank blank]

theorem takeWhile_line (whole : '\n' ∉ line) (text : List Char) :
    (line ++ text).takeWhile (· ≠ '\n') = line ++ text.takeWhile (· ≠ '\n') := by
  rw [List.takeWhile_append_of_pos]
  intro c member
  simp only [decide_eq_true_eq]
  rintro rfl
  exact whole member

theorem not_verbatim_of_directive (kept : QuotesKept content)
    (parts : content = before ++ (line ++ text)) (start : before = [] ∨ before.getLast? = some '\n')
    (whole : '\n' ∉ line) (directive : isDirective line = true)
    (ends : text.takeWhile (· ≠ '\n') = [] ∨ text.takeWhile (· ≠ '\n') = ['\r']) :
    ¬ (before.foldl Mode.next .code).Verbatim := by
  intro quoted
  have split := (kept.split parts quoted).1
  rw [takeWhile_line whole] at split
  rcases start with rfl | start
  · exact absurd quoted (by decide)
  · refine split ⟨start, ?_⟩
    rcases ends with ends | ends
    · rwa [ends, List.append_nil]
    · rwa [ends, isDirective_append_blank (by decide)]

/-- From the start of a line on, the text and the lines that are joined for it are alike. In a
quoted text this takes in the line feed before the line. -/
structure Resumes (mode : Mode) (text joined : List Char) : Prop where
  spaced : mode.Spaced → Alike mode (skipFrom false text) (skipFrom false joined)
  quoted : mode = .quoted → ∀ {before : Mode}, before.Verbatim → Alike before ('\n' :: text) joined

theorem resumes_of_alikeAt {joined : List Char} (h : AlikeAt mode text joined) :
    Resumes mode text ('\n' :: joined) where
  spaced spaced := by
    rw [skipFrom_newline]
    exact ((alikeAt_iff spaced.ne_comment).mp h).skip spaced
  quoted quoted before verbatim := by
    subst quoted
    refine .same (fun spaced => absurd spaced verbatim.not_spaced) ?_
    rw [verbatim.next_newline]
    exact h

theorem joined_cases (lines : List (List Char)) :
    joined lines = [] ∨ ∃ after, joined lines = '\n' :: after := by
  rw [joined]
  cases lines.filter (!isDirective ·) with
  | nil => exact .inl rfl
  | cons line others => exact .inr ⟨_, rfl⟩

theorem open_joined (lines : List (List Char)) : Open (joined lines) := by
  rcases joined_cases lines with none | ⟨after, newline⟩
  · rw [none]
    rintro _ ⟨⟩
  · rw [newline]
    rintro _ ⟨⟩
    decide

theorem skipFrom_joined (lines : List (List Char)) :
    skipFrom true (joined lines) = skipFrom false (joined lines) := by
  rcases joined_cases lines with none | ⟨after, newline⟩
  · rw [none]
    rfl
  · rw [newline]
    rfl

theorem alikeAt_of_resumes (ends : LineEnd ending) (kept : mode.Verbatim → ending = ['\n'])
    (comment : ∀ outside, mode = .comment outside → outside.Spaced)
    (h : Resumes (ending.foldl Mode.next mode) text (joined lines)) :
    AlikeAt mode (ending ++ text) (joined lines) := by
  rcases mode.cases_place with spaced | verbatim | ⟨outside, rfl⟩
  · obtain ⟨stays, skipped⟩ := blank_ending ends spaced text
    rw [stays] at h
    have alike := h.spaced spaced
    rw [← skipped] at alike
    have ended : Open (ending ++ text) := by
      rcases ends with rfl | rfl <;>
      · rintro _ ⟨⟩
        decide
    exact (alikeAt_iff spaced.ne_comment).mpr (.gap spaced ended (open_joined lines) alike)
  · rw [kept verbatim] at h ⊢
    exact (alikeAt_iff verbatim.ne_comment).mpr (h.quoted verbatim.next_newline verbatim)
  · obtain ⟨after, skipped⟩ := comment_ending ends outside text
    rw [after] at h
    have alike := h.spaced (comment outside rfl)
    rwa [← skipped, ← skipFrom_joined] at alike

theorem joined_cons (line : List Char) (lines : List (List Char)) :
    joined (line :: lines) =
      if isDirective line then joined lines else '\n' :: (line ++ joined lines) := by
  cases directive : isDirective line <;> simp [joined, directive]

theorem resumes_of_directive {joined : List Char} (directive : isDirective line = true)
    (whole : '\n' ∉ line) (outside : ¬ mode.Verbatim)
    (h : mode.Spaced → Alike mode (skipFrom true text) (skipFrom false joined)) :
    Resumes mode (line ++ text) joined where
  spaced spaced := by
    rw [(directive_is_comment spaced directive whole).2]
    exact h spaced
  quoted quoted := absurd (.inl quoted) outside

/-- Line by line, a text and what is joined of its lines stay alike. -/
theorem resumes_joined (kept : QuotesKept content) (cut : Cut text lines)
    (parts : content = before ++ text) (start : before = [] ∨ before.getLast? = some '\n') :
    Resumes (before.foldl Mode.next .code) text (joined lines) := by
  -- One line at a time: `before` grows by the line and its end, so the next line starts after it.
  induction cut generalizing before with
  | nil =>
    -- A quoted text that the line feed is part of has no end here.
    refine ⟨fun _ => .ended, fun _ before verbatim => ?_⟩
    exact .unclosed verbatim (by decide) List.not_mem_nil
  | @last line whole =>
    rw [← List.append_nil line] at parts
    suffices Resumes (before.foldl Mode.next .code) (line ++ []) (joined [line]) by
      rwa [List.append_nil] at this
    rw [joined_cons]
    split
    · rename_i directive
      have outside := not_verbatim_of_directive kept parts start whole directive (.inl rfl)
      exact resumes_of_directive directive whole outside fun _ => .ended
    · exact resumes_of_alikeAt (alikeAt_append whole (alikeAt_nil _))
  | @line line ending rest lines whole ends cut ih =>
    have ended : (before ++ (line ++ ending)).getLast? = some '\n' := by
      rcases ends with rfl | rfl <;> simp
    have later := ih (by simp [parts]) (.inr ended)
    rw [List.foldl_append, List.foldl_append] at later
    rw [joined_cons]
    split
    · rename_i directive
      have outside := not_verbatim_of_directive kept parts start whole directive
        (by rcases ends with rfl | rfl <;> simp)
      refine resumes_of_directive directive whole outside fun spaced => ?_
      obtain ⟨after, skipped⟩ := comment_ending ends (before.foldl Mode.next .code) rest
      rw [(directive_is_comment spaced directive whole).1, after] at later
      rw [skipped]
      exact later.spaced spaced
    · refine resumes_of_alikeAt (alikeAt_append whole (alikeAt_of_resumes ends ?_ ?_ later))
      · -- In a quoted text the carriage return would be lost.
        intro quoted
        rw [← List.foldl_append] at quoted
        rw [← List.append_assoc] at parts
        refine ends.resolve_right fun carriage => (kept.split parts quoted).2 ?_
        rw [carriage]
        exact List.prefix_append _ _
      · intro outside comment
        rw [← List.foldl_append] at comment
        exact spaced_of_foldl_next (fun _ code => by cases code) comment

end KeptTexts

section Programs

theorem mapError_eq_ok_iff {ε ε' α : Type} {x : Except ε α} {f : ε → ε'} {a : α} :
    x.mapError f = .ok a ↔ x = .ok a := by
  cases x with
  | error fault =>
    constructor <;>
    · intro h
      cases h
  | ok value =>
    constructor <;>
    · intro h
      cases h
      rfl

theorem eq_ok_of_toOption {ε α : Type} {x : Except ε α} {a : α} (h : x.toOption = some a) :
    x = .ok a := by
  cases x with
  | error fault => cases h
  | ok value =>
    cases h
    rfl

theorem TestFile.programLines_of_ofLines {number : Nat} {lines : List String} {file : TestFile}
    (h : ofLines number lines = .ok file) :
    file.programLines = lines.filter (Line.classify · = .program) := by
  induction lines generalizing number file with
  | nil =>
    cases h
    rfl
  | cons line lines ih =>
    rw [ofLines] at h
    have further {add : TestFile → TestFile} (h : add <$> ofLines (number + 1) lines = .ok file) :
        ∃ later : TestFile, later.programLines = lines.filter (Line.classify · = .program) ∧
          add later = file := by
      cases read : ofLines (number + 1) lines with
      | error fault =>
        rw [read] at h
        cases h
      | ok later =>
        rw [read] at h
        cases h
        exact ⟨later, ih read, rfl⟩
    split at h
    · cases h
    · rename_i kind
      obtain ⟨later, rest, rfl⟩ := further h
      simpa [kind, addCommand] using rest
    · rename_i kind
      obtain ⟨later, rest, rfl⟩ := further h
      simpa [kind, addDirective] using rest
    · rename_i kind
      obtain ⟨later, rest, rfl⟩ := further h
      simpa [kind, addLine] using rest

theorem intercalate_cons_eq_append (line : List Char) (lines : List (List Char)) :
    ['\n'].intercalate (line :: lines) = line ++ lines.flatMap ('\n' :: ·) := by
  induction lines generalizing line with
  | nil => simp [List.intercalate]
  | cons next lines ih =>
    have further : ['\n'].intercalate (line :: next :: lines) =
        line ++ ('\n' :: ['\n'].intercalate (next :: lines)) := rfl
    rw [further, ih]
    simp

theorem TestFile.skip_programText {content : String} {file : TestFile}
    (h : parse content = .ok file) :
    skipFrom false file.programText.toList =
      skipFrom false (joined (Text.linesFrom [] content.toList)) := by
  have read : ofLines 1 (Text.lines content) = .ok file := mapError_eq_ok_iff.mp h
  have shown : file.programLines.map String.toList =
      (Text.linesFrom [] content.toList).filter (!isDirective ·) := by
    rw [programLines_of_ofLines read, Text.lines, List.filter_map, List.map_map]
    simp [Function.comp_def, isDirective]
  rw [programText, String.toList_intercalate, shown, joined]
  cases (Text.linesFrom [] content.toList).filter (!isDirective ·) with
  | nil => rfl
  | cons line lines =>
    have first : "\n".toList = ['\n'] := rfl
    rw [first, intercalate_cons_eq_append]
    rfl

/-- A test file and its text without the directives are the same program, unless a quoted text holds
a directive or a carriage return at the end of a line. -/
theorem TestFile.parse_programText {content : String} {file : TestFile}
    (read : parse content = .ok file) (kept : QuotesKept content.toList) (program : Program) :
    Program.parse content = .ok program ↔ Program.parse file.programText = .ok program := by
  have cut : Cut content.toList (Text.linesFrom [] content.toList) :=
    cut_linesFrom List.not_mem_nil content.toList
  have resumed := resumes_joined kept cut (List.nil_append _).symm (.inl rfl)
  have alike := resumed.spaced spaced_code
  rw [← skip_programText read] at alike
  rw [Program.parse, Program.parse, mapError_eq_ok_iff, mapError_eq_ok_iff]
  exact program_eq_ok_iff_of_alike alike

/-- Both ends of lines, a directive in a function, a quote in a comment, and a quoted text of two
lines with a semicolon in it. -/
def notedText : String :=
  "\n".intercalate
    ["; RUN: tessel --print-ir %s\r", "  ; CHECK: fn greet", "fn greet() -> %s \x7b ; a \" here\r",
      "  ; CHECK-NEXT: literal", "  %s = literal \"a", " b; CHECK: c\" : string\r", "\x7d", ""]

def notedFile : TestFile where
  commands := [⟨"tessel", ["--print-ir", "%s"]⟩]
  directives := [.find .plain "fn greet", .next "literal"]
  programLines := ["fn greet() -> %s \x7b ; a \" here", "  %s = literal \"a",
    " b; CHECK: c\" : string", "\x7d"]

theorem TestFile.parse_programText_notedText : TestFile.parse notedText = .ok notedFile ∧
    QuotesKept notedText.toList ∧ ∃ program, Program.parse notedText = .ok program ∧
      Program.parse notedFile.programText = .ok program := by
  have read : TestFile.parse notedText = .ok notedFile := by
    apply eq_ok_of_toOption
    rw [TestFile.parse, Text.lines, notedText, String.toList_intercalate]
    decide +kernel
  have kept : QuotesKept notedText.toList := by
    rw [notedText, String.toList_intercalate]
    decide +kernel
  have accepted : (Program.parse notedText).isOk = true := by
    rw [Program.parse, notedText, String.toList_intercalate]
    decide +kernel
  cases parsed : Program.parse notedText with
  | error error =>
    rw [parsed] at accepted
    cases accepted
  | ok program =>
    exact ⟨read, kept, program, rfl, (TestFile.parse_programText read kept program).mp parsed⟩

def remarkText : String :=
  "\n".intercalate
    ["fn greet() -> %s \x7b", "  %s = literal \"a", "; COM: b", "c\" : string", "\x7d"]

def returnText : String :=
  "\n".intercalate ["fn greet() -> %s \x7b", "  %s = literal \"a\r", "c\" : string", "\x7d"]

def greetLines : List String :=
  ["fn greet() -> %s \x7b", "  %s = literal \"a", "c\" : string", "\x7d"]

theorem TestFile.programText_differs_in_quotes :
    (∃ file program, TestFile.parse remarkText = .ok file ∧
      ¬ (Program.parse remarkText = .ok program ↔
        Program.parse file.programText = .ok program)) ∧
    ∃ file program, TestFile.parse returnText = .ok file ∧
      ¬ (Program.parse returnText = .ok program ↔
        Program.parse file.programText = .ok program) := by
  have differs {content : String} {file : TestFile} (read : TestFile.parse content = .ok file)
      (accepted : (Program.parse content).isOk = true)
      (other : (Program.parse content).toOption ≠ (Program.parse file.programText).toOption) :
      ∃ file program, TestFile.parse content = .ok file ∧
        ¬ (Program.parse content = .ok program ↔
          Program.parse file.programText = .ok program) := by
    cases parsed : Program.parse content with
    | error error =>
      rw [parsed] at accepted
      cases accepted
    | ok program =>
      refine ⟨file, program, read, fun same => other ?_⟩
      rw [parsed, same.mp rfl]
  have remark : TestFile.parse remarkText = .ok ⟨[], [.comment "b"], greetLines⟩ := by
    apply eq_ok_of_toOption
    rw [TestFile.parse, Text.lines, remarkText, String.toList_intercalate]
    decide +kernel
  have carriage : TestFile.parse returnText = .ok ⟨[], [], greetLines⟩ := by
    apply eq_ok_of_toOption
    rw [TestFile.parse, Text.lines, returnText, String.toList_intercalate]
    decide +kernel
  constructor
  · refine differs remark ?_ ?_ <;>
    · simp only [TestFile.programText, Program.parse, remarkText, greetLines,
        String.toList_intercalate]
      decide +kernel
  · refine differs carriage ?_ ?_ <;>
    · simp only [TestFile.programText, Program.parse, returnText, greetLines,
        String.toList_intercalate]
      decide +kernel

end Programs

end RegisterIR.Check
