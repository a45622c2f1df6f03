import MusicScore.Proofs.Yaml.Cursor

/-!
# Plain scalars

A plain scalar that was written is read as its text, wherever its lines were folded: the reader takes the words one
after the other, and a line break between two of them for the one blank that stood there. It ends with its line, as
what follows is not behind the margin.
-/
namespace MusicScore.Yaml

open Folding

/-- There is no blank, no break and no comment at the front. -/
def Starts (next : List Char) : Prop := ∀ ch ∈ next.head?, isBlankOrBreak ch = false ∧ ch ≠ '#'

/-- Another token may begin here, even in the first column: there is no separator at the front either. -/
structure Opens (next : List Char) : Prop where
  starts : Starts next
  dashes : ['-', '-', '-'].isPrefixOf next = false
  dots : ['.', '.', '.'].isPrefixOf next = false

/-- Nothing begins at the end. -/
theorem opens_nil : Opens [] := ⟨by simp [Starts], rfl, rfl⟩

variable {c : Cursor} {word rest next s : List Char} {column margin : Nat} {place : Place}

/-- What opens a token is no separator. -/
theorem Opens.separator (opens : Opens next) (stands : c.Stands next column) : c.isAtSeparator = false := by
  simp [Cursor.isAtSeparator, stands.rest, opens.dashes, opens.dots]

/-- Where a token starts there is no blank at the front, and no break. -/
theorem Starts.solid (starts : Starts next) : ∀ ch ∈ next.head?, ch ≠ ' ' ∧ isLineBreak ch = false := by
  intro ch member
  have solid := (starts ch member).1
  simp only [isBlankOrBreak, Bool.or_eq_false_iff, decide_eq_false_iff_not] at solid
  exact ⟨solid.1.1, solid.2⟩

/-- Blanks are no separator. -/
theorem separator_of_blank (stands : c.Stands (List.replicate margin ' ' ++ rest) column) (some : 0 < margin) :
    c.isAtSeparator = false := by
  obtain ⟨more, rfl⟩ : ∃ more, margin = more + 1 := ⟨margin - 1, by omega⟩
  simp [Cursor.isAtSeparator, stands.rest, List.replicate_succ, List.isPrefixOf]

namespace Plain

/-! ## Words -/

/-- The characters are those of one word: typed ones without a blank, and no colon at the end. -/
structure IsWord (word : List Char) : Prop where
  solid : ∀ ch ∈ word, isTyped ch = true ∧ ch ≠ ' '
  colon : word.getLast? ≠ some ':'

/-- A word is taken as a whole, up to what is no part of it. -/
theorem word_append (isWord : IsWord word) (ends : Plain.word false rest = []) :
    Plain.word false (word ++ rest) = word := by
  induction word with
  | nil => exact ends
  | cons ch word inductionHypothesis =>
    obtain ⟨⟨typed, solid⟩, others⟩ := List.forall_mem_cons.mp isWord.solid
    have blank : isBlankOrBreak ch = false := Bool.eq_false_iff.mpr fun same => solid ((isBlankOrBreak_iff typed).mp same)
    cases word with
    | nil =>
      have other : ch ≠ ':' := fun same => isWord.colon (by rw [same]; rfl)
      simp [Plain.word, blank, other, ends]
    | cons follower word =>
      obtain ⟨followerTyped, followerSolid⟩ := others follower List.mem_cons_self
      have onward := inductionHypothesis ⟨others, isWord.colon⟩
      have followerBlank : isBlankOrBreak follower = false :=
        Bool.eq_false_iff.mpr fun same => followerSolid ((isBlankOrBreak_iff followerTyped).mp same)
      rw [List.cons_append, Plain.word, onward]
      simp [blank, followerBlank]

/-- A word ends at a blank, a break or the end. -/
theorem word_eq_nil (ends : rest.head?.all isBlankOrBreak = true) : Plain.word false rest = [] := by
  cases rest with
  | nil => rfl
  | cons ch rest =>
    rw [List.head?_cons, Option.all_some] at ends
    simp [Plain.word, ends]

/-- A word ends at a colon with a blank or a break behind it. -/
theorem word_colon (ends : rest.head?.all isBlankOrBreak = true) : Plain.word false (':' :: rest) = [] := by
  have marked : (rest.head?.all fun next => isBlankOrBreak next || (false && next ≠ '?' && isBracketMark next)) = true := by
    simpa using ends
  simp only [Plain.word, marked]
  simp

/-! ## Between words -/

/-- The blanks at the start of a line lead to what follows them. -/
theorem breaks_blanks {fuel : Nat} (stands : c.Stands (List.replicate margin ' ' ++ rest) column)
    (solid : ∀ ch ∈ rest.head?, ch ≠ ' ' ∧ isLineBreak ch = false) (enough : margin < fuel) :
    ∃ after, breaks fuel c = (some [], after) ∧ after.Stands rest (column + margin) := by
  induction margin generalizing c column fuel with
  | zero =>
    obtain ⟨less, rfl⟩ : ∃ less, fuel = less + 1 := ⟨fuel - 1, by omega⟩
    refine ⟨c, ?_, stands⟩
    cases rest with
    | nil => simp [breaks, stands.isAt_nil]
    | cons ch rest => simp [breaks, stands.isAt, solid ch rfl]
  | succ margin inductionHypothesis =>
    obtain ⟨less, rfl⟩ : ∃ less, fuel = less + 1 := ⟨fuel - 1, by omega⟩
    rw [List.replicate_succ, List.cons_append] at stands
    have fewer : margin < less := by omega
    obtain ⟨after, found, further⟩ := inductionHypothesis (stands.next rfl).1 fewer
    refine ⟨after, ?_, ?_⟩
    · rw [breaks, if_pos (by simp [stands.isAt]), found]
    · rwa [Nat.add_right_comm, Nat.add_assoc] at further

/-- A line break with a margin stands for a blank. -/
theorem gap_nextLine (stands : c.Stands (nextLine margin ++ rest) column)
    (solid : ∀ ch ∈ rest.head?, ch ≠ ' ' ∧ isLineBreak ch = false)
    (separate : ∀ d : Cursor, d.Stands (List.replicate margin ' ' ++ rest) 0 → d.isAtSeparator = false) :
    ∃ after, gap c = ([' '], after, true) ∧ after.Stands rest margin := by
  have lines : c.Stands ('\n' :: (List.replicate margin ' ' ++ rest)) column := stands
  have taken : c.takeWhile (· = ' ') = ([], c) := lines.takeWhile_none rfl
  obtain ⟨broken, start, _⟩ := lines.lineBreak
  have enough : margin < c.next.left + 1 := by
    rw [start.left, List.length_append, List.length_replicate]
    omega
  obtain ⟨after, found, further⟩ := breaks_blanks start solid enough
  rw [Nat.zero_add] at further
  refine ⟨after, ?_, further⟩
  have atBreak : c.isAt isLineBreak = true := by
    rw [lines.isAt]
    rfl
  unfold gap
  rw [taken]
  simp only [atBreak, broken, separate c.next start, if_true, Bool.false_eq_true, if_false,
    found]
  rfl

/-- Blanks in a line stand for themselves. -/
theorem gap_blanks {count : Nat} (stands : c.Stands (List.replicate count ' ' ++ rest) column)
    (solid : ∀ ch ∈ rest.head?, ch ≠ ' ' ∧ isLineBreak ch = false) :
    ∃ after, gap c = (List.replicate count ' ', after, false) ∧ after.Stands rest (column + count) := by
  have blank (ch : Char) (member : ch ∈ List.replicate count ' ') : ch = ' ' := List.eq_of_mem_replicate member
  have taken : c.takeWhile (· = ' ') = (List.replicate count ' ', c.skip (List.replicate count ' ').length) :=
    stands.takeWhile (fun ch member => by simp [blank ch member]) fun ch member => by simp [(solid ch member).1]
  have moved := (stands.skip fun ch member => blank ch member ▸ rfl).1
  rw [List.length_replicate] at taken moved
  have noBreak : (c.skip count).isAt isLineBreak = false := by
    cases rest with
    | nil => exact moved.isAt_nil _
    | cons ch rest => rw [moved.isAt, (solid ch rfl).2]
  refine ⟨c.skip count, ?_, moved⟩
  unfold gap
  rw [taken]
  simp [noBreak]

/-! ## Texts -/

/-- What follows a blank of a text without structure has no structure. -/
theorem holdsStructure_append {previous : Char} {before : List Char}
    (unstructured : Style.holdsStructure previous (before ++ ' ' :: s) = false) :
    Style.holdsStructure ' ' s = false := by
  induction before generalizing previous with
  | nil => exact (Bool.or_eq_false_iff.mp unstructured).2
  | cons ch before inductionHypothesis => exact inductionHypothesis (Bool.or_eq_false_iff.mp unstructured).2

/-- In a text without structure a colon has no gap behind it. -/
theorem gapFollows_of_colon {previous : Char} {before : List Char}
    (unstructured : Style.holdsStructure previous (before ++ ':' :: s) = false) : Style.gapFollows s = false := by
  induction before generalizing previous with
  | nil =>
    simp only [List.nil_append, Style.holdsStructure, Bool.or_eq_false_iff] at unstructured
    simpa using unstructured.1.1
  | cons ch before inductionHypothesis => exact inductionHypothesis (Bool.or_eq_false_iff.mp unstructured).2

/-- The text is one that may be written plain: words with blanks between them, none of which looks like structure. -/
structure Flows (s : List Char) : Prop where
  typed : ∀ ch ∈ s, isTyped ch = true
  begins : ∀ ch ∈ s.head?, ch ≠ ' '
  nonempty : s ≠ []
  ends : s.getLast? ≠ some ' '
  unstructured : Style.holdsStructure ' ' s = false

/-- A text begins with characters that are no blanks, and goes on with blanks if at all. -/
theorem exists_blanks (s : List Char) : ∃ word rest, s = word ++ rest ∧ (∀ ch ∈ word, ch ≠ ' ') ∧
    (rest = [] ∨ ∃ count t, rest = List.replicate (count + 1) ' ' ++ t ∧ ∀ ch ∈ t.head?, ch ≠ ' ') := by
  induction s with
  | nil => exact ⟨[], [], rfl, by simp, .inl rfl⟩
  | cons ch s inductionHypothesis =>
    obtain ⟨word, rest, rfl, solid, blanks⟩ := inductionHypothesis
    by_cases blank : ch = ' '
    · subst ch
      refine ⟨[], _, rfl, by simp, .inr ?_⟩
      cases word with
      | cons first word => exact ⟨0, first :: word ++ rest, rfl, by simpa using solid first List.mem_cons_self⟩
      | nil =>
        rcases blanks with rfl | ⟨count, t, rfl, first⟩
        · exact ⟨0, [], rfl, by simp⟩
        · exact ⟨count + 1, t, rfl, first⟩
    · exact ⟨ch :: word, rest, rfl, List.forall_mem_cons.mpr ⟨blank, solid⟩, blanks⟩

/-- A text is a word, or a word, blanks and a text. -/
theorem Flows.split (flows : Flows s) : ∃ word, IsWord word ∧ word ≠ [] ∧
    (s = word ∨ ∃ count t, s = word ++ (List.replicate (count + 1) ' ' ++ t) ∧ Flows t) := by
  obtain ⟨word, rest, rfl, solid, blanks⟩ := exists_blanks s
  have typed (ch : Char) (member : ch ∈ word) : isTyped ch = true := flows.typed ch (List.mem_append_left _ member)
  -- a colon at the end of the word would be structure, as a blank or the end comes after it
  have colon (gap : Style.gapFollows rest = true) : word.getLast? ≠ some ':' := by
    intro last
    obtain ⟨before, rfl⟩ := List.getLast?_eq_some_iff.mp last
    have unstructured := flows.unstructured
    rw [List.append_assoc] at unstructured
    have noGap : Style.gapFollows rest = false := gapFollows_of_colon unstructured
    rw [gap] at noGap
    cases noGap
  rcases blanks with rfl | ⟨count, t, rfl, first⟩
  · have isWord : IsWord word := ⟨fun ch member => ⟨typed ch member, solid ch member⟩, colon rfl⟩
    exact ⟨word, isWord, by simpa using flows.nonempty, .inl (List.append_nil word)⟩
  · have isWord : IsWord word := ⟨fun ch member => ⟨typed ch member, solid ch member⟩, colon rfl⟩
    have nonempty : word ≠ [] := by
      rintro rfl
      exact flows.begins ' ' rfl rfl
    have further : t ≠ [] := by
      rintro rfl
      apply flows.ends
      rw [List.append_nil, List.replicate_succ', ← List.append_assoc, List.getLast?_concat]
    refine ⟨word, isWord, nonempty, .inr ⟨count, t, rfl, ?_, first, further, ?_, ?_⟩⟩
    · exact fun ch member => flows.typed ch (List.mem_append_right _ (List.mem_append_right _ member))
    · have last := flows.ends
      rwa [← List.append_assoc, List.getLast?_append, Option.or_of_isSome (List.getLast?_isSome.mpr further)] at last
    · have unstructured := flows.unstructured
      rw [List.replicate_succ', List.append_assoc, ← List.append_assoc] at unstructured
      exact holdsStructure_append unstructured

/-- The first character of a text is no comment. -/
theorem Flows.noComment (flows : Flows s) : s.head? ≠ some '#' := by
  intro first
  obtain ⟨more, rfl⟩ := List.head?_eq_some_iff.mp first
  have unstructured := flows.unstructured
  simp [Style.holdsStructure, Style.isGap] at unstructured

/-- A text that does not begin as structure begins with no indicator, and with no colon before a gap. -/
theorem first_of_beginsAsStructure {ch : Char} {more : List Char} (free : Style.beginsAsStructure (ch :: more) = false) :
    Style.isLeadingIndicator ch = false ∧
      ((ch = '?' || ch = ':' || ch = '-') && Style.gapFollows more) = false := by
  unfold Style.beginsAsStructure at free
  split at free
  · cases free
  · cases free
  · next same =>
    obtain ⟨rfl, rfl⟩ := List.cons.inj same
    exact Bool.or_eq_false_iff.mp free
  · next none => cases none

/-- What may be written plain does not begin as structure. -/
theorem first_of_admitsPlain {ch : Char} {more : List Char} (admitted : Style.admitsPlain (ch :: more) = true) :
    Style.isLeadingIndicator ch = false ∧
      ((ch = '?' || ch = ':' || ch = '-') && Style.gapFollows more) = false := by
  simp only [Style.admitsPlain, List.isEmpty_cons, Bool.false_or, Bool.not_eq_true', Bool.or_eq_false_iff] at admitted
  exact first_of_beginsAsStructure (Bool.or_eq_false_iff.mp admitted.1.2).1

/-- What may be written plain is a text of words. -/
theorem flows_of_admitsPlain (nonempty : s ≠ []) (admitted : Style.admitsPlain s = true) : Flows s := by
  obtain ⟨ch, more, rfl⟩ := List.exists_cons_of_ne_nil nonempty
  have tests := admitted
  simp only [Style.admitsPlain, List.isEmpty_cons, Bool.false_or, Bool.not_eq_true', Bool.or_eq_false_iff] at tests
  obtain ⟨⟨⟨ends, lines⟩, structured⟩, shown⟩ := tests
  simp only [Style.hasBlankEnds, List.any_cons, List.any_nil, Bool.or_false, Bool.or_eq_false_iff, List.head?_cons,
    Option.any_some, decide_eq_false_iff_not] at ends
  have unstructured := (Bool.or_eq_false_iff.mp structured).2
  obtain ⟨indicator, gap⟩ := first_of_admitsPlain admitted
  refine ⟨fun d member => ?_, fun d first => ?_, nonempty, fun last => ?_, ?_⟩
  · have noBreak := List.any_eq_false.mp lines d member
    have visible := List.any_eq_false.mp shown d member
    rw [Bool.not_eq_true', Bool.not_eq_false] at visible
    refine (isShown_iff.mp visible).resolve_left fun same => noBreak ?_
    rw [same]
    rfl
  · obtain rfl := Option.some.inj first
    exact ends.1.1
  · rw [last] at ends
    simp at ends
  · have noComment : ch ≠ '#' := by
      rintro rfl
      simp [Style.isLeadingIndicator] at indicator
    have noColon : (ch = ':' && Style.gapFollows more) = false := by
      cases follows : Style.gapFollows more with
      | false => simp
      | true =>
        simp only [follows, Bool.and_true, Bool.or_eq_false_iff] at gap
        rw [gap.1.2]
        rfl
    rw [Style.holdsStructure, noColon]
    simpa [noComment] using unstructured

/-! ## Texts that were written -/

/-- The characters of a word are written as they are. -/
theorem plainFrom_word (place : Place) (fuel column : Nat) (solid : ∀ ch ∈ word, ch ≠ ' ') (rest : List Char) :
    plainFrom place (fuel + word.length) column (word ++ rest) =
      word ++ plainFrom place fuel (column + word.length) rest := by
  induction word generalizing column with
  | nil => rfl
  | cons ch word inductionHypothesis =>
    obtain ⟨first, others⟩ := List.forall_mem_cons.mp solid
    rw [List.length_cons, ← Nat.add_assoc, List.cons_append, plainFrom, if_neg first, inductionHypothesis _ others,
      List.cons_append, Nat.add_right_comm, Nat.add_assoc]

/-- A word alone is written as it is. -/
theorem plainFrom_last {wide : Nat} (solid : ∀ ch ∈ word, ch ≠ ' ') (width : word.length < wide) :
    plainFrom place wide column word = word := by
  obtain ⟨less, rfl⟩ : ∃ less, wide = less + 1 + word.length := ⟨wide - 1 - word.length, by omega⟩
  have written := plainFrom_word place (less + 1) column solid []
  have nothing : plainFrom place (less + 1) (column + word.length) [] = [] := rfl
  rwa [nothing, List.append_nil] at written

/-- Blanks between words are written as they are, or a single one as a line break with a margin. -/
theorem plainFrom_blanks (place : Place) (fuel column count : Nat) (first : ∀ ch ∈ rest.head?, ch ≠ ' ') :
    (plainFrom place (fuel + 1) column (List.replicate (count + 1) ' ' ++ rest) =
        List.replicate (count + 1) ' ' ++ plainFrom place fuel (column + 1 + count) rest) ∨
      count = 0 ∧ plainFrom place (fuel + 1) column (List.replicate (count + 1) ' ' ++ rest) =
        nextLine place.margin ++ plainFrom place fuel place.margin rest := by
  have stop : rest.takeWhile (· = ' ') = [] ∧ rest.dropWhile (· = ' ') = rest := by
    cases rest with
    | nil => exact ⟨rfl, rfl⟩
    | cons ch rest => simp [first ch rfl]
  have blanks : ∀ ch ∈ List.replicate count ' ', decide (ch = ' ') = true := fun ch member => by
    simp [List.eq_of_mem_replicate member]
  have run : run (· = ' ') (List.replicate count ' ' ++ rest) = (List.replicate count ' ', rest) := by
    rw [Folding.run, List.takeWhile_append_of_pos blanks, List.dropWhile_append_of_pos blanks, stop.1, stop.2,
      List.append_nil]
  rw [List.replicate_succ, List.cons_append, plainFrom, if_pos rfl, run]
  dsimp only
  split_ifs with fold
  · right
    simp only [Bool.and_eq_true, List.isEmpty_iff, List.replicate_eq_nil_iff] at fold
    exact ⟨fold.1.1, rfl⟩
  · left
    rw [List.length_replicate]

/-- What is written of a text of words begins with its first character, which is neither a blank nor a comment. -/
theorem Flows.head_plainFrom {wide : Nat} (flows : Flows s) (width : s.length < wide) (place : Place) (start : Nat)
    (rest : List Char) :
    (∀ d ∈ (plainFrom place wide start s ++ rest).head?, d ≠ ' ' ∧ isLineBreak d = false) ∧
      (plainFrom place wide start s ++ rest).head? ≠ some '#' := by
  obtain ⟨ch, more, rfl⟩ := List.exists_cons_of_ne_nil flows.nonempty
  obtain ⟨less, rfl⟩ : ∃ less, wide = less + 1 := ⟨wide - 1, by omega⟩
  have first : ch ≠ ' ' := flows.begins ch rfl
  have other : ch ≠ '#' := fun same => flows.noComment (by rw [same]; rfl)
  rw [plainFrom, if_neg first, List.cons_append, List.head?_cons]
  refine ⟨fun d member => ?_, fun same => other (Option.some.inj same)⟩
  obtain rfl := Option.some.inj member
  exact ⟨first, isLineBreak_of_isTyped (flows.typed _ List.mem_cons_self)⟩

/-- What is written of a text begins with its first character if that is no blank. -/
theorem head?_plainFrom {ch : Char} (solid : ch ≠ ' ') (place : Place) (fuel column : Nat) (s : List Char) :
    (plainFrom place fuel column (ch :: s)).head? = some ch := by
  cases fuel with
  | zero => rfl
  | succ fuel => rw [plainFrom, if_neg solid, List.head?_cons]

/-- A text is its characters at the front that pass a test, and the others. -/
theorem run_append {test : Char → Bool} {more after : List Char} (split : run test s = (more, after)) :
    s = more ++ after := by
  obtain ⟨rfl, rfl⟩ := Prod.mk.inj split
  exact List.takeWhile_append_dropWhile.symm

/-- No character gets lost. -/
theorem length_le_plainFrom (place : Place) (fuel column : Nat) (s : List Char) :
    s.length ≤ (plainFrom place fuel column s).length := by
  fun_induction plainFrom place fuel column s with
  | case1 => exact Nat.le_refl _
  | case2 => exact Nat.le_refl _
  | case3 fuel column rest more after split fold inductionHypothesis =>
    have parts := run_append split
    simp only [Bool.and_eq_true, List.isEmpty_iff] at fold
    obtain rfl := fold.1.1
    simp only [parts, nextLine, List.nil_append, List.length_append, List.length_cons, List.length_replicate]
    omega
  | case4 fuel column rest more after split fold inductionHypothesis =>
    have parts := run_append split
    simp only [parts, List.length_append, List.length_cons]
    omega
  | case5 fuel column ch rest solid inductionHypothesis => simpa using inductionHypothesis

/-- A line break and a margin can be shown. -/
theorem isShown_nextLine (margin : Nat) : ∀ ch ∈ nextLine margin, Style.isShown ch = true := by
  intro ch member
  rcases List.mem_cons.mp member with rfl | blank
  · rfl
  · rw [List.eq_of_mem_replicate blank]
    rfl

/-- What is written of a text that can be shown can be shown. -/
theorem isShown_plainFrom (place : Place) (fuel column : Nat) (shown : ∀ ch ∈ s, Style.isShown ch = true) :
    ∀ ch ∈ plainFrom place fuel column s, Style.isShown ch = true := by
  fun_induction plainFrom place fuel column s with
  | case1 => exact shown
  | case2 => exact shown
  | case3 fuel column rest more after split fold inductionHypothesis =>
    obtain rfl := run_append split
    simp only [List.forall_mem_cons, List.forall_mem_append] at shown ⊢
    exact ⟨isShown_nextLine place.margin, inductionHypothesis shown.2.2⟩
  | case4 fuel column rest more after split fold inductionHypothesis =>
    obtain rfl := run_append split
    simp only [List.cons_append, List.forall_mem_cons, List.forall_mem_append] at shown ⊢
    exact ⟨shown.1, shown.2.1, inductionHypothesis shown.2.2⟩
  | case5 fuel column ch rest solid inductionHypothesis =>
    simp only [List.forall_mem_cons] at shown ⊢
    exact ⟨shown.1, inductionHypothesis shown.2⟩

/-- What is written of a text ends as the text does, if that is no blank. -/
theorem getLast?_plainFrom (place : Place) (fuel column : Nat) (ends : s.getLast? ≠ some ' ') :
    (plainFrom place fuel column s).getLast? = s.getLast? := by
  have further {before after : List Char} (ends : (before ++ after).getLast? ≠ some ' ') :
      after.getLast? ≠ some ' ' := fun same => ends (by rw [List.getLast?_append, same, Option.some_or])
  fun_induction plainFrom place fuel column s with
  | case1 => rfl
  | case2 => rfl
  | case3 fuel column rest more after split fold inductionHypothesis =>
    have parts := run_append split
    simp only [Bool.and_eq_true, List.isEmpty_iff] at fold
    obtain rfl := fold.1.1
    obtain rfl : rest = after := parts
    have onward : rest ≠ [] := by
      rintro rfl
      exact ends rfl
    have some : rest.getLast?.isSome = true := List.getLast?_isSome.mpr onward
    have last : (' ' :: rest).getLast? = rest.getLast? := by
      rw [← List.singleton_append, List.getLast?_append, Option.or_of_isSome some]
    rw [List.getLast?_append, inductionHypothesis (last ▸ ends), Option.or_of_isSome some, last]
  | case4 fuel column rest more after split fold inductionHypothesis =>
    obtain rfl := run_append split
    rw [← List.cons_append] at ends
    rw [List.getLast?_append, inductionHypothesis (further ends), ← List.getLast?_append, List.cons_append]
  | case5 fuel column ch rest solid inductionHypothesis =>
    rw [← List.singleton_append] at ends
    rw [← List.singleton_append, List.getLast?_append, inductionHypothesis (further ends), ← List.getLast?_append,
      List.singleton_append]

/-- The reader takes one word, looks what is behind it, and stops or goes on. -/
theorem body_word {bound : Int} {fuel : Nat} {pending : List Char} {ended : Bool} (isWord : IsWord word)
    (nonempty : word ≠ []) (noComment : word.head? ≠ some '#') (stands : c.Stands (word ++ rest) column)
    (ends : Plain.word false rest = []) :
    body false bound (fuel + 1) pending ended c =
      let (between, after, ended) := gap (c.skip word.length)
      if between.isEmpty || after.isAt (· = '#') || decide ((after.column : Int) < bound) then
        (pending ++ word, after, ended)
      else
        let (more, after, ended) := body false bound fuel between ended after
        (pending ++ word ++ more, after, ended) := by
  have unmarked : c.isAt (· = '#') = false := by
    obtain ⟨ch, more, rfl⟩ := List.exists_cons_of_ne_nil nonempty
    have other : ch ≠ '#' := fun same => noComment (by rw [same]; rfl)
    rw [List.cons_append] at stands
    rw [stands.isAt]
    simpa using other
  have some : word.isEmpty = false := by simpa using nonempty
  rw [body]
  simp only [unmarked, stands.rest, word_append isWord ends, some, Bool.false_eq_true, if_false, Bool.not_false,
    Bool.true_and]

/-- Where the text goes on behind the margin, the reader goes on with it. -/
theorem body_onward {fuel : Nat} {pending between more t : List Char} {ended broken : Bool} {after last : Cursor}
    (isWord : IsWord word) (nonempty : word ≠ []) (noComment : word.head? ≠ some '#')
    (stands : c.Stands (word ++ rest) column) (ends : Plain.word false rest = [])
    (found : gap (c.skip word.length) = (between, after, broken)) (gapped : between.isEmpty = false)
    {ahead : Nat} (moved : after.Stands more ahead) (unmarked : more.head? ≠ some '#') (inside : margin ≤ ahead)
    (read : body false margin fuel between broken after = (between ++ t, last, true)) :
    body false margin (fuel + 1) pending ended c = (pending ++ (word ++ (between ++ t)), last, true) := by
  have noMark : after.isAt (· = '#') = false := by
    cases more with
    | nil => exact moved.isAt_nil _
    | cons ch more =>
      have other : ch ≠ '#' := fun same => unmarked (by rw [same]; rfl)
      simp [moved.isAt, other]
  have within : decide ((after.column : Int) < margin) = false := by
    rw [moved.column]
    simpa using inside
  rw [body_word isWord nonempty noComment stands ends, found]
  simp only [gapped, noMark, within, Bool.or_false, Bool.false_eq_true, if_false, read, List.append_assoc]

/-- Behind the last word the line ends, and what comes next is not behind the margin. -/
theorem body_lastWord {fuel from' : Nat} {pending : List Char} {ended : Bool} (isWord : IsWord word) (nonempty : word ≠ [])
    (noComment : word.head? ≠ some '#') (stands : c.Stands (word ++ (nextLine column ++ next)) from') (opens : Opens next)
    (outside : column < margin) :
    ∃ after, body false margin (fuel + 1) pending ended c = (pending ++ word, after, true) ∧ after.Stands next column := by
  have typed (ch : Char) (member : ch ∈ word) : isTyped ch = true := (isWord.solid ch member).1
  have separate (d : Cursor) (start : d.Stands (List.replicate column ' ' ++ next) 0) : d.isAtSeparator = false := by
    rcases Nat.eq_zero_or_pos column with rfl | positive
    · exact opens.separator start
    · exact separator_of_blank start positive
  obtain ⟨after, found, further⟩ := gap_nextLine (stands.skip typed).1 opens.starts.solid separate
  have left : decide ((after.column : Int) < margin) = true := by
    rw [further.column]
    simpa using outside
  rw [body_word isWord nonempty noComment stands (word_eq_nil rfl), found]
  exact ⟨after, by simp only [left, Bool.or_true, if_true], further⟩

/-- Words are read up to a line that is not behind the margin, whatever comes first. -/
theorem body_plainFrom {fuel wide start from' : Nat} {pending : List Char} {ended : Bool} (flows : Flows s)
    (stands : c.Stands (plainFrom place wide start s ++ (nextLine column ++ next)) from') (opens : Opens next)
    (inside : margin ≤ from') (behind : margin ≤ place.margin) (outside : column < margin)
    (width : s.length < wide) (enough : s.length ≤ fuel) :
    ∃ after, body false margin fuel pending ended c = (pending ++ s, after, true) ∧ after.Stands next column := by
  obtain ⟨size, same⟩ : ∃ size, s.length = size := ⟨_, rfl⟩
  induction size using Nat.strongRecOn generalizing s c fuel wide start from' pending ended with
  | ind size inductionHypothesis =>
    obtain ⟨word, isWord, nonempty, last⟩ := flows.split
    have noComment : word.head? ≠ some '#' := by
      have first := flows.noComment
      rcases last with rfl | ⟨count, t, rfl, _⟩
      · exact first
      · rwa [List.head?_append, Option.or_of_isSome (List.isSome_head?.mpr nonempty)] at first
    have solid (ch : Char) (member : ch ∈ word) : ch ≠ ' ' := (isWord.solid ch member).2
    have typed (ch : Char) (member : ch ∈ word) : isTyped ch = true := (isWord.solid ch member).1
    have some : 0 < word.length := List.length_pos_iff.mpr nonempty
    rcases last with rfl | ⟨count, t, rfl, further⟩
    · -- behind the last word the line ends
      obtain ⟨fewer, rfl⟩ : ∃ fewer, fuel = fewer + 1 := ⟨fuel - 1, by omega⟩
      rw [plainFrom_last solid width] at stands
      exact body_lastWord isWord nonempty noComment stands opens outside
    · simp only [List.length_append, List.length_replicate] at same width enough
      obtain ⟨fewer, rfl⟩ : ∃ fewer, fuel = fewer + 1 := ⟨fuel - 1, by omega⟩
      obtain ⟨less, rfl⟩ : ∃ less, wide = less + 1 + word.length := ⟨wide - 1 - word.length, by omega⟩
      have smaller : t.length < size := by omega
      have narrower : t.length < less := by omega
      have sooner : t.length ≤ fewer := by omega
      have head (start : Nat) := further.head_plainFrom narrower place start (nextLine column ++ next)
      rw [plainFrom_word place (less + 1) start solid] at stands
      rcases plainFrom_blanks place less (start + word.length) count further.begins with written | ⟨rfl, written⟩
      · -- the line goes on
        rw [written, List.append_assoc, List.append_assoc] at stands
        obtain ⟨after, found, moved⟩ := gap_blanks (stands.skip typed).1 (head _).1
        obtain ⟨last, read, ended⟩ := inductionHypothesis t.length smaller further moved (by omega) narrower sooner rfl
        exact ⟨last, body_onward isWord nonempty noComment stands (word_eq_nil rfl) found rfl moved (head _).2
          (by omega) read, ended⟩
      · -- the line is folded
        rw [written, List.append_assoc, List.append_assoc] at stands
        obtain ⟨after, found, moved⟩ := gap_nextLine (stands.skip typed).1 (head _).1
          fun d start => separator_of_blank start (by omega)
        obtain ⟨last, read, ended⟩ := inductionHypothesis t.length smaller further moved behind narrower sooner rfl
        exact ⟨last, body_onward isWord nonempty noComment stands (word_eq_nil rfl) found rfl moved (head _).2
          behind read, ended⟩

/-- A text that may be written plain is read as it is, however it was folded, and its line is ended. -/
theorem read_write {start from' : Nat} (flows : Flows s)
    (stands : c.Stands (plainFrom place (s.length + 1) start s ++ (nextLine column ++ next)) from') (opens : Opens next)
    (inside : margin ≤ from') (behind : margin ≤ place.margin) (outside : column < margin) :
    ∃ after, Plain.read false margin c = (s, after, true) ∧ after.Stands next column := by
  have enough : s.length ≤ c.left + 1 := by
    have long := length_le_plainFrom place (s.length + 1) start s
    rw [stands.left, List.length_append]
    omega
  obtain ⟨after, read, ended⟩ := body_plainFrom flows stands opens inside behind outside (Nat.lt_succ_self _) enough
  exact ⟨after, read, ended⟩

/-- A word with a colon behind it is read up to the colon, and no further. -/
theorem read_key (bound : Int) (isWord : IsWord word) (nonempty : word ≠ []) (noComment : word.head? ≠ some '#')
    (stands : c.Stands (word ++ ':' :: rest) column) (ends : rest.head?.all isBlankOrBreak = true) :
    Plain.read false bound c = (word, c.skip word.length, false) := by
  have typed (ch : Char) (member : ch ∈ word) : isTyped ch = true := (isWord.solid ch member).1
  have moved := (stands.skip typed).1
  have taken : (c.skip word.length).takeWhile (· = ' ') = ([], c.skip word.length) := moved.takeWhile_none rfl
  have noBreak : (c.skip word.length).isAt isLineBreak = false := by
    rw [moved.isAt]
    rfl
  have found : gap (c.skip word.length) = ([], c.skip word.length, false) := by
    unfold gap
    rw [taken]
    simp [noBreak]
  rw [Plain.read, body_word isWord nonempty noComment stands (word_colon ends), found]
  rfl

end Plain

end MusicScore.Yaml
