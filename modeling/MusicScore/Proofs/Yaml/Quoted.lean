import MusicScore.Proofs.Text.Digits
import MusicScore.Proofs.Yaml.Plain

/-!
# Quoted scalars

A text between quotation marks is read as it was written. What stands between the marks falls into pieces, each of
which is read by itself: characters, blanks, line breaks with a margin, doubled marks and escapes. The text is put
together from what the pieces stand for.
-/
namespace MusicScore.Yaml.Quoted

open Folding Text

variable {double : Bool} {c : Cursor} {ch : Char} {s t rest more ahead part : List Char} {column margin : Nat}

/-- The mark that closes a text. -/
def mark (double : Bool) : Char := if double then '"' else '\''

/-- The text ahead of a place, within quotation marks, is read as `s` up to `rest`. -/
def ReadsTo (double : Bool) (ahead s rest : List Char) : Prop :=
  ∀ (c : Cursor) (column : Nat), c.Stands ahead column →
    ∃ after column', (∀ fuel, ahead.length < fuel → body double fuel c = .ok (s, after)) ∧ after.Stands rest column'

/-- A piece ahead, with this character at the front, is read as a part of the text and leads to what is left of it. -/
def PieceReadsTo (double : Bool) (ch : Char) (t part more : List Char) : Prop :=
  more.length ≤ t.length ∧ ∀ (c : Cursor) (column : Nat), c.Stands (ch :: t) column →
    ∃ after column', (∀ fuel, t.length < fuel →
      (if isBlankOrBreak ch then gap fuel c
        else if double && ch = '\\' then escape fuel c.next else .ok ([ch], c.next)) = .ok (part, after)) ∧
      after.Stands more column'

/-- A piece that is not the closing mark is read before what is left of the text. -/
theorem PieceReadsTo.before (piece : PieceReadsTo double ch t part more) (inside : ch ≠ mark double)
    (further : ReadsTo double more s rest) : ReadsTo double (ch :: t) (part ++ s) rest := by
  intro c column stands
  obtain ⟨shorter, reads⟩ := piece
  obtain ⟨between, there, found, moved⟩ := reads c column stands
  obtain ⟨after, last, read, ended⟩ := further between there moved
  refine ⟨after, last, fun fuel enough => ?_, ended⟩
  obtain ⟨less, rfl⟩ : ∃ less, fuel = less + 1 := ⟨fuel - 1, by omega⟩
  rw [List.length_cons] at enough
  have onward := read less (by omega)
  have piece := found less (by omega)
  rw [mark] at inside
  simp only [body, stands.peek?, inside, if_false]
  split_ifs at piece ⊢ with gapped escaped
  · simp only [piece, bind, Except.bind, onward]
    rfl
  · simp only [piece, bind, Except.bind, onward]
    rfl
  · obtain ⟨rfl, rfl⟩ := Prod.mk.inj (Except.ok.inj piece)
    simp only [bind, Except.bind, onward]
    rfl

/-- A typed character stands for itself. -/
theorem ReadsTo.char (typed : isTyped ch = true) (solid : ch ≠ ' ') (inside : ch ≠ mark double)
    (bare : double = true → ch ≠ '\\') (further : ReadsTo double t s rest) :
    ReadsTo double (ch :: t) (ch :: s) rest := by
  have noBlank : isBlankOrBreak ch = false := Bool.eq_false_iff.mpr fun same => solid ((isBlankOrBreak_iff typed).mp same)
  have noEscape : (double && decide (ch = '\\')) = false := by
    cases double with
    | false => rfl
    | true => simpa using bare rfl
  have piece : PieceReadsTo double ch t [ch] t := by
    refine ⟨Nat.le_refl _, fun c column stands => ⟨c.next, column + 1, fun fuel _ => ?_, (stands.next typed).1⟩⟩
    simp only [noBlank, noEscape, Bool.false_eq_true, if_false]
  exact piece.before inside further

/-- The closing mark ends the text. -/
theorem readsTo_close (single : double = false → rest.head? ≠ some '\'') :
    ReadsTo double (mark double :: rest) [] rest := by
  intro c column stands
  have typed : isTyped (mark double) = true := by cases double <;> rfl
  refine ⟨c.next, column + 1, fun fuel enough => ?_, (stands.next typed).1⟩
  obtain ⟨less, rfl⟩ : ∃ less, fuel = less + 1 := ⟨fuel - 1, by omega⟩
  have alone : (!double && decide (c.peekAt? 1 = some '\'')) = false := by
    cases double with
    | true => rfl
    | false =>
      rw [Cursor.peekAt?, stands.rest]
      simpa [List.head?_eq_getElem?] using single rfl
  rw [body, stands.peek?]
  simp only [mark, if_true, alone, Bool.false_eq_true, if_false]

/-- A doubled mark stands for one. -/
theorem ReadsTo.doubled (further : ReadsTo false t s rest) : ReadsTo false ('\'' :: '\'' :: t) ('\'' :: s) rest := by
  intro c column stands
  have moved := ((stands.next rfl).1.next rfl).1
  obtain ⟨after, last, read, ended⟩ := further _ _ moved
  refine ⟨after, last, fun fuel enough => ?_, ended⟩
  obtain ⟨less, rfl⟩ : ∃ less, fuel = less + 1 := ⟨fuel - 1, by omega⟩
  rw [List.length_cons, List.length_cons] at enough
  have twice : c.peekAt? 1 = some '\'' := by
    rw [Cursor.peekAt?, stands.rest]
    rfl
  have onward : body false less (c.skip 2) = .ok (s, after) := read less (by omega)
  rw [body, stands.peek?]
  simp only [twice, Bool.not_false, Bool.true_and, decide_true, Bool.false_eq_true, if_true, if_false, onward]
  rfl

/-! ## Blanks and line breaks -/

/-- A character stands at the front that is neither a blank nor a break. -/
def BeginsSolid (s : List Char) : Prop := ∃ ch more, s = ch :: more ∧ isBlankOrBreak ch = false

/-- Blanks, or none, are followed by a character of the same line. -/
def GapsEnd (s : List Char) : Prop :=
  ∃ count ch more, s = List.replicate count ' ' ++ ch :: more ∧ isBlankOrBreak ch = false

/-- Where no blank stands at the front, there is nothing to follow. -/
theorem BeginsSolid.gapsEnd (begins : BeginsSolid s) : GapsEnd s := by
  obtain ⟨ch, more, rfl, solid⟩ := begins
  exact ⟨0, ch, more, rfl, solid⟩

/-- Blanks are followed by what follows the blanks behind them. -/
theorem GapsEnd.blank (ends : GapsEnd t) : GapsEnd (' ' :: t) := by
  obtain ⟨count, ch, more, rfl, solid⟩ := ends
  exact ⟨count + 1, ch, more, rfl, solid⟩

/-- What is neither a blank nor a break ends a gap. -/
theorem inner_of_solid (solid : isBlankOrBreak ch = false) : (ch = ' ' || ch = '\t') = false ∧ isLineBreak ch = false := by
  simpa [isBlankOrBreak] using solid

/-- Blanks with a character of the line behind them stand for themselves. -/
theorem gap_blanks {count : Nat} (stands : c.Stands (List.replicate count ' ' ++ ch :: more) column)
    (solid : isBlankOrBreak ch = false) (fuel : Nat) :
    gap fuel c = .ok (List.replicate count ' ', c.skip count) ∧ (c.skip count).Stands (ch :: more) (column + count) := by
  have blank (d : Char) (member : d ∈ List.replicate count ' ') : d = ' ' := List.eq_of_mem_replicate member
  obtain ⟨noInner, line⟩ := inner_of_solid solid
  have taken : c.takeWhile (fun ch => ch = ' ' || ch = '\t') =
      (List.replicate count ' ', c.skip (List.replicate count ' ').length) :=
    stands.takeWhile (fun d member => by simp [blank d member]) (by simpa using noInner)
  have moved := (stands.skip fun d member => blank d member ▸ rfl).1
  rw [List.length_replicate] at taken moved
  refine ⟨?_, moved⟩
  unfold gap
  rw [taken]
  simp only [moved.peek?, line, Bool.false_eq_true, if_false]

/-- A blank with a character of the line behind it stands for itself, whatever blanks come next. -/
theorem ReadsTo.blank (ends : GapsEnd t) (further : ReadsTo double t s rest) :
    ReadsTo double (' ' :: t) (' ' :: s) rest := by
  obtain ⟨count, ch, more, rfl, solid⟩ := ends
  intro c column stands
  have next := (stands.next rfl).1
  obtain ⟨after, last, read, ended⟩ := further _ _ next
  refine ⟨after, last, fun fuel enough => ?_, ended⟩
  obtain ⟨less, rfl⟩ : ∃ less, fuel = less + 1 := ⟨fuel - 1, by omega⟩
  rw [List.length_cons] at enough
  have blank : isBlankOrBreak ' ' = true := rfl
  have inside : ' ' ≠ (if double then '"' else '\'') := by cases double <;> decide
  have all : c.Stands (List.replicate (count + 1) ' ' ++ ch :: more) column := stands
  obtain ⟨found, _⟩ := gap_blanks all solid less
  simp only [body, stands.peek?, inside, if_false, blank, if_true, found, bind, Except.bind]
  cases count with
  | zero =>
    have onward : body double less (c.skip (0 + 1)) = .ok (s, after) := read less (by omega)
    simp only [onward]
    rfl
  | succ count =>
    -- the blanks behind this one are one gap with it; what follows them is known from the reading of the others
    obtain ⟨others, _⟩ := gap_blanks next solid less
    have onward := read (less + 1) (by omega)
    have start : c.next.peek? = some ' ' := next.peek?
    simp only [body, start, inside, if_false, blank, if_true, others, bind, Except.bind] at onward
    have same : c.skip (count + 1 + 1) = c.next.skip (count + 1) := rfl
    rw [same]
    cases found : body double less (c.next.skip (count + 1)) with
    | error fault =>
      rw [found] at onward
      cases onward
    | ok found =>
      rw [found] at onward
      obtain ⟨rfl, rfl⟩ := Prod.mk.inj (Except.ok.inj onward)
      rfl

/-- So do several. -/
theorem ReadsTo.blanks (count : Nat) (solid : GapsEnd t) (further : ReadsTo double t s rest) :
    ReadsTo double (List.replicate count ' ' ++ t) (List.replicate count ' ' ++ s) rest ∧
      GapsEnd (List.replicate count ' ' ++ t) := by
  induction count with
  | zero => exact ⟨further, solid⟩
  | succ count inductionHypothesis =>
    obtain ⟨others, ends⟩ := inductionHypothesis
    exact ⟨others.blank ends, ends.blank⟩

/-- Line breaks, of which each stands for itself, and then the margin. -/
theorem breaks_lines {count : Nat}
    (stands : c.Stands (List.replicate count '\n' ++ (List.replicate margin ' ' ++ ch :: more)) 0)
    (some : 0 < margin) (solid : isBlankOrBreak ch = false) :
    ∃ after, (∀ fuel, count < fuel → breaks fuel c = .ok (List.replicate count '\n', after)) ∧
      after.Stands (ch :: more) margin := by
  obtain ⟨noInner, line⟩ := inner_of_solid solid
  induction count generalizing c with
  | zero =>
    have moved : (c.skipWhile fun ch => ch = ' ' || ch = '\t').Stands (ch :: more) (0 + margin) :=
      stands.skipBlanks rfl (by simpa using noInner)
    rw [Nat.zero_add] at moved
    refine ⟨_, fun fuel enough => ?_, moved⟩
    obtain ⟨less, rfl⟩ : ∃ less, fuel = less + 1 := ⟨fuel - 1, by omega⟩
    rw [breaks, separator_of_blank stands some]
    simp only [moved.isAt, line, Bool.false_eq_true, if_false]
    rfl
  | succ count inductionHypothesis =>
    obtain ⟨broken, start, _⟩ := Cursor.Stands.lineBreak stands
    obtain ⟨after, found, moved⟩ := inductionHypothesis start
    refine ⟨after, fun fuel enough => ?_, moved⟩
    obtain ⟨less, rfl⟩ : ∃ less, fuel = less + 1 := ⟨fuel - 1, by omega⟩
    have separate : c.isAtSeparator = false := by
      simp [Cursor.isAtSeparator, stands.rest, List.replicate_succ, List.isPrefixOf]
    have here : (c.skipWhile fun ch => ch = ' ' || ch = '\t') = c := by
      rw [Cursor.skipWhile, Cursor.Stands.takeWhile_none stands rfl]
    have atBreak : c.isAt isLineBreak = true := by
      rw [Cursor.Stands.isAt stands]
      rfl
    rw [breaks, separate, here]
    simp only [atBreak, broken, found less (by omega), Bool.false_eq_true, if_false, if_true, bind, Except.bind]
    rfl

/-- Line breaks and a margin stand for one break less, or for a blank if there is one only. -/
theorem ReadsTo.lines (count : Nat) (some : 0 < margin) (begins : BeginsSolid t)
    (further : ReadsTo double t s rest) :
    ReadsTo double (List.replicate (count + 1) '\n' ++ (List.replicate margin ' ' ++ t))
      (foldBreaks ['\n'] (List.replicate count '\n') ++ s) rest := by
  obtain ⟨ch, more, rfl, solid⟩ := begins
  have piece : PieceReadsTo double '\n' (List.replicate count '\n' ++ (List.replicate margin ' ' ++ ch :: more))
      (foldBreaks ['\n'] (List.replicate count '\n')) (ch :: more) := by
    refine ⟨by simp only [List.length_append]; omega, fun c column stands => ?_⟩
    obtain ⟨broken, start, _⟩ := stands.lineBreak
    have noBlank : c.takeWhile (fun ch => ch = ' ' || ch = '\t') = ([], c) := stands.takeWhile_none rfl
    obtain ⟨after, found, moved⟩ := breaks_lines start some solid
    refine ⟨after, margin, fun fuel enough => ?_, moved⟩
    rw [List.length_append, List.length_replicate] at enough
    have atBreak : isBlankOrBreak '\n' = true := rfl
    have isBreak : isLineBreak '\n' = true := rfl
    rw [if_pos atBreak, gap, noBlank]
    simp only [stands.peek?, isBreak, if_true, broken, found fuel (by omega), bind, Except.bind]
    rfl
  exact piece.before (by cases double <;> decide) further

/-! ## Texts between single marks -/

/-- The text can be shown, and no line of it begins or ends with a blank. -/
structure Tidy (s : List Char) : Prop where
  shown : ∀ ch ∈ s, Style.isShown ch = true
  before : Style.someNeighbours (fun a b => a = ' ' && Style.isBreak b) s = false
  behind : Style.someNeighbours (fun a b => Style.isBreak a && b = ' ') s = false

/-- Neighbours in a part of a text are neighbours in the text. -/
theorem someNeighbours_append {test : Char → Char → Bool} (none : Style.someNeighbours test (s ++ t) = false) :
    Style.someNeighbours test t = false := by
  induction s with
  | nil => exact none
  | cons ch s inductionHypothesis =>
    refine inductionHypothesis ?_
    cases remaining : s ++ t with
    | nil => rfl
    | cons d rest =>
      rw [List.cons_append, remaining, Style.someNeighbours] at none
      exact (Bool.or_eq_false_iff.mp none).2

/-- A part of a tidy text is tidy. -/
theorem Tidy.append (tidy : Tidy (s ++ t)) : Tidy t :=
  ⟨fun ch member => tidy.shown ch (List.mem_append_right s member), someNeighbours_append tidy.before,
    someNeighbours_append tidy.behind⟩

/-- What may be written between single marks is tidy. -/
theorem tidy_of_admitsSingle (admitted : Style.admitsSingle s = true) : Tidy s := by
  simp only [Style.admitsSingle, Bool.not_eq_true', Bool.or_eq_false_iff] at admitted
  refine ⟨fun ch member => ?_, admitted.1.2, admitted.2⟩
  have visible := List.any_eq_false.mp admitted.1.1 ch member
  simpa using visible

/-- No blank stands before a line break of a tidy text, and none behind it. -/
theorem Tidy.apart {a b : Char} (tidy : Tidy (s ++ a :: b :: t)) :
    ¬ (a = ' ' ∧ b = '\n') ∧ ¬ (a = '\n' ∧ b = ' ') := by
  have own : Tidy (a :: b :: t) := tidy.append
  have before := (Bool.or_eq_false_iff.mp own.before).1
  have behind := (Bool.or_eq_false_iff.mp own.behind).1
  constructor
  · rintro ⟨rfl, rfl⟩
    simp [Style.isBreak] at before
  · rintro ⟨rfl, rfl⟩
    simp [Style.isBreak] at behind

/-- A character that is shown and neither a line feed nor a blank is no gap. -/
theorem solid_of_isShown (shown : Style.isShown ch = true) (line : ch ≠ '\n') (blank : ch ≠ ' ') :
    isTyped ch = true ∧ isBlankOrBreak ch = false := by
  have typed := (isShown_iff.mp shown).resolve_left line
  exact ⟨typed, Bool.eq_false_iff.mpr fun same => blank ((isBlankOrBreak_iff typed).mp same)⟩

/-- What is written of a text that begins with no gap begins with none, nor does the mark behind it. -/
theorem beginsSolid_singleFrom (tidy : Tidy s) (first : ∀ d ∈ s.head?, d ≠ ' ' ∧ d ≠ '\n') (place : Place)
    (fuel column : Nat) (isFirst : Bool) (rest : List Char) :
    BeginsSolid (singleFrom place fuel column isFirst s ++ '\'' :: rest) := by
  cases s with
  | nil => exact ⟨'\'', rest, by cases fuel <;> rfl, rfl⟩
  | cons d s =>
    obtain ⟨blank, line⟩ := first d rfl
    have solid := (solid_of_isShown (tidy.shown d List.mem_cons_self) line blank).2
    cases fuel with
    | zero => exact ⟨d, _, rfl, solid⟩
    | succ fuel =>
      rw [singleFrom, if_neg blank, if_neg line]
      split_ifs with marked
      · exact ⟨'\'', _, rfl, rfl⟩
      · exact ⟨d, _, rfl, solid⟩

/-- Equal characters are copies of one. -/
theorem run_replicate {a : Char} (split : run (· = a) s = (more, t)) : more = List.replicate more.length a := by
  obtain ⟨rfl, rfl⟩ := Prod.mk.inj split
  exact List.eq_replicate_of_mem fun d member => by simpa using List.mem_takeWhile_imp member

/-- Equal characters at the front are taken up to the first other one. -/
theorem run_equal {a : Char} (split : run (· = a) s = (more, t)) :
    s = List.replicate more.length a ++ t ∧ ∀ d ∈ t.head?, d ≠ a := by
  have same := run_replicate split
  obtain ⟨rfl, rfl⟩ := Prod.mk.inj split
  refine ⟨?_, fun d first => ?_⟩
  · rw [← same, List.takeWhile_append_dropWhile]
  · have stop := List.head?_dropWhile_not (· = a) s
    rw [Option.mem_def.mp first] at stop
    simpa using stop

/-- What follows equal characters that are blanks or line feeds begins with no gap in a tidy text. -/
theorem Tidy.head {a : Char} {count : Nat} (tidy : Tidy (a :: (List.replicate count a ++ t)))
    (gap : a = ' ' ∨ a = '\n') (first : ∀ d ∈ t.head?, d ≠ a) : ∀ d ∈ t.head?, d ≠ ' ' ∧ d ≠ '\n' := by
  intro d member
  have other := first d member
  obtain ⟨u, rfl⟩ := List.head?_eq_some_iff.mp member
  have last : a :: (List.replicate count a ++ d :: u) = List.replicate count a ++ a :: d :: u := by
    rw [← List.cons_append, ← List.replicate_succ, List.replicate_succ', List.append_assoc]
    rfl
  have apart := Tidy.apart (last ▸ tidy)
  rcases gap with rfl | rfl
  · exact ⟨other, fun same => apart.1 ⟨rfl, same⟩⟩
  · exact ⟨fun same => apart.2 ⟨rfl, same⟩, other⟩

/-- A text between single marks is read as it was written, wherever its lines were folded. -/
theorem readsTo_singleFrom {fuel : Nat} {isFirst : Bool} {place : Place} (tidy : Tidy s) (enough : s.length < fuel)
    (some : 0 < place.margin) {last : List Char} (ends : last.head? ≠ Option.some '\'') :
    ReadsTo false (singleFrom place fuel column isFirst s ++ '\'' :: last) s last := by
  fun_induction singleFrom place fuel column isFirst s with
  | case1 => exact absurd enough (Nat.not_lt_zero _)
  | case2 => exact readsTo_close fun _ => ends
  | case3 fuel column isFirst rest more after split fold inductionHypothesis =>
    -- a single blank is written as a line break
    obtain ⟨rfl, other⟩ := run_equal split
    simp only [Bool.and_eq_true, List.isEmpty_iff] at fold
    obtain rfl := fold.1.1.1.1
    have further : Tidy after := Tidy.append (s := [' ']) tidy
    have read := inductionHypothesis further (by simpa using enough)
    have begins := beginsSolid_singleFrom further (tidy.head (.inl rfl) other) place fuel place.margin false last
    have lines := ReadsTo.lines 0 some begins read
    simpa [nextLine, foldBreaks] using lines
  | case4 fuel column isFirst rest more after split fold inductionHypothesis =>
    obtain ⟨rfl, other⟩ := run_equal split
    have same : more = List.replicate more.length ' ' := run_replicate split
    have further : Tidy after := Tidy.append (s := ' ' :: List.replicate more.length ' ') tidy
    have shorter : after.length < fuel := by
      simp only [List.length_cons, List.length_append] at enough
      omega
    have begins := beginsSolid_singleFrom further (tidy.head (.inl rfl) other) place fuel (column + 1 + more.length)
      false last
    have blanks := (ReadsTo.blanks (more.length + 1) begins.gapsEnd (inductionHypothesis further shorter)).1
    rw [same]
    simpa [List.replicate_succ] using blanks
  | case5 fuel column isFirst rest more after split notBlank inductionHypothesis =>
    -- line breaks are written as one more, before the margin
    obtain ⟨rfl, other⟩ := run_equal split
    have same : more = List.replicate more.length '\n' := run_replicate split
    have further : Tidy after := Tidy.append (s := '\n' :: List.replicate more.length '\n') tidy
    have shorter : after.length < fuel := by
      simp only [List.length_cons, List.length_append] at enough
      omega
    have begins := beginsSolid_singleFrom further (tidy.head (.inr rfl) other) place fuel place.margin false last
    have lines := ReadsTo.lines (more.length + 1) some begins (inductionHypothesis further shorter)
    rw [List.replicate_succ', List.replicate_succ] at lines
    rw [same]
    simpa [nextLine, foldBreaks] using lines
  | case6 fuel column isFirst rest blank line inductionHypothesis =>
    have further : Tidy rest := Tidy.append (s := ['\'']) tidy
    exact (inductionHypothesis further (Nat.lt_of_succ_lt_succ enough)).doubled
  | case7 fuel column isFirst ch rest blank line other inductionHypothesis =>
    have further : Tidy rest := Tidy.append (s := [ch]) tidy
    have typed := (solid_of_isShown (tidy.shown ch List.mem_cons_self) line blank).1
    exact (inductionHypothesis further (Nat.lt_of_succ_lt_succ enough)).char typed blank other (by simp)

/-- What is written between single marks can be shown. -/
theorem isShown_singleFrom (place : Place) (fuel column : Nat) (isFirst : Bool)
    (shown : ∀ d ∈ s, Style.isShown d = true) :
    ∀ d ∈ singleFrom place fuel column isFirst s, Style.isShown d = true := by
  have margin := Plain.isShown_nextLine place.margin
  fun_induction singleFrom place fuel column isFirst s with
  | case1 => exact shown
  | case2 => exact shown
  | case3 fuel column isFirst rest more after split fold inductionHypothesis =>
    obtain rfl := Plain.run_append split
    simp only [List.forall_mem_cons, List.forall_mem_append] at shown ⊢
    exact ⟨margin, inductionHypothesis shown.2.2⟩
  | case4 fuel column isFirst rest more after split fold inductionHypothesis =>
    obtain rfl := Plain.run_append split
    simp only [List.cons_append, List.forall_mem_cons, List.forall_mem_append] at shown ⊢
    exact ⟨shown.1, shown.2.1, inductionHypothesis shown.2.2⟩
  | case5 fuel column isFirst rest more after split blank inductionHypothesis =>
    obtain rfl := Plain.run_append split
    simp only [List.cons_append, List.append_assoc, List.forall_mem_cons, List.forall_mem_append] at shown ⊢
    exact ⟨shown.1, shown.2.1, margin, inductionHypothesis shown.2.2⟩
  | case6 fuel column isFirst rest blank line inductionHypothesis =>
    simp only [List.forall_mem_cons] at shown ⊢
    exact ⟨shown.1, shown.1, inductionHypothesis shown.2⟩
  | case7 fuel column isFirst ch rest blank line other inductionHypothesis =>
    simp only [List.forall_mem_cons] at shown ⊢
    exact ⟨shown.1, inductionHypothesis shown.2⟩

/-! ## Texts between double marks -/

/-- An escape of one letter stands for its character. -/
theorem ReadsTo.letter {letter : Char} (typed : isTyped letter = true) (known : letterEscapes.lookup letter = some ch)
    (further : ReadsTo true t s rest) : ReadsTo true ('\\' :: letter :: t) (ch :: s) rest := by
  have piece : PieceReadsTo true '\\' (letter :: t) [ch] t := by
    refine ⟨Nat.le_succ _, fun c column stands => ?_⟩
    have next := (stands.next rfl).1
    refine ⟨c.next.next, _, fun fuel _ => ?_, (next.next typed).1⟩
    simp [isBlankOrBreak, isLineBreak, Style.isBreak, escape, next.peek?, known]
  exact piece.before (by decide) further

/-- An escape by number stands for the character with the number. -/
theorem ReadsTo.number {letter : Char} {digits : List Char} {n : Nat} (typed : isTyped letter = true)
    (unknown : letterEscapes.lookup letter = none) (count : numberEscapes.lookup letter = some digits.length)
    (plain : ∀ d ∈ digits, isTyped d = true) (value : ofHex? digits = some n) (found : numbered n = .ok ch)
    (further : ReadsTo true t s rest) : ReadsTo true ('\\' :: letter :: (digits ++ t)) (ch :: s) rest := by
  have piece : PieceReadsTo true '\\' (letter :: (digits ++ t)) [ch] t := by
    refine ⟨by simp only [List.length_cons, List.length_append]; omega, fun c column stands => ?_⟩
    have next := (stands.next rfl).1
    have after := (next.next typed).1
    refine ⟨_, _, fun fuel _ => ?_, (after.skip plain).1⟩
    have taken : c.next.next.rest.take digits.length = digits := by
      rw [after.rest]
      exact List.take_left
    simp [isBlankOrBreak, isLineBreak, Style.isBreak, escape, next.peek?, unknown, count, taken, value, found]
  exact piece.before (by decide) further

/-- A line break behind a backslash joins the lines. -/
theorem ReadsTo.joined (some : 0 < margin) (begins : BeginsSolid t) (further : ReadsTo true t s rest) :
    ReadsTo true ('\\' :: (nextLine margin ++ t)) s rest := by
  obtain ⟨ch, more, rfl, solid⟩ := begins
  have piece : PieceReadsTo true '\\' (nextLine margin ++ ch :: more) [] (ch :: more) := by
    refine ⟨by simp only [List.length_append]; omega, fun c column stands => ?_⟩
    have next := (stands.next rfl).1
    obtain ⟨broken, start, _⟩ := Cursor.Stands.lineBreak next
    have lines : c.next.next.Stands (List.replicate 0 '\n' ++ (List.replicate margin ' ' ++ ch :: more)) 0 := start
    obtain ⟨after, found, moved⟩ := breaks_lines lines some solid
    refine ⟨after, margin, fun fuel enough => ?_, moved⟩
    have unknown : letterEscapes.lookup '\n' = none := by decide
    have unnumbered : numberEscapes.lookup '\n' = none := by decide
    have first : c.next.peek? = Option.some '\n' := Cursor.Stands.peek? next
    simp [isBlankOrBreak, isLineBreak, Style.isBreak, escape, first, unknown, unnumbered, broken,
      found fuel (by omega)]
  exact piece.before (by decide) further

/-- The letter of an escape is typed, and is read as the character. -/
theorem letterEscapes_lookup {letter : Char} (known : Folding.letterEscapes.lookup ch = some letter) :
    isTyped letter = true ∧ letterEscapes.lookup letter = some ch := by
  have each : ∀ escape ∈ Folding.letterEscapes,
      isTyped escape.2 = true ∧ letterEscapes.lookup escape.2 = some escape.1 := by decide
  obtain ⟨before, behind, same, _⟩ := List.lookup_eq_some_iff.mp known
  exact each (ch, letter) (by rw [same]; exact List.mem_append_right _ List.mem_cons_self)

/-- The number of a character stands for it. -/
theorem numbered_toNat (ch : Char) : numbered ch.toNat = .ok ch := by
  have valid : ch.toNat.isValidChar := ch.valid
  rw [numbered, if_pos (toNat_lt ch), if_pos valid, Char.ofNat_toNat]

/-- Capital hexadecimal digits are typed. -/
theorem isTyped_hexCapital (width n : Nat) : ∀ d ∈ hexCapital width n, isTyped d = true := by
  intro d member
  obtain ⟨digit, own, rfl⟩ := List.mem_map.mp member
  exact forall_mem_hex (motive := fun digit => isTyped digit.toUpper = true) (by decide) width n digit own

/-- An escape by number stands for its character. -/
theorem ReadsTo.numberEscape (further : ReadsTo true t s rest) :
    ReadsTo true (numberEscape ch ++ t) (ch :: s) rest := by
  have number {letter : Char} {width : Nat} (typed : isTyped letter = true)
      (unknown : letterEscapes.lookup letter = none) (count : numberEscapes.lookup letter = some width)
      (some : 0 < width) (fits : ch.toNat < 16 ^ width) :
      ReadsTo true ('\\' :: letter :: (hexCapital width ch.toNat ++ t)) (ch :: s) rest := by
    rw [← length_hexCapital some fits] at count
    exact further.number typed unknown count (isTyped_hexCapital width _) (ofHex?_hexCapital width _)
      (numbered_toNat ch)
  have below := toNat_lt ch
  unfold Folding.numberEscape
  dsimp only
  split_ifs with small large <;> rw [List.cons_append, List.cons_append]
  · exact number (by decide) (by decide) (by decide) (by decide) (small.trans_eq (by decide))
  · exact number (by decide) (by decide) (by decide) (by decide) (large.trans_eq (by decide))
  · exact number (by decide) (by decide) (by decide) (by decide) (below.trans (by decide))

/-- An escape stands for its character. -/
theorem ReadsTo.escape {escape : List Char} (escaped : escape? ch = some escape) (further : ReadsTo true t s rest) :
    ReadsTo true (escape ++ t) (ch :: s) rest := by
  unfold escape? at escaped
  split at escaped
  next letter known =>
    obtain rfl := Option.some.inj escaped
    obtain ⟨typed, meant⟩ := letterEscapes_lookup known
    exact further.letter typed meant
  next unknown =>
    split_ifs at escaped
    obtain rfl := Option.some.inj escaped
    exact further.numberEscape

/-- An escape begins with a backslash. -/
theorem exists_escape {escape : List Char} (escaped : escape? ch = some escape) : ∃ more, escape = '\\' :: more := by
  unfold escape? at escaped
  split at escaped
  next letter known => exact ⟨[letter], (Option.some.inj escaped).symm⟩
  next unknown =>
    split_ifs at escaped
    obtain rfl := Option.some.inj escaped
    unfold Folding.numberEscape
    dsimp only
    split_ifs <;> exact ⟨_, rfl⟩

/-- What has no escape is typed, and is neither the mark nor a backslash. -/
theorem typed_of_escape? (bare : escape? ch = none) : isTyped ch = true ∧ ch ≠ '"' ∧ ch ≠ '\\' := by
  unfold escape? at bare
  split at bare
  next letter known => cases bare
  next unknown =>
    split_ifs at bare with typed
    refine ⟨by simpa [isTyped] using typed, ?_, ?_⟩
    · rintro rfl
      exact absurd unknown (by decide)
    · rintro rfl
      exact absurd unknown (by decide)

/-- A character without an escape is written as it is while the line is not full. -/
theorem doubleFrom_bare {isFirst isFresh : Bool} {place : Place} (bare : escape? ch = none) (early : column ≤ width)
    (s : List Char) :
    doubleFrom place column isFirst isFresh (ch :: s) = ch :: doubleFrom place (column + 1) false false s := by
  have notFull : decide (width < column) = false := by simpa using early
  rw [doubleFrom]
  simp only [bare, notFull, Bool.and_false, Bool.false_eq_true, if_false]

/-- What is written of a text at the start of a line, after the margin. -/
def onNewLine (place : Place) (s : List Char) : List Char :=
  (if s.head? = some ' ' then ['\\'] else []) ++ doubleFrom place (columnAfterBreak place s) false true s

/-- Behind an escape the line may be broken. -/
theorem doubleFrom_escape {escape : List Char} (escaped : escape? ch = some escape) (place : Place) (column : Nat)
    (isFirst isFresh : Bool) (s : List Char) :
    doubleFrom place column isFirst isFresh (ch :: s) =
        escape ++ ('\\' :: (nextLine place.margin ++ onNewLine place s)) ∨
      ∃ column', doubleFrom place column isFirst isFresh (ch :: s) =
        escape ++ doubleFrom place column' false true s := by
  rw [doubleFrom]
  simp only [escaped]
  split_ifs with full
  · exact .inl (by simp [doubleBreak, onNewLine])
  · exact .inr ⟨_, rfl⟩

/-- Before a character without an escape the line may be broken. -/
theorem doubleFrom_plain {place : Place} (bare : escape? ch = none) (narrow : place.margin < width) (column : Nat)
    (isFirst isFresh : Bool) (s : List Char) :
    doubleFrom place column isFirst isFresh (ch :: s) = '\\' :: (nextLine place.margin ++ onNewLine place (ch :: s)) ∨
      doubleFrom place column isFirst isFresh (ch :: s) = ch :: doubleFrom place (column + 1) false false s := by
  rw [doubleFrom]
  simp only [bare]
  split_ifs with full
  · left
    have early : columnAfterBreak place (ch :: s) ≤ width := by
      unfold columnAfterBreak
      split <;> omega
    simp [doubleBreak, onNewLine, doubleFrom_bare bare early]
  · exact .inr rfl

/-- A character that has no escape and is no blank is no gap. -/
theorem solid_of_escape? (bare : escape? ch = none) (blank : ch ≠ ' ') : isBlankOrBreak ch = false :=
  Bool.eq_false_iff.mpr fun same => blank ((isBlankOrBreak_iff (typed_of_escape? bare).1).mp same)

/-- What is written of a text that does not begin with a blank does not begin with one. -/
theorem beginsSolid_doubleFrom {place : Place} (narrow : place.margin < width) (column : Nat) (isFirst isFresh : Bool)
    (blank : s.head? ≠ some ' ') (last : List Char) :
    BeginsSolid (doubleFrom place column isFirst isFresh s ++ '"' :: last) := by
  have solid (t : List Char) : BeginsSolid ('\\' :: t) := ⟨'\\', t, rfl, rfl⟩
  cases s with
  | nil => exact ⟨'"', last, rfl, rfl⟩
  | cons ch s =>
    cases escaped : escape? ch with
    | some escape =>
      obtain ⟨more, rfl⟩ := exists_escape escaped
      rcases doubleFrom_escape escaped place column isFirst isFresh s with written | ⟨column', written⟩ <;>
        exact written ▸ solid _
    | none =>
      rcases doubleFrom_plain escaped narrow column isFirst isFresh s with written | written
      · exact written ▸ solid _
      · have other := solid_of_escape? escaped fun same => blank (congrArg some same)
        exact ⟨ch, _, by rw [written]; rfl, other⟩

/-- In what is written between double marks no blank comes before a line break. -/
theorem gapsEnd_doubleFrom {place : Place} (narrow : place.margin < width) (column : Nat) (isFirst isFresh : Bool)
    (s last : List Char) : GapsEnd (doubleFrom place column isFirst isFresh s ++ '"' :: last) := by
  induction s generalizing column isFirst isFresh with
  | nil => exact BeginsSolid.gapsEnd ⟨'"', last, rfl, rfl⟩
  | cons ch s inductionHypothesis =>
    by_cases blank : ch = ' '
    · subst blank
      have bare : escape? ' ' = none := by decide
      rcases doubleFrom_plain bare narrow column isFirst isFresh s with written | written
      · exact BeginsSolid.gapsEnd ⟨'\\', _, by rw [written]; rfl, rfl⟩
      · rw [written]
        exact (inductionHypothesis (column + 1) false false).blank
    · have other : (ch :: s).head? ≠ some ' ' := fun same => blank (Option.some.inj same)
      exact (beginsSolid_doubleFrom narrow column isFirst isFresh other last).gapsEnd

/-- At the start of a line no blank is written. -/
theorem beginsSolid_onNewLine {place : Place} (narrow : place.margin < width) (s last : List Char) :
    BeginsSolid (onNewLine place s ++ '"' :: last) := by
  unfold onNewLine
  split_ifs with blank
  · exact ⟨'\\', _, rfl, rfl⟩
  · exact beginsSolid_doubleFrom narrow _ _ _ blank last

/-- A text that goes on after a break between double marks is read as it goes on. -/
theorem ReadsTo.onNextLine {place : Place} {last : List Char} (some : 0 < place.margin) (narrow : place.margin < width)
    (onward : ReadsTo true (onNewLine place s ++ '"' :: last) s last) :
    ReadsTo true ('\\' :: (nextLine place.margin ++ onNewLine place s) ++ '"' :: last) s last := by
  rw [List.cons_append, List.append_assoc]
  exact onward.joined some (beginsSolid_onNewLine narrow s last)

/-- A character that is escaped is read, if what is written behind it is. -/
theorem readsTo_doubleFrom_escape {place : Place} {escape last : List Char} (some : 0 < place.margin)
    (narrow : place.margin < width) (escaped : escape? ch = .some escape)
    (further : ∀ column isFirst isFresh, ReadsTo true (doubleFrom place column isFirst isFresh s ++ '"' :: last) s last)
    (broken : ReadsTo true (onNewLine place s ++ '"' :: last) s last) (column : Nat) (isFirst isFresh : Bool) :
    ReadsTo true (doubleFrom place column isFirst isFresh (ch :: s) ++ '"' :: last) (ch :: s) last := by
  rcases doubleFrom_escape escaped place column isFirst isFresh s with written | ⟨column', written⟩
  · rw [written, List.append_assoc]
    exact (broken.onNextLine some narrow).escape escaped
  · rw [written, List.append_assoc]
    exact (further column' false true).escape escaped

/-- At the start of a line a character that is not escaped is read, if what is written behind it is. -/
theorem readsTo_onNewLine_bare {place : Place} {last : List Char} (narrow : place.margin < width)
    (escaped : escape? ch = none)
    (further : ∀ column isFirst isFresh, ReadsTo true (doubleFrom place column isFirst isFresh s ++ '"' :: last) s last) :
    ReadsTo true (onNewLine place (ch :: s) ++ '"' :: last) (ch :: s) last := by
  obtain ⟨typed, inside, noEscape⟩ := typed_of_escape? escaped
  unfold onNewLine
  by_cases blank : ch = ' '
  · -- a blank at the start of a line has a backslash before it, and is an escape of one letter with it
    subst blank
    have early : columnAfterBreak place (' ' :: s) ≤ width := Nat.succ_le_of_lt narrow
    rw [List.head?_cons, if_pos rfl, doubleFrom_bare escaped early]
    exact (further _ false false).letter (by decide) (by decide)
  · have other : (ch :: s).head? ≠ some ' ' := fun same => blank (Option.some.inj same)
    have early : columnAfterBreak place (ch :: s) ≤ width := by
      rw [columnAfterBreak, if_neg other]
      exact narrow.le
    rw [if_neg other, List.nil_append, doubleFrom_bare escaped early]
    exact (further _ false false).char typed blank inside fun _ => noEscape

/-- A text between double marks is read as it was written, wherever its lines were broken. -/
theorem readsTo_doubleFrom {place : Place} (some : 0 < place.margin) (narrow : place.margin < width)
    (s last : List Char) :
    (∀ column isFirst isFresh, ReadsTo true (doubleFrom place column isFirst isFresh s ++ '"' :: last) s last) ∧
      ReadsTo true (onNewLine place s ++ '"' :: last) s last := by
  induction s with
  | nil =>
    have close : ReadsTo true ('"' :: last) [] last := readsTo_close fun single => by cases single
    exact ⟨fun _ _ _ => close, close⟩
  | cons ch s inductionHypothesis =>
    obtain ⟨further, broken⟩ := inductionHypothesis
    cases escaped : escape? ch with
    | some escape =>
      have anywhere := readsTo_doubleFrom_escape some narrow escaped further broken
      have blank : (ch :: s).head? ≠ Option.some ' ' := by
        rintro same
        obtain rfl := Option.some.inj same
        cases escaped
      refine ⟨anywhere, ?_⟩
      rw [onNewLine, if_neg blank]
      exact anywhere _ _ _
    | none =>
      have onLine := readsTo_onNewLine_bare narrow escaped further
      refine ⟨fun column isFirst isFresh => ?_, onLine⟩
      rcases doubleFrom_plain escaped narrow column isFirst isFresh s with written | written
      · rw [written]
        exact onLine.onNextLine some narrow
      · rw [written]
        by_cases blank : ch = ' '
        · rw [blank]
          exact (further (column + 1) false false).blank (gapsEnd_doubleFrom narrow (column + 1) false false s last)
        · obtain ⟨typed, inside, noEscape⟩ := typed_of_escape? escaped
          exact (further (column + 1) false false).char typed blank inside fun _ => noEscape

/-- An escape is typed. -/
theorem isTyped_escape {escape : List Char} (escaped : escape? ch = some escape) : ∀ d ∈ escape, isTyped d = true := by
  unfold escape? at escaped
  split at escaped
  next letter known =>
    obtain rfl := Option.some.inj escaped
    simpa using ⟨by decide, (letterEscapes_lookup known).1⟩
  next unknown =>
    split_ifs at escaped
    obtain rfl := Option.some.inj escaped
    unfold Folding.numberEscape
    dsimp only
    split_ifs <;> simpa using ⟨by decide, by decide, isTyped_hexCapital _ _⟩

/-- What is written between double marks can be shown. -/
theorem isShown_doubleFrom (place : Place) (column : Nat) (isFirst isFresh : Bool) (s : List Char) :
    ∀ d ∈ doubleFrom place column isFirst isFresh s, Style.isShown d = true := by
  have typed {d : Char} (own : isTyped d = true) : Style.isShown d = true := isShown_iff.mpr (.inr own)
  have broken (t : List Char) : ∀ d ∈ doubleBreak place t, Style.isShown d = true := by
    intro d member
    rcases List.mem_append.mp member with inside | last
    · rcases List.mem_cons.mp inside with rfl | margin
      · rfl
      · exact Plain.isShown_nextLine place.margin d margin
    · split_ifs at last
      · exact List.mem_singleton.mp last ▸ rfl
      · cases last
  fun_induction doubleFrom place column isFirst isFresh s with
  | case1 => simp
  | case2 column isFirst isFresh ch rest inside escape escaped wide fold inductionHypothesis =>
    simp only [List.forall_mem_append]
    exact ⟨⟨fun d member => typed (isTyped_escape escaped d member), broken rest⟩, inductionHypothesis⟩
  | case3 column isFirst isFresh ch rest inside escape escaped wide fold inductionHypothesis =>
    simp only [List.forall_mem_append]
    exact ⟨fun d member => typed (isTyped_escape escaped d member), inductionHypothesis⟩
  | case4 column isFirst isFresh ch rest inside bare fold inductionHypothesis =>
    simp only [List.forall_mem_append, List.forall_mem_cons]
    exact ⟨broken _, typed (typed_of_escape? bare).1, inductionHypothesis⟩
  | case5 column isFirst isFresh ch rest inside bare fold inductionHypothesis =>
    simp only [List.forall_mem_cons]
    exact ⟨typed (typed_of_escape? bare).1, inductionHypothesis⟩

/-- The text between two marks is read, and then the mark that closes it. -/
theorem read_of_readsTo (reads : ReadsTo double ahead s rest) (stands : c.Stands (mark double :: ahead) column) :
    ∃ after column', Quoted.read double c = .ok (s, after) ∧ after.Stands rest column' := by
  have typed : isTyped (mark double) = true := by cases double <;> rfl
  obtain ⟨after, column', read, moved⟩ := reads _ _ (stands.next typed).1
  refine ⟨after, column', read _ ?_, moved⟩
  rw [stands.left, List.length_cons]
  omega

end MusicScore.Yaml.Quoted
