import MusicScore.Proofs.Yaml.Lexer
import MusicScore.Yaml.Writing

/-!
# The lines of records and lists

What stands behind the colon of a key, an entry of a list and a field of a record are each described by a contract:
the text has the tokens, wherever it stands in a document. The contracts are put together as the texts are, up to the
tokens of a whole document.
-/
namespace MusicScore.Yaml

open Folding Lexer

variable {margin : Nat} {text : List Char} {tokens : List Token} {s : Scalar}

/-! ## Scalars -/

/-- The scalar has no tag, is no block of lines, and has a text that may be written in its style. -/
structure Scalar.IsLegible (s : Scalar) : Prop where
  untagged : s.tag? = none
  plain : s.style = .plain → s.text ≠ [] ∧ Style.admitsPlain s.text = true
  single : s.style = .single → Style.admitsSingle s.text = true
  inline : s.style ≠ .literal

/-- What is written of a scalar can be shown. -/
theorem Scalar.IsLegible.shown (legible : s.IsLegible) (place : Place) :
    ∀ ch ∈ s.style.write place s.text, Style.isShown ch = true := by
  have quoted {mark : Char} {inside : List Char} (own : Style.isShown mark = true)
      (each : ∀ ch ∈ inside, Style.isShown ch = true) :
      ∀ ch ∈ mark :: inside ++ [mark], Style.isShown ch = true := by
    simp only [List.cons_append, List.forall_mem_cons, List.forall_mem_append]
    exact ⟨own, each, own, by simp⟩
  unfold Style.write
  cases style : s.style with
  | plain =>
    have flows := Plain.flows_of_admitsPlain (legible.plain style).1 (legible.plain style).2
    exact Plain.isShown_plainFrom _ _ _ fun ch member => isShown_iff.mpr (.inr (flows.typed ch member))
  | single =>
    exact quoted rfl (Quoted.isShown_singleFrom _ _ _ _ (Quoted.tidy_of_admitsSingle (legible.single style)).shown)
  | double => exact quoted rfl (Quoted.isShown_doubleFrom _ _ _ _ _)
  | literal => exact absurd style legible.inline

/-- What is written of a scalar does not end with a line break. -/
theorem Scalar.IsLegible.ends (legible : s.IsLegible) (place : Place) :
    ∃ ch, (s.style.write place s.text).getLast? = some ch ∧ ch ≠ '\n' := by
  unfold Style.write
  cases style : s.style with
  | plain =>
    have flows := Plain.flows_of_admitsPlain (legible.plain style).1 (legible.plain style).2
    dsimp only
    rw [Plain.getLast?_plainFrom _ _ _ flows.ends]
    obtain ⟨ch, last⟩ := Option.isSome_iff_exists.mp (List.getLast?_isSome.mpr flows.nonempty)
    exact ⟨ch, last, ne_of_isTyped (flows.typed ch (List.mem_of_getLast? last)) (by decide)⟩
  | single => exact ⟨'\'', List.getLast?_concat, by decide⟩
  | double => exact ⟨'"', List.getLast?_concat, by decide⟩
  | literal => exact absurd style legible.inline

/-! ## Values -/

/-- The text can be shown, and ends with something else than a line break. -/
structure IsPrinted (text : List Char) : Prop where
  shown : ∀ ch ∈ text, Style.isShown ch = true
  ends : ∃ ch, text.getLast? = some ch ∧ ch ≠ '\n'

/-- What is printed goes on to what is printed. -/
theorem IsPrinted.append (printed : IsPrinted text) {before : List Char} (shown : ∀ ch ∈ before, Style.isShown ch = true) :
    IsPrinted (before ++ text) := by
  refine ⟨List.forall_mem_append.mpr ⟨shown, printed.shown⟩, ?_⟩
  obtain ⟨ch, last, other⟩ := printed.ends
  exact ⟨ch, by rw [List.getLast?_append, last, Option.some_or], other⟩

/-- Behind the colon of a key at the margin, the text has the tokens. -/
structure IsValue (margin : Nat) (text : List Char) (tokens : List Token) : Prop where
  gap : ∀ rest, (text ++ rest).head?.all isBlankOrBreak = true
  printed : IsPrinted text
  lexes : ∀ (ts : List Token) (outer : List Int) {c : Cursor} {column nextColumn : Nat} {next : List Char},
    margin < column → nextColumn ≤ margin → Opens next → c.Stands (text ++ (nextLine nextColumn ++ next)) column →
      ∃ after, after.Stands next nextColumn ∧
        Reaches (inBlock c ts margin outer false) (inBlock after (tokens.reverse ++ ts) margin outer true)

/-- The first character of a plain text is written first, and begins no other token. -/
theorem plain_cons (place : Place) (nonempty : s.text ≠ []) (admitted : Style.admitsPlain s.text = true) :
    ∃ ch more, Style.plain.write place s.text = ch :: more ∧ isTyped ch = true ∧ ch ≠ ' ' ∧
      Style.isLeadingIndicator ch = false ∧
        (ch = '-' ∨ ch = '?' ∨ ch = ':' → ∃ d, more.head? = some d ∧ isBlankOrBreak d = false) := by
  have flows := Plain.flows_of_admitsPlain nonempty admitted
  obtain ⟨ch, more, same⟩ := List.exists_cons_of_ne_nil nonempty
  rw [same] at flows admitted ⊢
  obtain ⟨free, gap⟩ := Plain.first_of_admitsPlain admitted
  have blank : ch ≠ ' ' := flows.begins ch rfl
  refine ⟨ch, plainFrom place more.length.succ (place.column + 1) more, ?_, flows.typed ch List.mem_cons_self, blank, free,
    fun sign => ?_⟩
  · rw [Style.write, List.length_cons, plainFrom, if_neg blank]
  · have signed : (ch = '?' || ch = ':' || ch = '-') = true := by
      rcases sign with rfl | rfl | rfl <;> rfl
    rw [signed, Bool.true_and, Style.gapFollows] at gap
    cases more with
    | nil => cases gap
    | cons d more =>
      have other : d ≠ ' ' := by
        rintro rfl
        cases gap
      have typed : isTyped d = true := flows.typed d (by simp)
      refine ⟨d, Plain.head?_plainFrom other _ _ _ _, ?_⟩
      exact Bool.eq_false_iff.mpr fun same => other ((isBlankOrBreak_iff typed).mp same)

/-- A scalar starts a token. -/
theorem Scalar.IsLegible.starts (legible : s.IsLegible) (place : Place) (rest : List Char) :
    Starts (s.style.write place s.text ++ rest) := by
  cases style : s.style with
  | plain =>
    obtain ⟨nonempty, admitted⟩ := legible.plain style
    obtain ⟨ch, more, written, typed, blank, free, _⟩ := plain_cons place nonempty admitted
    have solid : isBlankOrBreak ch = false :=
      Bool.eq_false_iff.mpr fun same => blank ((isBlankOrBreak_iff typed).mp same)
    rw [written]
    refine starts_cons solid ?_
    rintro rfl
    cases free
  | single => exact starts_cons (by decide) (by decide)
  | double => exact starts_cons (by decide) (by decide)
  | literal => exact absurd style legible.inline

section

variable {c : Cursor} {column nextColumn : Nat} {ts : List Token} {outer : List Int} {next : List Char} {place : Place}

/-- A plain scalar is read behind a colon. -/
theorem reaches_plain (nonempty : s.text ≠ []) (admitted : Style.admitsPlain s.text = true)
    (behind : margin < place.margin) (inside : margin < column) (outside : nextColumn ≤ margin) (opens : Opens next)
    (starts : Starts (Style.plain.write place s.text ++ (nextLine nextColumn ++ next)))
    (stands : c.Stands (Style.plain.write place s.text ++ (nextLine nextColumn ++ next)) column) :
    ∃ after, after.Stands next nextColumn ∧ Reaches (inBlock c ts margin outer false)
      (inBlock after (.scalar s.text true :: ts) margin outer true) := by
  have flows := Plain.flows_of_admitsPlain nonempty admitted
  obtain ⟨after, read, moved⟩ := Plain.read_write flows stands opens inside behind (Nat.lt_succ_of_le outside)
  obtain ⟨ch, more, written, typed, blank, free, apart⟩ := plain_cons place nonempty admitted
  have solid : isBlankOrBreak ch = false :=
    Bool.eq_false_iff.mpr fun same => blank ((isBlankOrBreak_iff typed).mp same)
  rw [written] at stands starts
  refine ⟨after, moved, reaches_readToken starts stands rfl (.inl (Int.ofNat_le.mpr inside.le)) ?_ ?_⟩
  · have gap (sign : ch = '-' ∨ ch = '?' ∨ ch = ':') : (c.peekAt? 1).all isBlankOrBreak = false := by
      obtain ⟨d, first, other⟩ := apart sign
      rw [Cursor.peekAt?, stands.rest, List.cons_append, List.getElem?_cons_succ, ← List.head?_eq_getElem?,
        List.head?_append, first]
      exact other
    have separate : (decide (c.column = 0) && c.isAtSeparator) = false := by
      have far : c.column ≠ 0 := by
        rw [stands.column]
        omega
      simp [far]
    rw [readToken_plain free solid gap separate rfl]
    have found : Plain.read false ((margin : Int) + 1) c = (s.text, after, true) := read
    simp [atPlain, saveKey, inBlock, pushAt, push, bind, Except.bind, pure, Except.pure, found]
  · simp only [inBlock, moved.left, stands.left, List.length_append, List.length_cons]
    omega

/-- A quoted scalar is read behind a colon. -/
theorem reaches_quoted (double : Bool) {inside text : List Char} (further : margin < column) (opens : Opens next)
    (stands : c.Stands (Quoted.mark double :: inside ++ [Quoted.mark double] ++ (nextLine nextColumn ++ next)) column)
    (reads : Quoted.ReadsTo double (inside ++ Quoted.mark double :: (nextLine nextColumn ++ next)) text
      (nextLine nextColumn ++ next)) :
    ∃ after, after.Stands next nextColumn ∧ Reaches (inBlock c ts margin outer false)
      (inBlock after (.scalar text false :: ts) margin outer true) := by
  have ahead : c.Stands (Quoted.mark double :: (inside ++ Quoted.mark double :: (nextLine nextColumn ++ next))) column := by
    simpa using stands
  obtain ⟨behind, column', read, moved⟩ := Quoted.read_of_readsTo reads ahead
  have quoted : Reaches (inBlock c ts margin outer false) (inBlock behind (.scalar text false :: ts) margin outer false) := by
    have starts : Starts (Quoted.mark double :: (inside ++ Quoted.mark double :: (nextLine nextColumn ++ next))) := by
      cases double <;> exact starts_cons (by decide) (by decide)
    refine reaches_readToken starts ahead rfl (.inl (Int.ofNat_le.mpr further.le)) ?_ ?_
    · have token : (inBlock c ts margin outer false).readToken (Quoted.mark double) =
          (inBlock c ts margin outer false).atQuoted double := by
        cases double <;> simp [Quoted.mark, readToken, inBlock]
      rw [token]
      simp [atQuoted, saveKey, inBlock, pushAt, push, bind, Except.bind, pure, Except.pure, read]
    · simp only [inBlock, moved.left, ahead.left, List.length_append, List.length_cons]
      omega
  obtain ⟨after, ended, line⟩ := reaches_nextLine _ _ _ _ opens.starts moved
  exact ⟨after, ended, quoted.trans line⟩

/-- A scalar is read behind a colon. -/
theorem Scalar.IsLegible.isValue (legible : s.IsLegible) (behind : margin < place.margin)
    (narrow : place.margin < width) :
    IsValue margin (' ' :: s.style.write place s.text) [.scalar s.text (s.style = .plain)] := by
  refine ⟨fun _ => rfl, ⟨?_, ?_⟩, fun ts outer {c column nextColumn next} inside outside opens stands => ?_⟩
  · exact List.forall_mem_cons.mpr ⟨rfl, legible.shown place⟩
  · obtain ⟨ch, last, other⟩ := legible.ends place
    exact ⟨ch, by rw [← List.singleton_append, List.getLast?_append, last, Option.some_or], other⟩
  · have starts := legible.starts place (nextLine nextColumn ++ next)
    obtain ⟨at', first, blank⟩ := reaches_blank ts margin outer false starts stands
    have within : margin < column + 1 := Nat.lt_succ_of_lt inside
    suffices value : ∃ after, after.Stands next nextColumn ∧ Reaches (inBlock at' ts margin outer false)
        (inBlock after (.scalar s.text (s.style = .plain) :: ts) margin outer true) by
      obtain ⟨after, ended, onward⟩ := value
      exact ⟨after, ended, blank.trans onward⟩
    have some : 0 < place.margin := Nat.zero_lt_of_lt behind
    cases style : s.style with
    | plain =>
      rw [style] at first starts
      exact reaches_plain (legible.plain style).1 (legible.plain style).2 behind within outside opens starts first
    | single =>
      rw [style] at first
      have tidy := Quoted.tidy_of_admitsSingle (legible.single style)
      exact reaches_quoted false within opens first
        (Quoted.readsTo_singleFrom tidy (Nat.lt_succ_self _) some (by simp [nextLine]))
    | double =>
      rw [style] at first
      exact reaches_quoted true within opens first ((Quoted.readsTo_doubleFrom some narrow _ _).1 _ _ _)
    | literal => exact absurd style legible.inline

end

/-! ## Lines -/

/-- At the margin of its collection the text has the tokens. -/
structure IsEntry (margin : Nat) (text : List Char) (tokens : List Token) : Prop where
  opens : ∀ rest, Opens (text ++ rest)
  printed : IsPrinted text
  lexes : ∀ (ts : List Token) (outer : List Int) {c : Cursor} {nextColumn : Nat} {next : List Char},
      nextColumn ≤ margin → Opens next → c.Stands (text ++ (nextLine nextColumn ++ next)) margin →
      ∃ after, after.Stands next nextColumn ∧
        Reaches (inBlock c ts margin outer true) (inBlock after (tokens.reverse ++ ts) margin outer true)

/-- The text is an entry with these tokens, and also opens a record of which it is the first field. -/
structure IsField (margin : Nat) (text : List Char) (tokens : List Token) : Prop extends IsEntry margin text tokens where
  first : ∀ (ts : List Token) (outer : List Int) {c : Cursor} {nextColumn : Nat} {around : Int} {next : List Char},
    around < margin → nextColumn ≤ margin → Opens next → c.Stands (text ++ (nextLine nextColumn ++ next)) margin →
      ∃ after, after.Stands next nextColumn ∧ Reaches (inBlock c ts around outer true)
        (inBlock after (tokens.reverse ++ .mappingStart :: ts) margin (around :: outer) true)

/-- Behind a text that does not end with a line break there is one. -/
theorem IsPrinted.breakAfter (printed : IsPrinted text) (margin : Nat) : breakAfter text margin = nextLine margin := by
  obtain ⟨ch, last, other⟩ := printed.ends
  rw [Yaml.breakAfter, last, if_neg fun same => other (Option.some.inj same)]

/-- Between two entries there is a line break and the margin. -/
theorem IsPrinted.lines_cons (printed : IsPrinted text) (margin : Nat) (second : List Char) (rest : List (List Char)) :
    lines margin (text :: second :: rest) = text ++ (nextLine margin ++ lines margin (second :: rest)) := by
  rw [lines, printed.breakAfter, List.append_assoc]
  simp

/-- Entries on lines of their own are an entry with all their tokens. -/
theorem IsEntry.lines {entry : List Char × List Token} {entries : List (List Char × List Token)}
    (each : ∀ e ∈ entry :: entries, IsEntry margin e.1 e.2) :
    IsEntry margin (Yaml.lines margin ((entry :: entries).map Prod.fst)) ((entry :: entries).flatMap Prod.snd) := by
  induction entries generalizing entry with
  | nil => simpa [Yaml.lines] using each entry List.mem_cons_self
  | cons second entries inductionHypothesis =>
    have own := each entry List.mem_cons_self
    have others := inductionHypothesis fun e member => each e (List.mem_cons_of_mem entry member)
    have written := own.printed.lines_cons margin second.1 (entries.map Prod.fst)
    rw [List.map_cons, List.map_cons, written, ← List.map_cons, List.flatMap_cons]
    refine ⟨fun rest => ?_, ?_, fun ts outer {c nextColumn next} outside opens stands => ?_⟩
    · rw [List.append_assoc]
      exact own.opens _
    · exact (others.printed.append (Plain.isShown_nextLine margin)).append own.printed.shown
    · rw [List.append_assoc, List.append_assoc] at stands
      obtain ⟨between, there, first⟩ := own.lexes ts outer (Nat.le_refl margin) (others.opens _) stands
      obtain ⟨after, ended, further⟩ := others.lexes _ _ outside opens there
      refine ⟨after, ended, ?_⟩
      rw [List.reverse_append, List.append_assoc]
      exact first.trans further

/-- Fields on lines of their own are a field with all their tokens. -/
theorem IsField.lines {field : List Char × List Token} {fields : List (List Char × List Token)}
    (each : ∀ f ∈ field :: fields, IsField margin f.1 f.2) :
    IsField margin (Yaml.lines margin ((field :: fields).map Prod.fst)) ((field :: fields).flatMap Prod.snd) := by
  refine ⟨IsEntry.lines fun f member => (each f member).toIsEntry,
    fun ts outer {c nextColumn around next} further outside opens stands => ?_⟩
  have own := each field List.mem_cons_self
  cases fields with
  | nil => simpa [Yaml.lines] using own.first ts outer further outside opens (by simpa [Yaml.lines] using stands)
  | cons second fields =>
    have others := IsEntry.lines fun f member => (each f (List.mem_cons_of_mem field member)).toIsEntry
    have written := own.printed.lines_cons margin second.1 (fields.map Prod.fst)
    rw [List.map_cons, List.map_cons, written, ← List.map_cons, List.append_assoc, List.append_assoc] at stands
    obtain ⟨between, there, first⟩ := own.first ts outer further (Nat.le_refl margin) (others.opens _) stands
    obtain ⟨after, ended, onward⟩ := others.lexes _ _ outside opens there
    refine ⟨after, ended, ?_⟩
    rw [List.flatMap_cons, List.reverse_append, List.append_assoc]
    exact first.trans onward

/-- A key with a value behind its colon is a field. -/
theorem IsValue.isField {word : List Char} (value : IsValue margin text tokens) (isKey : IsKey word) :
    IsField margin (word ++ ':' :: text) (.key :: .scalar word true :: .value :: tokens) := by
  have printed : IsPrinted (word ++ ':' :: text) := by
    have shown : ∀ ch ∈ word ++ [':'], Style.isShown ch = true := by
      refine List.forall_mem_append.mpr ⟨fun ch member => ?_, by simp [Style.isShown]⟩
      exact isShown_iff.mpr (.inr (isKey.isWord.solid ch member).1)
    have whole := value.printed.append shown
    rwa [List.append_assoc, List.singleton_append] at whole
  refine ⟨⟨fun rest => ?_, printed, fun ts outer {c nextColumn next} outside opens stands => ?_⟩,
    fun ts outer {c nextColumn around next} further outside opens stands => ?_⟩
  · rw [List.append_assoc]
    exact isKey.opens _
  · rw [List.append_assoc, List.cons_append] at stands
    obtain ⟨behind, there, key⟩ := reaches_key ts outer isKey stands (value.gap _) (Int.le_refl margin)
    rw [if_neg (Int.lt_irrefl margin)] at key
    obtain ⟨after, ended, onward⟩ := value.lexes _ _ (by omega) outside opens there
    exact ⟨after, ended, by simpa using key.trans onward⟩
  · rw [List.append_assoc, List.cons_append] at stands
    obtain ⟨behind, there, key⟩ := reaches_key ts outer isKey stands (value.gap _) further.le
    rw [if_pos further] at key
    obtain ⟨after, ended, onward⟩ := value.lexes _ _ (by omega) outside opens there
    exact ⟨after, ended, by simpa using key.trans onward⟩

/-- The tokens of a record. -/
def recordTokens (tokens : List Token) : List Token := .mappingStart :: tokens ++ [.blockEnd]

/-- A record behind a dash is an entry. -/
theorem IsField.isItem (fields : IsField (margin + step) text tokens) :
    IsEntry margin ('-' :: ' ' :: text) (.entry :: recordTokens tokens) := by
  have shown : ∀ ch ∈ ['-', ' '], Style.isShown ch = true := List.all_eq_true.mp (by decide)
  refine ⟨fun rest => ⟨starts_cons (by decide) (by decide), rfl, rfl⟩, fields.printed.append shown,
    fun ts outer {c nextColumn next} outside opens stands => ?_⟩
  have dash : c.Stands ('-' :: ' ' :: (text ++ (nextLine nextColumn ++ next))) margin := stands
  have behind := (dash.next (by decide)).1
  have entry : Reaches (inBlock c ts margin outer true) (inBlock c.next (.entry :: ts) margin outer true) := by
    have separate : c.isAtSeparator = false := by simp [Cursor.isAtSeparator, dash.rest, List.isPrefixOf]
    have gap : (c.peekAt? 1).all isBlankOrBreak = true := by
      rw [Cursor.peekAt?, dash.rest]
      rfl
    have place : c.column = margin := dash.column
    refine reaches_readToken (starts_cons (by decide) (by decide)) dash rfl (.inl (Int.le_refl _)) ?_ ?_
    · simp [readToken, inBlock, separate, gap, atEntry, openAt, place, dropKey, pushAt, push, bind, Except.bind, pure,
        Except.pure]
    · simp only [inBlock, behind.left, dash.left, List.length_cons]
      omega
  obtain ⟨at', there, blank⟩ := reaches_blank (.entry :: ts) margin outer true (fields.opens _).starts behind
  have further : (margin : Int) < (margin + step : Nat) := by simp [step]
  have early : nextColumn ≤ margin + step := Nat.le_add_right_of_le outside
  obtain ⟨after, ended, record⟩ := fields.first (.entry :: ts) outer further early opens there
  have closed := reaches_blockEnd (tokens.reverse ++ .mappingStart :: .entry :: ts) margin outer opens.starts ended
    (by omega : (nextColumn : Int) < (margin + step : Nat))
  refine ⟨after, ended, ?_⟩
  have whole := entry.trans (blank.trans (record.trans closed))
  simpa [recordTokens] using whole

/-- The items of a list stand in the lines behind the colon. -/
theorem IsEntry.isValue (items : IsEntry margin text tokens) : IsValue margin (nextLine margin ++ text) tokens := by
  refine ⟨fun _ => rfl, items.printed.append (Plain.isShown_nextLine margin),
    fun ts outer {c column nextColumn next} inside outside opens stands => ?_⟩
  rw [List.append_assoc] at stands
  obtain ⟨at', there, line⟩ := reaches_nextLine ts margin outer false (items.opens _).starts stands
  obtain ⟨after, ended, onward⟩ := items.lexes ts outer outside opens there
  exact ⟨after, ended, line.trans onward⟩

/-- A list without items is a pair of brackets. -/
theorem isValue_brackets : IsValue margin [' ', '[', ']'] [.bracketOpen, .bracketClose] := by
  refine ⟨fun _ => rfl, ⟨List.all_eq_true.mp (by decide), ']', rfl, by decide⟩,
    fun ts outer {c column nextColumn next} inside outside opens stands => ?_⟩
  have ahead : c.Stands (' ' :: '[' :: ']' :: (nextLine nextColumn ++ next)) column := stands
  obtain ⟨at', there, blank⟩ := reaches_blank ts margin outer false (starts_cons (by decide) (by decide)) ahead
  have between := (there.next (by decide)).1
  have behind := (between.next (by decide)).1
  let opened : Lexer := { inBlock at'.next (.bracketOpen :: ts) margin outer true with depth := 1 }
  have opening : Reaches (inBlock at' ts margin outer false) opened := by
    refine reaches_readToken (starts_cons (by decide) (by decide)) there rfl (.inl ?_) ?_ ?_
    · simp only [inBlock]
      omega
    · simp [readToken, inBlock, atOpening, saveKey, pushAt, push, bind, Except.bind, pure, Except.pure, opened]
    · simp only [inBlock, opened, between.left, there.left, List.length_cons]
      omega
  have closing : Reaches opened (inBlock at'.next.next (.bracketClose :: .bracketOpen :: ts) margin outer false) := by
    refine reaches_readToken (starts_cons (by decide) (by decide)) between rfl (.inr (by simp [opened])) ?_ ?_
    · simp [readToken, inBlock, atClosing, dropKey, pushAt, push, bind, Except.bind, pure, Except.pure, opened]
    · simp only [inBlock, opened, behind.left, between.left, List.length_cons]
      omega
  obtain ⟨after, ended, line⟩ := reaches_nextLine (.bracketClose :: .bracketOpen :: ts) margin outer false opens.starts
    behind
  exact ⟨after, ended, blank.trans (opening.trans (closing.trans line))⟩

/-! ## Documents -/

/-- A character that is shown may stand in a document. -/
theorem isDocumentChar_of_isShown {ch : Char} (shown : Style.isShown ch = true) : isDocumentChar ch = true := by
  rcases isShown_iff.mp shown with rfl | typed
  · rfl
  · simp only [isTyped] at typed
    simp [isDocumentChar, typed]

/-- A record that is the whole of a document has the tokens of its fields, and then comes the end. -/
theorem IsField.tokens_eq (fields : IsField 0 text tokens) :
    Yaml.tokens (text ++ ['\n']) = .ok (recordTokens tokens ++ [.streamEnd]) := by
  have shown : ∀ ch ∈ text ++ ['\n'], Style.isShown ch = true :=
    List.forall_mem_append.mpr ⟨fields.printed.shown, List.all_eq_true.mp (by decide)⟩
  have known : (text ++ ['\n']).all isDocumentChar = true :=
    List.all_eq_true.mpr fun ch member => isDocumentChar_of_isShown (shown ch member)
  have unmarked : (Cursor.start (text ++ ['\n'])).isAt (· = '\ufeff') = false := by
    cases written : text ++ ['\n'] with
    | nil => rfl
    | cons ch more =>
      have own := shown ch (written ▸ List.mem_cons_self)
      have other : ch ≠ '\ufeff' := by
        rintro rfl
        cases own
      simpa [Cursor.isAt, Cursor.peek?, Cursor.start] using other
  obtain ⟨after, ended, used, less, same⟩ := fields.first [] [] (by decide : (-1 : Int) < (0 : Nat))
    (Nat.le_refl 0) opens_nil (Cursor.stands_start (text ++ (nextLine 0 ++ [])))
  have enough : used ≤ (text ++ ['\n']).length := by
    have bound : after.left + used ≤ (text ++ ['\n']).length := less
    omega
  obtain ⟨fuel, total⟩ : ∃ fuel, (text ++ ['\n']).length + 2 = fuel + 1 + used :=
    ⟨(text ++ ['\n']).length + 1 - used, by omega⟩
  have start : Lexer.start (text ++ ['\n']) = inBlock (.start (text ++ ['\n'])) [] (-1) [] true := rfl
  have whole : (Lexer.start (text ++ ['\n'])).run ((text ++ ['\n']).length + 2) =
      .ok ((tokens.reverse ++ [Token.mappingStart]).reverse ++ [.blockEnd, .streamEnd]) := by
    rw [start, total]
    exact (same (fuel + 1)).trans (Lexer.run_end ended fuel)
  have noMark : (Lexer.start (text ++ ['\n'])).cursor.isAt (· = '\ufeff') = false := unmarked
  rw [Yaml.tokens, if_pos known]
  simp only [noMark, Bool.false_eq_true, if_false, whole]
  simp [recordTokens]

end MusicScore.Yaml
