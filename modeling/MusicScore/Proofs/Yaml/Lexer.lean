import Mathlib.Data.Bool.AllAny
import MusicScore.Proofs.Yaml.Quoted

/-!
# Finding the structure of what was written

A document that was written has a margin for each of its collections, and every field and every item begins at the
margin of its own. The lexer is followed from one such place to the next: what it does with a piece of text is told by
the tokens that it has when it stands before the next line. The contract of a piece does not say which tokens or which
margins were there before, so that the contract of a list or a record is put together from those of its parts.
-/
namespace MusicScore.Yaml

open Folding

/-- A token starts with a character that is neither a blank nor that of a comment. -/
theorem starts_cons {ch : Char} {rest : List Char} (solid : isBlankOrBreak ch = false) (comment : ch ≠ '#') :
    Starts (ch :: rest) := by
  intro d member
  obtain rfl := Option.some.inj member
  exact ⟨solid, comment⟩

/-- What begins with a character that is neither a blank nor a mark opens a token. -/
theorem opens_cons {ch : Char} {rest : List Char} (solid : isBlankOrBreak ch = false) (comment : ch ≠ '#')
    (dash : ch ≠ '-') (dot : ch ≠ '.') : Opens (ch :: rest) := by
  refine ⟨starts_cons solid comment, ?_, ?_⟩
  · simpa [List.isPrefixOf] using fun same => absurd same.symm dash
  · simpa [List.isPrefixOf] using fun same => absurd same.symm dot

namespace Lexer

variable {c : Cursor} {ch : Char} {ts tokens : List Token} {margin : Int} {outer : List Int} {begins : Bool}
  {next rest text : List Char} {column : Nat} {l l' l'' : Lexer}

/-- The lexer in block form with no key to remember, the last token first. -/
def inBlock (c : Cursor) (ts : List Token) (margin : Int) (outer : List Int) (keyMayBegin : Bool) : Lexer where
  cursor := c
  tokens := ts
  tokenCount := ts.length
  depth := 0
  margin := margin
  outer := outer
  keyMayBegin := keyMayBegin
  keys := []

/-- The lexer comes from one state to another, with no more steps than characters. -/
def Reaches (l l' : Lexer) : Prop :=
  ∃ used, l'.cursor.left + used ≤ l.cursor.left ∧ ∀ fuel, run (fuel + used) l = run fuel l'

/-- What is reached from what is reached is reached. -/
theorem Reaches.trans (first : Reaches l l') (second : Reaches l' l'') : Reaches l l'' := by
  obtain ⟨used, less, same⟩ := first
  obtain ⟨more, fewer, onward⟩ := second
  refine ⟨more + used, by omega, fun fuel => ?_⟩
  rw [← Nat.add_assoc, same, onward]

/-! ## Between tokens -/

/-- States that lead to the same next token are not told apart. -/
theorem reaches_of_toNextToken (less : l'.cursor.left ≤ l.cursor.left)
    (same : toNextToken (l.cursor.left + 1) l = toNextToken (l'.cursor.left + 1) l') : Reaches l l' := by
  refine ⟨0, less, fun fuel => ?_⟩
  cases fuel with
  | zero => rfl
  | succ fuel => rw [Nat.add_zero, run, run, same]

/-- Before a token the lexer stays where it is. -/
theorem toNextToken_starts (starts : Starts next) (stands : l.cursor.Stands next column) (fuel : Nat) :
    toNextToken fuel l = l := by
  cases fuel with
  | zero => rfl
  | succ fuel =>
    have here : l.cursor.skipWhile (· = ' ') = l.cursor := by
      have all : l.cursor.Stands ([] ++ next) column := stands
      rw [Cursor.skipWhile, all.takeWhile (by simp) fun ch member => by simpa using (starts.solid ch member).1]
      rfl
    have marks : l.cursor.isAt (· = '#') = false ∧ l.cursor.isAt isLineBreak = false := by
      cases next with
      | nil => exact ⟨stands.isAt_nil _, stands.isAt_nil _⟩
      | cons ch next =>
        rw [stands.isAt, stands.isAt]
        exact ⟨by simpa using (starts ch rfl).2, (starts.solid ch rfl).2⟩
    rw [toNextToken]
    simp only [here, marks, Bool.false_eq_true, if_false]

/-- Blanks before a token are passed. -/
theorem toNextToken_blanks {count : Nat} (starts : Starts next)
    (stands : l.cursor.Stands (List.replicate count ' ' ++ next) column) (fuel : Nat) :
    ∃ after, toNextToken (fuel + 1) l = { l with cursor := after } ∧ after.Stands next (column + count) := by
  have moved : (l.cursor.skipWhile (· = ' ')).Stands next (column + count) :=
    stands.skipBlanks rfl fun ch member => by simpa using (starts.solid ch member).1
  have marks : (l.cursor.skipWhile (· = ' ')).isAt (· = '#') = false ∧
      (l.cursor.skipWhile (· = ' ')).isAt isLineBreak = false := by
    cases next with
    | nil => exact ⟨moved.isAt_nil _, moved.isAt_nil _⟩
    | cons ch next =>
      rw [moved.isAt, moved.isAt]
      exact ⟨by simpa using (starts ch rfl).2, (starts.solid ch rfl).2⟩
  refine ⟨_, ?_, moved⟩
  rw [toNextToken]
  simp only [marks, Bool.false_eq_true, if_false]

/-- Blanks before a token make no difference. -/
theorem reaches_blank (ts : List Token) (margin : Int) (outer : List Int) (begins : Bool) (starts : Starts next)
    (stands : c.Stands (' ' :: next) column) :
    ∃ after, after.Stands next (column + 1) ∧
      Reaches (inBlock c ts margin outer begins) (inBlock after ts margin outer begins) := by
  have blanks : (inBlock c ts margin outer begins).cursor.Stands (List.replicate 1 ' ' ++ next) column := stands
  obtain ⟨after, found, moved⟩ := toNextToken_blanks starts blanks c.left
  refine ⟨after, moved, reaches_of_toNextToken ?_ ?_⟩
  · rw [inBlock, inBlock, moved.left, stands.left, List.length_cons]
    omega
  · exact found.trans (toNextToken_starts starts moved _).symm

/-- In the next line a key may begin. -/
theorem reaches_nextLine (ts : List Token) (margin : Int) (outer : List Int) (begins : Bool) {nextColumn : Nat}
    (starts : Starts next) (stands : c.Stands (nextLine nextColumn ++ next) column) :
    ∃ after, after.Stands next nextColumn ∧
      Reaches (inBlock c ts margin outer begins) (inBlock after ts margin outer true) := by
  have lines : c.Stands ('\n' :: (List.replicate nextColumn ' ' ++ next)) column := stands
  obtain ⟨broken, start, _⟩ := lines.lineBreak
  have here : c.skipWhile (· = ' ') = c := by
    rw [Cursor.skipWhile, lines.takeWhile_none rfl]
  have marks : c.isAt (· = '#') = false ∧ c.isAt isLineBreak = true := by
    rw [lines.isAt, lines.isAt]
    exact ⟨rfl, rfl⟩
  have length : c.left = (List.replicate nextColumn ' ' ++ next).length + 1 := lines.left
  have margins : (inBlock c.next ts margin outer true).cursor.Stands (List.replicate nextColumn ' ' ++ next) 0 := start
  obtain ⟨after, found, moved⟩ := toNextToken_blanks starts margins (List.replicate nextColumn ' ' ++ next).length
  rw [Nat.zero_add] at moved
  have passed : toNextToken (c.left + 1) (inBlock c ts margin outer begins) = inBlock after ts margin outer true := by
    rw [toNextToken, length]
    simp only [inBlock, here, marks, broken, Bool.false_eq_true, if_false, if_true]
    exact found
  refine ⟨after, moved, reaches_of_toNextToken ?_ ?_⟩
  · rw [inBlock, inBlock, moved.left, length, List.length_append]
    omega
  · exact passed.trans (toNextToken_starts starts moved _).symm

/-! ## Single tokens -/

/-- Where no margin is left, no collection is closed. -/
theorem unwind_inside (inside : l.margin ≤ column ∨ l.depth ≠ 0) : l.unwind column = l := by
  unfold unwind
  cases l.outer with
  | nil => rfl
  | cons outer rest =>
    have stays : (decide (l.depth = 0) && decide ((column : Int) < l.margin)) = false := by
      rcases inside with inside | deep
      · simpa using fun _ => inside
      · simp [deep]
    rw [closeTo, stays]
    rfl

/-- A token that is read where the lexer stands leads on. -/
theorem reaches_readToken (starts : Starts (ch :: rest)) (stands : l.cursor.Stands (ch :: rest) column)
    (fresh : l.dropStaleKeys = .ok l) (inside : l.margin ≤ column ∨ l.depth ≠ 0) (read : l.readToken ch = .ok l')
    (less : l'.cursor.left < l.cursor.left) : Reaches l l' := by
  refine ⟨1, less, fun fuel => ?_⟩
  rw [run, toNextToken_starts starts stands, fresh]
  have stays : l.unwind l.cursor.column = l := by
    rw [stands.column]
    exact unwind_inside inside
  simp only [bind, Except.bind, stays, stands.peek?, read]

/-- A character that begins no other token begins a plain scalar. -/
theorem readToken_plain (free : Style.isLeadingIndicator ch = false) (solid : isBlankOrBreak ch = false)
    (apart : ch = '-' ∨ ch = '?' ∨ ch = ':' → (l.cursor.peekAt? 1).all isBlankOrBreak = false)
    (separate : (decide (l.cursor.column = 0) && l.cursor.isAtSeparator) = false) (flat : l.depth = 0) :
    l.readToken ch = l.atPlain := by
  have others := free
  simp only [Style.isLeadingIndicator, List.contains_eq_mem, decide_eq_false_iff_not, List.mem_cons, not_or,
    List.not_mem_nil, not_false_eq_true, and_true] at others
  obtain ⟨comment, comma, bracket, closing, brace, closingBrace, anchor, star, tag, literal, folded, single, double,
    percent, _⟩ := others
  by_cases signs : ch = '-' ∨ ch = '?' ∨ ch = ':'
  · have next := apart signs
    have begun : beginsPlain false ch (l.cursor.peekAt? 1) = true := by
      rcases signs with rfl | rfl | rfl <;> simp [beginsPlain, next]
    simp [readToken, Bool.and_assoc, separate, flat, next, begun, comma, bracket, closing, brace, closingBrace, anchor,
      star, tag, literal, folded, single, double, percent]
  · simp only [not_or] at signs
    obtain ⟨dash, question, colon⟩ := signs
    have begun : beginsPlain false ch (l.cursor.peekAt? 1) = true := by
      simp [beginsPlain, isIndicator, solid, free, dash, question, colon]
    simp [readToken, Bool.and_assoc, separate, flat, begun, comma, bracket, closing, brace, closingBrace, anchor, star,
      tag, literal, folded, single, double, percent, dash, question, colon]

/-- A collection is closed by a token that begins left of its margin. -/
theorem reaches_blockEnd (ts : List Token) (margin : Int) (outer : List Int) {own : Int} (starts : Starts next)
    (stands : c.Stands next column) (outside : (column : Int) < own) :
    Reaches (inBlock c ts own (margin :: outer) true) (inBlock c (.blockEnd :: ts) margin outer true) := by
  refine ⟨0, Nat.le_refl _, fun fuel => ?_⟩
  cases fuel with
  | zero => rfl
  | succ fuel =>
    have closed : (inBlock c ts own (margin :: outer) true).unwind column =
        (inBlock c (.blockEnd :: ts) margin outer true).unwind column := by
      rw [unwind, inBlock, closeTo, if_pos (by simpa using outside)]
      rfl
    have column : c.column = column := stands.column
    have here {ts : List Token} {margin : Int} {outer : List Int} (fuel : Nat) :
        toNextToken fuel (inBlock c ts margin outer true) = inBlock c ts margin outer true :=
      toNextToken_starts starts stands fuel
    rw [Nat.add_zero, run, run, here, here]
    simp only [dropStaleKeys, inBlock, List.any_nil, List.filter_nil, Bool.false_eq_true, if_false, bind, Except.bind,
      column]
    simp only [inBlock] at closed
    rw [closed]

/-- The end closes the outermost collection. -/
theorem run_end (stands : c.Stands [] 0) (fuel : Nat) :
    run (fuel + 1) (inBlock c ts 0 [-1] true) = .ok (ts.reverse ++ [.blockEnd, .streamEnd]) := by
  have column : c.column = 0 := stands.column
  have ended : c.peek? = none := by rw [Cursor.peek?, stands.rest]; rfl
  rw [run, toNextToken_starts opens_nil.starts stands]
  simp [dropStaleKeys, inBlock, bind, Except.bind, column, ended, unwind, closeTo, atEnd, dropKey, push, pure, Except.pure]

/-! ## Keys -/

/-- A letter of a plain key. -/
def isKeyLetter (ch : Char) : Bool := ('a' ≤ ch && ch ≤ 'z') || ch = '_'

/-- The word can be a key on one line: letters, and not too many. -/
structure IsKey (word : List Char) : Prop where
  nonempty : word ≠ []
  letters : ∀ ch ∈ word, isKeyLetter ch = true
  short : word.length ≤ keyReach

/-- A letter of a key is no character that is none. -/
theorem ne_of_isKeyLetter {d : Char} (letter : isKeyLetter ch = true) (other : isKeyLetter d = false) : ch ≠ d := by
  rintro rfl
  rw [letter] at other
  cases other

/-- A letter of a key is typed, and is no blank. -/
theorem typed_of_isKeyLetter (letter : isKeyLetter ch = true) : isTyped ch = true ∧ ch ≠ ' ' := by
  refine ⟨?_, ne_of_isKeyLetter letter (by decide)⟩
  simp only [isKeyLetter, Bool.or_eq_true, Bool.and_eq_true, decide_eq_true_eq] at letter
  rcases letter with ⟨low, high⟩ | rfl
  · have ends : ' ' ≤ 'a' ∧ 'z' ≤ '~' := by decide
    have typed : ' ' ≤ ch ∧ ch ≤ '~' := ⟨Char.le_trans ends.1 low, Char.le_trans high ends.2⟩
    simpa [isTyped] using typed
  · rfl

/-- A letter of a key begins a plain scalar. -/
theorem indicator_of_isKeyLetter (letter : isKeyLetter ch = true) :
    Style.isLeadingIndicator ch = false ∧ isBlankOrBreak ch = false ∧ ¬ (ch = '-' ∨ ch = '?' ∨ ch = ':') := by
  have other {d : Char} (none : isKeyLetter d = false) := ne_of_isKeyLetter letter none
  obtain ⟨typed, blank⟩ := typed_of_isKeyLetter letter
  refine ⟨?_, Bool.eq_false_iff.mpr fun same => blank ((isBlankOrBreak_iff typed).mp same), ?_⟩
  · have marks : ∀ d ∈ ['#', ',', '[', ']', '\x7b', '\x7d', '&', '*', '!', '|', '>', '\'', '"', '%', '@', '\x60'],
        isKeyLetter d = false := List.all_iff_forall_prop.mp (by decide)
    rw [Style.isLeadingIndicator, List.contains_eq_mem, decide_eq_false_iff_not]
    exact fun member => other (marks ch member) rfl
  · simp [other (d := '-') (by decide), other (d := '?') (by decide), other (d := ':') (by decide)]

namespace IsKey

variable {word : List Char}

/-- A key is a word. -/
theorem isWord (isKey : IsKey word) : Plain.IsWord word := by
  refine ⟨fun ch member => typed_of_isKeyLetter (isKey.letters ch member), fun last => ?_⟩
  exact ne_of_isKeyLetter (isKey.letters ':' (List.mem_of_getLast? last)) (by decide) rfl

/-- A key opens a token. -/
theorem opens (isKey : IsKey word) (rest : List Char) : Opens (word ++ rest) := by
  obtain ⟨ch, more, rfl⟩ := List.exists_cons_of_ne_nil isKey.nonempty
  have letter := isKey.letters ch List.mem_cons_self
  obtain ⟨_, solid, _⟩ := indicator_of_isKeyLetter letter
  have other {d : Char} (none : isKeyLetter d = false) := ne_of_isKeyLetter letter none
  exact opens_cons solid (other (by decide)) (other (by decide)) (other (by decide))

end IsKey

/-- The key that may have begun where the lexer stands. -/
def keyAt (c : Cursor) (ts : List Token) (margin : Int) : PossibleKey :=
  ⟨ts.length, margin = c.column, c.index, c.line, c.column⟩

/-- The lexer behind a key that began where the cursor `c` was, and is remembered. -/
def behindKey (c after : Cursor) (ts : List Token) (margin : Int) (outer : List Int) (word : List Char) : Lexer :=
  { inBlock after (.scalar word true :: ts) margin outer false with keys := [(0, keyAt c ts margin)] }

section

variable {word : List Char}

/-- A key is read as a scalar, and remembered. -/
theorem atPlain_key (isKey : IsKey word) (stands : c.Stands (word ++ ':' :: rest) column)
    (gap : rest.head?.all isBlankOrBreak = true) :
    (inBlock c ts margin outer true).atPlain = .ok (behindKey c (c.skip word.length) ts margin outer word) := by
  have noComment : word.head? ≠ some '#' := fun first =>
    ne_of_isKeyLetter (isKey.letters '#' (List.mem_of_head? first)) (by decide) rfl
  have read (bound : Int) := Plain.read_key bound isKey.isWord isKey.nonempty noComment stands gap
  simp [atPlain, saveKey, dropKey, inBlock, behindKey, keyAt, bind, Except.bind, pure, Except.pure, read, pushAt, push]

/-- The colon behind a key puts the marks before it, and opens a record where there is none. -/
theorem atColonOf_key (after : Cursor) :
    (behindKey c after ts margin outer word).atColonOf (keyAt c ts margin) =
      if margin < c.column then
        inBlock after.next (.value :: .scalar word true :: .key :: .mappingStart :: ts) c.column (margin :: outer) false
      else inBlock after.next (.value :: .scalar word true :: .key :: ts) margin outer false := by
  have keyPlace : ts.length + 1 - ts.length = 1 := by omega
  have recordPlace : ts.length + 1 + 1 - ts.length = 2 := by omega
  split_ifs with further <;>
    simp [atColonOf, insert, openAt, pushAt, push, inBlock, behindKey, keyAt, keyPlace, recordPlace, further]

/-- A key is read up to its colon. -/
theorem reaches_behindKey (isKey : IsKey word) (stands : c.Stands (word ++ ':' :: rest) column)
    (gap : rest.head?.all isBlankOrBreak = true) (inside : margin ≤ column)
    (moved : (c.skip word.length).Stands (':' :: rest) (column + word.length)) :
    Reaches (inBlock c ts margin outer true) (behindKey c (c.skip word.length) ts margin outer word) := by
  obtain ⟨ch, more, rfl⟩ := List.exists_cons_of_ne_nil isKey.nonempty
  obtain ⟨free, solid, noSign⟩ := indicator_of_isKeyLetter (isKey.letters ch List.mem_cons_self)
  have opens : Opens (ch :: (more ++ ':' :: rest)) := isKey.opens (':' :: rest)
  have first : (inBlock c ts margin outer true).cursor.Stands (ch :: (more ++ ':' :: rest)) column := stands
  have separate : (inBlock c ts margin outer true).cursor.isAtSeparator = false := opens.separator first
  refine reaches_readToken opens.starts first rfl (.inl inside) ?_ ?_
  · rw [readToken_plain free solid (fun sign => absurd sign noSign) (by simp [separate]) rfl]
    exact atPlain_key isKey stands gap
  · have fewer := moved.left
    simp only [List.length_cons] at fewer
    simp only [behindKey, inBlock, fewer, stands.left, List.length_append, List.length_cons]
    omega

/-- At its colon a key is in the same line, and near enough to be remembered. -/
theorem dropStaleKeys_behindKey (ts : List Token) (margin : Int) (outer : List Int) (isKey : IsKey word)
    {after : Cursor} (line : after.line = c.line)
    (index : after.index = c.index + word.length) :
    (behindKey c after ts margin outer word).dropStaleKeys = .ok (behindKey c after ts margin outer word) := by
  have near : isStale after (keyAt c ts margin) = false := by
    have close : after.index - c.index ≤ keyReach := by
      rw [index]
      have short := isKey.short
      omega
    simp only [isStale, keyAt, line, ne_eq, not_true_eq_false, decide_false, Bool.false_or]
    exact decide_eq_false (Nat.not_lt.mpr close)
  simp [dropStaleKeys, behindKey, inBlock, near]

/-- The colon behind a key that is remembered is read. -/
theorem reaches_colon {after : Cursor} (stands : after.Stands (':' :: rest) column)
    (gap : rest.head?.all isBlankOrBreak = true) (inside : margin ≤ column)
    (fresh : (behindKey c after ts margin outer word).dropStaleKeys = .ok (behindKey c after ts margin outer word)) :
    Reaches (behindKey c after ts margin outer word)
      ((behindKey c after ts margin outer word).atColonOf (keyAt c ts margin)) := by
  have colon : Starts (':' :: rest) := starts_cons (by decide) (by decide)
  have next := (stands.next (by decide)).1
  refine reaches_readToken colon stands fresh (.inl inside) ?_ ?_
  · have behind : (after.peekAt? 1).all isBlankOrBreak = true := by
      rw [Cursor.peekAt?, stands.rest]
      simpa [List.head?_eq_getElem?] using gap
    simp [readToken, behindKey, inBlock, behind, atColon]
  · rw [atColonOf_key]
    simp only [behindKey]
    split_ifs <;> simp only [inBlock, stands.left, next.left, List.length_cons] <;> omega

/-- A key and its colon are read where a collection with the margin is open, or as the first of a record. -/
theorem reaches_key (ts : List Token) (outer : List Int) (isKey : IsKey word)
    (stands : c.Stands (word ++ ':' :: rest) column) (gap : rest.head?.all isBlankOrBreak = true)
    (inside : margin ≤ column) :
    ∃ after, after.Stands rest (column + word.length + 1) ∧
      Reaches (inBlock c ts margin outer true)
        (if margin < column then
          inBlock after (.value :: .scalar word true :: .key :: .mappingStart :: ts) column (margin :: outer) false
        else inBlock after (.value :: .scalar word true :: .key :: ts) margin outer false) := by
  have typed (d : Char) (member : d ∈ word) : isTyped d = true := (isKey.isWord.solid d member).1
  obtain ⟨moved, line, index⟩ := stands.skip typed
  have fresh := dropStaleKeys_behindKey ts margin outer isKey line index
  have key : Reaches (inBlock c ts margin outer true) _ := reaches_behindKey isKey stands gap inside moved
  have further : margin ≤ (column + word.length : Nat) := by omega
  have whole := key.trans (reaches_colon moved gap further fresh)
  have place : c.column = column := stands.column
  rw [atColonOf_key, place] at whole
  exact ⟨_, (moved.next (by decide)).1, whole⟩

end

end Lexer

end MusicScore.Yaml
