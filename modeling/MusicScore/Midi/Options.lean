import MusicScore.Datum.Basic
import MusicScore.Midi.Ticks
import MusicScore.Number.Double.Reading

/-!
# Export options

Two settings shape a file without a change to the music: the ticks in a quarter note, which have to fit
in fifteen bits, and whether titles and names are written. A setting is taken in any form that can only
mean one value: a resolution as a whole number, as a number without a fractional part or as the text of
one, and a choice as a truth value, as zero or one, or as a word for yes or no. All settings are looked
at, and every one that is refused is named.
-/
namespace MusicScore.Midi

/-- The settings of an export. -/
structure Options where
  ticksPerQuarter : Int
  includeTrackNames : Bool
  inRange : 0 < ticksPerQuarter ∧ ticksPerQuarter ≤ 32767
  deriving DecidableEq

namespace Options

open MusicScore.Text

/-- The settings where nothing else is said. -/
def standard : Options := ⟨standardResolution, true, by decide⟩

/-- Why the value of a setting is refused: the rule, and the rule in words. -/
structure Refusal where
  rule : String
  words : String

namespace Refusal

/-- The refusal of a setting with a given name. -/
def fault (r : Refusal) (field : String) : OptionFault := ⟨field, r.rule, r.words⟩

/-- The value is of a kind that cannot mean a whole number. -/
def wholeKind : Refusal := ⟨"int_type", "Input should be a valid integer"⟩

/-- The text is not that of a whole number. -/
def wholeText : Refusal :=
  ⟨"int_parsing", "Input should be a valid integer, unable to parse string as an integer"⟩

/-- The number is too large to be looked at. -/
def wholeSize : Refusal :=
  ⟨"int_parsing_size", "Unable to parse input string as an integer, exceeded maximum size"⟩

/-- The number has a fractional part. -/
def fractional : Refusal :=
  ⟨"int_from_float", "Input should be a valid integer, got a number with a fractional part"⟩

/-- The number is infinite or not a number. -/
def unbounded : Refusal := ⟨"finite_number", "Input should be a finite number"⟩

/-- The number is zero or below. -/
def tooSmall : Refusal := ⟨"greater_than", "Input should be greater than 0"⟩

/-- The number does not fit in fifteen bits. -/
def tooLarge : Refusal := ⟨"less_than_equal", "Input should be less than or equal to 32767"⟩

/-- The value is of a kind that cannot mean a choice. -/
def choiceKind : Refusal := ⟨"bool_type", "Input should be a valid boolean"⟩

/-- The value could mean a choice and does not. -/
def choiceText : Refusal :=
  ⟨"bool_parsing", "Input should be a valid boolean, unable to interpret input"⟩

end Refusal

/-- The text without blanks around it. -/
def withoutMargins (s : List Char) : List Char :=
  ((s.dropWhile IntegerText.isMargin).reverse.dropWhile IntegerText.isMargin).reverse

/-- The text before a fractional part that consists of zeros, at least one. -/
def withoutZeroFraction (s : List Char) : List Char :=
  match s.dropWhile (· ≠ '.') with
  | _ :: first :: rest => if (first :: rest).all (· = '0') then s.takeWhile (· ≠ '.') else s
  | _ => s

/-- A whole number in text: decimal digits of ASCII with a sign, single underscores between digits, a
fractional part of zeros, and blanks around it. -/
def wholeOfText (s : String) : Except Refusal Int :=
  let (negative, body) := IntegerText.takeSign (withoutZeroFraction (withoutMargins s.toList))
  if body.all fun c => Double.isAsciiDigit c || c = '_' then
    match IntegerText.digitGroup? body with
    | some (digits, []) =>
      if digits.length ≤ maxDigits then .ok (IntegerText.signed negative (ofDigits digits))
      else .error .wholeSize
    | _ => .error .wholeText
  else .error .wholeText

/-- The least power of two that is too large for a whole number in binary64 form. -/
def wholeLimit : Rat := (Nat.pow 2 63 : Rat)

/-- A whole number in binary64 form. -/
def wholeOfDouble (x : Double) : Except Refusal Int :=
  match x.toRat? with
  | none => .error .unbounded
  | some q =>
    if q.den ≠ 1 then .error .fractional
    else if -wholeLimit < q ∧ q < wholeLimit then .ok q.num
    else .error .wholeSize

/-- A whole number in any form that can only mean one. -/
def wholeOf : Datum → Except Refusal Int
  | .number (.truth b) => .ok (if b then 1 else 0)
  | .number (.whole n) => .ok n.value
  | .number (.ratio q) => if q.den = 1 then .ok q.num else .error .fractional
  | .number (.float x) => wholeOfDouble x
  | .text s => wholeOfText s
  | _ => .error .wholeKind

/-- A resolution in ticks for each quarter note. -/
def resolutionOf (value : Datum) : Except Refusal { n : Int // 0 < n ∧ n ≤ 32767 } := do
  let n ← wholeOf value
  if positive : 0 < n then
    if small : n ≤ 32767 then return ⟨n, positive, small⟩ else .error .tooLarge
  else .error .tooSmall

/-- The words for *no*, in small letters. -/
def noWords : List String := ["0", "off", "f", "false", "n", "no"]

/-- The words for *yes*, in small letters. -/
def yesWords : List String := ["1", "on", "t", "true", "y", "yes"]

/-- A choice in the form of a whole number. -/
def choiceOfWhole (n : Int) : Except Refusal Bool :=
  if n = 0 then .ok false else if n = 1 then .ok true else .error .choiceText

/-- A choice in any form that can only mean one. -/
def choiceOf : Datum → Except Refusal Bool
  | .number (.truth b) => .ok b
  | .number (.whole n) =>
    if fitsWord n.value then choiceOfWhole n.value else .error .choiceKind
  | .number n =>
    match n.toDouble?.map wholeOfDouble with
    | some (.ok whole) => choiceOfWhole whole
    | _ => .error .choiceKind
  | .text s =>
    let word := s.map Char.toLower
    if noWords.contains word then .ok false
    else if yesWords.contains word then .ok true
    else .error .choiceText
  | _ => .error .choiceKind

/-- The settings with these values; the standard ones where a setting is missing. Values that are not
those of a setting are passed over. -/
def ofFields (fields : List (String × Datum)) : Except Fault Options :=
  let resolution := (fields.lookup "ticks_per_quarter").map resolutionOf
  let choice := (fields.lookup "include_track_names").map choiceOf
  let resolution := resolution.getD (.ok ⟨standard.ticksPerQuarter, standard.inRange⟩)
  let choice := choice.getD (.ok standard.includeTrackNames)
  match resolution, choice with
  | .ok n, .ok b => .ok ⟨n.1, b, n.2⟩
  | .error r, .ok _ => .error (.options [r.fault "ticks_per_quarter"])
  | .ok _, .error c => .error (.options [c.fault "include_track_names"])
  | .error r, .error c =>
    .error (.options [r.fault "ticks_per_quarter", c.fault "include_track_names"])

end Options

end MusicScore.Midi
