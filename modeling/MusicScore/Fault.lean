import MusicScore.FileTree
import MusicScore.Moment
import MusicScore.Number.FractionText
import MusicScore.Text.Template

/-!
# Faults

Everything that can go wrong has a cause, and a cause has at most one text. A value is refused where it
is first given, a placement where it is asked for, and a score that cannot be written when it is
written. Nothing is clamped and nothing is tried again. A value that is quoted in a text is kept as it
was shown. A fault whose text is lost is reported as that of a number that has no text.
-/
namespace MusicScore

/-- A value outside the domain of what it is given for. -/
inductive ValueFault where
  | pitch (shown : Shown)
  | pitchName (name : String)
  | dynamic (shown : Shown)
  | duration (shown : Shown)
  | tempo (shown : Shown)
  | timeSignature (shown : Shown)
  | keySignature (shown : Shown)
  | mode (quoted : Shown)
  | instrument (shown : Shown)
  | emptyChord
  | duplicatePitch (name : Shown)
  | scaleTotal (shown : Shown)
  deriving DecidableEq

/-- A placement with a negative or undefined start. -/
inductive PlacementFault where
  | lateOffset (offset : Rat)
  | beforePhrase (start : Rat)
  | beforePrevious (start previous : Rat)
  | advance (duration given : Rat)
  | phraseStart (start : Rat)
  deriving DecidableEq

/-- A score that has no form in the file format. -/
inductive EncodingFault where
  | unknownEvent (kind : String)
  | noParts (title : Shown)
  | tooManyParts (count : Nat)
  | dataByte (field : String) (shown : Shown)
  | tempo (bpm : Int)
  | trackName (name : String)
  | belowOneTick (event start ticksPerQuarter : Shown)
  | quantity (shown : Shown)
  | chunkName (bytes : List UInt8)
  deriving DecidableEq

/-- A destination that failed: it raised a fault of its own, took no more bytes, took a number of bytes
that is not whole, or is a path at which no file can be written. -/
inductive SinkFault where
  | failed (kind shown : String)
  | stalled (written total : Nat)
  | inexact
  | refused (cause : Refusal) (quotedPath : String)
  deriving DecidableEq

/-- A number outside the range of what it is given for, a text that does not spell one, or a value without
the form that is asked of it. -/
inductive RangeFault where
  | channel
  | dataByte
  | metaField (low high : Nat)
  | denominator
  | noRatio
  | noInteger
  | fraction (quoted : String)
  | digits (count : Nat)
  | unwritable
  | wholeLiteral (base : Nat) (quoted : String)
  | floatLiteral (quoted : String)
  | codePoint
  | template (cause : Text.TemplateFault)
  | moment (cause : MomentFault)
  | circular
  | nullCharacter
  | pitchClass (quoted : Shown)
  | touch (quoted : Shown)
  | notePitch (shown : Shown)
  | noteVelocity (shown : Shown)
  | noteChannel (shown : Shown)
  | noteStart (shown : Shown)
  | noteDuration (shown : Shown)
  deriving DecidableEq

/-- A refused export option: which one, the rule it breaks, and the rule in words. -/
structure OptionFault where
  field : String
  rule : String
  words : String
  deriving DecidableEq

/-- What can go wrong. -/
inductive Fault where
  | value (cause : ValueFault)
  | placement (cause : PlacementFault)
  | encoding (cause : EncodingFault)
  | sink (cause : SinkFault)
  | range (cause : RangeFault)
  /-- An event was expected and something else was given. -/
  | unknownEvent (kind : String)
  /-- Export options were refused. -/
  | options (causes : List OptionFault)
  /-- A record lacks a field. -/
  | missingField (name : String)
  /-- A record has nothing under a number. -/
  | missingNumber (n : Nat)
  /-- A value of this kind has no meaning for the operation. -/
  | wrongKind
  /-- A value of this kind does not have the member that is asked for. -/
  | noSuchMember
  /-- A fraction with denominator zero. -/
  | zeroDenominator
  /-- A number is too large to be converted. -/
  | overflow
  /-- There is no item at this index. -/
  | noSuchIndex
  /-- Values, or calls, stand within one another too often. -/
  | tooDeep
  /-- A text is not JSON. -/
  | malformedJson
  /-- A document has half a character by itself, which no text of the library holds. -/
  | halfInDocument
  /-- A path has half a character for which there are no bytes. -/
  | halfInPath
  /-- A text is not YAML, or a value has no form in YAML. -/
  | yaml
  /-- A number does not fit its field in a binary header. -/
  | fieldWidth
  deriving DecidableEq

namespace ValueFault

/-- The text of a refused value. -/
def message : ValueFault → Shown
  | pitch shown => "Invalid pitch: " ++ shown ++ ". Must be an integer between 0 and 127."
  | pitchName name => s!"Invalid pitch name: '{name}'. Expected format like 'C4' or 'F#3'."
  | dynamic shown => "Invalid dynamic: " ++ shown ++ ". Must be an integer between 0 and 127."
  | duration shown =>
    "Invalid duration: " ++ shown ++ ". Must be a positive, finite number of beats."
  | tempo shown => "Invalid tempo: " ++ shown ++ ". Must be a positive integer BPM."
  | timeSignature shown => "Invalid time signature: " ++ shown ++ "."
  | keySignature shown => "Invalid key signature: " ++ shown ++ ". Must be between -7 and 7."
  | mode quoted => "Unknown mode: " ++ quoted
  | instrument shown => "Unknown instrument program: " ++ shown
  | emptyChord => "Chord must contain at least one pitch."
  | duplicatePitch name => "Chord contains duplicate pitch " ++ name ++ "."
  | scaleTotal shown => "Scale intervals must sum to 12 semitones, got " ++ shown

end ValueFault

namespace PlacementFault

/-- The text of a refused placement. -/
def message : PlacementFault → Shown
  | lateOffset offset => "Late placement offset must be <= 0, got " ++ fractionText offset ++ "."
  | beforePhrase start =>
    "Placement would start at beat " ++ fractionText start ++ ", before the phrase start."
  | beforePrevious start previous =>
    "Placement would start at beat " ++ fractionText start ++
      ", before the previous event at beat " ++ fractionText previous ++ "."
  | advance duration given =>
    "Trailing advance must be in (0, " ++ fractionText duration ++ "], got " ++
      fractionText given ++ "."
  | phraseStart start => "Phrase start beat must be >= 0, got " ++ fractionText start ++ "."

end PlacementFault

namespace EncodingFault

/-- The text of a score that cannot be written. -/
def message : EncodingFault → Shown
  | unknownEvent kind => s!"Unknown event type: {kind}."
  | noParts title => "Score '" ++ title ++ "' has no parts to encode."
  | tooManyParts count => s!"Too many parts: {count} (maximum 16)."
  | dataByte field shown => s!"{field} value " ++ shown ++ " does not fit a MIDI data byte."
  | tempo bpm => "Tempo " ++ wholeText bpm ++ " BPM does not fit the tempo meta-event."
  | trackName name => s!"Track name {Text.quote name} is not representable in Latin-1."
  | belowOneTick event start ticksPerQuarter =>
    event ++ " at beat " ++ start ++ " is shorter than one tick at " ++ ticksPerQuarter ++
      " ticks per quarter."
  | quantity shown => "Value " ++ shown ++ " cannot be encoded as a variable-length quantity."
  | chunkName bytes => s!"Chunk id must be 4 bytes, got {Text.quoteBytes bytes}."

end EncodingFault

namespace SinkFault

/-- The text of a write that failed. -/
def writeFailed (shown : String) : String := s!"Failed to write encoded score to sink: {shown}"

/-- The text of a failed destination. -/
def message : SinkFault → String
  | failed _ shown => writeFailed shown
  | inexact => writeFailed "slice indices must be integers or None or have an __index__ method"
  | refused cause quotedPath => writeFailed (cause.message quotedPath)
  | stalled written total => s!"Sink accepted no bytes after {written} of {total}."

end SinkFault

namespace RangeFault

/-- What can be done about a number of too many digits. -/
def raiseLimit : String := "; use sys.set_int_max_str_digits() to increase the limit"

/-- The text of a number outside its range. -/
def message : RangeFault → Shown
  | channel => "channel must be in range 0..15"
  | dataByte => "data byte must be in range 0..127"
  | metaField low high => s!"attribute must be in range {low}..{high}"
  | denominator => "denominator must be a power of 2"
  | noRatio => "cannot convert NaN to integer ratio"
  | noInteger => "cannot convert float NaN to integer"
  | fraction quoted => s!"Invalid literal for Fraction: {quoted}"
  | digits count =>
    "Exceeds the limit (4300 digits) for integer string conversion: " ++
      s!"value has {count} digits" ++ raiseLimit
  | unwritable => "Exceeds the limit (4300 digits) for integer string conversion" ++ raiseLimit
  | wholeLiteral base quoted => s!"invalid literal for int() with base {base}: {quoted}"
  | floatLiteral quoted => s!"could not convert string to float: {quoted}"
  | codePoint => "chr() arg not in range(0x110000)"
  | template cause => cause.message
  | moment cause => cause.message
  | circular => "Circular reference detected"
  | nullCharacter => "embedded null byte"
  | pitchClass quoted => quoted ++ " is not a valid PitchClass"
  | touch quoted => quoted ++ " is not a valid EventKind"
  | notePitch shown => "Pitch must be 0-127, got " ++ shown
  | noteVelocity shown => "Velocity must be 0-127, got " ++ shown
  | noteChannel shown => "Channel must be 0-15, got " ++ shown
  | noteStart shown => "Start ticks must be >= 0, got " ++ shown
  | noteDuration shown => "Duration ticks must be >= 0, got " ++ shown

end RangeFault

namespace OptionFault

/-- The text of one refused option. -/
def message (fault : OptionFault) : String := s!"{fault.field}: {fault.rule}: {fault.words}"

end OptionFault

namespace Fault

/-- The text of a fault, for the kinds that have one. -/
def message? : Fault → Option Shown
  | value cause => some cause.message
  | placement cause => some cause.message
  | encoding cause => some cause.message
  | sink cause => some cause.message
  | range cause => some cause.message
  | unknownEvent kind => some (EncodingFault.message (.unknownEvent kind))
  | options causes => some (.text ("; ".intercalate (causes.map OptionFault.message)))
  | missingField name => some (Text.quote name)
  | missingNumber n => some (wholeText n)
  | _ => none

/-- The fault that is reported: one whose text is lost is a number that cannot be written. -/
def reported (f : Fault) : Fault := if f.message? = some .lost then range .unwritable else f

end Fault

namespace Shown

/-- The text, which has to be there. -/
def read : Shown → Except Fault String
  | text s => .ok s
  | lost => .error (.range .unwritable)

end Shown

end MusicScore
