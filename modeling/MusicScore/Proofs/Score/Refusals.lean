import Mathlib
import MusicScore.Proofs.Midi.Tempo
import MusicScore.Proofs.Score.Notes
import MusicScore.Proofs.Workspace.Reachable

/-!
# Scores that cannot be written

A score that cannot be written is refused for the number of its parts, for a name, for the tempo, for an event
that is shorter than one tick, or for a distance. The timeline of the score looks for the first and the fourth
of these and for no other, and may stop before an event that is too short, at one that starts too late for
binary64. So it shares a refusal exactly where the cause is one that it looks for and comes to.
-/
namespace MusicScore

open Midi

namespace EncodingFault

/-- Timelines do not look for the cause: it is a name, the tempo or a distance. -/
def IsOverlooked : EncodingFault → Prop
  | trackName _ | tempo _ | quantity _ => True
  | _ => False

end EncodingFault

namespace Score

variable {s : Score} {options : Options} {part : Part} {index : Nat} {fault : Fault} {cause : EncodingFault}

/-! ## What a file is refused for -/

/-- A name is refused for its characters, or because it is no text. -/
theorem nameMessages_error {name : Datum} (refused : nameMessages options name = .error fault) :
    (∃ text, fault = .encoding (.trackName text)) ∨ (∀ text, name ≠ .text text) ∧ fault = .noSuchMember := by
  unfold nameMessages at refused
  split at refused
  · rcases Outcome.bind_eq_error.mp refused with named | ⟨_, _, never⟩
    · cases name with
      | text text =>
        simp only [Message.ofGivenName, Message.ofName] at named
        split at named
        · cases named
        · cases named
          exact .inl ⟨text, rfl⟩
      | _ =>
        cases named
        exact .inr ⟨by simp, rfl⟩
    · cases never
  · cases refused

/-- A name is refused by a failure of the encoding only for its characters. -/
theorem nameMessages_refused {name : Datum} (refused : nameMessages options name = .error (.encoding cause)) :
    cause.IsOverlooked := by
  rcases nameMessages_error refused with ⟨text, same⟩ | ⟨_, never⟩
  · cases same
    trivial
  · cases never

/-- Two numbers are refused for one of them. -/
theorem ofRatio_error {numerator denominator : Int} (refused : Message.ofRatio numerator denominator = .error fault) :
    fault = .range .denominator ∨ ∃ low high, fault = .range (.metaField low high) := by
  unfold Message.ofRatio at refused
  dsimp only at refused
  repeat' split at refused
  all_goals cases refused
  all_goals simp

/-- A meter is refused for one of its numbers, or because it has none. -/
theorem ofMeter_error {meter : Datum} (refused : Message.ofMeter meter = .error fault) :
    fault = .noSuchMember ∨ fault = .range .denominator ∨ ∃ low high, fault = .range (.metaField low high) := by
  rcases Outcome.bind_eq_error.mp refused with known | ⟨_, _, limits⟩
  · cases meter with
    | number n =>
      simp only [Metadata.ratioOf] at known
      split at known
      · cases known
      · exact .inl (Except.error.inj known).symm
    | timeSignature t => cases known
    | _ => exact .inl (Except.error.inj known).symm
  · exact .inr (ofRatio_error limits)

/-- A meter that cannot be written is no failure of the encoding. -/
theorem ofMeter_not_encoding {meter : Datum} : Message.ofMeter meter ≠ .error (.encoding cause) := by
  intro refused
  rcases ofMeter_error refused with same | same | ⟨_, _, same⟩ <;> cases same

/-- What is known of a score is refused for the meter. -/
theorem metadataMessages_eq_error :
    s.metadataMessages = .error fault ↔ ∃ m, s.metadata = some m ∧ Message.ofMeter m.meter = .error fault := by
  unfold metadataMessages
  cases s.metadata with
  | none => simp
  | some m => simp [Message.ofMetadata, Outcome.bind_eq_error, pure, Except.pure]

/-- What is known of a score is no cause for a failure of the encoding. -/
theorem metadataMessages_not_encoding : s.metadataMessages ≠ .error (.encoding cause) := by
  intro refused
  obtain ⟨_, _, meter⟩ := metadataMessages_eq_error.mp refused
  exact ofMeter_not_encoding meter

/-- The messages about the whole score are refused for the title or for the tempo. -/
theorem generalMessages_refused (refused : generalMessages s options = .error (.encoding cause)) :
    cause.IsOverlooked := by
  rcases generalMessages_eq_error.mp refused with title | ⟨_, timed | ⟨_, known⟩⟩
  · exact nameMessages_refused title
  · cases (ofTempo_eq_error.mp timed).2
    trivial
  · exact absurd known metadataMessages_not_encoding

/-- The opening of a track is refused for a name or for the tempo. -/
theorem openingMessages_refused (refused : openingMessages s options part index = .error (.encoding cause)) :
    cause.IsOverlooked := by
  rcases openingMessages_refusal refused with general | own
  · exact generalMessages_refused general
  · exact nameMessages_refused own

/-- A track is refused for its opening, or else for the first of its events that is too short, or else for a
distance. -/
theorem trackOf_error (highest : index ≤ 15) (refused : trackOf s options part index = .error fault) :
    openingMessages s options part index = .error fault ∨
      (∃ opening, openingMessages s options part index = .ok opening) ∧
        ((∃ done r rest, part.timeline = done ++ r :: rest ∧ (∀ d ∈ done, ¬ d.TooShort options.ticksPerQuarter) ∧
            r.TooShort options.ticksPerQuarter ∧ fault = .encoding (r.shortness options.ticksPerQuarter)) ∨
          ∃ distance, fault = .encoding (.quantity (wholeText distance))) := by
  rcases Outcome.bind_eq_error.mp refused with opening | ⟨opening, opened, remaining⟩
  · exact .inl opening
  · refine .inr ⟨⟨opening, opened⟩, ?_⟩
    rcases Outcome.bind_eq_error.mp remaining with event | ⟨strokes, played, gap⟩
    · exact .inl (Stroke.ofTimeline_eq_error.mp event)
    · obtain ⟨_, rfl⟩ := Stroke.ofTimeline_eq_ok.mp played
      have fits : ∀ x ∈ part.strokes options.ticksPerQuarter, x.FitsData :=
        fun x member => Part.fitsData_of_mem_strokes member
      have greatest : (part.instrument.program : Nat) ≤ 127 := Nat.le_of_lt_succ part.instrument.program.isLt
      exact .inr (Track.ofStrokes_eq_error fits highest greatest gap)

/-- A failure of the encoding of a track is one of its opening or of a distance, or else, if it has its opening,
of the first of its events that is too short. -/
theorem trackOf_refused (highest : index ≤ 15)
    (refused : trackOf s options part index = .error (.encoding cause)) :
    cause.IsOverlooked ∨ (∃ opening, openingMessages s options part index = .ok opening) ∧
      ∃ done r rest, part.timeline = done ++ r :: rest ∧ (∀ d ∈ done, ¬ d.TooShort options.ticksPerQuarter) ∧
        r.TooShort options.ticksPerQuarter ∧ cause = r.shortness options.ticksPerQuarter := by
  rcases trackOf_error highest refused with
    opening | ⟨opened, ⟨done, r, rest, split, earlier, short, same⟩ | ⟨_, same⟩⟩
  · exact .inl (openingMessages_refused opening)
  · exact .inr ⟨opened, done, r, rest, split, earlier, short, Fault.encoding.inj same⟩
  · cases same
    exact .inl trivial

/-- A chunk with a name of four bytes is no failure of the encoding. -/
theorem encode_not_encoding {name content : List UInt8} (four : name.length = 4) :
    Chunk.encode name content ≠ .error (.encoding cause) := by
  unfold Chunk.encode
  rw [if_neg (Decidable.not_not.mpr four)]
  split <;> simp

/-- A number that does not fit in two bytes is no failure of the encoding. -/
theorem twoBytes_not_encoding {n : Int} : Chunk.twoBytes n ≠ .error (.encoding cause) := by
  unfold Chunk.twoBytes
  split <;> simp

/-- The bytes of a file are refused for a distance. -/
theorem bytes_refused {file : File} (refused : file.bytes = .error (.encoding cause)) : cause.IsOverlooked := by
  rcases Outcome.bind_eq_error.mp refused with header | ⟨_, _, remaining⟩
  · rcases Outcome.bind_eq_error.mp header with format | ⟨_, _, remaining⟩
    · exact absurd format twoBytes_not_encoding
    · rcases Outcome.bind_eq_error.mp remaining with count | ⟨_, _, remaining⟩
      · exact absurd count twoBytes_not_encoding
      · rcases Outcome.bind_eq_error.mp remaining with division | ⟨_, _, chunk⟩
        · exact absurd division twoBytes_not_encoding
        · exact absurd chunk (encode_not_encoding rfl)
  · rcases Outcome.bind_eq_error.mp remaining with chunks | ⟨_, _, never⟩
    · obtain ⟨_, track, _, _, _, chunk⟩ := Outcome.mapM_eq_error.mp chunks
      rcases Outcome.bind_eq_error.mp chunk with body | ⟨_, _, encoded⟩
      · rcases Outcome.bind_eq_error.mp body with messages | ⟨_, _, never⟩
        · obtain ⟨_, t, _, _, _, message⟩ := Outcome.mapM_eq_error.mp messages
          rcases Outcome.bind_eq_error.mp message with distance | ⟨_, _, never⟩
          · unfold Quantity.encode at distance
            split at distance
            · cases distance
            · cases distance
              trivial
          · cases never
        · cases never
      · exact absurd encoded (encode_not_encoding rfl)
    · cases never

/-! ## What the timeline shares -/

/-- The numbers that a time signature message can hold have texts. -/
theorem wholeText_shown {n : Int} (small : n.natAbs ≤ Nat.pow 2 255) : ∃ text, wholeText n = .text text := by
  have smaller : 2 ^ 255 < 10 ^ 255 := Nat.pow_lt_pow_left (by decide) (by decide)
  have larger : 10 ^ 255 ≤ Text.digitLimit := Text.pow_le_digitLimit (by decide)
  have limit : 2 ^ 255 < Text.digitLimit := Nat.lt_of_lt_of_le smaller larger
  unfold wholeText
  rw [if_pos (Nat.lt_of_le_of_lt small limit)]
  exact ⟨_, rfl⟩

/-- A meter that has a message has a text. -/
theorem plain_of_ofMeter {meter : Datum} {m : Message} (done : Message.ofMeter meter = .ok m) :
    ∃ text, meter.plain = .text text := by
  obtain ⟨⟨numerator, denominator⟩, known, remaining⟩ := Outcome.bind_eq_ok.mp done
  obtain ⟨low, above, positive, below, _⟩ := ofRatio_eq_ok remaining
  change denominator ≤ (Nat.pow 2 255 : Nat) at below
  have room : 255 ≤ Nat.pow 2 255 := by decide
  obtain ⟨first, numeratorText⟩ := wholeText_shown (n := numerator) (by omega)
  obtain ⟨second, denominatorText⟩ := wholeText_shown (n := denominator) (by omega)
  cases meter with
  | timeSignature t =>
    cases known
    refine ⟨first ++ "/" ++ second, ?_⟩
    simp only [Datum.plain, TimeSignature.name, numeratorText, denominatorText]
    rfl
  | number n =>
    cases n with
    | truth b => exact ⟨_, rfl⟩
    | whole n =>
      cases known
      rw [Rat.num_intCast] at numeratorText
      exact ⟨first, numeratorText⟩
    | ratio q =>
      cases known
      by_cases whole : q.den = 1
      · exact ⟨first, by simp [Datum.plain, Number.text, fractionText, whole, numeratorText]⟩
      · refine ⟨first ++ "/" ++ second, ?_⟩
        simp only [Datum.plain, Number.text, fractionText, whole, if_false, numeratorText, denominatorText]
        rfl
    | float x => cases known
  | _ => cases known

/-- A score whose first track has its opening has a text for its meter. -/
theorem meterText_of_opening {opening : List Message} (opened : openingMessages s options part 0 = .ok opening) :
    ∃ meter, s.meterText = .ok meter := by
  obtain ⟨_, _, shared, _⟩ := openingMessages_eq_ok.mp opened
  obtain ⟨_, _, _, _, _, known, _⟩ := generalMessages_eq_ok.mp (show generalMessages s options = .ok _ from shared)
  unfold metadataMessages at known
  unfold meterText
  cases given : s.metadata with
  | none => exact ⟨"", rfl⟩
  | some m =>
    rw [given] at known
    obtain ⟨_, counted, _⟩ := Outcome.bind_eq_ok.mp known
    obtain ⟨text, shown⟩ := plain_of_ofMeter counted
    exact ⟨text, by simp [shown, Shown.read]⟩

/-- A part that has its track has its opening, and none of its events is too short. -/
theorem long_of_trackOf {track : Track} (done : trackOf s options part index = .ok track) :
    (∃ opening, openingMessages s options part index = .ok opening) ∧
      ∀ r ∈ part.timeline, ¬ r.TooShort options.ticksPerQuarter := by
  obtain ⟨opening, opened, remaining⟩ := Outcome.bind_eq_ok.mp done
  obtain ⟨_, played, _⟩ := Outcome.bind_eq_ok.mp remaining
  exact ⟨⟨opening, opened⟩, (Stroke.ofTimeline_eq_ok.mp played).1⟩

/-- The cause for which a score cannot be written is one that timelines do not look for, or the number of
parts, or the first event of the score that is too short; the meter of the score has a text then. -/
theorem toBytes_refused (refused : s.toBytes options = .error (.encoding cause)) :
    checkPartCount s = .error (.encoding cause) ∨ checkPartCount s = .ok () ∧
      (cause.IsOverlooked ∨ (∃ meter, s.meterText = .ok meter) ∧
        ∃ done r rest, s.events = done ++ r :: rest ∧ (∀ d ∈ done, ¬ d.TooShort options.ticksPerQuarter) ∧
          r.TooShort options.ticksPerQuarter ∧ cause = r.shortness options.ticksPerQuarter) := by
  rcases Outcome.bind_eq_error.mp refused with file | ⟨_, file, bytes⟩
  · rcases Outcome.bind_eq_error.mp file with count | ⟨_, counted, remaining⟩
    · exact .inl count
    · refine .inr ⟨counted, ?_⟩
      rcases Outcome.guard_eq_error.mp remaining with ⟨_, never⟩ | ⟨_, remaining⟩
      · cases never
      · rcases Outcome.bind_eq_error.mp remaining with tracks | ⟨_, _, never⟩
        · obtain ⟨before, part, after, parts, earlier, own⟩ := Outcome.mapM_zipIdx_eq_error tracks
          have found : s.parts[before.length]? = some part := by simp [parts]
          have highest := channel_le counted found
          rcases trackOf_refused highest own with overlooked | ⟨opened, done, r, rest, timeline, long, short, same⟩
          · exact .inl overlooked
          · obtain ⟨all, remaining, split, each⟩ := events_split parts timeline
              (fun index other found => by
                obtain ⟨_, made⟩ := earlier index other found
                exact (long_of_trackOf made).2)
              long
            obtain ⟨other, opening, firstOpened⟩ : ∃ other opening,
                openingMessages s options other 0 = .ok opening := by
              cases before with
              | nil => exact ⟨part, opened⟩
              | cons first _ =>
                obtain ⟨_, made⟩ := earlier 0 first rfl
                exact ⟨first, (long_of_trackOf made).1⟩
            exact .inr ⟨meterText_of_opening firstOpened, all, r, remaining, split, each, short, same⟩
        · cases never
  · exact .inr ⟨(toFile_eq_ok.mp file).1, .inl (bytes_refused bytes)⟩

end Score

/-! ## Messages -/

/-- The letter in front of the mark at the end of a text. -/
def lastLetter? (text : String) : Option Char := text.toList.reverse[1]?

/-- The last letter of a text is that of its second part, if this has a letter. -/
theorem lastLetter?_append {back : String} (front : String) (long : 2 ≤ back.length) :
    lastLetter? (front ++ back) = lastLetter? back := by
  have within : 1 < back.toList.reverse.length := by
    rw [List.length_reverse, String.length_toList]
    omega
  unfold lastLetter?
  rw [String.toList_append, List.reverse_append, List.getElem?_append_left within]

/-- What is shown in front of a text has a text if the whole has. -/
theorem Shown.append_text_eq {front : Shown} {back whole : String} (shown : front ++ (back : Shown) = .text whole) :
    ∃ first, whole = first ++ back := by
  cases front with
  | text first =>
    cases shown
    exact ⟨first, rfl⟩
  | lost => cases shown

namespace EncodingFault

variable {cause : EncodingFault} {message : String}

/-- The message of an event that is too short ends on *quarter*. -/
theorem lastLetter?_belowOneTick {event start resolution : Shown}
    (shown : (belowOneTick event start resolution).message = .text message) : lastLetter? message = some 'r' := by
  obtain ⟨front, rfl⟩ := Shown.append_text_eq shown
  rw [lastLetter?_append front (by decide)]
  decide

/-- The message of a cause that timelines do not look for ends on another letter. -/
theorem IsOverlooked.lastLetter?_ne (overlooked : cause.IsOverlooked) (shown : cause.message = .text message) :
    lastLetter? message ≠ some 'r' := by
  cases cause with
  | trackName name =>
    have ends : message = "Track name " ++ Text.quote name ++ " is not representable in Latin-1." :=
      (Shown.text.inj shown).symm
    rw [ends, lastLetter?_append _ (by decide)]
    decide
  | tempo bpm =>
    obtain ⟨front, rfl⟩ := Shown.append_text_eq shown
    rw [lastLetter?_append front (by decide)]
    decide
  | quantity value =>
    obtain ⟨front, rfl⟩ := Shown.append_text_eq shown
    rw [lastLetter?_append front (by decide)]
    decide
  | unknownEvent _ | noParts _ | tooManyParts _ | dataByte _ _ | belowOneTick _ _ _ | chunkName _ =>
    exact False.elim overlooked

end EncodingFault

namespace Score

variable {s : Score} {options : Options} {cause : EncodingFault}

/-- The timeline of a score is refused for the cause as well: for the number of parts in any case, and for an
event that is too short if no event before the first such one is too late. -/
def SharesRefusal (s : Score) (options : Options) : EncodingFault → Prop
  | .noParts _ | .tooManyParts _ => True
  | .belowOneTick _ _ _ =>
    ∀ r ∈ s.events.takeWhile (fun r => !decide (r.TooShort options.ticksPerQuarter)), ¬ r.TooLate
  | _ => False

/-- The number of parts is refused as the number of parts. -/
theorem sharesRefusal_of_count (count : checkPartCount s = .error (.encoding cause)) :
    s.SharesRefusal options cause := by
  unfold checkPartCount at count
  split at count
  · cases count
    trivial
  · split at count
    · cases count
      trivial
    · cases count

/-- No cause that timelines do not look for is shared. -/
theorem not_sharesRefusal_of_overlooked (overlooked : cause.IsOverlooked) : ¬ s.SharesRefusal options cause := by
  cases cause with
  | trackName _ | tempo _ | quantity _ => exact id
  | unknownEvent _ | noParts _ | tooManyParts _ | dataByte _ _ | belowOneTick _ _ _ | chunkName _ =>
    exact False.elim overlooked

/-- The encoding fault of the timeline of a score that can be counted is that of its first event that is too
short, and no event before it is too late. -/
theorem toTimeline_refused (counted : checkPartCount s = .ok ())
    (refused : s.toTimeline options = .error (.encoding cause)) :
    ∃ done r rest, s.events = done ++ r :: rest ∧
      (∀ d ∈ done, ¬ d.TooShort options.ticksPerQuarter ∧ ¬ d.TooLate) ∧
        r.TooShort options.ticksPerQuarter ∧ cause = r.shortness options.ticksPerQuarter := by
  rcases toTimeline_eq_error.mp refused with count | ⟨_, meter | ⟨_, event⟩⟩
  · rw [counted] at count
    cases count
  · unfold meterText at meter
    split at meter
    · unfold Shown.read at meter
      split at meter <;> cases meter
    · cases meter
  · obtain ⟨done, r, rest, split, earlier, _, own⟩ := mapM_notesOfPart_eq_error event
    rcases notesOfEvent_eq_error.mp own with ⟨short, same⟩ | ⟨_, never⟩
    · exact ⟨done, r, rest, split, earlier, short, Fault.encoding.inj same⟩
    · cases never

/-- Among events of which the first that is too short comes after `done`, those before it are `done`. -/
theorem takeWhile_long {resolution : Int} {r : Resolved} {done rest : List Resolved}
    (long : ∀ d ∈ done, ¬ d.TooShort resolution) (short : r.TooShort resolution) :
    (done ++ r :: rest).takeWhile (fun d => !decide (d.TooShort resolution)) = done := by
  rw [List.takeWhile_append_of_pos (by simpa using long), List.takeWhile_cons_of_neg (by simp [short]),
    List.append_nil]

/-- The notes of a score are refused for its first event that is too short, if no event before it is too
late. -/
theorem mapM_notesOfPart_of_short {done rest : List Resolved} {r : Resolved}
    (split : s.events = done ++ r :: rest)
    (possible : ∀ d ∈ done, ¬ d.TooShort options.ticksPerQuarter ∧ ¬ d.TooLate)
    (short : r.TooShort options.ticksPerQuarter) :
    (s.parts.zipIdx.mapM fun (part, index) => notesOfPart options part index) =
      .error (.encoding (r.shortness options.ticksPerQuarter)) := by
  have front : s.events.takeWhile (fun d => !decide (d.TooShort options.ticksPerQuarter)) = done :=
    split ▸ takeWhile_long (fun d member => (possible d member).1) short
  cases outcome : s.parts.zipIdx.mapM fun (part, index) => notesOfPart options part index with
  | ok lists =>
    have member : r ∈ s.events := by simp [split]
    exact absurd short ((mapM_notesOfPart_eq_ok.mp outcome).1 r member).1
  | error fault =>
    obtain ⟨before, first, after, splitToo, earlier, _, own⟩ := mapM_notesOfPart_eq_error outcome
    rcases notesOfEvent_eq_error.mp own with ⟨tooShort, rfl⟩ | ⟨⟨firstLong, late⟩, _⟩
    · have same : before = done := by
        rw [← front, splitToo, takeWhile_long (fun d member => (earlier d member).1) tooShort]
      rw [splitToo, same] at split
      obtain ⟨rfl, _⟩ := List.cons.inj (List.append_cancel_left split)
      rfl
    · have inside : first ∈ done := by
        rw [← front, splitToo, List.takeWhile_append_of_pos (by simpa using fun d member => (earlier d member).1),
          List.takeWhile_cons_of_pos (by simp [firstLong])]
        simp
      exact absurd late (possible first inside).2

/-- A score that cannot be written has its timeline refused with the same message exactly when the timeline
shares the cause. -/
theorem toTimeline_refused_alike {message : String}
    (refused : s.toBytes options = .error (.encoding cause)) (shown : cause.message = .text message) :
    (∃ other, s.toTimeline options = .error (.encoding other) ∧ other.message = .text message) ↔
      s.SharesRefusal options cause := by
  rcases toBytes_refused refused with count | ⟨counted, overlooked | ⟨⟨meter, known⟩, done, r, rest, split, long,
    short, rfl⟩⟩
  · have shared : s.SharesRefusal options cause := sharesRefusal_of_count count
    exact iff_of_true ⟨cause, toTimeline_eq_error.mpr (.inl count), shown⟩ shared
  · refine iff_of_false ?_ (not_sharesRefusal_of_overlooked overlooked)
    rintro ⟨other, refusedToo, same⟩
    obtain ⟨_, _, _, _, _, _, rfl⟩ := toTimeline_refused counted refusedToo
    exact overlooked.lastLetter?_ne shown (EncodingFault.lastLetter?_belowOneTick same)
  · change _ ↔ ∀ d ∈ s.events.takeWhile (fun d => !decide (d.TooShort options.ticksPerQuarter)), ¬ d.TooLate
    rw [split, takeWhile_long long short]
    constructor
    · rintro ⟨other, refusedToo, _⟩
      obtain ⟨before, first, after, splitToo, possible, tooShort, _⟩ := toTimeline_refused counted refusedToo
      have same : before = done := by
        rw [← takeWhile_long (fun d member => (possible d member).1) tooShort, ← splitToo, split,
          takeWhile_long long short]
      exact fun d member => (possible d (same ▸ member)).2
    · intro timely
      have possible : ∀ d ∈ done, ¬ d.TooShort options.ticksPerQuarter ∧ ¬ d.TooLate :=
        fun d member => ⟨long d member, timely d member⟩
      have notes := mapM_notesOfPart_of_short split possible short
      exact ⟨_, toTimeline_eq_error.mpr (.inr ⟨counted, .inr ⟨⟨meter, known⟩, notes⟩⟩), shown⟩

/-- A score with one note, at one beat in a minute. -/
def slow : Workspace := .solo "Slow" 1 [.event (Workspace.middleC TimeSignature.common.beatUnit)]

/-- The slow score cannot be written, and its timeline is not refused for that. -/
theorem slow_not_refused_alike :
    (slow.score ⟨0⟩).toBytes .standard = .error (.encoding (.tempo 1)) ∧
      ¬ ∃ other, (slow.score ⟨0⟩).toTimeline .standard = .error (.encoding other) ∧
        other.message = .text "Tempo 1 BPM does not fit the tempo meta-event." := by
  have counted : checkPartCount (slow.score ⟨0⟩) = .ok () := by cbv
  have announced : (announcement (slow.score ⟨0⟩)).isShown = true := by decide +kernel
  have alone : (slow.score ⟨0⟩).parts = [slow.part ⟨1⟩] := by cbv
  have opening : openingMessages (slow.score ⟨0⟩) .standard (slow.part ⟨1⟩) 0 =
      .error (.encoding (.tempo 1)) := by cbv
  have track : trackOf (slow.score ⟨0⟩) .standard (slow.part ⟨1⟩) 0 = .error (.encoding (.tempo 1)) :=
    Outcome.bind_eq_error.mpr (.inl opening)
  have tracks : ((slow.score ⟨0⟩).parts.zipIdx.mapM fun (part, index) =>
      trackOf (slow.score ⟨0⟩) .standard part index) = .error (.encoding (.tempo 1)) := by
    rw [alone]
    exact Outcome.mapM_eq_error.mpr ⟨[], _, [], rfl, by simp, track⟩
  have refused : (slow.score ⟨0⟩).toBytes .standard = .error (.encoding (.tempo 1)) := by
    refine Outcome.bind_eq_error.mpr (.inl (Outcome.bind_eq_error.mpr (.inr ⟨(), counted, ?_⟩)))
    refine Outcome.guard_eq_error.mpr (.inr ⟨by simp [announced], ?_⟩)
    exact Outcome.bind_eq_error.mpr (.inl tracks)
  have shown : EncodingFault.message (.tempo 1) = .text "Tempo 1 BPM does not fit the tempo meta-event." := by
    decide +kernel
  exact ⟨refused, fun alike => (toTimeline_refused_alike refused shown).mp alike⟩

end Score

end MusicScore
