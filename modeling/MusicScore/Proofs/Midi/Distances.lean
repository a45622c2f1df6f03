import Mathlib.Data.List.Find
import MusicScore.Proofs.Midi.Body
import MusicScore.Proofs.Midi.Canonical
import MusicScore.Proofs.Midi.Given

/-!
# Strokes in any order

A track of strokes that are in no order is never wrong about their ticks. It is refused as soon as a stroke comes before
the one in front of it, or more than the greatest quantity after it, and otherwise the chunk is heard as the strokes.
Two checks see to this. A distance that is too large is refused while the messages are made, and one that goes back
only when it is written, so that the first of the large ones is told if there is any, and the first of those that go
back if not. The refusal is a failure of the encoding only if this distance has a text.
-/
namespace MusicScore.Midi

variable {strokes : List Stroke} {channel program : Nat} {now : Int}

/-! ## Distances -/

namespace Stroke

/-- The distances of strokes, each from the one before, and the first from the tick `now`. -/
def distances (now : Int) : List Stroke → List Int
  | [] => []
  | s :: rest => (s.tick - now) :: distances s.tick rest

/-- The distance is too large for a quantity. -/
def isFar (distance : Int) : Bool := Quantity.greatest < distance

/-- The distance goes back. -/
def isBackward (distance : Int) : Bool := distance < 0

/-- The distance that is told where distances are refused: the first that is too large, or else the first that goes
back. -/
def refused? (distances : List Int) : Option Int :=
  (distances.find? isFar).or (distances.find? isBackward)

/-- No distance is refused exactly when all of them are quantities. -/
theorem refused?_eq_none_iff {all : List Int} : refused? all = none ↔ ∀ d ∈ all, Quantity.IsQuantity d := by
  unfold refused? Quantity.IsQuantity isFar isBackward
  simp only [Option.or_eq_none_iff, List.find?_eq_none, decide_eq_true_eq, Int.not_lt, ← forall_and]
  exact forall₂_congr fun _ _ => And.comm

/-- A distance is refused exactly when one of them goes back or is too large. -/
theorem exists_refused?_iff {all : List Int} :
    (∃ d, refused? all = some d) ↔ ∃ d ∈ all, d < 0 ∨ Quantity.greatest < d := by
  rw [← Option.ne_none_iff_exists', Ne, refused?_eq_none_iff]
  unfold Quantity.IsQuantity
  push Not
  refine exists_congr fun d => and_congr_right fun _ => ?_
  omega

end Stroke

open Stroke (isFar isBackward refused?)

namespace Track

/-- Strokes whose data fit have messages unless a distance is too large, and the first such distance is told. -/
theorem strokeMessages_eq (fits : ∀ s ∈ strokes, s.FitsData) :
    strokeMessages channel now strokes =
      match (Stroke.distances now strokes).find? isFar with
      | some d => .error (.encoding (.quantity (wholeText d)))
      | none => .ok (ofHeard channel now strokes) := by
  induction strokes generalizing now with
  | nil => rfl
  | cons s rest inductionHypothesis =>
    obtain ⟨fit, others⟩ := List.forall_mem_cons.mp fits
    rw [strokeMessages, Stroke.distances, strokeMessage_eq fit, inductionHypothesis others]
    by_cases far : Quantity.greatest < s.tick - now
    · rw [List.find?_cons_of_pos (by simpa [isFar] using far), if_pos far]
      rfl
    · rw [List.find?_cons_of_neg (by simpa [isFar] using far), if_neg far]
      cases (Stroke.distances s.tick rest).find? isFar <;> rfl

/-- A track has bytes unless a distance is no quantity, and the first such distance is told. -/
theorem body_eq (track : Track) :
    track.body =
      match (track.map Timed.delta).find? fun d => ¬ Quantity.IsQuantity d with
      | some d => .error (.encoding (.quantity (wholeText d)))
      | none => .ok track.written := by
  cases found : (track.map Timed.delta).find? fun d => ¬ Quantity.IsQuantity d with
  | none =>
    refine body_eq_ok.mpr ⟨fun t member => ?_, rfl⟩
    have inRange := List.find?_eq_none.mp found t.delta (List.mem_map_of_mem member)
    rw [decide_eq_true_eq, not_not] at inRange
    exact inRange
  | some d =>
    obtain ⟨outside, before, rest, split, within⟩ := List.find?_eq_some_iff_append.mp found
    obtain ⟨done, remaining, rfl, rfl, later⟩ := List.map_eq_append_iff.mp split
    obtain ⟨t, others, rfl, rfl, rfl⟩ := List.map_eq_cons_iff.mp later
    refine Outcome.bind_eq_error.mpr (.inl (Outcome.mapM_eq_error.mpr ⟨done, t, others, rfl, ?_, ?_⟩))
    · intro earlier member
      have inRange : Quantity.IsQuantity earlier.delta := by
        simpa using within earlier.delta (List.mem_map_of_mem member)
      exact ⟨_, Outcome.bind_eq_ok.mpr ⟨_, Quantity.encode_of_isQuantity inRange, rfl⟩⟩
    · have outOfRange : ¬ Quantity.IsQuantity t.delta := by simpa using outside
      exact Outcome.bind_eq_error.mpr (.inl (Quantity.encode_of_not_isQuantity outOfRange))

/-- The distances of a track of strokes are those of the strokes, and none before and after them. -/
theorem deltas_layout :
    (layout [] channel program strokes).map Timed.delta = 0 :: Stroke.distances 0 strokes ++ [0] := by
  have played (now : Int) : (ofHeard channel now strokes).map Timed.delta = Stroke.distances now strokes := by
    induction strokes generalizing now with
    | nil => rfl
    | cons s rest inductionHypothesis => rw [ofHeard, Stroke.distances, List.map_cons, inductionHypothesis]
  simp [layout, played]

/-- Strokes with quantities for distances have distances that fit. -/
theorem gapsFit_of_onward (onward : ∀ d ∈ Stroke.distances now strokes, Quantity.IsQuantity d) :
    GapsFit now strokes := by
  induction strokes generalizing now with
  | nil => exact gapsFit_nil now
  | cons s rest inductionHypothesis =>
    obtain ⟨first, others⟩ := List.forall_mem_cons.mp onward
    exact gapsFit_cons.mpr ⟨first.2, inductionHypothesis others⟩

/-- Strokes with quantities for distances are laid out with quantities for distances. -/
theorem measurable_of_onward (onward : ∀ d ∈ Stroke.distances 0 strokes, Quantity.IsQuantity d) :
    (layout [] channel program strokes).Measurable := by
  have zero : Quantity.IsQuantity 0 := by decide
  have all : ∀ d ∈ 0 :: Stroke.distances 0 strokes ++ [0], Quantity.IsQuantity d :=
    List.forall_mem_append.mpr ⟨List.forall_mem_cons.mpr ⟨zero, onward⟩, List.forall_mem_singleton.mpr zero⟩
  intro t member
  exact all t.delta (deltas_layout ▸ List.mem_map_of_mem member)

/-- Where no distance is too large, the first that is told of a track is the first that goes back. -/
theorem find?_deltas_layout (near : (Stroke.distances 0 strokes).find? isFar = none) :
    ((layout [] channel program strokes).map Timed.delta).find? (fun d => ¬ Quantity.IsQuantity d) =
      (Stroke.distances 0 strokes).find? isBackward := by
  have told : (Stroke.distances 0 strokes).find? (fun d => ¬ Quantity.IsQuantity d) =
      (Stroke.distances 0 strokes).find? isBackward := by
    refine List.find?_congr fun d member => ?_
    have fits : d ≤ Quantity.greatest := by simpa [isFar] using List.find?_eq_none.mp near d member
    simp [Quantity.IsQuantity, isBackward, fits]
  have zero : Quantity.IsQuantity 0 := by decide
  rw [deltas_layout, List.cons_append, List.find?_cons_of_neg (by simpa using zero), List.find?_append, told]
  simp [zero]

end Track

namespace Chunk

/-- Strokes whose data fit come to the chunk of their track unless a distance is refused, and the refused distance is
told. -/
theorem ofStrokes_eq (fits : ∀ s ∈ strokes, s.FitsData) (highest : channel ≤ 15) (greatest : program ≤ 127) :
    ofStrokes (strokes.map Stroke.given) (.ofInt channel) (.ofInt program) =
      match refused? (Stroke.distances 0 strokes) with
      | some d => .error (.encoding (.quantity (wholeText d)))
      | none => encode trackName (Track.layout [] channel program strokes).written := by
  have named : Track.programMessage channel program = _ := Track.programMessage_eq highest greatest
  rw [ofStrokes_given]
  unfold Track.ofStrokes refused?
  rw [named, Int.toNat_natCast, Track.strokeMessages_eq fits]
  cases near : (Stroke.distances 0 strokes).find? isFar with
  | some d => rfl
  | none =>
    change ofTrack (Track.layout [] channel program strokes) = _
    unfold ofTrack
    rw [Track.body_eq, Track.find?_deltas_layout near, Option.none_or]
    cases (Stroke.distances 0 strokes).find? isBackward <;> rfl

/-- The bytes of the track of strokes can be counted in the four bytes of a chunk. -/
def StrokesCounted (strokes : List Stroke) (channel program : Nat) : Prop :=
  ∀ track body, Track.ofStrokes strokes channel program [] = .ok track → track.body = .ok body → body.length < 2 ^ 32

/-- Strokes with quantities for distances have a chunk, which is read back as their track. -/
theorem exists_chunk_of_onward (fits : ∀ s ∈ strokes, s.FitsData) (highest : channel ≤ 15) (greatest : program ≤ 127)
    (counted : StrokesCounted strokes channel program)
    (onward : ∀ d ∈ Stroke.distances 0 strokes, Quantity.IsQuantity d) :
    ∃ bytes, ofStrokes (strokes.map Stroke.given) (.ofInt channel) (.ofInt program) = .ok bytes ∧
      ∀ rest, readTracks 1 (bytes ++ rest) = some ([Track.layout [] channel program strokes], rest) := by
  have made : Track.ofStrokes strokes channel program [] = .ok (Track.layout [] channel program strokes) :=
    (Track.ofStrokes_eq_ok fits highest greatest).mpr ⟨Track.gapsFit_of_onward onward, rfl⟩
  have body : (Track.layout [] channel program strokes).body = .ok _ :=
    Track.body_eq_ok.mpr ⟨Track.measurable_of_onward onward, rfl⟩
  have encoded : ofTrack (Track.layout [] channel program strokes) = .ok _ :=
    Outcome.bind_eq_ok.mpr ⟨_, body, encode_eq_ok.mpr ⟨rfl, counted _ _ made body, rfl⟩⟩
  have fitting : ∀ t ∈ Track.layout [] channel program strokes, t.message.Fits :=
    Track.fits_layout (by simp) fits highest greatest
  have alone := Outcome.mapM_eq_ok.mpr (.cons encoded .nil)
  have read_back := readTracks_written (List.forall_mem_singleton.mpr fitting) alone
  rw [List.flatten_singleton] at read_back
  refine ⟨_, ?_, read_back⟩
  rw [ofStrokes_given]
  exact Outcome.bind_eq_ok.mpr ⟨_, made, encoded⟩

/-- What the chunk of strokes is to come to. If a stroke comes before the one in front of it, or too long after it, this
is a failure of the encoding, and otherwise a chunk that is read as a track which is heard as the strokes. -/
inductive Truthful (strokes : List Stroke) : Except Fault (List UInt8) → Prop where
  | refused {fault : Fault} (astray : ∃ d ∈ Stroke.distances 0 strokes, d < 0 ∨ Quantity.greatest < d)
      (encoding : fault.IsEncoding) : Truthful strokes (.error fault)
  | written {bytes : List UInt8} {track : Track}
      (onward : ∀ d ∈ Stroke.distances 0 strokes, 0 ≤ d ∧ d ≤ Quantity.greatest)
      (read_back : ∀ rest, readTracks 1 (bytes ++ rest) = some ([track], rest))
      (heard : track.heard = strokes.map Stroke.heard) : Truthful strokes (.ok bytes)

/-- The chunk of strokes in any order is truthful exactly when the refused distance, if there is one, has a text. It is
refused for such a distance and for nothing else. -/
theorem ofStrokes_truthful_iff (fits : ∀ s ∈ strokes, s.FitsData) (highest : channel ≤ 15) (greatest : program ≤ 127)
    (counted : StrokesCounted strokes channel program) :
    (Truthful strokes (ofStrokes (strokes.map Stroke.given) (.ofInt channel) (.ofInt program)) ↔
        ∀ d, refused? (Stroke.distances 0 strokes) = some d → d.natAbs < Text.digitLimit) ∧
      ∀ fault, ofStrokes (strokes.map Stroke.given) (.ofInt channel) (.ofInt program) = .error fault ↔
        ∃ d, refused? (Stroke.distances 0 strokes) = some d ∧ fault = .encoding (.quantity (wholeText d)) := by
  cases told : refused? (Stroke.distances 0 strokes) with
  | some d =>
    have refusal : ∃ other, refused? (Stroke.distances 0 strokes) = some other := ⟨d, told⟩
    rw [ofStrokes_eq fits highest greatest, told]
    refine ⟨?_, fun fault => by simp [eq_comm]⟩
    constructor
    · rintro ⟨_, encoding⟩ _ ⟨⟩
      exact Quantity.isEncoding_quantity_iff.mp encoding
    · intro shown
      exact .refused (Stroke.exists_refused?_iff.mp refusal) (Quantity.isEncoding_quantity_iff.mpr (shown d rfl))
  | none =>
    have onward := Stroke.refused?_eq_none_iff.mp told
    obtain ⟨bytes, encoded, read_back⟩ := exists_chunk_of_onward fits highest greatest counted onward
    have heard : (Track.layout [] channel program strokes).heard = _ := Track.heard_layout (by simp) fits
    rw [encoded]
    exact ⟨iff_of_true (.written onward read_back heard) (by simp), by simp⟩

/-- A key is pressed and pressed again, and is released both times. -/
def twice : List Stroke :=
  [⟨0, .press, .plain 60, 70, 0⟩, ⟨0, .press, .plain 60, 80, 1⟩, ⟨960, .release, .plain 60, 0, 0⟩,
    ⟨1920, .release, .plain 60, 0, 1⟩]

/-- A key is pressed one tick before the first, and released at a distance. -/
def held (distance : Int) : List Stroke :=
  [⟨-1, .press, .plain 60, 70, 0⟩, ⟨distance - 1, .release, .plain 60, 0, 0⟩]

/-- The chunk of a key that is pressed twice is truthful. That of a key that is held for a distance without a text is
refused for another reason than a failure of the encoding. -/
theorem endless_not_truthful :
    Truthful twice (ofStrokes (twice.map Stroke.given) (.ofInt 15) (.ofInt 127)) ∧
      ¬ Truthful (held Text.digitLimit) (ofStrokes ((held Text.digitLimit).map Stroke.given) (.ofInt 0) (.ofInt 0)) := by
  constructor
  · have fits : ∀ s ∈ twice, s.FitsData := by simp [twice, Stroke.FitsData]
    have counted : StrokesCounted twice 15 127 := by
      intro track body made written
      obtain ⟨_, rfl⟩ := (Track.ofStrokes_eq_ok fits (by decide) (by decide)).mp made
      obtain ⟨_, rfl⟩ := Track.body_eq_ok.mp written
      have bytes : (Track.layout [] 15 127 twice).written.length = 25 := by cbv
      omega
    have onward : refused? (Stroke.distances 0 twice) = none := by decide
    have truthful_iff := (ofStrokes_truthful_iff fits (by decide) (by decide) counted).1
    exact truthful_iff.mpr fun d told => by cases onward.symm.trans told
  · -- the distance is kept a variable, since the limit is never to be computed
    have fits (distance : Int) : ∀ s ∈ held distance, s.FitsData := by simp [held, Stroke.FitsData]
    have distances (distance : Int) : Stroke.distances 0 (held distance) = [-1, distance] := by
      simp [held, Stroke.distances]
    have told (distance : Int) (far : Quantity.greatest < distance) :
        refused? (Stroke.distances 0 (held distance)) = some distance := by
      have first : isFar (-1) = false := by decide
      have second : isFar distance = true := decide_eq_true far
      rw [distances, refused?, List.find?_cons_of_neg (by simp [first]), List.find?_cons_of_pos second, Option.some_or]
    have far : Quantity.greatest < Text.digitLimit := by
      have nine : 10 ^ 9 ≤ Text.digitLimit := Text.pow_le_digitLimit (by decide)
      unfold Quantity.greatest
      omega
    have counted (distance : Int) (far : Quantity.greatest < distance) : StrokesCounted (held distance) 0 0 := by
      intro track body made written
      obtain ⟨gaps, _⟩ := (Track.ofStrokes_eq_ok (fits distance) (by decide) (by decide)).mp made
      have near : distance - 1 - -1 ≤ Quantity.greatest := (Track.gapsFit_cons.mp (Track.gapsFit_cons.mp gaps).2).1
      omega
    have truthful_iff := (ofStrokes_truthful_iff (fits Text.digitLimit) (by decide) (by decide) (counted _ far)).1
    intro truthful
    have shown := truthful_iff.mp truthful _ (told _ far)
    rw [Int.natAbs_natCast] at shown
    exact Nat.lt_irrefl _ shown

end Chunk

end MusicScore.Midi
