import MusicScore.Midi.Options
import MusicScore.Midi.Stroke
import MusicScore.Proofs.Midi.Ticks
import MusicScore.Proofs.Outcome

/-!
# The strokes of a timeline

An event that sounds has two strokes for each of its pitches, and the strokes of a timeline are those of its
events one after the other. They are refused exactly when some event sounds and does not last one tick, and
the fault is that of the first such event. Putting strokes in order loses none and adds none, and leaves
their ticks in ascending order.
-/
namespace MusicScore

namespace Event

/-- The velocity at which an event is struck; zero for a rest, which is not. -/
def velocity : Event → Nat
  | note n => n.dynamic.velocity
  | chord c => c.dynamic.velocity
  | rest _ => 0

/-- A velocity is a data byte. -/
theorem velocity_le (e : Event) : e.velocity ≤ 127 := by
  cases e with
  | note n => exact n.dynamic.inRange
  | chord c => exact c.dynamic.inRange
  | rest r => exact Nat.zero_le _

/-- An event without a dynamic is a rest, and sounds no pitch. -/
theorem dynamic?_eq_none {e : Event} : e.dynamic? = none ↔ e.pitches = [] := by
  cases e with
  | note n => simp [dynamic?, pitches]
  | chord c => simp [dynamic?, pitches, c.harmony.nonempty]
  | rest r => simp [dynamic?, pitches]

/-- The dynamic of an event decides its velocity. -/
theorem velocity_of_dynamic? {e : Event} {d : Dynamic} (known : e.dynamic? = some d) :
    e.velocity = d.velocity := by
  cases e <;> cases known <;> rfl

end Event

namespace Resolved

open Midi

/-- The event sounds, and its end is not at a later tick than its start. -/
def TooShort (resolution : Int) (r : Resolved) : Prop :=
  r.event.pitches ≠ [] ∧ ticks r.finish resolution ≤ ticks r.start resolution

instance (resolution : Int) (r : Resolved) : Decidable (r.TooShort resolution) :=
  inferInstanceAs (Decidable (_ ∧ _))

/-- The cause for which an event that is too short is refused. -/
def shortness (resolution : Int) (r : Resolved) : EncodingFault :=
  .belowOneTick r.event.text (fractionText r.start) (wholeText resolution)

/-- The strokes of an event, pitch by pitch. -/
def strokes (resolution : Int) (r : Resolved) : List Stroke :=
  r.event.pitches.flatMap
    (Stroke.pair (ticks r.start resolution) (ticks r.finish resolution) r.event.velocity r.order)

end Resolved

namespace Midi.Stroke

variable {resolution : Int} {r : Resolved} {timeline : List Resolved} {strokes : List Stroke} {fault : Fault}

/-- An event that is not too short has its strokes. -/
theorem ofResolved_of_long (long : ¬ r.TooShort resolution) :
    ofResolved resolution r = .ok (r.strokes resolution) := by
  unfold ofResolved
  cases known : r.event.dynamic? with
  | none =>
    have silent : r.event.pitches = [] := Event.dynamic?_eq_none.mp known
    simp [Resolved.strokes, silent]
  | some d =>
    have sounds : r.event.pitches ≠ [] := by
      intro silent
      rw [Event.dynamic?_eq_none.mpr silent] at known
      cases known
    have later : ¬ ticks r.finish resolution ≤ ticks r.start resolution := fun short => long ⟨sounds, short⟩
    simp only [ofPitches, later, if_false, Resolved.strokes, Event.velocity_of_dynamic? known]

/-- An event that is too short is refused. -/
theorem ofResolved_of_short (short : r.TooShort resolution) :
    ofResolved resolution r = .error (.encoding (r.shortness resolution)) := by
  unfold ofResolved
  cases known : r.event.dynamic? with
  | none => exact absurd (Event.dynamic?_eq_none.mp known) short.1
  | some d => simp only [ofPitches, short.2, if_true, Resolved.shortness]

/-- An event has strokes exactly when it is not too short, and then they are its own. -/
theorem ofResolved_eq_ok :
    ofResolved resolution r = .ok strokes ↔ ¬ r.TooShort resolution ∧ strokes = r.strokes resolution := by
  by_cases short : r.TooShort resolution
  · simp [ofResolved_of_short short, short]
  · simp [ofResolved_of_long short, short, eq_comm]

/-- An event is refused exactly when it is too short. -/
theorem ofResolved_eq_error :
    ofResolved resolution r = .error fault ↔
      r.TooShort resolution ∧ fault = .encoding (r.shortness resolution) := by
  by_cases short : r.TooShort resolution
  · simp [ofResolved_of_short short, short, eq_comm]
  · simp [ofResolved_of_long short, short]

/-- A timeline has strokes exactly when no event is too short; they are those of the events in order. -/
theorem ofTimeline_eq_ok :
    ofTimeline resolution timeline = .ok strokes ↔
      (∀ r ∈ timeline, ¬ r.TooShort resolution) ∧
        strokes = timeline.flatMap (Resolved.strokes resolution) := by
  unfold ofTimeline
  rw [Outcome.bind_eq_ok]
  simp only [Outcome.mapM_eq_ok_map ofResolved_eq_ok, List.flatMap_def]
  constructor
  · rintro ⟨_, ⟨long, rfl⟩, same⟩
    cases same
    exact ⟨long, rfl⟩
  · rintro ⟨long, rfl⟩
    exact ⟨_, ⟨long, rfl⟩, rfl⟩

/-- A timeline is refused exactly when an event is too short, with the fault of the first such event. -/
theorem ofTimeline_eq_error :
    ofTimeline resolution timeline = .error fault ↔
      ∃ done r rest, timeline = done ++ r :: rest ∧ (∀ d ∈ done, ¬ d.TooShort resolution) ∧
        r.TooShort resolution ∧ fault = .encoding (r.shortness resolution) := by
  unfold ofTimeline
  rw [Outcome.bind_eq_error]
  simp only [Outcome.mapM_eq_error, ofResolved_eq_ok, ofResolved_eq_error, exists_and_left, exists_eq,
    and_true, pure, Except.pure, reduceCtorEq, and_false, exists_false, or_false]

/-- Strokes of an event are data of a message. -/
def FitsData (s : Stroke) : Prop := 0 ≤ s.pitch.value ∧ s.pitch.value ≤ 127 ∧ 0 ≤ s.velocity ∧ s.velocity ≤ 127

/-- Pitches and dynamics are made within the range of data bytes. -/
theorem fitsData_of_mem_strokes {s : Stroke} (member : s ∈ r.strokes resolution) : s.FitsData := by
  obtain ⟨pitch, _, paired⟩ := List.mem_flatMap.mp member
  have low := pitch.inRange.1
  have high := pitch.inRange.2
  have loud := r.event.velocity_le
  rcases List.mem_pair.mp paired with rfl | rfl
  · exact ⟨low, high, Int.natCast_nonneg _, Int.ofNat_le.mpr loud⟩
  · exact ⟨low, high, by simp, by simp⟩

/-- No stroke of an event that is in time comes before the first tick. -/
theorem tick_nonneg_of_mem_strokes {s : Stroke} (positive : 0 < resolution) (late : 0 ≤ r.start)
    (long : ¬ r.TooShort resolution) (member : s ∈ r.strokes resolution) : 0 ≤ s.tick := by
  obtain ⟨pitch, sounds, paired⟩ := List.mem_flatMap.mp member
  have start : 0 ≤ ticks r.start resolution := ticks_nonneg late positive
  have forward : ticks r.start resolution < ticks r.finish resolution := by
    by_contra backward
    exact long ⟨List.ne_nil_of_mem sounds, Int.not_lt.mp backward⟩
  rcases List.mem_pair.mp paired with rfl | rfl
  · exact start
  · exact Int.le_trans start (Int.le_of_lt forward)

/-! ## The order of strokes -/

/-- One stroke comes no later than another: by tick, then by touch, then by order. -/
theorem atMost_iff {a b : Stroke} :
    a.atMost b = true ↔
      a.tick < b.tick ∨ a.tick = b.tick ∧
        (a.touch.rank < b.touch.rank ∨ a.touch.rank = b.touch.rank ∧ a.order ≤ b.order) := by
  have sameRank : a.touch = b.touch ↔ a.touch.rank = b.touch.rank := by
    cases a.touch <;> cases b.touch <;> simp [Touch.rank]
  unfold atMost
  by_cases tick : a.tick = b.tick
  · by_cases touch : a.touch = b.touch
    · simp [tick, touch]
    · have apart : a.touch.rank ≠ b.touch.rank := fun same => touch (sameRank.mpr same)
      simp [tick, touch, apart]
  · simp [tick]

/-- The order of strokes is transitive. -/
theorem atMost_trans (a b c : Stroke) (first : a.atMost b = true) (second : b.atMost c = true) :
    a.atMost c = true := by
  rw [atMost_iff] at *
  omega

/-- Any two strokes are in order one way or the other. -/
theorem atMost_total (a b : Stroke) : (a.atMost b || b.atMost a) = true := by
  rw [Bool.or_eq_true, atMost_iff, atMost_iff]
  omega

/-- Putting strokes in order keeps each as often as it was there. -/
theorem sort_perm (strokes : List Stroke) : (sort strokes).Perm strokes := List.mergeSort_perm strokes atMost

/-- Strokes that have been put in order are in order. -/
theorem sort_ordered (strokes : List Stroke) : (sort strokes).Pairwise fun a b => a.atMost b = true :=
  List.pairwise_mergeSort atMost_trans atMost_total strokes

/-- The ticks of strokes that have been put in order ascend. -/
theorem sort_ticks (strokes : List Stroke) : ((sort strokes).map Stroke.tick).Pairwise (· ≤ ·) := by
  rw [List.pairwise_map]
  refine (sort_ordered strokes).imp ?_
  intro a b ordered
  rw [atMost_iff] at ordered
  omega

/-- The tick of a stroke divides ordered strokes: none up to it is later, and none behind it is earlier. -/
theorem tick_divides {strokes earlier later : List Stroke} {last : Stroke} (split : earlier ++ [last] ++ later = sort strokes) :
    (∀ s ∈ earlier ++ [last], s.tick ≤ last.tick) ∧ ∀ s ∈ later, last.tick ≤ s.tick := by
  have ordered := sort_ticks strokes
  rw [← split, List.map_append, List.pairwise_append, List.map_append, List.pairwise_append] at ordered
  obtain ⟨⟨_, _, before⟩, _, across⟩ := ordered
  constructor
  · intro s member
    rcases List.mem_append.mp member with earlier | own
    · exact before _ (List.mem_map_of_mem earlier) _ (by simp)
    · rw [List.mem_singleton.mp own]
  · exact fun s member => across _ (by simp) _ (List.mem_map_of_mem member)

end Midi.Stroke

end MusicScore
