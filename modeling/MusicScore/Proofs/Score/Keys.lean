import MusicScore.Proofs.Midi.OneTick
import MusicScore.Proofs.Score.Music

/-!
# Keys are freed

In the order of a track no key is released more often than it has been pressed, and in the end it is as free
as it was at the start. This holds of every timeline that has strokes, whatever overlaps in it: a release comes
at a later tick than its own press, so that of the strokes up to any tick the releases are no more than the
presses before that tick.

Where of any two events that sound a pitch one ends at or before the start of the other, its key is pressed and
released in turns. Rounding can bring the end of one event and the start of another to one tick, but keeps their
order, and at one tick releases come first. So the strokes of the key are those of the events one after the
other: both are the only way to put the same touches in order.

With a negative resolution ticks run against the beats, and what sounds ends before it starts. Then starts and
ends change their parts: one of the two has to start at or before the end of the other.
-/
namespace MusicScore

open Midi

namespace Resolved

variable {resolution pitch : Int} {r a b : Resolved}

/-- The event sounds the pitch. -/
def has (pitch : Int) (r : Resolved) : Bool := r.event.pitches.any (·.number = pitch)

/-- One of two events ends at or before the start of the other. -/
def Apart (a b : Resolved) : Prop := a.finish ≤ b.start ∨ b.finish ≤ a.start

instance (a b : Resolved) : Decidable (Apart a b) := inferInstanceAs (Decidable (_ ∨ _))

/-- One of two events starts at or before the end of the other. -/
def ApartBackward (a b : Resolved) : Prop := a.start ≤ b.finish ∨ b.start ≤ a.finish

instance (a b : Resolved) : Decidable (ApartBackward a b) := inferInstanceAs (Decidable (_ ∨ _))

/-- The event from its end back to its start. -/
def reversed (r : Resolved) : Resolved := { r with start := r.finish, finish := r.start }

/-- One of two events is released by the tick at which the other is pressed. -/
def Clear (resolution : Int) (a b : Resolved) : Prop :=
  ticks a.finish resolution ≤ ticks b.start resolution ∨ ticks b.finish resolution ≤ ticks a.start resolution

/-- An event that sounds a pitch and is not too short is released at a later tick than it is pressed. -/
theorem start_lt_finish (long : ¬ r.TooShort resolution) (sounds : r.has pitch = true) :
    ticks r.start resolution < ticks r.finish resolution := by
  have pitches : r.event.pitches ≠ [] := by
    intro silent
    simp [has, silent] at sounds
  exact Int.not_le.mp fun short => long ⟨pitches, short⟩

/-- Events that are apart stay apart in ticks. -/
theorem Apart.clear (forward : 0 ≤ resolution) (apart : Apart a b) : Clear resolution a b :=
  apart.imp (ticks_mono forward) (ticks_mono forward)

/-- Events that are apart when they are played backward are apart in ticks that run against the beats. -/
theorem ApartBackward.clear (backward : resolution ≤ 0) (apart : ApartBackward a b) : Clear resolution a b :=
  apart.symm.imp (ticks_anti backward) (ticks_anti backward)

end Resolved

namespace Midi

/-- Presses and releases in turns: every press is followed by a release, and every release follows one. -/
def Touch.Alternate : List Touch → Prop
  | [] => True
  | .press :: .release :: rest => Alternate rest
  | _ => False

namespace Stroke

/-- The stroke touches the key of a pitch in the given way. -/
def touches (touch : Touch) (pitch : Int) (s : Stroke) : Bool := s.touch = touch && s.pitch.value = pitch

/-- The touches of the key of a pitch, in the order of the strokes. -/
def touchesOf (pitch : Int) (strokes : List Stroke) : List Touch :=
  (strokes.filter (·.pitch.value = pitch)).map Stroke.touch

/-- The key of a pitch is never released more often than it has been pressed, and in the end as often. -/
structure Frees (pitch : Int) (strokes : List Stroke) : Prop where
  /-- Up to any stroke there are no more releases than presses. -/
  within : ∀ done, done <+: strokes →
    done.countP (touches .release pitch) ≤ done.countP (touches .press pitch)
  /-- Over all strokes there are as many releases as presses. -/
  balanced : strokes.countP (touches .release pitch) = strokes.countP (touches .press pitch)

end Stroke

end Midi

namespace Resolved

variable {resolution pitch : Int} {r : Resolved}

/-- The releases of an event up to a tick are no more than its presses before that tick. -/
theorem countP_released_le (long : ¬ r.TooShort resolution) (pitch tick : Int) :
    (r.strokes resolution).countP (fun s => s.touches .release pitch && s.tick ≤ tick) ≤
      (r.strokes resolution).countP (fun s => s.touches .press pitch && s.tick < tick) := by
  unfold strokes
  rw [List.countP_flatMap, List.countP_flatMap]
  refine List.sum_le_sum fun p sounds => ?_
  have forward : ticks r.start resolution < ticks r.finish resolution :=
    Int.not_le.mp fun short => long ⟨List.ne_nil_of_mem sounds, short⟩
  by_cases same : p.numeral.value = pitch
  · by_cases ended : ticks r.finish resolution ≤ tick
    · have begun : ticks r.start resolution < tick := Int.lt_of_lt_of_le forward ended
      simp [Stroke.pair, Stroke.touches, same, ended, begun]
    · simp [Stroke.pair, Stroke.touches, ended]
  · simp [Stroke.pair, Stroke.touches, same]

/-- An event releases a key as often as it presses it. -/
theorem countP_released_eq (resolution pitch : Int) (r : Resolved) :
    (r.strokes resolution).countP (Stroke.touches .release pitch) =
      (r.strokes resolution).countP (Stroke.touches .press pitch) := by
  unfold strokes
  rw [List.countP_flatMap, List.countP_flatMap]
  refine congrArg List.sum (List.map_congr_left fun p _ => ?_)
  simp [Stroke.pair, Stroke.touches, List.countP_cons]

/-- When and how an event touches a key that it sounds. -/
def marks (resolution : Int) (r : Resolved) : List (Int × Touch) :=
  [(ticks r.start resolution, .press), (ticks r.finish resolution, .release)]

/-- An event touches the key of a pitch that it has once in each way, and no other. -/
theorem map_strokes_of_pitch (resolution pitch : Int) (r : Resolved) :
    ((r.strokes resolution).filter (·.pitch.value = pitch)).map (fun s => (s.tick, s.touch)) =
      if r.has pitch then r.marks resolution else [] := by
  have own : ((r.strokes resolution).filter (·.pitch.value = pitch)).map (fun s => (s.tick, s.touch)) =
      (r.event.pitches.filter (·.number = pitch)).flatMap fun _ => r.marks resolution := by
    unfold strokes
    induction r.event.pitches with
    | nil => rfl
    | cons p rest inductionHypothesis =>
      rw [List.flatMap_cons, List.filter_append, List.map_append, inductionHypothesis]
      by_cases same : p.number = pitch
      · have value : p.numeral.value = pitch := same
        simp [Stroke.pair, marks, same, value]
      · have value : ¬ p.numeral.value = pitch := same
        simp [Stroke.pair, same, value]
  have once := Event.countP_pitch r.event pitch
  rw [List.countP_eq_length_filter] at once
  rw [own]
  unfold has
  by_cases sounds : r.event.pitches.any (·.number = pitch)
  · rw [if_pos sounds] at once ⊢
    obtain ⟨p, only⟩ := List.length_eq_one_iff.mp once
    rw [only, List.flatMap_singleton]
  · rw [if_neg sounds] at once ⊢
    rw [List.length_eq_zero_iff.mp once, List.flatMap_nil]

end Resolved

namespace Midi.Stroke

variable {resolution pitch : Int} {timeline : List Resolved} {strokes : List Stroke}

/-- The strokes of a timeline in order release no key more often than it has been pressed. The last tick of
the strokes so far divides the whole: they hold every press before it and no release after it. -/
theorem frees_sort (long : ∀ r ∈ timeline, ¬ r.TooShort resolution)
    (all : strokes = timeline.flatMap (Resolved.strokes resolution)) (pitch : Int) :
    Frees pitch (sort strokes) := by
  have counted (test : Stroke → Bool) : (sort strokes).countP test =
      (timeline.map (List.countP test ∘ Resolved.strokes resolution)).sum := by
    rw [(sort_perm strokes).countP_eq, all, List.countP_flatMap]
  constructor
  case balanced =>
    rw [counted, counted]
    congr 1
    exact List.map_congr_left fun r _ => r.countP_released_eq resolution pitch
  case within =>
    rintro done ⟨later, split⟩
    rcases List.eq_nil_or_concat done with rfl | ⟨earlier, last, rfl⟩
    · exact Nat.le_refl _
    rw [List.concat_eq_append] at split ⊢
    obtain ⟨upTo, onward⟩ := tick_divides split
    calc (earlier ++ [last]).countP (touches .release pitch)
        ≤ (earlier ++ [last]).countP (fun s => s.touches .release pitch && s.tick ≤ last.tick) :=
          List.countP_mono_left fun s member touched => by simp [touched, upTo s member]
      _ ≤ (sort strokes).countP (fun s => s.touches .release pitch && s.tick ≤ last.tick) := by
          rw [← split]
          exact (List.sublist_append_left _ _).countP_le
      _ ≤ (sort strokes).countP (fun s => s.touches .press pitch && s.tick < last.tick) := by
          rw [counted, counted]
          exact List.sum_le_sum fun r member => Resolved.countP_released_le (long r member) pitch last.tick
      _ = (earlier ++ [last]).countP (fun s => s.touches .press pitch && s.tick < last.tick) := by
          have none : later.countP (fun s => s.touches .press pitch && s.tick < last.tick) = 0 := by
            rw [List.countP_eq_zero]
            intro s member
            have reached := onward s member
            simp only [Bool.and_eq_true, decide_eq_true_eq, not_and]
            omega
          rw [← split, List.countP_append, none, Nat.add_zero]
      _ ≤ (earlier ++ [last]).countP (touches .press pitch) :=
          List.countP_mono_left fun s _ touched => (Bool.and_eq_true _ _ ▸ touched).1

/-! ## Turns -/

/-- The touches of events one after the other are in turns. -/
theorem alternate_marks (resolution : Int) (events : List Resolved) :
    Touch.Alternate ((events.flatMap (Resolved.marks resolution)).map Prod.snd) := by
  induction events with
  | nil => trivial
  | cons r rest inductionHypothesis => exact inductionHypothesis

/-- One touch comes no later than another: by tick, and at one tick a release before a press. -/
def NoLater (a b : Int × Touch) : Prop := a.1 < b.1 ∨ a.1 = b.1 ∧ a.2.rank ≤ b.2.rank

/-- Touches of which each comes no later than the other are the same. -/
theorem NoLater.antisymm {a b : Int × Touch} (first : NoLater a b) (second : NoLater b a) : a = b := by
  obtain ⟨tick, touch⟩ := a
  obtain ⟨otherTick, otherTouch⟩ := b
  simp only [NoLater] at first second
  have sameTick : tick = otherTick := by omega
  have sameRank : touch.rank = otherTouch.rank := by omega
  cases touch <;> cases otherTouch <;> simp_all [Touch.rank]

/-- The touches of strokes in order are in order. -/
theorem noLater_of_atMost {a b : Stroke} (ordered : a.atMost b = true) :
    NoLater (a.tick, a.touch) (b.tick, b.touch) := by
  rw [atMost_iff] at ordered
  simp only [NoLater]
  omega

/-- Events that are apart in ticks, put in the order of their presses, touch their key in order. -/
theorem marks_ordered {events : List Resolved}
    (forward : ∀ r ∈ events, ticks r.start resolution < ticks r.finish resolution)
    (clear : events.Pairwise (Resolved.Clear resolution))
    (sorted : events.Pairwise fun a b => ticks a.start resolution ≤ ticks b.start resolution) :
    (events.flatMap (Resolved.marks resolution)).Pairwise NoLater := by
  rw [List.pairwise_flatMap]
  constructor
  · intro r member
    have own := forward r member
    simp only [Resolved.marks, List.pairwise_pair]
    exact .inl own
  · refine (clear.and sorted).imp_of_mem ?_
    intro a b first second ⟨apart, ordered⟩ x ofA y ofB
    have ownA := forward a first
    have ownB := forward b second
    -- The later event cannot have ended first, since it lasts.
    have released : ticks a.finish resolution ≤ ticks b.start resolution :=
      apart.resolve_right (by omega)
    rcases List.mem_pair.mp ofA with rfl | rfl <;> rcases List.mem_pair.mp ofB with rfl | rfl <;>
      simp only [NoLater, Touch.rank] <;> omega

/-- What belongs to the items that pass a test, and nothing for the others, belongs to those that are kept. -/
theorem flatMap_ite_eq {α β : Type} (test : α → Bool) (f : α → List β) (items : List α) :
    (items.flatMap fun x => if test x then f x else []) = (items.filter test).flatMap f := by
  induction items with
  | nil => rfl
  | cons x rest inductionHypothesis =>
    rw [List.flatMap_cons, inductionHypothesis]
    by_cases passes : test x <;> simp [passes]

/-- Events can be put in the order of their presses. -/
theorem exists_inOrder (resolution : Int) (events : List Resolved) :
    ∃ ordered : List Resolved, ordered.Perm events ∧
      ordered.Pairwise fun a b => ticks a.start resolution ≤ ticks b.start resolution := by
  let earlier (a b : Resolved) : Bool := ticks a.start resolution ≤ ticks b.start resolution
  refine ⟨events.mergeSort earlier, List.mergeSort_perm _ _, ?_⟩
  refine (List.pairwise_mergeSort ?_ ?_ _).imp (by simp [earlier])
  · intro a b c first second
    simp only [earlier, decide_eq_true_eq] at first second ⊢
    omega
  · intro a b
    simp only [earlier, Bool.or_eq_true, decide_eq_true_eq]
    omega

/-- Where the events that sound a pitch are apart in ticks, its key is touched in turns. -/
theorem alternate_touchesOf (long : ∀ r ∈ timeline, ¬ r.TooShort resolution)
    (all : strokes = timeline.flatMap (Resolved.strokes resolution))
    (clear : (timeline.filter (Resolved.has pitch)).Pairwise (Resolved.Clear resolution)) :
    Touch.Alternate (touchesOf pitch (sort strokes)) := by
  obtain ⟨events, same, sorted⟩ := exists_inOrder resolution (timeline.filter (Resolved.has pitch))
  have forward : ∀ r ∈ events, ticks r.start resolution < ticks r.finish resolution := by
    intro r member
    obtain ⟨inside, sounds⟩ := List.mem_filter.mp (same.mem_iff.mp member)
    exact Resolved.start_lt_finish (long r inside) sounds
  have apart : events.Pairwise (Resolved.Clear resolution) :=
    (same.pairwise_iff fun h => h.symm).mpr clear
  let marked := ((sort strokes).filter (·.pitch.value = pitch)).map fun s => (s.tick, s.touch)
  have touched : marked.Perm (events.flatMap (Resolved.marks resolution)) := by
    refine (((sort_perm strokes).filter _).map _).trans ?_
    rw [all, List.filter_flatMap, List.map_flatMap]
    simp only [Resolved.map_strokes_of_pitch, flatMap_ite_eq]
    exact (same.flatMap_right _).symm
  have inOrder : marked.Pairwise NoLater := by
    refine List.pairwise_map.mpr (((sort_ordered strokes).sublist List.filter_sublist).imp ?_)
    exact noLater_of_atMost
  have equal : marked = events.flatMap (Resolved.marks resolution) :=
    touched.eq_of_pairwise (fun _ _ _ _ => NoLater.antisymm) inOrder (marks_ordered forward apart sorted)
  have touches : touchesOf pitch (sort strokes) = marked.map Prod.snd := by
    simp [touchesOf, marked]
  rw [touches, equal]
  exact alternate_marks resolution events

/-- The strokes of a timeline, in order, free every key: it is never released more often than it has been
pressed, and in the end as often. Where of any two events that sound its pitch one ends at or before the start
of the other, it is pressed and released in turns; with a negative resolution, where one starts at or before
the end of the other. -/
theorem ofTimeline_frees {resolution : Int} {timeline : List Resolved} {strokes : List Stroke}
    (accepted : ofTimeline resolution timeline = .ok strokes) (pitch : Int) :
    Frees pitch (sort strokes) ∧
      (0 ≤ resolution → (timeline.filter (Resolved.has pitch)).Pairwise Resolved.Apart →
        Touch.Alternate (touchesOf pitch (sort strokes))) ∧
      (resolution < 0 → (timeline.filter (Resolved.has pitch)).Pairwise Resolved.ApartBackward →
        Touch.Alternate (touchesOf pitch (sort strokes))) := by
  obtain ⟨long, all⟩ := ofTimeline_eq_ok.mp accepted
  refine ⟨frees_sort long all pitch, fun forward apart => ?_, fun backward apart => ?_⟩
  · exact alternate_touchesOf long all (apart.imp (Resolved.Apart.clear forward))
  · exact alternate_touchesOf long all (apart.imp (Resolved.ApartBackward.clear backward.le))

/-- Two events that sound middle C one after the other, the later one first in the order of the timeline: its
key is released before it is pressed again. So it is when both are turned round and ticks run against the
beats. -/
theorem repeated_frees :
    let forward := [Resolved.beatOfC 1 0, Resolved.beatOfC 0 1]
    let backward := [(Resolved.beatOfC 0 1).reversed, (Resolved.beatOfC 1 0).reversed]
    (∃ strokes, ofTimeline 960 forward = .ok strokes ∧ Frees 60 (sort strokes) ∧
        (forward.filter (Resolved.has 60)).Pairwise Resolved.Apart ∧
          touchesOf 60 (sort strokes) = [.press, .release, .press, .release] ∧
            Touch.Alternate (touchesOf 60 (sort strokes))) ∧
      ∃ strokes, ofTimeline (-960) backward = .ok strokes ∧ Frees 60 (sort strokes) ∧
        (backward.filter (Resolved.has 60)).Pairwise Resolved.ApartBackward ∧
          touchesOf 60 (sort strokes) = [.press, .release, .press, .release] ∧
            Touch.Alternate (touchesOf 60 (sort strokes)) := by
  intro forward backward
  have acceptedForward : ofTimeline 960 forward = .ok (forward.flatMap (Resolved.strokes 960)) :=
    ofTimeline_eq_ok.mpr ⟨by decide +kernel, rfl⟩
  have acceptedBackward : ofTimeline (-960) backward = .ok (backward.flatMap (Resolved.strokes (-960))) :=
    ofTimeline_eq_ok.mpr ⟨by decide +kernel, rfl⟩
  have apartForward : (forward.filter (Resolved.has 60)).Pairwise Resolved.Apart := by decide +kernel
  have apartBackward : (backward.filter (Resolved.has 60)).Pairwise Resolved.ApartBackward := by decide +kernel
  obtain ⟨frees, inTurns, _⟩ := ofTimeline_frees acceptedForward 60
  obtain ⟨freesBackward, _, inTurnsBackward⟩ := ofTimeline_frees acceptedBackward 60
  exact ⟨⟨_, acceptedForward, frees, apartForward, by cbv, inTurns (by decide) apartForward⟩,
    _, acceptedBackward, freesBackward, apartBackward, by cbv, inTurnsBackward (by decide) apartBackward⟩

/-- With a negative resolution it is not enough that one event ends at or before the start of the other. Middle C from
beat two back to beat one and from beat three halves back to beat one half overlaps from one to three halves, and though
the first ends at beat one and the second starts at three halves, the key is pressed twice before it is released. -/
theorem backward_not_alternate :
    let timeline := [(Resolved.beatOfC 1 0).reversed, (Resolved.beatOfC (1 / 2) 1).reversed]
    ∃ strokes, ofTimeline (-1) timeline = .ok strokes ∧
      (timeline.filter (Resolved.has 60)).Pairwise Resolved.Apart ∧
        touchesOf 60 (sort strokes) = [.press, .press, .release, .release] ∧
          ¬ Touch.Alternate (touchesOf 60 (sort strokes)) := by
  intro timeline
  have accepted : ofTimeline (-1) timeline = .ok (timeline.flatMap (Resolved.strokes (-1))) :=
    ofTimeline_eq_ok.mpr ⟨by decide +kernel, rfl⟩
  have touched : touchesOf 60 (sort (timeline.flatMap (Resolved.strokes (-1)))) =
      [.press, .press, .release, .release] := by cbv
  exact ⟨_, accepted, by decide +kernel, touched, by rw [touched]; exact id⟩

end Midi.Stroke

end MusicScore
