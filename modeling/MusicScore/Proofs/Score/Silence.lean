import MusicScore.Proofs.Score.Keys

/-!
# Silent notes

Whoever plays a file takes a press with velocity zero for a release. The softest dynamic is such a velocity, so that
a note which is struck with it only releases its key, once where it starts and once where it ends. A key is then
released more often than it is struck, twice for every silent note, and a note that sounds the same pitch at that
time is cut short. This comes of silent notes alone: where no event strikes a pitch silently, the key is heard as it
was written, and is never released more often than it has been struck.
-/
namespace MusicScore

open Midi

namespace Midi.Stroke

/-- The stroke is heard as a release of the key: it releases it, or presses it with velocity zero. -/
def releases (pitch : Int) (s : Stroke) : Bool := s.pitch.value = pitch && (s.touch = .release || s.velocity = 0)

/-- The stroke is heard: it presses the key with a velocity other than zero. -/
def strikes (pitch : Int) (s : Stroke) : Bool := s.touches .press pitch && s.velocity ≠ 0

/-- The stroke presses the key with velocity zero. -/
def isSilent (pitch : Int) (s : Stroke) : Bool := s.touches .press pitch && s.velocity = 0

/-- Up to any stroke, the key is not heard to be released more often than it is struck. -/
def Undisturbed (pitch : Int) (strokes : List Stroke) : Prop :=
  ∀ done, done <+: strokes → done.countP (releases pitch) ≤ done.countP (strikes pitch)

/-- Where each stroke counts as often for two things together as for a third, the counts add up. -/
theorem countP_eq_add {whole first second : Stroke → Bool}
    (each : ∀ s, (if whole s then 1 else 0) = (if first s then 1 else 0) + (if second s then 1 else 0))
    (strokes : List Stroke) : strokes.countP whole = strokes.countP first + strokes.countP second := by
  induction strokes with
  | nil => rfl
  | cons s rest inductionHypothesis =>
    simp only [List.countP_cons, inductionHypothesis, each s]
    omega

/-- What is heard as a release is one, or a silent press. -/
theorem countP_releases (pitch : Int) (strokes : List Stroke) :
    strokes.countP (releases pitch) = strokes.countP (touches .release pitch) + strokes.countP (isSilent pitch) := by
  refine countP_eq_add (fun s => ?_) strokes
  cases touch : s.touch <;> by_cases own : s.pitch.value = pitch <;> by_cases soft : s.velocity = 0 <;>
    simp [releases, isSilent, touches, touch, own, soft]

/-- A press is heard as one, or it is silent. -/
theorem countP_pressed (pitch : Int) (strokes : List Stroke) :
    strokes.countP (touches .press pitch) = strokes.countP (strikes pitch) + strokes.countP (isSilent pitch) := by
  refine countP_eq_add (fun s => ?_) strokes
  by_cases pressed : s.touches .press pitch <;> by_cases soft : s.velocity = 0 <;>
    simp [strikes, isSilent, pressed, soft]

end Midi.Stroke

namespace Resolved

/-- The event sounds the pitch with velocity zero. -/
def isSilent (pitch : Int) (r : Resolved) : Bool := r.has pitch && r.event.velocity = 0

/-- An event presses a key silently once if it sounds the pitch with velocity zero, and else never. -/
theorem countP_isSilent_strokes (resolution pitch : Int) (r : Resolved) :
    (r.strokes resolution).countP (Stroke.isSilent pitch) = if r.isSilent pitch then 1 else 0 := by
  have own : (r.strokes resolution).countP (Stroke.isSilent pitch) =
      if r.event.velocity = 0 then r.event.pitches.countP (·.number = pitch) else 0 := by
    unfold strokes
    induction r.event.pitches with
    | nil => simp
    | cons p rest inductionHypothesis =>
      have value : p.numeral.value = p.number := rfl
      rw [List.flatMap_cons, List.countP_append, inductionHypothesis]
      by_cases soft : r.event.velocity = 0 <;>
        simp [Stroke.pair, Stroke.isSilent, Stroke.touches, List.countP_cons, value, soft, Nat.add_comm]
  rw [own, Event.countP_pitch]
  unfold isSilent has
  by_cases soft : r.event.velocity = 0 <;> simp [soft]

end Resolved

namespace Midi.Stroke

variable {resolution pitch : Int} {timeline : List Resolved} {strokes : List Stroke}

/-- Of the strokes of a timeline as many are silent presses of a key as there are events that sound its pitch with
velocity zero. -/
theorem countP_isSilent (resolution pitch : Int) (timeline : List Resolved) :
    (timeline.flatMap (Resolved.strokes resolution)).countP (isSilent pitch) =
      timeline.countP (Resolved.isSilent pitch) := by
  induction timeline with
  | nil => rfl
  | cons r rest inductionHypothesis =>
    rw [List.flatMap_cons, List.countP_append, inductionHypothesis, r.countP_isSilent_strokes, List.countP_cons,
      Nat.add_comm]

/-- In the strokes of a timeline, in order, a key is heard to be released twice more often than it is struck for
every event that sounds its pitch with velocity zero. It is undisturbed exactly when there is no such event. -/
theorem ofTimeline_undisturbed_iff (accepted : ofTimeline resolution timeline = .ok strokes) (pitch : Int) :
    (sort strokes).countP (releases pitch) =
        (sort strokes).countP (strikes pitch) + 2 * timeline.countP (Resolved.isSilent pitch) ∧
      (Undisturbed pitch (sort strokes) ↔ ∀ r ∈ timeline, r.has pitch = true → r.event.velocity ≠ 0) := by
  obtain ⟨long, all⟩ := ofTimeline_eq_ok.mp accepted
  have free := frees_sort long all pitch
  have silent : (sort strokes).countP (isSilent pitch) = timeline.countP (Resolved.isSilent pitch) := by
    rw [(sort_perm strokes).countP_eq, all, countP_isSilent]
  have excess : (sort strokes).countP (releases pitch) =
      (sort strokes).countP (strikes pitch) + 2 * timeline.countP (Resolved.isSilent pitch) := by
    have balanced := free.balanced
    rw [countP_pressed] at balanced
    rw [countP_releases]
    omega
  have none_iff : timeline.countP (Resolved.isSilent pitch) = 0 ↔
      ∀ r ∈ timeline, r.has pitch = true → r.event.velocity ≠ 0 := by
    simp [List.countP_eq_zero, Resolved.isSilent]
  refine ⟨excess, ?_⟩
  rw [← none_iff]
  constructor
  · intro undisturbed
    have whole := undisturbed (sort strokes) (List.prefix_refl _)
    omega
  · intro none done before
    -- no part of the strokes has more silent presses than the whole, and the whole has none
    have fewer := before.sublist.countP_le (p := isSilent pitch)
    have within := free.within done before
    rw [countP_pressed] at within
    rw [countP_releases]
    omega

/-- A middle C that is struck silently from beat one half on, while another one sounds from beat zero to one. -/
def overlaidSilently : List Resolved :=
  [Resolved.beatOfC 0 0,
    ⟨1 / 2, 3 / 2, .note ⟨⟨.plain 60, Workspace.middleC_inRange⟩, TimeSignature.common.beatUnit, .ofLevel .silent⟩, 1⟩]

/-- The sounding note is heard to be released at its middle, where the silent one is pressed, and twice again. -/
theorem overlaidSilently_disturbed :
    ∃ strokes, ofTimeline 960 overlaidSilently = .ok strokes ∧
      (sort strokes).map (fun s => (s.tick, s.strikes 60, s.releases 60)) =
        [(0, true, false), (480, false, true), (960, false, true), (1440, false, true)] ∧
      ¬ Undisturbed 60 (sort strokes) := by
  have accepted : ofTimeline 960 overlaidSilently = .ok (overlaidSilently.flatMap (Resolved.strokes 960)) :=
    ofTimeline_eq_ok.mpr ⟨by decide +kernel, rfl⟩
  refine ⟨_, accepted, by cbv, ?_⟩
  rw [(ofTimeline_undisturbed_iff accepted 60).2]
  decide +kernel

end Midi.Stroke

end MusicScore
