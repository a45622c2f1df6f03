import MusicScore.Proofs.Workspace.Parts

/-!
# The timeline of a part

The phrases of a part may overlap, coincide, or have been put into it in any order of time. The timeline has the
events of all of them on the clock of the part; none is merged and none is left out. Each event bears its place
among all of them as they were written down, phrase by phrase and in a phrase event by event. The events are
ordered by start, and those that start together by this place, which leaves them a single order.

The timeline is sorted by start alone. Events that start together are in place because sorting is stable, and the
events of one phrase stay in their own order because the clock of a phrase goes forward.
-/
namespace MusicScore

namespace Resolved

/-- The event starts before another, or it starts together with it and was written down before it. -/
def Precedes (a b : Resolved) : Prop := a.start < b.start ∨ a.start = b.start ∧ a.order < b.order

/-- Of two events at most one precedes the other. -/
theorem Precedes.asymm {a b : Resolved} (first : a.Precedes b) : ¬ b.Precedes a := by
  unfold Precedes at *
  grind

theorem startsBy_iff {a b : Resolved} : a.startsBy b = true ↔ a.start ≤ b.start := decide_eq_true_iff

theorem startsBy_trans (a b c : Resolved) (first : a.startsBy b) (second : b.startsBy c) : a.startsBy c :=
  startsBy_iff.mpr (le_trans (startsBy_iff.mp first) (startsBy_iff.mp second))

theorem startsBy_total (a b : Resolved) : a.startsBy b || b.startsBy a := by
  rw [Bool.or_eq_true, startsBy_iff, startsBy_iff]
  exact le_total a.start b.start

end Resolved

/-- The events of a phrase on the clock of its part, numbered from a given number on. -/
def Placed.line (x : Placed Phrase) (first : Nat) : List Resolved :=
  x.content.resolved.mapIdx fun index r =>
    ⟨r.start + x.start, r.finish + x.start, r.event, (first + index : Nat)⟩

namespace Part

/-- The number of events in the phrases that come before a place. -/
def eventsBefore (placed : List (Placed Phrase)) (place : Nat) : Nat :=
  ((placed.take place).map fun x => x.content.resolved.length).sum

/-- The events of each phrase, numbered on from those of the phrases before it. -/
def lines (p : Part) : List (List Resolved) :=
  p.placed.mapIdx fun place x => x.line (eventsBefore p.placed place)

/-- The events are those of the phrases of a part, merged. -/
structure Merges (p : Part) (events : List Resolved) : Prop where
  /-- Every event of every phrase is there once, moved by the start of the phrase, with its number. -/
  perm : events.Perm p.lines.flatten
  /-- The numbers are those from zero on. -/
  numbered : (events.map (·.order)).Perm ((List.range events.length).map Int.ofNat)
  /-- Each event precedes all that come after it. -/
  ascending : events.Pairwise Resolved.Precedes
  /-- The events of a phrase come in the order in which they were placed. -/
  inLine : ∀ line ∈ p.lines, line.Sublist events

/-! ## The events as they were written down -/

/-- Numbering the events of all phrases numbers the events of each, on from those of the phrases before it. -/
theorem mapIdx_events (placed : List (Placed Phrase)) (first : Nat) :
    (placed.flatMap Placed.events).mapIdx (fun index r => r.reordered (first + index : Nat)) =
      (placed.mapIdx fun place x => x.line (first + eventsBefore placed place)).flatten := by
  induction placed generalizing first with
  | nil => rfl
  | cons x rest inductionHypothesis =>
    have own : x.events.mapIdx (fun index r => r.reordered (first + index : Nat)) = x.line first := by
      simp [Placed.events, Placed.line, List.mapIdx_eq_zipIdx_map, List.zipIdx_map, Function.comp_def,
        Resolved.shifted, Resolved.reordered]
    have others := inductionHypothesis (first + x.events.length)
    have count : x.events.length = x.content.resolved.length := by simp [Placed.events]
    have before (place : Nat) : first + eventsBefore (x :: rest) (place + 1) =
        first + x.events.length + eventsBefore rest place := by
      simp [eventsBefore, count, Nat.add_assoc]
    have places : (fun index (r : Resolved) => r.reordered (first + (index + x.events.length) : Nat)) =
        fun index r => r.reordered (first + x.events.length + index : Nat) := by
      funext index r
      congr 2
      omega
    simp only [List.flatMap_cons, List.mapIdx_append, List.mapIdx_cons, List.flatten_cons, own, places, others,
      before]
    rfl

/-- The events as they were written down are those of one phrase after the other. -/
theorem authored_eq (p : Part) : p.authored = p.lines.flatten := by
  have numbered := mapIdx_events p.placed 0
  simpa [authored, Resolved.number, lines] using numbered

/-- The events as they were written down bear the numbers from zero on. -/
theorem map_order_authored (p : Part) :
    p.authored.map (·.order) = (List.range p.authored.length).map Int.ofNat := by
  refine List.ext_getElem (by simp) ?_
  intro index _ _
  simp [authored, Resolved.number, Resolved.reordered]

/-- The order of an event is its place among the events as they were written down. -/
theorem order_eq_of_mem_zipIdx {p : Part} {r : Resolved} {place : Nat} (member : (r, place) ∈ p.authored.zipIdx) :
    r.order = place := by
  have found : p.authored[place]? = some r := List.mk_mem_zipIdx_iff_getElem?.mp member
  obtain ⟨_, rfl⟩ := List.getElem?_eq_some_iff.mp found
  simp [authored, Resolved.number, Resolved.reordered]

/-! ## The order of the timeline -/

theorem timeline_perm (p : Part) : p.timeline.Perm p.authored := List.mergeSort_perm _ _

/-- Each event of the timeline precedes those after it. A stable sort is one of the events together with their
places, in which the places decide between events that start together. -/
theorem pairwise_precedes_timeline (p : Part) : p.timeline.Pairwise Resolved.Precedes := by
  set placed := p.authored.zipIdx.mergeSort (List.zipIdxLE Resolved.startsBy) with made
  have perm : placed.Perm p.authored.zipIdx := List.mergeSort_perm _ _
  have sorted : placed.Pairwise fun a b => List.zipIdxLE Resolved.startsBy a b = true :=
    List.pairwise_mergeSort (List.zipIdxLE_trans Resolved.startsBy_trans)
      (List.zipIdxLE_total Resolved.startsBy_total) _
  have apart : placed.Pairwise fun a b => a.2 ≠ b.2 := by
    have places : (placed.map Prod.snd).Nodup := by
      rw [(perm.map Prod.snd).nodup_iff, List.zipIdx_map_snd]
      exact List.nodup_range'
    exact List.pairwise_map.mp places
  rw [timeline, ← List.mergeSort_zipIdx, ← made, List.pairwise_map]
  refine (sorted.and apart).imp_of_mem ?_
  rintro ⟨a, i⟩ ⟨b, j⟩ inA inB ⟨ordered, differ⟩
  have orderA : a.order = i := order_eq_of_mem_zipIdx (perm.mem_iff.mp inA)
  have orderB : b.order = j := order_eq_of_mem_zipIdx (perm.mem_iff.mp inB)
  simp only [List.zipIdxLE, Resolved.startsBy, decide_eq_true_eq] at ordered
  unfold Resolved.Precedes
  split at ordered <;> grind

/-- The events of a phrase whose clock goes forward are in order of their starts on the clock of the part as well. -/
theorem pairwise_startsBy_line {x : Placed Phrase} (scheduled : x.content.Scheduled) (first : Nat) :
    (x.line first).Pairwise fun a b => a.startsBy b = true := by
  have own : x.content.resolved.Pairwise fun a b => a.start ≤ b.start := List.pairwise_map.mp scheduled.ascending
  rw [List.pairwise_iff_getElem] at own ⊢
  intro i j insideI insideJ before
  have starts := own i j (by simpa [Placed.line] using insideI) (by simpa [Placed.line] using insideJ) before
  simpa [Placed.line, Resolved.startsBy_iff] using starts

/-- The events of a phrase keep their order in the timeline. -/
theorem Sound.line_sublist {p : Part} (sound : p.Sound) {line : List Resolved} (member : line ∈ p.lines) :
    line.Sublist p.timeline := by
  obtain ⟨place, inside, rfl⟩ := List.mem_mapIdx.mp member
  have scheduled := sound.scheduled p.placed[place] (List.getElem_mem inside)
  refine List.sublist_mergeSort Resolved.startsBy_trans Resolved.startsBy_total
    (pairwise_startsBy_line scheduled _) ?_
  rw [authored_eq]
  exact List.sublist_flatten_of_mem member

/-- Of a part whose phrases lie on its clock, the timeline merges the phrases, and no other list of events does. -/
theorem Sound.merges_iff {p : Part} (sound : p.Sound) (events : List Resolved) :
    p.Merges events ↔ events = p.timeline := by
  constructor
  · intro merges
    have same : events.Perm p.timeline := merges.perm.trans (authored_eq p ▸ (timeline_perm p).symm)
    refine List.Perm.eq_of_pairwise ?_ merges.ascending (pairwise_precedes_timeline p) same
    intro a b _ _ first second
    exact absurd second first.asymm
  · rintro rfl
    constructor
    case perm => exact authored_eq p ▸ timeline_perm p
    case numbered =>
      rw [(timeline_perm p).length_eq, ← map_order_authored]
      exact (timeline_perm p).map _
    case ascending => exact pairwise_precedes_timeline p
    case inLine => exact fun _ member => sound.line_sublist member

end Part

namespace Workspace

/-- The timeline of every part merges the phrases of the part, and it is the only list of events that does. -/
theorem Reachable.timeline_merges {w : Workspace} (reachable : w.Reachable) (id : PartId) (events : List Resolved) :
    (w.part id).Merges events ↔ events = (w.part id).timeline :=
  (reachable.part_sound id).merges_iff events

/-- A part with the same two notes from beat one on and, put into it later, from beat zero on. -/
def crossing : Workspace :=
  let note := middleC TimeSignature.common.beatUnit
  .after [.newPhrase (.text "Line"),
    .grow ⟨0⟩ (.event note),
    .grow ⟨0⟩ (.event note),
    .newPart (.ofInt 0) (.text "Piano"),
    .placePhrase ⟨0⟩ ⟨0⟩ (.ofInt 1),
    .placePhrase ⟨0⟩ ⟨0⟩ (.ofInt 0)]

/-- At beat one the first note of the first phrase comes before the second note of the second one. -/
theorem crossing_merges :
    ((crossing.part ⟨0⟩).timeline.map fun r => (r.start, r.order)) = [(0, 2), (1, 0), (1, 3), (2, 1)] ∧
      (crossing.part ⟨0⟩).Merges (crossing.part ⟨0⟩).timeline :=
  ⟨by cbv, (Reachable.timeline_merges (reachable_iff.mpr ⟨_, rfl⟩) ⟨0⟩ _).mpr rfl⟩

end Workspace

end MusicScore
