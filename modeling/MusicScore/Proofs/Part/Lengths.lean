import MusicScore.Proofs.Phrase.Schedule
import MusicScore.Part.Basic

/-!
# The beats that a part keeps

A part keeps its length and the end of the phrase that was added last, as they were when a phrase was added.
They are *current* when they are still those of the phrases. Adding a phrase to a part whose beats are current
leaves them current, and a copy of a part finds its length anew. While the length is current, no event of the
timeline ends after it, so that it is the latest end of the phrases and of the events together.
-/
namespace MusicScore

namespace PartOf

variable {α β : Type} {p next : PartOf α} {content : α} {length start : Rat}

/-- A phrase is put into a part exactly at a start that is not before beat zero. -/
theorem place_eq_ok : p.place content length start = .ok next ↔
    0 ≤ start ∧ next = { p with
      placed := p.placed ++ [⟨content, start⟩]
      length := later p.length (start + length)
      previousEnd := start + length } := by
  unfold place
  by_cases negative : start < 0
  · have outside : ¬ 0 ≤ start := by grind
    simp [negative, outside]
  · have inside : 0 ≤ start := by grind
    simp [negative, inside, eq_comm]

/-- Putting a phrase into a part is the same in every form that phrases are held in. -/
theorem place_map (f : α → β) (placed : p.place content length start = .ok next) :
    (p.map f).place (f content) length start = .ok (next.map f) := by
  obtain ⟨inside, rfl⟩ := place_eq_ok.mp placed
  exact place_eq_ok.mpr ⟨inside, by simp [map]⟩

/-- A part in another form depends on its own phrases only. -/
theorem map_congr {f g : α → β} (same : ∀ x ∈ p.placed, f x.content = g x.content) : p.map f = p.map g := by
  have placed : p.placed.map (fun x => Placed.mk (f x.content) x.start) =
      p.placed.map fun x => ⟨g x.content, x.start⟩ := by
    refine List.map_congr_left ?_
    intro x member
    rw [same x member]
  unfold map
  rw [placed]

end PartOf

namespace Part

variable {p next : Part} {phrase : Phrase} {start : Rat} {r : Resolved}

/-- Every event of the timeline is an event of a phrase, moved by the start of the phrase. -/
theorem exists_of_mem_timeline (member : r ∈ p.timeline) :
    ∃ x ∈ p.placed, ∃ own ∈ x.content.resolved, r = (own.shifted x.start).reordered r.order := by
  have authored : r ∈ p.authored := (List.mergeSort_perm _ _).mem_iff.mp member
  obtain ⟨index, inside, rfl⟩ := List.mem_mapIdx.mp authored
  obtain ⟨x, placed, event⟩ := List.mem_flatMap.mp (List.getElem_mem inside)
  obtain ⟨own, inPhrase, shifted⟩ := List.mem_map.mp event
  exact ⟨x, placed, own, inPhrase, by rw [shifted]; rfl⟩

/-- The phrases of a part lie on its clock: none starts before beat zero, and each is in order itself. -/
structure Sound (p : Part) : Prop where
  start_nonneg : ∀ x ∈ p.placed, 0 ≤ x.start
  scheduled : ∀ x ∈ p.placed, x.content.Scheduled

/-- No phrase of a part ends before beat zero. -/
theorem Sound.finish_nonneg (sound : p.Sound) : ∀ b ∈ p.placed.map Placed.finish, 0 ≤ b := by
  intro b member
  obtain ⟨x, placed, rfl⟩ := List.mem_map.mp member
  exact Rat.add_nonneg (sound.start_nonneg x placed) (sound.scheduled x placed).length_nonneg

/-- Every event of the timeline ends by the end of a phrase. -/
theorem Sound.exists_finish_ge (sound : p.Sound) (member : r ∈ p.timeline) :
    ∃ x ∈ p.placed, r.finish ≤ x.finish := by
  obtain ⟨x, placed, own, inPhrase, same⟩ := exists_of_mem_timeline member
  refine ⟨x, placed, ?_⟩
  have within : own.finish ≤ x.content.length :=
    (sound.scheduled x placed).latest.bound own.finish (List.mem_map_of_mem inPhrase)
  have moved : r.finish = own.finish + x.start := by
    rw [same]
    rfl
  have ends : x.finish = x.start + x.content.length := rfl
  grind

/-- The end of the phrase that was added last, as the phrase is now; zero for a part without phrases. -/
def lastEnd (p : Part) : Rat := (p.placed.getLast?.map Placed.finish).getD 0

/-- What a part keeps are the beats of its phrases as they are now. -/
structure Current (p : Part) : Prop where
  latest : IsLatest (p.placed.map Placed.finish) p.length
  previous : p.previousEnd = p.lastEnd

/-- A part without phrases is current. -/
theorem current_empty (instrument : Instrument) (name : Datum) :
    Current (.empty instrument name) where
  latest := .nil
  previous := rfl

/-- The length of a part that is current is not negative. -/
theorem Current.length_nonneg (current : p.Current) (sound : p.Sound) : 0 ≤ p.length :=
  current.latest.nonneg sound.finish_nonneg

/-- Where a part is current, the end of the phrase added last is not negative. -/
theorem Current.previousEnd_nonneg (current : p.Current) (sound : p.Sound) : 0 ≤ p.previousEnd := by
  rw [current.previous]
  unfold lastEnd
  cases last : p.placed.getLast? with
  | none => exact le_refl 0
  | some x => exact sound.finish_nonneg x.finish (List.mem_map_of_mem (List.mem_of_getLast? last))

/-- Where the length of a part is the latest end of its phrases, it still is when a phrase has been added. -/
theorem Sound.latest_addPhrase (sound : p.Sound) (latest : IsLatest (p.placed.map Placed.finish) p.length)
    (lasting : 0 ≤ phrase.length) (placed : p.addPhrase phrase start = .ok next) :
    IsLatest (next.placed.map Placed.finish) next.length := by
  obtain ⟨inside, rfl⟩ := PartOf.place_eq_ok.mp placed
  have ends : 0 ≤ start + phrase.length := Rat.add_nonneg inside lasting
  simpa [Placed.finish] using latest.append (.single _) (latest.nonneg sound.finish_nonneg) ends

/-- A phrase that is added to a current part leaves it current. -/
theorem Current.addPhrase (current : p.Current) (sound : p.Sound) (lasting : 0 ≤ phrase.length)
    (placed : p.addPhrase phrase start = .ok next) : next.Current := by
  constructor
  case latest => exact sound.latest_addPhrase current.latest lasting placed
  case previous =>
    obtain ⟨inside, rfl⟩ := PartOf.place_eq_ok.mp placed
    simp [lastEnd, Placed.finish]

/-- The length that a copy of a part is made with is the latest end of the phrases. -/
theorem Sound.latestEnd (sound : p.Sound) : IsLatest (p.placed.map Placed.finish) p.latestEnd := by
  have each : ∀ x ∈ p.placed, IsLatest [x.finish] x.finish := fun x _ => .single x.finish
  have late : ∀ x ∈ p.placed, 0 ≤ x.finish := fun x placed =>
    sound.finish_nonneg x.finish (List.mem_map_of_mem placed)
  rw [List.map_eq_flatMap]
  exact IsLatest.foldl each late

/-- A copy of a current part is current. -/
theorem Current.copy (current : p.Current) (sound : p.Sound) : p.copy.Current where
  latest := sound.latestEnd
  previous := current.previous

/-- Where the phrases of a current part become longer, it stays current exactly when none of them ends after the
length that is kept and the one added last ends where it did. -/
theorem Current.map_iff {α : Type} {entry : PartOf α} {f g : α → Phrase} (current : Current (entry.map f))
    (longer : ∀ x ∈ entry.placed, (f x.content).length ≤ (g x.content).length) :
    Current (entry.map g) ↔ (∀ x ∈ entry.placed, x.start + (g x.content).length ≤ entry.length) ∧
      ∀ x, entry.placed.getLast? = some x → (g x.content).length = (f x.content).length := by
  have ends (h : α → Phrase) : (entry.map h).placed.map Placed.finish =
      entry.placed.map fun x => x.start + (h x.content).length := by simp [PartOf.map, Placed.finish]
  have last (h : α → Phrase) : lastEnd (entry.map h) =
      (entry.placed.getLast?.map fun x => x.start + (h x.content).length).getD 0 := by
    simp [lastEnd, PartOf.map, Placed.finish, Function.comp_def]
  have before : entry.previousEnd = lastEnd (entry.map f) := current.previous
  have latest : IsLatest (entry.placed.map fun x => x.start + (f x.content).length) entry.length :=
    ends f ▸ current.latest
  constructor
  · intro still
    constructor
    · intro x member
      have bound := still.latest.bound (x.start + (g x.content).length)
      rw [ends g] at bound
      exact bound (List.mem_map_of_mem member)
    · intro x own
      have now : entry.previousEnd = lastEnd (entry.map g) := still.previous
      rw [before, last f, last g, own] at now
      exact (add_left_cancel now).symm
  · rintro ⟨within, unmoved⟩
    constructor
    case latest =>
      rw [ends g]
      exact latest.moved (fun x member => add_le_add_right (longer x member) x.start) within
    case previous =>
      show entry.previousEnd = lastEnd (entry.map g)
      rw [before, last f, last g]
      cases own : entry.placed.getLast? with
      | none => rfl
      | some x => simp [unmoved x own]

/-- In a current part no event ends after the length. -/
theorem Current.timeline_finish_le (current : p.Current) (sound : p.Sound) :
    ∀ r ∈ p.timeline, r.finish ≤ p.length := by
  intro r member
  obtain ⟨x, placed, within⟩ := sound.exists_finish_ge member
  exact le_trans within (current.latest.bound x.finish (List.mem_map_of_mem placed))

/-- The ends of the phrases of a part and of the events of its timeline. -/
def ends (p : Part) : List Rat := p.placed.map Placed.finish ++ p.timeline.map (·.finish)

/-- The length of a current part is the latest end of its phrases and events. -/
theorem Current.latest_ends (current : p.Current) (sound : p.Sound) : IsLatest p.ends p.length := by
  refine current.latest.extend ?_ ?_
  · intro b member
    obtain ⟨r, event, rfl⟩ := List.mem_map.mp member
    exact current.timeline_finish_le sound r event
  · intro none
    refine List.map_eq_nil_iff.mpr (List.eq_nil_iff_forall_not_mem.mpr ?_)
    intro r member
    obtain ⟨x, placed, _⟩ := exists_of_mem_timeline member
    rw [List.map_eq_nil_iff.mp none] at placed
    cases placed

end Part

end MusicScore
