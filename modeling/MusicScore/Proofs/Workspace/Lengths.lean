import MusicScore.Proofs.Workspace.Parts

/-!
# The lengths of a workspace

Parts keep two beats of their phrases, and a phrase that belongs to a part can still grow there. Everything else
leaves what the parts keep current: a part that is made or copied is current, and so is one that is given a
phrase. An addition leaves the parts current exactly when the phrase still ends by the length of its part and,
where it is the one that was added last, ends where it did. So the lengths are true at every point of a session
exactly when no phrase outgrows its part in it.
-/
namespace MusicScore.Workspace

variable {w next : Workspace}

/-! ## What is current, and what is not any more -/

/-- Every part is current. -/
def Current (w : Workspace) : Prop := ∀ id, (w.part id).Current

/-- No effect moves the latest end of the phrases of a part away from the length that the part keeps. -/
theorem Effect.latest (effect : w.Effect next) (reachable : w.Reachable) {id : PartId}
    (latest : IsLatest ((w.part id).placed.map Placed.finish) (w.part id).length) :
    IsLatest ((next.part id).placed.map Placed.finish) (next.part id).length := by
  rcases effect.part reachable.holdsKept id with
    same | ⟨instrument, name, empty⟩ | ⟨original, copied⟩ | ⟨phrase, start, added⟩
  · rwa [same]
  · rw [empty]
    exact .nil
  · rw [copied]
    exact (reachable.part_sound original).latestEnd
  · have lasting := (phrase_reachable reachable.invariant.1 phrase).scheduled.length_nonneg
    exact (reachable.part_sound id).latest_addPhrase latest lasting added

/-- Every effect leaves the parts current. -/
theorem Effect.current (effect : w.Effect next) (reachable : w.Reachable) (current : w.Current) : next.Current := by
  intro id
  have before (id : PartId) : (w.part id).Current ∧ (w.part id).Sound := ⟨current id, reachable.part_sound id⟩
  rcases effect.part reachable.holdsKept id with
    same | ⟨instrument, name, empty⟩ | ⟨original, copied⟩ | ⟨phrase, start, added⟩
  · exact same ▸ current id
  · exact empty ▸ Part.current_empty instrument name
  · exact copied ▸ (before original).1.copy (before original).2
  · have lasting := (phrase_reachable reachable.invariant.1 phrase).scheduled.length_nonneg
    exact (before id).1.addPhrase (before id).2 lasting added

/-- The command is an addition after which a phrase of a part ends after the length that the part keeps, or, being
the one that was added last, elsewhere than before. -/
def Outgrows (w : Workspace) : Command → Prop
  | .grow id addition => ∃ part, ∃ x ∈ (w.partEntry part).placed, x.content = id ∧
      ((w.partEntry part).length < x.start + ((w.phrase id).grow addition).1.length ∨
        (w.partEntry part).placed.getLast? = some x ∧ ((w.phrase id).grow addition).1.length ≠ (w.phrase id).length)
  | _ => False

/-- An addition makes no phrase shorter. -/
theorem length_le_setPhrase_grow (id : PhraseId) (addition : Phrase.Addition) {x : PhraseId}
    (inside : x.number < w.phrases.length) :
    (w.phrase x).length ≤ ((w.setPhrase id ((w.phrase id).grow addition).1).phrase x).length := by
  by_cases this : x = id
  · subst this
    rw [phrase_setPhrase_self _ inside]
    exact Phrase.length_le_grow _ addition
  · rw [phrase_setPhrase_of_ne _ this]

/-- An addition leaves the parts current exactly when the phrase does not outgrow a part. -/
theorem current_grow_iff (kept : w.HoldsKept) (current : w.Current) (id : PhraseId) (addition : Phrase.Addition) :
    (w.run (.grow id addition)).1.Current ↔ ¬ w.Outgrows (.grow id addition) := by
  rw [run_grow]
  set grown := ((w.phrase id).grow addition).1 with same
  have own (inside : id.number < w.phrases.length) : (w.setPhrase id grown).phrase id = grown :=
    phrase_setPhrase_self grown inside
  have others {x : PhraseId} (apart : x ≠ id) : (w.setPhrase id grown).phrase x = w.phrase x :=
    phrase_setPhrase_of_ne grown apart
  have each (part : PartId) := (current part).map_iff
    fun x member => length_le_setPhrase_grow id addition (kept.partEntry part x member)
  constructor
  · rintro still ⟨part, x, member, rfl, beyond | ⟨last, moved⟩⟩
    all_goals
      obtain ⟨within, unmoved⟩ := (each part).mp (still part)
      have read := own (kept.partEntry part x member)
    · have bound := within x member
      rw [read] at bound
      exact absurd bound (not_le.mpr beyond)
    · have ends := unmoved x last
      rw [read] at ends
      exact moved ends
  · intro calm part
    refine (each part).mpr ⟨?_, ?_⟩
    · intro x member
      by_cases this : x.content = id
      · rw [this, own (this ▸ kept.partEntry part x member)]
        exact not_lt.mp fun beyond => calm ⟨part, x, member, this, .inl beyond⟩
      · rw [others this]
        exact (current part).latest.bound _ (List.mem_map.mpr ⟨_, List.mem_map_of_mem member, rfl⟩)
    · intro x last
      have member := List.mem_of_getLast? last
      by_cases this : x.content = id
      · rw [this, own (this ▸ kept.partEntry part x member)]
        by_contra moved
        exact calm ⟨part, x, member, this, .inr ⟨last, moved⟩⟩
      · rw [others this]

/-- A command leaves the parts current exactly when it does not let a phrase outgrow a part. -/
theorem current_run_iff (reachable : w.Reachable) (current : w.Current) (command : Command) :
    (w.run command).1.Current ↔ ¬ w.Outgrows command := by
  rcases grow_or_effect w command with ⟨id, addition, rfl⟩ | ⟨other, effect⟩
  · exact current_grow_iff reachable.holdsKept current id addition
  · have calm : ¬ w.Outgrows command := by
      cases command with
      | grow id addition => exact absurd rfl (other id addition)
      | _ => exact id
    exact ⟨fun _ => calm, fun _ => effect.current reachable current⟩

/-! ## What the lengths are for -/

/-- The lengths that parts and scores answer with are true, and phrases are put where they say. -/
structure LengthsTrue (w : Workspace) : Prop where
  /-- The length of a part is the latest end of its phrases. -/
  part : ∀ id, IsLatest ((w.part id).placed.map Placed.finish) (w.part id).length
  /-- A phrase that is put at the end of a part starts when every event of the part has ended. -/
  toEnd : ∀ id phrase, id.number < w.parts.length → ∃ start next,
    w.run (.appendToEnd id phrase) = (next, .ok (.span start (start + (w.phrase phrase).length))) ∧
      (next.part id).placed = (w.part id).placed ++ [⟨w.phrase phrase, start⟩] ∧
        ∀ r ∈ (w.part id).timeline, r.finish ≤ start
  /-- A phrase that is put after the previous one starts where that one ends. -/
  toPrevious : ∀ id phrase, id.number < w.parts.length → ∃ start next,
    w.run (.appendToPrevious id phrase) = (next, .ok (.span start (start + (w.phrase phrase).length))) ∧
      (next.part id).placed = (w.part id).placed ++ [⟨w.phrase phrase, start⟩] ∧
        start = (w.part id).lastEnd
  /-- The length of a score is the latest end of the phrases and events of its parts. -/
  score : ∀ id, IsLatest ((w.score id).parts.flatMap Part.ends) (w.score id).length

/-- A phrase that is put into a part that is kept, at beat zero or later, is behind the others there. A copy of it is
kept, and nothing else. -/
theorem run_place (kept : w.HoldsKept) {id : PartId} (phrase : PhraseId) {start : Rat}
    (inside : id.number < w.parts.length) (late : 0 ≤ start) :
    ∃ next, w.place id phrase start = (next, .ok (.span start (start + (w.phrase phrase).length))) ∧
      next.phrases = w.phrases ++ [w.phrase phrase] ∧ next.parts.length = w.parts.length ∧
        next.part id = { w.part id with
          placed := (w.part id).placed ++ [⟨w.phrase phrase, start⟩]
          length := later (w.part id).length (start + (w.phrase phrase).length)
          previousEnd := start + (w.phrase phrase).length } := by
  have placed : (w.partEntry id).place (w.keepPhrase (w.phrase phrase)).1 (w.phrase phrase).length start = .ok _ :=
    PartOf.place_eq_ok.mpr ⟨late, rfl⟩
  obtain ⟨_, read⟩ := PartOf.place_eq_ok.mp (part_placePhrase kept inside placed)
  have done : w.placePhrase id phrase start = .ok (⟨(w.keepPhrase (w.phrase phrase)).1, start⟩, _) :=
    Outcome.bind_eq_ok.mpr ⟨_, placed, rfl⟩
  refine ⟨_, ?_, rfl, List.length_set, read⟩
  simp only [place, done]
  rfl

/-- Where a phrase that is put into a part starts, if it is not refused. -/
theorem start_of_place {id : PartId} {phrase : PhraseId} {start answer finish : Rat}
    (done : w.place id phrase start = (next, .ok (.span answer finish))) : answer = start := by
  unfold place at done
  cases outcome : w.placePhrase id phrase start with
  | error fault =>
    rw [outcome] at done
    cases done
  | ok result =>
    rw [outcome] at done
    obtain ⟨entry, _, same⟩ := Outcome.bind_eq_ok.mp outcome
    cases same
    cases done
    rfl

/-- In a workspace that can be made, the lengths are true exactly when every part is current. -/
theorem lengthsTrue_iff (reachable : w.Reachable) : w.LengthsTrue ↔ w.Current := by
  have kept := reachable.holdsKept
  constructor
  · intro lengths id
    refine ⟨lengths.part id, ?_⟩
    by_cases inside : id.number < w.parts.length
    · obtain ⟨start, next, done, _, last⟩ := lengths.toPrevious id ⟨0⟩ inside
      have start_eq : start = (w.part id).previousEnd := start_of_place done
      rw [← start_eq, last]
    · have absent : w.partEntry id = .empty .first (.text "") := by
        simp [Workspace.partEntry, List.getElem?_eq_none (not_lt.mp inside)]
      rw [Workspace.part, absent]
      exact (Part.current_empty _ _).previous
  · intro current
    constructor
    case part => exact fun id => (current id).latest
    case toEnd =>
      intro id phrase inside
      have sound := reachable.part_sound id
      obtain ⟨next, done, _, _, read⟩ := run_place kept phrase inside ((current id).length_nonneg sound)
      exact ⟨(w.part id).length, next, done, congrArg PartOf.placed read, (current id).timeline_finish_le sound⟩
    case toPrevious =>
      intro id phrase inside
      have sound := reachable.part_sound id
      obtain ⟨next, done, _, _, read⟩ := run_place kept phrase inside ((current id).previousEnd_nonneg sound)
      exact ⟨(w.part id).previousEnd, next, done, congrArg PartOf.placed read, (current id).previous⟩
    case score =>
      intro id
      have each : ∀ part ∈ (w.score id).parts, part.Current ∧ part.Sound := by
        intro part member
        obtain ⟨own, _, rfl⟩ := List.mem_map.mp member
        exact ⟨current own, reachable.part_sound own⟩
      exact IsLatest.foldl (fun part member => (each part member).1.latest_ends (each part member).2)
        (fun part member => (each part member).1.length_nonneg (each part member).2)

/-! ## Sessions -/

/-- In a workspace in which nothing is kept every part is current. -/
theorem current_of_empty : Workspace.empty.Current := by
  intro id
  have absent : Workspace.empty.partEntry id = .empty .first (.text "") := by simp [partEntry, Workspace.empty]
  rw [part, absent]
  exact Part.current_empty _ _

/-- One more command is carried out in what the commands before it have made. -/
theorem after_concat (commands : List Command) (command : Command) :
    after (commands ++ [command]) = ((after commands).run command).1 := by
  simp [after]

/-- The lengths are true at every point of a session exactly when no phrase outgrows its part in it. -/
theorem lengths_true_throughout_iff (commands : List Command) :
    (∀ earlier, earlier <+: commands → (after earlier).LengthsTrue) ↔
      ∀ earlier command, earlier ++ [command] <+: commands → ¬ (after earlier).Outgrows command := by
  have made (earlier : List Command) : (after earlier).Reachable := reachable_iff.mpr ⟨earlier, rfl⟩
  induction commands using List.reverseRecOn with
  | nil =>
    constructor
    · intro _ earlier command longer
      simp at longer
    · intro _ earlier before
      obtain rfl := List.prefix_nil.mp before
      exact (lengthsTrue_iff .empty).mpr current_of_empty
  | append_singleton commands last inductionHypothesis =>
    -- what is new is the last command, and the workspace after it
    have points : (∀ earlier, earlier <+: commands ++ [last] → (after earlier).LengthsTrue) ↔
        (∀ earlier, earlier <+: commands → (after earlier).LengthsTrue) ∧
          (after (commands ++ [last])).LengthsTrue := by
      simp [List.prefix_concat_iff, or_imp, forall_and, and_comm]
    have steps : (∀ earlier command, earlier ++ [command] <+: commands ++ [last] →
          ¬ (after earlier).Outgrows command) ↔
        (∀ earlier command, earlier ++ [command] <+: commands → ¬ (after earlier).Outgrows command) ∧
          ¬ (after commands).Outgrows last := by
      simp [List.prefix_concat_iff, or_imp, forall_and, and_comm]
    rw [points, steps]
    refine (and_congr_right ?_).trans (and_congr_left' inductionHypothesis)
    intro before
    have current := (lengthsTrue_iff (made commands)).mp (before commands (List.prefix_refl commands))
    rw [lengthsTrue_iff (made _), after_concat]
    exact current_run_iff (made commands) current last

/-- A second note, added to the phrase of the part. -/
def overgrowth : Command := .grow ⟨1⟩ (.event (middleC TimeSignature.common.beatUnit))

/-- After the second note the part still has the length of one, while its phrase ends at two. The next phrase
that is put at the end of the part would start before the second note has ended. -/
theorem overgrowth_not_true :
    (((after (noteInPart ++ [overgrowth])).part ⟨0⟩).length,
        ((after (noteInPart ++ [overgrowth])).part ⟨0⟩).previousEnd,
        ((after (noteInPart ++ [overgrowth])).part ⟨0⟩).lastEnd) = (1, 1, 2) ∧
      ¬ ∀ earlier, earlier <+: noteInPart ++ [overgrowth] → (after earlier).LengthsTrue := by
  have outgrown : (after noteInPart).Outgrows overgrowth := by
    have placed : ((after noteInPart).partEntry ⟨0⟩).placed = [⟨⟨1⟩, 0⟩] := by cbv
    have ends : ((after noteInPart).partEntry ⟨0⟩).length = 1 ∧
        (((after noteInPart).phrase ⟨1⟩).grow (.event (middleC TimeSignature.common.beatUnit))).1.length = 2 := by
      constructor <;> cbv
    refine ⟨⟨0⟩, ⟨⟨1⟩, 0⟩, by simp [placed], rfl, .inl ?_⟩
    rw [ends.1, ends.2]
    grind
  refine ⟨by cbv, ?_⟩
  intro lengths
  exact (lengths_true_throughout_iff (noteInPart ++ [overgrowth])).mp lengths noteInPart overgrowth
    (List.prefix_refl _) outgrown

end MusicScore.Workspace
