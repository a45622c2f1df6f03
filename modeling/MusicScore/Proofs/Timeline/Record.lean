import MusicScore.Proofs.Timeline.Order

/-!
# Records of timelines

A timeline is read from its record as it was written: every field of the whole, of each track and of each
note. The record has the tracks and the notes in order, so what is read is the timeline in its order. A track
is written through records of the values in it, so it is read as it was if it holds none; a note is checked
again when it is read, so it has to be one that passes.
-/
namespace MusicScore

namespace Datum

variable {fields : List (Datum × Datum)} {name other : String} {value : Datum}

/-- The first field has the name. -/
theorem field?_cons_self : field? ((.text name, value) :: fields) name = some value := by
  simp [field?, same]

/-- The first field has another name. -/
theorem field?_cons_other (different : other ≠ name) :
    field? ((.text other, value) :: fields) name = field? fields name := by
  simp [field?, same, different]

@[simp] theorem field?_nil : field? [] name = none := rfl

end Datum

namespace Timeline

variable {t : Timeline} {n : Note} {track : Track}

/-- The numbers of the note pass the checks that are made of a note. -/
def Note.IsValid (n : Note) : Prop :=
  ofData (.number n.start) (.number n.channel) (.number n.pitch) (.number n.duration) (.number n.velocity)
    n.beat = .ok n

/-- The fields of the track hold nothing that is written as a record of its parts. -/
def Track.IsPlain (track : Track) : Prop := ∀ v ∈ track.values, v.asRecords = .ok v

/-- A note has its numbers as fields, and its start in beats as one more if it is known. -/
theorem Note.toDatum_eq (n : Note) :
    ∃ last, (n.beat = .nothing ∧ last = [] ∨ last = [(beatName, n.beat)]) ∧
      n.toDatum = .ofParts (fieldNames.zip (n.keys.map Datum.number) ++ last) := by
  unfold toDatum
  split
  case h_1 unknown => exact ⟨[], .inl ⟨unknown, rfl⟩, rfl⟩
  case h_2 => exact ⟨[(beatName, n.beat)], .inr rfl, rfl⟩

/-- A note that passes the checks is read from its record. -/
theorem Note.ofDatum_toDatum (valid : n.IsValid) : Note.ofDatum n.toDatum = .ok n := by
  obtain ⟨last, beat, written⟩ := n.toDatum_eq
  rw [written]
  rcases beat with ⟨unknown, rfl⟩ | rfl
  · rw [IsValid, unknown] at valid
    simpa [Note.ofDatum, Datum.ofParts, Datum.ofFields, Datum.fields?, required, fieldNames, keys, beatName,
      Datum.field?_cons_self, Datum.field?_cons_other, bind, Except.bind] using valid
  · simpa [IsValid, Note.ofDatum, Datum.ofParts, Datum.ofFields, Datum.fields?, required, fieldNames, keys, beatName,
      Datum.field?_cons_self, Datum.field?_cons_other, bind, Except.bind] using valid

/-- The record of a track as it is. -/
def Track.plainRecord (track : Track) : Datum := .ofFields ((fieldNames.map Datum.text).zip track.values)

/-- A track without values of the library is written as it is. -/
theorem Track.toDatum_eq (plain : track.IsPlain) : track.toDatum = .ok track.plainRecord := by
  obtain ⟨channel, program, instrument, name⟩ : track.channel.asRecords = .ok track.channel ∧
      track.program.asRecords = .ok track.program ∧ track.instrument.asRecords = .ok track.instrument ∧
        track.name.asRecords = .ok track.name := by
    simpa [IsPlain, values] using plain
  simp [Track.toDatum, plainRecord, fieldNames, values, Datum.ofFields, Datum.asRecords, Datum.fieldsAsRecords,
    channel, program, instrument, name, bind, Except.bind, pure, Except.pure]

/-- A track is read from its record. -/
theorem Track.ofDatum_plainRecord (track : Track) : Track.ofDatum track.plainRecord = .ok track := by
  simp [Track.ofDatum, plainRecord, fieldNames, values, Datum.ofFields, Datum.fields?, Datum.same,
    Datum.field?_cons_self, Datum.field?_cons_other, pure, Except.pure]

/-- What is read of each item of a list is read of the whole list. -/
theorem mapM_map_eq_ok {α β ε : Type} {read : β → Except ε α} {written : α → β} {values : List α}
    (each : ∀ v ∈ values, read (written v) = .ok v) : (values.map written).mapM read = .ok values := by
  rw [Outcome.mapM_eq_ok, List.forall₂_map_left_iff, List.forall₂_same]
  exact each

/-- A timeline with plain tracks has a record. -/
theorem record_eq (plain : ∀ track ∈ t.tracks, track.IsPlain) :
    t.record = .ok (.ofParts (t.heading ++ [("tracks", .ofList (t.tracks.map Track.plainRecord)),
      ("notes", .ofList (t.notes.map Note.toDatum))])) := by
  have tracks : t.tracks.mapM Track.toDatum = .ok (t.tracks.map Track.plainRecord) := by
    rw [Outcome.mapM_eq_ok, List.forall₂_map_right_iff, List.forall₂_same]
    exact fun track member => Track.toDatum_eq (plain track member)
  rw [record, tracks]
  rfl

/-- A timeline is read from its record as it is. -/
theorem ofDatum_record (plain : ∀ track ∈ t.tracks, track.IsPlain) (valid : ∀ n ∈ t.notes, n.IsValid) :
    (do ofDatum (← t.record)) = .ok t := by
  have tracks := mapM_map_eq_ok fun track (_ : track ∈ t.tracks) => Track.ofDatum_plainRecord track
  have notes := mapM_map_eq_ok fun n member => Note.ofDatum_toDatum (valid n member)
  rw [record_eq plain]
  simp only [bind, Except.bind] at tracks notes ⊢
  simp [ofDatum, heading, Datum.ofParts, Datum.ofFields, Datum.ofList, Datum.fields?, Datum.items,
    Datum.field?_cons_self, Datum.field?_cons_other, tracks, notes, bind, Except.bind, pure, Except.pure,
    -List.mapM_map]

/-- The record of a timeline is read as the timeline in its order; where it has no order, neither has it a
record. -/
theorem ofDatum_toDatum (plain : ∀ track ∈ t.tracks, track.IsPlain) (valid : ∀ n ∈ t.notes, n.IsValid) :
    (do ofDatum (← t.toDatum)) = t.canonical := by
  cases outcome : t.canonical with
  | error fault =>
    rw [toDatum, outcome]
    rfl
  | ok sorted =>
    obtain ⟨tracks, ordered, same⟩ := Outcome.bind_eq_ok.mp outcome
    cases same
    have back := ofDatum_record (t := { t with tracks := tracks, notes := Note.sort t.notes })
      (fun track member => plain track ((Sorting.sort_perm ordered).mem_iff.mp member))
      (fun n member => valid n ((Note.sort_perm t.notes).mem_iff.mp member))
    rw [toDatum, outcome]
    exact back

end Timeline

end MusicScore
