import MusicScore.Proofs.Json.Document
import MusicScore.Proofs.Timeline.Record
import MusicScore.Timeline.Basic

/-!
# Timelines in JSON

A timeline whose fields have a form in JSON is read from its document as it was written, with tracks and notes in
order. The one thing that is not kept is how a whole number was given: a dynamic marking is read as the number that
it stands for, which is the same number.
-/
namespace MusicScore

open Json

/-! ## Texts and numbers that are kept -/

/-- The datum is a text, which may hold any characters. -/
def Datum.IsUnicode (v : Datum) : Prop := ∃ s, v = .text s

/-- A whole number has no more digits than may be written. -/
def Datum.IsShort : Datum → Prop
  | .number (.whole n) => n.value.natAbs < Text.digitLimit
  | _ => True

/-! ## What is kept of numbers -/

namespace Number

/-- What JSON keeps of a number. -/
def kept : Number → Number
  | .whole n => .ofInt n.value
  | n => n

/-- A number that is kept has the same place. -/
@[simp] theorem place?_kept (a : Number) : a.kept.place? = a.place? := by cases a <;> rfl

/-- A number that is kept is compared as before. -/
@[simp] theorem lt_kept_left (a b : Number) : a.kept.lt b = a.lt b := by simp only [lt, place?_kept]

@[simp] theorem lt_kept_right (a b : Number) : a.lt b.kept = a.lt b := by simp only [lt, place?_kept]

@[simp] theorem same_kept_left (a b : Number) : a.kept.same b = a.same b := by simp only [same, place?_kept]

@[simp] theorem same_kept_right (a b : Number) : a.same b.kept = a.same b := by simp only [same, place?_kept]

@[simp] theorem le_kept_left (a b : Number) : a.kept.le b = a.le b := by simp only [le, lt_kept_left, same_kept_left]

@[simp] theorem le_kept_right (a b : Number) : a.le b.kept = a.le b := by simp only [le, lt_kept_right, same_kept_right]

end Number

@[simp] theorem kept_number (n : Number) : Json.kept (.number n) = .number n.kept := by
  cases n <;> simp [Json.kept, Number.kept, Datum.ofInt]

/-- A value without parts for which JSON has a form is nothing, a number or a text. -/
theorem Json.Writable.simple {v : Datum} (writable : Writable 0 v) :
    v = .nothing ∨ (∃ n, v = .number n) ∨ ∃ s, v = .text s := by
  cases writable <;> simp

/-- A value without parts may stand in any place. -/
theorem Json.Writable.anywhere {v : Datum} (writable : Writable 0 v) (room : Nat) : Writable room v := by
  cases writable with
  | nothing => exact .nothing
  | truth b => exact .truth b
  | whole few => exact .whole few
  | float format => exact .float format
  | text s => exact .text s

/-- A record whose keys are different texts has a form in JSON if its values have. -/
theorem Json.Writable.ofParts {room : Nat} {parts : List (String × Datum)} (distinct : (parts.map Prod.fst).Nodup)
    (each : ∀ part ∈ parts, Writable room part.2) : Writable (room + 1) (.ofParts parts) :=
  .record distinct each

namespace Timeline

variable {t : Timeline} {n : Note} {track : Track} {layout : Layout}

/-! ## What is kept of a timeline -/

/-- What JSON keeps of a track. -/
def Track.kept (track : Track) : Track :=
  ⟨Json.kept track.channel, Json.kept track.program, Json.kept track.instrument, Json.kept track.name⟩

/-- What JSON keeps of a note. -/
def Note.kept (n : Note) : Note :=
  ⟨n.start.kept, n.channel.kept, n.pitch.kept, n.duration.kept, n.velocity.kept, Json.kept n.beat⟩

/-- What JSON keeps of a timeline. -/
def kept (t : Timeline) : Timeline where
  version := Json.kept t.version
  title := Json.kept t.title
  tempo := Json.kept t.tempo
  key := Json.kept t.key
  timeSignature := Json.kept t.timeSignature
  ticksPerBeat := Json.kept t.ticksPerBeat
  totalTicks := Json.kept t.totalTicks
  tracks := t.tracks.map Track.kept
  notes := t.notes.map Note.kept

/-- The fields of a track have a form in JSON. -/
def Track.IsWritable (track : Track) : Prop := ∀ v ∈ track.values, Writable 0 v

/-- The fields of a note have a form in JSON. -/
def Note.IsWritable (n : Note) : Prop := (∀ a ∈ n.keys, Writable 0 (.number a)) ∧ Writable 0 n.beat

/-- All that a timeline says has a form in JSON. -/
structure IsWritable (t : Timeline) : Prop where
  heading : ∀ part ∈ t.heading, Writable 0 part.2
  tracks : ∀ track ∈ t.tracks, track.IsWritable
  notes : ∀ n ∈ t.notes, n.IsWritable

/-- The title and the names of the parts are texts. -/
structure IsUnicode (t : Timeline) : Prop where
  title : t.title.IsUnicode
  names : ∀ track ∈ t.tracks, track.name.IsUnicode

/-- No number of the timeline is too long to be written. -/
structure IsShort (t : Timeline) : Prop where
  heading : ∀ part ∈ t.heading, part.2.IsShort
  tracks : ∀ track ∈ t.tracks, ∀ v ∈ track.values, v.IsShort
  notes : ∀ n ∈ t.notes, ∀ a ∈ n.keys, (Datum.number a).IsShort

/-- The two timelines are equal in every field, the starts in beats included. -/
structure Same (t other : Timeline) : Prop where
  heading : List.Forall₂ (fun x y => x.2.same y.2 = true) t.heading other.heading
  tracks : List.Forall₂ (fun x y => List.Forall₂ (fun v w => v.same w = true) x.values y.values) t.tracks other.tracks
  notes : List.Forall₂ (fun x y => List.Forall₂ (fun a b => a.same b = true) x.keys y.keys ∧
    x.beat.same y.beat = true) t.notes other.notes

/-- A note passes the checks exactly when its numbers are in range. -/
theorem Note.isValid_iff :
    n.IsValid ↔ isFromZero n.pitch (n.pitch.le highest) = true ∧ isFromZero n.velocity (n.velocity.le highest) = true ∧
      isFromZero n.channel (n.channel.lt channelCount) = true ∧ ¬ n.start.lt (.ofInt 0) = true ∧
        ¬ n.duration.lt (.ofInt 0) = true := by
  unfold IsValid ofData
  have known (a : Number) : numberOf (.number a) = .ok a := rfl
  have next {a : Number} {f : Number → Except Fault Note} : (Except.ok a >>= f) = f a := rfl
  simp only [known, next]
  rw [Outcome.guard_eq_ok, Outcome.guard_eq_ok, Outcome.guard_eq_ok, Outcome.guard_eq_ok, Outcome.guard_eq_ok]
  simp [pure, Except.pure]

/-- A note that passes the checks passes them as it is kept. -/
theorem Note.IsValid.kept (valid : n.IsValid) : n.kept.IsValid := by
  rw [isValid_iff] at valid ⊢
  simpa [Note.kept, isFromZero] using valid

/-- A track that is kept holds nothing that is written as a record of its parts. -/
theorem Track.IsWritable.isPlain_kept (writable : track.IsWritable) : track.kept.IsPlain := by
  have each {v : Datum} (own : Writable 0 v) : (Json.kept v).asRecords = .ok (Json.kept v) := by
    rcases own.simple with rfl | ⟨_, rfl⟩ | ⟨_, rfl⟩ <;> simp [Json.kept, Datum.asRecords]
  simp only [IsWritable, values, List.forall_mem_cons] at writable
  simp only [IsPlain, values, Track.kept, List.forall_mem_cons]
  exact ⟨each writable.1, each writable.2.1, each writable.2.2.1, each writable.2.2.2.1, by simp⟩

/-- A track whose fields have a form in JSON holds nothing that is written as a record of its parts. -/
theorem Track.IsWritable.isPlain (writable : track.IsWritable) : track.IsPlain := by
  intro v member
  rcases (writable v member).simple with rfl | ⟨_, rfl⟩ | ⟨_, rfl⟩ <;> simp [Datum.asRecords]

/-- What is kept of the record of a track is the record of what is kept of it. -/
theorem kept_plainRecord (track : Track) : Json.kept track.plainRecord = track.kept.plainRecord := by
  simp [Track.plainRecord, Track.fieldNames, Track.values, Track.kept, Json.kept, keptFields, Datum.ofFields]

/-- What is kept of the record of a note is the record of what is kept of it. -/
theorem kept_toDatum (writable : n.IsWritable) : Json.kept n.toDatum = n.kept.toDatum := by
  obtain ⟨start, channel, pitch, duration, velocity, beat⟩ := n
  rcases writable.2.simple with known | ⟨_, known⟩ | ⟨_, known⟩ <;> dsimp only at known <;> subst known <;>
    simp [Note.toDatum, Note.kept, Note.fieldNames, Note.keys, Json.kept, keptFields, Datum.ofFields]

/-- What is kept of a record is the record of what is kept of its parts. -/
theorem kept_ofParts (parts : List (String × Datum)) :
    Json.kept (.ofParts parts) = .ofParts (parts.map fun part => (part.1, Json.kept part.2)) := by
  simp [Datum.ofParts, Datum.ofFields, Json.kept, keptFields_eq_map]

/-- What is kept of a number is equal to it, if it is a number at all. -/
theorem same_kept_number {a : Number} (writable : Writable 0 (.number a)) : a.kept.same a = true := by
  rw [Number.same_kept_left]
  cases writable with
  | truth b => simp [Number.same, Number.place?, Extended.same]
  | whole few => simp [Number.same, Number.place?, Extended.same]
  | @float _ x format =>
    cases x with
    | finite q => simp [Number.same, Number.place?, Extended.same]
    | negativeZero => simp [Number.same, Number.place?, Extended.same]
    | infinite _ => exact format.elim
    | nan _ => exact format.elim

/-- What is kept of a value is equal to it. -/
theorem same_kept {v : Datum} (writable : Writable 0 v) : (Json.kept v).same v = true := by
  rcases writable.simple with rfl | ⟨a, rfl⟩ | ⟨s, rfl⟩
  · simp [Json.kept, Datum.same]
  · rw [kept_number, Datum.same]
    exact same_kept_number writable
  · simp [Json.kept, Datum.same]

/-- What is kept of a timeline is equal to it. -/
theorem kept_same (writable : t.IsWritable) : t.kept.Same t := by
  constructor
  case heading =>
    have parts : t.kept.heading = t.heading.map fun part => (part.1, Json.kept part.2) := rfl
    rw [parts, List.forall₂_map_left_iff, List.forall₂_same]
    exact fun part member => same_kept (writable.heading part member)
  case tracks =>
    rw [kept, List.forall₂_map_left_iff, List.forall₂_same]
    intro track member
    have values : track.kept.values = track.values.map Json.kept := rfl
    rw [values, List.forall₂_map_left_iff, List.forall₂_same]
    exact fun v own => same_kept (writable.tracks track member v own)
  case notes =>
    rw [kept, List.forall₂_map_left_iff, List.forall₂_same]
    intro n member
    have keys : n.kept.keys = n.keys.map Number.kept := rfl
    rw [keys, List.forall₂_map_left_iff, List.forall₂_same]
    exact ⟨fun a own => same_kept_number ((writable.notes n member).1 a own), same_kept (writable.notes n member).2⟩

/-- The record of a track has a form in JSON if its fields have. -/
theorem Track.IsWritable.plainRecord (writable : track.IsWritable) : Writable 1 track.plainRecord := by
  have parts : track.plainRecord = .ofParts (fieldNames.zip track.values) := rfl
  rw [parts]
  refine .ofParts (by simp [fieldNames, values]) fun part member => ?_
  exact writable part.2 (List.of_mem_zip member).2

/-- The record of a note has a form in JSON if its fields have. -/
theorem Note.IsWritable.toDatum (writable : n.IsWritable) : Writable 1 n.toDatum := by
  have numbers : ∀ part ∈ fieldNames.zip (n.keys.map Datum.number), Writable 0 part.2 := by
    intro part member
    obtain ⟨a, inside, same⟩ := List.mem_map.mp (List.of_mem_zip member).2
    exact same ▸ writable.1 a inside
  obtain ⟨last, beat, written⟩ := n.toDatum_eq
  rw [written]
  rcases beat with ⟨_, rfl⟩ | rfl
  · rw [List.append_nil]
    exact .ofParts (by simp [fieldNames, keys]) numbers
  · refine .ofParts (by simp [fieldNames, keys, beatName]) fun part member => ?_
    rcases List.mem_append.mp member with early | late
    · exact numbers part early
    · obtain rfl := List.mem_singleton.mp late
      exact writable.2

/-- The tracks that are kept are plain. -/
theorem IsWritable.isPlain_kept (writable : t.IsWritable) : ∀ track ∈ t.kept.tracks, track.IsPlain := by
  intro track member
  obtain ⟨own, inside, rfl⟩ := List.mem_map.mp member
  exact (writable.tracks own inside).isPlain_kept

/-- What is kept of the record of a timeline is the record of what is kept of it. -/
theorem kept_record (writable : t.IsWritable) {d : Datum} (recorded : t.record = .ok d) :
    t.kept.record = .ok (Json.kept d) := by
  rw [record_eq fun track member => (writable.tracks track member).isPlain] at recorded
  obtain rfl := Except.ok.inj recorded
  have notes : t.notes.map (fun n => Json.kept n.toDatum) = t.notes.map fun n => n.kept.toDatum :=
    List.map_congr_left fun n member => kept_toDatum (writable.notes n member)
  rw [record_eq writable.isPlain_kept, kept_ofParts]
  simp [heading, kept, Json.kept, keptItems_eq_map, Datum.ofList, Function.comp_def, kept_plainRecord, notes]

/-- The record of a timeline has a form in JSON if its fields have. -/
theorem IsWritable.record (writable : t.IsWritable) {d : Datum} (recorded : t.record = .ok d) : Writable 3 d := by
  rw [record_eq fun track member => (writable.tracks track member).isPlain] at recorded
  obtain rfl := Except.ok.inj recorded
  refine .ofParts (by simp [Timeline.heading]) fun part member => ?_
  rcases List.mem_append.mp member with early | late
  · exact (writable.heading part early).anywhere 2
  · rcases List.mem_pair.mp late with rfl | rfl
    · refine .list fun item inside => ?_
      obtain ⟨track, own, rfl⟩ := List.mem_map.mp inside
      exact (writable.tracks track own).plainRecord
    · refine .list fun item inside => ?_
      obtain ⟨n, own, rfl⟩ := List.mem_map.mp inside
      exact (writable.notes n own).toDatum

/-- A timeline in order whose fields have a form in JSON is read from its document as it is kept. -/
theorem ofJson_toJson (blank : layout.IsBlank) (ordered : t.canonical = .ok t) (writable : t.IsWritable)
    (valid : ∀ n ∈ t.notes, n.IsValid) : ∃ text, t.toJson layout = .ok text ∧ ofJson text = .ok t.kept := by
  have recorded := record_eq fun track member => (writable.tracks track member).isPlain
  obtain ⟨text, wrote, read⟩ := Json.read_write blank (writable.record recorded) (by decide)
  have back := kept_record writable recorded
  have validKept : ∀ n ∈ t.kept.notes, n.IsValid := by
    intro n member
    obtain ⟨own, inside, rfl⟩ := List.mem_map.mp member
    exact (valid own inside).kept
  have whole := ofDatum_record writable.isPlain_kept validKept
  rw [back] at whole
  refine ⟨text, ?_, ?_⟩
  · rw [toJson, toDatum, ordered]
    exact Outcome.bind_eq_ok.mpr ⟨_, recorded, wrote⟩
  · rw [ofJson, read]
    exact whole

end Timeline

end MusicScore
