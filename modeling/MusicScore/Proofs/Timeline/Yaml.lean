import Mathlib.Data.Bool.AllAny
import MusicScore.Proofs.Timeline.Json
import MusicScore.Proofs.Yaml.Document

/-!
# Timelines in YAML

The record of a timeline is a table, with the lists of tracks and of notes in it. A timeline in order is read from its
document as it is, in every field, if all that it says can be read back. Where it says a whole number that was given by a
dynamic marking, or is too long to be written, it has no document.
-/
namespace MusicScore

open Yaml

/-- The whole number was given as such, not by a dynamic marking. -/
def Numeral.IsPlain (n : Numeral) : Prop := n = .plain n.value

namespace Datum

/-- The datum is a text, a whole number or a binary64 number in the format, as what the timeline of a score says. -/
inductive IsStatement : Datum → Prop where
  | text (s : String) : IsStatement (.text s)
  | whole (n : Numeral) : IsStatement (.number (.whole n))
  | float {x : Double} (format : x.InFormat) : IsStatement (.number (.float x))

/-- A whole number was given as such. -/
def IsPlain : Datum → Prop
  | .number (.whole n) => n.IsPlain
  | _ => True

variable {v : Datum}

/-- A statement is written only if it can be read back. -/
theorem IsStatement.isSimple_of_takes (statement : v.IsStatement) (takes : Takes v) : IsSimple v := by
  cases statement with
  | text s => exact .text s
  | whole n => exact Yaml.isSimple_of_takes takes
  | float format => exact .float format

/-- A statement can be read back unless it is a whole number that was not given as such or is too long. -/
theorem IsStatement.isSimple_iff (statement : v.IsStatement) : IsSimple v ↔ v.IsPlain ∧ v.IsShort := by
  cases statement with
  | text s => exact ⟨fun _ => ⟨trivial, trivial⟩, fun _ => .text s⟩
  | float format => exact ⟨fun _ => ⟨trivial, trivial⟩, fun _ => .float format⟩
  | whole n =>
    constructor
    · intro simple
      cases simple with
      | whole few => exact ⟨rfl, few⟩
    · rintro ⟨given, short⟩
      cases n with
      | plain n => exact .whole short
      | marking level => cases given

end Datum

namespace Timeline

variable {P Q : Datum → Prop} {t : Timeline} {n : Note} {track : Track}

/-- The datum of every field of the timeline is of some sort. -/
structure Each (P : Datum → Prop) (t : Timeline) : Prop where
  heading : ∀ part ∈ t.heading, P part.2
  tracks : ∀ track ∈ t.tracks, ∀ v ∈ track.values, P v
  notes : ∀ n ∈ t.notes, (∀ a ∈ n.keys, P (.number a)) ∧ P n.beat

/-- What follows for each datum follows for all of them. -/
theorem Each.imp (each : t.Each P) (sort : ∀ v, P v → Q v) : t.Each Q :=
  ⟨fun part member => sort _ (each.heading part member), fun track member v own => sort v (each.tracks track member v own),
    fun n member => ⟨fun a own => sort _ ((each.notes n member).1 a own), sort _ (each.notes n member).2⟩⟩

/-- Two things are so of each datum when they both are. -/
theorem each_and : t.Each (fun v => P v ∧ Q v) ↔ t.Each P ∧ t.Each Q := by
  refine ⟨fun both => ⟨both.imp fun _ => And.left, both.imp fun _ => And.right⟩, fun ⟨left, right⟩ => ?_⟩
  exact ⟨fun part member => ⟨left.heading part member, right.heading part member⟩,
    fun track member v own => ⟨left.tracks track member v own, right.tracks track member v own⟩,
    fun n member => ⟨fun a own => ⟨(left.notes n member).1 a own, (right.notes n member).1 a own⟩,
      (left.notes n member).2, (right.notes n member).2⟩⟩

/-- Texts and numbers can be read back when the whole numbers among them were given as such and are not too long. -/
theorem each_isSimple_iff (statements : t.Each Datum.IsStatement) :
    t.Each IsSimple ↔ t.Each Datum.IsPlain ∧ t.Each Datum.IsShort := by
  rw [← each_and]
  constructor
  · exact fun simple => (each_and.mpr ⟨statements, simple⟩).imp fun _ both => both.1.isSimple_iff.mp both.2
  · exact fun kept => (each_and.mpr ⟨statements, kept⟩).imp fun _ both => both.1.isSimple_iff.mpr both.2

/-! ## Records as tables -/

/-- The names of all fields of the record of a timeline. -/
def keyNames : List String :=
  ["schema", "title", "tempo", "key", "time_signature", "ticks_per_beat", "total_ticks", "tracks", "notes"] ++
    Track.fieldNames ++ Note.fieldNames ++ [Note.beatName]

/-- The names of the fields can be keys. -/
theorem isKeyName_of_mem {name : String} (member : name ∈ keyNames) : IsKeyName name := by
  have checked : ∀ name ∈ keyNames, name.toList ≠ [] ∧ name.toList.all Lexer.isKeyLetter = true ∧
      name.toList.length ≤ 100 ∧ Style.ofText name.toList = .plain :=
    List.all_iff_forall_prop.mp (by decide +kernel)
  obtain ⟨nonempty, letters, short, plain⟩ := checked name member
  exact ⟨⟨nonempty, List.all_eq_true.mp letters, Nat.le_trans short (by decide)⟩, plain,
    Nat.lt_of_le_of_lt (Nat.add_le_add_left short 5) (by decide)⟩

/-- The fields of a track. -/
def Track.parts (track : Track) : List (String × Datum) := fieldNames.zip track.values

/-- The fields of a note, without the start in beats if it is not known. -/
def Note.parts (n : Note) : List (String × Datum) :=
  match n.beat with
  | .nothing => fieldNames.zip (n.keys.map Datum.number)
  | beat => fieldNames.zip (n.keys.map Datum.number) ++ [(beatName, beat)]

/-- The record of a note has its fields. -/
theorem Note.toDatum_eq_parts (n : Note) : n.toDatum = .ofParts n.parts := by
  obtain ⟨start, channel, pitch, duration, velocity, beat⟩ := n
  cases beat <;> rfl

/-- All that a note says stands in its fields, but for a start in beats that is not known. -/
theorem Note.mem_parts (n : Note) :
    (∀ a ∈ n.keys, .number a ∈ n.parts.map Prod.snd) ∧ (n.beat = .nothing ∨ n.beat ∈ n.parts.map Prod.snd) := by
  unfold parts
  split
  case h_1 unknown => exact ⟨by simp [keys, fieldNames], .inl unknown⟩
  case h_2 => exact ⟨by simp [keys, fieldNames], .inr (by simp)⟩

/-- The fields of the record of a timeline. -/
def parts (t : Timeline) : List (String × Datum) :=
  t.heading ++ [("tracks", .ofList ((t.tracks.map Track.parts).map .ofParts)),
    ("notes", .ofList ((t.notes.map Note.parts).map .ofParts))]

/-- A timeline with plain tracks has a record with its fields. -/
theorem record_eq_parts (plain : ∀ track ∈ t.tracks, track.IsPlain) : t.record = .ok (.ofParts t.parts) := by
  have notes : t.notes.map Note.toDatum = (t.notes.map Note.parts).map .ofParts := by
    rw [List.map_map]
    exact List.map_congr_left fun n _ => n.toDatum_eq_parts
  have tracks : t.tracks.map Track.plainRecord = (t.tracks.map Track.parts).map .ofParts := by
    rw [List.map_map]
    rfl
  rw [record_eq plain, notes, tracks]
  rfl

/-- The record of a track is a row if its fields are without parts. -/
theorem Track.isRow_parts (simple : ∀ v ∈ track.values, IsSimple v) : IsRow (IsCell 0) track.parts := by
  refine ⟨by simp [parts, fieldNames, values], fun part member => isKeyName_of_mem ?_,
    by simp [parts, fieldNames, values], fun part member => simple part.2 (List.of_mem_zip member).2⟩
  simp [keyNames, (List.of_mem_zip member).1]

/-- The record of a note is a row if its fields are without parts. -/
theorem Note.isRow_parts (simple : (∀ a ∈ n.keys, IsSimple (.number a)) ∧ IsSimple n.beat) :
    IsRow (IsCell 0) n.parts := by
  have numbers : ∀ part ∈ fieldNames.zip (n.keys.map Datum.number), part.1 ∈ keyNames ∧ IsSimple part.2 := by
    intro part member
    obtain ⟨a, inside, same⟩ := List.mem_map.mp (List.of_mem_zip member).2
    exact ⟨by simp [keyNames, (List.of_mem_zip member).1], same ▸ simple.1 a inside⟩
  have every : ∀ part ∈ n.parts, part.1 ∈ keyNames ∧ IsSimple part.2 := by
    unfold parts
    split
    · exact numbers
    · refine List.forall_mem_append.mpr ⟨numbers, fun part member => ?_⟩
      obtain rfl := List.mem_singleton.mp member
      exact ⟨by simp [keyNames], simple.2⟩
  refine ⟨?_, fun part member => isKeyName_of_mem (every part member).1, ?_, fun part member => (every part member).2⟩ <;>
    unfold parts <;> split <;> simp [fieldNames, keys, beatName]

/-- The record of a timeline is a row, in which the tracks and the notes are tables. -/
theorem isRow_parts (simple : t.Each IsSimple) : IsRow (IsCell 1) t.parts := by
  refine ⟨by simp [parts, heading], fun part member => isKeyName_of_mem ?_, by simp [parts, heading], fun part member => ?_⟩
  · simp only [parts, heading, List.cons_append, List.nil_append, List.mem_cons, List.not_mem_nil, or_false] at member
    rcases member with rfl | rfl | rfl | rfl | rfl | rfl | rfl | rfl | rfl <;> simp [keyNames]
  · rcases List.mem_append.mp member with early | late
    · exact .inl (simple.heading part early)
    · rcases List.mem_pair.mp late with rfl | rfl
      · refine .inr ⟨_, rfl, fun row inside => ?_⟩
        obtain ⟨track, own, rfl⟩ := List.mem_map.mp inside
        exact Track.isRow_parts (simple.tracks track own)
      · refine .inr ⟨_, rfl, fun row inside => ?_⟩
        obtain ⟨n, own, rfl⟩ := List.mem_map.mp inside
        exact Note.isRow_parts (simple.notes n own)

/-! ## Documents -/

/-- A track of values without parts holds nothing that is written as a record of its parts. -/
theorem Track.isPlain_of_isStatement (statements : ∀ v ∈ track.values, v.IsStatement) : track.IsPlain := by
  intro v member
  cases statements v member <;> simp [Datum.asRecords]

/-- A timeline in order is read from its document as it is, if all that it says can be read back. -/
theorem ofYaml_toYaml (ordered : t.canonical = .ok t) (plain : ∀ track ∈ t.tracks, track.IsPlain)
    (valid : ∀ n ∈ t.notes, n.IsValid) (simple : t.Each IsSimple) :
    ∃ text, t.toYaml = .ok text ∧ ofYaml text = .ok t := by
  have recorded := record_eq_parts plain
  obtain ⟨text, wrote, read⟩ := Yaml.read_write (isRow_parts simple) (by decide) (by decide)
  have whole := ofDatum_record plain valid
  rw [recorded] at whole
  refine ⟨text, ?_, ?_⟩
  · rw [toYaml, toDatum, ordered]
    exact Outcome.bind_eq_ok.mpr ⟨_, recorded, wrote⟩
  · rw [ofYaml, read]
    exact whole

/-- Where a timeline in order has a document, all that it says is written in it. -/
theorem takes_of_toYaml (ordered : t.canonical = .ok t) (plain : ∀ track ∈ t.tracks, track.IsPlain) {text : List Char}
    (wrote : t.toYaml = .ok text) : t.Each Takes := by
  obtain ⟨d, made, written⟩ := Outcome.bind_eq_ok.mp wrote
  rw [toDatum, ordered] at made
  obtain rfl := Except.ok.inj ((record_eq_parts plain).symm.trans made)
  have values := (takes_of_write written).values
  have rows {name : String} {rows : List (List (String × Datum))} (member : (name, .ofList (rows.map .ofParts)) ∈ t.parts) :
      ∀ row ∈ rows, ∀ part ∈ row, Takes part.2 := fun row inside =>
    ((values _ member).items _ (List.mem_map_of_mem inside)).values
  constructor
  case heading => exact fun part member => values part (List.mem_append_left _ member)
  case tracks =>
    intro track member v own
    have listed : v ∈ track.parts.map Prod.snd := own
    obtain ⟨part, inside, rfl⟩ := List.mem_map.mp listed
    have table : ("tracks", .ofList ((t.tracks.map Track.parts).map .ofParts)) ∈ t.parts := by simp [parts]
    exact rows table _ (List.mem_map_of_mem member) part inside
  case notes =>
    intro n member
    have table : ("notes", .ofList ((t.notes.map Note.parts).map .ofParts)) ∈ t.parts := by simp [parts]
    have own : ∀ part ∈ n.parts, Takes part.2 := rows table _ (List.mem_map_of_mem member)
    have part {v : Datum} (listed : v ∈ n.parts.map Prod.snd) : Takes v := by
      obtain ⟨part, inside, rfl⟩ := List.mem_map.mp listed
      exact own part inside
    refine ⟨fun a key => part (n.mem_parts.1 a key), ?_⟩
    rcases n.mem_parts.2 with unknown | known
    · rw [unknown]
      exact ⟨0, ⟨[], []⟩, _, rfl⟩
    · exact part known

/-- A timeline in order that says texts and numbers has a document exactly when all of them can be read back; then the
document is read as the timeline. -/
theorem toYaml_spec (ordered : t.canonical = .ok t) (statements : t.Each Datum.IsStatement)
    (valid : ∀ n ∈ t.notes, n.IsValid) :
    ((∃ text, t.toYaml = .ok text) ↔ t.Each IsSimple) ∧ ∀ text, t.toYaml = .ok text → ofYaml text = .ok t := by
  have plain : ∀ track ∈ t.tracks, track.IsPlain := fun track member =>
    Track.isPlain_of_isStatement (statements.tracks track member)
  have forward {text : List Char} (wrote : t.toYaml = .ok text) : t.Each IsSimple :=
    (each_and.mpr ⟨statements, takes_of_toYaml ordered plain wrote⟩).imp fun _ both => both.1.isSimple_of_takes both.2
  refine ⟨⟨fun ⟨text, wrote⟩ => forward wrote, fun simple => ?_⟩, fun text wrote => ?_⟩
  · obtain ⟨text, wrote, _⟩ := ofYaml_toYaml ordered plain valid simple
    exact ⟨text, wrote⟩
  · obtain ⟨_, wrote', read⟩ := ofYaml_toYaml ordered plain valid (forward wrote)
    obtain rfl := Except.ok.inj (wrote'.symm.trans wrote)
    exact read

end Timeline

end MusicScore
