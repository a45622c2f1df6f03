import Mathlib
import MusicScore.Proofs.Json.Document
import MusicScore.Proofs.Timeline.Record
import MusicScore.Timeline.Basic

/-!
# Timelines with their notes in another order

A timeline is written with its notes in order, so that its documents should not depend on the order in which
the notes are found. But the order leaves out the start in beats, which is written all the same: notes that
agree in all other numbers stay as they were found, and are told apart by their beats in what is written. So
the documents are the same for every order of the notes exactly when notes that agree in all numbers by which
they are ordered agree in their beats as well.
-/
namespace MusicScore

/-- Items of which a function says the same stand in the same places; what is known of the items of either list
goes with it. -/
theorem forall₂_of_map_eq {α β : Type} {f : α → β} {xs ys : List α} {P Q : α → Prop}
    (same : xs.map f = ys.map f) (left : ∀ x ∈ xs, P x) (right : ∀ y ∈ ys, Q y) :
    List.Forall₂ (fun x y => P x ∧ Q y ∧ f x = f y) xs ys := by
  rw [List.forall₂_iff_get]
  refine ⟨by simpa using congrArg List.length same, fun index within withinToo => ?_⟩
  have here : (xs.map f)[index]? = (ys.map f)[index]? := congrArg (·[index]?) same
  refine ⟨left _ (List.get_mem ..), right _ (List.get_mem ..), ?_⟩
  simpa [within, withinToo] using here

/-- An item may be replaced by one of which a function says the same. -/
theorem map_set_of_eq {α β : Type} {f : α → β} {xs : List α} {x : α} {index : Nat} (inside : index < xs.length)
    (same : f x = f xs[index]) : (xs.set index x).map f = xs.map f := by
  rw [List.map_set, same, ← List.map_set, List.set_getElem_self]

/-! ## Records that are equal -/

namespace Datum

/-- Of two fields the names are one, and the values are one and the same or equal. -/
def SameField (x y : String × Datum) : Prop := x.1 = y.1 ∧ (x.2 = y.2 ∨ x.2.same y.2 = true)

/-- Two records are equal, with their fields in one order. -/
def EqualRecords (a b : Datum) : Prop :=
  ∃ parts others, a = .ofParts parts ∧ b = .ofParts others ∧ List.Forall₂ SameField parts others

variable {parts others : List (String × Datum)}

/-- The names of a record are texts. -/
theorem ofParts_eq (parts : List (String × Datum)) : ofParts parts = .record none (Json.namedFields parts) := rfl

/-- A record has its fields only. -/
theorem ofParts_inj : ofParts parts = ofParts others ↔ parts = others := by
  have apart : Function.Injective fun part : String × Datum => (Datum.text part.1, part.2) := by
    rintro ⟨name, value⟩ ⟨other, second⟩ same
    simpa using same
  rw [ofParts_eq, ofParts_eq, record.injEq]
  simp only [true_and]
  exact (List.map_injective_iff.mpr apart).eq_iff

/-- Records are equal when their fields are. -/
theorem equalRecords_ofParts :
    EqualRecords (ofParts parts) (ofParts others) ↔ List.Forall₂ SameField parts others := by
  constructor
  · rintro ⟨_, _, left, right, same⟩
    rwa [ofParts_inj.mp left, ofParts_inj.mp right]
  · exact fun same => ⟨parts, others, rfl, rfl, same⟩

/-- Fields are among others when each is like one of the others. -/
theorem sameFields_iff {fields among : List (Datum × Datum)} :
    sameFields fields among = true ↔
      ∀ x ∈ fields, ∃ y ∈ among, x.1.alike y.1 = true ∧ x.2.alike y.2 = true := by
  induction fields with
  | nil => simp [sameFields]
  | cons x rest inductionHypothesis =>
    obtain ⟨key, value⟩ := x
    simp [sameFields, inductionHypothesis, alike]

/-- Lists are equal when their items are alike. -/
theorem sameItems_iff {items others : List Datum} :
    sameItems items others = true ↔ List.Forall₂ (fun x y => x.alike y = true) items others := by
  induction items generalizing others with
  | nil => cases others <;> simp [sameItems]
  | cons item rest inductionHypothesis =>
    cases others with
    | nil => simp [sameItems]
    | cons other more => simp [sameItems, inductionHypothesis, alike]

/-- The items of lists that are one or equal are one or alike, each with its own. -/
theorem items_of_equal {items others : List Datum}
    (equal : ofList items = ofList others ∨ (ofList items).same (ofList others) = true) :
    List.Forall₂ (fun x y => x = y ∨ x.alike y = true) items others := by
  rcases equal with one | same
  · obtain rfl : items = others := by simpa [ofList] using one
    exact List.forall₂_same.mpr fun x _ => .inl rfl
  · exact (sameItems_iff.mp (by simpa [ofList, Datum.same] using same)).imp fun _ _ => .inr

/-- Records of texts for names are equal when they have as many fields, and each has one with its name and a
like value in the other. -/
theorem same_ofParts_iff :
    (ofParts parts).same (ofParts others) = true ↔
      parts.length = others.length ∧ ∀ x ∈ parts, ∃ y ∈ others, x.1 = y.1 ∧ x.2.alike y.2 = true := by
  have named (a b : String) : (text a).alike (text b) = true ↔ a = b := by simp [alike, same, sameNan]
  rw [ofParts_eq, ofParts_eq]
  simp only [Json.namedFields, same, Bool.and_eq_true, decide_eq_true_eq, List.length_map, sameFields_iff,
    List.mem_map, exists_exists_and_eq_and, forall_exists_index, and_imp, forall_apply_eq_imp_iff₂, named]

/-- Records whose values are equal one by one are equal. -/
theorem same_ofParts (equal : List.Forall₂ (fun x y => x.1 = y.1 ∧ x.2.same y.2 = true) parts others) :
    (ofParts parts).same (ofParts others) = true := by
  refine same_ofParts_iff.mpr ⟨equal.length_eq, fun x member => ?_⟩
  obtain ⟨index, inside, rfl⟩ := List.getElem_of_mem member
  have within : index < others.length := equal.length_eq ▸ inside
  obtain ⟨named, valued⟩ := equal.get inside within
  exact ⟨others[index], List.getElem_mem within, named, by simpa [alike] using .inl valued⟩

end Datum

/-! ## Data with one text -/

namespace Json

/-- Two data are written alike at every level. -/
def SameText (layout : Layout) (a b : Datum) : Prop := ∀ level, writeAt layout level a = writeAt layout level b

variable {layout : Layout}

/-- A whole number is written by its value. -/
theorem sameText_whole {m n : Numeral} (equal : m.value = n.value) :
    SameText layout (.number (.whole m)) (.number (.whole n)) := by
  intro level
  simp only [writeAt, number, equal]

/-- Lists are written alike when their items are. -/
theorem sameText_ofList {items others : List Datum} (each : List.Forall₂ (SameText layout) items others) :
    SameText layout (.ofList items) (.ofList others) := by
  have texts (level : Nat) : writeItems layout level items = writeItems layout level others := by
    induction each with
    | nil => rfl
    | cons first _ inductionHypothesis => simp only [writeItems, first level, inductionHypothesis]
  intro level
  simp only [Datum.ofList, writeAt, texts]

/-- Records are written alike when their values are, under the same names. -/
theorem sameText_ofParts {parts others : List (String × Datum)}
    (each : List.Forall₂ (fun x y => x.1 = y.1 ∧ SameText layout x.2 y.2) parts others) :
    SameText layout (.ofParts parts) (.ofParts others) := by
  have texts (level : Nat) :
      writeFields layout level (namedFields parts) = writeFields layout level (namedFields others) := by
    induction each with
    | nil => rfl
    | cons first _ inductionHypothesis =>
      simp only [namedFields_cons, writeFields, first.1, first.2 level, inductionHypothesis]
  intro level
  simp only [Datum.ofParts_eq, writeAt, texts]

end Json

namespace Timeline

/-! ## Notes as scores have them -/

/-- The numbers of the note are whole, and its start in beats is a finite number. -/
structure Note.IsMeasured (n : Note) : Prop where
  whole : ∀ a ∈ n.keys, ∃ m, a = .whole m
  beat : ∃ q, n.beat = .number (.float (.finite q))

/-- Two measured notes agree in all numbers by which they are ordered, and have one and the same start in
beats. -/
structure Note.Agrees (n m : Note) : Prop where
  left : n.IsMeasured
  right : m.IsMeasured
  points : n.points = m.points
  beat : n.beat = m.beat

/-- The fields of a note whose start in beats is known. -/
def Note.fields (n : Note) : List (String × Datum) :=
  fieldNames.zip (n.keys.map Datum.number) ++ [(beatName, n.beat)]

variable {n m : Note} {t : Timeline}

/-- All its numbers have a place on the line. -/
theorem Note.IsMeasured.isOrdered (measured : n.IsMeasured) : n.isOrdered = true := by
  refine List.all_eq_true.mpr fun a member => ?_
  obtain ⟨m, rfl⟩ := measured.whole a member
  rfl

/-- The record of a note that is measured has its numbers and its start in beats. -/
theorem Note.IsMeasured.toDatum_eq (measured : n.IsMeasured) : n.toDatum = .ofParts n.fields := by
  obtain ⟨q, beat⟩ := measured.beat
  simp only [toDatum, fields, beat]
  rfl

/-- Notes that are measured and equal in their beats have one start in beats. -/
theorem Note.IsMeasured.beat_eq (left : n.IsMeasured) (right : m.IsMeasured)
    (equal : n.beat.same m.beat = true) : n.beat = m.beat := by
  obtain ⟨p, first⟩ := left.beat
  obtain ⟨q, second⟩ := right.beat
  rw [first, second] at equal ⊢
  have values : p = q := by simpa [Datum.same, Number.same, Number.place?, Extended.same] using equal
  rw [values]

/-- A start in beats that is measured is equal to itself. -/
theorem Note.IsMeasured.beat_same (measured : n.IsMeasured) : n.beat.same n.beat = true := by
  obtain ⟨q, beat⟩ := measured.beat
  simp [beat, Datum.same, Number.same, Number.place?, Extended.same]

/-- A start in beats that is measured is a number, so that what is like it is equal to it. -/
theorem Note.IsMeasured.same_of_alike (measured : n.IsMeasured) {value : Datum}
    (alike : n.beat.alike value = true) : n.beat.same value = true := by
  obtain ⟨q, beat⟩ := measured.beat
  rw [beat] at alike ⊢
  cases value with
  | number a => cases a <;> simpa [Datum.alike, Datum.same, Datum.sameNan, Number.alike, Double.sameNan] using alike
  | _ => simp [Datum.alike, Datum.same, Datum.sameNan] at alike

/-- Whole numbers are in one place when their values are equal. -/
theorem point_whole {m n : Numeral} : Number.point (.whole m) = Number.point (.whole n) ↔ m.value = n.value := by
  simp [Number.point, Number.place?]

/-- Notes that agree have the same values for their numbers, though these may have been given otherwise. -/
theorem Note.Agrees.values (agrees : n.Agrees m) :
    List.Forall₂ (fun a b => ∃ p q, a = .whole p ∧ b = .whole q ∧ p.value = q.value) n.keys m.keys := by
  refine (forall₂_of_map_eq agrees.points agrees.left.whole agrees.right.whole).imp ?_
  rintro _ _ ⟨⟨p, rfl⟩, ⟨q, rfl⟩, same⟩
  exact ⟨p, q, rfl, rfl, point_whole.mp same⟩

/-- What holds of the numbers of two notes and of their beats holds of their fields. -/
theorem Note.forall₂_fields {R : Datum → Datum → Prop}
    (numbers : List.Forall₂ (fun a b => R (.number a) (.number b)) n.keys m.keys) (beats : R n.beat m.beat) :
    List.Forall₂ (fun x y => x.1 = y.1 ∧ R x.2 y.2) n.fields m.fields := by
  simpa [fields, fieldNames, keys, beats] using numbers

/-- Notes that agree have equal records. -/
theorem Note.Agrees.alike (agrees : n.Agrees m) : n.toDatum.alike m.toDatum = true := by
  have numbers : List.Forall₂ (fun a b => (Datum.number a).same (.number b) = true) n.keys m.keys := by
    refine agrees.values.imp ?_
    rintro _ _ ⟨p, q, rfl, rfl, same⟩
    simp [Datum.same, Number.same, Number.place?, Extended.same, same]
  have beats : n.beat.same m.beat = true := agrees.beat ▸ agrees.left.beat_same
  have equal := forall₂_fields (R := fun v w => v.same w = true) numbers beats
  rw [agrees.left.toDatum_eq, agrees.right.toDatum_eq, Datum.alike, Datum.same_ofParts equal, Bool.true_or]

/-- Notes that agree are written alike. -/
theorem Note.Agrees.sameText (agrees : n.Agrees m) (layout : Json.Layout) :
    Json.SameText layout n.toDatum m.toDatum := by
  have numbers : List.Forall₂ (fun a b => Json.SameText layout (.number a) (.number b)) n.keys m.keys := by
    refine agrees.values.imp ?_
    rintro _ _ ⟨p, q, rfl, rfl, same⟩
    exact Json.sameText_whole same
  have beats : Json.SameText layout n.beat m.beat := agrees.beat ▸ fun _ => rfl
  rw [agrees.left.toDatum_eq, agrees.right.toDatum_eq]
  exact Json.sameText_ofParts (forall₂_fields numbers beats)

/-- Measured notes with equal records have equal beats. -/
theorem Note.IsMeasured.beat_same_of_record (left : n.IsMeasured) (right : m.IsMeasured)
    (equal : n.toDatum = m.toDatum ∨ n.toDatum.alike m.toDatum = true) : n.beat.same m.beat = true := by
  rw [left.toDatum_eq, right.toDatum_eq] at equal
  have listed : (beatName, n.beat) ∈ n.fields := List.mem_append_right _ (List.mem_singleton.mpr rfl)
  have only {value : Datum} (member : (beatName, value) ∈ m.fields) : value = m.beat := by
    simpa [fields, fieldNames, keys, beatName] using member
  rcases equal with one | same
  · rw [← only (Datum.ofParts_inj.mp one ▸ listed)]
    exact left.beat_same
  · have records : (Datum.ofParts n.fields).same (.ofParts m.fields) = true := by
      simpa [Datum.alike, Datum.sameNan, Datum.ofParts_eq] using same
    obtain ⟨⟨name, value⟩, inside, rfl, alike⟩ := (Datum.same_ofParts_iff.mp records).2 _ listed
    exact only inside ▸ left.same_of_alike alike

/-! ## The documents of a timeline -/

/-- Notes that agree in all numbers by which they are ordered have equal starts in beats. -/
def IsSteady (t : Timeline) : Prop :=
  ∀ n ∈ t.notes, ∀ m ∈ t.notes, n.same m = true → n.beat.same m.beat = true

/-- The timelines have equal records and the same text in JSON, or are refused alike. -/
structure SameDocuments (t other : Timeline) : Prop where
  record : (∃ fault, t.toDatum = .error fault ∧ other.toDatum = .error fault) ∨
    ∃ a b, t.toDatum = .ok a ∧ other.toDatum = .ok b ∧ a.EqualRecords b
  json : ∀ layout, t.toJson layout = other.toJson layout

/-- Whether a timeline has a record does not depend on its notes; if it has, they are the last field. -/
theorem record_of_notes (t : Timeline) :
    (∃ fault, ∀ notes, { t with notes := notes }.record = .error fault) ∨
      ∃ parts, ∀ notes, { t with notes := notes }.record =
        .ok (.ofParts (parts ++ [("notes", .ofList (notes.map Note.toDatum))])) := by
  cases tracks : t.tracks.mapM Track.toDatum with
  | error fault =>
    refine .inl ⟨fault, fun notes => ?_⟩
    rw [record, tracks]
    rfl
  | ok records =>
    refine .inr ⟨t.heading ++ [("tracks", .ofList records)], fun notes => ?_⟩
    rw [record, tracks, List.append_assoc]
    rfl

/-- A timeline whose tracks are in order is written with its notes in order. -/
theorem toDatum_of_notes (sorted : Track.sort t.tracks = .ok t.tracks) (notes : List Note) :
    { t with notes := notes }.toDatum = { t with notes := Note.sort notes }.record := by
  rw [toDatum, canonical, sorted]
  rfl

/-- Records that differ in their last fields only are equal when these are. -/
theorem equalRecords_append {parts : List (String × Datum)} {name : String} {a b : Datum} :
    (Datum.ofParts (parts ++ [(name, a)])).EqualRecords (.ofParts (parts ++ [(name, b)])) ↔
      a = b ∨ a.same b = true := by
  rw [Datum.equalRecords_ofParts, ← List.forall₂_reverse_iff]
  simp [Datum.SameField]

/-- Records that differ in their last fields only are written alike when these are. -/
theorem sameText_append {layout : Json.Layout} {parts : List (String × Datum)} {name : String} {a b : Datum}
    (last : Json.SameText layout a b) :
    Json.SameText layout (.ofParts (parts ++ [(name, a)])) (.ofParts (parts ++ [(name, b)])) := by
  refine Json.sameText_ofParts ?_
  rw [← List.forall₂_reverse_iff]
  simpa [Json.SameText] using last

/-- Notes that are permuted come out of the sorting as others with which they agree, if the order decides
their beats. -/
theorem agrees_sort (steady : t.IsSteady) (measured : ∀ n ∈ t.notes, n.IsMeasured) {notes : List Note}
    (permuted : notes.Perm t.notes) : List.Forall₂ Note.Agrees (Note.sort notes) (Note.sort t.notes) := by
  have ordered : ∀ n ∈ t.notes, n.isOrdered = true := fun n member => (measured n member).isOrdered
  have inside : ∀ n ∈ Note.sort notes, n ∈ t.notes := fun n member =>
    permuted.mem_iff.mp ((Note.sort_perm notes).mem_iff.mp member)
  have insideToo : ∀ n ∈ Note.sort t.notes, n ∈ t.notes := fun n => (Note.sort_perm t.notes).mem_iff.mp
  refine (forall₂_of_map_eq (Note.map_points_sort ordered permuted) inside insideToo).imp ?_
  rintro n m ⟨left, right, same⟩
  have equal := steady n left m right ((Note.same_iff (ordered n left) (ordered m right)).mpr same)
  exact ⟨measured n left, measured m right, same, (measured n left).beat_eq (measured m right) equal⟩

/-- Where the order decides the beats, permuted notes make no difference to the documents. -/
theorem sameDocuments_of_perm (sorted : Track.sort t.tracks = .ok t.tracks)
    (measured : ∀ n ∈ t.notes, n.IsMeasured) {notes : List Note} (permuted : notes.Perm t.notes)
    (steady : (∃ record, t.toDatum = .ok record) → t.IsSteady) : { t with notes := notes }.SameDocuments t := by
  have own : t.toDatum = { t with notes := Note.sort t.notes }.record := toDatum_of_notes sorted t.notes
  have other := toDatum_of_notes sorted notes
  rcases t.record_of_notes with ⟨fault, refused⟩ | ⟨parts, recorded⟩
  · rw [refused] at own other
    exact ⟨.inl ⟨fault, other, own⟩, fun layout => by rw [toJson, toJson, own, other]⟩
  · rw [recorded] at own other
    have agree := agrees_sort (steady ⟨_, own⟩) measured permuted
    have items : List.Forall₂ (fun x y => x.alike y = true) ((Note.sort notes).map Note.toDatum)
        ((Note.sort t.notes).map Note.toDatum) := by
      rw [List.forall₂_map_left_iff, List.forall₂_map_right_iff]
      exact agree.imp fun _ _ => Note.Agrees.alike
    have texts (layout : Json.Layout) : List.Forall₂ (Json.SameText layout) ((Note.sort notes).map Note.toDatum)
        ((Note.sort t.notes).map Note.toDatum) := by
      rw [List.forall₂_map_left_iff, List.forall₂_map_right_iff]
      exact agree.imp fun _ _ agrees => agrees.sameText layout
    have equal : (Datum.ofList ((Note.sort notes).map Note.toDatum)).same
        (.ofList ((Note.sort t.notes).map Note.toDatum)) = true := by
      rw [Datum.ofList, Datum.ofList, Datum.same, Datum.sameItems_iff]
      exact items
    refine ⟨.inr ⟨_, _, other, own, equalRecords_append.mpr (.inr equal)⟩, fun layout => ?_⟩
    rw [toJson, toJson, own, other]
    exact sameText_append (Json.sameText_ofList (texts layout)) 0

/-- If permuted notes make no difference to the record of a timeline in order, then notes that agree in all numbers
by which they are ordered have equal beats: the two could change places. -/
theorem steady_of_sameDocuments (sorted : Track.sort t.tracks = .ok t.tracks)
    (ascending : t.notes.Pairwise fun n m => n.points ≤ m.points) (measured : ∀ n ∈ t.notes, n.IsMeasured)
    (same : ∀ notes : List Note, notes.Perm t.notes → { t with notes := notes }.SameDocuments t)
    (recorded : ∃ record, t.toDatum = .ok record) : t.IsSteady := by
  intro n left m right agree
  obtain ⟨i, inside, rfl⟩ := List.getElem_of_mem left
  obtain ⟨j, insideToo, rfl⟩ := List.getElem_of_mem right
  have ordered : ∀ n ∈ t.notes, n.isOrdered = true := fun n member => (measured n member).isOrdered
  have places := (Note.same_iff (ordered _ left) (ordered _ right)).mp agree
  -- The numbers by which notes are ordered stay where they are, so that sorting leaves the new order alone.
  let swapped := (t.notes.set i t.notes[j]).set j t.notes[i]
  have permuted : swapped.Perm t.notes := List.set_set_perm inside insideToo
  have unmoved : swapped.map Note.points = t.notes.map Note.points := by
    rw [List.map_set, map_set_of_eq inside places.symm, ← List.map_set, map_set_of_eq insideToo places]
  have still : Note.sort swapped = swapped := by
    refine Note.sort_of_pairwise (fun n member => ordered n (permuted.mem_iff.mp member)) ?_
    rw [← List.pairwise_map (f := Note.points) (R := (· ≤ ·)), unmoved]
    exact List.pairwise_map.mpr ascending
  have own : t.toDatum = { t with notes := Note.sort t.notes }.record := toDatum_of_notes sorted t.notes
  have other := toDatum_of_notes sorted swapped
  rw [Note.sort_of_pairwise ordered ascending] at own
  rw [still] at other
  obtain ⟨record, made⟩ := recorded
  rcases (same swapped permuted).record with ⟨fault, _, refused⟩ | ⟨a, b, first, second, equal⟩
  · cases refused.symm.trans made
  · rcases t.record_of_notes with ⟨fault, refused⟩ | ⟨parts, listed⟩
    · cases made.symm.trans (own.trans (refused _))
    · obtain rfl := Except.ok.inj (first.symm.trans (other.trans (listed _)))
      obtain rfl := Except.ok.inj (second.symm.trans (own.trans (listed _)))
      have items := Datum.items_of_equal (equalRecords_append.mp equal)
      rw [List.forall₂_map_left_iff, List.forall₂_map_right_iff] at items
      have within : j < swapped.length := by simpa [swapped] using insideToo
      have here := items.get within insideToo
      exact (measured _ left).beat_same_of_record (measured _ right) (by simpa [swapped] using here)

/-- The documents of a timeline in order are the same for every order of its notes exactly when notes that agree
in all numbers by which they are ordered have equal beats, unless the timeline has no documents at all. -/
theorem sameDocuments_iff (sorted : Track.sort t.tracks = .ok t.tracks)
    (ascending : t.notes.Pairwise fun n m => n.points ≤ m.points) (measured : ∀ n ∈ t.notes, n.IsMeasured) :
    (∀ notes : List Note, notes.Perm t.notes → { t with notes := notes }.SameDocuments t) ↔
      ((∃ record, t.toDatum = .ok record) → t.IsSteady) := by
  constructor
  · exact steady_of_sameDocuments sorted ascending measured
  · exact fun steady notes permuted => sameDocuments_of_perm sorted measured permuted steady

end Timeline

end MusicScore
