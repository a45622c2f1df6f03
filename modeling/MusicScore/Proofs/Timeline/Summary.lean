import Mathlib
import MusicScore.Proofs.Datum.Keys
import MusicScore.Proofs.Outcome
import MusicScore.Timeline.Summary

/-!
# What a summary counts

A summary goes through the tracks and sets the count of each under its label. A label that was used before is
set again, and what stood there is lost. So the counts in a summary never come to more than the notes on the
channels of the tracks, and they come to just as many exactly when every track whose label is used again later
has no notes.
-/
namespace MusicScore.Timeline

/-! ## Tables -/

section

variable {α β : Type} {like : α → α → Bool} {P : α → Prop} {key other : α} {value : α × β}
  {entries : List (α × β)} {change : Option β → β}

/-- A likeness of keys can be turned round and carried on. -/
structure IsLikeness (P : α → Prop) (like : α → α → Bool) : Prop where
  symm : ∀ {a b}, P a → like a b = true → like b a = true
  trans : ∀ {a b c}, P a → like a b = true → like b c = true → like a c = true

/-- The first value under a key. -/
def lookup (like : α → α → Bool) (key : α) (entries : List (α × β)) : Option β :=
  (entries.find? fun entry => like entry.1 key).map Prod.snd

/-- Change the first value under a key, or put one at the end. -/
def upsert (like : α → α → Bool) (key : α) (change : Option β → β) : List (α × β) → List (α × β)
  | [] => [(key, change none)]
  | entry :: rest =>
    if like entry.1 key then (entry.1, change (some entry.2)) :: rest else entry :: upsert like key change rest

/-- Under the first entry that is like the key stands its value; otherwise the rest is searched. -/
theorem lookup_cons (like : α → α → Bool) (key : α) (value : α × β) (entries : List (α × β)) :
    lookup like key (value :: entries) = if like value.1 key then some value.2 else lookup like key entries := by
  unfold lookup
  by_cases found : like value.1 key <;> simp [found]

/-- Keys that are alike have one value. -/
theorem lookup_congr (likeness : IsLikeness P like) (keys : ∀ entry ∈ entries, P entry.1) (own : P key)
    (same : like key other = true) : lookup like key entries = lookup like other entries := by
  induction entries with
  | nil => rfl
  | cons entry rest inductionHypothesis =>
    obtain ⟨first, others⟩ := List.forall_mem_cons.mp keys
    have both : like entry.1 key = like entry.1 other := by
      rw [Bool.eq_iff_iff]
      exact ⟨fun found => likeness.trans first found same,
        fun found => likeness.symm own (likeness.trans own same (likeness.symm first found))⟩
    rw [lookup_cons, lookup_cons, both, inductionHypothesis others]

/-- A change under one key shows under every key that is like it, and under no other. -/
theorem lookup_upsert (likeness : IsLikeness P like) (keys : ∀ entry ∈ entries, P entry.1) (own : P key) :
    lookup like other (upsert like key change entries) =
      if like key other then some (change (lookup like key entries)) else lookup like other entries := by
  induction entries with
  | nil => simp [upsert, lookup]
  | cons entry rest inductionHypothesis =>
    obtain ⟨first, others⟩ := List.forall_mem_cons.mp keys
    by_cases here : like entry.1 key = true
    · have both : like entry.1 other = like key other := by
        rw [Bool.eq_iff_iff]
        exact ⟨likeness.trans own (likeness.symm first here), likeness.trans first here⟩
      simp only [upsert, here, if_true, lookup_cons, both]
      split <;> rfl
    · have apart : like key other = true → like entry.1 other = false := by
        intro same
        rw [← Bool.not_eq_true]
        exact fun found => here (likeness.trans first found (likeness.symm own same))
      simp only [upsert, here, if_false, lookup_cons, inductionHypothesis others, Bool.false_eq_true]
      by_cases same : like key other = true
      · simp [same, apart same]
      · simp [same]

/-- The keys of a table stay, and the key of a change may come to them. -/
theorem keys_upsert (keys : ∀ entry ∈ entries, P entry.1) (own : P key) :
    ∀ entry ∈ upsert like key change entries, P entry.1 := by
  induction entries with
  | nil => simpa [upsert] using own
  | cons entry rest inductionHypothesis =>
    obtain ⟨first, others⟩ := List.forall_mem_cons.mp keys
    unfold upsert
    split
    · exact List.forall_mem_cons.mpr ⟨first, others⟩
    · exact List.forall_mem_cons.mpr ⟨first, inductionHypothesis others⟩

end

/-! ## Counts under labels -/

/-- The sum of the counts. -/
def total (lines : List (Datum × Nat)) : Nat := (lines.map Prod.snd).sum

/-- The count under a label; zero where there is none. -/
def countUnder (label : Datum) (lines : List (Datum × Nat)) : Nat := (lookup Datum.alike label lines).getD 0

/-- The lines that come of counts set under their labels, one after the other. -/
def tally (counts : List (Datum × Nat)) : List (Datum × Nat) :=
  counts.foldl (fun lines count => setCount count.1 count.2 lines) []

/-- No count under a label that is used again later is other than zero. -/
def IsKept (counts : List (Datum × Nat)) : Prop :=
  counts.Pairwise fun earlier later => earlier.1.alike later.1 = true → earlier.2 = 0

variable {label other : Datum} {count : Nat} {lines counts : List (Datum × Nat)} {t : Timeline}

/-- The likeness of labels. -/
theorem likeness_alike : IsLikeness (fun label : Datum => label.isKey = true) Datum.alike where
  symm := Datum.alike_symm
  trans := Datum.alike_trans

/-- A count is set whatever stood under its label. -/
theorem setCount_eq (label : Datum) (count : Nat) (lines : List (Datum × Nat)) :
    setCount label count lines = upsert Datum.alike label (fun _ => count) lines := by
  induction lines with
  | nil => rfl
  | cons line rest inductionHypothesis => rw [setCount, upsert, inductionHypothesis]

/-- Setting a count adds it, and takes away the one that stood there. -/
theorem total_setCount (label : Datum) (count : Nat) (lines : List (Datum × Nat)) :
    total (setCount label count lines) + countUnder label lines = total lines + count := by
  induction lines with
  | nil => simp [setCount, countUnder, lookup, total]
  | cons line rest inductionHypothesis =>
    unfold countUnder total at inductionHypothesis ⊢
    rw [setCount, lookup_cons]
    split
    · simp only [List.map_cons, List.sum_cons, Option.getD_some]
      omega
    · simp only [List.map_cons, List.sum_cons]
      omega

/-- The labels of the lines are keys if those of the counts are. -/
theorem keys_tally (keys : ∀ count ∈ counts, count.1.isKey = true) : ∀ line ∈ tally counts, line.1.isKey = true := by
  induction counts using List.reverseRecOn with
  | nil => simp [tally]
  | append_singleton earlier last inductionHypothesis =>
    obtain ⟨before, own⟩ := List.forall_mem_append.mp keys
    unfold tally at inductionHypothesis ⊢
    rw [List.foldl_append, List.foldl_cons, List.foldl_nil, setCount_eq]
    exact keys_upsert (P := fun label : Datum => label.isKey = true) (inductionHypothesis before)
      (own last (List.mem_singleton.mpr rfl))

/-- A further count stands under every label that is like its own. -/
theorem countUnder_tally_append {last : Datum × Nat} (keys : ∀ count ∈ counts, count.1.isKey = true)
    (own : last.1.isKey = true) :
    countUnder label (tally (counts ++ [last])) =
      if last.1.alike label then last.2 else countUnder label (tally counts) := by
  have next : tally (counts ++ [last]) = setCount last.1 last.2 (tally counts) := by simp [tally]
  unfold countUnder
  rw [next, setCount_eq, lookup_upsert likeness_alike (keys_tally keys) own]
  split <;> rfl

/-- As long as only zeros have been lost, zero stands under a label exactly when all counts for it were zero. -/
theorem countUnder_tally_eq_zero (kept : IsKept counts) (keys : ∀ count ∈ counts, count.1.isKey = true) :
    countUnder label (tally counts) = 0 ↔ ∀ count ∈ counts, count.1.alike label = true → count.2 = 0 := by
  induction counts using List.reverseRecOn with
  | nil => simp [tally, countUnder, lookup]
  | append_singleton earlier last inductionHypothesis =>
    obtain ⟨before, own⟩ := List.forall_mem_append.mp keys
    obtain ⟨keptBefore, _, lost⟩ := List.pairwise_append.mp kept
    have lastKey := own last (List.mem_singleton.mpr rfl)
    rw [countUnder_tally_append before lastKey, List.forall_mem_append, List.forall_mem_singleton]
    by_cases here : last.1.alike label = true
    · have zero (count : Datum × Nat) (member : count ∈ earlier) (same : count.1.alike label = true) : count.2 = 0 :=
        lost count member last (List.mem_singleton.mpr rfl)
          (Datum.alike_trans (before count member) same (Datum.alike_symm lastKey here))
      simpa [here] using fun _ => zero
    · simpa [here] using inductionHypothesis keptBefore before

/-- The lines come to at most the counts, and to just as much exactly when only zeros are lost. -/
theorem total_tally (keys : ∀ count ∈ counts, count.1.isKey = true) :
    total (tally counts) ≤ total counts ∧ (total (tally counts) = total counts ↔ IsKept counts) := by
  -- The last count is taken off: it is the one that wins, and what it replaces decides whether a count is lost.
  induction counts using List.reverseRecOn with
  | nil => simp [tally, total, IsKept]
  | append_singleton earlier last inductionHypothesis =>
    obtain ⟨before, own⟩ := List.forall_mem_append.mp keys
    have lastKey := own last (List.mem_singleton.mpr rfl)
    obtain ⟨within, exact_iff⟩ := inductionHypothesis before
    have next : tally (earlier ++ [last]) = setCount last.1 last.2 (tally earlier) := by simp [tally]
    have sum : total (earlier ++ [last]) = total earlier + last.2 := by simp [total]
    have step := total_setCount last.1 last.2 (tally earlier)
    have split : IsKept (earlier ++ [last]) ↔
        IsKept earlier ∧ ∀ count ∈ earlier, count.1.alike last.1 = true → count.2 = 0 := by
      simp [IsKept, List.pairwise_append]
    rw [next, sum, split]
    refine ⟨by omega, ?_⟩
    constructor
    · intro same
      have kept : IsKept earlier := exact_iff.mp (by omega)
      exact ⟨kept, (countUnder_tally_eq_zero kept before).mp (by omega)⟩
    · rintro ⟨kept, lost⟩
      have same := exact_iff.mpr kept
      have zero := (countUnder_tally_eq_zero kept before).mpr lost
      omega

/-! ## Notes by channel -/

/-- The notes on the channel of a track. -/
def notesOf (t : Timeline) (track : Track) : List Note :=
  t.notes.filter fun n => (Datum.number n.channel).same track.channel

/-- The likeness of channels. -/
theorem likeness_same : IsLikeness (fun _ : Number => True) Number.same where
  symm := fun _ => Number.same_symm
  trans := fun _ => Number.same_trans

/-- A note comes to the others of its channel. -/
theorem addToChannel_eq (n : Note) (groups : List (Number × List Note)) :
    addToChannel n groups = upsert Number.same n.channel (fun group => group.getD [] ++ [n]) groups := by
  induction groups with
  | nil => rfl
  | cons group rest inductionHypothesis =>
    rw [addToChannel, upsert, inductionHypothesis]
    rfl

/-- Under a channel stand the notes of that channel in their order. -/
theorem lookup_byChannel (t : Timeline) (channel : Number) :
    (lookup Number.same channel t.byChannel).getD [] = t.notes.filter fun n => n.channel.same channel := by
  unfold byChannel
  induction t.notes using List.reverseRecOn with
  | nil => simp [lookup]
  | append_singleton earlier n inductionHypothesis =>
    rw [List.foldl_append, List.foldl_cons, List.foldl_nil, addToChannel_eq,
      lookup_upsert likeness_same (fun _ _ => trivial) trivial, List.filter_append, ← inductionHypothesis]
    by_cases here : n.channel.same channel = true
    · rw [if_pos here, lookup_congr likeness_same (fun _ _ => trivial) trivial here]
      simp [here]
    · simp [here]

/-- The count of a track with a label that is a key is the number of notes on its channel. -/
theorem countOf_eq {track : Track} {channel : Number} (numbered : track.channel = .number channel) :
    t.countOf track =
      if track.label.isKey = true then .ok (t.notesOf track).length else .error .wrongKind := by
  have kind : (Datum.number channel).isKey = true := rfl
  have listed := lookup_byChannel t channel
  unfold countOf notesOf
  simp only [numbered, Datum.same, kind, Bool.and_true, ← listed, lookup]
  cases t.byChannel.find? fun group => group.1.same channel <;> rfl

/-- The counts are set track by track, unless the label of a track is no key. -/
theorem counts_eq (numbered : ∀ track ∈ t.tracks, ∃ channel, track.channel = .number channel) :
    t.counts =
      if ∀ track ∈ t.tracks, track.label.isKey = true then
        .ok (tally (t.tracks.map fun track => (track.label, (t.notesOf track).length)))
      else .error .wrongKind := by
  unfold counts tally
  rw [List.foldl_map]
  -- The refusal does not depend on the lines so far, so that the induction goes over all of them.
  generalize ([] : List (Datum × Nat)) = lines
  revert numbered
  generalize t.tracks = tracks
  intro numbered
  induction tracks generalizing lines with
  | nil => simp [pure, Except.pure]
  | cons track rest inductionHypothesis =>
    obtain ⟨⟨channel, first⟩, others⟩ := List.forall_mem_cons.mp numbered
    rw [List.foldlM_cons, countOf_eq first]
    by_cases key : track.label.isKey = true
    · simpa [key, bind, Except.bind, pure, Except.pure] using inductionHypothesis _ others
    · simp [key, bind, Except.bind]

/-- Where the notes on the channels of the tracks are all the notes, the counts of a summary come to the number of
notes exactly when every track whose label is used again later has no notes. There is a summary if all labels are
keys. -/
theorem summary_accounts_iff (numbered : ∀ track ∈ t.tracks, ∃ channel, track.channel = .number channel)
    (covered : (t.tracks.map fun track => (t.notesOf track).length).sum = t.noteCount) :
    ((∃ x, t.summary = .ok x) ↔ ∀ track ∈ t.tracks, track.label.isKey = true) ∧
      ∀ x, t.summary = .ok x → ((x.tracks.map Prod.snd).sum = x.noteCount ↔
        t.tracks.Pairwise fun earlier later =>
          earlier.label.alike later.label = true → t.notesOf earlier = []) := by
  have counted := counts_eq numbered
  by_cases keys : ∀ track ∈ t.tracks, track.label.isKey = true
  · rw [if_pos keys] at counted
    refine ⟨⟨fun _ => keys, fun _ => ⟨_, Outcome.bind_eq_ok.mpr ⟨_, counted, rfl⟩⟩⟩, fun x summarized => ?_⟩
    obtain ⟨lines, made, same⟩ := Outcome.bind_eq_ok.mp summarized
    cases same
    obtain rfl := Except.ok.inj (counted.symm.trans made)
    let counts := t.tracks.map fun track => (track.label, (t.notesOf track).length)
    have sum : total counts = t.noteCount := by
      simpa only [total, counts, List.map_map, Function.comp_def] using covered
    have labels : ∀ count ∈ counts, count.1.isKey = true := List.forall_mem_map.mpr keys
    have accounted := (total_tally labels).2
    rw [sum, IsKept, List.pairwise_map] at accounted
    simp only [List.length_eq_zero_iff] at accounted
    exact accounted
  · rw [if_neg keys] at counted
    have refused : t.summary = .error .wrongKind := Outcome.bind_eq_error.mpr (.inl counted)
    simp [refused, keys]

end MusicScore.Timeline
