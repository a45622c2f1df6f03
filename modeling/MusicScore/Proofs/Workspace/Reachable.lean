import MusicScore.Proofs.Workspace.Effects

/-!
# Workspaces that can be made

A workspace comes of commands to an empty one. Whatever the commands are, and whether they are refused or
not, a phrase that it keeps is one that additions make, and every phrase of a part starts at beat zero of
the part or later. So no event in the timeline of a part starts before beat zero, also where a phrase grew
after it had been put into the part.
-/
namespace MusicScore.Workspace

/-- The workspaces that come of commands to an empty one, refused commands included. -/
inductive Reachable : Workspace → Prop where
  | empty : Reachable empty
  | run {w : Workspace} (before : Reachable w) (command : Command) : Reachable (w.run command).1

/-- The workspace that commands make of an empty one. -/
def after (commands : List Command) : Workspace := commands.foldl (fun w command => (w.run command).1) empty

/-- A workspace can be made exactly when it is what some list of commands makes. -/
theorem reachable_iff {w : Workspace} : w.Reachable ↔ ∃ commands, w = after commands := by
  constructor
  · intro reachable
    induction reachable with
    | empty => exact ⟨[], rfl⟩
    | run _ command inductionHypothesis =>
      obtain ⟨commands, rfl⟩ := inductionHypothesis
      exact ⟨commands ++ [command], by simp [after]⟩
  · rintro ⟨commands, rfl⟩
    unfold after
    suffices run : ∀ {w : Workspace}, w.Reachable →
        (commands.foldl (fun w command => (w.run command).1) w).Reachable from run .empty
    induction commands with
    | nil => exact id
    | cons command rest inductionHypothesis => exact fun before => inductionHypothesis (before.run command)

/-- The key of middle C is one of the keys. -/
theorem middleC_inRange : 0 ≤ (Numeral.plain 60).value ∧ (Numeral.plain 60).value ≤ 127 := by decide

/-- A middle C of a given length. -/
def middleC (length : Duration) : Datum := .event (.note ⟨⟨.plain 60, middleC_inRange⟩, length, .standard⟩)

/-- A workspace with a score of one part, which has one phrase, from beat one on. -/
def solo (title : String) (tempo : Int) (line : List Phrase.Addition) : Workspace :=
  .after (.newPhrase (.text "Line") :: line.map (.grow ⟨0⟩) ++
    [.newPart (.ofInt 40) (.text "Violin"),
      .placePhrase ⟨0⟩ ⟨0⟩ (.ofInt 1),
      .newScore (.text title) (.ofInt tempo) none,
      .addPart ⟨0⟩ ⟨0⟩])

/-- Every phrase that is kept can be made by additions. -/
def PhrasesReachable (w : Workspace) : Prop := ∀ p ∈ w.phrases, p.Reachable

/-- Every phrase of a part starts at beat zero of the part or later. -/
def StartsInParts (w : Workspace) : Prop := ∀ part ∈ w.parts, ∀ x ∈ part.placed, 0 ≤ x.start

/-- What is read under a number is kept there, or else it is an empty phrase. -/
theorem phrase_reachable {w : Workspace} (kept : w.PhrasesReachable) (id : PhraseId) :
    (w.phrase id).Reachable := by
  unfold phrase
  cases found : w.phrases[id.number]? with
  | none => exact .empty _
  | some p => exact kept p (List.mem_of_getElem? found)

/-- What is read under a number is kept there, or else it is a part without phrases. -/
theorem partEntry_starts {w : Workspace} (kept : w.StartsInParts) (id : PartId) :
    ∀ x ∈ (w.partEntry id).placed, 0 ≤ x.start := by
  unfold partEntry
  cases found : w.parts[id.number]? with
  | none => simp [PartOf.empty]
  | some part => exact kept part (List.mem_of_getElem? found)

/-- Phrases that can be made stay so when one that can be made takes the place of another. -/
theorem PhrasesReachable.setPhrase {w : Workspace} (kept : w.PhrasesReachable) (id : PhraseId) {p : Phrase}
    (made : p.Reachable) : (w.setPhrase id p).PhrasesReachable := by
  intro q member
  rcases List.mem_or_eq_of_mem_set member with earlier | rfl
  · exact kept q earlier
  · exact made

/-- Phrases that can be made stay so when one that can be made is kept as well. -/
theorem PhrasesReachable.keepPhrase {w : Workspace} (kept : w.PhrasesReachable) {p : Phrase}
    (made : p.Reachable) : (w.keepPhrase p).2.PhrasesReachable := by
  intro q member
  rcases List.mem_append.mp member with earlier | last
  · exact kept q earlier
  · exact List.mem_singleton.mp last ▸ made

/-- Copying a part keeps copies of its phrases, each of which can be made. -/
theorem PhrasesReachable.copyPart {w : Workspace} (kept : w.PhrasesReachable) (id : PartId) :
    (w.copyPart id).2.PhrasesReachable := by
  intro q member
  rcases List.mem_append.mp member with earlier | copied
  · exact kept q earlier
  · obtain ⟨placed, inside, rfl⟩ := List.mem_map.mp copied
    obtain ⟨original, _, rfl⟩ := List.mem_map.mp inside
    exact phrase_reachable kept original.content

/-- Starts stay in the parts when a part with such starts takes the place of another. -/
theorem StartsInParts.setPart {w : Workspace} (kept : w.StartsInParts) (id : PartId)
    {part : PartOf PhraseId} (inside : ∀ x ∈ part.placed, 0 ≤ x.start) :
    (w.setPart id part).StartsInParts := by
  intro other member
  rcases List.mem_or_eq_of_mem_set member with earlier | rfl
  · exact kept other earlier
  · exact inside

/-- A copy of a part has the starts of the part. -/
theorem StartsInParts.copyPart {w : Workspace} (kept : w.StartsInParts) (id : PartId) :
    (w.copyPart id).2.StartsInParts := by
  intro other member
  rcases List.mem_append.mp member with earlier | last
  · exact kept other earlier
  · obtain rfl := List.mem_singleton.mp last
    intro x placed
    obtain ⟨index, inside, rfl⟩ := List.mem_mapIdx.mp placed
    exact partEntry_starts kept id (w.partEntry id).placed[index] (List.getElem_mem inside)

/-- A phrase that is put into a part and not refused starts at beat zero or later. -/
theorem place_starts {part next : PartOf PhraseId} {content : PhraseId} {length start : Rat}
    (placed : part.place content length start = .ok next) (inside : ∀ x ∈ part.placed, 0 ≤ x.start) :
    ∀ x ∈ next.placed, 0 ≤ x.start := by
  obtain ⟨late, rfl⟩ := PartOf.place_eq_ok.mp placed
  intro x member
  rcases List.mem_append.mp member with earlier | last
  · exact inside x earlier
  · obtain rfl := List.mem_singleton.mp last
    exact late

/-- Every effect keeps both properties. -/
theorem Effect.keeps {w next : Workspace} (effect : w.Effect next) (phrases : w.PhrasesReachable)
    (starts : w.StartsInParts) : next.PhrasesReachable ∧ next.StartsInParts := by
  cases effect with
  | onScores scores => exact ⟨phrases, starts⟩
  | phraseKept made =>
    have reachable := made.elim id fun ⟨original, same⟩ => same ▸ phrase_reachable phrases original
    exact ⟨phrases.keepPhrase reachable, starts⟩
  | partKept instrument name =>
    refine ⟨phrases, fun part member => ?_⟩
    rcases List.mem_append.mp member with earlier | last
    · exact starts part earlier
    · obtain rfl := List.mem_singleton.mp last
      simp [PartOf.empty]
  | partCopied part scores => exact ⟨phrases.copyPart part, starts.copyPart part⟩
  | phrasePlaced part phrase placed =>
    have copied := phrases.keepPhrase (phrase_reachable phrases phrase)
    have unchanged : (w.keepPhrase (w.phrase phrase)).2.StartsInParts := starts
    exact ⟨copied, unchanged.setPart part (place_starts placed (partEntry_starts starts part))⟩

/-- Every command keeps both properties, whether it is refused or not. -/
theorem run_keeps {w : Workspace} (phrases : w.PhrasesReachable) (starts : w.StartsInParts)
    (command : Command) :
    (w.run command).1.PhrasesReachable ∧ (w.run command).1.StartsInParts := by
  rcases grow_or_effect w command with ⟨id, addition, rfl⟩ | ⟨_, effect⟩
  · rw [run_grow]
    exact ⟨phrases.setPhrase id ((phrase_reachable phrases id).grow addition), starts⟩
  · exact effect.keeps phrases starts

/-- Both properties hold of every workspace that can be made. -/
theorem Reachable.invariant {w : Workspace} (reachable : w.Reachable) :
    w.PhrasesReachable ∧ w.StartsInParts := by
  induction reachable with
  | empty => exact ⟨by simp [PhrasesReachable, Workspace.empty], by simp [StartsInParts, Workspace.empty]⟩
  | run _ command inductionHypothesis => exact run_keeps inductionHypothesis.1 inductionHypothesis.2 command

/-- No event of a part starts before beat zero. -/
theorem Reachable.timeline_start_nonneg {w : Workspace} (reachable : w.Reachable) (id : PartId) :
    ∀ r ∈ (w.part id).timeline, 0 ≤ r.start := by
  obtain ⟨phrases, starts⟩ := reachable.invariant
  intro r member
  obtain ⟨x, placed, own, inPhrase, same⟩ := Part.exists_of_mem_timeline member
  obtain ⟨entry, held, rfl⟩ := List.mem_map.mp placed
  have late : 0 ≤ entry.start := partEntry_starts starts id entry held
  have own_nonneg : 0 ≤ own.start := (phrase_reachable phrases entry.content).start_nonneg own inPhrase
  have start : 0 ≤ (own.shifted entry.start).start := Rat.add_nonneg own_nonneg late
  rw [same]
  exact start

end MusicScore.Workspace
