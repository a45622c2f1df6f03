import MusicScore.Midi.Track
import MusicScore.Proofs.Midi.Strokes

/-!
# What is heard of a track

A track stores distances. Whoever plays it adds them up from tick zero and hears keys pressed and released at
the ticks that come of it. A track of strokes is heard exactly as the strokes say, in their order, whatever
the distances are; it is refused when a distance is above the greatest quantity, and for no other reason.
-/
namespace MusicScore.Midi

/-- A press or a release of a key as it is heard: at a tick, and with the number of the key. -/
structure Keystroke where
  tick : Int
  touch : Touch
  pitch : Int
  velocity : Int
  deriving DecidableEq

namespace Message

/-- The keystroke of a message that comes at a tick. -/
def keystroke? (tick : Int) : Message → Option Keystroke
  | noteOn _ pitch velocity => some ⟨tick, .press, pitch, velocity⟩
  | noteOff _ pitch velocity => some ⟨tick, .release, pitch, velocity⟩
  | _ => none

/-- The channel of a channel message. -/
def channel? : Message → Option Nat
  | programChange channel _ => some channel
  | noteOn channel _ _ => some channel
  | noteOff channel _ _ => some channel
  | _ => none

/-- The message says something about the track as a whole: its name, tempo, meter or key. -/
def IsDescription : Message → Prop
  | trackName _ | setTempo _ | timeSignature _ _ | keySignature _ => True
  | _ => False

/-- The message presses or releases a key. -/
def IsStroke : Message → Prop
  | noteOn _ _ _ | noteOff _ _ _ => True
  | _ => False

/-- A description is on no channel and is not heard. -/
theorem IsDescription.silent {m : Message} (description : m.IsDescription) :
    m.channel? = none ∧ ∀ tick, m.keystroke? tick = none := by
  cases m with
  | trackName _ | setTempo _ | timeSignature _ _ | keySignature _ => exact ⟨rfl, fun _ => rfl⟩
  | programChange _ _ | noteOn _ _ _ | noteOff _ _ _ | endOfTrack => exact False.elim description

end Message

namespace Track

/-- The keystrokes of a track that goes on from the tick `now`. -/
def heardFrom (now : Int) : Track → List Keystroke
  | [] => []
  | t :: rest => (t.message.keystroke? (now + t.delta)).toList ++ heardFrom (now + t.delta) rest

/-- The keystrokes of a track. -/
def heard (track : Track) : List Keystroke := heardFrom 0 track

end Track

namespace Stroke

/-- A stroke as it is heard. -/
def heard (s : Stroke) : Keystroke := ⟨s.tick, s.touch, s.pitch.value, s.velocity⟩

/-- The message of a stroke. -/
def message (channel : Nat) (s : Stroke) : Message :=
  match s.touch with
  | .press => .noteOn channel s.pitch.value.toNat s.velocity.toNat
  | .release => .noteOff channel s.pitch.value.toNat s.velocity.toNat

/-- The message of a stroke whose data fit is heard as the stroke. -/
theorem keystroke?_message {s : Stroke} (fits : s.FitsData) (channel : Nat) :
    (s.message channel).keystroke? s.tick = some s.heard := by
  obtain ⟨low, _, soft, _⟩ := fits
  unfold message heard
  cases touch : s.touch <;>
    simp only [Message.keystroke?, Int.toNat_of_nonneg low, Int.toNat_of_nonneg soft]

/-- The message of a stroke is on its channel. -/
theorem channel?_message (s : Stroke) (channel : Nat) : (s.message channel).channel? = some channel := by
  unfold message
  cases s.touch <;> rfl

/-- The message of a stroke presses or releases a key. -/
theorem isStroke_message (s : Stroke) (channel : Nat) : (s.message channel).IsStroke := by
  unfold message
  cases s.touch <;> trivial

end Stroke

namespace Track

/-- The messages of strokes, each at its distance from the one before. -/
def ofHeard (channel : Nat) (now : Int) : List Stroke → Track
  | [] => []
  | s :: rest => ⟨s.tick - now, s.message channel⟩ :: ofHeard channel s.tick rest

/-- The ticks of strokes follow one another, from the tick `now` on, in distances that a quantity can hold. -/
def GapsFit (now : Int) (strokes : List Stroke) : Prop :=
  (now :: strokes.map Stroke.tick).IsChain fun earlier later => later - earlier ≤ Quantity.greatest

@[simp] theorem gapsFit_nil (now : Int) : GapsFit now [] := by simp [GapsFit]

@[simp] theorem gapsFit_cons {now : Int} {s : Stroke} {rest : List Stroke} :
    GapsFit now (s :: rest) ↔ s.tick - now ≤ Quantity.greatest ∧ GapsFit s.tick rest := by
  simp [GapsFit]

/-- A stroke whose data fit has its message. -/
theorem strokeMessage_eq {channel : Nat} {s : Stroke} (fits : s.FitsData) :
    strokeMessage channel s = .ok (s.message channel) := by
  have accepted : 0 ≤ s.pitch.value ∧ s.pitch.value ≤ greatestData ∧
      0 ≤ s.velocity ∧ s.velocity ≤ greatestData := fits
  unfold strokeMessage Stroke.message
  rw [if_pos accepted]
  cases s.touch <;> rfl

/-- A channel and a program in their ranges have a message. -/
theorem programMessage_eq {channel program : Nat} (highest : channel ≤ 15) (greatest : program ≤ 127) :
    programMessage channel program = .ok (.programChange channel program) := by
  unfold programMessage highestChannel greatestData
  rw [if_neg (by omega), if_neg (by omega)]
  rfl

/-- Strokes whose data fit have messages exactly when their distances fit, and these are then their own. -/
theorem strokeMessages_eq_ok {channel : Nat} {now : Int} {strokes : List Stroke} {played : Track}
    (fits : ∀ s ∈ strokes, s.FitsData) :
    strokeMessages channel now strokes = .ok played ↔
      GapsFit now strokes ∧ played = ofHeard channel now strokes := by
  induction strokes generalizing now played with
  | nil => simp [strokeMessages, ofHeard, eq_comm]
  | cons s rest inductionHypothesis =>
    obtain ⟨fit, others⟩ := List.forall_mem_cons.mp fits
    unfold strokeMessages
    rw [gapsFit_cons]
    constructor
    · intro done
      obtain ⟨near, remaining⟩ := Outcome.guard_eq_ok.mp done
      obtain ⟨message, own, remaining⟩ := Outcome.bind_eq_ok.mp remaining
      obtain ⟨later, more, same⟩ := Outcome.bind_eq_ok.mp remaining
      cases (strokeMessage_eq fit).symm.trans own
      cases same
      obtain ⟨gaps, rfl⟩ := (inductionHypothesis others).mp more
      exact ⟨⟨Int.not_lt.mp near, gaps⟩, rfl⟩
    · rintro ⟨⟨near, gaps⟩, rfl⟩
      have more : strokeMessages channel s.tick rest = .ok _ := (inductionHypothesis others).mpr ⟨gaps, rfl⟩
      exact Outcome.guard_eq_ok.mpr ⟨Int.not_lt.mpr near, Outcome.bind_eq_ok.mpr
        ⟨_, strokeMessage_eq fit, Outcome.bind_eq_ok.mpr ⟨_, more, rfl⟩⟩⟩

/-- Strokes whose data fit are refused only for a distance that a quantity cannot hold. -/
theorem strokeMessages_eq_error {channel : Nat} {now : Int} {strokes : List Stroke} {fault : Fault}
    (fits : ∀ s ∈ strokes, s.FitsData) (refused : strokeMessages channel now strokes = .error fault) :
    ∃ distance, fault = .encoding (.quantity (wholeText distance)) := by
  induction strokes generalizing now with
  | nil => cases refused
  | cons s rest inductionHypothesis =>
    obtain ⟨fit, others⟩ := List.forall_mem_cons.mp fits
    unfold strokeMessages at refused
    rcases Outcome.guard_eq_error.mp refused with ⟨_, same⟩ | ⟨_, remaining⟩
    · exact ⟨_, same.symm⟩
    · rcases Outcome.bind_eq_error.mp remaining with own | ⟨message, _, remaining⟩
      · cases (strokeMessage_eq fit).symm.trans own
      · rcases Outcome.bind_eq_error.mp remaining with more | ⟨_, _, never⟩
        · exact inductionHypothesis others more
        · cases never

/-! ## What is heard -/

/-- The number of ticks that a track lasts. -/
def lasting : Track → Int
  | [] => 0
  | t :: rest => t.delta + lasting rest

/-- Messages at tick zero do not make a track last. -/
theorem lasting_atOnce (messages : List Message) : lasting (messages.map (Timed.mk 0)) = 0 := by
  induction messages with
  | nil => rfl
  | cons m rest inductionHypothesis => simp [lasting, inductionHypothesis]

/-- A track in two pieces is heard as the first and then as the second, which goes on from the end of the
first. -/
theorem heardFrom_append (now : Int) (first second : Track) :
    heardFrom now (first ++ second) =
      heardFrom now first ++ heardFrom (now + lasting first) second := by
  induction first generalizing now with
  | nil => simp [heardFrom, lasting]
  | cons t rest inductionHypothesis =>
    simp only [List.cons_append, heardFrom, inductionHypothesis, lasting, List.append_assoc, Int.add_assoc]

/-- Messages that are no strokes are not heard. -/
theorem heardFrom_silent {now : Int} {track : Track}
    (silent : ∀ t ∈ track, ∀ tick, t.message.keystroke? tick = none) : heardFrom now track = [] := by
  induction track generalizing now with
  | nil => rfl
  | cons t rest inductionHypothesis =>
    obtain ⟨first, others⟩ := List.forall_mem_cons.mp silent
    rw [heardFrom, first, inductionHypothesis others]
    rfl

/-- The distances add up to the ticks of the strokes: a track of strokes is heard as the strokes. -/
theorem heardFrom_ofHeard {channel : Nat} {now : Int} {strokes : List Stroke}
    (fits : ∀ s ∈ strokes, s.FitsData) :
    heardFrom now (ofHeard channel now strokes) = strokes.map Stroke.heard := by
  induction strokes generalizing now with
  | nil => rfl
  | cons s rest inductionHypothesis =>
    obtain ⟨fit, others⟩ := List.forall_mem_cons.mp fits
    have arrives : now + (s.tick - now) = s.tick := by omega
    rw [ofHeard, heardFrom, arrives, Stroke.keystroke?_message fit, inductionHypothesis others]
    rfl

/-- Every message of a track of strokes is that of one of the strokes. -/
theorem mem_ofHeard {channel : Nat} {now : Int} {strokes : List Stroke} {t : Timed}
    (member : t ∈ ofHeard channel now strokes) : ∃ s ∈ strokes, t.message = s.message channel := by
  induction strokes generalizing now with
  | nil => cases member
  | cons s rest inductionHypothesis =>
    rcases List.mem_cons.mp member with rfl | later
    · exact ⟨s, List.mem_cons_self, rfl⟩
    · obtain ⟨other, inside, same⟩ := inductionHypothesis later
      exact ⟨other, List.mem_cons_of_mem s inside, same⟩

/-- Strokes that go forward in time have distances that are not negative. -/
theorem delta_nonneg_of_mem_ofHeard {channel : Nat} {now : Int} {strokes : List Stroke} {t : Timed}
    (ascending : (now :: strokes.map Stroke.tick).Pairwise (· ≤ ·))
    (member : t ∈ ofHeard channel now strokes) : 0 ≤ t.delta := by
  induction strokes generalizing now with
  | nil => cases member
  | cons s rest inductionHypothesis =>
    obtain ⟨after, later⟩ := List.pairwise_cons.mp ascending
    rcases List.mem_cons.mp member with rfl | more
    · exact Int.sub_nonneg_of_le (after s.tick List.mem_cons_self)
    · exact inductionHypothesis later more

/-! ## The layout of a track -/

/-- A track: messages at tick zero, the program of the channel, the strokes, and the end. -/
def layout (opening : List Message) (channel program : Nat) (strokes : List Stroke) : Track :=
  (opening ++ [Message.programChange channel program]).map (Timed.mk 0) ++ ofHeard channel 0 strokes ++
    [⟨0, .endOfTrack⟩]

/-- Every message of a layout is one of the opening, the program, a stroke or the end. -/
theorem mem_layout {opening : List Message} {channel program : Nat} {strokes : List Stroke} {t : Timed}
    (member : t ∈ layout opening channel program strokes) :
    (∃ m ∈ opening, t = ⟨0, m⟩) ∨ t = ⟨0, .programChange channel program⟩ ∨
      t ∈ ofHeard channel 0 strokes ∨ t = ⟨0, .endOfTrack⟩ := by
  rcases List.mem_append.mp member with before | last
  · rcases List.mem_append.mp before with opens | stroke
    · obtain ⟨m, inside, rfl⟩ := List.mem_map.mp opens
      rcases List.mem_append.mp inside with described | named
      · exact .inl ⟨m, described, rfl⟩
      · exact .inr (.inl (congrArg (Timed.mk 0) (List.mem_singleton.mp named)))
    · exact .inr (.inr (.inl stroke))
  · exact .inr (.inr (.inr (List.mem_singleton.mp last)))

/-- Strokes whose data fit are laid out as a track on a channel exactly when their distances fit. -/
theorem ofStrokes_eq_ok {strokes : List Stroke} {channel program : Nat} {opening : List Message}
    {track : Track} (fits : ∀ s ∈ strokes, s.FitsData) (highest : channel ≤ 15) (greatest : program ≤ 127) :
    ofStrokes strokes channel program opening = .ok track ↔
      GapsFit 0 strokes ∧ track = layout opening channel program strokes := by
  have named : programMessage channel program = _ := programMessage_eq highest greatest
  unfold ofStrokes
  constructor
  · intro done
    obtain ⟨programChange, made, remaining⟩ := Outcome.bind_eq_ok.mp done
    obtain ⟨played, messages, same⟩ := Outcome.bind_eq_ok.mp remaining
    cases named.symm.trans made
    obtain ⟨gaps, rfl⟩ := (strokeMessages_eq_ok fits).mp messages
    cases same
    exact ⟨gaps, rfl⟩
  · rintro ⟨gaps, rfl⟩
    have messages : strokeMessages channel 0 strokes = .ok _ := (strokeMessages_eq_ok fits).mpr ⟨gaps, rfl⟩
    exact Outcome.bind_eq_ok.mpr ⟨_, named, Outcome.bind_eq_ok.mpr ⟨_, messages, rfl⟩⟩

/-- Strokes whose data fit are refused only for a distance that a quantity cannot hold. -/
theorem ofStrokes_eq_error {strokes : List Stroke} {channel program : Nat} {opening : List Message}
    {fault : Fault} (fits : ∀ s ∈ strokes, s.FitsData) (highest : channel ≤ 15) (greatest : program ≤ 127)
    (refused : ofStrokes strokes channel program opening = .error fault) :
    ∃ distance, fault = .encoding (.quantity (wholeText distance)) := by
  unfold ofStrokes at refused
  rcases Outcome.bind_eq_error.mp refused with named | ⟨programChange, _, remaining⟩
  · cases (programMessage_eq highest greatest).symm.trans named
  · rcases Outcome.bind_eq_error.mp remaining with messages | ⟨_, _, never⟩
    · exact strokeMessages_eq_error fits messages
    · cases never

/-- A track is heard as its strokes; what it opens with is not heard. -/
theorem heard_layout {opening : List Message} {channel program : Nat} {strokes : List Stroke}
    (describes : ∀ m ∈ opening, m.IsDescription) (fits : ∀ s ∈ strokes, s.FitsData) :
    (layout opening channel program strokes).heard = strokes.map Stroke.heard := by
  have silent : ∀ t ∈ (opening ++ [Message.programChange channel program]).map (Timed.mk 0),
      ∀ tick, t.message.keystroke? tick = none := by
    intro t member tick
    obtain ⟨m, inside, rfl⟩ := List.mem_map.mp member
    rcases List.mem_append.mp inside with described | last
    · exact (describes m described).silent.2 tick
    · obtain rfl := List.mem_singleton.mp last
      rfl
  unfold heard layout
  rw [heardFrom_append, heardFrom_append, heardFrom_silent silent, lasting_atOnce]
  simp only [Int.add_zero, List.nil_append, heardFrom_ofHeard fits]
  simp [heardFrom, Message.keystroke?]

end Track

end MusicScore.Midi
