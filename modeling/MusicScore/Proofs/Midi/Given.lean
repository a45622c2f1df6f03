import MusicScore.Midi.Given
import MusicScore.Proofs.Midi.Playing

/-!
# Tracks from data

A track may be made of strokes that hold data. Where the data are whole numbers the track is refused as that of the
strokes is, with the same fault, or it has the same distances and its messages have the same bytes. So it comes to the
same chunk. The channel is checked for every stroke once more, which refuses nothing, since it has passed with the
program.
-/
namespace MusicScore.Midi

variable {channel : Int}

/-- A stroke with its numbers as data. -/
def Stroke.given (s : Stroke) : GivenStroke :=
  ⟨.ofInt s.tick, s.touch, .number (.whole s.pitch), .ofInt s.velocity, .ofInt s.order⟩

/-- The message with data stands at the same distance as the other one and has the same bytes. -/
def Timed.IsGiven (t : Timed) (g : GivenTimed) : Prop :=
  g.delta = .ofInt t.delta ∧ g.message.bytes = t.message.bytes

/-- Two outcomes are refused with the same fault, or they give related results. -/
inductive Alike {α β : Type} (related : α → β → Prop) : Except Fault α → Except Fault β → Prop where
  | done {a : α} {b : β} (results : related a b) : Alike related (.ok a) (.ok b)
  | refused (fault : Fault) : Alike related (.error fault) (.error fault)

/-- Outcomes stay alike after one more step that keeps them alike. -/
theorem Alike.bind {α β γ δ : Type} {related : α → β → Prop} {further : γ → δ → Prop} {x : Except Fault α}
    {y : Except Fault β} {f : α → Except Fault γ} {g : β → Except Fault δ} (alike : Alike related x y)
    (step : ∀ a b, related a b → Alike further (f a) (g b)) : Alike further (x >>= f) (y >>= g) := by
  cases alike with
  | done results => exact step _ _ results
  | refused fault => exact .refused fault

/-- Outcomes that are alike come to the same by steps that come to the same. -/
theorem Alike.bind_eq {α β γ : Type} {related : α → β → Prop} {x : Except Fault α} {y : Except Fault β}
    {f : α → Except Fault γ} {g : β → Except Fault γ} (alike : Alike related x y)
    (step : ∀ a b, related a b → g b = f a) : x >>= f = y >>= g := by
  cases alike with
  | done results => exact (step _ _ results).symm
  | refused fault => rfl

namespace GivenMessage

/-- A whole number is a channel exactly within the range of channels. -/
theorem checkChannel_ofInt (channel : Int) : checkChannel (.ofInt channel) =
    if channel < 0 ∨ Track.highestChannel < channel then .error (.range .channel) else .ok () := rfl

/-- A whole number, however it is given, is a data byte exactly within the range of data bytes. -/
theorem checkData_whole (n : Numeral) : checkData (.number (.whole n)) =
    if n.value < 0 ∨ Track.greatestData < n.value then .error (.range .dataByte) else .ok () := rfl

/-- The status byte of a channel is the same from data. -/
theorem status_ofInt (high : Nat) (within : channel ≤ Track.highestChannel) :
    status high (.ofInt channel) = Message.status high channel.toNat := by
  have byte : (UInt8.ofNat channel.toNat).toNat = channel.toNat := by
    unfold Track.highestChannel at within
    rw [UInt8.toNat_ofNat']
    omega
  exact congrArg (fun value => UInt8.ofNat (high * 16 + value)) byte

/-- The program is chosen with the same bytes, and the channel is then one. -/
theorem ofProgram_given (channel program : Int) :
    Alike (fun message given => given.bytes = message.bytes ∧ 0 ≤ channel ∧ channel ≤ Track.highestChannel)
      (Track.programMessage channel program) (ofProgram (.ofInt channel) (.ofInt program)) := by
  have inRange : ((Number.ofInt 0).le (.ofInt program) && (Number.ofInt program).le (.ofInt Track.greatestData)) = true ↔
      0 ≤ program ∧ program ≤ Track.greatestData := by
    simp only [Bool.and_eq_true, Number.ofInt, Number.le_whole, Numeral.value_plain]
  unfold Track.programMessage
  change Alike _ _ (do
    if !((Number.ofInt 0).le (.ofInt program) && (Number.ofInt program).le (.ofInt Track.greatestData)) then
      .error (.encoding (.dataByte "Program" (wholeText program)))
    checkChannel (.ofInt channel)
    checkData (.number (.whole (.plain program)))
    return programChange (.ofInt channel) (.ofInt program))
  rw [checkChannel_ofInt, checkData_whole, Numeral.value_plain]
  by_cases data : 0 ≤ program ∧ program ≤ Track.greatestData
  · have passed : ¬ (program < 0 ∨ Track.greatestData < program) := by omega
    rw [inRange.mpr data, if_neg passed, if_neg passed]
    by_cases outside : channel < 0 ∨ Track.highestChannel < channel
    · rw [if_pos outside, if_pos outside]
      exact .refused _
    · rw [if_neg outside, if_neg outside]
      refine .done ⟨?_, by omega, by omega⟩
      change [status 0xc (.ofInt channel), UInt8.ofNat program.toNat] = _
      rw [status_ofInt 0xc (by omega)]
      rfl
  · have stopped : program < 0 ∨ Track.greatestData < program := by omega
    rw [Bool.eq_false_iff.mpr (mt inRange.mp data), if_pos stopped]
    exact .refused _

end GivenMessage

namespace GivenTimed

/-- A stroke is refused alike, or has the same bytes at the same distance. -/
theorem ofStroke_given (low : 0 ≤ channel) (high : channel ≤ Track.highestChannel) (delta : Int) (s : Stroke) :
    Alike (fun message given => Timed.IsGiven ⟨delta, message⟩ given)
      (if Quantity.greatest < delta then .error (.encoding (.quantity (wholeText delta)))
        else Track.strokeMessage channel.toNat s)
      (ofStroke (.ofInt channel) (.ofInt delta) s.given) := by
  have key : GivenMessage.checkData s.given.pitch = _ := GivenMessage.checkData_whole s.pitch
  have force : GivenMessage.checkData s.given.velocity = _ := GivenMessage.checkData_whole (.plain s.velocity)
  unfold ofStroke Track.strokeMessage
  rw [Number.lt_ofInt, GivenMessage.checkChannel_ofInt, key, force, Numeral.value_plain,
    if_neg (by omega : ¬ (channel < 0 ∨ Track.highestChannel < channel))]
  by_cases beyond : Quantity.greatest < delta
  · simp only [beyond, if_true, decide_true]
    exact .refused _
  by_cases highKey : s.pitch.value < 0 ∨ Track.greatestData < s.pitch.value
  · simp only [beyond, if_false, decide_false, if_pos highKey]
    rw [if_neg (by omega)]
    exact .refused _
  by_cases loud : s.velocity < 0 ∨ Track.greatestData < s.velocity
  · simp only [beyond, if_false, decide_false, if_neg highKey, if_pos loud]
    rw [if_neg (by omega)]
    exact .refused _
  simp only [beyond, if_false, decide_false, if_neg highKey, if_neg loud]
  rw [if_pos (by omega)]
  have status (value : Nat) := GivenMessage.status_ofInt value high
  have sounding (value : Nat) :
      [GivenMessage.status value (.ofInt channel), UInt8.ofNat s.pitch.value.toNat, UInt8.ofNat s.velocity.toNat] =
        [Message.status value channel.toNat, UInt8.ofNat s.pitch.value.toNat, UInt8.ofNat s.velocity.toNat] := by
    rw [status]
  unfold Stroke.given
  cases s.touch with
  | press => exact .done ⟨rfl, sounding 0x9⟩
  | release => exact .done ⟨rfl, sounding 0x8⟩

/-- Strokes are refused alike, or have the same bytes at the same distances. -/
theorem ofStrokes_given (low : 0 ≤ channel) (high : channel ≤ Track.highestChannel) (now : Int)
    (strokes : List Stroke) :
    Alike (List.Forall₂ Timed.IsGiven) (Track.strokeMessages channel.toNat now strokes)
      (ofStrokes (.ofInt channel) (.ofInt now) (strokes.map Stroke.given)) := by
  induction strokes generalizing now with
  | nil => exact .done .nil
  | cons s rest inductionHypothesis =>
    have cons_eq : Track.strokeMessages channel.toNat now (s :: rest) =
        (if Quantity.greatest < s.tick - now then .error (.encoding (.quantity (wholeText (s.tick - now))))
          else Track.strokeMessage channel.toNat s) >>= fun message =>
            return ⟨s.tick - now, message⟩ :: (← Track.strokeMessages channel.toNat s.tick rest) := by
      rw [Track.strokeMessages]
      by_cases beyond : Quantity.greatest < s.tick - now
      · rw [if_pos beyond, if_pos beyond]
        rfl
      · rw [if_neg beyond, if_neg beyond]
    rw [cons_eq]
    refine (ofStroke_given low high (s.tick - now) s).bind fun message given same => ?_
    exact (inductionHypothesis s.tick).bind fun later others alike => .done (.cons same alike)

/-- Strokes come to tracks alike: they are refused alike, or have the same bytes at the same distances. -/
theorem track_given (channel program : Int) (strokes : List Stroke) :
    Alike (List.Forall₂ Timed.IsGiven) (Track.ofStrokes strokes channel program [])
      (track (strokes.map Stroke.given) (.ofInt channel) (.ofInt program)) := by
  refine (GivenMessage.ofProgram_given channel program).bind fun message given ⟨same, low, high⟩ => ?_
  refine (ofStrokes_given low high 0 strokes).bind fun played others alike => .done ?_
  exact .cons ⟨rfl, same⟩ (List.rel_append alike (.cons ⟨rfl, rfl⟩ .nil))

/-- Messages with the same bytes at the same distances come to the same chunk. -/
theorem chunk_given {track : Track} {given : List GivenTimed} (same : List.Forall₂ Timed.IsGiven track given) :
    chunk given = Chunk.ofTrack track := by
  have each : given.mapM (fun g => do return (← Quantity.encodeDatum g.delta) ++ g.message.bytes) =
      track.mapM (fun t => do return (← Quantity.encode t.delta) ++ t.message.bytes) := by
    induction same with
    | nil => rfl
    | cons first _ inductionHypothesis =>
      obtain ⟨distance, bytes⟩ := first
      rw [List.mapM_cons, List.mapM_cons, inductionHypothesis, distance, bytes]
      rfl
  unfold chunk Chunk.ofTrack Track.body
  rw [each, bind_assoc]
  rfl

end GivenTimed

/-- The chunk of strokes on a channel with a program. -/
def Chunk.ofStrokes (strokes : List GivenStroke) (channel program : Datum) : Except Fault (List UInt8) := do
  GivenTimed.chunk (← GivenTimed.track strokes channel program)

/-- The chunk of strokes with their numbers as data is that of their track. -/
theorem Chunk.ofStrokes_given (channel program : Int) (strokes : List Stroke) :
    ofStrokes (strokes.map Stroke.given) (.ofInt channel) (.ofInt program) =
      Track.ofStrokes strokes channel program [] >>= ofTrack :=
  ((GivenTimed.track_given channel program strokes).bind_eq fun _ _ => GivenTimed.chunk_given).symm

end MusicScore.Midi
