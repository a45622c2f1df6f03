import MusicScore.Proofs.Number.Format
import MusicScore.Proofs.Score.Delivery

/-!
# What a sink may answer

A sink may answer anything at all. Where it is accounted for, all bytes are reported as written only if it answered
with nothing once or its counts add up to them, and in every other case the sink has failed. Counts are added as numbers
of any kind: once a sum is not whole nothing more is offered, so that only the last answer can mislead. It does in four
cases. What is something and no number cannot be compared with zero, and the fault is not the sink's. Nor is it where a
failure of the sink has no text. What is not a number, or is infinite, is not below the number of bytes and so completes
them. And a binary64 sum may be rounded up to the number of bytes.
-/
namespace MusicScore

/-! ## The size of a file -/

namespace Midi

namespace Chunk

/-- A chunk has eight bytes besides its content, which is shorter than the limit. -/
theorem length_of_encode {name content bytes : List UInt8} (written : encode name content = .ok bytes) :
    bytes.length = content.length + 8 ∧ content.length < lengthLimit := by
  obtain ⟨named, short, rfl⟩ := encode_eq_ok.mp written
  simp only [List.length_append, length_bigEndian]
  omega

/-- Chunks of tracks are shorter than the limit together with their eight bytes. -/
theorem length_flatten_le {tracks : List Track} {chunks : List (List UInt8)}
    (written : tracks.mapM ofTrack = .ok chunks) :
    chunks.flatten.length ≤ tracks.length * (lengthLimit + 8) := by
  have related := Outcome.mapM_eq_ok.mp written
  clear written
  induction related with
  | nil => simp
  | @cons track chunk tracks chunks first _ inductionHypothesis =>
    obtain ⟨content, _, encoded⟩ := Outcome.bind_eq_ok.mp first
    have size := length_of_encode encoded
    rw [List.flatten_cons, List.length_append, List.length_cons, Nat.add_mul]
    omega

end Chunk

/-- A file has bytes, and fewer than the fiftieth power of two, since it has at most 65535 tracks. -/
theorem File.length_of_bytes {file : File} {bytes : List UInt8} (written : file.bytes = .ok bytes) :
    0 < bytes.length ∧ bytes.length < 2 ^ 50 := by
  obtain ⟨header, opened, remaining⟩ := Outcome.bind_eq_ok.mp written
  obtain ⟨chunks, each, same⟩ := Outcome.bind_eq_ok.mp remaining
  cases same
  obtain ⟨_, ⟨_, few⟩, _, rfl⟩ := Chunk.header_eq_ok.mp opened
  have together := Chunk.length_flatten_le each
  have limit : Chunk.lengthLimit = 2 ^ 32 := rfl
  rw [limit] at together
  rw [List.length_append, Chunk.length_headerBytes]
  omega

end Midi

/-! ## Answers that are numbers of any kind -/

/-- A number of bytes has a finite number of the format that stands for it. -/
theorem Number.exists_ofRat?_natCast {n : Nat} (few : n < 2 ^ 50) :
    ∃ start, Double.ofRat? ((n : Int) : Rat) = some (.finite start) := by
  have small : ((n : Int) : Rat) < (2 : Rat) ^ (50 : Int) := by exact_mod_cast few
  have wide : (2 : Rat) ^ (50 : Int) < (2 : Rat) ^ (1023 : Int) := zpow_lt_zpow_right₀ (by norm_num) (by norm_num)
  exact Double.exists_finite_of_lt (Int.cast_nonneg (Int.natCast_nonneg n)) (small.trans wide)

/-- A whole number is added to a binary64 number as the number of the format that stands for it. -/
theorem Number.add?_float {n : Int} {start : Double} (known : Double.ofRat? n = some start) (x : Double) :
    (Number.ofInt n).add? (.float x) = some (.float (start.add x)) := by
  have whole : (Number.ofInt n).toInt? = some n ∧ (Number.float x).toInt? = none := ⟨rfl, rfl⟩
  have ratio : (Number.ofInt n).toRat? = some (n : Rat) ∧ (Number.float x).toRat? = none := ⟨rfl, rfl⟩
  have double : (Number.ofInt n).toDouble? = some start ∧ (Number.float x).toDouble? = some x := ⟨known, rfl⟩
  unfold Number.add? Number.combine?
  simp only [whole.1, whole.2, ratio.1, ratio.2, double.1, double.2]

namespace Answer

/-- The finite amount that an answer counts. -/
def amount? : Answer → Option Rat
  | .returned (.number count) =>
    match count.place? with
    | some (.rational q) => some q
    | _ => none
  | _ => none

/-- What answers count together, as far as they are finite. -/
def amount (answers : List Answer) : Rat := (answers.map fun answer => answer.amount?.getD 0).sum

/-- A whole count is a finite amount. -/
theorem amount?_of_count {answer : Answer} {n : Int} (count : answer.count? = some n) :
    answer.amount? = some (n : Rat) := by
  cases answer with
  | returned value =>
    cases value with
    | number c => simp only [amount?, Number.place?_of_toInt? count]
    | _ => cases count
  | _ => cases count

/-- Whole counts add up to the same as amounts. -/
theorem amount_eq_counted {answers : List Answer} (whole : ∀ answer ∈ answers, ∃ n, answer.count? = some n) :
    amount answers = counted answers := by
  induction answers with
  | nil => rfl
  | cons answer rest inductionHypothesis =>
    obtain ⟨⟨n, count⟩, others⟩ := List.forall_mem_cons.mp whole
    have later := inductionHypothesis others
    unfold amount at later ⊢
    rw [List.map_cons, List.sum_cons, later, amount?_of_count count, counted_cons, count]
    push_cast
    rfl

/-- How the last answer misleads the writing of `total` bytes, of which those before it have counted some. -/
inductive Misleads (total : Nat) (before : Int) : Answer → Except Fault Nat → Prop where
  /-- It is something and no number, so that it cannot be compared with zero. -/
  | noNumber {value : Datum} (some : value ≠ .nothing) (other : ∀ count, value ≠ .number count) :
      Misleads total before (.returned value) (.error .wrongKind)
  /-- It is a failure for which no text can be made, and what comes out is no failure of the sink. -/
  | unshown {kind : String} {fault : Fault} (other : ∀ cause, fault ≠ .sink cause) :
      Misleads total before (.failed kind (.error fault)) (.error fault)
  /-- It is not a number or beyond all numbers, so that the sum is not below the number of bytes. -/
  | unbounded {count : Number} (far : count.place? = none ∨ count.place? = some .plusInfinity) :
      Misleads total before (.returned (.number count)) (.ok total)
  /-- It leaves something, but the sum is rounded up to the number of bytes. -/
  | roundedUp {q : Rat} {sum : Number} (missing : before + q < total)
      (added : (Number.ofInt before).add? (.float (.finite q)) = some sum) (reached : sum.lt (.ofInt total) = false) :
      Misleads total before (.returned (.number (.float (.finite q)))) (.ok total)

/-- An answer that misleads gives a count that is not enough, if it gives one, and the sink does not fail. -/
theorem Misleads.missing {total : Nat} {before : Int} {answer : Answer} {outcome : Except Fault Nat}
    (misleads : answer.Misleads total before outcome) (less : before < total) :
    answer ≠ .returned .nothing ∧ before + answer.amount?.getD 0 < total ∧ ∀ cause, outcome ≠ .error (.sink cause) := by
  have lower : (before : Rat) + 0 < total := by
    rw [add_zero]
    exact_mod_cast less
  cases misleads with
  | @noNumber value some other =>
    have none : (Answer.returned value).amount? = none := by
      cases value with
      | number count => exact absurd rfl (other count)
      | _ => rfl
    refine ⟨fun same => ?_, by rwa [none], nofun⟩
    cases same
    exact some rfl
  | @unshown kind fault other => exact ⟨nofun, lower, fun cause same => other cause (Except.error.inj same)⟩
  | @unbounded count far =>
    have none : (Answer.returned (.number count)).amount? = none := by
      unfold amount?
      rcases far with nowhere | beyond
      · simp only [nowhere]
      · simp only [beyond]
    exact ⟨nofun, by rwa [none], nofun⟩
  | roundedUp missing added reached => exact ⟨nofun, missing, nofun⟩

/-- How the last answer concludes the writing of `total` bytes, of which those before it have counted some. -/
inductive Concludes (total : Nat) (before : Int) : Answer → Except Fault Nat → Prop where
  | uncounted : Concludes total before (.returned .nothing) (.ok total)
  | reached {answer : Answer} {q : Rat} (amount : answer.amount? = some q) (enough : (total : Rat) ≤ before + q) :
      Concludes total before answer (.ok total)
  | failed (answer : Answer) (cause : SinkFault) : Concludes total before answer (.error (.sink cause))
  | misled {answer : Answer} {outcome : Except Fault Nat} (misleads : answer.Misleads total before outcome) :
      Concludes total before answer outcome

/-- A failure of the sink concludes the writing. -/
theorem concludes_failed (total : Nat) (before : Int) (kind : String) (shown : Except Fault String) :
    (failed kind shown).Concludes total before (.error (told kind shown)) := by
  cases shown with
  | ok text => exact .failed _ _
  | error fault =>
    cases fault with
    | sink cause => exact .failed _ cause
    | _ => exact .misled (.unshown nofun)

variable {before total : Nat}

/-- A fraction concludes the writing, as its sum with the counts before is exact. -/
theorem concludes_ratio (q : Rat) :
    (Answer.returned (.number (.ratio q))).Concludes total before (Sink.afterInexact (.ratio q) before total) := by
  have added : (Number.ofInt before).add? (.ratio q) = some (.ratio ((before : Int) + q)) := rfl
  have lower : (Number.ratio ((before : Int) + q)).lt (.ofInt total) = decide (((before : Int) : Rat) + q < total) :=
    rfl
  unfold Sink.afterInexact
  rw [added]
  simp only [lower, decide_eq_true_eq]
  by_cases missing : ((before : Int) : Rat) + q < total
  · rw [if_pos missing]
    exact .failed _ _
  · rw [if_neg missing]
    exact .reached rfl (not_lt.mp missing)

/-- A binary64 number above zero concludes the writing. Unless it is a finite one that completes the bytes, it misleads
where its sum with the counts before is not below their number. -/
theorem concludes_float {x : Double} (few : before < 2 ^ 50) (above : ¬ (Number.float x).le (.ofInt 0) = true) :
    (Answer.returned (.number (.float x))).Concludes total before (Sink.afterInexact (.float x) before total) := by
  obtain ⟨start, known⟩ := Number.exists_ofRat?_natCast few
  have added := Number.add?_float known x
  unfold Sink.afterInexact
  rw [added]
  dsimp only
  cases below : (Number.float ((Double.finite start).add x)).lt (.ofInt total) with
  | true => exact .failed _ _
  | false =>
    cases x with
    | finite q =>
      by_cases missing : ((before : Int) : Rat) + q < total
      · exact .misled (.roundedUp missing added below)
      · exact .reached rfl (not_lt.mp missing)
    | negativeZero => exact absurd rfl above
    | infinite negative =>
      cases negative with
      | true => exact absurd rfl above
      | false => exact .misled (.unbounded (.inr rfl))
    | nan mark => exact .misled (.unbounded (.inl rfl))

/-- A count that is a number, not whole and above zero concludes the writing. -/
theorem concludes_afterInexact {count : Number} (few : before < 2 ^ 50) (inexact : count.toInt? = none)
    (above : ¬ count.le (.ofInt 0) = true) :
    (Answer.returned (.number count)).Concludes total before (Sink.afterInexact count before total) := by
  cases count with
  | truth b => cases inexact
  | whole n => cases inexact
  | ratio q => exact concludes_ratio q
  | float x => exact concludes_float few above

end Answer

namespace Sink

/-- What is left of `total` bytes is written up to the last answer, which concludes the writing. The answers before
it are whole counts that leave something. -/
structure Concluded (sink : Sink) (total write : Nat) (left : List UInt8) (d : Delivery) (earlier : List Answer)
    (last : Answer) : Prop where
  answers : sink.answers write d.writes = earlier ++ [last]
  whole : ∀ answer ∈ earlier, ∃ n, answer.count? = some n
  missing : total - left.length + Answer.counted earlier < total
  concludes : last.Concludes total (total - left.length + Answer.counted earlier) d.outcome

variable {sink : Sink} {total write : Nat} {left : List UInt8} {d : Delivery} {earlier : List Answer} {last : Answer}

/-- The answer to the first write concludes the writing. -/
theorem concluded_once (more : left ≠ []) (once : d.writes = [left])
    (concludes : (sink write left).Concludes total (total - left.length) d.outcome) :
    sink.Concluded total write left d [] (sink write left) := by
  have some : 0 < left.length := List.length_pos_iff.mpr more
  have nothing : Answer.counted [] = 0 := rfl
  refine ⟨by rw [once]; rfl, by simp, ?_, ?_⟩
  · omega
  · rwa [nothing, add_zero]

/-- A whole count that leaves something goes before the other answers. -/
theorem Concluded.after {n : Int} (count : (sink write left).count? = some n) (positive : 0 < n)
    (leaves : n < left.length)
    (rest : sink.Concluded total (write + 1) (left.drop n.toNat) d earlier last) :
    sink.Concluded total write left { d with writes := left :: d.writes } (sink write left :: earlier) last := by
  obtain ⟨answers, whole, missing, concludes⟩ := rest
  have before : (total : Int) - (left.drop n.toNat).length + Answer.counted earlier =
      total - left.length + Answer.counted (sink write left :: earlier) := by
    rw [List.length_drop, Answer.counted_cons, count, Option.getD_some]
    omega
  refine ⟨?_, List.forall_mem_cons.mpr ⟨⟨n, count⟩, whole⟩, before ▸ missing, before ▸ concludes⟩
  change sink write left :: sink.answers (write + 1) d.writes = _
  rw [answers, List.cons_append]

/-- Whatever a sink answers, writing is concluded. -/
theorem exists_concluded (few : total < 2 ^ 50) (write : Nat) (more : left ≠ []) (within : left.length ≤ total) :
    ∃ earlier last, sink.Concluded total write left (sink.writeFrom total write left) earlier last := by
  fun_induction writeFrom sink total write left with
  | case1 write => exact absurd rfl more
  | case2 write first others left kind shown answer =>
    exact ⟨_, _, concluded_once more rfl (answer ▸ Answer.concludes_failed _ _ _ _)⟩
  | case3 write first others left answer => exact ⟨_, _, concluded_once more rfl (answer ▸ .uncounted)⟩
  | case4 write first others left count answer atMost => exact ⟨_, _, concluded_once more rfl (.failed _ _)⟩
  | case5 write first others left count answer above n meant positive rest inductionHypothesis =>
    have counted : (sink write left).count? = some n := answer ▸ meant
    by_cases leaves : n < left.length
    · have further : left.drop n.toNat ≠ [] := by
        rw [ne_eq, List.drop_eq_nil_iff]
        omega
      have shorter : (left.drop n.toNat).length ≤ total := (List.drop_sublist _ _).length_le.trans within
      obtain ⟨earlier, last, concluded⟩ := inductionHypothesis further shorter
      exact ⟨_, _, concluded.after counted positive leaves⟩
    · have finished : rest = ⟨.ok total, []⟩ := by
        have nothing : left.drop n.toNat = [] := List.drop_eq_nil_iff.mpr (by omega)
        change sink.writeFrom total (write + 1) (left.drop n.toNat) = _
        rw [nothing, writeFrom]
      rw [finished]
      refine ⟨_, _, concluded_once more rfl (.reached (Answer.amount?_of_count counted) ?_)⟩
      have enough : (total : Int) ≤ total - left.length + n := by omega
      exact_mod_cast enough
  | case6 write first others left count answer above n meant none =>
    exact absurd ((Number.le_zero_iff meant).mpr (not_lt.mp none)) above
  | case7 write first others left count answer above inexact =>
    have before : ((total - left.length : Nat) : Int) = total - left.length := Int.ofNat_sub within
    have concludes : Answer.Concludes total (total - left.length : Nat) _ _ :=
      Answer.concludes_afterInexact ((Nat.sub_le _ _).trans_lt few) inexact above
    rw [before, ← answer] at concludes
    exact ⟨_, _, concluded_once more rfl concludes⟩
  | case8 write first others left value some other answer =>
    exact ⟨_, _, concluded_once more rfl (answer ▸ .misled (.noNumber some other))⟩

/-- What comes of delivering bytes is accounted for by the answers of the sink: all bytes are written only if one
answer was nothing or the finite counts add up to them, and in every other case the sink has failed. -/
def Accounts (sink : Sink) (bytes : List UInt8) (d : Delivery) : Prop :=
  d.outcome = .ok bytes.length ∧
      (.returned .nothing ∈ sink.answers 0 d.writes ∨ (bytes.length : Rat) ≤ Answer.amount (sink.answers 0 d.writes)) ∨
    ∃ cause, d.outcome = .error (.sink cause)

/-- The last answer has misled the writing of bytes. -/
def Misled (sink : Sink) (bytes : List UInt8) (d : Delivery) : Prop :=
  ∃ earlier last, sink.answers 0 d.writes = earlier ++ [last] ∧
    last.Misleads bytes.length (Answer.counted earlier) d.outcome

/-- A writing that has been concluded is accounted for unless its last answer misleads. -/
theorem Concluded.accounts_iff {bytes : List UInt8} (concluded : sink.Concluded bytes.length 0 bytes d earlier last) :
    sink.Accounts bytes d ↔ ¬ sink.Misled bytes d := by
  obtain ⟨answers, whole, less, concludes⟩ := concluded
  rw [sub_self, zero_add] at less concludes
  have together : Answer.amount (earlier ++ [last]) = Answer.counted earlier + last.amount?.getD 0 := by
    rw [← Answer.amount_eq_counted whole]
    simp [Answer.amount]
  constructor
  · rintro accounts ⟨others, misleading, split, misleads⟩
    obtain ⟨rfl, same⟩ := List.append_inj' (answers.symm.trans split) rfl
    obtain rfl := List.singleton_injective same
    obtain ⟨count, missing, healthy⟩ := misleads.missing less
    rcases accounts with ⟨_, unknown | enough⟩ | ⟨cause, failed⟩
    · rw [answers] at unknown
      rcases List.mem_append.mp unknown with before | final
      · obtain ⟨n, known⟩ := whole _ before
        cases known
      · exact count (List.mem_singleton.mp final).symm
    · rw [answers, together] at enough
      exact not_lt.mpr enough missing
    · exact healthy cause failed
  · intro honest
    unfold Accounts
    rw [answers, together]
    unfold Misled at honest
    generalize d.outcome = outcome at concludes honest
    cases concludes with
    | uncounted => exact .inl ⟨rfl, .inl (by simp)⟩
    | reached amount enough =>
      rw [amount]
      exact .inl ⟨rfl, .inr enough⟩
    | failed answer cause => exact .inr ⟨cause, rfl⟩
    | misled misleads => exact absurd ⟨earlier, last, answers, misleads⟩ honest

end Sink

namespace Score

variable {s : Score} {options : Midi.Options} {sink : Sink} {bytes : List UInt8}

/-- Whatever a sink answers, what comes of exporting a score that has a file is accounted for, unless the last answer
has misled the writing. -/
theorem exportTo_accounted_iff (written : s.toBytes options = .ok bytes) :
    sink.Accounts bytes (s.exportTo options sink) ↔ ¬ sink.Misled bytes (s.exportTo options sink) := by
  obtain ⟨file, _, encoded⟩ := Outcome.bind_eq_ok.mp written
  obtain ⟨some, few⟩ := Midi.File.length_of_bytes encoded
  have ends : ∃ earlier last, sink.Concluded bytes.length 0 bytes (sink.writeAll bytes) earlier last :=
    Sink.exists_concluded few 0 (List.length_pos_iff.mp some) le_rfl
  obtain ⟨earlier, last, concluded⟩ := ends
  rw [exportTo, written]
  exact concluded.accounts_iff

/-- A sink that gives the same answer to every write. -/
def answering (value : Datum) : Sink := fun _ _ => .returned value

/-- The greatest binary64 number below one. -/
def fragment : Number := .float (.finite (1 - 1 / 2 ^ 53))

/-- A sink that counts all bytes but one, and then a fragment of the last one. -/
def nearlyAll : Sink
  | 0, offered => .returned (.ofInt (offered.length - 1))
  | _, _ => .returned (.number fragment)

/-- The fragment is rounded up to one when it is added to 66. -/
theorem add_fragment : (Number.ofInt (66 : Nat)).add? fragment = some (.float (.finite 67)) := by
  have whole : Double.ofRat? (((66 : Nat) : Int) : Rat) = some (.finite 66) := by decide +kernel
  have sum : (Double.finite 66).add (.finite (1 - 1 / 2 ^ 53)) = .finite 67 := by decide +kernel
  rw [fragment, Number.add?_float whole, sum]

/-- The 67 bytes of the score with the overlap are reported as written to the sink that counts fewer. -/
theorem exportTo_nearlyAll :
    (overlap.score ⟨0⟩).exportTo .standard nearlyAll = ⟨.ok overlapBytes.length, [overlapBytes, [0]]⟩ := by
  have above : fragment.le (.ofInt 0) = false := by decide +kernel
  have after : Sink.afterInexact fragment 66 67 = .ok 67 := by
    unfold Sink.afterInexact
    rw [add_fragment]
    rfl
  have last : nearlyAll.writeFrom 67 1 [0] = ⟨.ok 67, [[0]]⟩ := by
    rw [Sink.writeFrom]
    simp only [nearlyAll, above]
    change Delivery.mk (Sink.afterInexact fragment 66 67) [[0]] = _
    rw [after]
  have first : nearlyAll.writeFrom 67 0 overlapBytes =
      { nearlyAll.writeFrom 67 1 [0] with writes := overlapBytes :: (nearlyAll.writeFrom 67 1 [0]).writes } := by
    unfold overlapBytes
    simp only [List.cons_append]
    rw [Sink.writeFrom]
    rfl
  rw [exportTo, toBytes_overlap]
  exact first.trans (by rw [last]; rfl)

/-- A sink that fails with a failure that has no text. -/
def mute : Sink := fun _ _ => .failed "ValueError" Shown.lost.read

/-- A text given for a count is a fault that is not the sink's, and so is a failure without a text; what is not a number,
and the fragment of a byte, are taken for all bytes that are left. -/
theorem answering_unaccounted :
    ((overlap.score ⟨0⟩).exportTo .standard (answering (.text "all"))).outcome = .error .wrongKind ∧
      ¬ (answering (.text "all")).Accounts overlapBytes
        ((overlap.score ⟨0⟩).exportTo .standard (answering (.text "all"))) ∧
      ¬ (answering (.number (.float (.nan none)))).Accounts overlapBytes
        ((overlap.score ⟨0⟩).exportTo .standard (answering (.number (.float (.nan none))))) ∧
      ¬ nearlyAll.Accounts overlapBytes ((overlap.score ⟨0⟩).exportTo .standard nearlyAll) ∧
      ¬ mute.Accounts overlapBytes ((overlap.score ⟨0⟩).exportTo .standard mute) := by
  have text : (overlap.score ⟨0⟩).exportTo .standard (answering (.text "all")) =
      ⟨.error .wrongKind, [overlapBytes]⟩ := by
    rw [exportTo, toBytes_overlap]
    cbv
  have nan : (overlap.score ⟨0⟩).exportTo .standard (answering (.number (.float (.nan none)))) =
      ⟨.ok overlapBytes.length, [overlapBytes]⟩ := by
    rw [exportTo, toBytes_overlap]
    cbv
  have missing : ((66 : Int) : Rat) + (1 - 1 / 2 ^ 53) < (overlapBytes.length : Nat) := by decide +kernel
  have reached : (Number.float (.finite 67)).lt (.ofInt overlapBytes.length) = false := by decide +kernel
  have silent : (overlap.score ⟨0⟩).exportTo .standard mute = ⟨.error (.range .unwritable), [overlapBytes]⟩ := by
    rw [exportTo, toBytes_overlap]
    cbv
  simp only [exportTo_accounted_iff toBytes_overlap, not_not]
  rw [text, nan, exportTo_nearlyAll, silent]
  have some : Datum.text "all" ≠ .nothing := by simp
  have noNumber (count : Number) : Datum.text "all" ≠ .number count := by simp
  have other (cause : SinkFault) : Fault.range .unwritable ≠ .sink cause := by simp
  exact ⟨rfl, ⟨[], _, rfl, .noNumber some noNumber⟩, ⟨[], _, rfl, .unbounded (.inl rfl)⟩,
    ⟨[.returned (.ofInt 66)], _, rfl, .roundedUp missing add_fragment reached⟩, [], _, rfl, .unshown other⟩

end Score

end MusicScore
