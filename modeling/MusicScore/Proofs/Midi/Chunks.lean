import MusicScore.Midi.File
import MusicScore.Proofs.Outcome

/-!
# The bytes of chunks

When a chunk is written, and what its bytes are. A chunk needs a name of four bytes and a length that fits in four.
Every number of a header has to fit in two bytes; the header then has fourteen.
-/
namespace MusicScore.Midi.Chunk

variable {bytes : List UInt8}

/-- A chunk is written exactly when its name has four bytes and its length is below the limit. -/
theorem encode_eq_ok {name content : List UInt8} :
    encode name content = .ok bytes ↔
      name.length = 4 ∧ content.length < lengthLimit ∧ bytes = name ++ bigEndian 4 content.length ++ content := by
  unfold encode
  by_cases named : name.length = 4
  · by_cases long : lengthLimit ≤ content.length
    · simp [named, long, Nat.not_lt.mpr long]
    · simp [named, long, Nat.not_le.mp long, eq_comm]
  · simp [named]

/-- A number is written in two bytes exactly when it fits in them. -/
theorem twoBytes_eq_ok {n : Int} : twoBytes n = .ok bytes ↔ (0 ≤ n ∧ n ≤ 0xffff) ∧ bytes = bigEndian 2 n.toNat := by
  unfold twoBytes
  by_cases fits : 0 ≤ n ∧ n ≤ 0xffff
  · simp [fits, eq_comm]
  · simp [fits]

/-- The bytes of a header chunk. -/
def headerBytes (format trackCount division : Int) : List UInt8 :=
  headerName ++ bigEndian 4 6 ++
    (bigEndian 2 format.toNat ++ bigEndian 2 trackCount.toNat ++ bigEndian 2 division.toNat)

/-- Every header chunk has fourteen bytes. -/
@[simp] theorem length_headerBytes (format trackCount division : Int) :
    (headerBytes format trackCount division).length = 14 := by
  simp [headerBytes, headerName]

/-- A header is written exactly when its numbers fit in two bytes each. -/
theorem header_eq_ok {format trackCount division : Int} :
    header format trackCount division = .ok bytes ↔
      (0 ≤ format ∧ format ≤ 0xffff) ∧ (0 ≤ trackCount ∧ trackCount ≤ 0xffff) ∧
        (0 ≤ division ∧ division ≤ 0xffff) ∧ bytes = headerBytes format trackCount division := by
  unfold header
  simp only [Outcome.bind_eq_ok, twoBytes_eq_ok, encode_eq_ok]
  constructor
  · rintro ⟨_, ⟨first, rfl⟩, _, ⟨second, rfl⟩, _, ⟨third, rfl⟩, _, _, rfl⟩
    exact ⟨first, second, third, by simp [headerBytes]⟩
  · rintro ⟨first, second, third, rfl⟩
    exact ⟨_, ⟨first, rfl⟩, _, ⟨second, rfl⟩, _, ⟨third, rfl⟩, rfl, by simp [lengthLimit], by simp [headerBytes]⟩

end MusicScore.Midi.Chunk
