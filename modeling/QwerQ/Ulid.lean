import QwerQ.Library.Digits
import Mathlib.Data.String.Basic

/-! The ids that the broker generates. A ULID is a reading of the clock followed by
entropy; the entropy comes from eight sources that are used in turn, each of which
increases within a millisecond and none of which knows of the others. -/
namespace QwerQ

/-- The milliseconds of a time, then the entropy. -/
structure Ulid where
  ms : BitVec 48
  entropy : BitVec 80
  deriving DecidableEq

namespace Ulid

def encoding : List Char :=
  ['0', '1', '2', '3', '4', '5', '6', '7', '8', '9', 'A', 'B', 'C', 'D', 'E', 'F', 'G', 'H', 'J',
    'K', 'M', 'N', 'P', 'Q', 'R', 'S', 'T', 'V', 'W', 'X', 'Y', 'Z']

def letter (digit : Fin 32) : Char := encoding.get digit

def number (u : Ulid) : Nat := u.ms.toNat * 2 ^ 80 + u.entropy.toNat

def text (u : Ulid) : String := String.ofList (Digits.text letter 26 u.number)

/-- First by the time, then by the entropy. -/
instance : LT Ulid := ⟨fun u v => u.ms < v.ms ∨ u.ms = v.ms ∧ u.entropy < v.entropy⟩

theorem lt_def {u v : Ulid} : u < v ↔ u.ms < v.ms ∨ u.ms = v.ms ∧ u.entropy < v.entropy := Iff.rfl

instance (u v : Ulid) : Decidable (u < v) :=
  decidable_of_iff _ lt_def.symm

theorem number_lt_iff {u v : Ulid} : u.number < v.number ↔ u < v := by
  have hu := u.entropy.isLt
  have hv := v.entropy.isLt
  rw [lt_def, BitVec.lt_def, BitVec.lt_def, ← BitVec.toNat_inj, number, number]
  omega

theorem number_lt (u : Ulid) : u.number < 32 ^ 26 := by
  have hms := u.ms.isLt
  have hentropy := u.entropy.isLt
  rw [number]
  omega

theorem letter_strictMono : StrictMono letter := by
  rw [Fin.strictMono_iff_lt_succ]
  decide

theorem text_lt_iff {u v : Ulid} : u.text < v.text ↔ u < v := by
  rw [text, text, String.lt_iff_toList_lt, String.toList_ofList, String.toList_ofList,
    Digits.text_lt_iff letter_strictMono u.number_lt v.number_lt, number_lt_iff]

theorem number_inj {u v : Ulid} (h : u.number = v.number) : u = v := by
  have hu := u.entropy.isLt
  have hv := v.entropy.isLt
  rw [number, number] at h
  have hms : u.ms = v.ms := BitVec.eq_of_toNat_eq (by omega)
  have hentropy : u.entropy = v.entropy := BitVec.eq_of_toNat_eq (by omega)
  cases u
  cases v
  rw [mk.injEq]
  exact ⟨hms, hentropy⟩

theorem text_inj {u v : Ulid} (h : u.text = v.text) : u = v := by
  have hbelow : ¬ u.number < v.number := by
    rw [number_lt_iff, ← text_lt_iff, h]
    exact lt_irrefl _
  have habove : ¬ v.number < u.number := by
    rw [number_lt_iff, ← text_lt_iff, h]
    exact lt_irrefl _
  exact number_inj (by omega)

end Ulid

/-- What one call meets: the clock in milliseconds, random bytes and a random increment. -/
structure UlidReading where
  ms : BitVec 48
  random : BitVec 80
  increment : BitVec 32

/-- The last entropy of a source and the millisecond it was for; zero before the first. -/
structure MonotonicEntropy where
  ms : BitVec 48
  entropy : BitVec 80
  deriving DecidableEq

/-- `MonotonicRead`: a larger entropy within a millisecond, a random one in a new one.
There is none where it would overflow, and `MustNew` panics. -/
def MonotonicEntropy.read (reading : UlidReading) (source : MonotonicEntropy) :
    Option (BitVec 80) :=
  if source.entropy ≠ 0 ∧ source.ms = reading.ms then
    let next := source.entropy.toNat + (reading.increment.toNat + 1)
    if next < 2 ^ 80 then some (BitVec.ofNat 80 next) else none
  else some reading.random

def numEntropyShards : Nat := 8

structure UlidGenerator where
  entropyNext : UInt64
  entropyShards : Fin numEntropyShards → MonotonicEntropy

def UlidGenerator.init : UlidGenerator := ⟨0, fun _ => ⟨0, 0⟩⟩

/-- `NewULID`. Each call takes the next source; `none` is a panic. -/
def newULID (reading : UlidReading) (g : UlidGenerator) : Option (Ulid × UlidGenerator) := do
  let next := g.entropyNext + 1
  let idx : Fin numEntropyShards := ⟨next.toNat % numEntropyShards, Nat.mod_lt _ (by decide)⟩
  let entropy ← (g.entropyShards idx).read reading
  return (⟨reading.ms, entropy⟩,
    ⟨next, Function.update g.entropyShards idx ⟨reading.ms, entropy⟩⟩)

end QwerQ
