import Mathlib.Tactic

/-!
# Records in a byte stream

Little-endian words, and byte streams that are made of records of one size:
taking that many bytes from such a stream takes exactly its first record.
-/

namespace ByteRecords

/-- The lowest bytes of a number, the lowest one first. -/
def littleEndian : ℕ → ℕ → List UInt8
  | 0, _ => []
  | count + 1, n => UInt8.ofNat n :: littleEndian count (n / 256)

def ofLittleEndian : List UInt8 → ℕ
  | [] => 0
  | byte :: bytes => byte.toNat + 256 * ofLittleEndian bytes

@[simp] theorem length_littleEndian (count n : ℕ) :
    (littleEndian count n).length = count := by
  induction count generalizing n with
  | zero => rfl
  | succ count ih => simp [littleEndian, ih]

theorem ofLittleEndian_littleEndian {count n : ℕ} (hn : n < 256 ^ count) :
    ofLittleEndian (littleEndian count n) = n := by
  induction count generalizing n with
  | zero =>
      rw [pow_zero] at hn
      simp only [littleEndian, ofLittleEndian]
      omega
  | succ count ih =>
      have hhigh : n / 256 < 256 ^ count := by
        rw [pow_succ] at hn
        exact Nat.div_lt_of_lt_mul (by omega)
      have hlow : (UInt8.ofNat n).toNat = n % 256 := rfl
      rw [littleEndian, ofLittleEndian, ih hhigh, hlow]
      omega

variable {α : Type*} {encode : α → List UInt8} {size : ℕ}

theorem length_flatMap_encode (hsize : ∀ a, (encode a).length = size)
    (records : List α) :
    (records.flatMap encode).length = size * records.length := by
  induction records with
  | nil => simp
  | cons record records ih =>
      rw [List.flatMap_cons, List.length_append, hsize, ih,
        List.length_cons, Nat.mul_succ]
      omega

theorem take_flatMap_encode (hsize : ∀ a, (encode a).length = size)
    (record : α) (records : List α) :
    ((record :: records).flatMap encode).take size = encode record := by
  rw [List.flatMap_cons]
  exact List.take_left' (hsize record)

theorem drop_flatMap_encode (hsize : ∀ a, (encode a).length = size)
    (record : α) (records : List α) :
    ((record :: records).flatMap encode).drop size =
      records.flatMap encode := by
  rw [List.flatMap_cons]
  exact List.drop_left' (hsize record)

end ByteRecords
