import Mathlib.Tactic

/-!
# Numbers in bytes

Big-endian and little-endian numbers of a fixed number of bytes.
-/

namespace ImageReader

abbrev Bytes := List UInt8

def fromBE (bytes : Bytes) : ℕ :=
  bytes.foldl (fun acc byte => acc * 256 + byte.toNat) 0

def fromLE (bytes : Bytes) : ℕ := fromBE bytes.reverse

/-- The last `k` bytes of a number, most significant first. -/
def toBE : ℕ → ℕ → Bytes
  | 0, _ => []
  | k + 1, n => toBE k (n / 256) ++ [UInt8.ofNat (n % 256)]

@[simp] theorem length_toBE (k n : ℕ) : (toBE k n).length = k := by
  induction k generalizing n with
  | zero => rfl
  | succ k ih => simp [toBE, ih]

theorem fromBE_append_singleton (bytes : Bytes) (byte : UInt8) :
    fromBE (bytes ++ [byte]) = fromBE bytes * 256 + byte.toNat := by
  simp [fromBE]

theorem fromBE_toBE {k n : ℕ} (h : n < 256 ^ k) : fromBE (toBE k n) = n := by
  induction k generalizing n with
  | zero =>
      obtain rfl : n = 0 := by simpa using h
      rfl
  | succ k ih =>
      rw [Nat.pow_succ] at h
      unfold toBE
      rw [fromBE_append_singleton,
        ih (Nat.div_lt_of_lt_mul (by rwa [Nat.mul_comm] at h)),
        UInt8.toNat_ofNat_of_lt' (Nat.mod_lt _ (by decide))]
      exact Nat.div_add_mod' n 256

theorem fromBE_lt (bytes : Bytes) : fromBE bytes < 256 ^ bytes.length := by
  induction bytes using List.reverseRecOn with
  | nil => simp [fromBE]
  | append_singleton bytes byte ih =>
      have hbyte := byte.toNat_lt
      rw [fromBE_append_singleton, List.length_append, List.length_singleton,
        Nat.pow_succ]
      omega

theorem toBE_fromBE (bytes : Bytes) :
    toBE bytes.length (fromBE bytes) = bytes := by
  induction bytes using List.reverseRecOn with
  | nil => rfl
  | append_singleton bytes byte ih =>
      have hbyte := byte.toNat_lt
      rw [fromBE_append_singleton, List.length_append, List.length_singleton]
      unfold toBE
      rw [show (fromBE bytes * 256 + byte.toNat) / 256 = fromBE bytes by omega,
        ih, show (fromBE bytes * 256 + byte.toNat) % 256 = byte.toNat by omega,
        UInt8.ofNat_toNat]

/-- The bytes of an ASCII text. -/
def asciiBytes (text : String) : Bytes :=
  text.toList.map fun c => UInt8.ofNat c.toNat

end ImageReader
