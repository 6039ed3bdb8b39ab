import Mathlib

/-!
# Big-endian numbers of a fixed width
-/

namespace LongCtxSpecDecode.Library.BigEndian

/-- The last `size` bytes of the number, the highest first. -/
def bytes : Nat → Nat → List UInt8
  | 0, _ => []
  | size + 1, value => UInt8.ofNat (value / 256 ^ size) :: bytes size value

/-- `int.from_bytes(xs, byteorder="big")` -/
def fromBytes (xs : List UInt8) : Nat := xs.foldl (fun value x => value * 256 + x.toNat) 0

@[simp] theorem length_bytes (size value : Nat) : (bytes size value).length = size := by
  induction size with
  | zero => rfl
  | succ size ih => rw [bytes, List.length_cons, ih]

theorem foldl_bytes (size value start : Nat) :
    (bytes size value).foldl (fun value x => value * 256 + x.toNat) start =
      start * 256 ^ size + value % 256 ^ size := by
  induction size generalizing start with
  | zero => simp [bytes, Nat.mod_one]
  | succ size ih =>
    have hsplit : value % 256 ^ (size + 1) =
        value % 256 ^ size + 256 ^ size * (value / 256 ^ size % 256) := by
      rw [pow_succ, Nat.mod_mul]
    rw [bytes, List.foldl_cons, ih, hsplit, UInt8.toNat_ofNat']
    ring

theorem fromBytes_bytes {size value : Nat} (h : value < 256 ^ size) :
    fromBytes (bytes size value) = value := by
  unfold fromBytes
  rw [foldl_bytes, Nat.zero_mul, Nat.zero_add, Nat.mod_eq_of_lt h]

end LongCtxSpecDecode.Library.BigEndian
