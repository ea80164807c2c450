/-
  Numbers in groups of seven bits, the lowest first; every byte but the last is marked. A number of
  64 bits takes at most ten bytes.
-/
import GatewayStore.Number.Power
import GatewayStore.Text.Bytes

namespace GatewayStore.Wire

/-- The shortest form of a number. -/
def varint (n : Nat) : Bytes :=
  if n < 128 then [UInt8.ofNat n] else UInt8.ofNat (n % 128 + 128) :: varint (n / 128)

/-- Reads a number of at most `left` bytes; of ten bytes the last is at most one. -/
def readVarintFrom : (left : Nat) → Bytes → Option (Nat × Bytes)
  | 0, _ => none
  | _, [] => none
  | left + 1, b :: rest =>
    if b.toNat < 128 then
      if left = 0 ∧ 1 < b.toNat then none else some (b.toNat, rest)
    else (readVarintFrom left rest).map fun p => (p.1 * 128 + (b.toNat - 128), p.2)

/-- The longest form of a number. -/
def maxVarintBytes : Nat := 10

/-- Reads a number; longer forms than needed are accepted. -/
def readVarint (b : Bytes) : Option (Nat × Bytes) := readVarintFrom maxVarintBytes b

theorem readVarintFrom_varint {left n : Nat} (hn : n < 2 ^ (7 * left + 1)) (rest : Bytes) :
    readVarintFrom (left + 1) (varint n ++ rest) = some (n, rest) := by
  induction left generalizing n with
  | zero =>
    have h1 : n < 2 := by simpa using hn
    rw [varint, if_pos (by omega)]
    have : (UInt8.ofNat n).toNat = n := by simp; omega
    simp only [List.cons_append, List.nil_append, readVarintFrom, this]
    rw [if_pos (by omega), if_neg (by omega)]
  | succ left ih =>
    rw [varint]
    split
    · next h =>
      have : (UInt8.ofNat n).toNat = n := by simp; omega
      simp only [List.cons_append, List.nil_append, readVarintFrom, this]
      rw [if_pos h, if_neg (by omega)]
    · next h =>
      have hb : (UInt8.ofNat (n % 128 + 128)).toNat = n % 128 + 128 := by simp; omega
      have hpow : (2 : Nat) ^ (7 * (left + 1) + 1) = 128 * 2 ^ (7 * left + 1) := by
        rw [show 7 * (left + 1) + 1 = 7 + (7 * left + 1) by omega, Nat.pow_add]
      have hq : n / 128 < 2 ^ (7 * left + 1) := by omega
      simp only [List.cons_append, readVarintFrom, hb]
      rw [if_neg (by omega), ih hq]
      simp
      omega

/-- Reading gives back what was written. -/
theorem readVarint_varint {n : Nat} (hn : n < 2 ^ 64) (rest : Bytes) :
    readVarint (varint n ++ rest) = some (n, rest) :=
  readVarintFrom_varint (by exact hn) rest

end GatewayStore.Wire
