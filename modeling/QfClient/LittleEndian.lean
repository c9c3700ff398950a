import Mathlib.Algebra.Ring.Nat
import Mathlib.Tactic.Common

/-!
# Little-endian integers

`leBytes k v` lays the low `k` bytes of `v` out in little-endian order and
`leNat` reads any byte string back. `low32` and `high32` split a 64-bit offset
for wire formats that predate 64-bit integers, and `join32` recombines it.
-/

namespace LittleEndian

def leBytes : ℕ → ℕ → List UInt8
  | 0, _ => []
  | k + 1, v => UInt8.ofNat v :: leBytes k (v / 256)

def leNat : List UInt8 → ℕ
  | [] => 0
  | b :: bs => b.toNat + 256 * leNat bs

@[simp] theorem length_leBytes (k v : ℕ) : (leBytes k v).length = k := by
  induction k generalizing v with
  | zero => rfl
  | succ k ih => simp only [leBytes, List.length_cons, ih]

theorem leNat_leBytes (k v : ℕ) : leNat (leBytes k v) = v % 256 ^ k := by
  induction k generalizing v with
  | zero => simp [leBytes, leNat, Nat.mod_one]
  | succ k ih =>
      rw [leBytes, leNat, ih, Nat.pow_succ, Nat.mul_comm (256 ^ k), Nat.mod_mul]
      simp

theorem leNat_leBytes_of_lt {k v : ℕ} (h : v < 256 ^ k) : leNat (leBytes k v) = v := by
  rw [leNat_leBytes, Nat.mod_eq_of_lt h]

theorem leNat_lt (bytes : List UInt8) : leNat bytes < 256 ^ bytes.length := by
  induction bytes with
  | nil => exact Nat.one_pos
  | cons b bytes ih =>
      have hb := b.toNat_lt
      rw [leNat, List.length_cons, Nat.pow_succ]
      omega

theorem leBytes_leNat (bytes : List UInt8) : leBytes bytes.length (leNat bytes) = bytes := by
  induction bytes with
  | nil => rfl
  | cons b bytes ih =>
      have hb : b.toNat < 256 := b.toNat_lt
      have hdiv : (b.toNat + 256 * leNat bytes) / 256 = leNat bytes := by omega
      have hlow : UInt8.ofNat (b.toNat + 256 * leNat bytes) = b := by
        apply UInt8.toNat_inj.mp
        rw [UInt8.toNat_ofNat']
        omega
      rw [List.length_cons, leNat, leBytes, hdiv, hlow, ih]

/-- The `n` bytes in front, read and written again. -/
theorem leBytes_leNat_take {n : ℕ} {bytes : List UInt8} (h : n ≤ bytes.length) :
    leNat (bytes.take n) < 256 ^ n ∧ leBytes n (leNat (bytes.take n)) = bytes.take n := by
  have hlength : (bytes.take n).length = n := List.length_take_of_le h
  have hlt := leNat_lt (bytes.take n)
  have hread := leBytes_leNat (bytes.take n)
  rw [hlength] at hlt hread
  exact ⟨hlt, hread⟩

def leUInt16 (v : UInt16) : List UInt8 := leBytes 2 v.toNat

def leUInt32 (v : UInt32) : List UInt8 := leBytes 4 v.toNat

def leUInt64 (v : UInt64) : List UInt8 := leBytes 8 v.toNat

@[simp] theorem length_leUInt16 (v : UInt16) : (leUInt16 v).length = 2 := length_leBytes _ _

@[simp] theorem length_leUInt32 (v : UInt32) : (leUInt32 v).length = 4 := length_leBytes _ _

@[simp] theorem length_leUInt64 (v : UInt64) : (leUInt64 v).length = 8 := length_leBytes _ _

/-- Pieces of one length, one after the other. -/
theorem length_flatMap_of_length {α : Type*} {f : α → List UInt8} {n : ℕ}
    (h : ∀ x, (f x).length = n) (xs : List α) : (xs.flatMap f).length = n * xs.length := by
  induction xs with
  | nil => rfl
  | cons x xs ih =>
      rw [List.flatMap_cons, List.length_append, h, ih, List.length_cons, Nat.mul_succ,
        Nat.add_comm]

theorem ofNat_leNat_leUInt16 (v : UInt16) : UInt16.ofNat (leNat (leUInt16 v)) = v := by
  rw [leUInt16, leNat_leBytes_of_lt (by simpa using v.toNat_lt), UInt16.ofNat_toNat]

theorem ofNat_leNat_leUInt32 (v : UInt32) : UInt32.ofNat (leNat (leUInt32 v)) = v := by
  rw [leUInt32, leNat_leBytes_of_lt (by simpa using v.toNat_lt), UInt32.ofNat_toNat]

theorem ofNat_leNat_leUInt64 (v : UInt64) : UInt64.ofNat (leNat (leUInt64 v)) = v := by
  rw [leUInt64, leNat_leBytes_of_lt (by simpa using v.toNat_lt), UInt64.ofNat_toNat]

def low32 (v : UInt64) : UInt32 := (v &&& 0xFFFFFFFF).toUInt32

def high32 (v : UInt64) : UInt32 := ((v >>> 32) &&& 0xFFFFFFFF).toUInt32

def join32 (high low : UInt32) : UInt64 := (high.toUInt64 <<< 32) ||| low.toUInt64

theorem toNat_low32 (v : UInt64) : (low32 v).toNat = v.toNat % 2 ^ 32 := by
  have h : (0xFFFFFFFF : ℕ) = 2 ^ 32 - 1 := rfl
  simp only [low32, UInt64.toNat_toUInt32, UInt64.toNat_and, UInt64.reduceToNat]
  rw [h, Nat.and_two_pow_sub_one_eq_mod, Nat.mod_mod]

theorem toNat_high32 (v : UInt64) : (high32 v).toNat = v.toNat / 2 ^ 32 := by
  have h : (0xFFFFFFFF : ℕ) = 2 ^ 32 - 1 := rfl
  have hv := v.toNat_lt
  simp only [high32, UInt64.toNat_toUInt32, UInt64.toNat_and, UInt64.reduceToNat,
    UInt64.toNat_shiftRight, Nat.reduceMod]
  rw [h, Nat.and_two_pow_sub_one_eq_mod, Nat.mod_mod, Nat.shiftRight_eq_div_pow]
  omega

theorem toNat_join32 (high low : UInt32) :
    (join32 high low).toNat = high.toNat * 2 ^ 32 + low.toNat := by
  have hh := high.toNat_lt
  have hl := low.toNat_lt
  simp only [join32, UInt64.toNat_or, UInt64.toNat_shiftLeft, UInt32.toNat_toUInt64,
    UInt64.reduceToNat, Nat.reduceMod]
  have hlt : high.toNat <<< 32 < 2 ^ 64 := by
    rw [Nat.shiftLeft_eq]
    omega
  rw [Nat.mod_eq_of_lt hlt, ← Nat.shiftLeft_add_eq_or_of_lt (by simpa using hl), Nat.shiftLeft_eq]

/-- Splitting and recombining an offset gives the same offset. -/
theorem join32_high32_low32 (v : UInt64) : join32 (high32 v) (low32 v) = v := by
  apply UInt64.toNat_inj.mp
  rw [toNat_join32, toNat_high32, toNat_low32]
  omega

end LittleEndian
