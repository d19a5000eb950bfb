import FutureOs.Lib.Utf8
import Mathlib.Tactic.Ring

/-!
# Little-endian numbers of a fixed width

A number as the list of its lowest bytes, least significant first, and back.
Writing drops what does not fit, so reading gives the remainder.
-/

namespace FutureOs

namespace LittleEndian

/-- The lowest `width` bytes of a number. -/
def write : Nat → Nat → Bytes
  | 0, _ => []
  | width + 1, n => UInt8.ofNat n :: write width (n / 256)

/-- The number these bytes spell. -/
def read : Bytes → Nat
  | [] => 0
  | b :: rest => b.toNat + 256 * read rest

@[simp] theorem write_length (width n : Nat) : (write width n).length = width := by
  induction width generalizing n with
  | zero =>
      rfl
  | succ width ih =>
      simp [write, ih]

theorem read_write (width n : Nat) :
    read (write width n) = n % 256 ^ width := by
  induction width generalizing n with
  | zero =>
      simp [write, read, Nat.mod_one]
  | succ width ih =>
      have hbyte : (UInt8.ofNat n).toNat = n % 256 := by simp
      have hpow : 256 ^ (width + 1) = 256 * 256 ^ width := by ring
      rw [write, read, ih, hbyte, hpow, Nat.mod_mul]

theorem read_write_of_lt
    {width n : Nat}
    (h : n < 256 ^ width) :
    read (write width n) = n := by
  rw [read_write, Nat.mod_eq_of_lt h]

/-- Two numbers that fit are equal if their bytes are. -/
theorem write_injective
    {width n m : Nat}
    (hn : n < 256 ^ width)
    (hm : m < 256 ^ width)
    (h : write width n = write width m) :
    n = m := by
  have hread := congrArg read h
  rwa [read_write_of_lt hn, read_write_of_lt hm] at hread

theorem read_append (bytes rest : Bytes) :
    read (bytes ++ rest) = read bytes + 256 ^ bytes.length * read rest := by
  induction bytes with
  | nil =>
      simp [read]
  | cons b bytes ih =>
      rw [List.cons_append, read, read, ih, List.length_cons]
      ring

theorem write_zero (width : Nat) : write width 0 = List.replicate width 0 := by
  induction width with
  | zero =>
      rfl
  | succ width ih =>
      rw [write, Nat.zero_div, ih]
      rfl

/-- A number below a narrower width is written with zeros above it. -/
theorem write_add
    {width n : Nat}
    (extra : Nat)
    (h : n < 256 ^ width) :
    write (width + extra) n = write width n ++ List.replicate extra 0 := by
  induction width generalizing n with
  | zero =>
      have hzero : n = 0 := by simpa using h
      rw [hzero, Nat.zero_add, write_zero]
      rfl
  | succ width ih =>
      have hpow : 256 ^ (width + 1) = 256 * 256 ^ width := by ring
      have hdiv : n / 256 < 256 ^ width :=
        Nat.div_lt_of_lt_mul (hpow ▸ h)
      rw [Nat.add_right_comm, write, write, ih hdiv]
      rfl

end LittleEndian
end FutureOs
