import Mathlib.Algebra.GroupWithZero.Nat
import Mathlib.Tactic.Common

/-! `strtoul` with base 16, in the C locale. -/
namespace OrbFirmware.Strtoul

def isspace (ch : UInt8) : Bool := ch = 0x20 || (0x09 ≤ ch && ch ≤ 0x0d)

/-- The value of a hexadecimal digit. -/
def hexDigit (ch : UInt8) : Option Nat :=
  if 0x30 ≤ ch ∧ ch ≤ 0x39 then some (ch.toNat - 0x30)
  else if 0x41 ≤ ch ∧ ch ≤ 0x46 then some (ch.toNat - 0x41 + 10)
  else if 0x61 ≤ ch ∧ ch ≤ 0x66 then some (ch.toNat - 0x61 + 10)
  else none

def isHexDigit (ch : UInt8) : Bool := (hexDigit ch).isSome

/-- The digits at the front, behind those of `value`, and what follows them. -/
def number (value : Nat) : List UInt8 → Nat × List UInt8
  | [] => (value, [])
  | ch :: rest =>
    match hexDigit ch with
    | some digit => number (16 * value + digit) rest
    | none => (value, ch :: rest)

/-- The sign, if there is one, and what follows it. -/
def sign : List UInt8 → Bool × List UInt8
  | 0x2d :: rest => (true, rest)
  | 0x2b :: rest => (false, rest)
  | str => (false, str)

/-- What follows "0x", if a digit does. -/
def digits : List UInt8 → List UInt8
  | 0x30 :: x :: digit :: rest =>
    if (x = 0x78 || x = 0x58) && isHexDigit digit then digit :: rest else 0x30 :: x :: digit :: rest
  | str => str

/-- The value, negated modulo 2^32 behind a minus sign and `ULONG_MAX` if it is larger, and the end of the number; 0 and
the whole string if there is no digit. -/
def strtoul (str : List UInt8) : UInt32 × List UInt8 :=
  let (negative, afterSign) := sign (str.dropWhile isspace)
  match digits afterSign with
  | [] => (0, str)
  | ch :: rest =>
    if isHexDigit ch then
      let (value, endptr) := number 0 (ch :: rest)
      let value := if value < 2 ^ 32 then UInt32.ofNat value else 0xffffffff
      (if negative then -value else value, endptr)
    else (0, str)

variable {ch c0 c1 : UInt8} {digit d0 d1 : Nat}

/-- A digit has a value below 16, and is neither a space nor a sign nor the end of a string. -/
theorem hexDigit_facts (h : hexDigit ch = some digit) :
    digit < 16 ∧ isspace ch = false ∧ ch ≠ 0x2d ∧ ch ≠ 0x2b ∧ ch ≠ 0 := by
  unfold hexDigit at h
  split_ifs at h <;> grind [isspace, UInt8.le_iff_toNat_le]

/-- A string of two digits. -/
theorem strtoul_pair (h0 : hexDigit c0 = some d0) (h1 : hexDigit c1 = some d1) :
    strtoul [c0, c1, 0] = (UInt32.ofNat (16 * d0 + d1), [0]) := by
  obtain ⟨hlt0, hspace, hminus, hplus, -⟩ := hexDigit_facts h0
  obtain ⟨hlt1, -⟩ := hexDigit_facts h1
  have hstart : [c0, c1, 0].dropWhile isspace = [c0, c1, 0] := by simp [List.dropWhile, hspace]
  have hsign : sign [c0, c1, 0] = (false, [c0, c1, 0]) := by
    unfold sign
    grind
  have hend : hexDigit 0 = none := by decide
  have hdigits : digits [c0, c1, 0] = [c0, c1, 0] := by
    unfold digits
    grind [isHexDigit]
  have hnumber : number 0 [c0, c1, 0] = (16 * d0 + d1, [0]) := by
    simp only [number, h0, h1, hend, Nat.mul_zero, Nat.zero_add]
  have hvalue : 16 * d0 + d1 < 2 ^ 32 := by omega
  simp only [strtoul, hstart, hsign, hdigits, isHexDigit, h0, hnumber, hvalue, Option.isSome_some, if_true,
    Bool.false_eq_true, if_false]

end OrbFirmware.Strtoul
