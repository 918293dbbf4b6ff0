import Mathlib

/-!
# Machine words: checked arithmetic and byte order

Unsigned words of `w` bits are naturals below `2 ^ w`; the checked operations
answer `none` where the word would overflow.
-/

namespace Plenora.Lib

/-- Addition of `w`-bit words; `none` on overflow. -/
def checkedAdd (w a b : Nat) : Option Nat := if a + b < 2 ^ w then some (a + b) else none

/-- Multiplication of `w`-bit words; `none` on overflow. -/
def checkedMul (w a b : Nat) : Option Nat := if a * b < 2 ^ w then some (a * b) else none

theorem checkedAdd_eq_some {w a b c : Nat} :
    checkedAdd w a b = some c ↔ a + b < 2 ^ w ∧ c = a + b := by
  unfold checkedAdd
  split
  next h => simp [h, eq_comm]
  next h => simp [h]

theorem checkedMul_eq_some {w a b c : Nat} :
    checkedMul w a b = some c ↔ a * b < 2 ^ w ∧ c = a * b := by
  unfold checkedMul
  split
  next h => simp [h, eq_comm]
  next h => simp [h]

/-- The number whose base-256 digits are `bytes`, least significant first. -/
def natOfLe : List UInt8 → Nat
  | [] => 0
  | b :: bs => b.toNat + 256 * natOfLe bs

/-- A 32-bit word read from its bytes in the given byte order. -/
def wordOfBytes (littleEndian : Bool) (raw : List UInt8) : UInt32 :=
  UInt32.ofNat (natOfLe (if littleEndian then raw else raw.reverse))

/-- The `n` low bytes of a number, least significant first. -/
def leBytes : Nat → Nat → List UInt8
  | 0, _ => []
  | n + 1, v => UInt8.ofNat v :: leBytes n (v / 256)

@[simp] theorem length_leBytes (n v : Nat) : (leBytes n v).length = n := by
  induction n generalizing v with
  | zero => rfl
  | succ n ih => rw [leBytes, List.length_cons, ih]

theorem natOfLe_leBytes (n v : Nat) : natOfLe (leBytes n v) = v % 256 ^ n := by
  induction n generalizing v with
  | zero => simp [leBytes, natOfLe, Nat.mod_one]
  | succ n ih =>
    have hbyte : (UInt8.ofNat v).toNat = v % 256 := UInt8.toNat_ofNat'
    rw [leBytes, natOfLe, ih, hbyte, Nat.pow_succ, Nat.mul_comm (256 ^ n) 256, Nat.mod_mul]

theorem leBytes_inj {n v w : Nat} (hv : v < 256 ^ n) (hw : w < 256 ^ n) :
    leBytes n v = leBytes n w ↔ v = w := by
  refine ⟨fun h => ?_, fun h => h ▸ rfl⟩
  have := congrArg natOfLe h
  rwa [natOfLe_leBytes, natOfLe_leBytes, Nat.mod_eq_of_lt hv, Nat.mod_eq_of_lt hw] at this

/-- The number of a hexadecimal digit. -/
def hexDigit (c : Char) : Option Nat :=
  if '0' ≤ c ∧ c ≤ '9' then some (c.toNat - 48)
  else if 'a' ≤ c ∧ c ≤ 'f' then some (c.toNat - 87)
  else if 'A' ≤ c ∧ c ≤ 'F' then some (c.toNat - 55)
  else none

end Plenora.Lib
