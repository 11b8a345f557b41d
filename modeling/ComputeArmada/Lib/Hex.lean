import ComputeArmada.Lib.Utf8

/-!
# Hexadecimal digits

Bytes as pairs of digits, written in lower case and read in either case.

* `encode`, `decode` : the two, `decode_encode` : the second undoes the first.
-/

namespace Hex

def digit (n : Nat) : Char := if n < 10 then Char.ofNat (48 + n) else Char.ofNat (87 + n)

/-- The value of a digit, given as its byte. -/
def value (b : UInt8) : Option Nat :=
  let n := b.toNat
  if 48 ≤ n ∧ n ≤ 57 then some (n - 48)
  else if 97 ≤ n ∧ n ≤ 102 then some (n - 87)
  else if 65 ≤ n ∧ n ≤ 70 then some (n - 55)
  else none

def encode (bs : List UInt8) : List Char := bs.flatMap fun b => [digit (b.toNat / 16), digit (b.toNat % 16)]

/-- Two digits make a byte; anything else fails, and so does an odd one at the end. -/
def decode : List UInt8 → Option (List UInt8)
  | [] => some []
  | [_] => none
  | a :: b :: rest => do
    let x ← value a
    let y ← value b
    return UInt8.ofNat (16 * x + y) :: (← decode rest)

/-- A digit is one byte, which has its value. -/
theorem digit_byte : ∀ n < 16, ∃ b, String.utf8EncodeChar (digit n) = [b] ∧ value b = some n := by
  have hdigit : ∀ n < 16, (String.utf8EncodeChar (digit n)).map value = [some n] := by decide
  intro n hn
  obtain ⟨b, hb, hvalue⟩ := List.map_eq_singleton_iff.mp (hdigit n hn)
  exact ⟨b, hb, hvalue⟩

theorem ofNat_halves (b : UInt8) : UInt8.ofNat (16 * (b.toNat / 16) + b.toNat % 16) = b := by
  rw [Nat.div_add_mod, UInt8.ofNat_toNat]

theorem decode_encode (bs : List UInt8) : decode (Utf8.encode (encode bs)) = some bs := by
  induction bs with
  | nil => rfl
  | cons b bs ih =>
    have hb := b.toNat_lt
    obtain ⟨x, hx, hxvalue⟩ := digit_byte (b.toNat / 16) (by omega)
    obtain ⟨y, hy, hyvalue⟩ := digit_byte (b.toNat % 16) (by omega)
    have hencode : Utf8.encode (encode (b :: bs)) = x :: y :: Utf8.encode (encode bs) := by
      rw [encode, List.flatMap_cons, Utf8.encode_append, Utf8.encode_cons, Utf8.encode_cons, hx, hy]
      rfl
    rw [hencode, decode, hxvalue, hyvalue, ih]
    simp only [Option.bind_eq_bind, Option.bind_some, ofNat_halves]
    rfl

end Hex
