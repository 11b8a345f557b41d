import Mathlib.Data.List.Basic

/-!
# Base64

Standard base64 with padding as encoders write it, and a decoder that reads both alphabets, skips what is
in neither and stops at the padding.

* `encode`, `decode` : the two, `decode_encode` : the second undoes the first;
* `strict`, `strict_encode` : the same of a decoder that takes the standard alphabet and its padding only.
-/

namespace Base64

def digit (n : Nat) : Char :=
  if n < 26 then Char.ofNat (65 + n)
  else if n < 52 then Char.ofNat (97 + (n - 26))
  else if n < 62 then Char.ofNat (48 + (n - 52))
  else if n = 62 then '+' else '/'

/-- The value of a character in the standard or in the URL alphabet. -/
def value (c : Char) : Option Nat :=
  if 'A' ≤ c ∧ c ≤ 'Z' then some (c.toNat - 65)
  else if 'a' ≤ c ∧ c ≤ 'z' then some (c.toNat - 97 + 26)
  else if '0' ≤ c ∧ c ≤ '9' then some (c.toNat - 48 + 52)
  else if c = '+' ∨ c = '-' then some 62
  else if c = '/' ∨ c = '_' then some 63
  else none

def encode : List UInt8 → List Char
  | [] => []
  | [a] => [digit (a.toNat / 4), digit (a.toNat % 4 * 16), '=', '=']
  | [a, b] =>
    [digit (a.toNat / 4), digit (a.toNat % 4 * 16 + b.toNat / 16), digit (b.toNat % 16 * 4), '=']
  | a :: b :: c :: rest =>
    digit (a.toNat / 4) :: digit (a.toNat % 4 * 16 + b.toNat / 16) ::
      digit (b.toNat % 16 * 4 + c.toNat / 64) :: digit (c.toNat % 64) :: encode rest

/-- Six bits each to bytes; what is left over of a last group is dropped. -/
def join : List Nat → List UInt8
  | a :: b :: c :: d :: rest =>
    UInt8.ofNat (a * 4 + b / 16) :: UInt8.ofNat (b % 16 * 16 + c / 4) ::
      UInt8.ofNat (c % 4 * 64 + d) :: join rest
  | [a, b, c] => [UInt8.ofNat (a * 4 + b / 16), UInt8.ofNat (b % 16 * 16 + c / 4)]
  | [a, b] => [UInt8.ofNat (a * 4 + b / 16)]
  | _ => []

/-- Of characters below 256: of another one `Buffer.from` takes the low byte, where this passes over it. -/
def decode (cs : List Char) : List UInt8 := join ((cs.takeWhile (· ≠ '=')).filterMap value)

theorem value_digit : ∀ n < 64, value (digit n) = some n := by decide

theorem digit_ne_pad : ∀ n < 64, digit n ≠ '=' := by decide

theorem ofNat_eq {n : Nat} {a : UInt8} (h : n % 256 = a.toNat) : UInt8.ofNat n = a := by
  apply UInt8.toNat_inj.mp
  rw [UInt8.toNat_ofNat']
  exact h

/-- A digit of the encoding is one of the values to be joined. -/
theorem decode_digit_cons {n : Nat} (h : n < 64) (cs : List Char) :
    ((digit n :: cs).takeWhile (· ≠ '=')).filterMap value =
      n :: (cs.takeWhile (· ≠ '=')).filterMap value := by
  rw [List.takeWhile_cons_of_pos (by simpa using digit_ne_pad n h), List.filterMap_cons,
    value_digit n h]

theorem decode_encode (bs : List UInt8) : decode (encode bs) = bs := by
  induction bs using encode.induct with
  | case1 => rfl
  | case2 a =>
    have ha := a.toNat_lt
    rw [decode, encode, decode_digit_cons (by omega), decode_digit_cons (by omega)]
    simp only [List.takeWhile, List.filterMap, join, ne_eq, decide_not, decide_true, Bool.not_true]
    rw [ofNat_eq (a := a) (by omega)]
  | case3 a b =>
    have ha := a.toNat_lt
    have hb := b.toNat_lt
    rw [decode, encode, decode_digit_cons (by omega), decode_digit_cons (by omega),
      decode_digit_cons (by omega)]
    simp only [List.takeWhile, List.filterMap, join, ne_eq, decide_not, decide_true, Bool.not_true]
    rw [ofNat_eq (a := a) (by omega), ofNat_eq (a := b) (by omega)]
  | case4 a b c rest ih =>
    have ha := a.toNat_lt
    have hb := b.toNat_lt
    have hc := c.toNat_lt
    rw [decode, encode, decode_digit_cons (by omega), decode_digit_cons (by omega),
      decode_digit_cons (by omega), decode_digit_cons (by omega), join, ← decode, ih,
      ofNat_eq (a := a) (by omega), ofNat_eq (a := b) (by omega), ofNat_eq (a := c) (by omega)]

/-! ## Strict decoding -/

/-- The value of a character in the standard alphabet. -/
def standard (c : Char) : Option Nat := if c = '-' ∨ c = '_' then none else value c

/-- Groups of four characters, the last one padded. -/
def groups : List Char → Option (List UInt8)
  | [] => some []
  | [a, b, '=', '='] => do return join [← standard a, ← standard b]
  | [a, b, c, '='] => do return join [← standard a, ← standard b, ← standard c]
  | a :: b :: c :: d :: rest => do
    return join [← standard a, ← standard b, ← standard c, ← standard d] ++ (← groups rest)
  | _ => none

/-- Line breaks are left out wherever they are. -/
def strict (cs : List Char) : Option (List UInt8) := groups (cs.filter fun c => c ≠ '\n' ∧ c ≠ '\r')

theorem standard_digit : ∀ n < 64, standard (digit n) = some n := by decide

theorem digit_ne_break : ∀ n < 64, digit n ≠ '\n' ∧ digit n ≠ '\r' := by decide

theorem notBreak_encode (bs : List UInt8) : ∀ c ∈ encode bs, c ≠ '\n' ∧ c ≠ '\r' := by
  have hpad : '=' ≠ '\n' ∧ '=' ≠ '\r' := by decide
  induction bs using encode.induct with
  | case1 => exact fun c hc => (List.not_mem_nil hc).elim
  | case2 a =>
    have ha := a.toNat_lt
    simp only [encode, List.forall_mem_cons]
    exact ⟨digit_ne_break _ (by omega), digit_ne_break _ (by omega), hpad, hpad, fun c hc => (List.not_mem_nil hc).elim⟩
  | case3 a b =>
    have ha := a.toNat_lt
    have hb := b.toNat_lt
    simp only [encode, List.forall_mem_cons]
    exact ⟨digit_ne_break _ (by omega), digit_ne_break _ (by omega), digit_ne_break _ (by omega), hpad,
      fun c hc => (List.not_mem_nil hc).elim⟩
  | case4 a b c rest ih =>
    have ha := a.toNat_lt
    have hb := b.toNat_lt
    have hc := c.toNat_lt
    simp only [encode, List.forall_mem_cons]
    exact ⟨digit_ne_break _ (by omega), digit_ne_break _ (by omega), digit_ne_break _ (by omega),
      digit_ne_break _ (by omega), ih⟩

theorem groups_encode (bs : List UInt8) : groups (encode bs) = some bs := by
  induction bs using encode.induct with
  | case1 => rfl
  | case2 a =>
    have ha := a.toNat_lt
    rw [encode, groups, standard_digit _ (by omega), standard_digit _ (by omega)]
    simp only [Option.bind_eq_bind, Option.bind_some, join, Option.pure_def]
    rw [ofNat_eq (a := a) (by omega)]
  | case3 a b =>
    have ha := a.toNat_lt
    have hb := b.toNat_lt
    have hne : digit (b.toNat % 16 * 4) ≠ '=' := digit_ne_pad _ (by omega)
    rw [encode, groups, standard_digit _ (by omega), standard_digit _ (by omega), standard_digit _ (by omega)]
    · simp only [Option.bind_eq_bind, Option.bind_some, join, Option.pure_def]
      rw [ofNat_eq (a := a) (by omega), ofNat_eq (a := b) (by omega)]
    · exact fun h => hne h
  | case4 a b c rest ih =>
    have ha := a.toNat_lt
    have hb := b.toNat_lt
    have hc := c.toNat_lt
    have hne : digit (c.toNat % 64) ≠ '=' := digit_ne_pad _ (by omega)
    rw [encode, groups, standard_digit _ (by omega), standard_digit _ (by omega), standard_digit _ (by omega),
      standard_digit _ (by omega), ih]
    · simp only [Option.bind_eq_bind, Option.bind_some, join, Option.pure_def]
      rw [ofNat_eq (a := a) (by omega), ofNat_eq (a := b) (by omega), ofNat_eq (a := c) (by omega)]
      rfl
    all_goals
      intros
      simp_all

theorem strict_encode (bs : List UInt8) : strict (encode bs) = some bs := by
  have hall : (encode bs).filter (fun c => c ≠ '\n' ∧ c ≠ '\r') = encode bs :=
    List.filter_eq_self.mpr fun c hc => decide_eq_true (notBreak_encode bs c hc)
  rw [strict, hall, groups_encode]

end Base64
