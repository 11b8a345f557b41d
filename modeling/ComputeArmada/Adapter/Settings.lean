import ComputeArmada.Adapter.Ndjson

/-!
# Numbers among the settings

* `Js.number` : `Number` of a string, where it is finite;
* `optionalSeconds` : what `readConfig` makes of a setting of seconds; `readCommandMaxSeconds` is one.
-/

namespace ComputeArmada.Adapter

namespace Js

def digitIn (base : Nat) (c : Char) : Option Nat :=
  let n := c.toNat
  let digit :=
    if 48 ≤ n ∧ n ≤ 57 then n - 48
    else if 65 ≤ n ∧ n ≤ 90 then n - 55
    else if 97 ≤ n ∧ n ≤ 122 then n - 87
    else base
  if digit < base then some digit else none

/-- At least one digit of the base, and nothing else. -/
def digits (base : Nat) (cs : List Char) : Option Nat :=
  if cs = [] then none else (cs.mapM (digitIn base)).map fun ds => ds.foldl (fun n d => n * base + d) 0

def exponent : List Char → Option ℤ
  | [] => some 0
  | e :: cs =>
    if e = 'e' ∨ e = 'E' then
      match cs with
      | '-' :: cs => (digits 10 cs).map fun n => -n
      | '+' :: cs => (digits 10 cs).map fun n => n
      | cs => (digits 10 cs).map fun n => n
    else none

/-- A decimal literal without a sign, other than `Infinity`. -/
def decimal (cs : List Char) : Option ℚ := do
  let (whole, rest) := cs.span Char.isDigit
  let (fraction, rest) := match rest with
    | '.' :: rest => rest.span Char.isDigit
    | rest => ([], rest)
  let n ← digits 10 (whole ++ fraction)
  let e ← exponent rest
  return n * 10 ^ (e - fraction.length)

/-- `Number(raw)`; NaN and the infinities have no value. -/
def number (raw : String) : Option ℚ := do
  let value ← match trimList raw.toList with
    | [] => some 0
    | '0' :: 'x' :: cs | '0' :: 'X' :: cs => (digits 16 cs).map fun n => (n : ℚ)
    | '0' :: 'o' :: cs | '0' :: 'O' :: cs => (digits 8 cs).map fun n => (n : ℚ)
    | '0' :: 'b' :: cs | '0' :: 'B' :: cs => (digits 2 cs).map fun n => (n : ℚ)
    | '-' :: cs => (decimal cs).map fun value => -value
    | '+' :: cs => decimal cs
    | cs => decimal cs
  double value

end Js

/-- A setting that `Number` reads as a whole number, at least `least`. -/
def optionalSeconds (env : Record) (name : String) (fallback least : Nat) : Except JsError Nat :=
  let refused := error (name ++ " must be a whole number of seconds, got: " ++ (Record.own env name).getD "")
  match Record.own env name with
  | none => .ok fallback
  | some raw =>
    match Js.number raw with
    | none => .error refused
    | some value => if value.den = 1 ∧ (least : ℚ) ≤ value then .ok value.num.toNat else .error refused

def defaultCommandMaxSeconds : Nat := 6 * 60 * 60

/-- `commandMaxSeconds`, as `readConfig` reads it. -/
def readCommandMaxSeconds (env : Record) : Except JsError Nat :=
  optionalSeconds env "ARMADA_COMMAND_MAX_SECONDS" defaultCommandMaxSeconds 0

end ComputeArmada.Adapter
