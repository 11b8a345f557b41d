import Mathlib.Algebra.Field.Rat
import Mathlib.Tactic.Common
import ComputeArmada.Lib.Text

/-!
# JSON texts

A reader of JSON, one character after the other, with a stack of the arrays and objects it is in. Numbers are
of any type that their exact values are turned into, and a surrogate without its other half is replaced.

* `Json` : values; `Reader` : where a text is read to (`Reader.step`, `Reader.run`);
* `Json.parse` : the value of a whole text;
* `Reader.Written` : a text that is read as a value, wherever it is;
* `Json.parse_object`, `Json.parse_isPrefix` : what is written as an object is read as one, and none of its
  beginnings is.
-/

/-- A value; an object has its members in their order, with keys that may occur again. -/
inductive Json (ν : Type)
  | null
  | bool (b : Bool)
  | number (n : ν)
  | string (s : String)
  | array (values : List (Json ν))
  | object (members : List (String × Json ν))

namespace Json
variable {ν : Type}

/-! ## Reading -/

/-- How far a number is. -/
inductive Place
  | minus | zero | whole | point | fraction | e | sign | exponent
  deriving DecidableEq

/-- A number: its digits, as a whole number, how many of them follow the point, and its exponent. -/
structure Numeral where
  place : Place
  negative : Bool
  digits : Nat
  decimals : Nat
  below : Bool
  exponent : Nat
  deriving DecidableEq

def Numeral.value (n : Numeral) : ℚ :=
  let size := (n.digits : ℚ) / 10 ^ n.decimals * (if n.below then (10 ^ n.exponent)⁻¹ else 10 ^ n.exponent)
  if n.negative then -size else size

/-- The number may end here. -/
def Numeral.complete (n : Numeral) : Bool :=
  n.place = .zero ∨ n.place = .whole ∨ n.place = .fraction ∨ n.place = .exponent

def digitValue (c : Char) : Option Nat := if '0' ≤ c ∧ c ≤ '9' then some (c.toNat - 48) else none

/-- One more character of a number. -/
def Numeral.next (n : Numeral) (c : Char) : Option Numeral :=
  match n.place, digitValue c with
  | .minus, some d => some { n with place := if d = 0 then .zero else .whole, digits := d }
  | .whole, some d => some { n with digits := n.digits * 10 + d }
  | .point, some d => some { n with place := .fraction, digits := n.digits * 10 + d, decimals := 1 }
  | .fraction, some d => some { n with digits := n.digits * 10 + d, decimals := n.decimals + 1 }
  | .e, some d => some { n with place := .exponent, exponent := d }
  | .sign, some d => some { n with place := .exponent, exponent := d }
  | .exponent, some d => some { n with exponent := n.exponent * 10 + d }
  | .zero, none | .whole, none =>
    if c = '.' then some { n with place := .point }
    else if c = 'e' ∨ c = 'E' then some { n with place := .e }
    else none
  | .fraction, none => if c = 'e' ∨ c = 'E' then some { n with place := .e } else none
  | .e, none =>
    if c = '+' then some { n with place := .sign }
    else if c = '-' then some { n with place := .sign, below := true }
    else none
  | _, _ => none

/-- Within an escape of a string. -/
inductive Escape
  | no
  | backslash
  | unit (left code : Nat)
  deriving DecidableEq

/-- A string: its characters, the last one first, and the first half of a surrogate pair. -/
structure Quoted where
  chars : List Char
  high : Option Nat
  escape : Escape
  deriving DecidableEq

def replacement : Char := Char.ofNat 0xfffd

/-- The characters, when no second half of a pair follows. -/
def Quoted.settled (q : Quoted) : List Char := if q.high = none then q.chars else replacement :: q.chars

def Quoted.push (q : Quoted) (c : Char) : Quoted := { chars := c :: q.settled, high := none, escape := .no }

/-- A code unit. -/
def Quoted.pushUnit (q : Quoted) (unit : Nat) : Quoted :=
  if 0xd800 ≤ unit ∧ unit < 0xdc00 then { chars := q.settled, high := some unit, escape := .no }
  else if 0xdc00 ≤ unit ∧ unit < 0xe000 then
    match q.high with
    | some high =>
      { chars := Char.ofNat (0x10000 + (high - 0xd800) * 0x400 + (unit - 0xdc00)) :: q.chars, high := none
        escape := .no }
    | none => q.push replacement
  else q.push (Char.ofNat unit)

def hexValue (c : Char) : Option Nat :=
  if '0' ≤ c ∧ c ≤ '9' then some (c.toNat - 48)
  else if 'a' ≤ c ∧ c ≤ 'f' then some (c.toNat - 87)
  else if 'A' ≤ c ∧ c ≤ 'F' then some (c.toNat - 55)
  else none

/-- What a character after a backslash stands for. -/
def escaped (c : Char) : Option Char :=
  if c = '"' ∨ c = '\\' ∨ c = '/' then some c
  else if c = 'b' then some (Char.ofNat 8)
  else if c = 'f' then some (Char.ofNat 12)
  else if c = 'n' then some (Char.ofNat 10)
  else if c = 'r' then some (Char.ofNat 13)
  else if c = 't' then some (Char.ofNat 9)
  else none

/-- One more character of a string, other than the quote that ends it. -/
def Quoted.next (q : Quoted) (c : Char) : Option Quoted :=
  match q.escape with
  | .no =>
    if c = '\\' then some { q with escape := .backslash }
    else if c.toNat < 32 then none
    else some (q.push c)
  | .backslash => if c = 'u' then some { q with escape := .unit 3 0 } else (escaped c).map q.push
  | .unit left code =>
    (hexValue c).map fun d =>
      match left with
      | 0 => q.pushUnit (code * 16 + d)
      | left + 1 => { q with escape := .unit left (code * 16 + d) }

def Quoted.start : Quoted := { chars := [], high := none, escape := .no }

def Numeral.start : Numeral :=
  { place := .minus, negative := false, digits := 0, decimals := 0, below := false, exponent := 0 }

/-- What a value is in: an array, after some values, or an object, after some members and a key. -/
inductive Frame (ν : Type)
  | array (before : List (Json ν))
  | object (before : List (String × Json ν)) (key : String)

inductive Mode (ν : Type)
  | value
  /-- After `[`. -/
  | first
  /-- After `{`. -/
  | members
  | key
  | colon
  | literal (rest : List Char) (v : Json ν)
  | string (isKey : Bool) (q : Quoted)
  | number (n : Numeral)
  | after (v : Json ν)

structure Reader (ν : Type) where
  stack : List (Frame ν)
  mode : Mode ν

def isBlank (c : Char) : Bool := c = ' ' ∨ c = '\t' ∨ c = '\n' ∨ c = '\r'

namespace Reader

def start : Reader ν := { stack := [], mode := .value }

/-- The first character of a value. -/
def begin (stack : List (Frame ν)) (c : Char) : Option (Reader ν) :=
  if c = '{' then some { stack := .object [] "" :: stack, mode := .members }
  else if c = '[' then some { stack := .array [] :: stack, mode := .first }
  else if c = '"' then some { stack, mode := .string false Quoted.start }
  else if c = '-' then some { stack, mode := .number { Numeral.start with negative := true } }
  else if c = 't' then some { stack, mode := .literal "rue".toList (.bool true) }
  else if c = 'f' then some { stack, mode := .literal "alse".toList (.bool false) }
  else if c = 'n' then some { stack, mode := .literal "ull".toList .null }
  else (Numeral.start.next c).map fun n => { stack, mode := .number n }

/-- A character after a value. -/
def follow (stack : List (Frame ν)) (v : Json ν) (c : Char) : Option (Reader ν) :=
  if isBlank c then some { stack, mode := .after v }
  else match stack with
    | .array before :: stack =>
      if c = ',' then some { stack := .array (v :: before) :: stack, mode := .value }
      else if c = ']' then some { stack, mode := .after (.array (v :: before).reverse) }
      else none
    | .object before key :: stack =>
      if c = ',' then some { stack := .object ((key, v) :: before) "" :: stack, mode := .key }
      else if c = '}' then some { stack, mode := .after (.object ((key, v) :: before).reverse) }
      else none
    | [] => none

def step (number : ℚ → ν) (r : Reader ν) (c : Char) : Option (Reader ν) :=
  match r.mode with
  | .value => if isBlank c then some r else begin r.stack c
  | .first =>
    if isBlank c then some r
    else if c = ']' then some { stack := r.stack.tail, mode := .after (.array []) }
    else begin r.stack c
  | .members =>
    if isBlank c then some r
    else if c = '}' then some { stack := r.stack.tail, mode := .after (.object []) }
    else if c = '"' then some { r with mode := .string true Quoted.start }
    else none
  | .key =>
    if isBlank c then some r
    else if c = '"' then some { r with mode := .string true Quoted.start }
    else none
  | .colon => if isBlank c then some r else if c = ':' then some { r with mode := .value } else none
  | .literal rest v =>
    match rest with
    | [] => none
    | [d] => if c = d then some { r with mode := .after v } else none
    | d :: rest => if c = d then some { r with mode := .literal rest v } else none
  | .string isKey q =>
    if c = '"' ∧ q.escape = .no then
      let text := String.ofList q.settled.reverse
      if isKey then
        match r.stack with
        | .object before _ :: stack => some { stack := .object before text :: stack, mode := .colon }
        | _ => none
      else some { r with mode := .after (.string text) }
    else (q.next c).map fun q => { r with mode := .string isKey q }
  | .number n =>
    match n.next c with
    | some n => some { r with mode := .number n }
    | none => if n.complete then follow r.stack (.number (number n.value)) c else none
  | .after v => follow r.stack v c

def run (number : ℚ → ν) (r : Reader ν) (text : List Char) : Option (Reader ν) := text.foldlM (step number) r

/-- The end of the text. -/
def finish (number : ℚ → ν) (r : Reader ν) : Option (Json ν) :=
  match r.stack, r.mode with
  | [], .after v => some v
  | [], .number n => if n.complete then some (.number (number n.value)) else none
  | _, _ => none

end Reader

def parse (number : ℚ → ν) (text : List Char) : Option (Json ν) :=
  (Reader.start.run number text).bind (Reader.finish number)

/-- The value of a key: of the last of its members. -/
def get? (v : Json ν) (key : String) : Option (Json ν) :=
  match v with
  | .object members => (members.reverse.find? fun p => p.1 = key).map (·.2)
  | _ => none

namespace Reader
variable {number : ℚ → ν} {r s : Reader ν}

theorem run_cons (r : Reader ν) (c : Char) (text : List Char) :
    r.run number (c :: text) = (r.step number c).bind fun r => r.run number text := List.foldlM_cons

theorem run_append (r : Reader ν) (text text' : List Char) :
    r.run number (text ++ text') = (r.run number text).bind fun r => r.run number text' := List.foldlM_append

/-! ## Texts of objects -/

/-- Within an array or an object, or behind a value. -/
def Enclosed (r : Reader ν) : Prop := r.stack = [] → ∃ v, r.mode = .after v

theorem enclosed_begin {stack : List (Frame ν)} (hstack : stack ≠ []) {c : Char} (h : begin stack c = some s) :
    Enclosed s := by
  unfold begin at h
  intro hs
  refine absurd ?_ hstack
  split at h
  · cases h; cases hs
  split at h
  · cases h; cases hs
  split at h
  · cases h; exact hs
  split at h
  · cases h; exact hs
  split at h
  · cases h; exact hs
  split at h
  · cases h; exact hs
  split at h
  · cases h; exact hs
  · obtain ⟨n, -, rfl⟩ := Option.map_eq_some_iff.mp h
    exact hs

theorem enclosed_follow {stack : List (Frame ν)} {v : Json ν} {c : Char} (h : follow stack v c = some s) :
    Enclosed s := by
  unfold follow at h
  split at h
  · cases h
    exact fun _ => ⟨v, rfl⟩
  split at h
  · split at h
    · cases h
      exact fun hs => nomatch hs
    · split at h <;> cases h
      exact fun _ => ⟨_, rfl⟩
  · split at h
    · cases h
      exact fun hs => nomatch hs
    · split at h <;> cases h
      exact fun _ => ⟨_, rfl⟩
  · cases h

theorem enclosed_step (hr : Enclosed r) {c : Char} (h : r.step number c = some s) : Enclosed s := by
  obtain ⟨stack, mode⟩ := r
  have hkept : ∀ mode' : Mode ν, (¬ ∃ v, mode = .after v) → Enclosed { stack, mode := mode' } :=
    fun mode' hmode hstack => absurd (hr hstack) hmode
  have hbegin : (¬ ∃ v, mode = .after v) → begin stack c = some s → Enclosed s := fun hmode =>
    enclosed_begin fun hstack => hmode (hr hstack)
  unfold step at h
  cases mode with
  | value =>
    dsimp only at h
    split at h
    · cases h
      exact hr
    · exact hbegin (by simp) h
  | first =>
    dsimp only at h
    split at h
    · cases h
      exact hr
    split at h
    · cases h
      exact fun _ => ⟨_, rfl⟩
    · exact hbegin (by simp) h
  | members =>
    dsimp only at h
    split at h
    · cases h
      exact hr
    split at h
    · cases h
      exact fun _ => ⟨_, rfl⟩
    · split at h <;> cases h
      exact hkept _ (by simp)
  | key =>
    dsimp only at h
    split at h
    · cases h
      exact hr
    · split at h <;> cases h
      exact hkept _ (by simp)
  | colon =>
    dsimp only at h
    split at h
    · cases h
      exact hr
    · split at h <;> cases h
      exact hkept _ (by simp)
  | literal rest v =>
    dsimp only at h
    split at h
    · cases h
    · split at h <;> cases h
      exact fun _ => ⟨v, rfl⟩
    · split at h <;> cases h
      exact hkept _ (by simp)
  | string isKey q =>
    dsimp only at h
    split at h
    · split at h
      · split at h <;> cases h
        exact fun hs => nomatch hs
      · cases h
        exact fun _ => ⟨_, rfl⟩
    · obtain ⟨q', -, rfl⟩ := Option.map_eq_some_iff.mp h
      exact hkept _ (by simp)
  | number n =>
    dsimp only at h
    split at h
    · cases h
      exact hkept _ (by simp)
    · split at h
      · exact enclosed_follow h
      · cases h
  | after v => exact enclosed_follow h

/-- Behind a whole text there may only be blanks. -/
theorem run_after {v : Json ν} {text : List Char}
    (h : run number { stack := [], mode := .after v } text = some s) : ∀ c ∈ text, isBlank c = true := by
  induction text with
  | nil => simp
  | cons c text ih =>
    rw [run_cons] at h
    obtain ⟨r, hr, h⟩ := Option.bind_eq_some_iff.mp h
    have hc : isBlank c = true := by
      by_contra hc
      simp [step, follow, hc] at hr
    have hsame : r = { stack := [], mode := .after v } := by
      simpa [step, follow, hc] using hr.symm
    subst hsame
    exact List.forall_mem_cons.mpr ⟨hc, ih h⟩

theorem enclosed_run (hr : Enclosed r) {text : List Char} (h : r.run number text = some s) : Enclosed s := by
  induction text generalizing r with
  | nil =>
    cases h
    exact hr
  | cons c text ih =>
    rw [run_cons] at h
    obtain ⟨r', hr', h⟩ := Option.bind_eq_some_iff.mp h
    exact ih (enclosed_step hr hr') h

/-! ## Strings -/

/-- The characters of a string, up to its end. -/
def Quoted.read (q : Quoted) (text : List Char) : Option Quoted :=
  text.foldlM (fun q c => if c = '"' ∧ q.escape = .no then none else q.next c) q

theorem run_quoted {q q' : Quoted} {text : List Char} (h : Quoted.read q text = some q') (stack : List (Frame ν))
    (isKey : Bool) : run number { stack, mode := .string isKey q } text = some { stack, mode := .string isKey q' } := by
  induction text generalizing q with
  | nil =>
    cases h
    rfl
  | cons c text ih =>
    unfold Quoted.read at h
    rw [List.foldlM_cons] at h
    obtain ⟨q₁, hq₁, h⟩ := Option.bind_eq_some_iff.mp h
    split at hq₁
    · cases hq₁
    · rename_i hc
      have hstep : step number { stack, mode := .string isKey q } c = some { stack, mode := .string isKey q₁ } := by
        simp only [step, if_neg hc, hq₁, Option.map_some]
      rw [run_cons, hstep]
      exact ih h

/-- A piece of text that stands for one character, wherever it is in a string. -/
def Stands (text : List Char) (c : Char) : Prop :=
  ∀ chars, Quoted.read { chars, high := none, escape := .no } text =
  some { chars := c :: chars, high := none, escape := .no }

theorem read_flatMap {α : Type} {f : α → List Char} {g : α → Char} {as : List α} (hf : ∀ a ∈ as, Stands (f a) (g a))
    (chars : List Char) : Quoted.read { chars, high := none, escape := .no } (as.flatMap f) =
      some { chars := (as.map g).reverse ++ chars, high := none, escape := .no } := by
  induction as generalizing chars with
  | nil => rfl
  | cons a as ih =>
    obtain ⟨ha, has⟩ := List.forall_mem_cons.mp hf
    have hread := ha chars
    unfold Quoted.read at hread ih ⊢
    rw [List.flatMap_cons, List.foldlM_append, hread, List.map_cons, List.reverse_cons, List.append_assoc]
    exact ih has (g a :: chars)

/-- Characters that stand for themselves. -/
def Plain (c : Char) : Prop := c ≠ '"' ∧ c ≠ '\\' ∧ 32 ≤ c.toNat

instance (c : Char) : Decidable (Plain c) := inferInstanceAs (Decidable (_ ∧ _ ∧ _))

theorem stands_plain {c : Char} (h : Plain c) : Stands [c] c := by
  obtain ⟨hquote, hslash, hlarge⟩ := h
  intro chars
  simp [Quoted.read, Quoted.next, Quoted.push, Quoted.settled, hquote, hslash, not_lt.mpr hlarge]

theorem run_string {stack : List (Frame ν)} {body : List Char} {chars : List Char}
    (h : Quoted.read Quoted.start body = some { chars, high := none, escape := .no }) (rest : List Char) :
    run number { stack, mode := .value } ('"' :: (body ++ '"' :: rest)) =
      run number { stack, mode := .after (.string (String.ofList chars.reverse)) } rest := by
  have hopen : step number { stack, mode := .value } '"' = some { stack, mode := .string false Quoted.start } := by
    simp [step, begin, isBlank]
  rw [run_cons, hopen, Option.bind_some, run_append, run_quoted h, Option.bind_some, run_cons]
  simp [step, Quoted.settled]

theorem run_key {stack : List (Frame ν)} {before : List (String × Json ν)} {key' : String} {mode : Mode ν}
    (hmode : mode = .members ∨ mode = .key) {body : List Char} {chars : List Char}
    (h : Quoted.read Quoted.start body = some { chars, high := none, escape := .no }) (rest : List Char) :
    run number { stack := .object before key' :: stack, mode } ('"' :: (body ++ '"' :: ':' :: rest)) =
      run number { stack := .object before (String.ofList chars.reverse) :: stack, mode := .value } rest := by
  have hopen : step number { stack := .object before key' :: stack, mode } '"' =
      some { stack := .object before key' :: stack, mode := .string true Quoted.start } := by
    rcases hmode with rfl | rfl <;> simp [step, isBlank]
  rw [run_cons, hopen, Option.bind_some, run_append, run_quoted h, Option.bind_some, run_cons]
  simp [step, Quoted.settled, run_cons, isBlank]

theorem stands_unit {a b c d : Nat} (ha : a < 16) (hb : b < 16) (hc : c < 16) (hd : d < 16)
    (hunit : ((a * 16 + b) * 16 + c) * 16 + d < 0xd800 ∨ 0xe000 ≤ ((a * 16 + b) * 16 + c) * 16 + d) :
    Stands ['\\', 'u', Nat.digitChar a, Nat.digitChar b, Nat.digitChar c, Nat.digitChar d]
      (Char.ofNat (((a * 16 + b) * 16 + c) * 16 + d)) := by
  have hhex : ∀ n < 16, hexValue (Nat.digitChar n) = some n := by decide
  intro chars
  have hhigh : ¬ (0xd800 ≤ ((a * 16 + b) * 16 + c) * 16 + d ∧ ((a * 16 + b) * 16 + c) * 16 + d < 0xdc00) := by omega
  have hlow : ¬ (0xdc00 ≤ ((a * 16 + b) * 16 + c) * 16 + d ∧ ((a * 16 + b) * 16 + c) * 16 + d < 0xe000) := by omega
  simp [Quoted.read, Quoted.next, Quoted.pushUnit, Quoted.push, Quoted.settled, hhex, ha, hb, hc, hd, hhigh, hlow]

/-! ## Whole numbers -/

theorem digitValue_digitChar : ∀ d < 10, digitValue (Nat.digitChar d) = some d := by decide

/-- A whole number that has been read. -/
def whole (negative : Bool) (n : Nat) : Numeral :=
  { Numeral.start with negative, place := if n = 0 then .zero else .whole, digits := n }

theorem value_whole (negative : Bool) (n : Nat) : (whole negative n).value = if negative then -(n : ℚ) else n := by
  simp [Numeral.value, whole, Numeral.start]

theorem complete_whole (negative : Bool) (n : Nat) : (whole negative n).complete = true := by
  by_cases hn : n = 0 <;> simp [Numeral.complete, whole, hn]

theorem run_toDigits (negative : Bool) (stack : List (Frame ν)) (n : Nat) :
    run number { stack, mode := .number { Numeral.start with negative } } (Nat.toDigits 10 n) =
      some { stack, mode := .number (whole negative n) } := by
  induction n using Nat.strongRecOn with
  | ind n ih =>
    by_cases hn : n < 10
    · rw [Nat.toDigits_of_lt_base hn, run_cons]
      simp [step, Numeral.next, Numeral.start, digitValue_digitChar n hn, run, whole]
    · rw [Nat.toDigits_of_base_le (by omega) (not_lt.mp hn), run_append, ih (n / 10) (by omega), Option.bind_some,
        run_cons]
      have htens : n / 10 ≠ 0 := by omega
      have hsum : n / 10 * 10 + n % 10 = n := by omega
      have hzero : n ≠ 0 := by omega
      simp [step, Numeral.next, whole, htens, digitValue_digitChar (n % 10) (by omega), run, hsum, hzero]

/-- A first digit is read the same where no sign is before it. -/
theorem step_value_digit {stack : List (Frame ν)} {c : Char} (h : digitValue c ≠ none) :
    step number { stack, mode := .value } c = step number { stack, mode := .number Numeral.start } c := by
  obtain ⟨d, hd⟩ := Option.ne_none_iff_exists'.mp h
  have hother : isBlank c = false ∧ c ≠ '{' ∧ c ≠ '[' ∧ c ≠ '"' ∧ c ≠ '-' ∧ c ≠ 't' ∧ c ≠ 'f' ∧ c ≠ 'n' := by
    refine ⟨?_, ?_, ?_, ?_, ?_, ?_, ?_, ?_⟩
    · by_contra hblank
      simp only [isBlank, Bool.not_eq_false, decide_eq_true_eq] at hblank
      rcases hblank with rfl | rfl | rfl | rfl <;> simp [digitValue] at hd
    all_goals
      rintro rfl
      simp [digitValue] at hd
  simp [step, begin, hother, Numeral.next, Numeral.start, hd]

theorem run_nat (stack : List (Frame ν)) (n : Nat) :
    run number { stack, mode := .value } (Nat.toDigits 10 n) = some { stack, mode := .number (whole false n) } := by
  obtain ⟨c, cs, hcs⟩ := List.exists_cons_of_ne_nil (Nat.toDigits_ne_nil (n := n) (b := 10))
  have hdigit : c.isDigit = true :=
    Nat.isDigit_of_mem_toDigits (by decide) (le_refl 10) (hcs ▸ List.mem_cons_self : c ∈ Nat.toDigits 10 n)
  have hvalue : digitValue c ≠ none := by
    have hrange : '0' ≤ c ∧ c ≤ '9' := by simpa [Char.isDigit, Char.le_def] using hdigit
    simp [digitValue, hrange]
  have hread := @run_toDigits ν number false stack n
  rw [hcs, run_cons] at hread ⊢
  rw [step_value_digit hvalue]
  exact hread

theorem run_int (stack : List (Frame ν)) (n : Int) :
    run number { stack, mode := .value } (toString n).toList =
      some { stack, mode := .number (whole (n < 0) n.natAbs) } := by
  rw [Int.toString_eq_repr, Int.repr_eq_if]
  by_cases hn : 0 ≤ n
  · have hnat : n.toNat = n.natAbs := by omega
    rw [if_pos hn, Nat.toList_repr, hnat, decide_eq_false (by omega)]
    exact run_nat stack _
  · have hnat : (-n).toNat = n.natAbs := by omega
    have hminus : step number { stack, mode := .value } '-' =
        some { stack, mode := .number { Numeral.start with negative := true } } := by
      simp [step, begin, isBlank]
    rw [if_neg hn, String.toList_append, Nat.toList_repr, hnat, decide_eq_true (by omega)]
    change run number _ ('-' :: Nat.toDigits 10 n.natAbs) = _
    rw [run_cons, hminus, Option.bind_some]
    exact run_toDigits true stack _

/-! ## Written values -/

/-- A text that is read as a value, where a comma or a bracket follows. -/
def Written (number : ℚ → ν) (text : List Char) (v : Json ν) : Prop :=
  ∀ (stack : List (Frame ν)) (c : Char) (rest : List Char), c = ',' ∨ c = ']' ∨ c = '}' →
    run number { stack, mode := .value } (text ++ c :: rest) = run number { stack, mode := .after v } (c :: rest)

theorem written_string {body chars : List Char}
    (h : Quoted.read Quoted.start body = some { chars, high := none, escape := .no }) :
    Written number ('"' :: (body ++ ['"'])) (.string (String.ofList chars.reverse)) := by
  intro stack c rest _
  rw [List.cons_append, List.append_assoc, List.singleton_append, run_string h]

theorem value_whole_int (n : Int) : (whole (n < 0) n.natAbs).value = n := by
  rw [value_whole]
  by_cases hn : n < 0
  · rw [if_pos (decide_eq_true hn)]
    have h : -((n.natAbs : Int)) = n := by omega
    rw [← Int.cast_natCast, ← Int.cast_neg, h]
  · rw [if_neg (by simpa using hn)]
    have h : (n.natAbs : Int) = n := by omega
    rw [← Int.cast_natCast, h]

theorem written_int (n : Int) : Written number (toString n).toList (.number (number n)) := by
  intro stack c rest hc
  have hdigit : digitValue c = none := by rcases hc with rfl | rfl | rfl <;> decide
  have hends : (whole (n < 0) n.natAbs).next c = none := by
    have hother : c ≠ '.' ∧ c ≠ 'e' ∧ c ≠ 'E' := by rcases hc with rfl | rfl | rfl <;> decide
    by_cases hzero : n.natAbs = 0 <;> simp [Numeral.next, whole, hzero, hdigit, hother]
  rw [run_append, run_int, Option.bind_some, run_cons, run_cons]
  simp only [step, hends, complete_whole, if_true, value_whole_int]

theorem written_true : Written number "true".toList (.bool true) := by
  intro stack c rest _
  simp [run_cons, step, begin, isBlank]

theorem written_false : Written number "false".toList (.bool false) := by
  intro stack c rest _
  simp [run_cons, step, begin, isBlank]

/-- The members of an object. -/
def memberText (key : String) (text : List Char) : List Char := '"' :: (key.toList ++ '"' :: ':' :: text)

def separated : List (List Char) → List Char
  | [] => []
  | [text] => text
  | text :: texts => text ++ ',' :: separated texts

theorem separated_cons_cons (text text' : List Char) (texts : List (List Char)) :
    separated (text :: text' :: texts) = text ++ ',' :: separated (text' :: texts) := rfl

def objectText (members : List (String × List Char)) : List Char :=
  '{' :: (separated (members.map fun m => memberText m.1 m.2) ++ ['}'])

def arrayText (values : List (List Char)) : List Char := '[' :: (separated values ++ [']'])

theorem read_plain {cs : List Char} (h : ∀ c ∈ cs, Plain c) :
    Quoted.read Quoted.start cs = some { chars := cs.reverse, high := none, escape := .no } := by
  have hread := read_flatMap (f := fun c => [c]) (g := id) (fun c hc => stands_plain (h c hc)) []
  rw [List.flatMap_singleton', List.map_id, List.append_nil] at hread
  exact hread

theorem run_members {ms : List (String × List Char × Json ν)} (hne : ms ≠ [])
    (hms : ∀ m ∈ ms, (∀ c ∈ m.1.toList, Plain c) ∧ Written number m.2.1 m.2.2) {mode : Mode ν}
    (hmode : mode = .members ∨ mode = .key) (stack : List (Frame ν)) (before : List (String × Json ν)) (key : String)
    (rest : List Char) :
    run number { stack := .object before key :: stack, mode }
        (separated (ms.map fun m => memberText m.1 m.2.1) ++ '}' :: rest) =
      run number { stack, mode := .after (.object (before.reverse ++ ms.map fun m => (m.1, m.2.2))) } rest := by
  induction ms generalizing before key mode with
  | nil => exact absurd rfl hne
  | cons m ms ih =>
    obtain ⟨⟨hkey, hwritten⟩, hms⟩ := List.forall_mem_cons.mp hms
    have hmember : ∀ c rest, c = ',' ∨ c = ']' ∨ c = '}' →
        run number { stack := .object before key :: stack, mode } (memberText m.1 m.2.1 ++ c :: rest) =
          run number { stack := .object before m.1 :: stack, mode := .after m.2.2 } (c :: rest) := by
      intro c rest hc
      have hread := @run_key ν number stack before key mode hmode _ _ (read_plain hkey)
        (m.2.1 ++ c :: rest)
      rw [List.reverse_reverse, String.ofList_toList] at hread
      rw [memberText, List.cons_append, List.append_assoc, List.cons_append, List.cons_append, hread]
      exact hwritten _ c rest hc
    cases ms with
    | nil =>
      rw [List.map_singleton, separated, hmember _ _ (.inr (.inr rfl)), run_cons]
      simp [step, follow, isBlank]
    | cons m' ms =>
      rw [List.map_cons, List.map_cons, separated_cons_cons, List.append_assoc, List.cons_append,
        hmember _ _ (.inl rfl), run_cons]
      have hcomma : step number { stack := .object before m.1 :: stack, mode := .after m.2.2 } ',' =
          some { stack := .object ((m.1, m.2.2) :: before) "" :: stack, mode := .key } := by
        simp [step, follow, isBlank]
      have htail := ih (List.cons_ne_nil _ _) hms (.inr rfl) ((m.1, m.2.2) :: before) ""
      rw [List.map_cons] at htail
      rw [hcomma, Option.bind_some, htail]
      simp

theorem run_object {ms : List (String × List Char × Json ν)}
    (hms : ∀ m ∈ ms, (∀ c ∈ m.1.toList, Plain c) ∧ Written number m.2.1 m.2.2) (stack : List (Frame ν))
    (rest : List Char) :
    run number { stack, mode := .value } (objectText (ms.map fun m => (m.1, m.2.1)) ++ rest) =
      run number { stack, mode := .after (.object (ms.map fun m => (m.1, m.2.2))) } rest := by
  have hopen : step number { stack, mode := .value } '{' =
      some { stack := .object [] "" :: stack, mode := .members } := by
    simp [step, begin, isBlank]
  rw [objectText, List.cons_append, List.append_assoc, List.singleton_append, run_cons, hopen, Option.bind_some,
    List.map_map]
  by_cases hne : ms = []
  · subst hne
    change run number _ ('}' :: rest) = _
    rw [run_cons]
    simp [step, isBlank]
  · exact run_members hne hms (.inl rfl) stack [] "" rest

theorem written_object {ms : List (String × List Char × Json ν)}
    (hms : ∀ m ∈ ms, (∀ c ∈ m.1.toList, Plain c) ∧ Written number m.2.1 m.2.2) :
    Written number (objectText (ms.map fun m => (m.1, m.2.1))) (.object (ms.map fun m => (m.1, m.2.2))) :=
  fun stack c rest _ => run_object hms stack (c :: rest)

theorem run_values {vs : List (List Char × Json ν)} (hne : vs ≠ []) (hvs : ∀ v ∈ vs, Written number v.1 v.2)
    (stack : List (Frame ν)) (before : List (Json ν)) (rest : List Char) :
    run number { stack := .array before :: stack, mode := .value } (separated (vs.map (·.1)) ++ ']' :: rest) =
      run number { stack, mode := .after (.array (before.reverse ++ vs.map (·.2))) } rest := by
  induction vs generalizing before with
  | nil => exact absurd rfl hne
  | cons v vs ih =>
    obtain ⟨hwritten, hvs⟩ := List.forall_mem_cons.mp hvs
    cases vs with
    | nil =>
      rw [List.map_singleton, separated, hwritten _ _ _ (.inr (.inl rfl)), run_cons]
      simp [step, follow, isBlank]
    | cons v' vs =>
      rw [List.map_cons, List.map_cons, separated_cons_cons, List.append_assoc, List.cons_append,
        hwritten _ _ _ (.inl rfl), run_cons]
      have hcomma : step number { stack := .array before :: stack, mode := .after v.2 } ',' =
          some { stack := .array (v.2 :: before) :: stack, mode := .value } := by
        simp [step, follow, isBlank]
      have htail := ih (List.cons_ne_nil _ _) hvs (v.2 :: before)
      rw [List.map_cons] at htail
      rw [hcomma, Option.bind_some, htail]
      simp

/-- An array of values that begin with no blank and not as the array ends. -/
theorem written_array {vs : List (List Char × Json ν)} (hvs : ∀ v ∈ vs, Written number v.1 v.2)
    (hhead : ∀ v ∈ vs, ∃ c text, v.1 = c :: text ∧ c ≠ ']' ∧ isBlank c = false) :
    Written number (arrayText (vs.map (·.1))) (.array (vs.map (·.2))) := by
  intro stack c rest _
  have hopen : step number { stack, mode := .value } '[' = some { stack := .array [] :: stack, mode := .first } := by
    simp [step, begin, isBlank]
  rw [arrayText, List.cons_append, List.append_assoc, List.singleton_append, run_cons, hopen, Option.bind_some]
  cases vs with
  | nil =>
    change run number _ (']' :: c :: rest) = _
    rw [run_cons]
    simp [step, isBlank]
  | cons v vs =>
    obtain ⟨d, text, hv, hd, hblank⟩ := hhead v List.mem_cons_self
    have hfirst : ∀ text, run number { stack := .array [] :: stack, mode := .first } (d :: text) =
        run number { stack := .array [] :: stack, mode := .value } (d :: text) := by
      intro text
      rw [run_cons, run_cons]
      simp [step, hblank, hd]
    obtain ⟨more, hmore⟩ : ∃ more, separated ((v :: vs).map (·.1)) = d :: more := by
      rw [List.map_cons]
      cases vs with
      | nil => exact ⟨text, hv⟩
      | cons v' vs =>
        refine ⟨text ++ ',' :: separated ((v' :: vs).map (·.1)), ?_⟩
        rw [List.map_cons, separated_cons_cons, hv]
        rfl
    have hrest := run_values (List.cons_ne_nil v vs) hvs stack [] (c :: rest)
    rw [hmore, List.cons_append] at hrest ⊢
    rw [hfirst, hrest]
    rfl

end Reader

/-- **No text of an object is the beginning of another**, but for blanks behind it. -/
theorem parse_isPrefix {number : ℚ → ν} {text rest : List Char} {v w : Json ν}
    (h : parse number ('{' :: text) = some v) (h' : parse number ('{' :: (text ++ rest)) = some w) :
    ∀ c ∈ rest, isBlank c = true := by
  obtain ⟨r, hr, hfinish⟩ := Option.bind_eq_some_iff.mp h
  obtain ⟨s, hs, -⟩ := Option.bind_eq_some_iff.mp h'
  have hopen : Reader.step number Reader.start '{' = some { stack := [.object [] ""], mode := .members } := by
    simp [Reader.step, Reader.start, Reader.begin, isBlank]
  rw [Reader.run_cons, hopen, Option.bind_some] at hr hs
  rw [Reader.run_append, hr, Option.bind_some] at hs
  have henclosed : Reader.Enclosed r := Reader.enclosed_run (fun hstack => absurd hstack (List.cons_ne_nil _ _)) hr
  obtain ⟨stack, mode⟩ := r
  cases stack with
  | cons frame stack => cases hfinish
  | nil =>
    obtain ⟨u, hu⟩ := henclosed rfl
    obtain rfl : mode = .after u := hu
    exact Reader.run_after hs

/-- What is written as an object is read as one. -/
theorem parse_object {number : ℚ → ν} {ms : List (String × List Char × Json ν)}
    (hms : ∀ m ∈ ms, (∀ c ∈ m.1.toList, Reader.Plain c) ∧ Reader.Written number m.2.1 m.2.2) :
    parse number (Reader.objectText (ms.map fun m => (m.1, m.2.1))) =
      some (.object (ms.map fun m => (m.1, m.2.2))) := by
  have hread := Reader.run_object hms [] []
  rw [List.append_nil] at hread
  rw [parse, Reader.start, hread]
  rfl

theorem parse_object_append {number : ℚ → ν} {ms : List (String × List Char × Json ν)}
    (hms : ∀ m ∈ ms, (∀ c ∈ m.1.toList, Reader.Plain c) ∧ Reader.Written number m.2.1 m.2.2) {rest : List Char}
    (hrest : ∀ c ∈ rest, isBlank c = true) :
    parse number (Reader.objectText (ms.map fun m => (m.1, m.2.1)) ++ rest) =
      some (.object (ms.map fun m => (m.1, m.2.2))) := by
  have hblanks : ∀ v : Json ν, Reader.run number { stack := [], mode := .after v } rest =
    some { stack := [], mode := .after v } := by
    intro v
    induction rest with
    | nil => rfl
    | cons c rest ih =>
      obtain ⟨hc, hrest⟩ := List.forall_mem_cons.mp hrest
      have hstep : Reader.step number { stack := [], mode := .after v } c = some { stack := [], mode := .after v } := by
        simp [Reader.step, Reader.follow, hc]
      rw [Reader.run_cons, hstep, Option.bind_some, ih hrest]
  rw [parse, Reader.start, Reader.run_object hms [] rest, hblanks]
  rfl

end Json
