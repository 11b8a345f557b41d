import Mathlib.Data.List.Sort
import Mathlib.Data.String.Basic
import ComputeArmada.Lib.Text

/-!
# The JavaScript the adapter relies on

* `JsError` : an exception, as far as the adapter looks at one, and what may throw one (`of_bind_ok`);
* `trim`, `encodeURIComponent`, `codeUnits`, `toSorted`, `toUpperCase` : strings;
* `Record`, `Property` : plain objects of strings, and what reading a key of one gives;
* `own_set`, `own_spread` : what an object holds of a key after it was set, or others were spread into it.
-/

namespace ComputeArmada.Adapter

structure JsError where
  name : String
  message : String
  deriving DecidableEq, Repr

/-- `new Error(message)`. -/
def error (message : String) : JsError := { name := "Error", message }

/-- Reading a property of `undefined`. -/
def typeError (property : String) : JsError :=
  { name := "TypeError"
    message := "Cannot read properties of undefined (reading '" ++ property ++ "')" }

section
variable {ε α β : Type} {x : Except ε α} {f : α → Except ε β}

theorem ok_bind (a : α) (f : α → Except ε β) : (Except.ok a >>= f) = f a := rfl

theorem of_bind_ok {b : β} (h : x >>= f = .ok b) : ∃ a, x = .ok a ∧ f a = .ok b := by
  cases x with
  | ok a => exact ⟨a, rfl, h⟩
  | error e => cases h

theorem mapM_ok {f : α → Except ε β} {g : α → β} {xs : List α}
    (h : ∀ x ∈ xs, f x = .ok (g x)) : xs.mapM f = .ok (xs.map g) := by
  induction xs with
  | nil => rfl
  | cons x xs ih =>
    rw [List.mapM_cons, h x (List.mem_cons_self ..), ih fun x' hx' => h x' (List.mem_cons_of_mem _ hx')]
    rfl

theorem of_mapM_ok {f : α → Except ε β} {xs : List α} {ys : List β} (h : xs.mapM f = .ok ys) :
    ∀ x ∈ xs, ∃ y, f x = .ok y := by
  induction xs generalizing ys with
  | nil => simp
  | cons x xs ih =>
    rw [List.mapM_cons] at h
    cases hx : f x with
    | error e =>
      rw [hx] at h
      cases h
    | ok y =>
      cases hxs : xs.mapM f with
      | error e =>
        rw [hx, hxs] at h
        cases h
      | ok ys' => exact List.forall_mem_cons.mpr ⟨⟨y, hx⟩, ih hxs⟩

end

namespace Js

/-! ## Strings -/

/-- What `trim` takes off: white space and line terminators. -/
def isSpace (c : Char) : Bool :=
  let n := c.toNat
  (9 ≤ n ∧ n ≤ 13) ∨ n = 32 ∨ n = 0xa0 ∨ n = 0x1680 ∨ (0x2000 ≤ n ∧ n ≤ 0x200a) ∨ n = 0x2028 ∨
    n = 0x2029 ∨ n = 0x202f ∨ n = 0x205f ∨ n = 0x3000 ∨ n = 0xfeff

def trimList (cs : List Char) : List Char := ((cs.dropWhile isSpace).reverse.dropWhile isSpace).reverse

def trim (s : String) : String := String.ofList (trimList s.toList)

/-- The UTF-16 code units of a character. -/
def units (c : Char) : List Nat :=
  let n := c.toNat
  if n < 0x10000 then [n] else [0xd800 + (n - 0x10000) / 0x400, 0xdc00 + (n - 0x10000) % 0x400]

def codeUnits (s : String) : List Nat := s.toList.flatMap units

/-- The order of `<` and of `toSorted` on strings, by code units. -/
def le (s t : String) : Bool := decide (codeUnits s ≤ codeUnits t)

def toSorted (xs : List String) : List String := xs.mergeSort le

theorem le_refl (s : String) : le s s = true := by simp [le]

theorem pairwise_toSorted (xs : List String) : (toSorted xs).Pairwise fun s t => le s t = true := by
  refine List.pairwise_mergeSort (fun s t u h h' => ?_) (fun s t => ?_) xs
  · exact decide_eq_true ((of_decide_eq_true h).trans (of_decide_eq_true h'))
  · simpa [le] using le_total (codeUnits s) (codeUnits t)

theorem mem_toSorted {xs : List String} {x : String} : x ∈ toSorted xs ↔ x ∈ xs := List.mem_mergeSort

def hexDigit (n : Nat) : Char := if n < 10 then Char.ofNat (48 + n) else Char.ofNat (55 + n)

def isUnreserved (c : Char) : Bool :=
  c.isAlphanum ∨ c ∈ "-_.!~*'()".toList

def encodeURIComponent (s : String) : String :=
  String.ofList (s.toList.flatMap fun c =>
    if isUnreserved c then [c]
    else (String.singleton c).toUTF8.toList.flatMap fun b =>
      ['%', hexDigit (b.toNat / 16), hexDigit (b.toNat % 16)])

/-- A character within the quotes of `JSON.stringify`. -/
def jsonEscape (c : Char) : List Char :=
  let n := c.toNat
  if n = 8 then "\\b".toList
  else if n = 9 then "\\t".toList
  else if n = 10 then "\\n".toList
  else if n = 12 then "\\f".toList
  else if n = 13 then "\\r".toList
  else if n = 34 then "\\\"".toList
  else if n = 92 then "\\\\".toList
  else if n < 32 then
    "\\u00".toList ++ [Char.ofNat (48 + n / 16), "0123456789abcdef".toList.getD (n % 16) '0']
  else [c]

/-- `JSON.stringify` of a string. -/
def quoted (s : String) : String := "\"" ++ String.ofList (s.toList.flatMap jsonEscape) ++ "\""

/-- The upper case of the characters that are not ASCII; none of it is a lower-case letter of ASCII. -/
structure UpperCase where
  of : Char → List Char
  upper : ∀ c, ∀ d ∈ of c, d.isLower = false

/-- No letters but those of ASCII, and nothing in place of the others. -/
def UpperCase.ascii : UpperCase where
  of _ := []
  upper _ _ h := nomatch h

section
variable (table : UpperCase)

def upperChar (c : Char) : List Char := if c.toNat < 128 then [c.toUpper] else table.of c

def toUpperCase (s : String) : String := String.ofList (s.toList.flatMap (upperChar table))

end

end Js

/-! ## Plain objects -/

/-- The own properties of a plain object, in their order; no key occurs twice. -/
abbrev Record := List (String × String)

/-- What every plain object inherits. -/
def objectPrototype : List String :=
  ["__proto__", "constructor", "__defineGetter__", "__defineSetter__", "__lookupGetter__",
   "__lookupSetter__", "hasOwnProperty", "isPrototypeOf", "propertyIsEnumerable", "toLocaleString",
   "toString", "valueOf"]

/-- A property of an object of strings that is not `undefined`: its own, a string, or one every object
inherits, which is none. -/
inductive Property
  | own (value : String)
  | inherited (member : String)
  deriving DecidableEq, Repr

namespace Record

def own (r : Record) (key : String) : Option String := (r.find? (fun p => p.1 = key)).map (·.2)

/-- `r[key]`, which is looked up on the prototype when the object has no such key of its own. -/
def read (r : Record) (key : String) : Option Property :=
  match own r key with
  | some value => some (.own value)
  | none => if key ∈ objectPrototype then some (.inherited key) else none

def values (r : Record) : List String := r.map (·.2)

def set (r : Record) (key value : String) : Record :=
  if r.any (fun p => p.1 = key) then r.map (fun p => if p.1 = key then (key, value) else p)
  else r ++ [(key, value)]

/-- `{ ...r, ...r' }`. -/
def spread (r r' : Record) : Record := r'.foldl (fun r p => set r p.1 p.2) r

theorem own_set (r : Record) (key value : String) : own (r.set key value) key = some value := by
  have hkey : ((fun p : String × String => decide (p.1 = key)) ∘ fun p => if p.1 = key then (key, value) else p) =
      fun p => decide (p.1 = key) := by
    funext p
    by_cases hp : p.1 = key
    · simp [hp]
    · simp [hp]
  unfold set
  split
  · rename_i h
    obtain ⟨p, hp, hpkey⟩ := List.any_eq_true.mp h
    have hsome : (r.find? (fun p => p.1 = key)).isSome := List.find?_isSome.mpr ⟨p, hp, hpkey⟩
    obtain ⟨q, hq⟩ := Option.isSome_iff_exists.mp hsome
    have hqkey : q.1 = key := by simpa using List.find?_some hq
    rw [own, List.find?_map, hkey, hq, Option.map_some, if_pos hqkey, Option.map_some]
  · rename_i h
    have hnone : r.find? (fun p => p.1 = key) = none := List.find?_eq_none.mpr fun p hp hpkey =>
      h (List.any_eq_true.mpr ⟨p, hp, hpkey⟩)
    simp [own, List.find?_append, hnone]

/-- A JavaScript object has each of its keys once. -/
def Distinct {α : Type} (r : List (String × α)) : Prop := (r.map (·.1)).Nodup

theorem own_cons (p : String × String) (r : Record) (key : String) :
    own (p :: r) key = if p.1 = key then some p.2 else own r key := by
  unfold own
  by_cases h : p.1 = key <;> simp [h]

theorem own_append (r r' : Record) (key : String) : own (r ++ r') key = (own r key).or (own r' key) := by
  simp [own, List.find?_append, Option.map_or]

theorem own_eq_none {r : Record} {key : String} (h : key ∉ r.map (·.1)) : own r key = none := by
  have hfind : r.find? (fun p => p.1 = key) = none := List.find?_eq_none.mpr fun p hp hkey =>
    h (List.mem_map.mpr ⟨p, hp, of_decide_eq_true hkey⟩)
  simp [own, hfind]

theorem own_set_of_ne (r : Record) {key key' : String} (value : String) (h : key' ≠ key) :
    own (r.set key value) key' = own r key' := by
  have hmap : own (r.map fun p => if p.1 = key then (key, value) else p) key' = own r key' := by
    induction r with
    | nil => rfl
    | cons p r ih =>
      rw [List.map_cons, own_cons, own_cons, ih]
      by_cases hp : p.1 = key
      · rw [if_pos hp, if_neg (Ne.symm h), if_neg (hp ▸ Ne.symm h)]
      · rw [if_neg hp]
  unfold set
  split
  · exact hmap
  · rw [own_append, own_cons, if_neg (Ne.symm h)]
    simp [own]

theorem keys_set (r : Record) (key value : String) :
    (r.set key value).map (·.1) = if key ∈ r.map (·.1) then r.map (·.1) else r.map (·.1) ++ [key] := by
  have hany : (r.any fun p => p.1 = key) = true ↔ key ∈ r.map (·.1) := by
    simp [List.any_eq_true]
  unfold set
  simp only [hany]
  split
  · rw [List.map_map]
    refine List.map_congr_left fun p _ => ?_
    by_cases hp : p.1 = key <;> simp [hp]
  · simp

theorem Distinct.set {r : Record} (h : Distinct r) (key value : String) : Distinct (r.set key value) := by
  unfold Distinct
  rw [keys_set]
  split
  · exact h
  · rename_i hkey
    exact List.nodup_append.mpr ⟨h, List.nodup_singleton _, fun k hk k' hk' heq =>
      hkey (List.mem_singleton.mp hk' ▸ heq ▸ hk)⟩

theorem Distinct.spread {r : Record} (h : Distinct r) (r' : Record) : Distinct (r.spread r') := by
  induction r' generalizing r with
  | nil => exact h
  | cons p r' ih => exact ih (h.set p.1 p.2)

/-- What a later object sets wins. -/
theorem mem_set {r : Record} {key value : String} {p : String × String} (h : p ∈ r.set key value) :
    p ∈ r ∨ p = (key, value) := by
  unfold Record.set at h
  split at h
  · obtain ⟨q, hq, rfl⟩ := List.mem_map.mp h
    split
    · exact .inr rfl
    · exact .inl hq
  · exact (List.mem_append.mp h).imp_right List.mem_singleton.mp

theorem forall_spread {P : String × String → Prop} {r r' : Record} (h : ∀ p ∈ r, P p) (h' : ∀ p ∈ r', P p) :
    ∀ p ∈ r.spread r', P p := by
  induction r' generalizing r with
  | nil => exact h
  | cons q r' ih =>
    obtain ⟨hq, hrest⟩ := List.forall_mem_cons.mp h'
    refine ih (r := r.set q.1 q.2) (fun p hp => ?_) hrest
    rcases mem_set hp with hp | rfl
    · exact h p hp
    · exact hq

theorem own_spread {r r' : Record} (h : Distinct r') (key : String) :
    own (r.spread r') key = (own r' key).or (own r key) := by
  induction r' generalizing r with
  | nil => simp [Record.spread, own]
  | cons p r' ih =>
    obtain ⟨hp, hr'⟩ := List.nodup_cons.mp h
    have hspread : own (r.spread (p :: r')) key = (own r' key).or (own (r.set p.1 p.2) key) := ih hr'
    rw [hspread, own_cons]
    by_cases hkey : p.1 = key
    · subst hkey
      rw [if_pos rfl, own_eq_none hp, own_set]
      rfl
    · rw [if_neg hkey, own_set_of_ne r p.2 (Ne.symm hkey)]

end Record

/-- `String(value)`, as a template literal writes it. -/
def Property.text : Property → String
  | .own value => value
  | .inherited "__proto__" => "[object Object]"
  | .inherited "constructor" => "function Object() \x7b [native code] \x7d"
  | .inherited member => "function " ++ member ++ "() \x7b [native code] \x7d"

end ComputeArmada.Adapter
