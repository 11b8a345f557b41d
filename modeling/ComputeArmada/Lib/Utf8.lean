import Mathlib.Data.List.Infix
import ComputeArmada.Lib.Text

/-!
# UTF-8

Bytes to characters as decoders of text streams read them: what begins no character, and what a character is
cut short of, is replaced.

* `next` : the bytes of one character;
* `step`, `run` : the decoder, which holds back the bytes of a character that is not complete;
* `decode` : of a whole text; `encode` : the other way;
* `run_encode`, `run_isPrefix` : what is encoded, and what is cut off it, is read back;
* `decodeFatal` : the decoder that accepts what is encoded, and nothing else (`decodeFatal_iff`).
-/

namespace Utf8

/-- What a decoder holds back: the bits so far, how many bytes are to come after the next one, and the range
of the next one. -/
inductive Pending
  | none
  | some (code left lower upper : Nat)
  deriving DecidableEq

def replacement : Char := Char.ofNat 0xfffd

/-- One more byte of a character, which may be its last one. -/
def next (p : Pending) (b : UInt8) : Option (Pending × Option Char) :=
  let n := b.toNat
  match p with
  | .none =>
    if n < 0x80 then some (.none, some (Char.ofNat n))
    else if 0xc2 ≤ n ∧ n ≤ 0xdf then some (.some (n - 0xc0) 0 0x80 0xbf, none)
    else if 0xe0 ≤ n ∧ n ≤ 0xef then
      some (.some (n - 0xe0) 1 (if n = 0xe0 then 0xa0 else 0x80) (if n = 0xed then 0x9f else 0xbf), none)
    else if 0xf0 ≤ n ∧ n ≤ 0xf4 then
      some (.some (n - 0xf0) 2 (if n = 0xf0 then 0x90 else 0x80) (if n = 0xf4 then 0x8f else 0xbf), none)
    else none
  | .some code left lower upper =>
    if lower ≤ n ∧ n ≤ upper then
      match left with
      | 0 => some (.none, some (Char.ofNat (code * 64 + (n - 0x80))))
      | left + 1 => some (.some (code * 64 + (n - 0x80)) left 0x80 0xbf, none)
    else none

def step (p : Pending) (b : UInt8) : Pending × List Char :=
  match next p b with
  | some (p', c) => (p', c.toList)
  | none =>
    match p with
    | .none => (.none, [replacement])
    | .some _ _ _ _ =>
      -- the byte is read again, as the first of a character
      match next .none b with
      | some (p', c) => (p', replacement :: c.toList)
      | none => (.none, [replacement, replacement])

def run (p : Pending) : List UInt8 → Pending × List Char
  | [] => (p, [])
  | b :: bs => ((run (step p b).1 bs).1, (step p b).2 ++ (run (step p b).1 bs).2)

/-- The end of the input. -/
def finish : Pending → List Char
  | .none => []
  | .some _ _ _ _ => [replacement]

def decode (bs : List UInt8) : List Char := (run .none bs).2 ++ finish (run .none bs).1

/-- The decoder that fails where the other one replaces. -/
def fatal : Pending → List UInt8 → Option (List Char)
  | .none, [] => some []
  | .some _ _ _ _, [] => none
  | p, b :: bs =>
    match next p b with
    | none => none
    | some (p', c) => (fatal p' bs).map (c.toList ++ ·)

def decodeFatal (bs : List UInt8) : Option (List Char) := fatal .none bs

def encode (cs : List Char) : List UInt8 := cs.flatMap String.utf8EncodeChar

theorem run_append (p : Pending) (bs bs' : List UInt8) :
    run p (bs ++ bs') = ((run (run p bs).1 bs').1, (run p bs).2 ++ (run (run p bs).1 bs').2) := by
  induction bs generalizing p with
  | nil => rfl
  | cons b bs ih =>
    rw [List.cons_append, run, ih, run]
    simp only [List.append_assoc]

/-! ## Reading back -/

/-- The bytes give a character with the last one of them, and nothing before. -/
inductive Spells (c : Char) : Pending → List UInt8 → Prop
  | last {p b} (h : next p b = some (.none, some c)) : Spells c p [b]
  | more {p p' b bs} (h : next p b = some (p', none)) (hbs : Spells c p' bs) : Spells c p (b :: bs)

theorem step_of_next {p p' : Pending} {b : UInt8} {c : Option Char} (h : next p b = some (p', c)) :
    step p b = (p', c.toList) := by
  simp only [step, h]

theorem Spells.run {c : Char} {p : Pending} {bs : List UInt8} (h : Spells c p bs) : run p bs = (.none, [c]) := by
  induction h with
  | last h => simp [Utf8.run, step_of_next h]
  | more h _ ih => simp [Utf8.run, step_of_next h, ih]

theorem Spells.run_take {c : Char} {p : Pending} {bs : List UInt8} (h : Spells c p bs) {n : Nat} (hn : n < bs.length) :
    (Utf8.run p (bs.take n)).2 = [] := by
  induction h generalizing n with
  | last h =>
    obtain rfl : n = 0 := by simpa using hn
    rfl
  | more h _ ih =>
    cases n with
    | zero => rfl
    | succ n =>
      rw [List.take_succ_cons, Utf8.run, step_of_next h]
      exact ih (Nat.lt_of_succ_lt_succ hn)

theorem toNat_ofNat {n : Nat} (h : n < 256) : (UInt8.ofNat n).toNat = n := by
  rw [UInt8.toNat_ofNat', Nat.mod_eq_of_lt h]

theorem next_last {code lower upper n : Nat} {c : Char} (hn : lower ≤ n ∧ n ≤ upper) (hbyte : n < 256)
    (hc : code * 64 + (n - 0x80) = c.toNat) :
    next (.some code 0 lower upper) (UInt8.ofNat n) = some (.none, some c) := by
  simp only [next, toNat_ofNat hbyte]
  rw [if_pos hn, hc, Char.ofNat_toNat]

theorem next_more {code left lower upper n : Nat} (hn : lower ≤ n ∧ n ≤ upper) (hbyte : n < 256) :
    next (.some code (left + 1) lower upper) (UInt8.ofNat n) =
      some (.some (code * 64 + (n - 0x80)) left 0x80 0xbf, none) := by
  simp only [next, toNat_ofNat hbyte]
  rw [if_pos hn]

theorem next_one {n : Nat} {c : Char} (hn : n < 0x80) (hc : n = c.toNat) :
    next .none (UInt8.ofNat n) = some (.none, some c) := by
  simp only [next, toNat_ofNat (by omega : n < 256)]
  rw [if_pos hn, hc, Char.ofNat_toNat]

theorem next_two {n : Nat} (hn : 0xc2 ≤ n ∧ n ≤ 0xdf) :
    next .none (UInt8.ofNat n) = some (.some (n - 0xc0) 0 0x80 0xbf, none) := by
  simp only [next, toNat_ofNat (by omega : n < 256)]
  rw [if_neg (by omega), if_pos hn]

theorem next_three {n : Nat} (hn : 0xe0 ≤ n ∧ n ≤ 0xef) : next .none (UInt8.ofNat n) =
    some (.some (n - 0xe0) 1 (if n = 0xe0 then 0xa0 else 0x80) (if n = 0xed then 0x9f else 0xbf), none) := by
  simp only [next, toNat_ofNat (by omega : n < 256)]
  rw [if_neg (by omega), if_neg (by omega), if_pos hn]

theorem next_four {n : Nat} (hn : 0xf0 ≤ n ∧ n ≤ 0xf4) : next .none (UInt8.ofNat n) =
    some (.some (n - 0xf0) 2 (if n = 0xf0 then 0x90 else 0x80) (if n = 0xf4 then 0x8f else 0xbf), none) := by
  simp only [next, toNat_ofNat (by omega : n < 256)]
  rw [if_neg (by omega), if_neg (by omega), if_neg (by omega), if_pos hn]

theorem not_surrogate (c : Char) : c.toNat < 0xd800 ∨ 0xdfff < c.toNat ∧ c.toNat < 0x110000 := by
  have h := c.valid
  simp only [UInt32.isValidChar, Nat.isValidChar] at h
  exact h

theorem spells_encodeChar (c : Char) : Spells c .none (String.utf8EncodeChar c) := by
  have hc := not_surrogate c
  have hval : c.val.toNat = c.toNat := rfl
  unfold String.utf8EncodeChar
  simp only [hval]
  split
  · exact .last (next_one (by omega) rfl)
  split
  · exact .more (next_two (by omega)) (.last (next_last (by omega) (by omega) (by omega)))
  split
  · refine .more (next_three (by omega)) (.more (next_more ?_ (by omega))
      (.last (next_last (by omega) (by omega) (by omega))))
    split <;> split <;> omega
  · refine .more (next_four (by omega)) (.more (next_more ?_ (by omega)) (.more (next_more (by omega) (by omega))
      (.last (next_last (by omega) (by omega) (by omega)))))
    split <;> split <;> omega

theorem run_encodeChar (c : Char) : run .none (String.utf8EncodeChar c) = (.none, [c]) := (spells_encodeChar c).run

theorem encode_cons (c : Char) (cs : List Char) : encode (c :: cs) = String.utf8EncodeChar c ++ encode cs := rfl

theorem encode_append (cs cs' : List Char) : encode (cs ++ cs') = encode cs ++ encode cs' := List.flatMap_append

theorem run_encode (cs : List Char) : run .none (encode cs) = (.none, cs) := by
  induction cs with
  | nil => rfl
  | cons c cs ih => rw [encode_cons, run_append, run_encodeChar, ih, List.singleton_append]

theorem decode_encode (cs : List Char) : decode (encode cs) = cs := by
  rw [decode, run_encode]
  exact List.append_nil cs

/-! ### Failing -/

/-- The bytes of some text. -/
def WellFormed (bs : List UInt8) : Prop := ∃ cs, encode cs = bs

theorem Spells.fatal {c : Char} {p : Pending} {bs : List UInt8} (h : Spells c p bs) (rest : List UInt8) :
    fatal p (bs ++ rest) = (fatal .none rest).map (c :: ·) := by
  induction h with
  | last h => rw [List.singleton_append, Utf8.fatal, h]; rfl
  | more h _ ih =>
    rw [List.cons_append, Utf8.fatal, h]
    dsimp only
    rw [ih, Option.map_map]
    rfl

theorem fatal_encode (cs : List Char) : decodeFatal (encode cs) = some cs := by
  induction cs with
  | nil => rfl
  | cons c cs ih =>
    unfold decodeFatal at ih ⊢
    rw [encode_cons, (spells_encodeChar c).fatal, ih, Option.map_some]

theorem next_cases {p p' : Pending} {b : UInt8} {c : Option Char} (h : next p b = some (p', c)) :
    (p' = .none ∧ c.isSome = true) ∨ (p' ≠ .none ∧ c = none) := by
  cases p with
  | none =>
    unfold next at h
    dsimp only at h
    repeat' split at h
    all_goals cases h
    · exact .inl ⟨rfl, rfl⟩
    all_goals exact .inr ⟨nofun, rfl⟩
  | some code left lower upper =>
    unfold next at h
    dsimp only at h
    repeat' split at h
    all_goals cases h
    · exact .inl ⟨rfl, rfl⟩
    · exact .inr ⟨nofun, rfl⟩

/-- What is read without failing begins with the bytes of the first character. -/
theorem spells_of_fatal {p : Pending} {bs : List UInt8} {cs : List Char} (h : fatal p bs = some cs)
    (hp : p ≠ .none ∨ bs ≠ []) : ∃ c mid rest cs', bs = mid ++ rest ∧ cs = c :: cs' ∧ mid ≠ [] ∧
      Spells c p mid ∧ fatal .none rest = some cs' := by
  induction bs generalizing p cs with
  | nil =>
    cases p with
    | none => exact absurd rfl (hp.resolve_left (absurd rfl))
    | some _ _ _ _ => cases h
  | cons b bs ih =>
    rw [fatal] at h
    split at h
    · cases h
    · rename_i p' c hnext
      obtain ⟨cs', hcs', rfl⟩ := Option.map_eq_some_iff.mp h
      rcases next_cases hnext with ⟨rfl, hc⟩ | ⟨hp', rfl⟩
      · obtain ⟨c, rfl⟩ := Option.isSome_iff_exists.mp hc
        exact ⟨c, [b], bs, cs', rfl, rfl, nofun, .last hnext, hcs'⟩
      · obtain ⟨c, mid, rest, cs'', rfl, rfl, -, hspells, hrest⟩ := ih hcs' (.inl hp')
        exact ⟨c, b :: mid, rest, cs'', rfl, rfl, nofun, .more hnext hspells, hrest⟩

theorem toNat_char {c : Char} {n : Nat} (hc : c = Char.ofNat n) (h : n < 0xd800 ∨ 0xdfff < n ∧ n < 0x110000) :
    c.toNat = n := by
  rw [hc, Char.ofNat, dif_pos h]
  exact UInt32.toNat_ofNatLT

section
variable {c : Char} {code lower upper : Nat} {bs : List UInt8}

theorem Spells.last_byte (h : Spells c (.some code 0 lower upper) bs) :
    ∃ b, bs = [b] ∧ lower ≤ b.toNat ∧ b.toNat ≤ upper ∧ c = Char.ofNat (code * 64 + (b.toNat - 0x80)) := by
  cases h with
  | last h =>
    rename_i b
    unfold next at h
    dsimp only at h
    split at h
    · rename_i hb
      simp only [Option.some.injEq, Prod.mk.injEq, true_and] at h
      exact ⟨b, rfl, hb.1, hb.2, h.symm⟩
    · cases h
  | more h =>
    unfold next at h
    dsimp only at h
    split at h <;> simp at h

theorem Spells.more_byte {left : Nat} (h : Spells c (.some code (left + 1) lower upper) bs) :
    ∃ b bs', bs = b :: bs' ∧ lower ≤ b.toNat ∧ b.toNat ≤ upper ∧
      Spells c (.some (code * 64 + (b.toNat - 0x80)) left 0x80 0xbf) bs' := by
  cases h with
  | last h =>
    unfold next at h
    dsimp only at h
    split at h <;> cases h
  | more h hrest =>
    rename_i b bs'
    unfold next at h
    dsimp only at h
    split at h
    · rename_i hb
      cases h
      exact ⟨b, bs', rfl, hb.1, hb.2, hrest⟩
    · cases h

theorem ofNat_byte {b : UInt8} {n : Nat} (h : n = b.toNat) : UInt8.ofNat n = b := by rw [h, UInt8.ofNat_toNat]

/-- The bytes that give a character are its encoding. -/
theorem Spells.encodeChar (h : Spells c .none bs) : String.utf8EncodeChar c = bs := by
  have hval : c.val.toNat = c.toNat := rfl
  unfold String.utf8EncodeChar
  simp only [hval]
  cases h with
  | last h =>
    rename_i b
    unfold next at h
    dsimp only at h
    repeat' split at h
    all_goals simp at h
    rename_i hb
    have hc := toNat_char h.symm (.inl (by omega))
    rw [hc, if_pos (by omega), UInt8.ofNat_toNat]
  | more h hrest =>
    rename_i p' b bs'
    unfold next at h
    dsimp only at h
    split at h
    · cases h
    split at h
    · cases h
      obtain ⟨x, rfl, hx, hx', hc⟩ := hrest.last_byte
      have hc := toNat_char hc (by omega)
      rw [hc, if_neg (by omega), if_pos (by omega), ofNat_byte (b := b) (by omega),
        ofNat_byte (b := x) (by omega)]
    split at h
    · cases h
      obtain ⟨x, rest, rfl, hx, hx', hrest⟩ := hrest.more_byte
      obtain ⟨y, rfl, hy, hy', hc⟩ := hrest.last_byte
      have hlow : b.toNat = 0xe0 → 0xa0 ≤ x.toNat := fun hb => by rwa [if_pos hb] at hx
      have hhigh : b.toNat = 0xed → x.toNat ≤ 0x9f := fun hb => by rwa [if_pos hb] at hx'
      have hmin : 0x80 ≤ x.toNat := by split at hx <;> omega
      have hmax : x.toNat ≤ 0xbf := by split at hx' <;> omega
      clear hx hx'
      have hc := toNat_char hc (by omega)
      rw [hc, if_neg (by omega), if_neg (by omega), if_pos (by omega),
        ofNat_byte (b := b) (by omega), ofNat_byte (b := x) (by omega), ofNat_byte (b := y) (by omega)]
    split at h
    · cases h
      obtain ⟨x, rest, rfl, hx, hx', hrest⟩ := hrest.more_byte
      obtain ⟨y, rest, rfl, hy, hy', hrest⟩ := hrest.more_byte
      obtain ⟨z, rfl, hz, hz', hc⟩ := hrest.last_byte
      have hlow : b.toNat = 0xf0 → 0x90 ≤ x.toNat := fun hb => by rwa [if_pos hb] at hx
      have hhigh : b.toNat = 0xf4 → x.toNat ≤ 0x8f := fun hb => by rwa [if_pos hb] at hx'
      have hmin : 0x80 ≤ x.toNat := by split at hx <;> omega
      have hmax : x.toNat ≤ 0xbf := by split at hx' <;> omega
      clear hx hx'
      have hc := toNat_char hc (by omega)
      rw [hc, if_neg (by omega), if_neg (by omega), if_neg (by omega),
        ofNat_byte (b := b) (by omega), ofNat_byte (b := x) (by omega), ofNat_byte (b := y) (by omega),
        ofNat_byte (b := z) (by omega)]
    · cases h

end

/-- **What is read without failing is the text that the bytes encode.** -/
theorem decodeFatal_iff {bs : List UInt8} {cs : List Char} : decodeFatal bs = some cs ↔ encode cs = bs := by
  constructor
  · intro h
    unfold decodeFatal at h
    induction hlength : bs.length using Nat.strong_induction_on generalizing bs cs with
    | _ n ih =>
      by_cases hbs : bs = []
      · subst hbs
        obtain rfl : cs = [] := by simpa [fatal] using h.symm
        rfl
      · obtain ⟨c, mid, rest, cs', rfl, rfl, hmid, hspells, hrest⟩ := spells_of_fatal h (.inr hbs)
        have hshort : rest.length < n := by
          have := List.length_pos_iff.mpr hmid
          rw [← hlength, List.length_append]
          omega
        rw [encode_cons, hspells.encodeChar, ih _ hshort hrest rfl]
  · rintro rfl
    exact fatal_encode cs

theorem wellFormed_iff {bs : List UInt8} : WellFormed bs ↔ decodeFatal bs ≠ none := by
  rw [Option.ne_none_iff_exists']
  exact exists_congr fun _ => decodeFatal_iff.symm

/-! ### As `String` has it -/

theorem toList_loop (b : ByteArray) (i : Nat) (r : List UInt8) :
    ByteArray.toList.loop b i r = r.reverse ++ b.data.toList.drop i := by
  fun_induction ByteArray.toList.loop b i r with
  | case1 i r hi ih =>
    have hlt : i < b.data.toList.length := hi
    have hbyte : b.get! i = b.data.toList[i] := getElem!_pos b.data i hi
    rw [ih, hbyte, List.reverse_cons, List.append_assoc, List.singleton_append, List.getElem_cons_drop]
  | case2 i r hi =>
    have hend : b.data.toList.length ≤ i := not_lt.mp hi
    rw [List.drop_eq_nil_of_le hend, List.append_nil]

theorem toList_eq (b : ByteArray) : b.toList = b.data.toList := toList_loop b 0 []

theorem toUTF8_toList (s : String) : s.toUTF8.toList = encode s.toList := by
  rw [String.toUTF8_eq_toByteArray, ← String.utf8Encode_toList, toList_eq, List.utf8Encode,
    List.toList_data_toByteArray]
  rfl

/-- What is accepted as a string is its encoding. -/
theorem encode_of_fromUTF8 {bs : List UInt8} {s : String} (h : String.fromUTF8? ⟨bs.toArray⟩ = some s) :
    encode s.toList = bs := by
  unfold String.fromUTF8? at h
  split at h
  · cases h
    rw [← toUTF8_toList, toList_eq]
    rfl
  · cases h

/-- And what is rejected is no encoding. -/
theorem fromUTF8_eq (bs : List UInt8) : String.fromUTF8? ⟨bs.toArray⟩ = (decodeFatal bs).map String.ofList := by
  cases h : String.fromUTF8? ⟨bs.toArray⟩ with
  | some s => rw [decodeFatal_iff.mpr (encode_of_fromUTF8 h), Option.map_some, String.ofList_toList]
  | none =>
    have hnone : decodeFatal bs = none := by
      rw [Option.eq_none_iff_forall_ne_some]
      intro cs hcs
      obtain rfl := decodeFatal_iff.mp hcs
      have hbytes : (⟨(encode cs).toArray⟩ : ByteArray) = cs.utf8Encode := by
        apply ByteArray.ext
        rw [List.utf8Encode, List.data_toByteArray]
        rfl
      have hvalid : (⟨(encode cs).toArray⟩ : ByteArray).IsValidUTF8 := hbytes ▸ ByteArray.isValidUTF8_utf8Encode
      unfold String.fromUTF8? at h
      rw [dif_pos hvalid] at h
      cases h
    rw [hnone, Option.map_none]

/-- What is cut short is read as far as its characters are complete. -/
theorem run_isPrefix {bs : List UInt8} {cs : List Char} (h : bs <+: encode cs) :
    (run .none bs).2 <+: cs ∧ encode (run .none bs).2 <+: bs := by
  induction cs generalizing bs with
  | nil =>
    obtain rfl : bs = [] := List.prefix_nil.mp h
    exact ⟨List.prefix_rfl, List.prefix_rfl⟩
  | cons c cs ih =>
    rw [encode_cons] at h
    rcases List.prefix_or_prefix_of_prefix h (List.prefix_append _ _) with hc | ⟨bs', rfl⟩
    · by_cases hlength : bs.length < (String.utf8EncodeChar c).length
      · rw [List.prefix_iff_eq_take.mp hc, (spells_encodeChar c).run_take hlength]
        exact ⟨List.nil_prefix, List.nil_prefix⟩
      · rw [hc.eq_of_length_le (not_lt.mp hlength), run_encodeChar]
        exact ⟨by simp, by simp [encode]⟩
    · obtain ⟨hread, hbytes⟩ := ih ((List.prefix_append_right_inj _).mp h)
      rw [run_append, run_encodeChar, List.singleton_append, encode_cons]
      exact ⟨List.cons_prefix_cons.mpr ⟨rfl, hread⟩, (List.prefix_append_right_inj _).mpr hbytes⟩

theorem encode_isPrefix {cs cs' : List Char} : encode cs <+: encode cs' ↔ cs <+: cs' := by
  constructor
  · intro h
    have hrun := (run_isPrefix h).1
    rwa [run_encode] at hrun
  · rintro ⟨more, rfl⟩
    exact ⟨encode more, (encode_append cs more).symm⟩

/-! ### Separators -/

theorem one_of_mem {c : Char} {b : UInt8} (hb : b.toNat < 0x80) (h : b ∈ String.utf8EncodeChar c) :
    String.utf8EncodeChar c = [b] ∧ c.toNat = b.toNat := by
  have hc := not_surrogate c
  have hval : c.val.toNat = c.toNat := rfl
  have hone : ∀ n, n < 256 ∧ 0x80 ≤ n → b ≠ UInt8.ofNat n := by
    rintro n ⟨hn, hhigh⟩ rfl
    rw [toNat_ofNat hn] at hb
    omega
  unfold String.utf8EncodeChar at h ⊢
  simp only [hval] at h ⊢
  by_cases hascii : c.toNat ≤ 0x7f
  · rw [if_pos hascii] at h ⊢
    obtain rfl := List.mem_singleton.mp h
    exact ⟨rfl, (toNat_ofNat (by omega)).symm⟩
  -- each byte of a longer character is above
  rw [if_neg hascii] at h
  split at h
  · simp only [List.mem_cons, List.not_mem_nil, or_false] at h
    rcases h with h | h <;> exact absurd h (hone _ (by omega))
  split at h
  · simp only [List.mem_cons, List.not_mem_nil, or_false] at h
    rcases h with h | h | h <;> exact absurd h (hone _ (by omega))
  · simp only [List.mem_cons, List.not_mem_nil, or_false] at h
    rcases h with h | h | h | h <;> exact absurd h (hone _ (by omega))

theorem splitOn_append {b : UInt8} {bs : List UInt8} (h : b ∉ bs) (rest : List UInt8) :
    (bs ++ rest).splitOn b = (rest.splitOn b).modifyHead (bs ++ ·) := by
  induction bs with
  | nil =>
    obtain ⟨piece, pieces, hpieces⟩ := List.exists_cons_of_ne_nil (List.splitOn_ne_nil b rest)
    rw [List.nil_append, hpieces]
    rfl
  | cons d bs ih =>
    obtain ⟨hd, hbs⟩ := not_or.mp (List.mem_cons.not.mp h)
    rw [List.cons_append, List.splitOn_cons_eq_if_modifyHead, if_neg (by simpa using Ne.symm hd), ih hbs,
      List.modifyHead_modifyHead]
    rfl

theorem splitOn_encode {c : Char} {b : UInt8} (hb : b.toNat < 0x80) (hc : String.utf8EncodeChar c = [b])
    (cs : List Char) :
    (encode cs).splitOn b = (cs.splitOn c).map encode := by
  induction cs with
  | nil => rfl
  | cons d cs ih =>
    rw [encode_cons, List.splitOn_cons_eq_if_modifyHead]
    by_cases hd : d = c
    · subst hd
      rw [hc, if_pos (by simp), List.singleton_append, List.splitOn_cons_eq_if_modifyHead, if_pos (by simp), ih]
      rfl
    · have hnot : b ∉ String.utf8EncodeChar d := by
        intro hmem
        have h := (one_of_mem hb hmem).1
        have hrun := run_encodeChar d
        rw [h, ← hc, run_encodeChar] at hrun
        exact hd (by simpa using hrun.symm)
      rw [if_neg (by simpa using hd), splitOn_append hnot, ih]
      obtain ⟨piece, pieces, hpieces⟩ := List.exists_cons_of_ne_nil (List.splitOn_ne_nil c cs)
      rw [hpieces]
      rfl

theorem WellFormed.append {bs bs' : List UInt8} (h : WellFormed bs) (h' : WellFormed bs') : WellFormed (bs ++ bs') := by
  obtain ⟨cs, rfl⟩ := h
  obtain ⟨cs', rfl⟩ := h'
  exact ⟨cs ++ cs', encode_append cs cs'⟩

theorem WellFormed.splitOn {c : Char} {b : UInt8} {bs : List UInt8} (hb : b.toNat < 0x80)
    (hc : String.utf8EncodeChar c = [b]) (h : WellFormed bs) {piece : List UInt8} (hpiece : piece ∈ bs.splitOn b) :
    WellFormed piece := by
  obtain ⟨cs, rfl⟩ := h
  rw [splitOn_encode hb hc] at hpiece
  obtain ⟨p, -, rfl⟩ := List.mem_map.mp hpiece
  exact ⟨p, rfl⟩

end Utf8
