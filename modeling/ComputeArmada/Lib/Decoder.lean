import ComputeArmada.Lib.Json

/-!
# Values of a stream

A decoder of JSON takes the first value of a text and leaves what follows it. A number is taken for how it is
spelled: `1.0` is no whole number to it.

* `Json.first` : the first value, with at most so many arrays and objects around each other;
* `Reader.Spelled` : a text that is decoded as a value, wherever it is;
* `Json.first_object` : what is written as an object is decoded as one, whatever follows it;
* `Json.first_isPrefix`, `Json.first_torn` : none of its beginnings has a value, torn within a character or not.
-/

namespace Json

/-- The whole number that is spelled; none where a point or an exponent follows the digits. -/
def Numeral.int? (n : Numeral) : Option Int :=
  if n.place = .zero ∨ n.place = .whole then some (if n.negative then -(n.digits : Int) else n.digits) else none

namespace Reader

/-- The number that is being read, as far as it is spelled. -/
def spelled (r : Reader (Option Int)) : Option Int :=
  match r.mode with
  | .number n => n.int?
  | _ => none

def advance (depth : Nat) (r : Reader (Option Int)) (c : Char) : Option (Reader (Option Int)) :=
  (r.step (fun _ => r.spelled) c).filter fun r => r.stack.length ≤ depth

def decodes (depth : Nat) (r : Reader (Option Int)) (text : List Char) : Option (Reader (Option Int)) :=
  text.foldlM (advance depth) r

/-- The value is over before this character. -/
def stops (r : Reader (Option Int)) (c : Char) : Bool :=
  match r.stack, r.mode with
  | [], .after _ => true
  | [], .number n => (n.next c).isNone
  | _, _ => false

def value? (r : Reader (Option Int)) : Option (Json (Option Int)) := r.finish fun _ => r.spelled

def first (depth : Nat) (r : Reader (Option Int)) : List Char → Option (Json (Option Int))
  | [] => r.value?
  | c :: text => if r.stops c then r.value? else (r.advance depth c).bind fun r => first depth r text

end Reader

/-- The first value of a text. -/
def first (depth : Nat) (text : List Char) : Option (Json (Option Int)) := Reader.start.first depth text

namespace Reader
variable {depth : Nat} {r s : Reader (Option Int)} {stack : List (Frame (Option Int))}

theorem decodes_cons (r : Reader (Option Int)) (c : Char) (text : List Char) :
    r.decodes depth (c :: text) = (r.advance depth c).bind fun r => r.decodes depth text := List.foldlM_cons

theorem decodes_append (r : Reader (Option Int)) (text text' : List Char) :
    r.decodes depth (text ++ text') = (r.decodes depth text).bind fun r => r.decodes depth text' :=
  List.foldlM_append

theorem advance_of_step {c : Char} (h : r.step (fun _ => r.spelled) c = some s) (hs : s.stack.length ≤ depth) :
    r.advance depth c = some s := by
  rw [advance, h]
  exact if_pos (decide_eq_true hs)

theorem step_of_advance {c : Char} (h : r.advance depth c = some s) : r.step (fun _ => r.spelled) c = some s :=
  (Option.filter_eq_some_iff.mp h).1

/-! ## The first value -/

/-- Behind a whole value there are only blanks. -/
theorem decodes_after {v : Json (Option Int)} {text : List Char}
    (h : decodes depth { stack := [], mode := .after v } text = some s) :
    s = { stack := [], mode := .after v } ∧ ∀ c ∈ text, isBlank c = true := by
  induction text with
  | nil => exact ⟨(Option.some.inj h).symm, by simp⟩
  | cons c text ih =>
    rw [decodes_cons] at h
    obtain ⟨r, hr, h⟩ := Option.bind_eq_some_iff.mp h
    have hstep := step_of_advance hr
    have hc : isBlank c = true := by
      by_contra hc
      simp [step, follow, hc] at hstep
    have hsame : r = { stack := [], mode := .after v } := by
      simpa [step, follow, hc] using hstep.symm
    subst hsame
    exact ⟨(ih h).1, List.forall_mem_cons.mpr ⟨hc, (ih h).2⟩⟩

/-- A text that is over before a character is decoded as the value it has there. -/
theorem value_of_stops {c : Char} (hstops : r.stops c = true) {v : Json (Option Int)} {text : List Char}
    (h : r.decodes depth (c :: text) = some { stack := [], mode := .after v }) : r.value? = some v := by
  obtain ⟨stack, mode⟩ := r
  unfold stops at hstops
  split at hstops
  · rename_i w hstack hmode
    obtain rfl : stack = [] := hstack
    obtain rfl : mode = .after w := hmode
    obtain ⟨hsame, -⟩ := decodes_after h
    simp only [Reader.mk.injEq, Mode.after.injEq, true_and] at hsame
    rw [hsame]
    rfl
  · rename_i n hstack hmode
    obtain rfl : stack = [] := hstack
    obtain rfl : mode = .number n := hmode
    rw [Option.isNone_iff_eq_none] at hstops
    rw [decodes_cons] at h
    obtain ⟨r, hr, h⟩ := Option.bind_eq_some_iff.mp h
    have hstep := step_of_advance hr
    simp only [step, hstops, spelled] at hstep
    by_cases hn : n.complete = true
    · rw [if_pos hn] at hstep
      have hr : r = { stack := [], mode := .after (.number n.int?) } := by
        unfold follow at hstep
        split at hstep
        · exact (Option.some.inj hstep).symm
        · cases hstep
      subst hr
      obtain ⟨hsame, -⟩ := decodes_after h
      simp only [Reader.mk.injEq, Mode.after.injEq, true_and] at hsame
      rw [hsame]
      exact if_pos hn
    · rw [if_neg hn] at hstep
      cases hstep
  · cases hstops

theorem first_of_decodes {v : Json (Option Int)} {text : List Char}
    (h : r.decodes depth text = some { stack := [], mode := .after v }) (rest : List Char) :
    r.first depth (text ++ rest) = some v := by
  induction text generalizing r with
  | nil =>
    obtain rfl := Option.some.inj h
    cases rest <;> rfl
  | cons c text ih =>
    rw [List.cons_append, first]
    by_cases hstops : r.stops c = true
    · rw [if_pos hstops]
      exact value_of_stops hstops h
    · rw [if_neg hstops]
      rw [decodes_cons] at h
      obtain ⟨r', hr', h⟩ := Option.bind_eq_some_iff.mp h
      rw [hr', Option.bind_some]
      exact ih h

/-- The first value is that of some beginning of the text. -/
theorem decodes_of_first {v : Json (Option Int)} {text : List Char} (h : r.first depth text = some v) :
    ∃ part s, part <+: text ∧ r.decodes depth part = some s ∧ s.value? = some v := by
  induction text generalizing r with
  | nil => exact ⟨[], r, List.prefix_refl [], rfl, h⟩
  | cons c text ih =>
    rw [first] at h
    split at h
    · exact ⟨[], r, List.nil_prefix, rfl, h⟩
    · obtain ⟨r', hr', h⟩ := Option.bind_eq_some_iff.mp h
      obtain ⟨part, s, hpart, hs, hv⟩ := ih h
      refine ⟨c :: part, s, List.cons_prefix_cons.mpr ⟨rfl, hpart⟩, ?_, hv⟩
      rw [decodes_cons, hr', Option.bind_some, hs]

theorem enclosed_decodes (hr : Enclosed r) {text : List Char} (h : r.decodes depth text = some s) : Enclosed s := by
  induction text generalizing r with
  | nil => exact Option.some.inj h ▸ hr
  | cons c text ih =>
    rw [decodes_cons] at h
    obtain ⟨r', hr', h⟩ := Option.bind_eq_some_iff.mp h
    exact ih (enclosed_step hr (step_of_advance hr')) h

/-! ## Strings and numbers -/

theorem decodes_quoted (hstack : stack.length ≤ depth) {q q' : Quoted} {text : List Char}
    (h : Quoted.read q text = some q') (isKey : Bool) :
    decodes depth { stack, mode := .string isKey q } text = some { stack, mode := .string isKey q' } := by
  induction text generalizing q with
  | nil =>
    cases h
    rfl
  | cons c text ih =>
    unfold Quoted.read at h
    rw [List.foldlM_cons] at h
    obtain ⟨q₁, hq₁, h⟩ := Option.bind_eq_some_iff.mp h
    split at hq₁
    · cases hq₁
    · rename_i hc
      have hstep : advance depth { stack, mode := .string isKey q } c = some { stack, mode := .string isKey q₁ } :=
        advance_of_step (by simp only [step, if_neg hc, hq₁, Option.map_some]) hstack
      rw [decodes_cons, hstep]
      exact ih h

theorem decodes_toDigits (hstack : stack.length ≤ depth) (n : Nat) :
    decodes depth { stack, mode := .number Numeral.start } (Nat.toDigits 10 n) =
      some { stack, mode := .number (whole false n) } := by
  induction n using Nat.strongRecOn with
  | ind n ih =>
    have hdigit : ∀ (m m' : Numeral) (d : Nat), m.next (Nat.digitChar d) = some m' →
        decodes depth { stack, mode := .number m } [Nat.digitChar d] = some { stack, mode := .number m' } := by
      intro m m' d hnext
      rw [decodes_cons, advance_of_step (s := { stack, mode := .number m' }) (by simp only [step, hnext]) hstack]
      rfl
    by_cases hn : n < 10
    · rw [Nat.toDigits_of_lt_base hn]
      refine hdigit _ _ n ?_
      simp [Numeral.next, Numeral.start, digitValue_digitChar n hn, whole]
    · have htens : n / 10 ≠ 0 := by omega
      have hsum : n / 10 * 10 + n % 10 = n := by omega
      have hzero : n ≠ 0 := by omega
      rw [Nat.toDigits_of_base_le (by omega) (not_lt.mp hn), decodes_append, ih (n / 10) (by omega), Option.bind_some]
      refine hdigit _ _ (n % 10) ?_
      simp [Numeral.next, whole, htens, digitValue_digitChar (n % 10) (by omega), hsum, hzero]

/-- A text that is decoded as a value, where a comma or a bracket follows, with room for `nested` more arrays
and objects. -/
def Spelled (depth nested : Nat) (text : List Char) (v : Json (Option Int)) : Prop :=
  ∀ (stack : List (Frame (Option Int))) (c : Char) (rest : List Char), stack.length + nested ≤ depth →
    c = ',' ∨ c = ']' ∨ c = '}' →
    decodes depth { stack, mode := .value } (text ++ c :: rest) = decodes depth { stack, mode := .after v } (c :: rest)

theorem decodes_string {isKey : Bool} (hstack : stack.length ≤ depth) {body chars : List Char}
    (h : Quoted.read Quoted.start body = some { chars, high := none, escape := .no }) (rest : List Char) :
    decodes depth { stack, mode := .string isKey Quoted.start } (body ++ '"' :: rest) =
      decodes depth { stack, mode := .string isKey { chars, high := none, escape := .no } } ('"' :: rest) := by
  rw [decodes_append, decodes_quoted hstack h, Option.bind_some]

theorem spelled_string {body chars : List Char}
    (h : Quoted.read Quoted.start body = some { chars, high := none, escape := .no }) :
    Spelled depth 0 ('"' :: (body ++ ['"'])) (.string (String.ofList chars.reverse)) := by
  intro stack c rest hstack _
  have hopen : advance depth { stack, mode := .value } '"' = some { stack, mode := .string false Quoted.start } :=
    advance_of_step (by simp [step, begin, isBlank]) hstack
  have hclose : advance depth { stack, mode := .string false { chars, high := none, escape := .no } } '"' =
      some { stack, mode := .after (.string (String.ofList chars.reverse)) } :=
    advance_of_step (by simp [step, Quoted.settled]) hstack
  rw [List.cons_append, List.append_assoc, List.singleton_append, decodes_cons, hopen, Option.bind_some,
    decodes_string hstack h, decodes_cons, hclose, Option.bind_some]

theorem spelled_nat (n : Nat) : Spelled depth 0 (toString n).toList (.number (some n)) := by
  intro stack c rest hstack hc
  obtain ⟨d, ds, hds⟩ := List.exists_cons_of_ne_nil (Nat.toDigits_ne_nil (n := n) (b := 10))
  have hdigit : digitValue d ≠ none := by
    have hd : d.isDigit = true :=
      Nat.isDigit_of_mem_toDigits (by decide) (le_refl 10) (hds ▸ List.mem_cons_self : d ∈ Nat.toDigits 10 n)
    have hrange : '0' ≤ d ∧ d ≤ '9' := by simpa [Char.isDigit, Char.le_def] using hd
    simp [digitValue, hrange]
  -- a first digit is read as behind a sign
  have hfirst : advance depth { stack, mode := .value } d =
    advance depth { stack, mode := .number Numeral.start } d := by
    have hnext : (Numeral.start.next d).isSome = true := by
      obtain ⟨v, hv⟩ := Option.ne_none_iff_exists'.mp hdigit
      simp [Numeral.next, Numeral.start, hv]
    obtain ⟨m, hm⟩ := Option.isSome_iff_exists.mp hnext
    have hvalue := @step_value_digit (Option Int) (fun _ => none) stack d hdigit
    have hnumber : step (fun _ => none) { stack, mode := .number Numeral.start } d =
      some { stack, mode := .number m } := by
      simp only [step, hm]
    rw [hnumber] at hvalue
    have hread : ∀ mode : Mode (Option Int), step (fun _ => spelled { stack, mode }) { stack, mode } d =
        some { stack, mode := .number m } → advance depth { stack, mode } d = some { stack, mode := .number m } :=
      fun mode hstep => advance_of_step hstep hstack
    rw [hread .value hvalue, hread (.number Numeral.start) (by simp only [step, hm])]
  have hends : (whole false n).next c = none := by
    have hchar : digitValue c = none := by rcases hc with rfl | rfl | rfl <;> decide
    have hother : c ≠ '.' ∧ c ≠ 'e' ∧ c ≠ 'E' := by rcases hc with rfl | rfl | rfl <;> decide
    by_cases hzero : n = 0 <;> simp [Numeral.next, whole, hzero, hchar, hother]
  have hvalue : spelled { stack, mode := .number (whole false n) } = some (n : Int) := by
    by_cases hzero : n = 0 <;> simp [spelled, Numeral.int?, whole, hzero, Numeral.start]
  have hafter : advance depth { stack, mode := .number (whole false n) } c =
      advance depth { stack, mode := .after (.number (some (n : Int))) } c := by
    unfold advance
    rw [hvalue]
    simp only [step, hends, complete_whole, if_true]
  have hread := decodes_toDigits hstack n
  rw [hds, decodes_cons, ← hfirst, ← decodes_cons, ← hds] at hread
  rw [Nat.toString_eq_repr, Nat.toList_repr, decodes_append, hread, Option.bind_some, decodes_cons,
    hafter, decodes_cons]

/-! ## Arrays and objects -/

theorem decodes_members {nested : Nat} {ms : List (String × List Char × Json (Option Int))} (hne : ms ≠ [])
    (hms : ∀ m ∈ ms, (∀ c ∈ m.1.toList, Plain c) ∧ Spelled depth nested m.2.1 m.2.2) {mode : Mode (Option Int)}
    (hmode : mode = .members ∨ mode = .key) (hstack : stack.length + 1 + nested ≤ depth)
    (before : List (String × Json (Option Int))) (key : String) (rest : List Char) :
    decodes depth { stack := .object before key :: stack, mode }
        (separated (ms.map fun m => memberText m.1 m.2.1) ++ '}' :: rest) =
      decodes depth { stack, mode := .after (.object (before.reverse ++ ms.map fun m => (m.1, m.2.2))) } rest := by
  induction ms generalizing before key mode with
  | nil => exact absurd rfl hne
  | cons m ms ih =>
    obtain ⟨⟨hkey, hspelled⟩, hms⟩ := List.forall_mem_cons.mp hms
    have hmember : ∀ c rest, c = ',' ∨ c = ']' ∨ c = '}' →
        decodes depth { stack := .object before key :: stack, mode } (memberText m.1 m.2.1 ++ c :: rest) =
          decodes depth { stack := .object before m.1 :: stack, mode := .after m.2.2 } (c :: rest) := by
      intro c rest hc
      have hroom : (Frame.object before key :: stack).length ≤ depth := by
        rw [List.length_cons]
        omega
      have hopen : advance depth { stack := .object before key :: stack, mode } '"' =
          some { stack := .object before key :: stack, mode := .string true Quoted.start } := by
        refine advance_of_step ?_ hroom
        rcases hmode with rfl | rfl <;> simp [step, isBlank]
      have hclose : advance depth { stack := .object before key :: stack
                                    mode := .string true { chars := m.1.toList.reverse, high := none, escape := .no } }
          '"' = some { stack := .object before m.1 :: stack, mode := .colon } :=
        advance_of_step (by simp [step, Quoted.settled]) hroom
      have hcolon : advance depth { stack := .object before m.1 :: stack, mode := .colon } ':' =
          some { stack := .object before m.1 :: stack, mode := .value } :=
        advance_of_step (by simp [step, isBlank]) hroom
      rw [memberText, List.cons_append, decodes_cons, hopen, Option.bind_some, List.append_assoc, List.cons_append,
        decodes_string hroom (read_plain hkey), decodes_cons, hclose, Option.bind_some, List.cons_append, decodes_cons,
        hcolon, Option.bind_some]
      exact hspelled _ c rest (by rw [List.length_cons]; omega) hc
    cases ms with
    | nil =>
      have hlast : advance depth { stack := .object before m.1 :: stack, mode := .after m.2.2 } '}' =
          some { stack, mode := .after (.object ((m.1, m.2.2) :: before).reverse) } :=
        advance_of_step (by simp [step, follow, isBlank]) (show stack.length ≤ depth by omega)
      rw [List.map_singleton, separated, hmember _ _ (.inr (.inr rfl)), decodes_cons, hlast, Option.bind_some]
      simp
    | cons m' ms =>
      have hcomma : advance depth { stack := .object before m.1 :: stack, mode := .after m.2.2 } ',' =
          some { stack := .object ((m.1, m.2.2) :: before) "" :: stack, mode := .key } :=
        advance_of_step (by simp [step, follow, isBlank]) (by rw [List.length_cons]; omega)
      have htail := ih (List.cons_ne_nil _ _) hms (.inr rfl) ((m.1, m.2.2) :: before) ""
      rw [List.map_cons] at htail
      rw [List.map_cons, List.map_cons, separated_cons_cons, List.append_assoc, List.cons_append,
        hmember _ _ (.inl rfl), decodes_cons, hcomma, Option.bind_some, htail]
      simp

theorem decodes_object {nested : Nat} {ms : List (String × List Char × Json (Option Int))}
    (stack : List (Frame (Option Int)))
    (hms : ∀ m ∈ ms, (∀ c ∈ m.1.toList, Plain c) ∧ Spelled depth nested m.2.1 m.2.2)
    (hstack : stack.length + 1 + nested ≤ depth) (rest : List Char) :
    decodes depth { stack, mode := .value } (objectText (ms.map fun m => (m.1, m.2.1)) ++ rest) =
      decodes depth { stack, mode := .after (.object (ms.map fun m => (m.1, m.2.2))) } rest := by
  have hopen : advance depth { stack, mode := .value } '{' =
      some { stack := .object [] "" :: stack, mode := .members } :=
    advance_of_step (by simp [step, begin, isBlank]) (by rw [List.length_cons]; omega)
  rw [objectText, List.cons_append, List.append_assoc, List.singleton_append, decodes_cons, hopen, Option.bind_some,
    List.map_map]
  by_cases hne : ms = []
  · subst hne
    have hclose : advance depth { stack := .object [] "" :: stack, mode := .members } '}' =
        some { stack, mode := .after (.object []) } :=
      advance_of_step (by simp [step, isBlank]) (show stack.length ≤ depth by omega)
    rw [List.map_nil, separated, List.nil_append, decodes_cons, hclose]
    rfl
  · exact decodes_members hne hms (.inl rfl) hstack [] "" rest

theorem decodes_values {nested : Nat} {vs : List (List Char × Json (Option Int))} (hne : vs ≠ [])
    (stack : List (Frame (Option Int))) (hvs : ∀ v ∈ vs, Spelled depth nested v.1 v.2)
    (hstack : stack.length + 1 + nested ≤ depth)
    (before : List (Json (Option Int))) (rest : List Char) :
    decodes depth { stack := .array before :: stack, mode := .value } (separated (vs.map (·.1)) ++ ']' :: rest) =
      decodes depth { stack, mode := .after (.array (before.reverse ++ vs.map (·.2))) } rest := by
  induction vs generalizing before with
  | nil => exact absurd rfl hne
  | cons v vs ih =>
    obtain ⟨hspelled, hvs⟩ := List.forall_mem_cons.mp hvs
    have hroom : (Frame.array before :: stack).length + nested ≤ depth := by
      rw [List.length_cons]
      omega
    cases vs with
    | nil =>
      have hlast : advance depth { stack := .array before :: stack, mode := .after v.2 } ']' =
          some { stack, mode := .after (.array (v.2 :: before).reverse) } :=
        advance_of_step (by simp [step, follow, isBlank]) (show stack.length ≤ depth by omega)
      rw [List.map_singleton, separated, hspelled _ _ _ hroom (.inr (.inl rfl)), decodes_cons, hlast, Option.bind_some]
      simp
    | cons v' vs =>
      have hcomma : advance depth { stack := .array before :: stack, mode := .after v.2 } ',' =
          some { stack := .array (v.2 :: before) :: stack, mode := .value } :=
        advance_of_step (by simp [step, follow, isBlank]) (by rw [List.length_cons]; omega)
      have htail := ih (List.cons_ne_nil _ _) hvs (v.2 :: before)
      rw [List.map_cons] at htail
      rw [List.map_cons, List.map_cons, separated_cons_cons, List.append_assoc, List.cons_append,
        hspelled _ _ _ hroom (.inl rfl), decodes_cons, hcomma, Option.bind_some, htail]
      simp

/-- An array of values that begin with no blank and not as the array ends. -/
theorem spelled_array {nested : Nat} {vs : List (List Char × Json (Option Int))}
    (hvs : ∀ v ∈ vs, Spelled depth nested v.1 v.2)
    (hhead : ∀ v ∈ vs, ∃ c text, v.1 = c :: text ∧ c ≠ ']' ∧ isBlank c = false) :
    Spelled depth (nested + 1) (arrayText (vs.map (·.1))) (.array (vs.map (·.2))) := by
  intro stack c rest hstack _
  have hopen : advance depth { stack, mode := .value } '[' = some { stack := .array [] :: stack, mode := .first } :=
    advance_of_step (by simp [step, begin, isBlank]) (by rw [List.length_cons]; omega)
  rw [arrayText, List.cons_append, List.append_assoc, List.singleton_append, decodes_cons, hopen, Option.bind_some]
  cases vs with
  | nil =>
    have hclose : advance depth { stack := .array [] :: stack, mode := .first } ']' =
        some { stack, mode := .after (.array []) } :=
      advance_of_step (by simp [step, isBlank]) (show stack.length ≤ depth by omega)
    rw [List.map_nil, separated, List.nil_append, decodes_cons, hclose]
    rfl
  | cons v vs =>
    obtain ⟨d, text, hv, hd, hblank⟩ := hhead v List.mem_cons_self
    have hfirst : ∀ text, decodes depth { stack := .array [] :: stack, mode := .first } (d :: text) =
        decodes depth { stack := .array [] :: stack, mode := .value } (d :: text) := by
      intro text
      rw [decodes_cons, decodes_cons]
      simp [advance, step, hblank, hd]
    obtain ⟨more, hmore⟩ : ∃ more, separated ((v :: vs).map (·.1)) = d :: more := by
      rw [List.map_cons]
      cases vs with
      | nil => exact ⟨text, hv⟩
      | cons v' vs =>
        refine ⟨text ++ ',' :: separated ((v' :: vs).map (·.1)), ?_⟩
        rw [List.map_cons, separated_cons_cons, hv]
        rfl
    have hrest := decodes_values (List.cons_ne_nil v vs) stack hvs (by omega) [] (c :: rest)
    rw [hmore, List.cons_append] at hrest ⊢
    rw [hfirst, hrest]
    rfl

end Reader

/-! ## What is written as an object -/

section
open Reader
variable {depth nested : Nat} {ms : List (String × List Char × Json (Option Int))}

/-- **What is written as an object is decoded as one**, whatever follows it. -/
theorem first_object (hms : ∀ m ∈ ms, (∀ c ∈ m.1.toList, Plain c) ∧ Spelled depth nested m.2.1 m.2.2)
    (hdepth : nested < depth) (rest : List Char) :
    first depth (objectText (ms.map fun m => (m.1, m.2.1)) ++ rest) =
    some (.object (ms.map fun m => (m.1, m.2.2))) := by
  refine first_of_decodes ?_ rest
  have hread := decodes_object [] hms (show 0 + 1 + nested ≤ depth by omega) []
  rwa [List.append_nil] at hread

/-- Before its last character an object is not over. -/
theorem value_of_isPrefix (hms : ∀ m ∈ ms, (∀ c ∈ m.1.toList, Plain c) ∧ Spelled depth nested m.2.1 m.2.2)
    (hdepth : nested < depth) {read : List Char} (hread : read <+: objectText (ms.map fun m => (m.1, m.2.1)))
    (hne : read ≠ objectText (ms.map fun m => (m.1, m.2.1))) {s : Reader (Option Int)}
    (hs : start.decodes depth read = some s) : s.value? = none := by
  by_contra hvalue
  obtain ⟨rest, hrest⟩ := hread
  have hwhole := decodes_object [] hms (show 0 + 1 + nested ≤ depth by omega) []
  rw [List.append_nil, ← hrest, decodes_append] at hwhole
  -- behind the brace that opens it, a value without a frame around it is over
  have hover : ∃ w, s = { stack := [], mode := .after w } := by
    have hstack : s.stack = [] := by
      unfold value? finish at hvalue
      split at hvalue
      · rename_i hstack _
        exact hstack
      · rename_i hstack _
        exact hstack
      · exact absurd rfl hvalue
    have henclosed : Enclosed s := by
      cases read with
      | nil =>
        obtain rfl := Option.some.inj hs
        exact absurd rfl hvalue
      | cons c read =>
        have hc : c = '{' := by
          rw [objectText] at hrest
          exact (List.cons.inj hrest).1
        rw [decodes_cons] at hs
        obtain ⟨r, hr, hs⟩ := Option.bind_eq_some_iff.mp hs
        refine enclosed_decodes (fun hnil => ?_) hs
        have hstep := step_of_advance hr
        subst hc
        have hopened : r = { stack := [.object [] ""], mode := .members } := by
          simpa [step, start, begin, isBlank] using hstep.symm
        rw [hopened] at hnil
        cases hnil
    obtain ⟨w, hw⟩ := henclosed hstack
    obtain ⟨stack, mode⟩ := s
    obtain rfl : stack = [] := hstack
    obtain rfl : mode = .after w := hw
    exact ⟨w, rfl⟩
  obtain ⟨w, rfl⟩ := hover
  have hblank : ∀ c ∈ rest, isBlank c = true := by
    have hstart : decodes depth { stack := [], mode := .value } read = some { stack := [], mode := .after w } := hs
    rw [hstart, Option.bind_some] at hwhole
    exact (decodes_after hwhole).2
  have hrest' : rest ≠ [] := by
    rintro rfl
    rw [List.append_nil] at hrest
    exact hne hrest
  have hlast : '}' ∈ rest := by
    have hends : (read ++ rest).getLast? = some '}' := by
      rw [hrest, objectText, ← List.cons_append, List.getLast?_concat]
    rw [List.getLast?_append_of_ne_nil _ hrest'] at hends
    exact List.mem_of_getLast? hends
  have hbrace := hblank '}' hlast
  simp [isBlank] at hbrace

/-- **No beginning of an object has a value.** -/
theorem first_isPrefix (hms : ∀ m ∈ ms, (∀ c ∈ m.1.toList, Plain c) ∧ Spelled depth nested m.2.1 m.2.2)
    (hdepth : nested < depth) {part : List Char} (hpart : part <+: objectText (ms.map fun m => (m.1, m.2.1)))
    (hne : part ≠ objectText (ms.map fun m => (m.1, m.2.1))) : first depth part = none := by
  by_contra hsome
  obtain ⟨v, hv⟩ := Option.ne_none_iff_exists'.mp hsome
  obtain ⟨read, s, hread, hs, hvalue⟩ := decodes_of_first hv
  have hshort : read ≠ objectText (ms.map fun m => (m.1, m.2.1)) := by
    rintro rfl
    exact hne (hpart.eq_of_length_le hread.length_le)
  rw [value_of_isPrefix hms hdepth (hread.trans hpart) hshort hs] at hvalue
  cases hvalue

/-! ### Characters that are torn -/

/-- What is left of a literal is of ASCII. -/
def Literal (r : Reader (Option Int)) : Prop := ∀ rest v, r.mode = .literal rest v → ∀ d ∈ rest, d.toNat < 128

theorem literal_of_mode {r : Reader (Option Int)} (h : ∀ rest v, r.mode ≠ .literal rest v) : Literal r :=
  fun rest v hmode => absurd hmode (h rest v)

theorem literal_begin {stack : List (Frame (Option Int))} {c : Char} {s : Reader (Option Int)}
    (h : begin stack c = some s) : Literal s := by
  have hword : ∀ word : List Char, (∀ d ∈ word, d.toNat < 128) → ∀ v : Json (Option Int),
      Literal { stack, mode := .literal word v } := by
    intro word hword v rest w hmode
    simp only [Mode.literal.injEq] at hmode
    exact hmode.1 ▸ hword
  unfold begin at h
  split at h
  · exact Option.some.inj h ▸ literal_of_mode (by simp)
  split at h
  · exact Option.some.inj h ▸ literal_of_mode (by simp)
  split at h
  · exact Option.some.inj h ▸ literal_of_mode (by simp)
  split at h
  · exact Option.some.inj h ▸ literal_of_mode (by simp)
  split at h
  · exact Option.some.inj h ▸ hword _ (by decide) _
  split at h
  · exact Option.some.inj h ▸ hword _ (by decide) _
  split at h
  · exact Option.some.inj h ▸ hword _ (by decide) _
  · obtain ⟨n, -, rfl⟩ := Option.map_eq_some_iff.mp h
    exact literal_of_mode (by simp)

theorem literal_follow {stack : List (Frame (Option Int))} {v : Json (Option Int)} {c : Char}
    {s : Reader (Option Int)} (h : follow stack v c = some s) : Literal s := by
  unfold follow at h
  split at h
  · exact Option.some.inj h ▸ literal_of_mode (by simp)
  split at h
  · split at h
    · exact Option.some.inj h ▸ literal_of_mode (by simp)
    · split at h <;> cases h
      exact literal_of_mode (by simp)
  · split at h
    · exact Option.some.inj h ▸ literal_of_mode (by simp)
    · split at h <;> cases h
      exact literal_of_mode (by simp)
  · cases h

theorem Literal.step {number : ℚ → Option Int} {r s : Reader (Option Int)} (hr : Literal r) {c : Char}
    (h : r.step number c = some s) : Literal s := by
  obtain ⟨stack, mode⟩ := r
  cases mode with
  | value =>
    simp only [Reader.step] at h
    split at h
    · exact Option.some.inj h ▸ hr
    · exact literal_begin h
  | first =>
    simp only [Reader.step] at h
    split at h
    · exact Option.some.inj h ▸ hr
    split at h
    · exact Option.some.inj h ▸ literal_of_mode (by simp)
    · exact literal_begin h
  | members =>
    simp only [Reader.step] at h
    split at h
    · exact Option.some.inj h ▸ hr
    split at h
    · exact Option.some.inj h ▸ literal_of_mode (by simp)
    split at h <;> cases h
    exact literal_of_mode (by simp)
  | key =>
    simp only [Reader.step] at h
    split at h
    · exact Option.some.inj h ▸ hr
    split at h <;> cases h
    exact literal_of_mode (by simp)
  | colon =>
    simp only [Reader.step] at h
    split at h
    · exact Option.some.inj h ▸ hr
    split at h <;> cases h
    exact literal_of_mode (by simp)
  | literal rest v =>
    have hrest := hr rest v rfl
    simp only [Reader.step] at h
    split at h
    · cases h
    · split at h <;> cases h
      exact literal_of_mode (by simp)
    · split at h <;> cases h
      intro rest' v' hmode
      simp only [Mode.literal.injEq] at hmode
      exact hmode.1 ▸ (List.forall_mem_cons.mp hrest).2
  | string isKey q =>
    simp only [Reader.step] at h
    split at h
    · split at h
      · split at h <;> cases h
        exact literal_of_mode (by simp)
      · exact Option.some.inj h ▸ literal_of_mode (by simp)
    · obtain ⟨q', -, rfl⟩ := Option.map_eq_some_iff.mp h
      exact literal_of_mode (by simp)
  | number n =>
    simp only [Reader.step] at h
    split at h
    · exact Option.some.inj h ▸ literal_of_mode (by simp)
    split at h
    · exact literal_follow h
    · cases h
  | after v => exact literal_follow h

theorem Literal.decodes {r s : Reader (Option Int)} (hr : Literal r) {text : List Char}
    (h : r.decodes depth text = some s) : Literal s := by
  induction text generalizing r with
  | nil => exact Option.some.inj h ▸ hr
  | cons c text ih =>
    rw [decodes_cons] at h
    obtain ⟨r', hr', h⟩ := Option.bind_eq_some_iff.mp h
    exact ih (hr.step (step_of_advance hr')) h

/-- Only strings take a character that is none of ASCII. -/
theorem string_of_advance {r s : Reader (Option Int)} {c : Char} (hr : Literal r) (hc : 128 ≤ c.toNat)
    (h : r.advance depth c = some s) : ∃ isKey q, r.mode = .string isKey q ∧ q.escape = .no := by
  have hne : ∀ d : Char, d.toNat < 128 → c ≠ d := by
    rintro d hd rfl
    omega
  have hblank : isBlank c = false := by
    simp [isBlank, hne ' ' (by decide), hne '\t' (by decide), hne '\n' (by decide), hne '\r' (by decide)]
  have hdigit : digitValue c = none := by
    have hlarge : ¬ ('0' ≤ c ∧ c ≤ '9') := by
      rintro ⟨-, hle⟩
      have hnine : c.toNat ≤ '9'.toNat := hle
      have h57 : '9'.toNat = 57 := rfl
      omega
    rw [digitValue, if_neg hlarge]
  have hbegin : ∀ stack : List (Frame (Option Int)), begin stack c = none := by
    intro stack
    simp [begin, hne '{' (by decide), hne '[' (by decide), hne '"' (by decide), hne '-' (by decide),
      hne 't' (by decide), hne 'f' (by decide), hne 'n' (by decide), Numeral.next, Numeral.start, hdigit]
  have hfollow : ∀ (stack : List (Frame (Option Int))) v, follow stack v c = none := by
    intro stack v
    unfold follow
    rw [hblank]
    cases stack with
    | nil => rfl
    | cons frame stack =>
      cases frame <;>
        simp [hne ',' (by decide), hne ']' (by decide), hne '}' (by decide)]
  have hstep := step_of_advance h
  obtain ⟨stack, mode⟩ := r
  cases mode with
  | string isKey q =>
    refine ⟨isKey, q, rfl, ?_⟩
    have hquote : ¬ (c = '"' ∧ q.escape = .no) := fun h => hne '"' (by decide) h.1
    simp only [step, if_neg hquote] at hstep
    obtain ⟨q', hq', -⟩ := Option.map_eq_some_iff.mp hstep
    unfold Quoted.next at hq'
    split at hq'
    · assumption
    · have hescaped : escaped c = none := by
        simp [escaped, hne '"' (by decide), hne '\\' (by decide), hne '/' (by decide), hne 'b' (by decide),
          hne 'f' (by decide), hne 'n' (by decide), hne 'r' (by decide), hne 't' (by decide)]
      rw [if_neg (hne 'u' (by decide)), hescaped] at hq'
      cases hq'
    · have hhex : hexValue c = none := by
        have hlarge : ∀ d d' : Char, d'.toNat < 128 → ¬ (d ≤ c ∧ c ≤ d') := by
          rintro d d' hd' ⟨-, hle⟩
          have hle' : c.toNat ≤ d'.toNat := hle
          omega
        rw [hexValue, if_neg (hlarge _ _ (by decide)), if_neg (hlarge _ _ (by decide)), if_neg (hlarge _ _ (by decide))]
      rw [hhex] at hq'
      cases hq'
  | value => simp [step, hblank, hbegin] at hstep
  | first => simp [step, hblank, hbegin, hne ']' (by decide)] at hstep
  | members => simp [step, hblank, hne '}' (by decide), hne '"' (by decide)] at hstep
  | key => simp [step, hblank, hne '"' (by decide)] at hstep
  | colon => simp [step, hblank, hne ':' (by decide)] at hstep
  | literal rest v =>
    have hrest := hr rest v rfl
    simp only [step] at hstep
    split at hstep
    · cases hstep
    · rw [if_neg (hne _ (hrest _ (List.mem_cons_self ..)))] at hstep
      cases hstep
    · rw [if_neg (hne _ (hrest _ (List.mem_cons_self ..)))] at hstep
      cases hstep
  | number n =>
    have hnext : n.next c = none := by
      unfold Numeral.next
      rw [hdigit]
      cases n.place <;>
        simp [hne '.' (by decide), hne 'e' (by decide), hne 'E' (by decide), hne '+' (by decide), hne '-' (by decide)]
    simp [step, hnext, hfollow] at hstep
  | after v => simp [step, hfollow] at hstep

/-- They do so without an end. -/
theorem decodes_beyond {stack : List (Frame (Option Int))} {isKey : Bool} {q : Quoted} (hq : q.escape = .no)
    {text : List Char} (htext : ∀ c ∈ text, 128 ≤ c.toNat) {s : Reader (Option Int)}
    (h : decodes depth { stack, mode := .string isKey q } text = some s) : s.value? = none := by
  induction text generalizing q with
  | nil =>
    obtain rfl := Option.some.inj h
    cases stack <;> rfl
  | cons c text ih =>
    obtain ⟨hc, htext⟩ := List.forall_mem_cons.mp htext
    have hplain : c ≠ '"' ∧ c ≠ '\\' ∧ ¬ c.toNat < 32 := by
      refine ⟨?_, ?_, by omega⟩ <;> rintro rfl <;> revert hc <;> decide
    rw [decodes_cons] at h
    obtain ⟨r, hr, h⟩ := Option.bind_eq_some_iff.mp h
    have hstep := step_of_advance hr
    have hr' : r = { stack, mode := .string isKey (q.push c) } := by
      simpa [step, Quoted.next, hq, hplain] using hstep.symm
    subst hr'
    exact ih rfl htext h

/-- And so it is where a character is torn: something else stands for the rest of it. -/
theorem first_torn (hms : ∀ m ∈ ms, (∀ c ∈ m.1.toList, Plain c) ∧ Spelled depth nested m.2.1 m.2.2)
    (hdepth : nested < depth) {part more : List Char} {c : Char}
    (hpart : part ++ [c] <+: objectText (ms.map fun m => (m.1, m.2.1))) (hc : 128 ≤ c.toNat)
    (hmore : ∀ d ∈ more, 128 ≤ d.toNat) : first depth (part ++ more) = none := by
  by_contra hsome
  obtain ⟨v, hv⟩ := Option.ne_none_iff_exists'.mp hsome
  obtain ⟨read, s, hread, hs, hvalue⟩ := decodes_of_first hv
  have hshort : ∀ p : List Char, p <+: part → p ≠ objectText (ms.map fun m => (m.1, m.2.1)) := by
    rintro p hp rfl
    have hle := hpart.length_le.trans hp.length_le
    rw [List.length_append, List.length_singleton] at hle
    omega
  rcases List.prefix_or_prefix_of_prefix hread (List.prefix_append part more) with hbefore | ⟨torn, rfl⟩
  · have hnone := value_of_isPrefix hms hdepth
      ((hbefore.trans (List.prefix_append part [c])).trans hpart) (hshort read hbefore) hs
    rw [hnone] at hvalue
    cases hvalue
  · obtain ⟨rest, hrest⟩ := hpart
    have hwhole := decodes_object [] hms (show 0 + 1 + nested ≤ depth by omega) []
    rw [List.append_nil, ← hrest, decodes_append, decodes_append] at hwhole
    obtain ⟨r, hr, -⟩ := Option.bind_eq_some_iff.mp hwhole
    obtain ⟨r₁, hr₁, hr⟩ := Option.bind_eq_some_iff.mp hr
    rw [decodes_cons] at hr
    obtain ⟨r₂, hr₂, -⟩ := Option.bind_eq_some_iff.mp hr
    have hstart : start.decodes depth part = some r₁ := hr₁
    have hliteral : Literal r₁ := (literal_of_mode (by simp [start])).decodes hstart
    obtain ⟨isKey, q, hmode, hescape⟩ := string_of_advance hliteral hc hr₂
    rw [decodes_append, hstart, Option.bind_some] at hs
    obtain ⟨stack, mode⟩ := r₁
    obtain rfl : mode = .string isKey q := hmode
    have htorn : torn <+: more := (List.prefix_append_right_inj part).mp hread
    rw [decodes_beyond hescape (fun d hd => hmore d (htorn.subset hd)) hs] at hvalue
    cases hvalue

end

end Json
