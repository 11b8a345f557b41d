import ComputeArmada.Lib.Base64
import ComputeArmada.Lib.Json
import ComputeArmada.Lib.Utf8

/-!
# What the agent writes

`encoding/json` as the agent uses it, and the response to `POST /exec` in `server.go`. A Go string is its
bytes, whatever they are.

* `runes`, `jsonString` : a string, as it is encoded;
* `ExecEvent`, `ExecEvent.encode` : one line of the response;
* `forward`, `Interleaves`, `execBody` : the response, whatever the pipes give and in whatever order.
-/

namespace ComputeArmada.Agent

/-! ## Strings -/

/-- `utf8.DecodeRune`: a character and how many bytes it takes. -/
def decodeRune (p : Utf8.Pending) : List UInt8 → Option (Char × Nat)
  | [] => none
  | b :: bs =>
    match Utf8.next p b with
    | none => none
    | some (_, some c) => some (c, 1)
    | some (p, none) => (decodeRune p bs).map fun r => (r.1, r.2 + 1)

/-- The runes of a string, behind the first `skip` bytes; a byte that begins none is one by itself. -/
def runesFrom : (skip : Nat) → List UInt8 → List (Option Char)
  | _, [] => []
  | skip + 1, _ :: bs => runesFrom skip bs
  | 0, b :: bs =>
    match decodeRune .none (b :: bs) with
    | some (c, size) => some c :: runesFrom (size - 1) bs
    | none => none :: runesFrom 0 bs

def runes (bs : List UInt8) : List (Option Char) := runesFrom 0 bs

/-- A rune within quotes; the characters that HTML gives a meaning are escaped too. -/
def escape : Option Char → List Char
  | none => "\\ufffd".toList
  | some c =>
    let n := c.toNat
    if c = '"' ∨ c = '\\' then ['\\', c]
    else if n = 8 then "\\b".toList
    else if n = 9 then "\\t".toList
    else if n = 10 then "\\n".toList
    else if n = 12 then "\\f".toList
    else if n = 13 then "\\r".toList
    else if n < 32 ∨ c = '<' ∨ c = '>' ∨ c = '&' then
      "\\u00".toList ++ [Nat.digitChar (n / 16), Nat.digitChar (n % 16)]
    else if n = 0x2028 ∨ n = 0x2029 then "\\u202".toList ++ [Nat.digitChar (n % 16)]
    else [c]

def jsonString (s : List UInt8) : List Char := '"' :: ((runes s).flatMap escape ++ ['"'])

/-! ### As they are read -/

section
open Json.Reader

theorem stands_escaped {c d : Char} (h : Json.escaped d = some c) (hd : d ≠ 'u') : Stands ['\\', d] c := by
  intro chars
  simp [Quoted.read, Json.Quoted.next, Json.Quoted.push, Json.Quoted.settled, h, hd]

theorem eq_ofNat {c : Char} {n : Nat} (h : c.toNat = n) : c = Char.ofNat n := by
  rw [← h, Char.ofNat_toNat]

theorem plain_of_lt {c : Char} (h : 32 ≤ c.toNat) (hquote : ¬ (c = '"' ∨ c = '\\')) : Plain c :=
  ⟨fun hc => hquote (.inl hc), fun hc => hquote (.inr hc), h⟩

/-- A character is escaped by a letter, by its code, or not at all. -/
theorem escape_cases (c : Char) :
    (∃ d, escape (some c) = ['\\', d] ∧ Json.escaped d = some c ∧ d ≠ 'u' ∧ 32 ≤ d.toNat) ∨
    (c.toNat < 128 ∧
      escape (some c) = "\\u00".toList ++ [Nat.digitChar (c.toNat / 16), Nat.digitChar (c.toNat % 16)]) ∨
    ((c.toNat = 0x2028 ∨ c.toNat = 0x2029) ∧ escape (some c) = "\\u202".toList ++ [Nat.digitChar (c.toNat % 16)]) ∨
    (32 ≤ c.toNat ∧ ¬ (c = '"' ∨ c = '\\') ∧ escape (some c) = [c]) := by
  generalize hr : escape (some c) = r
  have hletter : ∀ {n : Nat} {d : Char}, c.toNat = n → ['\\', d] = r → Json.escaped d = some (Char.ofNat n) → d ≠ 'u' →
      32 ≤ d.toNat → ∃ d', r = ['\\', d'] ∧ Json.escaped d' = some c ∧ d' ≠ 'u' ∧ 32 ≤ d'.toNat := by
    intro n d hn hr hd hu hle
    exact ⟨d, hr.symm, by rw [eq_ofNat hn, hd], hu, hle⟩
  unfold escape at hr
  dsimp only at hr
  split at hr
  · rename_i hc
    refine .inl ⟨c, hr.symm, ?_⟩
    rcases hc with rfl | rfl <;> decide
  split at hr
  · exact .inl (hletter ‹_› hr (by decide) (by decide) (by decide))
  split at hr
  · exact .inl (hletter ‹_› hr (by decide) (by decide) (by decide))
  split at hr
  · exact .inl (hletter ‹_› hr (by decide) (by decide) (by decide))
  split at hr
  · exact .inl (hletter ‹_› hr (by decide) (by decide) (by decide))
  split at hr
  · exact .inl (hletter ‹_› hr (by decide) (by decide) (by decide))
  split at hr
  · rename_i hc
    refine .inr (.inl ⟨?_, hr.symm⟩)
    rcases hc with hc | rfl | rfl | rfl
    · omega
    all_goals decide
  split at hr
  · exact .inr (.inr (.inl ⟨‹_›, hr.symm⟩))
  · rename_i hquote _ _ _ _ _ hsmall _
    exact .inr (.inr (.inr ⟨not_lt.mp fun h => hsmall (.inl h), hquote, hr.symm⟩))

/-- Whatever reads JSON reads what was encoded, and a replacement where there was no character. -/
theorem stands_escape (r : Option Char) : Stands (escape r) (r.getD Json.replacement) := by
  cases r with
  | none =>
    exact stands_unit (a := 15) (b := 15) (c := 15) (d := 13) (by decide) (by decide) (by decide)
      (by decide) (by decide)
  | some c =>
    rw [Option.getD_some]
    rcases escape_cases c with ⟨d, heq, hd, hu, -⟩ | ⟨hsmall, heq⟩ | ⟨hc, heq⟩ | ⟨hle, hquote, heq⟩
    · rw [heq]
      exact stands_escaped hd hu
    · have hunit := stands_unit (a := 0) (b := 0) (c := c.toNat / 16) (d := c.toNat % 16) (by decide) (by decide)
        (by omega) (by omega) (by omega)
      have hcode : ((0 * 16 + 0) * 16 + c.toNat / 16) * 16 + c.toNat % 16 = c.toNat := by omega
      rw [hcode, Char.ofNat_toNat] at hunit
      rw [heq]
      exact hunit
    · have hunit := stands_unit (a := 2) (b := 0) (c := 2) (d := c.toNat % 16) (by decide) (by decide) (by decide)
        (by omega) (by omega)
      have hcode : ((2 * 16 + 0) * 16 + 2) * 16 + c.toNat % 16 = c.toNat := by omega
      rw [hcode, Char.ofNat_toNat] at hunit
      rw [heq]
      exact hunit
    · rw [heq]
      exact stands_plain (plain_of_lt hle hquote)

theorem written_jsonString {ν : Type} {number : ℚ → ν} (s : List UInt8) : Written number (jsonString s)
    (.string (String.ofList ((runes s).map fun r => r.getD Json.replacement))) := by
  have hread := read_flatMap (fun r (_ : r ∈ runes s) => stands_escape r) []
  have hwritten := @written_string ν number _ _ hread
  rw [List.append_nil, List.reverse_reverse] at hwritten
  exact hwritten

end

/-! ## Events -/

/-- One line of the response. -/
structure ExecEvent where
  pid : Int := 0
  stdout : List UInt8 := []
  stderr : List UInt8 := []
  exit : Option Int := none
  timedOut : Bool := false
  error : List UInt8 := []
  deriving DecidableEq

/-- `[]byte` as base64. -/
def jsonBytes (bs : List UInt8) : List Char := '"' :: (Base64.encode bs ++ ['"'])

/-- The fields that are not empty. -/
def ExecEvent.fields (event : ExecEvent) : List (String × List Char) :=
  (if event.pid = 0 then [] else [("pid", (toString event.pid).toList)]) ++
  (if event.stdout = [] then [] else [("stdout", jsonBytes event.stdout)]) ++
  (if event.stderr = [] then [] else [("stderr", jsonBytes event.stderr)]) ++
  (event.exit.toList.map fun code => ("exit", (toString code).toList)) ++
  (if event.timedOut then [("timedOut", "true".toList)] else []) ++
  (if event.error = [] then [] else [("error", jsonString event.error)])

/-- `json.Encoder.Encode`, without the newline it ends with. -/
def ExecEvent.line (event : ExecEvent) : List Char := Json.Reader.objectText event.fields

def ExecEvent.encode (event : ExecEvent) : List UInt8 := Utf8.encode (event.line ++ ['\n'])

/-- How a process ended. -/
inductive WaitStatus
  | exited (status : UInt8)
  | signaled (signal : Nat)
  deriving DecidableEq

def WaitStatus.exitCode : WaitStatus → Int
  | .exited status => status.toNat
  | .signaled _ => -1

/-! ## `exec` -/

/-- One `Read` of a pipe: what it read, and whether it returned an error. -/
structure PipeRead where
  data : List UInt8
  err : Bool
  deriving DecidableEq

/-- What `forward` sends: until a read fails, every read that gives something. -/
def forward : List PipeRead → List (List UInt8)
  | [] => []
  | read :: reads =>
    (if read.data = [] then [] else [read.data]) ++ (if read.err then [] else forward reads)

/-- Two goroutines that send in their own order. -/
inductive Interleaves {α : Type} : List α → List α → List α → Prop
  | nil : Interleaves [] [] []
  | left {x xs ys zs} (h : Interleaves xs ys zs) : Interleaves (x :: xs) ys (x :: zs)
  | right {y xs ys zs} (h : Interleaves xs ys zs) : Interleaves xs (y :: ys) (y :: zs)

/-- The response to a command that was started: its pid, what its pipes gave, and the last event. -/
def execBody (pid : Int) (output : List ExecEvent) (last : ExecEvent) : List UInt8 :=
  ({ pid : ExecEvent } :: output ++ [last]).flatMap ExecEvent.encode

/-- The last event of a command whose `Wait` returned. -/
def exitEvent (status : WaitStatus) (timedOut : Bool) : ExecEvent := { exit := some status.exitCode, timedOut }

/-! ## Control characters are escaped -/

section
open Json.Reader

theorem mem_separated {c : Char} {texts : List (List Char)} (h : c ∈ separated texts) :
    c = ',' ∨ ∃ text ∈ texts, c ∈ text := by
  induction texts with
  | nil => cases h
  | cons text texts ih =>
    cases texts with
    | nil => exact .inr ⟨text, List.mem_singleton_self _, h⟩
    | cons text' texts =>
      rw [separated_cons_cons, List.mem_append, List.mem_cons] at h
      rcases h with h | h | h
      · exact .inr ⟨text, List.mem_cons_self, h⟩
      · exact .inl h
      · rcases ih h with hcomma | ⟨text'', hmem, hc⟩
        · exact .inl hcomma
        · exact .inr ⟨text'', List.mem_cons_of_mem _ hmem, hc⟩

theorem printable_digit {n : Nat} : ∀ c ∈ Nat.toDigits 10 n, 32 ≤ c.toNat := fun c hc => by
  have hdigit := Nat.isDigit_of_mem_toDigits (by decide) (le_refl 10) hc
  have hrange : '0' ≤ c ∧ c ≤ '9' := by simpa [Char.isDigit, Char.le_def] using hdigit
  have hzero : '0'.toNat ≤ c.toNat := hrange.1
  exact le_trans (by decide) hzero

theorem printable_int (n : Int) : ∀ c ∈ (toString n).toList, 32 ≤ c.toNat := by
  rw [Int.toString_eq_repr, Int.repr_eq_if]
  split
  · rw [Nat.toList_repr]
    exact printable_digit
  · rw [String.toList_append, Nat.toList_repr]
    exact List.forall_mem_cons.mpr ⟨by decide, printable_digit⟩

theorem printable_escape (r : Option Char) : ∀ c ∈ escape r, 32 ≤ c.toNat := by
  have hhex : ∀ n < 16, 32 ≤ (Nat.digitChar n).toNat := by decide
  cases r with
  | none => decide
  | some c =>
    rcases escape_cases c with ⟨d, heq, -, -, hle⟩ | ⟨hsmall, heq⟩ | ⟨-, heq⟩ | ⟨hle, -, heq⟩
    · rw [heq]
      exact List.forall_mem_cons.mpr ⟨by decide, List.forall_mem_singleton.mpr hle⟩
    · rw [heq]
      refine List.forall_mem_append.mpr ⟨by decide, ?_⟩
      exact List.forall_mem_cons.mpr ⟨hhex _ (by omega), List.forall_mem_singleton.mpr (hhex _ (by omega))⟩
    · rw [heq]
      exact List.forall_mem_append.mpr ⟨by decide, List.forall_mem_singleton.mpr (hhex _ (by omega))⟩
    · rw [heq]
      exact List.forall_mem_singleton.mpr hle

theorem printable_quoted {cs : List Char} (h : ∀ c ∈ cs, 32 ≤ c.toNat) : ∀ c ∈ '"' :: (cs ++ ['"']), 32 ≤ c.toNat :=
  List.forall_mem_cons.mpr ⟨by decide, List.forall_mem_append.mpr ⟨h, by decide⟩⟩

theorem printable_jsonString (s : List UInt8) : ∀ c ∈ jsonString s, 32 ≤ c.toNat :=
  printable_quoted fun c hc => by
    obtain ⟨r, -, hr⟩ := List.mem_flatMap.mp hc
    exact printable_escape r c hr

theorem printable_object {members : List (String × List Char)}
    (h : ∀ m ∈ members, (∀ c ∈ m.1.toList, 32 ≤ c.toNat) ∧ ∀ c ∈ m.2, 32 ≤ c.toNat) :
    ∀ c ∈ objectText members, 32 ≤ c.toNat := by
  refine List.forall_mem_cons.mpr ⟨by decide, List.forall_mem_append.mpr ⟨fun c hc => ?_, by decide⟩⟩
  rcases mem_separated hc with rfl | ⟨text, htext, hc⟩
  · decide
  · obtain ⟨m, hm, rfl⟩ := List.mem_map.mp htext
    obtain ⟨hkey, hvalue⟩ := h m hm
    have hall : ∀ c ∈ memberText m.1 m.2, 32 ≤ c.toNat :=
      List.forall_mem_cons.mpr ⟨by decide, List.forall_mem_append.mpr
        ⟨hkey, List.forall_mem_cons.mpr ⟨by decide, List.forall_mem_cons.mpr ⟨by decide, hvalue⟩⟩⟩⟩
    exact hall c hc

end

/-! ## As it is read -/

section
open Json.Reader
variable {ν : Type} (number : ℚ → ν)

theorem plain_encode (bs : List UInt8) : ∀ c ∈ Base64.encode bs, Plain c := by
  have hdigit : ∀ n < 64, Base64.digit n ≠ '"' ∧ Base64.digit n ≠ '\\' ∧ 32 ≤ (Base64.digit n).toNat := by decide
  have hpad : Plain '=' := ⟨by decide, by decide, by decide⟩
  induction bs using Base64.encode.induct with
  | case1 => simp [Base64.encode]
  | case2 a =>
    have ha := a.toNat_lt
    simp only [Base64.encode, List.forall_mem_cons]
    exact ⟨hdigit _ (by omega), hdigit _ (by omega), hpad, hpad, by simp⟩
  | case3 a b =>
    have ha := a.toNat_lt
    have hb := b.toNat_lt
    simp only [Base64.encode, List.forall_mem_cons]
    exact ⟨hdigit _ (by omega), hdigit _ (by omega), hdigit _ (by omega), hpad, by simp⟩
  | case4 a b c rest ih =>
    have ha := a.toNat_lt
    have hb := b.toNat_lt
    have hc := c.toNat_lt
    simp only [Base64.encode, List.forall_mem_cons]
    exact ⟨hdigit _ (by omega), hdigit _ (by omega), hdigit _ (by omega), hdigit _ (by omega), ih⟩

theorem written_jsonBytes (bs : List UInt8) :
    Written number (jsonBytes bs) (.string (String.ofList (Base64.encode bs))) := by
  have hwritten := @written_string ν number _ _ (read_plain (plain_encode bs))
  rw [List.reverse_reverse] at hwritten
  exact hwritten

/-- The fields that are not empty, as they are written and as they are read. -/
def ExecEvent.members (event : ExecEvent) : List (String × List Char × Json ν) :=
  (if event.pid = 0 then [] else [("pid", (toString event.pid).toList, .number (number event.pid))]) ++
  (if event.stdout = [] then []
    else [("stdout", jsonBytes event.stdout, .string (String.ofList (Base64.encode event.stdout)))]) ++
  (if event.stderr = [] then []
    else [("stderr", jsonBytes event.stderr, .string (String.ofList (Base64.encode event.stderr)))]) ++
  (event.exit.toList.map fun code => ("exit", (toString code).toList, .number (number code))) ++
  (if event.timedOut then [("timedOut", "true".toList, .bool true)] else []) ++
  (if event.error = [] then []
    else [("error", jsonString event.error,
      .string (String.ofList ((runes event.error).map fun r => r.getD Json.replacement)))])

/-- An event, once it is read. -/
def ExecEvent.json (event : ExecEvent) : Json ν := .object ((event.members number).map fun m => (m.1, m.2.2))

theorem ExecEvent.fields_eq (event : ExecEvent) : event.fields = (event.members number).map fun m => (m.1, m.2.1) := by
  simp only [fields, members, List.map_append, List.map_map]
  congr 5
  all_goals
    split <;> rfl

/-- A field is read as what it is, and written without control characters. -/
structure FieldSpec (m : String × List Char × Json ν) : Prop where
  key : ∀ c ∈ m.1.toList, Plain c
  written : Written number m.2.1 m.2.2
  printable : ∀ c ∈ m.2.1, 32 ≤ c.toNat

theorem ExecEvent.members_spec (event : ExecEvent) : ∀ m ∈ event.members number, FieldSpec number m := by
  have hkeys : ∀ key ∈ ["pid", "stdout", "stderr", "exit", "timedOut", "error"], ∀ c ∈ key.toList, Plain c := by
    decide
  have hbytes : ∀ bs, ∀ c ∈ jsonBytes bs, 32 ≤ c.toNat := fun bs => printable_quoted fun c hc =>
    (plain_encode _ c hc).2.2
  have htrue : ∀ c ∈ "true".toList, 32 ≤ c.toNat := by decide
  intro m hm
  simp only [members, List.mem_append] at hm
  rcases hm with ((((hm | hm) | hm) | hm) | hm) | hm
  · split at hm
    · cases hm
    · obtain rfl := List.mem_singleton.mp hm
      exact ⟨hkeys _ (by simp), written_int _, printable_int _⟩
  · split at hm
    · cases hm
    · obtain rfl := List.mem_singleton.mp hm
      exact ⟨hkeys _ (by simp), written_jsonBytes number _, hbytes _⟩
  · split at hm
    · cases hm
    · obtain rfl := List.mem_singleton.mp hm
      exact ⟨hkeys _ (by simp), written_jsonBytes number _, hbytes _⟩
  · obtain ⟨code, -, rfl⟩ := List.mem_map.mp hm
    exact ⟨hkeys _ (by simp), written_int _, printable_int _⟩
  · split at hm
    · obtain rfl := List.mem_singleton.mp hm
      exact ⟨hkeys _ (by simp), written_true, htrue⟩
    · cases hm
  · split at hm
    · cases hm
    · obtain rfl := List.mem_singleton.mp hm
      exact ⟨hkeys _ (by simp), written_jsonString _, printable_jsonString _⟩

/-- Every event is read as what it is. -/
theorem ExecEvent.parse_line (event : ExecEvent) : Json.parse number event.line = some (event.json number) := by
  rw [line, fields_eq number]
  exact Json.parse_object fun m hm => ⟨(event.members_spec number m hm).key, (event.members_spec number m hm).written⟩

theorem ExecEvent.get_json (event : ExecEvent) :
    ((event.json number).get? "stdout" =
      if event.stdout = [] then none else some (.string (String.ofList (Base64.encode event.stdout)))) ∧
    ((event.json number).get? "stderr" =
      if event.stderr = [] then none else some (.string (String.ofList (Base64.encode event.stderr)))) ∧
    ((event.json number).get? "exit" = event.exit.map fun code => .number (number code)) ∧
    ((event.json number).get? "timedOut" = if event.timedOut then some (.bool true) else none) ∧
    ((event.json number).get? "error" = if event.error = [] then none
      else some (.string (String.ofList ((runes event.error).map fun r => r.getD Json.replacement)))) := by
  refine ⟨?_, ?_, ?_, ?_, ?_⟩ <;> cases hexit : event.exit <;>
    simp [json, Json.get?, members, hexit, List.find?_append, apply_ite List.reverse, apply_ite (List.find? _),
      apply_ite (List.map _), apply_ite (Option.map _)]

theorem ExecEvent.printable_line (event : ExecEvent) : ∀ c ∈ event.line, 32 ≤ c.toNat := by
  rw [line, fields_eq]
  refine printable_object fun m hm => ?_
  obtain ⟨m, hmem, rfl⟩ := List.mem_map.mp hm
  obtain ⟨hkey, -, hprintable⟩ := event.members_spec id m hmem
  exact ⟨fun c hc => (hkey c hc).2.2, hprintable⟩

end

end ComputeArmada.Agent
