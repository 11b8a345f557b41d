import ComputeArmada.Agent.Decode
import ComputeArmada.Wire.Listed

/-!
# From a call to a handler

The JSON bodies that the channel sends, as the agent decodes them.

* `torn` : a text that is cut within a character, as the agent reads it;
* `decode_sent` : a body is decoded as what was sent, and no beginning of it is decoded at all;
-/

namespace ComputeArmada.Wire
open Adapter Agent Json Json.Reader

/-! ## Characters that are torn -/

theorem runes_append (cs : List Char) (rest : List UInt8) :
    runes (Utf8.encode cs ++ rest) = cs.map some ++ runes rest := by
  induction cs with
  | nil => rfl
  | cons c cs ih =>
    unfold runes at ih ⊢
    have hspells := decodeRune_spells (Utf8.spells_encodeChar c) (Utf8.encode cs ++ rest)
    obtain ⟨b, bs, hbytes⟩ := List.exists_cons_of_ne_nil (String.utf8EncodeChar_ne_nil (c := c))
    rw [Utf8.encode_cons, List.append_assoc]
    rw [hbytes] at hspells ⊢
    rw [List.cons_append] at hspells ⊢
    rw [runesFrom, hspells]
    dsimp only
    rw [List.length_cons, Nat.add_sub_cancel, runesFrom_skip, ih, List.map_cons, List.cons_append]

/-- The bytes that are still to come are none that begin a character. -/
theorem continuation {c : Char} {p : Utf8.Pending} {bs : List UInt8}
    (h : Utf8.Spells c p bs) {code left lower upper : Nat}
    (hp : p = .some code left lower upper) (hrange : 0x80 ≤ lower ∧ upper ≤ 0xbf) :
    ∀ b ∈ bs, 0x80 ≤ b.toNat ∧ b.toNat ≤ 0xbf := by
  induction h generalizing code left lower upper with
  | last h =>
    subst hp
    unfold Utf8.next at h
    dsimp only at h
    split at h
    · rename_i hb
      exact List.forall_mem_singleton.mpr ⟨hrange.1.trans hb.1, hb.2.trans hrange.2⟩
    · cases h
  | more h _ ih =>
    subst hp
    unfold Utf8.next at h
    dsimp only at h
    split at h
    · rename_i hb
      refine List.forall_mem_cons.mpr ⟨⟨hrange.1.trans hb.1, hb.2.trans hrange.2⟩, ?_⟩
      split at h
      · cases h
      · exact ih (Prod.mk.inj (Option.some.inj h)).1.symm ⟨le_rfl, le_rfl⟩
    · cases h

theorem tail_encodeChar {c : Char} {b : UInt8} {bs : List UInt8} (h : String.utf8EncodeChar c = b :: bs) :
    ∀ b ∈ bs, 0x80 ≤ b.toNat ∧ b.toNat ≤ 0xbf := by
  have hspells := Utf8.spells_encodeChar c
  rw [h] at hspells
  cases hspells with
  | last _ => exact fun b hb => (List.not_mem_nil hb).elim
  | more hb hbs =>
    unfold Utf8.next at hb
    dsimp only at hb
    split at hb
    · cases hb
    split at hb
    · exact continuation hbs (Prod.mk.inj (Option.some.inj hb)).1.symm ⟨le_rfl, le_rfl⟩
    split at hb
    · refine continuation hbs (Prod.mk.inj (Option.some.inj hb)).1.symm ⟨?_, ?_⟩ <;> split <;> decide
    split at hb
    · refine continuation hbs (Prod.mk.inj (Option.some.inj hb)).1.symm ⟨?_, ?_⟩ <;> split <;> decide
    · cases hb

theorem runes_continuation {bs : List UInt8} (h : ∀ b ∈ bs, 0x80 ≤ b.toNat ∧ b.toNat ≤ 0xbf) :
    ∀ r ∈ runes bs, r = none := by
  induction bs with
  | nil => exact fun r hr => (List.not_mem_nil hr).elim
  | cons b bs ih =>
    obtain ⟨hb, hbs⟩ := List.forall_mem_cons.mp h
    have hnext : Utf8.next .none b = none := by
      unfold Utf8.next
      dsimp only
      rw [if_neg (by omega), if_neg (by omega), if_neg (by omega), if_neg (by omega)]
    have hrune : decodeRune .none (b :: bs) = none := by
      rw [decodeRune, hnext]
    unfold runes at ih ⊢
    rw [runesFrom, hrune]
    exact List.forall_mem_cons.mpr ⟨rfl, ih hbs⟩

theorem decodeRune_take {c : Char} {p : Utf8.Pending} {bs : List UInt8} (h : Utf8.Spells c p bs) {n : Nat}
    (hn : n < bs.length) : decodeRune p (bs.take n) = none := by
  induction h generalizing n with
  | last h =>
    obtain rfl : n = 0 := by simpa using hn
    rfl
  | more h _ ih =>
    cases n with
    | zero => rfl
    | succ n =>
      rw [List.take_succ_cons, decodeRune, h]
      dsimp only
      rw [ih (Nat.lt_of_succ_lt_succ hn)]
      rfl

/-- A character without its last bytes is none. -/
theorem runes_take {c : Char} {n : Nat} (hn : n < (String.utf8EncodeChar c).length) :
    ∀ r ∈ runes ((String.utf8EncodeChar c).take n), r = none := by
  cases n with
  | zero => exact fun r hr => (List.not_mem_nil hr).elim
  | succ n =>
    have hrune := decodeRune_take (Utf8.spells_encodeChar c) hn
    obtain ⟨b, bs, hbytes⟩ := List.exists_cons_of_ne_nil (String.utf8EncodeChar_ne_nil (c := c))
    have htail := tail_encodeChar hbytes
    rw [hbytes, List.take_succ_cons] at hrune ⊢
    unfold runes
    rw [runesFrom, hrune]
    exact List.forall_mem_cons.mpr ⟨rfl, runes_continuation fun b hb => htail b (List.mem_of_mem_take hb)⟩

theorem large_of_torn {c : Char} {n : Nat} (hpos : 0 < n) (hn : n < (String.utf8EncodeChar c).length) :
    128 ≤ c.toNat := by
  by_contra hsmall
  have hval : c.val.toNat = c.toNat := rfl
  unfold String.utf8EncodeChar at hn
  simp only [hval] at hn
  rw [if_pos (by omega), List.length_singleton] at hn
  omega

/-- What is cut short is a beginning of the text, with something else behind it where a character was torn. -/
theorem runeText_isPrefix {cs : List Char} {bs : List UInt8} (h : bs <+: Utf8.encode cs) : ∃ part more : List Char,
    runeText bs = part ++ more ∧ (more = [] ∧ bs = Utf8.encode part ∧ part <+: cs ∨
      bs ≠ Utf8.encode cs ∧ (∀ d ∈ more, 128 ≤ d.toNat) ∧ ∃ c, part ++ [c] <+: cs ∧ 128 ≤ c.toNat) := by
  induction cs generalizing bs with
  | nil =>
    obtain rfl : bs = [] := List.prefix_nil.mp h
    exact ⟨[], [], rfl, .inl ⟨rfl, rfl, List.prefix_rfl⟩⟩
  | cons c cs ih =>
    rw [Utf8.encode_cons] at h
    have hone : runeText (String.utf8EncodeChar c) = [c] := by
      have hrunes := runes_append [c] []
      rw [Utf8.encode, List.flatMap_singleton, List.append_nil] at hrunes
      rw [runeText, hrunes]
      rfl
    rcases List.prefix_or_prefix_of_prefix h (List.prefix_append _ _) with hc | ⟨bs', rfl⟩
    · by_cases hlength : bs.length < (String.utf8EncodeChar c).length
      · have htake := List.prefix_iff_eq_take.mp hc
        by_cases hempty : bs = []
        · subst hempty
          exact ⟨[], [], rfl, .inl ⟨rfl, rfl, List.nil_prefix⟩⟩
        · have hpos : 0 < bs.length := List.length_pos_iff.mpr hempty
          refine ⟨[], runeText bs, rfl, .inr ⟨?_, ?_, c, ?_, large_of_torn hpos hlength⟩⟩
          · intro heq
            have hlong := congrArg List.length heq
            rw [Utf8.encode_cons, List.length_append] at hlong
            omega
          · intro d hd
            obtain ⟨r, hr, rfl⟩ := List.mem_map.mp hd
            rw [htake] at hr
            rw [runes_take hlength r hr]
            decide
          · exact List.cons_prefix_cons.mpr ⟨rfl, List.nil_prefix⟩
      · have hwhole := hc.eq_of_length_le (not_lt.mp hlength)
        refine ⟨[c], [], by rw [hwhole, hone]; rfl, .inl ⟨rfl, ?_, by simp⟩⟩
        rw [hwhole, Utf8.encode, List.flatMap_singleton]
    · have htext : runeText (String.utf8EncodeChar c ++ bs') = c :: runeText bs' := by
        have hrunes := runes_append [c] bs'
        rw [Utf8.encode, List.flatMap_singleton] at hrunes
        rw [runeText, hrunes]
        rfl
      obtain ⟨part, more, hpart, hcut⟩ := ih ((List.prefix_append_right_inj _).mp h)
      refine ⟨c :: part, more, by rw [htext, hpart]; rfl, ?_⟩
      rcases hcut with ⟨rfl, rfl, hprefix⟩ | ⟨hne, hmore, d, hprefix, hd⟩
      · exact .inl ⟨rfl, rfl, List.cons_prefix_cons.mpr ⟨rfl, hprefix⟩⟩
      · refine .inr ⟨?_, hmore, d, List.cons_prefix_cons.mpr ⟨rfl, hprefix⟩, hd⟩
        rw [Utf8.encode_cons]
        exact fun heq => hne (List.append_cancel_left heq)

/-! ## Values as they are sent -/

theorem stands_jsonEscape (c : Char) : Stands (Js.jsonEscape c) c := by
  have hsmall : ∀ n < 32, (∃ d, Js.jsonEscape (Char.ofNat n) = ['\\', d] ∧ escaped d = some (Char.ofNat n) ∧ d ≠ 'u') ∨
      Js.jsonEscape (Char.ofNat n) = "\\u00".toList ++ [Nat.digitChar (n / 16), Nat.digitChar (n % 16)] := by
    intro n hn
    have hall : ∀ n < 32, (['b', 't', 'n', 'f', 'r'].any fun d =>
        Js.jsonEscape (Char.ofNat n) = ['\\', d] ∧ escaped d = some (Char.ofNat n)) = true ∨
        Js.jsonEscape (Char.ofNat n) = "\\u00".toList ++ [Nat.digitChar (n / 16), Nat.digitChar (n % 16)] := by decide
    refine (hall n hn).imp_left fun hany => ?_
    obtain ⟨d, hd, hboth⟩ := List.any_eq_true.mp hany
    have hu : ∀ d ∈ ['b', 't', 'n', 'f', 'r'], d ≠ 'u' := by decide
    obtain ⟨htext, hread⟩ := of_decide_eq_true hboth
    exact ⟨d, htext, hread, hu d hd⟩
  by_cases hn : c.toNat < 32
  · have hc := hsmall c.toNat hn
    rw [Char.ofNat_toNat] at hc
    rcases hc with ⟨d, htext, hread, hu⟩ | htext
    · rw [htext]
      exact stands_escaped hread hu
    · have hunit := stands_unit (a := 0) (b := 0) (c := c.toNat / 16) (d := c.toNat % 16) (by decide) (by decide)
        (by omega) (by omega) (by omega)
      have hcode : ((0 * 16 + 0) * 16 + c.toNat / 16) * 16 + c.toNat % 16 = c.toNat := by omega
      rw [hcode, Char.ofNat_toNat] at hunit
      rw [htext]
      exact hunit
  · by_cases hquote : c.toNat = 34 ∨ c.toNat = 92
    · rcases hquote with hquote | hslash
      · rw [eq_ofNat hquote]
        exact stands_escaped (by decide) (by decide)
      · rw [eq_ofNat hslash]
        exact stands_escaped (by decide) (by decide)
    · have hplain : Js.jsonEscape c = [c] := by
        unfold Js.jsonEscape
        dsimp only
        rw [if_neg (by omega), if_neg (by omega), if_neg (by omega), if_neg (by omega), if_neg (by omega),
          if_neg (by omega), if_neg (by omega), if_neg hn]
      rw [hplain]
      refine stands_plain (plain_of_lt (by omega) ?_)
      rintro (rfl | rfl)
      · exact hquote (.inl rfl)
      · exact hquote (.inr rfl)

theorem quoted_toList (s : String) : (Js.quoted s).toList = '"' :: (s.toList.flatMap Js.jsonEscape ++ ['"']) := by
  simp [Js.quoted]

section
variable {depth : Nat}

theorem spelled_quoted (s : String) : Spelled depth 0 (Js.quoted s).toList (.string s) := by
  have hread := read_flatMap (g := id) (fun c (_ : c ∈ s.toList) => stands_jsonEscape c) []
  rw [List.map_id, List.append_nil] at hread
  have hspelled := @spelled_string depth _ _ hread
  rw [List.reverse_reverse, String.ofList_toList] at hspelled
  rw [quoted_toList]
  exact hspelled

theorem spelled_strings (strings : List String) :
    Spelled depth 1 (stringsText strings) (.array (strings.map .string)) := by
  have harray := @spelled_array depth 0 (strings.map fun s => ((Js.quoted s).toList, .string s)) ?_ ?_
  · simp only [List.map_map, Function.comp_def] at harray
    exact harray
  · intro v hv
    obtain ⟨s, -, rfl⟩ := List.mem_map.mp hv
    dsimp only
    exact spelled_quoted s
  · intro v hv
    obtain ⟨s, -, rfl⟩ := List.mem_map.mp hv
    dsimp only
    rw [quoted_toList]
    exact ⟨'"', _, rfl, by decide, by decide⟩

theorem spelled_mono {n m : Nat} {text : List Char} {v : Value} (h : Spelled depth n text v) (hle : n ≤ m) :
    Spelled depth m text v :=
  fun stack c rest hstack => h stack c rest (by omega)

end

/-! ## Bodies -/

/-- Members of a body, with the text and the value of each. -/
def Sent (ms : List (String × List Char × Value)) : Prop :=
  ∀ m ∈ ms, (∀ c ∈ m.1.toList, Plain c) ∧ Spelled maxNestingDepth 1 m.2.1 m.2.2

section
variable {ms : List (String × List Char × Value)} {part : List UInt8}

theorem first_sent (hms : Sent ms) (hpart : part <+: jsonBody (ms.map fun m => (m.1, m.2.1))) :
    Json.first maxNestingDepth (runeText part) =
      if part = jsonBody (ms.map fun m => (m.1, m.2.1)) then some
        (.object (ms.map fun m => (m.1, m.2.2))) else none := by
  have hdepth : 1 < maxNestingDepth := by decide
  unfold jsonBody at hpart ⊢
  obtain ⟨text, more, hread, ⟨rfl, rfl, htext⟩ | ⟨hne, hmore, c, htext, hc⟩⟩ := runeText_isPrefix hpart
  · rw [hread]
    by_cases hwhole : text = objectText (ms.map fun m => (m.1, m.2.1))
    · rw [if_pos (by rw [hwhole]), hwhole]
      exact first_object hms hdepth []
    · have hshort : Utf8.encode text ≠ Utf8.encode (objectText (ms.map fun m => (m.1, m.2.1))) := by
        intro heq
        have hdecode := congrArg Utf8.decode heq
        rw [Utf8.decode_encode, Utf8.decode_encode] at hdecode
        exact hwhole hdecode
      rw [if_neg hshort, List.append_nil]
      exact first_isPrefix hms hdepth htext hwhole
  · rw [if_neg hne, hread]
    exact first_torn hms hdepth htext hc hmore

theorem take_eq_iff {body : List UInt8} (hpart : part <+: body) (n : Nat) :
    part.take n = body ↔ part = body ∧ body.length ≤ n := by
  constructor
  · intro heq
    have hlength := congrArg List.length heq
    rw [List.length_take] at hlength
    exact ⟨hpart.eq_of_length_le (by omega), by omega⟩
  · rintro ⟨rfl, hlength⟩
    exact List.take_of_length_le hlength

section
variable {ρ : Type} {fields : List (Agent.Field ρ)} {zero req : ρ}

/-- What is sent is decoded where all of it comes, and it is not too long; no part of it is decoded as anything. -/
theorem decode_sent (hms : Sent ms)
    (hreq : decodeStruct fields zero (.object (ms.map fun m => (m.1, m.2.2))) = some req)
    (hpart : part <+: jsonBody (ms.map fun m => (m.1, m.2.1))) :
    decode fields zero part = if part = jsonBody (ms.map fun m => (m.1, m.2.1)) ∧
      (jsonBody (ms.map fun m => (m.1, m.2.1))).length ≤ maxRequestBytes then some req else none := by
  have hwhole := take_eq_iff hpart maxRequestBytes
  rw [decode, first_sent hms ((List.take_prefix _ _).trans hpart)]
  by_cases htake : part.take maxRequestBytes = jsonBody (ms.map fun m => (m.1, m.2.1))
  · rw [if_pos htake, if_pos (hwhole.mp htake)]
    exact hreq
  · rw [if_neg htake, if_neg (mt hwhole.mpr htake)]
    rfl

theorem decoded_sent (decodeError : List UInt8 → String) (hms : Sent ms)
    (hreq : decodeStruct fields zero (.object (ms.map fun m => (m.1, m.2.2))) = some req)
    (hpart : part <+: jsonBody (ms.map fun m => (m.1, m.2.1))) :
    decoded decodeError fields zero part = if part = jsonBody (ms.map fun m => (m.1, m.2.1)) ∧
      (jsonBody (ms.map fun m => (m.1, m.2.1))).length ≤ maxRequestBytes then .ok req
      else .error (writeError 400 (bytes ("bad request: " ++ decodeError part))) := by
  rw [decoded, decode_sent hms hreq hpart]
  by_cases hwhole : part = jsonBody (ms.map fun m => (m.1, m.2.1)) ∧
      (jsonBody (ms.map fun m => (m.1, m.2.1))).length ≤ maxRequestBytes
  · rw [if_pos hwhole, if_pos hwhole]
  · rw [if_neg hwhole, if_neg hwhole]

end

end

/-! ### The members of a body -/

theorem plain_keys : ∀ key ∈ ["cmd", "stdin", "timeoutMs", "cwd", "pid", "signal", "port", "mode", "path"],
    ∀ c ∈ key.toList, Plain c := by decide

theorem sent_mem {key : String} {n : Nat} {text : List Char} {v : Value} (hkey : ∀ c ∈ key.toList, Plain c)
    (h : Spelled maxNestingDepth n text v) (hn : n ≤ 1) :
    (∀ c ∈ ((key, text, v) : String × List Char × Value).1.toList, Plain c) ∧ Spelled maxNestingDepth 1
      ((key, text, v) : String × List Char × Value).2.1 ((key, text, v) : String × List Char × Value).2.2 :=
  ⟨hkey, spelled_mono h hn⟩

theorem decodeCells_strings (strings : List String) : decodeCells [] (strings.map .string) = some strings := by
  induction strings with
  | nil => rfl
  | cons s strings ih =>
    rw [List.map_cons, decodeCells, List.tail_nil, ih]
    rfl

theorem decodeSlice_strings (strings : List String) :
    decodeSlice .empty (.array (strings.map .string)) = some { cells := strings, length := strings.length } := by
  match strings with
  | [] => rfl
  | s :: strings =>
    rw [List.map_cons, decodeSlice]
    · have hcells := decodeCells_strings (s :: strings)
      rw [List.map_cons] at hcells
      rw [Slice.empty, hcells, Option.map_some, List.length_cons, List.length_map, List.length_cons]
    · intro h
      cases h

theorem strings_mk (strings : List String) : Slice.strings { cells := strings, length := strings.length } = strings :=
  List.take_length

theorem decodeInt_nat {old : Int} {n : Nat} (hn : n < 2 ^ 53) :
    decodeInt old (.number (some (n : Int))) = some (n : Int) := by
  rw [decodeInt, if_pos (by omega)]

section
variable {ρ α : Type} {fields : List (Agent.Field ρ)} {r r' : ρ}

theorem decode_append {ms ms' : List (String × Value)} (between : ρ)
    (h : ms.foldlM (decodeMember fields) r = some between)
    (h' : ms'.foldlM (decodeMember fields) between = some r') :
    (ms ++ ms').foldlM (decodeMember fields) r = some r' := by
  rw [List.foldlM_append, h]
  exact h'

theorem decode_single {m : String × Value} (h : decodeMember fields r m = some r') :
    [m].foldlM (decodeMember fields) r = some r' := by
  rw [List.foldlM_cons, h]
  rfl

/-- A member that is sent only where there is one. -/
theorem decode_optional {o : Option α} {member : α → String × Value}
    (hsome : ∀ a ∈ o, decodeMember fields r (member a) = some r') (hnone : o = none → r = r') :
    (o.toList.map member).foldlM (decodeMember fields) r = some r' := by
  cases o with
  | none => exact congrArg some (hnone rfl)
  | some a => exact decode_single (hsome a rfl)

end

/-! ## Commands -/

/-- The members of `run`. -/
def runMembers (command : List String) (stdin : Option (List UInt8)) (timeoutMs : Option Nat) :
    List (String × List Char × Value) :=
  [("cmd", stringsText command, Json.array (command.map .string))] ++
    (stdin.toList.map fun stdin => ("stdin", (Js.quoted (String.ofList (Base64.encode stdin))).toList,
      Json.string (String.ofList (Base64.encode stdin)))) ++
    timeoutMs.toList.map fun timeoutMs => ("timeoutMs", natText timeoutMs, Json.number (some (timeoutMs : Int)))

theorem sent_runMembers (command : List String) (stdin : Option (List UInt8)) (timeoutMs : Option Nat) :
    Sent (runMembers command stdin timeoutMs) := by
  intro m hm
  simp only [runMembers, List.mem_append, List.mem_singleton, List.mem_map] at hm
  rcases hm with (rfl | ⟨stdin, -, rfl⟩) | ⟨timeoutMs, -, rfl⟩
  · exact sent_mem (plain_keys _ (by simp)) (spelled_strings command) (le_refl 1)
  · exact sent_mem (plain_keys _ (by simp)) (spelled_quoted _) (Nat.zero_le 1)
  · exact sent_mem (plain_keys _ (by simp)) (spelled_nat timeoutMs) (Nat.zero_le 1)

theorem body_run (endpoint : AgentEndpoint) (command : List String) (stdin : Option (List UInt8))
    (timeoutMs : Option Nat) :
    (received (AgentChannel.pipedRequest endpoint command stdin timeoutMs)).body =
      jsonBody ((runMembers command stdin timeoutMs).map fun m => (m.1, m.2.1)) := by
  cases stdin <;> cases timeoutMs <;>
    simp [received, AgentChannel.pipedRequest, AgentChannel.fetched, runMembers]

theorem decode_cmd (r : ExecRequest) {v : Value} {cmd : Slice} (h : decodeSlice r.cmd v = some cmd) :
    decodeMember ExecRequest.fields r ("cmd", v) = some { r with cmd } := by
  simp [decodeMember, fieldOf, ExecRequest.fields, h]

theorem decode_stdin (r : ExecRequest) {v : Value} {stdin : Option String} (h : decodePointer v = some stdin) :
    decodeMember ExecRequest.fields r ("stdin", v) = some { r with stdin } := by
  simp [decodeMember, fieldOf, ExecRequest.fields, h]

theorem decode_timeoutMs (r : ExecRequest) {v : Value} {timeoutMs : Int}
    (h : decodeInt r.timeoutMs v = some timeoutMs) :
    decodeMember ExecRequest.fields r ("timeoutMs", v) = some { r with timeoutMs } := by
  simp [decodeMember, fieldOf, ExecRequest.fields, h]

/-- The request of `run`, as the agent has it. -/
def ranRequest (command : List String) (stdin : Option (List UInt8)) (timeoutMs : Option Nat) : ExecRequest :=
  { cmd := { cells := command, length := command.length }
    stdin := stdin.map fun stdin => String.ofList (Base64.encode stdin)
    timeoutMs := (timeoutMs.getD 0 : Nat) }

theorem decode_run (command : List String) (stdin : Option (List UInt8)) {timeoutMs : Option Nat}
    (htimeout : ∀ ms ∈ timeoutMs, ms < 2 ^ 53) :
    decodeStruct ExecRequest.fields .zero (.object ((runMembers command stdin timeoutMs).map fun m => (m.1, m.2.2))) =
      some (ranRequest command stdin timeoutMs) := by
  rw [decodeStruct, runMembers, List.map_append, List.map_append, List.map_map, List.map_map, List.map_singleton]
  refine decode_append (ranRequest command stdin none) (decode_append (ranRequest command none none)
    (decode_single (decode_cmd _ (decodeSlice_strings command))) (decode_optional ?_ ?_)) (decode_optional ?_ ?_)
  · rintro stdin rfl
    exact decode_stdin _ rfl
  · rintro rfl
    rfl
  · rintro ms rfl
    exact decode_timeoutMs _ (decodeInt_nat (htimeout ms rfl))
  · rintro rfl
    rfl

/-- **A command is run as it was sent, or not at all.** Whatever is cut from the end of its request, no part of it is
taken for another command. -/
theorem exec_asked (decodeError : List UInt8 → String) (base64Error : String → String) (endpoint : AgentEndpoint)
    (command : List String) (stdin : Option (List UInt8)) (timeoutMs : Option Nat)
    (htimeout : ∀ ms ∈ timeoutMs, ms < 2 ^ 53) (part : List UInt8)
    (hpart : part <+: (received (AgentChannel.pipedRequest endpoint command stdin timeoutMs)).body) :
    checkExec decodeError base64Error part =
      if part = (received (AgentChannel.pipedRequest endpoint command stdin timeoutMs)).body ∧
          (received (AgentChannel.pipedRequest endpoint command stdin timeoutMs)).body.length ≤ maxRequestBytes then
        (commandOf command).map fun command => (command, stdin, ((timeoutMs.getD 0 : Nat) : Int))
      else .error (writeError 400 (bytes ("bad request: " ++ decodeError part))) := by
  rw [body_run] at hpart ⊢
  rw [checkExec, decoded_sent decodeError (sent_runMembers command stdin timeoutMs)
    (decode_run command stdin htimeout) hpart]
  split
  · have hcommand : (ranRequest command stdin timeoutMs).cmd.strings = command := strings_mk command
    dsimp only [bind, Except.bind]
    rw [hcommand]
    cases commandOf command with
    | error response => rfl
    | ok command =>
      cases stdin with
      | none => rfl
      | some stdin =>
        have hstdin : Base64.strict (String.ofList (Base64.encode stdin)).toList = some stdin := by
          rw [String.toList_ofList, Base64.strict_encode]
        dsimp only [ranRequest, Option.map_some]
        rw [hstdin]
        rfl
  · rfl

/-- A command that is given two bytes. -/
theorem exec_asked_piped :
    checkExec (fun _ => "EOF") id (received (AgentChannel.pipedRequest agentAt ["cat"] (some [104, 105])
      (some 100))).body =
      .ok ({ program := "cat", arguments := [] }, some [104, 105], 100) := by
  rw [exec_asked (fun _ => "EOF") id agentAt ["cat"] (some [104, 105]) (some 100) (by decide) _ List.prefix_rfl,
    if_pos ⟨rfl, by decide +kernel⟩]
  rfl

/-! ## Processes -/

/-- A whole number, as `JSON.stringify` and a template print it. -/
def wholeNumber (n : Nat) : Number := { value := some n, text := toString n }

def startMembers (command : List String) (cwd : Option String) : List (String × List Char × Value) :=
  [("cmd", stringsText command, Json.array (command.map .string))] ++
    cwd.toList.map fun cwd => ("cwd", (Js.quoted cwd).toList, Json.string cwd)

theorem sent_startMembers (command : List String) (cwd : Option String) : Sent (startMembers command cwd) := by
  intro m hm
  simp only [startMembers, List.mem_append, List.mem_singleton, List.mem_map] at hm
  rcases hm with rfl | ⟨cwd, -, rfl⟩
  · exact sent_mem (plain_keys _ (by simp)) (spelled_strings command) (le_refl 1)
  · exact sent_mem (plain_keys _ (by simp)) (spelled_quoted cwd) (Nat.zero_le 1)

theorem body_start (endpoint : AgentEndpoint) (command : List String) (cwd : Option String) :
    (received (AgentChannel.startProcessRequest endpoint command cwd)).body =
      jsonBody ((startMembers command cwd).map fun m => (m.1, m.2.1)) := by
  cases cwd <;> simp [received, AgentChannel.startProcessRequest, AgentChannel.fetched, startMembers]

/-- The request of `startProcess`, as the agent has it. -/
def startedRequest (command : List String) (cwd : Option String) : StartProcessRequest :=
  { cmd := { cells := command, length := command.length }, cwd := cwd.getD "" }

theorem decode_start (command : List String) (cwd : Option String) :
    decodeStruct StartProcessRequest.fields .zero (.object ((startMembers command cwd).map fun m => (m.1, m.2.2))) =
      some (startedRequest command cwd) := by
  rw [decodeStruct, startMembers, List.map_append, List.map_map, List.map_singleton]
  refine decode_append (startedRequest command none) (decode_single ?_) (decode_optional ?_ ?_)
  · exact congrArg (Option.map fun cmd : Slice => ({ StartProcessRequest.zero with cmd } : StartProcessRequest))
      (decodeSlice_strings command)
  · rintro cwd rfl
    rfl
  · rintro rfl
    rfl

theorem start_asked (decodeError : List UInt8 → String) (endpoint : AgentEndpoint) (command : List String)
    (cwd : Option String) (part : List UInt8)
    (hpart : part <+: (received (AgentChannel.startProcessRequest endpoint command cwd)).body) :
    checkStart decodeError part =
      if part = (received (AgentChannel.startProcessRequest endpoint command cwd)).body ∧
          (received (AgentChannel.startProcessRequest endpoint command cwd)).body.length ≤ maxRequestBytes then
        (commandOf command).map fun command => (command, cwd.getD "")
      else .error (writeError 400 (bytes ("bad request: " ++ decodeError part))) := by
  rw [body_start] at hpart ⊢
  rw [checkStart, decoded_sent decodeError (sent_startMembers command cwd) (decode_start command cwd) hpart]
  split
  · have hcommand : (startedRequest command cwd).cmd.strings = command := strings_mk command
    dsimp only [bind, Except.bind]
    rw [hcommand]
    cases commandOf command <;> rfl
  · rfl

theorem start_asked_sleep :
    checkStart (fun _ => "EOF") (received (AgentChannel.startProcessRequest agentAt ["sleep", "1"]
      (some "/tmp"))).body =
      .ok ({ program := "sleep", arguments := ["1"] }, "/tmp") := by
  rw [start_asked (fun _ => "EOF") agentAt ["sleep", "1"] (some "/tmp") _ List.prefix_rfl,
    if_pos ⟨rfl, by decide +kernel⟩]
  rfl

def signalMembers (pid : Nat) (signal : String) : List (String × List Char × Value) :=
  [("pid", natText pid, Json.number (some (pid : Int)))] ++ [("signal", (Js.quoted signal).toList, Json.string signal)]

theorem sent_signalMembers (pid : Nat) (signal : String) : Sent (signalMembers pid signal) := by
  intro m hm
  simp only [signalMembers, List.mem_append, List.mem_singleton] at hm
  rcases hm with rfl | rfl
  · exact sent_mem (plain_keys _ (by simp)) (spelled_nat pid) (Nat.zero_le 1)
  · exact sent_mem (plain_keys _ (by simp)) (spelled_quoted signal) (Nat.zero_le 1)

theorem body_signal (endpoint : AgentEndpoint) (pid : Nat) (signal : String) :
    (received (AgentChannel.signalProcessRequest endpoint (wholeNumber pid) signal)).body =
      jsonBody ((signalMembers pid signal).map fun m => (m.1, m.2.1)) := by
  simp [received, AgentChannel.signalProcessRequest, AgentChannel.fetched, signalMembers, wholeNumber, natText]

theorem decode_signalled (r : SignalRequest) {v : Value} {pid : Int} (h : decodeInt r.pid v = some pid) :
    decodeMember SignalRequest.fields r ("pid", v) = some { r with pid } := by
  simp [decodeMember, fieldOf, SignalRequest.fields, h]

theorem decode_signal {pid : Nat} (hpid : pid < 2 ^ 53) (signal : String) :
    decodeStruct SignalRequest.fields .zero (.object ((signalMembers pid signal).map fun m => (m.1, m.2.2))) =
      some { pid := pid, signal } := by
  rw [decodeStruct, signalMembers, List.map_append, List.map_singleton, List.map_singleton]
  refine decode_append { pid := pid, signal := "" } (decode_single ?_) (decode_single rfl)
  exact decode_signalled .zero (decodeInt_nat hpid)

theorem signal_asked (decodeError : List UInt8 → String) (known : Int → Bool) (endpoint : AgentEndpoint) {pid : Nat}
    (hpid : pid < 2 ^ 53) (signal : String) (part : List UInt8)
    (hpart : part <+: (received (AgentChannel.signalProcessRequest endpoint (wholeNumber pid) signal)).body) :
    checkSignal decodeError known part =
      if part = (received (AgentChannel.signalProcessRequest endpoint (wholeNumber pid) signal)).body ∧
          (received (AgentChannel.signalProcessRequest endpoint (wholeNumber pid) signal)).body.length ≤
          maxRequestBytes then
        findSignal known { pid := pid, signal }
      else .error (writeError 400 (bytes ("bad request: " ++ decodeError part))) := by
  rw [body_signal] at hpart ⊢
  rw [checkSignal, decoded_sent decodeError (sent_signalMembers pid signal) (decode_signal hpid signal) hpart]
  split <;> rfl

/-- What `waitForPort` asks for, as the agent has it. -/
def waitedRequest (port timeoutMs : Nat) (pid : Option Nat) (probe : Option PortProbe) : WaitPortRequest :=
  { port := port, timeoutMs := timeoutMs, pid := (pid.getD 0 : Nat)
    mode := ((probe.bind (·.mode)).map ProbeMode.text).getD "", path := (probe.bind (·.path)).getD "" }

def waitMembers (port timeoutMs : Nat) (pid : Option Nat) (probe : Option PortProbe) :
    List (String × List Char × Value) :=
  [("port", natText port, Json.number (some (port : Int)))] ++
  [("timeoutMs", natText timeoutMs, Json.number (some (timeoutMs : Int)))] ++
    (pid.toList.map fun pid => ("pid", natText pid, Json.number (some (pid : Int)))) ++
    ((probe.bind (·.mode)).toList.map fun mode => ("mode", (Js.quoted mode.text).toList, Json.string mode.text)) ++
    ((probe.bind (·.path)).toList.map fun path => ("path", (Js.quoted path).toList, Json.string path))

theorem sent_waitMembers (port timeoutMs : Nat) (pid : Option Nat) (probe : Option PortProbe) :
    Sent (waitMembers port timeoutMs pid probe) := by
  intro m hm
  simp only [waitMembers, List.mem_append, List.mem_singleton, List.mem_map] at hm
  rcases hm with (((rfl | rfl) | ⟨pid, -, rfl⟩) | ⟨mode, -, rfl⟩) | ⟨path, -, rfl⟩
  · exact sent_mem (plain_keys _ (by simp)) (spelled_nat port) (Nat.zero_le 1)
  · exact sent_mem (plain_keys _ (by simp)) (spelled_nat timeoutMs) (Nat.zero_le 1)
  · exact sent_mem (plain_keys _ (by simp)) (spelled_nat pid) (Nat.zero_le 1)
  · exact sent_mem (plain_keys _ (by simp)) (spelled_quoted mode.text) (Nat.zero_le 1)
  · exact sent_mem (plain_keys _ (by simp)) (spelled_quoted path) (Nat.zero_le 1)

theorem body_wait (endpoint : AgentEndpoint) (port timeoutMs : Nat) (pid : Option Nat) (probe : Option PortProbe) :
    (received (AgentChannel.waitForPortRequest endpoint port timeoutMs (pid.map wholeNumber) probe)).body =
      jsonBody ((waitMembers port timeoutMs pid probe).map fun m => (m.1, m.2.1)) := by
  have hpid : ((pid.map wholeNumber).toList.map fun pid => ("pid", pid.text.toList)) =
      pid.toList.map fun pid => ("pid", natText pid) := by
    cases pid <;> rfl
  unfold waitMembers
  simp only [received, AgentChannel.waitForPortRequest, AgentChannel.fetched, Option.getD_some, List.map_append,
    List.map_map, List.map_cons, List.map_nil, Function.comp_def, hpid, List.singleton_append]

theorem decode_port (r : WaitPortRequest) {v : Value} {port : Int} (h : decodeInt r.port v = some port) :
    decodeMember WaitPortRequest.fields r ("port", v) = some { r with port } := by
  simp [decodeMember, fieldOf, WaitPortRequest.fields, h]

theorem decode_deadline (r : WaitPortRequest) {v : Value} {timeoutMs : Int}
    (h : decodeInt r.timeoutMs v = some timeoutMs) :
    decodeMember WaitPortRequest.fields r ("timeoutMs", v) = some { r with timeoutMs } := by
  simp [decodeMember, fieldOf, WaitPortRequest.fields, h]

theorem decode_watched (r : WaitPortRequest) {v : Value} {pid : Int} (h : decodeInt r.pid v = some pid) :
    decodeMember WaitPortRequest.fields r ("pid", v) = some { r with pid } := by
  simp [decodeMember, fieldOf, WaitPortRequest.fields, h]

theorem decode_wait {port timeoutMs : Nat} {pid : Option Nat} (probe : Option PortProbe) (hport : port < 2 ^ 53)
    (htimeout : timeoutMs < 2 ^ 53) (hpid : ∀ n ∈ pid, n < 2 ^ 53) :
    decodeStruct WaitPortRequest.fields .zero
        (.object ((waitMembers port timeoutMs pid probe).map fun m => (m.1, m.2.2))) =
      some (waitedRequest port timeoutMs pid probe) := by
  rw [decodeStruct, waitMembers, List.map_append, List.map_append, List.map_append, List.map_append, List.map_map,
    List.map_map, List.map_map, List.map_singleton, List.map_singleton]
  refine decode_append { waitedRequest port timeoutMs pid probe with path := "" }
    (decode_append (waitedRequest port timeoutMs pid none)
      (decode_append (waitedRequest port timeoutMs none none)
        (decode_append (waitedRequest port 0 none none) (decode_single (decode_port .zero (decodeInt_nat hport)))
          (decode_single (decode_deadline _ (decodeInt_nat htimeout))))
        (decode_optional ?_ ?_)) (decode_optional ?_ ?_)) (decode_optional ?_ ?_)
  · rintro pid rfl
    exact decode_watched _ (decodeInt_nat (hpid pid rfl))
  · rintro rfl
    rfl
  · intro mode hmode
    have hprobe : probe.bind (·.mode) = some mode := hmode
    simp only [waitedRequest, hprobe]
    rfl
  · intro hmode
    simp only [waitedRequest, hmode]
    rfl
  · intro path hpath
    have hprobe : probe.bind (·.path) = some path := hpath
    simp only [waitedRequest, hprobe]
    rfl
  · intro hpath
    simp only [waitedRequest, hpath]
    rfl

theorem wait_asked (decodeError : List UInt8 → String) (parseError : String → Option String) (known : Int → Bool)
    (endpoint : AgentEndpoint) (port timeoutMs : Nat) (pid : Option Nat) (probe : Option PortProbe)
    (hport : port < 2 ^ 53)
    (htimeout : timeoutMs < 2 ^ 53) (hpid : ∀ n ∈ pid, n < 2 ^ 53) (part : List UInt8) (hpart : part <+:
      (received (AgentChannel.waitForPortRequest endpoint port timeoutMs (pid.map wholeNumber) probe)).body) :
    checkWait decodeError parseError known part =
      if part = (received (AgentChannel.waitForPortRequest endpoint port timeoutMs (pid.map wholeNumber) probe)).body ∧
          (received (AgentChannel.waitForPortRequest endpoint port timeoutMs (pid.map wholeNumber) probe)).body.length ≤
            maxRequestBytes then
        checkWaitPort parseError known (waitedRequest port timeoutMs pid probe)
      else .error (writeError 400 (bytes ("bad request: " ++ decodeError part))) := by
  rw [body_wait] at hpart ⊢
  rw [checkWait, decoded_sent decodeError (sent_waitMembers port timeoutMs pid probe)
    (decode_wait probe hport htimeout hpid) hpart]
  split <;> rfl

theorem wait_asked_http :
    checkWait (fun _ => "EOF") (fun _ => none) (fun pid => pid = 7)
      (received (AgentChannel.waitForPortRequest agentAt 2718 1000 (some (wholeNumber 7))
        (some { mode := some .http, path := some "/health" }))).body =
      .ok { port := 2718, timeoutMs := 1000, pid := 7, mode := "http", path := "/health" } := by
  have hasked := wait_asked (fun _ => "EOF") (fun _ => none) (fun pid => pid = 7) agentAt 2718 1000
    (some 7) (some { mode := some .http, path := some "/health" }) (by decide) (by decide) (by decide) _ List.prefix_rfl
  rw [if_pos ⟨rfl, by decide +kernel⟩] at hasked
  exact hasked.trans rfl

end ComputeArmada.Wire
