import ComputeArmada.Agent.Bounded
import ComputeArmada.Wire.Listed
import ComputeArmada.Wire.Timers

/-!
# A bounded read

From a budget to the bytes that the caller is told of, or that there is no such file.

* `Fetches` : what `fetch` has of a response, or of a connection that fails;
* `bounded_budget` : which budgets are sent, and that the agent takes them;
* `readFileBounded_bytes`, `readFileBounded_absent` : what the answer of the agent says of the files of the pod;
* `BoundedRead`, `bounded_read` : all of it together.
-/

namespace ComputeArmada.Wire
open Adapter Agent Async Paths

/-! ## The request -/

section
variable {endpoint : AgentEndpoint} {path : String} {maxBytes timeoutMs : Nat}

theorem unreserved_digit {c : Char} (h : c.isDigit = true) : Js.isUnreserved c = true := by
  unfold Js.isUnreserved Char.isAlphanum
  rw [h, Bool.or_true]
  simp

theorem escapes_toString (n : Nat) : Escapes (Utf8.encode (urlQuery (toString n).toList)) (bytes (toString n)) := by
  have hchars : (toString n).toList.flatMap (fun c => if Js.isUnreserved c then [c]
      else (String.singleton c).toUTF8.toList.flatMap fun b =>
        ['%', Js.hexDigit (b.toNat / 16), Js.hexDigit (b.toNat % 16)]) =
      (toString n).toList := by
    rw [List.flatMap_congr fun c hc => if_pos (unreserved_digit (digits_toString n c hc)), List.flatMap_singleton']
  have h := escapes_component (toString n)
  rwa [Js.encodeURIComponent, hchars, String.ofList_toList] at h

theorem escapes_maxBytes : Escapes (bytes "maxBytes") (bytes "maxBytes") := escapes_same (by decide)

theorem escapes_timeoutMs : Escapes (bytes "timeoutMs") (bytes "timeoutMs") := escapes_same (by decide)

theorem parse_bounded (endpoint : AgentEndpoint) (path : String) (maxBytes timeoutMs : Nat) :
    parseQuery (received (AgentChannel.readFileBoundedRequest endpoint path maxBytes timeoutMs)).rawQuery =
      [(bytes "path", bytes path), (bytes "maxBytes", bytes (toString maxBytes)),
        (bytes "timeoutMs", bytes (toString timeoutMs))] := by
  have hsigns : Utf8.encode (urlQuery "&maxBytes=".toList) = 38 :: (bytes "maxBytes" ++ [61]) ∧
      Utf8.encode (urlQuery "&timeoutMs=".toList) = 38 :: (bytes "timeoutMs" ++ [61]) ∧
      Utf8.encode (urlQuery "path=".toList) = bytes "path" ++ [61] := by decide
  rw [(received_path boundedPath_eq (by decide)).2]
  simp only [String.toList_append, urlQuery_append, Utf8.encode_append, hsigns.1, hsigns.2.1, hsigns.2.2,
    List.append_assoc, List.cons_append, List.nil_append]
  rw [parseQuery_cons escapes_path (by decide) (escapes_component path),
    parseQuery_cons escapes_maxBytes (by decide) (escapes_toString maxBytes),
    parseQuery_single escapes_timeoutMs (by decide) (escapes_toString timeoutMs)]

theorem query_bounded (endpoint : AgentEndpoint) (path : String) (maxBytes timeoutMs : Nat) :
    let r := received (AgentChannel.readFileBoundedRequest endpoint path maxBytes timeoutMs)
    r.query "path" = bytes path ∧ r.query "maxBytes" = bytes (toString maxBytes) ∧
      r.query "timeoutMs" = bytes (toString timeoutMs) := by
  have hkeys : bytes "path" ≠ bytes "maxBytes" ∧ bytes "path" ≠ bytes "timeoutMs" ∧
      bytes "maxBytes" ≠ bytes "timeoutMs" := by decide
  refine ⟨?_, ?_, ?_⟩
  all_goals
    unfold Agent.Request.query
    rw [parse_bounded, valueOf]
    simp [hkeys]

end

/-! ## Budgets -/

/-- **A budget that is allowed** is sent as it is, the deadline rounded up, and the agent takes it. -/
theorem bounded_budget {maxBytes timeoutMs : Number} {m t : Nat} (h : validBudget maxBytes timeoutMs = some (m, t)) :
    maxBytes.value = some (m : ℚ) ∧ (∃ q, timeoutMs.value = some q ∧ q ≤ t ∧ (t : ℚ) < q + 1) ∧
      ∀ endpoint path, let r := received (AgentChannel.readFileBoundedRequest endpoint path m t)
        maxBytesParam r = .ok m ∧ timeoutParam r = .ok t := by
  have hle : t ≤ 2 ^ 31 - 1 := budget_le h
  unfold validBudget at h
  split at h
  · rename_i bytes timeout hbytes htimeout
    split at h
    · rename_i hvalid
      obtain ⟨hsafe, hnonneg, -, hpos, -⟩ := hvalid
      obtain ⟨hden, hmax, -⟩ := of_decide_eq_true hsafe
      have hnum : ((bytes.num.toNat : ℕ) : ℚ) = bytes := by
        have hint : ((bytes.num.toNat : ℕ) : ℤ) = bytes.num := Int.toNat_of_nonneg (Rat.num_nonneg.mpr hnonneg)
        rw [← Int.cast_natCast, hint]
        exact Rat.coe_int_num_of_den_eq_one hden
      obtain ⟨rfl, rfl⟩ := Prod.mk.inj (Option.some.inj h)
      have hceil : 0 < timeout.ceil := Rat.lt_ceil_iff.mpr (by exact_mod_cast hpos)
      have htoNat : ((timeout.ceil.toNat : ℕ) : ℚ) = timeout.ceil := by
        exact_mod_cast Int.toNat_of_nonneg hceil.le
      have hsize : bytes.num.toNat ≤ 2 ^ 53 - 1 := by
        have hq : ((bytes.num.toNat : ℕ) : ℚ) ≤ ((2 ^ 53 - 1 : ℕ) : ℚ) := by
          rw [hnum]
          exact hmax.trans (by norm_num [Adapter.maxSafeInteger])
        exact_mod_cast hq
      refine ⟨by rw [hbytes, hnum], ⟨timeout, htimeout, ?_, ?_⟩, fun endpoint path => ?_⟩
      · rw [htoNat]
        exact Rat.le_ceil
      · rw [htoNat]
        exact Rat.ceil_lt
      obtain ⟨-, hquery, hquery'⟩ := query_bounded endpoint path bytes.num.toNat timeout.ceil.toNat
      have hmaxTimeout : maxTimeoutMs.toInt = 2 ^ 31 - 1 := by decide
      have hmaxBytes : Agent.maxSafeInteger = 2 ^ 53 - 1 := rfl
      exact ⟨intParam_toString _ hquery (by omega) (by omega) (by omega),
        intParam_toString _ hquery' (by omega) (by omega) (by omega)⟩
    · cases h
  · cases h

/-! ## The channel -/

section
variable {engine : Engine} {endpoint : AgentEndpoint} {path : String} {maxBytes : Nat} {fetched : Fetched}

theorem readAtMost_some {failure : Option JsError} {read bytes : List UInt8} {chunks : List (List UInt8)}
    (h : readAtMost maxBytes failure read chunks = .ok (some bytes)) (hread : read.length ≤ maxBytes) :
    failure = none ∧ bytes = read ++ chunks.flatten ∧ bytes.length ≤ maxBytes := by
  induction chunks generalizing read with
  | nil =>
    unfold readAtMost at h
    split at h
    · cases h
    · obtain rfl := Option.some.inj (Except.ok.inj h)
      exact ⟨rfl, (List.append_nil _).symm, hread⟩
  | cons chunk chunks ih =>
    rw [readAtMost] at h
    split at h
    · cases h
    · rename_i hroom
      obtain ⟨hfailure, hbytes, hbound⟩ := ih h (by rw [List.length_append]; omega)
      rw [List.append_assoc] at hbytes
      exact ⟨hfailure, hbytes, hbound⟩

/-- **Whatever the agent sends, no more than the budget comes through.** -/
theorem readFileBounded_at_most {bytes : List UInt8}
    (h : AgentChannel.readFileBounded engine endpoint path maxBytes fetched = .ok (.ok bytes)) :
    bytes.length ≤ maxBytes ∧ ∃ status chunks,
    fetched = .answered { status, body := some { chunks, failure := none } } ∧
      status ≤ 299 ∧ bytes = chunks.flatten := by
  cases fetched with
  | failed cause => cases h
  | answered response =>
    unfold AgentChannel.readFileBounded AgentChannel.request at h
    simp only [bind, Except.bind] at h
    split at h
    · rename_i hok
      obtain ⟨status, body⟩ := response
      have hstatus : 200 ≤ status ∧ status ≤ 299 := of_decide_eq_true hok
      cases body with
      | none => cases h
      | some body =>
        obtain ⟨chunks, failure⟩ := body
        dsimp only [bodyOf] at h
        split at h
        · cases h
        · cases h
        · rename_i read hread
          obtain rfl := ReadFileOutcome.ok.inj (Except.ok.inj h)
          obtain ⟨rfl, hbytes, hbound⟩ := readAtMost_some hread (Nat.zero_le _)
          exact ⟨hbound, status, chunks, rfl, hstatus.2, hbytes⟩
    · exact absurd h (readRefused_ne_ok _ _ _ _ _)

theorem readFileBounded_notFound
    (h : AgentChannel.readFileBounded engine endpoint path maxBytes fetched = .ok .notFound) :
    ∃ response refusal, fetched = .answered response ∧ response.ok = false ∧
      refusalOf engine response = .ok refusal ∧ refusal.code = some "not_found" := by
  cases fetched with
  | failed cause => cases h
  | answered response =>
    unfold AgentChannel.readFileBounded AgentChannel.request at h
    simp only [bind, Except.bind] at h
    split at h
    · split at h
      · cases h
      · cases h
      · cases h
    · rename_i hok
      unfold AgentChannel.readRefused at h
      simp only [bind, Except.bind] at h
      split at h
      · cases h
      rename_i refusal hrefusal
      split at h
      · rename_i hcode
        exact ⟨response, refusal, rfl, by simpa using hok, hrefusal, hcode⟩
      split at h
      · cases h
      · cases h

end

/-! ## What the agent's answer says -/

/-- What `fetch` has of a response: all of it in whatever chunks, a part, or none. -/
inductive Fetches (response : Agent.Response) : Fetched → Prop
  | failed (cause : JsError) : Fetches response (.failed cause)
  | answered {chunks : List (List UInt8)} {failure : Option JsError}
      (hbody : failure = none → chunks.flatten = response.body) :
      Fetches response (.answered { status := response.status, body := some { chunks, failure } })

section
variable {engine : Engine} {endpoint : AgentEndpoint} {path : String} {maxBytes timeoutMs : Nat} {fetched : Fetched}

def refusalMembers (code : String) (message : List UInt8) : List (String × List Char × JsonValue) :=
  [("error", jsonString message, .string (listedPath message))] ++
    if code = "" then [] else [("code", jsonString (bytes code), .string code)]

theorem refusalMembers_written (engine : Engine) (code : String) (message : List UInt8) :
    ∀ m ∈ refusalMembers code message,
      (∀ c ∈ m.1.toList, Json.Reader.Plain c) ∧ Json.Reader.Written engine.number m.2.1 m.2.2 := by
  have hkeys : ∀ key ∈ ["error", "code"], ∀ c ∈ key.toList, Json.Reader.Plain c := by decide
  have hcode : Json.Reader.Written engine.number (jsonString (bytes code)) (.string code) := by
    have h := @written_jsonString _ engine.number (bytes code)
    rwa [← listedPath, listedPath_bytes] at h
  intro m hm
  rcases List.mem_append.mp hm with hm | hm
  · obtain rfl := List.mem_singleton.mp hm
    exact ⟨hkeys _ (by simp), written_jsonString _⟩
  · split at hm
    · cases hm
    · obtain rfl := List.mem_singleton.mp hm
      exact ⟨hkeys _ (by simp), hcode⟩

theorem apiError_members (code : String) (message : List UInt8) :
    apiError code message = Json.Reader.objectText ((refusalMembers code message).map fun m => (m.1, m.2.1)) := by
  unfold apiError refusalMembers
  split <;> rfl

theorem stringOf_refusal (code : String) (message : List UInt8) :
    stringOf (.object ((refusalMembers code message).map fun m => (m.1, m.2.2))) "code" =
      if code = "" then none else some code := by
  unfold refusalMembers
  split
  · simp [stringOf, Json.get?]
  · simp [stringOf, Json.get?]

theorem code_arrived {status : Nat} {code : String} {message : List UInt8} {response : HttpResponse}
    {refusal : AgentRefusal} (h : Fetches (writeCodedError status code message) (.answered response))
    (hrefusal : refusalOf engine response = .ok refusal) :
    refusal.code = if code = "" then none else some code := by
  cases h with
  | @answered chunks failure hbody =>
    cases failure with
    | some cause => cases hrefusal
    | none =>
      have hchunks : chunks.flatten = Utf8.encode (apiError code message ++ ['\n']) := hbody rfl
      have htext : HttpResponse.text { status, body := some { chunks, failure := none } } =
        .ok (String.ofList (apiError code message ++ ['\n'])) := text_arrived status (by decide) hchunks
      have hblank : ∀ c ∈ ['\n'], Json.isBlank c = true := by decide
      have hparse := Json.parse_object_append (refusalMembers_written engine code message) hblank
      rw [← apiError_members] at hparse
      unfold refusalOf Engine.parse at hrefusal
      simp only [bind, Except.bind] at hrefusal
      rw [writeCodedError] at hrefusal
      dsimp only at hrefusal
      rw [htext] at hrefusal
      dsimp only at hrefusal
      rw [String.toList_ofList, hparse] at hrefusal
      obtain rfl := Except.ok.inj hrefusal
      exact stringOf_refusal code message

/-- The bytes that come through are those of one file, within the budget. -/
theorem readFileBounded_bytes {s : Schedule} {bytes : List UInt8}
    (h : AgentChannel.readFileBounded engine endpoint path maxBytes fetched = .ok (.ok bytes))
    {r : Agent.Request} (hfetched : Fetches (Agent.readFileBounded s r) fetched)
    (hmax : maxBytesParam r = .ok maxBytes) :
    ∃ file last, BoundedFile s.calls (r.query "path") maxBytes bytes file last := by
  obtain ⟨-, status, chunks, rfl, hstatus, rfl⟩ := readFileBounded_at_most h
  rcases readFileBounded_cases s r with
    ⟨maxBytes', data, file, last, hmax', hresponse, hfile⟩ | ⟨⟨status', message, hrefused, hresponse⟩, -⟩ |
      ⟨code, -, status', message, hrefused, hresponse⟩
  · obtain rfl := Except.ok.inj (hmax.symm.trans hmax')
    rw [hresponse] at hfetched
    cases hfetched with
    | answered hbody =>
      have hchunks : chunks.flatten = data := hbody rfl
      rw [hchunks]
      exact ⟨file, last, hfile⟩
  · rw [hresponse] at hfetched
    cases hfetched with
    | answered hbody =>
      have hle : status' ≤ 299 := hstatus
      omega
  · rw [hresponse] at hfetched
    cases hfetched with
    | answered hbody =>
      have hle : status' ≤ 299 := hstatus
      omega

/-- That there is no such file comes from a name that was absent. -/
theorem readFileBounded_absent {s : Schedule} {r : Agent.Request}
    (h : AgentChannel.readFileBounded engine endpoint path maxBytes fetched = .ok .notFound)
    (hfetched : Fetches (Agent.readFileBounded s r) fetched) :
    Absent (filesAt s.calls) 1 (filesAt s.calls 0).root (names (r.query "path")) := by
  obtain ⟨response, refusal, rfl, hok, hrefusal, hcode⟩ := readFileBounded_notFound h
  rcases readFileBounded_cases s r with
    ⟨maxBytes', data, file, last, -, hresponse, -⟩ | ⟨-, habsent⟩ | ⟨code, hne, status, message, -, hresponse⟩
  · rw [hresponse] at hfetched
    cases hfetched with
    | answered hbody => cases hok
  · exact habsent
  · rw [hresponse] at hfetched
    rw [code_arrived hfetched hrefusal] at hcode
    split at hcode
    · cases hcode
    · exact absurd (Option.some.inj hcode) hne

end

/-! ## The call -/

section
variable {crypto : Crypto} {config : ArmadaConfig} {me : Nat} {made : Made} {path : String}
    {maxBytes timeoutMs : Number}

/-- A budget that is not allowed asks nobody anything. -/
theorem bounded_none {trace : Answers} {r : Except JsError ReadFileResult}
    (h : Gives (Adapter.readFileBounded crypto config me made path maxBytes timeoutMs) trace r)
    (hbudget : validBudget maxBytes timeoutMs = none) : trace = [] ∧ r = .ok (.error "READ_FAILED") := by
  unfold Adapter.readFileBounded at h
  rw [hbudget] at h
  exact gives_readFailed h

end

section
variable (path : String) (m t : Nat)

/-- The budget `m` and `t` is the one that was given, the deadline rounded up, and the agent takes it. -/
structure BudgetSent (maxBytes timeoutMs : Number) : Prop where
  maxBytes : maxBytes.value = some (m : ℚ)
  timeoutMs : ∃ q, timeoutMs.value = some q ∧ q ≤ t ∧ (t : ℚ) < q + 1
  taken : ∀ endpoint, let r := received (AgentChannel.readFileBoundedRequest endpoint path m t)
    maxBytesParam r = .ok m ∧ timeoutParam r = .ok t

/-- The bytes are those of one file, which the names of the rooted path led to: each was in it at some call of the
read, and they are all of it if it did not change. -/
structure OneFile (s : Schedule) (bytes : List UInt8) (file last : Nat) : Prop where
  reached : BoundedFile s.calls (Agent.bytes path) m bytes file last
  each : ∀ i < bytes.length, ∃ j content, statCall (Agent.bytes path) < j ∧ j ≤ last ∧
    ((filesAt s.calls j).inode file).content? = some content ∧ content[i]? = bytes[i]?
  whole : ∀ content, (∀ j, statCall (Agent.bytes path) ≤ j → j ≤ last →
    ((filesAt s.calls j).inode file).content? = some content) → bytes = content

/-- Whatever was fetched, the bytes are within the budget; and where the agent has sent it, of one file. -/
structure WithinBudget (channel : AgentEndpoint) (bytes : List UInt8) : Prop where
  length : ∀ engine fetched, AgentChannel.readFileBounded engine channel path m fetched = .ok (.ok bytes) →
    bytes.length ≤ m
  served : ∀ engine fetched s, AgentChannel.readFileBounded engine channel path m fetched = .ok (.ok bytes) →
    Fetches (Agent.readFileBounded s (received (AgentChannel.readFileBoundedRequest channel path m t))) fetched →
    ∃ file last, OneFile path m s bytes file last

/-- What a call with this budget has asked, and what its result says. -/
structure BoundedRead (trace : Answers) (result : Except JsError ReadFileResult) : Prop where
  asked : ∃ before after, trace = before ++ ⟨.turn, ()⟩ :: after ∧
    (after = [] ∨ ∃ channel answer, after = [⟨.agent channel (.readFileBounded path m t), answer⟩])
  content : ∀ content encoding, result = .ok (.ok (content, encoding)) →
    ∃ before channel bytes, trace = before ++ [⟨.agent channel (.readFileBounded path m t), .ok (.ok bytes)⟩] ∧
      encoding = .base64 ∧ Base64.decode content.toList = bytes ∧ WithinBudget path m t channel bytes
  absent : result = .ok (.error "NOT_FOUND") →
    ∃ before channel, trace = before ++ [⟨.agent channel (.readFileBounded path m t), .ok .notFound⟩] ∧
      ∀ engine fetched, AgentChannel.readFileBounded engine channel path m fetched = .ok .notFound →
        ∀ s, Fetches (Agent.readFileBounded s (received (AgentChannel.readFileBoundedRequest channel path m t)))
            fetched →
          Absent (filesAt s.calls) 1 (filesAt s.calls 0).root (names (Agent.bytes path))

end

section
variable {crypto : Crypto} {config : ArmadaConfig} {me : Nat} {made : Made} {path : String}
    {maxBytes timeoutMs : Number}
  {m t : Nat}

theorem withinBudget
    (htaken : ∀ endpoint path, let r := received (AgentChannel.readFileBoundedRequest endpoint path m t)
      maxBytesParam r = .ok m ∧ timeoutParam r = .ok t)
    (channel : AgentEndpoint) (bytes : List UInt8) : WithinBudget path m t channel bytes := by
  refine ⟨fun engine fetched hread => (readFileBounded_at_most hread).1, fun engine fetched s hread hfetched => ?_⟩
  obtain ⟨file, last, hfile⟩ := readFileBounded_bytes hread hfetched (htaken channel path).1
  rw [(query_bounded channel path m t).1] at hfile
  exact ⟨file, last, hfile, fun i hi => hfile.byte hi, fun content hsame => hfile.whole hsame⟩

theorem bounded_some {trace : Answers} {result : Except JsError ReadFileResult}
    (h : Gives (Adapter.readFileBounded crypto config me made path maxBytes timeoutMs) trace result)
    (hbudget : validBudget maxBytes timeoutMs = some (m, t)) : BoundedRead path m t trace result := by
  obtain ⟨-, -, htaken⟩ := bounded_budget hbudget
  obtain ⟨before, after, opened, rfl, -, hafter⟩ := gives_readFileBounded h hbudget
  refine ⟨⟨before, after, rfl, ?_⟩, fun content encoding hresult => ?_, fun hresult => ?_⟩
  · rcases hafter with ⟨hnone, -⟩ | ⟨channel, answer, hasked, -⟩
    · exact .inl hnone
    · exact .inr ⟨channel, answer, hasked⟩
  · rcases hafter with ⟨-, hr⟩ | ⟨channel, answer, rfl, hr⟩
    · cases hr.symm.trans hresult
    have htold := hr.symm.trans hresult
    rcases answer with _ | bytes | _ | _
    case ok.ok =>
      have hfits : FitsBase64 bytes := by
        by_contra hlong
        obtain ⟨x, hx⟩ := base64Of_error hlong
        rw [told, hx] at htold
        cases htold
      rw [told, base64Of_eq hfits] at htold
      obtain ⟨rfl, rfl⟩ := Prod.mk.inj (Except.ok.inj (Except.ok.inj htold))
      refine ⟨before ++ [⟨.turn, ()⟩], channel, bytes, List.append_cons _ _ _, rfl, ?_,
        withinBudget htaken channel bytes⟩
      rw [String.toList_ofList, Base64.decode_encode]
    all_goals cases htold
  · rcases hafter with ⟨-, hr⟩ | ⟨channel, answer, rfl, hr⟩
    · exact absurd (Except.error.inj (Except.ok.inj (hr.symm.trans hresult))) (by decide)
    have htold := hr.symm.trans hresult
    rcases answer with _ | bytes | _ | _
    case ok.ok =>
      rw [told] at htold
      cases hcontent : base64Of bytes <;> rw [hcontent] at htold <;> cases htold
    case ok.notFound =>
      refine ⟨before ++ [⟨.turn, ()⟩], channel, List.append_cons _ _ _, fun engine fetched hread s hfetched => ?_⟩
      have habsent := readFileBounded_absent hread hfetched
      rwa [(query_bounded channel path m t).1] at habsent
    all_goals exact absurd (Except.error.inj (Except.ok.inj htold)) (by decide)

/-- **A bounded read.** A budget that is allowed is sent as it is, its deadline rounded up, and the agent takes it; any
other asks nobody anything. Where the call succeeds, the content is base64 of at most `maxBytes` bytes, whatever the
agent has sent; where the agent has answered, under whatever schedule, they are bytes of one regular file, which the
names of the rooted path without `..` led to from the root through no link, and all of the file if it did not change
from the call that asked for its kind to the last one. And `NOT_FOUND` is told only for a name that was absent. -/
theorem bounded_read (crypto : Crypto) (config : ArmadaConfig) (me : Nat) (made : Made) (path : String)
    (maxBytes timeoutMs : Number) :
    (∀ m t, validBudget maxBytes timeoutMs = some (m, t) → BudgetSent path m t maxBytes timeoutMs) ∧
    ∀ trace result, Gives (Adapter.readFileBounded crypto config me made path maxBytes timeoutMs) trace result →
      (validBudget maxBytes timeoutMs = none → trace = [] ∧ result = .ok (.error "READ_FAILED")) ∧
      ∀ m t, validBudget maxBytes timeoutMs = some (m, t) → BoundedRead path m t trace result := by
  refine ⟨fun m t hbudget => ?_, fun trace result h => ⟨bounded_none h, fun m t hbudget => bounded_some h hbudget⟩⟩
  obtain ⟨hmax, htimeout, htaken⟩ := bounded_budget hbudget
  exact ⟨hmax, htimeout, fun endpoint => htaken endpoint path⟩

end

end ComputeArmada.Wire
