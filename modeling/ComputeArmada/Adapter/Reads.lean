import ComputeArmada.Adapter.Posted
import ComputeArmada.Lib.Utf8

/-!
# What a read comes to

Both reads go one way: the agent is reached and asked once, and what it answers is told. The content of a file
that fits no string of the engine is thrown away, and the read with it.

* `told` : what the caller is told, by the answer; `gives_readThrough`, `gives_readFile` and
  `gives_readFileBounded` : of every run, `leads_readFile` : of one whose agent is reached;
* `FitsBase64`, `FitsText` : the bytes that fit a string;
* `base64Of_iff`, `contentOf_iff` : the reads have content just for those.
-/

namespace ComputeArmada.Adapter
open Async

/-! ## The content -/

/-- How `readFile` words the bytes. -/
def contentOf (bytes : List UInt8) : Except JsError (String × Encoding) :=
  match decodeUtf8 bytes with
  | some text => .ok (text, .utf8)
  | none => base64Of bytes

/-- In base64 they fit a string: there are at most 402653166 of them. -/
def FitsBase64 (bytes : List UInt8) : Prop := bytes.length ≤ 3 * (maxStringLength / 4)

/-- They fit one as the text they are, or in base64. -/
def FitsText (bytes : List UInt8) : Prop :=
  FitsBase64 bytes ∨ Utf8.WellFormed bytes ∧ bytes.length ≤ maxStringLength

theorem fitsBase64_iff {bytes : List UInt8} :
    FitsBase64 bytes ↔ 4 * ((bytes.length + 2) / 3) ≤ maxStringLength := by
  unfold FitsBase64 maxStringLength
  omega

theorem base64Of_eq {bytes : List UInt8} (h : FitsBase64 bytes) :
    base64Of bytes = .ok (String.ofList (Base64.encode bytes), .base64) :=
  if_pos (fitsBase64_iff.mp h)

theorem base64Of_error {bytes : List UInt8} (h : ¬ FitsBase64 bytes) : ∃ x, base64Of bytes = .error x :=
  ⟨_, if_neg (mt fitsBase64_iff.mpr h)⟩

theorem decodeUtf8_eq {bytes : List UInt8} (h : bytes.length ≤ maxStringLength) :
    decodeUtf8 bytes = (Utf8.decodeFatal bytes).map String.ofList := by
  unfold decodeUtf8
  rw [if_pos h, Utf8.fromUTF8_eq]

theorem FitsBase64.length {bytes : List UInt8} (h : FitsBase64 bytes) : bytes.length ≤ maxStringLength := by
  unfold FitsBase64 maxStringLength at h
  unfold maxStringLength
  omega

theorem contentOf_text {bytes : List UInt8} {cs : List Char} (h : Utf8.decodeFatal bytes = some cs)
    (hlength : bytes.length ≤ maxStringLength) : contentOf bytes = .ok (String.ofList cs, .utf8) := by
  unfold contentOf
  rw [decodeUtf8_eq hlength, h]
  rfl

theorem contentOf_data {bytes : List UInt8} (h : ¬ (Utf8.WellFormed bytes ∧ bytes.length ≤ maxStringLength)) :
    contentOf bytes = base64Of bytes := by
  have hnone : decodeUtf8 bytes = none := by
    by_cases hlength : bytes.length ≤ maxStringLength
    · rw [decodeUtf8_eq hlength, Option.map_eq_none_iff]
      by_contra hne
      exact h ⟨Utf8.wellFormed_iff.mpr hne, hlength⟩
    · exact if_neg hlength
  unfold contentOf
  rw [hnone]

theorem base64Of_iff {bytes : List UInt8} : (∃ told, base64Of bytes = .ok told) ↔ FitsBase64 bytes := by
  refine ⟨fun ⟨told, htold⟩ => ?_, fun h => ⟨_, base64Of_eq h⟩⟩
  by_contra hlong
  obtain ⟨x, hx⟩ := base64Of_error hlong
  exact nomatch hx.symm.trans htold

theorem contentOf_iff {bytes : List UInt8} : (∃ told, contentOf bytes = .ok told) ↔ FitsText bytes := by
  by_cases htext : Utf8.WellFormed bytes ∧ bytes.length ≤ maxStringLength
  · obtain ⟨cs, hcs⟩ := Option.ne_none_iff_exists'.mp (Utf8.wellFormed_iff.mp htext.1)
    exact ⟨fun _ => .inr htext, fun _ => ⟨_, contentOf_text hcs htext.2⟩⟩
  · rw [contentOf_data htext, base64Of_iff]
    exact ⟨.inl, fun h => h.resolve_right htext⟩

/-! ## The read -/

/-- What the caller is told, by what the agent answered. -/
def told (encode : List UInt8 → Except JsError (String × Encoding)) :
    Except JsError ReadFileOutcome → Except JsError ReadFileResult
  | .error _ => .ok (.error "BACKEND_ERROR")
  | .ok .notFound => .ok (.error "NOT_FOUND")
  | .ok (.failed _) => .ok (.error "READ_FAILED")
  | .ok (.ok bytes) => (encode bytes).map .ok

section
variable {crypto : Crypto} {config : ArmadaConfig} {me : Nat} {made : Made} {trace : Answers}
  {r : Except JsError ReadFileResult} {path : String}

theorem gives_readFailed {code why : String} (h : Gives (readFailed crypto config made path code why) trace r) :
    trace = [] ∧ r = .ok (.error code) := by
  unfold readFailed at h
  cases h with
  | get s h =>
    cases h with
    | set h => exact gives_pure.mp h

/-- **What a read comes to.** -/
theorem gives_readThrough {read : ControlChannel → M (Except JsError ReadFileOutcome)}
    {encode : List UInt8 → Except JsError (String × Encoding)}
    (h : Gives (readThrough crypto config me made path read encode) trace r) :
    ∃ before after opened, trace = before ++ ⟨.turn, ()⟩ :: after ∧
      Gives (await (openAgent crypto config me made)) (before ++ [⟨.turn, ()⟩]) opened ∧
      (after = [] ∧ r = .ok (.error "BACKEND_ERROR") ∨
        ∃ channel answer, Gives (read channel) after answer ∧ r = told encode (answer.bind id)) := by
  unfold readThrough at h
  rcases gives_bind.mp h with ⟨x, -, h⟩ | ⟨outcome, asked, rest, rfl, hasked, h⟩
  · obtain ⟨r', hr, -⟩ := gives_attempt.mp h
    cases hr
  obtain ⟨r', hr, hasked⟩ := gives_attempt.mp hasked
  obtain rfl := Except.ok.inj hr
  have hrest : rest = [] ∧ r = told encode outcome := by
    match outcome with
    | .error cause => exact gives_readFailed h
    | .ok .notFound => exact gives_pure.mp h
    | .ok (.failed message) => exact gives_readFailed h
    | .ok (.ok bytes) =>
      rcases gives_bind.mp h with ⟨x, rfl, hthrown⟩ | ⟨content, none, last, rfl, hencoded, hend⟩
      · obtain ⟨rfl, hx⟩ := gives_ofExcept.mp hthrown
        exact ⟨rfl, by rw [told, ← hx]; rfl⟩
      · obtain ⟨rfl, hcontent⟩ := gives_ofExcept.mp hencoded
        obtain ⟨rfl, rfl⟩ := gives_pure.mp hend
        exact ⟨rfl, by rw [told, ← hcontent]; rfl⟩
  obtain ⟨rfl, rfl⟩ := hrest
  rw [List.append_nil]
  rcases gives_bind.mp hasked with ⟨x, rfl, hopen⟩ | ⟨channel, opened, after, rfl, hopen, hread⟩
  · obtain ⟨before, rfl, -⟩ := gives_await hopen
    exact ⟨before, [], _, rfl, hopen, .inl ⟨rfl, rfl⟩⟩
  · obtain ⟨before, rfl, -⟩ := gives_await hopen
    refine ⟨before, after, _, by simp, hopen, .inr ⟨channel, ?_⟩⟩
    rcases gives_bind.mp hread with ⟨x, rfl, hfailed⟩ | ⟨reply, replied, ended, rfl, hreplied, hend⟩
    · exact ⟨.error x, hfailed, rfl⟩
    · obtain ⟨rfl, rfl⟩ := gives_ofExcept.mp hend
      exact ⟨.ok outcome, by rwa [List.append_nil], rfl⟩

theorem gives_readFile (h : Gives (readFile crypto config me made path) trace r) :
    ∃ before after opened, trace = before ++ ⟨.turn, ()⟩ :: after ∧
      Gives (await (openAgent crypto config me made)) (before ++ [⟨.turn, ()⟩]) opened ∧
      (after = [] ∧ r = .ok (.error "BACKEND_ERROR") ∨
        ∃ channel outcome, after = [⟨.agent channel (.readFile path), outcome⟩] ∧ r = told contentOf outcome) := by
  have hthrough : Gives (readThrough crypto config me made path
      (fun channel => ask (.agent channel (.readFile path))) contentOf) trace r := h
  obtain ⟨before, after, opened, htrace, hopen, hafter⟩ := gives_readThrough hthrough
  refine ⟨before, after, opened, htrace, hopen, hafter.imp_right ?_⟩
  rintro ⟨channel, outcome, hread, rfl⟩
  obtain ⟨reply, ended, rfl, hend⟩ := gives_ask.mp hread
  obtain ⟨rfl, rfl⟩ := gives_pure.mp hend
  exact ⟨channel, reply, rfl, rfl⟩

theorem gives_readFileBounded {maxBytes timeoutMs : Number} {m t : Nat}
    (h : Gives (readFileBounded crypto config me made path maxBytes timeoutMs) trace r)
    (hbudget : validBudget maxBytes timeoutMs = some (m, t)) :
    ∃ before after opened, trace = before ++ ⟨.turn, ()⟩ :: after ∧
      Gives (await (openAgent crypto config me made)) (before ++ [⟨.turn, ()⟩]) opened ∧
      (after = [] ∧ r = .ok (.error "BACKEND_ERROR") ∨
        ∃ channel outcome, after = [⟨.agent channel (.readFileBounded path m t), outcome⟩] ∧
          r = told base64Of outcome) := by
  unfold readFileBounded at h
  rw [hbudget] at h
  obtain ⟨before, after, opened, htrace, hopen, hafter⟩ := gives_readThrough h
  refine ⟨before, after, opened, htrace, hopen, hafter.imp_right ?_⟩
  rintro ⟨channel, outcome, hread, rfl⟩
  obtain ⟨reply, ended, rfl, hend⟩ := gives_ask.mp hread
  obtain ⟨rfl, rfl⟩ := gives_pure.mp hend
  exact ⟨channel, reply, rfl, rfl⟩

/-- Where the last answer is the agent's, it decides what is told. -/
theorem readFile_last {channel : ControlChannel} {outcome : Except JsError ReadFileOutcome}
    (h : Gives (readFile crypto config me made path) (trace ++ [⟨.agent channel (.readFile path), outcome⟩]) r) :
    r = told contentOf outcome := by
  obtain ⟨before, after, opened, htrace, -, ⟨rfl, -⟩ | ⟨channel', outcome', rfl, rfl⟩⟩ := gives_readFile h
  · cases List.append_inj_right' htrace rfl
  · have hlast := htrace.trans (List.append_cons before _ _)
    cases List.append_inj_right' hlast rfl
    rfl

/-- An instance that has its channel waits for no more than a turn. -/
theorem leads_openAgent {R : Shared → Shared → Prop} {s : Shared} {channel : ControlChannel}
    (h : (s.instances me).channel = some channel) (hR : R s s) :
    Leads R (await (openAgent crypto config me made)) s [⟨.turn, ()⟩] s (.ok channel) := by
  have hself : Leads R (openAgent crypto config me made) s [] s (.ok channel) := by
    unfold openAgent self
    refine leads_bind.mpr (.inr ⟨s.instances me, [], [], s, rfl, .get (.done _ _), ?_⟩)
    rw [h]
    exact .done _ _
  exact leads_await.mpr ⟨[], s, rfl, hself, hR⟩

/-- Once the agent has been reached, it may answer with any bytes. -/
theorem leads_readFile {R : Shared → Shared → Prop} {s s₁ : Shared} {channel : ControlChannel}
    (h : Leads R (await (openAgent crypto config me made)) s trace s₁ (.ok channel)) (hR : R s₁ s₁)
    (bytes : List UInt8) :
    Leads R (readFile crypto config me made path) s
      (trace ++ [⟨.agent channel (.readFile path), .ok (.ok bytes)⟩]) s₁ ((contentOf bytes).map .ok) := by
  have hread : Leads R (do
      let channel ← await (openAgent crypto config me made)
      let answer ← ask (.agent channel (.readFile path))
      (.ofExcept answer : M ReadFileOutcome)) s (trace ++ [⟨.agent channel (.readFile path), .ok (.ok bytes)⟩]) s₁
      (.ok (.ok bytes)) :=
    leads_bind.mpr (.inr ⟨channel, trace, _, s₁, rfl, h,
      leads_asked.mpr ⟨.ok (.ok bytes), s₁, [], rfl, hR, leads_ofExcept.mpr ⟨rfl, rfl, rfl⟩⟩⟩)
  refine leads_bind.mpr (.inr ⟨_, _, [], s₁, (List.append_nil _).symm, leads_attempt.mpr ⟨_, rfl, hread⟩, ?_⟩)
  change Leads R (do
      let content ← (.ofExcept (contentOf bytes) : M (String × Encoding))
      return (Except.ok content : ReadFileResult)) s₁ [] s₁ _
  cases hcontent : contentOf bytes with
  | error x => exact leads_bind.mpr (.inl ⟨x, rfl, leads_ofExcept.mpr ⟨rfl, rfl, rfl⟩⟩)
  | ok content =>
    exact leads_bind.mpr (.inr ⟨content, [], [], s₁, rfl, leads_ofExcept.mpr ⟨rfl, rfl, rfl⟩,
      leads_pure.mpr ⟨rfl, rfl, rfl⟩⟩)

end

end ComputeArmada.Adapter
