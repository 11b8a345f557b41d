import ComputeArmada.Adapter.OneQueue
import ComputeArmada.Adapter.Reads
import ComputeArmada.Agent.Written
import ComputeArmada.Wire.Exec
import ComputeArmada.Wire.Request

/-!
# Reading a file through the sandbox

From the bytes that the agent sends to what the caller is told of them, and from a write to a read.

* `Faithful` : content and encoding say what the bytes are; `readFile_faithful` : of every run;
* `Puts` : the writes as the agent serves them;
* `loses_no_byte` : both together.
-/

namespace ComputeArmada.Wire
open Adapter Agent Async FileTree

/-! ## What the caller is told -/

section
variable {crypto : Crypto} {config : ArmadaConfig} {me : Nat} {made : Made}

/-- Content and encoding are those of the bytes: UTF-8 where they are a text, base64 where they are not. -/
structure Faithful (bytes : List UInt8) (content : String) (encoding : Encoding) : Prop where
  utf8 : encoding = .utf8 ↔ Utf8.WellFormed bytes
  text : encoding = .utf8 → Utf8.encode content.toList = bytes
  data : encoding = .base64 → Base64.decode content.toList = bytes

theorem faithful_contentOf {bytes : List UInt8} {content : String} {encoding : Encoding}
    (h : contentOf bytes = .ok (content, encoding)) : Faithful bytes content encoding := by
  by_cases htext : Utf8.WellFormed bytes ∧ bytes.length ≤ maxStringLength
  · obtain ⟨cs, hcs⟩ := Option.ne_none_iff_exists'.mp (Utf8.wellFormed_iff.mp htext.1)
    rw [contentOf_text hcs htext.2] at h
    cases h
    refine ⟨⟨fun _ => htext.1, fun _ => rfl⟩, fun _ => ?_, nofun⟩
    rw [String.toList_ofList]
    exact Utf8.decodeFatal_iff.mp hcs
  · rw [contentOf_data htext] at h
    have hfits := base64Of_iff.mp ⟨_, h⟩
    rw [base64Of_eq hfits] at h
    cases h
    refine ⟨⟨nofun, fun hbytes => absurd ⟨hbytes, hfits.length⟩ htext⟩, nofun, fun _ => ?_⟩
    rw [String.toList_ofList]
    exact Base64.decode_encode bytes

theorem contentOf_encode {s : String} (h : FitsText (Utf8.encode s.toList)) :
    contentOf (Utf8.encode s.toList) = .ok (s, .utf8) := by
  have hlength : (Utf8.encode s.toList).length ≤ maxStringLength := h.elim FitsBase64.length And.right
  rw [contentOf_text (Utf8.fatal_encode _) hlength, String.ofList_toList]

theorem readFile_faithful {path content : String} {encoding : Encoding} {trace : Answers}
    (h : Gives (readFile crypto config me made path) trace (.ok (.ok (content, encoding)))) :
    ∃ before channel bytes, trace = before ++ [⟨.agent channel (.readFile path), .ok (.ok bytes)⟩] ∧
      Faithful bytes content encoding := by
  obtain ⟨before, after, opened, rfl, -, ⟨-, hr⟩ | ⟨channel, outcome, rfl, hr⟩⟩ := gives_readFile h
  · cases hr
  · match outcome with
    | .error _ => cases hr
    | .ok .notFound => cases hr
    | .ok (.failed _) => cases hr
    | .ok (.ok bytes) =>
      cases hcontent : contentOf bytes with
      | error x =>
        rw [told, hcontent] at hr
        cases hr
      | ok content' =>
        rw [told, hcontent] at hr
        obtain rfl := Except.ok.inj (Except.ok.inj hr)
        exact ⟨before ++ [⟨.turn, ()⟩], channel, bytes, List.append_cons _ _ _, faithful_contentOf hcontent⟩

/-- Bytes that fit are told, and the read rejects with any others. -/
theorem readFile_told {path : String} {trace : Answers} {channel : AgentEndpoint} {bytes : List UInt8}
    {r : Except JsError ReadFileResult}
    (h : Gives (readFile crypto config me made path)
      (trace ++ [⟨.agent channel (.readFile path), .ok (.ok bytes)⟩]) r) :
    (FitsText bytes ∧ ∃ content encoding, r = .ok (.ok (content, encoding)) ∧
      contentOf bytes = .ok (content, encoding)) ∨
      ¬ FitsText bytes ∧ ∃ x, r = .error x := by
  have hr := readFile_last h
  cases hcontent : contentOf bytes with
  | ok content =>
    rw [told, hcontent] at hr
    exact .inl ⟨contentOf_iff.mp ⟨_, hcontent⟩, _, _, hr, rfl⟩
  | error x =>
    rw [told, hcontent] at hr
    refine .inr ⟨fun hfits => ?_, x, hr⟩
    obtain ⟨content, hok⟩ := contentOf_iff.mpr hfits
    cases hcontent.symm.trans hok

end

/-! ## The agent's side -/

section
variable (engine : Engine) (endpoint : AgentEndpoint) (cwd : Loc)

/-- A response as `fetch` gives it, in whatever chunks. -/
def Arrives (response : Agent.Response) (fetched : Fetched) : Prop :=
  ∃ chunks : List (List UInt8), chunks.flatten = response.body ∧
    fetched = .answered { status := response.status, body := some { chunks, failure := none } }

/-- The agent serves these writes one after the other, and the channel accepts them. -/
inductive Puts : FileTree → List SandboxFileWrite → FileTree → Prop
  | nil (t : FileTree) : Puts t [] t
  | cons {t t' : FileTree} {file files fetched}
      (harrives : Arrives (Agent.writeFile t cwd (received (AgentChannel.writeFileRequest endpoint file))).1 fetched)
      (haccepted : AgentChannel.writeFile engine endpoint file.path fetched = .ok ())
      (h : Puts (Agent.writeFile t cwd (received (AgentChannel.writeFileRequest endpoint file))).2 files t') :
      Puts t (file :: files) t'

/-- The bytes of a file that is written. -/
def contentBytes : FileContent → List UInt8
  | .text s => Utf8.encode s.toList
  | .bytes bs => bs

variable {engine endpoint cwd}

theorem query_files {r : HttpRequest} {path : String} (h : r.path = filePath "/files" path) :
    (received r).query "path" = bytes path := by
  have hpath : r.path = "/files" ++ "?" ++ ("path=" ++ Js.encodeURIComponent path ++ "") := by
    rw [String.append_empty, h]
    exact filePath_eq
  exact query_received hpath (by decide) (.inl rfl)

theorem body_writeFile (endpoint : AgentEndpoint) (file : SandboxFileWrite) :
    (received (AgentChannel.writeFileRequest endpoint file)).body = contentBytes file.content := by
  cases file with
  | mk path content => cases content <;> rfl

theorem status_writeFile (t : FileTree) (cwd : Loc) (r : Agent.Request) :
    (Agent.writeFile t cwd r).1.status ∈ [200, 400, 500] := by
  unfold Agent.writeFile pathParam
  split
  · rename_i heq
    split at heq
    · obtain rfl := Except.error.inj heq
      simp [writeError, writeCodedError]
    · cases heq
  split
  · simp [writeCodedError]
  split
  · simp [writeCodedError]
  · split <;> simp [writeCodedError, writeJSON]

theorem ok_of_accepted {path : String} {response : HttpResponse}
    (h : AgentChannel.writeFile engine endpoint path (.answered response) = .ok ()) : response.ok = true := by
  change AgentChannel.accepted engine endpoint _ response = .ok () at h
  unfold AgentChannel.accepted at h
  by_contra hok
  rw [if_neg hok] at h
  cases hrefusal : refusalOf engine response with
  | error cause => rw [hrefusal] at h; cases h
  | ok refusal => rw [hrefusal] at h; cases h

/-- A write that the channel accepts is one that the agent has made. -/
theorem written_of_accepted {t : FileTree} {file : SandboxFileWrite} {fetched : Fetched}
    (harrives : Arrives (Agent.writeFile t cwd (received (AgentChannel.writeFileRequest endpoint file))).1 fetched)
    (haccepted : AgentChannel.writeFile engine endpoint file.path fetched = .ok ()) :
    ∃ loc, Written t (Agent.writeFile t cwd (received (AgentChannel.writeFileRequest endpoint file))).2 cwd
      (bytes file.path) (contentBytes file.content) loc := by
  have hquery : (received (AgentChannel.writeFileRequest endpoint file)).query "path" = bytes file.path :=
    query_files rfl
  have hbody := body_writeFile endpoint file
  generalize received (AgentChannel.writeFileRequest endpoint file) = r at harrives hquery hbody ⊢
  obtain ⟨chunks, -, rfl⟩ := harrives
  have hok := ok_of_accepted haccepted
  have h200 : (Agent.writeFile t cwd r).1.status = 200 := by
    have hstatus := status_writeFile t cwd r
    unfold HttpResponse.ok at hok
    dsimp only at hok
    rw [decide_eq_true_eq] at hok
    simp only [List.mem_cons, List.not_mem_nil, or_false] at hstatus
    omega
  have hwritten := writeFile_ok h200
  rwa [hquery, hbody] at hwritten

theorem Puts.extends {t t' : FileTree} {files : List SandboxFileWrite} (h : Puts engine endpoint cwd t files t') :
    t.Extends t' := by
  induction h with
  | nil t => exact .refl t
  | cons harrives haccepted _ ih =>
    obtain ⟨loc, hwritten⟩ := written_of_accepted harrives haccepted
    exact hwritten.more.trans ih

/-- A path that leads to a file leads to it from then on. -/
theorem leads_on {t t' : FileTree} {path : Paths.Path} {content : List UInt8} {loc : Loc} {access : Access}
    (h : t.Extends t') (hloc : t.resolve true cwd path = .ok loc) (hfile : t.get loc = some (.file access content)) :
    t'.resolve true cwd path = .ok loc := by
  refine h.resolve (fun _ => ?_) hloc
  rcases h loc _ hfile with hsame | ⟨_, _, _, -, hsame⟩
  · rw [hsame]; rfl
  · rw [hsame]; rfl

/-- Writes that lead elsewhere leave a file alone. -/
theorem Puts.keeps {t t' : FileTree} {files : List SandboxFileWrite}
    (h : Puts engine endpoint cwd t files t') {loc : Loc}
    {node : Node} (hnode : t.get loc = some node)
    (helse : ∀ other ∈ files, t'.resolve true cwd (bytes other.path) ≠ .ok loc) : t'.get loc = some node := by
  induction h with
  | nil t => exact hnode
  | @cons t t' file files fetched harrives haccepted hrest ih =>
    obtain ⟨loc', hwritten⟩ := written_of_accepted harrives haccepted
    obtain ⟨access, hfile⟩ := hwritten.holds
    have hleads := leads_on hrest.extends hwritten.leads hfile
    have hne : loc ≠ loc' := by
      rintro rfl
      exact helse file List.mem_cons_self hleads
    exact ih (hwritten.others loc node hne hnode) fun other hother => helse other (List.mem_cons_of_mem _ hother)

/-- The last write to a file is what it holds. -/
theorem Puts.holds {t t' : FileTree} {before after : List SandboxFileWrite} {file : SandboxFileWrite}
    (h : Puts engine endpoint cwd t (before ++ file :: after) t')
    (helse : ∀ other ∈ after, t'.resolve true cwd (bytes other.path) ≠ t'.resolve true cwd (bytes file.path)) :
    ∃ loc access, t'.resolve true cwd (bytes file.path) = .ok loc ∧
      t'.get loc = some (.file access (contentBytes file.content)) := by
  induction before generalizing t with
  | cons other before ih =>
    cases h with
    | cons _ _ hrest => exact ih hrest
  | nil =>
    cases h with
    | cons harrives haccepted hrest =>
      obtain ⟨loc, hwritten⟩ := written_of_accepted harrives haccepted
      obtain ⟨access, hfile⟩ := hwritten.holds
      have hleads := leads_on hrest.extends hwritten.leads hfile
      refine ⟨loc, access, hleads, hrest.keeps hfile fun other hother => ?_⟩
      rw [← hleads]
      exact helse other hother

/-! ## Both together -/

theorem readFile_arrived {path : String} {content : List UInt8} {fetched : Fetched}
    (h : Arrives { status := 200, body := content } fetched) :
    AgentChannel.readFile engine endpoint path fetched = .ok (.ok content) := by
  obtain ⟨chunks, hchunks, rfl⟩ := h
  have hcontent : chunks.flatten = content := hchunks
  rw [← hcontent]
  rfl

theorem not_ok {response : HttpResponse} (h : 299 < response.status) : response.ok = false := by
  unfold HttpResponse.ok
  rw [decide_eq_false_iff_not]
  omega

theorem readRefused_ne_ok (engine : Engine) (endpoint : AgentEndpoint) (what : String) (response : HttpResponse)
    (content : List UInt8) : AgentChannel.readRefused engine endpoint what response ≠ .ok (.ok content) := by
  intro hread
  unfold AgentChannel.readRefused at hread
  simp only [bind, Except.bind] at hread
  split at hread
  · cases hread
  split at hread
  · cases hread
  split at hread
  · cases hread
  · cases hread

theorem readFile_refused (engine : Engine) (endpoint : AgentEndpoint) (path : String) {response : Agent.Response}
    {fetched : Fetched} (h : Arrives response fetched) (hstatus : 299 < response.status) (content : List UInt8) :
    AgentChannel.readFile engine endpoint path fetched ≠ .ok (.ok content) := by
  obtain ⟨chunks, -, rfl⟩ := h
  intro hread
  unfold AgentChannel.readFile AgentChannel.request at hread
  change (if HttpResponse.ok _ = true then _ else AgentChannel.readRefused engine endpoint _ _ : Except JsError _) = _
    at hread
  rw [not_ok hstatus, if_neg (by decide)] at hread
  exact readRefused_ne_ok engine endpoint _ _ content hread

/-- **No byte is lost, neither by a read nor by a write and a read.** What is read is told as UTF-8 where it is such a
text, and as base64 elsewhere, if it fits a string of the engine, and otherwise the read rejects. And a file that was
written, in whatever order with others, is told as it was written, where the agent may read it. The nodes of the tree
are files, directories, links and what cannot be opened: a device or a pipe that can is left out. -/
theorem loses_no_byte (crypto : Crypto) (config : ArmadaConfig) (me : Nat) (made : Made) (path : String) :
    (∀ trace content encoding, Gives (Adapter.readFile crypto config me made path) trace
      (.ok (.ok (content, encoding))) →
      ∃ before channel bytes, trace = before ++ [⟨.agent channel (.readFile path), .ok (.ok bytes)⟩] ∧
        Faithful bytes content encoding) ∧
    (∀ trace channel bytes r,
      Gives (Adapter.readFile crypto config me made path)
          (trace ++ [⟨.agent channel (.readFile path), .ok (.ok bytes)⟩]) r →
        (FitsText bytes ∧ ∃ content encoding, r = .ok (.ok (content, encoding)) ∧ Faithful bytes content encoding) ∨
          ¬ FitsText bytes ∧ ∃ x, r = .error x) ∧
    ∀ engine endpoint cwd t t' before file after fetched trace channel r,
      Puts engine endpoint cwd t (before ++ file :: after) t' → file.path = path →
      (∀ other ∈ after, t'.resolve true cwd (bytes other.path) ≠ t'.resolve true cwd (bytes path)) →
      Arrives (Agent.readFile t' cwd (received (AgentChannel.readFileRequest endpoint path))) fetched →
      Gives (Adapter.readFile crypto config me made path)
        (trace ++ [⟨.agent channel (.readFile path), AgentChannel.readFile engine endpoint path fetched⟩]) r →
      (∃ content encoding, r = .ok (.ok (content, encoding)) ∧ Faithful (contentBytes file.content) content encoding ∧
        ∀ s, file.content = .text s → content = s ∧ encoding = .utf8) ∨
      (¬ FitsText (contentBytes file.content) ∧ ∃ x, r = .error x) ∨
      (∃ code, r = .ok (.error code)) ∧ ∃ loc access content, t'.resolve true cwd (bytes path) = .ok loc ∧
        t'.get loc = some (.file access content) ∧ access.read = false := by
  refine ⟨fun trace content encoding h => ?_, fun trace channel bytes r h => ?_, ?_⟩
  · exact readFile_faithful h
  · refine (readFile_told h).imp_left (And.imp_right ?_)
    rintro ⟨content, encoding, hr, hcontent⟩
    exact ⟨content, encoding, hr, faithful_contentOf hcontent⟩
  · intro engine endpoint cwd t t' before file after fetched trace channel r hputs hpath helse harrives h
    subst hpath
    obtain ⟨loc, access, hloc, hfile⟩ := hputs.holds helse
    rw [readFile_eq (query_files rfl) hloc hfile] at harrives
    split at harrives
    · rw [readFile_arrived harrives] at h
      rcases readFile_told h with ⟨hfits, content, encoding, hr, hcontent⟩ | hrejects
      · refine .inl ⟨content, encoding, hr, faithful_contentOf hcontent, fun s hs => ?_⟩
        rw [hs] at hfits hcontent
        exact Prod.mk.inj (Except.ok.inj (hcontent.symm.trans (contentOf_encode hfits)))
      · exact .inr (.inl hrejects)
    · rename_i hread
      have hr := readFile_last h
      refine .inr (.inr ⟨?_, loc, access, _, hloc, hfile, by simpa using hread⟩)
      have hrefused := readFile_refused engine endpoint file.path harrives (by simp [writeCodedError])
      generalize AgentChannel.readFile engine endpoint file.path fetched = outcome at hr hrefused
      match outcome with
      | .error _ => exact ⟨_, hr⟩
      | .ok .notFound => exact ⟨_, hr⟩
      | .ok (.failed _) => exact ⟨_, hr⟩
      | .ok (.ok bytes) => exact absurd rfl (hrefused bytes)

end

theorem arrives_whole (response : Agent.Response) : Arrives response
    (.answered { status := response.status, body := some { chunks := [response.body], failure := none } }) :=
  ⟨[response.body], List.flatten_singleton, rfl⟩

theorem accepted_of_ok {engine : Engine} {endpoint : AgentEndpoint} {path : String} {response : HttpResponse}
    (h : response.ok = true) : AgentChannel.writeFile engine endpoint path (.answered response) = .ok () := by
  change AgentChannel.accepted engine endpoint _ response = .ok ()
  unfold AgentChannel.accepted
  rw [if_pos h]
  rfl

/-- The tree after the writes, one after the other, each of which is made. -/
def putAll (endpoint : AgentEndpoint) (cwd : Loc) : FileTree → List SandboxFileWrite → Option FileTree
  | t, [] => some t
  | t, file :: files =>
    if (Agent.writeFile t cwd (received (AgentChannel.writeFileRequest endpoint file))).1.status = 200 then
      putAll endpoint cwd (Agent.writeFile t cwd (received (AgentChannel.writeFileRequest endpoint file))).2 files
    else none

theorem puts_of_putAll {engine : Engine} {endpoint : AgentEndpoint} {cwd : Loc} {t t' : FileTree}
    {files : List SandboxFileWrite} (h : putAll endpoint cwd t files = some t') :
    Puts engine endpoint cwd t files t' := by
  induction files generalizing t with
  | nil =>
    cases h
    exact .nil _
  | cons file files ih =>
    rw [putAll, Option.ite_none_right_eq_some] at h
    obtain ⟨hstatus, hrest⟩ := h
    refine .cons (arrives_whole _) (accepted_of_ok ?_) (ih hrest)
    rw [HttpResponse.ok, hstatus]
    rfl

/-- `/f` is written twice, and then another file. -/
def writesOfF : List SandboxFileWrite :=
  [{ path := "/f", content := .bytes [255] }, { path := "/f", content := .text "é" },
    { path := "/d/g", content := .bytes [] }]

/-- What the agent answers a read of `/f` with then. -/
def readOfF (t : FileTree) : Agent.Response :=
  Agent.readFile t [] (received (AgentChannel.readFileRequest agentAt "/f"))

/-- The instances have their channel. -/
def reachedAt (channel : ControlChannel) : Shared :=
  { Shared.init with instances := fun _ => { Instance.fresh with channel := some channel } }

def readable : Node → Bool
  | .file access _ => access.read
  | _ => false

theorem loses_no_byte_written : ∃ t' trace channel bytes, Puts terse agentAt [] bareTree writesOfF t' ∧
    readOfF t' = { status := 200, body := bytes } ∧
    Gives (Adapter.readFile digests mappedConfig 0 (created 0) "/f")
      (trace ++ [⟨.agent channel (.readFile "/f"), .ok (.ok bytes)⟩]) (.ok (.ok ("é", .utf8))) := by
  have hall : (putAll agentAt [] bareTree writesOfF).any (fun t' => (readOfF t').status = 200 ∧
      t'.resolve true [] (bytes "/f") = .ok [bytes "f"] ∧ (t'.get [bytes "f"]).any readable = true ∧
      t'.resolve true [] (bytes "/d/g") ≠ t'.resolve true [] (bytes "/f")) = true := by decide +kernel
  obtain ⟨t', hput, hthen⟩ := (Option.any_eq_true _ _).mp hall
  obtain ⟨hstatus, hleads, hreadable, helse⟩ := of_decide_eq_true hthen
  have hresponse : readOfF t' = { status := 200, body := (readOfF t').body } := by rw [← hstatus]
  obtain ⟨fetched, harrives⟩ : ∃ fetched, Arrives (readOfF t') fetched := ⟨_, arrives_whole _⟩
  have hread : AgentChannel.readFile terse agentAt "/f" fetched = .ok (.ok (readOfF t').body) :=
    readFile_arrived (by rwa [← hresponse])
  have hopen : Leads (fun _ _ => True) (await (openAgent digests mappedConfig 0 (created 0))) (reachedAt agentAt)
      [⟨.turn, ()⟩] (reachedAt agentAt) (.ok agentAt) := leads_openAgent rfl trivial
  have hgives : Gives (Adapter.readFile digests mappedConfig 0 (created 0) "/f") _ _ :=
    (leads_readFile hopen trivial (readOfF t').body).gives
  have htold := (loses_no_byte digests mappedConfig 0 (created 0) "/f").2.2 terse agentAt [] bareTree t'
    [{ path := "/f", content := .bytes [255] }] { path := "/f", content := .text "é" }
    [{ path := "/d/g", content := .bytes [] }] fetched [⟨.turn, ()⟩] agentAt _ (puts_of_putAll hput) rfl
    (List.forall_mem_singleton.mpr helse) harrives (by rw [hread]; exact hgives)
  rcases htold with ⟨content, encoding, hr, -, htext⟩ | ⟨hnot, -⟩ | ⟨-, loc, access, content, hloc, hfile, hnot⟩
  · obtain ⟨rfl, rfl⟩ := htext "é" rfl
    rw [hr] at hgives
    exact ⟨t', _, agentAt, _, puts_of_putAll hput, hresponse, hgives⟩
  · refine absurd (.inl ?_) hnot
    unfold FitsBase64
    decide
  · obtain rfl := Except.ok.inj (hleads.symm.trans hloc)
    rw [hfile] at hreadable
    exact absurd (hreadable.symm.trans hnot) (by decide)

end ComputeArmada.Wire
