import ComputeArmada.Adapter.Channel
import ComputeArmada.Adapter.Reads
import ComputeArmada.Adapter.Variables

/-!
# Calls that promise a typed result

`exec`, the reads, `listFiles`, `isPortReady` and `kill` resolve, whatever fails and wherever; but for a read
whose content fits no string of the engine, which rejects.

* `Named` : of every variable that is stored `withEnvPrefix` takes the name, `named_of_run` : in every run;
* `Ended` : a response that gives an exit code, `run_ok_iff` : what `AgentChannel.run` resolves with;
* `NotFound` : a response that refuses a read with that code, `notFound_of_readFile` : a read that ends so;
* `gives_opened` : the agent is reached, and asked once; `Ran`, `ReadRan` : what a call makes of its answer;
* `Resolves`, `ResolvesJust` : a call that ends, and with a result;
* `typed_results`.
-/

namespace ComputeArmada.Adapter
open Async Runs

/-! ## The names of variables -/

/-- Every variable that is stored has the name of one. -/
def Named (s : Shared) : Prop :=
  ∀ me, ∀ p ∈ (s.instances me).env ++ (s.instances me).envDefaults, isEnvName p.1 = true

theorem Named.setInstance {s : Shared} (h : Named s) {me : Nat} {f : Instance → Instance}
    (hf : ∀ p ∈ (f (s.instances me)).env ++ (f (s.instances me)).envDefaults, isEnvName p.1 = true) :
    Named (s.setInstance me f) := by
  intro me'
  by_cases hme : me' = me
  · subst hme
    simpa [Shared.setInstance] using hf
  · simpa [Shared.setInstance, hme] using h me'

theorem Named.setVars {s : Shared} (h : Named s) (me : Nat) {vars : Record} (onlyIfUnset : Bool)
    (hvars : ∀ p ∈ vars, isEnvName p.1 = true) :
    Named (s.setInstance me fun i => if onlyIfUnset then { i with envDefaults := i.envDefaults.spread vars }
      else { i with env := i.env.spread vars }) := by
  obtain ⟨henv, hdefaults⟩ := List.forall_mem_append.mp (h me)
  refine h.setInstance (List.forall_mem_append.mpr ?_)
  cases onlyIfUnset with
  | true => exact ⟨henv, Record.forall_spread hdefaults hvars⟩
  | false => exact ⟨Record.forall_spread henv hvars, hdefaults⟩

/-- A run that is compared with itself, of which only the names are kept. -/
def naming : Pairing Shared Answer where
  state s s' := SharedTwin s s' ∧ Named s ∧ Named s'
  asked _ _ := True
  answered := AnsweredTwin

section
variable {crypto : Crypto} {config : ArmadaConfig} {made : Nat → Made}

theorem naming_closed : Closed crypto config config naming where
  shared h := h.1
  remember id queue h := ⟨(secrets_closed crypto config config).remember id queue h.1, h.2⟩
  forget id h := ⟨(secrets_closed crypto config config).forget id h.1, h.2⟩
  place id _ _ hp h := ⟨SharedTwin.setPlacement h.1 id hp, h.2⟩
  move me _ _ hf hf' htwin h := by
    obtain ⟨hs, hnamed, hnamed'⟩ := h
    refine ⟨hs.setInstance me htwin, hnamed.setInstance ?_, hnamed'.setInstance ?_⟩
    · rw [(hf _).1, (hf _).2]
      exact hnamed me
    · rw [(hf' _).1, (hf' _).2]
      exact hnamed' me
  warn _ _ h := ⟨⟨h.1.remembered, h.1.placements, h.1.instances⟩, h.2⟩
  asked _ _ := trivial
  answered h := h

theorem naming_body (call : Call) :
    Pair naming ResultTwin (body crypto config made call) (body crypto config made call) := by
  have hP : Closed crypto config (config.withSecrets config.agentTokenSecret config.auth) naming := naming_closed
  refine pair_body hP (AuthTwin.refl _) (fun _ => rfl) (fun _ _ => trivial) ?_ ?_
  · intro s s' me vars vars' onlyIfUnset hkeys hnames hs
    have hnames' : ∀ p ∈ vars', isEnvName p.1 = true := by
      intro p hp
      obtain ⟨q, hq, hqp⟩ := List.mem_map.mp (hkeys.symm ▸ List.mem_map_of_mem hp : p.1 ∈ vars.map (·.1))
      rw [← hqp]
      exact hnames q hq
    exact ⟨SharedTwin.setVars hs.1 _ hkeys onlyIfUnset, hs.2.1.setVars me onlyIfUnset hnames,
      hs.2.2.setVars me onlyIfUnset hnames'⟩
  · cases call with
    | sandbox me op => exact .sandbox me (.same op)
    | listActive pages => exact .listActive pages

/-- Whatever the calls of a process do, and whichever `setEnvVars` it refuses. -/
theorem named_of_run {e : Server} {w : World}
    (h : Run (Fires (process crypto config made).step) Any (World.init e) w) : Named w.shared := by
  have hinit : Named Shared.init := fun _ _ hp => nomatch hp
  have hw : WorldTwin naming Eq (Ends ResultTwin) w w :=
    h.inv (fun w => WorldTwin naming Eq (Ends ResultTwin) w w)
      (fun _ _ _ hw _ hstep => hw.alone naming_body AnsweredTwin.refl hstep)
      (.start ⟨.refl _, hinit, hinit⟩)
  exact hw.shared.2.1

/-- A rejected `setEnvVars` has met a bad name, and leaves everything as it was. -/
theorem leads_setEnvVars {R : Shared → Shared → Prop} {me : Nat} {vars : Record} {onlyIfUnset : Bool}
    {s s' : Shared} {trace : Answers} {r : Except JsError Unit}
    (h : Leads R (setEnvVars me vars onlyIfUnset) s trace s' r) :
    (r = .ok () ∧ ∀ p ∈ vars, isEnvName p.1 = true) ∨
      (∃ x, r = .error x) ∧ s' = s ∧ ∃ p ∈ vars, isEnvName p.1 = false := by
  rcases leads_bind.mp h with ⟨x, rfl, hfail⟩ | ⟨names, before, after, s₁, rfl, hnames, hset⟩
  · obtain ⟨-, rfl, hmap⟩ := leads_ofExcept.mp hfail
    refine .inr ⟨⟨x, rfl⟩, rfl, ?_⟩
    by_contra hall
    have hall : ∀ p ∈ vars, isEnvName p.1 = true := by simpa using hall
    have hnames : ∀ p ∈ vars, Sh.isName p.1 = true := hall
    rw [mapM_ok (g := (·.1)) fun p hp => assertEnvName_ok (hnames p hp)] at hmap
    cases hmap
  · obtain ⟨-, rfl, hmap⟩ := leads_ofExcept.mp hnames
    obtain ⟨-, -, rfl⟩ := leads_modify.mp hset
    exact .inl ⟨rfl, fun p hp => of_assertEnvName (of_mapM_ok hmap.symm p hp).choose_spec⟩

end

/-! ## What the agent answers -/

/-- A line that `run` reads as an event without an error: an object or an array whose output can be decoded. -/
structure IsEvent (engine : Engine) (value : JsonValue) : Prop where
  shape : (∃ members, value = .object members) ∨ ∃ items, value = .array items
  stdout : ∀ text, value.get? "stdout" = some text → ∃ bytes, engine.base64Bytes text = .ok bytes
  stderr : ∀ text, value.get? "stderr" = some text → ∃ bytes, engine.base64Bytes text = .ok bytes
  error : value.get? "error" = none

def hasExit (value : JsonValue) : Bool := (value.get? "exit").isSome

/-- The last of these that has an exit. -/
def lastExit (values : List JsonValue) : Option JsonValue := values.reverse.find? hasExit

theorem exists_exit {values : List JsonValue} {event : JsonValue} (h : lastExit values = some event) :
    ∃ code, event.get? "exit" = some code := by
  have hexit : hasExit event = true := List.find?_some h
  exact Option.isSome_iff_exists.mp hexit

/-- A response that is `ok`, is read to its end, holds nothing but events without an error, and whose last one
with an exit has this one, in time. -/
inductive Ended (engine : Engine) : Fetched → JsonValue → Prop
  | exit {response : HttpResponse} {body : ResponseBody} {values : List JsonValue} {event code : JsonValue}
      (hok : response.ok = true) (hbody : response.body = some body)
      (hread : readNdjson engine body = { values, failure := none })
      (hevents : ∀ value ∈ values, IsEvent engine value) (hlast : lastExit values = some event)
      (hcode : event.get? "exit" = some code) (hintime : booleanOf event "timedOut" ≠ some true) :
      Ended engine (.answered response) code

section
variable {engine : Engine}

theorem of_push {buffers buffers' : List (List UInt8)} {text : Option JsonValue}
    (h : AgentChannel.push engine buffers text = .ok buffers') {text' : JsonValue} (htext : text = some text') :
    ∃ bytes, engine.base64Bytes text' = .ok bytes := by
  subst htext
  obtain ⟨bytes, hbytes, -⟩ := of_bind_ok h
  exact ⟨bytes, hbytes⟩

theorem exists_push (buffers : List (List UInt8)) {text : Option JsonValue}
    (h : ∀ text', text = some text' → ∃ bytes, engine.base64Bytes text' = .ok bytes) :
    ∃ buffers', AgentChannel.push engine buffers text = .ok buffers' := by
  cases text with
  | none => exact ⟨buffers, rfl⟩
  | some text =>
    obtain ⟨bytes, hbytes⟩ := h text rfl
    refine ⟨buffers ++ [bytes], ?_⟩
    change (engine.base64Bytes text >>= fun bytes => pure (buffers ++ [bytes])) = _
    rw [hbytes]
    rfl

theorem of_asEvent {value value' : JsonValue} (h : asEvent value = .ok value') :
    value' = value ∧ ((∃ members, value = .object members) ∨ ∃ items, value = .array items) := by
  unfold asEvent at h
  split at h
  · cases h
    exact ⟨rfl, .inl ⟨_, rfl⟩⟩
  · cases h
    exact ⟨rfl, .inr ⟨_, rfl⟩⟩
  · cases h

theorem asEvent_ok {value : JsonValue} (h : (∃ members, value = .object members) ∨ ∃ items, value = .array items) :
    asEvent value = .ok value := by
  rcases h with ⟨members, rfl⟩ | ⟨items, rfl⟩ <;> rfl

theorem of_onEvent {read read' : AgentChannel.Read} {value : JsonValue}
    (h : AgentChannel.onEvent engine read value = .ok read') :
    IsEvent engine value ∧ read'.exit = if hasExit value then some value else read.exit := by
  unfold AgentChannel.onEvent at h
  obtain ⟨event, hevent, h₁⟩ := of_bind_ok h
  obtain ⟨rfl, hshape⟩ := of_asEvent hevent
  obtain ⟨out, hout, h₂⟩ := of_bind_ok h₁
  obtain ⟨err, herr, h₃⟩ := of_bind_ok h₂
  split at h₃
  · cases h₃
  · rename_i herror
    cases h₃
    exact ⟨⟨hshape, fun text => of_push hout, fun text => of_push herr, herror⟩, rfl⟩

theorem exists_onEvent (read : AgentChannel.Read) {value : JsonValue} (h : IsEvent engine value) :
    ∃ read', AgentChannel.onEvent engine read value = .ok read' := by
  obtain ⟨out, hout⟩ := exists_push read.out h.stdout
  obtain ⟨err, herr⟩ := exists_push read.err h.stderr
  unfold AgentChannel.onEvent
  rw [asEvent_ok h.shape, ok_bind, hout, ok_bind, herr, ok_bind, h.error]
  exact ⟨_, rfl⟩

theorem of_foldlM_onEvent {read read' : AgentChannel.Read} {values : List JsonValue}
    (h : values.foldlM (AgentChannel.onEvent engine) read = .ok read') :
    (∀ value ∈ values, IsEvent engine value) ∧ read'.exit = (lastExit values).or read.exit := by
  induction values generalizing read with
  | nil =>
    cases h
    exact ⟨fun _ hv => (nomatch hv), rfl⟩
  | cons value values ih =>
    rw [List.foldlM_cons] at h
    obtain ⟨read₁, hvalue, hrest⟩ := of_bind_ok h
    obtain ⟨hevent, hexit⟩ := of_onEvent hvalue
    obtain ⟨hevents, hlast⟩ := ih hrest
    refine ⟨List.forall_mem_cons.mpr ⟨hevent, hevents⟩, ?_⟩
    rw [hlast, hexit, lastExit, lastExit, List.reverse_cons, List.find?_append, Option.or_assoc]
    congr 1
    cases hvalue : hasExit value <;> simp [hvalue]

theorem exists_foldlM_onEvent (read : AgentChannel.Read) {values : List JsonValue}
    (h : ∀ value ∈ values, IsEvent engine value) :
    ∃ read', values.foldlM (AgentChannel.onEvent engine) read = .ok read' := by
  induction values generalizing read with
  | nil => exact ⟨read, rfl⟩
  | cons value values ih =>
    obtain ⟨hevent, hevents⟩ := List.forall_mem_cons.mp h
    obtain ⟨read₁, hvalue⟩ := exists_onEvent read hevent
    rw [List.foldlM_cons, hvalue]
    exact ih read₁ hevents

theorem of_readEvents {body : ResponseBody} {read : AgentChannel.Read}
    (h : AgentChannel.readEvents engine body = .ok read) : (readNdjson engine body).failure = none ∧
      (∀ value ∈ (readNdjson engine body).values, IsEvent engine value) ∧
      read.exit = lastExit (readNdjson engine body).values := by
  obtain ⟨read', hfold, hend⟩ := of_bind_ok h
  split at hend
  · cases hend
  · rename_i hfailure
    cases hend
    obtain ⟨hevents, hexit⟩ := of_foldlM_onEvent hfold
    exact ⟨hfailure, hevents, hexit.trans Option.or_none⟩

theorem exists_readEvents {body : ResponseBody} (hfailure : (readNdjson engine body).failure = none)
    (hevents : ∀ value ∈ (readNdjson engine body).values, IsEvent engine value) :
    ∃ read, AgentChannel.readEvents engine body = .ok read := by
  obtain ⟨read, hfold⟩ := exists_foldlM_onEvent { out := [], err := [], exit := none } hevents
  refine ⟨read, ?_⟩
  simp only [AgentChannel.readEvents, hfold, ok_bind, hfailure]
  rfl

theorem exec_ok_iff {fetched : Fetched} {response : HttpResponse} :
    AgentChannel.exec engine fetched = .ok response ↔ fetched = .answered response ∧ response.ok = true := by
  constructor
  · intro h
    unfold AgentChannel.exec at h
    split at h
    · cases h
    · split at h
      · rename_i hok
        cases h
        exact ⟨rfl, hok⟩
      · obtain ⟨refusal, -, hthrow⟩ := of_bind_ok h
        cases hthrow
  · rintro ⟨rfl, hok⟩
    exact if_pos hok

theorem bodyOf_ok_iff {response : HttpResponse} {body : ResponseBody} :
    bodyOf response = .ok body ↔ response.body = some body := by
  unfold bodyOf
  split
  · rename_i hbody
    rw [hbody, Except.ok.injEq, Option.some.injEq]
  · rename_i hbody
    rw [hbody]
    exact ⟨fun h => (nomatch h), fun h => (nomatch h)⟩

/-- `run` resolves with an exit code exactly if the response gives it. -/
theorem run_ok_iff {endpoint : AgentEndpoint} {command : List String} {timeoutMs : Option Nat} {fetched : Fetched}
    {code : JsonValue} :
    (∃ result, AgentChannel.run engine endpoint command timeoutMs fetched = .ok result ∧ result.exitCode = code) ↔
      Ended engine fetched code := by
  constructor
  · rintro ⟨result, hrun, rfl⟩
    unfold AgentChannel.run at hrun
    split at hrun
    · cases hrun
    rename_i read hread
    obtain ⟨response, hexec, hrest⟩ := of_bind_ok hread
    obtain ⟨body, hbody, hevents⟩ := of_bind_ok hrest
    obtain ⟨rfl, hok⟩ := exec_ok_iff.mp hexec
    obtain ⟨hfailure, hall, hlast⟩ := of_readEvents hevents
    split at hrun
    · cases hrun
    rename_i event hexit
    split at hrun
    · cases hrun
    rename_i hintime
    cases hrun
    have hevent : lastExit (readNdjson engine body).values = some event := hlast ▸ hexit
    obtain ⟨code, hcode⟩ := exists_exit hevent
    rw [hcode]
    exact .exit hok (bodyOf_ok_iff.mp hbody) (by rw [← hfailure]) hall hevent hcode hintime
  · rintro ⟨hok, hbody, hread, hevents, hlast, hcode, hintime⟩
    rename_i response body values event
    obtain ⟨read, hdone⟩ : ∃ read, AgentChannel.readEvents engine body = .ok read :=
      exists_readEvents (by rw [hread]) (by rwa [hread])
    have hexit : read.exit = some event := by
      rw [(of_readEvents hdone).2.2, hread]
      exact hlast
    unfold AgentChannel.run
    rw [exec_ok_iff.mpr ⟨rfl, hok⟩, ok_bind, bodyOf_ok_iff.mpr hbody, ok_bind, hdone]
    simp only [hexit, if_neg hintime]
    exact ⟨_, rfl, by rw [hcode]; rfl⟩

/-- A response that refuses a read with the code `not_found`. -/
inductive NotFound (engine : Engine) : Fetched → Prop
  | refused {response : HttpResponse} {text : String} {parsed : JsonValue} (hok : response.ok = false)
      (htext : response.text = .ok text) (hparse : engine.parse text.toList = .ok parsed)
      (hcode : stringOf parsed "code" = some "not_found") : NotFound engine (.answered response)

theorem of_refusalOf {response : HttpResponse} {refusal : AgentRefusal} (h : refusalOf engine response = .ok refusal)
    {code : String} (hcode : refusal.code = some code) : ∃ text parsed, response.text = .ok text ∧
      engine.parse text.toList = .ok parsed ∧ stringOf parsed "code" = some code := by
  unfold refusalOf at h
  obtain ⟨text, htext, hrest⟩ := of_bind_ok h
  split at hrest
  · rename_i parsed hparse
    cases hrest
    exact ⟨text, parsed, htext, hparse, hcode⟩
  · cases hrest
    cases hcode

theorem notFound_of_readRefused {endpoint : AgentEndpoint} {what : String} {response : HttpResponse}
    (hok : ¬ response.ok = true) (h : AgentChannel.readRefused engine endpoint what response = .ok .notFound) :
    NotFound engine (.answered response) := by
  unfold AgentChannel.readRefused at h
  obtain ⟨refusal, hrefusal, hrest⟩ := of_bind_ok h
  split at hrest
  · rename_i hcode
    obtain ⟨text, parsed, htext, hparse, hcode⟩ := of_refusalOf hrefusal hcode
    exact .refused (Bool.eq_false_of_not_eq_true hok) htext hparse hcode
  · split at hrest
    · cases hrest
    · cases hrest

theorem of_request {endpoint : AgentEndpoint} {what : String} {fetched : Fetched} {response : HttpResponse}
    (h : AgentChannel.request endpoint what fetched = .ok response) : fetched = .answered response := by
  unfold AgentChannel.request at h
  split at h
  · cases h
  · cases h
    rfl

theorem notFound_of_readFile {endpoint : AgentEndpoint} {path : String} {fetched : Fetched}
    (h : AgentChannel.readFile engine endpoint path fetched = .ok .notFound) : NotFound engine fetched := by
  unfold AgentChannel.readFile at h
  obtain ⟨response, hresponse, hrest⟩ := of_bind_ok h
  obtain rfl := of_request hresponse
  split at hrest
  · obtain ⟨bytes, -, hbytes⟩ := of_bind_ok hrest
    cases hbytes
  · rename_i hok
    exact notFound_of_readRefused hok hrest

theorem notFound_of_readFileBounded {endpoint : AgentEndpoint} {path : String} {maxBytes : Nat} {fetched : Fetched}
    (h : AgentChannel.readFileBounded engine endpoint path maxBytes fetched = .ok .notFound) :
    NotFound engine fetched := by
  unfold AgentChannel.readFileBounded at h
  obtain ⟨response, hresponse, hrest⟩ := of_bind_ok h
  obtain rfl := of_request hresponse
  split at hrest
  · split at hrest <;> cases hrest
  · rename_i hok
    exact notFound_of_readRefused hok hrest

end

/-! ## What a call asks of the agent -/

/-- The agents' answers are what the channels make of these responses. -/
def Served (engine : Engine) (serve : AgentEndpoint → AgentRequest → AgentChannel.Transport) (trace : Answers) : Prop :=
  ∀ endpoint request answer, ⟨.agent endpoint request, answer⟩ ∈ trace →
    answer = AgentChannel.reply engine endpoint request (serve endpoint request)

/-- No agent is asked anything but whether it is there. -/
def Silent (trace : Answers) : Prop :=
  ∀ endpoint request answer, (⟨.agent endpoint request, answer⟩ : Σ q, Answer q) ∉ trace

/-- A run that is compared with itself, of which only that matters. -/
def reaching : Pairing Shared Answer where
  state := SharedTwin
  asked q _ := ∀ channel request, q ≠ .agent channel request
  answered := AnsweredTwin

section
variable {crypto : Crypto} {config : ArmadaConfig} {me : Nat} {made : Made} {trace : Answers}

theorem reaching_closed : Closed crypto config config reaching where
  shared h := h
  remember id queue h := (secrets_closed crypto config config).remember id queue h
  forget id h := (secrets_closed crypto config config).forget id h
  place id _ _ hp h := SharedTwin.setPlacement h id hp
  move me _ _ _ _ hf h := SharedTwin.setInstance h me hf
  warn _ _ h := ⟨h.remembered, h.placements, h.instances⟩
  asked _ hquiet := hquiet
  answered h := h

theorem silent_openAgent {r : Except JsError ControlChannel}
    (h : Gives (await (openAgent crypto config me made)) trace r) : Silent trace := by
  have hP : Closed crypto config (config.withSecrets config.agentTokenSecret config.auth) reaching := reaching_closed
  have hopen := pair_await hP (pair_openAgent hP (AuthTwin.refl _) me made rfl)
  intro endpoint request answer hmem
  exact (hopen.gives SharedTwin.refl AnsweredTwin.refl h).2 _ hmem endpoint request rfl

theorem gives_opened {α : Type} {f : ControlChannel → M α} {r : Except JsError α}
    (h : Gives (await (openAgent crypto config me made) >>= f) trace r) :
    (Silent trace ∧ ∃ x, r = .error x) ∨
      ∃ channel before after, trace = before ++ after ∧ Silent before ∧ Gives (f channel) after r := by
  rcases gives_bind.mp h with ⟨x, rfl, hopen⟩ | ⟨channel, before, after, rfl, hopen, hf⟩
  · exact .inl ⟨silent_openAgent hopen, x, rfl⟩
  · exact .inr ⟨channel, before, after, rfl, silent_openAgent hopen, hf⟩

/-- What `exec` asks of an agent, and what it makes of the answer. -/
inductive Ran : Answers → ExecResult → Prop
  | unreached {trace result} (h : Silent trace) (hcode : result.code = some "BACKEND_ERROR") : Ran trace result
  | failed {before channel command timeoutMs cause result} (h : Silent before)
      (hcode : result.code = some "BACKEND_ERROR") :
      Ran (before ++ [⟨.agent channel (.run command timeoutMs), .error cause⟩]) result
  | ran {before channel command timeoutMs} (given : CommandResult) (h : Silent before) :
      Ran (before ++ [⟨.agent channel (.run command timeoutMs), .ok given⟩]) (toExecResult given)

theorem gives_tried {command : List String} {timeoutMs : Option Nat} {r : Except JsError ExecResult}
    (h : Gives (do
      let channel ← await (openAgent crypto config me made)
      let result ← .ofExcept (← ask (.agent channel (.run command timeoutMs)))
      pure (toExecResult result)) trace r) :
    (Silent trace ∧ ∃ x, r = .error x) ∨
      ∃ before channel, ∃ answer : Except JsError CommandResult, Silent before ∧
        trace = before ++ [⟨.agent channel (.run command timeoutMs), answer⟩] ∧ r = answer.map toExecResult := by
  rcases gives_opened h with hsilent | ⟨channel, before, after, rfl, hbefore, hasked⟩
  · exact .inl hsilent
  obtain ⟨answer, rest, rfl, hrest⟩ := gives_asked.mp hasked
  change Except JsError CommandResult at answer
  refine .inr ⟨before, channel, answer, hbefore, ?_⟩
  cases answer with
  | error cause =>
    cases hrest
    exact ⟨rfl, rfl⟩
  | ok result =>
    cases hrest
    exact ⟨rfl, rfl⟩

/-- With names that are taken, `exec` resolves. -/
theorem leads_exec {R : Shared → Shared → Prop} {cmd : String} {timeout : Option Nat} {s s' : Shared}
    {r : Except JsError ExecResult} (hs : Named s)
    (h : Leads R (exec crypto config me made cmd timeout) s trace s' r) :
    ∃ result, r = .ok result ∧ Ran trace result := by
  have hbody := leads_get.mp h
  change Leads R (Prog.ofExcept (withEnvPrefix cmd (s.instances me).env (s.instances me).envDefaults) >>= _) s
    trace s' r at hbody
  rw [withEnvPrefix_eq (hs me)] at hbody
  rcases gives_tryCatch.mp (hbody : Leads R (tryCatch _ _) s trace s' r).gives with
    ⟨result, rfl, htried⟩ | ⟨cause, before, after, rfl, htried, hcaught⟩
  · refine ⟨result, rfl, ?_⟩
    rcases gives_tried htried with ⟨-, x, hx⟩ | ⟨before, channel, answer, hbefore, rfl, hr⟩
    · cases hx
    · cases answer with
      | error cause => cases hr
      | ok given =>
        cases hr
        exact .ran given hbefore
  · obtain ⟨rfl, rfl⟩ := gives_pure.mp hcaught
    refine ⟨_, rfl, ?_⟩
    rw [List.append_nil]
    rcases gives_tried htried with ⟨hsilent, -⟩ | ⟨before, channel, answer, hbefore, rfl, hr⟩
    · exact .unreached hsilent rfl
    · cases answer with
      | error cause => exact .failed hbefore rfl
      | ok given => cases hr

/-- What a read asks of an agent, and what it makes of the answer. -/
inductive ReadRan (encode : List UInt8 → Except JsError (String × Encoding))
    (asked : ControlChannel → Except JsError ReadFileOutcome → Σ q, Answer q) :
    Answers → Except JsError ReadFileResult → Prop
  | unreached {quiet : Answers} (h : Silent quiet) : ReadRan encode asked quiet (.ok (.error "BACKEND_ERROR"))
  | reached {before : Answers} (channel : ControlChannel) (outcome : Except JsError ReadFileOutcome)
    (h : Silent before) :
      ReadRan encode asked (before ++ [asked channel outcome]) (told encode outcome)

theorem readRan_readFile {path : String} {r : Except JsError ReadFileResult}
    (h : Gives (readFile crypto config me made path) trace r) :
    ReadRan contentOf (fun channel outcome => ⟨.agent channel (.readFile path), outcome⟩) trace r := by
  obtain ⟨before, after, opened, rfl, hopen, ⟨rfl, rfl⟩ | ⟨channel, outcome, rfl, rfl⟩⟩ := gives_readFile h
  · exact .unreached (silent_openAgent hopen)
  · rw [List.append_cons]
    exact .reached channel outcome (silent_openAgent hopen)

theorem readRan_readFileBounded {path : String} {maxBytes timeoutMs : Number} {m t : Nat}
    {r : Except JsError ReadFileResult}
    (h : Gives (readFileBounded crypto config me made path maxBytes timeoutMs) trace r)
    (hbudget : validBudget maxBytes timeoutMs = some (m, t)) :
    ReadRan base64Of (fun channel outcome => ⟨.agent channel (.readFileBounded path m t), outcome⟩) trace r := by
  obtain ⟨before, after, opened, rfl, hopen, ⟨rfl, rfl⟩ | ⟨channel, outcome, rfl, rfl⟩⟩ :=
    gives_readFileBounded h hbudget
  · exact .unreached (silent_openAgent hopen)
  · rw [List.append_cons]
    exact .reached channel outcome (silent_openAgent hopen)

theorem gives_listFiles {path : String} {options : ListFilesOptions} {r : Except JsError ListFilesResult}
    (h : Gives (listFiles crypto config me made path options) trace r) : ∃ result, r = .ok result := by
  rcases gives_bind.mp h with ⟨x, -, hfail⟩ | ⟨listed, before, after, -, -, hrest⟩
  · obtain ⟨r', hr, -⟩ := gives_attempt.mp hfail
    cases hr
  match listed with
  | .error _ | .ok .notADirectory | .ok (.failed _) | .ok (.ok _) =>
    obtain ⟨-, rfl⟩ := gives_pure.mp hrest
    exact ⟨_, rfl⟩

theorem gives_isPortReady {port : Nat} {mode : Option ProbeMode} {path : Option String} {r : Except JsError Bool}
    (h : Gives (isPortReady me made port mode path) trace r) : ∃ result, r = .ok result := by
  obtain ⟨s, hs⟩ := gives_get.mp h
  split at hs
  · obtain ⟨-, rfl⟩ := gives_pure.mp hs
    exact ⟨_, rfl⟩
  · obtain ⟨answer, rest, -, hrest⟩ := gives_asked.mp hs
    change Except JsError PortWait at answer
    cases answer with
    | ok wait =>
      obtain ⟨-, rfl⟩ := gives_pure.mp hrest
      exact ⟨_, rfl⟩
    | error cause =>
      obtain ⟨-, rfl⟩ := gives_pure.mp hrest
      exact ⟨_, rfl⟩

end

theorem gives_kill {process : ArmadaProcess} {signal : Option String} {trace : Answers} {r : Except JsError Unit}
    (h : Gives (kill process signal) trace r) : ∃ result, r = .ok result := by
  rcases gives_tryCatch.mp h with ⟨result, rfl, -⟩ | ⟨cause, before, after, -, -, hcaught⟩
  · exact ⟨result, rfl⟩
  · obtain ⟨-, rfl⟩ := gives_pure.mp hcaught
    exact ⟨_, rfl⟩

/-! ## Which result it is -/

section
variable {engine : Engine} {serve : AgentEndpoint → AgentRequest → AgentChannel.Transport}

/-- The agent has run a command, and its response gives this exit code. -/
def Exits (engine : Engine) (serve : AgentEndpoint → AgentRequest → AgentChannel.Transport) (trace : Answers)
    (code : JsonValue) : Prop :=
  ∃ endpoint command timeoutMs answer, ⟨.agent endpoint (.run command timeoutMs), answer⟩ ∈ trace ∧
    Ended engine (serve endpoint (.run command timeoutMs)).fetched code

theorem Silent.not_exits {trace : Answers} (h : Silent trace) (code : JsonValue) : ¬ Exits engine serve trace code :=
  fun ⟨_, _, _, _, hmem, _⟩ => h _ _ _ hmem

theorem exits_iff {before : Answers} {channel : ControlChannel} {command : List String} {timeoutMs : Option Nat}
    {answer : Except JsError CommandResult} (hbefore : Silent before)
    (hserved : Served engine serve (before ++ [⟨.agent channel (.run command timeoutMs), answer⟩]))
    (code : JsonValue) :
    Exits engine serve (before ++ [⟨.agent channel (.run command timeoutMs), answer⟩]) code ↔
      ∃ given, answer = .ok given ∧ given.exitCode = code := by
  have hanswer := hserved channel (.run command timeoutMs) answer
    (List.mem_append_right _ (List.mem_singleton_self _))
  rw [hanswer]
  refine Iff.trans ?_ run_ok_iff.symm
  constructor
  · rintro ⟨endpoint, command', timeoutMs', answer', hmem, hended⟩
    rcases List.mem_append.mp hmem with hmem | hmem
    · exact absurd hmem (hbefore _ _ _)
    · cases List.mem_singleton.mp hmem
      exact hended
  · intro hended
    exact ⟨channel, command, timeoutMs, _, List.mem_append_right _ (List.mem_singleton_self _), hended⟩

/-- What the code of a result says of the response. -/
structure Classified (engine : Engine) (serve : AgentEndpoint → AgentRequest → AgentChannel.Transport)
    (trace : Answers) (result : ExecResult) : Prop where
  success : result.code = none ↔ ∃ code, Exits engine serve trace code ∧ isZero code = true
  failed : result.code = some "COMMAND_FAILED" ↔ ∃ code, Exits engine serve trace code ∧ isZero code = false
  backend : result.code = some "BACKEND_ERROR" ↔ ∀ code, ¬ Exits engine serve trace code

theorem Classified.of_not_exits {trace : Answers} {result : ExecResult} (hcode : result.code = some "BACKEND_ERROR")
    (h : ∀ code, ¬ Exits engine serve trace code) : Classified engine serve trace result where
  success := ⟨fun hnone => absurd (hcode.symm.trans hnone) (by decide), fun ⟨code, hexit, _⟩ => absurd hexit (h code)⟩
  failed := ⟨fun hfailed => absurd (hcode.symm.trans hfailed) (by decide),
    fun ⟨code, hexit, _⟩ => absurd hexit (h code)⟩
  backend := ⟨fun _ => h, fun _ => hcode⟩

theorem Classified.of_exits {trace : Answers} {given : CommandResult}
    (h : ∀ code, Exits engine serve trace code ↔ given.exitCode = code) :
    Classified engine serve trace (toExecResult given) := by
  unfold toExecResult
  cases hzero : isZero given.exitCode <;> constructor <;> simp [h, hzero]

theorem Ran.classified {trace : Answers} {result : ExecResult} (h : Ran trace result)
    (hserved : Served engine serve trace) : Classified engine serve trace result := by
  cases h with
  | unreached hsilent hcode => exact .of_not_exits hcode hsilent.not_exits
  | failed hbefore hcode =>
    refine .of_not_exits hcode fun code hexit => ?_
    obtain ⟨given, hgiven, -⟩ := (exits_iff hbefore hserved code).mp hexit
    cases hgiven
  | ran given hbefore =>
    refine .of_exits fun code => (exits_iff hbefore hserved code).trans ?_
    constructor
    · rintro ⟨given', hgiven, hcode⟩
      cases hgiven
      exact hcode
    · exact fun hcode => ⟨given, rfl, hcode⟩

end

/-! ## In any run -/

/-- However it is answered, and whatever the others do as it waits, the call ends, and with a result of which
`Φ` holds. -/
structure Resolves {α : Type} (p : M α) (s : Shared) (Φ : Answers → α → Prop) : Prop where
  ends : ∀ answer : (q : Request) → Answer q, ∃ trace s' r, Leads (fun _ _ => True) p s trace s' r ∧
    ∀ x ∈ trace, x.2 = answer x.1
  resolves : ∀ trace s' r, Leads (fun _ _ => True) p s trace s' r → ∃ a, r = .ok a ∧ Φ trace a

theorem Resolves.of_leads {α : Type} {p : M α} {s : Shared} {Φ : Answers → α → Prop}
    (h : ∀ trace s' r, Leads (fun _ _ => True) p s trace s' r → ∃ a, r = .ok a ∧ Φ trace a) : Resolves p s Φ :=
  ⟨fun answer => ⟨_, _, _, leads_play (fun _ => trivial) answer p s, answered_play answer p s⟩, h⟩

/-- The call ends, and with a result of which `Φ` holds just where `fits` does of the answers. -/
structure ResolvesJust {α : Type} (p : M α) (s : Shared) (fits : Answers → Prop) (Φ : Answers → α → Prop) : Prop where
  ends : ∀ answer : (q : Request) → Answer q, ∃ trace s' r, Leads (fun _ _ => True) p s trace s' r ∧
    ∀ x ∈ trace, x.2 = answer x.1
  resolves : ∀ trace s' r, Leads (fun _ _ => True) p s trace s' r → fits trace → ∃ a, r = .ok a ∧ Φ trace a
  rejects : ∀ trace s' r, Leads (fun _ _ => True) p s trace s' r → ¬ fits trace → ∃ x, r = .error x

/-- The bytes that an agent answers a read with. -/
def readBytes : (Σ q : Request, Answer q) → Option (List UInt8)
  | ⟨.agent _ (.readFile _), .ok (.ok bytes)⟩ => some bytes
  | ⟨.agent _ (.readFileBounded _ _ _), .ok (.ok bytes)⟩ => some bytes
  | _ => none

/-- Whatever bytes the agent answers with fit. -/
def Fitting (fits : List UInt8 → Prop) (trace : Answers) : Prop :=
  ∀ x ∈ trace, ∀ bytes, readBytes x = some bytes → fits bytes

theorem Silent.fitting {trace : Answers} (h : Silent trace) (fits : List UInt8 → Prop) : Fitting fits trace := by
  rintro ⟨q, answer⟩ hmem bytes hbytes
  unfold readBytes at hbytes
  split at hbytes
  · rename_i heq
    cases heq
    exact absurd hmem (h _ _ _)
  · rename_i heq
    cases heq
    exact absurd hmem (h _ _ _)
  · cases hbytes

/-- A read that says `NOT_FOUND` was told so by the agent, to a request of these. -/
def ToldNotFound (engine : Engine) (requests : AgentRequest → Prop) (trace : Answers)
    (result : ReadFileResult) : Prop :=
  ∀ serve, Served engine serve trace → result = .error "NOT_FOUND" → ∃ endpoint request answer,
    requests request ∧ ⟨.agent endpoint request, answer⟩ ∈ trace ∧ NotFound engine (serve endpoint request).fetched

section
variable {crypto : Crypto} {config : ArmadaConfig} {engine : Engine} {me : Nat} {made : Made} {s : Shared}
  {encode : List UInt8 → Except JsError (String × Encoding)} {fits : List UInt8 → Prop}
  {asked : ControlChannel → Except JsError ReadFileOutcome → Σ q, Answer q} {trace : Answers}
  {r : Except JsError ReadFileResult}

/-- A read resolves just where its content has a string, and with `NOT_FOUND` only where the agent says so. -/
theorem ReadRan.settles (h : ReadRan encode asked trace r)
    (hbytes : ∀ channel outcome bytes, readBytes (asked channel outcome) = some bytes ↔ outcome = .ok (.ok bytes))
    (hfits : ∀ bytes, (∃ content, encode bytes = .ok content) ↔ fits bytes) :
    (Fitting fits trace ∧ ∃ result, r = .ok result ∧
      (result = .error "NOT_FOUND" → ∃ channel, asked channel (.ok .notFound) ∈ trace)) ∨
    ¬ Fitting fits trace ∧ ∃ x, r = .error x := by
  cases h with
  | unreached h => exact .inl ⟨h.fitting fits, _, rfl, fun hcode => absurd (Except.error.inj hcode) (by decide)⟩
  | @reached before channel outcome h =>
    have hlast : asked channel outcome ∈ before ++ [asked channel outcome] :=
      List.mem_append_right _ (List.mem_singleton_self _)
    have hfitting : Fitting fits (before ++ [asked channel outcome]) ↔ ∀ bytes, outcome = .ok (.ok bytes) →
      fits bytes := by
      refine ⟨fun hall bytes ho => hall _ hlast bytes ((hbytes _ _ _).mpr ho), fun hall x hx bytes hb => ?_⟩
      rcases List.mem_append.mp hx with hx | hx
      · exact h.fitting fits x hx bytes hb
      · obtain rfl := List.mem_singleton.mp hx
        exact hall bytes ((hbytes _ _ _).mp hb)
    rcases outcome with cause | bytes | _ | message
    case error | ok.failed =>
      exact .inl ⟨hfitting.mpr (by simp), _, rfl, fun hcode => absurd (Except.error.inj hcode) (by decide)⟩
    case ok.notFound => exact .inl ⟨hfitting.mpr (by simp), _, rfl, fun _ => ⟨channel, hlast⟩⟩
    case ok.ok =>
      cases hcontent : encode bytes with
      | ok content =>
        refine .inl ⟨hfitting.mpr ?_, .ok content, by rw [told, hcontent]; rfl, fun hcode => by cases hcode⟩
        rintro _ ⟨⟩
        exact (hfits bytes).mp ⟨content, hcontent⟩
      | error x =>
        refine .inr ⟨fun hall => ?_, x, by rw [told, hcontent]; rfl⟩
        obtain ⟨content, hok⟩ := (hfits bytes).mpr (hfitting.mp hall bytes rfl)
        cases hcontent.symm.trans hok

theorem ResolvesJust.of_ran {p : M ReadFileResult} {requests : AgentRequest → Prop}
    (hran : ∀ trace r, Gives p trace r → ReadRan encode asked trace r)
    (hbytes : ∀ channel outcome bytes, readBytes (asked channel outcome) = some bytes ↔ outcome = .ok (.ok bytes))
    (hfits : ∀ bytes, (∃ content, encode bytes = .ok content) ↔ fits bytes)
    (hnotFound : ∀ trace channel serve, asked channel (.ok .notFound) ∈ trace → Served engine serve trace →
      ∃ endpoint request answer, requests request ∧ ⟨.agent endpoint request, answer⟩ ∈ trace ∧
        NotFound engine (serve endpoint request).fetched) :
    ResolvesJust p s (Fitting fits) (ToldNotFound engine requests) where
  ends answer := ⟨_, _, _, leads_play (fun _ => trivial) answer p s, answered_play answer p s⟩
  resolves trace s' r h hfitting := by
    rcases (hran trace r h.gives).settles hbytes hfits with ⟨-, result, rfl, hcode⟩ | ⟨hnot, -⟩
    · refine ⟨result, rfl, fun serve hserved hresult => ?_⟩
      obtain ⟨channel, hmem⟩ := hcode hresult
      exact hnotFound trace channel serve hmem hserved
    · exact absurd hfitting hnot
  rejects trace s' r h hnot := by
    rcases (hran trace r h.gives).settles hbytes hfits with ⟨hfitting, -⟩ | ⟨-, hrejects⟩
    · exact absurd hfitting hnot
    · exact hrejects

theorem readBytes_iff {channel : ControlChannel} {path : String} {outcome : Except JsError ReadFileOutcome}
    {bytes : List UInt8} : readBytes ⟨.agent channel (.readFile path), outcome⟩ = some bytes ↔
    outcome = .ok (.ok bytes) := by
  match outcome with
  | .error _ | .ok .notFound | .ok (.failed _) | .ok (.ok _) => simp [readBytes]

theorem readBytes_bounded_iff {channel : ControlChannel} {path : String} {m t : Nat}
    {outcome : Except JsError ReadFileOutcome} {bytes : List UInt8} :
    readBytes ⟨.agent channel (.readFileBounded path m t), outcome⟩ = some bytes ↔ outcome = .ok (.ok bytes) := by
  match outcome with
  | .error _ | .ok .notFound | .ok (.failed _) | .ok (.ok _) => simp [readBytes]

theorem resolves_readFile (path : String) : ResolvesJust (readFile crypto config me made path) s (Fitting FitsText)
    (ToldNotFound engine (· = .readFile path)) := by
  refine .of_ran (fun _ _ => readRan_readFile) (fun _ _ _ => readBytes_iff) (fun _ => contentOf_iff) ?_
  intro trace channel serve hmem hserved
  exact ⟨channel, _, _, rfl, hmem, notFound_of_readFile (hserved _ _ _ hmem).symm⟩

theorem resolves_readFileBounded (path : String) (maxBytes timeoutMs : Number) :
    ResolvesJust (readFileBounded crypto config me made path maxBytes timeoutMs) s (Fitting FitsBase64)
      (ToldNotFound engine fun request => ∃ budget, validBudget maxBytes timeoutMs = some budget ∧
        request = .readFileBounded path budget.1 budget.2) := by
  cases hbudget : validBudget maxBytes timeoutMs with
  | none =>
    have hrefused : ∀ trace r, Gives (readFileBounded crypto config me made path maxBytes timeoutMs) trace r →
        trace = [] ∧ r = .ok (.error "READ_FAILED") := by
      intro trace r h
      unfold readFileBounded at h
      rw [hbudget] at h
      exact gives_readFailed h
    refine ⟨fun answer => ⟨_, _, _, leads_play (fun _ => trivial) answer _ s, answered_play answer _ s⟩, ?_, ?_⟩
    · intro trace s' r h _
      obtain ⟨-, rfl⟩ := hrefused trace r h.gives
      exact ⟨_, rfl, fun _ _ hcode => absurd (Except.error.inj hcode) (by decide)⟩
    · intro trace s' r h hnot
      obtain ⟨rfl, -⟩ := hrefused trace r h.gives
      exact absurd (fun _ hx => (nomatch hx)) hnot
  | some budget =>
    refine .of_ran (fun _ _ h => readRan_readFileBounded h hbudget) (fun _ _ _ => readBytes_bounded_iff)
      (fun _ => base64Of_iff) ?_
    intro trace channel serve hmem hserved
    exact ⟨channel, _, _, ⟨_, rfl, rfl⟩, hmem, notFound_of_readFileBounded (hserved _ _ _ hmem).symm⟩

end

/-- **Calls that promise a typed result never reject**, in any state that a process comes to: a `setEnvVars` that
is rejected has met a bad name and leaves everything as it was; `exec`, `listFiles`, `isPortReady` and `kill`
resolve, however their requests are answered, and so does a read, just where the bytes that it is answered with fit
a string. The code of an `exec` is that of the last exit in a response of events only, and `BACKEND_ERROR` where
there is no such response; a read says `NOT_FOUND` only where the agent has. -/
theorem typed_results (crypto : Crypto) (config : ArmadaConfig) (engine : Engine) (made : Nat → Made) {e : Server}
    {w : World} (h : Run (Fires (process crypto config made).step) Any (World.init e) w) (me : Nat) :
    (∀ R vars onlyIfUnset trace s' r, Leads R (setEnvVars me vars onlyIfUnset) w.shared trace s' r →
      (r = .ok () ∧ ∀ p ∈ vars, isEnvName p.1 = true) ∨
        (∃ x, r = .error x) ∧ s' = w.shared ∧ ∃ p ∈ vars, isEnvName p.1 = false) ∧
    (∀ cmd timeout, Resolves (exec crypto config me (made me) cmd timeout) w.shared fun trace result =>
      ∀ serve, Served engine serve trace → Classified engine serve trace result) ∧
    (∀ path, ResolvesJust (readFile crypto config me (made me) path) w.shared (Fitting FitsText)
      (ToldNotFound engine (· = .readFile path))) ∧
    (∀ path maxBytes timeoutMs, ResolvesJust (readFileBounded crypto config me (made me) path maxBytes timeoutMs)
      w.shared (Fitting FitsBase64) (ToldNotFound engine fun request => ∃ budget,
        validBudget maxBytes timeoutMs = some budget ∧ request = .readFileBounded path budget.1 budget.2)) ∧
    (∀ path options, Resolves (listFiles crypto config me (made me) path options) w.shared fun _ _ => True) ∧
    (∀ port mode path, Resolves (isPortReady me (made me) port mode path) w.shared fun _ _ => True) ∧
    ∀ process signal, Resolves (kill process signal) w.shared fun _ _ => True := by
  refine ⟨fun R vars onlyIfUnset trace s' r hset => leads_setEnvVars hset, fun cmd timeout => ?_, resolves_readFile,
    resolves_readFileBounded, fun path options => ?_, fun port mode path => ?_, fun process signal => ?_⟩
  · refine .of_leads fun trace s' r hexec => ?_
    obtain ⟨result, rfl, hran⟩ := leads_exec (named_of_run h) hexec
    exact ⟨result, rfl, fun serve hserved => hran.classified hserved⟩
  · refine .of_leads fun trace s' r hlist => ?_
    obtain ⟨result, rfl⟩ := gives_listFiles hlist.gives
    exact ⟨result, rfl, trivial⟩
  · refine .of_leads fun trace s' r hready => ?_
    obtain ⟨result, rfl⟩ := gives_isPortReady hready.gives
    exact ⟨result, rfl, trivial⟩
  · refine .of_leads fun trace s' r hkill => ?_
    obtain ⟨result, rfl⟩ := gives_kill hkill.gives
    exact ⟨result, rfl, trivial⟩

/-! ## A command that runs -/

def linesOf (text : String) : ResponseBody := { chunks := [text.toUTF8.toList], failure := none }

/-- A response of these lines. -/
def answering (text : String) : Fetched := .answered { status := 200, body := some (linesOf text) }

def startedEvent : EventMessage :=
  { running := some { jobId := some "j0", clusterId := some "c", podName := some "armada-01-0",
                      podNamespace := some "jobs", nodeName := none } }

def addressEvent : EventMessage :=
  { ingressInfo := some { jobId := some "j0", ingressAddresses := some [("2719", "10.0.0.7:30090")] } }

/-- Everything goes well, up to what the agent answers. -/
def reached (fetched : Fetched) : (q : Request) → Answer q
  | .turn => ()
  | .lookedUp _ _ => ()
  | .tokenFile _ => .error (error "ENOENT")
  | .post _ _ (.submit _) => .ok (.ok (.ok { jobResponseItems := some [{ jobId := some "j0", error := none }] }))
  | .post _ _ (.watch _) =>
    .ok (.ok (some { lines := [.result (some startedEvent), .result (some addressEvent)], broken := none }))
  | .post _ _ (.cancel _) => .ok (.ok ())
  | .post _ _ (.status _) => .ok (.ok (.ok { jobStates := none }))
  | .post _ _ (.lookout _) => .ok (.ok (.ok { jobs := none }))
  | .probe _ => .ok
  | .agent endpoint request => AgentChannel.reply laconic endpoint request { fetched }

/-- Of a new sandbox, whose agent answers so, `exec` has a result of this code. -/
def FirstCode (fetched : Fetched) (code : Option String) : Prop := ∃ trace s' result,
  Leads (fun _ _ => True) (exec digests plainConfig 0 (created 0) "run" none) Shared.init trace s' (.ok result) ∧
    Served laconic (fun _ _ => { fetched }) trace ∧ result.code = code

theorem leads_reached {p : M ExecResult} {fetched : Fetched} {s s' : Shared} {trace : Answers}
    {r : Except JsError ExecResult} (h : p.play (reached fetched) s = (trace, s', r)) :
    Leads (fun _ _ => True) p s trace s' r ∧ Served laconic (fun _ _ => { fetched }) trace := by
  have hleads := leads_play (R := fun _ _ => True) (fun _ => trivial) (reached fetched) p s
  have hserved := answered_play (reached fetched) p s
  rw [h] at hleads hserved
  exact ⟨hleads, fun endpoint request answer hmem => hserved _ hmem⟩

theorem firstCode {fetched : Fetched} {code : Option String}
    (h : ((exec digests plainConfig 0 (created 0) "run" none).play (reached fetched) Shared.init).2.2.toOption.map
      (·.code) =
      some code) : FirstCode fetched code := by
  generalize hrun : (exec digests plainConfig 0 (created 0) "run" none).play (reached fetched) Shared.init = run at h
  obtain ⟨trace, s', r⟩ := run
  obtain ⟨hleads, hserved⟩ := leads_reached hrun
  cases r with
  | error x => cases h
  | ok result => exact ⟨trace, s', result, hleads, hserved, Option.some.inj h⟩

/-- One exit, of code 0. -/
def exitZero : Fetched := answering "\x7b\"exit\":0\x7d\n"

/-- And output after it. -/
def exitThenOutput : Fetched := answering "\x7b\"exit\":0\x7d\n\x7b\"stdout\":\"\"\x7d\n"

/-- And before it a line that is no event. -/
def exitAfterNoEvent : Fetched := answering "true\n\x7b\"exit\":0\x7d\n"

theorem typed_results_exit : ∃ trace s' result,
    Leads (fun _ _ => True) (exec digests plainConfig 0 (created 0) "run" none) Shared.init trace s' (.ok result) ∧
    result.code = none ∧ ∃ code, Exits laconic (fun _ _ => { fetched := exitZero }) trace code ∧
    isZero code = true := by
  obtain ⟨trace, s', result, hleads, hserved, hcode⟩ : FirstCode exitZero none := firstCode (by decide +kernel)
  obtain ⟨result', hresult, hclassified⟩ := ((typed_results digests plainConfig laconic created
    (Run.refl (World.init .empty)) 0).2.1 "run" none).resolves _ _ _ hleads
  cases hresult
  exact ⟨trace, s', result, hleads, hcode, (hclassified _ hserved).success.mp hcode⟩

/-- A response that ends in an event with this exit, in time, and with no error before it. -/
inductive EndsIn (engine : Engine) : Fetched → JsonValue → Prop
  | exit {response : HttpResponse} {body : ResponseBody} {before : List JsonValue} {event code : JsonValue}
      (hok : response.ok = true) (hbody : response.body = some body)
      (hread : readNdjson engine body = { values := before ++ [event], failure := none })
      (herror : ∀ value ∈ before, value.get? "error" = none)
      (hcode : event.get? "exit" = some code) (hintime : booleanOf event "timedOut" ≠ some true) :
      EndsIn engine (.answered response) code

theorem EndsIn.last {engine : Engine} {text : String} {code : JsonValue} (h : EndsIn engine (answering text) code) :
    (readNdjson engine (linesOf text)).values.getLast?.bind (·.get? "exit") = some code := by
  cases h with
  | exit _ hbody hread _ hcode _ =>
    cases hbody
    rw [hread, List.getLast?_concat]
    exact hcode

/-- One byte too many for base64, and no text. -/
def tooLarge : List UInt8 := List.replicate (402653166 + 1) 0xff

theorem not_fitsText_tooLarge : ¬ FitsText tooLarge := by
  have hlength : tooLarge.length = 402653167 := List.length_replicate
  rintro (hdata | ⟨htext, -⟩)
  · unfold FitsBase64 maxStringLength at hdata
    omega
  · have hnext : Utf8.next .none 0xff = none := by decide
    refine Utf8.wellFormed_iff.mp htext ?_
    rw [tooLarge, List.replicate_succ, Utf8.decodeFatal, Utf8.fatal, hnext]

/-- The agent of a new sandbox answers a read with these bytes, and the read rejects. -/
def ReadRejects (bytes : List UInt8) : Prop := ∃ trace s' x,
  Leads (fun _ _ => True) (readFile digests plainConfig 0 (created 0) "/f") Shared.init trace s' (.error x) ∧
    (∃ channel, ⟨.agent channel (.readFile "/f"), .ok (.ok bytes)⟩ ∈ trace) ∧
    Served laconic (fun _ _ =>
      { fetched := .answered { status := 200, body := some { chunks := [bytes], failure := none } } }) trace

theorem readRejects_tooLarge : ReadRejects tooLarge := by
  have hopened : ((await (openAgent digests plainConfig 0 (created 0))).play
    (reached exitZero) Shared.init).2.2.toOption.isSome =
      true := by decide +kernel
  have hleads := leads_play (R := fun _ _ => True) (fun _ => trivial) (reached exitZero)
    (await (openAgent digests plainConfig 0 (created 0))) Shared.init
  generalize (await (openAgent digests plainConfig 0 (created 0))).play (reached exitZero) Shared.init = run
    at hopened hleads
  obtain ⟨before, s', opened⟩ := run
  cases opened with
  | error x => cases hopened
  | ok channel =>
    obtain ⟨x, hx⟩ : ∃ x, contentOf tooLarge = .error x := by
      cases hcontent : contentOf tooLarge with
      | error x => exact ⟨x, rfl⟩
      | ok content => exact absurd (contentOf_iff.mp ⟨content, hcontent⟩) not_fitsText_tooLarge
    have hread : Leads (fun _ _ => True) (readFile digests plainConfig 0 (created 0) "/f") Shared.init _ s' _ :=
      leads_readFile hleads trivial tooLarge
    rw [hx] at hread
    refine ⟨_, s', x, hread, ⟨channel, List.mem_append_right _ (List.mem_singleton_self _)⟩,
      fun endpoint request answer hmem => ?_⟩
    rcases List.mem_append.mp hmem with hmem | hmem
    · exact absurd hmem (silent_openAgent hleads.gives _ _ _)
    · cases List.mem_singleton.mp hmem
      change _ = Except.ok (ReadFileOutcome.ok [tooLarge].flatten)
      rw [List.flatten_singleton]

/-- A success whose response ends in output, a failure whose response ends in exit 0, and a read that rejects. -/
theorem typed_results_strict :
    (FirstCode exitThenOutput none ∧ ∀ code, ¬ EndsIn laconic exitThenOutput code) ∧
    (FirstCode exitAfterNoEvent (some "BACKEND_ERROR") ∧
      ∃ code, EndsIn laconic exitAfterNoEvent code ∧ isZero code = true) ∧
    ReadRejects (List.replicate 402653167 0xff) := by
  refine ⟨⟨firstCode (by decide +kernel), fun code hends => ?_⟩, ⟨firstCode (by decide +kernel), ?_⟩,
    readRejects_tooLarge⟩
  · have hnone : ((readNdjson laconic (linesOf "\x7b\"exit\":0\x7d\n\x7b\"stdout\":\"\"\x7d\n")).values.getLast?.bind
        (·.get? "exit")).isNone = true := by decide +kernel
    rw [hends.last] at hnone
    cases hnone
  · have hread : let read := readNdjson laconic (linesOf "true\n\x7b\"exit\":0\x7d\n")
        read.values.length = 2 ∧ read.failure.isNone ∧ (read.values.head?.bind (·.get? "error")).isNone ∧
          ∃ event ∈ read.values.getLast?, (event.get? "exit").any isZero ∧ booleanOf event "timedOut" ≠ some true := by
      decide +kernel
    cases hlines : readNdjson laconic (linesOf "true\n\x7b\"exit\":0\x7d\n") with
    | mk values failure =>
      rw [hlines] at hread
      obtain ⟨hlength, hfailure, hfirst, event, hevent, hexit, hintime⟩ := hread
      obtain ⟨first, last, rfl⟩ := List.length_eq_two.mp hlength
      obtain rfl := Option.isNone_iff_eq_none.mp hfailure
      obtain rfl := Option.some.inj hevent
      obtain ⟨code, hcode, hzero⟩ := (Option.any_eq_true _ _).mp hexit
      have herror : ∀ value ∈ [first], value.get? "error" = none :=
        List.forall_mem_singleton.mpr (Option.isNone_iff_eq_none.mp hfirst)
      exact ⟨code, .exit rfl rfl hlines herror hcode hintime, hzero⟩

end ComputeArmada.Adapter
