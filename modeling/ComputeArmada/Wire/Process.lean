import ComputeArmada.Wire.Asked
import ComputeArmada.Wire.Bounded

/-!
# A process and its pid

A process that the agent has started, as the caller goes on to ask for it: by the pid that it was answered, in
requests and responses as they are sent.

* `PrintsWhole` : whole numbers are printed as they are;
* `processStatus_arrives`, `processLogs_arrives`, `signalProcess_arrives` : what a call comes to, from any state of the
  agent;
* `pid_serves` : the pid that `startProcess` gives goes on to serve the process it was given for.
-/

namespace ComputeArmada.Wire
open Adapter Agent Json.Reader

/-! ## Answers in JSON -/

/-- `String(n)` of a whole number. -/
def PrintsWhole (engine : Engine) : Prop := ∀ n : Nat, n < 2 ^ 53 → engine.numberText n = toString n

section
variable {engine : Engine} {endpoint : AgentEndpoint} {fetched : Fetched}

theorem number_whole (hengine : PrintsWhole engine) {n : Nat} (hn : n < 2 ^ 53) : engine.number n = wholeNumber n := by
  rw [Engine.number, double_natCast hn]
  dsimp only
  rw [hengine n hn]
  rfl

/-- The members of an answer. -/
def Given (engine : Engine) (ms : List (String × List Char × JsonValue)) : Prop :=
  ∀ m ∈ ms, (∀ c ∈ m.1.toList, Plain c) ∧ Written engine.number m.2.1 m.2.2

theorem parse_given {ms : List (String × List Char × JsonValue)} (hms : Given engine ms) :
    engine.parse (objectText (ms.map fun m => (m.1, m.2.1)) ++ ['\n']) =
    .ok (.object (ms.map fun m => (m.1, m.2.2))) := by
  have hblank : ∀ c ∈ ['\n'], Json.isBlank c = true := by decide
  rw [Engine.parse, Json.parse_object_append hms hblank]

/-- The text of an answer, in whatever chunks it comes. -/
theorem text_of_arrives {response : Agent.Response} {text : List Char} (h : Arrives response fetched)
    (hbody : response.body = Utf8.encode ('{' :: text)) : ∃ answer, fetched = .answered answer ∧
      answer.status = response.status ∧ answer.text = .ok (String.ofList ('{' :: text)) := by
  obtain ⟨chunks, hchunks, rfl⟩ := h
  exact ⟨_, rfl, rfl, text_arrived _ (by decide) (hchunks.trans hbody)⟩

theorem objectText_eq (ms : List (String × List Char)) : ∃ text, objectText ms = '{' :: text := ⟨_, rfl⟩

/-- A call whose answer is JSON. -/
theorem asked_arrives {α : Type} {what missing : String} {read : JsonValue → Option α} {a : α}
    {ms : List (String × List Char × JsonValue)} (hms : Given engine ms)
    (h : Arrives (writeJSON (objectText (ms.map fun m => (m.1, m.2.1)))) fetched)
    (hread : read (.object (ms.map fun m => (m.1, m.2.2))) = some a) :
    AgentChannel.asked engine endpoint what missing read fetched = .ok a := by
  obtain ⟨text, htext⟩ := objectText_eq (ms.map fun m => (m.1, m.2.1))
  have hbody : (writeJSON (objectText (ms.map fun m => (m.1, m.2.1)))).body =
    Utf8.encode ('{' :: (text ++ ['\n'])) := by
    rw [htext]
    rfl
  obtain ⟨answer, rfl, hstatus, hanswer⟩ := text_of_arrives h hbody
  have hok : answer.ok = true := by
    rw [HttpResponse.ok, hstatus]
    rfl
  have hparse := parse_given hms
  rw [htext, List.cons_append] at hparse
  have hjson := @json_of_text engine _ _ hanswer
  rw [String.toList_ofList, hparse] at hjson
  unfold AgentChannel.asked AgentChannel.request AgentChannel.accepted
  simp only [bind, Except.bind]
  rw [if_pos hok]
  dsimp only [pure, Except.pure]
  rw [hjson]
  dsimp only
  rw [hread]

/-- What is said of a request that is refused. -/
def refusalText (status : Nat) (message : String) : String := "HTTP " ++ toString status ++ ": " ++ message

theorem refusal_arrives {status : Nat} {message : String} (h : Arrives (writeError status (bytes message)) fetched) :
    ∃ answer, fetched = .answered answer ∧ answer.status = status ∧
      refusalOf engine answer = .ok { code := none, message := refusalText status message } := by
  have hmessage : Written engine.number (jsonString (bytes message)) (.string message) := by
    have hwritten := @written_jsonString _ engine.number (bytes message)
    rwa [← listedPath, listedPath_bytes] at hwritten
  have hms : Given engine [("error", jsonString (bytes message), .string message)] := by
    intro m hm
    obtain rfl := List.mem_singleton.mp hm
    have hkey : ∀ c ∈ "error".toList, Plain c := by decide
    exact ⟨hkey, hmessage⟩
  have hparse := parse_given hms
  simp only [List.map_cons, List.map_nil] at hparse
  obtain ⟨text, htext⟩ := objectText_eq [("error", jsonString (bytes message))]
  have hbody : (writeError status (bytes message)).body = Utf8.encode ('{' :: (text ++ ['\n'])) := by
    rw [writeError, writeCodedError, apiError, if_pos rfl, List.append_nil, htext]
    rfl
  obtain ⟨answer, rfl, hstatus, hanswer⟩ := text_of_arrives h hbody
  rw [htext, List.cons_append] at hparse
  refine ⟨answer, rfl, hstatus, ?_⟩
  have hstatus' : answer.status = status := hstatus
  unfold refusalOf
  rw [hanswer]
  simp only [bind, Except.bind]
  rw [String.toList_ofList, hparse, hstatus']
  simp [stringOf, Json.get?, refusalText, pure, Except.pure]

theorem accepted_refused {status : Nat} {message what : String}
    (h : Arrives (writeError status (bytes message)) fetched)
    (hstatus : 299 < status) :
    ∃ answer, fetched = .answered answer ∧ AgentChannel.accepted engine endpoint what answer =
      .error (AgentChannel.failure endpoint what (error (refusalText status message))) := by
  obtain ⟨answer, rfl, hanswer, hrefusal⟩ := @refusal_arrives engine _ _ _ h
  refine ⟨answer, rfl, ?_⟩
  unfold AgentChannel.accepted
  rw [not_ok (by rw [hanswer]; exact hstatus), if_neg (by decide), hrefusal]
  rfl

theorem asked_refused {α : Type} {what missing message : String} {read : JsonValue → Option α} {status : Nat}
    (h : Arrives (writeError status (bytes message)) fetched) (hstatus : 299 < status) :
    AgentChannel.asked engine endpoint what missing read fetched =
      .error (AgentChannel.failure endpoint what (error (refusalText status message))) := by
  obtain ⟨answer, rfl, haccepted⟩ := @accepted_refused engine endpoint _ _ _ what h hstatus
  unfold AgentChannel.asked AgentChannel.request
  simp only [bind, Except.bind]
  rw [haccepted]

/-! ## Requests -/

theorem escapes_pid : Escapes (bytes "pid") (bytes "pid") := escapes_same (by decide)

theorem query_pid {r : HttpRequest} {path : String} {pid : Nat} (hr : r.path = path ++ "?" ++ ("pid=" ++ toString pid))
    (hpath : '?' ∉ path.toList) : (received r).query "pid" = bytes (toString pid) := by
  have hkey : Utf8.encode (urlQuery "pid=".toList) = bytes "pid" ++ [61] := by decide
  have hplain : 61 ∉ bytes "pid" := by decide
  unfold Agent.Request.query
  rw [(received_path hr hpath).2, String.toList_append, urlQuery_append, Utf8.encode_append, hkey, List.append_assoc,
    List.singleton_append, parseQuery_single escapes_pid hplain (escapes_toString pid)]
  simp [valueOf]

theorem startedByQuery_received {known : Int → Bool} {r : HttpRequest} {path : String} {pid : Nat}
    (hr : r.path = path ++ "?" ++ ("pid=" ++ toString pid)) (hpath : '?' ∉ path.toList) (hpid : pid < 2 ^ 53) :
    startedByQuery known (received r) = findStarted known pid := by
  rw [startedByQuery, query_pid hr hpath, parseInt_toString (by omega)]

theorem statusPath (endpoint : AgentEndpoint) (pid : Nat) :
    (AgentChannel.processStatusRequest endpoint (wholeNumber pid)).path =
      "/process/status" ++ "?" ++ ("pid=" ++ toString pid) := by
  have hmark : "/process/status?pid=" = "/process/status" ++ "?" ++ "pid=" := by decide
  rw [AgentChannel.processStatusRequest, AgentChannel.fetched, hmark, wholeNumber, String.append_assoc]

theorem logsPath (endpoint : AgentEndpoint) (pid : Nat) :
    (AgentChannel.processLogsRequest endpoint (wholeNumber pid)).path =
      "/process/logs" ++ "?" ++ ("pid=" ++ toString pid) := by
  have hmark : "/process/logs?pid=" = "/process/logs" ++ "?" ++ "pid=" := by decide
  rw [AgentChannel.processLogsRequest, AgentChannel.fetched, hmark, wholeNumber, String.append_assoc]

theorem findStarted_some {s : Agent.State} {pid h : Nat} (hs : s.started pid = some h) :
    findStarted s.knows pid = .ok (pid : Int) := by
  have hknown : s.knows pid = true := by
    simp [State.knows, hs]
  rw [findStarted, if_pos hknown]

theorem findStarted_none {s : Agent.State} {pid : Nat} (hs : s.started pid = none) :
    findStarted s.knows pid = .error (writeError 404 (bytes ("unknown pid: " ++ toString pid))) := by
  have hknown : s.knows pid = false := by
    simp [State.knows, hs]
  rw [findStarted, hknown, if_neg (by decide)]
  rfl

theorem signalProcess_none {s : Agent.State} {pid : Nat} (hs : s.started pid = none) (sig : Signal) :
    Agent.signalProcess s pid sig = none := by
  cases sig <;> simp [Agent.signalProcess, hs]

theorem signalProcess_some {s : Agent.State} {pid h : Nat} (hs : s.started pid = some h) (sig : Signal) :
    ∃ t, Agent.signalProcess s pid sig = some t := by
  cases sig <;> simp [Agent.signalProcess, hs]

/-! ## Calls -/

/-- What the answer of `processStatus` is read as. -/
def statusOfEnded (engine : Engine) (ended : Option Int) : Adapter.ProcessStatus :=
  { running := ended.isNone, exitCode := ended.map fun code => engine.number code }

theorem processStatus_answered {what missing : String} (ended : Option Int)
    (h : Arrives (processStatusResponse ended) fetched) :
    AgentChannel.asked engine endpoint what missing statusOf fetched = .ok (statusOfEnded engine ended) := by
  have hkeys : ∀ key ∈ ["running", "exitCode"], ∀ c ∈ key.toList, Plain c := by decide
  match ended with
  | none =>
    have hms : Given engine [("running", "true".toList, .bool true)] := by
      intro m hm
      obtain rfl := List.mem_singleton.mp hm
      exact ⟨hkeys "running" (by simp), written_true⟩
    refine asked_arrives hms h ?_
    simp [statusOf, booleanOf, numberOf, Json.get?, statusOfEnded]
  | some code =>
    have hms : Given engine [("running", "false".toList, .bool false),
        ("exitCode", (toString code).toList, .number (engine.number code))] := by
      intro m hm
      simp only [List.mem_cons, List.not_mem_nil, or_false] at hm
      rcases hm with rfl | rfl
      · exact ⟨hkeys "running" (by simp), written_false⟩
      · exact ⟨hkeys "exitCode" (by simp), written_int code⟩
    refine asked_arrives hms h ?_
    simp [statusOf, booleanOf, numberOf, Json.get?, statusOfEnded]

theorem startProcess_answered (hengine : PrintsWhole engine) {pid : Nat} (hpid : pid < 2 ^ 53) (command : List String)
    (h : Arrives (startProcessResponse pid) fetched) :
    AgentChannel.startProcess engine endpoint command fetched = .ok (wholeNumber pid) := by
  have hms : Given engine [("pid", (toString (pid : Int)).toList, .number (engine.number (pid : Int)))] := by
    intro m hm
    obtain rfl := List.mem_singleton.mp hm
    have hkey : ∀ c ∈ "pid".toList, Plain c := by decide
    exact ⟨hkey, written_int pid⟩
  rw [← number_whole hengine hpid]
  refine asked_arrives hms h ?_
  simp [numberOf, Json.get?]

/-- What a caller is told of a pid that the agent does not know. -/
def unknownPid (what : String) (endpoint : AgentEndpoint) (pid : Nat) : JsError :=
  AgentChannel.failure endpoint (what ++ toString pid) (error (refusalText 404 ("unknown pid: " ++ toString pid)))

section
variable (s : Agent.State) {pid : Nat} (hpid : pid < 2 ^ 53)
include hpid

/-- **Asking for a process** comes to what the agent knows of its pid. -/
theorem processStatus_arrives
    (h : Arrives (answerStatus s (received (AgentChannel.processStatusRequest endpoint (wholeNumber pid)))) fetched) :
    AgentChannel.processStatus engine endpoint (wholeNumber pid) fetched =
      (Agent.processStatus s pid).elim (.error (unknownPid "check process " endpoint pid)) fun ended =>
        .ok (statusOfEnded engine ended) := by
  rw [answerStatus, startedByQuery_received (statusPath endpoint pid) (by decide) hpid] at h
  cases hs : s.started pid with
  | none =>
    rw [findStarted_none hs] at h
    rw [Agent.processStatus, hs]
    exact asked_refused h (by decide)
  | some k =>
    rw [findStarted_some hs] at h
    obtain ⟨ended, hended⟩ : ∃ ended, Agent.processStatus s pid = some ended :=
      ⟨_, by rw [Agent.processStatus, hs]; rfl⟩
    dsimp only at h
    rw [Int.toNat_natCast, hended] at h
    rw [hended]
    exact processStatus_answered ended h

/-- A log as `response.text()` gives it. -/
def logText (data : List UInt8) : String :=
  String.ofList (match Utf8.decode data with
    | [] => []
    | c :: text => if c.toNat = 0xfeff then text else c :: text)

omit hpid in
theorem text_logs (status : Nat) (chunks : List (List UInt8)) :
    HttpResponse.text { status, body := some { chunks, failure := none } } = .ok (logText chunks.flatten) := by
  change (.ok (String.ofList ((TextDecoder.new.decode chunks.flatten).2 ++
    Utf8.finish (TextDecoder.new.decode chunks.flatten).1.pending)) : Except JsError String) = _
  unfold logText TextDecoder.decode TextDecoder.new Utf8.decode
  rw [if_neg (by decide)]
  rcases hread : Utf8.run .none chunks.flatten with ⟨pending, text⟩
  dsimp only
  cases text with
  | nil =>
    dsimp only [List.nil_append]
    cases pending <;> rfl
  | cons c text =>
    dsimp only [List.cons_append]
    by_cases hmark : c.toNat = 0xfeff
    · rw [if_pos hmark, if_pos hmark]
    · rw [if_neg hmark, if_neg hmark, List.cons_append]

/-- **Asking for a log** gives the log of the process that the agent has under the pid. -/
theorem processLogs_arrives (logs : Nat → List UInt8)
    (h : Arrives (answerLogs s logs (received (AgentChannel.processLogsRequest endpoint (wholeNumber pid)))) fetched) :
    AgentChannel.processLogs engine endpoint (wholeNumber pid) fetched =
      (Agent.processLogs s logs pid).elim (.error (unknownPid "read the log of process " endpoint pid)) fun data =>
        .ok (logText data) := by
  rw [answerLogs, startedByQuery_received (logsPath endpoint pid) (by decide) hpid] at h
  unfold AgentChannel.processLogs AgentChannel.request
  cases hs : s.started pid with
  | none =>
    rw [findStarted_none hs] at h
    obtain ⟨answer, rfl, haccepted⟩ := @accepted_refused engine endpoint _ _ _
      ("read the log of process " ++ (wholeNumber pid).text) h (by decide)
    rw [Agent.processLogs, hs]
    simp only [bind, Except.bind]
    rw [haccepted]
    rfl
  | some k =>
    rw [findStarted_some hs] at h
    obtain ⟨data, hdata⟩ : ∃ data, Agent.processLogs s logs pid = some data := ⟨_, by rw [Agent.processLogs, hs]; rfl⟩
    dsimp only at h
    rw [Int.toNat_natCast, hdata] at h
    obtain ⟨chunks, hchunks, rfl⟩ := h
    have hflat : chunks.flatten = data := hchunks
    rw [hdata, Option.elim_some, ← hflat, ← text_logs 200]
    rfl

/-- **A signal** goes to the process that the agent has under the pid. -/
theorem signalProcess_arrives (decodeError : List UInt8 → String) {signal : String} {sig : Signal}
    (hsignal : signalOf signal = some sig)
    (hlength : (received (AgentChannel.signalProcessRequest endpoint (wholeNumber pid) signal)).body.length ≤
      maxRequestBytes)
    (h : Arrives (answerSignal s decodeError
      (received (AgentChannel.signalProcessRequest endpoint (wholeNumber pid) signal))).1 fetched) :
    (answerSignal s decodeError (received (AgentChannel.signalProcessRequest endpoint (wholeNumber pid) signal))).2 =
        (Agent.signalProcess s pid sig).getD s ∧
      AgentChannel.signalProcess engine endpoint (wholeNumber pid) fetched =
        (Agent.signalProcess s pid sig).elim (.error (unknownPid "signal process " endpoint pid)) fun _ => .ok () := by
  have hasked := signal_asked decodeError s.knows endpoint hpid signal _ List.prefix_rfl
  rw [if_pos ⟨rfl, hlength⟩, findSignal, hsignal] at hasked
  rw [answerSignal, hasked] at h ⊢
  unfold AgentChannel.signalProcess AgentChannel.request
  cases hs : s.started pid with
  | none =>
    have hnone := signalProcess_none hs sig
    rw [findStarted_none hs] at h ⊢
    obtain ⟨answer, rfl, haccepted⟩ := @accepted_refused engine endpoint _ _ _
      ("signal process " ++ (wholeNumber pid).text) h (by decide)
    rw [hnone]
    refine ⟨rfl, ?_⟩
    simp only [bind, Except.bind]
    rw [haccepted]
    rfl
  | some k =>
    obtain ⟨t, ht⟩ := signalProcess_some hs sig
    rw [findStarted_some hs] at h ⊢
    obtain ⟨chunks, -, rfl⟩ := h
    rw [ht]
    refine ⟨?_, rfl⟩
    dsimp only [bind, Except.bind, pure, Except.pure]
    rw [Int.toNat_natCast, ht]

end

/-! ## The pid of a process -/

/-- **The pid that `startProcess` gives serves the process it was given for**, in every state that the agent goes on
to: status and log are its own, and a signal reaches no process outside its group. -/
theorem pid_serves (hengine : PrintsWhole engine) (decodeError : List UInt8 → String) (logs : Nat → List UInt8)
    (command : List String) {s t : Agent.State} {h pid : Nat} (hs : Reach KeepsHandles .init s)
    (hanswered : Answered s h pid) (hrun : Reach KeepsHandles s t) (hpid : pid < 2 ^ 53) :
    (∀ fetched, Arrives (startProcessResponse pid) fetched →
      AgentChannel.startProcess engine endpoint command fetched = .ok (wholeNumber pid)) ∧
    (∀ fetched, Arrives (answerStatus t (received (AgentChannel.processStatusRequest endpoint (wholeNumber pid))))
      fetched →
      ∃ ended, AgentChannel.processStatus engine endpoint (wholeNumber pid) fetched = .ok (statusOfEnded engine ended) ∧
        (ended = none ∧ (t.handler h).pc ≠ .done ∨ ∃ code, ended = some code ∧ ExitedWith t h code)) ∧
    (∀ fetched, Arrives (answerLogs t logs (received (AgentChannel.processLogsRequest endpoint (wholeNumber pid))))
      fetched →
      AgentChannel.processLogs engine endpoint (wholeNumber pid) fetched = .ok (logText (logs h))) ∧
    ∀ signal sig fetched, signalOf signal = some sig →
      (received (AgentChannel.signalProcessRequest endpoint (wholeNumber pid) signal)).body.length ≤ maxRequestBytes →
      Arrives (answerSignal t decodeError
        (received (AgentChannel.signalProcessRequest endpoint (wholeNumber pid) signal))).1 fetched →
      AgentChannel.signalProcess engine endpoint (wholeNumber pid) fetched = .ok () ∧
      ∀ u, (t.os.proc u).group ≠ (t.handler h).leader →
        (((answerSignal t decodeError
            (received (AgentChannel.signalProcessRequest endpoint (wholeNumber pid) signal))).2.os.proc u).status =
          (t.os.proc u).status ∧
        ((answerSignal t decodeError
            (received (AgentChannel.signalProcessRequest endpoint (wholeNumber pid) signal))).2.os.proc u).termed =
          (t.os.proc u).termed) := by
  have hstep : ∀ s a t, Handles s → KeepsHandles s a → Agent.step s a = some t → Handles t :=
    fun _ _ _ hi hok hs => hi.step hok.1 hok.2.1 hok.2.2 hs
  have hi := hs.inv Handles hstep .init
  obtain ⟨hi', hanswered'⟩ := hrun.inv (fun t => Handles t ∧ Answered t h pid)
    (fun _ _ _ hi hok hs => ⟨hstep _ _ _ hi.1 hok hs, hi.2.step hi.1.reqs hs⟩) ⟨hi, hanswered⟩
  have hhandle := hi'.handle hanswered'
  refine ⟨fun fetched harrives => startProcess_answered hengine hpid command harrives, fun fetched harrives => ?_,
    fun fetched harrives => ?_, fun signal sig fetched hsignal hlength harrives => ?_⟩
  · have htold := @processStatus_arrives engine endpoint fetched t pid hpid harrives
    rcases hhandle.status with ⟨hstatus, hdone⟩ | ⟨code, hstatus, hexited⟩
    · rw [hstatus] at htold
      exact ⟨none, htold, .inl ⟨rfl, hdone⟩⟩
    · rw [hstatus] at htold
      exact ⟨some code, htold, .inr ⟨code, rfl, hexited⟩⟩
  · have htold := @processLogs_arrives engine endpoint fetched t pid hpid logs harrives
    rwa [hhandle.logs logs] at htold
  · obtain ⟨hafter, htold⟩ := @signalProcess_arrives engine endpoint fetched t pid hpid decodeError signal sig hsignal
      hlength harrives
    obtain ⟨t', ht'⟩ := signalProcess_some hhandle.entry sig
    rw [ht'] at htold hafter
    refine ⟨htold, fun u hu => ?_⟩
    rw [hafter]
    exact signalProcess_reached ht' fun hreached => hu (hhandle.signals u hreached)

end

theorem printsWhole_terse : PrintsWhole terse := fun n _ => by
  change toString ((n : ℚ).num) = toString n
  rw [Rat.num_natCast]
  rfl

/-- A response that comes in one piece. -/
def arrived (response : Agent.Response) : Fetched :=
  .answered { status := response.status, body := some { chunks := [response.body], failure := none } }

theorem arrives_arrived (response : Agent.Response) : Arrives response (arrived response) :=
  ⟨[response.body], by simp, rfl⟩

/-- A process that has exited with 3. -/
theorem pid_serves_detached : ∃ t : Agent.State,
    AgentChannel.startProcess terse agentAt ["sleep", "1"] (arrived (startProcessResponse 7)) = .ok (wholeNumber 7) ∧
    AgentChannel.processStatus terse agentAt (wholeNumber 7)
      (arrived (answerStatus t (received (AgentChannel.processStatusRequest agentAt (wholeNumber 7))))) =
        .ok { running := false, exitCode := some (terse.number (3 : Int)) } := by
  obtain ⟨s, hs, hanswered, t, ht, hdone, hcode⟩ := Runs.Run.exists_of_exec Agent.step KeepsHandles
    (fun s => Answered s 0 7 ∧ ∃ t ∈ Runs.exec Agent.step KeepsHandles s (endsThenExec 8),
      (t.handler 0).pc = .done ∧ (t.os.proc (t.handler 0).leader).code = 3) .init detached (by decide)
  have hserves := @pid_serves terse agentAt printsWhole_terse (fun _ => "EOF") (fun _ => []) ["sleep", "1"] _ _ _ _
    hs hanswered (Runs.Run.of_exec Agent.step _ _ _ _ ht) (by decide)
  refine ⟨t, hserves.1 _ (arrives_arrived _), ?_⟩
  obtain ⟨ended, htold, ⟨-, hrunning⟩ | ⟨code, rfl, -, hcode'⟩⟩ := hserves.2.1 _ (arrives_arrived _)
  · exact absurd hdone hrunning
  · rw [htold, hcode', hcode]
    rfl

end ComputeArmada.Wire
