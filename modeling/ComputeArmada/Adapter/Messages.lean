import ComputeArmada.Adapter.Twins
import ComputeArmada.Adapter.Channel
import ComputeArmada.Adapter.Address

/-!
# What the adapter says

The values that are given to `setEnvVars` and `startProcess` are credentials. No message depends on them: what
the methods of a channel make of a response depends on the program of a command only, and the sandbox adds the
caller's own command.

* `SessionCall` : the calls of a process, with those of the handles of started processes;
* `reply_twin` : a channel says the same of two commands that run one program;
* `messages_same`.
-/

namespace ComputeArmada.Adapter
open Async

/-! ## Calls -/

/-- A call of the provider or of a sandbox, or of a process that a sandbox started. -/
inductive SessionCall
  | call (c : Call)
  | waitForPort (process : ArmadaProcess) (port : Nat) (timeout : Option Nat) (mode : Option ProbeMode)
      (path : Option String)

def sessionBody (crypto : Crypto) (config : ArmadaConfig) (made : Nat → Made) : SessionCall → M Result
  | .call c => body crypto config made c
  | .waitForPort process port timeout mode path => do
    waitForPort process port timeout mode path
    return .done

/-- The same calls, but for the values of variables and the contents of files. -/
inductive SessionTwin : SessionCall → SessionCall → Prop
  | call {c c' : Call} (h : CallTwin c c') : SessionTwin (.call c) (.call c')
  | waitForPort {process process' : ArmadaProcess} (h : process' = { process with channel := process'.channel })
      (hchannel : ChannelTwin process.channel process'.channel) (port : Nat) (timeout : Option Nat)
      (mode : Option ProbeMode) (path : Option String) :
      SessionTwin (.waitForPort process port timeout mode path) (.waitForPort process' port timeout mode path)

/-! ## Answers -/

/-- Two requests that come to the same. -/
inductive SameOutcome (engine : Engine) : (q q' : Request) → Answer q → Answer q' → Prop
  | turn : SameOutcome engine .turn .turn () ()
  | lookedUp (id : SandboxId) (found : Option String) :
      SameOutcome engine (.lookedUp id found) (.lookedUp id found) () ()
  | tokenFile (path : String) (a : Except JsError String) :
      SameOutcome engine (.tokenFile path) (.tokenFile path) a a
  | post (base : String) (authorization authorization' : Option String) (body : Body)
      (a : Except JsError (Response (Reply body))) :
      SameOutcome engine (.post base authorization body) (.post base authorization' body) a a
  | probe (url : String) (a : Probe) : SameOutcome engine (.probe url) (.probe url) a a
  | agent {channel channel' : ControlChannel} {request request' : AgentRequest} (h : ChannelTwin channel channel')
      (hr : AgentTwin request request') (t : AgentChannel.Transport) :
      SameOutcome engine (.agent channel request) (.agent channel' request')
        (AgentChannel.reply engine channel request t) (AgentChannel.reply engine channel' request' t)

section
variable {engine : Engine} {channel channel' : ControlChannel} (h : ChannelTwin channel channel')
include h

theorem place_twin : AgentChannel.place channel = AgentChannel.place channel' := by
  rw [AgentChannel.place, AgentChannel.place, h.pod]

theorem failure_twin : AgentChannel.failure channel = AgentChannel.failure channel' := by
  funext what cause
  rw [AgentChannel.failure, AgentChannel.failure, place_twin h]

omit h in
theorem programOf_twin {command command' : List String} (hc : CommandTwin command command') :
    programOf command = programOf command' := by
  rw [programOf, programOf, hc]

theorem run_twin {command command' : List String} (hc : CommandTwin command command') (timeoutMs : Option Nat)
    (fetched : Fetched) : AgentChannel.run engine channel command timeoutMs fetched =
      AgentChannel.run engine channel' command' timeoutMs fetched := by
  unfold AgentChannel.run runWhat
  rw [failure_twin h, place_twin h, programOf_twin hc]

theorem pull_twin (what : String) (aborted : Bool) (failed : Option JsError) (values : List JsonValue) :
    AgentChannel.pull engine channel what aborted failed values =
      AgentChannel.pull engine channel' what aborted failed values := by
  induction values with
  | nil => rw [AgentChannel.pull, AgentChannel.pull, failure_twin h]
  | cons value values ih => rw [AgentChannel.pull, AgentChannel.pull, failure_twin h, ih]

theorem stream_twin {command command' : List String} (hc : CommandTwin command command') (aborted : Bool)
    (fetched : Fetched) : AgentChannel.stream engine channel command aborted fetched =
      AgentChannel.stream engine channel' command' aborted fetched := by
  unfold AgentChannel.stream runWhat
  simp only [failure_twin h, programOf_twin hc, pull_twin h]

theorem request_twin (what : String) (fetched : Fetched) :
    AgentChannel.request channel what fetched = AgentChannel.request channel' what fetched := by
  unfold AgentChannel.request
  rw [failure_twin h]

theorem accepted_twin (what : String) (response : HttpResponse) :
    AgentChannel.accepted engine channel what response = AgentChannel.accepted engine channel' what response := by
  unfold AgentChannel.accepted
  rw [failure_twin h]

theorem writeFile_twin (path : String) (fetched : Fetched) :
    AgentChannel.writeFile engine channel path fetched = AgentChannel.writeFile engine channel' path fetched := by
  unfold AgentChannel.writeFile
  simp only [request_twin h, accepted_twin h]

theorem readRefused_twin (what : String) (response : HttpResponse) :
    AgentChannel.readRefused engine channel what response = AgentChannel.readRefused engine channel' what response := by
  unfold AgentChannel.readRefused
  rw [failure_twin h]

theorem asked_twin {α : Type} (what missing : String) (read : JsonValue → Option α) (fetched : Fetched) :
    AgentChannel.asked engine channel what missing read fetched =
      AgentChannel.asked engine channel' what missing read fetched := by
  unfold AgentChannel.asked
  simp only [request_twin h, accepted_twin h, failure_twin h]

omit h in
theorem getElem_twin {files files' : List SandboxFileWrite} (hfiles : List.Forall₂ FileTwin files files') (k : Nat) :
    Option.Rel FileTwin files[k]? files'[k]? := by
  induction hfiles generalizing k with
  | nil => exact .none
  | cons hfile _ ih =>
    cases k with
    | zero => exact .some hfile
    | succ k => exact ih k

theorem writeFiles_twin {files files' : List SandboxFileWrite} (hfiles : List.Forall₂ FileTwin files files')
    (t : AgentChannel.Transport) : WrittenTwin (AgentChannel.writeFiles engine channel files t)
      (AgentChannel.writeFiles engine channel' files' t) := by
  have hfile : Option.Rel FileTwin (t.failedWrite.bind (files[·]?)) (t.failedWrite.bind (files'[·]?)) := by
    cases t.failedWrite with
    | none => exact .none
    | some k => exact getElem_twin hfiles k
  unfold AgentChannel.writeFiles
  generalize t.failedWrite.bind (files[·]?) = failed at hfile ⊢
  generalize t.failedWrite.bind (files'[·]?) = failed' at hfile ⊢
  cases hfile with
  | none => exact .ok
  | @some file file' hpath =>
    have hsame : file'.path = file.path := hpath.symm
    simp only [hsame, ← writeFile_twin h]
    cases AgentChannel.writeFile engine channel file.path t.fetched with
    | error cause => exact .error cause hpath
    | ok => exact .ok

/-- What a request of an agent comes to, in two runs: the same, whatever the command's arguments are. -/
theorem reply_twin {request request' : AgentRequest} (hr : AgentTwin request request') (t : AgentChannel.Transport) :
    AnsweredTwin (.agent channel request) (.agent channel' request') (AgentChannel.reply engine channel request t)
      (AgentChannel.reply engine channel' request' t) := by
  cases hr with
  | run timeoutMs hc => exact run_twin h hc timeoutMs t.fetched
  | stream timeoutMs hc => exact stream_twin h hc t.aborted t.fetched
  | writeFiles hfiles => exact writeFiles_twin h hfiles t
  | @startProcess command command' cwd hc =>
    change AgentChannel.startProcess engine channel command t.fetched =
      AgentChannel.startProcess engine channel' command' t.fetched
    rw [AgentChannel.startProcess, AgentChannel.startProcess, programOf_twin hc, asked_twin h]
  | same =>
    cases request with
    | run command timeoutMs => exact run_twin h rfl timeoutMs t.fetched
    | stream command timeoutMs => exact stream_twin h rfl t.aborted t.fetched
    | writeFiles files => exact writeFiles_twin h (List.forall₂_same.mpr fun _ _ => rfl) t
    | readFile path =>
      change AgentChannel.readFile engine channel path t.fetched = AgentChannel.readFile engine channel' path t.fetched
      unfold AgentChannel.readFile
      simp only [request_twin h, readRefused_twin h]
    | readFileBounded path maxBytes timeoutMs =>
      change AgentChannel.readFileBounded engine channel path maxBytes t.fetched =
        AgentChannel.readFileBounded engine channel' path maxBytes t.fetched
      unfold AgentChannel.readFileBounded
      simp only [request_twin h, readRefused_twin h, failure_twin h]
    | listFiles path recursive =>
      change AgentChannel.listFiles engine channel path t.fetched =
        AgentChannel.listFiles engine channel' path t.fetched
      unfold AgentChannel.listFiles
      simp only [request_twin h, failure_twin h]
    | startProcess command cwd => exact asked_twin h _ _ _ t.fetched
    | waitForPort port timeoutMs pid probe => exact asked_twin h _ _ _ t.fetched
    | signalProcess pid signal =>
      change AgentChannel.signalProcess engine channel pid t.fetched =
        AgentChannel.signalProcess engine channel' pid t.fetched
      unfold AgentChannel.signalProcess
      simp only [request_twin h, accepted_twin h]
    | processLogs pid =>
      change AgentChannel.processLogs engine channel pid t.fetched =
        AgentChannel.processLogs engine channel' pid t.fetched
      unfold AgentChannel.processLogs
      simp only [request_twin h, accepted_twin h]

end

/-! ## Two runs -/

/-- Two runs of one configuration that log the same. -/
def session (engine : Engine) : Pairing Shared Answer where
  state s s' := SharedTwin s s' ∧ s.warned = s'.warned
  asked := AskedTwin
  answered := SameOutcome engine

theorem session_closed (crypto : Crypto) (config : ArmadaConfig) (engine : Engine) :
    Closed crypto config config (session engine) where
  shared h := h.1
  remember id queue h := ⟨(secrets_closed crypto config config).remember id queue h.1, h.2⟩
  forget id h := ⟨(secrets_closed crypto config config).forget id h.1, h.2⟩
  place id _ _ hp h := ⟨SharedTwin.setPlacement h.1 id hp, h.2⟩
  move me _ _ _ _ htwin h := ⟨SharedTwin.setInstance h.1 me htwin, h.2⟩
  warn id line h := ⟨⟨h.1.remembered, h.1.placements, h.1.instances⟩, by rw [Shared.warn, Shared.warn, h.2]⟩
  asked h _ := h
  answered h := by
    cases h with
    | turn => trivial
    | lookedUp => trivial
    | tokenFile path a =>
      cases a with
      | error cause => exact .error cause
      | ok text => exact .ok Iff.rfl
    | post => exact HEq.rfl
    | probe => rfl
    | agent h hr t => exact reply_twin h hr t

theorem pair_waitForPort {crypto : Crypto} {config : ArmadaConfig} {engine : Engine} {process process' : ArmadaProcess}
    (h : process' = { process with channel := process'.channel })
    (hchannel : ChannelTwin process.channel process'.channel)
    (port : Nat) (timeout : Option Nat) (mode : Option ProbeMode) (path : Option String) :
    Pair (session engine) Eq (waitForPort process port timeout mode path)
    (waitForPort process' port timeout mode path) := by
  have hpid : process'.pid = process.pid := by rw [h]
  have hplace : process'.place = process.place := by rw [h]
  unfold waitForPort logsQuietly
  rw [hpid, hplace]
  have hP := session_closed crypto config engine
  refine pair_ask hP (.agent hchannel (.same _)) fun a a' ha => ?_
  obtain rfl : a = a' := ha
  refine Pair.bind (Pair.ofExcept (.refl a)) fun wait wait' hwait => ?_
  subst hwait
  split
  · exact Pair.pure rfl
  refine Pair.bind (R := Eq) (pair_ask hP (.agent hchannel (.same _)) fun log log' hlog => ?_) fun log log' hlog => ?_
  · obtain rfl : log = log' := hlog
    cases log with
    | error cause => exact Pair.pure rfl
    | ok log => exact Pair.pure rfl
  · subst hlog
    split <;> exact Pair.throw _

theorem pair_sessionBody {crypto : Crypto} {config : ArmadaConfig} {engine : Engine} {made : Nat → Made}
    {c c' : SessionCall} (h : SessionTwin c c') :
    Pair (session engine) ResultTwin (sessionBody crypto config made c) (sessionBody crypto config made c') := by
  cases h with
  | call h =>
    have hP : Closed crypto config (config.withSecrets config.agentTokenSecret config.auth) (session engine) :=
      session_closed crypto config engine
    exact pair_body hP (AuthTwin.refl _) (fun _ => rfl) (fun hc hr => .agent hc hr)
      (fun onlyIfUnset hkeys _ hs => ⟨SharedTwin.setVars hs.1 _ hkeys onlyIfUnset, hs.2⟩) h
  | waitForPort h hchannel port timeout mode path =>
    exact Pair.bind (@pair_waitForPort crypto config engine _ _ h hchannel port timeout mode path)
      fun _ _ _ => Pair.pure (.same _)

/-- **Credentials do not reach the adapter's own messages**: of two runs that make the same calls but for the
values of variables, and whose requests come to the same, every call ends in the same way, with the same error
or the same result, and the same lines are logged. -/
theorem messages_same (crypto : Crypto) (config : ArmadaConfig) (engine : Engine) (made : Nat → Made)
    {s s' : Shared} (hs : SharedTwin s s') (hwarned : s.warned = s'.warned)
    {steps steps' : List (Act (Σ q, Answer q) Empty SessionCall)}
    (hsteps : List.Forall₂ (ActTwin (session engine) SessionTwin) steps steps')
    {w w' : Async.World Shared Answer JsError Result Unit SessionCall}
    (h : steps.foldlM (openSystem (sessionBody crypto config made)).step (.start s ()) = some w)
    (h' : steps'.foldlM (openSystem (sessionBody crypto config made)).step (.start s' ()) = some w') :
    w.shared.warned = w'.shared.warned ∧
      ∀ n c r, w.calls n = some (c, .settled r) →
        ∃ c' r', w'.calls n = some (c', .settled r') ∧ SessionTwin c c' ∧ Ends ResultTwin r r' := by
  have htwin : WorldTwin (session engine) SessionTwin (Ends ResultTwin) w w' :=
    WorldTwin.runs (fun c c' hc => pair_sessionBody hc) (.start ⟨hs, hwarned⟩) hsteps h h'
  refine ⟨htwin.shared.2, fun n c r hn => ?_⟩
  have hcalls := htwin.calls n
  rw [hn] at hcalls
  cases hn' : w'.calls n with
  | none =>
    rw [hn'] at hcalls
    cases hcalls
  | some call =>
    obtain ⟨c', phase⟩ := call
    rw [hn'] at hcalls
    cases hcalls with
    | some hrel =>
      obtain ⟨hc, hphase⟩ := hrel
      cases hphase with
      | settled hr => exact ⟨c', _, rfl, hc, hr⟩

/-- The agent that instance 0 has reached. -/
def reachedAgent : ControlChannel :=
  { url := "http://10.0.0.7:8090", token := "t"
    pod := { clusterId := "c", podName := "armada-01-0", podNamespace := "jobs", nodeName := none } }

def reachedShared : Shared := Shared.init.setInstance 0 fun i => { i with channel := some reachedAgent }

/-- The request of `exec`, where a token has this value. -/
def runsWith (value : String) : AgentRequest :=
  .run ["sh", "-lc", "export API_KEY='" ++ value ++ "'; ls"] (some 21600000)

/-- A token is set, and a command cannot be run. -/
def failsWith (value : String) : List (Act (Σ q, Answer q) Empty SessionCall) :=
  [.begin 0 (.call (.sandbox 0 (.setEnvVars [("API_KEY", value)] false))),
   .begin 1 (.call (.sandbox 0 (.exec "ls" none))), .serve 1 ⟨.turn, ()⟩, .resume 1,
   .serve 1 ⟨.agent reachedAgent (runsWith value), AgentChannel.reply laconic reachedAgent (runsWith value)
     { fetched := .failed (error "fetch failed") }⟩, .resume 1]

/-- The result of a call of `exec`. -/
def execOf (w : Async.World Shared Answer JsError Result Unit SessionCall) (n : Nat) : Option ExecResult :=
  match w.calls n with
  | some (_, .settled (.ok (.exec r))) => some r
  | _ => none

theorem of_execOf {w : Async.World Shared Answer JsError Result Unit SessionCall} {n : Nat} {r : ExecResult}
    (h : execOf w n = some r) : ∃ c, w.calls n = some (c, .settled (.ok (.exec r))) := by
  unfold execOf at h
  split at h
  · rename_i c r' hcalls
    cases h
    exact ⟨c, hcalls⟩
  · cases h

theorem messages_same_exec : ∃ w w' c r,
    (failsWith "s3cret").foldlM (openSystem (sessionBody digests plainConfig created)).step
      (.start reachedShared ()) = some w ∧
    (failsWith "").foldlM (openSystem (sessionBody digests plainConfig created)).step
      (.start reachedShared ()) = some w' ∧
    w.calls 1 = some (c, .settled (.ok (.exec r))) ∧ r.code = some "BACKEND_ERROR" ∧
    ∃ c' r', w'.calls 1 = some (c', .settled r') ∧ Ends ResultTwin (.ok (.exec r)) r' := by
  have hrun : ((failsWith "s3cret").foldlM (openSystem (sessionBody digests plainConfig created)).step
      (.start reachedShared ())).any (fun w => (execOf w 1).any fun r => r.code = some "BACKEND_ERROR") = true := by
    decide +kernel
  have hrun' : ((failsWith "").foldlM (openSystem (sessionBody digests plainConfig created)).step
      (.start reachedShared ())).isSome = true := by
    decide +kernel
  obtain ⟨w, hw, hexec⟩ := (Option.any_eq_true _ _).mp hrun
  obtain ⟨r, hr, hcode⟩ := (Option.any_eq_true _ _).mp hexec
  obtain ⟨c, hc⟩ := of_execOf hr
  obtain ⟨w', hw'⟩ := Option.isSome_iff_exists.mp hrun'
  have hrequest : AgentTwin (runsWith "s3cret") (runsWith "") := .run _ rfl
  have hagent : SameOutcome laconic (.agent reachedAgent (runsWith "s3cret")) (.agent reachedAgent (runsWith "")) _ _ :=
    .agent ⟨rfl, rfl⟩ hrequest { fetched := .failed (error "fetch failed") }
  have hsteps : List.Forall₂ (ActTwin (session laconic) SessionTwin) (failsWith "s3cret") (failsWith "") :=
    .cons (.begin 0 (.call (.sandbox 0 (.setEnvVars false rfl)))) (.cons (.begin 1 (.call (.sandbox 0 (.same _))))
      (.cons (.serve 1 .turn) (.cons (.resume 1) (.cons (.serve 1 hagent) (.cons (.resume 1) .nil)))))
  obtain ⟨-, hsame⟩ := messages_same digests plainConfig laconic created (SharedTwin.refl _) rfl hsteps hw hw'
  obtain ⟨c', r', hc', -, hends⟩ := hsame 1 c _ hc
  exact ⟨w, w', c, r, hw, hw', hc, of_decide_eq_true hcode, c', r', hc', hends⟩

end ComputeArmada.Adapter
