import ComputeArmada.Lib.Twin
import ComputeArmada.Adapter.Quoting

/-!
# Two runs that differ in secrets

The functions of the adapter, run twice: with two secrets for the agents' tokens, two sets of Armada
credentials of one kind, other values of environment variables and other contents of files.

* `SharedTwin` : what the two processes then share; `AskedTwin`, `AnsweredTwin` : requests and answers;
* `Closed` : what a pairing has to allow;
* `pair_resolve`, `pair_submit`, `pair_openAgent`, `pair_exec`, … : one lemma for each function;
* `pair_body` : every call;
* `secrets` : the pairing of all of this, `secrets_closed`.
-/

namespace ComputeArmada.Adapter
open Async

/-! ## What is related -/

/-- The same configuration with other secrets. -/
def ArmadaConfig.withSecrets (config : ArmadaConfig) (secret : String) (auth : ArmadaAuth) : ArmadaConfig :=
  { config with agentTokenSecret := secret, auth }

/-- Credentials of one kind: a file is the same, not what it holds. -/
inductive AuthTwin : ArmadaAuth → ArmadaAuth → Prop
  | anonymous : AuthTwin .anonymous .anonymous
  | basic (username password username' password' : String) :
      AuthTwin (.basic username password) (.basic username' password')
  | bearer (token token' : String) : AuthTwin (.bearer token) (.bearer token')
  | bearerFile (path : String) : AuthTwin (.bearerFile path) (.bearerFile path)

/-- Channels of one agent, with whatever tokens. -/
structure ChannelTwin (channel channel' : ControlChannel) : Prop where
  url : channel.url = channel'.url
  pod : channel.pod = channel'.pod

structure PlacementTwin (p p' : Placement) : Prop where
  job : p.job = p'.job
  pod : p.pod = p'.pod
  channel : ChannelTwin p.channel p'.channel

/-- Objects with the same keys, in the same order. -/
def KeysTwin {α : Type} (r r' : List (String × α)) : Prop := r.map (·.1) = r'.map (·.1)

structure InstanceTwin (i i' : Instance) : Prop where
  job : i.job = i'.job
  pod : i.pod = i'.pod
  channel : Option.Rel ChannelTwin i.channel i'.channel
  env : KeysTwin i.env i'.env
  envDefaults : KeysTwin i.envDefaults i'.envDefaults

structure SharedTwin (s s' : Shared) : Prop where
  remembered : s.remembered = s'.remembered
  placements : ∀ id, Option.Rel PlacementTwin (s.placements id) (s'.placements id)
  instances : ∀ me, InstanceTwin (s.instances me) (s'.instances me)

/-- Commands that run the same program. -/
def CommandTwin (command command' : List String) : Prop := command.head? = command'.head?

/-- Files for one path, with whatever contents. -/
def FileTwin (file file' : SandboxFileWrite) : Prop := file.path = file'.path

inductive AgentTwin : AgentRequest → AgentRequest → Prop
  | run {command command' : List String} (timeoutMs : Option Nat) (h : CommandTwin command command') :
      AgentTwin (.run command timeoutMs) (.run command' timeoutMs)
  | stream {command command' : List String} (timeoutMs : Option Nat) (h : CommandTwin command command') :
      AgentTwin (.stream command timeoutMs) (.stream command' timeoutMs)
  | writeFiles {files files' : List SandboxFileWrite} (h : List.Forall₂ FileTwin files files') :
      AgentTwin (.writeFiles files) (.writeFiles files')
  | startProcess {command command' : List String} (cwd : Option String) (h : CommandTwin command command') :
      AgentTwin (.startProcess command cwd) (.startProcess command' cwd)
  | same (request : AgentRequest) : AgentTwin request request

/-- Requests that are the same but for secrets: to Armada and Lookout, but for the header. -/
inductive AskedTwin : Request → Request → Prop
  | turn : AskedTwin .turn .turn
  | lookedUp (id : SandboxId) (found : Option String) : AskedTwin (.lookedUp id found) (.lookedUp id found)
  | tokenFile (path : String) : AskedTwin (.tokenFile path) (.tokenFile path)
  | post (base : String) (authorization authorization' : Option String) (body : Body) :
      AskedTwin (.post base authorization body) (.post base authorization' body)
  | probe (url : String) : AskedTwin (.probe url) (.probe url)
  | agent {channel channel' : ControlChannel} {request request' : AgentRequest}
      (h : ChannelTwin channel channel') (hr : AgentTwin request request') :
      AskedTwin (.agent channel request) (.agent channel' request')

/-- What a token file holds: a token, or none, in both runs. -/
inductive TokenTwin : Except JsError String → Except JsError String → Prop
  | error (cause : JsError) : TokenTwin (.error cause) (.error cause)
  | ok {text text' : String} (h : Js.trim text = "" ↔ Js.trim text' = "") : TokenTwin (.ok text) (.ok text')

/-- A write that failed, in both runs. -/
inductive WrittenTwin : Except (SandboxFileWrite × JsError) Unit → Except (SandboxFileWrite × JsError) Unit → Prop
  | error {file file' : SandboxFileWrite} (cause : JsError) (h : FileTwin file file') :
      WrittenTwin (.error (file, cause)) (.error (file', cause))
  | ok : WrittenTwin (.ok ()) (.ok ())

/-- The same answers, but for what a token file holds. -/
def AnsweredTwin : (q q' : Request) → Answer q → Answer q' → Prop
  | .turn, .turn, _, _ => True
  | .lookedUp _ _, .lookedUp _ _, _, _ => True
  | .tokenFile _, .tokenFile _, a, a' => TokenTwin a a'
  | .post _ _ _, .post _ _ _, a, a' => HEq a a'
  | .probe _, .probe _, a, a' => a = a'
  | .agent _ (.run _ _), .agent _ (.run _ _), a, a' => a = a'
  | .agent _ (.stream _ _), .agent _ (.stream _ _), a, a' => a = a'
  | .agent _ (.writeFiles _), .agent _ (.writeFiles _), a, a' => WrittenTwin a a'
  | .agent _ (.readFile _), .agent _ (.readFile _), a, a' => a = a'
  | .agent _ (.readFileBounded _ _ _), .agent _ (.readFileBounded _ _ _), a, a' => a = a'
  | .agent _ (.listFiles _ _), .agent _ (.listFiles _ _), a, a' => a = a'
  | .agent _ (.startProcess _ _), .agent _ (.startProcess _ _), a, a' => a = a'
  | .agent _ (.waitForPort _ _ _ _), .agent _ (.waitForPort _ _ _ _), a, a' => a = a'
  | .agent _ (.signalProcess _ _), .agent _ (.signalProcess _ _), a, a' => a = a'
  | .agent _ (.processLogs _), .agent _ (.processLogs _), a, a' => a = a'
  | _, _, _, _ => False

/-- A line that is logged. -/
def Shared.warn (s : Shared) (line : String) : Shared := { s with warned := s.warned ++ [line] }

/-- What a pairing has to allow for the adapter's functions to keep to it. -/
structure Closed (crypto : Crypto) (config config' : ArmadaConfig) (P : Pairing Shared Answer) : Prop where
  shared : ∀ {s s'}, P.state s s' → SharedTwin s s'
  remember : ∀ {s s'} id queue, P.state s s' → P.state (s.remember id queue) (s'.remember id queue)
  forget : ∀ {s s'} id, P.state s s' → P.state (s.forget id) (s'.forget id)
  place : ∀ {s s'} id {p p'}, Option.Rel PlacementTwin p p' → P.state s s' →
    P.state (s.setPlacement id p) (s'.setPlacement id p')
  /-- The instance reaches another job, pod or agent. -/
  move : ∀ {s s'} me {f f'}, (∀ i, (f i).env = i.env ∧ (f i).envDefaults = i.envDefaults) →
    (∀ i, (f' i).env = i.env ∧ (f' i).envDefaults = i.envDefaults) →
    (∀ i i', InstanceTwin i i' → InstanceTwin (f i) (f' i')) → P.state s s' →
    P.state (s.setInstance me f) (s'.setInstance me f')
  warn : ∀ {s s'} id (line : String), P.state s s' → P.state
    (s.warn (line.replace (agentToken crypto config.agentTokenSecret id) "<token>"))
    (s'.warn (line.replace (agentToken crypto config'.agentTokenSecret id) "<token>"))
  asked : ∀ {q q'}, AskedTwin q q' → (∀ channel request, q ≠ .agent channel request) → P.asked q q'
  answered : ∀ {q q' a a'}, P.answered q q' a a' → AnsweredTwin q q' a a'

/-! ## Requests -/

section
variable {crypto : Crypto} {config : ArmadaConfig} {secret : String} {auth : ArmadaAuth}
  {P : Pairing Shared Answer} {α β γ δ : Type} {R : α → β → Prop} {S : γ → δ → Prop}

theorem pair_ask {config' : ArmadaConfig} (hP : Closed crypto config config' P) {q q' : Request} {f : Answer q → M α}
    {f' : Answer q' → M β} (hq : P.asked q q') (hf : ∀ a a', AnsweredTwin q q' a a' → Pair P R (f a) (f' a')) :
    Pair P R (ask q >>= f) (ask q' >>= f') := Twin.ask hq fun a a' h => hf a a' (hP.answered h)

variable (hP : Closed crypto config (config.withSecrets secret auth) P)
include hP

/-- A request of the process itself, or to Armada, Lookout or an agent's `/healthz`. -/
theorem pair_quiet {q q' : Request} {f : Answer q → M α} {f' : Answer q' → M β} (hq : AskedTwin q q')
    (hquiet : ∀ channel request, q ≠ .agent channel request)
    (hf : ∀ a a', AnsweredTwin q q' a a' → Pair P R (f a) (f' a')) : Pair P R (ask q >>= f) (ask q' >>= f') :=
  pair_ask hP (hP.asked hq hquiet) hf

theorem pair_await {p : M α} {p' : M β} (hp : Pair P R p p') : Pair P R (await p) (await p') :=
  Pair.bind hp.attempt fun _ _ hr =>
    pair_quiet hP .turn (fun _ _ h => nomatch h) fun _ _ _ => Pair.ofExcept hr

theorem pair_authorizationHeader {credentials credentials' : ArmadaAuth} (h : AuthTwin credentials credentials') :
    Pair P (fun _ _ => True) (authorizationHeader credentials) (authorizationHeader credentials') := by
  cases h with
  | anonymous => exact Pair.pure trivial
  | basic username password username' password' => exact Pair.pure trivial
  | bearer token token' => exact Pair.pure trivial
  | bearerFile path =>
    refine pair_quiet hP (.tokenFile path) (fun _ _ h => nomatch h) fun a a' ha => ?_
    cases ha with
    | error cause => exact Pair.throw cause
    | @ok text text' h =>
      change Pair P _ (if Js.trim text = "" then _ else _) (if Js.trim text' = "" then _ else _)
      by_cases hempty : Js.trim text = ""
      · rw [if_pos hempty, if_pos (h.mp hempty)]
        exact Pair.bind (Pair.throw (R := fun _ _ => True) _) fun _ _ _ => Pair.pure trivial
      · rw [if_neg hempty, if_neg (mt h.mpr hempty)]
        exact Pair.pure trivial

variable (hauth : AuthTwin config.auth auth)
include hauth

theorem pair_postTo (base : String) (body : Body) :
    Pair P Eq (postTo config base body) (postTo (config.withSecrets secret auth) base body) := by
  refine Pair.bind (pair_await hP (pair_await hP (pair_authorizationHeader hP hauth))) fun header header' _ => ?_
  refine pair_quiet hP (.post base header header' body) (fun _ _ h => nomatch h) fun a a' ha => ?_
  obtain rfl := eq_of_heq ha
  match a with
  | .error cause => exact Pair.throw cause
  | .ok (.failed _ _ (.error cause)) => exact Pair.throw cause
  | .ok (.failed _ _ (.ok text)) => exact Pair.throw _
  | .ok (.ok reply) => exact Pair.pure rfl

theorem pair_post (body : Body) : Pair P Eq (post config body) (post (config.withSecrets secret auth) body) :=
  pair_await hP (pair_postTo hP hauth _ body)

omit hauth in
theorem pair_json {reply reply' : M (Except JsError α)} (h : Pair P Eq reply reply') :
    Pair P Eq (await (do json (← reply))) (await (do json (← reply'))) := by
  refine pair_await hP (Pair.bind h fun r r' hr => ?_)
  subst hr
  exact pair_await hP (Pair.ofExcept (.refl r))

/-! ## Armada and Lookout -/

theorem pair_submit (id : SandboxId) (podSpec : PodSpec) (queue : Queue) :
    Pair P Eq (submit config id podSpec queue) (submit (config.withSecrets secret auth) id podSpec queue) := by
  refine Pair.bind (pair_json hP (pair_post hP hauth (.submit (submitRequest config id podSpec queue))))
    fun response response' h => ?_
  subst h
  exact Pair.ofExcept (.refl _)

theorem pair_watchJob (job : SubmittedJob) (suffix missing : String)
    (decides : EventMessage → Option (Except JsError α)) :
    Pair P Eq (watchJob config job suffix missing decides)
      (watchJob (config.withSecrets secret auth) job suffix missing decides) := by
  refine Pair.bind (pair_await hP (pair_post hP hauth _)) fun stream stream' h => ?_
  subst h
  cases stream with
  | none => exact Pair.throw _
  | some stream =>
    simp only
    cases watchLines job suffix decides stream.lines with
    | found a => exact Pair.pure rfl
    | failed cause => exact Pair.throw cause
    | ended =>
      simp only
      cases stream.broken with
      | none => exact Pair.throw _
      | some cause => exact Pair.throw cause

theorem pair_portUrl (job : SubmittedJob) (port : Nat) :
    Pair P Eq (portUrl config job port) (portUrl (config.withSecrets secret auth) job port) := by
  refine Pair.bind (pair_await hP (pair_watchJob hP hauth _ _ _ _)) fun address address' h => ?_
  subst h
  exact Pair.pure rfl

theorem pair_cancel (job : SubmittedJob) :
    Pair P Eq (cancel config job) (cancel (config.withSecrets secret auth) job) :=
  pair_await hP (pair_post hP hauth (.cancel { queue := job.queue, jobSetId := job.jobSetId, jobId := some job.jobId }))

theorem pair_cancelSet (id : String) (queue : Queue) :
    Pair P Eq (cancelSet config id queue) (cancelSet (config.withSecrets secret auth) id queue) :=
  pair_await hP (pair_post hP hauth (.cancel { queue, jobSetId := id, jobId := none }))

theorem pair_findJob (id : SandboxId) (queue : Queue) :
    Pair P Eq (findJob config id queue) (findJob (config.withSecrets secret auth) id queue) := by
  refine Pair.bind (pair_json hP (pair_post hP hauth (.status { queue, jobset := id, externalJobUri := id })))
    fun response response' h => ?_
  subst h
  exact Pair.pure rfl

theorem pair_lookoutJobs (lookout : String) (request : LookoutGetJobsRequest) :
    Pair P Eq (lookoutJobs config lookout request) (lookoutJobs (config.withSecrets secret auth) lookout request) := by
  refine Pair.bind (pair_json hP (pair_await hP (pair_postTo hP hauth lookout (.lookout request))))
    fun response response' h => ?_
  subst h
  exact Pair.pure rfl

theorem pair_findQueue (id : SandboxId) :
    Pair P Eq (findQueue config id) (findQueue (config.withSecrets secret auth) id) := by
  have hurl : (config.withSecrets secret auth).lookoutUrl = config.lookoutUrl := rfl
  unfold findQueue
  rw [hurl]
  cases config.lookoutUrl with
  | none => exact Pair.pure rfl
  | some lookout =>
    refine Pair.bind (pair_await hP (pair_lookoutJobs hP hauth _ _)) fun jobs jobs' h => ?_
    subst h
    exact Pair.pure rfl

theorem pair_listActiveFrom (lookout : String) (pages skip : Nat) (sandboxes : List ActiveJob) :
    Pair P Eq (listActiveFrom config lookout pages skip sandboxes)
      (listActiveFrom (config.withSecrets secret auth) lookout pages skip sandboxes) := by
  induction pages generalizing skip sandboxes with
  | zero => exact Pair.throw _
  | succ pages ih =>
    refine Pair.bind (pair_await hP (pair_lookoutJobs hP hauth _ _)) fun jobs jobs' h => ?_
    subst h
    simp only
    split
    · exact Pair.pure rfl
    · exact ih _ _

theorem pair_listActive (pages : Nat) :
    Pair P Eq (listActive config pages) (listActive (config.withSecrets secret auth) pages) := by
  have hurl : (config.withSecrets secret auth).lookoutUrl = config.lookoutUrl := rfl
  unfold listActive
  rw [hurl]
  cases config.lookoutUrl with
  | none => exact Pair.throw _
  | some lookout => exact pair_listActiveFrom hP hauth lookout pages 0 []

/-! ## Reaching the agent -/

theorem pair_resolve (id : SandboxId) (owner : Option SandboxOwner) :
    Pair P Eq (resolve config (lookup config) id owner)
      (resolve (config.withSecrets secret auth) (lookup (config.withSecrets secret auth)) id owner) := by
  refine Pair.get fun _ _ hs => ?_
  rw [(hP.shared hs).remembered]
  split
  · exact Pair.pure rfl
  change Pair P Eq (if config.mapped = false then _ else _) (if config.mapped = false then _ else _)
  split
  · exact Pair.pure rfl
  simp only [lookup]
  have hplace : Pair P Eq (do modify (fun s => s.remember id (place config owner)); return place config owner : M Queue)
      (do modify (fun s => s.remember id (place config owner)); return place config owner) :=
    Pair.bind (Pair.modify fun _ _ hs => hP.remember id _ hs) fun _ _ _ => Pair.pure rfl
  refine Pair.bind (pair_await hP (pair_findQueue hP hauth id)).attempt fun r r' hr => ?_
  cases hr with
  | error cause =>
    refine pair_quiet hP .turn (fun _ _ h => nomatch h) fun _ _ _ => ?_
    exact Pair.bind (Pair.throw (R := fun _ _ => True) _) fun _ _ _ => hplace
  | @ok found found' h =>
    subst h
    refine pair_quiet hP (.lookedUp id found) (fun _ _ h => nomatch h) fun _ _ _ => ?_
    cases found with
    | none => exact hplace
    | some queue => exact Pair.bind (Pair.modify fun _ _ hs => hP.remember id _ hs) fun _ _ _ => Pair.pure rfl

omit hauth in
theorem pair_self {me : Nat} {f f' : Instance → M α} {R : α → α → Prop}
    (h : ∀ i i', InstanceTwin i i' → Pair P R (f i) (f' i')) : Pair P R (self me >>= f) (self me >>= f') :=
  Twin.get fun _ _ hs => h _ _ ((hP.shared hs).instances me)

theorem pair_queueOf (me : Nat) (made : Made) :
    Pair P Eq (queueOf config me made) (queueOf (config.withSecrets secret auth) me made) := by
  refine pair_self hP fun i i' hi => ?_
  rw [hi.job]
  split
  · exact Pair.pure rfl
  · exact pair_await hP (pair_resolve hP hauth _ _)

omit hauth in
theorem pair_jobOf (me : Nat) : Pair P Eq (jobOf me) (jobOf me) := by
  refine pair_self hP fun i i' hi => ?_
  rw [hi.job]
  split
  · exact Pair.pure rfl
  · exact Pair.throw _

theorem pair_submitJob (me : Nat) (made : Made)
    (hhash : crypto.sha256 (agentToken crypto config.agentTokenSecret made.id) =
      crypto.sha256 (agentToken crypto secret made.id)) :
    Pair P Eq (submitJob crypto config me made) (submitJob crypto (config.withSecrets secret auth) me made) := by
  have hspec : Pair P Eq
      (.ofExcept (buildPodSpec crypto.upperCase config
        (crypto.sha256 (agentToken crypto config.agentTokenSecret made.id)) made.options))
      (.ofExcept (buildPodSpec crypto.upperCase (config.withSecrets secret auth)
        (crypto.sha256 (agentToken crypto secret made.id)) made.options) : M PodSpec) := by
    rw [hhash]
    exact Pair.ofExcept (.refl (buildPodSpec crypto.upperCase config _ made.options))
  refine Pair.bind hspec fun podSpec podSpec' h => ?_
  subst h
  refine Pair.bind (pair_await hP (pair_queueOf hP hauth me made)) fun queue queue' h => ?_
  subst h
  exact pair_await hP (pair_submit hP hauth _ _ _)

theorem pair_existingJob (me : Nat) (made : Made) :
    Pair P Eq (existingJob config me made) (existingJob (config.withSecrets secret auth) me made) := by
  refine Pair.bind (pair_await hP (pair_queueOf hP hauth me made)) fun queue queue' h => ?_
  subst h
  refine Pair.bind (pair_await hP (pair_findJob hP hauth _ _)) fun job job' h => ?_
  subst h
  cases job with
  | none => exact Pair.throw _
  | some job => exact Pair.pure rfl

omit hauth in
/-- An update of the instance that leaves its variables alone. -/
theorem pair_setSelf {me : Nat} {f f' : Instance → Instance}
    (hf : ∀ i, (f i).env = i.env ∧ (f i).envDefaults = i.envDefaults)
    (hf' : ∀ i, (f' i).env = i.env ∧ (f' i).envDefaults = i.envDefaults)
    (h : ∀ i i', InstanceTwin i i' → InstanceTwin (f i) (f' i')) :
    Pair P (fun _ _ => True) (setSelf me f) (setSelf me f') :=
  Pair.modify fun _ _ hs => hP.move me hf hf' h hs

theorem pair_takeJob (me : Nat) (made : Made)
    (hhash : crypto.sha256 (agentToken crypto config.agentTokenSecret made.id) =
      crypto.sha256 (agentToken crypto secret made.id)) :
    Pair P (fun _ _ => True) (takeJob crypto config me made)
      (takeJob crypto (config.withSecrets secret auth) me made) := by
  refine pair_self hP fun i i' hi => ?_
  rw [hi.job]
  split
  · exact Pair.pure trivial
  · have hjob : Pair P Eq (if made.attachOnly then existingJob config me made else submitJob crypto config me made)
        (if made.attachOnly then existingJob (config.withSecrets secret auth) me made
          else submitJob crypto (config.withSecrets secret auth) me made) := by
      split
      · exact pair_existingJob hP hauth me made
      · exact pair_submitJob hP hauth me made hhash
    refine Pair.bind (pair_await hP hjob) fun job job' h => ?_
    subst h
    exact pair_setSelf hP (fun _ => ⟨rfl, rfl⟩) (fun _ => ⟨rfl, rfl⟩)
      fun i i' hi => { hi with job := rfl }

omit hauth in
theorem pair_probeAgent {channel channel' : ControlChannel} (h : ChannelTwin channel channel') (timeoutMs : Nat)
    {again again' : JsError → M Unit} (hagain : ∀ x, Pair P (fun _ _ => True) (again x) (again' x)) :
    Pair P (fun _ _ => True) (probeAgent channel timeoutMs again) (probeAgent channel' timeoutMs again') := by
  obtain ⟨hurl, hpod⟩ := h
  unfold probeAgent
  rw [hurl, hpod]
  refine pair_quiet hP (.probe _) (fun _ _ h => nomatch h) fun a a' ha => ?_
  obtain rfl : a = a' := ha
  cases a with
  | ok => exact Pair.pure trivial
  | failed last late =>
    simp only
    split
    · exact Pair.bind (Pair.throw (R := fun _ _ => True) _) fun _ _ _ => hagain _
    · exact hagain _

omit hauth in
theorem pair_channelReady {channel channel' : ControlChannel} (h : ChannelTwin channel channel')
    (timeoutMs polls : Nat) :
    Pair P (fun _ _ => True) (channelReady channel timeoutMs polls) (channelReady channel' timeoutMs polls) := by
  induction polls with
  | zero => exact pair_probeAgent hP h timeoutMs fun x => Pair.throw x
  | succ polls ih =>
    exact pair_probeAgent hP h timeoutMs fun _ => pair_quiet hP .turn (fun _ _ h => nomatch h) fun _ _ _ => ih

theorem pair_reach (me : Nat) (made : Made)
    (hhash : crypto.sha256 (agentToken crypto config.agentTokenSecret made.id) =
      crypto.sha256 (agentToken crypto secret made.id)) :
    Pair P (fun _ _ => True) (reach crypto config me made) (reach crypto (config.withSecrets secret auth) me made) := by
  refine Pair.bind (pair_takeJob hP hauth me made hhash) fun _ _ _ => ?_
  refine Pair.bind (pair_jobOf hP me) fun job job' h => ?_
  subst h
  refine Pair.bind (pair_await hP (pair_watchJob hP hauth _ _ _ _)) fun pod pod' h => ?_
  subst h
  refine Pair.bind (pair_setSelf hP (fun _ => ⟨rfl, rfl⟩) (fun _ => ⟨rfl, rfl⟩) fun i i' hi => { hi with pod := rfl })
    fun _ _ _ => ?_
  refine Pair.bind (pair_jobOf hP me) fun job job' h => ?_
  subst h
  refine Pair.bind (pair_await hP (pair_portUrl hP hauth _ _)) fun url url' h => ?_
  subst h
  refine pair_self hP fun i i' hi => ?_
  rw [hi.pod]
  cases i'.pod with
  | none => exact Pair.throw _
  | some pod =>
    have hchannel : ChannelTwin { url, token := agentToken crypto config.agentTokenSecret made.id, pod }
        { url, token := agentToken crypto secret made.id, pod } := ⟨rfl, rfl⟩
    refine Pair.bind (pair_await hP (pair_channelReady hP hchannel _ _)) fun _ _ _ => ?_
    refine Pair.bind (pair_setSelf hP (fun _ => ⟨rfl, rfl⟩) (fun _ => ⟨rfl, rfl⟩)
      fun i i' hi => { hi with channel := .some hchannel }) fun _ _ _ => ?_
    refine Pair.bind (pair_jobOf hP me) fun job job' h => ?_
    subst h
    refine pair_self hP fun i i' hi => ?_
    rw [hi.pod]
    exact Pair.modify fun _ _ hs => hP.place _ (.some ⟨rfl, rfl, hchannel⟩) hs

theorem pair_ready (me : Nat) (made : Made)
    (hhash : crypto.sha256 (agentToken crypto config.agentTokenSecret made.id) =
      crypto.sha256 (agentToken crypto secret made.id)) :
    Pair P (fun _ _ => True) (ready crypto config me made) (ready crypto (config.withSecrets secret auth) me made) := by
  refine pair_self hP fun i i' hi => ?_
  have hchannel := hi.channel
  generalize i.channel = channel at hchannel ⊢
  generalize i'.channel = channel' at hchannel ⊢
  cases hchannel with
  | some _ => exact Pair.pure trivial
  | none =>
    refine Pair.get fun s s' hs => ?_
    have hplace := (hP.shared hs).placements made.id
    generalize s.placements made.id = known at hplace ⊢
    generalize s'.placements made.id = known' at hplace ⊢
    cases hplace with
    | none => exact pair_reach hP hauth me made hhash
    | some hknown =>
      refine Pair.bind (pair_await hP (pair_channelReady hP hknown.channel 0 0)).attempt fun r r' hr => ?_
      cases hr with
      | ok _ =>
        exact pair_setSelf hP (fun _ => ⟨rfl, rfl⟩) (fun _ => ⟨rfl, rfl⟩) fun i i' hi =>
          { hi with job := congrArg some hknown.job, pod := hknown.pod, channel := .some hknown.channel }
      | error x =>
        exact Pair.bind (Pair.modify fun _ _ hs => hP.place _ .none hs)
          fun _ _ _ => pair_reach hP hauth me made hhash

theorem pair_openAgent (me : Nat) (made : Made)
    (hhash : crypto.sha256 (agentToken crypto config.agentTokenSecret made.id) =
      crypto.sha256 (agentToken crypto secret made.id)) :
    Pair P ChannelTwin (openAgent crypto config me made)
    (openAgent crypto (config.withSecrets secret auth) me made) := by
  refine pair_self hP fun i i' hi => ?_
  have hchannel := hi.channel
  generalize i.channel = channel at hchannel ⊢
  generalize i'.channel = channel' at hchannel ⊢
  cases hchannel with
  | some h => exact Pair.pure h
  | none =>
    refine Pair.bind (pair_await hP (pair_ready hP hauth me made hhash)) fun _ _ _ => ?_
    refine pair_self hP fun i i' hi => ?_
    have hchannel := hi.channel
    generalize i.channel = channel at hchannel ⊢
    generalize i'.channel = channel' at hchannel ⊢
    cases hchannel with
    | some h => exact Pair.pure h
    | none => exact Pair.throw _

theorem pair_destroy (me : Nat) (made : Made) :
    Pair P (fun _ _ => True) (destroy config me made) (destroy (config.withSecrets secret auth) me made) := by
  have hforget : Pair P (fun _ _ => True)
      (do modify (fun s => (s.forget made.id).setPlacement made.id none)
          setSelf me (fun i => { i with pod := none, channel := none }) : M Unit)
      (do modify (fun s => (s.forget made.id).setPlacement made.id none)
          setSelf me (fun i => { i with pod := none, channel := none })) :=
    Pair.bind (Pair.modify fun _ _ hs => hP.place _ .none (hP.forget _ hs)) fun _ _ _ =>
      pair_setSelf hP (fun _ => ⟨rfl, rfl⟩) (fun _ => ⟨rfl, rfl⟩) fun i i' hi =>
        { hi with pod := rfl, channel := .none }
  refine pair_self hP fun i i' hi => ?_
  rw [hi.job]
  split
  · refine Pair.bind (pair_await hP (pair_queueOf hP hauth me made)) fun queue queue' h => ?_
    subst h
    exact Pair.bind (pair_await hP (pair_cancelSet hP hauth _ _)) fun _ _ _ => hforget
  · exact Pair.bind (pair_await hP (pair_cancel hP hauth _)) fun _ _ _ => hforget

theorem pair_exposePort (me : Nat) (made : Made) (port : Nat)
    (hhash : crypto.sha256 (agentToken crypto config.agentTokenSecret made.id) =
      crypto.sha256 (agentToken crypto secret made.id)) :
    Pair P Eq (exposePort crypto config me made port)
      (exposePort crypto (config.withSecrets secret auth) me made port) := by
  refine Pair.bind (pair_await hP (pair_ready hP hauth me made hhash)) fun _ _ _ => ?_
  refine pair_self hP fun i i' hi => ?_
  rw [hi.job]
  split
  · exact Pair.throw _
  · exact pair_await hP (pair_portUrl hP hauth _ _)

omit hauth in
theorem pair_listActiveBody {jobs : M (List ActiveJob)} {jobs' : M (List ActiveJob)}
    (h : Pair P Eq jobs jobs') : Pair P Eq
      (do let jobs ← await jobs
          modify (rememberActive jobs)
          return .active (jobs.map fun job => (job.id, job.createdAt)) : M Result)
      (do let jobs ← await jobs'
          modify (rememberActive jobs)
          return .active (jobs.map fun job => (job.id, job.createdAt))) := by
  refine Pair.bind (pair_await hP h) fun jobs jobs' h => ?_
  subst h
  refine Pair.bind (Pair.modify fun s s' hs => ?_) fun _ _ _ => Pair.pure rfl
  unfold rememberActive
  induction jobs generalizing s s' with
  | nil => exact hs
  | cons job jobs ih => exact ih _ _ (hP.remember _ _ hs)

end

/-! ## Variables -/

section
variable {r r' defaults defaults' : Record}

/-- Where a list stops depends on its keys. -/
theorem ends_mapM {ε α β : Type} {f : String × α → Except ε β}
    (hf : ∀ p p', p.1 = p'.1 → Ends (fun _ _ => True) (f p) (f p')) {r r' : List (String × α)} (h : KeysTwin r r') :
    Ends (fun _ _ => True) (r.mapM f) (r'.mapM f) := by
  induction r generalizing r' with
  | nil =>
    obtain rfl : r' = [] := List.map_eq_nil_iff.mp h.symm
    exact .ok trivial
  | cons p r ih =>
    cases r' with
    | nil => cases h
    | cons p' r' =>
      obtain ⟨hp, hr⟩ := List.cons.inj h
      rw [List.mapM_cons, List.mapM_cons]
      exact .bind (hf p p' hp) fun _ _ _ => .bind (ih hr) fun _ _ _ => .ok trivial

/-- Which name is refused depends on the names. -/
theorem ends_withEnvPrefix (cmd cmd' : String) (h : KeysTwin r r') (hdefaults : KeysTwin defaults defaults') :
    Ends (fun _ _ => True) (withEnvPrefix cmd r defaults) (withEnvPrefix cmd' r' defaults') := by
  refine .bind (ends_mapM (fun p p' hp => ?_) h) fun _ _ _ =>
    .bind (ends_mapM (fun p p' hp => ?_) hdefaults) fun _ _ _ => .ok trivial
  · obtain ⟨key, value⟩ := p
    obtain ⟨key', value'⟩ := p'
    obtain rfl : key = key' := hp
    exact .bind (.refl (assertEnvName key)) fun _ _ _ => .ok trivial
  · obtain ⟨key, value⟩ := p
    obtain ⟨key', value'⟩ := p'
    obtain rfl : key = key' := hp
    exact .bind (.refl (assertEnvName key)) fun _ _ _ => .ok trivial

/-- Names that none is refused of. -/
theorem ends_assertEnvNames (h : KeysTwin r r') :
    Ends (fun _ _ => ∀ p ∈ r, isEnvName p.1 = true) (r.mapM fun p => assertEnvName p.1)
      (r'.mapM fun p => assertEnvName p.1) := by
  have hends : Ends (fun _ _ => True) (r.mapM fun p => assertEnvName p.1) (r'.mapM fun p => assertEnvName p.1) := by
    refine ends_mapM (fun p p' hp => ?_) h
    rw [hp]
    cases assertEnvName p'.1 with
    | ok name => exact .ok trivial
    | error x => exact .error x
  generalize (r'.mapM fun p => assertEnvName p.1) = names' at hends ⊢
  cases hr : r.mapM fun p => assertEnvName p.1 with
  | error x =>
    rw [hr] at hends
    cases hends
    exact .error x
  | ok names =>
    rw [hr] at hends
    cases hends with
    | ok _ => exact .ok fun p hp => of_assertEnvName (of_mapM_ok hr p hp).choose_spec

theorem keys_set_twin (h : KeysTwin r r') {key key' : String} (hkey : key = key') (value value' : String) :
    KeysTwin (r.set key value) (r'.set key' value') := by
  unfold KeysTwin at h ⊢
  rw [Record.keys_set, Record.keys_set, h, hkey]

theorem keys_spread_twin (h : KeysTwin r r') (hdefaults : KeysTwin defaults defaults') :
    KeysTwin (r.spread defaults) (r'.spread defaults') := by
  induction defaults generalizing r r' defaults' with
  | nil =>
    obtain rfl : defaults' = [] := List.map_eq_nil_iff.mp hdefaults.symm
    exact h
  | cons p defaults ih =>
    cases defaults' with
    | nil => cases hdefaults
    | cons p' defaults' =>
      obtain ⟨hp, hrest⟩ := List.cons.inj hdefaults
      have hset : KeysTwin (r.set p.1 p.2) (r'.set p'.1 p'.2) := keys_set_twin h hp p.2 p'.2
      change KeysTwin ((r.set p.1 p.2).spread defaults) ((r'.set p'.1 p'.2).spread defaults')
      exact ih hset hrest

end

/-! ## Calls -/

/-- Environments with the same names, and the same of them defined. -/
def EnvTwin (env env' : List (String × Option String)) : Prop :=
  List.Forall₂ (fun p p' => p.1 = p'.1 ∧ (p.2.isSome ↔ p'.2.isSome)) env env'

structure StartTwin (options options' : StartProcessOptions) : Prop where
  processId : options.processId = options'.processId
  cwd : options.cwd = options'.cwd
  env : EnvTwin options.env options'.env

/-- The same operation, with other values of variables and other contents of files. -/
inductive OpTwin : Op → Op → Prop
  | setEnvVars {vars vars' : Record} (onlyIfUnset : Bool) (h : KeysTwin vars vars') :
      OpTwin (.setEnvVars vars onlyIfUnset) (.setEnvVars vars' onlyIfUnset)
  | startProcess (cmd : String) {options options' : StartProcessOptions} (h : StartTwin options options') :
      OpTwin (.startProcess cmd options) (.startProcess cmd options')
  | writeFiles {files files' : List SandboxFileWrite} (h : List.Forall₂ FileTwin files files') :
      OpTwin (.writeFiles files) (.writeFiles files')
  | same (op : Op) : OpTwin op op

inductive CallTwin : Call → Call → Prop
  | sandbox (me : Nat) {op op' : Op} (h : OpTwin op op') : CallTwin (.sandbox me op) (.sandbox me op')
  | listActive (pages : Nat) : CallTwin (.listActive pages) (.listActive pages)

/-- The same result, but for the token of a handle's channel. -/
inductive ResultTwin : Result → Result → Prop
  | process {p p' : ArmadaProcess} (h : p' = { p with channel := p'.channel })
      (hchannel : ChannelTwin p.channel p'.channel) : ResultTwin (.process p) (.process p')
  | same (result : Result) : ResultTwin result result

theorem commandTwin (command command' : String) : CommandTwin ["sh", "-lc", command] ["sh", "-lc", command'] := rfl

theorem keys_processEnvOf {env env' : List (String × Option String)} (h : EnvTwin env env') :
    KeysTwin (processEnvOf env) (processEnvOf env') := by
  induction h with
  | nil => rfl
  | @cons p p' env env' hp _ ih =>
    obtain ⟨name, value⟩ := p
    obtain ⟨name', value'⟩ := p'
    obtain ⟨rfl, hvalue⟩ := hp
    unfold KeysTwin processEnvOf at ih ⊢
    by_cases hname : name = "__proto__"
    · simpa [hname] using ih
    · cases value with
      | none =>
        cases value' with
        | none => simpa [hname] using ih
        | some value' => simp at hvalue
      | some value =>
        cases value' with
        | none => simp at hvalue
        | some value' => simpa [hname] using ih

section
variable {crypto : Crypto} {config : ArmadaConfig} {secret : String} {auth : ArmadaAuth}
  {P : Pairing Shared Answer} {made : Made}

theorem pair_readFailed (hP : Closed crypto config (config.withSecrets secret auth) P) (path code why : String) :
    Pair P Eq (readFailed crypto config made path code why)
      (readFailed crypto (config.withSecrets secret auth) made path code why) :=
  Pair.bind (Pair.modify fun _ _ hs => hP.warn made.id _ hs) fun _ _ _ => Pair.pure rfl

end

section
variable {crypto : Crypto} {config : ArmadaConfig} {secret : String} {auth : ArmadaAuth}
  {P : Pairing Shared Answer} {me : Nat} {made : Made}
  (hP : Closed crypto config (config.withSecrets secret auth) P) (hauth : AuthTwin config.auth auth)
  (hhash : crypto.sha256 (agentToken crypto config.agentTokenSecret made.id) =
    crypto.sha256 (agentToken crypto secret made.id))
  (hagent : ∀ {channel channel' request request'}, ChannelTwin channel channel' → AgentTwin request request' →
    P.asked (.agent channel request) (.agent channel' request'))
include hP hauth hhash hagent

theorem pair_exec (cmd : String) (timeout : Option Nat) :
    Pair P Eq (exec crypto config me made cmd timeout)
      (exec crypto (config.withSecrets secret auth) me made cmd timeout) := by
  refine pair_self hP fun i i' hi => ?_
  refine Pair.bind (Pair.ofExcept (ends_withEnvPrefix cmd cmd hi.env hi.envDefaults)) fun command command' _ => ?_
  refine Pair.tryCatch ?_ fun x => Pair.pure rfl
  refine Pair.bind (pair_await hP (pair_openAgent hP hauth me made hhash)) fun channel channel' hchannel => ?_
  refine pair_ask hP (hagent hchannel (.run _ (commandTwin _ _))) fun a a' ha => ?_
  obtain rfl : a = a' := ha
  refine Pair.bind (Pair.ofExcept (.refl a)) fun result result' h => ?_
  subst h
  exact Pair.pure rfl

theorem pair_execStream (cmd : String) (timeout : Option Nat) :
    Pair P Eq (execStream crypto config me made cmd timeout)
      (execStream crypto (config.withSecrets secret auth) me made cmd timeout) := by
  refine Pair.bind (pair_await hP (pair_openAgent hP hauth me made hhash)) fun channel channel' hchannel => ?_
  refine pair_self hP fun i i' hi => ?_
  refine Pair.bind (Pair.ofExcept (ends_withEnvPrefix cmd cmd hi.env hi.envDefaults)) fun command command' _ => ?_
  refine pair_ask hP (hagent hchannel (.stream _ (commandTwin _ _))) fun a a' ha => ?_
  obtain rfl : a = a' := ha
  exact Pair.ofExcept (.refl a)

omit hagent in
theorem pair_readThrough (path : String) {read read' : ControlChannel → M (Except JsError ReadFileOutcome)}
    (hread : ∀ channel channel', ChannelTwin channel channel' → Pair P Eq (read channel) (read' channel'))
    (encode : List UInt8 → Except JsError (String × Encoding)) :
    Pair P Eq (readThrough crypto config me made path read encode)
      (readThrough crypto (config.withSecrets secret auth) me made path read' encode) := by
  have hopen : Pair P Eq
      (do let channel ← await (openAgent crypto config me made); .ofExcept (← read channel) : M ReadFileOutcome)
      (do let channel ← await (openAgent crypto (config.withSecrets secret auth) me made)
          .ofExcept (← read' channel)) :=
    Pair.bind (pair_await hP (pair_openAgent hP hauth me made hhash)) fun channel channel' hchannel =>
      Pair.bind (hread channel channel' hchannel) fun r r' hr => hr ▸ Pair.ofExcept (.refl r)
  refine Pair.bind hopen.attempt fun r r' hr => ?_
  cases hr with
  | error cause => exact pair_readFailed hP path "BACKEND_ERROR" cause.message
  | @ok outcome outcome' h =>
    subst h
    cases outcome with
    | notFound => exact Pair.pure rfl
    | failed message => exact pair_readFailed hP path "READ_FAILED" message
    | ok bytes => exact Pair.bind (Pair.ofExcept (.refl (encode bytes))) fun _ _ h => Pair.pure (congrArg _ h)

theorem pair_readFile (path : String) : Pair P Eq (readFile crypto config me made path)
    (readFile crypto (config.withSecrets secret auth) me made path) := by
  refine pair_readThrough hP hauth hhash path (fun channel channel' h => ?_) _
  refine Twin.ask (hagent h (.same _)) fun a a' ha => ?_
  obtain rfl : a = a' := hP.answered ha
  exact .done (.ok rfl)

theorem pair_readFileBounded (path : String) (maxBytes timeoutMs : Number) :
    Pair P Eq (readFileBounded crypto config me made path maxBytes timeoutMs)
      (readFileBounded crypto (config.withSecrets secret auth) me made path maxBytes timeoutMs) := by
  unfold readFileBounded
  split
  · exact pair_readFailed hP path "READ_FAILED" _
  · refine pair_readThrough hP hauth hhash path (fun channel channel' h => ?_) _
    refine Twin.ask (hagent h (.same _)) fun a a' ha => ?_
    obtain rfl : a = a' := hP.answered ha
    exact .done (.ok rfl)

theorem pair_listFiles (path : String) (options : ListFilesOptions) :
    Pair P Eq (listFiles crypto config me made path options)
      (listFiles crypto (config.withSecrets secret auth) me made path options) := by
  have hopen : Pair P Eq
      (do let channel ← await (openAgent crypto config me made)
          .ofExcept (← ask (.agent channel (.listFiles path options.recursive))) : M ListFilesOutcome)
      (do let channel ← await (openAgent crypto (config.withSecrets secret auth) me made)
          .ofExcept (← ask (.agent channel (.listFiles path options.recursive)))) := by
    refine Pair.bind (pair_await hP (pair_openAgent hP hauth me made hhash)) fun channel channel' hchannel => ?_
    refine pair_ask hP (hagent hchannel (.same _)) fun a a' ha => ?_
    obtain rfl : a = a' := ha
    exact Pair.ofExcept (.refl a)
  refine Pair.bind hopen.attempt fun r r' hr => ?_
  cases hr with
  | error cause => exact Pair.pure rfl
  | @ok outcome outcome' h =>
    subst h
    cases outcome with
    | notADirectory => exact Pair.pure rfl
    | failed message => exact Pair.pure rfl
    | ok entries => exact Pair.pure rfl

omit hauth hhash in
theorem pair_writeBatches {channel channel' : ControlChannel} (hchannel : ChannelTwin channel channel') (batches : Nat)
    {files files' : List SandboxFileWrite} (h : List.Forall₂ FileTwin files files') :
    Pair P (fun _ _ => True) (writeBatches channel batches files) (writeBatches channel' batches files') := by
  induction batches generalizing files files' with
  | zero => exact Pair.pure trivial
  | succ batches ih =>
    have hrest : ∀ {k k' : M Unit}, Pair P (fun _ _ => True) k k' → Pair P (fun _ _ => True)
        (if files = [] then (pure () : M Unit) else k) (if files' = [] then pure () else k') := by
      intro k k' hk
      cases h with
      | nil => exact Pair.pure trivial
      | cons _ _ =>
        rw [if_neg (List.cons_ne_nil _ _), if_neg (List.cons_ne_nil _ _)]
        exact hk
    refine hrest (pair_ask hP (hagent hchannel (.writeFiles (List.forall₂_take _ h))) fun a a' ha => ?_)
    cases ha with
    | error cause hfile =>
      simp only
      rw [show _ = _ from hfile]
      exact Pair.throw _
    | ok => exact ih (List.forall₂_drop _ h)

theorem pair_writeFiles {files files' : List SandboxFileWrite} (h : List.Forall₂ FileTwin files files') :
    Pair P (fun _ _ => True) (writeFiles crypto config me made files)
      (writeFiles crypto (config.withSecrets secret auth) me made files') := by
  have hlength := h.length_eq
  cases h with
  | nil => exact Pair.pure trivial
  | cons hfile hfiles =>
    change Pair P _ (await (openAgent crypto config me made) >>= _)
      (await (openAgent crypto (config.withSecrets secret auth) me made) >>= _)
    refine Pair.bind (pair_await hP (pair_openAgent hP hauth me made hhash)) fun channel channel' hchannel => ?_
    rw [hlength]
    exact pair_writeBatches hP hagent hchannel _ (.cons hfile hfiles)

theorem pair_gitCheckout (repo : String) (options : Option GitCheckoutOptions) :
    Pair P (fun _ _ => True) (gitCheckout crypto config me made repo options)
      (gitCheckout crypto (config.withSecrets secret auth) me made repo options) := by
  refine Pair.bind (pair_await hP (pair_exec hP hauth hhash hagent _ _)) fun result result' h => ?_
  subst h
  change Pair P _ (if _ then _ else _) (if _ then _ else _)
  split
  · exact Pair.throw _
  · exact Pair.pure trivial

theorem pair_startProcess (cmd : String) {options options' : StartProcessOptions} (h : StartTwin options options') :
    Pair P (fun p p' => p' = { p with channel := p'.channel } ∧ ChannelTwin p.channel p'.channel)
      (startProcess crypto config me made cmd options)
      (startProcess crypto (config.withSecrets secret auth) me made cmd options') := by
  refine Pair.bind (pair_await hP (pair_openAgent hP hauth me made hhash)) fun channel channel' hchannel => ?_
  refine pair_self hP fun i i' hi => ?_
  refine Pair.bind (Pair.ofExcept (ends_withEnvPrefix cmd cmd (keys_processEnvOf h.env) rfl)) fun inner inner' _ => ?_
  refine Pair.bind (Pair.ofExcept (ends_withEnvPrefix inner inner' hi.env hi.envDefaults)) fun command command' _ => ?_
  rw [← h.cwd]
  refine pair_ask hP (hagent hchannel (.startProcess _ (commandTwin _ _))) fun a a' ha => ?_
  obtain rfl : a = a' := ha
  cases a with
  | error cause => exact Pair.throw _
  | ok pid =>
    refine pair_self hP fun i i' hi => ?_
    rw [hi.pod, h.processId]
    exact Pair.pure ⟨rfl, hchannel⟩

omit hauth hhash in
theorem pair_isPortReady (port : Nat) (mode : Option ProbeMode) (path : Option String) :
    Pair P Eq (isPortReady me made port mode path) (isPortReady me made port mode path) := by
  refine Pair.get fun s s' hs => ?_
  have hchannel : Option.Rel ChannelTwin ((s.instances me).channel.or ((s.placements made.id).map (·.channel)))
      ((s'.instances me).channel.or ((s'.placements made.id).map (·.channel))) := by
    have hinstance := ((hP.shared hs).instances me).channel
    have hplacement := (hP.shared hs).placements made.id
    generalize (s.instances me).channel = channel at hinstance ⊢
    generalize (s'.instances me).channel = channel' at hinstance ⊢
    generalize s.placements made.id = p at hplacement ⊢
    generalize s'.placements made.id = p' at hplacement ⊢
    cases hinstance with
    | some h => exact .some h
    | none =>
      cases hplacement with
      | none => exact .none
      | some h => exact .some h.channel
  generalize (s.instances me).channel.or ((s.placements made.id).map (·.channel)) = channel at hchannel ⊢
  generalize (s'.instances me).channel.or ((s'.placements made.id).map (·.channel)) = channel' at hchannel ⊢
  cases hchannel with
  | none => exact Pair.pure rfl
  | some h =>
    refine pair_ask hP (hagent h (.same _)) fun a a' ha => ?_
    obtain rfl : a = a' := ha
    cases a with
    | ok wait => exact Pair.pure rfl
    | error cause => exact Pair.pure rfl

variable (hvars : ∀ {s s' me vars vars'} (onlyIfUnset : Bool), KeysTwin vars vars' →
  (∀ p ∈ vars, isEnvName p.1 = true) → P.state s s' →
  P.state (s.setInstance me (fun i => if onlyIfUnset then { i with envDefaults := i.envDefaults.spread vars }
      else { i with env := i.env.spread vars }))
    (s'.setInstance me (fun i => if onlyIfUnset then { i with envDefaults := i.envDefaults.spread vars' }
      else { i with env := i.env.spread vars' })))
include hvars

omit hP hauth hhash hagent in
theorem pair_setEnvVars {vars vars' : Record} (h : KeysTwin vars vars') (onlyIfUnset : Bool) :
    Pair P (fun _ _ => True) (setEnvVars me vars onlyIfUnset) (setEnvVars me vars' onlyIfUnset) :=
  Pair.bind (Pair.ofExcept (ends_assertEnvNames h)) fun _ _ hnames =>
    Pair.modify fun _ _ hs => hvars onlyIfUnset h hnames hs

theorem pair_opBody {op op' : Op} (h : OpTwin op op') :
    Pair P ResultTwin (opBody crypto config me made op)
      (opBody crypto (config.withSecrets secret auth) me made op') := by
  cases h with
  | setEnvVars onlyIfUnset h =>
    exact Pair.bind (pair_setEnvVars hvars h onlyIfUnset) fun _ _ _ => Pair.pure (.same _)
  | startProcess cmd h =>
    exact Pair.bind (pair_startProcess hP hauth hhash hagent cmd h) fun _ _ hp => Pair.pure (.process hp.1 hp.2)
  | writeFiles h =>
    exact Pair.bind (pair_writeFiles hP hauth hhash hagent h) fun _ _ _ => Pair.pure (.same _)
  | same op =>
    cases op with
    | ready => exact Pair.bind (pair_ready hP hauth me made hhash) fun _ _ _ => Pair.pure (.same _)
    | exec cmd timeout =>
      exact Pair.bind (pair_exec hP hauth hhash hagent cmd timeout) fun _ _ h => Pair.pure (h ▸ .same _)
    | execStream cmd timeout =>
      exact Pair.bind (pair_execStream hP hauth hhash hagent cmd timeout) fun _ _ h => Pair.pure (h ▸ .same _)
    | readFile path => exact Pair.bind (pair_readFile hP hauth hhash hagent path) fun _ _ h => Pair.pure (h ▸ .same _)
    | readFileBounded path maxBytes timeoutMs =>
      exact Pair.bind (pair_readFileBounded hP hauth hhash hagent path maxBytes timeoutMs)
        fun _ _ h => Pair.pure (h ▸ .same _)
    | listFiles path options =>
      exact Pair.bind (pair_listFiles hP hauth hhash hagent path options) fun _ _ h => Pair.pure (h ▸ .same _)
    | writeFiles files =>
      exact Pair.bind (pair_writeFiles hP hauth hhash hagent (List.forall₂_same.mpr fun _ _ => rfl))
        fun _ _ _ => Pair.pure (.same _)
    | gitCheckout repo options =>
      exact Pair.bind (pair_gitCheckout hP hauth hhash hagent repo options) fun _ _ _ => Pair.pure (.same _)
    | setEnvVars vars onlyIfUnset =>
      exact Pair.bind (pair_setEnvVars hvars rfl onlyIfUnset) fun _ _ _ => Pair.pure (.same _)
    | startProcess cmd options =>
      have htwin : StartTwin options options := ⟨rfl, rfl, List.forall₂_same.mpr fun _ _ => ⟨rfl, Iff.rfl⟩⟩
      exact Pair.bind (pair_startProcess hP hauth hhash hagent cmd htwin) fun _ _ hp => Pair.pure (.process hp.1 hp.2)
    | exposePort port =>
      exact Pair.bind (pair_exposePort hP hauth me made port hhash) fun _ _ h => Pair.pure (h ▸ .same _)
    | isPortReady port mode path =>
      exact Pair.bind (pair_isPortReady hP hagent port mode path) fun _ _ h => Pair.pure (h ▸ .same _)
    | queue => exact Pair.bind (pair_queueOf hP hauth me made) fun _ _ h => Pair.pure (h ▸ .same _)
    | destroy => exact Pair.bind (pair_destroy hP hauth me made) fun _ _ _ => Pair.pure (.same _)

end

theorem pair_body {crypto : Crypto} {config : ArmadaConfig} {secret : String} {auth : ArmadaAuth}
    {P : Pairing Shared Answer} {made : Nat → Made} (hP : Closed crypto config (config.withSecrets secret auth) P)
    (hauth : AuthTwin config.auth auth)
    (hhash : ∀ me, crypto.sha256 (agentToken crypto config.agentTokenSecret (made me).id) =
      crypto.sha256 (agentToken crypto secret (made me).id))
    (hagent : ∀ {channel channel' request request'}, ChannelTwin channel channel' → AgentTwin request request' →
      P.asked (.agent channel request) (.agent channel' request'))
    (hvars : ∀ {s s' me vars vars'} (onlyIfUnset : Bool), KeysTwin vars vars' →
      (∀ p ∈ vars, isEnvName p.1 = true) → P.state s s' →
      P.state (s.setInstance me (fun i => if onlyIfUnset then { i with envDefaults := i.envDefaults.spread vars }
          else { i with env := i.env.spread vars }))
        (s'.setInstance me (fun i => if onlyIfUnset then { i with envDefaults := i.envDefaults.spread vars' }
          else { i with env := i.env.spread vars' })))
    {call call' : Call} (h : CallTwin call call') :
    Pair P ResultTwin (body crypto config made call) (body crypto (config.withSecrets secret auth) made call') := by
  cases h with
  | sandbox me h => exact pair_opBody hP hauth (hhash me) hagent hvars h
  | listActive pages =>
    exact Pair.mono (pair_listActiveBody hP (pair_listActive hP hauth pages)) fun _ _ h => h ▸ .same _

/-! ## What two processes share -/

theorem SharedTwin.refl (s : Shared) : SharedTwin s s := by
  have hchannel : ∀ channel : Option ControlChannel, Option.Rel ChannelTwin channel channel := fun channel => by
    cases channel with
    | none => exact .none
    | some channel => exact .some ⟨rfl, rfl⟩
  refine ⟨rfl, fun id => ?_, fun me => ⟨rfl, rfl, hchannel _, rfl, rfl⟩⟩
  cases s.placements id with
  | none => exact .none
  | some p => exact .some ⟨rfl, rfl, rfl, rfl⟩

theorem SharedTwin.setInstance {s s' : Shared} (h : SharedTwin s s') (me : Nat) {f f' : Instance → Instance}
    (hf : ∀ i i', InstanceTwin i i' → InstanceTwin (f i) (f' i')) :
    SharedTwin (s.setInstance me f) (s'.setInstance me f') := by
  refine ⟨h.remembered, h.placements, fun me' => ?_⟩
  by_cases hme : me' = me
  · subst hme
    simpa [Shared.setInstance] using hf _ _ (h.instances me')
  · simpa [Shared.setInstance, hme] using h.instances me'

theorem SharedTwin.setPlacement {s s' : Shared} (h : SharedTwin s s') (id : SandboxId) {p p' : Option Placement}
    (hp : Option.Rel PlacementTwin p p') : SharedTwin (s.setPlacement id p) (s'.setPlacement id p') := by
  refine ⟨h.remembered, fun id' => ?_, h.instances⟩
  by_cases hid : id' = id
  · subst hid
    simpa [Shared.setPlacement] using hp
  · simpa [Shared.setPlacement, hid] using h.placements id'

theorem SharedTwin.setVars {s s' : Shared} (h : SharedTwin s s') (me : Nat) {vars vars' : Record}
    (hvars : KeysTwin vars vars') (onlyIfUnset : Bool) :
    SharedTwin
      (s.setInstance me (fun i => if onlyIfUnset then { i with envDefaults := i.envDefaults.spread vars }
        else { i with env := i.env.spread vars }))
      (s'.setInstance me (fun i => if onlyIfUnset then { i with envDefaults := i.envDefaults.spread vars' }
        else { i with env := i.env.spread vars' })) := by
  refine h.setInstance me fun i i' hi => ?_
  cases onlyIfUnset with
  | true => exact { hi with envDefaults := keys_spread_twin hi.envDefaults hvars }
  | false => exact { hi with env := keys_spread_twin hi.env hvars }

/-- Two processes that share the same, but for tokens and values. -/
def secrets : Pairing Shared Answer where
  state := SharedTwin
  asked := AskedTwin
  answered := AnsweredTwin

theorem secrets_closed (crypto : Crypto) (config config' : ArmadaConfig) : Closed crypto config config' secrets where
  shared h := h
  remember id queue h := ⟨by simp only [Shared.remember, h.remembered], h.placements, h.instances⟩
  forget id h := ⟨by simp only [Shared.forget, h.remembered], h.placements, h.instances⟩
  place id _ _ hp h := SharedTwin.setPlacement h id hp
  move me _ _ _ _ hf h := SharedTwin.setInstance h me hf
  warn _ _ h := ⟨h.remembered, h.placements, h.instances⟩
  asked h _ := h
  answered h := h

theorem AuthTwin.refl (auth : ArmadaAuth) : AuthTwin auth auth := by
  cases auth <;> constructor

theorem AnsweredTwin.refl (q : Request) (a : Answer q) : AnsweredTwin q q a a := by
  cases q with
  | turn => trivial
  | lookedUp id found => trivial
  | tokenFile path =>
    cases a with
    | error cause => exact .error cause
    | ok text => exact .ok Iff.rfl
  | post base authorization body => exact HEq.rfl
  | probe url => exact rfl
  | agent channel request =>
    cases request with
    | writeFiles files =>
      cases a with
      | error x => exact .error x.2 rfl
      | ok _ => exact .ok
    | _ => exact rfl

end ComputeArmada.Adapter
