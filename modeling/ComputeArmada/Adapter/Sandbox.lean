import ComputeArmada.Adapter.Client

/-!
# A sandbox and its provider

`shell.ts`, `podspec.ts`, `sandbox.ts` and `provider.ts`. Instances are numbered, `made n` being what
instance `n` was made with; their methods are programs over what the process shares.

* `ready`, `submitJob`, `existingJob`, `queueOf` : reaching the job and its agent;
* `exec` to `exposePort`, `destroy` : the methods of a `SandboxInstance`;
* `Op`, `Call`, `body` : the calls of one process.
-/

namespace ComputeArmada.Adapter

/-! ## Shell commands -/

def shellQuote (value : String) : String :=
  "'" ++ String.ofList (value.toList.flatMap fun c => if c.toNat = 39 then "'\\''".toList else [c]) ++ "'"

def isEnvName (name : String) : Bool :=
  match name.toList with
  | [] => false
  | c :: cs => (c.isAlpha || c = '_') && cs.all (fun c => c.isAlphanum || c = '_')

def assertEnvName (name : String) : Except JsError String :=
  if isEnvName name then .ok name
  else .error (error ("Invalid environment variable name: " ++ Js.quoted name))

def withEnvPrefix (cmd : String) (env defaults : Record) : Except JsError String := do
  let forced ← env.mapM fun (key, value) => do
    return "export " ++ (← assertEnvName key) ++ "=" ++ shellQuote value ++ "; "
  let guarded ← defaults.mapM fun (key, value) => do
    return "[ -n \"$\x7b" ++ (← assertEnvName key) ++ ":-\x7d\" ] || export " ++ key ++ "=" ++
      shellQuote value ++ "; "
  return String.join forced ++ String.join guarded ++ cmd

structure GitCheckoutOptions where
  targetDir : Option String
  branch : Option String
  deriving DecidableEq

def gitCloneCommand (repo : String) (options : Option GitCheckoutOptions) : String :=
  let branch := (options.bind (·.branch)).elim [] fun branch => ["--branch", shellQuote branch]
  " ".intercalate (["git", "clone"] ++ branch ++
    [shellQuote repo, shellQuote ((options.bind (·.targetDir)).getD ".")])

/-! ## The pod spec -/

section
variable (table : Js.UpperCase)

/-- `A100:2` is two of that type, `A100` one. -/
def parseGpu (gpu : String) : String × String :=
  match gpu.splitOn ":" with
  | [] => ("", "1")
  | [type] => (Js.toUpperCase table type, "1")
  | type :: count :: _ => (Js.toUpperCase table type, count)

/-- The GPU that is asked for, if one is. -/
def gpuOf (options : Option CreateSandboxOptions) : Option (String × String) :=
  (nonempty ((options.bind (·.resources)).bind (·.gpu))).map (parseGpu table)

end

def memoryQuantity (bytes : Number) : String :=
  match bytes.value with
  | none => bytes.text
  | some value =>
    if (value / 1024 ^ 3).den = 1 then toString (value / 1024 ^ 3).num ++ "Gi"
    else if (value / 1024 ^ 2).den = 1 then toString (value / 1024 ^ 2).num ++ "Mi"
    else toString value.ceil

/-- The ids that are configured, if any is. -/
def securityContext (config : ArmadaConfig) : Option SecurityContext :=
  let context : SecurityContext :=
    { runAsUser := config.runAsUser, runAsGroup := config.runAsGroup, fsGroup := config.fsGroup }
  if context = { runAsUser := none, runAsGroup := none, fsGroup := none } then none else some context

def agentPath : String := "/mh-agent/agent"

def buildPodSpec (table : Js.UpperCase) (config : ArmadaConfig) (tokenSha256 : String)
    (options : Option CreateSandboxOptions) : Except JsError PodSpec := do
  let nodeSelector ← match gpuOf table options with
    | none => pure none
    | some (type, _) =>
      match config.gpuNodeSelectors.find? (fun p => p.1 = type) with
      | some (_, selector) => pure (some selector)
      | none => throw (error ("GPU type " ++ type ++
          " has no node selector in ARMADA_GPU_NODE_SELECTORS, so a pod cannot be placed on it"))
  let resources := options.bind (·.resources)
  return { image := (options.bind (·.image)).getD config.image, tokenSha256
           ports := [config.port, config.agentPort] ++ config.surfacePorts
           gpuCount := (gpuOf table options).map (·.2), nodeSelector
           cpu := ((resources.bind (·.cpu)).map (·.text)).getD "1"
           memory := ((resources.bind (·.memoryBytes)).map memoryQuantity).getD "2Gi"
           activeDeadlineSeconds := config.maxLifetimeSeconds, priorityClassName := config.priorityClassName
           imagePullSecrets := config.imagePullSecrets, securityContext := securityContext config
           agentImage := config.agentImage, command := [agentPath, "--port", toString config.agentPort] }

/-! ## Reaching the agent -/

/-- What the adapter takes of node: the digests of `node:crypto`, in hex, and the upper case of `toUpperCase`. -/
structure Crypto where
  hmacSha256 : (key data : String) → String
  sha256 : (data : String) → String
  upperCase : Js.UpperCase

section
variable (crypto : Crypto) (config : ArmadaConfig)

def agentToken (secret : String) (id : SandboxId) : String := crypto.hmacSha256 secret id

def Shared.setInstance (s : Shared) (me : Nat) (f : Instance → Instance) : Shared :=
  { s with instances := Function.update s.instances me (f (s.instances me)) }

def Shared.setPlacement (s : Shared) (id : SandboxId) (p : Option Placement) : Shared :=
  { s with placements := Function.update s.placements id p }

def self (me : Nat) : M Instance := return (← get).instances me

def setSelf (me : Nat) (f : Instance → Instance) : M Unit := modify (fun s => s.setInstance me f)

/-- `this.job`, where it is read as a job: it is never unset once it is set. -/
def jobOf (me : Nat) : M SubmittedJob := do
  match (← self me).job with
  | some job => return job
  | none => throw (typeError "queue")

def readyPollMs : Nat := 250

/-- One probe of `AgentChannel.ready`: `again` where the deadline has not passed. -/
def probeAgent (channel : ControlChannel) (timeoutMs : Nat) (again : JsError → M Unit) : M Unit := do
  match ← ask (.probe channel.url) with
  | .ok => return ()
  | .failed last late =>
    let cause := error ("The agent in " ++ channel.pod.podNamespace ++ "/" ++ channel.pod.podName ++
      " at " ++ channel.url ++ " did not answer within " ++ toString timeoutMs ++ "ms: " ++ last)
    if late then throw cause
    again cause

/-- `AgentChannel.ready`, with at most `polls` probes after the first: one every `readyPollMs`. -/
def channelReady (channel : ControlChannel) (timeoutMs : Nat) : (polls : Nat) → M Unit
  | 0 => probeAgent channel timeoutMs throw
  | polls + 1 => probeAgent channel timeoutMs fun _ => do
    let _ ← ask .turn
    channelReady channel timeoutMs polls

/-- The lookup the provider gives the directory. -/
def lookup : Option (SandboxId → M (Option String)) := some (fun id => await (findQueue config id))

/-- `queue()`: the job's own once there is one, else what the directory says. -/
def queueOf (me : Nat) (made : Made) : M Queue := do
  match (← self me).job with
  | some job => return job.queue
  | none => await (resolve config (lookup config) made.id made.owner)

def submitJob (me : Nat) (made : Made) : M SubmittedJob := do
  let tokenSha256 := crypto.sha256 (agentToken crypto config.agentTokenSecret made.id)
  let podSpec ← .ofExcept (buildPodSpec crypto.upperCase config tokenSha256 made.options)
  let queue ← await (queueOf config me made)
  await (submit config made.id podSpec queue)

def existingJob (me : Nat) (made : Made) : M SubmittedJob := do
  let queue ← await (queueOf config me made)
  match ← await (findJob config made.id queue) with
  | some job => return job
  | none => throw (error ("Sandbox " ++ made.id ++ " has no unfinished job in queue \"" ++ queue.text ++
      "\" to attach to, and attaching never submits one"))

def agentReadyTimeoutMs : Nat := 30000

/-- `this.job ??= ...` -/
def takeJob (me : Nat) (made : Made) : M Unit := do
  match (← self me).job with
  | some _ => return ()
  | none =>
    let job ← await (if made.attachOnly then existingJob config me made else submitJob crypto config me made)
    setSelf me (fun i => { i with job := some job })

/-- `ready()` without a placement: the job, its pod, its agent. The fields are read again after each
wait, since other calls of the instance write them too. -/
def reach (me : Nat) (made : Made) : M Unit := do
  takeJob crypto config me made
  let pod ← await (waitForRunning config (← jobOf me))
  setSelf me (fun i => { i with pod := some pod })
  let url ← await (portUrl config (← jobOf me) config.agentPort)
  match (← self me).pod with
  | none => throw (typeError "podNamespace")
  | some pod =>
    let channel : ControlChannel := { url, token := agentToken crypto config.agentTokenSecret made.id, pod }
    await (channelReady channel agentReadyTimeoutMs (agentReadyTimeoutMs / readyPollMs))
    setSelf me (fun i => { i with channel := some channel })
    let job ← jobOf me
    let pod := (← self me).pod
    modify (fun s => s.setPlacement made.id (some { job, pod, channel }))

def ready (me : Nat) (made : Made) : M Unit := do
  match (← self me).channel with
  | some _ => return ()
  | none =>
    match (← get).placements made.id with
    | none => reach crypto config me made
    | some known =>
      match ← (await (channelReady known.channel 0 0)).attempt with
      | .ok _ =>
        setSelf me (fun i => { i with job := some known.job, pod := known.pod, channel := some known.channel })
      | .error _ =>
        modify (fun s => s.setPlacement made.id none)
        reach crypto config me made

/-- `open()`, a word of Lean's own. -/
def openAgent (me : Nat) (made : Made) : M ControlChannel := do
  match (← self me).channel with
  | some channel => return channel
  | none =>
    await (ready crypto config me made)
    match (← self me).channel with
    | some channel => return channel
    | none => throw (error ("Sandbox " ++ made.id ++ " has no agent after ready()"))

/-! ## The methods of a sandbox -/

/-- `success` is `code = none`. -/
structure ExecResult where
  stdout : String
  stderr : String
  code : Option String
  deriving DecidableEq

/-- `value === 0`. -/
def isZero : JsonValue → Bool
  | .number n => n.value = some 0
  | _ => false

def toExecResult (result : CommandResult) : ExecResult :=
  { stdout := result.stdout, stderr := result.stderr
    code := if isZero result.exitCode then none else some "COMMAND_FAILED" }

/-- The deadline of a command whose caller gives none. -/
def backstopMs (timeout : Option Nat) : Option Nat :=
  if timeout = none ∧ 0 < config.commandMaxSeconds then some (config.commandMaxSeconds * 1000) else none

def exec (me : Nat) (made : Made) (cmd : String) (timeout : Option Nat) : M ExecResult := do
  let this ← self me
  let command ← .ofExcept (withEnvPrefix cmd this.env this.envDefaults)
  try
    let channel ← await (openAgent crypto config me made)
    let result ← .ofExcept
      (← ask (.agent channel (.run ["sh", "-lc", command] (timeout.or (backstopMs config timeout)))))
    pure (toExecResult result)
  catch cause =>
    let stderr :=
      if cause.name = "CommandTimeoutError" ∧ backstopMs config timeout ≠ none then
        "Command ran past ARMADA_COMMAND_MAX_SECONDS (" ++ toString config.commandMaxSeconds ++
          "s) and was killed: " ++ cmd
      else cause.message
    pure { stdout := "", stderr, code := some "BACKEND_ERROR" }

def execStream (me : Nat) (made : Made) (cmd : String) (timeout : Option Nat) : M OutputStream := do
  let channel ← await (openAgent crypto config me made)
  let this ← self me
  let command ← .ofExcept (withEnvPrefix cmd this.env this.envDefaults)
  .ofExcept (← ask (.agent channel (.stream ["sh", "-lc", command] timeout)))

inductive Encoding
  | utf8 | base64
  deriving DecidableEq

/-- A file's content and its encoding, or the code of the failure. -/
abbrev ReadFileResult := Except String (String × Encoding)

/-- Control characters as `JSON.stringify` writes them. -/
def oneLine (text : String) : String :=
  String.ofList (text.toList.flatMap fun c => if c.toNat < 32 ∨ c.toNat = 127 then Js.jsonEscape c else [c])

def readFailed (made : Made) (path code why : String) : M ReadFileResult := do
  let line := "marimohub-compute-armada: sandbox " ++ made.id ++ " could not read " ++ oneLine path ++
    " (" ++ code ++ "): " ++ oneLine why
  let token := agentToken crypto config.agentTokenSecret made.id
  modify (fun s => { s with warned := s.warned ++ [line.replace token "<token>"] })
  return .error code

def readThrough (me : Nat) (made : Made) (path : String)
    (read : ControlChannel → M (Except JsError ReadFileOutcome))
    (encode : List UInt8 → Except JsError (String × Encoding)) : M ReadFileResult := do
  let outcome ← Async.Prog.attempt do
    let channel ← await (openAgent crypto config me made)
    .ofExcept (← read channel)
  match outcome with
  | .error cause => readFailed crypto config made path "BACKEND_ERROR" cause.message
  | .ok .notFound => return .error "NOT_FOUND"
  | .ok (.failed message) => readFailed crypto config made path "READ_FAILED" message
  | .ok (.ok bytes) =>
    -- What `encode` throws nothing catches.
    let content ← .ofExcept (encode bytes)
    return .ok content

/-- The length of the engine's longest string, `buffer.constants.MAX_STRING_LENGTH`. Only the content of a
file is measured by it: what else is made a string is taken to fit. -/
def maxStringLength : Nat := 536870888

/-- `Buffer.toString('base64')`. -/
def base64Of (bytes : List UInt8) : Except JsError (String × Encoding) :=
  if 4 * ((bytes.length + 2) / 3) ≤ maxStringLength then
    .ok (String.ofList (Base64.encode bytes), .base64)
  else .error (error "Cannot create a string longer than 0x1fffffe8 characters")

/-- None also where there are too many bytes for the decoder to take, as it throws then too. -/
def decodeUtf8 (bytes : List UInt8) : Option String :=
  if bytes.length ≤ maxStringLength then String.fromUTF8? ⟨bytes.toArray⟩ else none

def readFile (me : Nat) (made : Made) (path : String) : M ReadFileResult :=
  readThrough crypto config me made path (fun channel => ask (.agent channel (.readFile path)))
    fun bytes =>
      match decodeUtf8 bytes with
      | some text => .ok (text, .utf8)
      | none => base64Of bytes

def maxSafeInteger : ℚ := 2 ^ 53 - 1

def isSafeInteger (value : ℚ) : Bool := value.den = 1 ∧ value ≤ maxSafeInteger ∧ -maxSafeInteger ≤ value

/-- `isValidBudget`, with the budget it allows: the deadline rounded up. -/
def validBudget (maxBytes timeoutMs : Number) : Option (Nat × Nat) :=
  match maxBytes.value, timeoutMs.value with
  | some maxBytes, some timeoutMs =>
    if isSafeInteger maxBytes ∧ 0 ≤ maxBytes ∧ isSafeInteger (4 * (maxBytes / 3).ceil) ∧
        0 < timeoutMs ∧ timeoutMs ≤ 2 ^ 31 - 1 then
      some (maxBytes.num.toNat, timeoutMs.ceil.toNat)
    else none
  | _, _ => none

def readFileBounded (me : Nat) (made : Made) (path : String) (maxBytes timeoutMs : Number) :
    M ReadFileResult :=
  match validBudget maxBytes timeoutMs with
  | none => readFailed crypto config made path "READ_FAILED" ("maxBytes " ++ maxBytes.text ++
      " and timeoutMs " ++ timeoutMs.text ++ " are not a valid budget")
  | some (maxBytes, timeoutMs) =>
    readThrough crypto config me made path
      (fun channel => ask (.agent channel (.readFileBounded path maxBytes timeoutMs))) base64Of

structure FileInfo where
  name : String
  absolutePath : String
  relativePath : String
  type : AgentFileType
  size : Number
  deriving DecidableEq

/-- `path.slice(path.lastIndexOf('/') + 1)`. -/
def baseName (path : String) : String := String.ofList (path.toList.reverse.takeWhile (· ≠ '/')).reverse

def toFileInfos (entries : List AgentFileEntry) (rootPath : String) (includeHidden : Bool) : List FileInfo :=
  (entries.filter fun entry =>
    includeHidden ∨ ¬ ".".toList.isPrefixOf (baseName entry.path).toList).map fun entry =>
      { name := baseName entry.path, absolutePath := entry.path
        relativePath :=
          if rootPath.toList.isPrefixOf entry.path.toList then
            let rest := entry.path.toList.drop rootPath.toList.length
            String.ofList (if rest.head? = some '/' then rest.tail else rest)
          else entry.path
        type := entry.type, size := entry.size }

structure ListFilesOptions where
  recursive : Bool
  includeHidden : Bool
  deriving DecidableEq

abbrev ListFilesResult := Except String (List FileInfo)

def listFiles (me : Nat) (made : Made) (path : String) (options : ListFilesOptions) :
    M ListFilesResult := do
  let listed ← Async.Prog.attempt do
    let channel ← await (openAgent crypto config me made)
    .ofExcept (← ask (.agent channel (.listFiles path options.recursive)))
  match listed with
  | .error _ => return .error "BACKEND_ERROR"
  | .ok .notADirectory => return .error "NOT_A_DIRECTORY"
  | .ok (.failed _) => return .error "LIST_FAILED"
  | .ok (.ok entries) => return .ok (toFileInfos entries path options.includeHidden)

def writeConcurrency : Nat := 8

/-- The loop of `writeFiles`: a batch at a time, each with what is left after it. -/
def writeBatches (channel : ControlChannel) : (batches : Nat) → List SandboxFileWrite → M Unit
  | 0, _ => return ()
  | batches + 1, files => do
    if files = [] then return ()
    match ← ask (.agent channel (.writeFiles (files.take writeConcurrency))) with
    | .error (file, cause) => throw (error ("Writing " ++ file.path ++ " failed: " ++ cause.message))
    | .ok _ => writeBatches channel batches (files.drop writeConcurrency)

def writeFiles (me : Nat) (made : Made) (files : List SandboxFileWrite) : M Unit := do
  if files = [] then return ()
  let channel ← await (openAgent crypto config me made)
  writeBatches channel files.length files

def gitCheckout (me : Nat) (made : Made) (repo : String) (options : Option GitCheckoutOptions) : M Unit := do
  let result ← await (exec crypto config me made (gitCloneCommand repo options) none)
  if result.code ≠ none then throw (error ("git checkout failed: " ++ result.stderr))

def setEnvVars (me : Nat) (vars : Record) (onlyIfUnset : Bool) : M Unit := do
  let _ ← .ofExcept (vars.mapM fun p => assertEnvName p.1)
  setSelf me (fun i =>
    if onlyIfUnset then { i with envDefaults := i.envDefaults.spread vars }
    else { i with env := i.env.spread vars })

structure StartProcessOptions where
  processId : Option String
  cwd : Option String
  env : List (String × Option String)
  deriving DecidableEq

/-- `processEnv`. Assigning to `__proto__` calls the setter that every object inherits, which drops a string. -/
def processEnvOf (env : List (String × Option String)) : Record :=
  env.filterMap fun (name, value) => if name = "__proto__" then none else value.map fun value => (name, value)

/-- A detached process in the pod: its handle. -/
structure ArmadaProcess where
  id : String
  command : String
  channel : ControlChannel
  place : String
  pid : Number
  deriving DecidableEq

def startProcess (me : Nat) (made : Made) (cmd : String) (options : StartProcessOptions) :
    M ArmadaProcess := do
  let channel ← await (openAgent crypto config me made)
  let this ← self me
  let inner ← .ofExcept (withEnvPrefix cmd (processEnvOf options.env) [])
  let command ← .ofExcept (withEnvPrefix inner this.env this.envDefaults)
  match ← ask (.agent channel (.startProcess ["sh", "-lc", command] options.cwd)) with
  | .error cause => throw (error ("Starting \"" ++ cmd ++ "\" failed: " ++ cause.message))
  | .ok pid =>
    let pod := (← self me).pod
    return { id := options.processId.getD ("armada-proc-" ++ pid.text), command := cmd, channel
             place := pod.elim made.id (fun pod => pod.podNamespace ++ "/" ++ pod.podName), pid }

def exposePort (me : Nat) (made : Made) (port : Nat) : M String := do
  await (ready crypto config me made)
  match (← self me).job with
  | none => throw (error ("Sandbox " ++ made.id ++ " has no job after ready()"))
  | some job => await (portUrl config job port)

def isPortReady (me : Nat) (made : Made) (port : Nat) (mode : Option ProbeMode) (path : Option String) :
    M Bool := do
  let s ← get
  match (s.instances me).channel.or ((s.placements made.id).map (·.channel)) with
  | none => return false
  | some channel =>
    let probe : PortProbe := { mode := some (mode.getD .http), path }
    match ← ask (.agent channel (.waitForPort port 0 none (some probe))) with
    | .ok wait => return wait.open
    | .error _ => return false

/-- Best effort: a process already gone is the goal reached. -/
def kill (process : ArmadaProcess) (signal : Option String) : M Unit := do
  try
    .ofExcept (← ask (.agent process.channel (.signalProcess process.pid (signal.getD "TERM"))))
  catch _ => pure ()

/-- The log, for a failure message that is already being thrown. -/
def logsQuietly (process : ArmadaProcess) : M String := do
  match ← ask (.agent process.channel (.processLogs process.pid)) with
  | .ok log => return log
  | .error _ => return ""

/-- `mode` and `path` go to the agent as they are. -/
def probeOf (mode : Option ProbeMode) (path : Option String) : Option PortProbe :=
  if mode = none ∧ path = none then none else some { mode, path }

/-- `waitForPort` of a process. -/
def waitForPort (process : ArmadaProcess) (port : Nat) (timeout : Option Nat) (mode : Option ProbeMode)
    (path : Option String) : M Unit := do
  let timeoutMs := timeout.getD 30000
  let wait ← .ofExcept (← ask (.agent process.channel
    (.waitForPort port timeoutMs (some process.pid) (probeOf mode path))))
  if wait.open then return ()
  else
    let log ← logsQuietly process
    if wait.exited = some true then
      throw (error (Js.trim ("process exited before port " ++ toString port ++ " opened.\n" ++ log)))
    else
      throw (error ("timed out waiting for port " ++ toString port ++ " in " ++ process.place ++ " after " ++
        toString timeoutMs ++ "ms.\n" ++ log))

def destroy (me : Nat) (made : Made) : M Unit := do
  match (← self me).job with
  | none =>
    let queue ← await (queueOf config me made)
    await (cancelSet config made.id queue)
  | some job => await (cancel config job)
  modify (fun s => (s.forget made.id).setPlacement made.id none)
  setSelf me (fun i => { i with pod := none, channel := none })

/-! ## The calls of one process -/

inductive Op
  | ready
  | exec (cmd : String) (timeout : Option Nat)
  | execStream (cmd : String) (timeout : Option Nat)
  | readFile (path : String)
  | readFileBounded (path : String) (maxBytes timeoutMs : Number)
  | listFiles (path : String) (options : ListFilesOptions)
  | writeFiles (files : List SandboxFileWrite)
  | gitCheckout (repo : String) (options : Option GitCheckoutOptions)
  | setEnvVars (vars : Record) (onlyIfUnset : Bool)
  | startProcess (cmd : String) (options : StartProcessOptions)
  | exposePort (port : Nat)
  | isPortReady (port : Nat) (mode : Option ProbeMode) (path : Option String)
  | queue
  | destroy
  deriving DecidableEq

/-- A call of instance `me`, or the provider's `listActive`, as far as `pages` pages. -/
inductive Call
  | sandbox (me : Nat) (op : Op)
  | listActive (pages : Nat)
  deriving DecidableEq

inductive Result
  | done
  | exec (result : ExecResult)
  | stream (output : OutputStream)
  | file (result : ReadFileResult)
  | files (result : ListFilesResult)
  | process (process : ArmadaProcess)
  | url (url : String)
  | flag (value : Bool)
  | queue (queue : Queue)
  | active (sandboxes : List (SandboxId × Option String))

def opBody (me : Nat) (made : Made) : Op → M Result
  | .ready => do ready crypto config me made; return .done
  | .exec cmd timeout => return .exec (← exec crypto config me made cmd timeout)
  | .execStream cmd timeout => return .stream (← execStream crypto config me made cmd timeout)
  | .readFile path => return .file (← readFile crypto config me made path)
  | .readFileBounded path maxBytes timeoutMs =>
    return .file (← readFileBounded crypto config me made path maxBytes timeoutMs)
  | .listFiles path options => return .files (← listFiles crypto config me made path options)
  | .writeFiles files => do writeFiles crypto config me made files; return .done
  | .gitCheckout repo options => do gitCheckout crypto config me made repo options; return .done
  | .setEnvVars vars onlyIfUnset => do setEnvVars me vars onlyIfUnset; return .done
  | .startProcess cmd options => return .process (← startProcess crypto config me made cmd options)
  | .exposePort port => return .url (← exposePort crypto config me made port)
  | .isPortReady port mode path => return .flag (← isPortReady me made port mode path)
  | .queue => return .queue (← queueOf config me made)
  | .destroy => do destroy config me made; return .done

/-- What the provider's `listActive` does with the jobs it finds. -/
def rememberActive (jobs : List ActiveJob) (s : Shared) : Shared :=
  jobs.foldl (fun s job => s.remember job.id (.own job.queue)) s

def body (made : Nat → Made) : Call → M Result
  | .sandbox me op => opBody crypto config me (made me) op
  | .listActive pages => do
    let jobs ← await (listActive config pages)
    modify (rememberActive jobs)
    return .active (jobs.map fun job => (job.id, job.createdAt))

end

end ComputeArmada.Adapter
