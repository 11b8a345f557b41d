import Mathlib.Data.Rat.Init
import ComputeArmada.Adapter.Js
import ComputeArmada.Lib.Async
import ComputeArmada.Lib.Json

/-!
# What the adapter is configured with, asks for and is answered

`config.ts`, `types.ts`, `armada-types.ts` and the interfaces of `channel.ts`, as far as the modelled
functions read them.

* `ArmadaConfig`, and `ArmadaConfig.Accepted` : what `readConfig` refuses to start without;
* `Request`, `Answer` : everything a program of the adapter waits for;
* `Shared` : what the calls of one process share; `M` : their programs.
-/

namespace ComputeArmada.Adapter

abbrev SandboxId := String

/-- A queue, as `forOwner` reads it from a map. -/
abbrev Queue := Property

inductive ArmadaAuth
  | anonymous
  | basic (username password : String)
  | bearer (token : String)
  | bearerFile (path : String)
  deriving DecidableEq

inductive Exposure
  | nodeport
  | ingress (tls : Bool) (certName : Option String) (annotations : Record)
  deriving DecidableEq

/-- A JavaScript number and the text of it; NaN and the infinities have no value. -/
structure Number where
  value : Option ℚ
  text : String
  deriving DecidableEq

structure ArmadaConfig where
  url : String
  expose : Exposure
  queue : String
  queueByUser : Record
  queueByProject : Record
  «namespace» : String
  priorityClassName : Option String
  image : String
  port : Nat
  agentImage : String
  agentPort : Nat
  agentTokenSecret : String
  imagePullSecrets : List String
  runAsUser : Option Nat
  runAsGroup : Option Nat
  fsGroup : Option Nat
  surfacePorts : List Nat
  gpuNodeSelectors : List (String × Record)
  podLabels : Record
  podAnnotations : Record
  maxLifetimeSeconds : Nat
  commandMaxSeconds : Nat
  auth : ArmadaAuth
  lookoutUrl : Option String

/-- `Object.values` of both maps: every queue an owner may map to. -/
def ArmadaConfig.mappedTo (config : ArmadaConfig) : List String :=
  config.queueByUser.values ++ config.queueByProject.values

/-- What `readConfig` makes sure of: `ARMADA_QUEUE` is set, a map's values are not blank, its keys are
those of a JSON object, and with a queue other than `ARMADA_QUEUE` in a map Lookout is configured. -/
structure ArmadaConfig.Accepted (config : ArmadaConfig) : Prop where
  queue : config.queue ≠ ""
  nonblank : ∀ queue ∈ config.mappedTo, Js.trim queue ≠ ""
  users : (config.queueByUser.map (·.1)).Nodup ∧ "__proto__" ∉ config.queueByUser.map (·.1)
  projects : (config.queueByProject.map (·.1)).Nodup ∧ "__proto__" ∉ config.queueByProject.map (·.1)
  lookout : (∃ queue ∈ config.mappedTo, queue ≠ config.queue) → config.lookoutUrl ≠ none

structure SandboxOwner where
  projectId : String
  userId : Option String
  deriving DecidableEq

structure ComputeResources where
  cpu : Option Number := none
  memoryBytes : Option Number := none
  gpu : Option String
  deriving DecidableEq

structure CreateSandboxOptions where
  image : Option String := none
  resources : Option ComputeResources := none
  owner : Option SandboxOwner := none
  deriving DecidableEq

/-- What an instance was made with: by `create`, or by `connectExisting` when `attachOnly`. -/
structure Made where
  id : SandboxId
  options : Option CreateSandboxOptions
  attachOnly : Bool
  deriving DecidableEq

def Made.owner (made : Made) : Option SandboxOwner := made.options.bind (·.owner)

/-! ## Armada and Lookout -/

structure SubmittedJob where
  jobId : String
  jobSetId : String
  queue : Queue
  deriving DecidableEq

structure PodLocation where
  clusterId : String
  podName : String
  podNamespace : String
  nodeName : Option String
  deriving DecidableEq

structure SecurityContext where
  runAsUser : Option Nat
  runAsGroup : Option Nat
  fsGroup : Option Nat
  deriving DecidableEq

/-- What one pod spec has that another may not: of the pod, of its kernel container, and the image of the
init container. The rest of a pod spec is the same for all. -/
structure PodSpec where
  activeDeadlineSeconds : Nat
  priorityClassName : Option String
  nodeSelector : Option Record
  imagePullSecrets : List String
  securityContext : Option SecurityContext
  agentImage : String
  image : String
  command : List String
  /-- The value of `MH_AGENT_TOKEN_SHA256`. -/
  tokenSha256 : String
  ports : List Nat
  cpu : String
  memory : String
  gpuCount : Option String
  deriving DecidableEq

structure JobSubmitRequestItem where
  clientId : String
  externalJobUri : String
  «namespace» : String
  podSpec : PodSpec
  labels : Option Record
  annotations : Record
  /-- `ingress` for an ingress exposure, `services` for a NodePort one, with these ports. -/
  expose : Exposure
  exposed : List Nat
  deriving DecidableEq

structure JobSubmitRequest where
  queue : Queue
  jobSetId : String
  jobRequestItems : List JobSubmitRequestItem
  deriving DecidableEq

structure JobSubmitResponseItem where
  jobId : Option String
  error : Option String
  deriving DecidableEq

structure JobSubmitResponse where
  jobResponseItems : Option (List JobSubmitResponseItem)
  deriving DecidableEq

structure JobCancelRequest where
  queue : Queue
  jobSetId : String
  jobId : Option String
  deriving DecidableEq

structure JobSetRequest where
  queue : Queue
  id : String
  watch : Bool
  errorIfMissing : Bool
  deriving DecidableEq

structure JobStatusUsingExternalJobUriRequest where
  queue : Queue
  jobset : String
  externalJobUri : String
  deriving DecidableEq

structure JobStatusResponse where
  jobStates : Option (List (String × Int))
  deriving DecidableEq

structure JobRunningEvent where
  jobId : Option String
  clusterId : Option String
  podName : Option String
  podNamespace : Option String
  nodeName : Option String
  deriving DecidableEq

structure JobIngressInfoEvent where
  jobId : Option String
  ingressAddresses : Option Record
  deriving DecidableEq

structure JobFailedEvent where
  jobId : Option String
  reason : Option String
  retryable : Option Bool
  deriving DecidableEq

/-- An event without a key the adapter acts on has none of these. -/
structure EventMessage where
  running : Option JobRunningEvent := none
  ingressInfo : Option JobIngressInfoEvent := none
  failed : Option JobFailedEvent := none
  /-- The `jobId` of a `cancelled` event. -/
  cancelled : Option (Option String) := none
  deriving DecidableEq

/-- A line of an event stream: what `asObject` accepts, or the text it refuses. -/
inductive EventStreamLine
  | error (message : Option String)
  | result (message : Option EventMessage)
  | notAnObject (text : String)
  deriving DecidableEq

/-- A stream as far as it is read: its lines, and how it ended if it did. -/
structure EventStream where
  lines : List EventStreamLine
  /-- The error reading it further gives; `none` where the stream ends. -/
  broken : Option JsError
  deriving DecidableEq

/-- The filters the adapter sends: a column equal to a value, one of some values, or an annotation. -/
inductive LookoutFilter
  | jobSet (value : String)
  | state (values : List String)
  | annotation (field value : String)
  deriving DecidableEq

inductive Direction
  | ascending
  | descending
  deriving DecidableEq

/-- The order is always by `submitted`. -/
structure LookoutGetJobsRequest where
  filters : List LookoutFilter
  direction : Direction
  skip : Nat
  take : Nat
  deriving DecidableEq

structure LookoutJob where
  jobId : Option String
  queue : Option String
  jobSet : Option String
  state : Option String
  submitted : Option String
  deriving DecidableEq

structure LookoutGetJobsResponse where
  jobs : Option (List LookoutJob)
  deriving DecidableEq

/-- A request body, which also names its path. -/
inductive Body
  | submit (request : JobSubmitRequest)
  | watch (request : JobSetRequest)
  | cancel (request : JobCancelRequest)
  | status (request : JobStatusUsingExternalJobUriRequest)
  | lookout (request : LookoutGetJobsRequest)
  deriving DecidableEq

/-- What is read of a response that is `ok`: the object its body holds, or why it holds none. -/
def Reply : Body → Type
  | .submit _ => Except JsError JobSubmitResponse
  | .watch _ => Option EventStream
  | .cancel _ => Unit
  | .status _ => Except JsError JobStatusResponse
  | .lookout _ => Except JsError LookoutGetJobsResponse

inductive Response (α : Type)
  | ok (body : α)
  | failed (status : Nat) (statusText : String) (text : Except JsError String)

/-! ## The agent -/

structure AgentEndpoint where
  url : String
  token : String
  pod : PodLocation
  deriving DecidableEq

abbrev ControlChannel := AgentEndpoint

/-- What `JSON.parse` gives. -/
abbrev JsonValue := Json Number

/-- The exit code is what the agent sent as one. -/
structure CommandResult where
  stdout : String
  stderr : String
  exitCode : JsonValue

/-- What a stream of a command's output gives, and the error it ends with. -/
structure OutputStream where
  chunks : List (List UInt8)
  failure : Option JsError
  deriving DecidableEq

inductive ReadFileOutcome
  | ok (bytes : List UInt8)
  | notFound
  | failed (message : String)
  deriving DecidableEq

inductive AgentFileType
  | file | directory | symlink | other
  deriving DecidableEq

structure AgentFileEntry where
  path : String
  type : AgentFileType
  size : Number
  deriving DecidableEq

inductive ListFilesOutcome
  | ok (entries : List AgentFileEntry)
  | notADirectory
  | failed (message : String)
  deriving DecidableEq

inductive ProbeMode
  | tcp | http
  deriving DecidableEq

structure PortProbe where
  mode : Option ProbeMode
  path : Option String
  deriving DecidableEq

structure PortWait where
  «open» : Bool
  exited : Option Bool
  exitCode : Option Number
  deriving DecidableEq

inductive FileContent
  | text (s : String)
  | bytes (bs : List UInt8)
  deriving DecidableEq

structure SandboxFileWrite where
  path : String
  content : FileContent
  deriving DecidableEq

/-- The methods of a `ControlChannel` other than `ready`. -/
inductive AgentRequest
  | run (command : List String) (timeoutMs : Option Nat)
  | stream (command : List String) (timeoutMs : Option Nat)
  /-- The writes of one `Promise.all`. -/
  | writeFiles (files : List SandboxFileWrite)
  | readFile (path : String)
  | readFileBounded (path : String) (maxBytes timeoutMs : Nat)
  | listFiles (path : String) (recursive : Bool)
  | startProcess (command : List String) (cwd : Option String)
  | waitForPort (port timeoutMs : Nat) (pid : Option Number) (probe : Option PortProbe)
  | signalProcess (pid : Number) (signal : String)
  | processLogs (pid : Number)
  deriving DecidableEq

/-- What a method resolves with. Of a group of writes, the first that failed rejects it. -/
def AgentReply : AgentRequest → Type
  | .run _ _ => Except JsError CommandResult
  | .stream _ _ => Except JsError OutputStream
  | .writeFiles _ => Except (SandboxFileWrite × JsError) Unit
  | .readFile _ => Except JsError ReadFileOutcome
  | .readFileBounded _ _ _ => Except JsError ReadFileOutcome
  | .listFiles _ _ => Except JsError ListFilesOutcome
  | .startProcess _ _ => Except JsError Number
  | .waitForPort _ _ _ _ => Except JsError PortWait
  | .signalProcess _ _ => Except JsError Unit
  | .processLogs _ => Except JsError String

/-- One look at `/healthz`: an answer, or why there was none and whether the deadline has passed. -/
inductive Probe
  | ok
  | failed (last : String) (late : Bool)
  deriving DecidableEq

/-! ## What a program waits for -/

inductive Request
  /-- A promise settled in this process: the rest of the program runs in another turn. -/
  | turn
  /-- The turn in which `resolve` goes on with what `lookup` answered. -/
  | lookedUp (id : SandboxId) (found : Option String)
  | tokenFile (path : String)
  | post (base : String) (authorization : Option String) (body : Body)
  | probe (url : String)
  | agent (endpoint : AgentEndpoint) (request : AgentRequest)
  deriving DecidableEq

def Answer : Request → Type
  | .turn => Unit
  | .lookedUp _ _ => Unit
  | .tokenFile _ => Except JsError String
  | .post _ _ body => Except JsError (Response (Reply body))
  | .probe _ => Probe
  | .agent _ request => AgentReply request

/-- Where a sandbox this process has reached lives. The pod is the instance's at the time, which a
`destroy` may have taken back. -/
structure Placement where
  job : SubmittedJob
  pod : Option PodLocation
  channel : ControlChannel
  deriving DecidableEq

/-- The fields of an `ArmadaSandbox` that change. -/
structure Instance where
  job : Option SubmittedJob
  pod : Option PodLocation
  channel : Option ControlChannel
  env : Record
  envDefaults : Record

def Instance.fresh : Instance := { job := none, pod := none, channel := none, env := [], envDefaults := [] }

/-- What the calls of one process share: the directory's memory, the placements, the instances, and the
lines written to `console.warn`. -/
structure Shared where
  remembered : SandboxId → Option Queue
  placements : SandboxId → Option Placement
  instances : Nat → Instance
  warned : List String

def Shared.init : Shared :=
  { remembered := fun _ => none, placements := fun _ => none, instances := fun _ => .fresh, warned := [] }

abbrev M := Async.Prog Shared Answer JsError

def ask (request : Request) : M (Answer request) := .ask request .done

/-- `await` of a promise that a call of an async function of this process made. -/
def await {α : Type} (p : M α) : M α := do
  let outcome ← p.attempt
  let _ ← ask .turn
  .ofExcept outcome

end ComputeArmada.Adapter
