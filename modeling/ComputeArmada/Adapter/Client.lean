import ComputeArmada.Lib.Base64
import ComputeArmada.Adapter.Types

/-!
# Which queue a sandbox is in, and the calls to Armada and Lookout

`queues.ts`, `auth.ts` and `armada.ts`.

* `forOwner`, `remember`, `forget`, `resolve` : the queue directory;
* `submit`, `waitForRunning`, `ingressAddress`, `cancel`, `cancelSet`, `findJob` : the Armada server;
* `findQueue`, `lookoutJobs`, `listActive` : Lookout.
-/

namespace ComputeArmada.Adapter

/-! ## The queue directory -/

/-- Every queue a sandbox of this deployment can be in, the default first. -/
def ArmadaConfig.all (config : ArmadaConfig) : List String := (config.queue :: config.mappedTo).eraseDups

def ArmadaConfig.mapped (config : ArmadaConfig) : Bool := decide (1 < config.all.length)

def forOwner (config : ArmadaConfig) (owner : SandboxOwner) : Queue :=
  let byUser := owner.userId.bind config.queueByUser.read
  (byUser.orElse fun _ => config.queueByProject.read owner.projectId).getD (.own config.queue)

/-- The queue of a sandbox that nothing is known of. -/
def place (config : ArmadaConfig) (owner : Option SandboxOwner) : Queue :=
  match owner with
  | none => .own config.queue
  | some owner => forOwner config owner

def Shared.remember (s : Shared) (id : SandboxId) (queue : Queue) : Shared :=
  { s with remembered := Function.update s.remembered id (some queue) }

def Shared.forget (s : Shared) (id : SandboxId) : Shared :=
  { s with remembered := Function.update s.remembered id none }

def queueUnknownError (id : SandboxId) (cause : JsError) : JsError :=
  { name := "QueueUnknownError"
    message := "cannot tell which queue sandbox " ++ id ++ " is in: Lookout did not answer (" ++
      cause.message ++ ")" }

def resolve (config : ArmadaConfig) (lookup : Option (SandboxId → M (Option String))) (id : SandboxId)
    (owner : Option SandboxOwner) : M Queue := do
  match (← get).remembered id with
  | some known => return known
  | none =>
    if config.mapped = false then return .own config.queue
    match lookup with
    | none => pure ()
    | some lookup =>
      match ← (lookup id).attempt with
      | .error cause =>
        let _ ← ask .turn
        throw (queueUnknownError id cause)
      | .ok found =>
        let _ ← ask (.lookedUp id found)
        match found with
        | some found =>
          modify (fun s => s.remember id (.own found))
          return .own found
        | none => pure ()
    let queue := place config owner
    modify (fun s => s.remember id queue)
    return queue

/-! ## Requests -/

def authorizationHeader : ArmadaAuth → M (Option String)
  | .anonymous => return none
  | .basic username password =>
    return some ("Basic " ++ String.ofList (Base64.encode (username ++ ":" ++ password).toUTF8.toList))
  | .bearer token => return some ("Bearer " ++ token)
  | .bearerFile path => do
    match ← ask (.tokenFile path) with
    | .error cause => throw cause
    | .ok text =>
      let token := Js.trim text
      if token = "" then throw (error ("ARMADA_AUTH_TOKEN_FILE is empty: " ++ path))
      return some ("Bearer " ++ token)

def jobSetPath (queue : Queue) (id : String) : String :=
  "/v1/job-set/" ++ Js.encodeURIComponent queue.text ++ "/" ++ Js.encodeURIComponent id

def Body.path : Body → String
  | .submit _ => "/v1/job/submit"
  | .watch request => jobSetPath request.queue request.id
  | .cancel _ => "/v1/job/cancel"
  | .status _ => "/v1/job/statusUsingExternalJobUri"
  | .lookout _ => "/api/v1/jobs"

/-- `postTo`, with the headers made before the request is. -/
def postTo (config : ArmadaConfig) (base : String) (body : Body) : M (Reply body) := do
  let authorization ← await (await (authorizationHeader config.auth))
  match ← ask (.post base authorization body) with
  | .error cause => throw cause
  | .ok (.failed status statusText text) =>
    match text with
    | .error cause => throw cause
    | .ok text =>
      let detail := Js.trim text
      throw (error ("Armada " ++ body.path ++ " failed (" ++ toString status ++ "): " ++
        (if detail = "" then statusText else detail)))
  | .ok (.ok reply) => return reply

def post (config : ArmadaConfig) (body : Body) : M (Reply body) := await (postTo config config.url body)

/-- `asObject(await response.json())`. -/
def json {α : Type} (reply : Except JsError α) : M α := await (.ofExcept reply)

/-! ## The Armada server -/

/-- A string that is neither missing nor empty. -/
def nonempty (s : Option String) : Option String := s.filter (· ≠ "")

def sandboxMark : String := "marimohub/sandbox"

def activeJobStates : List String := ["QUEUED", "LEASED", "PENDING", "RUNNING"]

/-- `SUCCEEDED`, `FAILED`, `PREEMPTED`, `CANCELLED` and `REJECTED`. -/
def finishedJobStates : List Int := [3, 4, 8, 9, 10]

def submitRequest (config : ArmadaConfig) (sandboxId : SandboxId) (podSpec : PodSpec) (queue : Queue) :
    JobSubmitRequest :=
  { queue, jobSetId := sandboxId
    jobRequestItems :=
      [{ clientId := sandboxId, externalJobUri := sandboxId, «namespace» := config.namespace, podSpec
         labels := if config.podLabels = [] then none else some config.podLabels
         annotations := config.podAnnotations.spread
           [("armadaproject.io/failFast", "true"), (sandboxMark, config.queue)]
         expose := config.expose, exposed := podSpec.ports }] }

/-- What `submit` makes of the server's response. -/
def submitted (sandboxId : SandboxId) (queue : Queue) (response : JobSubmitResponse) :
    Except JsError SubmittedJob :=
  let item := response.jobResponseItems.bind (·.head?)
  match nonempty (item.bind (·.error)), nonempty (item.bind (·.jobId)) with
  | some text, _ => .error (error ("Armada rejected the job for sandbox " ++ sandboxId ++ ": " ++ text))
  | none, none => .error (error ("Armada returned no job id for sandbox " ++ sandboxId))
  | none, some jobId => .ok { jobId, jobSetId := sandboxId, queue }

def submit (config : ArmadaConfig) (sandboxId : SandboxId) (podSpec : PodSpec) (queue : Queue) :
    M SubmittedJob := do
  let response ← await (do json (← post config (.submit (submitRequest config sandboxId podSpec queue))))
  .ofExcept (submitted sandboxId queue response)

/-- How a job-set stream that is being watched for something of a job ends. -/
inductive Watched (α : Type)
  | found (a : α)
  | failed (cause : JsError)
  /-- The stream ended before the job did anything of note. -/
  | ended

/-- Both watches: the first line that decides, by `decides` for what is waited for, by the job's end, or
by an error of the stream. `suffix` is how the message of a cancellation goes on. -/
def watchLines {α : Type} (job : SubmittedJob) (suffix : String)
    (decides : EventMessage → Option (Except JsError α)) : List EventStreamLine → Watched α
  | [] => .ended
  | .notAnObject text :: _ =>
    .failed (error ("Armada returned an event stream line that is not a JSON object: " ++ text))
  | .error message :: _ =>
    .failed (error ("Armada event stream failed: " ++ message.getD "unknown error"))
  | .result none :: lines => watchLines job suffix decides lines
  | .result (some message) :: lines =>
    match decides message with
    | some (.ok a) => .found a
    | some (.error cause) => .failed cause
    | none =>
      match message.failed with
      | some failed =>
        if failed.jobId = some job.jobId ∧ failed.retryable ≠ some true then
          .failed (error ("Armada job " ++ job.jobId ++ " failed: " ++
            failed.reason.getD "no reason given"))
        else if message.cancelled = some (some job.jobId) then
          .failed (error ("Armada job " ++ job.jobId ++ " was cancelled" ++ suffix))
        else watchLines job suffix decides lines
      | none =>
        if message.cancelled = some (some job.jobId) then
          .failed (error ("Armada job " ++ job.jobId ++ " was cancelled" ++ suffix))
        else watchLines job suffix decides lines

/-- One watch of the job's set, read until a line decides or there are no more. -/
def watchJob {α : Type} (config : ArmadaConfig) (job : SubmittedJob) (suffix missing : String)
    (decides : EventMessage → Option (Except JsError α)) : M α := do
  let request : JobSetRequest :=
    { queue := job.queue, id := job.jobSetId, watch := true, errorIfMissing := false }
  match ← await (post config (.watch request)) with
  | none => throw (error ("Armada returned no event stream for " ++ (Body.watch request).path))
  | some stream =>
    match watchLines job suffix decides stream.lines with
    | .found a => return a
    | .failed cause => throw cause
    | .ended =>
      match stream.broken with
      | some cause => throw cause
      | none => throw (error ("Armada event stream ended before job " ++ job.jobId ++ missing))

def waitForRunning (config : ArmadaConfig) (job : SubmittedJob) : M PodLocation :=
  watchJob config job " before it started" " started" fun message =>
    match message.running with
    | some running =>
      if running.jobId = some job.jobId then
        some (.ok { clusterId := running.clusterId.getD "", podName := running.podName.getD ""
                    podNamespace := running.podNamespace.getD config.namespace
                    nodeName := running.nodeName })
      else none
    | none => none

def ingressAddress (config : ArmadaConfig) (job : SubmittedJob) (port : Nat) : M String :=
  watchJob config job "" " reported an ingress address" fun message =>
    match message.ingressInfo with
    | some info =>
      if info.jobId = some job.jobId then
        let addresses := info.ingressAddresses.getD []
        match addresses.own (toString port) with
        | some address =>
          if address ≠ "" then some (.ok address)
          else some (.error (noAddress addresses))
        | none => some (.error (noAddress addresses))
      else none
    | none => none
where
  noAddress (addresses : Record) : JsError :=
    let known := ", ".intercalate (addresses.map (·.1))
    error ("Armada reported no address for port " ++ toString port ++ " of job " ++ job.jobId ++
      "; it exposes: " ++ (if known = "" then "nothing" else known))

/-- `address.includes('://')`. -/
def hasScheme (address : String) : Bool := address.toList.tails.any ("://".toList.isPrefixOf ·)

def urlOf (config : ArmadaConfig) (address : String) : String :=
  if hasScheme address then address
  else
    let scheme := match config.expose with
      | .ingress true _ _ => "https"
      | _ => "http"
    scheme ++ "://" ++ address

def portUrl (config : ArmadaConfig) (job : SubmittedJob) (port : Nat) : M String := do
  let address ← await (ingressAddress config job port)
  return urlOf config address

def cancel (config : ArmadaConfig) (job : SubmittedJob) : M Unit :=
  await (post config (.cancel { queue := job.queue, jobSetId := job.jobSetId, jobId := some job.jobId }))

def cancelSet (config : ArmadaConfig) (jobSetId : String) (queue : Queue) : M Unit :=
  await (post config (.cancel { queue, jobSetId, jobId := none }))

/-- The ids of the jobs that have not finished, in the order of `toSorted`. -/
def liveJobs (jobStates : List (String × Int)) : List String :=
  Js.toSorted ((jobStates.filter (fun p => p.2 ∉ finishedJobStates)).map (·.1))

def findJob (config : ArmadaConfig) (sandboxId : SandboxId) (queue : Queue) : M (Option SubmittedJob) := do
  let request : JobStatusUsingExternalJobUriRequest :=
    { queue, jobset := sandboxId, externalJobUri := sandboxId }
  let response ← await (do json (← post config (.status request)))
  let live := liveJobs (response.jobStates.getD [])
  return live.getLast?.map (fun jobId => { jobId, jobSetId := sandboxId, queue })

/-! ## Lookout -/

/-- A page of Lookout's list, scoped by the mark. -/
def lookoutRequest (config : ArmadaConfig) (filters : List LookoutFilter) (direction : Direction)
    (skip take : Nat) : LookoutGetJobsRequest :=
  { filters := filters ++ [ LookoutFilter.annotation sandboxMark config.queue], direction, skip, take }

def lookoutJobs (config : ArmadaConfig) (lookout : String) (request : LookoutGetJobsRequest) :
    M (List LookoutJob) := do
  let response ← await (do json (← await (postTo config lookout (.lookout request))))
  return response.jobs.getD []

def findQueueRequest (config : ArmadaConfig) (jobSetId : SandboxId) : LookoutGetJobsRequest :=
  lookoutRequest config [.jobSet jobSetId] .descending 0 1

def findQueue (config : ArmadaConfig) (jobSetId : SandboxId) : M (Option String) := do
  match config.lookoutUrl with
  | none => return none
  | some lookout =>
    let jobs ← await (lookoutJobs config lookout (findQueueRequest config jobSetId))
    return nonempty (jobs.head?.bind (·.queue))

structure ActiveJob where
  id : SandboxId
  queue : String
  createdAt : Option String
  deriving DecidableEq

def listActivePage : Nat := 500

def listActiveRequest (config : ArmadaConfig) (skip : Nat) : LookoutGetJobsRequest :=
  lookoutRequest config [.state activeJobStates] .ascending skip listActivePage

/-- `sandboxes.set(job.jobSet, ...)`: an entry keeps the place its key was first given. -/
def setActive (sandboxes : List ActiveJob) (job : ActiveJob) : List ActiveJob :=
  if sandboxes.any (fun j => j.id = job.id) then
    sandboxes.map (fun j => if j.id = job.id then job else j)
  else sandboxes ++ [job]

/-- What a page adds: a job without a set or without a queue is skipped. -/
def addPage (sandboxes : List ActiveJob) (jobs : List LookoutJob) : List ActiveJob :=
  jobs.foldl (fun sandboxes job =>
    match nonempty job.jobSet, nonempty job.queue with
    | some id, some queue => setActive sandboxes { id, queue, createdAt := job.submitted }
    | _, _ => sandboxes) sandboxes

/-- The loop of `listActive`, for the runs in which it asks for at most `pages` pages more. -/
def listActiveFrom (config : ArmadaConfig) (lookout : String) :
    (pages : Nat) → (skip : Nat) → List ActiveJob → M (List ActiveJob)
  | 0, _, _ => throw { name := "Unfinished", message := "" }
  | pages + 1, skip, sandboxes => do
    let jobs ← await (lookoutJobs config lookout (listActiveRequest config skip))
    let sandboxes := addPage sandboxes jobs
    if jobs.length < listActivePage then return sandboxes
    listActiveFrom config lookout pages (skip + listActivePage) sandboxes

def listActive (config : ArmadaConfig) (pages : Nat) : M (List ActiveJob) :=
  match config.lookoutUrl with
  | none => throw (error "listActive needs ARMADA_LOOKOUT_URL, which is not configured")
  | some lookout => listActiveFrom config lookout pages 0 []

end ComputeArmada.Adapter
