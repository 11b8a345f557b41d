import ComputeArmada.Adapter.Sandbox

/-!
# Armada, Lookout and the pods

What the adapter's requests are answered from: the server's jobs in the order of their submission, the
events of their job sets, and the pods that answer at an address. A `Choice` says what the environment
is free to decide of one answer, a `Drift` what happens by itself.

* `Server.submitJob`, `Server.cancelJobs`, `Server.lookout`, `Server.watch` : what a request does;
* `respond`, `drift` : the environment of a process, and `process` : the two together;
* `Server.Later` : what time keeps of a server (`respond_later`, `drift_later`);
* `Server.jobs_of_respond`, `Server.Deduped` : where its jobs come from, and that a queue holds one
  unfinished job of a client id.
-/

namespace ComputeArmada.Adapter
open Runs

inductive JobState
  | queued | leased | pending | running | succeeded | failed | preempted | cancelled | rejected
  deriving DecidableEq

def JobState.finished : JobState → Bool
  | .succeeded | .failed | .preempted | .cancelled | .rejected => true
  | _ => false

/-- Lookout's name of a state. -/
def JobState.name : JobState → String
  | .queued => "QUEUED"
  | .leased => "LEASED"
  | .pending => "PENDING"
  | .running => "RUNNING"
  | .succeeded => "SUCCEEDED"
  | .failed => "FAILED"
  | .preempted => "PREEMPTED"
  | .cancelled => "CANCELLED"
  | .rejected => "REJECTED"

structure Job where
  jobId : String
  queue : String
  jobSet : String
  clientId : String
  externalJobUri : String
  annotations : Record
  tokenSha256 : String
  submitted : String
  state : JobState
  deriving DecidableEq

/-- A job that is still to finish takes a state. -/
def Job.become (j : Job) (state : JobState) : Job := if j.state.finished then j else { j with state }

/-- A pod that runs or ran, and where its agent answers. -/
structure Pod where
  jobId : String
  jobSet : String
  tokenSha256 : String
  url : String
  live : Bool
  deriving DecidableEq

structure JobEvent where
  queue : String
  jobSet : String
  message : EventMessage
  deriving DecidableEq

/-- A request that reached its service, the call that made it, and the response it was given. -/
structure Handled where
  call : Nat
  body : Body
  reply : Response (Reply body)

structure Server where
  /-- In the order of submission. -/
  jobs : List Job
  events : List JobEvent
  pods : List Pod
  /-- The last one first. -/
  handled : List Handled

def Server.empty : Server := { jobs := [], events := [], pods := [], handled := [] }

/-- What the environment decides of a request that reaches its service. -/
inductive Pick
  | plain
  | httpError (status : Nat) (statusText : String) (text : Except JsError String)
  /-- The id and the time of a new job; `reuse` where a finished job of the same client id is returned. -/
  | submit (jobId submitted : String) (reuse : Bool)
  | itemError (text : String)
  /-- The states that are reported, of some of the jobs. -/
  | status (jobStates : List (String × Int))
  /-- How many of the events arrive, and how the stream goes on from there. -/
  | watch (take : Nat) (broken : Option JsError)

inductive Choice
  /-- Whatever answer, for what the adapter asks of the process itself, its files and the agents. -/
  | free (answer : (q : Request) → Answer q)
  /-- The request does not get through. -/
  | fails (cause : JsError)
  /-- It is served, and the response lost. -/
  | loses (cause : JsError) (pick : Pick)
  | serves (pick : Pick)
  | probed (probe : Probe)

namespace Server

/-! ## Requests -/

/-- The job a submit is deduped to: an unfinished one of the queue and client id, else, if the server
still knows of it, a finished one. -/
def duplicate (e : Server) (queue clientId : String) (reuse : Bool) : Option Job :=
  let same := e.jobs.filter (fun j => j.queue = queue ∧ j.clientId = clientId)
  (same.find? (fun j => !j.state.finished)).or (if reuse then same.head? else none)

def newJob (queue jobSet : String) (item : JobSubmitRequestItem) (jobId submitted : String) : Job :=
  { jobId, queue, jobSet, clientId := item.clientId, externalJobUri := item.externalJobUri
    annotations := item.annotations, tokenSha256 := item.podSpec.tokenSha256, submitted, state := .queued }

/-- A submit: the id of the job it is deduped to, or of a new one. -/
def submitJob (e : Server) (queue jobSet : String) (item : JobSubmitRequestItem) (jobId submitted : String)
    (reuse : Bool) : Option (String × Server) :=
  match e.duplicate queue item.clientId reuse with
  | some job => some (job.jobId, e)
  | none =>
    if jobId ≠ "" ∧ ∀ j ∈ e.jobs, j.jobId ≠ jobId then
      some (jobId, { e with jobs := e.jobs ++ [newJob queue jobSet item jobId submitted] })
    else none

/-- A cancel of a job, or of the whole set when `jobId` is none: whatever it does not find is no error. -/
def cancelJobs (e : Server) (queue jobSet : String) (jobId : Option String) : Server :=
  { e with jobs := e.jobs.map fun j =>
      if j.queue = queue ∧ j.jobSet = jobSet ∧ jobId.all (· = j.jobId) then j.become .cancelled else j }

def matchesFilter (j : Job) : LookoutFilter → Bool
  | .jobSet value => j.jobSet = value
  | .state values => j.state.name ∈ values
  | LookoutFilter.annotation field value => j.annotations.own field = some value

/-- What Lookout says of a job. -/
def lookoutJob (j : Job) : LookoutJob :=
  { jobId := some j.jobId, queue := some j.queue, jobSet := some j.jobSet, state := some j.state.name
    submitted := some j.submitted }

/-- `POST /api/v1/jobs`. -/
def lookout (e : Server) (request : LookoutGetJobsRequest) : List LookoutJob :=
  let found := e.jobs.filter (fun j => request.filters.all (matchesFilter j))
  let ordered := match request.direction with
    | .ascending => found
    | .descending => found.reverse
  ((ordered.drop request.skip).take request.take).map lookoutJob

/-- The events of a job set, in their order. -/
def watch (e : Server) (queue jobSet : String) : List EventMessage :=
  (e.events.filter (fun ev => ev.queue = queue ∧ ev.jobSet = jobSet)).map (·.message)

/-- A request that reached its service. A queue that is no string never gets past its decoder. -/
def serve (e : Server) : (body : Body) → Pick → Option (Response (Reply body) × Server)
  | _, .httpError status statusText text => some (.failed status statusText text, e)
  | .submit { queue := .own queue, jobSetId, jobRequestItems := [item] }, .submit jobId submitted reuse =>
    (e.submitJob queue jobSetId item jobId submitted reuse).map fun (jobId, e) =>
      (.ok (.ok { jobResponseItems := some [{ jobId := some jobId, error := none }] }), e)
  | .submit _, .itemError text =>
    some (.ok (.ok { jobResponseItems := some [{ jobId := none, error := some text }] }), e)
  | .cancel { queue := .own queue, jobSetId, jobId }, .plain =>
    some (.ok (), e.cancelJobs queue jobSetId jobId)
  | .status { queue := .own queue, jobset, externalJobUri }, .status jobStates =>
    if ∀ p ∈ jobStates, ∃ j ∈ e.jobs, j.jobId = p.1 ∧ j.queue = queue ∧ j.jobSet = jobset ∧
        j.externalJobUri = externalJobUri then
      some (.ok (.ok { jobStates := some jobStates }), e)
    else none
  | .lookout request, .plain => some (.ok (.ok { jobs := some (e.lookout request) }), e)
  | .watch { queue := .own queue, id, .. }, .watch take broken =>
    some (.ok (some { lines := ((e.watch queue id).take take).map (fun m => .result (some m)), broken }), e)
  | _, _ => none

def note (e : Server) (call : Nat) (body : Body) (reply : Response (Reply body)) : Server :=
  { e with handled := { call, body, reply } :: e.handled }

/-- A live pod's agent answers at its address. -/
def answers (e : Server) (url : String) : Bool := e.pods.any (fun p => p.url = url ∧ p.live)

end Server

def respond (e : Server) (call : Nat) : (q : Request) → Choice → Option (Answer q × Server)
  | .post _ _ _, .fails cause => some (.error cause, e)
  | .post _ _ body, .loses cause pick =>
    (e.serve body pick).map fun (reply, e) => (.error cause, e.note call body reply)
  | .post _ _ body, .serves pick =>
    (e.serve body pick).map fun (reply, e) => (.ok reply, e.note call body reply)
  | .post _ _ _, _ => none
  | .probe url, .probed probe => if probe = .ok ∧ e.answers url = false then none else some (probe, e)
  | .probe _, _ => none
  | q, .free answer => some (answer q, e)
  | _, _ => none

/-! ## What happens by itself -/

inductive Drift
  /-- A job takes a state. -/
  | state (jobId : String) (state : JobState)
  /-- A pod of the job starts, with these addresses by port, and its events are reported. -/
  | pod (jobId : String) (location : PodLocation) (addresses : Record)
  /-- A pod stops answering. -/
  | stop (url : String)
  /-- Any other event of a job, such as that it failed or was cancelled. -/
  | event (jobId : String) (message : EventMessage)

/-- The events of a pod that started: where its addresses are, and that it runs. -/
def podEvents (j : Job) (location : PodLocation) (addresses : Record) : List JobEvent :=
  [{ queue := j.queue, jobSet := j.jobSet
     message := { ingressInfo := some { jobId := some j.jobId, ingressAddresses := some addresses } } },
   { queue := j.queue, jobSet := j.jobSet
     message := { running := some { jobId := some j.jobId, clusterId := some location.clusterId
                                    podName := some location.podName
                                    podNamespace := some location.podNamespace
                                    nodeName := location.nodeName } } }]

/-- Where the agent of a pod with these addresses answers. -/
def agentUrl (config : ArmadaConfig) (addresses : Record) : Option String :=
  (nonempty (addresses.own (toString config.agentPort))).map (urlOf config)

/-- The pod of a job. -/
def newPod (j : Job) (url : String) : Pod :=
  { jobId := j.jobId, jobSet := j.jobSet, tokenSha256 := j.tokenSha256, url, live := true }

def drift (config : ArmadaConfig) (e : Server) : Drift → Option Server
  | .state jobId state =>
    some { e with jobs := e.jobs.map fun j => if j.jobId = jobId then j.become state else j }
  | .pod jobId location addresses =>
    match e.jobs.find? (fun j => j.jobId = jobId), agentUrl config addresses with
    | some j, some url =>
      -- No two live pods have one address.
      if j.state.finished = false ∧ e.answers url = false then
        some { e with events := e.events ++ podEvents j location addresses, pods := e.pods ++ [newPod j url] }
      else none
    | _, _ => none
  | .stop url => some { e with pods := e.pods.map fun p => if p.url = url then { p with live := false } else p }
  | .event jobId message =>
    match e.jobs.find? (fun j => j.jobId = jobId) with
    | some j =>
      if message.running = none ∧ message.ingressInfo = none then
        some { e with events := e.events ++ [{ queue := j.queue, jobSet := j.jobSet, message }] }
      else none
    | none => none

/-- A process of the adapter in this environment. -/
def process (crypto : Crypto) (config : ArmadaConfig) (made : Nat → Made) :
    Async.System Shared Answer JsError Result Server Choice Drift Call :=
  { body := body crypto config made, respond := respond, drift := drift config }

abbrev World := Async.World Shared Answer JsError Result Server Call

abbrev Step := Async.Act Choice Drift Call

abbrev World.init (e : Server) : World := .start .init e

/-- Call `n` is this one, and has resolved. -/
def resolved (w : World) (n : Nat) (call : Call) : Bool :=
  match w.calls n with
  | some (l, .settled (.ok _)) => l = call
  | _ => false

theorem resolved_iff {w : World} {n : Nat} {call : Call} :
    resolved w n call = true ↔ ∃ x, w.calls n = some (call, .settled (.ok x)) := by
  unfold resolved
  split
  · rename_i l x hcall
    simp [hcall]
  · rename_i hcall
    refine ⟨fun h => (nomatch h), fun ⟨x, h⟩ => (hcall _ x h).elim⟩

/-! ## What time keeps -/

/-- The same job, later: all but its state is as it was, and so is that once it is finished. -/
def Job.Later (j j' : Job) : Prop := ∃ state, j' = { j with state } ∧ (j.state.finished → state = j.state)

theorem Job.Later.refl (j : Job) : j.Later j := ⟨j.state, rfl, fun _ => rfl⟩

theorem Job.Later.trans {j j' j'' : Job} (h : j.Later j') (h' : j'.Later j'') : j.Later j'' := by
  obtain ⟨state, rfl, hs⟩ := h
  obtain ⟨state', rfl, hs'⟩ := h'
  exact ⟨state', rfl, fun hf => by rw [hs' (by rw [hs hf]; exact hf), hs hf]⟩

theorem Job.later_become (j : Job) (state : JobState) : j.Later (j.become state) := by
  unfold Job.become
  split
  · exact .refl j
  · rename_i h
    exact ⟨state, rfl, fun hf => absurd hf h⟩

theorem Job.later_ite (j : Job) (P : Prop) [Decidable P] (state : JobState) :
    j.Later (if P then j.become state else j) := by
  split
  · exact j.later_become state
  · exact .refl j

namespace Server

/-- A later server: its jobs are later, its pods where they were, and what was handled was. -/
structure Later (e e' : Server) : Prop where
  jobs : ∀ j ∈ e.jobs, ∃ j' ∈ e'.jobs, j.Later j'
  pods : ∀ p ∈ e.pods, ∃ p' ∈ e'.pods, ∃ live, p' = { p with live }
  handled : ∀ h ∈ e.handled, h ∈ e'.handled

theorem Later.refl (e : Server) : e.Later e :=
  ⟨fun j hj => ⟨j, hj, .refl j⟩, fun p hp => ⟨p, hp, p.live, rfl⟩, fun _ h => h⟩

theorem Later.trans {e e' e'' : Server} (h : e.Later e') (h' : e'.Later e'') : e.Later e'' := by
  refine ⟨fun j hj => ?_, fun p hp => ?_, fun x hx => h'.handled x (h.handled x hx)⟩
  · obtain ⟨j', hj', hl⟩ := h.jobs j hj
    obtain ⟨j'', hj'', hl'⟩ := h'.jobs j' hj'
    exact ⟨j'', hj'', hl.trans hl'⟩
  · obtain ⟨p', hp', live, rfl⟩ := h.pods p hp
    obtain ⟨p'', hp'', live', rfl⟩ := h'.pods _ hp'
    exact ⟨_, hp'', live', rfl⟩

theorem later_map (e : Server) (f : Job → Job) (hf : ∀ j : Job, j.Later (f j)) :
    e.Later { e with jobs := e.jobs.map f } :=
  ⟨fun j hj => ⟨f j, List.mem_map.mpr ⟨j, hj, rfl⟩, hf j⟩, fun p hp => ⟨p, hp, p.live, rfl⟩, fun _ h => h⟩

theorem later_append (e : Server) (js : List Job) (evs : List JobEvent) (ps : List Pod) (hs : List Handled) :
    e.Later { jobs := e.jobs ++ js, events := e.events ++ evs, pods := e.pods ++ ps
              handled := hs ++ e.handled } :=
  ⟨fun j hj => ⟨j, List.mem_append_left _ hj, .refl j⟩,
    fun p hp => ⟨p, List.mem_append_left _ hp, p.live, rfl⟩, fun _ h => List.mem_append_right _ h⟩

/-- All that a request can do: nothing, submit a job that no unfinished one duplicates, or cancel. -/
inductive Did (e : Server) : Body → Server → Prop
  | nothing {body : Body} : Did e body e
  | submit {queue jobSet : String} {item : JobSubmitRequestItem} {jobId submitted : String}
      (fresh : ∀ j ∈ e.jobs, j.jobId ≠ jobId)
      (single : ∀ j ∈ e.jobs, j.queue = queue → j.clientId = item.clientId → j.state.finished) :
      Did e (.submit { queue := .own queue, jobSetId := jobSet, jobRequestItems := [item] })
        { e with jobs := e.jobs ++ [newJob queue jobSet item jobId submitted] }
  | cancel {queue jobSet : String} {jobId : Option String} :
      Did e (.cancel { queue := .own queue, jobSetId := jobSet, jobId }) (e.cancelJobs queue jobSet jobId)

theorem duplicate_none {e : Server} {queue clientId : String} {reuse : Bool}
    (h : e.duplicate queue clientId reuse = none) :
    ∀ j ∈ e.jobs, j.queue = queue → j.clientId = clientId → j.state.finished := by
  intro j hj hq hc
  have hnone := (Option.or_eq_none_iff.mp h).1
  simpa using List.find?_eq_none.mp hnone j (List.mem_filter.mpr ⟨hj, by simp [hq, hc]⟩)

theorem did_of_serve {e e' : Server} {body : Body} {pick : Pick} {reply : Response (Reply body)}
    (h : e.serve body pick = some (reply, e')) : Did e body e' := by
  unfold serve at h
  split at h
  · cases h
    exact .nothing
  · rename_i queue jobSetId item jobId submitted reuse
    obtain ⟨⟨jobId', e''⟩, hs, heq⟩ := Option.map_eq_some_iff.mp h
    cases heq
    unfold submitJob at hs
    split at hs
    · cases hs
      exact .nothing
    · rename_i hdup
      split at hs
      · rename_i hfresh
        cases hs
        exact .submit hfresh.2 (duplicate_none hdup)
      · cases hs
  · cases h
    exact .nothing
  · cases h
    exact .cancel
  · split at h
    · cases h
      exact .nothing
    · cases h
  · cases h
    exact .nothing
  · cases h
    exact .nothing
  · cases h

theorem Did.later {e e' : Server} {body : Body} (h : Did e body e') : e.Later e' := by
  cases h with
  | nothing => exact .refl e
  | submit => simpa using later_append e [_] [] [] []
  | cancel => exact later_map e _ fun j => j.later_ite _ _

end Server

/-! ## What one answer, or one move, does -/

/-- An answer leaves the server as it is, or is to a request that was handled. -/
theorem respond_cases {e e' : Server} {n : Nat} {q : Request} {ch : Choice} {a : Answer q}
    (h : respond e n q ch = some (a, e')) : e' = e ∨ ∃ base authorization body pick reply e₁,
      q = .post base authorization body ∧ e.serve body pick = some (reply, e₁) ∧
        e' = e₁.note n body reply := by
  unfold respond at h
  split at h
  · cases h
    exact .inl rfl
  · obtain ⟨⟨reply, e₁⟩, hs, heq⟩ := Option.map_eq_some_iff.mp h
    cases heq
    exact .inr ⟨_, _, _, _, reply, e₁, rfl, hs, rfl⟩
  · obtain ⟨⟨reply, e₁⟩, hs, heq⟩ := Option.map_eq_some_iff.mp h
    cases heq
    exact .inr ⟨_, _, _, _, reply, e₁, rfl, hs, rfl⟩
  · cases h
  · split at h
    · cases h
    · cases h
      exact .inl rfl
  · cases h
  · cases h
    exact .inl rfl
  · cases h

/-- A response that arrives is the one the request was given when it was handled. -/
theorem respond_ok {e e' : Server} {n : Nat} {base : String} {authorization : Option String} {body : Body}
    {ch : Choice} {reply : Response (Reply body)}
    (h : respond e n (.post base authorization body) ch = some (.ok reply, e')) :
    ∃ pick e₁, e.serve body pick = some (reply, e₁) ∧ e' = e₁.note n body reply := by
  cases ch with
  | serves pick =>
    obtain ⟨⟨reply', e₁⟩, hs, heq⟩ := Option.map_eq_some_iff.mp h
    cases heq
    exact ⟨pick, e₁, hs, rfl⟩
  | loses cause pick =>
    obtain ⟨⟨reply', e₁⟩, hs, heq⟩ := Option.map_eq_some_iff.mp h
    cases heq
  | free answer => cases h
  | fails cause => cases h
  | probed probe => cases h

namespace Server

theorem later_note (e : Server) (n : Nat) (body : Body) (reply : Response (Reply body)) :
    e.Later (e.note n body reply) := by
  simpa [note] using later_append e [] [] [] [⟨n, body, reply⟩]

end Server

theorem respond_later {e e' : Server} {n : Nat} {q : Request} {ch : Choice} {a : Answer q}
    (h : respond e n q ch = some (a, e')) : e.Later e' := by
  rcases respond_cases h with rfl | ⟨_, _, _, _, _, e₁, -, hs, rfl⟩
  · exact .refl e'
  · exact (Server.did_of_serve hs).later.trans (e₁.later_note _ _ _)

theorem drift_later {config : ArmadaConfig} {e e' : Server} {d : Drift} (h : drift config e d = some e') :
    e.Later e' := by
  cases d with
  | state jobId state =>
    cases h
    exact Server.later_map e _ fun j => j.later_ite _ _
  | pod jobId location addresses =>
    simp only [drift] at h
    split at h
    · split at h
      · cases h
        simpa using Server.later_append e [] _ [_] []
      · cases h
    · cases h
  | stop url =>
    cases h
    refine ⟨fun j hj => ⟨j, hj, .refl j⟩, fun p hp => ⟨_, List.mem_map.mpr ⟨p, hp, rfl⟩, ?_⟩, fun _ h => h⟩
    split
    · exact ⟨false, rfl⟩
    · exact ⟨p.live, rfl⟩
  | event jobId message =>
    simp only [drift] at h
    split at h
    · split at h
      · cases h
        simpa using Server.later_append e [] [_] [] []
      · cases h
    · cases h

/-! ## The jobs -/

theorem Job.Later.unfinished {j j' : Job} (h : j.Later j') (hf : j'.state.finished = false) :
    j.state.finished = false := by
  obtain ⟨state, rfl, hs⟩ := h
  by_contra hj
  have hj' : j.state.finished = true := by simpa using hj
  rw [hs hj'] at hf
  exact hj hf

/-- A request that submits a job. -/
def Submits (body : Body) (j : Job) : Prop :=
  ∃ item, body = .submit { queue := .own j.queue, jobSetId := j.jobSet, jobRequestItems := [item] } ∧
    ∃ jobId submitted, j = Server.newJob j.queue j.jobSet item jobId submitted

namespace Server

theorem Did.jobs {e e' : Server} {body : Body} (h : Did e body e') {j' : Job} (hj' : j' ∈ e'.jobs) :
    (∃ j ∈ e.jobs, j.Later j') ∨ Submits body j' := by
  cases h with
  | nothing => exact .inl ⟨j', hj', .refl j'⟩
  | submit =>
    rcases List.mem_append.mp hj' with hj | hj
    · exact .inl ⟨j', hj, .refl j'⟩
    · obtain rfl := List.mem_singleton.mp hj
      exact .inr ⟨_, rfl, _, _, rfl⟩
  | cancel =>
    obtain ⟨j, hj, rfl⟩ := List.mem_map.mp hj'
    exact .inl ⟨j, hj, j.later_ite _ _⟩

/-- Of two jobs of one queue and client id, one is finished. -/
def Deduped (e : Server) : Prop :=
  e.jobs.Pairwise fun j j' =>
    j.state.finished = false → j'.state.finished = false → j.queue = j'.queue → j.clientId ≠ j'.clientId

/-- The unfinished jobs of a set. -/
def unfinished (e : Server) (jobSet : String) : List Job :=
  e.jobs.filter fun j => j.jobSet = jobSet ∧ j.state.finished = false

/-- A set whose jobs have one queue and one client id holds at most one that is unfinished. -/
theorem Deduped.single {e : Server} {jobSet : String} (h : e.Deduped)
    (hsame : ∀ j ∈ e.jobs, ∀ j' ∈ e.jobs, j.jobSet = jobSet → j'.jobSet = jobSet →
      j.queue = j'.queue ∧ j.clientId = j'.clientId) : (e.unfinished jobSet).length ≤ 1 := by
  have hpair : (e.unfinished jobSet).Pairwise _ := List.Pairwise.filter _ h
  match hl : e.unfinished jobSet with
  | [] => simp
  | [_] => simp
  | j :: j' :: rest =>
    rw [hl] at hpair
    have hj : j ∈ e.unfinished jobSet := by simp [hl]
    have hj' : j' ∈ e.unfinished jobSet := by simp [hl]
    simp only [unfinished, List.mem_filter, decide_eq_true_eq] at hj hj'
    obtain ⟨hq, hc⟩ := hsame j hj.1 j' hj'.1 hj.2.1 hj'.2.1
    exact absurd hc (List.rel_of_pairwise_cons hpair (List.mem_cons_self ..) hj.2.2 hj'.2.2 hq)

theorem deduped_map {e : Server} {f : Job → Job} (hf : ∀ j : Job, j.Later (f j)) (h : e.Deduped) :
    ({ e with jobs := e.jobs.map f } : Server).Deduped := by
  refine List.pairwise_map.mpr (h.imp fun {j j'} hjj hj hj' => ?_)
  have hold := hjj ((hf j).unfinished hj) ((hf j').unfinished hj')
  obtain ⟨_, hfj, -⟩ := hf j
  obtain ⟨_, hfj', -⟩ := hf j'
  rw [hfj, hfj']
  exact hold

theorem Did.deduped {e e' : Server} {body : Body} (h : Did e body e') (he : e.Deduped) : e'.Deduped := by
  cases h with
  | nothing => exact he
  | submit fresh single =>
    refine List.pairwise_append.mpr ⟨he, List.pairwise_singleton _ _, fun j hj j' hj' hf hf' hq hc => ?_⟩
    obtain rfl := List.mem_singleton.mp hj'
    rw [single j hj hq hc] at hf
    cases hf
  | cancel => exact deduped_map (fun j => j.later_ite _ _) he

end Server

theorem jobs_of_respond {e e' : Server} {n : Nat} {q : Request} {ch : Choice} {a : Answer q}
    (h : respond e n q ch = some (a, e')) {j' : Job} (hj' : j' ∈ e'.jobs) :
    (∃ j ∈ e.jobs, j.Later j') ∨ ∃ base authorization body,
      q = .post base authorization body ∧ Submits body j' := by
  rcases respond_cases h with rfl | ⟨base, authorization, body, _, _, e₁, rfl, hs, rfl⟩
  · exact .inl ⟨j', hj', .refl j'⟩
  · exact ((Server.did_of_serve hs).jobs hj').imp id fun hj => ⟨base, authorization, body, rfl, hj⟩

theorem deduped_of_respond {e e' : Server} {n : Nat} {q : Request} {ch : Choice} {a : Answer q}
    (h : respond e n q ch = some (a, e')) (he : e.Deduped) : e'.Deduped := by
  rcases respond_cases h with rfl | ⟨_, _, _, _, _, e₁, -, hs, rfl⟩
  · exact he
  · exact (Server.did_of_serve hs).deduped he

theorem jobs_of_drift {config : ArmadaConfig} {e e' : Server} {d : Drift} (h : drift config e d = some e') :
    ∃ f : Job → Job, e'.jobs = e.jobs.map f ∧ ∀ j : Job, j.Later (f j) := by
  cases d with
  | state jobId state =>
    cases h
    exact ⟨_, rfl, fun j => j.later_ite _ _⟩
  | stop url =>
    cases h
    exact ⟨id, (List.map_id _).symm, .refl⟩
  | pod jobId location addresses =>
    simp only [drift] at h
    split at h
    · split at h
      · cases h
        exact ⟨id, (List.map_id _).symm, .refl⟩
      · cases h
    · cases h
  | event jobId message =>
    simp only [drift] at h
    split at h
    · split at h
      · cases h
        exact ⟨id, (List.map_id _).symm, .refl⟩
      · cases h
    · cases h

theorem deduped_of_drift {config : ArmadaConfig} {e e' : Server} {d : Drift} (h : drift config e d = some e')
    (he : e.Deduped) : e'.Deduped := by
  obtain ⟨f, hjobs, hf⟩ := jobs_of_drift h
  have hmap := Server.deduped_map hf he
  unfold Server.Deduped at hmap ⊢
  rw [hjobs]
  exact hmap

/-! ## Lookout -/

theorem mem_lookout {e : Server} {request : LookoutGetJobsRequest} {job : LookoutJob}
    (h : job ∈ e.lookout request) :
    ∃ j ∈ e.jobs, (∀ f ∈ request.filters, Server.matchesFilter j f = true) ∧ job = Server.lookoutJob j := by
  unfold Server.lookout at h
  obtain ⟨j, hj, rfl⟩ := List.mem_map.mp h
  have hj := List.mem_of_mem_drop (List.mem_of_mem_take hj)
  have hj : j ∈ e.jobs.filter (fun j => request.filters.all (Server.matchesFilter j)) := by
    split at hj
    · exact hj
    · exact List.mem_reverse.mp hj
  obtain ⟨hmem, hall⟩ := List.mem_filter.mp hj
  exact ⟨j, hmem, List.all_eq_true.mp hall, rfl⟩

theorem serve_lookout {e e' : Server} {request : LookoutGetJobsRequest} {pick : Pick}
    {reply : Reply (.lookout request)} (h : e.serve (.lookout request) pick = some (.ok reply, e')) :
    reply = .ok { jobs := some (e.lookout request) } ∧ e' = e := by
  cases pick <;> simp [Server.serve] at h
  obtain ⟨hreply, he⟩ := h
  cases hreply
  exact ⟨rfl, he.symm⟩

theorem of_nonempty {s : Option String} {a : String} (h : nonempty s = some a) : s = some a ∧ a ≠ "" := by
  obtain ⟨hs, ha⟩ := Option.filter_eq_some_iff.mp h
  exact ⟨hs, by simpa using ha⟩

/-- The job that a lookup of a job set takes its queue from. -/
theorem mem_findQueue {e : Server} {config : ArmadaConfig} {id : SandboxId} {queue : String}
    (h : nonempty ((e.lookout (findQueueRequest config id)).head?.bind (·.queue)) = some queue) :
    ∃ j ∈ e.jobs, j.jobSet = id ∧ j.queue = queue := by
  obtain ⟨job, hjob, hqueue⟩ := Option.bind_eq_some_iff.mp (of_nonempty h).1
  obtain ⟨j, hj, hf, rfl⟩ := mem_lookout (List.mem_of_mem_head? hjob)
  cases hqueue
  exact ⟨j, hj, by simpa [Server.matchesFilter] using hf (.jobSet id) (List.mem_cons_self ..), rfl⟩

/-- A lookup finds nothing where no job of the set carries the mark, or where one is in no queue. -/
theorem findQueue_none {e : Server} {config : ArmadaConfig} {id : SandboxId}
    (h : nonempty ((e.lookout (findQueueRequest config id)).head?.bind (·.queue)) = none) :
    (∀ j ∈ e.jobs, j.jobSet = id → j.annotations.own sandboxMark ≠ some config.queue) ∨
      ∃ j ∈ e.jobs, j.jobSet = id ∧ j.queue = "" := by
  cases hl : e.lookout (findQueueRequest config id) with
  | nil =>
    left
    intro j hj hset hmark
    have hfound : j ∈ e.jobs.filter
        (fun j => (findQueueRequest config id).filters.all (Server.matchesFilter j)) := by
      simp [findQueueRequest, lookoutRequest, Server.matchesFilter, hj, hset, hmark]
    simp only [Server.lookout, findQueueRequest, lookoutRequest, List.drop_zero, List.map_eq_nil_iff,
      List.take_eq_nil_iff, List.reverse_eq_nil_iff, Nat.one_ne_zero, false_or] at hl
    exact absurd hfound (by rw [findQueueRequest, lookoutRequest, hl]; exact List.not_mem_nil)
  | cons job rest =>
    right
    obtain ⟨j, hj, hf, rfl⟩ := mem_lookout (hl ▸ List.mem_cons_self .. :
      job ∈ e.lookout (findQueueRequest config id))
    rw [hl] at h
    refine ⟨j, hj, by simpa [Server.matchesFilter] using hf (.jobSet id) (List.mem_cons_self ..), ?_⟩
    simpa [nonempty, Server.lookoutJob] using h

/-! ## Events and pods -/

theorem rest_of_respond {e e' : Server} {n : Nat} {q : Request} {ch : Choice} {a : Answer q}
    (h : respond e n q ch = some (a, e')) : e'.events = e.events ∧ e'.pods = e.pods := by
  rcases respond_cases h with rfl | ⟨_, _, _, _, _, e₁, -, hs, rfl⟩
  · exact ⟨rfl, rfl⟩
  · cases Server.did_of_serve hs <;> exact ⟨rfl, rfl⟩

theorem Server.Did.handled {e e' : Server} {body : Body} (h : Server.Did e body e') :
    e'.handled = e.handled := by
  cases h <;> rfl

theorem handled_of_drift {config : ArmadaConfig} {e e' : Server} {d : Drift} (h : drift config e d = some e') :
    e'.handled = e.handled := by
  cases d with
  | state jobId state =>
    cases h
    rfl
  | stop url =>
    cases h
    rfl
  | pod jobId location addresses =>
    simp only [drift] at h
    split at h
    · split at h <;> cases h
      rfl
    · cases h
  | event jobId message =>
    simp only [drift] at h
    split at h
    · split at h <;> cases h
      rfl
    · cases h

theorem mem_watch {e e' : Server} {request : JobSetRequest} {pick : Pick} {stream : EventStream}
    {m : EventMessage} (h : e.serve (.watch request) pick = some (.ok (some stream), e'))
    (hm : .result (some m) ∈ stream.lines) : ∃ ev ∈ e.events, ev.jobSet = request.id ∧ ev.message = m := by
  obtain ⟨queue, id, watch, errorIfMissing⟩ := request
  cases pick with
  | watch take broken =>
    cases queue with
    | inherited member => cases h
    | own queue =>
      cases h
      obtain ⟨m', hm', heq⟩ := List.mem_map.mp hm
      cases heq
      obtain ⟨ev, hev, rfl⟩ := List.mem_map.mp (List.mem_of_mem_take hm')
      obtain ⟨hev, hset⟩ := List.mem_filter.mp hev
      exact ⟨ev, hev, (of_decide_eq_true hset).2, rfl⟩
  | plain => cases h
  | httpError status statusText text => cases h
  | submit jobId submitted reuse => cases h
  | itemError text => cases h
  | status jobStates => cases h

/-! ## What was handled was asked -/

/-- What the server handled, the calls of this process asked. -/
structure Logged (w : World) : Prop where
  asking : ∀ n l q k, w.calls n = some (l, .asking q k) → ((n, l), q) ∈ w.log
  handled : ∀ h ∈ w.env.handled, ∃ l base authorization, ((h.call, l), .post base authorization h.body) ∈ w.log

theorem Logged.step {crypto : Crypto} {config : ArmadaConfig} {made : Nat → Made} {w w' : World} {a : Step}
    (h : Logged w) (hstep : (process crypto config made).step w a = some w') : Logged w' := by
  obtain ⟨hlog, hasking⟩ := Async.System.asked hstep h.asking
  have hold : ∀ x ∈ w.env.handled, ∃ l base authorization,
      ((x.call, l), .post base authorization x.body) ∈ w'.log := by
    intro x hx
    obtain ⟨l, base, authorization, hmem⟩ := h.handled x hx
    exact ⟨l, base, authorization, hlog _ hmem⟩
  refine ⟨hasking, fun x hx => ?_⟩
  rcases Async.System.env_cases hstep with henv | ⟨n, ch, l, q, k, y, rfl, hn, hresp⟩ | ⟨δ, rfl, hdrift⟩
  · exact hold x (henv ▸ hx)
  · change respond w.env n q ch = some (y, w'.env) at hresp
    rcases respond_cases hresp with henv | ⟨base, authorization, body, pick, reply, e₁, rfl, hserve, henv⟩
    · exact hold x (henv ▸ hx)
    · rw [henv, Server.note, (Server.did_of_serve hserve).handled] at hx
      rcases List.mem_cons.mp hx with rfl | hx
      · exact ⟨l, base, authorization, hlog _ (h.asking n l _ k hn)⟩
      · exact hold x hx
  · exact hold x (handled_of_drift hdrift ▸ hx)

theorem Logged.run {crypto : Crypto} {config : ArmadaConfig} {made : Nat → Made} {e : Server}
    (he : e.handled = []) {ok : World → Step → Prop} {w : World}
    (h : Run (Fires (process crypto config made).step) ok (World.init e) w) : Logged w := by
  refine h.inv Logged (fun _ _ _ h _ hstep => h.step hstep) ⟨fun _ _ _ _ h => (nomatch h), fun x hx => ?_⟩
  change x ∈ e.handled at hx
  rw [he] at hx
  cases hx

/-! ## Schedules -/

/-- The process goes on; agents and files fail. -/
def nextTurn : Choice := .free fun
  | .turn | .lookedUp _ _ => ()
  | .tokenFile path => .error (error path)
  | .post _ _ _ => .error (error "")
  | .probe _ => .failed "" true
  | .agent _ (.writeFiles _) => .ok ()
  | .agent _ (.run _ _) | .agent _ (.stream _ _) | .agent _ (.readFile _)
  | .agent _ (.readFileBounded _ _ _) | .agent _ (.listFiles _ _) | .agent _ (.startProcess _ _)
  | .agent _ (.waitForPort _ _ _ _) | .agent _ (.signalProcess _ _)
  | .agent _ (.processLogs _) => .error (error "")

/-- A secret that is long enough. -/
def tokenSecret : String := "test-secret-of-at-least-32-characters"

/-- The digests of sandboxes `s` and `t` under this secret, and the letters of ASCII. -/
def digests : Crypto where
  hmacSha256 _ id :=
    if id = "s" then "b3444b3ce98f6968f96f2c979de92e631b91a0867725d6456e24501cc4849794"
    else "e236df20f7013a02b70ea8ad01bac0584dcb0a79b2f88ad055a36723005c3b94"
  sha256 token :=
    if token = "b3444b3ce98f6968f96f2c979de92e631b91a0867725d6456e24501cc4849794" then
      "a3ef48bfcdf328fc3d388bca4f14fcd2885409bb5c908d20a5195296594b01b8"
    else "afccbce58b753e3049d2801b526ba2fe4400b79f0dc5dfcf7f6a7861aa832fb9"
  upperCase := .ascii

/-- Call `n` is answered so and goes on. -/
def answered (n : Nat) (ch : Choice) : List Step := [.serve n ch, .resume n]

/-- Call `n` goes through `k` turns of the process. -/
def turns (n k : Nat) : List Step := (List.replicate k (answered n nextTurn)).flatten

end ComputeArmada.Adapter
