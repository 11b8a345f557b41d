import ComputeArmada.Adapter.OneQueue

/-!
# The queue of a job, across a restart

A process under one configuration submits a sandbox's job; another starts under a second one, remembering
nothing. Where the second configuration maps some owner away from `ARMADA_QUEUE`, it asks Lookout.

* `addressedTo` : the queue that a request naming a sandbox's job set names;
* `restart_queue` : every such request of the second process names the queue that holds the job, so a submit
  is deduped to it;
* `restart_unmapped` : with the map removed altogether the second process takes `ARMADA_QUEUE`, unasked.
-/

namespace ComputeArmada.Adapter
open Async Runs

def addressedTo (id : SandboxId) : Request → Option Queue
  | .post _ _ (.submit r) => if r.jobSetId = id then some r.queue else none
  | .post _ _ (.cancel r) => if r.jobSetId = id then some r.queue else none
  | .post _ _ (.status r) => if r.jobset = id then some r.queue else none
  | .post _ _ (.watch r) => if r.id = id then some r.queue else none
  | _ => none

def addressedQueues (id : SandboxId) (w : World) : List Queue := w.log.filterMap fun x => addressedTo id x.2

section
variable (crypto : Crypto) (config : ArmadaConfig) (made : Nat → Made) (id : SandboxId) (queue : String)

/-- The jobs of the set are in `queue`, and Lookout knows of one. -/
structure InQueue (v : View) : Prop where
  remembered : v.1 = none ∨ v.1 = some (.own queue)
  deduped : v.2.Deduped
  jobs : ∀ j ∈ v.2.jobs, j.jobSet = id → j.queue = queue ∧ j.clientId = id
  marked : ∃ j ∈ v.2.jobs, j.jobSet = id ∧ j.annotations.own sandboxMark = some config.queue

def restarted : Facts where
  crypto := crypto
  config := config
  made := made
  id := id
  own := InQueue config id queue
  rely _ _ := True
  queue q _ := q = .own queue
  job j _ := j.queue = .own queue
  url _ _ := True
  vacant _ := False
  mayPlace _ _ := True
  destroys := True
  moves _ _ := True

variable {crypto config made id queue}

theorem InQueue.respond {v : View} {e : Server} (h : InQueue config id queue v) (hl : v.2.Later e)
    (hdeduped : e.Deduped) (hjobs : ∀ j' ∈ e.jobs, (∃ j ∈ v.2.jobs, j.Later j') ∨
      (j'.jobSet = id → j'.queue = queue ∧ j'.clientId = id)) : InQueue config id queue (v.1, e) := by
  refine ⟨h.remembered, hdeduped, fun j' hj' hset => ?_, ?_⟩
  · rcases hjobs j' hj' with ⟨j, hj, state, rfl, -⟩ | hj'
    · exact h.jobs j hj hset
    · exact hj' hset
  · obtain ⟨j, hj, hset, hmark⟩ := h.marked
    obtain ⟨j', hj', state, rfl, -⟩ := hl.jobs j hj
    exact ⟨_, hj', hset, hmark⟩

theorem restarted_lawful (hlookout : config.lookoutUrl ≠ none) (hqueue : queue ≠ "")
    (hmapped : config.mapped = true ∨ queue = config.queue) :
    (restarted crypto config made id queue).Lawful where
  refl _ := trivial
  trans _ _ _ _ _ := trivial
  queue_later _ _ _ _ _ h := h
  job_later _ _ _ _ _ h := h
  url_later _ _ _ _ _ _ := trivial
  vacant_later _ _ _ _ h := h
  job_queue _ _ _ h := h
  known q e hown := by
    rcases hown.remembered with h | h
    · cases h
    · exact Option.some.inj h
  unmapped hunmapped e _ := by
    rcases hmapped with h | rfl
    · exact nomatch h.symm.trans hunmapped
    · rfl
  unasked _ hnone _ _ := hlookout hnone
  found q v hown hq := ⟨⟨.inr (by rw [hq]), hown.deduped, hown.jobs, hown.marked⟩, trivial⟩
  placed _ _ _ _ h := h.elim
  forgotten _ v hown := ⟨⟨.inl rfl, hown.deduped, hown.jobs, hown.marked⟩, trivial⟩
  reply := by
    intro c body pick reply e v hown hissued hserve
    refine Facts.gotReply_of_queue hissued hserve (fun _ h => h) (fun _ h => h) (fun _ => trivial)
      (fun j hj hset => congrArg _ (hown.jobs j hj hset).1) ?_
    obtain ⟨j, hj, hset, hmark⟩ := hown.marked
    rintro (h | ⟨j, hj, hset, hempty⟩)
    · exact absurd hmark (h j hj hset)
    · exact hqueue ((hown.jobs j hj hset).1.symm.trans hempty)
  respond := by
    intro c q ch a v e hown hissued hresp _
    refine ⟨hown.respond (respond_later hresp) (deduped_of_respond hresp hown.deduped) fun j' hj' => ?_, trivial⟩
    refine (jobs_of_respond hresp hj').imp_right ?_
    rintro ⟨base, authorization, body, rfl, hsubmits⟩ hset
    obtain ⟨hclient, -, -, hq⟩ := hissued.submits hsubmits
    exact ⟨Property.own.inj (hq hset), hclient.trans hset⟩
  drift := by
    intro d v e hown hdrift _
    obtain ⟨f, hjobs, hf⟩ := jobs_of_drift hdrift
    refine ⟨hown.respond (drift_later hdrift) (deduped_of_drift hdrift hown.deduped) fun j' hj' => .inl ?_, trivial⟩
    rw [hjobs] at hj'
    obtain ⟨j, hj, rfl⟩ := List.mem_map.mp hj'
    exact ⟨j, hj, hf j⟩

/-! ## The second process -/

theorem submits_marked {podSpec : PodSpec} {q : Queue} {j : Job}
    (h : Submits (.submit (submitRequest config id podSpec q)) j) :
    .own j.queue = q ∧ j.jobSet = id ∧ j.clientId = id ∧
      j.annotations.own sandboxMark = some config.queue := by
  obtain ⟨item, hbody, jobId, submitted, hj⟩ := h
  simp only [submitRequest, Body.submit.injEq, JobSubmitRequest.mk.injEq, List.cons.injEq, and_true] at hbody
  obtain ⟨hq, hset, hitem⟩ := hbody
  rw [hj, ← hitem]
  exact ⟨hq.symm, hset.symm, rfl, Record.own_set _ _ _⟩

theorem queue_of_addressed {F : Facts} {c : Caller Call} {v : View} {q : Request} {named : Queue}
    (h : F.Issued c v q) (hto : addressedTo F.id q = some named) : F.queue named v := by
  unfold addressedTo at hto
  split at hto
  all_goals try simp only [Option.ite_none_right_eq_some, Option.some.injEq] at hto
  · exact hto.2 ▸ h.2 hto.1
  · exact hto.2 ▸ (h.2 hto.1).1
  · exact hto.2 ▸ h.2 hto.1
  · exact hto.2 ▸ h hto.1
  · cases hto

end

/-- **The queue a job is in outranks the map, across a restart.** A process under `config` submitted job
`j₀` of the sandbox in `queue`; it is `j` by the time a second process starts under `config'`, which maps
some owner away from `ARMADA_QUEUE` if the job is not in it. Whatever that process does from then on, every
request that names the job set names `queue`, and no second job of the sandbox is unfinished at any time. -/
theorem restart_queue (crypto : Crypto) (config config' : ArmadaConfig) (hconfig : config.Accepted)
    (hdefault : config'.queue = config.queue) (hlookout : config'.lookoutUrl ≠ none)
    (id : SandboxId) (queue : String) (hall : queue ∈ config.all)
    (hmapped : config'.mapped = true ∨ queue = config'.queue)
    (podSpec : PodSpec) (j₀ j : Job) (e : Server)
    (hsubmits : Submits (.submit (submitRequest config id podSpec (.own queue))) j₀) (hlater : j₀.Later j)
    (hj : j ∈ e.jobs) (honly : ∀ j' ∈ e.jobs, j'.jobSet = id → j' = j) (hdeduped : e.Deduped)
    (made : Nat → Made) (w : World)
    (h : Run (Fires (process crypto config' made).step) Any (World.init e) w) :
    (∀ q ∈ addressedQueues id w, q = .own queue) ∧ (w.env.unfinished id).length ≤ 1 := by
  have hne : queue ≠ "" := by
    rintro rfl
    simp only [ArmadaConfig.all, List.mem_eraseDups, List.mem_cons] at hall
    rcases hall with hq | hq
    · exact hconfig.queue hq.symm
    · exact hconfig.nonblank _ hq (by decide)
  obtain ⟨hq, hset, hclient, hmark⟩ := submits_marked hsubmits
  obtain ⟨state, rfl, -⟩ := hlater
  have hown : InQueue config' id queue (none, e) := by
    refine ⟨.inl rfl, hdeduped, fun j' hj' hset' => ?_, _, hj, hset, hdefault ▸ hmark⟩
    rw [honly j' hj' hset']
    exact ⟨Property.own.inj hq, hclient⟩
  have hlaw : (restarted crypto config' made id queue).Lawful := restarted_lawful hlookout hne hmapped
  have hw := hlaw.sound.holds (fun _ _ _ => ⟨fun _ _ _ _ => trivial, fun _ _ _ _ _ _ _ _ _ _ _ => trivial,
    fun _ _ => trivial⟩) (Facts.holds_init hown) h
  constructor
  · intro q hq
    obtain ⟨x, hx, hto⟩ := List.mem_filterMap.mp hq
    exact queue_of_addressed (F := restarted crypto config' made id queue) (hw.log x hx) hto
  · refine hw.inv.own.deduped.single fun j hj j' hj' hset hset' => ?_
    obtain ⟨hq, hc⟩ := hw.inv.own.jobs j hj hset
    obtain ⟨hq', hc'⟩ := hw.inv.own.jobs j' hj' hset'
    exact ⟨hq.trans hq'.symm, hc.trans hc'.symm⟩

def podOfS : PodSpec :=
  { image := "kernel", tokenSha256 := digests.sha256 (agentToken digests tokenSecret "s"), ports := [2718, 2719]
    gpuCount := none, nodeSelector := none, activeDeadlineSeconds := 86400, priorityClassName := none
    imagePullSecrets := [], securityContext := none, agentImage := "agent"
    command := [agentPath, "--port", "2719"], cpu := "1", memory := "2Gi" }

/-- The job that sandbox `s` was submitted as, in `team`. -/
def jobOfS : Job :=
  { jobId := "j0", queue := "team", jobSet := "s", clientId := "s", externalJobUri := "s"
    annotations := [("armadaproject.io/failFast", "true"), (sandboxMark, "default")]
    tokenSha256 := podOfS.tokenSha256, submitted := "2026-01-01T00:00:00Z", state := .queued }

theorem submits_jobOfS : Submits (.submit (submitRequest mappedConfig "s" podOfS (.own "team"))) jobOfS :=
  ⟨_, rfl, "j0", "2026-01-01T00:00:00Z", rfl⟩

def runningS : Server := { Server.empty with jobs := [{ jobOfS with state := .running }] }

/-- Instance 0 of sandbox `s` is attached, the others are created by id alone. -/
def attached (me : Nat) : Made := { id := "s", options := none, attachOnly := me = 0 }

/-- A `ready()` that asks Lookout, and then for the sandbox's unfinished job. -/
def attaches (n me : Nat) (jobStates : List (String × Int)) : List Step :=
  .begin n (.sandbox me .ready) :: turns n 2 ++ answered n (.serves .plain) ++ turns n 10 ++
    answered n (.serves (.status jobStates)) ++ turns n 7

/-- A `destroy()`, where the directory knows the queue or is all it needs. -/
def destroys (n me : Nat) : List Step :=
  .begin n (.sandbox me .destroy) :: turns n 4 ++ answered n (.serves .plain) ++ turns n 3

theorem restart_queue_moved :
    ∃ w, addressedQueues "s" w = [.own "team", .own "team", .own "team"] ∧
      (∀ q ∈ addressedQueues "s" w, q = .own "team") ∧ (w.env.unfinished "s").length ≤ 1 := by
  obtain ⟨w, hrun, hqueues⟩ := Run.exists_of_exec
    (process digests { mappedConfig with queueByUser := [("u", "other")] } attached).step Any
    (fun w => addressedQueues "s" w = [.own "team", .own "team", .own "team"]) (World.init runningS)
    (attaches 0 0 [("j0", 2)] ++ destroys 1 1) (by decide +kernel)
  exact ⟨w, hqueues, restart_queue digests mappedConfig { mappedConfig with queueByUser := [("u", "other")] }
    mappedConfig_accepted rfl (by decide) "s" "team" (by decide) (.inl (by decide)) podOfS jobOfS _ runningS
    submits_jobOfS ⟨.running, rfl, fun h => nomatch h⟩ (List.mem_singleton_self _)
    (fun j' hj' _ => List.mem_singleton.mp hj') (List.pairwise_singleton _ _) attached w hrun⟩

/-- With the map removed altogether nothing maps away, and Lookout is never asked: the cancel goes to
`ARMADA_QUEUE`, where it finds nothing, and `destroy()` resolves. -/
theorem restart_unmapped :
    ({ mappedConfig with queueByUser := [] } : ArmadaConfig).Accepted ∧
    Submits (.submit (submitRequest mappedConfig "s" podOfS (.own "team"))) jobOfS ∧
    ∃ w, Run (Fires (process digests { mappedConfig with queueByUser := [] } attached).step) Any
        (World.init runningS) w ∧
      resolved w 1 (.sandbox 1 .destroy) = true ∧ addressedQueues "s" w = [.own "default"] ∧
      (w.env.unfinished "s").map (·.queue) = ["team"] :=
  ⟨⟨by decide, by decide, by decide, by decide, fun _ => by decide⟩, submits_jobOfS,
    Run.exists_of_exec (process digests { mappedConfig with queueByUser := [] } attached).step Any
      (fun w => resolved w 1 (.sandbox 1 .destroy) = true ∧ addressedQueues "s" w = [.own "default"] ∧
        (w.env.unfinished "s").map (·.queue) = ["team"])
      (World.init runningS) (destroys 1 1) (by decide +kernel)⟩

end ComputeArmada.Adapter
