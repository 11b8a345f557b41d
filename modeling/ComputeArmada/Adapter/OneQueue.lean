import ComputeArmada.Adapter.Calls

/-!
# One sandbox, one queue

* `current` : the queue that the directory would answer without a lookup;
* `KeepsQueue` : no `resolve` goes on from an empty answer of Lookout where another call has since put the
  sandbox in another queue;
* `one_queue` : in a run of such steps every submit of a sandbox names one queue, and the server never
  holds two unfinished jobs of it;
* `two_queues` : two `ready()` calls, one of them without an owner, that both asked Lookout first.
-/

namespace ComputeArmada.Adapter
open Async Runs

/-- What the directory answers without a lookup: what it remembers, or the one queue there is. -/
def current (config : ArmadaConfig) (remembered : Option Queue) : Option Queue :=
  remembered.or (if config.mapped then none else some (.own config.queue))

section
variable (crypto : Crypto) (config : ArmadaConfig) (made : Nat → Made) (id : SandboxId)

/-- Each job of the set is where the directory says. -/
def InCurrent (v : View) : Prop :=
  v.2.Deduped ∧ ∀ j ∈ v.2.jobs, j.jobSet = id → j.clientId = id ∧ current config v.1 = some (.own j.queue)

def oneQueue : Facts where
  crypto := crypto
  config := config
  made := made
  id := id
  own := InCurrent config id
  rely v v' := ∀ q, current config v.1 = some q → current config v'.1 = some q
  queue q v := current config v.1 = some q
  job j v := current config v.1 = some j.queue
  url _ _ := True
  vacant _ := True
  mayPlace q v := v.1 = none ∨ v.1 = some q
  destroys := False
  moves _ _ := True

variable {crypto config made id}

theorem current_some (q : Queue) : current config (some q) = some q := rfl

/-- The directory takes the queue it would have answered, or one for a sandbox it knows nothing of. -/
theorem InCurrent.placed {q : Queue} {v : View} (h : InCurrent config id v)
    (hq : current config v.1 = none ∨ current config v.1 = some q) :
    InCurrent config id (some q, v.2) ∧
      ∀ q', current config v.1 = some q' → current config (some q) = some q' := by
  have hrely : ∀ q', current config v.1 = some q' → current config (some q) = some q' := by
    intro q' hq'
    rcases hq with hq | hq
    · rw [hq] at hq'
      cases hq'
    · rw [← hq', hq, current_some]
  exact ⟨⟨h.1, fun j hj hset => ⟨(h.2 j hj hset).1, hrely _ (h.2 j hj hset).2⟩⟩, hrely⟩

/-- Jobs that are later ones, or that a request submits where the directory says. -/
theorem InCurrent.respond {v : View} {e : Server} (h : InCurrent config id v) (hdeduped : e.Deduped)
    (hjobs : ∀ j' ∈ e.jobs, (∃ j ∈ v.2.jobs, j.Later j') ∨
      (j'.jobSet = id → j'.clientId = id ∧ current config v.1 = some (.own j'.queue))) :
    InCurrent config id (v.1, e) := by
  refine ⟨hdeduped, fun j' hj' hset => ?_⟩
  rcases hjobs j' hj' with ⟨j, hj, state, rfl, -⟩ | hj'
  · exact h.2 j hj hset
  · exact hj' hset

theorem oneQueue_lawful : (oneQueue crypto config made id).Lawful where
  refl _ _ h := h
  trans _ _ _ h h' q hq := h' q (h q hq)
  queue_later _ _ _ _ hr h := hr _ h
  job_later _ _ _ _ hr h := hr _ h
  url_later _ _ _ _ _ _ := trivial
  vacant_later _ _ _ _ _ := trivial
  job_queue _ _ _ h := h
  known q _ _ := current_some q
  unmapped hmapped _ _ := by
    change config.mapped = false at hmapped
    change current config none = _
    simp [current, hmapped]
    rfl
  unasked _ _ _ _ := trivial
  found q v hown hq := hown.placed (.inr hq)
  placed hmapped owner v hown _ hplace := by
    have hq : current config v.1 = none ∨ current config v.1 = some (place config owner) := by
      rcases hplace with hnone | hsome
      · left
        change config.mapped = true at hmapped
        simp [current, hnone, hmapped]
      · right
        rw [hsome]
        rfl
    obtain ⟨hinv, hrely⟩ := hown.placed hq
    exact ⟨hinv, hrely, current_some _⟩
  forgotten h := h.elim
  reply _ _ _ _ _ _ hown hissued hserve :=
    Facts.gotReply_of_queue hissued hserve (fun _ h => h) (fun _ h => h) (fun _ => trivial)
      (fun j hj hset => (hown.2 j hj hset).2) fun _ => trivial
  respond := by
    intro c q ch a v e hown hissued hresp _
    refine ⟨hown.respond (deduped_of_respond hresp hown.1) fun j' hj' => ?_, fun _ h => h⟩
    refine (jobs_of_respond hresp hj').imp_right ?_
    rintro ⟨base, authorization, body, rfl, hsubmits⟩ hset
    obtain ⟨hclient, -, -, hqueue⟩ := hissued.submits hsubmits
    exact ⟨hclient.trans hset, hqueue hset⟩
  drift := by
    intro d v e hown hdrift _
    obtain ⟨f, hjobs, hf⟩ := jobs_of_drift hdrift
    refine ⟨hown.respond (deduped_of_drift hdrift hown.1) fun j' hj' => .inl ?_, fun _ h => h⟩
    rw [hjobs] at hj'
    obtain ⟨j, hj, rfl⟩ := List.mem_map.mp hj'
    exact ⟨j, hj, hf j⟩

/-! ## Every run -/

variable (config made id) in
/-- The sandbox is not destroyed; and a `resolve` that Lookout told of no job finds the directory knowing
nothing of the sandbox, or the queue it is about to put it in. -/
def KeepsQueue (w : World) : Step → Prop
  | .begin _ (.sandbox me .destroy) => (made me).id ≠ id
  | .resume n => match w.calls n with
    | some (.sandbox me _, .answered (.lookedUp id' none) _ _) => id' = id →
        w.shared.remembered id = none ∨ w.shared.remembered id = some (place config (made me).owner)
    | _ => True
  | _ => True

instance (w : World) (a : Step) : Decidable (KeepsQueue config made id w a) := by
  unfold KeepsQueue
  split
  · infer_instance
  · split <;> infer_instance
  · infer_instance

theorem allowed_of_keepsQueue {w : World} {a : Step} (h : KeepsQueue config made id w a) :
    Allowed (process crypto config made) (oneQueue crypto config made id).spec w a := by
  refine ⟨?_, ?_, fun _ _ => trivial⟩
  · rintro n l rfl ⟨me, rfl, hid⟩
    exact h hid
  · rintro n l q x k rfl hcall me op rfl rfl
    simp only [KeepsQueue, hcall] at h
    exact h rfl

/-- The queue that a submit of the sandbox names. -/
def submittedTo (id : SandboxId) : Request → Option Queue
  | .post _ _ (.submit r) => if r.jobSetId = id then some r.queue else none
  | _ => none

theorem of_submittedTo {q : Request} {queue : Queue} (h : submittedTo id q = some queue) :
    ∃ base authorization r, q = .post base authorization (.submit r) ∧ r.jobSetId = id ∧ r.queue = queue := by
  unfold submittedTo at h
  split at h
  · simp only [Option.ite_none_right_eq_some, Option.some.injEq] at h
    exact ⟨_, _, _, rfl, h⟩
  · cases h

/-- The queues that the submits of the sandbox name, over the run so far. -/
def submitQueues (id : SandboxId) (w : World) : List Queue := w.log.filterMap fun x => submittedTo id x.2

/-- **One sandbox, one queue.** -/
theorem one_queue (crypto : Crypto) (config : ArmadaConfig) (made : Nat → Made) (id : SandboxId)
    (e : Server) (hnew : ∀ j ∈ e.jobs, j.jobSet ≠ id) (hdeduped : e.Deduped) (w : World)
    (h : Run (Fires (process crypto config made).step) (KeepsQueue config made id) (World.init e) w) :
    (∃ queue, ∀ q ∈ submitQueues id w, q = queue) ∧ (w.env.unfinished id).length ≤ 1 := by
  have hstart := Facts.holds_init (F := oneQueue crypto config made id) (e := e)
    ⟨hdeduped, fun j hj hset => absurd hset (hnew j hj)⟩
  have hw := oneQueue_lawful.sound.holds (fun _ _ => allowed_of_keepsQueue) hstart h
  constructor
  · have hsubmit : ∀ q ∈ submitQueues id w, current config (w.shared.remembered id) = some q := by
      intro q hq
      obtain ⟨x, hx, hto⟩ := List.mem_filterMap.mp hq
      obtain ⟨base, authorization, r, hpost, hset, rfl⟩ := of_submittedTo hto
      have hissued := hw.log x hx
      rw [hpost] at hissued
      exact hissued.2 hset
    cases hc : current config (w.shared.remembered id) with
    | none => exact ⟨.own "", fun q hq => nomatch hc.symm.trans (hsubmit q hq)⟩
    | some queue => exact ⟨queue, fun q hq => Option.some.inj ((hsubmit q hq).symm.trans hc)⟩
  · obtain ⟨hdeduped, hjobs⟩ := hw.inv.own
    refine hdeduped.single fun j hj j' hj' hset hset' => ?_
    have hq := (hjobs j hj hset).2.symm.trans (hjobs j' hj' hset').2
    simp only [Option.some.injEq, Property.own.injEq] at hq
    exact ⟨hq, (hjobs j hj hset).1.trans (hjobs j' hj' hset').1.symm⟩

end

/-! ## Two calls at once -/

/-- A deployment that puts the sandboxes of `u` in `team`, and the rest in `default`. -/
def mappedConfig : ArmadaConfig :=
  { url := "http://armada", expose := .nodeport, queue := "default", queueByUser := [("u", "team")]
    queueByProject := [], «namespace» := "default", priorityClassName := none, image := "kernel", port := 2718
    agentImage := "agent", agentPort := 2719, agentTokenSecret := tokenSecret, imagePullSecrets := [], runAsUser := none
    runAsGroup := none, fsGroup := none, surfacePorts := [], gpuNodeSelectors := [], podLabels := []
    podAnnotations := [], maxLifetimeSeconds := 86400, commandMaxSeconds := 21600, auth := .anonymous
    lookoutUrl := some "http://lookout" }

theorem mappedConfig_accepted : mappedConfig.Accepted where
  queue := by decide
  nonblank := by decide
  users := by decide
  projects := by decide
  lookout _ := by decide

/-- Instances of sandbox `s` that `create` made: the first two for its owner `u`, the others by id alone. -/
def created : Nat → Made
  | 0 | 1 => { id := "s", options := some { owner := some { projectId := "p", userId := some "u" } },
               attachOnly := false }
  | _ => { id := "s", options := none, attachOnly := false }

theorem created_created (me : Nat) : (created me).id = "s" ∧ (created me).attachOnly = false := by
  match me with
  | 0 => exact ⟨rfl, rfl⟩
  | 1 => exact ⟨rfl, rfl⟩
  | _ + 2 => exact ⟨rfl, rfl⟩

/-- Only `ready()` is called. -/
def OnlyReady (_ : World) : Step → Prop
  | .begin _ (.sandbox _ .ready) => True
  | .begin _ _ => False
  | _ => True

instance (w : World) (a : Step) : Decidable (OnlyReady w a) := by
  unfold OnlyReady
  split <;> infer_instance

/-- A `ready()` of instance `n` asks Lookout, is told of no job, and is about to go on. -/
def asksLookout (n : Nat) : List Step :=
  .begin n (.sandbox n .ready) :: turns n 2 ++ answered n (.serves .plain) ++ turns n 5

/-- It goes on, and submits. -/
def submits (n : Nat) (jobId : String) : List Step :=
  turns n 5 ++ answered n (.serves (.submit jobId "2026-01-01T00:00:00Z" false))

theorem one_queue_twoOwned :
    ∃ w, (submitQueues "s" w).length = 2 ∧ (∃ queue, ∀ q ∈ submitQueues "s" w, q = queue) ∧
      (w.env.unfinished "s").length ≤ 1 := by
  obtain ⟨w, hrun, hlen⟩ := Run.exists_of_exec (process digests mappedConfig created).step
    (KeepsQueue mappedConfig created "s") (fun w => (submitQueues "s" w).length = 2) (World.init .empty)
    (asksLookout 0 ++ asksLookout 1 ++ submits 0 "j0" ++ submits 1 "j1") (by decide +kernel)
  exact ⟨w, hlen, one_queue digests mappedConfig created "s" .empty (fun _ h => nomatch h) .nil w hrun⟩

/-- Instance 2 has no owner: both are told of no job, and the later one overwrites the directory. -/
theorem two_queues :
    mappedConfig.Accepted ∧ (∀ me, (created me).id = "s" ∧ (created me).attachOnly = false) ∧
    ∃ w, Run (Fires (process digests mappedConfig created).step) OnlyReady (World.init .empty) w ∧
      submitQueues "s" w = [.own "default", .own "team"] ∧ (w.env.unfinished "s").length = 2 := by
  refine ⟨mappedConfig_accepted, created_created, Run.exists_of_exec
    (process digests mappedConfig created).step OnlyReady
    (fun w => submitQueues "s" w = [.own "default", .own "team"] ∧ (w.env.unfinished "s").length = 2)
    (World.init .empty)
    (asksLookout 0 ++ asksLookout 2 ++ submits 0 "j0" ++ submits 2 "j2") (by decide +kernel)⟩

end ComputeArmada.Adapter
