import ComputeArmada.Adapter.Restart

/-!
# Where a sandbox that does not exist yet is placed

With a queue map, a `resolve` that Lookout told of no job places the sandbox by the owner of the call, or in
`ARMADA_QUEUE` for a call by id alone, and the directory remembers that as it does what it knows.

* `firstSubmit` : the queue that the first submit of a sandbox names;
* `PlacesFor` : until then every call that places the sandbox does so where an owner is mapped;
* `owner_places` : in a run of such steps the first submit goes there;
* `misplaced` : a `queue()` by id alone, before.
-/

namespace ComputeArmada.Adapter
open Async Runs

section
variable (crypto : Crypto) (config : ArmadaConfig) (made : Nat → Made) (id : SandboxId) (owner : SandboxOwner)

/-- The jobs of the set are where the owner is mapped, and so is the sandbox if the directory knows of it. -/
structure AtOwner (v : View) : Prop where
  remembered : v.1 = none ∨ v.1 = some (forOwner config owner)
  jobs : ∀ j ∈ v.2.jobs, j.jobSet = id → .own j.queue = forOwner config owner

def ownersQueue : Facts where
  crypto := crypto
  config := config
  made := made
  id := id
  own := AtOwner config id owner
  rely _ _ := True
  queue q _ := q = forOwner config owner
  job j _ := j.queue = forOwner config owner
  url _ _ := True
  vacant _ := True
  mayPlace q _ := q = forOwner config owner
  destroys := True
  moves _ _ := True

variable {crypto config made id owner}

theorem ownersQueue_lawful (hmapped : config.mapped = true) :
    (ownersQueue crypto config made id owner).Lawful where
  refl _ := trivial
  trans _ _ _ _ _ := trivial
  queue_later _ _ _ _ _ h := h
  job_later _ _ _ _ _ h := h
  url_later _ _ _ _ _ _ := trivial
  vacant_later _ _ _ _ _ := trivial
  job_queue _ _ _ h := h
  known q e hown := by
    rcases hown.remembered with h | h
    · cases h
    · exact Option.some.inj h
  unmapped hunmapped _ _ := nomatch hmapped.symm.trans hunmapped
  unasked _ _ _ _ := trivial
  found q v hown hq := ⟨⟨.inr (congrArg some hq), hown.jobs⟩, trivial⟩
  placed _ _ v hown _ hplace := ⟨⟨.inr (congrArg some hplace), hown.jobs⟩, trivial, hplace⟩
  forgotten _ v hown := ⟨⟨.inl rfl, hown.jobs⟩, trivial⟩
  reply _ _ _ _ _ _ hown hissued hserve :=
    Facts.gotReply_of_queue hissued hserve (fun _ h => h) (fun _ h => h) (fun _ => trivial)
      (fun j hj hset => hown.jobs j hj hset) fun _ => trivial
  respond := by
    intro c q ch a v e hown hissued hresp _
    refine ⟨⟨hown.remembered, fun j' hj' hset => ?_⟩, trivial⟩
    rcases jobs_of_respond hresp hj' with ⟨j, hj, state, rfl, -⟩ | ⟨base, authorization, body, rfl, hsubmits⟩
    · exact hown.jobs j hj hset
    · obtain ⟨-, -, -, hqueue⟩ := hissued.submits hsubmits
      exact hqueue hset
  drift := by
    intro d v e hown hdrift _
    obtain ⟨f, hjobs, hf⟩ := jobs_of_drift hdrift
    refine ⟨⟨hown.remembered, fun j' hj' hset => ?_⟩, trivial⟩
    rw [hjobs] at hj'
    obtain ⟨j, hj, rfl⟩ := List.mem_map.mp hj'
    obtain ⟨state, hj', -⟩ := hf j
    rw [hj'] at hset ⊢
    exact hown.jobs j hj hset

/-! ## The first submit -/

/-- The queue that the first submit of the sandbox names. -/
def firstSubmit (id : SandboxId) (w : World) : Option Queue := (submitQueues id w).getLast?

variable (config made id owner) in
/-- Before any submit, a call that Lookout told of no job places the sandbox where the owner is mapped. -/
def PlacesFor (w : World) : Step → Prop
  | .resume n => firstSubmit id w = none → match w.calls n with
    | some (.sandbox me _, .answered (.lookedUp id' none) _ _) => id' = id →
        place config (made me).owner = forOwner config owner
    | _ => True
  | _ => True

instance (w : World) (a : Step) : Decidable (PlacesFor config made id owner w a) := by
  unfold PlacesFor
  obtain _ | _ | n | _ := a
  · infer_instance
  · infer_instance
  · refine @instDecidableForall _ _ _ ?_
    obtain _ | ⟨_ | _, _ | ⟨_ | ⟨id', _ | _⟩ | _ | _ | _ | _, a, k⟩ | _⟩ := w.calls n <;> infer_instance
  · infer_instance

theorem allowed_of_placesFor {w : World} {a : Step} (h : PlacesFor config made id owner w a)
    (hfirst : firstSubmit id w = none) :
    Allowed (process crypto config made) (ownersQueue crypto config made id owner).spec w a := by
  refine ⟨fun _ _ _ _ => trivial, ?_, fun _ _ => trivial⟩
  rintro n l q x k rfl hcall me op rfl rfl
  have hplace := h hfirst
  rw [hcall] at hplace
  exact hplace rfl

theorem submitQueues_suffix {w w' : World} {a : Step} (h : (process crypto config made).step w a = some w') :
    submitQueues id w <:+ submitQueues id w' := (System.log_suffix h).filterMap _

/-- Nothing was submitted, and what is known of the sandbox is right; or the first submit went where it should. -/
def PlacedRight (crypto : Crypto) (config : ArmadaConfig) (made : Nat → Made) (id : SandboxId)
    (owner : SandboxOwner) (w : World) : Prop :=
  firstSubmit id w = none ∧ Holds (ownersQueue crypto config made id owner).spec w ∨
    firstSubmit id w = some (forOwner config owner)

theorem PlacedRight.step (hmapped : config.mapped = true) {w w' : World} {a : Step}
    (hw : PlacedRight crypto config made id owner w) (hok : PlacesFor config made id owner w a)
    (h : (process crypto config made).step w a = some w') : PlacedRight crypto config made id owner w' := by
  rcases hw with ⟨hfirst, hholds⟩ | hfirst
  · have hw' := ((ownersQueue_lawful hmapped).sound.step hholds (allowed_of_placesFor hok hfirst) h).1
    cases hlast : firstSubmit id w' with
    | none => exact .inl ⟨hlast, hw'⟩
    | some q =>
      refine .inr (hlast.trans (congrArg some ?_))
      obtain ⟨x, hx, hto⟩ := List.mem_filterMap.mp (List.mem_of_getLast? hlast)
      obtain ⟨base, authorization, r, hpost, hset, rfl⟩ := of_submittedTo hto
      have hissued := hw'.log x hx
      rw [hpost] at hissued
      exact hissued.2 hset
  · have hsuffix : submitQueues id w <:+ submitQueues id w' := submitQueues_suffix h
    obtain ⟨more, hmore⟩ := hsuffix
    refine .inr ?_
    rw [firstSubmit] at hfirst ⊢
    rw [← hmore, List.getLast?_append, hfirst, Option.some_or]

/-- **An owner's sandbox is placed by its owner**, in every run in which, until the first submit, each call that
Lookout told of no job places it where the owner is mapped: the first submit goes there, whatever other calls
were made before. -/
theorem owner_places (crypto : Crypto) (config : ArmadaConfig) (hmapped : config.mapped = true)
    (made : Nat → Made) (id : SandboxId) (owner : SandboxOwner) (e : Server) (hnew : ∀ j ∈ e.jobs, j.jobSet ≠ id)
    (w : World) (h : Run (Fires (process crypto config made).step) (PlacesFor config made id owner) (World.init e) w) :
    ∀ q, firstSubmit id w = some q → q = forOwner config owner := by
  have hstart : PlacedRight crypto config made id owner (World.init e) :=
    .inl ⟨rfl, Facts.holds_init ⟨.inl rfl, fun j hj hset => absurd hset (hnew j hj)⟩⟩
  have hw := h.inv (PlacedRight crypto config made id owner) (fun _ _ _ hw hok hs => hw.step hmapped hok hs) hstart
  intro q hq
  rcases hw with ⟨hnone, -⟩ | hfirst
  · cases hnone.symm.trans hq
  · exact Option.some.inj (hq.symm.trans hfirst)

/-- Owner `u` of project `p`, whose sandboxes go to `team`. -/
def ownerU : SandboxOwner := { projectId := "p", userId := some "u" }

/-- Both calls are the owner's, and the first one has submitted nothing yet when the second asks. -/
theorem owner_places_twice : ∃ w, firstSubmit "s" w = some (.own "team") ∧
    ∀ q, firstSubmit "s" w = some q → q = forOwner mappedConfig ownerU := by
  obtain ⟨w, hrun, hfirst⟩ := Run.exists_of_exec (process digests mappedConfig created).step
    (PlacesFor mappedConfig created "s" ownerU) (fun w => firstSubmit "s" w = some (.own "team")) (World.init .empty)
    (asksLookout 0 ++ asksLookout 1 ++ submits 1 "j0") (by decide +kernel)
  exact ⟨w, hfirst, owner_places digests mappedConfig (by decide) created "s" ownerU .empty (fun _ h => nomatch h) w
    hrun⟩

/-- A `queue()` by id alone that Lookout tells of no job, up to its answer. -/
def asksQueue (n : Nat) : List Step :=
  .begin n (.sandbox 2 .queue) :: turns n 2 ++ answered n (.serves .plain) ++ turns n 7

/-- It resolves, and then the owner's `ready()` submits to `ARMADA_QUEUE`. -/
theorem misplaced : mappedConfig.Accepted ∧ (created 0).owner = some ownerU ∧
    forOwner mappedConfig ownerU = .own "team" ∧
    ∃ w, Run (Fires (process digests mappedConfig created).step) Any (World.init .empty) w ∧
      resolved w 0 (.sandbox 2 .queue) = true ∧ w.log.head?.map (·.1) = some (1, .sandbox 0 .ready) ∧
      firstSubmit "s" w = some (.own "default") := by
  refine ⟨mappedConfig_accepted, by decide, by decide, ?_⟩
  exact Run.exists_of_exec (process digests mappedConfig created).step Any
    (fun w => resolved w 0 (.sandbox 2 .queue) = true ∧ w.log.head?.map (·.1) = some (1, .sandbox 0 .ready) ∧
      firstSubmit "s" w = some (.own "default"))
    (World.init .empty) (asksQueue 0 ++ (.begin 1 (.sandbox 0 .ready) :: turns 1 4)) (by decide +kernel)

end

end ComputeArmada.Adapter
