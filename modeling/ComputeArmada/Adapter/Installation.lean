import ComputeArmada.Adapter.Destroy
import ComputeArmada.Adapter.Fleet

/-!
# Installations that share one server

Any number of processes under any configurations. Those of one `ARMADA_QUEUE` are an installation: it is the
mark on the jobs they submit.

* `Submitted`, `submitted_of_run` : every job there is was there before, or a process has submitted it;
* `lists_own` : what `listActive` tells of, the installation submitted;
* `ended_by_destroy` : no request ends a job but the cancel of a `destroy` of its sandbox;
* `Pinned`, `pinned_queue` : where the jobs of a sandbox are in one queue, no process ever names another one,
  and no two of them are unfinished.
-/

namespace ComputeArmada.Adapter
open Async Runs

/-- What the processes have asked. -/
abbrev Asking := Nat → Caller Call → Request → Prop

/-! ## Where a job comes from -/

/-- Job `j` is, by now, what process `p` submitted for call `c`. -/
structure Submitted (asked : Asking) (j : Job) (p : Nat) (c : Caller Call) (body : Body) : Prop where
  asked : ∃ base authorization, asked p c (.post base authorization body)
  submits : ∃ j₀, Submits body j₀ ∧ j₀.Later j

/-- A job was there, or was submitted. -/
def Comes (e₀ : Server) (asked : Asking) (j : Job) : Prop :=
  (∃ j₀ ∈ e₀.jobs, j₀.Later j) ∨ ∃ p c body, Submitted asked j p c body

section
variable {crypto : Crypto} {configs : Nat → ArmadaConfig} {made : Nat → Nat → Made} {e₀ e : Server} {f : Fleet}
  {ok : Fleet → Nat × Step → Prop}

theorem Comes.later {asked : Asking} {j j' : Job} (h : Comes e₀ asked j) (hl : j.Later j') :
    Comes e₀ asked j' := by
  rcases h with ⟨j₀, hj₀, h⟩ | ⟨p, c, body, h⟩
  · exact .inl ⟨j₀, hj₀, h.trans hl⟩
  · obtain ⟨j₀, hsubmits, h'⟩ := h.submits
    exact .inr ⟨p, c, body, h.asked, j₀, hsubmits, h'.trans hl⟩

theorem Comes.more {asked asked' : Asking} {j : Job} (hmore : ∀ p c q, asked p c q → asked' p c q)
    (h : Comes e₀ asked j) : Comes e₀ asked' j := by
  refine h.imp_right ?_
  rintro ⟨p, c, body, ⟨base, authorization, hasked⟩, hsubmits⟩
  exact ⟨p, c, body, ⟨base, authorization, hmore _ _ _ hasked⟩, hsubmits⟩

theorem submitted_of_run (h : Run (Fires (Fleet.step (processes crypto configs made))) ok (.start .init e) f) :
    ∀ j ∈ f.env.jobs, Comes e f.Asked j := by
  refine Fleet.inv_asked (fun e' asked => ∀ j ∈ e'.jobs, Comes e asked j) ?_ ?_ ?_ h (Fleet.recorded_start _ _) ?_
  · exact fun e' asked asked' hmore he j hj => (he j hj).more hmore
  · intro e₁ e₂ asked p c q ch a he hq hresp j' hj'
    rcases jobs_of_respond hresp hj' with ⟨j, hj, hl⟩ | ⟨base, authorization, body, rfl, hsubmits⟩
    · exact (he j hj).later hl
    · exact .inr ⟨p, c, body, ⟨base, authorization, hq⟩, j', hsubmits, .refl j'⟩
  · intro f e₂ asked p d he _ hd j' hj'
    obtain ⟨g, hjobs, hg⟩ := jobs_of_drift hd
    rw [hjobs] at hj'
    obtain ⟨j, hj, rfl⟩ := List.mem_map.mp hj'
    exact (he j hj).later (hg j)
  · exact fun j hj => .inl ⟨j, hj, .refl j⟩

theorem later_of_step {p : Nat} {w w' : World} {a : Step} (h : (processes crypto configs made p).step w a = some w') :
    w.env.Later w'.env := by
  rcases System.env_cases h with henv | ⟨n, ch, l, r, k, x, -, -, hresp⟩ | ⟨d, -, hd⟩
  · exact henv ▸ .refl _
  · exact respond_later hresp
  · exact drift_later hd

theorem issued_of_run (h : Run (Fires (Fleet.step (processes crypto configs made))) ok (.start .init e) f)
    {p : Nat} {c : Caller Call} {base : String} {authorization : Option String} {body : Body}
    (hasked : f.Asked p c (.post base authorization body)) :
    (Facts.anything crypto (configs p) (made p) "").IssuedBody c (none, f.env) body := by
  have hsound : ∀ p, Sound (processes crypto configs made p) (Facts.anything crypto (configs p) (made p) "").spec :=
    fun p => Facts.anything_lawful.sound
  have hholds := Fleet.holds hsound (fun p => Facts.anything_allowed) ?_
    (Fleet.holds_start fun p => (Facts.holds_init (F := Facts.anything crypto (configs p) (made p) "") trivial).inv)
    (h.mono fun _ _ _ => trivial) p
  · exact hholds.log _ hasked
  · intro p q w w' a s _ _ hstep hinv
    have hl := later_of_step hstep
    exact ⟨hinv.later Facts.anything_lawful hl trivial trivial, hl, trivial⟩

/-- A submit is of a sandbox that the process has an instance of, not attached, and bears the mark. -/
theorem mark_of_submitted (h : Run (Fires (Fleet.step (processes crypto configs made))) ok (.start .init e) f)
    {j : Job} {p : Nat} {c : Caller Call} {body : Body} (hj : Submitted f.Asked j p c body) :
    j.annotations.own sandboxMark = some (configs p).queue ∧ ∃ me op podSpec queue, c.2 = .sandbox me op ∧
      (made p me).id = j.jobSet ∧ (made p me).attachOnly = false ∧
        body = .submit (submitRequest (configs p) j.jobSet podSpec queue) := by
  obtain ⟨base, authorization, hasked⟩ := hj.asked
  obtain ⟨j₀, hsubmits, state, rfl, -⟩ := hj.submits
  have hissued := issued_of_run h hasked
  obtain ⟨item, rfl, -⟩ := id hsubmits
  obtain ⟨⟨me, op, hc, hattach, podSpec, -, hbody⟩, -⟩ := hissued
  have hset : (made p me).id = j₀.jobSet := congrArg JobSubmitRequest.jobSetId hbody.symm
  have hrequest : (Body.submit _ : Body) = .submit _ := congrArg Body.submit hbody
  rw [hrequest] at hsubmits ⊢
  change (made p me).id = _ at hset
  refine ⟨(submits_marked hsubmits).2.2.2, me, op, podSpec, .own j₀.queue, hc, hset, hattach, ?_⟩
  simp only [← hset]
  rfl

end

/-! ## What an installation is told of -/

/-- Whatever a page of Lookout named was in the list, and is what the request asked for. -/
def NamesMarked (e : Server) : Prop :=
  ∀ n request response, (⟨n, .lookout request, .ok (.ok response)⟩ : Handled) ∈ e.handled →
    ∀ job ∈ response.jobs.getD [], ∃ j ∈ e.jobs, job.jobSet = some j.jobSet ∧
      ∀ mark, LookoutFilter.annotation sandboxMark mark ∈ request.filters → j.annotations.own sandboxMark = some mark

/-- A page that a call of an installation was given names the set. -/
def Paged (config : ArmadaConfig) (id : SandboxId) (e : Server) : Prop :=
  ∃ n skip response, (⟨n, .lookout (listActiveRequest config skip), .ok (.ok response)⟩ : Handled) ∈ e.handled ∧
    ∃ job ∈ response.jobs.getD [], job.jobSet = some id

section
variable {crypto : Crypto} {configs : Nat → ArmadaConfig} {made : Nat → Nat → Made} {id : SandboxId}

theorem NamesMarked.later {e e' : Server} (h : NamesMarked e) (hl : e.Later e') (hhandled : e'.handled = e.handled) :
    NamesMarked e' := by
  intro n request response hpage job hjob
  rw [hhandled] at hpage
  obtain ⟨j, hj, hset, hmark⟩ := h n request response hpage job hjob
  obtain ⟨j', hj', state, rfl, -⟩ := hl.jobs j hj
  exact ⟨_, hj', hset, hmark⟩

theorem NamesMarked.respond {e e' : Server} {n : Nat} {q : Request} {ch : Choice} {a : Answer q} (h : NamesMarked e)
    (hresp : respond e n q ch = some (a, e')) : NamesMarked e' := by
  rcases respond_cases hresp with rfl | ⟨base, authorization, body, pick, reply, e₁, rfl, hserve, rfl⟩
  · exact h
  have hdid := Server.did_of_serve hserve
  have h₁ : NamesMarked e₁ := h.later hdid.later hdid.handled
  intro m request response hpage job hjob
  rcases List.mem_cons.mp hpage with heq | hpage
  · cases heq
    obtain ⟨hreply, rfl⟩ := serve_lookout hserve
    cases hreply
    obtain ⟨j, hj, hf, rfl⟩ := mem_lookout hjob
    refine ⟨j, hj, rfl, fun mark hmark => ?_⟩
    simpa [Server.matchesFilter] using hf _ hmark
  · exact h₁ m request response hpage job hjob

theorem namesMarked_of_run {ok : Fleet → Nat × Step → Prop} {e : Server} {f : Fleet} (he : e.handled = [])
    (h : Run (Fires (Fleet.step (processes crypto configs made))) ok (.start .init e) f) : NamesMarked f.env := by
  refine Fleet.inv_asked (fun e _ => NamesMarked e) ?_ ?_ ?_ h (Fleet.recorded_start _ _) ?_
  · exact fun _ _ _ _ h => h
  · exact fun _ _ _ _ _ _ _ _ h _ hresp => h.respond hresp
  · exact fun _ _ _ _ _ h _ hd => h.later (drift_later hd) (handled_of_drift hd)
  · intro n request response hpage
    have hnone : (⟨n, .lookout request, .ok (.ok response)⟩ : Handled) ∈ e.handled := hpage
    rw [he] at hnone
    cases hnone

theorem Paged.later {config : ArmadaConfig} {e e' : Server} (h : Paged config id e) (hl : e.Later e') :
    Paged config id e' := by
  obtain ⟨n, skip, response, hpage, hjob⟩ := h
  exact ⟨n, skip, response, hl.handled _ hpage, hjob⟩


theorem of_mem_addPage {sandboxes : List ActiveJob} {jobs : List LookoutJob} {a : ActiveJob}
    (h : a ∈ addPage sandboxes jobs) : a ∈ sandboxes ∨ ∃ job ∈ jobs, job.jobSet = some a.id := by
  unfold addPage at h
  induction jobs generalizing sandboxes with
  | nil => exact .inl h
  | cons job jobs ih =>
    rw [List.foldl_cons] at h
    rcases ih h with h | ⟨job', hjob', hset⟩
    · split at h
      · rename_i id queue hset hqueue
        have hadd : a ∈ sandboxes ∨ a = { id, queue, createdAt := job.submitted } := by
          unfold setActive at h
          split at h
          · obtain ⟨k, hk, rfl⟩ := List.mem_map.mp h
            split
            · exact .inr rfl
            · exact .inl hk
          · simpa using h
        rcases hadd with h | rfl
        · exact .inl h
        · exact .inr ⟨job, List.mem_cons_self .., (of_nonempty hset).1⟩
      · exact .inl h
    · exact .inr ⟨job', List.mem_cons_of_mem _ hjob', hset⟩

end

section
variable {crypto : Crypto} {config : ArmadaConfig} {made : Nat → Made} {c : Caller Call} {s : Shared} {e : Server}

/-- Every sandbox found so far is on a page. -/
def Found (config : ArmadaConfig) (sandboxes : List ActiveJob) (_ : Shared) (e : Server) : Prop :=
  ∀ job ∈ sandboxes, Paged config job.id e

theorem does_findActive (lookout : String) (pages skip : Nat) {sandboxes : List ActiveJob}
    (h : Found config sandboxes s e) :
    Does (Facts.anything crypto config made "").spec c (listActiveFrom config lookout pages skip sandboxes)
      (Found config) s e := by
  have law : (Facts.anything crypto config made "").Lawful := Facts.anything_lawful
  induction pages generalizing skip sandboxes s e with
  | zero => exact Does.throw law.spec
  | succ pages ih =>
    have hpage := Facts.does_lookoutJobs law (c := c) (s := s) (e := e) lookout (.inr ⟨skip, rfl⟩)
    refine Does.bind law.spec (Facts.does_await law ?_ hpage) fun jobs s₁ e₁ hr₁ _ hjobs => ?_
    · rintro jobs s e s' e' hl hr ⟨response, hjobs, hreply⟩
      exact ⟨response, hjobs, Facts.lasts_replied law _ _ _ _ _ _ hl hr hreply⟩
    have hadd : Found config (addPage sandboxes jobs) s₁ e₁ := by
      obtain ⟨response, rfl, hhandled, -⟩ := hjobs
      intro a ha
      rcases of_mem_addPage ha with ha | hjob
      · exact (h a ha).later hr₁.1
      · exact ⟨c.1, skip, response, hhandled, hjob⟩
    dsimp only
    split
    · exact Does.pure law.spec hadd
    · exact ih _ hadd

/-- What is known of the outcome of a `listActive`. -/
def ListsPaged (config : ArmadaConfig) (c : Caller Call) (r : Except JsError Result) (_ : Shared) (e : Server) : Prop :=
  ∀ pages sandboxes, c.2 = .listActive pages → r = .ok (.active sandboxes) → ∀ x ∈ sandboxes, Paged config x.1 e

def listing (crypto : Crypto) (config : ArmadaConfig) (made : Nat → Made) :
    Spec Shared Answer JsError Result Server Call :=
  (Facts.anything crypto config made "").spec.ending (ListsPaged config)

theorem listing_sound : Sound (process crypto config made) (listing crypto config made) := by
  have law : (Facts.anything crypto config made "").Lawful := Facts.anything_lawful
  refine law.sound.ending (fun c r s e s' e' hr h pages sandboxes hc hok x hx => ?_) fun c s e hinv hstart => ?_
  · exact (h pages sandboxes hc hok x hx).later hr.1
  have hbody := law.sound.body c s e hinv hstart
  obtain ⟨n, call⟩ := c
  cases call with
  | sandbox me op =>
    refine hbody.mono fun r s₀ s e ⟨hi, ht, _⟩ => ⟨hi, ht, fun pages sandboxes hc => ?_⟩
    cases hc
  | listActive pages =>
    have hlists : Does (Facts.anything crypto config made "").spec (n, .listActive pages)
        (body crypto config made (.listActive pages))
        (fun r _ e => ∀ sandboxes, r = .active sandboxes → ∀ x ∈ sandboxes, Paged config x.1 e) s e := by
      have hlist : Does (Facts.anything crypto config made "").spec (n, .listActive pages)
          (listActive config pages) (Found config) s e := by
        unfold listActive
        split
        · exact Does.throw law.spec
        · exact does_findActive _ _ _ fun job hjob => absurd hjob List.not_mem_nil
      refine Does.bind law.spec (Facts.does_await law ?_ hlist) fun jobs s₁ e₁ _ hinv hjobs => ?_
      · exact fun jobs s e s' e' hl _ h job hjob => (h job hjob).later hl
      have hfits : Facts.ActiveFits (Facts.anything crypto config made "") jobs s₁ e₁ := fun _ _ _ => trivial
      obtain ⟨hi, hr, hp⟩ := Facts.rememberActive_fits law hinv hfits
      refine Does.bind law.spec (Φ := fun _ _ e => Found config jobs s₁ e) (Does.modify law.spec hi
        (.unfinished hr fun _ hnone => by rw [hp]; exact hnone) hjobs) fun _ s₂ e₂ _ _ hjobs => ?_
      refine Does.pure law.spec fun sandboxes heq x hx => ?_
      cases heq
      obtain ⟨job, hjob, rfl⟩ := List.mem_map.mp hx
      exact hjobs job hjob
    refine (hbody.and (hlists.safe s hinv (law.spec.turn_refl _ _ _))).mono
      fun r s₀ s e ⟨⟨hi, ht, _⟩, _, _, _, hΦ⟩ => ⟨hi, ht, fun pages' sandboxes _ hok => ?_⟩
    exact hΦ _ hok sandboxes rfl

end

section
variable {crypto : Crypto} {configs : Nat → ArmadaConfig} {made : Nat → Nat → Made}

theorem paged_of_run {ok : Fleet → Nat × Step → Prop} {e : Server} {f : Fleet}
    (h : Run (Fires (Fleet.step (processes crypto configs made))) ok (.start .init e) f) {p n pages : Nat}
    {sandboxes : List (SandboxId × Option String)}
    (hcall : (f.process p).calls n = some (.listActive pages, .settled (.ok (.active sandboxes)))) :
    ∀ x ∈ sandboxes, Paged (configs p) x.1 f.env := by
  have hsound : ∀ p, Sound (processes crypto configs made p) (listing crypto (configs p) (made p)) :=
    fun p => listing_sound
  have hholds := Fleet.holds hsound (fun p => Facts.anything_allowed) ?_
    (Fleet.holds_start fun p => (Facts.holds_init (F := Facts.anything crypto (configs p) (made p) "") trivial).inv)
    (h.mono fun _ _ _ => trivial) p
  · exact hholds.calls n _ _ hcall pages sandboxes rfl rfl
  · intro p q w w' a s _ _ hstep hinv
    have hl := later_of_step hstep
    exact ⟨Facts.Inv.later Facts.anything_lawful hinv hl trivial trivial, hl, trivial⟩

/-- **An installation lists only its own sandboxes.** Whatever the processes that share the server do, and
under whatever configurations: what a `listActive` of process `p` tells of was in the list at the start, under
the mark of its installation, or a process of its installation has submitted it, for an instance of that
sandbox that was not attached. -/
theorem lists_own (crypto : Crypto) (configs : Nat → ArmadaConfig) (made : Nat → Nat → Made) (e : Server)
    (he : e.handled = []) (f : Fleet)
    (h : Run (Fires (Fleet.step (processes crypto configs made))) Any (.start .init e) f) (p n pages : Nat)
    (sandboxes : List (SandboxId × Option String))
    (hcall : (f.process p).calls n = some (.listActive pages, .settled (.ok (.active sandboxes)))) :
    ∀ x ∈ sandboxes,
      (∃ j ∈ e.jobs, j.jobSet = x.1 ∧ j.annotations.own sandboxMark = some (configs p).queue) ∨
      ∃ p' n' me op base authorization podSpec queue, (configs p').queue = (configs p).queue ∧
        (made p' me).id = x.1 ∧ (made p' me).attachOnly = false ∧ f.Asked p' (n', .sandbox me op)
          (.post base authorization (.submit (submitRequest (configs p') x.1 podSpec queue))) := by
  rintro ⟨id, createdAt⟩ hx
  obtain ⟨m, skip, response, hpage, job, hjob, hset⟩ := paged_of_run h hcall _ hx
  obtain ⟨j, hj, hjset, hmark⟩ := namesMarked_of_run he h m _ response hpage job hjob
  have hown := hmark (configs p).queue (by simp [listActiveRequest, lookoutRequest])
  obtain rfl : j.jobSet = id := Option.some.inj (hjset.symm.trans hset)
  rcases submitted_of_run h j hj with ⟨j₀, hj₀, state, rfl, -⟩ | ⟨p', c, body, hsubmitted⟩
  · exact .inl ⟨j₀, hj₀, rfl, hown⟩
  · obtain ⟨hown', me, op, podSpec, queue, hc, hid, hattach, rfl⟩ := mark_of_submitted h hsubmitted
    obtain ⟨base, authorization, hasked⟩ := hsubmitted.asked
    obtain ⟨n', call⟩ := c
    obtain rfl : call = _ := hc
    exact .inr ⟨p', n', me, op, base, authorization, podSpec, queue, Option.some.inj (hown'.symm.trans hown), hid,
      hattach, hasked⟩

end

/-- What a `listActive` that has resolved told of. -/
def listedBy (w : World) (n : Nat) : List SandboxId :=
  match w.calls n with
  | some (.listActive _, .settled (.ok (.active sandboxes))) => sandboxes.map (·.1)
  | _ => []

theorem of_listedBy {w : World} {n : Nat} {id : SandboxId} (h : id ∈ listedBy w n) :
    ∃ pages sandboxes, w.calls n = some (.listActive pages, .settled (.ok (.active sandboxes))) ∧
      ∃ x ∈ sandboxes, x.1 = id := by
  unfold listedBy at h
  split at h
  · rename_i pages sandboxes hcall
    exact ⟨pages, sandboxes, hcall, List.mem_map.mp h⟩
  · cases h

/-- Process 0 submits sandbox `s`. -/
def zeroSubmits : List (Nat × Step) := (startsReady 0 0 ++ itsSubmit 0 "j0").map fun a => (0, a)

/-- Process 1 lists what is active, on one page. -/
def oneLists : List (Nat × Step) :=
  (.begin 0 (.listActive 1) :: turns 0 2 ++ answered 0 (.serves .plain) ++ turns 0 5).map fun a => (1, a)

theorem lists_own_others : ∃ f : Fleet, "s" ∈ listedBy (f.process 1) 0 ∧
    ∃ p n me op base authorization podSpec queue, (created me).id = "s" ∧ (created me).attachOnly = false ∧
      f.Asked p (n, .sandbox me op) (.post base authorization
        (.submit (submitRequest plainConfig "s" podSpec queue))) := by
  obtain ⟨f, hrun, hactive⟩ := Run.exists_of_exec
    (Async.Fleet.step (processes digests (fun _ => plainConfig) fun _ => created)) Any
    (fun f => "s" ∈ listedBy (f.process 1) 0) (.start .init .empty) (zeroSubmits ++ oneLists) (by decide +kernel)
  refine ⟨f, hactive, ?_⟩
  obtain ⟨pages, sandboxes, hcall, ⟨_, createdAt⟩, hx, rfl⟩ := of_listedBy hactive
  rcases lists_own digests (fun _ => plainConfig) (fun _ => created) .empty rfl f hrun 1 0 pages sandboxes
    hcall _ hx with
    ⟨j, hj, -⟩ | ⟨p, n, me, op, base, authorization, podSpec, queue, -, hid, hattach, hasked⟩
  · cases hj
  · exact ⟨p, n, me, op, base, authorization, podSpec, queue, hid, hattach, hasked⟩

/-! ## What ends a job -/

/-- A cancel that a process has asked for, which takes in job `j`. -/
structure Cancels (asked : Asking) (j : Job) (p : Nat) (c : Caller Call) (r : JobCancelRequest) : Prop where
  asked : ∃ base authorization, asked p c (.post base authorization (.cancel r))
  queue : r.queue = .own j.queue
  jobSet : r.jobSetId = j.jobSet
  one : ∀ jobId, r.jobId = some jobId → jobId = j.jobId

/-- A job of this id that is finished was so at the start, or was cancelled. -/
def EndedBy (e₀ : Server) (jobId : String) (asked : Asking) (e : Server) : Prop :=
  ∀ j ∈ e.jobs, j.jobId = jobId → j.state.finished →
    (∃ j₀ ∈ e₀.jobs, j₀.jobId = jobId ∧ j₀.state.finished) ∨ ∃ p c r, Cancels asked j p c r

/-- Nothing happens to the job by itself. -/
def LeftAlone (jobId : String) (_ : Fleet) : Nat × Step → Prop
  | (_, .drift (.state jobId' _)) => jobId' ≠ jobId
  | _ => True

instance (jobId : String) (f : Fleet) (x : Nat × Step) : Decidable (LeftAlone jobId f x) := by
  unfold LeftAlone
  split <;> infer_instance

section
variable {crypto : Crypto} {configs : Nat → ArmadaConfig} {made : Nat → Nat → Made} {e₀ : Server} {jobId : String}
  {asked : Asking}

theorem EndedBy.respond {e e' : Server} {p : Nat} {c : Caller Call} {q : Request} {ch : Choice} {a : Answer q}
    (h : EndedBy e₀ jobId asked e) (hq : asked p c q) (hresp : respond e c.1 q ch = some (a, e')) :
    EndedBy e₀ jobId asked e' := by
  rcases respond_cases hresp with rfl | ⟨base, authorization, body, pick, reply, e₁, rfl, hserve, rfl⟩
  · exact h
  intro j' hj' hid hfinished
  change j' ∈ e₁.jobs at hj'
  cases Server.did_of_serve hserve with
  | nothing => exact h j' hj' hid hfinished
  | submit =>
    rcases List.mem_append.mp hj' with hj | hj
    · exact h j' hj hid hfinished
    · obtain rfl := List.mem_singleton.mp hj
      cases hfinished
  | @cancel queue jobSet one =>
    obtain ⟨j, hj, rfl⟩ := List.mem_map.mp hj'
    by_cases hcancelled : j.queue = queue ∧ j.jobSet = jobSet ∧ one.all (· = j.jobId)
    · rw [if_pos hcancelled]
      obtain ⟨state, heq, -⟩ := j.later_become .cancelled
      rw [heq]
      refine .inr ⟨p, c, _, ⟨base, authorization, hq⟩, congrArg _ hcancelled.1.symm, hcancelled.2.1.symm, ?_⟩
      rintro jobId' rfl
      simpa using hcancelled.2.2
    · rw [if_neg hcancelled] at hid hfinished ⊢
      exact h j hj hid hfinished

theorem EndedBy.drift {config : ArmadaConfig} {e e' : Server} {d : Drift} (h : EndedBy e₀ jobId asked e)
    (hleft : ∀ state, d ≠ .state jobId state) (hd : drift config e d = some e') : EndedBy e₀ jobId asked e' := by
  intro j' hj' hid hfinished
  have hj : j' ∈ e.jobs := by
    cases d with
    | state jobId' state =>
      cases hd
      obtain ⟨j, hj, rfl⟩ := List.mem_map.mp hj'
      have hne : j.jobId ≠ jobId' := by
        rintro rfl
        rw [if_pos rfl] at hid
        obtain ⟨state', heq, -⟩ := j.later_become state
        rw [heq] at hid
        exact hleft state (by rw [← hid])
      rwa [if_neg hne]
    | stop url =>
      cases hd
      exact hj'
    | pod jobId' location addresses =>
      simp only [Adapter.drift] at hd
      split at hd
      · split at hd <;> cases hd
        exact hj'
      · cases hd
    | event jobId' message =>
      simp only [Adapter.drift] at hd
      split at hd
      · split at hd <;> cases hd
        exact hj'
      · cases hd
  exact h j' hj hid hfinished

/-- **No request ends a job but the cancel of a `destroy`.** A job that was not finished at the start, and to
which nothing happens by itself, is finished only where a process has asked, for a `destroy` of an instance of
its sandbox, to cancel it or its whole set, in its queue. -/
theorem ended_by_destroy (crypto : Crypto) (configs : Nat → ArmadaConfig) (made : Nat → Nat → Made) (e : Server)
    (f : Fleet) (jobId : String) (hlive : ∀ j ∈ e.jobs, j.jobId = jobId → j.state.finished = false)
    (h : Run (Fires (Fleet.step (processes crypto configs made))) (LeftAlone jobId) (.start .init e) f)
    (j : Job) (hj : j ∈ f.env.jobs) (hid : j.jobId = jobId) (hfinished : j.state.finished) :
    ∃ p n me r, (made p me).id = j.jobSet ∧ Cancels f.Asked j p (n, .sandbox me .destroy) r := by
  have hends : EndedBy e jobId f.Asked f.env := by
    refine Fleet.inv_asked (fun e' asked => EndedBy e jobId asked e') ?_ ?_ ?_ h (Fleet.recorded_start _ _) ?_
    · intro e' asked asked' hmore he j hj hid hfinished
      refine (he j hj hid hfinished).imp_right ?_
      rintro ⟨p, c, r, hcancels⟩
      obtain ⟨base, authorization, hasked⟩ := hcancels.asked
      exact ⟨p, c, r, ⟨base, authorization, hmore _ _ _ hasked⟩, hcancels.queue, hcancels.jobSet, hcancels.one⟩
    · exact fun _ _ _ _ _ _ _ _ h hq hresp => h.respond hq hresp
    · intro f e' asked p d he hleft hd
      refine he.drift (fun state => ?_) hd
      rintro rfl
      exact hleft rfl
    · exact fun j hj hid hfinished => .inl ⟨j, hj, hid, hfinished⟩
  rcases hends j hj hid hfinished with ⟨j₀, hj₀, hid₀, hfinished₀⟩ | ⟨p, ⟨n, call⟩, r, hcancels⟩
  · exact absurd hfinished₀ (by simp [hlive j₀ hj₀ hid₀])
  · obtain ⟨base, authorization, hasked⟩ := hcancels.asked
    obtain ⟨⟨me, hc, hset⟩, -⟩ := issued_of_run h hasked
    obtain rfl : call = _ := hc
    exact ⟨p, n, me, r, hset.symm.trans hcancels.jobSet, hcancels⟩

end

theorem ended_by_destroy_other : ∃ (f : Fleet) (j : Job), j ∈ f.env.jobs ∧ j.state.finished = true ∧
    ∃ p n me r, (created me).id = j.jobSet ∧ Cancels f.Asked j p (n, .sandbox me .destroy) r := by
  obtain ⟨f, hrun, hjobs⟩ := Run.exists_of_exec
    (Async.Fleet.step (processes digests (fun _ => plainConfig) fun _ => created)) (LeftAlone "j0")
    (fun f => ∃ j ∈ f.env.jobs, j.jobId = "j0" ∧ j.state.finished = true) (.start .init .empty)
    (zeroSubmits ++ (destroys 0 1).map fun a => (1, a)) (by decide +kernel)
  obtain ⟨j, hj, hid, hfinished⟩ := hjobs
  exact ⟨f, j, hj, hfinished, ended_by_destroy digests (fun _ => plainConfig) (fun _ => created) .empty f "j0"
    (fun _ h => absurd h List.not_mem_nil) hrun j hj hid hfinished⟩

/-! ## One queue for all of them -/

/-- The directory knows no other queue of the sandbox than that of its jobs, and what a process that maps
owners asks Lookout finds one of them. -/
structure Pinned (config : ArmadaConfig) (id : SandboxId) (queue : String) (v : View) : Prop where
  remembered : v.1 = none ∨ v.1 = some (.own queue)
  deduped : v.2.Deduped
  jobs : ∀ j ∈ v.2.jobs, j.jobSet = id → j.queue = queue ∧ j.clientId = id
  marked : config.mapped = true →
    ∃ j ∈ v.2.jobs, j.jobSet = id ∧ j.annotations.own sandboxMark = some config.queue

section
variable {config : ArmadaConfig} {id : SandboxId} {queue : String}

theorem lookout_of_mapped (hconfig : config.Accepted) (hmapped : config.mapped = true) :
    config.lookoutUrl ≠ none := by
  refine hconfig.lookout ?_
  by_contra hnone
  have hsame : ∀ q ∈ config.mappedTo, q = config.queue := by
    intro q hq
    by_contra hne
    exact hnone ⟨q, hq, hne⟩
  have hall : config.all = [config.queue] := by
    rw [ArmadaConfig.all, List.eraseDups_cons, List.filter_eq_nil_iff.mpr fun q hq => by simp [hsame q hq]]
    rfl
  simp [ArmadaConfig.mapped, hall] at hmapped

/-- Jobs that are later ones, or that a request submits in the queue. -/
theorem Pinned.later {v : View} {e : Server} (h : Pinned config id queue v) (hl : v.2.Later e)
    (hdeduped : e.Deduped) (hjobs : ∀ j ∈ e.jobs, j.jobSet = id → j.queue = queue ∧ j.clientId = id) :
    Pinned config id queue (v.1, e) := by
  refine ⟨h.remembered, hdeduped, hjobs, fun hmapped => ?_⟩
  obtain ⟨j, hj, hset, hmark⟩ := h.marked hmapped
  obtain ⟨j', hj', state, rfl, -⟩ := hl.jobs j hj
  exact ⟨_, hj', hset, hmark⟩

theorem Pinned.remember {v : View} (h : Pinned config id queue v) {known : Option Queue}
    (hknown : known = none ∨ known = some (.own queue)) : Pinned config id queue (known, v.2) :=
  ⟨hknown, h.deduped, h.jobs, h.marked⟩

end

section
variable (crypto : Crypto) (config : ArmadaConfig) (made : Nat → Made) (id : SandboxId) (queue : String)

def pinnedTo : Facts where
  crypto := crypto
  config := config
  made := made
  id := id
  own := Pinned config id queue
  rely _ _ := True
  queue q _ := q = .own queue
  job j _ := j.queue = .own queue
  url _ _ := True
  -- Only a process that maps no owner takes Lookout's word for it.
  vacant _ := config.mapped = false
  mayPlace _ _ := True
  destroys := True
  moves _ _ := True

variable {crypto config made id queue}

theorem pinnedTo_lawful (hconfig : config.Accepted) (hqueue : queue ≠ "")
    (hdefault : config.mapped = false → config.queue = queue) : (pinnedTo crypto config made id queue).Lawful where
  refl _ := trivial
  trans _ _ _ _ _ := trivial
  queue_later _ _ _ _ _ h := h
  job_later _ _ _ _ _ h := h
  url_later _ _ _ _ _ _ := trivial
  vacant_later _ _ _ _ h := h
  job_queue _ _ _ h := h
  known q e hown := by
    rcases hown.remembered with h | h
    · cases h
    · exact Option.some.inj h
  unmapped hunmapped _ _ := congrArg _ (hdefault hunmapped)
  unasked hmapped hnone _ _ := absurd hnone (lookout_of_mapped hconfig hmapped)
  found q v hown hq := ⟨hown.remember (.inr (congrArg _ hq)), trivial⟩
  placed hmapped _ _ _ hvacant _ := Bool.noConfusion (hvacant.symm.trans hmapped)
  forgotten _ v hown := ⟨hown.remember (.inl rfl), trivial⟩
  reply := by
    intro c body pick reply e v hown hissued hserve
    refine Facts.gotReply_of_queue hissued hserve (fun _ h => h) (fun _ h => h) (fun _ => trivial)
      (fun j hj hset => congrArg _ (hown.jobs j hj hset).1) fun hnone => ?_
    change config.mapped = false
    by_contra hmapped
    obtain ⟨j, hj, hset, hmark⟩ := hown.marked (by simpa using hmapped)
    rcases hnone with h | ⟨j, hj, hset, hempty⟩
    · exact h j hj hset hmark
    · exact hqueue ((hown.jobs j hj hset).1.symm.trans hempty)
  respond := by
    intro c q ch a v e hown hissued hresp _
    refine ⟨hown.later (respond_later hresp) (deduped_of_respond hresp hown.deduped) fun j' hj' hset => ?_, trivial⟩
    rcases jobs_of_respond hresp hj' with ⟨j, hj, state, rfl, -⟩ | ⟨base, authorization, body, rfl, hsubmits⟩
    · exact hown.jobs j hj hset
    · obtain ⟨hclient, -, -, hq⟩ := hissued.submits hsubmits
      exact ⟨Property.own.inj (hq hset), hclient.trans hset⟩
  drift := by
    intro d v e hown hdrift _
    refine ⟨hown.later (drift_later hdrift) (deduped_of_drift hdrift hown.deduped) fun j' hj' hset => ?_, trivial⟩
    obtain ⟨f, hjobs, hf⟩ := jobs_of_drift hdrift
    rw [hjobs] at hj'
    obtain ⟨j, hj, rfl⟩ := List.mem_map.mp hj'
    obtain ⟨state, heq, -⟩ := hf j
    rw [heq] at hset ⊢
    exact hown.jobs j hj hset

end

/-- **Where a sandbox's jobs are in one queue, every process keeps to it.** The processes run under any accepted
configurations: one that maps no owner away has this queue for its own, and for one that does Lookout holds a
job of the sandbox with its mark. Then no request of any of them that names the job set names another queue, and
no two jobs of the sandbox are ever unfinished. -/
theorem pinned_queue (crypto : Crypto) (configs : Nat → ArmadaConfig) (hconfig : ∀ p, (configs p).Accepted)
    (made : Nat → Nat → Made) (id : SandboxId) (queue : String) (hqueue : queue ≠ "") (e : Server)
    (hdefault : ∀ p, (configs p).mapped = false → (configs p).queue = queue)
    (hmarked : ∀ p, (configs p).mapped = true →
      ∃ j ∈ e.jobs, j.jobSet = id ∧ j.annotations.own sandboxMark = some (configs p).queue)
    (hjobs : ∀ j ∈ e.jobs, j.jobSet = id → j.queue = queue ∧ j.clientId = id) (hdeduped : e.Deduped) (f : Fleet)
    (h : Run (Fires (Fleet.step (processes crypto configs made))) Any (.start .init e) f) :
    (∀ p c q named, f.Asked p c q → addressedTo id q = some named → named = .own queue) ∧
      (f.env.unfinished id).length ≤ 1 := by
  have law : ∀ p, (pinnedTo crypto (configs p) (made p) id queue).Lawful :=
    fun p => pinnedTo_lawful (hconfig p) hqueue (hdefault p)
  have hsound : ∀ p, Sound (processes crypto configs made p) (pinnedTo crypto (configs p) (made p) id queue).spec :=
    fun p => (law p).sound
  have hholds := Fleet.holds hsound
    (fun p _ _ => ⟨fun _ _ _ _ => trivial, fun _ _ _ _ _ _ _ _ _ _ _ => trivial, fun _ _ => trivial⟩) ?_
    (Fleet.holds_start fun p => (Facts.holds_init (F := pinnedTo crypto (configs p) (made p) id queue)
      ⟨.inl rfl, hdeduped, hjobs, hmarked p⟩).inv) h
  · constructor
    · intro p c q named hasked hto
      exact queue_of_addressed (F := pinnedTo crypto (configs p) (made p) id queue) ((hholds p).log _ hasked) hto
    · refine (hholds 0).inv.own.deduped.single fun j hj j' hj' hset hset' => ?_
      obtain ⟨hq, hc⟩ := (hholds 0).inv.own.jobs j hj hset
      obtain ⟨hq', hc'⟩ := (hholds 0).inv.own.jobs j' hj' hset'
      exact ⟨hq.trans hq'.symm, hc.trans hc'.symm⟩
  · intro p q w w' a s _ hw' hstep hinv
    have hl := later_of_step hstep
    have hown := Pinned.later hinv.own hl hw'.inv.own.deduped hw'.inv.own.jobs
    exact ⟨hinv.later (law q) hl hown trivial, hl, trivial⟩

/-- Process 0 maps no owner, the others map `u`. -/
def mixedConfigs (p : Nat) : ArmadaConfig := if p = 0 then plainConfig else mappedConfig

/-- Sandbox `s` runs, in the queue of the unmapped. -/
def defaultS : Server := { Server.empty with jobs := [{ jobOfS with queue := "default", state := .running }] }

theorem pinned_queue_mixed : ∃ f : Fleet, addressedQueues "s" (f.process 0) = [.own "default"] ∧
    addressedQueues "s" (f.process 1) = [.own "default", .own "default"] ∧
    (∀ p c q named, f.Asked p c q → addressedTo "s" q = some named → named = .own "default") ∧
      (f.env.unfinished "s").length ≤ 1 := by
  have haccepted : ∀ p, (mixedConfigs p).Accepted := by
    intro p
    unfold mixedConfigs
    split
    · exact ⟨by decide, by decide, by decide, by decide, fun _ => by decide⟩
    · exact mappedConfig_accepted
  have hqueue : ∀ p, (mixedConfigs p).queue = "default" := by
    intro p
    unfold mixedConfigs
    split <;> rfl
  obtain ⟨f, hrun, hzero, hone⟩ := Run.exists_of_exec
    (Async.Fleet.step (processes digests mixedConfigs fun _ => attached)) Any
    (fun f => addressedQueues "s" (f.process 0) = [.own "default"] ∧
      addressedQueues "s" (f.process 1) = [.own "default", .own "default"])
    (.start .init defaultS) ((attaches 0 0 [("j0", 2)]).map (fun a => (1, a)) ++ (destroys 0 1).map fun a => (0, a))
    (by decide +kernel)
  exact ⟨f, hzero, hone, pinned_queue digests mixedConfigs haccepted (fun _ => attached) "s" "default" (by decide)
    defaultS (fun p _ => hqueue p) (fun p _ => ⟨_, List.mem_singleton_self _, rfl, by rw [hqueue p]; decide⟩)
    (fun j hj _ => by rw [List.mem_singleton.mp hj]; exact ⟨rfl, rfl⟩) (List.pairwise_singleton _ _) f hrun⟩

end ComputeArmada.Adapter
