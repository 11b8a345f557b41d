import ComputeArmada.Adapter.Track

/-!
# Every call keeps track

What each function of the adapter does, by the specification of `Facts`: one lemma for each.

* `does_resolve`, `does_submit`, `does_findJob`, `does_portUrl`, … : what is known of what it returns;
* `finishes_reach`, `finishes_ready` : a placement is stored by the turn that ends them;
* `Facts.Lawful.sound` : every call, and every run.
-/

namespace ComputeArmada.Adapter
open Async Runs

namespace Facts
variable {F : Facts} {c : Caller Call} {s : Shared} {e : Server}

/-! ## What is known of values -/

/-- What is known of a value whatever happens. -/
def Lasts (F : Facts) {α : Type} (Φ : α → Shared → Server → Prop) : Prop :=
  ∀ a s e s' e', e.Later e' → F.rely (F.view s e) (F.view s' e') → Φ a s e → Φ a s' e'

/-- Nothing is known of a value. -/
def Any {α : Type} : α → Shared → Server → Prop := fun _ _ _ => True

/-- A queue for sandbox `id`. -/
def QueueFits (F : Facts) (id : SandboxId) (queue : Queue) (s : Shared) (e : Server) : Prop :=
  id = F.id → F.queue queue (F.view s e)

/-- What a lookup of sandbox `id` found. -/
def FoundFits (F : Facts) (id : SandboxId) (found : Option String) (s : Shared) (e : Server) : Prop :=
  id = F.id → match found with
    | some queue => F.queue (.own queue) (F.view s e)
    | none => F.vacant (F.view s e)

/-- An address for sandbox `id`. -/
def UrlFits (F : Facts) (id : SandboxId) (url : String) (s : Shared) (e : Server) : Prop :=
  id = F.id → F.url url (F.view s e)

/-- A reply, and the request that it was given to. -/
def Replied (F : Facts) (c : Caller Call) (body : Body) (reply : Reply body) (s : Shared) (e : Server) : Prop :=
  (⟨c.1, body, .ok reply⟩ : Handled) ∈ e.handled ∧ F.GotReply (F.view s e) body reply

theorem lasts_any {α : Type} : F.Lasts (Any (α := α)) := fun _ _ _ _ _ _ _ h => h

theorem lasts_heard {α : Type} (n : Nat) : F.Lasts (fun (_ : α) _ e => Heard n e) :=
  fun _ _ _ _ _ hl _ h => h.later hl

variable (law : F.Lawful)
include law

theorem lasts_queue (id : SandboxId) : F.Lasts (F.QueueFits id) :=
  fun _ _ _ _ _ hl hr h hid => law.queue_later _ _ _ hl hr (h hid)

theorem lasts_found (id : SandboxId) : F.Lasts (F.FoundFits id) := by
  intro found s e s' e' hl hr h hid
  have hfound := h hid
  cases found with
  | none => exact law.vacant_later _ _ hl hr hfound
  | some queue => exact law.queue_later _ _ _ hl hr hfound

theorem lasts_url (id : SandboxId) : F.Lasts (F.UrlFits id) :=
  fun _ _ _ _ _ hl hr h hid => law.url_later _ _ _ hl hr (h hid)

theorem lasts_job (id : SandboxId) : F.Lasts (fun j s e => F.JobFits id j (F.view s e)) :=
  fun _ _ _ _ _ hl hr h => h.later law hl hr

theorem lasts_channel (id : SandboxId) : F.Lasts (fun ch s e => F.ChannelFits id ch (F.view s e)) :=
  fun _ _ _ _ _ hl hr h => h.later law hl hr

theorem lasts_replied (body : Body) : F.Lasts (F.Replied c body) :=
  fun _ _ _ _ _ hl hr h => ⟨hl.handled _ h.1, GotReply.later law hl hr h.2⟩

/-! ## Requests -/

section
variable {α β : Type}

theorem does_throw_bind {x : JsError} {f : α → M β} {Ψ : β → Shared → Server → Prop} :
    Does F.spec c (throw x >>= f) Ψ s e :=
  Does.bind (Φ := fun _ _ _ => False) law.spec (Does.throw law.spec) fun _ _ _ _ _ h => h.elim

theorem does_ask {q : Request} {f : Answer q → M α} {Ψ : α → Shared → Server → Prop}
    (hissued : F.Issued c (F.view s e) q)
    (hf : ∀ a s' e', e.Later e' → F.rely (F.view s e) (F.view s' e') → F.Inv s' e' →
      F.Got c (F.view s' e') q a → F.spec.guard c q a s' e' → Does F.spec c (f a) Ψ s' e') :
    Does F.spec c (ask q >>= f) Ψ s e :=
  ⟨(Does.ask law.spec hissued fun a s' e' hr hinv hgot hguard =>
    hf a s' e' hr.1 hr.2 hinv hgot hguard : Does F.spec c (.ask q f) Ψ s e).safe⟩

theorem does_await {p : M α} {Φ : α → Shared → Server → Prop} (hΦ : F.Lasts Φ) (hp : Does F.spec c p Φ s e) :
    Does F.spec c (await p) Φ s e := by
  refine Does.bind law.spec hp.attempt fun r s₁ e₁ _ _ hr => ?_
  refine does_ask law trivial fun _ s₂ e₂ hl hrely _ _ _ => ?_
  exact Does.ofExcept law.spec fun a ha => hΦ a _ _ _ _ hl hrely (hr a ha)

theorem does_await_json {p : M (Except JsError α)} {Φ : Except JsError α → Shared → Server → Prop}
    (hΦ : F.Lasts Φ) (hp : Does F.spec c p Φ s e) :
    Does F.spec c (await (do json (← p))) (fun a => Φ (.ok a)) s e := by
  refine does_await law (fun a s e s' e' hl hr h => hΦ _ _ _ _ _ hl hr h) ?_
  refine Does.bind law.spec hp fun reply s₁ e₁ _ _ hreply => ?_
  refine does_await law (fun a s e s' e' hl hr h => hΦ _ _ _ _ _ hl hr h) ?_
  exact Does.ofExcept law.spec fun a ha => ha ▸ hreply

end

theorem does_authorizationHeader (auth : ArmadaAuth) :
    Does F.spec c (authorizationHeader auth) Any s e := by
  cases auth with
  | anonymous => exact Does.pure law.spec trivial
  | basic username password => exact Does.pure law.spec trivial
  | bearer token => exact Does.pure law.spec trivial
  | bearerFile path =>
    refine does_ask law trivial fun a s' e' _ _ _ _ _ => ?_
    cases a with
    | error cause => exact Does.throw law.spec
    | ok text =>
      change Does F.spec c (if _ then _ else _) _ _ _
      split
      · exact does_throw_bind law
      · exact Does.pure law.spec trivial

theorem does_postTo (base : String) {body : Body} (h : F.IssuedBody c (F.view s e) body) :
    Does F.spec c (postTo F.config base body) (F.Replied c body) s e := by
  refine Does.bind law.spec
    (does_await law lasts_any (does_await law lasts_any (does_authorizationHeader law _)))
    fun authorization s₁ e₁ hr₁ _ _ => ?_
  refine does_ask law (IssuedBody.later law hr₁.1 hr₁.2 h) fun a s₂ e₂ _ _ _ hgot _ => ?_
  match a with
  | .error cause => exact Does.throw law.spec
  | .ok (.failed _ _ (.error cause)) => exact Does.throw law.spec
  | .ok (.failed _ _ (.ok text)) => exact Does.throw law.spec
  | .ok (.ok reply) => exact Does.pure law.spec ⟨hgot.1, hgot.2 reply rfl⟩

theorem does_post {body : Body} (h : F.IssuedBody c (F.view s e) body) :
    Does F.spec c (post F.config body) (F.Replied c body) s e :=
  does_await law (lasts_replied law body) (does_postTo law _ h)

/-! ## The queue -/

theorem does_lookoutJobs (lookout : String) {request : LookoutGetJobsRequest}
    (h : F.IssuedBody c (F.view s e) (.lookout request)) :
    Does F.spec c (lookoutJobs F.config lookout request) (fun jobs s e =>
      ∃ response, jobs = response.jobs.getD [] ∧ F.Replied c (.lookout request) (.ok response) s e) s e := by
  have hjson := does_await_json law (lasts_replied law _)
    (does_await law (lasts_replied law _) (does_postTo law lookout h))
  exact Does.bind law.spec hjson fun response s₁ e₁ _ _ hresp => Does.pure law.spec ⟨response, rfl, hresp⟩

theorem does_findQueue (id : SandboxId) (hmapped : F.config.mapped = true) :
    Does F.spec c (findQueue F.config id) (F.FoundFits id) s e := by
  unfold findQueue
  split
  · rename_i hlookout
    exact Does.assume fun hinv => Does.pure law.spec fun _ => law.unasked hmapped hlookout _ hinv.own
  · rename_i lookout _
    refine Does.bind law.spec (does_await law ?_ (does_lookoutJobs law lookout (.inl ⟨id, rfl⟩)))
      fun jobs s₁ e₁ _ _ hjobs => Does.pure law.spec fun hid => ?_
    · rintro jobs s e s' e' hl hr ⟨response, hjobs, hreply⟩
      exact ⟨response, hjobs, lasts_replied law _ _ _ _ _ _ hl hr hreply⟩
    · obtain ⟨response, rfl, hreply⟩ := hjobs
      subst hid
      exact hreply.2.1 rfl

omit law in
@[simp] theorem view_remember (queue : Queue) : F.view (s.remember F.id queue) e = (some queue, e) := by
  simp [view, Shared.remember]

omit law in
theorem view_remember_of_ne {id : SandboxId} (hid : id ≠ F.id) (queue : Queue) :
    F.view (s.remember id queue) e = F.view s e := by
  simp [view, Shared.remember, Function.update_of_ne (Ne.symm hid)]

/-- The directory's entry for a sandbox changes: for another one, or as is known to be right. -/
theorem does_remember (id : SandboxId) (queue : Queue) {Φ : Unit → Shared → Server → Prop}
    (h : id = F.id → F.own (some queue, e) ∧ F.rely (F.view s e) (some queue, e))
    (hΦ : Φ () (s.remember id queue) e) :
    Does F.spec c (modify (fun s => s.remember id queue)) Φ s e := by
  refine Does.assume fun hinv => ?_
  have hview : F.own (F.view (s.remember id queue) e) ∧
      F.rely (F.view s e) (F.view (s.remember id queue) e) := by
    by_cases hid : id = F.id
    · subst hid
      rw [view_remember]
      exact h rfl
    · rw [view_remember_of_ne hid]
      exact ⟨hinv.own, law.refl _⟩
  exact Does.modify law.spec
    (hinv.change law hview.1 hview.2 (fun _ _ => .inl) (fun _ _ => .inl) (fun _ _ => .inl))
    (.unfinished hview.2 fun _ h => h) hΦ

theorem does_remember_return (id : SandboxId) (queue : Queue)
    (h : id = F.id → F.own (some queue, e) ∧ F.rely (F.view s e) (some queue, e) ∧
      F.queue queue (some queue, e)) :
    Does F.spec c (do modify (fun s => s.remember id queue); return queue) (F.QueueFits id) s e := by
  refine Does.bind law.spec (Φ := fun _ => F.QueueFits id queue)
    (does_remember law id queue (fun hid => ⟨(h hid).1, (h hid).2.1⟩) fun hid => ?_)
    fun _ s₁ e₁ _ _ hqueue => Does.pure law.spec hqueue
  subst hid
  rw [view_remember]
  exact (h rfl).2.2

theorem does_resolve (n me : Nat) (op : Op) :
    Does F.spec (n, .sandbox me op) (resolve F.config (lookup F.config) (F.made me).id (F.made me).owner)
      (F.QueueFits (F.made me).id) s e := by
  refine Does.assume fun hinv => Does.get ?_
  split
  · rename_i known hknown
    refine Does.pure law.spec fun hid => ?_
    have hown := hinv.own
    rw [hid] at hknown
    rw [view, hknown] at hown ⊢
    exact law.known _ _ hown
  rename_i hunknown
  split
  · rename_i hunmapped
    refine Does.pure law.spec fun hid => ?_
    have hown := hinv.own
    rw [hid] at hunknown
    rw [view, hunknown] at hown ⊢
    exact law.unmapped hunmapped _ hown
  rename_i hunmapped
  have hmapped : F.config.mapped = true := by simpa using hunmapped
  have hasked : Does F.spec (n, .sandbox me op) (findQueue F.config (F.made me).id) _ s e :=
    does_findQueue law (F.made me).id hmapped
  simp only [lookup]
  refine Does.bind law.spec (does_await law (lasts_found law _) hasked).attempt fun r s₁ e₁ _ _ hr => ?_
  cases r with
  | error cause => exact does_ask law trivial fun _ _ _ _ _ _ _ _ => does_throw_bind law
  | ok found =>
    have hfound := hr found rfl
    cases found with
    | some queue =>
      refine does_ask law hfound fun _ s₂ e₂ hl₂ hr₂ hinv₂ _ _ => does_remember_return law _ _ fun hid => ?_
      have hqueue := law.queue_later _ _ _ hl₂ hr₂ (hfound hid)
      obtain ⟨hown, hrely⟩ := law.found _ _ hinv₂.own hqueue
      exact ⟨hown, hrely, law.queue_later _ (F.view s₂ e₂) _ (.refl _) hrely hqueue⟩
    | none =>
      refine does_ask law ⟨⟨me, op, rfl, rfl⟩, hfound⟩ fun _ s₂ e₂ hl₂ hr₂ hinv₂ _ hguard =>
        does_remember_return law _ _ fun hid => ?_
      exact law.placed hmapped (F.made me).owner _ hinv₂.own (law.vacant_later _ _ hl₂ hr₂ (hfound hid))
        (hguard me op rfl (by rw [hid]))

/-! ## The job -/

omit law in
theorem of_submitted {id : SandboxId} {queue : Queue} {response : JobSubmitResponse} {j : SubmittedJob}
    (h : submitted id queue response = .ok j) : j.jobSetId = id ∧ j.queue = queue ∧
      (response.jobResponseItems.bind (·.head?)).bind (·.jobId) = some j.jobId := by
  simp only [submitted] at h
  split at h
  · cases h
  · cases h
  · rename_i hjobId
    cases h
    exact ⟨rfl, rfl, (Option.filter_eq_some_iff.mp hjobId).1⟩

omit law in
theorem buildPodSpec_token {table : Js.UpperCase} {config : ArmadaConfig} {tokenSha256 : String}
    {options : Option CreateSandboxOptions} {podSpec : PodSpec}
    (h : buildPodSpec table config tokenSha256 options = .ok podSpec) : podSpec.tokenSha256 = tokenSha256 := by
  unfold buildPodSpec at h
  split at h
  · cases h
    rfl
  · split at h
    · cases h
      rfl
    · cases h

omit law in
/-- A method that reads a field of its instance. -/
theorem does_self {α : Type} {me : Nat} {f : Instance → M α} {Ψ : α → Shared → Server → Prop}
    (h : Does F.spec c (f (s.instances me)) Ψ s e) : Does F.spec c (self me >>= f) Ψ s e := ⟨h.safe⟩

theorem does_queueOf (n me : Nat) (op : Op) :
    Does F.spec (n, .sandbox me op) (queueOf F.config me (F.made me)) (F.QueueFits (F.made me).id) s e := by
  refine Does.assume fun hinv => does_self ?_
  split
  · rename_i job hjob
    exact Does.pure law.spec fun hid => law.job_queue _ _ hinv.own ((hinv.job me job hjob).job hid)
  · exact does_await law (lasts_queue law _) (does_resolve law n me op)

theorem does_submit (n me : Nat) (op : Op) {podSpec : PodSpec} {queue : Queue}
    (hattach : (F.made me).attachOnly = false)
    (htoken : podSpec.tokenSha256 = F.crypto.sha256 (F.token (F.made me).id))
    (hqueue : F.QueueFits (F.made me).id queue s e) :
    Does F.spec (n, .sandbox me op) (submit F.config (F.made me).id podSpec queue)
      (fun j s e => F.JobFits (F.made me).id j (F.view s e)) s e := by
  have hissued : F.IssuedBody (n, .sandbox me op) (F.view s e)
      (.submit (submitRequest F.config (F.made me).id podSpec queue)) :=
    ⟨⟨me, op, rfl, hattach, podSpec, htoken, rfl⟩, hqueue⟩
  refine Does.bind law.spec (does_await_json law (lasts_replied law _) (does_post law hissued))
    fun response s₁ e₁ _ _ hresp => Does.ofExcept law.spec fun j hj => ?_
  obtain ⟨hset, hqueue, hjobId⟩ := of_submitted hj
  obtain ⟨jobId, jobSetId, queue'⟩ := j
  subst hset hqueue
  exact ⟨rfl, fun hid => hid ▸ hresp.2 hid _ hjobId⟩

theorem does_submitJob (n me : Nat) (op : Op) (hattach : (F.made me).attachOnly = false) :
    Does F.spec (n, .sandbox me op) (submitJob F.crypto F.config me (F.made me))
      (fun j s e => F.JobFits (F.made me).id j (F.view s e)) s e := by
  have hbuild : Does F.spec (n, .sandbox me op) (.ofExcept (buildPodSpec F.crypto.upperCase F.config
      (F.crypto.sha256 (F.token (F.made me).id)) (F.made me).options))
      (fun podSpec _ _ => podSpec.tokenSha256 = F.crypto.sha256 (F.token (F.made me).id)) s e :=
    Does.ofExcept law.spec fun podSpec => buildPodSpec_token
  refine Does.bind law.spec hbuild fun podSpec s₁ e₁ _ _ htoken => ?_
  refine Does.bind law.spec (does_await law (lasts_queue law _) (does_queueOf law n me op))
    fun queue s₂ e₂ _ _ hqueue => ?_
  exact does_await law (lasts_job law _) (does_submit law n me op hattach htoken hqueue)

theorem does_findJob (n me : Nat) (op : Op) {queue : Queue} (hattach : (F.made me).attachOnly = true)
    (hqueue : F.QueueFits (F.made me).id queue s e) :
    Does F.spec (n, .sandbox me op) (findJob F.config (F.made me).id queue)
      (fun job s e => ∀ j, job = some j → F.JobFits (F.made me).id j (F.view s e)) s e := by
  have hissued : F.IssuedBody (n, .sandbox me op) (F.view s e)
      (.status { queue, jobset := (F.made me).id, externalJobUri := (F.made me).id }) :=
    ⟨⟨me, op, rfl, hattach, rfl, rfl⟩, hqueue⟩
  refine Does.bind law.spec (does_await_json law (lasts_replied law _) (does_post law hissued))
    fun response s₁ e₁ _ _ hresp => Does.pure law.spec fun j hj => ?_
  obtain ⟨jobId, hjobId, rfl⟩ := Option.map_eq_some_iff.mp hj
  refine ⟨rfl, fun hid => ?_⟩
  have := hresp.2 hid jobId hjobId
  simp only [hid]
  exact this

theorem does_existingJob (n me : Nat) (op : Op) (hattach : (F.made me).attachOnly = true) :
    Does F.spec (n, .sandbox me op) (existingJob F.config me (F.made me))
      (fun j s e => F.JobFits (F.made me).id j (F.view s e)) s e := by
  refine Does.bind law.spec (does_await law (lasts_queue law _) (does_queueOf law n me op))
    fun queue s₁ e₁ _ _ hqueue => ?_
  refine Does.bind law.spec (does_await law ?_ (does_findJob law n me op hattach hqueue))
    fun job s₂ e₂ _ _ hjob => ?_
  · intro job s e s' e' hl hr h j hj
    exact (h j hj).later law hl hr
  · cases job with
    | none => exact Does.throw law.spec
    | some j => exact Does.pure law.spec (hjob j rfl)

/-! ## The agent -/

omit law in
theorem of_watchLines {α : Type} {job : SubmittedJob} {suffix : String}
    {decides : EventMessage → Option (Except JsError α)} {a : α} {lines : List EventStreamLine}
    (h : watchLines job suffix decides lines = .found a) :
    ∃ m, .result (some m) ∈ lines ∧ decides m = some (.ok a) := by
  induction lines with
  | nil => cases h
  | cons line lines ih =>
    have later : watchLines job suffix decides lines = .found a →
        ∃ m, .result (some m) ∈ line :: lines ∧ decides m = some (.ok a) := fun h =>
      (ih h).imp fun m hm => ⟨List.mem_cons_of_mem _ hm.1, hm.2⟩
    cases line with
    | notAnObject text => cases h
    | error message => cases h
    | result message =>
      cases message with
      | none => exact later h
      | some m =>
        simp only [watchLines] at h
        split at h
        · rename_i hm
          cases h
          exact ⟨m, List.mem_cons_self .., hm⟩
        · cases h
        · split at h
          · split at h
            · cases h
            · split at h
              · cases h
              · exact later h
          · split at h
            · cases h
            · exact later h

theorem does_watchJob {α : Type} {job : SubmittedJob} {suffix missing : String}
    {decides : EventMessage → Option (Except JsError α)} (id : SandboxId)
    (hjob : F.JobFits id job (F.view s e)) (hqueue : F.QueueFits id job.queue s e) :
    Does F.spec c (watchJob F.config job suffix missing decides) (fun a s e => ∃ stream m,
      F.Replied c (.watch { queue := job.queue, id, watch := true, errorIfMissing := false })
        (some stream) s e ∧ .result (some m) ∈ stream.lines ∧ decides m = some (.ok a)) s e := by
  obtain ⟨hset, -⟩ := hjob
  subst hset
  refine Does.bind law.spec (does_await law (lasts_replied law _) (does_post law hqueue))
    fun reply s₁ e₁ _ _ hreply => ?_
  cases reply with
  | none => exact Does.throw law.spec
  | some stream =>
    simp only
    split
    · rename_i a ha
      obtain ⟨m, hm, hd⟩ := of_watchLines ha
      exact Does.pure law.spec ⟨stream, m, hreply, hm, hd⟩
    · exact Does.throw law.spec
    · split
      · exact Does.throw law.spec
      · exact Does.throw law.spec

theorem does_waitForRunning {job : SubmittedJob} (id : SandboxId)
    (hjob : F.JobFits id job (F.view s e)) (hqueue : F.QueueFits id job.queue s e) :
    Does F.spec c (waitForRunning F.config job) (fun _ _ e => Heard c.1 e) s e :=
  (does_watchJob law id hjob hqueue).mono fun _ _ _ _ _ ⟨_, _, hreplied, _⟩ => ⟨_, hreplied.1, rfl⟩

theorem does_ingressAddress {job : SubmittedJob} (id : SandboxId) (port : Nat)
    (hjob : F.JobFits id job (F.view s e)) (hqueue : F.QueueFits id job.queue s e) :
    Does F.spec c (ingressAddress F.config job port)
      (fun address s e => port = F.config.agentPort → F.UrlFits id (urlOf F.config address) s e) s e := by
  refine (does_watchJob law id hjob hqueue).mono fun address s₁ e₁ _ _ hwatched hport hid => ?_
  obtain ⟨stream, m, hreply, hm, hdecides⟩ := hwatched
  split at hdecides
  · rename_i info hinfo
    split at hdecides
    · simp only at hdecides
      split at hdecides
      · rename_i address' hown
        split at hdecides
        · rename_i hne
          cases hdecides
          subst hport
          cases haddr : info.ingressAddresses with
          | none =>
            rw [haddr] at hown
            cases hown
          | some addresses =>
            rw [haddr] at hown
            exact hreply.2 hid m info addresses address hm hinfo haddr hown hne
        · cases hdecides
      · cases hdecides
    · cases hdecides
  · cases hdecides

theorem does_portUrl {job : SubmittedJob} (id : SandboxId) (port : Nat)
    (hjob : F.JobFits id job (F.view s e)) (hqueue : F.QueueFits id job.queue s e) :
    Does F.spec c (portUrl F.config job port)
      (fun url s e => port = F.config.agentPort → F.UrlFits id url s e) s e := by
  refine Does.bind law.spec (does_await law ?_ (does_ingressAddress law id port hjob hqueue))
    fun address s₁ e₁ _ _ haddress => Does.pure law.spec haddress
  exact fun address s e s' e' hl hr h hport => lasts_url law id _ _ _ _ _ hl hr (h hport)

theorem does_agentUrl {job : SubmittedJob} (id : SandboxId) (hjob : F.JobFits id job (F.view s e))
    (hqueue : F.QueueFits id job.queue s e) :
    Does F.spec c (await (portUrl F.config job F.config.agentPort)) (F.UrlFits id) s e :=
  does_await law (lasts_url law id)
    ((does_portUrl law id F.config.agentPort hjob hqueue).mono fun _ _ _ _ _ h => h rfl)

theorem does_channelReady {n me : Nat} {op : Op} {channel : ControlChannel} (timeoutMs polls : Nat)
    (h : F.ChannelFits (F.made me).id channel (F.view s e)) :
    Does F.spec (n, .sandbox me op) (channelReady channel timeoutMs polls) Any s e := by
  have hprobe : ∀ {s : Shared} {e : Server} (again : JsError → M Unit),
      F.ChannelFits (F.made me).id channel (F.view s e) →
      (∀ cause s' e', F.ChannelFits (F.made me).id channel (F.view s' e') →
        Does F.spec (n, .sandbox me op) (again cause) Any s' e') →
      Does F.spec (n, .sandbox me op) (probeAgent channel timeoutMs again) Any s e := by
    intro s e again h hagain
    refine does_ask law ⟨me, op, rfl, h.url⟩ fun a s' e' hl hr _ _ _ => ?_
    cases a with
    | ok => exact Does.pure law.spec trivial
    | failed last late =>
      simp only
      split
      · exact does_throw_bind law
      · exact hagain _ _ _ (h.later law hl hr)
  induction polls generalizing s e with
  | zero => exact hprobe _ h fun _ _ _ _ => Does.throw law.spec
  | succ polls ih =>
    refine hprobe _ h fun _ s' e' h => ?_
    exact does_ask law trivial fun _ _ _ hl hr _ _ _ => ih (h.later law hl hr)

/-! ## What a method writes -/

/-- An instance changes: what it holds then it held before, or it fits. -/
theorem does_setSelf {me : Nat} {f : Instance → Instance} {Φ : Unit → Shared → Server → Prop}
    (hjob : ∀ j, (f (s.instances me)).job = some j →
      (s.instances me).job = some j ∨ F.JobFits (F.made me).id j (F.view s e))
    (hchannel : ∀ channel, (f (s.instances me)).channel = some channel →
      (s.instances me).channel = some channel ∨ F.ChannelFits (F.made me).id channel (F.view s e))
    (hΦ : Φ () (s.setInstance me f) e) : Does F.spec c (setSelf me f) Φ s e := by
  refine Does.assume fun hinv => Does.modify law.spec
    (hinv.change law hinv.own (law.refl _) (fun me' j hj => ?_) (fun me' channel hc => ?_) fun _ _ => .inl)
    (.unfinished (law.refl _) fun _ h => h) hΦ
  · by_cases hme : me' = me
    · subst hme
      simp only [Shared.setInstance, Function.update_self] at hj
      exact hjob j hj
    · simp only [Shared.setInstance, Function.update_of_ne hme] at hj
      exact .inl hj
  · by_cases hme : me' = me
    · subst hme
      simp only [Shared.setInstance, Function.update_self] at hc
      exact hchannel channel hc
    · simp only [Shared.setInstance, Function.update_of_ne hme] at hc
      exact .inl hc

theorem does_deletePlacement (id : SandboxId) {Φ : Unit → Shared → Server → Prop}
    (hΦ : (s.setPlacement id none).placements id = none → Φ () (s.setPlacement id none) e) :
    Does F.spec c (modify (fun s => s.setPlacement id none)) Φ s e := by
  refine Does.assume fun hinv => Does.modify law.spec
    (hinv.change law hinv.own (law.refl _) (fun _ _ => .inl) (fun _ _ => .inl) fun id' p hp => ?_)
    (.unfinished (law.refl _) fun _ hnone => ?_) (hΦ (Function.update_self ..))
  · by_cases hid : id' = id
    · subst hid
      simp only [Shared.setPlacement, Function.update_self] at hp
      cases hp
    · simp only [Shared.setPlacement, Function.update_of_ne hid] at hp
      exact .inl hp
  · by_cases hid : F.id = id
    · simp only [Shared.setPlacement, hid, Function.update_self]
    · simp only [Shared.setPlacement, Function.update_of_ne hid]
      exact hnone

theorem does_jobOf (me : Nat) {P : Shared → Server → Prop} (hP : P s e) :
    Does F.spec c (jobOf me) (fun j s e => (F.JobFits (F.made me).id j (F.view s e) ∧
      F.QueueFits (F.made me).id j.queue s e) ∧ P s e) s e := by
  refine Does.assume fun hinv => does_self ?_
  split
  · rename_i job hjob
    have hfits := hinv.job me job hjob
    exact Does.pure law.spec ⟨⟨hfits, fun hid => law.job_queue _ _ hinv.own (hfits.job hid)⟩, hP⟩
  · exact Does.throw law.spec

theorem does_takeJob (n me : Nat) (op : Op) :
    Does F.spec (n, .sandbox me op) (takeJob F.crypto F.config me (F.made me)) Any s e := by
  refine does_self ?_
  split
  · exact Does.pure law.spec trivial
  · have hjob : Does F.spec (n, .sandbox me op) (if (F.made me).attachOnly
        then existingJob F.config me (F.made me) else submitJob F.crypto F.config me (F.made me))
        (fun j s e => F.JobFits (F.made me).id j (F.view s e)) s e := by
      split
      · rename_i hattach
        exact does_existingJob law n me op hattach
      · rename_i hattach
        exact does_submitJob law n me op (by simpa using hattach)
    refine Does.bind law.spec (does_await law (lasts_job law _) hjob) fun job s₁ e₁ _ _ hfits => ?_
    exact does_setSelf law (fun j hj => .inr (by cases hj; exact hfits)) (fun _ => .inl) trivial

/-! ## Reaching the agent -/

omit law in
/-- How a turn ends does not matter, but where a `destroy` or a `ready` comes to its end. -/
theorem Turn.any {n me : Nat} {op : Op} (hop : op ≠ .destroy) {s s' : Shared}
    (h : F.Turn (n, .sandbox me op) none e s s') {o : Option (Except JsError Result)}
    (ho : op = .ready → ∀ r, o ≠ some (.ok r)) : F.Turn (n, .sandbox me op) o e s s' := by
  refine ⟨h.rely, fun hstores => h.quiet fun ⟨me', op', hc, hid, hd, hready⟩ => hstores ?_, fun hd => ?_, ?_⟩
  · exact ⟨me', op', hc, hid, hd, fun h => nomatch (hready h).1.choose_spec⟩
  · obtain ⟨me', hc, -⟩ := hd
    cases hc
    exact absurd rfl hop
  · rintro me' hc ⟨r, hr⟩
    cases hc
    exact absurd hr (ho rfl r)

/-- A program that may end by storing a placement, as `ready` does. -/
structure Finishes (F : Facts) (c : Caller Call) (p : M Unit) (s : Shared) (e : Server) : Prop where
  safe : ∀ s₀, F.Inv s e → F.Turn c none e s₀ s → Safe F.spec c p (fun r s₀' s' e' => F.Inv s' e' ∧
    F.spec.rely (s, e) (s', e') ∧ F.Turn c (some (r.map fun _ => .done)) e' s₀' s') s₀ s e

section
variable {n me : Nat} {op : Op}

omit law in
theorem finishes_of_does (hop : op ≠ .destroy) {p : M Unit}
    (hp : Does F.spec (n, .sandbox me op) p (fun _ s _ => (s.instances me).channel.isSome) s e) :
    F.Finishes (n, .sandbox me op) p s e := by
  refine ⟨fun s₀ hinv hturn => (hp.safe s₀ hinv hturn).mono fun r s₀' s' e' ⟨hi, ht, hr, hΦ⟩ => ⟨hi, hr, ?_⟩⟩
  cases r with
  | error x => exact ht.any hop fun _ _ h => nomatch h
  | ok _ =>
    refine ⟨ht.rely, fun hstores => ht.quiet fun ⟨me', op', hc, hid, hd, hready⟩ => hstores ?_, ?_, ?_⟩
    · exact ⟨me', op', hc, hid, hd, fun h => nomatch (hready h).1.choose_spec⟩
    · rintro ⟨me', hc, -⟩
      cases hc
      exact absurd rfl hop
    · rintro me' hc -
      cases hc
      exact hΦ () rfl

omit law in
/-- Any method but `ready` itself and `destroy` may call it. -/
theorem does_of_finishes (hready : op ≠ .ready) (hop : op ≠ .destroy) {p : M Unit}
    (hp : F.Finishes (n, .sandbox me op) p s e) : Does F.spec (n, .sandbox me op) p Any s e := by
  refine ⟨fun s₀ hinv hturn => (hp.safe s₀ hinv hturn).mono fun r _ _ _ ⟨hi, hr, ht⟩ =>
    ⟨hi, ?_, hr, fun _ _ => trivial⟩⟩
  refine .unfinished ht.rely fun hstores => ht.quiet fun ⟨me', op', hc, hid, hd, _⟩ => hstores ?_
  cases hc
  exact ⟨me, op, rfl, hid, hop, fun h => absurd h hready⟩

omit law in
theorem finishes_self {f : Instance → M Unit} (h : F.Finishes c (f (s.instances me)) s e) :
    F.Finishes c (self me >>= f) s e := ⟨h.safe⟩

theorem finishes_bind {α : Type} (hop : op ≠ .destroy) {p : M α} {f : α → M Unit}
    {Φ : α → Shared → Server → Prop} (hp : Does F.spec (n, .sandbox me op) p Φ s e)
    (hf : ∀ a s' e', e.Later e' → F.rely (F.view s e) (F.view s' e') → F.Inv s' e' → Φ a s' e' →
      F.Finishes (n, .sandbox me op) (f a) s' e') : F.Finishes (n, .sandbox me op) (p >>= f) s e := by
  refine ⟨fun s₀ hinv hturn => Safe.bind_iff.mpr ?_⟩
  refine (hp.safe s₀ hinv hturn).mono fun r s₀' s' e' ⟨hi, ht, hr, hΦ⟩ => ?_
  cases r with
  | error x => exact ⟨hi, hr, ht.any hop fun _ _ h => nomatch h⟩
  | ok a =>
    exact ((hf a s' e' hr.1 hr.2 hi (hΦ a rfl)).safe s₀' hi ht).mono fun _ _ _ _ ⟨hi', hr', ht'⟩ =>
      ⟨hi', law.spec.trans _ _ _ hr hr', ht'⟩

omit law in
theorem finishes_get {f : Shared → M Unit} (h : F.Inv s e → F.Finishes c (f s) s e) :
    F.Finishes c (get >>= f) s e := ⟨fun s₀ hinv => (h hinv).safe s₀ hinv⟩

theorem finishes_setPlacement (hop : op ≠ .destroy) {p : Placement}
    (hjob : F.JobFits (F.made me).id p.job (F.view s e))
    (hchannel : F.ChannelFits (F.made me).id p.channel (F.view s e))
    (hheard : Heard n e) (hreached : (s.instances me).channel.isSome) :
    F.Finishes (n, .sandbox me op) (modify (fun s => s.setPlacement (F.made me).id (some p))) s e := by
  refine ⟨fun s₀ hinv hturn => ⟨hinv.change law hinv.own (law.refl _) (fun _ _ => .inl) (fun _ _ => .inl)
    fun id p' hp' => ?_, law.spec.refl _, hturn.rely, fun hstores hnone => ?_, fun ⟨me', hc, _⟩ => ?_,
    fun me' hc _ => ?_⟩⟩
  · by_cases hid : id = (F.made me).id
    · subst hid
      simp only [Shared.setPlacement, Function.update_self, Option.some.injEq] at hp'
      subst hp'
      exact .inr ⟨hjob, hchannel⟩
    · simp only [Shared.setPlacement, Function.update_of_ne hid] at hp'
      exact .inl hp'
  · -- A call that stores here is one of another sandbox.
    have hid : F.id ≠ (F.made me).id := fun hid =>
      hstores ⟨me, op, rfl, hid.symm, hop, fun _ => ⟨⟨_, rfl⟩, hheard⟩⟩
    simp only [Shared.setPlacement, Function.update_of_ne hid]
    refine hturn.quiet (fun ⟨me', op', hc, hid', _⟩ => ?_) hnone
    cases hc
    exact hid hid'.symm
  · cases hc
    exact absurd rfl hop
  · cases hc
    exact hreached

theorem finishes_reach (hop : op ≠ .destroy) :
    F.Finishes (n, .sandbox me op) (reach F.crypto F.config me (F.made me)) s e := by
  unfold reach
  refine finishes_bind law hop (does_takeJob law n me op) fun _ s₁ e₁ _ _ _ _ => ?_
  refine finishes_bind law hop (does_jobOf law me (P := fun _ _ => True) trivial) fun job s₂ e₂ _ _ _ ⟨hjob, _⟩ => ?_
  refine finishes_bind law hop (does_await law (lasts_heard n) (does_waitForRunning law _ hjob.1 hjob.2))
    fun pod s₃ e₃ _ _ _ hheard => ?_
  refine finishes_bind law hop (Φ := fun _ _ e => Heard n e)
    (does_setSelf law (fun _ => .inl) (fun _ => .inl) hheard) fun _ s₄ e₄ _ _ _ hheard => ?_
  refine finishes_bind law hop (does_jobOf law me (P := fun _ e => Heard n e) hheard)
    fun job s₅ e₅ _ _ _ ⟨hjob, hheard⟩ => ?_
  refine finishes_bind law hop (does_agentUrl law _ hjob.1 hjob.2) fun url s₆ e₆ hl₆ _ _ hurl => ?_
  refine finishes_self ?_
  split
  · exact finishes_of_does hop (Does.throw law.spec)
  · rename_i pod _
    have hchannel : F.ChannelFits (F.made me).id { url, token := F.token (F.made me).id, pod } (F.view s₆ e₆) :=
      ⟨rfl, hurl⟩
    refine finishes_bind law hop (does_await law lasts_any (does_channelReady law _ _ hchannel))
      fun _ s₇ e₇ hl₇ hr₇ _ _ => ?_
    have hchannel₇ := hchannel.later law hl₇ hr₇
    refine finishes_bind law hop (Φ := fun _ s _ => (s.instances me).channel.isSome)
      (does_setSelf law (fun _ => .inl) ?_ ?_) fun _ s₈ e₈ hl₈ hr₈ _ hreached => ?_
    · intro channel hc
      cases hc
      exact .inr hchannel₇
    · simp [Shared.setInstance]
    refine finishes_bind law hop (does_jobOf law me (P := fun s _ => (s.instances me).channel.isSome) hreached)
      fun job s₉ e₉ hl₉ hr₉ _ ⟨hjob, hreached⟩ => ?_
    refine finishes_self ?_
    have hheard₉ : Heard n e₉ := (((hheard.later hl₆).later hl₇).later hl₈).later hl₉
    exact finishes_setPlacement law hop hjob.1 ((hchannel₇.later law hl₈ hr₈).later law hl₉ hr₉) hheard₉ hreached

theorem finishes_ready (hop : op ≠ .destroy) :
    F.Finishes (n, .sandbox me op) (ready F.crypto F.config me (F.made me)) s e := by
  unfold ready
  refine finishes_self ?_
  split
  · rename_i channel hchannel
    exact finishes_of_does hop (Does.pure law.spec (by simp [hchannel]))
  refine finishes_get fun hinv => ?_
  split
  · exact finishes_reach law hop
  rename_i known hknown
  obtain ⟨hjob, hchannel⟩ := hinv.placement _ known hknown
  refine finishes_bind law hop
    (does_await law lasts_any (does_channelReady law 0 0 hchannel)).attempt fun r s₁ e₁ hl₁ hr₁ _ _ => ?_
  cases r with
  | ok _ =>
    refine finishes_of_does hop (does_setSelf law ?_ ?_ (by simp [Shared.setInstance]))
    · intro j hj
      cases hj
      exact .inr (hjob.later law hl₁ hr₁)
    · intro channel hc
      cases hc
      exact .inr (hchannel.later law hl₁ hr₁)
  | error _ =>
    exact finishes_bind law hop (Φ := Any) (does_deletePlacement law _ fun _ => trivial)
      fun _ _ _ _ _ _ _ => finishes_reach law hop

/-! ## The methods -/

theorem does_openAgent (hready : op ≠ .ready) (hop : op ≠ .destroy) :
    Does F.spec (n, .sandbox me op) (openAgent F.crypto F.config me (F.made me))
      (fun channel s e => F.ChannelFits (F.made me).id channel (F.view s e)) s e := by
  refine Does.assume fun hinv => does_self ?_
  split
  · rename_i channel hchannel
    exact Does.pure law.spec (hinv.channel me channel hchannel)
  · refine Does.bind law.spec (does_await law lasts_any
      (does_of_finishes hready hop (finishes_ready law hop))) fun _ s₁ e₁ _ hinv₁ _ => does_self ?_
    split
    · rename_i channel hchannel
      exact Does.pure law.spec (hinv₁.channel me channel hchannel)
    · exact Does.throw law.spec

theorem does_agent {α : Type} {channel : ControlChannel} {request : AgentRequest}
    {f : AgentReply request → M α} {Ψ : α → Shared → Server → Prop}
    (hchannel : F.ChannelFits (F.made me).id channel (F.view s e))
    (hf : ∀ a s' e', e.Later e' → F.rely (F.view s e) (F.view s' e') →
      Does F.spec (n, .sandbox me op) (f a) Ψ s' e') :
    Does F.spec (n, .sandbox me op) (ask (.agent channel request) >>= f) Ψ s e :=
  does_ask law ⟨me, op, rfl, hchannel⟩ fun a s' e' hl hr _ _ _ => hf a s' e' hl hr

theorem does_agentReply {channel : ControlChannel} {request : AgentRequest}
    (hchannel : F.ChannelFits (F.made me).id channel (F.view s e)) :
    Does F.spec (n, .sandbox me op) (ask (.agent channel request)) Any s e :=
  ⟨(Does.ask law.spec (q := .agent channel request) ⟨me, op, rfl, hchannel⟩
    fun _ _ _ _ _ _ _ => Does.pure law.spec trivial).safe⟩

theorem does_writeBatches (channel : ControlChannel) (batches : Nat) (files : List SandboxFileWrite)
    (hchannel : F.ChannelFits (F.made me).id channel (F.view s e)) :
    Does F.spec (n, .sandbox me op) (writeBatches channel batches files) Any s e := by
  induction batches generalizing files s e with
  | zero => exact Does.pure law.spec trivial
  | succ batches ih =>
    unfold writeBatches
    split
    · exact Does.pure law.spec trivial
    · refine does_agent law hchannel fun a s' e' hl hr => ?_
      cases a with
      | error x => exact Does.throw law.spec
      | ok _ => exact ih _ (hchannel.later law hl hr)

theorem does_readFailed (path code why : String) :
    Does F.spec c (readFailed F.crypto F.config (F.made me) path code why) Any s e := by
  refine Does.assume fun hinv => Does.bind law.spec (Φ := Any) (Does.modify law.spec ?_ ?_ trivial)
    fun _ _ _ _ _ _ => Does.pure law.spec trivial
  · exact hinv.change law hinv.own (law.refl _) (fun _ _ => .inl) (fun _ _ => .inl) fun _ _ => .inl
  · exact .unfinished (law.refl _) fun _ h => h

section
variable (hready : op ≠ .ready) (hop : op ≠ .destroy)
include hready hop

theorem does_exec (cmd : String) (timeout : Option Nat) :
    Does F.spec (n, .sandbox me op) (exec F.crypto F.config me (F.made me) cmd timeout) Any s e := by
  refine does_self ?_
  refine Does.bind law.spec (Does.ofExcept law.spec (Φ := Any) fun _ _ => trivial) fun command s₁ e₁ _ _ _ => ?_
  refine Does.tryCatch law.spec ?_ fun cause _ _ _ _ => ?_
  · refine Does.bind law.spec (does_await law (lasts_channel law _) (does_openAgent law hready hop))
      fun channel _ _ _ _ hchannel => does_agent law hchannel fun a _ _ _ _ => ?_
    exact Does.bind law.spec (Does.ofExcept law.spec (Φ := Any) fun _ _ => trivial)
      fun _ _ _ _ _ _ => Does.pure law.spec trivial
  · dsimp only
    exact Does.pure law.spec trivial

theorem does_execStream (cmd : String) (timeout : Option Nat) :
    Does F.spec (n, .sandbox me op) (execStream F.crypto F.config me (F.made me) cmd timeout) Any s e := by
  refine Does.bind law.spec (does_await law (lasts_channel law _) (does_openAgent law hready hop))
    fun channel s₁ e₁ _ _ hchannel => does_self ?_
  refine Does.bind law.spec (Does.ofExcept law.spec (Φ := Any) fun _ _ => trivial) fun command s₂ e₂ hr₂ _ _ => ?_
  exact does_agent law (hchannel.later law hr₂.1 hr₂.2) fun a s' e' _ _ =>
    Does.ofExcept law.spec fun _ _ => trivial

theorem does_readThrough (path : String) {read : ControlChannel → M (Except JsError ReadFileOutcome)}
    (hread : ∀ channel s e, F.ChannelFits (F.made me).id channel (F.view s e) →
      Does F.spec (n, .sandbox me op) (read channel) Any s e)
    (encode : List UInt8 → Except JsError (String × Encoding)) :
    Does F.spec (n, .sandbox me op) (readThrough F.crypto F.config me (F.made me) path read encode)
      Any s e := by
  have hopen : Does F.spec (n, .sandbox me op) (do
      let channel ← await (openAgent F.crypto F.config me (F.made me))
      Prog.ofExcept (← read channel)) Any s e := by
    refine Does.bind law.spec (does_await law (lasts_channel law _) (does_openAgent law hready hop))
      fun channel s₁ e₁ _ _ hchannel => ?_
    exact Does.bind law.spec (hread channel s₁ e₁ hchannel) fun _ _ _ _ _ _ =>
      Does.ofExcept law.spec fun _ _ => trivial
  refine Does.bind law.spec hopen.attempt fun outcome s₁ e₁ _ _ _ => ?_
  split
  · exact does_readFailed law _ _ _
  · exact Does.pure law.spec trivial
  · exact does_readFailed law _ _ _
  · exact Does.bind law.spec (Does.ofExcept law.spec (Φ := Any) fun _ _ => trivial) fun _ _ _ _ _ _ =>
      Does.pure law.spec trivial

theorem does_readFile (path : String) :
    Does F.spec (n, .sandbox me op) (readFile F.crypto F.config me (F.made me) path) Any s e :=
  does_readThrough law hready hop path
    (fun _ _ _ hchannel => does_agentReply law hchannel) _

theorem does_readFileBounded (path : String) (maxBytes timeoutMs : Number) :
    Does F.spec (n, .sandbox me op)
      (readFileBounded F.crypto F.config me (F.made me) path maxBytes timeoutMs) Any s e := by
  unfold readFileBounded
  split
  · exact does_readFailed law _ _ _
  · exact does_readThrough law hready hop path
      (fun _ _ _ hchannel => does_agentReply law hchannel) _

theorem does_listFiles (path : String) (options : ListFilesOptions) :
    Does F.spec (n, .sandbox me op) (listFiles F.crypto F.config me (F.made me) path options) Any s e := by
  have hopen : Does F.spec (n, .sandbox me op) (do
      let channel ← await (openAgent F.crypto F.config me (F.made me))
      Prog.ofExcept (← ask (.agent channel (.listFiles path options.recursive)))) Any s e := by
    exact Does.bind law.spec (does_await law (lasts_channel law _) (does_openAgent law hready hop))
      fun channel _ _ _ _ hchannel => does_agent law hchannel fun a _ _ _ _ =>
        Does.ofExcept law.spec fun _ _ => trivial
  refine Does.bind law.spec hopen.attempt fun listed s₁ e₁ _ _ _ => ?_
  split <;> exact Does.pure law.spec trivial

theorem does_writeFiles (files : List SandboxFileWrite) :
    Does F.spec (n, .sandbox me op) (writeFiles F.crypto F.config me (F.made me) files) Any s e := by
  unfold writeFiles
  split
  · exact Does.pure law.spec trivial
  · exact Does.bind law.spec (does_await law (lasts_channel law _) (does_openAgent law hready hop))
      fun channel _ _ _ _ hchannel => does_writeBatches law channel _ _ hchannel

theorem does_gitCheckout (repo : String) (options : Option GitCheckoutOptions) :
    Does F.spec (n, .sandbox me op) (gitCheckout F.crypto F.config me (F.made me) repo options) Any s e := by
  refine Does.bind law.spec (does_await law lasts_any (does_exec law hready hop _ none))
    fun result s₁ e₁ _ _ _ => ?_
  split
  · exact Does.throw law.spec
  · exact Does.pure law.spec trivial

theorem does_startProcess (cmd : String) (options : StartProcessOptions) :
    Does F.spec (n, .sandbox me op) (startProcess F.crypto F.config me (F.made me) cmd options) Any s e := by
  refine Does.bind law.spec (does_await law (lasts_channel law _) (does_openAgent law hready hop))
    fun channel s₁ e₁ _ _ hchannel => does_self ?_
  refine Does.bind law.spec (Does.ofExcept law.spec (Φ := Any) fun _ _ => trivial) fun inner s₂ e₂ hr₂ _ _ => ?_
  refine Does.bind law.spec (Does.ofExcept law.spec (Φ := Any) fun _ _ => trivial)
    fun command s₃ e₃ hr₃ _ _ => ?_
  refine does_agent law ((hchannel.later law hr₂.1 hr₂.2).later law hr₃.1 hr₃.2) fun a s' e' _ _ => ?_
  cases a with
  | error cause => exact Does.throw law.spec
  | ok pid => exact does_self (Does.pure law.spec trivial)

theorem does_exposePort (port : Nat) :
    Does F.spec (n, .sandbox me op) (exposePort F.crypto F.config me (F.made me) port) Any s e := by
  refine Does.bind law.spec (does_await law lasts_any
    (does_of_finishes hready hop (finishes_ready law hop))) fun _ s₁ e₁ _ hinv₁ _ => does_self ?_
  split
  · exact Does.throw law.spec
  · rename_i job hjob
    have hfits := hinv₁.job me job hjob
    exact does_await law lasts_any ((does_portUrl law _ port hfits fun hid =>
      law.job_queue _ _ hinv₁.own (hfits.job hid)).mono fun _ _ _ _ _ _ => trivial)

end

theorem does_isPortReady (port : Nat) (mode : Option ProbeMode) (path : Option String) :
    Does F.spec (n, .sandbox me op) (isPortReady me (F.made me) port mode path) Any s e := by
  refine Does.assume fun hinv => Does.get ?_
  split
  · exact Does.pure law.spec trivial
  · rename_i channel hchannel
    have hfits : F.ChannelFits (F.made me).id channel (F.view s e) := by
      rcases Option.or_eq_some_iff.mp hchannel with h | ⟨-, h⟩
      · exact hinv.channel me channel h
      · obtain ⟨p, hp, rfl⟩ := Option.map_eq_some_iff.mp h
        exact (hinv.placement _ p hp).2
    refine does_agent law hfits fun a s' e' _ _ => ?_
    cases a with
    | ok wait => exact Does.pure law.spec trivial
    | error cause => exact Does.pure law.spec trivial

theorem does_setEnvVars (vars : Record) (onlyIfUnset : Bool) :
    Does F.spec c (setEnvVars me vars onlyIfUnset) Any s e := by
  refine Does.bind law.spec (Does.ofExcept law.spec (Φ := Any) fun _ _ => trivial) fun _ s₁ e₁ _ _ _ => ?_
  refine does_setSelf law (fun j hj => .inl ?_) (fun channel hc => .inl ?_) trivial
  · split at hj <;> exact hj
  · split at hc <;> exact hc

/-- A cancel of the job set that the server handled for call `n`. -/
def Cancelled (n : Nat) (id : SandboxId) (e : Server) : Prop :=
  ∃ h ∈ e.handled, h.call = n ∧ ∃ queue jobId, h.body = .cancel { queue, jobSetId := id, jobId } ∧
    ∃ x, h.reply = .ok x

theorem does_cancel {r : JobCancelRequest} (hset : r.jobSetId = (F.made me).id)
    (hqueue : F.QueueFits (F.made me).id r.queue s e)
    (hjob : ∀ jobId, r.jobId = some jobId → (F.made me).id = F.id →
      F.job { jobId, jobSetId := F.id, queue := r.queue } (F.view s e)) :
    Does F.spec (n, .sandbox me .destroy) (await (post F.config (.cancel r)))
      (fun _ _ e => Cancelled n (F.made me).id e) s e := by
  have hissued : F.IssuedBody (n, .sandbox me .destroy) (F.view s e) (.cancel r) :=
    ⟨⟨me, rfl, hset⟩, fun hid => ⟨hqueue (hset ▸ hid), fun jobId hjobId => hjob jobId hjobId (hset ▸ hid)⟩⟩
  refine (does_await law (lasts_replied law _) (does_post law hissued)).mono fun _ s' e' _ _ hreplied => ?_
  obtain ⟨queue, jobSetId, jobId⟩ := r
  subst hset
  exact ⟨_, hreplied.1, rfl, queue, jobId, rfl, _, rfl⟩

theorem does_forget (hd : (F.made me).id = F.id → F.destroys) {Φ : Unit → Shared → Server → Prop}
    (hΦ : Φ () ((s.forget (F.made me).id).setPlacement (F.made me).id none) e) :
    Does F.spec c (modify (fun s => (s.forget (F.made me).id).setPlacement (F.made me).id none)) Φ s e := by
  refine Does.assume fun hinv => ?_
  have hview : F.own (F.view ((s.forget (F.made me).id).setPlacement (F.made me).id none) e) ∧
      F.rely (F.view s e) (F.view ((s.forget (F.made me).id).setPlacement (F.made me).id none) e) := by
    by_cases hid : (F.made me).id = F.id
    · have hforgotten := law.forgotten (hd hid) _ hinv.own
      simpa [view, Shared.forget, Shared.setPlacement, hid] using hforgotten
    · have hown := hinv.own
      simpa [view, Shared.forget, Shared.setPlacement, Function.update_of_ne (Ne.symm hid)] using
        And.intro hown (law.refl _)
  refine Does.modify law.spec (hinv.change law hview.1 hview.2 (fun _ _ => .inl) (fun _ _ => .inl)
    fun id p hp => ?_) (.unfinished hview.2 fun _ hnone => ?_) hΦ
  · by_cases hid : id = (F.made me).id
    · subst hid
      simp only [Shared.setPlacement, Function.update_self] at hp
      cases hp
    · simp only [Shared.setPlacement, Function.update_of_ne hid] at hp
      exact .inl hp
  · by_cases hid : F.id = (F.made me).id
    · simp only [Shared.setPlacement, hid, Function.update_self]
    · simp only [Shared.setPlacement, Function.update_of_ne hid]
      exact hnone

theorem does_destroy (hd : (F.made me).id = F.id → F.destroys) :
    Does F.spec (n, .sandbox me .destroy) (destroy F.config me (F.made me)) (fun _ s e =>
      s.placements (F.made me).id = none ∧ Cancelled n (F.made me).id e) s e := by
  -- What follows the cancel.
  have hrest : ∀ s e, Cancelled n (F.made me).id e → Does F.spec (n, .sandbox me .destroy) (do
      modify (fun s => (s.forget (F.made me).id).setPlacement (F.made me).id none)
      setSelf me (fun i => { i with pod := none, channel := none })) (fun _ s e =>
        s.placements (F.made me).id = none ∧ Cancelled n (F.made me).id e) s e := by
    intro s e hcancelled
    refine Does.bind law.spec (Φ := fun _ s e => s.placements (F.made me).id = none ∧
      Cancelled n (F.made me).id e) (does_forget law hd ⟨Function.update_self .., hcancelled⟩)
      fun _ s₁ e₁ _ _ h₁ => ?_
    exact does_setSelf law (fun _ => .inl) (fun _ hc => nomatch hc) h₁
  refine Does.assume fun hinv => does_self ?_
  split
  · refine Does.bind law.spec (does_await law (lasts_queue law _) (does_queueOf law n me _))
      fun queue s₁ e₁ _ _ hqueue => ?_
    refine Does.bind law.spec (does_await law ?_ (does_cancel law rfl hqueue fun _ h => nomatch h))
      fun _ s₂ e₂ _ _ h => hrest s₂ e₂ h
    exact fun _ _ _ _ _ hl _ h => h.imp fun x hx => ⟨hl.handled _ hx.1, hx.2⟩
  · rename_i job hjob
    have hfits := hinv.job me job hjob
    have hnamed : ∀ jobId, some job.jobId = some jobId → (F.made me).id = F.id →
        F.job { jobId, jobSetId := F.id, queue := job.queue } (F.view s e) := by
      rintro _ ⟨⟩ hid
      rw [← hid, ← hfits.jobSet]
      exact hfits.job hid
    refine Does.bind law.spec (does_await law ?_ (does_cancel law hfits.jobSet (fun hid =>
      law.job_queue _ _ hinv.own (hfits.job hid)) hnamed)) fun _ s₂ e₂ _ _ h => hrest s₂ e₂ h
    exact fun _ _ _ _ _ hl _ h => h.imp fun x hx => ⟨hl.handled _ hx.1, hx.2⟩

end

/-! ## What is active -/

/-- A sandbox that `listActive` found. -/
def ActiveFits (F : Facts) (sandboxes : List ActiveJob) (s : Shared) (e : Server) : Prop :=
  ∀ job ∈ sandboxes, F.QueueFits job.id (.own job.queue) s e

theorem lasts_active : F.Lasts F.ActiveFits :=
  fun _ _ _ _ _ hl hr h job hjob => lasts_queue law _ _ _ _ _ _ hl hr (h job hjob)

omit law in
theorem activeFits_addPage {sandboxes : List ActiveJob} {jobs : List LookoutJob}
    (h : F.ActiveFits sandboxes s e)
    (hjobs : ∀ job ∈ jobs, nonempty job.jobSet = some F.id → ∀ queue, nonempty job.queue = some queue →
      F.queue (.own queue) (F.view s e)) : F.ActiveFits (addPage sandboxes jobs) s e := by
  unfold addPage
  induction jobs generalizing sandboxes with
  | nil => exact h
  | cons job jobs ih =>
    refine ih ?_ fun j hj => hjobs j (List.mem_cons_of_mem _ hj)
    dsimp only
    split
    · rename_i id queue hset hqueue
      intro j hj
      have hj' : j ∈ sandboxes ∨ j = { id, queue, createdAt := job.submitted } := by
        unfold setActive at hj
        split at hj
        · obtain ⟨k, hk, rfl⟩ := List.mem_map.mp hj
          split
          · exact .inr rfl
          · exact .inl hk
        · simpa using hj
      rcases hj' with hj | rfl
      · exact h j hj
      · exact fun hid => hjobs job (List.mem_cons_self ..) (hid ▸ hset) queue hqueue
    · exact h

theorem does_listActiveFrom (lookout : String) (pages skip : Nat) {sandboxes : List ActiveJob}
    (h : F.ActiveFits sandboxes s e) :
    Does F.spec c (listActiveFrom F.config lookout pages skip sandboxes) F.ActiveFits s e := by
  induction pages generalizing skip sandboxes s e with
  | zero => exact Does.throw law.spec
  | succ pages ih =>
    have hpage := (does_lookoutJobs law (c := c) (s := s) (e := e) lookout (.inr ⟨skip, rfl⟩)).mono
      fun jobs s' e' _ _ hjobs => show ∀ job ∈ jobs, nonempty job.jobSet = some F.id → ∀ queue,
        nonempty job.queue = some queue → F.queue (.own queue) (F.view s' e') by
        obtain ⟨response, rfl, hreply⟩ := hjobs
        exact hreply.2.2 skip rfl
    refine Does.bind law.spec (does_await law ?_ hpage) fun jobs s₁ e₁ hr₁ _ hjobs => ?_
    · exact fun _ _ _ _ _ hl hr h job hjob hset queue hqueue =>
        law.queue_later _ _ _ hl hr (h job hjob hset queue hqueue)
    have hadd := activeFits_addPage (lasts_active law _ _ _ _ _ hr₁.1 hr₁.2 h) hjobs
    dsimp only
    split
    · exact Does.pure law.spec hadd
    · exact ih _ hadd

theorem rememberActive_fits {jobs : List ActiveJob} (hinv : F.Inv s e) (h : F.ActiveFits jobs s e) :
    F.Inv (rememberActive jobs s) e ∧ F.rely (F.view s e) (F.view (rememberActive jobs s) e) ∧
      (rememberActive jobs s).placements = s.placements := by
  induction jobs generalizing s with
  | nil => exact ⟨hinv, law.refl _, rfl⟩
  | cons job jobs ih =>
    have hview : F.own (F.view (s.remember job.id (.own job.queue)) e) ∧
        F.rely (F.view s e) (F.view (s.remember job.id (.own job.queue)) e) := by
      by_cases hid : job.id = F.id
      · rw [hid, view_remember]
        exact law.found _ _ hinv.own (h job (List.mem_cons_self ..) hid)
      · rw [view_remember_of_ne hid]
        exact ⟨hinv.own, law.refl _⟩
    have hinv' := hinv.change law hview.1 hview.2 (fun _ _ => .inl) (fun _ _ => .inl) fun _ _ => .inl
    obtain ⟨hi, hr, hp⟩ := ih hinv' fun j hj => lasts_queue law _ _ _ _ _ _ (.refl _) hview.2
      (h j (List.mem_cons_of_mem _ hj))
    exact ⟨hi, law.trans _ _ _ hview.2 hr, hp⟩

theorem does_listActive (pages : Nat) :
    Does F.spec c (body F.crypto F.config F.made (.listActive pages)) Any s e := by
  have hlist : Does F.spec c (listActive F.config pages) F.ActiveFits s e := by
    unfold listActive
    split
    · exact Does.throw law.spec
    · exact does_listActiveFrom law _ _ _ fun _ h => nomatch h
  refine Does.bind law.spec (does_await law (lasts_active law) hlist) fun jobs s₁ e₁ _ hinv hjobs => ?_
  obtain ⟨hi, hr, hp⟩ := rememberActive_fits law hinv hjobs
  exact Does.bind law.spec (Φ := Any) (Does.modify law.spec hi
    (.unfinished hr fun _ hnone => by rw [hp]; exact hnone) trivial)
    fun _ _ _ _ _ _ => Does.pure law.spec trivial

/-! ## Every call -/

theorem ended_of_does {n me : Nat} {op : Op} (hready : op ≠ .ready) (hop : op ≠ .destroy)
    {p : M Result} (hinv : F.Inv s e) (hp : Does F.spec (n, .sandbox me op) p Any s e) :
    Safe F.spec (n, .sandbox me op) p (Ended F.spec (n, .sandbox me op)) s s e := by
  refine (hp.safe s hinv (law.spec.turn_refl _ _ _)).mono fun r _ _ _ ⟨hi, ht, _, _⟩ =>
    ⟨hi, ht.any hop fun h => absurd h hready, ?_⟩
  rintro ⟨me', hc, -⟩
  cases hc
  exact absurd rfl hop

theorem does_opBody {n me : Nat} {op : Op} (hready : op ≠ .ready) (hop : op ≠ .destroy) :
    Does F.spec (n, .sandbox me op) (opBody F.crypto F.config me (F.made me) op) Any s e := by
  have done : ∀ {α : Type} {p : M α} {f : α → Result}, Does F.spec (n, .sandbox me op) p Any s e →
      Does F.spec (n, .sandbox me op) (do return f (← p)) Any s e := fun hp =>
    Does.bind law.spec hp fun _ _ _ _ _ _ => Does.pure law.spec trivial
  cases op with
  | ready => exact absurd rfl hready
  | destroy => exact absurd rfl hop
  | exec cmd timeout => exact done (does_exec law hready hop cmd timeout)
  | execStream cmd timeout => exact done (does_execStream law hready hop cmd timeout)
  | readFile path => exact done (does_readFile law hready hop path)
  | readFileBounded path maxBytes timeoutMs =>
    exact done (does_readFileBounded law hready hop path maxBytes timeoutMs)
  | listFiles path options => exact done (does_listFiles law hready hop path options)
  | writeFiles files => exact done (does_writeFiles law hready hop files)
  | gitCheckout repo options => exact done (does_gitCheckout law hready hop repo options)
  | setEnvVars vars onlyIfUnset => exact done (does_setEnvVars law vars onlyIfUnset)
  | startProcess cmd options => exact done (does_startProcess law hready hop cmd options)
  | exposePort port => exact done (does_exposePort law hready hop port)
  | isPortReady port mode path => exact done (does_isPortReady law port mode path)
  | queue => exact done ((does_queueOf law n me _).mono fun _ _ _ _ _ _ => trivial)

/-- **Every call keeps to the specification, and so does every run.** -/
theorem Lawful.sound : Sound (process F.crypto F.config F.made) F.spec where
  law := law.spec
  body := by
    rintro ⟨n, call⟩ s e hinv hstart
    cases call with
    | listActive pages =>
      refine ((does_listActive law pages).safe s hinv (law.spec.turn_refl _ _ _)).mono
        fun r s₀ s' e' ⟨hi, ht, _, _⟩ => ⟨hi, ⟨ht.rely, fun _ => ht.quiet ?_, ?_, ?_⟩, ?_⟩
      · rintro ⟨me, op, hc, -⟩
        cases hc
      · rintro ⟨me, hc, -⟩
        cases hc
      · rintro me hc
        cases hc
      · rintro ⟨me, hc, -⟩
        cases hc
    | sandbox me op =>
      by_cases hready : op = .ready
      · subst hready
        have hfinishes : F.Finishes (n, .sandbox me .ready) (ready F.crypto F.config me (F.made me)) s e :=
          finishes_ready law (by decide)
        have hfin := hfinishes.safe s hinv (law.spec.turn_refl _ _ _)
        refine Safe.bind_iff.mpr (hfin.mono fun r s₀ s' e' ⟨hi, _, ht⟩ => ?_)
        have hpost : ∀ r, F.spec.post (n, .sandbox me .ready) r s' e' := by
          rintro r ⟨me', hc, -⟩
          cases hc
        cases r with
        | ok _ => exact ⟨hi, ht, hpost _⟩
        | error x => exact ⟨hi, ht, hpost _⟩
      · by_cases hop : op = .destroy
        · subst hop
          have hdes := (does_destroy law (n := n) (s := s) (e := e) fun hid => hstart ⟨me, rfl, hid⟩).safe s hinv
            (law.spec.turn_refl _ _ _)
          refine Safe.bind_iff.mpr (hdes.mono fun r s₀ s' e' ⟨hi, ht, _, hΦ⟩ => ?_)
          have hquiet : s₀.placements F.id = none → s'.placements F.id = none := by
            refine ht.quiet ?_
            rintro ⟨me', op', hc, -, hop, -⟩
            cases hc
            exact hop rfl
          cases r with
          | error x =>
            exact ⟨hi, ⟨ht.rely, fun _ => hquiet, fun _ h => (nomatch h), fun _ hc => (nomatch hc)⟩,
              fun _ h => (nomatch h)⟩
          | ok _ =>
            obtain ⟨hnone, hcancelled⟩ := hΦ () rfl
            refine ⟨hi, ⟨ht.rely, fun _ => hquiet, ?_, fun _ hc => (nomatch hc)⟩, ?_⟩
            · rintro ⟨me', hc, hid⟩ -
              cases hc
              exact hid ▸ hnone
            · rintro ⟨me', hc, hid⟩ -
              cases hc
              exact hid ▸ hcancelled
        · exact ended_of_does law hready hop hinv (does_opBody law hready hop)
  respond := by
    intro c q ch a s e e' hinv hissued hresp hmoves
    obtain ⟨hown, hr⟩ := law.respond c q ch a _ e' hinv.own hissued hresp hmoves
    refine ⟨hinv.later law (respond_later hresp) hown hr, ⟨respond_later hresp, hr⟩, ?_⟩
    match q, a with
    | .post base authorization body, .ok reply =>
      obtain ⟨pick, e₁, hserve, rfl⟩ := respond_ok hresp
      refine ⟨List.mem_cons_self .., fun x hx => ?_⟩
      subst hx
      exact law.reply c body pick x e₁ _ hinv.own hissued hserve
    | .post base authorization body, .error cause => trivial
    | .turn, _ => trivial
    | .lookedUp _ _, _ => trivial
    | .tokenFile _, _ => trivial
    | .probe _, _ => trivial
    | .agent _ _, _ => trivial
  drift := by
    intro d s e e' hinv hdrift hmoves
    obtain ⟨hown, hr⟩ := law.drift d _ e' hinv.own hdrift hmoves
    exact ⟨hinv.later law (drift_later hdrift) hown hr, drift_later hdrift, hr⟩

omit law in
theorem holds_init (h : F.own (none, e)) : Holds F.spec (World.init e) := by
  refine holds_start ⟨h, fun _ _ h => ?_, fun _ _ h => ?_, fun _ _ h => ?_⟩
  · cases h
  · cases h
  · cases h

end Facts

end ComputeArmada.Adapter
