import ComputeArmada.Adapter.OneQueue
import ComputeArmada.Adapter.Posted

/-!
# A destroy or a start that fails

* `knownQueue` : the queue that the directory tells of without a lookup;
* `Stops` : a program that sends nothing and writes nothing where its lookup comes to nothing;
* `posted_destroy` : with the queue known, `destroy()` posts one cancel, whatever becomes of it;
* `guesses_nothing` : what a `destroy()` that rejects leaves, what the next one sends, and that neither it nor
  `ready()` goes on without the queue.
-/

namespace ComputeArmada.Adapter
open Async

/-- What the directory tells of a sandbox's queue without a lookup. -/
def knownQueue (config : ArmadaConfig) (s : Shared) (id : SandboxId) : Option Queue :=
  match s.remembered id with
  | some known => some known
  | none => if config.mapped then none else some (.own config.queue)

section
variable {R : Shared → Shared → Prop} {α : Type} {config : ArmadaConfig} {id : SandboxId} {me : Nat} {made : Made}
variable {owner : Option SandboxOwner} {s s' : Shared} {trace : Answers}

theorem leads_self {f : Instance → M α} {r : Except JsError α} :
    Leads R (self me >>= f) s trace s' r ↔ Leads R (f (s.instances me)) s trace s' r :=
  leads_get

theorem leads_setSelf {f : Instance → Instance} {r : Except JsError Unit} :
    Leads R (setSelf me f) s trace s' r ↔ trace = [] ∧ s' = s.setInstance me f ∧ r = .ok () :=
  leads_modify

/-! ## The queue of a sandbox -/

theorem leads_resolve_known {queue : Queue} {r : Except JsError Queue} (h : knownQueue config s id = some queue) :
    Leads R (resolve config (lookup config) id owner) s trace s' r ↔ trace = [] ∧ s' = s ∧ r = .ok queue := by
  unfold knownQueue at h
  rw [leads_resolve]
  split at h
  · rename_i known hknown
    cases h
    simp [hknown]
  · rename_i hnone
    split at h
    · cases h
    · rename_i hmapped
      cases h
      simp [hnone, hmapped]

theorem unknown_iff : knownQueue config s id = none ↔ s.remembered id = none ∧ config.mapped = true := by
  unfold knownQueue
  cases s.remembered id <;> simp

variable (R config id s) in
/-- A program that comes to nothing where its lookup does: it sends nothing else, writes nothing and rejects. -/
structure Stops (p : M α) : Prop where
  of : ∀ trace s' r, Leads R p s trace s' r → (∀ found, ⟨.lookedUp id found, ()⟩ ∉ trace) →
    R s s' ∧ (∀ body ∈ posted trace, body = .lookout (findQueueRequest config id)) ∧ ∃ cause, r = .error cause

theorem Stops.bind {β : Type} {p : M α} {f : α → M β} (hp : Stops R config id s p) : Stops R config id s (p >>= f) := by
  refine ⟨fun trace s' r h hunanswered => ?_⟩
  rcases leads_bind.mp h with ⟨x, rfl, hfail⟩ | ⟨a, before, after, s₁, rfl, hok, -⟩
  · obtain ⟨hR, hposted, -⟩ := hp.of _ _ _ hfail hunanswered
    exact ⟨hR, hposted, x, rfl⟩
  · obtain ⟨-, -, cause, hcause⟩ := hp.of _ _ _ hok fun found hmem => hunanswered found (List.mem_append_left _ hmem)
    cases hcause

theorem Stops.await {p : M α} (trans : ∀ s₁ s₂ s₃, R s₁ s₂ → R s₂ s₃ → R s₁ s₃) (hp : Stops R config id s p) :
    Stops R config id s (await p) := by
  refine ⟨fun trace s' r h hunanswered => ?_⟩
  obtain ⟨before, s₁, rfl, hbefore, hR⟩ := leads_await.mp h
  obtain ⟨hs₁, hposted, hcause⟩ := hp.of _ _ _ hbefore fun found hmem => hunanswered found (List.mem_append_left _ hmem)
  rw [posted_append, posted_turn, List.append_nil]
  exact ⟨trans _ _ _ hs₁ hR, hposted, hcause⟩

theorem stops_resolve (refl : ∀ s, R s s) (trans : ∀ s₁ s₂ s₃, R s₁ s₂ → R s₂ s₃ → R s₁ s₃)
    (hunknown : knownQueue config s id = none) : Stops R config id s (resolve config (lookup config) id owner) := by
  refine ⟨fun trace s' r h hunanswered => ?_⟩
  obtain ⟨hnone, hmapped⟩ := unknown_iff.mp hunknown
  rcases leads_resolve.mp h with ⟨known, hknown, -⟩ | ⟨-, hmapped', -⟩ |
    ⟨-, -, outcome, before, after, s₁, s₂, rfl, hfind, hR, hend⟩
  · rw [hnone] at hknown
    cases hknown
  · rw [hmapped] at hmapped'
    cases hmapped'
  · have hs₁ := hfind.rely (stateless_await (stateless_findQueue config id)) refl trans
    cases outcome with
    | error cause =>
      obtain ⟨rfl, rfl, rfl⟩ := hend
      refine ⟨trans _ _ _ hs₁ hR, ?_, _, rfl⟩
      rw [posted_append, posted_turn, List.append_nil]
      exact (posts_findQueue config id).await.posted hfind.gives
    | ok found =>
      obtain ⟨rfl, -, -⟩ := hend
      exact absurd (List.mem_append_right _ (List.mem_singleton.mpr rfl)) (hunanswered found)

/-- One that rejects had not been answered. -/
theorem resolve_rejects {cause : JsError}
    (h : Leads R (resolve config (lookup config) id owner) s trace s' (.error cause)) :
    knownQueue config s id = none ∧ ∀ found, ⟨.lookedUp id found, ()⟩ ∉ trace := by
  rcases leads_resolve.mp h with ⟨known, -, -, -, hr⟩ | ⟨-, -, -, -, hr⟩ |
    ⟨hnone, hmapped, outcome, before, after, s₁, s₂, rfl, hfind, hR, hend⟩
  · cases hr
  · cases hr
  · refine ⟨unknown_iff.mpr ⟨hnone, hmapped⟩, fun found hmem => ?_⟩
    cases outcome with
    | error cause' =>
      obtain ⟨rfl, -, -⟩ := hend
      rcases List.mem_append.mp hmem with hmem | hmem
      · exact (posts_findQueue config id).await.not_lookedUp hfind.gives id found hmem
      · cases List.mem_singleton.mp hmem
    | ok found' =>
      obtain ⟨-, -, hr⟩ := hend
      cases hr

/-- What one that resolves leaves: the queue is known from then on. -/
theorem resolve_resolves {queue : Queue}
    (h : Leads Eq (resolve config (lookup config) id owner) s trace s' (.ok queue)) :
    (s' = s ∨ s' = s.remember id queue) ∧ knownQueue config s' id = some queue ∧
      ∀ body ∈ posted trace, body = .lookout (findQueueRequest config id) := by
  rcases leads_resolve.mp h with ⟨known, hknown, rfl, rfl, hr⟩ | ⟨hnone, hmapped, rfl, rfl, hr⟩ |
    ⟨hnone, hmapped, outcome, before, after, s₁, s₂, rfl, hfind, rfl, hend⟩
  · cases hr
    exact ⟨.inl rfl, by simp [knownQueue, hknown], fun _ => List.not_mem_nil.elim⟩
  · cases hr
    exact ⟨.inl rfl, by simp [knownQueue, hnone, hmapped], fun _ => List.not_mem_nil.elim⟩
  · obtain rfl : s = s₁ := hfind.rely (stateless_await (stateless_findQueue config id)) (fun _ => rfl)
      fun _ _ _ h h' => h.trans h'
    cases outcome with
    | error cause => cases hend.2.2
    | ok found =>
      obtain ⟨rfl, rfl, hr⟩ := hend
      obtain rfl := Except.ok.inj hr
      refine ⟨.inr rfl, by simp [knownQueue, Shared.remember], ?_⟩
      rw [posted_append]
      refine List.forall_mem_append.mpr ⟨(posts_findQueue config id).await.posted hfind.gives,
        fun _ => List.not_mem_nil.elim⟩

theorem leads_queueOf {r : Except JsError Queue} (hjob : (s.instances me).job = none) :
    Leads R (queueOf config me made) s trace s' r ↔
      Leads R (await (resolve config (lookup config) made.id made.owner)) s trace s' r := by
  unfold queueOf
  rw [leads_self, hjob]

/-! ## A destroy -/

/-- The cancel of a job, or of the whole set of a sandbox in this queue. -/
def cancelRequest (job : Option SubmittedJob) (id : SandboxId) (queue : Queue) : JobCancelRequest :=
  match job with
  | some job => { queue := job.queue, jobSetId := job.jobSetId, jobId := some job.jobId }
  | none => { queue, jobSetId := id, jobId := none }

variable (config me made s) in
/-- The cancel that a `destroy()` sends without a lookup. -/
def addressed : Option JobCancelRequest :=
  match (s.instances me).job with
  | some job => some (cancelRequest (some job) made.id job.queue)
  | none => (knownQueue config s made.id).map (cancelRequest none made.id)

theorem posts_cleanUp {P : Body → Prop} : Posts (do
    modify fun s => (s.forget made.id).setPlacement made.id none
    setSelf me fun i => { i with pod := none, channel := none }) P :=
  .bind (.modify _) fun _ => .modify _

theorem posted_await_cancel {p : M Unit} {body : Body}
    (hp : ∀ trace r, Gives p trace r → r = .ok () → body ∈ posted trace)
    {f : Unit → M Unit} {r : Except JsError Unit} (h : Gives (await p >>= f) trace r) (hr : r = .ok ()) :
    body ∈ posted trace := by
  rcases gives_bind.mp h with ⟨x, rfl, -⟩ | ⟨a, before, after, rfl, hcancel, -⟩
  · cases hr
  · obtain ⟨inner, rfl, hinner⟩ := gives_await hcancel
    rw [posted_append, posted_append]
    exact List.mem_append_left _ (List.mem_append_left _ (hp _ _ hinner rfl))

/-- With the job or the queue known, no lookup is made and one cancel is all that is posted. -/
theorem posted_destroy {request : JobCancelRequest} {r : Except JsError Unit}
    (haddressed : addressed config me made s = some request) (h : Leads R (destroy config me made) s trace s' r) :
    (∀ body ∈ posted trace, body = .cancel request) ∧ (r = .ok () → .cancel request ∈ posted trace) := by
  unfold destroy at h
  rw [leads_self] at h
  unfold addressed at haddressed
  cases hjob : (s.instances me).job with
  | some job =>
    rw [hjob] at h haddressed
    cases haddressed
    exact ⟨((posts_cancel config job).await.bind fun _ => posts_cleanUp).posted h.gives,
      posted_await_cancel (fun _ _ h hr => posted_post config (hr ▸ h)) h.gives⟩
  | none =>
    rw [hjob] at h haddressed
    obtain ⟨queue, hqueue, rfl⟩ := Option.map_eq_some_iff.mp haddressed
    have hcancel : Posts (do await (cancelSet config made.id queue); _) _ :=
      (posts_cancelSet config made.id queue).await.bind fun _ => @posts_cleanUp me made _
    rcases leads_bind.mp h with ⟨x, -, hfail⟩ | ⟨queue', before, after, s₁, rfl, hq, hrest⟩
    · obtain ⟨outer, s₁, rfl, hqueueOf, -⟩ := leads_await.mp hfail
      obtain ⟨inner, s₂, rfl, hresolve, -⟩ := leads_await.mp ((leads_queueOf hjob).mp hqueueOf)
      cases ((leads_resolve_known hqueue).mp hresolve).2.2
    · obtain ⟨outer, s₂, rfl, hqueueOf, -⟩ := leads_await.mp hq
      obtain ⟨inner, s₃, rfl, hresolve, -⟩ := leads_await.mp ((leads_queueOf hjob).mp hqueueOf)
      obtain ⟨rfl, rfl, hok⟩ := (leads_resolve_known hqueue).mp hresolve
      obtain rfl := Except.ok.inj hok
      rw [posted_append]
      refine ⟨List.forall_mem_append.mpr ⟨fun _ h => (nomatch h), hcancel.posted hrest.gives⟩, fun hr => ?_⟩
      exact List.mem_append_right _ (posted_await_cancel (fun _ _ h hr => posted_post config (hr ▸ h)) hrest.gives hr)

/-- A `destroy()` that rejects was refused the queue, or has sent its cancel, or tried to, as the next one will. -/
theorem destroy_rejects {cause : JsError} (h : Leads Eq (destroy config me made) s trace s' (.error cause)) :
    (addressed config me made s = none ∧ (∀ found, ⟨.lookedUp made.id found, ()⟩ ∉ trace) ∧ s' = s ∧
      ∀ body ∈ posted trace, body = .lookout (findQueueRequest config made.id)) ∨
    ∃ request, addressed config me made s' = some request ∧ (s' = s ∨ s' = s.remember made.id request.queue) ∧
      ∀ body ∈ posted trace, body = .lookout (findQueueRequest config made.id) ∨ body = .cancel request := by
  have trans : ∀ s₁ s₂ s₃ : Shared, s₁ = s₂ → s₂ = s₃ → s₁ = s₃ := fun _ _ _ h h' => h.trans h'
  have hcleanUp : ∀ s trace s', ¬ Leads Eq (do
      modify fun s => (s.forget made.id).setPlacement made.id none
      setSelf me fun i => { i with pod := none, channel := none }) s trace s' (.error cause) := by
    intro s trace s' h
    rcases leads_bind.mp h with ⟨x, -, hfail⟩ | ⟨a, before, after, s₁, -, -, hset⟩
    · cases (leads_modify.mp hfail).2.2
    · cases (leads_setSelf.mp hset).2.2
  have h' := h
  unfold destroy at h
  rw [leads_self] at h
  cases hjob : (s.instances me).job with
  | some job =>
    rw [hjob] at h
    rcases leads_bind.mp h with ⟨x, -, hfail⟩ | ⟨a, before, after, s₁, -, -, hrest⟩
    · obtain rfl := hfail.rely (stateless_await (stateless_cancel config job)) (fun _ => rfl) trans
      have haddressed : addressed config me made s = some (cancelRequest (some job) made.id job.queue) := by
        rw [addressed, hjob]
      exact .inr ⟨_, haddressed, .inl rfl, fun body hbody => .inr ((posted_destroy haddressed h').1 body hbody)⟩
    · exact absurd hrest (hcleanUp _ _ _)
  | none =>
    rw [hjob] at h
    have haddressed : ∀ s₁ : Shared, s₁.instances = s.instances →
        addressed config me made s₁ = (knownQueue config s₁ made.id).map (cancelRequest none made.id) := by
      intro s₁ hsame
      rw [addressed, hsame, hjob]
    rcases leads_bind.mp h with ⟨x, -, hfail⟩ | ⟨queue, before, after, s₁, rfl, hq, hrest⟩
    · obtain ⟨outer, s₁, rfl, hq, rfl⟩ := leads_await.mp hfail
      obtain ⟨inner, s₂, rfl, hresolve, rfl⟩ := leads_await.mp ((leads_queueOf hjob).mp hq)
      obtain ⟨hunknown, hunanswered⟩ := resolve_rejects hresolve
      obtain ⟨rfl, hposted, -⟩ := (stops_resolve (fun _ => rfl) trans hunknown).of _ _ _ hresolve hunanswered
      refine .inl ⟨by rw [haddressed s rfl, hunknown, Option.map_none], fun found hmem => ?_, rfl, ?_⟩
      · rw [List.append_assoc] at hmem
        rcases List.mem_append.mp hmem with hmem | hmem
        · exact hunanswered found hmem
        · rcases List.mem_append.mp hmem with hmem | hmem <;> cases List.mem_singleton.mp hmem
      · rw [posted_append, posted_append, posted_turn, List.append_nil, List.append_nil]
        exact hposted
    · obtain ⟨outer, s₂, rfl, hqueueOf, rfl⟩ := leads_await.mp hq
      obtain ⟨inner, s₃, rfl, hresolve, rfl⟩ := leads_await.mp ((leads_queueOf hjob).mp hqueueOf)
      obtain ⟨hs₃, hknown, hposted⟩ := resolve_resolves hresolve
      rcases leads_bind.mp hrest with ⟨x, -, hfail⟩ | ⟨a, before, after, s₁, -, -, hrest⟩
      · obtain rfl := hfail.rely (stateless_await (stateless_cancelSet config made.id queue)) (fun _ => rfl) trans
        have hinstances : s₃.instances = s.instances := by
          rcases hs₃ with rfl | rfl
          · rfl
          · rfl
        refine .inr ⟨cancelRequest none made.id queue, ?_, hs₃, ?_⟩
        · rw [haddressed s₃ hinstances, hknown, Option.map_some]
        · rw [posted_append, posted_append, posted_append, posted_turn, List.append_nil, List.append_nil]
          exact List.forall_mem_append.mpr ⟨fun body hbody => .inl (hposted body hbody), fun body hbody =>
            .inr ((posts_cancelSet config made.id queue).await.posted hfail.gives body hbody)⟩
      · exact absurd hrest (hcleanUp _ _ _)

/-! ## Where the lookup rejects -/

section
variable (refl : ∀ s, R s s) (trans : ∀ s₁ s₂ s₃, R s₁ s₂ → R s₂ s₃ → R s₁ s₃)
variable (hjob : (s.instances me).job = none) (hunknown : knownQueue config s made.id = none)
include refl trans hjob hunknown

theorem stops_queueOf : Stops R config made.id s (queueOf config me made) :=
  ⟨fun trace s' r h => ((stops_resolve refl trans hunknown).await trans).of trace s' r ((leads_queueOf hjob).mp h)⟩

theorem stops_destroy : Stops R config made.id s (destroy config me made) := by
  refine ⟨fun trace s' r h hunanswered => ?_⟩
  unfold destroy at h
  rw [leads_self, hjob] at h
  exact ((stops_queueOf refl trans hjob hunknown).await trans).bind.of _ _ _ h hunanswered

theorem stops_takeJob (crypto : Crypto) : Stops R config made.id s (takeJob crypto config me made) := by
  refine ⟨fun trace s' r h hunanswered => ?_⟩
  unfold takeJob at h
  rw [leads_self, hjob] at h
  refine (Stops.await trans ?_).bind.of _ _ _ h hunanswered
  have hqueue := (stops_queueOf refl trans hjob hunknown).await trans
  split
  · exact hqueue.bind
  · refine ⟨fun trace s' r h hunanswered => ?_⟩
    rcases leads_bind.mp h with ⟨x, rfl, hfail⟩ | ⟨podSpec, before, after, s₁, rfl, hspec, hrest⟩
    · obtain ⟨rfl, rfl, -⟩ := leads_ofExcept.mp hfail
      exact ⟨refl _, fun _ h => (nomatch h), x, rfl⟩
    · obtain ⟨rfl, rfl, -⟩ := leads_ofExcept.mp hspec
      exact hqueue.bind.of _ _ _ hrest hunanswered

end

theorem stateless_channelReady (channel : ControlChannel) (timeoutMs polls : Nat) :
    (channelReady channel timeoutMs polls).Stateless := by
  have hprobe : ∀ again : JsError → M Unit, (∀ cause, (again cause).Stateless) →
      (probeAgent channel timeoutMs again).Stateless := by
    intro again hagain
    refine (stateless_ask _).bind fun a => ?_
    match a with
    | .ok => exact .pure _
    | .failed last true => exact .throw _
    | .failed last false => exact hagain _
  induction polls with
  | zero => exact hprobe throw fun cause => .throw cause
  | succ polls ih => exact hprobe _ fun _ => (stateless_ask .turn).bind fun _ => ih

theorem posts_channelReady {P : Body → Prop} (channel : ControlChannel) (timeoutMs polls : Nat) :
    Posts (channelReady channel timeoutMs polls) P := by
  have hprobe : ∀ again : JsError → M Unit, (∀ cause, Posts (again cause) P) →
      Posts (probeAgent channel timeoutMs again) P := by
    intro again hagain
    refine .ask trivial fun a => ?_
    match a with
    | .ok => exact .pure _
    | .failed last true => exact .throw _
    | .failed last false => exact hagain _
  induction polls with
  | zero => exact hprobe throw fun cause => .throw cause
  | succ polls ih => exact hprobe _ fun _ => .ask trivial fun _ => ih

/-- A `ready()` whose lookup comes to nothing. -/
theorem unanswered_ready {crypto : Crypto} {r : Except JsError Unit} (hjob : (s.instances me).job = none)
    (hunknown : knownQueue config s made.id = none) (h : Leads Eq (ready crypto config me made) s trace s' r)
    (hunanswered : ∀ found, ⟨.lookedUp made.id found, ()⟩ ∉ trace) :
    s'.remembered = s.remembered ∧ (∀ body ∈ posted trace, body = .lookout (findQueueRequest config made.id)) ∧
      ((s.instances me).channel = none → s.placements made.id = none → ∃ cause, r = .error cause) := by
  have trans : ∀ s₁ s₂ s₃ : Shared, s₁ = s₂ → s₂ = s₃ → s₁ = s₃ := fun _ _ _ h h' => h.trans h'
  have hreach : ∀ s : Shared, (s.instances me).job = none → knownQueue config s made.id = none →
      Stops Eq config made.id s (reach crypto config me made) := fun s hjob hunknown =>
    (stops_takeJob (fun _ => rfl) trans hjob hunknown crypto).bind
  unfold ready at h
  rw [leads_self] at h
  cases hchannel : (s.instances me).channel with
  | some channel =>
    rw [hchannel] at h
    obtain ⟨rfl, rfl, -⟩ := leads_pure.mp h
    exact ⟨rfl, fun _ h => (nomatch h), fun h => nomatch h⟩
  | none =>
    rw [hchannel, leads_get] at h
    cases hplaced : s.placements made.id with
    | none =>
      rw [hplaced] at h
      obtain ⟨rfl, hposted, hcause⟩ := (hreach s hjob hunknown).of _ _ _ h hunanswered
      exact ⟨rfl, hposted, fun _ _ => hcause⟩
    | some known =>
      rw [hplaced] at h
      rcases leads_bind.mp h with ⟨x, -, hfail⟩ | ⟨outcome, before, after, s₁, rfl, hprobe, hrest⟩
      · obtain ⟨r', hr, -⟩ := leads_attempt.mp hfail
        cases hr
      · obtain ⟨r', hr, hprobe⟩ := leads_attempt.mp hprobe
        obtain rfl := hprobe.rely (stateless_await (stateless_channelReady ..)) (fun _ => rfl) trans
        have hnone := (posts_channelReady (P := fun _ => False) known.channel 0 0).await.posted hprobe.gives
        rw [posted_append, List.eq_nil_iff_forall_not_mem.mpr hnone, List.nil_append]
        cases outcome with
        | ok a =>
          obtain ⟨rfl, rfl, -⟩ := leads_setSelf.mp hrest
          exact ⟨rfl, fun _ h => (nomatch h), fun _ h => nomatch h⟩
        | error cause =>
          rcases leads_bind.mp hrest with ⟨x, -, hmodify⟩ | ⟨a, none₁, rest, s₂, rfl, hmodify, hreached⟩
          · cases (leads_modify.mp hmodify).2.2
          · obtain ⟨rfl, rfl, -⟩ := leads_modify.mp hmodify
            obtain ⟨rfl, hposted, hcause⟩ := (hreach (s.setPlacement made.id none) hjob hunknown).of _ _ _ hreached
              fun found hmem => hunanswered found (List.mem_append_right _ hmem)
            exact ⟨rfl, hposted, fun _ h => nomatch h⟩

end

/-- **A destroy or a lookup that fails changes nothing and guesses nothing.** What a `destroy()` that rejects has
written is at most the queue that its cancel was for, and the next one sends that cancel again, unless no queue
was known; and with no answer to the lookup neither `destroy()` nor `ready()` sends anything but the lookup, nor
remembers anything. -/
theorem guesses_nothing (crypto : Crypto) (config : ArmadaConfig) (me : Nat) (made : Made) (s : Shared) :
    (∀ trace s' cause, Leads Eq (destroy config me made) s trace s' (.error cause) →
      s'.instances = s.instances ∧ s'.placements = s.placements ∧
      (∀ id ≠ made.id, s'.remembered id = s.remembered id) ∧
      ((s.instances me).job = none ∧ knownQueue config s made.id = none ∧
          (∀ found, ⟨.lookedUp made.id found, ()⟩ ∉ trace) ∧ s' = s ∧
          (∀ body ∈ posted trace, body = .lookout (findQueueRequest config made.id)) ∨
        ∃ request, (s'.remembered made.id = s.remembered made.id ∨ s'.remembered made.id = some request.queue) ∧
          (∀ body ∈ posted trace, body = .lookout (findQueueRequest config made.id) ∨ body = .cancel request) ∧
          ∀ again t r, Leads Eq (destroy config me made) s' again t r →
            (∀ body ∈ posted again, body = .cancel request) ∧ (r = .ok () → .cancel request ∈ posted again))) ∧
    ((s.instances me).job = none → knownQueue config s made.id = none →
      (∀ trace s' r, Leads Eq (destroy config me made) s trace s' r →
        (∀ found, ⟨.lookedUp made.id found, ()⟩ ∉ trace) →
        s' = s ∧ (∀ body ∈ posted trace, body = .lookout (findQueueRequest config made.id)) ∧
          ∃ cause, r = .error cause) ∧
      ∀ trace s' r, Leads Eq (ready crypto config me made) s trace s' r →
        (∀ found, ⟨.lookedUp made.id found, ()⟩ ∉ trace) →
        s'.remembered = s.remembered ∧ (∀ body ∈ posted trace, body = .lookout (findQueueRequest config made.id)) ∧
          ((s.instances me).channel = none → s.placements made.id = none → ∃ cause, r = .error cause)) := by
  refine ⟨fun trace s' cause h => ?_, fun hjob hunknown => ⟨fun trace s' r h hunanswered => ?_,
    fun trace s' r h hunanswered => unanswered_ready hjob hunknown h hunanswered⟩⟩
  · rcases destroy_rejects h with ⟨hunknown, hunanswered, rfl, hposted⟩ | ⟨request, haddressed, hs', hposted⟩
    · refine ⟨rfl, rfl, fun _ _ => rfl, .inl ?_⟩
      unfold addressed at hunknown
      split at hunknown
      · cases hunknown
      · rename_i hjob
        exact ⟨hjob, Option.map_eq_none_iff.mp hunknown, hunanswered, rfl, hposted⟩
    · have hretry : ∀ again t r, Leads Eq (destroy config me made) s' again t r →
          (∀ body ∈ posted again, body = .cancel request) ∧ (r = .ok () → .cancel request ∈ posted again) :=
        fun again t r h => posted_destroy haddressed h
      rcases hs' with rfl | rfl
      · exact ⟨rfl, rfl, fun _ _ => rfl, .inr ⟨request, .inl rfl, hposted, hretry⟩⟩
      · refine ⟨rfl, rfl, fun id hid => Function.update_of_ne hid .., .inr ⟨request, .inr ?_, hposted, hretry⟩⟩
        exact Function.update_self ..
  · obtain ⟨rfl, hposted, hcause⟩ := (stops_destroy (fun _ => rfl) (fun _ _ _ h h' => h.trans h') hjob hunknown).of
      _ _ _ h hunanswered
    exact ⟨rfl, hposted, hcause⟩

/-- No server answers. -/
def unreachable : (q : Request) → Answer q
  | .turn => ()
  | .lookedUp _ _ => ()
  | .tokenFile _ => .error (error "ENOENT")
  | .post _ _ _ => .error (error "ECONNREFUSED")
  | .probe _ => .failed "ECONNREFUSED" true
  | .agent _ (.writeFiles _) => .ok ()
  | .agent _ (.run _ _) | .agent _ (.stream _ _) | .agent _ (.readFile _) | .agent _ (.readFileBounded _ _ _)
  | .agent _ (.listFiles _ _) | .agent _ (.startProcess _ _) | .agent _ (.waitForPort _ _ _ _)
  | .agent _ (.signalProcess _ _) | .agent _ (.processLogs _) => .error (error "ECONNREFUSED")

/-- Of a sandbox that nothing is known of, the queue is asked of Lookout, and no more. -/
theorem guesses_nothing_unreachable :
    let run := (destroy mappedConfig 0 (created 0)).play unreachable Shared.init
    posted run.1 = [.lookout (findQueueRequest mappedConfig "s")] ∧ run.2.1.placements = Shared.init.placements := by
  refine ⟨by decide, ?_⟩
  have h := leads_play (R := Eq) (fun _ => rfl) unreachable (destroy mappedConfig 0 (created 0)) Shared.init
  exact ((guesses_nothing digests mappedConfig 0 (created 0) Shared.init).1 _ _ _ h).2.1

end ComputeArmada.Adapter
