import ComputeArmada.Adapter.Sandbox
import ComputeArmada.Lib.Leads

/-!
# What one call posts

The calls of `armada.ts` and of the queue directory, each from the state it begins in to the one it ends in.

* `posted` : the bodies that a run has posted, in their order;
* `stateless_post`, … : the calls of `armada.ts` leave alone what the process shares;
* `posts_post`, `posts_findQueue`, … : what each of them posts;
* `leads_resolve` : the queue that is known, or the one that a lookup or the owner decides, which is remembered.
-/

namespace ComputeArmada.Adapter
open Async

/-- The answers to what a program has asked. -/
abbrev Answers := List (Σ q : Request, Answer q)

def postedBody : (Σ q : Request, Answer q) → Option Body
  | ⟨.post _ _ body, _⟩ => some body
  | _ => none

def posted (trace : Answers) : List Body := trace.filterMap postedBody

theorem posted_append (trace trace' : Answers) : posted (trace ++ trace') = posted trace ++ posted trace' :=
  List.filterMap_append

theorem posted_turn : posted [⟨.turn, ()⟩] = [] := rfl

section
variable {R : Shared → Shared → Prop} {α : Type} {p : M α} {s s' : Shared} {trace : Answers} {r : Except JsError α}

theorem leads_await : Leads R (await p) s trace s' r ↔
    ∃ before s₁, trace = before ++ [⟨.turn, ()⟩] ∧ Leads R p s before s₁ r ∧ R s₁ s' := by
  unfold await
  rw [leads_bind]
  constructor
  · rintro (⟨x, rfl, h⟩ | ⟨outcome, before, after, s₁, rfl, hp, h⟩)
    · obtain ⟨r', hr, -⟩ := leads_attempt.mp h
      cases hr
    · obtain ⟨r', hr, hp⟩ := leads_attempt.mp hp
      obtain rfl := Except.ok.inj hr
      obtain ⟨⟨⟩, s₂, rest, rfl, hR, h⟩ := leads_ask.mp (h : Leads R (.ask .turn _) s₁ after s' r)
      obtain ⟨rfl, rfl, rfl⟩ := leads_ofExcept.mp (h : Leads R (.ofExcept outcome) s₂ rest s' r)
      exact ⟨before, s₁, rfl, hp, hR⟩
  · rintro ⟨before, s₁, rfl, hp, hR⟩
    refine .inr ⟨r, before, [⟨.turn, ()⟩], s₁, rfl, leads_attempt.mpr ⟨r, rfl, hp⟩, ?_⟩
    exact leads_ask.mpr ⟨(), s', [], rfl, hR, leads_ofExcept.mpr ⟨rfl, rfl, rfl⟩⟩

theorem gives_await (h : Gives (await p) trace r) :
    ∃ before, trace = before ++ [⟨.turn, ()⟩] ∧ Gives p before r := by
  unfold await at h
  rcases gives_bind.mp h with ⟨x, -, h⟩ | ⟨outcome, before, after, rfl, hp, h⟩
  · obtain ⟨r', hr, -⟩ := gives_attempt.mp h
    cases hr
  · obtain ⟨r', hr, hp⟩ := gives_attempt.mp hp
    obtain rfl := Except.ok.inj hr
    obtain ⟨⟨⟩, ended, rfl, hend⟩ := gives_ask.mp (h : Gives (.ask .turn _) after r)
    obtain ⟨rfl, rfl⟩ := gives_ofExcept.mp (hend : Gives (.ofExcept outcome) ended r)
    exact ⟨before, rfl, hp⟩

theorem leads_asked {q : Request} {f : Answer q → M α} : Leads R (ask q >>= f) s trace s' r ↔
    ∃ a s₁ rest, trace = ⟨q, a⟩ :: rest ∧ R s s₁ ∧ Leads R (f a) s₁ rest s' r :=
  leads_ask

theorem gives_asked {q : Request} {f : Answer q → M α} : Gives (ask q >>= f) trace r ↔
    ∃ a rest, trace = ⟨q, a⟩ :: rest ∧ Gives (f a) rest r :=
  gives_ask

theorem stateless_ask (q : Request) : (ask q).Stateless := .ask fun a => .pure a

theorem stateless_await (hp : p.Stateless) : (await p).Stateless :=
  hp.attempt.bind fun outcome => (stateless_ask .turn).bind fun _ => .ofExcept outcome

end

/-! ## The calls of `armada.ts` -/

section
variable (config : ArmadaConfig)

theorem stateless_authorizationHeader (auth : ArmadaAuth) : (authorizationHeader auth).Stateless := by
  cases auth with
  | anonymous => exact .pure _
  | basic username password => exact .pure _
  | bearer token => exact .pure _
  | bearerFile path =>
    refine (stateless_ask _).bind fun a => ?_
    cases a with
    | error cause => exact .throw _
    | ok text =>
      dsimp only
      split
      · exact .throw _
      · exact .pure _

theorem stateless_postTo (base : String) (body : Body) : (postTo config base body).Stateless := by
  refine (stateless_await (stateless_await (stateless_authorizationHeader _))).bind fun authorization => ?_
  refine (stateless_ask _).bind fun a => ?_
  match a with
  | .error cause => exact .throw _
  | .ok (.failed _ _ (.error cause)) => exact .throw _
  | .ok (.failed _ _ (.ok text)) => exact .throw _
  | .ok (.ok reply) => exact .pure _

theorem stateless_post (body : Body) : (post config body).Stateless := stateless_await (stateless_postTo ..)

theorem stateless_cancel (job : SubmittedJob) : (cancel config job).Stateless := stateless_await (stateless_post ..)

theorem stateless_cancelSet (jobSetId : String) (queue : Queue) : (cancelSet config jobSetId queue).Stateless :=
  stateless_await (stateless_post ..)

theorem stateless_lookoutJobs (lookout : String) (request : LookoutGetJobsRequest) :
    (lookoutJobs config lookout request).Stateless := by
  have hresponse : (do json (← await (postTo config lookout (.lookout request))) :
      M LookoutGetJobsResponse).Stateless :=
    (stateless_await (stateless_postTo config lookout (.lookout request))).bind fun reply =>
      stateless_await (.ofExcept reply)
  exact (stateless_await hresponse).bind fun _ => .pure _

theorem stateless_findQueue (id : SandboxId) : (findQueue config id).Stateless := by
  unfold findQueue
  split
  · exact .pure _
  · exact (stateless_await (stateless_lookoutJobs ..)).bind fun _ => .pure _

theorem stateless_listActiveFrom (lookout : String) (pages skip : Nat) (sandboxes : List ActiveJob) :
    (listActiveFrom config lookout pages skip sandboxes).Stateless := by
  induction pages generalizing skip sandboxes with
  | zero => exact .throw _
  | succ pages ih =>
    refine (stateless_await (stateless_lookoutJobs ..)).bind fun jobs => ?_
    dsimp only
    split
    · exact .pure _
    · exact ih _ _

theorem stateless_listActive (pages : Nat) : (listActive config pages).Stateless := by
  unfold listActive
  split
  · exact .throw _
  · exact stateless_listActiveFrom ..

end

/-! ## What they post -/

/-- A request that posts such a body, or is no request to a server and no end of a lookup. -/
def Sends (P : Body → Prop) : Request → Prop
  | .post _ _ body => P body
  | .turn | .tokenFile _ | .probe _ => True
  | .lookedUp _ _ | .agent _ _ => False

/-- Whatever a program posts is such a body. -/
structure Posts {α : Type} (p : M α) (P : Body → Prop) : Prop where
  all : ∀ trace r, Gives p trace r → ∀ x ∈ trace, Sends P x.1

namespace Posts
variable {α β : Type} {p : M α} {P : Body → Prop} {trace : Answers} {r : Except JsError α}

theorem posted (hp : Posts p P) (h : Gives p trace r) : ∀ body ∈ posted trace, P body := by
  intro body hbody
  obtain ⟨⟨q, a⟩, hx, hsome⟩ := List.mem_filterMap.mp hbody
  have hsends := hp.all _ _ h _ hx
  cases q with
  | post base authorization body' =>
    cases hsome
    exact hsends
  | _ => cases hsome

theorem not_lookedUp (hp : Posts p P) (h : Gives p trace r) (id : SandboxId) (found : Option String) :
    ⟨.lookedUp id found, ()⟩ ∉ trace := fun hmem => hp.all _ _ h _ hmem

theorem bind {f : α → M β} (hp : Posts p P) (hf : ∀ a, Posts (f a) P) : Posts (p >>= f) P := by
  refine ⟨fun trace r h => ?_⟩
  rcases gives_bind.mp h with ⟨x, -, hp'⟩ | ⟨a, before, after, rfl, hp', hafter⟩
  · exact hp.all _ _ hp'
  · exact List.forall_mem_append.mpr ⟨hp.all _ _ hp', (hf a).all _ _ hafter⟩

theorem attempt (hp : Posts p P) : Posts p.attempt P := by
  refine ⟨fun trace r h => ?_⟩
  obtain ⟨r', -, h⟩ := gives_attempt.mp h
  exact hp.all _ _ h

theorem ofExcept (x : Except JsError α) : Posts (.ofExcept x) P := by
  refine ⟨fun trace r h => ?_⟩
  rw [(gives_ofExcept.mp h).1]
  exact fun _ h => nomatch h

theorem pure (a : α) : Posts (Pure.pure a) P := ofExcept (.ok a)

theorem throw (x : JsError) : Posts (MonadExcept.throw x : M α) P := ofExcept (.error x)

theorem ask {q : Request} {f : Answer q → M α} (hq : Sends P q) (hf : ∀ a, Posts (f a) P) :
    Posts (Adapter.ask q >>= f) P := by
  refine ⟨fun trace r h => ?_⟩
  obtain ⟨a, rest, rfl, hrest⟩ := gives_asked.mp h
  exact List.forall_mem_cons.mpr ⟨hq, (hf a).all _ _ hrest⟩

theorem await (hp : Posts p P) : Posts (await p) P :=
  hp.attempt.bind fun outcome => ask trivial fun _ => ofExcept outcome

theorem modify (f : Shared → Shared) : Posts (modify f) P := by
  refine ⟨fun trace r h => ?_⟩
  cases h with
  | get s h => cases h with
    | set h =>
      cases h
      exact fun _ h => nomatch h

end Posts

section
variable (config : ArmadaConfig)

theorem posts_authorizationHeader {P : Body → Prop} (auth : ArmadaAuth) : Posts (authorizationHeader auth) P := by
  cases auth with
  | anonymous => exact .pure _
  | basic username password => exact .pure _
  | bearer token => exact .pure _
  | bearerFile path =>
    refine .ask trivial fun a => ?_
    cases a with
    | error cause => exact .throw cause
    | ok text =>
      dsimp only
      split
      · exact .throw _
      · exact .pure _

theorem posts_postTo (base : String) (body : Body) : Posts (postTo config base body) (· = body) := by
  refine .bind (.await (.await (posts_authorizationHeader _))) fun authorization => .ask rfl fun a => ?_
  match a with
  | .error cause => exact .throw _
  | .ok (.failed _ _ (.error cause)) => exact .throw _
  | .ok (.failed _ _ (.ok text)) => exact .throw _
  | .ok (.ok reply) => exact .pure _

theorem posts_post (body : Body) : Posts (post config body) (· = body) := .await (posts_postTo ..)

theorem posts_cancel (job : SubmittedJob) : Posts (cancel config job)
    (· = .cancel { queue := job.queue, jobSetId := job.jobSetId, jobId := some job.jobId }) := .await (posts_post ..)

theorem posts_cancelSet (jobSetId : String) (queue : Queue) : Posts (cancelSet config jobSetId queue)
    (· = .cancel { queue, jobSetId, jobId := none }) := .await (posts_post ..)

theorem posts_lookoutJobs (lookout : String) (request : LookoutGetJobsRequest) :
    Posts (lookoutJobs config lookout request) (· = .lookout request) :=
  have hresponse : Posts (do json (← await (postTo config lookout (.lookout request)))) (· = .lookout request) :=
    (posts_postTo config lookout (.lookout request)).await.bind fun reply => (Posts.ofExcept reply).await
  hresponse.await.bind fun _ => .pure _

theorem posted_postTo {base : String} {body : Body} {trace : Answers} {reply : Reply body}
    (h : Gives (postTo config base body) trace (.ok reply)) : body ∈ posted trace := by
  rcases gives_bind.mp h with ⟨x, hx, -⟩ | ⟨authorization, before, after, rfl, -, hrest⟩
  · cases hx
  · obtain ⟨a, rest, rfl, -⟩ := gives_asked.mp hrest
    rw [posted_append]
    exact List.mem_append_right _ (List.mem_cons_self ..)

theorem posted_post {body : Body} {trace : Answers} {reply : Reply body}
    (h : Gives (await (post config body)) trace (.ok reply)) : body ∈ posted trace := by
  obtain ⟨outer, rfl, houter⟩ := gives_await h
  obtain ⟨inner, rfl, hinner⟩ := gives_await houter
  rw [posted_append, posted_append]
  exact List.mem_append_left _ (List.mem_append_left _ (posted_postTo config hinner))

theorem posts_findQueue (id : SandboxId) :
    Posts (findQueue config id) (· = .lookout (findQueueRequest config id)) := by
  unfold findQueue
  split
  · exact .pure _
  · exact .bind (.await (posts_lookoutJobs ..)) fun _ => .pure _

end

/-! ## The queue of a sandbox -/

section
variable {R : Shared → Shared → Prop} {config : ArmadaConfig} {id : SandboxId} {owner : Option SandboxOwner}
variable {s s' : Shared} {trace : Answers} {r : Except JsError Queue}

/-- The queue that a lookup found, or the one that the owner decides. -/
def settled (config : ArmadaConfig) (owner : Option SandboxOwner) (found : Option String) : Queue :=
  match found with
  | some found => .own found
  | none => place config owner

theorem leads_remember {queue : Queue} :
    Leads R (do modify (fun s => s.remember id queue); return queue : M Queue) s trace s' r ↔
      trace = [] ∧ s' = s.remember id queue ∧ r = .ok queue := by
  rw [leads_bind]
  constructor
  · rintro (⟨x, rfl, h⟩ | ⟨a, before, after, s₁, rfl, hmodify, h⟩)
    · cases (leads_modify.mp h).2.2
    · obtain ⟨rfl, rfl, -⟩ := leads_modify.mp hmodify
      exact leads_pure.mp h
  · rintro ⟨rfl, rfl, rfl⟩
    exact .inr ⟨(), [], [], _, rfl, leads_modify.mpr ⟨rfl, rfl, rfl⟩, leads_pure.mpr ⟨rfl, rfl, rfl⟩⟩

variable (config id owner) in
/-- The end of a `resolve` whose lookup came to this: one that rejects leaves nothing remembered. -/
def Settles (s₂ : Shared) (outcome : Except JsError (Option String)) (after : Answers) (s' : Shared)
    (r : Except JsError Queue) : Prop :=
  match outcome with
  | .error cause => after = [⟨.turn, ()⟩] ∧ s' = s₂ ∧ r = .error (queueUnknownError id cause)
  | .ok found => after = [⟨.lookedUp id found, ()⟩] ∧ s' = s₂.remember id (settled config owner found) ∧
      r = .ok (settled config owner found)

/-- The queue that is known, or the default, or the one that is settled on. -/
theorem leads_resolve : Leads R (resolve config (lookup config) id owner) s trace s' r ↔
    (∃ known, s.remembered id = some known ∧ trace = [] ∧ s' = s ∧ r = .ok known) ∨
    s.remembered id = none ∧ config.mapped = false ∧ trace = [] ∧ s' = s ∧ r = .ok (.own config.queue) ∨
    s.remembered id = none ∧ config.mapped = true ∧ ∃ outcome before after s₁ s₂, trace = before ++ after ∧
      Leads R (await (findQueue config id)) s before s₁ outcome ∧ R s₁ s₂ ∧
      Settles config id owner s₂ outcome after s' r := by
  unfold resolve
  rw [leads_get]
  cases hknown : s.remembered id with
  | some known => simp [leads_pure]
  | none =>
    cases hmapped : config.mapped with
    | false => simp [leads_pure]
    | true =>
      simp only [lookup, Bool.true_eq_false, if_false, true_and, false_and, false_or, reduceCtorEq, exists_false]
      rw [leads_bind]
      constructor
      · rintro (⟨x, rfl, h⟩ | ⟨outcome, before, after, s₁, rfl, hfind, h⟩)
        · obtain ⟨r', hr, -⟩ := leads_attempt.mp h
          cases hr
        · obtain ⟨r', hr, hfind⟩ := leads_attempt.mp hfind
          obtain rfl := Except.ok.inj hr
          refine ⟨outcome, before, after, s₁, ?_⟩
          cases outcome with
          | error cause =>
            obtain ⟨a, s₂, rest, rfl, hR, hrest⟩ := leads_asked.mp h
            rcases leads_bind.mp hrest with ⟨x, rfl, hthrow⟩ | ⟨a, before', after', s₃, rfl, hthrow, -⟩
            · obtain ⟨rfl, rfl, hx⟩ := leads_throw.mp hthrow
              cases hx
              exact ⟨s', rfl, hfind, hR, rfl, rfl, rfl⟩
            · cases (leads_throw.mp hthrow).2.2
          | ok found =>
            obtain ⟨a, s₂, rest, rfl, hR, hrest⟩ := leads_asked.mp h
            refine ⟨s₂, rfl, hfind, hR, ?_⟩
            cases found with
            | some found =>
              obtain ⟨rfl, rfl, rfl⟩ := leads_remember.mp hrest
              exact ⟨rfl, rfl, rfl⟩
            | none =>
              obtain ⟨rfl, rfl, rfl⟩ := leads_remember.mp hrest
              exact ⟨rfl, rfl, rfl⟩
      · rintro ⟨outcome, before, after, s₁, s₂, rfl, hfind, hR, hend⟩
        refine .inr ⟨outcome, before, after, s₁, rfl, leads_attempt.mpr ⟨_, rfl, hfind⟩, ?_⟩
        cases outcome with
        | error cause =>
          obtain ⟨rfl, rfl, rfl⟩ := hend
          refine leads_asked.mpr ⟨(), s', [], rfl, hR, leads_bind.mpr (.inl ⟨_, rfl, ?_⟩)⟩
          exact leads_throw.mpr ⟨rfl, rfl, rfl⟩
        | ok found =>
          obtain ⟨rfl, rfl, rfl⟩ := hend
          refine leads_asked.mpr ⟨(), s₂, [], rfl, hR, ?_⟩
          cases found with
          | some found => exact leads_remember.mpr ⟨rfl, rfl, rfl⟩
          | none => exact leads_remember.mpr ⟨rfl, rfl, rfl⟩

end

end ComputeArmada.Adapter
