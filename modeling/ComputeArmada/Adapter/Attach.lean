import ComputeArmada.Adapter.Destroy

/-!
# Attaching to a sandbox

An instance of `connectExisting` finds its job by the server's word for it, and submits none.

* `Bare` : where an instance has found no job, reached no agent, and the process holds no placement;
* `FailsItsWay` : how each method fails that needs the agent;
* `Greatest` : of a report of the server, the greatest of the jobs that have not finished;
* `attach_only` : no call of such an instance submits; from `Bare`, told of no unfinished job, each method
  that needs an agent fails and asks none; and the job attached to is the greatest, or one that a call of the
  process submitted.
-/

namespace ComputeArmada.Adapter
open Async Runs

/-! ## Where there is nothing to attach to -/

/-- A method that needs the agent, with arguments for which it asks it something. -/
def NeedsAgent : Op → Prop
  | .ready | .exec _ _ | .execStream _ _ | .readFile _ | .listFiles _ _ | .gitCheckout _ _ | .startProcess _ _
  | .exposePort _ => True
  | .readFileBounded _ maxBytes timeoutMs => validBudget maxBytes timeoutMs ≠ none
  | .writeFiles files => files ≠ []
  | .setEnvVars _ _ | .isPortReady _ _ _ | .queue | .destroy => False

/-- How a method fails: reads answer `BACKEND_ERROR`, and so does `exec`, unless the environment it was to
set is refused; the others reject. -/
def FailsItsWay : Op → Except JsError Result → Prop
  | .exec _ _, r => (∃ stderr, r = .ok (.exec { stdout := "", stderr, code := some "BACKEND_ERROR" })) ∨
      ∃ x, r = .error x
  | .readFile _, r | .readFileBounded _ _ _, r => r = .ok (.file (.error "BACKEND_ERROR"))
  | .listFiles _ _, r => r = .ok (.files (.error "BACKEND_ERROR"))
  | .destroy, _ => True
  | _, r => ∃ x, r = .error x

/-- A request that submits nothing and reaches no agent; a cancel is one of `destroy`, of the whole set. -/
def Quiet (id : SandboxId) (op : Op) : Request → Prop
  | .post _ _ (.submit _) | .probe _ | .agent _ _ => False
  | .post _ _ (.cancel r) => op = .destroy ∧ r.jobSetId = id ∧ r.jobId = none
  | _ => True

/-- A reply that reports no unfinished job. -/
def NoJobReply : (body : Body) → Reply body → Prop
  | .status _, .ok response => liveJobs (response.jobStates.getD []) = []
  | _, _ => True

def NoJob : (q : Request) → Answer q → Prop
  | .post _ _ body, .ok (.ok reply) => NoJobReply body reply
  | _, _ => True

section
variable (crypto : Crypto) (config : ArmadaConfig) (made : Nat → Made) (n me : Nat) (op : Op)

/-- The instance has found no job and reached no agent, and the process holds no placement of the sandbox. -/
def Bare (s : Shared) : Prop :=
  (s.instances me).job = none ∧ (s.instances me).channel = none ∧ s.placements (made me).id = none

/-- Call `n` is `op` of instance `me`, begins in a bare state, and is told of no unfinished job. -/
def bareCall : Spec Shared Answer JsError Result Server Call where
  inv _ _ := True
  rely _ _ := True
  turn _ _ _ _ _ := True
  moves _ _ := True
  start c s _ := c.1 = n → c.2 = .sandbox me op ∧ Bare made me s
  issued c q _ _ := c.1 = n → Quiet (made me).id op q
  got _ _ _ _ _ := True
  guard c q a _ _ := c.1 = n → NoJob q a
  post c r _ _ := c.1 = n → FailsItsWay op r

variable {crypto config made n me op}

theorem bareCall_free : (bareCall made n me op).Free := ⟨fun _ _ => trivial, fun _ _ _ _ _ => trivial⟩

/-- What the call ensures. -/
abbrev Told (made : Nat → Made) (n me : Nat) (op : Op) {α : Type} (p : M α) (Φ : Except JsError α → Prop) : Prop :=
  Ensures (bareCall made n me op) (n, .sandbox me op) p Φ

theorem told_ask {α : Type} {q : Request} {f : Answer q → M α} {Φ : Except JsError α → Prop}
    (hq : Quiet (made me).id op q) (hf : ∀ a, NoJob q a → Told made n me op (f a) Φ) :
    Told made n me op (ask q >>= f) Φ :=
  ⟨(Ensures.ask bareCall_free (fun _ _ _ => hq) fun a ⟨_, _, _, hguard⟩ => hf a (hguard rfl) :
    Told made n me op (.ask q f) Φ).safe⟩

theorem told_await {α : Type} {p : M α} {Φ : Except JsError α → Prop} (hp : Told made n me op p Φ) :
    Told made n me op (await p) Φ := by
  refine Ensures.bind (Φ := fun r => ∃ r', r = .ok r' ∧ Φ r') (.attempt (hp.mono fun r hr => ⟨r, rfl, hr⟩)) ?_ ?_
  · rintro r ⟨r', hr, hΦ⟩
    obtain rfl := Except.ok.inj hr
    exact told_ask trivial fun _ _ => .ofExcept hΦ
  · rintro x ⟨r', hr, -⟩
    cases hr

/-- A program of which nothing is known but what it asks. -/
theorem told_bind {α β : Type} {p : M α} {f : α → M β} (hp : Told made n me op p fun _ => True)
    (hf : ∀ a, Told made n me op (f a) fun _ => True) : Told made n me op (p >>= f) fun _ => True :=
  hp.bind (fun a _ => hf a) fun _ _ => trivial

theorem told_authorizationHeader (auth : ArmadaAuth) :
    Told made n me op (authorizationHeader auth) fun _ => True := by
  cases auth with
  | anonymous => exact .pure trivial
  | basic username password => exact .pure trivial
  | bearer token => exact .pure trivial
  | bearerFile path =>
    refine told_ask trivial fun a _ => ?_
    cases a with
    | error cause => exact .throw trivial
    | ok text =>
      change Told made n me op (if _ then _ else _) _
      split
      · exact told_bind (.throw trivial) fun _ => .pure trivial
      · exact .pure trivial

theorem told_postTo (base : String) {body : Body}
    (hbody : ∀ authorization, Quiet (made me).id op (.post base authorization body)) :
    Told made n me op (postTo config base body) fun r => ∀ reply, r = .ok reply → NoJobReply body reply := by
  refine Ensures.bind (told_await (told_await (told_authorizationHeader _))) (fun authorization _ => ?_)
    fun _ _ _ h => nomatch h
  refine told_ask (hbody authorization) fun a ha => ?_
  match a with
  | .error cause => exact .throw fun _ h => nomatch h
  | .ok (.failed _ _ (.error cause)) => exact .throw fun _ h => nomatch h
  | .ok (.failed _ _ (.ok text)) => exact .throw fun _ h => nomatch h
  | .ok (.ok reply) => exact .pure fun reply' h => Except.ok.inj h ▸ ha

theorem told_post {body : Body} (hbody : ∀ base authorization, Quiet (made me).id op (.post base authorization body)) :
    Told made n me op (post config body) fun r => ∀ reply, r = .ok reply → NoJobReply body reply :=
  told_await (told_postTo _ (hbody _))

theorem told_findQueue (id : SandboxId) : Told made n me op (findQueue config id) fun _ => True := by
  unfold findQueue
  split
  · exact .pure trivial
  · rename_i lookout _
    have hpost : Told made n me op (postTo config lookout (.lookout (findQueueRequest config id))) fun r =>
        ∀ reply, r = .ok reply → NoJobReply (.lookout (findQueueRequest config id)) reply :=
      told_postTo lookout fun _ => trivial
    refine told_bind (told_await ?_) fun jobs => .pure trivial
    exact told_bind (told_await (told_bind (told_await (hpost.mono fun _ _ => trivial))
      fun _ => told_await (.ofExcept trivial)))
      fun _ => .pure trivial

theorem told_resolve (id : SandboxId) (owner : Option SandboxOwner) :
    Told made n me op (resolve config (lookup config) id owner) fun _ => True := by
  refine Ensures.get fun s => ?_
  split
  · exact .pure trivial
  split
  · exact .pure trivial
  simp only [lookup]
  refine told_bind (.attempt ((told_await (told_findQueue id)).mono fun _ _ => trivial)) fun r => ?_
  cases r with
  | error cause =>
    exact told_ask trivial fun _ _ => told_bind (.throw trivial) fun _ => told_bind (.modify trivial)
      fun _ => .pure trivial
  | ok found =>
    cases found with
    | some queue => exact told_ask trivial fun _ _ => told_bind (.modify trivial) fun _ => .pure trivial
    | none => exact told_ask trivial fun _ _ => told_bind (.modify trivial) fun _ => .pure trivial

theorem told_self {α : Type} {me' : Nat} {f : Instance → M α} {Φ : Except JsError α → Prop}
    (hf : ∀ i, Told made n me op (f i) Φ) : Told made n me op (self me' >>= f) Φ :=
  ⟨fun s₀ s e => (hf (s.instances me')).safe s₀ s e⟩

theorem told_queueOf (made' : Made) : Told made n me op (queueOf config me made') fun _ => True := by
  refine told_self fun i => ?_
  split
  · exact .pure trivial
  · exact told_await (told_resolve _ _)

theorem told_findJob (id : SandboxId) (queue : Queue) :
    Told made n me op (findJob config id queue) fun r => ∀ job, r = .ok job → job = none := by
  refine Ensures.bind (Φ := fun r => ∀ response, r = .ok response →
    liveJobs (response.jobStates.getD []) = []) (told_await ?_) (fun response hresponse => ?_) fun _ _ _ h => nomatch h
  · refine Ensures.bind (told_post fun _ _ => trivial) (fun reply hreply => told_await (.ofExcept ?_))
      fun _ _ _ h => nomatch h
    intro response hresponse
    have hnone := hreply reply rfl
    rw [hresponse] at hnone
    exact hnone
  · refine .pure fun job hjob => ?_
    rw [← Except.ok.inj hjob, hresponse response rfl]
    rfl

theorem told_existingJob (made' : Made) :
    Told made n me op (existingJob config me made') fun r => ∃ x, r = .error x := by
  refine Ensures.bind (told_await (told_queueOf made')) (fun queue _ => ?_) fun x _ => ⟨x, rfl⟩
  refine Ensures.bind (told_await (told_findJob _ queue)) (fun job hjob => ?_) fun x _ => ⟨x, rfl⟩
  obtain rfl := hjob job rfl
  exact .throw ⟨_, rfl⟩

/-! ## From a bare state -/

/-- From this state the program fails. -/
structure FailsAt (made : Nat → Made) (n me : Nat) (op : Op) {α : Type} (p : M α) (s : Shared) : Prop where
  safe : ∀ s₀ e, Safe (bareCall made n me op) (n, .sandbox me op) p (fun r _ _ _ => ∃ x, r = .error x) s₀ s e

section
variable {α β : Type} {s : Shared}

theorem FailsAt.of_told {p : M α} (h : Told made n me op p fun r => ∃ x, r = .error x) :
    FailsAt made n me op p s := ⟨fun s₀ e => h.safe s₀ s e⟩

theorem FailsAt.bind {p : M α} {f : α → M β} (h : FailsAt made n me op p s) : FailsAt made n me op (p >>= f) s := by
  refine ⟨fun s₀ e => Safe.bind_iff.mpr ((h.safe s₀ e).mono fun r _ _ _ hr => ?_)⟩
  obtain ⟨x, rfl⟩ := hr
  exact ⟨x, rfl⟩

theorem safe_self {f : Instance → M α} {Φ : Except JsError α → Shared → Shared → Server → Prop} {s₀ : Shared}
    {e : Server} :
    Safe (bareCall made n me op) (n, .sandbox me op) (self me >>= f) Φ s₀ s e ↔
      Safe (bareCall made n me op) (n, .sandbox me op) (f (s.instances me)) Φ s₀ s e := Iff.rfl

theorem FailsAt.self {f : Instance → M α} (h : FailsAt made n me op (f (s.instances me)) s) :
    FailsAt made n me op (self me >>= f) s := ⟨fun s₀ e => safe_self.mpr (h.safe s₀ e)⟩

theorem FailsAt.get {f : Shared → M α} (h : FailsAt made n me op (f s) s) :
    FailsAt made n me op (MonadState.get >>= f) s := ⟨h.safe⟩

/-- What can be made of a failure can be made of this one. -/
theorem FailsAt.attempt {p : M α} {f : Except JsError α → M β} {Φ : Except JsError β → Prop}
    (h : FailsAt made n me op p s) (hf : ∀ x, Told made n me op (f (.error x)) Φ) (s₀ : Shared) (e : Server) :
    Safe (bareCall made n me op) (n, .sandbox me op) (p.attempt >>= f) (fun r _ _ _ => Φ r) s₀ s e := by
  refine Safe.bind_iff.mpr (Safe.attempt_iff.mpr ((h.safe s₀ e).mono fun r s₀ s e hr => ?_))
  obtain ⟨x, rfl⟩ := hr
  exact (hf x).safe s₀ s e

theorem FailsAt.await {p : M α} (h : FailsAt made n me op p s) : FailsAt made n me op (await p) s :=
  ⟨h.attempt fun x => told_ask trivial fun _ _ => .ofExcept ⟨x, rfl⟩⟩

theorem FailsAt.ofExcept {r : Except JsError α} {f : α → M β} (h : ∀ a, r = .ok a → FailsAt made n me op (f a) s) :
    FailsAt made n me op (Prog.ofExcept r >>= f) s := by
  cases r with
  | ok a => exact ⟨(h a rfl).safe⟩
  | error x => exact ⟨fun _ _ => ⟨x, rfl⟩⟩

end

section
variable {s : Shared} (hattach : (made me).attachOnly = true) (hbare : Bare made me s)
include hattach hbare

theorem failsAt_ready : FailsAt made n me op (ready crypto config me (made me)) s := by
  obtain ⟨hjob, hchannel, hplacement⟩ := hbare
  refine .self ?_
  rw [hchannel]
  refine .get ?_
  rw [hplacement]
  refine .bind (.self ?_)
  rw [hjob, hattach]
  exact .bind (.await (.of_told (told_existingJob _)))

theorem failsAt_openAgent : FailsAt made n me op (openAgent crypto config me (made me)) s := by
  refine .self ?_
  rw [hbare.2.1]
  exact .bind (.await (failsAt_ready hattach hbare))

theorem safe_exec (cmd : String) (timeout : Option Nat) (s₀ : Shared) (e : Server) :
    Safe (bareCall made n me op) (n, .sandbox me op) (exec crypto config me (made me) cmd timeout)
      (fun r _ _ _ => (∃ stderr, r = .ok { stdout := "", stderr, code := some "BACKEND_ERROR" }) ∨
        ∃ x, r = .error x) s₀ s e := by
  change Safe _ _ (Prog.ofExcept (withEnvPrefix cmd _ _) >>= _) _ s₀ s e
  cases withEnvPrefix cmd (s.instances me).env (s.instances me).envDefaults with
  | error x => exact .inr ⟨x, rfl⟩
  | ok command =>
    refine FailsAt.attempt (.bind (.await (failsAt_openAgent hattach hbare))) (fun x => ?_) s₀ e
    exact .pure (.inl ⟨_, rfl⟩)

omit hattach hbare in
theorem told_readFailed (made' : Made) (path code why : String) :
    Told made n me op (readFailed crypto config made' path code why) fun r => r = .ok (.error code) :=
  Ensures.bind (Φ := fun r => r = .ok ()) (.modify rfl) (fun _ _ => .pure rfl) fun _ h => nomatch h

theorem safe_readThrough (path : String) (read : ControlChannel → M (Except JsError ReadFileOutcome))
    (encode : List UInt8 → Except JsError (String × Encoding)) (s₀ : Shared) (e : Server) :
    Safe (bareCall made n me op) (n, .sandbox me op) (readThrough crypto config me (made me) path read encode)
      (fun r _ _ _ => r = .ok (.error "BACKEND_ERROR")) s₀ s e :=
  FailsAt.attempt (.bind (.await (failsAt_openAgent hattach hbare))) (fun _ => told_readFailed _ _ _ _) s₀ e

theorem safe_listFiles (path : String) (options : ListFilesOptions) (s₀ : Shared) (e : Server) :
    Safe (bareCall made n me op) (n, .sandbox me op) (listFiles crypto config me (made me) path options)
      (fun r _ _ _ => r = .ok (.error "BACKEND_ERROR")) s₀ s e := by
  unfold listFiles
  refine FailsAt.attempt (.bind (.await (failsAt_openAgent hattach hbare))) (fun x => ?_) s₀ e
  exact .pure rfl

theorem failsAt_gitCheckout (repo : String) (options : Option GitCheckoutOptions) :
    FailsAt made n me op (gitCheckout crypto config me (made me) repo options) s := by
  refine ⟨fun s₀ e => Safe.bind_iff.mpr (Safe.bind_iff.mpr (Safe.attempt_iff.mpr ?_))⟩
  refine (safe_exec hattach hbare (gitCloneCommand repo options) none s₀ e).mono fun r s₀ s e hr => ?_
  have hrest : Told made n me op (ask .turn >>= fun _ => Prog.ofExcept r) fun r' => r' = r :=
    told_ask trivial fun _ _ => .ofExcept rfl
  refine (hrest.safe s₀ s e).mono fun r' s₀ s e hr' => ?_
  subst hr'
  rcases hr with ⟨stderr, rfl⟩ | ⟨x, rfl⟩
  · exact ⟨_, rfl⟩
  · exact ⟨x, rfl⟩

theorem safe_opBody (hop : NeedsAgent op) (s₀ : Shared) (e : Server) :
    Safe (bareCall made n me op) (n, .sandbox me op) (opBody crypto config me (made me) op)
      (fun r _ _ _ => FailsItsWay op r) s₀ s e := by
  have fails : ∀ {α : Type} {p : M α} {f : α → M Result}, FailsAt made n me op p s →
      Safe (bareCall made n me op) (n, .sandbox me op) (p >>= f) (fun r _ _ _ => ∃ x, r = .error x) s₀ s e :=
    fun hp => hp.bind.safe s₀ e
  cases op with
  | ready => exact fails (failsAt_ready hattach hbare)
  | exec cmd timeout =>
    refine Safe.bind_iff.mpr ((safe_exec hattach hbare cmd timeout s₀ e).mono fun r _ _ _ hr => ?_)
    rcases hr with ⟨stderr, rfl⟩ | ⟨x, rfl⟩
    · exact .inl ⟨stderr, rfl⟩
    · exact .inr ⟨x, rfl⟩
  | execStream cmd timeout => exact fails (.bind (.await (failsAt_openAgent hattach hbare)))
  | readFile path =>
    refine Safe.bind_iff.mpr ((safe_readThrough hattach hbare path _ _ s₀ e).mono fun r _ _ _ hr => ?_)
    subst hr
    rfl
  | readFileBounded path maxBytes timeoutMs =>
    refine Safe.bind_iff.mpr ?_
    unfold readFileBounded
    cases hbudget : validBudget maxBytes timeoutMs with
    | none => exact absurd hbudget hop
    | some budget =>
      refine (safe_readThrough hattach hbare path _ _ s₀ e).mono fun r _ _ _ hr => ?_
      subst hr
      rfl
  | listFiles path options =>
    refine Safe.bind_iff.mpr ((safe_listFiles hattach hbare path options s₀ e).mono fun r _ _ _ hr => ?_)
    subst hr
    rfl
  | writeFiles files =>
    refine fails ?_
    unfold writeFiles
    rw [if_neg hop]
    exact .bind (.await (failsAt_openAgent hattach hbare))
  | gitCheckout repo options => exact fails (failsAt_gitCheckout hattach hbare repo options)
  | startProcess cmd options => exact fails (.bind (.await (failsAt_openAgent hattach hbare)))
  | exposePort port => exact fails (.bind (.await (failsAt_ready hattach hbare)))
  | setEnvVars vars onlyIfUnset => exact hop.elim
  | isPortReady port mode path => exact hop.elim
  | queue => exact hop.elim
  | destroy => exact hop.elim

omit hattach in
theorem safe_destroy (hop : op = .destroy) (s₀ : Shared) (e : Server) :
    Safe (bareCall made n me op) (n, .sandbox me op) (opBody crypto config me (made me) .destroy)
      (fun _ _ _ _ => True) s₀ s e := by
  have hcancel : ∀ queue, Told made n me op (await (cancelSet config (made me).id queue)) fun _ => True := by
    intro queue
    have hpost : Told made n me op (post config (.cancel { queue, jobSetId := (made me).id, jobId := none }))
        fun r => ∀ reply, r = .ok reply → NoJobReply _ reply := told_post fun _ _ => ⟨hop, rfl, rfl⟩
    exact told_await (told_await (hpost.mono fun _ _ => trivial))
  refine Safe.bind_iff.mpr (Safe.mono (Φ := fun _ _ _ _ => True) (fun r _ _ _ _ => by cases r <;> trivial) ?_)
  refine safe_self.mpr ?_
  rw [hbare.1]
  refine Ensures.safe (Φ := fun _ => True) ?_ s₀ s e
  exact told_bind (told_await (told_queueOf _)) fun queue => told_bind (hcancel queue) fun _ =>
    told_bind (.modify trivial) fun _ => .modify trivial

end

theorem bareCall_sound (hattach : (made me).attachOnly = true) (hop : NeedsAgent op ∨ op = .destroy) :
    Sound (process crypto config made) (bareCall made n me op) where
  law := by
    refine ⟨fun _ => trivial, fun _ _ _ _ _ => trivial, fun _ _ _ => trivial, fun _ _ _ _ _ _ _ => trivial,
      fun _ _ _ _ _ _ => trivial, fun _ _ _ _ _ _ _ h => h, fun _ _ _ _ _ _ _ _ h => h,
      fun _ _ _ _ _ _ _ h => h⟩
  body := by
    rintro ⟨m, l⟩ s e - hstart
    by_cases hm : m = n
    · subst hm
      obtain ⟨rfl, hbare⟩ := hstart rfl
      rcases hop with hop | rfl
      · exact (safe_opBody hattach hbare hop s e).mono fun r _ _ _ hr => ⟨trivial, trivial, fun _ => hr⟩
      · have hdestroy : Safe (bareCall made m me .destroy) (m, .sandbox me .destroy)
            (opBody crypto config me (made me) .destroy) (fun _ _ _ _ => True) s s e := safe_destroy hbare rfl s e
        exact hdestroy.mono fun r _ _ _ _ => ⟨trivial, trivial, fun _ => trivial⟩
    · exact (Ensures.of_free bareCall_free (fun q s e h => absurd h hm)
        (Φ := fun r => ∀ s₀ s e, Ended (bareCall made n me op) (m, l) r s₀ s e)
        fun r s₀ s e => ⟨trivial, trivial, fun h => absurd h hm⟩).safe s s e |>.mono fun r s₀ s e h => h s₀ s e
  respond _ _ _ _ _ _ _ _ _ _ _ := ⟨trivial, trivial, trivial⟩
  drift _ _ _ _ _ _ _ := ⟨trivial, trivial⟩

/-! ## What is attached to -/

/-- Of the jobs that are reported, `jobId` is the greatest that has not finished. -/
def Greatest (jobStates : List (String × Int)) (jobId : String) : Prop :=
  (∃ state, (jobId, state) ∈ jobStates ∧ state ∉ finishedJobStates) ∧
  ∀ p ∈ jobStates, p.2 ∉ finishedJobStates → Js.le p.1 jobId = true

theorem greatest_of_liveJobs {jobStates : List (String × Int)} {jobId : String}
    (h : (liveJobs jobStates).getLast? = some jobId) : Greatest jobStates jobId := by
  obtain ⟨smaller, hsorted⟩ := List.getLast?_eq_some_iff.mp h
  have hmem : ∀ x, x ∈ liveJobs jobStates ↔ ∃ p ∈ jobStates, p.2 ∉ finishedJobStates ∧ p.1 = x := by
    intro x
    simp [liveJobs, Js.mem_toSorted, and_assoc]
  have hpair : (liveJobs jobStates).Pairwise (fun s t => Js.le s t = true) :=
    Js.pairwise_toSorted _
  rw [hsorted] at hpair hmem
  constructor
  · obtain ⟨p, hp, hlive, rfl⟩ := (hmem jobId).mp (by simp)
    exact ⟨p.2, hp, hlive⟩
  · intro p hp hlive
    rcases List.mem_append.mp ((hmem p.1).mpr ⟨p, hp, hlive, rfl⟩) with hsmaller | hlast
    · exact (List.pairwise_append.mp hpair).2.2 _ hsmaller _ (List.mem_singleton_self _)
    · rw [List.mem_singleton.mp hlast]
      exact Js.le_refl _

variable (made) in
/-- Where a job of an instance comes from: the greatest unfinished one of a report, or a submit of an
instance that `create` made. -/
def Known (e : Server) (j : SubmittedJob) : Prop :=
  (∃ call response, (⟨call, .status { queue := j.queue, jobset := j.jobSetId, externalJobUri := j.jobSetId },
      .ok (.ok response)⟩ : Handled) ∈ e.handled ∧ Greatest (response.jobStates.getD []) j.jobId) ∨
  ∃ call r response, (⟨call, .submit r, .ok (.ok response)⟩ : Handled) ∈ e.handled ∧ r.queue = j.queue ∧
    r.jobSetId = j.jobSetId ∧ (response.jobResponseItems.bind (·.head?)).bind (·.jobId) = some j.jobId ∧
    ∃ me, (made me).id = j.jobSetId ∧ (made me).attachOnly = false

variable (crypto config made) in
def knownJobs (id : SandboxId) : Facts :=
  { Facts.anything crypto config made id with job := fun j v => Known made v.2 j }

theorem Known.later {e e' : Server} {j : SubmittedJob} (hl : e.Later e') (h : Known made e j) :
    Known made e' j := by
  rcases h with ⟨call, response, hmem, h⟩ | ⟨call, r, response, hmem, h⟩
  · exact .inl ⟨call, response, hl.handled _ hmem, h⟩
  · exact .inr ⟨call, r, response, hl.handled _ hmem, h⟩

theorem knownJobs_lawful {id : SandboxId} : (knownJobs crypto config made id).Lawful where
  refl _ := trivial
  trans _ _ _ _ _ := trivial
  queue_later _ _ _ _ _ _ := trivial
  job_later _ _ _ hl _ h := h.later hl
  url_later _ _ _ _ _ _ := trivial
  vacant_later _ _ _ _ _ := trivial
  job_queue _ _ _ _ := trivial
  known _ _ _ := trivial
  unmapped _ _ _ := trivial
  unasked _ _ _ _ := trivial
  found _ _ _ _ := ⟨trivial, trivial⟩
  placed _ _ _ _ _ _ := ⟨trivial, trivial, trivial⟩
  forgotten _ _ _ := ⟨trivial, trivial⟩
  reply := by
    intro c body pick reply e v _ hissued _
    match body, reply with
    | .submit r, .ok response =>
      intro hid jobId hjobId
      obtain ⟨⟨me, op, -, hattach, podSpec, -, hr⟩, -⟩ := hissued
      refine .inr ⟨c.1, r, response, List.mem_cons_self .., rfl, hid, hjobId, me, ?_, hattach⟩
      rw [hr] at hid
      exact hid
    | .submit r, .error cause => trivial
    | .status r, .ok response =>
      intro hid jobId hjobId
      obtain ⟨⟨me, op, -, -, hset, huri⟩, -⟩ := hissued
      obtain ⟨queue, jobset, externalJobUri⟩ := r
      simp only at hid hset huri
      subst hid huri
      exact .inl ⟨c.1, response, by rw [← hset]; exact List.mem_cons_self .., greatest_of_liveJobs hjobId⟩
    | .status r, .error cause => trivial
    | .watch r, some stream => exact fun _ _ _ _ _ _ _ _ _ _ => trivial
    | .watch r, none => trivial
    | .cancel r, _ => trivial
    | .lookout r, .error cause => trivial
    | .lookout r, .ok response =>
      refine ⟨fun _ => ?_, fun _ _ _ _ _ _ _ => trivial⟩
      split <;> trivial
  respond _ _ _ _ _ _ _ _ _ _ := ⟨trivial, trivial⟩
  drift _ _ _ _ _ _ := ⟨trivial, trivial⟩

/-! ## Every run -/

variable (made n me op) in
/-- Call `n` is `op` of instance `me`, begun in a bare state, and goes on from no answer that reports an
unfinished job. -/
def FromBare (w : World) : Step → Prop
  | .begin m l => m = n → l = .sandbox me op ∧ Bare made me w.shared
  | .resume m => m = n → match w.calls m with
    | some (_, .answered q a _) => NoJob q a
    | _ => True
  | _ => True

instance : (body : Body) → (reply : Reply body) → Decidable (NoJobReply body reply)
  | .status _, .ok response => inferInstanceAs (Decidable (liveJobs (response.jobStates.getD []) = []))
  | .status _, .error _ | .submit _, _ | .watch _, _ | .cancel _, _ | .lookout _, _ => .isTrue trivial

instance : (q : Request) → (a : Answer q) → Decidable (NoJob q a)
  | .post _ _ body, .ok (.ok reply) => inferInstanceAs (Decidable (NoJobReply body reply))
  | .post _ _ _, .ok (.failed _ _ _) | .post _ _ _, .error _ => .isTrue trivial
  | .turn, _ | .lookedUp _ _, _ | .tokenFile _, _ | .probe _, _ | .agent _ _, _ => .isTrue trivial

instance (w : World) (a : Step) : Decidable (FromBare made n me op w a) := by
  unfold FromBare
  obtain ⟨m, l⟩ | _ | m | _ := a
  · unfold Bare
    infer_instance
  · infer_instance
  · refine @instDecidableForall _ _ _ ?_
    obtain _ | ⟨l, _ | ⟨q, a, k⟩ | _⟩ := w.calls m <;> infer_instance
  · infer_instance

theorem bareCall_allowed {w : World} {a : Step} (h : FromBare made n me op w a) :
    Allowed (process crypto config made) (bareCall made n me op) w a := by
  refine ⟨?_, ?_, fun _ _ => trivial⟩
  · rintro m l rfl
    exact h
  · rintro m l q x k rfl hcall hm
    have hno := h hm
    rw [hcall] at hno
    exact hno

end

/-- **Attaching never submits and never stands in for a missing sandbox.** -/
theorem attach_only (crypto : Crypto) (config : ArmadaConfig) (made : Nat → Made) (e : Server)
    (hnew : e.handled = []) :
    (∀ w, Run (Fires (process crypto config made).step) Any (World.init e) w →
      (∀ n me op base authorization r,
        ((n, .sandbox me op), Request.post base authorization (.submit r)) ∈ w.log → (made me).attachOnly = false) ∧
      ∀ me j, (made me).attachOnly = true → (w.shared.instances me).job = some j →
        j.jobSetId = (made me).id ∧ Known made w.env j) ∧
    ∀ n me op, (made me).attachOnly = true → NeedsAgent op ∨ op = .destroy →
      ∀ w, Run (Fires (process crypto config made).step) (FromBare made n me op) (World.init e) w →
        (∀ l q, ((n, l), q) ∈ w.log → Quiet (made me).id op q) ∧
        ∀ l r, w.calls n = some (l, .settled r) → FailsItsWay op r ∧
          (op = .destroy → (∃ x, r = .ok x) → ∃ queue x,
            (⟨n, .cancel { queue, jobSetId := (made me).id, jobId := none }, .ok x⟩ : Handled) ∈ w.env.handled) := by
  constructor
  · intro w h
    have hw := fun id => (knownJobs_lawful : (knownJobs crypto config made id).Lawful).sound.holds
      (fun _ _ _ => ⟨fun _ _ _ _ => trivial, fun _ _ _ _ _ _ _ _ _ _ _ => trivial,
        fun _ _ => trivial⟩) (Facts.holds_init (e := e) trivial) h
    constructor
    · intro n me op base authorization r hmem
      obtain ⟨⟨me', op', hc, hattach, -⟩, -⟩ := (hw (made me).id).log _ hmem
      cases hc
      exact hattach
    · intro me j _ hj
      have hfits := (hw (made me).id).inv.job me j hj
      exact ⟨hfits.jobSet, hfits.job rfl⟩
  · intro n me op hattach hop w h
    have hw := (bareCall_sound hattach hop : Sound (process crypto config made) (bareCall made n me op)).holds
      (fun _ _ => bareCall_allowed) (holds_start trivial) h
    have hquiet : ∀ l q, ((n, l), q) ∈ w.log → Quiet (made me).id op q := fun l q hmem => hw.log _ hmem rfl
    refine ⟨hquiet, fun l r hn => ⟨hw.calls n l _ hn rfl, ?_⟩⟩
    rintro rfl ⟨x, rfl⟩
    have hlabel : ∀ l phase, w.calls n = some (l, phase) → l = .sandbox me .destroy := by
      refine h.inv (fun w => ∀ l phase, w.calls n = some (l, phase) → l = .sandbox me .destroy) ?_
        fun _ _ hn => nomatch hn
      intro w a w' ih hok hstep l phase hn
      rcases System.label hstep hn with rfl | ⟨phase', hold⟩
      · exact (hok rfl).1
      · exact ih l phase' hold
    obtain rfl := hlabel l _ hn
    have hany := (Facts.anything_lawful : (Facts.anything crypto config made (made me).id).Lawful).sound.holds
      (fun w a _ => Facts.anything_allowed w a) (Facts.holds_init (e := e) trivial) h
    obtain ⟨⟨call, _, reply⟩, hmem, rfl, queue, jobId, rfl, y, hreply⟩ :=
      hany.calls n _ _ hn ⟨me, rfl, rfl⟩ ⟨x, rfl⟩
    obtain ⟨l', base, authorization, hlogged⟩ := (Logged.run hnew h).handled _ hmem
    obtain ⟨-, -, hjobId⟩ := hquiet l' _ hlogged
    simp only at hjobId
    subst hjobId
    cases reply with
    | failed status statusText text => cases hreply
    | ok reply => exact ⟨queue, reply, hmem⟩

/-- A command for a sandbox that is gone. -/
theorem attach_only_gone :
    ∃ w : World, resolved w 0 (.sandbox 0 (.exec "ls" none)) = true ∧
      (∀ l q, ((0, l), q) ∈ w.log → Quiet "s" (.exec "ls" none) q) ∧
      ∀ l r, w.calls 0 = some (l, .settled r) → FailsItsWay (.exec "ls" none) r := by
  obtain ⟨w, hrun, hresolved⟩ := Run.exists_of_exec (process digests plainConfig attached).step
    (FromBare attached 0 0 (.exec "ls" none)) (fun w => resolved w 0 (.sandbox 0 (.exec "ls" none)) = true)
    (World.init .empty)
    (.begin 0 (.sandbox 0 (.exec "ls" none)) :: turns 0 4 ++ answered 0 (.serves (.status [])) ++ turns 0 7)
    (by decide +kernel)
  obtain ⟨hquiet, hfails⟩ := (attach_only digests plainConfig attached .empty rfl).2 0 0 (.exec "ls" none) rfl
    (.inl trivial) w hrun
  exact ⟨w, hresolved, hquiet, fun l r hn => (hfails l r hn).1⟩

end ComputeArmada.Adapter
