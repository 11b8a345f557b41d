import ComputeArmada.Adapter.Server

/-!
# Keeping track of one sandbox

Whatever calls one process makes, of whatever instances, what they do to one sandbox goes through a few
places: the directory's entry for it, the requests that name its job set, the jobs and the channels that
its instances and its placement hold.

* `Facts` : what is taken to be known of a sandbox's queue, its jobs, its addresses, and of the directory's
  entry and the server; `Facts.Lawful` : that the directory and the server respect it;
* `Facts.spec` : the specification this makes of the adapter's calls;
* `Facts.Lawful.sound` : every call of every instance keeps to it.
-/

namespace ComputeArmada.Adapter
open Async Runs

/-- The directory's entry for a sandbox, and the server. -/
abbrev View := Option Queue × Server

structure Facts where
  crypto : Crypto
  config : ArmadaConfig
  made : Nat → Made
  id : SandboxId
  own : View → Prop
  /-- What any step leaves, besides a later server. -/
  rely : View → View → Prop
  /-- A queue the sandbox may be addressed in. -/
  queue : Queue → View → Prop
  /-- A job that may be taken for the sandbox's. -/
  job : SubmittedJob → View → Prop
  /-- An address that may be taken for its agent's. -/
  url : String → View → Prop
  /-- Lookout has said that the job set holds no job. -/
  vacant : View → Prop
  /-- A queue the owner map may place the sandbox in. -/
  mayPlace : Queue → View → Prop
  /-- Whether the sandbox may be destroyed. -/
  destroys : Prop
  moves : Server → Server → Prop

namespace Facts
variable (F : Facts)

def view (s : Shared) (e : Server) : View := (s.remembered F.id, e)

def token (id : SandboxId) : String := agentToken F.crypto F.config.agentTokenSecret id

/-! ## What the process holds -/

structure JobFits (id : SandboxId) (j : SubmittedJob) (v : View) : Prop where
  jobSet : j.jobSetId = id
  job : id = F.id → F.job j v

structure ChannelFits (id : SandboxId) (channel : ControlChannel) (v : View) : Prop where
  token : channel.token = F.token id
  url : id = F.id → F.url channel.url v

structure Inv (s : Shared) (e : Server) : Prop where
  own : F.own (F.view s e)
  job : ∀ me j, (s.instances me).job = some j → F.JobFits (F.made me).id j (F.view s e)
  channel : ∀ me channel, (s.instances me).channel = some channel →
    F.ChannelFits (F.made me).id channel (F.view s e)
  placement : ∀ id p, s.placements id = some p →
    F.JobFits id p.job (F.view s e) ∧ F.ChannelFits id p.channel (F.view s e)

/-! ## Requests and answers -/

/-- A request of a call: an instance attached never submits, only `destroy` cancels, and what names the
sandbox's job set names a queue that is known to be its, and no job but one that is. -/
def IssuedBody (c : Caller Call) (v : View) : Body → Prop
  | .submit r => (∃ me op, c.2 = .sandbox me op ∧ (F.made me).attachOnly = false ∧
      ∃ podSpec, podSpec.tokenSha256 = F.crypto.sha256 (F.token (F.made me).id) ∧
        r = submitRequest F.config (F.made me).id podSpec r.queue) ∧ (r.jobSetId = F.id → F.queue r.queue v)
  | .cancel r => (∃ me, c.2 = .sandbox me .destroy ∧ r.jobSetId = (F.made me).id) ∧
      (r.jobSetId = F.id → F.queue r.queue v ∧ ∀ jobId, r.jobId = some jobId →
        F.job { jobId, jobSetId := F.id, queue := r.queue } v)
  | .status r => (∃ me op, c.2 = .sandbox me op ∧ (F.made me).attachOnly = true ∧
      r.jobset = (F.made me).id ∧ r.externalJobUri = (F.made me).id) ∧ (r.jobset = F.id → F.queue r.queue v)
  | .watch r => r.id = F.id → F.queue r.queue v
  | .lookout r => (∃ id, r = findQueueRequest F.config id) ∨ ∃ skip, r = listActiveRequest F.config skip

def Issued (c : Caller Call) (v : View) : Request → Prop
  | .turn | .tokenFile _ => True
  | .lookedUp id (some queue) => id = F.id → F.queue (.own queue) v
  | .lookedUp id none => (∃ me op, c.2 = .sandbox me op ∧ id = (F.made me).id) ∧ (id = F.id → F.vacant v)
  | .post _ _ body => F.IssuedBody c v body
  | .probe url => ∃ me op, c.2 = .sandbox me op ∧ ((F.made me).id = F.id → F.url url v)
  | .agent endpoint _ => ∃ me op, c.2 = .sandbox me op ∧ F.ChannelFits (F.made me).id endpoint v

def GotReply (v : View) : (body : Body) → Reply body → Prop
  | .submit r, .ok response => r.jobSetId = F.id → ∀ jobId,
      (response.jobResponseItems.bind (·.head?)).bind (·.jobId) = some jobId →
        F.job { jobId, jobSetId := F.id, queue := r.queue } v
  | .status r, .ok response => r.jobset = F.id → ∀ jobId,
      (liveJobs (response.jobStates.getD [])).getLast? = some jobId →
        F.job { jobId, jobSetId := F.id, queue := r.queue } v
  | .watch r, some stream => r.id = F.id → ∀ m info addresses address,
      .result (some m) ∈ stream.lines → m.ingressInfo = some info → info.ingressAddresses = some addresses →
        addresses.own (toString F.config.agentPort) = some address → address ≠ "" →
          F.url (urlOf F.config address) v
  | .lookout r, .ok response =>
      (r = findQueueRequest F.config F.id →
        match nonempty ((response.jobs.getD []).head?.bind (·.queue)) with
        | some queue => F.queue (.own queue) v
        | none => F.vacant v) ∧
      ∀ skip, r = listActiveRequest F.config skip → ∀ job ∈ response.jobs.getD [],
        nonempty job.jobSet = some F.id → ∀ queue, nonempty job.queue = some queue → F.queue (.own queue) v
  | _, _ => True

def Got (c : Caller Call) (v : View) : (q : Request) → Answer q → Prop
  | .post _ _ body, .ok reply =>
    (⟨c.1, body, reply⟩ : Handled) ∈ v.2.handled ∧ ∀ x, reply = .ok x → F.GotReply v body x
  | _, _ => True

/-! ## The specification -/

/-- The server has handled a request of call `n`. -/
def Heard (n : Nat) (e : Server) : Prop := ∃ h ∈ e.handled, h.call = n

theorem Heard.later {n : Nat} {e e' : Server} (h : Heard n e) (hl : e.Later e') : Heard n e' :=
  h.imp fun x hx => ⟨hl.handled x hx.1, hx.2⟩

/-- A call that may leave a placement of the sandbox where there was none: any but `destroy`, and `ready`
only by the turn in which it succeeds, and not without having been to the server. -/
def Stores (c : Caller Call) (e : Server) (o : Option (Except JsError Result)) : Prop :=
  ∃ me op, c.2 = .sandbox me op ∧ (F.made me).id = F.id ∧ op ≠ .destroy ∧
    (op = .ready → (∃ r, o = some (.ok r)) ∧ Heard c.1 e)

/-- A `destroy` of the sandbox. -/
def Destroys (c : Caller Call) : Prop := ∃ me, c.2 = .sandbox me .destroy ∧ (F.made me).id = F.id

structure Turn (c : Caller Call) (o : Option (Except JsError Result)) (e : Server) (s s' : Shared) : Prop where
  rely : F.rely (F.view s e) (F.view s' e)
  quiet : ¬ F.Stores c e o → s.placements F.id = none → s'.placements F.id = none
  destroyed : F.Destroys c → (∃ r, o = some (.ok r)) → s'.placements F.id = none
  reached : ∀ me, c.2 = .sandbox me .ready → (∃ r, o = some (.ok r)) → (s'.instances me).channel.isSome

def spec : Spec Shared Answer JsError Result Server Call where
  inv := F.Inv
  rely x y := x.2.Later y.2 ∧ F.rely (F.view x.1 x.2) (F.view y.1 y.2)
  turn := F.Turn
  moves := F.moves
  start c _ _ := F.Destroys c → F.destroys
  issued c q s e := F.Issued c (F.view s e) q
  got c q a s e := F.Got c (F.view s e) q a
  guard c q _ s e := ∀ me op, c.2 = .sandbox me op → q = .lookedUp F.id none →
    F.mayPlace (place F.config (F.made me).owner) (F.view s e)
  post c r _ e := F.Destroys c → (∃ x, r = .ok x) →
    ∃ h ∈ e.handled, h.call = c.1 ∧ ∃ queue jobId, h.body = .cancel { queue, jobSetId := F.id, jobId } ∧
      ∃ x, h.reply = .ok x

/-- What makes the directory and the server respect what is known. -/
structure Lawful : Prop where
  refl : ∀ v, F.rely v v
  trans : ∀ v v' v'', F.rely v v' → F.rely v' v'' → F.rely v v''
  queue_later : ∀ q v v', v.2.Later v'.2 → F.rely v v' → F.queue q v → F.queue q v'
  job_later : ∀ j v v', v.2.Later v'.2 → F.rely v v' → F.job j v → F.job j v'
  url_later : ∀ url v v', v.2.Later v'.2 → F.rely v v' → F.url url v → F.url url v'
  vacant_later : ∀ v v', v.2.Later v'.2 → F.rely v v' → F.vacant v → F.vacant v'
  job_queue : ∀ j v, F.own v → F.job j v → F.queue j.queue v
  known : ∀ q e, F.own (some q, e) → F.queue q (some q, e)
  unmapped : F.config.mapped = false → ∀ e, F.own (none, e) → F.queue (.own F.config.queue) (none, e)
  unasked : F.config.mapped = true → F.config.lookoutUrl = none → ∀ v, F.own v → F.vacant v
  found : ∀ q v, F.own v → F.queue q v → F.own (some q, v.2) ∧ F.rely v (some q, v.2)
  placed : F.config.mapped = true → ∀ owner v, F.own v → F.vacant v → F.mayPlace (place F.config owner) v →
    F.own (some (place F.config owner), v.2) ∧
      F.rely v (some (place F.config owner), v.2) ∧
        F.queue (place F.config owner) (some (place F.config owner), v.2)
  forgotten : F.destroys → ∀ v, F.own v → F.own (none, v.2) ∧ F.rely v (none, v.2)
  reply : ∀ (c : Caller Call) body pick reply e v, F.own v → F.IssuedBody c v body →
    v.2.serve body pick = some (.ok reply, e) →
      F.GotReply (v.1, e.note c.1 body (.ok reply)) body reply
  respond : ∀ (c : Caller Call) q ch a v e, F.own v → F.Issued c v q →
    respond v.2 c.1 q ch = some (a, e) → F.moves v.2 e → F.own (v.1, e) ∧ F.rely v (v.1, e)
  drift : ∀ d v e, F.own v → drift F.config v.2 d = some e → F.moves v.2 e →
    F.own (v.1, e) ∧ F.rely v (v.1, e)

variable {F}

/-- What a job was submitted with: the sandbox's id three times over, the mark, and the hash of the
sandbox's token. -/
theorem IssuedBody.submits {c : Caller Call} {v : View} {body : Body} {j : Job}
    (h : F.IssuedBody c v body) (hj : Submits body j) :
    j.clientId = j.jobSet ∧ j.externalJobUri = j.jobSet ∧ j.tokenSha256 = F.crypto.sha256 (F.token j.jobSet) ∧
      (j.jobSet = F.id → F.queue (.own j.queue) v) := by
  obtain ⟨item, rfl, jobId, submitted, hj⟩ := hj
  obtain ⟨⟨me, op, -, -, podSpec, htoken, hr⟩, hqueue⟩ := h
  simp only [submitRequest, JobSubmitRequest.mk.injEq, List.cons.injEq, and_true, true_and] at hr
  obtain ⟨hset, hitem⟩ := hr
  have hj' : j.clientId = item.clientId ∧ j.externalJobUri = item.externalJobUri ∧
      j.tokenSha256 = item.podSpec.tokenSha256 := by
    rw [hj]
    exact ⟨rfl, rfl, rfl⟩
  rw [hj'.1, hj'.2.1, hj'.2.2, hitem, hset]
  exact ⟨rfl, rfl, htoken, fun hid => hqueue (hset.trans hid)⟩

/-- Lookout's answers, where every job of the set is in a queue that is known to be the sandbox's. -/
theorem gotReply_lookout {v v' : View} {r : LookoutGetJobsRequest}
    (hjobs : ∀ j ∈ v.2.jobs, j.jobSet = F.id → F.queue (.own j.queue) v')
    (hvacant : (∀ j ∈ v.2.jobs, j.jobSet = F.id → j.annotations.own sandboxMark ≠ some F.config.queue) ∨
      (∃ j ∈ v.2.jobs, j.jobSet = F.id ∧ j.queue = "") → F.vacant v') :
    F.GotReply v' (.lookout r) (.ok { jobs := some (v.2.lookout r) }) := by
  refine ⟨fun hr => ?_, fun skip hr job hjob hset queue hqueue => ?_⟩
  · subst hr
    split
    · rename_i queue hfound
      obtain ⟨j, hj, hset, rfl⟩ := mem_findQueue hfound
      exact hjobs j hj hset
    · rename_i hnone
      exact hvacant (findQueue_none hnone)
  · obtain ⟨j, hj, -, rfl⟩ := mem_lookout hjob
    cases (of_nonempty hqueue).1
    exact hjobs j hj (Option.some.inj (of_nonempty hset).1)

/-- Every reply, where a job is known by its queue and nothing is known of addresses. -/
theorem gotReply_of_queue {c : Caller Call} {v v' : View} {body : Body} {pick : Pick} {reply : Reply body}
    {e : Server} (hissued : F.IssuedBody c v body) (hserve : v.2.serve body pick = some (.ok reply, e))
    (hqueue : ∀ q, F.queue q v → F.queue q v') (hjob : ∀ j, F.queue j.queue v' → F.job j v')
    (hurl : ∀ url, F.url url v') (hjobs : ∀ j ∈ v.2.jobs, j.jobSet = F.id → F.queue (.own j.queue) v')
    (hvacant : (∀ j ∈ v.2.jobs, j.jobSet = F.id → j.annotations.own sandboxMark ≠ some F.config.queue) ∨
      (∃ j ∈ v.2.jobs, j.jobSet = F.id ∧ j.queue = "") → F.vacant v') : F.GotReply v' body reply := by
  match body, reply with
  | .submit r, .ok response => exact fun hid jobId _ => hjob _ (hqueue _ (hissued.2 hid))
  | .submit r, .error cause => trivial
  | .status r, .ok response => exact fun hid jobId _ => hjob _ (hqueue _ (hissued.2 hid))
  | .status r, .error cause => trivial
  | .watch r, some stream => exact fun _ _ _ _ _ _ _ _ _ _ => hurl _
  | .watch r, none => trivial
  | .cancel r, _ => trivial
  | .lookout r, .error cause => trivial
  | .lookout r, .ok response =>
    obtain ⟨hresp, -⟩ := serve_lookout hserve
    cases hresp
    exact gotReply_lookout hjobs hvacant

variable (law : F.Lawful)
include law

/-! ## What is known lasts -/

section Later
variable {v v' : View} (hl : v.2.Later v'.2) (hr : F.rely v v')
include hl hr

theorem JobFits.later {id : SandboxId} {j : SubmittedJob} (h : F.JobFits id j v) : F.JobFits id j v' :=
  ⟨h.jobSet, fun hid => law.job_later _ _ _ hl hr (h.job hid)⟩

theorem ChannelFits.later {id : SandboxId} {channel : ControlChannel} (h : F.ChannelFits id channel v) :
    F.ChannelFits id channel v' :=
  ⟨h.token, fun hid => law.url_later _ _ _ hl hr (h.url hid)⟩

theorem IssuedBody.later {c : Caller Call} {body : Body} (h : F.IssuedBody c v body) :
    F.IssuedBody c v' body := by
  cases body with
  | submit r => exact h.imp_right fun h hid => law.queue_later _ _ _ hl hr (h hid)
  | cancel r =>
    refine h.imp_right fun h hid => ⟨law.queue_later _ _ _ hl hr (h hid).1, fun jobId hjobId => ?_⟩
    exact law.job_later _ _ _ hl hr ((h hid).2 jobId hjobId)
  | status r => exact h.imp_right fun h hid => law.queue_later _ _ _ hl hr (h hid)
  | watch r => exact fun hid => law.queue_later _ _ _ hl hr (h hid)
  | lookout r => exact h

theorem Issued.later {c : Caller Call} {q : Request} (h : F.Issued c v q) : F.Issued c v' q := by
  cases q with
  | turn => trivial
  | tokenFile path => trivial
  | lookedUp id found =>
    cases found with
    | none => exact h.imp_right fun h hid => law.vacant_later _ _ hl hr (h hid)
    | some queue => exact fun hid => law.queue_later _ _ _ hl hr (h hid)
  | post base authorization body => exact IssuedBody.later law hl hr h
  | probe url =>
    obtain ⟨me, op, hc, hurl⟩ := h
    exact ⟨me, op, hc, fun hid => law.url_later _ _ _ hl hr (hurl hid)⟩
  | agent endpoint request =>
    obtain ⟨me, op, hc, hfits⟩ := h
    exact ⟨me, op, hc, hfits.later law hl hr⟩

theorem GotReply.later {body : Body} {reply : Reply body} (h : F.GotReply v body reply) :
    F.GotReply v' body reply := by
  unfold GotReply at h ⊢
  split <;> simp only at h ⊢
  · exact fun hid jobId hj => law.job_later _ _ _ hl hr (h hid jobId hj)
  · exact fun hid jobId hj => law.job_later _ _ _ hl hr (h hid jobId hj)
  · exact fun hid m info addresses address hm hi ha ho hne =>
      law.url_later _ _ _ hl hr (h hid m info addresses address hm hi ha ho hne)
  · refine ⟨fun hid => ?_, fun skip hskip job hj hset queue hq =>
      law.queue_later _ _ _ hl hr (h.2 skip hskip job hj hset queue hq)⟩
    have hfind := h.1 hid
    split at hfind
    · exact law.queue_later _ _ _ hl hr hfind
    · exact law.vacant_later _ _ hl hr hfind

theorem Got.later {c : Caller Call} {q : Request} {a : Answer q} (h : F.Got c v q a) : F.Got c v' q a := by
  unfold Got at h ⊢
  split
  · exact ⟨hl.handled _ h.1, fun x hx => GotReply.later law hl hr (h.2 x hx)⟩
  · trivial

end Later

theorem Inv.later {s : Shared} {e e' : Server} (h : F.Inv s e) (hl : e.Later e')
    (hown : F.own (F.view s e')) (hr : F.rely (F.view s e) (F.view s e')) : F.Inv s e' :=
  ⟨hown, fun me j hj => (h.job me j hj).later law hl hr, fun me ch hc => (h.channel me ch hc).later law hl hr,
    fun id p hp => ⟨(h.placement id p hp).1.later law hl hr, (h.placement id p hp).2.later law hl hr⟩⟩

/-- Shared state changes: what it holds then was there before, or fits. -/
theorem Inv.change {s s' : Shared} {e : Server} (h : F.Inv s e) (hown : F.own (F.view s' e))
    (hr : F.rely (F.view s e) (F.view s' e))
    (hjob : ∀ me j, (s'.instances me).job = some j →
      (s.instances me).job = some j ∨ F.JobFits (F.made me).id j (F.view s' e))
    (hchannel : ∀ me channel, (s'.instances me).channel = some channel →
      (s.instances me).channel = some channel ∨ F.ChannelFits (F.made me).id channel (F.view s' e))
    (hplacement : ∀ id p, s'.placements id = some p →
      s.placements id = some p ∨ F.JobFits id p.job (F.view s' e) ∧ F.ChannelFits id p.channel (F.view s' e)) :
    F.Inv s' e := by
  have hl : (F.view s e).2.Later (F.view s' e).2 := .refl e
  refine ⟨hown, fun me j hj => ?_, fun me channel hc => ?_, fun id p hp => ?_⟩
  · exact (hjob me j hj).elim (fun hj => (h.job me j hj).later law hl hr) (fun h => h)
  · exact (hchannel me channel hc).elim (fun hc => (h.channel me channel hc).later law hl hr) (fun h => h)
  · exact (hplacement id p hp).elim
      (fun hp => (h.placement id p hp).imp (·.later law hl hr) (·.later law hl hr)) (fun h => h)

omit law in
theorem Turn.unfinished {c : Caller Call} {e : Server} {s s' : Shared}
    (hr : F.rely (F.view s e) (F.view s' e))
    (hquiet : ¬ F.Stores c e none → s.placements F.id = none → s'.placements F.id = none) :
    F.Turn c none e s s' :=
  ⟨hr, hquiet, fun _ h => (nomatch h), fun _ _ h => (nomatch h)⟩

theorem Lawful.spec : F.spec.Lawful where
  refl x := ⟨.refl _, law.refl _⟩
  trans x y z h h' := ⟨h.1.trans h'.1, law.trans _ _ _ h.2 h'.2⟩
  turn_refl c e s := .unfinished (law.refl _) fun _ h => h
  turn_trans c e s s' s'' h h' :=
    .unfinished (law.trans _ _ _ h.rely h'.rely) fun hc hs => h'.quiet hc (h.quiet hc hs)
  turn_rely c r e s s' h := ⟨.refl _, h.rely⟩
  issued c q s e s' e' hr h := Issued.later law hr.1 hr.2 h
  got c q a s e s' e' hr h := Got.later law hr.1 hr.2 h
  post c r s e s' e' hr h hc hok := by
    obtain ⟨x, hx, hrest⟩ := h hc hok
    exact ⟨x, hr.1.handled x hx, hrest⟩

/-! ## Where nothing is known -/

omit law in
section
variable (crypto : Crypto) (config : ArmadaConfig) (made : Nat → Made) (id : SandboxId)

/-- Nothing is known of the sandbox but what holds of every one. -/
def anything : Facts where
  crypto := crypto
  config := config
  made := made
  id := id
  own _ := True
  rely _ _ := True
  queue _ _ := True
  job _ _ := True
  url _ _ := True
  vacant _ := True
  mayPlace _ _ := True
  destroys := True
  moves _ _ := True

variable {crypto config made id}

theorem anything_lawful : (anything crypto config made id).Lawful where
  refl _ := trivial
  trans _ _ _ _ _ := trivial
  queue_later _ _ _ _ _ _ := trivial
  job_later _ _ _ _ _ _ := trivial
  url_later _ _ _ _ _ _ := trivial
  vacant_later _ _ _ _ _ := trivial
  job_queue _ _ _ _ := trivial
  known _ _ _ := trivial
  unmapped _ _ _ := trivial
  unasked _ _ _ _ := trivial
  found _ _ _ _ := ⟨trivial, trivial⟩
  placed _ _ _ _ _ _ := ⟨trivial, trivial, trivial⟩
  forgotten _ _ _ := ⟨trivial, trivial⟩
  reply _ _ _ _ _ _ _ hissued hserve := gotReply_of_queue hissued hserve (fun _ _ => trivial)
    (fun _ _ => trivial) (fun _ => trivial) (fun _ _ _ => trivial) fun _ => trivial
  respond _ _ _ _ _ _ _ _ _ _ := ⟨trivial, trivial⟩
  drift _ _ _ _ _ _ := ⟨trivial, trivial⟩

theorem anything_allowed (w : World) (a : Step) :
    Allowed (process crypto config made) (anything crypto config made id).spec w a :=
  ⟨fun _ _ _ _ => trivial, fun _ _ _ _ _ _ _ _ _ _ _ => trivial, fun _ _ => trivial⟩

end

end Facts

end ComputeArmada.Adapter
