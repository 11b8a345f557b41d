import ComputeArmada.Adapter.Address

/-!
# A start in flight when its sandbox is destroyed

Nothing keeps a `ready()` that has not asked for its job yet from doing so after `destroy()` has cancelled
what there was, nor one that is through from leaving its placement after `destroy()` removed it; and
`destroy()` cancels in the queue it knows, and only the job of its own instance where that has one.

* `Clause`, `InOrder` : the orders in which none of that happens;
* `Home`, `homed` : where the sandbox's jobs are then, and what is known of a process that keeps to it;
* `reaches_unfinished` : the cancel is addressed to whatever is unfinished;
* `destroy_wins` : in a run in order nothing of the sandbox is left once `destroy()` has resolved;
* `destroy_loses` : whichever clause is left out, in some run something is.
-/

namespace ComputeArmada.Adapter
open Async Runs

/-- A cancel of the set, or of a job of it, that the server did. -/
def Handled.cancels (id : SandboxId) : Handled → Bool
  | ⟨_, .cancel r, .ok _⟩ => r.jobSetId = id
  | _ => false

/-- The server has done what call `d` asked it to cancel. -/
def cancelled (id : SandboxId) (d : Nat) (e : Server) : Bool :=
  e.handled.any fun h => h.call = d ∧ h.cancels id = true

/-- Call `d` has resolved. -/
def through (w : World) (d : Nat) : Bool :=
  match w.calls d with
  | some (_, .settled (.ok _)) => true
  | _ => false

/-! ## Runs in order -/

/-- What the order of things must keep to, so that `destroy()`, which is call `d`, wins. -/
inductive Clause
  /-- No submit of the sandbox reaches the server after the cancel of `d`. -/
  | submits
  /-- Before that, a `resolve` that Lookout told of no job places the sandbox in the one queue. -/
  | places
  /-- Where the cancel names a job that is over, no other one of the sandbox is unfinished. -/
  | names
  /-- No `ready()` that has been to the server resolves after `d` has. -/
  | resolves
  deriving DecidableEq

instance (P : Clause → Prop) [DecidablePred P] : Decidable (∀ clause, P clause) :=
  decidable_of_iff (P .submits ∧ P .places ∧ P .names ∧ P .resolves)
    ⟨fun ⟨h₁, h₂, h₃, h₄⟩ clause => by cases clause <;> assumption, fun h => ⟨h _, h _, h _, h _⟩⟩

section
variable (crypto : Crypto) (config : ArmadaConfig) (made : Nat → Made) (id : SandboxId) (queue : Queue) (d : Nat)

def Clause.Met (w : World) : Clause → Step → Prop
  | .submits, .serve n _ => match w.calls n with
    | some (_, .asking (.post _ _ (.submit r)) _) => r.jobSetId = id → cancelled id d w.env = false
    | _ => True
  | .places, .resume n => match w.calls n with
    | some (.sandbox me _, .answered (.lookedUp id' none) _ _) => id' = id → cancelled id d w.env = false →
        place config (made me).owner = queue
    | _ => True
  | .names, .serve n _ => match w.calls n with
    | some (_, .asking (.post _ _ (.cancel r)) _) => n = d → ∀ j ∈ w.env.jobs, r.jobId = some j.jobId →
        j.state.finished = true → w.env.unfinished id = []
    | _ => True
  | .resolves, .resume n => match w.calls n with
    | some (.sandbox me .ready, _) => (made me).id = id → through w d = true →
        w.env.handled.any (·.call = n) = true →
          ((process crypto config made).step w (.resume n)).all (!through · n) = true
    | _ => True
  | _, _ => True

/-- Instances of the sandbox are asked for nothing but `ready()`, until `d` is called, and `destroy()`. -/
def OnlyStarts (w : World) : Step → Prop
  | .begin _ (.sandbox me op) => (made me).id = id → op = .destroy ∨ op = .ready ∧ w.calls d = none
  | _ => True

structure InOrder (w : World) (a : Step) : Prop where
  starts : OnlyStarts made id d w a
  met : ∀ clause : Clause, clause.Met crypto config made id queue d w a

instance (w : World) (clause : Clause) (a : Step) : Decidable (clause.Met crypto config made id queue d w a) := by
  cases clause <;> obtain _ | n | n | _ := a
  case submits.serve | names.serve =>
    dsimp only [Clause.Met]
    obtain _ | ⟨l, ⟨_ | _ | _ | ⟨_, _, _ | _ | _ | _ | _⟩ | _ | _, k⟩ | _ | _⟩ := w.calls n <;> infer_instance
  case places.resume =>
    dsimp only [Clause.Met]
    obtain _ | ⟨_ | _, _ | ⟨_ | ⟨_, _ | _⟩ | _ | _ | _ | _, _, _⟩ | _⟩ := w.calls n <;> infer_instance
  case resolves.resume =>
    dsimp only [Clause.Met]
    obtain _ | ⟨⟨me, op⟩ | _, _⟩ := w.calls n
    · infer_instance
    · rcases op with _ | _ | _ | _ | _ | _ | _ | _ | _ | _ | _ | _ | _ <;> infer_instance
    · infer_instance
  all_goals exact .isTrue trivial

instance (w : World) (a : Step) : Decidable (OnlyStarts made id d w a) := by
  unfold OnlyStarts
  split <;> infer_instance

instance (w : World) (a : Step) : Decidable (InOrder crypto config made id queue d w a) :=
  decidable_of_iff (OnlyStarts made id d w a ∧ ∀ clause : Clause, clause.Met crypto config made id queue d w a)
    ⟨fun h => ⟨h.1, h.2⟩, fun h => ⟨h.starts, h.met⟩⟩

/-! ## Where the jobs are -/

/-- The sandbox's jobs are all in one queue and have its id for their client id, as no other job does. -/
structure Home (e : Server) : Prop where
  deduped : e.Deduped
  client : ∀ j ∈ e.jobs, j.clientId = id ↔ j.jobSet = id
  queue : ∀ j ∈ e.jobs, j.jobSet = id → .own j.queue = queue

variable {id queue} in
theorem Home.change {e e' : Server} (h : Home id queue e) (hdeduped : e'.Deduped)
    (hjobs : ∀ j' ∈ e'.jobs, (∃ j ∈ e.jobs, j.Later j') ∨
      j'.clientId = j'.jobSet ∧ (j'.jobSet = id → .own j'.queue = queue)) : Home id queue e' := by
  refine ⟨hdeduped, fun j' hj' => ?_, fun j' hj' hset => ?_⟩
  · rcases hjobs j' hj' with ⟨j, hj, state, rfl, -⟩ | ⟨hclient, -⟩
    · exact h.client j hj
    · rw [hclient]
  · rcases hjobs j' hj' with ⟨j, hj, state, rfl, -⟩ | ⟨-, hqueue⟩
    · exact h.queue j hj hset
    · exact hqueue hset

variable {id queue} in
theorem Home.single {e : Server} (h : Home id queue e) : (e.unfinished id).length ≤ 1 := by
  refine h.deduped.single fun j hj j' hj' hset hset' => ?_
  have hqueue := (h.queue j hj hset).trans (h.queue j' hj' hset').symm
  exact ⟨Property.own.inj hqueue, ((h.client j hj).mpr hset).trans ((h.client j' hj').mpr hset').symm⟩

/-- Until the cancel of `d`, the sandbox is in its one queue and nowhere else. -/
def homed : Facts where
  crypto := crypto
  config := config
  made := made
  id := id
  own v := cancelled id d v.2 = false → Home id queue v.2 ∧ ∀ q, v.1 = some q → q = queue
  rely _ _ := True
  queue q v := cancelled id d v.2 = false → q = queue
  job j v := cancelled id d v.2 = false → j.queue = queue ∧ ∃ j' ∈ v.2.jobs, j'.jobId = j.jobId ∧ j'.jobSet = id
  url _ _ := True
  vacant _ := True
  mayPlace q v := cancelled id d v.2 = false → q = queue
  destroys := True
  moves _ _ := True

variable {crypto config made id queue d}

theorem cancelled_later {e e' : Server} (hl : e.Later e') (h : cancelled id d e' = false) :
    cancelled id d e = false := by
  simp only [cancelled, List.any_eq_false] at h ⊢
  exact fun x hx => h x (hl.handled x hx)

theorem serve_submit {e e' : Server} {r : JobSubmitRequest} {pick : Pick} {response : JobSubmitResponse}
    {jobId : String} (h : e.serve (.submit r) pick = some (.ok (.ok response), e'))
    (hjobId : (response.jobResponseItems.bind (·.head?)).bind (·.jobId) = some jobId) :
    ∃ j ∈ e'.jobs, j.jobId = jobId ∧
      (j.jobSet = r.jobSetId ∨ j ∈ e.jobs ∧ ∃ item ∈ r.jobRequestItems, j.clientId = item.clientId) := by
  obtain ⟨queue, jobSet, items⟩ := r
  cases pick with
  | submit newId submitted reuse =>
    match queue, items with
    | .own queue, [item] =>
      obtain ⟨⟨jobId', e₁⟩, hs, heq⟩ := Option.map_eq_some_iff.mp h
      cases heq
      obtain rfl : jobId' = jobId := by simpa using hjobId
      unfold Server.submitJob at hs
      split at hs
      · rename_i j hdup
        cases hs
        have hmem : j ∈ e.jobs.filter (fun j => j.queue = queue ∧ j.clientId = item.clientId) := by
          rcases Option.or_eq_some_iff.mp hdup with hfind | ⟨-, hhead⟩
          · exact List.mem_of_find?_eq_some hfind
          · split at hhead
            · exact List.mem_of_mem_head? hhead
            · cases hhead
        obtain ⟨hj, hsame⟩ := List.mem_filter.mp hmem
        exact ⟨j, hj, rfl, .inr ⟨hj, item, List.mem_singleton_self _, (of_decide_eq_true hsame).2⟩⟩
      · split at hs
        · cases hs
          exact ⟨_, List.mem_append_right _ (List.mem_singleton_self _), rfl, .inl rfl⟩
        · cases hs
    | .own _, [] => cases h
    | .own _, _ :: _ :: _ => cases h
    | .inherited _, _ => cases h
  | itemError text =>
    cases h
    cases hjobId
  | plain => cases h
  | httpError status statusText text => cases h
  | status jobStates => cases h
  | watch take broken => cases h

theorem serve_status {e e' : Server} {r : JobStatusUsingExternalJobUriRequest} {pick : Pick}
    {response : JobStatusResponse} (h : e.serve (.status r) pick = some (.ok (.ok response), e')) :
    e' = e ∧ ∀ p ∈ response.jobStates.getD [], ∃ j ∈ e.jobs, j.jobId = p.1 ∧ j.jobSet = r.jobset := by
  obtain ⟨queue, jobset, externalJobUri⟩ := r
  cases pick <;> cases queue <;> simp only [Server.serve, reduceCtorEq] at h
  · cases h
  · cases h
  · split at h
    · rename_i hall
      cases h
      refine ⟨rfl, fun p hp => ?_⟩
      obtain ⟨j, hj, hjobId, -, hset, -⟩ := hall p hp
      exact ⟨j, hj, hjobId, hset⟩
    · cases h

theorem homed_lawful (hdefault : config.mapped = false → queue = .own config.queue) :
    (homed crypto config made id queue d).Lawful where
  refl _ := trivial
  trans _ _ _ _ _ := trivial
  queue_later _ _ _ hl _ h hopen := h (cancelled_later hl hopen)
  job_later j v v' hl _ h hopen := by
    obtain ⟨hqueue, j₀, hj₀, hjobId, hset⟩ := h (cancelled_later hl hopen)
    obtain ⟨_, hmem, state, rfl, -⟩ := hl.jobs j₀ hj₀
    exact ⟨hqueue, _, hmem, hjobId, hset⟩
  url_later _ _ _ _ _ _ := trivial
  vacant_later _ _ _ _ _ := trivial
  job_queue _ _ _ h hopen := (h hopen).1
  known q _ hown hopen := (hown hopen).2 q rfl
  unmapped hunmapped _ _ _ := (hdefault hunmapped).symm
  unasked _ _ _ _ := trivial
  found q v hown hq := by
    refine ⟨fun hopen => ⟨(hown hopen).1, ?_⟩, trivial⟩
    rintro _ ⟨⟩
    exact hq hopen
  placed _ owner v hown _ hplace := by
    refine ⟨fun hopen => ⟨(hown hopen).1, ?_⟩, trivial, hplace⟩
    rintro _ ⟨⟩
    exact hplace hopen
  forgotten _ v hown := ⟨fun hopen => ⟨(hown hopen).1, fun _ h => nomatch h⟩, trivial⟩
  reply := by
    intro c body pick reply e v hown hissued hserve
    have hl := (Server.did_of_serve hserve).later.trans (e.later_note c.1 body (.ok reply))
    match body, reply with
    | .submit r, .ok response =>
      intro hid jobId hjobId hopen
      have hbefore := cancelled_later hl hopen
      refine ⟨hissued.2 hid hbefore, ?_⟩
      obtain ⟨j, hj, rfl, hset | ⟨hold, item, hitem, hclient⟩⟩ := serve_submit hserve hjobId
      · exact ⟨j, hj, rfl, hset.trans hid⟩
      · -- A job the submit is deduped to has the sandbox's client id, and so is of its job set.
        obtain ⟨⟨me, op, -, -, podSpec, -, hr⟩, -⟩ := hissued
        have hitems := congrArg JobSubmitRequest.jobRequestItems hr
        rw [hitems] at hitem
        obtain rfl := List.mem_singleton.mp hitem
        have hmade : (made me).id = id := (congrArg JobSubmitRequest.jobSetId hr).symm.trans hid
        exact ⟨j, hj, rfl, ((hown hbefore).1.client j hold).mp (hclient.trans hmade)⟩
    | .submit r, .error cause => trivial
    | .status r, .ok response =>
      intro hid jobId hjobId hopen
      refine ⟨hissued.2 hid (cancelled_later hl hopen), ?_⟩
      obtain ⟨rfl, hstates⟩ := serve_status hserve
      have hlive := List.mem_of_getLast? hjobId
      rw [liveJobs, Js.mem_toSorted] at hlive
      obtain ⟨p, hp, rfl⟩ := List.mem_map.mp hlive
      obtain ⟨j, hj, hpj, hset⟩ := hstates p (List.mem_filter.mp hp).1
      exact ⟨j, hj, hpj, hset.trans hid⟩
    | .status r, .error cause => trivial
    | .watch r, some stream => exact fun _ _ _ _ _ _ _ _ _ _ => trivial
    | .watch r, none => trivial
    | .cancel r, _ => trivial
    | .lookout r, .error cause => trivial
    | .lookout r, .ok response =>
      obtain ⟨hresp, -⟩ := serve_lookout hserve
      cases hresp
      exact Facts.gotReply_lookout
        (fun j hj hset hopen => (hown (cancelled_later hl hopen)).1.queue j hj hset) fun _ => trivial
  respond := by
    intro c q ch a v e hown hissued hresp _
    refine ⟨fun hopen => ?_, trivial⟩
    have hbefore := cancelled_later (respond_later hresp) hopen
    obtain ⟨hhome, hremembered⟩ := hown hbefore
    refine ⟨hhome.change (deduped_of_respond hresp hhome.deduped) fun j' hj' => ?_, hremembered⟩
    refine (jobs_of_respond hresp hj').imp_right ?_
    rintro ⟨base, authorization, body, rfl, hsubmits⟩
    obtain ⟨hclient, -, -, hqueue⟩ := hissued.submits hsubmits
    exact ⟨hclient, fun hset => hqueue hset hbefore⟩
  drift := by
    intro δ v e hown hdrift _
    refine ⟨fun hopen => ?_, trivial⟩
    obtain ⟨hhome, hremembered⟩ := hown (cancelled_later (drift_later hdrift) hopen)
    obtain ⟨f, hjobs, hf⟩ := jobs_of_drift hdrift
    refine ⟨hhome.change (deduped_of_drift hdrift hhome.deduped) fun j' hj' => .inl ?_, hremembered⟩
    rw [hjobs] at hj'
    obtain ⟨j, hj, rfl⟩ := List.mem_map.mp hj'
    exact ⟨j, hj, hf j⟩

theorem homed_allowed {w : World} {a : Step} (h : InOrder crypto config made id queue d w a) :
    Allowed (process crypto config made) (homed crypto config made id queue d).spec w a := by
  refine ⟨fun _ _ _ _ => trivial, ?_, fun _ _ => trivial⟩
  rintro n l q x k rfl hcall me op rfl rfl
  have hplaces := h.met .places
  simp only [Clause.Met, hcall] at hplaces
  exact hplaces rfl

/-! ## The cancel -/

/-- The cancel is in the queue of whatever is unfinished and, where it names a job, names that. -/
theorem reaches_unfinished {c : Caller Call} {v : View} {r : JobCancelRequest}
    (hown : (homed crypto config made id queue d).own v)
    (hissued : (homed crypto config made id queue d).IssuedBody c v (.cancel r)) (hset : r.jobSetId = id)
    (hopen : cancelled id d v.2 = false)
    (hnames : ∀ j ∈ v.2.jobs, r.jobId = some j.jobId → j.state.finished = true → v.2.unfinished id = []) :
    ∀ j ∈ v.2.unfinished id, r.queue = .own j.queue ∧ r.jobId.all (· = j.jobId) = true := by
  intro j hj
  obtain ⟨hhome, -⟩ := hown hopen
  obtain ⟨hmem, hjset, -⟩ := by simpa [Server.unfinished] using hj
  refine ⟨(((hissued.2 hset).1 hopen).trans (hhome.queue j hmem hjset).symm), ?_⟩
  cases hjobId : r.jobId with
  | none => rfl
  | some jobId =>
    obtain ⟨-, j', hmem', rfl, hset'⟩ := (hissued.2 hset).2 jobId hjobId hopen
    by_cases hfinished : j'.state.finished = true
    · rw [hnames j' hmem' hjobId hfinished] at hj
      cases hj
    · -- Both are unfinished, and there is but one.
      have hj' : j' ∈ v.2.unfinished id := List.mem_filter.mpr ⟨hmem', by simpa [hset'] using hfinished⟩
      obtain ⟨x, hx⟩ : ∃ x, v.2.unfinished id = [x] := by
        refine List.length_eq_one_iff.mp ?_
        have hpos := List.length_pos_of_mem hj
        have hle := hhome.single
        omega
      rw [hx, List.mem_singleton] at hj hj'
      simp [hj, hj']

theorem unfinished_nil {e : Server} :
    e.unfinished id = [] ↔ ∀ j ∈ e.jobs, j.jobSet = id → j.state.finished = true := by
  simp [Server.unfinished, List.filter_eq_nil_iff]

theorem serve_cancel {e e' : Server} {r : JobCancelRequest} {pick : Pick} {x : Reply (.cancel r)}
    (h : e.serve (.cancel r) pick = some (.ok x, e')) :
    ∃ queue, r.queue = .own queue ∧ e' = e.cancelJobs queue r.jobSetId r.jobId := by
  obtain ⟨queue, jobSetId, jobId⟩ := r
  cases pick <;> cases queue <;> simp [Server.serve] at h
  exact ⟨_, rfl, h.2.symm⟩

theorem unfinished_cancelJobs {e : Server} {queue : String} {jobId : Option String}
    (h : ∀ j ∈ e.unfinished id, queue = j.queue ∧ jobId.all (· = j.jobId) = true) :
    (e.cancelJobs queue id jobId).unfinished id = [] := by
  refine unfinished_nil.mpr fun j' hj' hset => ?_
  obtain ⟨j, hj, rfl⟩ := List.mem_map.mp hj'
  by_cases hf : j.state.finished = true
  · split
    · simp [Job.become, hf]
    · exact hf
  · have hjset : j.jobSet = id := by
      obtain ⟨state, heq, -⟩ := j.later_ite (j.queue = queue ∧ j.jobSet = id ∧ jobId.all (· = j.jobId)) .cancelled
      rw [heq] at hset
      exact hset
    obtain ⟨hq, hid⟩ := h j (List.mem_filter.mpr ⟨hj, by simpa [hjset] using hf⟩)
    rw [if_pos ⟨hq.symm, hjset, hid⟩, Job.become, if_neg hf]
    rfl

/-- Once the cancel has been handled, no job of the set is unfinished. -/
def Gone (id : SandboxId) (d : Nat) (e : Server) : Prop := cancelled id d e = true → e.unfinished id = []

theorem Gone.later {e e' : Server} (h : Gone id d e) (hhandled : cancelled id d e' = true → cancelled id d e = true)
    (hjobs : ∀ j' ∈ e'.jobs, (∃ j ∈ e.jobs, j.Later j') ∨ (j'.jobSet = id → cancelled id d e = false)) :
    Gone id d e' := by
  intro hd'
  have hd := hhandled hd'
  refine unfinished_nil.mpr fun j' hj' hset => ?_
  rcases hjobs j' hj' with ⟨j, hj, state, rfl, hstate⟩ | hnew
  · have hf := unfinished_nil.mp (h hd) j hj hset
    rw [hstate hf]
    exact hf
  · exact nomatch hd.symm.trans (hnew hset)

theorem Gone.respond {e e' : Server} {n : Nat} {q : Request} {ch : Choice} {a : Answer q} (h : Gone id d e)
    (hresp : respond e n q ch = some (a, e'))
    (hcancel : ∀ base authorization r, q = .post base authorization (.cancel r) → n = d → r.jobSetId = id →
      ∀ j ∈ e.unfinished id, r.queue = .own j.queue ∧ r.jobId.all (· = j.jobId) = true)
    (hsubmit : ∀ base authorization r, q = .post base authorization (.submit r) → r.jobSetId = id →
      cancelled id d e = false) : Gone id d e' := by
  have hjobs : ∀ j' ∈ e'.jobs, (∃ j ∈ e.jobs, j.Later j') ∨ (j'.jobSet = id → cancelled id d e = false) := by
    intro j' hj'
    refine (jobs_of_respond hresp hj').imp_right ?_
    rintro ⟨base, authorization, body, rfl, item, rfl, -⟩ hset
    exact hsubmit base authorization _ rfl hset
  rcases respond_cases hresp with rfl | ⟨base, authorization, body, pick, reply, e₁, rfl, hserve, rfl⟩
  · exact h
  · have hold : cancelled id d (e₁.note n body reply) = true →
        (n = d ∧ Handled.cancels id ⟨n, body, reply⟩ = true) ∨ cancelled id d e = true := by
      intro hc
      simp only [cancelled, Server.note, List.any_cons, Bool.or_eq_true, decide_eq_true_eq,
        (Server.did_of_serve hserve).handled] at hc
      exact hc
    by_cases hthis : n = d ∧ Handled.cancels id ⟨n, body, reply⟩ = true
    · -- This is the cancel.
      obtain ⟨hn, hcancels⟩ := hthis
      intro _
      cases body with
      | submit r => cases hcancels
      | watch r => cases hcancels
      | status r => cases hcancels
      | lookout r => cases hcancels
      | cancel r =>
        cases reply with
        | failed status statusText text => cases hcancels
        | ok x =>
          obtain ⟨queue, hqueue, rfl⟩ := serve_cancel hserve
          have hset : r.jobSetId = id := of_decide_eq_true hcancels
          have hreach := hcancel base authorization r rfl hn hset
          rw [hset]
          exact unfinished_cancelJobs fun j hj =>
            ⟨Property.own.inj (hqueue.symm.trans (hreach j hj).1), (hreach j hj).2⟩
    · exact h.later (fun hc => (hold hc).resolve_left hthis) hjobs

theorem Gone.drift {e e' : Server} {δ : Drift} (h : Gone id d e) (hdrift : drift config e δ = some e') :
    Gone id d e' := by
  obtain ⟨f, hjobs, hf⟩ := jobs_of_drift hdrift
  refine h.later (fun hc => ?_) fun j' hj' => .inl ?_
  · rwa [cancelled, handled_of_drift hdrift] at hc
  · rw [hjobs] at hj'
    obtain ⟨j, hj, rfl⟩ := List.mem_map.mp hj'
    exact ⟨j, hj, hf j⟩

/-! ## The calls -/

/-- What a run in order keeps. -/
structure Ordered (crypto : Crypto) (config : ArmadaConfig) (made : Nat → Made) (id : SandboxId) (queue : Queue)
    (d : Nat) (w : World) : Prop where
  holds : Holds (homed crypto config made id queue d).spec w
  gone : Gone id d w.env
  only : ∀ n me op phase, w.calls n = some (.sandbox me op, phase) → (made me).id = id →
    op = .destroy ∨ op = .ready
  placement : ∀ me, (made me).id = id → resolved w d (.sandbox me .destroy) = true →
    w.shared.placements id = none

theorem through_of_resolved {w : World} {n : Nat} {call : Call} (h : resolved w n call = true) :
    through w n = true := by
  obtain ⟨x, hx⟩ := resolved_iff.mp h
  simp [through, hx]

theorem Ordered.gone_step {w w' : World} {a : Step} (h : Ordered crypto config made id queue d w)
    (hok : InOrder crypto config made id queue d w a)
    (hstep : (process crypto config made).step w a = some w') : Gone id d w'.env := by
  rcases System.env_cases hstep with henv | ⟨n, ch, l, q, k, x, rfl, hn, hresp⟩ | ⟨δ, rfl, hdrift⟩
  · rw [henv]
    exact h.gone
  · change respond w.env n q ch = some (x, w'.env) at hresp
    refine h.gone.respond hresp ?_ ?_
    · rintro base authorization r rfl hnd hset
      by_cases hopen : cancelled id d w.env = false
      · have hnames := hok.met .names
        simp only [Clause.Met, hn] at hnames
        exact reaches_unfinished h.holds.inv.own (h.holds.calls n l _ hn).1 hset hopen (hnames hnd)
      · -- Nothing is left to cancel.
        intro j hj
        rw [h.gone (by simpa using hopen)] at hj
        cases hj
    · rintro base authorization r rfl hset
      have hsubmits := hok.met .submits
      simp only [Clause.Met, hn] at hsubmits
      exact hsubmits hset
  · exact h.gone.drift hdrift

/-- A turn after `d` has resolved leaves no placement. -/
theorem Ordered.quiet {w w' : World} {a : Step} {n : Nat} {l : Call}
    {phase : Phase Shared Answer JsError Result} (h : Ordered crypto config made id queue d w)
    (hok : InOrder crypto config made id queue d w a)
    (hstep : (process crypto config made).step w a = some w') (hd : through w d = true)
    (ha : (∃ l', a = .begin n l') ∨ a = .resume n) (hn : w'.calls n = some (l, phase)) :
    ¬ (homed crypto config made id queue d).Stores (n, l) w.env phase.outcome := by
  rintro ⟨me, op, rfl, hid, hop, hready⟩
  have hop' : op = .ready := by
    rcases System.label hstep hn with rfl | ⟨phase', hn'⟩
    · exact ((hok.starts hid).resolve_left hop).1
    · exact (h.only n me op phase' hn' hid).resolve_left hop
  subst hop'
  obtain ⟨⟨r, hr⟩, x, hx, hcall⟩ := hready rfl
  have hn' : through w' n = true := by
    cases phase <;> cases hr
    simp [through, hn]
  rcases System.label hstep hn with rfl | ⟨phase', hold⟩
  · rcases hok.starts hid with hop' | ⟨-, hnone⟩
    · cases hop'
    · simp [through, hnone] at hd
  · rcases ha with ⟨l', rfl⟩ | rfl
    · simp [System.step, hold] at hstep
    · have hresolves := hok.met .resolves
      simp only [Clause.Met, hold] at hresolves
      have hall := hresolves hid hd (List.any_eq_true.mpr ⟨x, hx, by simpa using hcall⟩)
      rw [hstep] at hall
      simp [hn'] at hall

theorem Ordered.step (hdefault : config.mapped = false → queue = .own config.queue) {w w' : World} {a : Step}
    (h : Ordered crypto config made id queue d w) (hok : InOrder crypto config made id queue d w a)
    (hstep : (process crypto config made).step w a = some w') : Ordered crypto config made id queue d w' := by
  have hsound : Sound (process crypto config made) (homed crypto config made id queue d).spec :=
    (homed_lawful hdefault).sound
  obtain ⟨hholds, hturned⟩ := hsound.step h.holds (homed_allowed hok) hstep
  refine ⟨hholds, h.gone_step hok hstep, fun n me op phase hn hid => ?_, fun me hid hd => ?_⟩
  · rcases System.label hstep hn with rfl | ⟨phase', hn'⟩
    · exact (hok.starts hid).imp_right And.left
    · exact h.only n me op phase' hn' hid
  · by_cases hbefore : resolved w d (.sandbox me .destroy) = true
    · have hnone := h.placement me hid hbefore
      have hthrough := through_of_resolved hbefore
      cases a with
      | begin n l =>
        obtain ⟨l', phase, hn, hturn⟩ := hturned
        exact hturn.quiet (h.quiet hok hstep hthrough (.inl ⟨l, rfl⟩) hn) hnone
      | resume n =>
        obtain ⟨l, phase, hn, hturn⟩ := hturned
        exact hturn.quiet (h.quiet hok hstep hthrough (.inr rfl) hn) hnone
      | serve n ch =>
        rw [show w'.shared = w.shared from hturned]
        exact hnone
      | drift δ =>
        rw [show w'.shared = w.shared from hturned]
        exact hnone
    · obtain ⟨x, hx⟩ := resolved_iff.mp hd
      have hturn := hsound.settled h.holds (homed_allowed hok) hstep
        (fun hn => hbefore (resolved_iff.mpr ⟨x, hn⟩)) hx
      exact hturn.destroyed ⟨me, rfl, hid⟩ ⟨x, rfl⟩

end

/-- A `ready()` of an instance as far as its submit. -/
def startsReady (n me : Nat) : List Step := .begin n (.sandbox me .ready) :: turns n 4

/-- Its submit is served, and it waits for its pod. -/
def itsSubmit (n : Nat) (jobId : String) : List Step :=
  answered n (.serves (.submit jobId "2026-01-01T00:00:00Z" false)) ++ turns n 7

/-- A `destroy()` of an instance that has its job. -/
def destroysJob (n me : Nat) : List Step :=
  .begin n (.sandbox me .destroy) :: turns n 2 ++ answered n (.serves .plain) ++ turns n 3

/-- The event stream breaks off, and the `ready()` rejects. -/
def givesUp (n : Nat) : List Step := answered n (.fails { name := "TypeError", message := "fetch failed" }) ++ turns n 3

theorem home_empty (id : SandboxId) (queue : Queue) : Home id queue .empty :=
  ⟨List.Pairwise.nil, fun _ h => (nomatch h), fun _ h => (nomatch h)⟩

/-- Any number of `ready()`, and then one `destroy()`, which is call `d`. -/
def ReadyThenDestroy (d : Nat) (w : World) : Step → Prop
  | .begin n (.sandbox _ op) => op = .ready ∧ w.calls d = none ∨ op = .destroy ∧ n = d
  | .begin _ _ => False
  | _ => True

/-- Its calls are the first `k`. -/
def Within (k : Nat) : Step → Prop
  | .begin n _ => n < k
  | _ => True

instance (d : Nat) (w : World) (a : Step) : Decidable (ReadyThenDestroy d w a) := by
  unfold ReadyThenDestroy
  obtain ⟨n, _ | _⟩ | _ | _ | _ := a <;> infer_instance

instance (k : Nat) : (a : Step) → Decidable (Within k a)
  | .begin n _ => Nat.decLt n k
  | .serve .. | .resume .. | .drift .. => .isTrue trivial

/-- Every call is through and call `d`, a `destroy()`, has resolved; and a job of the sandbox or its
placement is left. -/
structure Lost (id : SandboxId) (d : Nat) (w : World) : Prop where
  settled : ∀ n l phase, w.calls n = some (l, phase) → phase.outcome.isSome = true
  destroyed : ∃ me, resolved w d (.sandbox me .destroy) = true
  remains : w.env.unfinished id ≠ [] ∨ w.shared.placements id ≠ none

section
variable (config : ArmadaConfig) (queue : Queue) (skipped : Option Clause) (e : Server)

/-- `ready()` calls and then a `destroy()`, in an order that meets all clauses but one. -/
def OnlyBut (w : World) (a : Step) : Prop :=
  ReadyThenDestroy 1 w a ∧
    ∀ clause : Clause, some clause ≠ skipped → clause.Met digests config created "s" queue 1 w a

instance (w : World) (a : Step) : Decidable (OnlyBut config queue skipped w a) := by
  unfold OnlyBut
  infer_instance

variable {config e} in
theorem calls_within {k : Nat} {ok : World → Step → Prop} {w : World}
    (h : Run (Fires (process digests config created).step) (fun w a => ok w a ∧ Within k a) (World.init e) w)
    {n : Nat} (hn : k ≤ n) : w.calls n = none := by
  refine h.inv (fun w => w.calls n = none) (fun w a w' hnone hok hstep => ?_) rfl
  cases hcall : w'.calls n with
  | none => rfl
  | some call =>
    rcases System.label hstep hcall with rfl | ⟨phase, hold⟩
    · exact absurd hok.2 (Nat.not_lt.mpr hn)
    · exact absurd hold (by simp [hnone])

theorem exists_lost (me : Nat) (acts : List Step)
    (h : (Runs.exec (process digests config created).step (fun w a => OnlyBut config queue skipped w a ∧ Within 3 a)
      (World.init e) acts).any (fun w => (∀ n < 3, ∀ call ∈ w.calls n, call.2.outcome.isSome = true) ∧
        resolved w 1 (.sandbox me .destroy) = true ∧
          (w.env.unfinished "s" ≠ [] ∨ (w.shared.placements "s").isSome = true)) = true) :
    ∃ w, Run (Fires (process digests config created).step) (OnlyBut config queue skipped) (World.init e) w ∧
      Lost "s" 1 w := by
  obtain ⟨w, hrun, hsettled, hd, hleft⟩ := Run.exists_of_exec (process digests config created).step
    (fun w a => OnlyBut config queue skipped w a ∧ Within 3 a) (fun w => (∀ n < 3, ∀ call ∈ w.calls n,
      call.2.outcome.isSome = true) ∧ resolved w 1 (.sandbox me .destroy) = true ∧
        (w.env.unfinished "s" ≠ [] ∨ (w.shared.placements "s").isSome = true)) (World.init e) acts h
  refine ⟨w, hrun.mono fun _ _ => And.left, fun n l phase hn => ?_, ⟨me, hd⟩,
    hleft.imp_right fun h => Option.isSome_iff_ne_none.mp h⟩
  by_cases hlt : n < 3
  · exact hsettled n hlt _ hn
  · rw [calls_within hrun (Nat.not_lt.mp hlt)] at hn
    cases hn

end

theorem plainConfig_accepted : plainConfig.Accepted where
  queue := by decide
  nonblank := by decide
  users := by decide
  projects := by decide
  lookout _ := by decide

/-- `ready()` calls of instances of `s` and a `destroy()` of it, call 1, in which this clause is not met. -/
def against : Clause → List Step
  -- The submit is served when the set, empty as it was, has been cancelled.
  | .submits => startsReady 0 0 ++ destroys 1 1 ++ itsSubmit 0 "j0" ++ givesUp 0
  -- Both ask Lookout before the job is submitted, and only the `ready()` knows the owner.
  | .places => asksLookout 0 ++ .begin 1 (.sandbox 2 .destroy) :: turns 1 2 ++ answered 1 (.serves .plain) ++
      turns 1 5 ++ submits 0 "j0" ++ turns 0 7 ++ turns 1 5 ++ answered 1 (.serves .plain) ++ turns 1 3 ++ givesUp 0
  -- The job of instance 0 fails, instance 1 submits the next, and instance 0 is destroyed.
  | .names => startsReady 0 0 ++ itsSubmit 0 "j0" ++ .drift (.state "j0" .failed) :: givesUp 0 ++
      startsReady 2 1 ++ itsSubmit 2 "j1" ++ destroysJob 1 0 ++ givesUp 2
  -- The agent has answered, and the `ready()` goes on when the sandbox is gone.
  | .resolves => startsReady 0 0 ++ itsSubmit 0 "j0" ++ starts "j0" :: answered 0 (.serves (.watch 2 none)) ++
      turns 0 5 ++ answered 0 (.serves (.watch 2 none)) ++ turns 0 4 ++ answered 0 (.probed .ok) ++
      destroys 1 1 ++ turns 0 1

end ComputeArmada.Adapter
