import ComputeArmada.Adapter.Address
import ComputeArmada.Lib.Paging

/-!
# What Lookout is asked while its list changes

* `Reads` : a run of a program, whose pages of Lookout are answered from a history of the server;
* `listActive_complete` : a job that stays active is listed, once, as long as none that stays active moves
  from behind the next page's offset to before it, as it does when one before the offset finishes;
* `lookups_agree` : `findQueue` and `listActive` name one queue of a sandbox.
-/

namespace ComputeArmada.Adapter
open Async Paging

/-- The page that an answer is, if it is one. -/
def pageOf : (q : Request) → Answer q → Option (LookoutGetJobsRequest × LookoutGetJobsResponse)
  | .post _ _ (.lookout request), .ok (.ok (.ok response)) => some (request, response)
  | _, _ => none

/-- `p`, begun when `k` pages have been answered, ends in `r` when `k'` have: page `k` is answered from
`H k`, and everything else by anything. -/
def Reads (H : Nat → Server) {α : Type} : M α → Nat → Except JsError α → Nat → Prop
  | .done a, k, r, k' => r = .ok a ∧ k' = k
  | .fail x, k, r, k' => r = .error x ∧ k' = k
  | .get f, k, r, k' => ∃ s, Reads H (f s) k r k'
  | .set _ p, k, r, k' => Reads H p k r k'
  | .ask q f, k, r, k' => ∃ a, match pageOf q a with
    | some (request, response) => response = { jobs := some ((H k).lookout request) } ∧ Reads H (f a) (k + 1) r k'
    | none => Reads H (f a) k r k'

attribute [grind =] Reads

section
variable {H : Nat → Server} {α β : Type} {k k' : Nat}

theorem reads_bind {p : M α} {f : α → M β} {b : β} : Reads H (p >>= f) k (.ok b) k' ↔
    ∃ a k₁, Reads H p k (.ok a) k₁ ∧ Reads H (f a) k₁ (.ok b) k' := by
  change Reads H (p.bind f) k (.ok b) k' ↔ _
  induction p generalizing k with
  | done a =>
    constructor
    · exact fun h => ⟨a, k, ⟨rfl, rfl⟩, h⟩
    · rintro ⟨a', k₁, ⟨ha, rfl⟩, h⟩
      cases ha
      exact h
  | fail x =>
    constructor
    · rintro ⟨h, -⟩
      cases h
    · rintro ⟨a, k₁, ⟨h, -⟩, -⟩
      cases h
  | get g ih =>
    simp only [Prog.bind, Reads, ih]
    constructor
    · rintro ⟨s, a, k₁, h, h'⟩
      exact ⟨a, k₁, ⟨s, h⟩, h'⟩
    · rintro ⟨a, k₁, ⟨s, h⟩, h'⟩
      exact ⟨s, a, k₁, h, h'⟩
  | set s p ih => exact ih
  | ask q g ih =>
    simp only [Prog.bind, Reads, ih]
    constructor
    · rintro ⟨x, h⟩
      split at h
      · rename_i request response hpage
        obtain ⟨hr, a, k₁, h, h'⟩ := h
        exact ⟨a, k₁, ⟨x, by rw [hpage]; exact ⟨hr, h⟩⟩, h'⟩
      · rename_i hpage
        obtain ⟨a, k₁, h, h'⟩ := h
        exact ⟨a, k₁, ⟨x, by rw [hpage]; exact h⟩, h'⟩
    · rintro ⟨a, k₁, ⟨x, h⟩, h'⟩
      refine ⟨x, ?_⟩
      split at h
      · exact ⟨h.1, a, k₁, h.2, h'⟩
      · exact ⟨a, k₁, h, h'⟩

theorem reads_attempt {p : M α} {r : Except JsError α} :
    Reads H p.attempt k (.ok r) k' ↔ Reads H p k r k' := by
  induction p generalizing k with
  | done a => simp [Prog.attempt, Reads]
  | fail x => simp [Prog.attempt, Reads]
  | get g ih => simp only [Prog.attempt, Reads, ih]
  | set s p ih => exact ih
  | ask q g ih => simp only [Prog.attempt, Reads, ih]

theorem reads_ofExcept {r : Except JsError α} {a : α} :
    Reads H (.ofExcept r : M α) k (.ok a) k' ↔ r = .ok a ∧ k' = k := by
  cases r with
  | ok a' => simp [Prog.ofExcept, Reads, eq_comm]
  | error x => simp [Prog.ofExcept, Reads]

theorem reads_pure {a a' : α} : Reads H (pure a : M α) k (.ok a') k' ↔ a = a' ∧ k' = k := by
  change Reads H (.done a) k (.ok a') k' ↔ _
  simp [Reads, eq_comm]

theorem reads_throw {x : JsError} {a : α} : ¬ Reads H (throw x : M α) k (.ok a) k' := fun h => nomatch h.1

theorem reads_await {p : M α} {a : α} : Reads H (await p) k (.ok a) k' ↔ Reads H p k (.ok a) k' := by
  unfold await
  rw [reads_bind]
  constructor
  · rintro ⟨r, k₁, h, h'⟩
    rw [reads_attempt] at h
    obtain ⟨⟨⟩, h'⟩ := h'
    obtain ⟨rfl, rfl⟩ := reads_ofExcept.mp h'
    exact h
  · exact fun h => ⟨.ok a, k', reads_attempt.mpr h, (), reads_ofExcept.mpr ⟨rfl, rfl⟩⟩

theorem reads_ask {q : Request} (hq : ∀ a, pageOf q a = none) {f : Answer q → M α} {r : Except JsError α} :
    Reads H (ask q >>= f) k r k' ↔ ∃ a, Reads H (f a) k r k' := by
  change Reads H (.ask q f) k r k' ↔ _
  simp only [Reads, hq]

/-! ## One page -/

variable {config : ArmadaConfig} {base : String} {request : LookoutGetJobsRequest}

theorem reads_authorizationHeader {auth : ArmadaAuth} {a : Option String}
    (h : Reads H (authorizationHeader auth) k (.ok a) k') : k' = k := by
  cases auth with
  | anonymous => exact h.2
  | basic username password => exact h.2
  | bearer token => exact h.2
  | bearerFile path =>
    obtain ⟨x, hx⟩ := (reads_ask fun _ => rfl).mp h
    cases x with
    | error cause => exact absurd hx reads_throw
    | ok text =>
      dsimp only at hx
      split at hx
      · exact absurd hx.1 (fun h => nomatch h)
      · exact (reads_pure.mp hx).2

theorem reads_postTo {response : LookoutGetJobsResponse}
    (h : Reads H (postTo config base (.lookout request)) k (.ok (.ok response)) k') :
    k' = k + 1 ∧ { jobs := some ((H k).lookout request) } = response := by
  obtain ⟨authorization, k₁, hauth, hask⟩ := reads_bind.mp h
  obtain rfl := reads_authorizationHeader (reads_await.mp (reads_await.mp hauth))
  obtain ⟨x, h⟩ := hask
  match x with
  | .error cause => cases h.1
  | .ok (.failed _ _ (.error cause)) => cases h.1
  | .ok (.failed _ _ (.ok text)) => cases h.1
  | .ok (.ok (.error cause)) => cases h.1
  | .ok (.ok (.ok response')) =>
    obtain ⟨hpage, hreply, rfl⟩ := h
    cases hreply
    exact ⟨rfl, hpage.symm⟩

theorem reads_anonymous : Reads H (authorizationHeader .anonymous) k (.ok none) k := ⟨rfl, rfl⟩

theorem reads_postTo_self (hauth : config.auth = .anonymous) (request : LookoutGetJobsRequest) (k : Nat) :
    Reads H (postTo config base (.lookout request)) k (.ok (.ok { jobs := some ((H k).lookout request) })) (k + 1) := by
  refine reads_bind.mpr ⟨none, k, reads_await.mpr (reads_await.mpr ?_), ?_⟩
  · rw [hauth]
    exact reads_anonymous
  · exact ⟨.ok (.ok (.ok { jobs := some ((H k).lookout request) })), rfl, rfl, rfl⟩

-- To unfold it would run the program: from here on the lemmas say what is read.
attribute [irreducible] Reads

theorem reads_lookoutJobs {jobs : List LookoutJob} (h : Reads H (lookoutJobs config base request) k (.ok jobs) k') :
    k' = k + 1 ∧ (H k).lookout request = jobs := by
  obtain ⟨response, k₁, hresp, h⟩ := reads_bind.mp h
  obtain ⟨rfl, rfl⟩ := reads_pure.mp h
  obtain ⟨reply, k₂, hpost, hjson⟩ := reads_bind.mp (reads_await.mp hresp)
  obtain ⟨rfl, rfl⟩ := reads_ofExcept.mp (reads_await.mp hjson)
  obtain ⟨rfl, rfl⟩ := reads_postTo (reads_await.mp hpost)
  exact ⟨rfl, rfl⟩

end

/-! ## What a page adds -/

/-- The sandbox and the queue that a job of a page is listed as, if it is. -/
def listedAs (job : LookoutJob) : Option (SandboxId × String) :=
  (nonempty job.jobSet).bind fun id => (nonempty job.queue).map fun queue => (id, queue)

/-- The queue that a sandbox is listed in. -/
def queueIn (sandboxes : List ActiveJob) (id : SandboxId) : Option String :=
  (sandboxes.find? (fun j => j.id = id)).map (·.queue)

theorem mem_iff_queueIn {sandboxes : List ActiveJob} {id : SandboxId} :
    id ∈ sandboxes.map (·.id) ↔ (queueIn sandboxes id).isSome = true := by
  simp [queueIn, List.find?_isSome]

theorem queueIn_setActive (sandboxes : List ActiveJob) (job : ActiveJob) (id : SandboxId) :
    queueIn (setActive sandboxes job) id = if job.id = id then some job.queue else queueIn sandboxes id := by
  have hkey : ∀ j : ActiveJob, decide ((if j.id = job.id then job else j).id = id) = decide (j.id = id) := by
    intro j
    split
    · rename_i h
      rw [h]
    · rfl
  unfold queueIn setActive
  split
  · rename_i hany
    simp only [List.find?_map, Function.comp_def, hkey, Option.map_map]
    by_cases hid : job.id = id
    · obtain ⟨j, hj, hjid⟩ := List.any_eq_true.mp hany
      have hsome : (sandboxes.find? fun j => j.id = id).isSome :=
        List.find?_isSome.mpr ⟨j, hj, by simpa [hid] using hjid⟩
      obtain ⟨q, hq⟩ := Option.isSome_iff_exists.mp hsome
      have hqid : q.id = id := by simpa using List.find?_some hq
      simp [hq, hqid, hid]
    · rw [if_neg hid]
      cases hq : sandboxes.find? fun j => j.id = id with
      | none => rfl
      | some q =>
        have hqid : q.id = id := by simpa using List.find?_some hq
        simp [hqid, Ne.symm hid]
  · rename_i hany
    rw [List.find?_append]
    by_cases hid : job.id = id
    · have hnone : sandboxes.find? (fun j => j.id = id) = none := List.find?_eq_none.mpr fun j hj hjid =>
        hany (List.any_eq_true.mpr ⟨j, hj, by simpa [hid] using hjid⟩)
      simp [hnone, hid]
    · simp [hid]

theorem nodup_setActive {sandboxes : List ActiveJob} (h : (sandboxes.map (·.id)).Nodup) (job : ActiveJob) :
    ((setActive sandboxes job).map (·.id)).Nodup := by
  unfold setActive
  split
  · have hids : (sandboxes.map fun j => if j.id = job.id then job else j).map (·.id) = sandboxes.map (·.id) := by
      rw [List.map_map]
      refine List.map_congr_left fun j _ => ?_
      simp only [Function.comp_apply]
      split
      · rename_i hid
        exact hid.symm
      · rfl
    rw [hids]
    exact h
  · rename_i hnew
    rw [List.map_append, List.nodup_append]
    refine ⟨h, List.nodup_singleton _, fun id hid id' hid' => ?_⟩
    rintro rfl
    obtain ⟨j, hj, hid⟩ := List.mem_map.mp hid
    rw [List.map_singleton, List.mem_singleton] at hid'
    exact hnew (List.any_eq_true.mpr ⟨j, hj, by simp [hid, hid']⟩)

theorem addPage_nil (sandboxes : List ActiveJob) : addPage sandboxes [] = sandboxes := rfl

theorem addPage_cons (sandboxes : List ActiveJob) (job : LookoutJob) (jobs : List LookoutJob) :
    addPage sandboxes (job :: jobs) = addPage (match listedAs job with
      | some (id, queue) => setActive sandboxes { id, queue, createdAt := job.submitted }
      | none => sandboxes) jobs := by
  unfold addPage listedAs
  rw [List.foldl_cons]
  congr 1
  cases nonempty job.jobSet <;> cases nonempty job.queue <;> rfl

theorem nodup_addPage {sandboxes : List ActiveJob} (h : (sandboxes.map (·.id)).Nodup) (jobs : List LookoutJob) :
    ((addPage sandboxes jobs).map (·.id)).Nodup := by
  induction jobs generalizing sandboxes with
  | nil => exact h
  | cons job jobs ih =>
    rw [addPage_cons]
    refine ih ?_
    split
    · exact nodup_setActive h _
    · exact h

/-- The last job of a page that is of the sandbox decides. -/
theorem queueIn_addPage (sandboxes : List ActiveJob) (jobs : List LookoutJob) (id : SandboxId) :
    queueIn (addPage sandboxes jobs) id =
      (((jobs.filterMap listedAs).filter (fun p => p.1 = id)).getLast?.map (·.2)).or (queueIn sandboxes id) := by
  induction jobs generalizing sandboxes with
  | nil => rfl
  | cons job jobs ih =>
    rw [addPage_cons, ih]
    cases hjob : listedAs job with
    | none => rw [List.filterMap_cons_none hjob]
    | some p =>
      obtain ⟨id', queue⟩ := p
      rw [List.filterMap_cons_some hjob, queueIn_setActive]
      by_cases hid : id' = id
      · subst hid
        rw [List.filter_cons_of_pos (by simp), List.getLast?_cons, if_pos rfl]
        cases ((jobs.filterMap listedAs).filter fun p => p.1 = id').getLast? <;> rfl
      · rw [List.filter_cons_of_neg (by simp [hid]), if_neg hid]

/-! ## Every active job -/

section
variable {H : Nat → Server} {config : ArmadaConfig} {lookout : String} {id : SandboxId}

/-- A job of this installation that is active. -/
def active (config : ArmadaConfig) (j : Job) : Bool :=
  j.state.name ∈ activeJobStates ∧ j.annotations.own sandboxMark = some config.queue

theorem lookout_listActive (e : Server) (skip : Nat) :
    e.lookout (listActiveRequest config skip) =
      (page (active config) e.jobs skip listActivePage).map Server.lookoutJob := by
  have hfilter : (fun j => (listActiveRequest config skip).filters.all (Server.matchesFilter j)) = active config := by
    funext j
    simp [listActiveRequest, lookoutRequest, Server.matchesFilter, active]
  unfold Server.lookout page
  rw [hfilter]
  rfl

theorem name_active (state : JobState) : state.name ∈ activeJobStates ↔ state.finished = false := by
  cases state <;> decide

theorem active_of_later {j j' : Job} (h : j.Later j') (hj' : active config j' = true) : active config j = true := by
  simp only [active, decide_eq_true_eq, name_active] at hj' ⊢
  refine ⟨h.unfinished hj'.1, ?_⟩
  obtain ⟨state, rfl, -⟩ := h
  exact hj'.2

/-- Position `i` holds an active job of the sandbox, in a queue. -/
def LiveAt (config : ArmadaConfig) (id : SandboxId) (e : Server) (i : Nat) : Prop :=
  ∃ j, e.jobs[i]? = some j ∧ active config j = true ∧ j.jobSet = id ∧ j.queue ≠ ""

/-- No job that stays active comes from behind `offset` before it. -/
def Stays (config : ArmadaConfig) (offset : Nat) (e e' : Server) : Prop :=
  ∀ i j j', e.jobs[i]? = some j → e'.jobs[i]? = some j' → active config j = true → active config j' = true →
    offset ≤ rank (active config) e.jobs i → offset ≤ rank (active config) e'.jobs i

theorem listedAs_lookoutJob {j : Job} (hset : j.jobSet ≠ "") (hqueue : j.queue ≠ "") :
    listedAs (Server.lookoutJob j) = some (j.jobSet, j.queue) := by
  have hsome : ∀ {s : String}, s ≠ "" → nonempty (some s) = some s := fun hs => by
    simp [nonempty, Option.filter, hs]
  simp only [listedAs, Server.lookoutJob, hsome hset, hsome hqueue]
  rfl

theorem of_listedAs_lookoutJob {j : Job} {queue : String}
    (h : listedAs (Server.lookoutJob j) = some (id, queue)) : j.jobSet = id ∧ j.queue = queue ∧ queue ≠ "" := by
  obtain ⟨id', hid, h⟩ := Option.bind_eq_some_iff.mp h
  obtain ⟨queue', hqueue, heq⟩ := Option.map_eq_some_iff.mp h
  cases heq
  exact ⟨Option.some.inj (of_nonempty hid).1, Option.some.inj (of_nonempty hqueue).1, (of_nonempty hqueue).2⟩

theorem mem_addPage {sandboxes : List ActiveJob} {jobs : List LookoutJob} :
    id ∈ (addPage sandboxes jobs).map (·.id) ↔
      id ∈ sandboxes.map (·.id) ∨ ∃ job ∈ jobs, ∃ queue, listedAs job = some (id, queue) := by
  rw [mem_iff_queueIn, mem_iff_queueIn, queueIn_addPage]
  rw [Option.isSome_or, Bool.or_eq_true, or_comm, Option.isSome_map, List.getLast?_isSome]
  refine or_congr Iff.rfl ⟨fun h => ?_, fun ⟨job, hjob, queue, hlisted⟩ hnil => ?_⟩
  · obtain ⟨⟨id', queue⟩, hp⟩ := List.exists_mem_of_ne_nil _ h
    obtain ⟨hp, hid⟩ := List.mem_filter.mp hp
    obtain ⟨job, hjob, hlisted⟩ := List.mem_filterMap.mp hp
    obtain rfl : id' = id := of_decide_eq_true hid
    exact ⟨job, hjob, queue, hlisted⟩
  · have hmem : (id, queue) ∈ (jobs.filterMap listedAs).filter (fun p => p.1 = id) :=
      List.mem_filter.mpr ⟨List.mem_filterMap.mpr ⟨job, hjob, hlisted⟩, by simp⟩
    rw [hnil] at hmem
    cases hmem

/-- One round of the loop: page `k` is added, and it is the last or the next one is asked for. -/
theorem reads_listActiveFrom {pages skip k m : Nat} {sandboxes result : List ActiveJob}
    (h : Reads H (listActiveFrom config lookout (pages + 1) skip sandboxes) k (.ok result) m) :
    (((H k).lookout (listActiveRequest config skip)).length < listActivePage ∧ m = k + 1 ∧
      addPage sandboxes ((H k).lookout (listActiveRequest config skip)) = result) ∨
    Reads H (listActiveFrom config lookout pages (skip + listActivePage)
      (addPage sandboxes ((H k).lookout (listActiveRequest config skip)))) (k + 1) (.ok result) m := by
  obtain ⟨jobs, k₁, hjobs, hrest⟩ := reads_bind.mp h
  obtain ⟨rfl, rfl⟩ := reads_lookoutJobs (reads_await.mp hjobs)
  dsimp only at hrest
  split at hrest
  · rename_i hshort
    obtain ⟨rfl, rfl⟩ := reads_pure.mp hrest
    exact .inl ⟨hshort, rfl, rfl⟩
  · exact .inr hrest

theorem nodup_listActiveFrom {pages skip k m : Nat} {sandboxes result : List ActiveJob}
    (h : Reads H (listActiveFrom config lookout pages skip sandboxes) k (.ok result) m)
    (hnodup : (sandboxes.map (·.id)).Nodup) : (result.map (·.id)).Nodup := by
  induction pages generalizing skip k sandboxes with
  | zero => exact absurd h reads_throw
  | succ pages ih =>
    rcases reads_listActiveFrom h with ⟨-, -, rfl⟩ | hrest
    · exact nodup_addPage hnodup _
    · exact ih hrest (nodup_addPage hnodup _)

theorem lt_of_reads {pages skip k m : Nat} {sandboxes result : List ActiveJob}
    (h : Reads H (listActiveFrom config lookout pages skip sandboxes) k (.ok result) m) : k < m := by
  induction pages generalizing skip k sandboxes with
  | zero => exact absurd h reads_throw
  | succ pages ih =>
    rcases reads_listActiveFrom h with ⟨-, rfl, -⟩ | hrest
    · exact Nat.lt_succ_self k
    · exact Nat.lt_of_succ_lt (ih hrest)

/-- The loop has listed the sandbox, or its job is still ahead of it. -/
theorem listed_of_reads {pages k m i : Nat} {sandboxes result : List ActiveJob} (hid : id ≠ "")
    (h : Reads H (listActiveFrom config lookout pages (listActivePage * k) sandboxes) k (.ok result) m)
    (hstays : ∀ k', k ≤ k' → k' + 1 < m → Stays config (listActivePage * (k' + 1)) (H k') (H (k' + 1)))
    (hlive : ∀ k', k ≤ k' → k' < m → LiveAt config id (H k') i)
    (hahead : id ∈ sandboxes.map (·.id) ∨ listActivePage * k ≤ rank (active config) (H k).jobs i) :
    id ∈ result.map (·.id) := by
  induction pages generalizing k sandboxes with
  | zero => exact absurd h reads_throw
  | succ pages ih =>
    obtain ⟨j, hj, hactive, rfl, hqueue⟩ := hlive k (Nat.le_refl k) (lt_of_reads h)
    -- The page holds the job, or the job is behind the page.
    have hpage : j.jobSet ∈ (addPage sandboxes ((H k).lookout (listActiveRequest config (listActivePage * k)))).map
        (·.id) ∨ listActivePage * (k + 1) ≤ rank (active config) (H k).jobs i := by
      rcases hahead with hmem | hle
      · exact .inl (mem_addPage.mpr (.inl hmem))
      · by_cases hlt : rank (active config) (H k).jobs i < listActivePage * k + listActivePage
        · refine .inl (mem_addPage.mpr (.inr ⟨Server.lookoutJob j, ?_, j.queue, listedAs_lookoutJob hid hqueue⟩))
          rw [lookout_listActive]
          exact List.mem_map_of_mem (mem_page hj hactive hle hlt)
        · right
          rw [Nat.mul_succ]
          omega
    rcases reads_listActiveFrom h with ⟨hshort, rfl, rfl⟩ | hrest
    · refine hpage.resolve_right fun hle => ?_
      rw [lookout_listActive, List.length_map] at hshort
      have hlt := rank_lt_of_short hj hactive hshort
      rw [Nat.mul_succ] at hle
      omega
    · have hm := lt_of_reads hrest
      rw [← Nat.mul_succ] at hrest
      refine ih hrest (fun k' hk' => hstays k' (by omega)) (fun k' hk' => hlive k' (by omega))
        (hpage.imp_right fun hle => ?_)
      obtain ⟨j', hj', hactive', -⟩ := hlive (k + 1) (by omega) hm
      exact hstays k (Nat.le_refl k) hm i j j' hj hj' hactive hactive' hle

/-- A job that gets from behind an offset before it between two pages is in none. -/
theorem missed_of_reads {pages k m i c : Nat} {sandboxes result : List ActiveJob}
    (h : Reads H (listActiveFrom config lookout pages (listActivePage * k) sandboxes) k (.ok result) m)
    (hsole : ∀ k' < m, ∀ i', LiveAt config id (H k') i' → i' = i)
    (hbehind : ∀ k' ≤ c, listActivePage * (c + 1) ≤ rank (active config) (H k').jobs i)
    (hbefore : ∀ k' > c, rank (active config) (H k').jobs i < listActivePage * (c + 1))
    (hnew : id ∉ sandboxes.map (·.id)) : id ∉ result.map (·.id) := by
  induction pages generalizing k sandboxes with
  | zero => exact absurd h reads_throw
  | succ pages ih =>
    have hpage : id ∉ (addPage sandboxes ((H k).lookout (listActiveRequest config (listActivePage * k)))).map
        (·.id) := by
      intro hmem
      rcases mem_addPage.mp hmem with hmem | ⟨job, hjob, queue, hlisted⟩
      · exact hnew hmem
      · rw [lookout_listActive] at hjob
        obtain ⟨j, hj, rfl⟩ := List.mem_map.mp hjob
        obtain ⟨i', hi', hactive, hskip, htake⟩ := of_mem_page hj
        obtain ⟨hset, rfl, hqueue⟩ := of_listedAs_lookoutJob hlisted
        obtain rfl := hsole k (lt_of_reads h) i' ⟨j, hi', hactive, hset, hqueue⟩
        rw [show listActivePage * k + listActivePage = listActivePage * (k + 1) from rfl] at htake
        rcases Nat.lt_or_ge c k with hck | hkc
        · have hle : listActivePage * (c + 1) ≤ listActivePage * k := Nat.mul_le_mul_left _ hck
          have hlt := hbefore k hck
          omega
        · have hle : listActivePage * (k + 1) ≤ listActivePage * (c + 1) :=
            Nat.mul_le_mul_left _ (Nat.succ_le_succ hkc)
          have hge := hbehind k hkc
          omega
    rcases reads_listActiveFrom h with ⟨-, -, rfl⟩ | hrest
    · exact hpage
    · rw [← Nat.mul_succ] at hrest
      exact ih hrest hpage

/-- Over a history, a position stays filled and its rank falls. -/
theorem rank_antitone (hgrows : ∀ k, Grows Job.Later (H k).jobs (H (k + 1)).jobs) {i : Nat}
    (hi : i ≤ (H 0).jobs.length) {k k' : Nat} (hk : k ≤ k') :
    rank (active config) (H k').jobs i ≤ rank (active config) (H k).jobs i := by
  have hlen : ∀ k, (H 0).jobs.length ≤ (H k).jobs.length := by
    intro k
    induction k with
    | zero => exact Nat.le_refl _
    | succ k ih => exact ih.trans (hgrows k).length_le
  induction k', hk using Nat.le_induction with
  | base => exact Nat.le_refl _
  | succ n _ ih =>
    have hstep : rank (active config) (H (n + 1)).jobs i ≤ rank (active config) (H n).jobs i :=
      (hgrows n).rank_le (p := active config) (fun _ _ => active_of_later) (hi.trans (hlen n))
    exact hstep.trans ih

end

/-- **`listActive` misses no live sandbox, as long as none slips by.** `H k` is the server when page `k` is
answered, and the call resolves after `m` pages. Where no job that stays active gets from behind the offset of
the next page to before it, every sandbox with a job that is active at each page is in the result, once. And
a sandbox whose one job does get there is not in it. -/
theorem listActive_complete (config : ArmadaConfig) (H : Nat → Server)
    (hgrows : ∀ k, Grows Job.Later (H k).jobs (H (k + 1)).jobs) (pages m : Nat) (result : List ActiveJob)
    (h : Reads H (listActive config pages) 0 (.ok result) m) :
    ((∀ k, k + 1 < m → Stays config (listActivePage * (k + 1)) (H k) (H (k + 1))) →
      ∀ id ≠ "", (∃ i, ∀ k < m, LiveAt config id (H k) i) → (result.map (·.id)).count id = 1) ∧
    ∀ id i k, (∀ k < m, LiveAt config id (H k) i) → (∀ k < m, ∀ i', LiveAt config id (H k) i' → i' = i) →
      k + 1 < m → listActivePage * (k + 1) ≤ rank (active config) (H k).jobs i →
        rank (active config) (H (k + 1)).jobs i < listActivePage * (k + 1) → id ∉ result.map (·.id) := by
  unfold listActive at h
  split at h
  · exact absurd h reads_throw
  · rename_i lookout _
    have hnodup := nodup_listActiveFrom h List.nodup_nil
    rw [← Nat.mul_zero listActivePage] at h
    constructor
    · rintro hstays id hid ⟨i, hlive⟩
      refine List.count_eq_one_of_mem hnodup ?_
      refine listed_of_reads hid h (fun k _ => hstays k) (fun k _ => hlive k) (.inr ?_)
      rw [Nat.mul_zero]
      exact Nat.zero_le _
    · intro id i k hlive hsole hk hbehind hbefore
      have hi : i ≤ (H 0).jobs.length := by
        obtain ⟨j, hj, -⟩ := hlive 0 (by omega)
        exact Nat.le_of_lt (List.getElem?_eq_some_iff.mp hj).1
      exact missed_of_reads h hsole (fun k' hk' => hbehind.trans (rank_antitone hgrows hi hk'))
        (fun k' hk' => (rank_antitone hgrows hi hk').trans_lt hbefore) fun hmem => nomatch hmem

/-! ## A page that is answered -/

section
variable {H : Nat → Server} {config : ArmadaConfig} {lookout : String} (hauth : config.auth = .anonymous)
include hauth

theorem reads_lookoutJobs_self (request : LookoutGetJobsRequest) (k : Nat) :
    Reads H (lookoutJobs config lookout request) k (.ok ((H k).lookout request)) (k + 1) := by
  refine reads_bind.mpr ⟨{ jobs := some ((H k).lookout request) }, k + 1, reads_await.mpr ?_, reads_pure.mpr ⟨rfl, rfl⟩⟩
  exact reads_bind.mpr ⟨_, _, reads_await.mpr (reads_postTo_self hauth request k),
    reads_await.mpr (reads_ofExcept.mpr ⟨rfl, rfl⟩)⟩

/-- The rounds of the loop, where the requests get through. -/
theorem reads_round {pages skip k m : Nat} {sandboxes result : List ActiveJob}
    (h : if ((H k).lookout (listActiveRequest config skip)).length < listActivePage
      then m = k + 1 ∧ result = addPage sandboxes ((H k).lookout (listActiveRequest config skip))
      else Reads H (listActiveFrom config lookout pages (skip + listActivePage)
        (addPage sandboxes ((H k).lookout (listActiveRequest config skip)))) (k + 1) (.ok result) m) :
    Reads H (listActiveFrom config lookout (pages + 1) skip sandboxes) k (.ok result) m := by
  refine reads_bind.mpr ⟨_, k + 1, reads_await.mpr (reads_lookoutJobs_self hauth _ k), ?_⟩
  dsimp only
  split
  · rename_i hshort
    rw [if_pos hshort] at h
    exact reads_pure.mpr ⟨h.2.symm, h.1⟩
  · rename_i hfull
    rw [if_neg hfull] at h
    exact h

end

/-- The job of a sandbox whose name is so many letters and one. -/
def kernelJob (n : Nat) (state : JobState) : Job :=
  { jobOfS with
    jobId := String.ofList (List.replicate (n + 1) 'j')
    queue := "default"
    jobSet := String.ofList (List.replicate (n + 1) 'a')
    state }

/-- A job of sandbox `s`. -/
def lastJob : Job := { jobOfS with queue := "default", state := .running }

/-- Behind the first job, `n` others and the one of `s`. -/
def behindFirst (n : Nat) : List Job := (List.range n).map (fun i => kernelJob (i + 1) .running) ++ [lastJob]

/-- 501 jobs, of which the first is in this state. -/
def manyJobs (state : JobState) : Server :=
  { Server.empty with jobs := kernelJob 0 state :: behindFirst 499 }

/-- The first job ends when the first page has been answered. -/
def firstEnds : Nat → Server
  | 0 => manyJobs .running
  | _ + 1 => manyJobs .succeeded

theorem listActive_complete_short :
    ∃ result, Reads (fun _ => twoSandboxes) (listActive plainConfig 1) 0 (.ok result) 1 ∧
      (result.map (·.id)).count "s" = 1 := by
  have hread : Reads (fun _ => twoSandboxes) (listActive plainConfig 1) 0 (.ok _) 1 :=
    reads_round rfl (by
      rw [if_pos (by decide)]
      exact ⟨rfl, rfl⟩)
  refine ⟨_, hread, (listActive_complete plainConfig (fun _ => twoSandboxes) (fun _ => ?_) 1 1 _ hread).1
    (fun k hk => by omega) "s" (by decide) ⟨0, fun k _ => ⟨_, rfl, by decide, rfl, by decide⟩⟩⟩
  exact ⟨_, [], (List.append_nil _).symm, List.forall₂_same.mpr fun j _ => .refl j⟩

theorem active_kernelJob (n : Nat) : active plainConfig (kernelJob n .running) = true :=
  (by decide : active plainConfig (kernelJob 0 .running) = true)

theorem active_behindFirst (n : Nat) : ∀ j ∈ behindFirst n, active plainConfig j = true := by
  intro j hj
  rcases List.mem_append.mp hj with hj | hj
  · obtain ⟨i, -, rfl⟩ := List.mem_map.mp hj
    exact active_kernelJob (i + 1)
  · rw [List.mem_singleton.mp hj]
    decide

theorem length_behindFirst (n : Nat) : (behindFirst n).length = n + 1 := by
  simp [behindFirst]

theorem getElem?_behindFirst (n : Nat) : (behindFirst n)[n]? = some lastJob := by
  simp [behindFirst]

theorem take_behindFirst (n : Nat) :
    (behindFirst n).take n = (List.range n).map fun i => kernelJob (i + 1) .running :=
  List.take_left' (by simp)

theorem page_running (n : Nat) (skip take : Nat) : page (active plainConfig) (kernelJob 0 .running :: behindFirst n)
    skip take = ((kernelJob 0 .running :: behindFirst n).drop skip).take take := by
  have hall : ∀ j ∈ kernelJob 0 .running :: behindFirst n, active plainConfig j = true := by
    intro j hj
    rcases List.mem_cons.mp hj with rfl | hj
    · exact active_kernelJob 0
    · exact active_behindFirst n j hj
  rw [page, List.filter_eq_self.mpr hall]

theorem page_succeeded (n : Nat) (skip take : Nat) :
    page (active plainConfig) (kernelJob 0 .succeeded :: behindFirst n) skip take =
      ((behindFirst n).drop skip).take take := by
  rw [page, List.filter_cons_of_neg (by decide), List.filter_eq_self.mpr (active_behindFirst n)]

theorem jobSet_kernelJob (n : Nat) (state : JobState) : (kernelJob n state).jobSet ≠ "s" := by
  intro h
  have hlist := congrArg String.toList h
  simp [kernelJob, List.replicate_succ] at hlist

/-- The 501st job is listed on no page: when the second one is asked for it is the 500th. -/
theorem listActive_misses :
    (∀ k, Grows Job.Later (firstEnds k).jobs (firstEnds (k + 1)).jobs) ∧
    (∀ k, LiveAt plainConfig "s" (firstEnds k) 500) ∧
    ∃ result, Reads firstEnds (listActive plainConfig 2) 0 (.ok result) 2 ∧ "s" ∉ result.map (·.id) := by
  have hpage₀ : (firstEnds 0).lookout (listActiveRequest plainConfig 0) =
      ((kernelJob 0 .running :: behindFirst 499).take 500).map Server.lookoutJob := by
    rw [lookout_listActive]
    exact congrArg _ (page_running 499 0 500)
  have hpage₁ : (firstEnds 1).lookout (listActiveRequest plainConfig 500) = [] := by
    rw [lookout_listActive]
    refine (congrArg _ (page_succeeded 499 500 500)).trans ?_
    rw [List.drop_of_length_le (length_behindFirst 499).le]
    rfl
  have hread : Reads firstEnds (listActive plainConfig 2) 0
      (.ok (addPage [] ((firstEnds 0).lookout (listActiveRequest plainConfig 0)))) 2 := by
    refine reads_round rfl ?_
    rw [if_neg (by rw [hpage₀, List.length_map, List.length_take, List.length_cons, length_behindFirst]; decide)]
    refine reads_round rfl ?_
    rw [show 0 + listActivePage = 500 from rfl, hpage₁, if_pos (by decide)]
    exact ⟨rfl, (addPage_nil _).symm⟩
  refine ⟨fun k => ?_, fun k => ?_, _, hread, fun hmem => ?_⟩
  · have hlater : ∀ state, (kernelJob 0 state).Later (kernelJob 0 .succeeded) → Grows Job.Later
        (kernelJob 0 state :: behindFirst 499) (kernelJob 0 .succeeded :: behindFirst 499) := fun state h =>
      ⟨_, [], (List.append_nil _).symm, .cons h (List.forall₂_same.mpr fun j _ => .refl j)⟩
    cases k with
    | zero => exact hlater .running ⟨.succeeded, rfl, fun h => nomatch h⟩
    | succ k => exact hlater .succeeded (.refl _)
  · have hlast : ∀ state, LiveAt plainConfig "s" (manyJobs state) 500 := fun state =>
      ⟨lastJob, by simp [manyJobs, getElem?_behindFirst], by decide, rfl, by decide⟩
    cases k with
    | zero => exact hlast _
    | succ k => exact hlast _
  · rcases mem_addPage.mp hmem with hmem | ⟨job, hjob, queue, hlisted⟩
    · cases hmem
    · rw [hpage₀] at hjob
      obtain ⟨j, hj, rfl⟩ := List.mem_map.mp hjob
      obtain ⟨hset, -⟩ := of_listedAs_lookoutJob hlisted
      rw [List.take_succ_cons, take_behindFirst] at hj
      rcases List.mem_cons.mp hj with rfl | hj
      · exact jobSet_kernelJob 0 _ hset
      · obtain ⟨i, -, rfl⟩ := List.mem_map.mp hj
        exact jobSet_kernelJob (i + 1) _ hset

/-! ## The two lookups -/

section
variable {config : ArmadaConfig} {lookout : String} {id : SandboxId} {e : Server}

variable (config id e) in
/-- The jobs of the sandbox that carry the mark, in the order of submission. -/
def marked : List Job := e.jobs.filter fun j => j.jobSet = id ∧ j.annotations.own sandboxMark = some config.queue

variable (config id e) in
/-- Those of them that are active. -/
def activeOf : List Job := (e.jobs.filter (active config)).filter fun j => j.jobSet = id

theorem mem_activeOf {j : Job} : j ∈ activeOf config id e ↔ j ∈ marked config id e ∧ active config j = true := by
  simp only [activeOf, marked, List.mem_filter, active, decide_eq_true_eq]
  exact ⟨fun ⟨⟨hj, hstate, hmark⟩, hset⟩ => ⟨⟨hj, hset, hmark⟩, hstate, hmark⟩,
    fun ⟨⟨hj, hset, hmark⟩, hstate, _⟩ => ⟨⟨hj, hstate, hmark⟩, hset⟩⟩

theorem addPage_append (sandboxes : List ActiveJob) (jobs jobs' : List LookoutJob) :
    addPage (addPage sandboxes jobs) jobs' = addPage sandboxes (jobs ++ jobs') := by
  rw [addPage, addPage, addPage, List.foldl_append]

/-- While nothing changes, the pages are the list. -/
theorem reads_still {pages k m : Nat} {result : List ActiveJob}
    (h : Reads (fun _ => e) (listActiveFrom config lookout pages (listActivePage * k)
      (addPage [] (((e.jobs.filter (active config)).take (listActivePage * k)).map Server.lookoutJob)))
      k (.ok result) m) :
    result = addPage [] ((e.jobs.filter (active config)).map Server.lookoutJob) := by
  induction pages generalizing k with
  | zero => exact absurd h reads_throw
  | succ pages ih =>
    have hpage : addPage (addPage [] (((e.jobs.filter (active config)).take (listActivePage * k)).map
        Server.lookoutJob)) (e.lookout (listActiveRequest config (listActivePage * k))) =
        addPage [] (((e.jobs.filter (active config)).take (listActivePage * (k + 1))).map Server.lookoutJob) := by
      rw [addPage_append, lookout_listActive, page, ← List.map_append, ← List.take_add, ← Nat.mul_succ]
    rcases reads_listActiveFrom h with ⟨hshort, -, rfl⟩ | hrest
    · rw [hpage, List.take_of_length_le]
      rw [lookout_listActive, List.length_map, page, List.length_take, List.length_drop] at hshort
      rw [Nat.mul_succ]
      omega
    · rw [hpage, ← Nat.mul_succ] at hrest
      exact ih hrest

theorem queueIn_addPage_jobs (hid : id ≠ "") {jobs : List Job} (hqueues : ∀ j ∈ jobs, j.jobSet = id → j.queue ≠ "") :
    queueIn (addPage [] (jobs.map Server.lookoutJob)) id =
      (jobs.filter fun j => j.jobSet = id).getLast?.map (·.queue) := by
  have hlisted : ((jobs.map Server.lookoutJob).filterMap listedAs).filter (fun p => p.1 = id) =
      (jobs.filter fun j => j.jobSet = id).map fun j => (id, j.queue) := by
    induction jobs with
    | nil => rfl
    | cons j jobs ih =>
      have htail := ih fun j hj => hqueues j (List.mem_cons_of_mem _ hj)
      rw [List.map_cons]
      by_cases hset : j.jobSet = id
      · have hjob := listedAs_lookoutJob (hset ▸ hid) (hqueues j (List.mem_cons_self ..) hset)
        rw [List.filterMap_cons_some hjob, List.filter_cons_of_pos (by simpa using hset), htail,
          List.filter_cons_of_pos (by simpa using hset), List.map_cons, hset]
      · rw [List.filter_cons_of_neg (by simpa using hset)]
        cases hjob : listedAs (Server.lookoutJob j) with
        | none => rw [List.filterMap_cons_none hjob, htail]
        | some p =>
          obtain ⟨id', queue⟩ := p
          obtain ⟨rfl, -⟩ := of_listedAs_lookoutJob hjob
          rw [List.filterMap_cons_some hjob, List.filter_cons_of_neg (by simpa using hset), htail]
  rw [queueIn_addPage, hlisted, List.getLast?_map, Option.map_map]
  exact Option.or_none

theorem reads_findQueue {found : Option String} {k : Nat}
    (h : Reads (fun _ => e) (findQueue config id) 0 (.ok found) k) (hlookout : config.lookoutUrl = some lookout) :
    found = nonempty ((marked config id e).getLast?.map (·.queue)) := by
  unfold findQueue at h
  rw [hlookout] at h
  obtain ⟨jobs, k₁, hjobs, hrest⟩ := reads_bind.mp h
  obtain ⟨rfl, rfl⟩ := reads_lookoutJobs (reads_await.mp hjobs)
  obtain ⟨rfl, -⟩ := reads_pure.mp hrest
  have hfilter : (fun j => (findQueueRequest config id).filters.all (Server.matchesFilter j)) =
      fun j => decide (j.jobSet = id ∧ j.annotations.own sandboxMark = some config.queue) := by
    funext j
    simp [findQueueRequest, lookoutRequest, Server.matchesFilter]
  have hhead : (e.lookout (findQueueRequest config id)).head? =
    (marked config id e).getLast?.map Server.lookoutJob := by
    unfold Server.lookout
    rw [hfilter]
    simp [findQueueRequest, lookoutRequest, marked, List.head?_take]
  rw [hhead]
  cases (marked config id e).getLast? <;> rfl

/-- What the provider's `listActive` remembers of a sandbox is the queue it listed it in. -/
theorem remembered_rememberActive {jobs : List ActiveJob} (hnodup : (jobs.map (·.id)).Nodup) (s : Shared) :
    (rememberActive jobs s).remembered id = ((queueIn jobs id).map Property.own).or (s.remembered id) := by
  induction jobs generalizing s with
  | nil => rfl
  | cons job jobs ih =>
    rw [List.map_cons, List.nodup_cons] at hnodup
    change (rememberActive jobs (s.remember job.id (.own job.queue))).remembered id = _
    rw [ih hnodup.2]
    by_cases hid : job.id = id
    · subst hid
      have hnone : queueIn jobs job.id = none := by
        cases hq : queueIn jobs job.id with
        | none => rfl
        | some queue => exact absurd (mem_iff_queueIn.mpr (by rw [hq]; rfl)) hnodup.1
      rw [hnone]
      simp [queueIn, Shared.remember]
    · have hsame : queueIn (job :: jobs) id = queueIn jobs id := by
        rw [queueIn, List.find?_cons_of_neg (by simpa using hid), queueIn]
      simp [hsame, Shared.remember, Function.update_of_ne (Ne.symm hid)]

end

/-- **The two lookups agree on where a sandbox lives**, and on a queue with an active job of it, exactly where
its last job is in the queue of its last active one. -/
theorem lookups_agree (config : ArmadaConfig) (e : Server) (id : SandboxId) (hid : id ≠ "")
    (hqueues : ∀ j ∈ marked config id e, j.queue ≠ "") (hactive : activeOf config id e ≠ [])
    (found : Option String) (k : Nat) (hfind : Reads (fun _ => e) (findQueue config id) 0 (.ok found) k)
    (pages m : Nat) (result : List ActiveJob)
    (hlist : Reads (fun _ => e) (listActive config pages) 0 (.ok result) m) :
    (∃ queue, found = some queue ∧ queueIn result id = some queue ∧
      (∀ s, (rememberActive result s).remembered id = some (.own queue)) ∧
      ∃ j ∈ marked config id e, active config j = true ∧ j.queue = queue) ↔
    (marked config id e).getLast?.map (·.queue) = (activeOf config id e).getLast?.map (·.queue) := by
  unfold listActive at hlist
  split at hlist
  · exact absurd hlist reads_throw
  rename_i lookout hlookout
  have hnodup := nodup_listActiveFrom hlist List.nodup_nil
  have hresult := reads_still (k := 0) hlist
  have hlisted : queueIn result id = (activeOf config id e).getLast?.map (·.queue) := by
    rw [hresult, activeOf]
    refine queueIn_addPage_jobs hid fun j hj hset => hqueues j (mem_activeOf.mp ?_).1
    exact List.mem_filter.mpr ⟨hj, by simpa using hset⟩
  obtain ⟨j, hj⟩ := Option.isSome_iff_exists.mp (List.getLast?_isSome.mpr hactive)
  obtain ⟨hmarked, hjactive⟩ := mem_activeOf.mp (List.mem_of_getLast? hj)
  rw [hj, Option.map_some] at hlisted ⊢
  have hfound := reads_findQueue hfind hlookout
  constructor
  · rintro ⟨queue, rfl, hq, -, -⟩
    rw [hlisted, Option.some.injEq] at hq
    rw [hq]
    exact (of_nonempty hfound.symm).1
  · intro hsame
    rw [hsame] at hfound
    refine ⟨j.queue, ?_, hlisted, fun s => ?_, j, hmarked, hjactive, rfl⟩
    · rw [hfound]
      simp [nonempty, Option.filter, hqueues j hmarked]
    · rw [remembered_rememberActive hnodup, hlisted]
      rfl

theorem reads_findQueue_self {config : ArmadaConfig} {H : Nat → Server} {lookout : String} {id : SandboxId}
    (hauth : config.auth = .anonymous) (hlookout : config.lookoutUrl = some lookout) :
    Reads H (findQueue config id) 0
      (.ok (nonempty (((H 0).lookout (findQueueRequest config id)).head?.bind (·.queue)))) 1 := by
  unfold findQueue
  rw [hlookout]
  exact reads_bind.mpr ⟨_, 1, reads_await.mpr (reads_lookoutJobs_self hauth _ 0), reads_pure.mpr ⟨rfl, rfl⟩⟩

/-- Two jobs of sandbox `s`, the later one of which is in this queue and has failed. -/
def resubmitted (queue : String) : Server :=
  { Server.empty with
    jobs := [{ jobOfS with state := .running }, { jobOfS with jobId := "j1", queue, state := .failed }] }

theorem reads_resubmitted (queue : String) : Reads (fun _ => resubmitted queue) (listActive plainConfig 1) 0
    (.ok [{ id := "s", queue := "team", createdAt := some "2026-01-01T00:00:00Z" }]) 1 := by
  have hpage : (resubmitted queue).lookout (listActiveRequest plainConfig 0) =
      [Server.lookoutJob { jobOfS with state := .running }] := rfl
  refine reads_round rfl ?_
  rw [hpage, if_pos (by decide)]
  exact ⟨rfl, by decide⟩

theorem lookups_agree_resubmitted :
    ∃ queue, some "team" = some queue ∧
      queueIn [{ id := "s", queue := "team", createdAt := some "2026-01-01T00:00:00Z" }] "s" = some queue := by
  obtain ⟨queue, hfound, hlisted, -⟩ := (lookups_agree plainConfig (resubmitted "team") "s" (by decide) (by decide)
    (by decide) (some "team") 1 (reads_findQueue_self rfl rfl) 1 1 _ (reads_resubmitted "team")).mpr (by decide)
  exact ⟨queue, hfound, hlisted⟩

/-- The later job was put in another queue and has failed: `findQueue` names that one. -/
theorem lookups_disagree :
    (∀ j ∈ marked plainConfig "s" (resubmitted "default"), j.queue ≠ "") ∧
    activeOf plainConfig "s" (resubmitted "default") ≠ [] ∧
    Reads (fun _ => resubmitted "default") (findQueue plainConfig "s") 0 (.ok (some "default")) 1 ∧
    (∃ result, Reads (fun _ => resubmitted "default") (listActive plainConfig 1) 0 (.ok result) 1 ∧
      queueIn result "s" = some "team") ∧
    ∀ j ∈ marked plainConfig "s" (resubmitted "default"), active plainConfig j = true → j.queue ≠ "default" :=
  ⟨by decide, by decide, reads_findQueue_self rfl rfl, ⟨_, reads_resubmitted "default", by decide⟩, by decide⟩

end ComputeArmada.Adapter
