import ComputeArmada.Adapter.Lookout
import ComputeArmada.Adapter.Posted

/-!
# What is listed of a list that does not change

* `activeJobs` : what `listActive` says of a list of jobs;
* `addPage_eq` : it is what the pages add up to, with a map whose keys keep their places;
* `Lists` : the answers of a Lookout that cuts its pages from one list;
* `listActive_exact` : the pages that are asked for, what is returned of them, and what the directory knows
  afterwards.
-/

namespace ComputeArmada.Adapter
open Async

/-! ## What the pages add up to -/

/-- What a job is listed as: one without a set or without a queue is not. -/
def activeEntry (job : LookoutJob) : Option ActiveJob :=
  (listedAs job).map fun p => { id := p.1, queue := p.2, createdAt := job.submitted }

/-- One entry for each set, in the place of its first one, the last one itself. -/
def lastOfEach (entries : List ActiveJob) : List ActiveJob :=
  (entries.map (·.id)).eraseDups.filterMap fun id => (entries.filter (·.id = id)).getLast?

/-- The sandboxes of a list of jobs. -/
def activeJobs (jobs : List LookoutJob) : List ActiveJob := lastOfEach (jobs.filterMap activeEntry)

section
variable {entries : List ActiveJob} {id : SandboxId}

theorem getLast?_filter_concat (e : ActiveJob) : ((entries ++ [e]).filter (·.id = id)).getLast? =
    if e.id = id then some e else (entries.filter (·.id = id)).getLast? := by
  rw [List.filter_append]
  split
  · rename_i hid
    rw [List.filter_cons_of_pos (by simpa using hid), List.filter_nil, List.getLast?_concat]
  · rename_i hid
    rw [List.filter_cons_of_neg (by simpa using hid), List.filter_nil, List.append_nil]

theorem id_of_getLast? {e : ActiveJob} (h : (entries.filter (·.id = id)).getLast? = some e) : e.id = id := by
  simpa using (List.mem_filter.mp (List.mem_of_getLast? h)).2

theorem exists_getLast? (h : id ∈ entries.map (·.id)) : ∃ e, (entries.filter (·.id = id)).getLast? = some e := by
  obtain ⟨e, he, hid⟩ := List.mem_map.mp h
  refine Option.isSome_iff_exists.mp (List.getLast?_isSome.mpr fun hnil => ?_)
  have hmem : e ∈ entries.filter (·.id = id) := List.mem_filter.mpr ⟨he, by simpa using hid⟩
  rw [hnil] at hmem
  cases hmem

theorem ids_lastOfEach : (lastOfEach entries).map (·.id) = (entries.map (·.id)).eraseDups := by
  have hids : ∀ ids : List SandboxId, (∀ id ∈ ids, id ∈ entries.map (·.id)) →
      (ids.filterMap fun id => (entries.filter (·.id = id)).getLast?).map (·.id) = ids := by
    intro ids hmem
    induction ids with
    | nil => rfl
    | cons id ids ih =>
      obtain ⟨e, he⟩ := exists_getLast? (hmem id (List.mem_cons_self ..))
      rw [List.filterMap_cons, he, List.map_cons, id_of_getLast? he,
        ih fun id' h => hmem id' (List.mem_cons_of_mem _ h)]
  exact hids _ fun id h => List.mem_eraseDups.mp h

theorem lastOfEach_concat (e : ActiveJob) : lastOfEach (entries ++ [e]) = setActive (lastOfEach entries) e := by
  have hany : (lastOfEach entries).any (fun j => j.id = e.id) = true ↔ e.id ∈ entries.map (·.id) := by
    rw [← List.mem_eraseDups, ← ids_lastOfEach, List.any_eq_true]
    simp
  unfold setActive
  rw [lastOfEach, List.map_append, List.eraseDups_append, List.filterMap_append]
  simp only [getLast?_filter_concat]
  by_cases hmem : e.id ∈ entries.map (·.id)
  · have hrest : ([e].map (·.id)).removeAll (entries.map (·.id)) = [] := by
      simpa [List.removeAll] using hmem
    rw [if_pos (hany.mpr hmem), hrest, lastOfEach, List.map_filterMap]
    refine (List.append_nil _).trans (List.filterMap_congr fun id hid => ?_)
    obtain ⟨j, hj⟩ := exists_getLast? (List.mem_eraseDups.mp hid)
    rw [hj, Option.map_some, id_of_getLast? hj]
    by_cases he : e.id = id
    · rw [if_pos he, if_pos he.symm]
    · rw [if_neg he, if_neg (Ne.symm he)]
  · have hrest : ([e].map (·.id)).removeAll (entries.map (·.id)) = [e.id] := by
      simpa [List.removeAll] using hmem
    rw [if_neg fun h => hmem (hany.mp h), hrest]
    have hlast : [e.id].eraseDups.filterMap (fun id => if e.id = id then some e else
        (entries.filter (·.id = id)).getLast?) = [e] := by
      simp [List.eraseDups_cons]
    rw [hlast, lastOfEach]
    congr 1
    refine List.filterMap_congr fun id hid => if_neg ?_
    rintro rfl
    exact hmem (List.mem_eraseDups.mp hid)

end

theorem addPage_concat (sandboxes : List ActiveJob) (jobs : List LookoutJob) (job : LookoutJob) :
    addPage sandboxes (jobs ++ [job]) = match activeEntry job with
      | some e => setActive (addPage sandboxes jobs) e
      | none => addPage sandboxes jobs := by
  rw [← addPage_append, addPage_cons, addPage_nil, activeEntry]
  cases listedAs job <;> rfl

/-- The pages of a list, one behind the other, make up what is said of it. -/
theorem addPage_eq (jobs : List LookoutJob) : addPage [] jobs = activeJobs jobs := by
  induction jobs using List.reverseRecOn with
  | nil => rfl
  | append_singleton jobs job ih =>
    rw [addPage_concat, ih, activeJobs, activeJobs, List.filterMap_append]
    cases hjob : activeEntry job with
    | none => rw [List.filterMap_cons_none hjob, List.filterMap_nil, List.append_nil]
    | some e => rw [List.filterMap_cons_some hjob, List.filterMap_nil, lastOfEach_concat]

theorem queueIn_of_mem {sandboxes : List ActiveJob} {job : ActiveJob} (hnodup : (sandboxes.map (·.id)).Nodup)
    (hjob : job ∈ sandboxes) : queueIn sandboxes job.id = some job.queue := by
  obtain ⟨found, hfound⟩ := Option.isSome_iff_exists.mp
    ((List.find?_isSome (p := fun j => decide (j.id = job.id))).mpr ⟨job, hjob, by simp⟩)
  have hid : found.id = job.id := by simpa using List.find?_some hfound
  rw [queueIn, hfound, List.inj_on_of_nodup_map hnodup (List.mem_of_find?_eq_some hfound) hjob hid]
  rfl

/-! ## The pages of one list -/

/-- The answers of a Lookout that cuts its pages from one list, where the token file can be read. -/
def Lists (jobs : List LookoutJob) : (q : Request) → Answer q → Prop
  | .post _ _ (.lookout request), a => ∃ response : LookoutGetJobsResponse,
      a = .ok (.ok (.ok response)) ∧ response.jobs.getD [] = (jobs.drop request.skip).take request.take
  | .tokenFile _, a => ∃ text, a = .ok text ∧ Js.trim text ≠ ""
  | _, _ => True

section
variable {config : ArmadaConfig} {lookout : String} {jobs : List LookoutJob} {trace : Answers}

theorem gives_authorizationHeader {auth : ArmadaAuth} {r : Except JsError (Option String)}
    (h : Gives (authorizationHeader auth) trace r) (hlists : ∀ x ∈ trace, Lists jobs x.1 x.2) :
    posted trace = [] ∧ ∃ header, r = .ok header := by
  cases auth with
  | anonymous =>
    obtain ⟨rfl, rfl⟩ := gives_pure.mp h
    exact ⟨rfl, _, rfl⟩
  | basic username password =>
    obtain ⟨rfl, rfl⟩ := gives_pure.mp h
    exact ⟨rfl, _, rfl⟩
  | bearer token =>
    obtain ⟨rfl, rfl⟩ := gives_pure.mp h
    exact ⟨rfl, _, rfl⟩
  | bearerFile path =>
    obtain ⟨a, rest, rfl, hrest⟩ := gives_asked.mp h
    obtain ⟨text, ha, htext⟩ := hlists _ (List.mem_cons_self ..)
    cases ha
    dsimp only at hrest
    rw [if_neg htext] at hrest
    obtain ⟨rfl, rfl⟩ := gives_pure.mp hrest
    exact ⟨rfl, _, rfl⟩

theorem gives_postTo {base : String} {request : LookoutGetJobsRequest} {r : Except JsError (Reply (.lookout request))}
    (h : Gives (postTo config base (.lookout request)) trace r) (hlists : ∀ x ∈ trace, Lists jobs x.1 x.2) :
    posted trace = [.lookout request] ∧ ∃ response : LookoutGetJobsResponse, r = .ok (.ok response) ∧
      response.jobs.getD [] = (jobs.drop request.skip).take request.take := by
  have hauth : ∀ (trace : Answers) (r : Except JsError (Option String)),
      Gives (await (await (authorizationHeader config.auth))) trace r → (∀ x ∈ trace, Lists jobs x.1 x.2) →
      posted trace = [] ∧ ∃ header, r = .ok header := by
    intro trace r h hlists
    obtain ⟨outer, rfl, houter⟩ := gives_await h
    obtain ⟨inner, rfl, hinner⟩ := gives_await houter
    rw [List.forall_mem_append, List.forall_mem_append] at hlists
    rw [posted_append, posted_append, posted_turn, List.append_nil, List.append_nil]
    exact gives_authorizationHeader hinner hlists.1.1
  rcases gives_bind.mp h with ⟨x, -, hfail⟩ | ⟨authorization, before, after, rfl, hheader, hrest⟩
  · obtain ⟨-, header, hok⟩ := hauth _ _ hfail hlists
    cases hok
  · rw [List.forall_mem_append] at hlists
    obtain ⟨hnone, -⟩ := hauth _ _ hheader hlists.1
    obtain ⟨a, rest, rfl, hended⟩ := gives_asked.mp hrest
    obtain ⟨response, ha, hpage⟩ := hlists.2 _ (List.mem_cons_self ..)
    cases ha
    obtain ⟨rfl, rfl⟩ := gives_pure.mp hended
    rw [posted_append, hnone]
    exact ⟨rfl, response, rfl, hpage⟩

theorem gives_lookoutJobs {request : LookoutGetJobsRequest} {r : Except JsError (List LookoutJob)}
    (h : Gives (await (lookoutJobs config lookout request)) trace r) (hlists : ∀ x ∈ trace, Lists jobs x.1 x.2) :
    posted trace = [.lookout request] ∧ r = .ok ((jobs.drop request.skip).take request.take) := by
  have hpost : ∀ (trace : Answers) (r : Except JsError (Reply (.lookout request))),
      Gives (await (postTo config lookout (.lookout request))) trace r → (∀ x ∈ trace, Lists jobs x.1 x.2) →
      posted trace = [.lookout request] ∧ ∃ response : LookoutGetJobsResponse, r = .ok (.ok response) ∧
        response.jobs.getD [] = (jobs.drop request.skip).take request.take := by
    intro trace r h hlists
    obtain ⟨asked, rfl, hasked⟩ := gives_await h
    rw [List.forall_mem_append] at hlists
    rw [posted_append, posted_turn, List.append_nil]
    exact gives_postTo hasked hlists.1
  have hresponse : ∀ (trace : Answers) (r : Except JsError LookoutGetJobsResponse),
      Gives (await (do json (← await (postTo config lookout (.lookout request))))) trace r →
      (∀ x ∈ trace, Lists jobs x.1 x.2) → posted trace = [.lookout request] ∧
        ∃ response, r = .ok response ∧ response.jobs.getD [] = (jobs.drop request.skip).take request.take := by
    intro trace r h hlists
    obtain ⟨asked, rfl, hasked⟩ := gives_await h
    rw [List.forall_mem_append] at hlists
    rw [posted_append, posted_turn, List.append_nil]
    rcases gives_bind.mp hasked with ⟨x, -, hfail⟩ | ⟨reply, before, after, rfl, hreply, hjson⟩
    · obtain ⟨-, response, hok, -⟩ := hpost _ _ hfail hlists.1
      cases hok
    · rw [List.forall_mem_append] at hlists
      obtain ⟨hone, response, hok, hpage⟩ := hpost _ _ hreply hlists.1.1
      cases hok
      obtain ⟨rest, rfl, hrest⟩ := gives_await hjson
      obtain ⟨rfl, rfl⟩ := gives_ofExcept.mp hrest
      rw [posted_append, hone]
      exact ⟨rfl, response, rfl, hpage⟩
  obtain ⟨asked, rfl, hasked⟩ := gives_await h
  rw [List.forall_mem_append] at hlists
  rw [posted_append, posted_turn, List.append_nil]
  rcases gives_bind.mp hasked with ⟨x, -, hfail⟩ | ⟨response, before, after, rfl, hresp, hrest⟩
  · obtain ⟨-, response, hok, -⟩ := hresponse _ _ hfail hlists.1
    cases hok
  · rw [List.forall_mem_append] at hlists
    obtain ⟨hone, response', hok, hpage⟩ := hresponse _ _ hresp hlists.1.1
    cases hok
    obtain ⟨rfl, rfl⟩ := gives_pure.mp hrest
    rw [posted_append, hone, ← hpage]
    exact ⟨rfl, rfl⟩

/-- The requests of the pages from the `k`th to the last one. -/
def pageRequests (config : ArmadaConfig) (jobs : List LookoutJob) (k : Nat) : List Body :=
  (List.range' k (jobs.length / listActivePage + 1 - k)).map fun i =>
    .lookout (listActiveRequest config (listActivePage * i))

theorem gives_listActiveFrom {pages k : Nat} {r : Except JsError (List ActiveJob)}
    (h : Gives (listActiveFrom config lookout pages (listActivePage * k) (addPage [] (jobs.take (listActivePage * k))))
      trace r) (hlists : ∀ x ∈ trace, Lists jobs x.1 x.2) (hk : k ≤ jobs.length / listActivePage)
    (hpages : jobs.length / listActivePage < k + pages) :
    posted trace = pageRequests config jobs k ∧ r = .ok (activeJobs jobs) := by
  induction pages generalizing k trace with
  | zero => omega
  | succ pages ih =>
    rcases gives_bind.mp h with ⟨x, -, hfail⟩ | ⟨page, before, after, rfl, hpage, hrest⟩
    · cases (gives_lookoutJobs hfail hlists).2
    · rw [List.forall_mem_append] at hlists
      obtain ⟨hone, hok⟩ := gives_lookoutJobs hpage hlists.1
      have hpageEq : page = (jobs.drop (listActivePage * k)).take listActivePage := Except.ok.inj hok
      have hlength : page.length = min listActivePage (jobs.length - listActivePage * k) := by
        rw [hpageEq, List.length_take, List.length_drop]
      have hall : addPage (addPage [] (jobs.take (listActivePage * k))) page =
          addPage [] (jobs.take (listActivePage * (k + 1))) := by
        rw [hpageEq, addPage_append, ← List.take_add, ← Nat.mul_succ]
      have hlast : page.length < listActivePage ↔ k = jobs.length / listActivePage := by
        have hdiv := Nat.div_add_mod jobs.length listActivePage
        have hmod : jobs.length % listActivePage < listActivePage := Nat.mod_lt _ (by decide)
        have hle : listActivePage * k ≤ listActivePage * (jobs.length / listActivePage) := Nat.mul_le_mul_left _ hk
        rw [hlength]
        constructor
        · intro hshort
          by_contra hne
          have hmul : listActivePage * (k + 1) ≤ listActivePage * (jobs.length / listActivePage) :=
            Nat.mul_le_mul_left _ (by omega)
          rw [Nat.mul_succ] at hmul
          omega
        · rintro rfl
          omega
      dsimp only at hrest
      rw [hall] at hrest
      rw [posted_append, hone, pageRequests]
      by_cases hshort : page.length < listActivePage
      · rw [if_pos hshort] at hrest
        obtain ⟨rfl, rfl⟩ := gives_pure.mp hrest
        have hk := hlast.mp hshort
        have hrange : jobs.length / listActivePage + 1 - k = 1 := by omega
        rw [hrange]
        refine ⟨rfl, ?_⟩
        rw [List.take_of_length_le (by rw [hlength] at hshort; rw [Nat.mul_succ]; omega), addPage_eq]
      · rw [if_neg hshort, ← Nat.mul_succ] at hrest
        have hmore := mt hlast.mpr hshort
        obtain ⟨hposted, hr⟩ := ih hrest hlists.2 (by omega) (by omega)
        have hrange : jobs.length / listActivePage + 1 - k = (jobs.length / listActivePage + 1 - (k + 1)) + 1 := by
          omega
        rw [hposted, pageRequests, hrange, List.range'_succ, List.map_cons]
        exact ⟨rfl, hr⟩

theorem gives_listActive {pages : Nat} {r : Except JsError (List ActiveJob)}
    (hlookout : config.lookoutUrl = some lookout)
    (hpages : jobs.length / listActivePage < pages) (h : Gives (listActive config pages) trace r)
    (hlists : ∀ x ∈ trace, Lists jobs x.1 x.2) :
    posted trace = pageRequests config jobs 0 ∧ r = .ok (activeJobs jobs) := by
  unfold listActive at h
  rw [hlookout] at h
  exact gives_listActiveFrom (k := 0) h hlists (Nat.zero_le _) (by omega)

theorem exists_lists (jobs : List LookoutJob) (q : Request) : ∃ a, Lists jobs q a := by
  cases q with
  | turn => exact ⟨(), trivial⟩
  | lookedUp id found => exact ⟨(), trivial⟩
  | tokenFile path => exact ⟨.ok "t", "t", rfl, by decide⟩
  | post base authorization body =>
    cases body with
    | lookout request =>
      exact ⟨.ok (.ok (.ok { jobs := some ((jobs.drop request.skip).take request.take) })), _, rfl, rfl⟩
    | submit request => exact ⟨.error (error ""), trivial⟩
    | watch request => exact ⟨.error (error ""), trivial⟩
    | cancel request => exact ⟨.error (error ""), trivial⟩
    | status request => exact ⟨.error (error ""), trivial⟩
  | probe url => exact ⟨.ok, trivial⟩
  | agent endpoint request =>
    cases request with
    | writeFiles files => exact ⟨.ok (), trivial⟩
    | _ => exact ⟨.error (error ""), trivial⟩

end

/-! ## What the directory knows afterwards -/

section
variable {R : Shared → Shared → Prop} {config : ArmadaConfig} {id : SandboxId} {owner : Option SandboxOwner}
variable {s t : Shared} {trace : Answers} {r : Except JsError Queue}

theorem leads_resolve_remembered {queue : Queue} (h : s.remembered id = some queue) :
    Leads R (resolve config (lookup config) id owner) s trace t r ↔ trace = [] ∧ t = s ∧ r = .ok queue := by
  simp [leads_resolve, h]

/-- What is known of a sandbox is all of the state that its `resolve` looks at. -/
theorem leads_resolve_of_same (refl : ∀ s, R s s) {s₁ : Shared} (hsame : s.remembered id = s₁.remembered id)
    (h : Leads R (resolve config (lookup config) id owner) s trace t r) :
    ∃ t₁, Leads R (resolve config (lookup config) id owner) s₁ trace t₁ r := by
  rcases leads_resolve.mp h with ⟨known, hknown, rfl, rfl, rfl⟩ | ⟨hnone, hmapped, rfl, rfl, rfl⟩ |
    ⟨hnone, hmapped, outcome, before, after, s₂, s₃, rfl, hfind, hR, hend⟩
  · exact ⟨s₁, leads_resolve.mpr (.inl ⟨known, by rw [← hsame, hknown], rfl, rfl, rfl⟩)⟩
  · exact ⟨s₁, leads_resolve.mpr (.inr (.inl ⟨by rw [← hsame, hnone], hmapped, rfl, rfl, rfl⟩))⟩
  · have hfind₁ := Leads.of_gives hfind.gives (stateless_await (stateless_findQueue config id)) refl s₁
    have hend₁ : ∃ t₁, Settles config id owner s₁ outcome after t₁ r := by
      cases outcome with
      | error cause => exact ⟨s₁, hend.1, rfl, hend.2.2⟩
      | ok found => exact ⟨_, hend.1, rfl, hend.2.2⟩
    obtain ⟨t₁, hend₁⟩ := hend₁
    exact ⟨t₁, leads_resolve.mpr (.inr (.inr
      ⟨by rw [← hsame, hnone], hmapped, outcome, before, after, s₁, s₁, rfl, hfind₁, refl s₁, hend₁⟩))⟩

end

/-- **Paging is exact on a fixed list**: one request for every full page and one more; one sandbox for each set,
in the place of its first job and with the queue and the time of its last; each of them in that queue from then
on, and every other one where it was. -/
theorem listActive_exact (crypto : Crypto) (config : ArmadaConfig) (made : Nat → Made) (lookout : String)
    (hlookout : config.lookoutUrl = some lookout) (R : Shared → Shared → Prop) (refl : ∀ s, R s s)
    (trans : ∀ s₁ s₂ s₃, R s₁ s₂ → R s₂ s₃ → R s₁ s₃) (jobs : List LookoutJob) (pages : Nat)
    (hpages : jobs.length / listActivePage < pages) (s : Shared) :
    (∃ trace s' r, Leads R (listActive config pages) s trace s' r ∧ ∀ x ∈ trace, Lists jobs x.1 x.2) ∧
    (∀ trace s' r, Leads R (listActive config pages) s trace s' r → (∀ x ∈ trace, Lists jobs x.1 x.2) →
      posted trace = (List.range (jobs.length / listActivePage + 1)).map (fun k =>
        .lookout (listActiveRequest config (listActivePage * k))) ∧ r = .ok (activeJobs jobs)) ∧
    (∃ trace s' r, Leads R (body crypto config made (.listActive pages)) s trace s' r ∧
      ∀ x ∈ trace, Lists jobs x.1 x.2) ∧
    ∀ trace s' r, Leads R (body crypto config made (.listActive pages)) s trace s' r →
      (∀ x ∈ trace, Lists jobs x.1 x.2) →
      posted trace = (List.range (jobs.length / listActivePage + 1)).map (fun k =>
        .lookout (listActiveRequest config (listActivePage * k))) ∧
      r = .ok (.active ((activeJobs jobs).map fun job => (job.id, job.createdAt))) ∧
      (∀ job ∈ activeJobs jobs, ∀ owner trace' t r',
        Leads R (resolve config (lookup config) job.id owner) s' trace' t r' ↔
        trace' = [] ∧ t = s' ∧ r' = .ok (.own job.queue)) ∧
      ∃ s₁, R s s₁ ∧ ∀ id ∉ (activeJobs jobs).map (·.id), s'.remembered id = s₁.remembered id ∧
        ∀ owner trace' r', (∃ t, Leads R (resolve config (lookup config) id owner) s' trace' t r') ↔
          ∃ t, Leads R (resolve config (lookup config) id owner) s₁ trace' t r' := by
  have hrequests : pageRequests config jobs 0 = (List.range (jobs.length / listActivePage + 1)).map fun k =>
      .lookout (listActiveRequest config (listActivePage * k)) := by
    rw [pageRequests, List.range_eq_range', Nat.sub_zero]
  have hnodup : ((activeJobs jobs).map (·.id)).Nodup := by
    rw [← addPage_eq]
    exact @nodup_addPage [] List.nodup_nil jobs
  refine ⟨exists_leads refl (exists_lists jobs) _ s, fun trace s' r h hlists => ?_,
    exists_leads refl (exists_lists jobs) _ s, fun trace s' r h hlists => ?_⟩
  · rw [← hrequests]
    exact gives_listActive hlookout hpages h.gives hlists
  · rcases leads_bind.mp h with ⟨x, rfl, hfail⟩ | ⟨listed, before, after, s₁, rfl, hlist, hrest⟩
    · obtain ⟨asked, rfl, hasked⟩ := gives_await hfail.gives
      rw [List.forall_mem_append] at hlists
      cases (gives_listActive hlookout hpages hasked hlists.1).2
    · have hR := hlist.rely (stateless_await (stateless_listActive config pages)) refl trans
      obtain ⟨asked, rfl, hasked⟩ := gives_await hlist.gives
      rw [List.forall_mem_append, List.forall_mem_append] at hlists
      obtain ⟨hposted, hlisted⟩ := gives_listActive hlookout hpages hasked hlists.1.1
      obtain rfl := Except.ok.inj hlisted
      rcases leads_bind.mp hrest with ⟨x, rfl, hmodify⟩ | ⟨⟨⟩, none₁, none₂, s₂, rfl, hmodify, hreturn⟩
      · cases (leads_modify.mp hmodify).2.2
      · obtain ⟨rfl, rfl, -⟩ := leads_modify.mp hmodify
        obtain ⟨rfl, rfl, rfl⟩ := leads_pure.mp hreturn
        have hremembered := fun id => @remembered_rememberActive id _ hnodup s₁
        refine ⟨?_, rfl, fun job hjob owner trace' t r' => ?_, s₁, hR, fun id hid => ?_⟩
        · rw [posted_append, posted_append, posted_turn, hposted, hrequests, List.append_nil]
          exact List.append_nil _
        · refine leads_resolve_remembered ?_
          rw [hremembered, queueIn_of_mem hnodup hjob]
          rfl
        · have hsame : (rememberActive (activeJobs jobs) s₁).remembered id = s₁.remembered id := by
            rw [hremembered, Option.not_isSome_iff_eq_none.mp (mt mem_iff_queueIn.mpr hid)]
            rfl
          refine ⟨hsame, fun owner trace' r' => ⟨?_, ?_⟩⟩
          · rintro ⟨t, ht⟩
            exact leads_resolve_of_same refl hsame ht
          · rintro ⟨t, ht⟩
            exact leads_resolve_of_same refl hsame.symm ht

/-- Two jobs of sandbox `s`, the later one in another queue, one of `t`, and one of no sandbox. -/
def fourJobs : List LookoutJob :=
  [{ jobId := none, queue := some "default", jobSet := some "s", state := none, submitted := some "1" },
   { jobId := none, queue := some "default", jobSet := none, state := none, submitted := some "2" },
   { jobId := none, queue := some "default", jobSet := some "t", state := none, submitted := some "3" },
   { jobId := none, queue := some "team", jobSet := some "s", state := none, submitted := some "4" }]

theorem activeJobs_fourJobs : activeJobs fourJobs =
    [{ id := "s", queue := "team", createdAt := some "4" },
      { id := "t", queue := "default", createdAt := some "3" }] := by
  decide

theorem listActive_exact_fourJobs :
    ∃ trace s', Leads Eq (body digests mappedConfig created (.listActive 1)) Shared.init trace s'
      (.ok (.active [("s", some "4"), ("t", some "3")])) ∧
      posted trace = [.lookout (listActiveRequest mappedConfig 0)] ∧
      ∀ owner, Leads Eq (resolve mappedConfig (lookup mappedConfig) "s" owner) s' [] s' (.ok (.own "team")) := by
  obtain ⟨-, -, ⟨trace, s', r, h, hlists⟩, hall⟩ := listActive_exact digests mappedConfig created "http://lookout" rfl
    Eq (fun _ => rfl) (fun _ _ _ h h' => h.trans h') fourJobs 1 (by decide) Shared.init
  obtain ⟨hposted, rfl, hown, -⟩ := hall trace s' r h hlists
  rw [activeJobs_fourJobs] at h hown
  exact ⟨trace, s', h, hposted, fun owner => (hown _ (List.mem_cons_self ..) owner [] s' _).mpr ⟨rfl, rfl, rfl⟩⟩

end ComputeArmada.Adapter
