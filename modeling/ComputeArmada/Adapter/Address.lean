import ComputeArmada.Adapter.Restart

/-!
# Whose agent a sandbox reaches

An agent answers `/healthz` to anyone, and an event stream replays the addresses of pods that are gone. A
channel is thus opened at an address that some pod of the sandbox has had.

* `Sane` : a server whose pods, tokens and events are those of its jobs;
* `OwnAddresses` : no other sandbox's pod answers where one of this sandbox's has, and its own pods run no
  longer than their jobs;
* `ready_reaches_own` : where that holds when a `ready()` resolves, the agent at the address it adopted is in a
  pod of this sandbox's unfinished job and accepts its token;
* `ready_reaches_other` : where it does not, a stranger's agent will do.
-/

namespace ComputeArmada.Adapter
open Async Runs

section
variable (crypto : Crypto) (config : ArmadaConfig) (made : Nat → Made) (id : SandboxId)

/-- The hash that the sandbox's pods are started with. -/
def tokenHash : String := crypto.sha256 (agentToken crypto config.agentTokenSecret id)

/-- A server as the adapter's processes leave it. -/
structure Sane (e : Server) : Prop where
  pods : ∀ p ∈ e.pods, ∃ j ∈ e.jobs, j.jobId = p.jobId ∧ j.jobSet = p.jobSet ∧ j.tokenSha256 = p.tokenSha256
  tokens : ∀ j ∈ e.jobs, j.jobSet = id → j.tokenSha256 = tokenHash crypto config id
  events : ∀ ev ∈ e.events, ev.jobSet = id → ∀ info addresses, ev.message.ingressInfo = some info →
    info.ingressAddresses = some addresses → ∀ url, agentUrl config addresses = some url →
      ∃ p ∈ e.pods, p.url = url ∧ p.jobSet = id

def ownAgent : Facts where
  crypto := crypto
  config := config
  made := made
  id := id
  own v := Sane crypto config id v.2
  rely _ _ := True
  queue _ _ := True
  job _ _ := True
  url url v := ∃ p ∈ v.2.pods, p.url = url ∧ p.jobSet = id
  vacant _ := True
  mayPlace _ _ := True
  destroys := True
  moves _ _ := True

variable {crypto config made id}

theorem url_later {url : String} {e e' : Server} (hl : e.Later e')
    (h : ∃ p ∈ e.pods, p.url = url ∧ p.jobSet = id) : ∃ p ∈ e'.pods, p.url = url ∧ p.jobSet = id := by
  obtain ⟨p, hp, hurl, hset⟩ := h
  obtain ⟨_, hp', live, rfl⟩ := hl.pods p hp
  exact ⟨_, hp', hurl, hset⟩

theorem Sane.later {e e' : Server} (h : Sane crypto config id e) (hl : e.Later e')
    (hpods : ∀ p' ∈ e'.pods, ∃ p ∈ e.pods, ∃ live, p' = { p with live })
    (hevents : ∀ ev ∈ e'.events, ev ∈ e.events ∨ ev.message.ingressInfo = none)
    (hjobs : ∀ j ∈ e'.jobs, (∃ j' ∈ e.jobs, j'.Later j) ∨
      (j.jobSet = id → j.tokenSha256 = tokenHash crypto config id)) : Sane crypto config id e' := by
  refine ⟨fun p' hp' => ?_, fun j hj hset => ?_, fun ev hev hset info addresses hinfo haddr url hurl => ?_⟩
  · obtain ⟨p, hp, live, rfl⟩ := hpods p' hp'
    obtain ⟨j, hj, hid, hset, htoken⟩ := h.pods p hp
    obtain ⟨j', hj', state, rfl, -⟩ := hl.jobs j hj
    exact ⟨_, hj', hid, hset, htoken⟩
  · rcases hjobs j hj with ⟨j', hj', state, rfl, -⟩ | hnew
    · exact h.tokens j' hj' hset
    · exact hnew hset
  · rcases hevents ev hev with hev | hnone
    · exact url_later hl (h.events ev hev hset info addresses hinfo haddr url hurl)
    · rw [hnone] at hinfo
      cases hinfo

theorem Sane.drift {e e' : Server} {d : Drift} (h : Sane crypto config id e)
    (hdrift : drift config e d = some e') : Sane crypto config id e' := by
  have hl := drift_later hdrift
  cases d with
  | state jobId state =>
    cases hdrift
    refine h.later hl (fun p hp => ⟨p, hp, p.live, rfl⟩) (fun _ => .inl) fun j hj => .inl ?_
    obtain ⟨j', hj', rfl⟩ := List.mem_map.mp hj
    exact ⟨j', hj', j'.later_ite _ _⟩
  | stop url =>
    cases hdrift
    refine h.later hl (fun p' hp' => ?_) (fun _ => .inl) fun j hj => .inl ⟨j, hj, .refl j⟩
    obtain ⟨p, hp, rfl⟩ := List.mem_map.mp hp'
    split
    · exact ⟨p, hp, false, rfl⟩
    · exact ⟨p, hp, p.live, rfl⟩
  | event jobId message =>
    simp only [Adapter.drift] at hdrift
    split at hdrift
    · split at hdrift
      · rename_i hnone
        cases hdrift
        refine h.later hl (fun p hp => ⟨p, hp, p.live, rfl⟩) (fun ev hev => ?_) fun j hj => .inl ⟨j, hj, .refl j⟩
        rcases List.mem_append.mp hev with hev | hev
        · exact .inl hev
        · obtain rfl := List.mem_singleton.mp hev
          exact .inr hnone.2
      · cases hdrift
    · cases hdrift
  | pod jobId location addresses =>
    simp only [Adapter.drift] at hdrift
    split at hdrift
    · rename_i j url hfind haddr
      split at hdrift
      · cases hdrift
        have hj : j ∈ e.jobs := List.mem_of_find?_eq_some hfind
        refine ⟨fun p hp => ?_, h.tokens, fun ev hev hset info addresses' hinfo haddr' url' hurl => ?_⟩
        · rcases List.mem_append.mp hp with hp | hp
          · exact h.pods p hp
          · obtain rfl := List.mem_singleton.mp hp
            exact ⟨j, hj, rfl, rfl, rfl⟩
        · rcases List.mem_append.mp hev with hev | hev
          · exact url_later hl (h.events ev hev hset info addresses' hinfo haddr' url' hurl)
          · -- The first of the two events tells where the new pod is.
            simp only [podEvents, List.mem_cons, List.not_mem_nil, or_false] at hev
            rcases hev with rfl | rfl
            · cases hinfo
              cases haddr'
              cases haddr.symm.trans hurl
              exact ⟨_, List.mem_append_right _ (List.mem_singleton_self _), rfl, hset⟩
            · cases hinfo
      · cases hdrift
    · cases hdrift

theorem ownAgent_lawful : (ownAgent crypto config made id).Lawful where
  refl _ := trivial
  trans _ _ _ _ _ := trivial
  queue_later _ _ _ _ _ _ := trivial
  job_later _ _ _ _ _ _ := trivial
  url_later _ _ _ hl _ h := url_later hl h
  vacant_later _ _ _ _ _ := trivial
  job_queue _ _ _ _ := trivial
  known _ _ _ := trivial
  unmapped _ _ _ := trivial
  unasked _ _ _ _ := trivial
  found _ _ hown _ := ⟨hown, trivial⟩
  placed _ _ _ hown _ _ := ⟨hown, trivial, trivial⟩
  forgotten _ _ hown := ⟨hown, trivial⟩
  reply := by
    intro c body pick reply e v hown hissued hserve
    match body, reply with
    | .submit r, .ok response => exact fun _ _ _ => trivial
    | .submit r, .error cause => trivial
    | .status r, .ok response => exact fun _ _ _ => trivial
    | .status r, .error cause => trivial
    | .watch r, some stream =>
      intro hid m info addresses address hm hinfo haddr haddress hne
      obtain ⟨ev, hev, hset, rfl⟩ := mem_watch hserve hm
      have hurl : agentUrl config addresses = some (urlOf config address) := by
        unfold agentUrl
        rw [show addresses.own (toString config.agentPort) = some address from haddress]
        simp [nonempty, hne]
      have hpod := hown.events ev hev (hset.trans hid) info addresses hinfo haddr _ hurl
      exact url_later ((Server.did_of_serve hserve).later.trans (e.later_note _ _ _)) hpod
    | .watch r, none => trivial
    | .cancel r, _ => trivial
    | .lookout r, .error cause => trivial
    | .lookout r, .ok response =>
      obtain ⟨hresp, -⟩ := serve_lookout hserve
      cases hresp
      exact Facts.gotReply_lookout (fun _ _ _ => trivial) fun _ => trivial
  respond := by
    intro c q ch a v e hown hissued hresp _
    obtain ⟨hevents, hpods⟩ := rest_of_respond hresp
    refine ⟨hown.later (respond_later hresp) (fun p hp => ⟨p, hpods ▸ hp, p.live, rfl⟩)
      (fun ev hev => .inl (hevents ▸ hev)) fun j hj => (jobs_of_respond hresp hj).imp_right ?_, trivial⟩
    rintro ⟨base, authorization, body, rfl, hsubmits⟩ hset
    rw [(hissued.submits hsubmits).2.2.1, hset]
    rfl
  drift := by
    intro d v e hown hdrift _
    exact ⟨hown.drift hdrift, trivial⟩

/-! ## When a `ready()` resolves -/

/-- Whatever agent answers at `url` is in a pod of an unfinished job of the sandbox, and accepts `token`. -/
def OwnAgents (crypto : Crypto) (id : SandboxId) (token : String) (e : Server) (url : String) : Prop :=
  ∀ p ∈ e.pods, p.live = true → p.url = url →
    p.jobSet = id ∧ crypto.sha256 token = p.tokenSha256 ∧ ∃ j ∈ e.unfinished id, j.jobId = p.jobId

/-- No other sandbox's pod answers at an address that one of this sandbox's has had, and its own pods that
answer are those of unfinished jobs. -/
structure OwnAddresses (id : SandboxId) (e : Server) : Prop where
  reuse : ∀ p ∈ e.pods, p.jobSet = id → ∀ p' ∈ e.pods, p'.live = true → p'.url = p.url → p'.jobSet = id
  unfinished : ∀ p ∈ e.pods, p.live = true → p.jobSet = id → ∃ j ∈ e.unfinished id, j.jobId = p.jobId

theorem OwnAddresses.agents {e : Server} (h : OwnAddresses id e) (hsane : Sane crypto config id e)
    {url : String} (hurl : ∃ p ∈ e.pods, p.url = url ∧ p.jobSet = id) :
    OwnAgents crypto id (agentToken crypto config.agentTokenSecret id) e url := by
  obtain ⟨p, hp, rfl, hset⟩ := hurl
  intro p' hp' hlive hsame
  have hset' := h.reuse p hp hset p' hp' hlive hsame
  obtain ⟨j, hj, -, hjset, htoken⟩ := hsane.pods p' hp'
  exact ⟨hset', (hsane.tokens j hj (hjset.trans hset')).symm.trans htoken, h.unfinished p' hp' hlive hset'⟩

/-- Call `n` is looking at `url`, and is answered. -/
def looked (w w' : World) (n : Nat) (call : Call) (url : String) : Prop :=
  ∃ k k', w.calls n = some (call, .asking (.probe url) k) ∧
    w'.calls n = some (call, .answered (.probe url) Probe.ok k')

/-- Only a live pod's agent answers. -/
theorem live_of_looked {w w' : World} {a : Step} {n : Nat} {call : Call} {url : String}
    (hstep : (process crypto config made).step w a = some w') (h : looked w w' n call url) :
    w'.env = w.env ∧ ∃ p ∈ w.env.pods, p.live = true ∧ p.url = url := by
  obtain ⟨k, k', hn, hn'⟩ := h
  obtain ⟨ch, -, hresp⟩ := System.answered hstep hn hn'
  change respond w.env n (.probe url) ch = _ at hresp
  cases ch with
  | probed probe =>
    simp only [respond] at hresp
    split at hresp
    · cases hresp
    · rename_i hanswers
      obtain ⟨hok, henv⟩ := Prod.mk.inj (Option.some.inj hresp)
      have hany : w.env.answers url = true := by simpa [hok] using hanswers
      obtain ⟨p, hp, hlive⟩ := List.any_eq_true.mp hany
      exact ⟨henv.symm, p, hp, (of_decide_eq_true hlive).2, (of_decide_eq_true hlive).1⟩
  | free answer => cases hresp
  | fails cause => cases hresp
  | loses cause pick => cases hresp
  | serves pick => cases hresp

theorem ownAgent_allowed (w : World) (a : Step) :
    Allowed (process crypto config made) (ownAgent crypto config made id).spec w a :=
  ⟨fun _ _ _ _ => trivial, fun _ _ _ _ _ _ _ _ _ _ _ => trivial, fun _ _ => trivial⟩

end

/-- **Whose agent it is.** As long as no other sandbox's pod answers where one of this sandbox's has, a
live agent of an unfinished job of the sandbox is what answers every look of its calls, and whatever answers
at the address that a `ready()` has adopted when it resolves is one that accepts the sandbox's token. -/
theorem ready_reaches_own (crypto : Crypto) (config : ArmadaConfig) (made : Nat → Made) (id : SandboxId)
    (e : Server) (hsane : Sane crypto config id e) (w w' : World) (a : Step)
    (h : Run (Fires (process crypto config made).step) Any (World.init e) w)
    (hstep : (process crypto config made).step w a = some w') (hown : OwnAddresses id w.env)
    (n me : Nat) (hid : (made me).id = id) :
    (∀ op url, looked w w' n (.sandbox me op) url →
      OwnAgents crypto id (agentToken crypto config.agentTokenSecret id) w'.env url ∧
        ∃ p ∈ w'.env.pods, p.live = true ∧ p.url = url) ∧
    (resolved w n (.sandbox me .ready) = false → resolved w' n (.sandbox me .ready) = true →
      ∃ channel, (w'.shared.instances me).channel = some channel ∧
        channel.token = agentToken crypto config.agentTokenSecret id ∧
        OwnAgents crypto id channel.token w'.env channel.url) := by
  have hsound := (ownAgent_lawful : (ownAgent crypto config made id).Lawful).sound
  have hw := hsound.holds (fun w a _ => ownAgent_allowed w a)
    (Facts.holds_init (F := ownAgent crypto config made id) hsane) h
  constructor
  · intro op url hlooked
    obtain ⟨henv, hlive⟩ := live_of_looked hstep hlooked
    obtain ⟨k, k', hn, -⟩ := hlooked
    obtain ⟨me', op', hcall, hurl⟩ := (hw.calls n _ _ hn).1
    cases hcall
    rw [henv]
    exact ⟨hown.agents hw.inv.own (hurl hid), hlive⟩
  · intro hbefore hafter
    obtain ⟨x, hafter⟩ := resolved_iff.mp hafter
    have hnot : w.calls n ≠ some (.sandbox me .ready, .settled (.ok x)) := fun hn =>
      nomatch hbefore.symm.trans (resolved_iff.mpr ⟨x, hn⟩)
    have hturn := hsound.settled hw (ownAgent_allowed w a) hstep hnot hafter
    obtain ⟨hw', -⟩ := hsound.step hw (ownAgent_allowed w a) hstep
    obtain ⟨channel, hchannel⟩ := Option.isSome_iff_exists.mp (hturn.reached me rfl ⟨x, rfl⟩)
    have hfits := hw'.inv.channel me channel hchannel
    have htoken : channel.token = agentToken crypto config.agentTokenSecret (made me).id := hfits.token
    have hurl : ∃ p ∈ w'.env.pods, p.url = channel.url ∧ p.jobSet = id := hfits.url hid
    rw [hid] at htoken
    have henv := (System.settled hstep hnot hafter).1
    have hsane' : Sane crypto config id w.env := hw.inv.own
    refine ⟨channel, hchannel, htoken, ?_⟩
    rw [henv] at hurl ⊢
    rw [htoken]
    exact hown.agents hsane' hurl

/-- A deployment of one queue. -/
def plainConfig : ArmadaConfig := { mappedConfig with queueByUser := [] }

/-- Jobs of sandboxes `s` and `t`, running. -/
def twoSandboxes : Server :=
  { Server.empty with
    jobs := [{ jobOfS with queue := "default", state := .running },
      { jobOfS with jobId := "j1", queue := "default", jobSet := "t", clientId := "t", externalJobUri := "t"
                    tokenSha256 := digests.sha256 (agentToken digests tokenSecret "t"), state := .running }] }

theorem sane_twoSandboxes : Sane digests plainConfig "s" twoSandboxes where
  pods := fun _ h => nomatch h
  tokens := by decide
  events := fun _ h => nomatch h

/-- A job's pod starts. -/
def starts (jobId : String) : Step :=
  .drift (.pod jobId { clusterId := "c", podName := jobId, podNamespace := "default", nodeName := none }
    [("2719", "10.0.0.1:30000")])

/-- A `ready()` whose submit is deduped, as far as the turn in which it resolves. -/
def reaches (n : Nat) : List Step :=
  .begin n (.sandbox n .ready) :: turns n 4 ++
    answered n (.serves (.submit "j2" "2026-01-01T00:00:00Z" false)) ++ turns n 7 ++
    answered n (.serves (.watch 2 none)) ++ turns n 5 ++ answered n (.serves (.watch 2 none)) ++ turns n 4 ++
    answered n (.probed .ok) ++ [.serve n nextTurn]

theorem ready_reaches_own_fresh :
    ∃ w w' : World, resolved w' 0 (.sandbox 0 .ready) = true ∧ (∃ p ∈ w.env.pods, p.live = true) ∧
      (∃ channel, (w'.shared.instances 0).channel = some channel ∧
        channel.token = agentToken digests plainConfig.agentTokenSecret "s" ∧
        OwnAgents digests "s" channel.token w'.env channel.url) := by
  obtain ⟨w, hrun, hlive, hpods, hjobs, hbefore, hafter⟩ := Run.exists_of_exec
    (process digests plainConfig created).step Any
    (fun w => (∃ p ∈ w.env.pods, p.live = true) ∧
      w.env.pods.map (fun p => (p.jobId, p.jobSet)) = [("j0", "s")] ∧
      (w.env.unfinished "s").map (·.jobId) = ["j0"] ∧ resolved w 0 (.sandbox 0 .ready) = false ∧
      ((process digests plainConfig created).step w (.resume 0)).any
        (fun w' => resolved w' 0 (.sandbox 0 .ready)) = true)
    (World.init twoSandboxes) (starts "j0" :: reaches 0) (by decide +kernel)
  obtain ⟨w', hstep, hafter⟩ := (Option.any_eq_true _ _).mp hafter
  have hset : ∀ p ∈ w.env.pods, p.jobId = "j0" ∧ p.jobSet = "s" := by
    intro p hp
    have hmem := List.mem_map_of_mem (f := fun p : Pod => (p.jobId, p.jobSet)) hp
    rw [hpods] at hmem
    simpa using hmem
  have hown : OwnAddresses "s" w.env := by
    refine ⟨fun _ _ _ p' hp' _ _ => (hset p' hp').2, fun p hp _ _ => ?_⟩
    have hmem : "j0" ∈ (w.env.unfinished "s").map (·.jobId) := by simp [hjobs]
    obtain ⟨j, hj, hid⟩ := List.mem_map.mp hmem
    exact ⟨j, hj, hid.trans (hset p hp).1.symm⟩
  exact ⟨w, w', hafter, hlive, (ready_reaches_own digests plainConfig created "s" twoSandboxes sane_twoSandboxes
    w w' (.resume 0) hrun hstep hown 0 0 rfl).2 hbefore hafter⟩

/-- The pod of `s` stops, a pod of `t` starts at its address, and the event stream of `s` still tells of
it: the agent of `t` answers the look. -/
theorem ready_reaches_other :
    Sane digests plainConfig "s" twoSandboxes ∧
    ∃ w, Run (Fires (process digests plainConfig created).step) Any (World.init twoSandboxes) w ∧
      resolved w 0 (.sandbox 0 .ready) = true ∧
      ∃ p ∈ w.env.pods, p.live = true ∧ (w.shared.instances 0).channel.map (·.url) = some p.url ∧
        p.jobSet = "t" ∧ digests.sha256 (agentToken digests plainConfig.agentTokenSecret "s") ≠ p.tokenSha256 :=
  ⟨sane_twoSandboxes, Run.exists_of_exec (process digests plainConfig created).step Any
    (fun w => resolved w 0 (.sandbox 0 .ready) = true ∧
      ∃ p ∈ w.env.pods, p.live = true ∧ (w.shared.instances 0).channel.map (·.url) = some p.url ∧
        p.jobSet = "t" ∧ digests.sha256 (agentToken digests plainConfig.agentTokenSecret "s") ≠ p.tokenSha256)
    (World.init twoSandboxes)
    ([starts "j0", .drift (.stop "http://10.0.0.1:30000"), starts "j1"] ++ reaches 0 ++ [.resume 0])
    (by decide +kernel)⟩

end ComputeArmada.Adapter
