import ComputeArmada.Lib.Fleet
import ComputeArmada.Adapter.Address

/-!
# Processes with one secret

Any number of processes, each with instances of its own, before and after each other's restarts.

* `processes` : all of them in one environment;
* `Agreed` : what was submitted for a sandbox, and what runs of it, has the hash of its token;
* `HasChannel` : a channel that an instance of the sandbox holds, adopts or asks;
* `agreed_of_run`, `token_of_run` : in every run, these hashes and the tokens of these channels are of one token.
-/

namespace ComputeArmada.Adapter
open Async Runs

/-- Each process with its configuration and its instances. -/
def processes (crypto : Crypto) (configs : Nat → ArmadaConfig) (made : Nat → Nat → Made) (p : Nat) :
    Async.System Shared Answer JsError Result Server Choice Drift Call := process crypto (configs p) (made p)

abbrev Fleet := Async.Fleet Shared Answer JsError Result Server Call

/-- Jobs of the sandbox are submitted with `hash`, and their pods are started with it. -/
structure Agreed (hash : String) (id : SandboxId) (e : Server) : Prop where
  jobs : ∀ j ∈ e.jobs, j.jobSet = id → j.tokenSha256 = hash
  pods : ∀ p ∈ e.pods, p.jobSet = id → p.tokenSha256 = hash

/-- A channel that an instance of the sandbox holds, may adopt, or has asked something. -/
def HasChannel (made : Nat → Made) (id : SandboxId) (w : World) (channel : ControlChannel) : Prop :=
  (∃ me, (made me).id = id ∧ (w.shared.instances me).channel = some channel) ∨
  (∃ placement, w.shared.placements id = some placement ∧ placement.channel = channel) ∨
  ∃ n me op request, (made me).id = id ∧ ((n, .sandbox me op), .agent channel request) ∈ w.log

/-! ## One process -/

section
variable (crypto : Crypto) (config : ArmadaConfig) (made : Nat → Made) (id : SandboxId)

def sharing : Facts :=
  { Facts.anything crypto config made id with own := fun v => Agreed (tokenHash crypto config id) id v.2 }

variable {crypto config made id}

/-- A pod that a move of the environment leaves was there, or is one of a job's. -/
theorem pods_of_drift {e e' : Server} {d : Drift} (h : drift config e d = some e') {p : Pod} (hp : p ∈ e'.pods) :
    (∃ p' ∈ e.pods, ∃ live, p = { p' with live }) ∨ ∃ j ∈ e.jobs, ∃ url, p = newPod j url := by
  cases d with
  | state jobId state =>
    cases h
    exact .inl ⟨p, hp, p.live, rfl⟩
  | stop url =>
    cases h
    obtain ⟨p', hp', rfl⟩ := List.mem_map.mp hp
    refine .inl ⟨p', hp', ?_⟩
    split
    · exact ⟨false, rfl⟩
    · exact ⟨p'.live, rfl⟩
  | pod jobId location addresses =>
    simp only [drift] at h
    split at h
    · rename_i j url hfind _
      split at h
      · cases h
        rcases List.mem_append.mp hp with hp | hp
        · exact .inl ⟨p, hp, p.live, rfl⟩
        · exact .inr ⟨j, List.mem_of_find?_eq_some hfind, url, List.mem_singleton.mp hp⟩
      · cases h
    · cases h
  | event jobId message =>
    simp only [drift] at h
    split at h
    · split at h
      · cases h
        exact .inl ⟨p, hp, p.live, rfl⟩
      · cases h
    · cases h

theorem Agreed.drift {hash : String} {e e' : Server} {d : Drift} (h : Agreed hash id e)
    (hdrift : drift config e d = some e') : Agreed hash id e' := by
  constructor
  · obtain ⟨f, hjobs, hf⟩ := jobs_of_drift hdrift
    intro j' hj' hset
    rw [hjobs] at hj'
    obtain ⟨j, hj, rfl⟩ := List.mem_map.mp hj'
    obtain ⟨state, heq, -⟩ := hf j
    rw [heq] at hset ⊢
    exact h.jobs j hj hset
  · intro p hp hset
    rcases pods_of_drift hdrift hp with ⟨p', hp', live, rfl⟩ | ⟨j, hj, url, rfl⟩
    · exact h.pods p' hp' hset
    · exact h.jobs j hj hset

theorem sharing_lawful : (sharing crypto config made id).Lawful where
  refl _ := trivial
  trans _ _ _ _ _ := trivial
  queue_later _ _ _ _ _ _ := trivial
  job_later _ _ _ _ _ _ := trivial
  url_later _ _ _ _ _ _ := trivial
  vacant_later _ _ _ _ _ := trivial
  job_queue _ _ _ _ := trivial
  known _ _ _ := trivial
  unmapped _ _ _ := trivial
  unasked _ _ _ _ := trivial
  found _ _ hown _ := ⟨hown, trivial⟩
  placed _ _ _ hown _ _ := ⟨hown, trivial, trivial⟩
  forgotten _ _ hown := ⟨hown, trivial⟩
  reply _ _ _ _ _ _ _ hissued hserve := Facts.gotReply_of_queue hissued hserve (fun _ _ => trivial)
    (fun _ _ => trivial) (fun _ => trivial) (fun _ _ _ => trivial) fun _ => trivial
  respond := by
    intro c q ch a v e hown hissued hresp _
    refine ⟨⟨fun j hj hset => ?_, fun p hp hset => ?_⟩, trivial⟩
    · rcases jobs_of_respond hresp hj with ⟨j', hj', state, rfl, -⟩ | ⟨base, authorization, body, rfl, hsubmits⟩
      · exact hown.jobs j' hj' hset
      · rw [(hissued.submits hsubmits).2.2.1, hset]
        rfl
    · rw [(rest_of_respond hresp).2] at hp
      exact hown.pods p hp hset
  drift := by
    intro d v e hown hdrift _
    exact ⟨hown.drift hdrift, trivial⟩

theorem sharing_allowed (w : World) (a : Step) :
    Allowed (process crypto config made) (sharing crypto config made id).spec w a :=
  ⟨fun _ _ _ _ => trivial, fun _ _ _ _ _ _ _ _ _ _ _ => trivial, fun _ _ => trivial⟩

theorem sharing_later {s : Shared} {e e' : Server} (h : (sharing crypto config made id).Inv s e) (hl : e.Later e')
    (hown : Agreed (tokenHash crypto config id) id e') : (sharing crypto config made id).Inv s e' :=
  h.later sharing_lawful hl hown trivial

theorem token_of_holds {w : World} {channel : ControlChannel}
    (hw : Holds (sharing crypto config made id).spec w) (h : HasChannel made id w channel) :
    channel.token = agentToken crypto config.agentTokenSecret id := by
  rcases h with ⟨me, rfl, hme⟩ | ⟨placement, hplacement, rfl⟩ | ⟨n, me, op, request, rfl, hasked⟩
  · exact (hw.inv.channel me channel hme).token
  · exact (hw.inv.placement id placement hplacement).2.token
  · obtain ⟨me', op', hcall, hfits⟩ := hw.log _ hasked
    cases hcall
    exact hfits.token

end

/-! ## All of them -/

section
variable {crypto : Crypto} {configs : Nat → ArmadaConfig} {made : Nat → Nat → Made} {id : SandboxId} {secret : String}

theorem processes_undisturbed (hsecret : ∀ p, (configs p).agentTokenSecret = secret) :
    Undisturbed (processes crypto configs made) fun p => (sharing crypto (configs p) (made p) id).spec := by
  intro p q w w' a s _ hw' hstep hinv
  have hhash : tokenHash crypto (configs p) id = tokenHash crypto (configs q) id := by
    rw [tokenHash, tokenHash, hsecret, hsecret]
  have hl : w.env.Later w'.env := by
    rcases System.env_cases hstep with henv | ⟨n, ch, l, r, k, x, -, -, hresp⟩ | ⟨d, -, hd⟩
    · exact henv ▸ .refl _
    · exact respond_later hresp
    · exact drift_later hd
  have hown : Agreed (tokenHash crypto (configs p) id) id w'.env := hw'.inv.own
  exact ⟨sharing_later hinv hl (hhash ▸ hown), hl, trivial⟩

theorem holds_of_run (hsecret : ∀ p, (configs p).agentTokenSecret = secret) {e : Server} {f : Fleet}
    (he : Agreed (crypto.sha256 (agentToken crypto secret id)) id e)
    (h : Run (Fires (Fleet.step (processes crypto configs made))) Any (.start .init e) f) (p : Nat) :
    Holds (sharing crypto (configs p) (made p) id).spec (f.world p) := by
  have hsound : ∀ p, Sound (processes crypto configs made p) (sharing crypto (configs p) (made p) id).spec :=
    fun p => sharing_lawful.sound
  refine Fleet.holds hsound (fun p => sharing_allowed) (processes_undisturbed hsecret)
    (Fleet.holds_start fun p => ?_) h p
  have hp : Agreed (tokenHash crypto (configs p) id) id e := by
    rw [tokenHash, hsecret]
    exact he
  exact (Facts.holds_init (F := sharing crypto (configs p) (made p) id) hp).inv

/-- Whatever runs of the sandbox was started with the hash of its token. -/
theorem agreed_of_run (hsecret : ∀ p, (configs p).agentTokenSecret = secret) {e : Server} {f : Fleet}
    (he : Agreed (crypto.sha256 (agentToken crypto secret id)) id e)
    (h : Run (Fires (Fleet.step (processes crypto configs made))) Any (.start .init e) f) :
    Agreed (crypto.sha256 (agentToken crypto secret id)) id f.env := by
  have hown : Agreed (tokenHash crypto (configs 0) id) id f.env := (holds_of_run hsecret he h 0).inv.own
  rwa [tokenHash, hsecret] at hown

/-- Whatever channel an instance of the sandbox has presents its token. -/
theorem token_of_run (hsecret : ∀ p, (configs p).agentTokenSecret = secret) {e : Server} {f : Fleet}
    (he : Agreed (crypto.sha256 (agentToken crypto secret id)) id e)
    (h : Run (Fires (Fleet.step (processes crypto configs made))) Any (.start .init e) f) {p : Nat}
    {channel : ControlChannel} (hchannel : HasChannel (made p) id (f.world p) channel) :
    channel.token = agentToken crypto secret id := by
  rw [← hsecret p]
  exact token_of_holds (holds_of_run hsecret he h p) hchannel

end

end ComputeArmada.Adapter
