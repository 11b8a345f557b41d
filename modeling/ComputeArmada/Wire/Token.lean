import Mathlib.Data.Vector.Basic
import ComputeArmada.Adapter.Fleet
import ComputeArmada.Wire.Request

/-!
# The token of a sandbox

Derived by every process from the shared secret, hashed into the pod's environment by the one that submitted,
and checked by the agent.

* `Digests`, `Digests.crypto` : the digests, and their hex texts of `node:crypto`;
* `Started` : what the agent of a sandbox is started with;
* `main_started` : the agent starts, with the hash of the sandbox's token;
* `tokens_agree` : it runs the handler of every request of every channel, and for nobody else's token.
-/

namespace ComputeArmada.Wire
open Adapter Agent Async Runs

structure Digests where
  hmacSha256 : (key data : List UInt8) → List.Vector UInt8 32
  sha256 : (data : List UInt8) → List.Vector UInt8 32

namespace Digests

/-- `digest('hex')`, of strings. -/
def crypto (digests : Digests) (table : Js.UpperCase) : Crypto where
  hmacSha256 key data := String.ofList (Hex.encode (digests.hmacSha256 (bytes key) (bytes data)).toList)
  sha256 data := String.ofList (Hex.encode (digests.sha256 (bytes data)).toList)
  upperCase := table

/-- `sha256.Sum256`. -/
def sum256 (digests : Digests) (data : List UInt8) : List UInt8 := (digests.sha256 data).toList

/-- The sandbox's token: the hex digest of its id under the secret. -/
def token (digests : Digests) (secret : String) (id : SandboxId) : List UInt8 :=
  Utf8.encode (Hex.encode (digests.hmacSha256 (bytes secret) (bytes id)).toList)

end Digests

/-- The value of `MH_AGENT_TOKEN_SHA256` for an agent of the sandbox: the one in the pod spec of a job of it,
whoever submitted that, or of a pod. -/
inductive Started (id : SandboxId) (e : Server) : String → Prop
  | job {j : Job} (h : j ∈ e.jobs) (hset : j.jobSet = id) : Started id e j.tokenSha256
  | pod {p : Pod} (h : p ∈ e.pods) (hset : p.jobSet = id) : Started id e p.tokenSha256

theorem Started.hash {hash env : String} {id : SandboxId} {e : Server} (h : Started id e env)
    (he : Agreed hash id e) : env = hash := by
  cases h with
  | job h hset => exact he.jobs _ h hset
  | pod h hset => exact he.pods _ h hset

section
variable (digests : Digests) (table : Js.UpperCase) (secret : String) (id : SandboxId)

theorem bytes_agentToken : bytes (agentToken (digests.crypto table) secret id) = digests.token secret id :=
  bytes_ofList _

/-- What the adapter writes in hex the agent reads. -/
theorem main_started : main (bytes ((digests.crypto table).sha256 (agentToken (digests.crypto table) secret id))) =
    some (digests.sum256 (digests.token secret id)) := by
  have hdecode : Hex.decode (bytes ((digests.crypto table).sha256 (agentToken (digests.crypto table) secret id))) =
      some (digests.sum256 (digests.token secret id)) := by
    rw [Digests.sum256, ← bytes_agentToken]
    exact (congrArg Hex.decode (bytes_ofList _)).trans (Hex.decode_encode _)
  rw [main, hdecode]
  exact if_pos (List.Vector.toList_length _)

end

/-! ## Requests of a channel -/

/-- Every request of a channel is one that some handler but `/healthz` is for. -/
theorem fetches_route {endpoint : AgentEndpoint} {r : HttpRequest} (h : AgentChannel.Fetches endpoint r) :
    ∃ route, route ≠ .healthz ∧ mux (received r).method (received r).path = some route := by
  have hpath : ∃ route : Route, route ≠ .healthz ∧ (received r).path = route.pattern.2 ∧
    r.method = route.pattern.1 := by
    cases h with
    | asked h =>
      rename_i request
      cases request with
      | run command timeoutMs =>
        obtain rfl := List.mem_singleton.mp h
        exact ⟨.exec, by decide, received_bare (by decide : '?' ∉ "/exec".toList), rfl⟩
      | stream command timeoutMs =>
        obtain rfl := List.mem_singleton.mp h
        exact ⟨.exec, by decide, received_bare (by decide : '?' ∉ "/exec".toList), rfl⟩
      | writeFiles files =>
        obtain ⟨file, -, rfl⟩ := List.mem_map.mp h
        exact ⟨.writeFile, by decide, (received_path filePath_eq (by decide)).1, rfl⟩
      | readFile path =>
        obtain rfl := List.mem_singleton.mp h
        exact ⟨.readFile, by decide, (received_path filePath_eq (by decide)).1, rfl⟩
      | readFileBounded path maxBytes timeoutMs =>
        obtain rfl := List.mem_singleton.mp h
        exact ⟨.readFileBounded, by decide, (received_path boundedPath_eq (by decide)).1, rfl⟩
      | listFiles path recursive =>
        obtain rfl := List.mem_singleton.mp h
        exact ⟨.listFiles, by decide, (received_path listPath_eq (by decide)).1, rfl⟩
      | startProcess command cwd =>
        obtain rfl := List.mem_singleton.mp h
        exact ⟨.startProcess, by decide, received_bare (by decide : '?' ∉ "/process/start".toList), rfl⟩
      | waitForPort port timeoutMs pid probe =>
        obtain rfl := List.mem_singleton.mp h
        exact ⟨.waitPort, by decide, received_bare (by decide : '?' ∉ "/process/waitport".toList), rfl⟩
      | signalProcess pid signal =>
        obtain rfl := List.mem_singleton.mp h
        exact ⟨.signalProcess, by decide, received_bare (by decide : '?' ∉ "/process/signal".toList), rfl⟩
      | processLogs pid =>
        obtain rfl := List.mem_singleton.mp h
        have hpath : "/process/logs?pid=" = "/process/logs" ++ "?" ++ "pid=" := by decide
        exact ⟨.processLogs, by decide, (received_path (query_append hpath) (by decide)).1, rfl⟩
    | processStatus pid =>
      have hpath : "/process/status?pid=" = "/process/status" ++ "?" ++ "pid=" := by decide
      exact ⟨.processStatus, by decide, (received_path (query_append hpath) (by decide)).1, rfl⟩
  obtain ⟨route, hroute, hpath, hmethod⟩ := hpath
  exact ⟨route, hroute, by rw [hpath]; change mux r.method _ = _; rw [hmethod]; cases route <;> decide⟩

theorem fetches_authorized {digests : Digests} {table : Js.UpperCase} {secret : String} {id : SandboxId}
    {endpoint : AgentEndpoint}
    {r : HttpRequest} (h : AgentChannel.Fetches endpoint r)
    (htoken : endpoint.token = agentToken (digests.crypto table) secret id) :
    Authorized digests.sum256 (digests.sum256 (digests.token secret id)) (received r) := by
  refine ⟨digests.token secret id, ?_, rfl⟩
  have hheader : (received r).authorizationHeader = bytes ("Bearer " ++ endpoint.token) := by
    rw [Request.authorizationHeader, received, h.authorization]
    rfl
  rw [hheader, bytes_append, htoken, bytes_agentToken]

/-- **Adapter and agent agree on the token**: however many processes share the secret, and whatever their
instances of the sandbox have done, the agent that any of its jobs starts runs the handler of every request of
every channel they have. Of all requests to a route but `/healthz` it runs the handler of those whose
`Authorization` is `Bearer` and a token with the hash of the sandbox's own; it answers the others 401, and
that is all that happens. -/
theorem tokens_agree (digests : Digests) (table : Js.UpperCase) (secret : String) (configs : Nat → ArmadaConfig)
    (hsecret : ∀ p, (configs p).agentTokenSecret = secret) (made : Nat → Nat → Made) (id : SandboxId) (e : Server)
    (hjobs : ∀ j ∈ e.jobs, j.jobSet ≠ id) (hpods : ∀ p ∈ e.pods, p.jobSet ≠ id) (f : Adapter.Fleet)
    (h : Run (Fires (Async.Fleet.step (processes (digests.crypto table) configs made))) Any (.start .init e) f)
    (env : String) (hstarted : Started id f.env env) :
    ∃ hash, main (bytes env) = some hash ∧
      (∀ p channel, HasChannel (made p) id (f.world p) channel → ∀ r, r = AgentChannel.healthz channel ∨
        AgentChannel.Fetches channel r →
        ∃ route, mux (received r).method (received r).path = some route ∧
          routes digests.sum256 hash (received r) = some (.handler route)) ∧
      ∀ r route, mux r.method r.path = some route → route ≠ .healthz →
        (routes digests.sum256 hash r = some (.handler route) ↔
          ∃ token, r.authorizationHeader = bytes "Bearer " ++ token ∧
          digests.sum256 token = digests.sum256 (digests.token secret id)) ∧
        ((¬ ∃ token, r.authorizationHeader = bytes "Bearer " ++ token ∧
          digests.sum256 token = digests.sum256 (digests.token secret id)) →
          ∃ served response, routes digests.sum256 hash r = some served ∧ response.status = 401 ∧
            ∀ (σ : Type) handlers (s : σ), served.run handlers r s = (response, s)) := by
  have he : Agreed ((digests.crypto table).sha256 (agentToken (digests.crypto table) secret id)) id e :=
    ⟨fun j hj hset => absurd hset (hjobs j hj), fun p hp hset => absurd hset (hpods p hp)⟩
  have henv := hstarted.hash (agreed_of_run hsecret he h)
  refine ⟨digests.sum256 (digests.token secret id), henv ▸ main_started digests table secret id, ?_, ?_⟩
  · rintro p channel hchannel r (rfl | hr)
    · have hpath : (received (AgentChannel.healthz channel)).path = "/healthz" :=
        received_bare (by decide : '?' ∉ "/healthz".toList)
      have hmux : mux (received (AgentChannel.healthz channel)).method (received (AgentChannel.healthz channel)).path =
          some .healthz := by
        rw [hpath]
        change mux "GET" "/healthz" = _
        decide
      refine ⟨.healthz, hmux, ?_⟩
      rw [routes, hmux, Option.map_some]
    obtain ⟨route, hroute, hmux⟩ := fetches_route hr
    exact ⟨route, hmux, (routes_authorized hmux hroute).mpr
      (fetches_authorized hr (token_of_run hsecret he h hchannel))⟩
  · intro r route hmux hroute
    refine ⟨routes_authorized hmux hroute, fun hauth => ?_⟩
    obtain ⟨message, hserved⟩ := routes_refused hmux hroute hauth
    exact ⟨_, writeError 401 message, hserved, rfl, fun _ _ _ => rfl⟩

/-- Of sandbox `s` under `tokenSecret`. -/
def digestsOfS : Digests where
  hmacSha256 _ _ := ⟨[179, 68, 75, 60, 233, 143, 105, 104, 249, 111, 44, 151, 157, 233, 46, 99, 27, 145, 160, 134, 119,
    37, 214, 69, 110, 36, 80, 28, 196, 132, 151, 148], rfl⟩
  sha256 _ := ⟨[163, 239, 72, 191, 205, 243, 40, 252, 61, 56, 139, 202, 79, 20, 252, 210, 136, 84, 9, 187, 92, 144, 141,
    32, 165, 25, 82, 150, 89, 75, 1, 184], rfl⟩

/-- One process submits `s`, its pod starts, and another process is deduped to the job and reaches its agent. -/
def twoProcesses : List (Nat × Step) :=
  (Act.begin 0 (Call.sandbox 0 .ready) :: turns 0 4 ++
    answered 0 (.serves (.submit "j0" "2026-01-01T00:00:00Z" false)) ++ [starts "j0"]).map (fun a => (0, a)) ++
  (reaches 0 ++ [Act.resume 0]).map fun a => (1, a)

theorem tokens_agree_adopted : ∃ (f : Adapter.Fleet) (channel : ControlChannel) (hash : List UInt8),
    HasChannel created "s" (f.world 1) channel ∧
    ∃ route, routes digestsOfS.sum256 hash (received (AgentChannel.readFileRequest channel "/a")) =
    some (.handler route) := by
  obtain ⟨f, hrun, hpod, hchannel⟩ := Run.exists_of_exec
    (Async.Fleet.step (processes (digestsOfS.crypto .ascii) (fun _ => plainConfig) fun _ => created)) Any
    (fun f => (∃ p ∈ f.env.pods, p.jobSet = "s") ∧ ((f.world 1).shared.instances 0).channel.isSome)
    (.start .init .empty) twoProcesses (by decide +kernel)
  obtain ⟨p, hp, hset⟩ := hpod
  obtain ⟨channel, hchannel⟩ := Option.isSome_iff_exists.mp hchannel
  have hhas : HasChannel created "s" (f.world 1) channel := .inl ⟨0, rfl, hchannel⟩
  obtain ⟨hash, -, haccepts, -⟩ := tokens_agree digestsOfS .ascii tokenSecret (fun _ => plainConfig) (fun _ => rfl)
    (fun _ => created)
    "s" .empty (fun _ h => nomatch h) (fun _ h => nomatch h) f hrun p.tokenSha256 (.pod hp hset)
  have hreads : AgentChannel.readFileRequest channel "/a" ∈ AgentChannel.requestsOf channel (.readFile "/a") :=
    List.mem_singleton_self _
  obtain ⟨route, -, hroute⟩ := haccepts 1 channel hhas _ (.inr (.asked hreads))
  exact ⟨f, channel, hash, hhas, route, hroute⟩

end ComputeArmada.Wire
