import ComputeArmada.Adapter.Client
import ComputeArmada.Adapter.Settings

/-!
# The configuration

`config.ts`: what the adapter reads from its environment when it starts, and what it refuses to start with.

* `Js.entries` : the properties of a parsed object, `Js.assign` what an assignment to a key makes of a map;
* `Host` : what the reader relies on outside the language: files, URLs, and the table of upper-case letters;
* `readStringMap`, `readGpuNodeSelectors`, `profileGpuTypes`, … : the readers, and `readConfig`, of them all;
* `Says`, `SaysSelectors` : the maps that settings say, and what is read of them (`of_readStringMap`);
* `ReadFrom` : all that an accepted configuration has been read from (`of_readConfig`), and that it is as the rest
  of the adapter relies on it (`ReadFrom.accepted`).
-/

namespace ComputeArmada.Adapter

namespace Js

/-- `s.split(sep)`. -/
def split (s : String) (sep : Char) : List String := (s.toList.splitOn sep).map String.ofList

def startsWith (s start : String) : Bool := start.toList.isPrefixOf s.toList

/-! ## Objects -/

/-- The array index that a key is, if it is one. -/
def arrayIndex (key : String) : Option Nat :=
  match key.toList with
  | [] => none
  | ['0'] => some 0
  | c :: cs => if c = '0' then none else (digits 10 (c :: cs)).filter (· < 2 ^ 32 - 1)

/-- Keys in the order an object has them: array indices by their size, then the others as they came. -/
def ownKeys (keys : List String) : List String :=
  let indices := keys.filterMap fun key => (arrayIndex key).map fun i => (i, key)
  (indices.insertionSort fun p q => p.1 ≤ q.1).map (·.2) ++ keys.filter fun key => arrayIndex key = none

section
variable {α : Type}

/-- `Object.entries` of a parsed object: of a key that occurs again it has the last value. -/
def entries (members : List (String × α)) : List (String × α) :=
  (ownKeys (members.map (·.1)).eraseDups).filterMap fun key => members.reverse.find? fun p => p.1 = key

/-- `r[key] = value`, for a key that no object inherits. -/
def put (r : List (String × α)) (key : String) (value : α) : List (String × α) :=
  if r.any (fun p => p.1 = key) then r.map (fun p => if p.1 = key then (key, value) else p)
  else r ++ [(key, value)]

end

/-- `r[key] = value`. Assigning to `__proto__` calls the setter that every object inherits, which drops a
string. -/
def assign (r : Record) (key value : String) : Record := if key = "__proto__" then r else r.set key value

end Js

/-- What the environment is read with: `JSON.parse`, the upper-case letters, `new URL` and the files. -/
structure Host where
  engine : Engine
  upperCase : Js.UpperCase
  /-- `new URL(value).protocol`; none, where it cannot be parsed. -/
  protocol : String → Option String
  /-- None, where it throws. -/
  readFileSync : String → Option String

/-! ## Single settings -/

section
variable (env : Record) (name : String)

def required : Except JsError String :=
  match nonempty (Record.own env name) with
  | some value => .ok value
  | none => .error (error ("Missing required env var: " ++ name))

def minTokenSecretLength : Nat := 32

def readTokenSecret : Except JsError String := do
  let secret ← required env "ARMADA_AGENT_TOKEN_SECRET"
  if (Js.codeUnits secret).length < minTokenSecretLength then
    throw (error ("ARMADA_AGENT_TOKEN_SECRET must be at least " ++ toString minTokenSecretLength ++
      " characters; generate one with `openssl rand -hex 32`"))
  return secret

def requiredUrl (host : Host) : Except JsError String := do
  let value ← required env name
  let parsed := host.protocol value
  if parsed ≠ some "http:" ∧ parsed ≠ some "https:" then
    throw (error (name ++ " must be an http(s) URL, got: " ++ value))
  return value

def optionalUrl (host : Host) : Except JsError (Option String) :=
  match Record.own env name with
  | none => .ok none
  | some _ => some <$> requiredUrl env name host

def optionalPort (fallback : Nat) : Except JsError Nat :=
  let refused := error (name ++ " must be a port number between 1 and 65535, got: " ++ (Record.own env name).getD "")
  match Record.own env name with
  | none => .ok fallback
  | some raw =>
    match Js.number raw with
    | none => .error refused
    | some value => if value.den = 1 ∧ 1 ≤ value ∧ value ≤ 65535 then .ok value.num.toNat else .error refused

/-- A uid or a gid; zero is root. -/
def optionalId : Except JsError (Option Nat) :=
  let refused := error (name ++ " must be a whole number, got: " ++ (Record.own env name).getD "")
  match Record.own env name with
  | none => .ok none
  | some raw =>
    -- `Number` of a blank is zero.
    match if Js.trim raw = "" then none else Js.number raw with
    | none => .error refused
    | some value => if value.den = 1 ∧ 0 ≤ value then .ok (some value.num.toNat) else .error refused

end

def readImagePullSecrets (env : Record) : Except JsError (List String) :=
  match Record.own env "ARMADA_IMAGE_PULL_SECRETS" with
  | none => .ok []
  | some raw =>
    let names := ((Js.split raw ',').map Js.trim).filter (· ≠ "")
    if names = [] then .error (error "ARMADA_IMAGE_PULL_SECRETS must name at least one secret") else .ok names

def readAuth (host : Host) (env : Record) : Except JsError ArmadaAuth := do
  let username := Record.own env "ARMADA_AUTH_USERNAME"
  let password := Record.own env "ARMADA_AUTH_PASSWORD"
  let token := Record.own env "ARMADA_AUTH_TOKEN"
  let tokenFile := Record.own env "ARMADA_AUTH_TOKEN_FILE"
  let configured :=
    (if username ≠ none ∨ password ≠ none then ["ARMADA_AUTH_USERNAME/PASSWORD"] else []) ++
    (if token ≠ none then ["ARMADA_AUTH_TOKEN"] else []) ++
    (if tokenFile ≠ none then ["ARMADA_AUTH_TOKEN_FILE"] else [])
  if 1 < configured.length then
    throw (error ("Configure one Armada auth mechanism, found: " ++ ", ".intercalate configured))
  if username ≠ none ∨ password ≠ none then
    match nonempty username, nonempty password with
    | some username, some password => return .basic username password
    | _, _ => throw (error "ARMADA_AUTH_USERNAME and ARMADA_AUTH_PASSWORD must be set together")
  match token with
  | some token =>
    if Js.trim token = "" then throw (error "ARMADA_AUTH_TOKEN is empty") else return .bearer (Js.trim token)
  | none =>
    match tokenFile with
    | none => return .anonymous
    | some tokenFile =>
      match host.readFileSync tokenFile with
      | none => throw (error ("ARMADA_AUTH_TOKEN_FILE cannot be read: " ++ tokenFile))
      | some contents =>
        if Js.trim contents = "" then throw (error ("ARMADA_AUTH_TOKEN_FILE is empty: " ++ tokenFile))
        else return .bearerFile tokenFile

/-! ## Maps -/

/-- The entries of the JSON object that a setting is. -/
def jsonObject (engine : Engine) (name raw : String) : Except JsError (List (String × JsonValue)) :=
  match engine.parse raw.toList with
  | .ok (.object members) => .ok (Js.entries members)
  | _ => .error (error (name ++ " must be a JSON object, got: " ++ raw))

/-- One turn of the loop of `readStringMap`. -/
def readString (name : String) (allowEmpty : Bool) (map : Record) (entry : String × JsonValue) :
    Except JsError Record :=
  let refused := error (name ++ ": " ++ entry.1 ++ " must be a " ++
    (if allowEmpty then "" else "non-empty ") ++ "string")
  match entry.2 with
  | .string value =>
    if allowEmpty = false ∧ Js.trim value = "" then .error refused else .ok (Js.assign map entry.1 value)
  | _ => .error refused

def readStringMap (engine : Engine) (env : Record) (name : String) (allowEmpty : Bool) : Except JsError Record :=
  match Record.own env name with
  | none => .ok []
  | some raw => do
    let parsed ← jsonObject engine name raw
    parsed.foldlM (readString name allowEmpty) []

def readExposure (engine : Engine) (env : Record) : Except JsError Exposure := do
  let kind := (Record.own env "ARMADA_EXPOSE").getD "nodeport"
  let ingressVars := ["ARMADA_INGRESS_TLS", "ARMADA_INGRESS_CERT_NAME", "ARMADA_INGRESS_ANNOTATIONS"].filter
    fun name => Record.own env name ≠ none
  if kind = "nodeport" then
    if ingressVars ≠ [] then
      throw (error (", ".intercalate ingressVars ++
        " only apply with ARMADA_EXPOSE=ingress, and ARMADA_EXPOSE is nodeport"))
    return .nodeport
  if kind ≠ "ingress" then throw (error ("ARMADA_EXPOSE must be nodeport or ingress, got: " ++ kind))
  let tlsRaw := (Record.own env "ARMADA_INGRESS_TLS").getD "true"
  if tlsRaw ≠ "true" ∧ tlsRaw ≠ "false" then
    throw (error ("ARMADA_INGRESS_TLS must be true or false, got: " ++ tlsRaw))
  let certName := Record.own env "ARMADA_INGRESS_CERT_NAME"
  if certName.map Js.trim = some "" then throw (error "ARMADA_INGRESS_CERT_NAME is empty")
  return .ingress (tlsRaw = "true") certName (← readStringMap engine env "ARMADA_INGRESS_ANNOTATIONS" false)

/-! ## Surfaces -/

structure Surface where
  id : String
  variableName : String
  defaultPort : Nat

def surfaces : List Surface :=
  [{ id := "vscode", variableName := "MARIMOHUB_SURFACE_VSCODE_PORT", defaultPort := 8443 },
   { id := "opencode", variableName := "MARIMOHUB_SURFACE_OPENCODE_PORT", defaultPort := 4096 }]

def primarySurface : String := "marimo"

def readSurfacePorts (env : Record) : Except JsError (List Nat) := do
  let enabled := (((Js.split ((Record.own env "MARIMOHUB_SURFACES").getD primarySurface) ',').map Js.trim).filter
    (· ≠ "")).eraseDups
  match enabled.find? fun id => id ≠ primarySurface ∧ ∀ surface ∈ surfaces, surface.id ≠ id with
  | some id =>
    throw (error ("MARIMOHUB_SURFACES names \"" ++ id ++ "\", a surface this adapter does not know; it knows " ++
      ", ".intercalate (surfaces.map (·.id))))
  | none =>
    (surfaces.filter fun surface => surface.id ∈ enabled).mapM fun surface =>
      optionalPort env surface.variableName surface.defaultPort

/-! ## GPUs -/

def gpuSelectorsName : String := "ARMADA_GPU_NODE_SELECTORS"

/-- One turn of the loop over the labels of a type. -/
def readLabel (invalid : JsError) (labels : Record) (entry : String × JsonValue) : Except JsError Record :=
  match entry.2 with
  | .string value =>
    if Js.trim entry.1 = "" ∨ Js.trim value = "" then .error invalid else .ok (Js.assign labels entry.1 value)
  | _ => .error invalid

def readSelector (invalid : JsError) (selector : JsonValue) : Except JsError Record :=
  match selector with
  | .object members => do
    let labels ← (Js.entries members).foldlM (readLabel invalid) []
    if labels = [] then throw invalid
    return labels
  | _ => .error invalid

/-- One turn of the loop over the types. An upper-case name is none that an object inherits. -/
def readType (table : Js.UpperCase) (selectors : List (String × Record)) (entry : String × JsonValue) :
    Except JsError (List (String × Record)) := do
  let invalid := error (gpuSelectorsName ++ ": " ++ entry.1 ++ " must be an object of node label to value, like " ++
    "\x7b\"nvidia.com/gpu.product\": \"NVIDIA-A100-SXM4-80GB\"\x7d")
  return Js.put selectors (Js.toUpperCase table entry.1) (← readSelector invalid entry.2)

def readGpuNodeSelectors (host : Host) (env : Record) : Except JsError (List (String × Record)) :=
  match Record.own env gpuSelectorsName with
  | none => .ok []
  | some raw => do
    let parsed ← jsonObject host.engine gpuSelectorsName raw
    let selectors ← parsed.foldlM (readType host.upperCase) []
    if selectors = [] then throw (error (gpuSelectorsName ++ " must map at least one GPU type"))
    return selectors

def profileVariables : List String := ["MARIMOHUB_COMPUTE_PROFILES", "MARIMOHUB_COMPUTE_APP_PROFILES"]

/-- `s.slice(s.indexOf(':') + 1)`. -/
def afterColon (s : String) : String :=
  match s.toList.dropWhile (· ≠ ':') with
  | [] => s
  | _ :: rest => String.ofList rest

/-- The type that a pair of a profile names, if it is its GPU. -/
def pairGpuType (table : Js.UpperCase) (pair : String) : Option String :=
  let pieces := Js.split pair '='
  if Js.trim (pieces.headD "") ≠ "gpu" then none
  else
    let type := Js.toUpperCase table (Js.trim ((Js.split (pieces.tail.headD "") ':').headD ""))
    if type = "" then none else some type

def profileGpuTypes (table : Js.UpperCase) (profiles : Option String) : List String :=
  (Js.split (profiles.getD "") ',').flatMap fun profile =>
    (Js.split (afterColon profile) ';').filterMap (pairGpuType table)

/-! ## Labels and annotations -/

/-- `K8S_NAME`. -/
def isK8sName (s : String) : Bool :=
  s.toList.length ≤ 63 ∧ s.toList.head?.any Char.isAlphanum ∧ s.toList.getLast?.any Char.isAlphanum ∧
    s.toList.all fun c => c.isAlphanum ∨ c = '-' ∨ c = '_' ∨ c = '.'

def isLowerAlphanum (c : Char) : Bool := c.isLower ∨ c.isDigit

/-- `K8S_PREFIX`. -/
def isK8sPrefix (s : String) : Bool :=
  (s.toList.splitOn '.').all fun label =>
    label.head?.any isLowerAlphanum ∧ label.getLast?.any isLowerAlphanum ∧
      label.all fun c => isLowerAlphanum c ∨ c = '-'

/-- Kubernetes' qualified-name rule; the prefix is what stands before the last slash. -/
def isQualifiedName (key : String) : Bool :=
  let cs := key.toList
  if '/' ∈ cs then
    let name := (cs.reverse.takeWhile (· ≠ '/')).reverse
    let before := String.ofList (cs.take (cs.length - name.length - 1))
    (Js.codeUnits before).length ≤ 253 ∧ isK8sPrefix before ∧ isK8sName (String.ofList name)
  else isK8sName key

def isReservedKey (key : String) : Bool :=
  Js.startsWith key "armada_" ∨ Js.startsWith key "armadaproject.io/" ∨ key = sandboxMark

inductive MetadataKind
  | label | annotation
  deriving DecidableEq

def MetadataKind.name : MetadataKind → String
  | .label => "label"
  | MetadataKind.annotation => "annotation"

def checkMetadata (name : String) (kind : MetadataKind) (entry : String × String) : Except JsError Unit := do
  if isQualifiedName entry.1 = false then
    throw (error (name ++ ": " ++ entry.1 ++ " is not a valid " ++ kind.name ++ " key, which is an optional DNS " ++
      "subdomain prefix and a slash, then up to 63 letters, digits, '-', '_' or '.'"))
  if isReservedKey entry.1 then
    throw (error (name ++ ": " ++ entry.1 ++ " is reserved for Armada or for the adapter itself"))
  if kind = .label ∧ entry.2 ≠ "" ∧ isK8sName entry.2 = false then
    throw (error (name ++ ": the value of " ++ entry.1 ++ " is not a valid label value, which is empty or up to 63 " ++
      "letters, digits, '-', '_' or '.', starting and ending with a letter or digit"))

def readPodMetadata (engine : Engine) (env : Record) (name : String) (kind : MetadataKind) : Except JsError Record := do
  let map ← readStringMap engine env name true
  map.forM (checkMetadata name kind)
  return map

/-! ## All of it -/

/-- A day. -/
def defaultMaxLifetimeSeconds : Nat := 24 * 60 * 60

def defaultImage : String := "ghcr.io/marimo-team/marimo-sandbox:latest"

/-- The first of a list of images. -/
def readImage (env : Record) : Except JsError String :=
  let image := match Record.own env "MARIMOHUB_COMPUTE_IMAGE" with
    | none => defaultImage
    | some images => Js.trim ((Js.split images ',').headD "")
  if image = "" then .error (error "MARIMOHUB_COMPUTE_IMAGE must contain at least one image") else .ok image

/-- What marimohub says of a session wins over the setting. -/
def readMaxLifetimeSeconds (env : Record) (sessionMaxLifetimeSeconds : Option Nat) : Except JsError Nat :=
  match sessionMaxLifetimeSeconds with
  | some seconds => .ok seconds
  | none => optionalSeconds env "ARMADA_KERNEL_MAX_LIFETIME_SECONDS" defaultMaxLifetimeSeconds 1

section
variable (host : Host) (env : Record) (sessionMaxLifetimeSeconds : Option Nat)

/-- The settings, each by itself. -/
def readSettings : Except JsError ArmadaConfig := do
  let image ← readImage env
  return {
    url := ← requiredUrl env "ARMADA_URL" host
    expose := ← readExposure host.engine env
    queue := ← required env "ARMADA_QUEUE"
    queueByUser := ← readStringMap host.engine env "ARMADA_QUEUE_BY_USER" false
    queueByProject := ← readStringMap host.engine env "ARMADA_QUEUE_BY_PROJECT" false
    «namespace» := (Record.own env "ARMADA_NAMESPACE").getD "default"
    priorityClassName := Record.own env "ARMADA_PRIORITY_CLASS"
    image
    port := ← optionalPort env "ARMADA_KERNEL_PORT" 2718
    agentImage := ← required env "ARMADA_AGENT_IMAGE"
    agentPort := ← optionalPort env "ARMADA_AGENT_PORT" 8718
    agentTokenSecret := ← readTokenSecret env
    imagePullSecrets := ← readImagePullSecrets env
    runAsUser := ← optionalId env "ARMADA_RUN_AS_USER"
    runAsGroup := ← optionalId env "ARMADA_RUN_AS_GROUP"
    fsGroup := ← optionalId env "ARMADA_FS_GROUP"
    surfacePorts := ← readSurfacePorts env
    gpuNodeSelectors := ← readGpuNodeSelectors host env
    podLabels := ← readPodMetadata host.engine env "ARMADA_POD_LABELS" .label
    podAnnotations := ← readPodMetadata host.engine env "ARMADA_POD_ANNOTATIONS" MetadataKind.annotation
    lookoutUrl := ← optionalUrl env "ARMADA_LOOKOUT_URL" host
    maxLifetimeSeconds := ← readMaxLifetimeSeconds env sessionMaxLifetimeSeconds
    commandMaxSeconds := ← readCommandMaxSeconds env
    auth := ← readAuth host env }

end

/-- The kernel, the agent and the surfaces each have a port. -/
def checkPorts (config : ArmadaConfig) : Except JsError Unit := do
  if config.agentPort = config.port then
    throw (error ("ARMADA_AGENT_PORT and ARMADA_KERNEL_PORT are both " ++ toString config.port ++
      "; the agent and the kernel each need a port"))
  match config.surfacePorts.find? fun port => port = config.agentPort ∨ port = config.port with
  | some port =>
    throw (error ("A surface port (MARIMOHUB_SURFACE_*_PORT) is " ++ toString port ++ ", which is the " ++
      (if port = config.port then "kernel" else "agent") ++ " port; each needs its own"))
  | none => return ()

/-- The types of a list of profiles that no selector is for. -/
def unmappedTypes (table : Js.UpperCase) (config : ArmadaConfig) (profiles : Option String) : List String :=
  (profileGpuTypes table profiles).filter fun type => config.gpuNodeSelectors.all fun p => p.1 ≠ type

def checkVariable (table : Js.UpperCase) (env : Record) (config : ArmadaConfig) (name : String) : Except JsError Unit :=
  let unmapped := unmappedTypes table config (Record.own env name)
  if unmapped = [] then .ok ()
  else .error (error (name ++ " names GPU type " ++ ", ".intercalate unmapped.eraseDups ++
    ", which ARMADA_GPU_NODE_SELECTORS does not map; it maps " ++
    ", ".intercalate (config.gpuNodeSelectors.map (·.1))))

/-- With a selector configured, a profile whose type has none would fail every session. -/
def checkProfiles (table : Js.UpperCase) (env : Record) (config : ArmadaConfig) : Except JsError Unit :=
  if config.gpuNodeSelectors = [] then .ok () else profileVariables.forM (checkVariable table env config)

def checkQueues (config : ArmadaConfig) : Except JsError Unit :=
  let mappedQueues := config.mappedTo.filter (· ≠ config.queue)
  if mappedQueues ≠ [] ∧ config.lookoutUrl = none then
    .error (error ("ARMADA_QUEUE_BY_USER / ARMADA_QUEUE_BY_PROJECT name queues other than ARMADA_QUEUE, which needs " ++
      "ARMADA_LOOKOUT_URL: a sandbox addressed by id alone can only be placed through Lookout"))
  else .ok ()

/-- The configuration, from the environment and the lifetime that marimohub gives a session, if it does. -/
def readConfig (host : Host) (env : Record) (sessionMaxLifetimeSeconds : Option Nat) : Except JsError ArmadaConfig := do
  let config ← readSettings host env sessionMaxLifetimeSeconds
  checkPorts config
  checkProfiles host.upperCase env config
  checkQueues config
  return config

namespace Js

/-! ## Keys -/

section
variable {α : Type}

theorem nodup_eraseDups (keys : List String) : keys.eraseDups.Nodup := by
  induction h : keys.length using Nat.strong_induction_on generalizing keys with
  | _ n ih =>
    cases keys with
    | nil => exact List.nodup_nil
    | cons key keys =>
      rw [List.eraseDups_cons, List.nodup_cons]
      constructor
      · simp
      · exact ih _ (h ▸ Nat.lt_succ_of_le (List.length_filter_le _ _)) _ rfl

theorem perm_ownKeys (keys : List String) : (ownKeys keys).Perm keys := by
  have hindices : (keys.filterMap fun key => (arrayIndex key).map fun i => (i, key)).map (·.2) =
      keys.filter fun key => (arrayIndex key).isSome := by
    induction keys with
    | nil => rfl
    | cons key keys ih => cases h : arrayIndex key <;> simp [h, ih]
  have hrest : (fun key => decide (arrayIndex key = none)) = fun key => !(arrayIndex key).isSome := by
    funext key
    cases arrayIndex key <;> rfl
  unfold ownKeys
  dsimp only
  rw [hrest]
  refine ((((List.perm_insertionSort _ _).map _).trans (.of_eq hindices)).append_right _).trans ?_
  exact List.filter_append_perm ..

theorem mem_entries {members : List (String × α)} {p : String × α} (h : p ∈ entries members) : p ∈ members := by
  obtain ⟨key, -, hfind⟩ := List.mem_filterMap.mp h
  exact List.mem_reverse.mp (List.mem_of_find?_eq_some hfind)

theorem keys_entries (members : List (String × α)) :
    (entries members).map (·.1) = ownKeys (members.map (·.1)).eraseDups := by
  have hfind : ∀ key ∈ ownKeys (members.map (·.1)).eraseDups,
      ((members.reverse.find? fun p => p.1 = key).map (·.1)) = some key := by
    intro key hkey
    have hmem := List.mem_eraseDups.mp ((perm_ownKeys _).mem_iff.mp hkey)
    obtain ⟨p, hp, rfl⟩ := List.mem_map.mp hmem
    have hsome : (members.reverse.find? fun q => q.1 = p.1).isSome :=
      List.find?_isSome.mpr ⟨p, List.mem_reverse.mpr hp, by simp⟩
    obtain ⟨q, hq⟩ := Option.isSome_iff_exists.mp hsome
    have hkey : q.1 = p.1 := by simpa using List.find?_some hq
    rw [hq, Option.map_some, hkey]
  unfold entries
  rw [List.map_filterMap]
  generalize ownKeys (members.map (·.1)).eraseDups = keys at hfind
  induction keys with
  | nil => rfl
  | cons key keys ih =>
    obtain ⟨hkey, hkeys⟩ := List.forall_mem_cons.mp hfind
    rw [List.filterMap_cons, hkey]
    exact congrArg (key :: ·) (ih hkeys)

theorem nodup_entries (members : List (String × α)) : ((entries members).map (·.1)).Nodup := by
  rw [keys_entries]
  exact (perm_ownKeys _).nodup_iff.mpr (nodup_eraseDups _)

theorem put_of_notMem {r : List (String × α)} {key : String} (h : key ∉ r.map (·.1)) (value : α) :
    put r key value = r ++ [(key, value)] := by
  unfold put
  rw [if_neg]
  rw [List.any_eq_true]
  rintro ⟨p, hp, hkey⟩
  exact h (List.mem_map.mpr ⟨p, hp, of_decide_eq_true hkey⟩)

end

theorem assign_of_notMem {r : Record} {key : String} (h : key ∉ r.map (·.1)) (value : String) :
    assign r key value = r ++ [(key, value)].filter (·.1 ≠ "__proto__") := by
  unfold assign
  by_cases hproto : key = "__proto__"
  · simp [hproto]
  · have hset : Record.set r key value = r ++ [(key, value)] := put_of_notMem h value
    simp [hproto, hset]

end Js

/-! ## What the readers find -/

theorem Record.filter_ne_eq_self {r : Record} {key : String} : r.filter (·.1 ≠ key) = r ↔ key ∉ r.map (·.1) := by
  rw [List.filter_eq_self]
  constructor
  · intro h hmem
    obtain ⟨p, hp, hkey⟩ := List.mem_map.mp hmem
    exact of_decide_eq_true (h p hp) hkey
  · exact fun h p hp => decide_eq_true fun hkey => h (hkey ▸ List.mem_map_of_mem hp)

/-- A property whose value is a string, as it is parsed. -/
def jsonString (p : String × String) : String × JsonValue := (p.1, .string p.2)

/-- A loop over the properties of an object that takes strings of a kind and assigns them. -/
theorem foldlM_assign {f : Record → String × JsonValue → Except JsError Record} {P : String × String → Prop}
    (hf : ∀ map entry map', f map entry = .ok map' ↔
      ∃ value, entry.2 = .string value ∧ P (entry.1, value) ∧ map' = Js.assign map entry.1 value)
    {es : List (String × JsonValue)} {map map' : Record} (hkeys : (es.map (·.1)).Nodup)
    (hfresh : ∀ key ∈ es.map (·.1), key ∉ map.map (·.1)) (h : es.foldlM f map = .ok map') :
    ∃ strings : Record, es = strings.map jsonString ∧ (∀ p ∈ strings, P p) ∧
      map' = map ++ strings.filter (·.1 ≠ "__proto__") := by
  induction es generalizing map with
  | nil =>
    cases h
    exact ⟨[], rfl, fun _ h => (nomatch h), (List.append_nil _).symm⟩
  | cons entry es ih =>
    obtain ⟨key, json⟩ := entry
    rw [List.foldlM_cons] at h
    obtain ⟨map₁, hentry, h⟩ := of_bind_ok h
    obtain ⟨value, rfl, hP, rfl⟩ := (hf ..).mp hentry
    rw [Js.assign_of_notMem (hfresh key List.mem_cons_self)] at h
    obtain ⟨hkey, hkeys⟩ := List.nodup_cons.mp hkeys
    have hfresh' : ∀ key' ∈ es.map (·.1), key' ∉ (map ++ [(key, value)].filter (·.1 ≠ "__proto__")).map (·.1) := by
      intro key' hkey' hmem
      rw [List.map_append] at hmem
      rcases List.mem_append.mp hmem with hmem | hmem
      · exact hfresh key' (List.mem_cons_of_mem _ hkey') hmem
      · obtain ⟨p, hp, rfl⟩ := List.mem_map.mp hmem
        obtain rfl := List.mem_singleton.mp (List.mem_of_mem_filter hp)
        exact hkey hkey'
    obtain ⟨strings, rfl, hstrings, rfl⟩ := ih hkeys hfresh' h
    refine ⟨(key, value) :: strings, rfl, List.forall_mem_cons.mpr ⟨hP, hstrings⟩, ?_⟩
    rw [List.append_assoc, ← List.filter_append]
    rfl

theorem readString_iff {name : String} {allowEmpty : Bool} {map map' : Record} {entry : String × JsonValue} :
    readString name allowEmpty map entry = .ok map' ↔ ∃ value, entry.2 = .string value ∧
      (allowEmpty = true ∨ Js.trim value ≠ "") ∧ map' = Js.assign map entry.1 value := by
  obtain ⟨key, json⟩ := entry
  unfold readString
  cases json with
  | string value =>
    dsimp only
    split
    · rename_i hblank
      simp [hblank]
    · rename_i hblank
      have hkept : allowEmpty = true ∨ Js.trim value ≠ "" := by
        cases allowEmpty <;> simp_all
      refine ⟨fun h => ⟨value, rfl, hkept, (Except.ok.inj h).symm⟩, ?_⟩
      rintro ⟨value', hvalue, -, rfl⟩
      cases hvalue
      rfl
  | _ => simp

theorem readLabel_iff {invalid : JsError} {labels labels' : Record} {entry : String × JsonValue} :
    readLabel invalid labels entry = .ok labels' ↔ ∃ value, entry.2 = .string value ∧
      (Js.trim entry.1 ≠ "" ∧ Js.trim value ≠ "") ∧ labels' = Js.assign labels entry.1 value := by
  obtain ⟨key, json⟩ := entry
  unfold readLabel
  cases json with
  | string value =>
    dsimp only
    split
    · rename_i hblank
      simp only [reduceCtorEq, Json.string.injEq, exists_eq_left', false_iff]
      tauto
    · rename_i hblank
      refine ⟨fun h => ⟨value, rfl, not_or.mp hblank, (Except.ok.inj h).symm⟩, ?_⟩
      rintro ⟨value', hvalue, -, rfl⟩
      cases hvalue
      rfl
  | _ => simp

/-- What a setting says: the properties of the object that it is, where they all are strings. Unset it says
nothing. -/
def Says (engine : Engine) (env : Record) (name : String) (map : Record) : Prop :=
  match Record.own env name with
  | none => map = []
  | some raw => ∃ members, engine.parse raw.toList = .ok (.object members) ∧ Js.entries members = map.map jsonString

theorem of_jsonObject {engine : Engine} {name raw : String} {parsed : List (String × JsonValue)}
    (h : jsonObject engine name raw = .ok parsed) :
    ∃ members, engine.parse raw.toList = .ok (.object members) ∧ parsed = Js.entries members := by
  unfold jsonObject at h
  split at h
  · rename_i members hparse
    cases h
    exact ⟨members, hparse, rfl⟩
  · cases h

/-- Of what a setting says, all is read but `__proto__`. -/
theorem of_readStringMap {engine : Engine} {env : Record} {name : String} {allowEmpty : Bool} {map : Record}
    (h : readStringMap engine env name allowEmpty = .ok map) : ∃ said, Says engine env name said ∧
      (said.map (·.1)).Nodup ∧ (∀ p ∈ said, allowEmpty = true ∨ Js.trim p.2 ≠ "") ∧
      map = said.filter (·.1 ≠ "__proto__") := by
  unfold readStringMap at h
  unfold Says
  cases hraw : Record.own env name with
  | none =>
    rw [hraw] at h
    cases h
    exact ⟨[], rfl, List.nodup_nil, fun _ h => (nomatch h), rfl⟩
  | some raw =>
    rw [hraw] at h
    obtain ⟨parsed, hparsed, hfold⟩ := of_bind_ok h
    obtain ⟨members, hparse, rfl⟩ := of_jsonObject hparsed
    have hkeys := Js.nodup_entries members
    obtain ⟨said, hsaid, hstrings, rfl⟩ := foldlM_assign (P := fun p => allowEmpty = true ∨ Js.trim p.2 ≠ "")
      (fun _ _ _ => readString_iff) hkeys (fun _ _ => List.not_mem_nil) hfold
    refine ⟨said, ⟨members, hparse, hsaid⟩, ?_, hstrings, rfl⟩
    rw [hsaid, List.map_map] at hkeys
    exact hkeys

theorem jsonString_injective {map map' : Record} (h : map.map jsonString = map'.map jsonString) : map = map' := by
  refine List.map_injective_iff.mpr ?_ h
  rintro ⟨key, value⟩ ⟨key', value'⟩ heq
  simpa [jsonString] using heq

theorem Says.unique {engine : Engine} {env : Record} {name : String} {map map' : Record}
    (h : Says engine env name map) (h' : Says engine env name map') : map = map' := by
  unfold Says at h h'
  cases hraw : Record.own env name with
  | none =>
    rw [hraw] at h h'
    rw [h, h']
  | some raw =>
    rw [hraw] at h h'
    obtain ⟨members, hparse, hmap⟩ := h
    obtain ⟨members', hparse', hmap'⟩ := h'
    rw [hparse] at hparse'
    cases hparse'
    exact jsonString_injective (hmap.symm.trans hmap')

/-- What the setting of the node selectors says of one type. -/
def SaysType (entry : String × JsonValue) (p : String × Record) : Prop :=
  entry.1 = p.1 ∧ ∃ labels, entry.2 = .object labels ∧ Js.entries labels = p.2.map jsonString

/-- What the setting of the node selectors says: for each type its labels. -/
def SaysSelectors (engine : Engine) (env : Record) (said : List (String × Record)) : Prop :=
  match Record.own env gpuSelectorsName with
  | none => said = []
  | some raw => ∃ members, engine.parse raw.toList = .ok (.object members) ∧
      List.Forall₂ SaysType (Js.entries members) said

theorem of_readSelector {invalid : JsError} {selector : JsonValue} {labels : Record}
    (h : readSelector invalid selector = .ok labels) : ∃ members, ∃ said : Record, selector = .object members ∧
      Js.entries members = said.map jsonString ∧ labels = said.filter (·.1 ≠ "__proto__") := by
  unfold readSelector at h
  split at h
  · rename_i members
    obtain ⟨labels', hfold, h⟩ := of_bind_ok h
    obtain ⟨said, hsaid, -, hlabels⟩ := foldlM_assign (P := fun p => Js.trim p.1 ≠ "" ∧ Js.trim p.2 ≠ "")
      (fun _ _ _ => readLabel_iff) (Js.nodup_entries members) (fun _ _ => List.not_mem_nil) hfold
    split at h
    · cases h
    · cases h
      exact ⟨members, said, rfl, hsaid, hlabels⟩
  · cases h

theorem of_readTypes {table : Js.UpperCase} {es : List (String × JsonValue)}
    {selectors selectors' : List (String × Record)}
    (h : es.foldlM (readType table) selectors = .ok selectors') : ∃ said : List (String × Record),
      List.Forall₂ SaysType es said ∧
      ((selectors.map (·.1) ++ said.map fun p => Js.toUpperCase table p.1).Nodup →
        selectors' = selectors ++ said.map fun p => (Js.toUpperCase table p.1, p.2.filter (·.1 ≠ "__proto__"))) := by
  induction es generalizing selectors with
  | nil =>
    cases h
    exact ⟨[], .nil, fun _ => (List.append_nil _).symm⟩
  | cons entry es ih =>
    rw [List.foldlM_cons] at h
    obtain ⟨selectors₁, hentry, h⟩ := of_bind_ok h
    unfold readType at hentry
    obtain ⟨labels, hlabels, hput⟩ := of_bind_ok hentry
    cases hput
    obtain ⟨members, said, hmembers, hsaid, rfl⟩ := of_readSelector hlabels
    obtain ⟨rest, hrest, hselectors⟩ := ih h
    refine ⟨(entry.1, said) :: rest, .cons ⟨rfl, members, hmembers, hsaid⟩ hrest, fun hnodup => ?_⟩
    rw [List.map_cons] at hnodup
    have hfresh : Js.toUpperCase table entry.1 ∉ selectors.map (·.1) := fun hmem =>
      (List.nodup_append.mp hnodup).2.2 _ hmem _ List.mem_cons_self rfl
    rw [Js.put_of_notMem hfresh] at hselectors
    rw [hselectors ?_, List.append_assoc]
    · rfl
    · rw [List.map_append, List.append_assoc]
      exact hnodup

/-- Where no two types are the same but for their case, each is read with its labels, all but `__proto__`. -/
theorem of_readGpuNodeSelectors {host : Host} {env : Record} {selectors : List (String × Record)}
    (h : readGpuNodeSelectors host env = .ok selectors) : ∃ said, SaysSelectors host.engine env said ∧
      ((said.map fun p => Js.toUpperCase host.upperCase p.1).Nodup →
        selectors = said.map fun p => (Js.toUpperCase host.upperCase p.1, p.2.filter (·.1 ≠ "__proto__"))) := by
  unfold readGpuNodeSelectors at h
  unfold SaysSelectors
  cases hraw : Record.own env gpuSelectorsName with
  | none =>
    rw [hraw] at h
    cases h
    exact ⟨[], rfl, fun _ => rfl⟩
  | some raw =>
    rw [hraw] at h
    obtain ⟨parsed, hparsed, h⟩ := of_bind_ok h
    obtain ⟨members, hparse, rfl⟩ := of_jsonObject hparsed
    obtain ⟨selectors', hfold, h⟩ := of_bind_ok h
    obtain ⟨said, hsaid, hselectors⟩ := of_readTypes hfold
    refine ⟨said, ⟨members, hparse, hsaid⟩, fun hnodup => ?_⟩
    split at h
    · cases h
    · cases h
      exact hselectors hnodup

theorem SaysSelectors.unique {engine : Engine} {env : Record} {said said' : List (String × Record)}
    (h : SaysSelectors engine env said) (h' : SaysSelectors engine env said') : said = said' := by
  unfold SaysSelectors at h h'
  cases hraw : Record.own env gpuSelectorsName with
  | none =>
    rw [hraw] at h h'
    rw [h, h']
  | some raw =>
    rw [hraw] at h h'
    obtain ⟨members, hparse, hsaid⟩ := h
    obtain ⟨members', hparse', hsaid'⟩ := h'
    rw [hparse] at hparse'
    cases hparse'
    generalize Js.entries members = es at hsaid hsaid'
    induction hsaid generalizing said' with
    | nil =>
      cases hsaid'
      rfl
    | cons hp _ ih =>
      cases hsaid' with
      | cons hp' hrest =>
        obtain ⟨hkey, labels, hlabels, hsaid⟩ := hp
        obtain ⟨hkey', labels', hlabels', hsaid'⟩ := hp'
        rw [hlabels] at hlabels'
        cases hlabels'
        rw [ih hrest, Prod.ext (hkey.symm.trans hkey') (jsonString_injective (hsaid.symm.trans hsaid'))]

/-! ## What is accepted -/

/-- What an accepted configuration has been read from: each field is what its reader has found, and the checks
have passed. -/
structure ReadFrom (host : Host) (env : Record) (sessionMaxLifetimeSeconds : Option Nat)
    (config : ArmadaConfig) : Prop where
  image : readImage env = .ok config.image
  url : requiredUrl env "ARMADA_URL" host = .ok config.url
  expose : readExposure host.engine env = .ok config.expose
  queue : required env "ARMADA_QUEUE" = .ok config.queue
  queueByUser : readStringMap host.engine env "ARMADA_QUEUE_BY_USER" false = .ok config.queueByUser
  queueByProject : readStringMap host.engine env "ARMADA_QUEUE_BY_PROJECT" false = .ok config.queueByProject
  port : optionalPort env "ARMADA_KERNEL_PORT" 2718 = .ok config.port
  agentImage : required env "ARMADA_AGENT_IMAGE" = .ok config.agentImage
  agentPort : optionalPort env "ARMADA_AGENT_PORT" 8718 = .ok config.agentPort
  agentTokenSecret : readTokenSecret env = .ok config.agentTokenSecret
  imagePullSecrets : readImagePullSecrets env = .ok config.imagePullSecrets
  runAsUser : optionalId env "ARMADA_RUN_AS_USER" = .ok config.runAsUser
  runAsGroup : optionalId env "ARMADA_RUN_AS_GROUP" = .ok config.runAsGroup
  fsGroup : optionalId env "ARMADA_FS_GROUP" = .ok config.fsGroup
  surfacePorts : readSurfacePorts env = .ok config.surfacePorts
  gpuNodeSelectors : readGpuNodeSelectors host env = .ok config.gpuNodeSelectors
  podLabels : readPodMetadata host.engine env "ARMADA_POD_LABELS" .label = .ok config.podLabels
  podAnnotations : readPodMetadata host.engine env "ARMADA_POD_ANNOTATIONS" MetadataKind.annotation =
    .ok config.podAnnotations
  lookoutUrl : optionalUrl env "ARMADA_LOOKOUT_URL" host = .ok config.lookoutUrl
  maxLifetimeSeconds : readMaxLifetimeSeconds env sessionMaxLifetimeSeconds = .ok config.maxLifetimeSeconds
  commandMaxSeconds : readCommandMaxSeconds env = .ok config.commandMaxSeconds
  auth : readAuth host env = .ok config.auth
  ports : checkPorts config = .ok ()
  profiles : config.gpuNodeSelectors ≠ [] → ∀ name ∈ profileVariables,
    unmappedTypes host.upperCase config (Record.own env name) = []
  queues : checkQueues config = .ok ()

section
variable {host : Host} {env : Record} {sessionMaxLifetimeSeconds : Option Nat} {config : ArmadaConfig}

theorem of_checkVariable {table : Js.UpperCase} {name : String} (h : checkVariable table env config name = .ok ()) :
    unmappedTypes table config (Record.own env name) = [] := by
  unfold checkVariable at h
  dsimp only at h
  split at h
  · assumption
  · cases h

theorem checkVariable_of {table : Js.UpperCase} {name : String}
    (h : unmappedTypes table config (Record.own env name) = []) : checkVariable table env config name = .ok () := by
  unfold checkVariable
  exact if_pos h

theorem checkProfiles_iff {table : Js.UpperCase} : checkProfiles table env config = .ok () ↔
    (config.gpuNodeSelectors ≠ [] → ∀ name ∈ profileVariables,
      unmappedTypes table config (Record.own env name) = []) := by
  constructor
  · intro h hne
    unfold checkProfiles at h
    rw [if_neg hne] at h
    obtain ⟨⟨⟩, hfirst, h⟩ := of_bind_ok h
    obtain ⟨⟨⟩, hsecond, -⟩ := of_bind_ok h
    exact List.forall_mem_cons.mpr ⟨of_checkVariable hfirst, List.forall_mem_singleton.mpr (of_checkVariable hsecond)⟩
  · intro h
    unfold checkProfiles
    by_cases hnil : config.gpuNodeSelectors = []
    · exact if_pos hnil
    · obtain ⟨hfirst, hsecond⟩ := List.forall_mem_cons.mp (h hnil)
      rw [if_neg hnil]
      change (checkVariable table env config _ >>= fun _ => checkVariable table env config _ >>= fun _ => pure ()) = _
      rw [checkVariable_of hfirst, ok_bind, checkVariable_of (hsecond _ List.mem_cons_self)]
      rfl

/-- A configuration is accepted where all of it can be read so. -/
theorem readConfig_iff : readConfig host env sessionMaxLifetimeSeconds = .ok config ↔
    ReadFrom host env sessionMaxLifetimeSeconds config ∧
    config.namespace = (Record.own env "ARMADA_NAMESPACE").getD "default" ∧
    config.priorityClassName = Record.own env "ARMADA_PRIORITY_CLASS" := by
  constructor
  · intro h
    unfold readConfig at h
    obtain ⟨config', hsettings, h⟩ := of_bind_ok h
    obtain ⟨⟨⟩, hports, h⟩ := of_bind_ok h
    obtain ⟨⟨⟩, hprofiles, h⟩ := of_bind_ok h
    obtain ⟨⟨⟩, hqueues, h⟩ := of_bind_ok h
    cases h
    have hmapped := checkProfiles_iff.mp hprofiles
    unfold readSettings at hsettings
    obtain ⟨image, himage, h⟩ := of_bind_ok hsettings
    obtain ⟨url, hurl, h⟩ := of_bind_ok h
    obtain ⟨expose, hexpose, h⟩ := of_bind_ok h
    obtain ⟨queue, hqueue, h⟩ := of_bind_ok h
    obtain ⟨queueByUser, hqueueByUser, h⟩ := of_bind_ok h
    obtain ⟨queueByProject, hqueueByProject, h⟩ := of_bind_ok h
    obtain ⟨port, hport, h⟩ := of_bind_ok h
    obtain ⟨agentImage, hagentImage, h⟩ := of_bind_ok h
    obtain ⟨agentPort, hagentPort, h⟩ := of_bind_ok h
    obtain ⟨agentTokenSecret, hagentTokenSecret, h⟩ := of_bind_ok h
    obtain ⟨imagePullSecrets, himagePullSecrets, h⟩ := of_bind_ok h
    obtain ⟨runAsUser, hrunAsUser, h⟩ := of_bind_ok h
    obtain ⟨runAsGroup, hrunAsGroup, h⟩ := of_bind_ok h
    obtain ⟨fsGroup, hfsGroup, h⟩ := of_bind_ok h
    obtain ⟨surfacePorts, hsurfacePorts, h⟩ := of_bind_ok h
    obtain ⟨gpuNodeSelectors, hgpuNodeSelectors, h⟩ := of_bind_ok h
    obtain ⟨podLabels, hpodLabels, h⟩ := of_bind_ok h
    obtain ⟨podAnnotations, hpodAnnotations, h⟩ := of_bind_ok h
    obtain ⟨lookoutUrl, hlookoutUrl, h⟩ := of_bind_ok h
    obtain ⟨maxLifetimeSeconds, hmaxLifetimeSeconds, h⟩ := of_bind_ok h
    obtain ⟨commandMaxSeconds, hcommandMaxSeconds, h⟩ := of_bind_ok h
    obtain ⟨auth, hauth, h⟩ := of_bind_ok h
    cases h
    exact ⟨⟨himage, hurl, hexpose, hqueue, hqueueByUser, hqueueByProject, hport, hagentImage, hagentPort,
      hagentTokenSecret, himagePullSecrets, hrunAsUser, hrunAsGroup, hfsGroup, hsurfacePorts, hgpuNodeSelectors,
      hpodLabels, hpodAnnotations, hlookoutUrl, hmaxLifetimeSeconds, hcommandMaxSeconds, hauth, hports, hmapped,
      hqueues⟩, rfl, rfl⟩
  · rintro ⟨h, hnamespace, hpriority⟩
    have hsettings : readSettings host env sessionMaxLifetimeSeconds = .ok config := by
      unfold readSettings
      simp only [h.image, h.url, h.expose, h.queue, h.queueByUser, h.queueByProject, h.port, h.agentImage, h.agentPort,
        h.agentTokenSecret, h.imagePullSecrets, h.runAsUser, h.runAsGroup, h.fsGroup, h.surfacePorts,
        h.gpuNodeSelectors, h.podLabels, h.podAnnotations, h.lookoutUrl, h.maxLifetimeSeconds, h.commandMaxSeconds,
        h.auth, ← hnamespace, ← hpriority, ok_bind]
      rfl
    unfold readConfig
    rw [hsettings, ok_bind, h.ports, ok_bind, checkProfiles_iff.mpr h.profiles, ok_bind, h.queues]
    rfl

theorem of_readConfig (h : readConfig host env sessionMaxLifetimeSeconds = .ok config) :
    ReadFrom host env sessionMaxLifetimeSeconds config := (readConfig_iff.mp h).1

theorem required_ok {name value : String} (h : required env name = .ok value) :
    Record.own env name = some value ∧ value ≠ "" := by
  unfold required nonempty at h
  split at h
  · rename_i value' hvalue
    cases h
    obtain ⟨hown, hne⟩ := Option.filter_eq_some_iff.mp hvalue
    exact ⟨hown, of_decide_eq_true hne⟩
  · cases h

theorem keys_readStringMap {name : String} {allowEmpty : Bool} {map : Record}
    (h : readStringMap host.engine env name allowEmpty = .ok map) :
    (map.map (·.1)).Nodup ∧ "__proto__" ∉ map.map (·.1) := by
  obtain ⟨said, -, hkeys, -, rfl⟩ := of_readStringMap h
  refine ⟨hkeys.sublist (List.filter_sublist.map _), fun hmem => ?_⟩
  obtain ⟨p, hp, hproto⟩ := List.mem_map.mp hmem
  exact absurd hproto (by simpa using (List.mem_filter.mp hp).2)

/-- **What is accepted is as the rest of the adapter relies on it.** -/
theorem ReadFrom.accepted (h : ReadFrom host env sessionMaxLifetimeSeconds config) : config.Accepted := by
  have hnonblank : ∀ {name map}, readStringMap host.engine env name false = .ok map →
      ∀ queue ∈ map.values, Js.trim queue ≠ "" := by
    intro name map hmap queue hqueue
    obtain ⟨said, -, -, hsaid, rfl⟩ := of_readStringMap hmap
    obtain ⟨p, hp, rfl⟩ := List.mem_map.mp hqueue
    exact (hsaid p (List.mem_of_mem_filter hp)).resolve_left (by decide)
  refine ⟨(required_ok h.queue).2, ?_, keys_readStringMap h.queueByUser, keys_readStringMap h.queueByProject, ?_⟩
  · exact List.forall_mem_append.mpr ⟨hnonblank h.queueByUser, hnonblank h.queueByProject⟩
  · rintro ⟨queue, hqueue, hne⟩ hnone
    have hchecked := h.queues
    unfold checkQueues at hchecked
    dsimp only at hchecked
    rw [if_pos] at hchecked
    · cases hchecked
    · exact ⟨List.ne_nil_of_mem (List.mem_filter.mpr ⟨hqueue, decide_eq_true hne⟩), hnone⟩

end

/-! ## Environments -/

theorem exists_of_accepts {α : Type} {r : Except JsError α} {p : α → Bool}
    (h : (match r with | .ok a => p a | .error _ => false) = true) : ∃ a, r = .ok a ∧ p a = true := by
  cases r with
  | ok a => exact ⟨a, rfl, h⟩
  | error x => cases h

/-- A host that knows of no letters but those of ASCII, of no URLs but those of a web server, and has no files. -/
def plainHost : Host where
  engine := laconic
  upperCase := .ascii
  protocol value :=
    if Js.startsWith value "http://" then some "http:"
    else if Js.startsWith value "https://" then some "https:"
    else none
  readFileSync _ := none

/-- The settings without which nothing starts. -/
def leastEnv : Record :=
  [("ARMADA_URL", "http://armada.example.com"), ("ARMADA_QUEUE", "marimohub"),
   ("ARMADA_AGENT_IMAGE", "ghcr.io/example/kernel-agent:1"),
   ("ARMADA_AGENT_TOKEN_SECRET", "test-secret-of-at-least-32-characters")]

end ComputeArmada.Adapter
