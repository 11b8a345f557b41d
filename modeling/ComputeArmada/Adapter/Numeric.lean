import ComputeArmada.Adapter.Config

/-!
# Numbers that are not there

What `readConfig` makes of a numeric setting that says no number.

* `Digitless` : a string without any digit; `Js.number_of_digitless` : it is no number, unless it is blank;
* `Js.wholeNumber` : the number that a setting says; `optionalPort_iff`, `optionalId_iff`, `optionalSeconds_iff` :
  what each reader takes of them;
* `ReadsNumber` : the numeric variables that `readConfig` reads;
* `numeric_refused` : it refuses such a setting of any of them, a blank `ARMADA_COMMAND_MAX_SECONDS` excepted.
-/

namespace ComputeArmada.Adapter

/-- No digit of ASCII; to `Number` the others are none. -/
def Digitless (raw : String) : Prop := ∀ c ∈ raw.toList, c.isDigit = false

instance (raw : String) : Decidable (Digitless raw) := inferInstanceAs (Decidable (∀ c ∈ raw.toList, _))

namespace Js

/-- The number that a setting says, of what `Number` makes of it: blank, it says none. -/
def wholeNumber (raw : String) : Option Nat :=
  if trim raw = "" then none
  else (number raw).bind fun value => if value.den = 1 ∧ 0 ≤ value then some value.num.toNat else none

/-! ## Strings without digits -/

theorem mem_trimList {cs : List Char} {c : Char} (h : c ∈ trimList cs) : c ∈ cs := by
  unfold trimList at h
  have hmem := (List.dropWhile_sublist _).subset (List.mem_reverse.mp h)
  exact (List.dropWhile_sublist _).subset (List.mem_reverse.mp hmem)

theorem trim_eq_empty {s : String} : trim s = "" ↔ trimList s.toList = [] := by
  unfold trim
  constructor
  · intro h
    have hlist := congrArg String.toList h
    rwa [String.toList_ofList] at hlist
  · intro h
    rw [h]

theorem span_of_none {cs : List Char} (h : ∀ c ∈ cs, c.isDigit = false) : cs.span Char.isDigit = ([], cs) := by
  rw [List.span_eq_takeWhile_dropWhile]
  cases cs with
  | nil => rfl
  | cons c cs =>
    have hc := h c List.mem_cons_self
    rw [List.takeWhile_cons_of_neg (by simp [hc]), List.dropWhile_cons_of_neg (by simp [hc])]

theorem decimal_of_none {cs : List Char} (h : ∀ c ∈ cs, c.isDigit = false) : decimal cs = none := by
  unfold decimal
  rw [span_of_none h]
  dsimp only
  cases cs with
  | nil => rfl
  | cons c cs =>
    by_cases hdot : c = '.'
    · subst hdot
      simp only [span_of_none fun c hc => h c (List.mem_cons_of_mem _ hc)]
      rfl
    · split
      · rename_i heq
        exact absurd (List.cons.inj heq).1 hdot
      · rfl

theorem number_of_blank {raw : String} (h : trim raw = "") : number raw = some 0 := by
  unfold number
  rw [trim_eq_empty.mp h]
  rfl

/-- **A string without digits is no number, unless it is blank.** -/
theorem number_of_digitless {raw : String} (h : Digitless raw) (hblank : trim raw ≠ "") : number raw = none := by
  have hnone : ∀ c ∈ trimList raw.toList, c.isDigit = false := fun c hc => h c (mem_trimList hc)
  have hne : trimList raw.toList ≠ [] := fun hnil => hblank (trim_eq_empty.mpr hnil)
  have hzero : ∀ cs, trimList raw.toList ≠ '0' :: cs := by
    intro cs heq
    exact absurd (hnone '0' (heq ▸ List.mem_cons_self)) (by decide)
  unfold number
  split
  · rename_i hnil
    exact absurd hnil hne
  · rename_i heq
    exact absurd heq (hzero _)
  · rename_i heq
    exact absurd heq (hzero _)
  · rename_i heq
    exact absurd heq (hzero _)
  · rename_i heq
    exact absurd heq (hzero _)
  · rename_i heq
    exact absurd heq (hzero _)
  · rename_i heq
    exact absurd heq (hzero _)
  · rename_i cs heq
    rw [decimal_of_none fun c hc => hnone c (heq ▸ List.mem_cons_of_mem _ hc)]
    rfl
  · rename_i cs heq
    rw [decimal_of_none fun c hc => hnone c (heq ▸ List.mem_cons_of_mem _ hc)]
    rfl
  · rw [decimal_of_none hnone]
    rfl

theorem wholeNumber_of_digitless {raw : String} (h : Digitless raw) : wholeNumber raw = none := by
  unfold wholeNumber
  by_cases hblank : trim raw = ""
  · exact if_pos hblank
  · rw [if_neg hblank, number_of_digitless h hblank]
    rfl

/-! ## What the readers take -/

theorem whole_iff {value : ℚ} {n : Nat} : (value.den = 1 ∧ 0 ≤ value) ∧ value.num.toNat = n ↔ value = n := by
  constructor
  · rintro ⟨⟨hden, hle⟩, hnum⟩
    have hnonneg : 0 ≤ value.num := Rat.num_nonneg.mpr hle
    have hvalue : ((value.num : ℤ) : ℚ) = value := Rat.coe_int_num_of_den_eq_one hden
    rw [← hvalue, ← hnum]
    exact_mod_cast (Int.toNat_of_nonneg hnonneg).symm
  · rintro rfl
    exact ⟨⟨Rat.den_natCast n, Nat.cast_nonneg n⟩, by rw [Rat.num_natCast, Int.toNat_natCast]⟩

theorem wholeNumber_iff {raw : String} {n : Nat} :
    wholeNumber raw = some n ↔ trim raw ≠ "" ∧ number raw = some (n : ℚ) := by
  unfold wholeNumber
  by_cases hblank : trim raw = ""
  · rw [if_pos hblank]
    exact ⟨fun h => (nomatch h), fun h => absurd hblank h.1⟩
  · rw [if_neg hblank, Option.bind_eq_some_iff]
    constructor
    · rintro ⟨value, hvalue, h⟩
      split at h
      · rename_i hwhole
        exact ⟨hblank, hvalue.trans (congrArg some (whole_iff.mp ⟨hwhole, Option.some.inj h⟩))⟩
      · cases h
    · rintro ⟨-, hvalue⟩
      obtain ⟨hwhole, hnum⟩ := (@whole_iff (n : ℚ) n).mpr rfl
      exact ⟨n, hvalue, by rw [if_pos hwhole, hnum]⟩

end Js

section
variable {env : Record} {name raw : String} {n : Nat}

theorem optionalPort_iff (hraw : Record.own env name = some raw) (fallback : Nat) :
    optionalPort env name fallback = .ok n ↔ Js.wholeNumber raw = some n ∧ 1 ≤ n ∧ n ≤ 65535 := by
  unfold optionalPort
  rw [hraw, Js.wholeNumber_iff]
  dsimp only
  constructor
  · intro h
    split at h
    · cases h
    · rename_i value hvalue
      split at h
      · rename_i hrange
        obtain ⟨hden, hleast, hmost⟩ := hrange
        obtain rfl := Js.whole_iff.mp ⟨⟨hden, le_trans zero_le_one hleast⟩, Except.ok.inj h⟩
        refine ⟨⟨fun hblank => ?_, hvalue⟩, by exact_mod_cast hleast, by exact_mod_cast hmost⟩
        rw [Js.number_of_blank hblank] at hvalue
        rw [← Option.some.inj hvalue] at hleast
        exact absurd hleast (by norm_num)
      · cases h
  · rintro ⟨⟨-, hvalue⟩, hleast, hmost⟩
    rw [hvalue]
    dsimp only
    rw [if_pos ⟨Rat.den_natCast n, by exact_mod_cast hleast, by exact_mod_cast hmost⟩, Rat.num_natCast,
      Int.toNat_natCast]

theorem optionalId_iff (hraw : Record.own env name = some raw) :
    optionalId env name = .ok (some n) ↔ Js.wholeNumber raw = some n := by
  unfold optionalId
  rw [hraw]
  dsimp only
  unfold Js.wholeNumber
  by_cases hblank : Js.trim raw = ""
  · rw [if_pos hblank, if_pos hblank]
    exact ⟨fun h => (nomatch h), fun h => (nomatch h)⟩
  · rw [if_neg hblank, if_neg hblank]
    cases Js.number raw with
    | none => exact ⟨fun h => (nomatch h), fun h => (nomatch h)⟩
    | some value =>
      rw [Option.bind_some]
      dsimp only
      split
      · exact ⟨fun h => Except.ok.inj h, fun h => congrArg Except.ok h⟩
      · exact ⟨fun h => (nomatch h), fun h => (nomatch h)⟩

/-- Where it is set, some number is read or none at all. -/
theorem optionalId_ne_none (hraw : Record.own env name = some raw) : optionalId env name ≠ .ok none := by
  unfold optionalId
  rw [hraw]
  dsimp only
  intro h
  split at h
  · cases h
  · split at h <;> cases h

theorem optionalSeconds_iff (hraw : Record.own env name = some raw) (fallback least : Nat) :
    optionalSeconds env name fallback least = .ok n ↔ Js.number raw = some (n : ℚ) ∧ least ≤ n := by
  unfold optionalSeconds
  rw [hraw]
  dsimp only
  constructor
  · intro h
    split at h
    · cases h
    · rename_i value hvalue
      split at h
      · rename_i hrange
        obtain ⟨hden, hleast⟩ := hrange
        obtain rfl := Js.whole_iff.mp ⟨⟨hden, le_trans (Nat.cast_nonneg least) hleast⟩, Except.ok.inj h⟩
        exact ⟨hvalue, by exact_mod_cast hleast⟩
      · cases h
  · rintro ⟨hvalue, hleast⟩
    rw [hvalue]
    dsimp only
    rw [if_pos ⟨Rat.den_natCast n, by exact_mod_cast hleast⟩, Rat.num_natCast, Int.toNat_natCast]

end

/-! ## What `readConfig` reads -/

/-- The surfaces whose ports `readSurfacePorts` reads. -/
def enabledSurfaces (env : Record) : List Surface :=
  surfaces.filter fun surface => surface.id ∈ (((Js.split ((Record.own env "MARIMOHUB_SURFACES").getD primarySurface)
    ',').map Js.trim).filter (· ≠ "")).eraseDups

def commandMaxName : String := "ARMADA_COMMAND_MAX_SECONDS"

/-- The numeric variables that `readConfig` reads. -/
inductive ReadsNumber (env : Record) (sessionMaxLifetimeSeconds : Option Nat) : String → Prop
  | kernelPort : ReadsNumber env sessionMaxLifetimeSeconds "ARMADA_KERNEL_PORT"
  | agentPort : ReadsNumber env sessionMaxLifetimeSeconds "ARMADA_AGENT_PORT"
  | surfacePort (surface : Surface) (h : surface ∈ enabledSurfaces env) :
      ReadsNumber env sessionMaxLifetimeSeconds surface.variableName
  | runAsUser : ReadsNumber env sessionMaxLifetimeSeconds "ARMADA_RUN_AS_USER"
  | runAsGroup : ReadsNumber env sessionMaxLifetimeSeconds "ARMADA_RUN_AS_GROUP"
  | fsGroup : ReadsNumber env sessionMaxLifetimeSeconds "ARMADA_FS_GROUP"
  | maxLifetime (h : sessionMaxLifetimeSeconds = none) :
      ReadsNumber env sessionMaxLifetimeSeconds "ARMADA_KERNEL_MAX_LIFETIME_SECONDS"
  | commandMax : ReadsNumber env sessionMaxLifetimeSeconds commandMaxName

theorem of_readSurfacePorts {env : Record} {ports : List Nat} (h : readSurfacePorts env = .ok ports) :
    ∀ surface ∈ enabledSurfaces env, ∃ port, optionalPort env surface.variableName surface.defaultPort = .ok port := by
  unfold readSurfacePorts at h
  dsimp only at h
  split at h
  · cases h
  · exact of_mapM_ok h

theorem enabledSurfaces_set (env : Record) {name : String} (raw : String) (h : name ≠ "MARIMOHUB_SURFACES") :
    enabledSurfaces (env.set name raw) = enabledSurfaces env := by
  unfold enabledSurfaces
  rw [Record.own_set_of_ne env raw h.symm]

section
variable {host : Host} {env : Record} {sessionMaxLifetimeSeconds : Option Nat} {config : ArmadaConfig}
    {name raw : String}

/-- **Where a configuration is accepted, each numeric variable that is set says a number**, unless the command
maximum is blank. -/
theorem ReadFrom.number (h : ReadFrom host (env.set name raw) sessionMaxLifetimeSeconds config)
    (hreads : ReadsNumber env sessionMaxLifetimeSeconds name) (hblank : name = commandMaxName → Js.trim raw ≠ "") :
    Js.wholeNumber raw ≠ none := by
  have hown := Record.own_set env name raw
  have hport : ∀ {fallback n : Nat}, optionalPort (env.set name raw) name fallback = .ok n →
      Js.wholeNumber raw ≠ none := by
    intro fallback n hn
    rw [((optionalPort_iff hown fallback).mp hn).1]
    exact Option.some_ne_none n
  have hid : ∀ {id : Option Nat}, optionalId (env.set name raw) name = .ok id → Js.wholeNumber raw ≠ none := by
    intro id hid
    cases id with
    | none => exact absurd hid (optionalId_ne_none hown)
    | some n =>
      rw [(optionalId_iff hown).mp hid]
      exact Option.some_ne_none n
  cases hreads with
  | kernelPort => exact hport h.port
  | agentPort => exact hport h.agentPort
  | surfacePort surface hsurface =>
    have hname : surface.variableName ≠ "MARIMOHUB_SURFACES" := by
      have hall : ∀ surface ∈ surfaces, surface.variableName ≠ "MARIMOHUB_SURFACES" := by decide
      exact hall surface (List.mem_of_mem_filter hsurface)
    rw [← enabledSurfaces_set env raw hname] at hsurface
    obtain ⟨port, hread⟩ := of_readSurfacePorts h.surfacePorts surface hsurface
    exact hport hread
  | runAsUser => exact hid h.runAsUser
  | runAsGroup => exact hid h.runAsGroup
  | fsGroup => exact hid h.fsGroup
  | maxLifetime hnone =>
    subst hnone
    obtain ⟨hnumber, hleast⟩ := (optionalSeconds_iff hown _ _).mp h.maxLifetimeSeconds
    have hne : Js.trim raw ≠ "" := by
      intro hblank
      rw [Js.number_of_blank hblank] at hnumber
      have hzero : ((config.maxLifetimeSeconds : ℕ) : ℚ) = 0 := (Option.some.inj hnumber).symm
      rw [Nat.cast_eq_zero.mp hzero] at hleast
      omega
    rw [Js.wholeNumber_iff.mpr ⟨hne, hnumber⟩]
    exact Option.some_ne_none _
  | commandMax =>
    obtain ⟨hnumber, -⟩ := (optionalSeconds_iff hown _ _).mp h.commandMaxSeconds
    rw [Js.wholeNumber_iff.mpr ⟨hblank rfl, hnumber⟩]
    exact Option.some_ne_none _

end

/-! ## A variable that no other setting is read from -/

section
variable {env env' : Record} (hown : ∀ name, name ≠ commandMaxName → Record.own env' name = Record.own env name)
include hown

theorem required_congr {name : String} (hname : name ≠ commandMaxName) : required env' name = required env name := by
  unfold required
  rw [hown name hname]

theorem readStringMap_congr (engine : Engine) {name : String} (allowEmpty : Bool) (hname : name ≠ commandMaxName) :
    readStringMap engine env' name allowEmpty = readStringMap engine env name allowEmpty := by
  unfold readStringMap
  rw [hown name hname]

theorem optionalPort_congr {name : String} (fallback : Nat) (hname : name ≠ commandMaxName) :
    optionalPort env' name fallback = optionalPort env name fallback := by
  unfold optionalPort
  rw [hown name hname]

theorem optionalId_congr {name : String} (hname : name ≠ commandMaxName) :
    optionalId env' name = optionalId env name := by
  unfold optionalId
  rw [hown name hname]

theorem readExposure_congr (engine : Engine) : readExposure engine env' = readExposure engine env := by
  unfold readExposure
  rw [hown "ARMADA_EXPOSE" (by decide), hown "ARMADA_INGRESS_TLS" (by decide),
    hown "ARMADA_INGRESS_CERT_NAME" (by decide),
    readStringMap_congr hown engine false (by decide)]
  simp only [List.filter_cons, List.filter_nil, hown "ARMADA_INGRESS_TLS" (by decide),
    hown "ARMADA_INGRESS_CERT_NAME" (by decide), hown "ARMADA_INGRESS_ANNOTATIONS" (by decide)]

theorem readSurfacePorts_congr : readSurfacePorts env' = readSurfacePorts env := by
  have hports : ∀ xs : List Surface, (∀ surface ∈ xs, surface ∈ surfaces) →
      (xs.mapM fun surface => optionalPort env' surface.variableName surface.defaultPort) =
        xs.mapM fun surface => optionalPort env surface.variableName surface.defaultPort := by
    intro xs hxs
    induction xs with
    | nil => rfl
    | cons surface xs ih =>
      have hall : ∀ surface ∈ surfaces, surface.variableName ≠ commandMaxName := by decide
      rw [List.mapM_cons, List.mapM_cons, ih fun surface h => hxs surface (List.mem_cons_of_mem _ h),
        optionalPort_congr hown _ (hall surface (hxs surface List.mem_cons_self))]
  unfold readSurfacePorts
  rw [hown "MARIMOHUB_SURFACES" (by decide)]
  dsimp only
  rw [hports _ fun surface h => List.mem_of_mem_filter h]

theorem readAuth_congr (host : Host) : readAuth host env' = readAuth host env := by
  unfold readAuth
  rw [hown "ARMADA_AUTH_USERNAME" (by decide), hown "ARMADA_AUTH_PASSWORD" (by decide),
    hown "ARMADA_AUTH_TOKEN" (by decide),
    hown "ARMADA_AUTH_TOKEN_FILE" (by decide)]

variable {host : Host} {sessionMaxLifetimeSeconds : Option Nat} {config : ArmadaConfig}

/-- What is read of the others is read of them still. -/
theorem ReadFrom.congr (h : ReadFrom host env sessionMaxLifetimeSeconds config) {n : Nat}
    (hn : readCommandMaxSeconds env' = .ok n) :
    ReadFrom host env' sessionMaxLifetimeSeconds { config with commandMaxSeconds := n } where
  image := by
    unfold readImage
    rw [hown _ (by decide)]
    exact h.image
  url := by
    unfold requiredUrl
    rw [required_congr hown (by decide)]
    exact h.url
  expose := (readExposure_congr hown host.engine).trans h.expose
  queue := (required_congr hown (by decide)).trans h.queue
  queueByUser := (readStringMap_congr hown host.engine false (by decide)).trans h.queueByUser
  queueByProject := (readStringMap_congr hown host.engine false (by decide)).trans h.queueByProject
  port := (optionalPort_congr hown 2718 (by decide)).trans h.port
  agentImage := (required_congr hown (by decide)).trans h.agentImage
  agentPort := (optionalPort_congr hown 8718 (by decide)).trans h.agentPort
  agentTokenSecret := by
    unfold readTokenSecret
    rw [required_congr hown (by decide)]
    exact h.agentTokenSecret
  imagePullSecrets := by
    unfold readImagePullSecrets
    rw [hown _ (by decide)]
    exact h.imagePullSecrets
  runAsUser := (optionalId_congr hown (by decide)).trans h.runAsUser
  runAsGroup := (optionalId_congr hown (by decide)).trans h.runAsGroup
  fsGroup := (optionalId_congr hown (by decide)).trans h.fsGroup
  surfacePorts := (readSurfacePorts_congr hown).trans h.surfacePorts
  gpuNodeSelectors := by
    unfold readGpuNodeSelectors
    rw [hown gpuSelectorsName (by decide)]
    exact h.gpuNodeSelectors
  podLabels := by
    unfold readPodMetadata
    rw [readStringMap_congr hown host.engine true (by decide)]
    exact h.podLabels
  podAnnotations := by
    unfold readPodMetadata
    rw [readStringMap_congr hown host.engine true (by decide)]
    exact h.podAnnotations
  lookoutUrl := by
    unfold optionalUrl requiredUrl
    rw [hown "ARMADA_LOOKOUT_URL" (by decide), required_congr hown (by decide)]
    exact h.lookoutUrl
  maxLifetimeSeconds := by
    unfold readMaxLifetimeSeconds optionalSeconds
    rw [hown "ARMADA_KERNEL_MAX_LIFETIME_SECONDS" (by decide)]
    exact h.maxLifetimeSeconds
  commandMaxSeconds := hn
  auth := (readAuth_congr hown host).trans h.auth
  ports := h.ports
  profiles := by
    intro hne name hname
    have hall : ∀ name ∈ profileVariables, name ≠ commandMaxName := by decide
    rw [hown name (hall name hname)]
    exact h.profiles hne name hname
  queues := h.queues

end

/-- **A blank command maximum is a maximum of zero**, and no setting is refused for it. -/
theorem readConfig_blank {host : Host} {env : Record} {sessionMaxLifetimeSeconds : Option Nat} {config : ArmadaConfig}
    {raw : String} (h : readConfig host env sessionMaxLifetimeSeconds = .ok config) (hblank : Js.trim raw = "") :
    readConfig host (env.set commandMaxName raw) sessionMaxLifetimeSeconds =
      .ok { config with commandMaxSeconds := 0 } := by
  obtain ⟨h, hnamespace, hpriority⟩ := readConfig_iff.mp h
  have hown : ∀ name, name ≠ commandMaxName → Record.own (env.set commandMaxName raw) name = Record.own env name :=
    fun name hne => Record.own_set_of_ne env raw hne
  have hzero : readCommandMaxSeconds (env.set commandMaxName raw) = .ok 0 :=
    (optionalSeconds_iff (Record.own_set env commandMaxName raw) _ _).mpr
      ⟨(Js.number_of_blank hblank).trans (congrArg some Nat.cast_zero.symm), le_rfl⟩
  refine readConfig_iff.mpr ⟨h.congr hown hzero, ?_, ?_⟩
  · rw [hown "ARMADA_NAMESPACE" (by decide)]
    exact hnamespace
  · rw [hown "ARMADA_PRIORITY_CLASS" (by decide)]
    exact hpriority

/-- The lower bound of the seconds makes up for a blank, where there is one. -/
theorem optionalSeconds_agrees {env : Record} {name raw : String} (hraw : Record.own env name = some raw)
    (fallback least : Nat) : (∀ n, optionalSeconds env name fallback least = .ok n ↔
      Js.wholeNumber raw = some n ∧ least ≤ n) ↔ (Js.trim raw = "" → 0 < least) := by
  constructor
  · intro h hblank
    by_contra hle
    have hzero : optionalSeconds env name fallback least = .ok 0 := (optionalSeconds_iff hraw _ _).mpr
      ⟨(Js.number_of_blank hblank).trans (congrArg some Nat.cast_zero.symm), by omega⟩
    exact (Js.wholeNumber_iff.mp ((h 0).mp hzero).1).1 hblank
  · intro h n
    rw [optionalSeconds_iff hraw, Js.wholeNumber_iff]
    constructor
    · rintro ⟨hnumber, hleast⟩
      refine ⟨⟨fun hblank => ?_, hnumber⟩, hleast⟩
      rw [Js.number_of_blank hblank] at hnumber
      have hzero : (n : ℚ) = 0 := (Option.some.inj hnumber).symm
      have hpos := h hblank
      rw [Nat.cast_eq_zero.mp hzero] at hleast
      omega
    · rintro ⟨⟨-, hnumber⟩, hleast⟩
      exact ⟨hnumber, hleast⟩

/-- **A numeric setting without a digit is refused, and of an environment that is accepted otherwise all of them
are but a blank command maximum.** The readers agree on what is a number, but for blanks where the least number of
seconds is zero. -/
theorem numeric_refused (host : Host) (env : Record) (sessionMaxLifetimeSeconds : Option Nat) {name raw : String}
    (hreads : ReadsNumber env sessionMaxLifetimeSeconds name) (hraw : Digitless raw) :
    ((name = commandMaxName → Js.trim raw ≠ "") →
      ∃ cause, readConfig host (env.set name raw) sessionMaxLifetimeSeconds = .error cause) ∧
    (∀ config, readConfig host env sessionMaxLifetimeSeconds = .ok config →
      ((∃ cause, readConfig host (env.set name raw) sessionMaxLifetimeSeconds = .error cause) ↔
        (name = commandMaxName → Js.trim raw ≠ ""))) ∧
    ∀ (env : Record) (name raw : String) (fallback least : Nat), Record.own env name = some raw →
      (∀ n, optionalPort env name fallback = .ok n ↔ Js.wholeNumber raw = some n ∧ 1 ≤ n ∧ n ≤ 65535) ∧
      (∀ n, optionalId env name = .ok (some n) ↔ Js.wholeNumber raw = some n) ∧ optionalId env name ≠ .ok none ∧
      ((∀ n, optionalSeconds env name fallback least = .ok n ↔ Js.wholeNumber raw = some n ∧ least ≤ n) ↔
        (Js.trim raw = "" → 0 < least)) := by
  have hrefused : (name = commandMaxName → Js.trim raw ≠ "") →
      ∃ cause, readConfig host (env.set name raw) sessionMaxLifetimeSeconds = .error cause := by
    intro hblank
    cases hread : readConfig host (env.set name raw) sessionMaxLifetimeSeconds with
    | error cause => exact ⟨cause, rfl⟩
    | ok config =>
      exact absurd (Js.wholeNumber_of_digitless hraw) ((of_readConfig hread).number hreads hblank)
  refine ⟨hrefused, fun config hconfig => ⟨?_, hrefused⟩, fun env name raw fallback least hown => ?_⟩
  · rintro ⟨cause, hcause⟩ rfl hblank
    rw [readConfig_blank hconfig hblank] at hcause
    cases hcause
  · exact ⟨fun n => optionalPort_iff hown fallback, fun n => optionalId_iff hown, optionalId_ne_none hown,
      optionalSeconds_agrees hown fallback least⟩

theorem numeric_refused_group : ∃ cause, readConfig plainHost (leastEnv.set "ARMADA_FS_GROUP" " ") none =
    .error cause :=
  (numeric_refused plainHost leastEnv none .fsGroup (by decide)).1 (by decide)

/-- A blank command maximum is accepted. -/
theorem numeric_blank : ¬ ∀ (host : Host) (env : Record) (sessionMaxLifetimeSeconds : Option Nat) (name raw : String),
    ReadsNumber env sessionMaxLifetimeSeconds name → Digitless raw →
      ∃ cause, readConfig host (env.set name raw) sessionMaxLifetimeSeconds = .error cause := by
  intro h
  obtain ⟨cause, hcause⟩ := h plainHost leastEnv none commandMaxName "" .commandMax (by decide)
  have haccepts : ∃ config, readConfig plainHost (leastEnv.set commandMaxName "") none = .ok config ∧
      decide (config.commandMaxSeconds = 0) = true := exists_of_accepts (by decide +kernel)
  obtain ⟨config, hconfig, -⟩ := haccepts
  rw [hcause] at hconfig
  cases hconfig

end ComputeArmada.Adapter
