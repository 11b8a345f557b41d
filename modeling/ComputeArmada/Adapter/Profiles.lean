import Mathlib.Data.List.TakeWhile
import ComputeArmada.Adapter.Config
import ComputeArmada.Adapter.Sandbox

/-!
# The GPUs of compute profiles

What an operator writes in a list of profiles, what the check at startup finds in it, and what the pod spec of a
session of such a profile asks for.

* `Gpu`, `Setting`, `Profile` : the syntax `name:key=value;key=value,…`, and `profilesText`, how it is written;
* `profileGpuTypes_text` : the types that startup finds are those of the GPU entries, in their order;
* `parseGpu_argument` : what the pod spec reads of the text that it is handed for a GPU;
* `Places` : that the pod spec for a GPU has the selector that the operator wrote for its type, and its count;
* `profiles_placed` : with an accepted configuration `Places` holds exactly where no label is dropped.
-/

namespace ComputeArmada.Adapter

namespace Js

/-! ## Pieces, blanks and letters -/

theorem split_intercalate {sep : String} {c : Char} (hsep : sep.toList = [c]) {pieces : List String}
    (h : ∀ s ∈ pieces, c ∉ s.toList) (hne : pieces ≠ []) : split (sep.intercalate pieces) c = pieces := by
  unfold split
  rw [String.toList_intercalate, hsep, List.splitOn_intercalate]
  · rw [List.map_map]
    exact (List.map_congr_left fun s _ => String.ofList_toList).trans (List.map_id _)
  · intro cs hcs
    obtain ⟨s, hs, rfl⟩ := List.mem_map.mp hcs
    exact h s hs
  · simpa using hne

theorem split_singleton {sep : Char} {s : String} (h : sep ∉ s.toList) : split s sep = [s] := by
  unfold split
  rw [List.splitOn_eq_singleton h, List.map_singleton, String.ofList_toList]

theorem split_pair {sep s t : String} {c : Char} (hsep : sep.toList = [c]) (hs : c ∉ s.toList) (ht : c ∉ t.toList) :
    split (s ++ sep ++ t) c = [s, t] := by
  have hpieces : ∀ p ∈ [s, t], c ∉ p.toList := by simp [hs, ht]
  have hsplit := split_intercalate hsep hpieces (by simp)
  rwa [String.intercalate_cons_cons, String.intercalate_singleton] at hsplit

theorem trimList_around {before text after : List Char} (hbefore : ∀ c ∈ before, isSpace c = true)
    (hafter : ∀ c ∈ after, isSpace c = true) : trimList (before ++ (text ++ after)) = trimList text := by
  have hreverse : ∀ c ∈ after.reverse, isSpace c = true := fun c hc => hafter c (List.mem_reverse.mp hc)
  unfold trimList
  rw [List.dropWhile_append, List.dropWhile_eq_nil_iff.mpr hbefore, List.isEmpty_nil, if_pos rfl, List.dropWhile_append]
  cases htext : text.dropWhile isSpace with
  | nil => rw [List.isEmpty_nil, if_pos rfl, List.dropWhile_eq_nil_iff.mpr hafter]
  | cons c cs =>
    rw [List.isEmpty_cons, if_neg (by decide), List.reverse_append, List.dropWhile_append,
      List.dropWhile_eq_nil_iff.mpr hreverse, List.isEmpty_nil, if_pos rfl]

theorem trim_around {before text after : String} (hbefore : ∀ c ∈ before.toList, isSpace c = true)
    (hafter : ∀ c ∈ after.toList, isSpace c = true) : trim (before ++ text ++ after) = trim text := by
  unfold trim
  rw [String.toList_append, String.toList_append, List.append_assoc, trimList_around hbefore hafter]

theorem of_ascii {p : Char → Prop} (h : ∀ n : Fin 128, p (Char.ofNat n)) {c : Char} (hc : c.toNat < 128) : p c := by
  have hp := h ⟨c.toNat, hc⟩
  rwa [Char.ofNat_toNat] at hp

theorem toUpper_toUpper {c : Char} (hc : c.toNat < 128) : c.toUpper.toUpper = c.toUpper :=
  of_ascii (p := fun c => c.toUpper.toUpper = c.toUpper) (by decide) hc

theorem toNat_toUpper {c : Char} (hc : c.toNat < 128) : c.toUpper.toNat < 128 :=
  of_ascii (p := fun c => c.toUpper.toNat < 128) (by decide) hc

theorem toUpper_eq_colon {c : Char} (hc : c.toNat < 128) : c.toUpper = ':' → c = ':' :=
  of_ascii (p := fun c => c.toUpper = ':' → c = ':') (by decide) hc

section
variable {table : UpperCase} {s : String}

theorem toList_toUpperCase (h : ∀ c ∈ s.toList, c.toNat < 128) :
    (toUpperCase table s).toList = s.toList.map Char.toUpper := by
  have hchar : ∀ c ∈ s.toList, upperChar table c = [c.toUpper] := fun c hc => if_pos (h c hc)
  rw [toUpperCase, String.toList_ofList, List.flatMap_congr hchar, List.map_eq_flatMap]

theorem toUpperCase_toUpperCase (h : ∀ c ∈ s.toList, c.toNat < 128) :
    toUpperCase table (toUpperCase table s) = toUpperCase table s := by
  have hascii : ∀ c ∈ (toUpperCase table s).toList, c.toNat < 128 := by
    rw [toList_toUpperCase h]
    intro c hmem
    obtain ⟨c, hc, rfl⟩ := List.mem_map.mp hmem
    exact toNat_toUpper (h c hc)
  rw [← String.toList_inj, toList_toUpperCase hascii, toList_toUpperCase h, List.map_map]
  exact List.map_congr_left fun c hc => toUpper_toUpper (h c hc)

theorem colon_notMem_toUpperCase (h : ∀ c ∈ s.toList, c.toNat < 128) (hcolon : ':' ∉ s.toList) :
    ':' ∉ (toUpperCase table s).toList := by
  rw [toList_toUpperCase h]
  intro hmem
  obtain ⟨c, hc, hupper⟩ := List.mem_map.mp hmem
  exact hcolon (toUpper_eq_colon (h c hc) hupper ▸ hc)

theorem toUpperCase_ne_empty (h : ∀ c ∈ s.toList, c.toNat < 128) (hs : s ≠ "") : toUpperCase table s ≠ "" := by
  intro hempty
  have hlist := @toList_toUpperCase table s h
  rw [hempty] at hlist
  exact hs (by simpa using hlist.symm)

end

end Js

/-! ## What an operator writes -/

/-- None of these characters is in the text. -/
def Without (excluded : List Char) (s : String) : Prop := ∀ c ∈ s.toList, c ∉ excluded

instance (excluded : List Char) (s : String) : Decidable (Without excluded s) :=
  inferInstanceAs (Decidable (∀ c ∈ s.toList, c ∉ excluded))

/-- A text with blanks around it. -/
def Around (text s : String) : Prop := ∃ before after : String, s = before ++ text ++ after ∧
  (∀ c ∈ before.toList, Js.isSpace c = true) ∧ ∀ c ∈ after.toList, Js.isSpace c = true

/-- A GPU: `type` or `type:count`. -/
structure Gpu where
  type : String
  count : Option String
  ascii : ∀ c ∈ type.toList, c.toNat < 128
  nonempty : type ≠ ""
  trimmed : Js.trim type = type
  plainType : Without [',', ':', ';', '='] type
  plainCount : ∀ n ∈ count, Without [',', ':', ';', '='] n

/-- A type in a letter case, with its count. -/
def gpuText (type : String) (count : Option String) : String :=
  match count with
  | none => type
  | some count => type ++ ":" ++ count

/-- `key=value`, where the key may be `gpu`. -/
structure Setting where
  key : String
  value : String
  gpu : Option Gpu
  plainKey : Without [',', ';', '='] key
  plainValue : Without [',', ';', '='] value
  named : Js.trim key = "gpu" ↔ gpu ≠ none
  valued : ∀ g ∈ gpu, Around (gpuText g.type g.count) value

/-- `name:key=value;…`. -/
structure Profile where
  name : String
  settings : List Setting
  plainName : Without [',', ':'] name

def Setting.text (setting : Setting) : String := setting.key ++ "=" ++ setting.value

def Profile.body (profile : Profile) : String := ";".intercalate (profile.settings.map Setting.text)

def Profile.text (profile : Profile) : String := profile.name ++ ":" ++ profile.body

def profilesText (profiles : List Profile) : String := ",".intercalate (profiles.map Profile.text)

/-- The GPUs of a list of profiles, in their order. -/
def gpus (profiles : List Profile) : List Gpu := profiles.flatMap fun profile => profile.settings.filterMap (·.gpu)

/-! ## What startup finds -/

theorem Without.append {excluded : List Char} {s t : String} (hs : Without excluded s) (ht : Without excluded t) :
    Without excluded (s ++ t) := by
  intro c hc
  rw [String.toList_append] at hc
  exact (List.mem_append.mp hc).elim (hs c) (ht c)

theorem Without.mono {excluded excluded' : List Char} {s : String} (h : Without excluded s)
    (hsub : ∀ c ∈ excluded', c ∈ excluded) : Without excluded' s := fun c hc hmem => h c hc (hsub c hmem)

theorem Without.notMem {excluded : List Char} {s : String} {c : Char} (h : Without excluded s) (hc : c ∈ excluded) :
    c ∉ s.toList := fun hmem => h c hmem hc

theorem Without.intercalate {excluded : List Char} {sep : String} {pieces : List String} (hsep : Without excluded sep)
    (h : ∀ s ∈ pieces, Without excluded s) : Without excluded (sep.intercalate pieces) := by
  induction pieces with
  | nil => exact fun c hc => nomatch hc
  | cons s pieces ih =>
    obtain ⟨hs, hpieces⟩ := List.forall_mem_cons.mp h
    cases pieces with
    | nil =>
      rw [String.intercalate_singleton]
      exact hs
    | cons t pieces =>
      rw [String.intercalate_cons_cons]
      exact (hs.append hsep).append (ih hpieces)

theorem Around.notMem {text s : String} {c : Char} (h : Around text s) (htext : c ∉ text.toList)
    (hc : Js.isSpace c = false) : c ∉ s.toList := by
  obtain ⟨before, after, rfl, hbefore, hafter⟩ := h
  intro hmem
  rw [String.toList_append, String.toList_append] at hmem
  rcases List.mem_append.mp hmem with hmem | hmem
  · rcases List.mem_append.mp hmem with hmem | hmem
    · rw [hbefore c hmem] at hc
      cases hc
    · exact htext hmem
  · rw [hafter c hmem] at hc
    cases hc

theorem afterColon_append {name : String} (h : ':' ∉ name.toList) (rest : String) :
    afterColon (name ++ ":" ++ rest) = rest := by
  have hdrop : (name ++ ":" ++ rest).toList.dropWhile (· ≠ ':') = ':' :: rest.toList := by
    rw [String.toList_append, String.toList_append, List.append_assoc, List.dropWhile_append]
    have hname : name.toList.dropWhile (· ≠ ':') = [] :=
      List.dropWhile_eq_nil_iff.mpr fun c hc => decide_eq_true fun heq => h (heq ▸ hc)
    rw [hname]
    rfl
  unfold afterColon
  rw [hdrop]
  exact String.ofList_toList

theorem Setting.without_text (setting : Setting) : Without [',', ';'] setting.text :=
  ((setting.plainKey.mono (by decide)).append (by decide)).append (setting.plainValue.mono (by decide))

theorem Profile.without_text (profile : Profile) : Without [','] profile.text := by
  refine ((profile.plainName.mono (by decide)).append (by decide)).append (Without.intercalate (by decide) ?_)
  intro s hs
  obtain ⟨setting, -, rfl⟩ := List.mem_map.mp hs
  exact setting.without_text.mono (by decide)

theorem trim_type {g : Gpu} {value : String} (h : Around (gpuText g.type g.count) value) :
    Js.trim ((Js.split value ':').headD "") = g.type := by
  obtain ⟨before, after, rfl, hbefore, hafter⟩ := h
  have hspace : ∀ {s : String}, (∀ c ∈ s.toList, Js.isSpace c = true) → ':' ∉ s.toList := fun hs hmem =>
    absurd (hs ':' hmem) (by decide)
  have htype : ':' ∉ g.type.toList := g.plainType.notMem (by decide)
  have hfront : ':' ∉ (before ++ g.type).toList := by
    rw [String.toList_append, List.mem_append]
    exact not_or.mpr ⟨hspace hbefore, htype⟩
  unfold gpuText
  cases hcount : g.count with
  | none =>
    dsimp only
    have hwhole : ':' ∉ (before ++ g.type ++ after).toList := by
      rw [String.toList_append, List.mem_append]
      exact not_or.mpr ⟨hfront, hspace hafter⟩
    rw [Js.split_singleton hwhole, List.headD_cons, Js.trim_around hbefore hafter, g.trimmed]
  | some count =>
    dsimp only
    have hback : ':' ∉ (count ++ after).toList := by
      rw [String.toList_append, List.mem_append]
      exact not_or.mpr ⟨(g.plainCount count hcount).notMem (by decide), hspace hafter⟩
    have hregroup : before ++ (g.type ++ ":" ++ count) ++ after = before ++ g.type ++ ":" ++ (count ++ after) := by
      simp only [String.append_assoc]
    rw [hregroup, Js.split_pair (by decide) hfront hback, List.headD_cons]
    have hnothing : ∀ c ∈ "".toList, Js.isSpace c = true := fun _ h => nomatch h
    have haround : Js.trim (before ++ g.type ++ "") = Js.trim g.type := Js.trim_around hbefore hnothing
    rw [String.append_empty] at haround
    rw [haround, g.trimmed]

section
variable (table : Js.UpperCase)

theorem pairGpuType_pair {pair key value : String} (h : Js.split pair '=' = [key, value]) :
    pairGpuType table pair = if Js.trim key ≠ "gpu" then none
      else if Js.toUpperCase table (Js.trim ((Js.split value ':').headD "")) = "" then none
      else some (Js.toUpperCase table (Js.trim ((Js.split value ':').headD ""))) := by
  unfold pairGpuType
  rw [h]
  rfl

theorem split_empty (sep : Char) : Js.split "" sep = [""] := Js.split_singleton List.not_mem_nil

theorem pairGpuType_empty : pairGpuType table "" = none := by
  unfold pairGpuType
  rw [split_empty]
  exact if_pos (by decide)

theorem pairGpuType_text (setting : Setting) :
    pairGpuType table setting.text = setting.gpu.map fun g => Js.toUpperCase table g.type := by
  have hsplit : Js.split setting.text '=' = [setting.key, setting.value] :=
    Js.split_pair (by decide) (setting.plainKey.notMem (by decide)) (setting.plainValue.notMem (by decide))
  rw [pairGpuType_pair table hsplit]
  cases hgpu : setting.gpu with
  | none => rw [if_pos (fun hkey => setting.named.mp hkey hgpu), Option.map_none]
  | some g =>
    have hkey : Js.trim setting.key = "gpu" := setting.named.mpr (by simp [hgpu])
    rw [if_neg (not_not_intro hkey), trim_type (setting.valued g hgpu),
      if_neg (Js.toUpperCase_ne_empty g.ascii g.nonempty),
      Option.map_some]

theorem bodyTypes (settings : List Setting) :
    (Js.split (";".intercalate (settings.map Setting.text)) ';').filterMap (pairGpuType table) =
      (settings.filterMap (·.gpu)).map fun g => Js.toUpperCase table g.type := by
  cases settings with
  | nil =>
    rw [List.map_nil, String.intercalate_nil, split_empty, List.filterMap_cons, pairGpuType_empty]
    rfl
  | cons setting settings =>
    have hpieces : ∀ s ∈ (setting :: settings).map Setting.text, ';' ∉ s.toList := by
      intro s hs
      obtain ⟨setting', -, rfl⟩ := List.mem_map.mp hs
      exact setting'.without_text.notMem (by decide)
    have hsplit : Js.split (";".intercalate ((setting :: settings).map Setting.text)) ';' =
        (setting :: settings).map Setting.text := Js.split_intercalate (by decide) hpieces (by simp)
    rw [hsplit, List.filterMap_map, List.map_filterMap]
    refine List.filterMap_congr fun setting' _ => ?_
    rw [Function.comp_apply, pairGpuType_text]

/-- **Startup finds the types of all the GPUs**, upper-cased and in their order. -/
theorem profileGpuTypes_text (profiles : List Profile) :
    profileGpuTypes table (some (profilesText profiles)) =
      (gpus profiles).map fun g => Js.toUpperCase table g.type := by
  unfold profileGpuTypes profilesText gpus
  rw [Option.getD_some]
  cases profiles with
  | nil =>
    rw [List.map_nil, String.intercalate_nil, split_empty, List.flatMap_singleton]
    exact bodyTypes table []
  | cons profile profiles =>
    have hpieces : ∀ s ∈ (profile :: profiles).map Profile.text, ',' ∉ s.toList := by
      intro s hs
      obtain ⟨profile', -, rfl⟩ := List.mem_map.mp hs
      exact profile'.without_text.notMem (by decide)
    have hsplit : Js.split (",".intercalate ((profile :: profiles).map Profile.text)) ',' =
        (profile :: profiles).map Profile.text := Js.split_intercalate (by decide) hpieces (by simp)
    rw [hsplit, List.flatMap_map, List.map_flatMap]
    refine List.flatMap_congr fun profile' _ => ?_
    rw [Profile.text, afterColon_append (profile'.plainName.notMem (by decide))]
    exact bodyTypes table profile'.settings

end

/-! ## What the pod spec asks for -/

theorem splitOn_eq_split {sep : String} {c : Char} (hsep : sep.toList = [c]) (s : String) :
    s.splitOn sep = Js.split s c := by
  rw [← String.ofList_toList (s := sep), hsep]
  exact Text.splitOn_singleton s c

theorem parseGpu_text {table : Js.UpperCase} {type : String} {count : Option String}
    (hupper : Js.toUpperCase table type = type) (htype : ':' ∉ type.toList) (hcount : ∀ n ∈ count, ':' ∉ n.toList) :
    parseGpu table (gpuText type count) = (type, count.getD "1") := by
  have hsplit : (gpuText type count).splitOn ":" = Js.split (gpuText type count) ':' := splitOn_eq_split (by decide) _
  unfold parseGpu
  rw [hsplit]
  cases count with
  | none =>
    have hone : Js.split (gpuText type none) ':' = [type] := Js.split_singleton htype
    rw [hone]
    exact congrArg (·, "1") hupper
  | some count =>
    have htwo : Js.split (gpuText type (some count)) ':' = [type, count] :=
      Js.split_pair (by decide) htype (hcount count rfl)
    rw [htwo]
    exact congrArg (·, count) hupper

/-- What marimohub hands back of a profile: the type upper-cased, with its count. -/
def Gpu.argument (table : Js.UpperCase) (g : Gpu) : String := gpuText (Js.toUpperCase table g.type) g.count

theorem parseGpu_argument (table : Js.UpperCase) (g : Gpu) :
    parseGpu table (g.argument table) = (Js.toUpperCase table g.type, g.count.getD "1") :=
  parseGpu_text (Js.toUpperCase_toUpperCase g.ascii)
    (Js.colon_notMem_toUpperCase g.ascii (g.plainType.notMem (by decide)))
    fun n hn => (g.plainCount n hn).notMem (by decide)

theorem argument_ne_empty (table : Js.UpperCase) (g : Gpu) : g.argument table ≠ "" := by
  have htype : Js.toUpperCase table g.type ≠ "" := Js.toUpperCase_ne_empty g.ascii g.nonempty
  unfold Gpu.argument gpuText
  cases g.count with
  | none => exact htype
  | some count =>
    intro hempty
    have hlist := congrArg String.toList hempty
    rw [String.toList_append] at hlist
    simp at hlist

/-- With this GPU a pod spec is built, with its count and the selector that was written for its type. -/
def Places (table : Js.UpperCase) (config : ArmadaConfig) (written : List (String × Record)) (g : Gpu) : Prop :=
  ∀ tokenSha256 options, (options.bind (·.resources)).bind (·.gpu) = some (g.argument table) →
    ∃ spec, buildPodSpec table config tokenSha256 options = .ok spec ∧ spec.gpuCount = some (g.count.getD "1") ∧
      ∃ p ∈ written, Js.toUpperCase table p.1 = Js.toUpperCase table g.type ∧ spec.nodeSelector = some p.2

section
variable {table : Js.UpperCase} {config : ArmadaConfig} {g : Gpu}

theorem gpuOf_argument {options : Option CreateSandboxOptions}
    (h : (options.bind (·.resources)).bind (·.gpu) = some (g.argument table)) :
    gpuOf table options = some (Js.toUpperCase table g.type, g.count.getD "1") := by
  unfold gpuOf nonempty
  rw [h, Option.filter_some, if_pos (by simpa using argument_ne_empty table g), Option.map_some, parseGpu_argument]

/-- The selector that is found under a type's name is the pod's. -/
theorem buildPodSpec_gpu {options : Option CreateSandboxOptions} {name : String} {selector : Record}
    (tokenSha256 : String)
    (h : (options.bind (·.resources)).bind (·.gpu) = some (g.argument table))
    (hfind : config.gpuNodeSelectors.find? (fun p => p.1 = Js.toUpperCase table g.type) = some (name, selector)) :
    ∃ spec, buildPodSpec table config tokenSha256 options = .ok spec ∧ spec.gpuCount = some (g.count.getD "1") ∧
      spec.nodeSelector = some selector := by
  unfold buildPodSpec
  rw [gpuOf_argument h]
  dsimp only
  rw [hfind]
  exact ⟨_, rfl, rfl, rfl⟩

theorem mapped_of_unmappedTypes {profiles : Option String} (h : unmappedTypes table config profiles = [])
    {type : String}
    (htype : type ∈ profileGpuTypes table profiles) : ∃ p ∈ config.gpuNodeSelectors, p.1 = type := by
  by_contra hnone
  refine List.eq_nil_iff_forall_not_mem.mp h type (List.mem_filter.mpr ⟨htype, List.all_eq_true.mpr fun p hp => ?_⟩)
  exact decide_eq_true fun heq => hnone ⟨p, hp, heq⟩

/-- What is found under a name, where the names differ. -/
theorem find_name {selectors : List (String × Record)} (hkeys : (selectors.map (·.1)).Nodup) {p : String × Record}
    (hp : p ∈ selectors) : selectors.find? (fun q => q.1 = p.1) = some p := by
  induction selectors with
  | nil => cases hp
  | cons q selectors ih =>
    obtain ⟨hq, hkeys⟩ := List.nodup_cons.mp hkeys
    rcases List.mem_cons.mp hp with rfl | hp
    · exact List.find?_cons_of_pos (by simp)
    · have hne : q.1 ≠ p.1 := fun heq => hq (List.mem_map.mpr ⟨p, hp, heq.symm⟩)
      rw [List.find?_cons_of_neg (by simpa using hne), ih hkeys hp]

/-- What is read of the selectors that are written, with names that differ in more than case. -/
def readSelectors (table : Js.UpperCase) (written : List (String × Record)) : List (String × Record) :=
  written.map fun p => (Js.toUpperCase table p.1, p.2.filter (·.1 ≠ "__proto__"))

/-- A GPU whose type is mapped has what the operator wrote, but for a label that is dropped. -/
theorem places_iff {written : List (String × Record)}
    (hselectors : config.gpuNodeSelectors = readSelectors table written)
    (hdiffer : (written.map fun p => Js.toUpperCase table p.1).Nodup)
    (hmapped : ∃ p ∈ config.gpuNodeSelectors, p.1 = Js.toUpperCase table g.type) :
    Places table config written g ↔
      ∀ p ∈ written, Js.toUpperCase table p.1 = Js.toUpperCase table g.type → "__proto__" ∉ p.2.map (·.1) := by
  have hkeys : (config.gpuNodeSelectors.map (·.1)).Nodup := by
    rw [hselectors, readSelectors, List.map_map]
    exact hdiffer
  obtain ⟨q, hq, hname⟩ := hmapped
  have hfind := find_name hkeys hq
  rw [hname] at hfind
  rw [hselectors] at hq
  obtain ⟨p, hp, rfl⟩ := List.mem_map.mp hq
  have honly : ∀ p' ∈ written, Js.toUpperCase table p'.1 = Js.toUpperCase table g.type → p' = p := fun p' hp' hname' =>
    List.inj_on_of_nodup_map hdiffer hp' hp (hname'.trans hname.symm)
  constructor
  · intro hplaces p' hp' hname' hproto
    obtain rfl := honly p' hp' hname'
    have hgpu : ((some { resources := some { gpu := some (g.argument table) } } : Option CreateSandboxOptions).bind
        (·.resources)).bind (·.gpu) = some (g.argument table) := rfl
    obtain ⟨spec, hspec, -, p'', hp'', hname'', hselector⟩ := hplaces "" _ hgpu
    obtain rfl := honly p'' hp'' hname''
    obtain ⟨spec', hspec', -, hselector'⟩ := buildPodSpec_gpu "" hgpu hfind
    rw [hspec] at hspec'
    cases hspec'
    rw [hselector] at hselector'
    exact Record.filter_ne_eq_self.mp (Option.some.inj hselector').symm hproto
  · intro hkept tokenSha256 options hgpu
    obtain ⟨spec, hspec, hcount, hselector⟩ := buildPodSpec_gpu tokenSha256 hgpu hfind
    rw [Record.filter_ne_eq_self.mpr (hkept p hp hname)] at hselector
    exact ⟨spec, hspec, hcount, p, hp, hname, hselector⟩

/-- **What startup checks is what the pods need.** For profiles in either of the two settings: startup finds the
types of all their GPUs; and with an accepted configuration, where no two types of the map differ in case only,
each GPU is placed as the operator wrote it exactly where no selector for its type has a label `__proto__`. -/
theorem profiles_placed (host : Host) {env : Record} {name : String} (hname : name ∈ profileVariables)
    (profiles : List Profile) (henv : Record.own env name = some (profilesText profiles)) :
    profileGpuTypes host.upperCase (Record.own env name) =
      (gpus profiles).map (fun g => Js.toUpperCase host.upperCase g.type) ∧
    ∀ sessionMaxLifetimeSeconds config, readConfig host env sessionMaxLifetimeSeconds = .ok config →
      config.gpuNodeSelectors ≠ [] → ∀ written, SaysSelectors host.engine env written →
      (written.map fun p => Js.toUpperCase host.upperCase p.1).Nodup →
      ((∀ g ∈ gpus profiles, Places host.upperCase config written g) ↔ ∀ g ∈ gpus profiles, ∀ p ∈ written,
        Js.toUpperCase host.upperCase p.1 = Js.toUpperCase host.upperCase g.type → "__proto__" ∉ p.2.map (·.1)) := by
  have hfound := profileGpuTypes_text host.upperCase profiles
  rw [henv]
  refine ⟨hfound, fun sessionMaxLifetimeSeconds config hread hne written hwritten hdiffer => ?_⟩
  have hreads := of_readConfig hread
  obtain ⟨said, hsaid, hselectors⟩ := of_readGpuNodeSelectors hreads.gpuNodeSelectors
  obtain rfl := hsaid.unique hwritten
  have hunmapped := hreads.profiles hne name hname
  rw [henv] at hunmapped
  refine forall₂_congr fun g hg => places_iff (hselectors hdiffer) hdiffer (mapped_of_unmappedTypes hunmapped ?_)
  rw [hfound]
  exact List.mem_map_of_mem hg

end

/-- Two of a type that is written in lower case, and a setting of another kind. -/
def twoA100 : Gpu where
  type := "a100"
  count := some "2"
  ascii := by decide
  nonempty := by decide
  trimmed := by decide
  plainType := by decide
  plainCount := by decide

def bigProfile : Profile where
  name := "big"
  settings :=
    [{ key := " gpu ", value := " a100:2", gpu := some twoA100, plainKey := by decide, plainValue := by decide
       named := ⟨fun _ => (nomatch ·), fun _ => by decide⟩
       valued := fun _ hg => Option.some.inj hg ▸ ⟨" ", "", by decide, by decide, by decide⟩ },
     { key := "cpu", value := "8", gpu := none, plainKey := by decide, plainValue := by decide
       named := ⟨fun h => absurd h (by decide), fun h => absurd rfl h⟩, valued := fun _ hg => nomatch hg }]
  plainName := by decide

def gpuEnv (selectors : String) : Record := leastEnv ++
  [("ARMADA_GPU_NODE_SELECTORS", selectors), ("MARIMOHUB_COMPUTE_PROFILES", profilesText [bigProfile])]

def a100Selectors : String := "\x7b\"A100\": \x7b\"pool\": \"a\"\x7d, \"H100\": \x7b\"pool\": \"h\"\x7d\x7d"

theorem profiles_placed_a100 : ∃ config, readConfig plainHost (gpuEnv a100Selectors) none = .ok config ∧
    Places plainHost.upperCase config [("A100", [("pool", "a")]), ("H100", [("pool", "h")])] twoA100 := by
  have haccepts : ∃ config, readConfig plainHost (gpuEnv a100Selectors) none = .ok config ∧
      decide (config.gpuNodeSelectors ≠ []) = true := exists_of_accepts (by decide +kernel)
  obtain ⟨config, hread, hne⟩ := haccepts
  have hwritten : SaysSelectors plainHost.engine (gpuEnv a100Selectors)
      [("A100", [("pool", "a")]), ("H100", [("pool", "h")])] :=
    ⟨[("A100", .object [("pool", .string "a")]), ("H100", .object [("pool", .string "h")])], rfl,
      .cons ⟨rfl, _, rfl, rfl⟩ (.cons ⟨rfl, _, rfl, rfl⟩ .nil)⟩
  have henv : Record.own (gpuEnv a100Selectors) "MARIMOHUB_COMPUTE_PROFILES" = some (profilesText [bigProfile]) := rfl
  have hexact := (profiles_placed plainHost List.mem_cons_self [bigProfile] henv).2 none config hread
    (of_decide_eq_true hne) _ hwritten (by decide)
  exact ⟨config, hread, hexact.mpr (by decide) twoA100 List.mem_cons_self⟩

/-- A label that an assignment drops. -/
def protoSelectors : String := "\x7b\"A100\": \x7b\"pool\": \"a\", \"__proto__\": \"b\"\x7d\x7d"

theorem profiles_placed_proto : ∃ config spec, readConfig plainHost (gpuEnv protoSelectors) none = .ok config ∧
    SaysSelectors plainHost.engine (gpuEnv protoSelectors) [("A100", [("pool", "a"), ("__proto__", "b")])] ∧
    buildPodSpec plainHost.upperCase config "" (some { resources := some { gpu := some "A100:2" } }) = .ok spec ∧
    spec.nodeSelector = some [("pool", "a")] := by
  have haccepts : ∃ config, readConfig plainHost (gpuEnv protoSelectors) none = .ok config ∧
      decide (config.gpuNodeSelectors = [("A100", [("pool", "a")])]) = true := exists_of_accepts (by decide +kernel)
  obtain ⟨config, hread, hselectors⟩ := haccepts
  have hargument : "A100:2" = twoA100.argument plainHost.upperCase := by decide
  obtain ⟨spec, hspec, -, hselector⟩ := @buildPodSpec_gpu plainHost.upperCase config twoA100
    (some { resources := some { gpu := some "A100:2" } }) "A100" [("pool", "a")] "" (congrArg some hargument)
    (by rw [of_decide_eq_true hselectors]; decide)
  exact ⟨config, spec, hread, ⟨[("A100", .object [("pool", .string "a"), ("__proto__", .string "b")])], rfl,
    .cons ⟨rfl, _, rfl, rfl⟩ .nil⟩, hspec, hselector⟩

end ComputeArmada.Adapter
