import Mathlib.Data.List.Induction
import ComputeArmada.Adapter.Quoting
import ComputeArmada.Adapter.Twins
import ComputeArmada.Adapter.Address

/-!
# Which value an environment variable has

What the prefixes of `exec` and `startProcess` leave of a variable, after any `setEnvVars` calls.

* `After` : a sequence of calls, run on what the process shares, and `Remembers` what the instance then holds;
* `envBefore_processScript` : what the prefixes make of any environment;
* `precedence` : the value a variable is meant to have, `Met` when it is the one it has;
* `exec_sends`, `startProcess_sends` : the scripts that the agent is sent;
* `env_precedence`.
-/

namespace ComputeArmada.Adapter
open Sh
open Sh.Scanner hiding tokens

/-! ## Calls of `setEnvVars` -/

structure SetEnvVars where
  vars : Record
  onlyIfUnset : Bool
  deriving DecidableEq

/-- A call that `assertEnvName` lets through. -/
def SetEnvVars.accepted (call : SetEnvVars) : Bool := call.vars.all fun p => isEnvName p.1

/-- What the process shares after a call. -/
def afterCall (me : Nat) (call : SetEnvVars) (s : Shared) : Shared :=
  (Async.advance (setEnvVars me call.vars call.onlyIfUnset) s).1

/-- The value that the last accepted call of its kind has set, if one has. -/
def lastSet (calls : List SetEnvVars) (onlyIfUnset : Bool) (key : String) : Option String :=
  calls.reverse.findSome? fun call =>
    if call.accepted ∧ call.onlyIfUnset = onlyIfUnset then call.vars.own key else none

theorem lastSet_append (calls : List SetEnvVars) (call : SetEnvVars) (onlyIfUnset : Bool) (key : String) :
    lastSet (calls ++ [call]) onlyIfUnset key =
      (if call.accepted ∧ call.onlyIfUnset = onlyIfUnset then call.vars.own key else none).or
        (lastSet calls onlyIfUnset key) := by
  unfold lastSet
  rw [List.reverse_append, List.reverse_singleton, List.singleton_append, List.findSome?_cons]
  split <;> simp_all

/-- What an instance holds of its variables. -/
structure Remembers (i : Instance) (calls : List SetEnvVars) : Prop where
  env : ∀ key, i.env.own key = lastSet calls false key
  envDefaults : ∀ key, i.envDefaults.own key = lastSet calls true key
  distinct : Record.Distinct i.env ∧ Record.Distinct i.envDefaults
  valid : Variables i.env ∧ Variables i.envDefaults

/-- The maps that are passed: objects, without a NUL in a value. -/
def Passed (call : SetEnvVars) : Prop := Record.Distinct call.vars ∧ ∀ p ∈ call.vars, NulFree p.2

theorem SetEnvVars.accepted_iff {call : SetEnvVars} :
    call.accepted = true ↔ ∀ p ∈ call.vars, isName p.1 = true := List.all_eq_true

/-- Other calls leave the variables of the instance alone. -/
def Unchanged (me : Nat) (s s' : Shared) : Prop :=
  (s'.instances me).env = (s.instances me).env ∧ (s'.instances me).envDefaults = (s.instances me).envDefaults

/-- What the process shares after these calls of an instance, and whatever else happened in between. -/
inductive After (me : Nat) : List SetEnvVars → Shared → Prop
  | fresh {s} (henv : (s.instances me).env = []) (hdefaults : (s.instances me).envDefaults = []) : After me [] s
  | call {calls s} (h : After me calls s) (call : SetEnvVars) (hcall : Passed call) :
      After me (calls ++ [call]) (afterCall me call s)
  | other {calls s s'} (h : After me calls s) (hs : Unchanged me s s') : After me calls s'

/-- What a call makes of the instance, if it is accepted. -/
def SetEnvVars.apply (call : SetEnvVars) (i : Instance) : Instance :=
  if call.onlyIfUnset then { i with envDefaults := i.envDefaults.spread call.vars }
  else { i with env := i.env.spread call.vars }

theorem afterCall_eq (me : Nat) (call : SetEnvVars) (s : Shared) :
    afterCall me call s = if call.accepted then s.setInstance me call.apply else s := by
  unfold afterCall setEnvVars
  by_cases h : call.accepted = true
  · have hnames := SetEnvVars.accepted_iff.mp h
    rw [if_pos h, mapM_ok (g := (·.1)) fun p hp => assertEnvName_ok (hnames p hp)]
    rfl
  · rw [if_neg h]
    cases hmap : call.vars.mapM fun p => assertEnvName p.1 with
    | error x => rfl
    | ok names =>
      refine absurd (SetEnvVars.accepted_iff.mpr fun p hp => ?_) h
      obtain ⟨name, hname⟩ := of_mapM_ok hmap p hp
      exact of_assertEnvName hname

theorem Variables.spread {r r' : Record} (h : Variables r) (h' : Variables r') : Variables (r.spread r') :=
  ⟨Record.forall_spread h.names h'.names, Record.forall_spread h.values h'.values⟩

theorem Remembers.step {i : Instance} {calls : List SetEnvVars} (h : Remembers i calls) {call : SetEnvVars}
    (hcall : Passed call) : Remembers (if call.accepted then call.apply i else i) (calls ++ [call]) := by
  obtain ⟨henv, hdefaults, hdistinct, hvalid⟩ := h
  by_cases haccepted : call.accepted = true
  · have hvars : Variables call.vars := ⟨SetEnvVars.accepted_iff.mp haccepted, hcall.2⟩
    rw [if_pos haccepted, SetEnvVars.apply]
    cases hkind : call.onlyIfUnset with
    | true =>
      refine ⟨fun key => ?_, fun key => ?_, ⟨hdistinct.1, hdistinct.2.spread _⟩, hvalid.1, hvalid.2.spread hvars⟩
      · simp [lastSet_append, hkind, henv]
      · simp [lastSet_append, hkind, haccepted, Record.own_spread hcall.1, hdefaults]
    | false =>
      refine ⟨fun key => ?_, fun key => ?_, ⟨hdistinct.1.spread _, hdistinct.2⟩, hvalid.1.spread hvars, hvalid.2⟩
      · simp [lastSet_append, hkind, haccepted, Record.own_spread hcall.1, henv]
      · simp [lastSet_append, hkind, hdefaults]
  · rw [if_neg haccepted]
    refine ⟨fun key => ?_, fun key => ?_, hdistinct, hvalid⟩
    · simp [lastSet_append, haccepted, henv]
    · simp [lastSet_append, haccepted, hdefaults]

/-- A sequence of calls leaves an instance with what the last of them set. -/
theorem After.remembers {me : Nat} {calls : List SetEnvVars} {s : Shared} (h : After me calls s) :
    Remembers (s.instances me) calls := by
  induction h with
  | @fresh s henv hdefaults =>
    refine ⟨fun key => ?_, fun key => ?_, ?_, ?_⟩
    · rw [henv]
      rfl
    · rw [hdefaults]
      rfl
    · rw [henv, hdefaults]
      exact ⟨List.nodup_nil, List.nodup_nil⟩
    · rw [henv, hdefaults]
      exact ⟨⟨by simp, by simp⟩, by simp, by simp⟩
  | @call calls s h call hcall ih =>
    have hlast := ih.step hcall
    rw [afterCall_eq]
    split
    · rw [if_pos ‹_›] at hlast
      simpa [Shared.setInstance] using hlast
    · rw [if_neg ‹_›] at hlast
      exact hlast
  | other h hs ih =>
    obtain ⟨henv, hdefaults, hdistinct, hvalid⟩ := ih
    rw [← hs.1] at henv hdistinct hvalid
    rw [← hs.2] at hdefaults hdistinct hvalid
    exact ⟨henv, hdefaults, hdistinct, hvalid⟩

/-! ## What the shell makes of them -/

section
variable {env : Env} {r : Record} {key : String}

/-- Every variable of a map, exported. -/
def exportAll (env : Env) (r : Record) : Env := r.foldl (fun env p => Function.update env p.1 (some p.2)) env

/-- Every variable of a map that is unset or empty, exported. -/
def exportUnset (env : Env) (r : Record) : Env :=
  r.foldl (fun env p => if (env p.1).getD "" ≠ "" then env else Function.update env p.1 (some p.2)) env

theorem exportAll_apply (h : Record.Distinct r) : exportAll env r key = (r.own key).or (env key) := by
  induction r generalizing env with
  | nil => rfl
  | cons p r ih =>
    obtain ⟨hp, hr⟩ := List.nodup_cons.mp h
    change exportAll (Function.update env p.1 (some p.2)) r key = _
    rw [ih hr, Record.own_cons]
    by_cases hkey : p.1 = key
    · subst hkey
      rw [if_pos rfl, Record.own_eq_none hp, Function.update_self]
      rfl
    · rw [if_neg hkey, Function.update_of_ne (Ne.symm hkey)]

theorem exportUnset_of_notMem (h : key ∉ r.map (·.1)) : exportUnset env r key = env key := by
  induction r generalizing env with
  | nil => rfl
  | cons p r ih =>
    obtain ⟨hne, hr⟩ := not_or.mp (mt List.mem_cons.mpr h)
    change exportUnset (if (env p.1).getD "" ≠ "" then env else _) r key = _
    rw [ih hr]
    split
    · rfl
    · exact Function.update_of_ne hne _ _

theorem exportUnset_apply (h : Record.Distinct r) :
    exportUnset env r key = if (env key).getD "" ≠ "" then env key else (r.own key).or (env key) := by
  induction r generalizing env with
  | nil =>
    change env key = if _ then env key else env key
    split <;> rfl
  | cons p r ih =>
    obtain ⟨hp, hr⟩ := List.nodup_cons.mp h
    change exportUnset (if (env p.1).getD "" ≠ "" then env else Function.update env p.1 (some p.2)) r key = _
    by_cases hkey : p.1 = key
    · subst hkey
      rw [exportUnset_of_notMem hp, Record.own_cons, if_pos rfl]
      split <;> simp
    · rw [ih hr, Record.own_cons, if_neg hkey]
      have hsame : (if (env p.1).getD "" ≠ "" then env else Function.update env p.1 (some p.2)) key = env key := by
        split
        · rfl
        · exact Function.update_of_ne (Ne.symm hkey) _ _
      rw [hsame]

theorem runTokens_envPrefix {env : Env} {r defaults : Record} (hnames : ∀ p ∈ r ++ defaults, isName p.1 = true)
    {ts : List Token} (fuel : Nat) :
    runTokens (r.length + (defaults.length + fuel)) env (prefixTokens r defaults ++ ts) =
      runTokens fuel (exportUnset (exportAll env r) defaults) ts := by
  obtain ⟨hr, hdefaults⟩ := List.forall_mem_append.mp hnames
  unfold prefixTokens exportUnset exportAll
  rw [List.append_assoc, runTokens_flatMap (fun p hp env ts => statement_export (hr p hp))
    (fun _ => List.cons_ne_nil _ _),
    runTokens_flatMap (fun p hp env ts => statement_guard (hdefaults p hp)) (fun _ => List.cons_ne_nil _ _)]

end

/-! ## Scripts -/

/-- The script of `startProcess`; that of `exec` is the one without variables of its own. -/
def processScript (cmd : String) (given : List (String × Option String)) (i : Instance) : Except JsError String := do
  let inner ← withEnvPrefix cmd (processEnvOf given) []
  withEnvPrefix inner i.env i.envDefaults

theorem processScript_nil (cmd : String) (i : Instance) :
    processScript cmd [] i = withEnvPrefix cmd i.env i.envDefaults := by
  have hinner : withEnvPrefix cmd (processEnvOf []) [] = .ok cmd := by
    rw [withEnvPrefix_eq (by simp [processEnvOf])]
    simp [processEnvOf, String.join]
  rw [processScript, hinner]
  rfl

theorem length_prefixTokens (r defaults : Record) :
    (prefixTokens r defaults).length = 3 * r.length + 8 * defaults.length := by
  have hforced : (r.flatMap fun p => exportTokens p.1 p.2).length = 3 * r.length := by
    induction r with
    | nil => rfl
    | cons p r ih =>
      rw [List.flatMap_cons, List.length_append, ih, List.length_cons]
      simp only [exportTokens, List.length_cons, List.length_nil]
      omega
  have hguarded : (defaults.flatMap fun p => guardTokens p.1 p.2).length = 8 * defaults.length := by
    induction defaults with
    | nil => rfl
    | cons p r ih =>
      rw [List.flatMap_cons, List.length_append, ih, List.length_cons]
      simp only [guardTokens, exportTokens, List.length_append, List.length_cons, List.length_nil]
      omega
  rw [prefixTokens, List.length_append, hforced, hguarded]

theorem runTokens_nil (fuel : Nat) (env : Env) : runTokens fuel env [] = some env := by
  cases fuel <;> rfl

/-- What comes before the caller's command is read and run as it was built. -/
theorem envBefore_append {before cmd : String} {ts : List Token} (hnul : NulFree before)
    (hrun : start.run before.toList = start.after ts) (initial : Env) :
    envBefore (before ++ cmd) cmd initial = runTokens ts.length initial ts := by
  have htake : (before ++ cmd).toList.take ((before ++ cmd).toList.length - cmd.toList.length) = before.toList := by
    rw [String.toList_append, List.length_append, Nat.add_sub_cancel, List.take_left']
    rfl
  have htokens : start.after ts = { start with tokens := ts } := by simp [start, after]
  unfold envBefore
  simp only [htake, hrun, htokens]
  exact if_pos ⟨(String.toList_append).symm, hnul, trivial⟩

/-- The environment in which the caller's command starts. -/
theorem envBefore_processScript {cmd script : String} {given : List (String × Option String)} {i : Instance}
    (hscript : processScript cmd given i = .ok script) (hi : Variables i.env ∧ Variables i.envDefaults)
    (hgiven : ∀ p ∈ processEnvOf given, NulFree p.2) (initial : Env) : envBefore script cmd initial =
      some (exportAll (exportUnset (exportAll initial i.env) i.envDefaults) (processEnvOf given)) := by
  obtain ⟨inner, hinner, hscript⟩ := of_bind_ok hscript
  have hprocess : ∀ p ∈ processEnvOf given ++ [], isName p.1 = true := of_withEnvPrefix hinner
  have hnames : ∀ p ∈ i.env ++ i.envDefaults, isName p.1 = true := of_withEnvPrefix hscript
  have hprocess' : Variables (processEnvOf given) := ⟨fun p hp => hprocess p (List.mem_append_left _ hp), hgiven⟩
  rw [withEnvPrefix_eq hprocess] at hinner
  rw [withEnvPrefix_eq hnames] at hscript
  obtain rfl := Except.ok.inj hinner
  obtain rfl := Except.ok.inj hscript
  rw [← String.append_assoc, @envBefore_append _ _
    (prefixTokens i.env i.envDefaults ++ prefixTokens (processEnvOf given) [])]
  · obtain ⟨fuel, hfuel⟩ : ∃ fuel, (prefixTokens i.env i.envDefaults ++ prefixTokens (processEnvOf given) []).length =
        i.env.length + (i.envDefaults.length +
          ((processEnvOf given).length + (List.length (α := String × String) [] + fuel))) := by
      refine ⟨2 * i.env.length + 7 * i.envDefaults.length + 2 * (processEnvOf given).length, ?_⟩
      simp only [List.length_append, length_prefixTokens, List.length_nil]
      omega
    have hlast := @runTokens_envPrefix (exportUnset (exportAll initial i.env) i.envDefaults) _ _ hprocess [] fuel
    rw [List.append_nil] at hlast
    rw [hfuel, runTokens_envPrefix hnames, hlast, runTokens_nil]
    rfl
  · exact nulFree_append.mpr ⟨nulFree_envPrefix hi.1 hi.2, nulFree_envPrefix hprocess' ⟨by simp, by simp⟩⟩
  · rw [String.toList_append, run_append, run_envPrefix hnames, run_after, run_envPrefix hprocess]
    simp [after]

/-- The value that a process is given of its own. -/
def givenValue (given : List (String × Option String)) (key : String) : Option String :=
  (given.find? fun p => p.1 = key).bind (·.2)

theorem processEnvOf_cons (name : String) (value : Option String) (given : List (String × Option String)) :
    processEnvOf ((name, value) :: given) =
      ((if name = "__proto__" then none else value).toList.map fun value => (name, value)) ++ processEnvOf given := by
  unfold processEnvOf
  by_cases h : name = "__proto__"
  · simp [h]
  · cases value <;> simp [h]

theorem mem_keys_processEnvOf {given : List (String × Option String)} {key : String}
    (h : key ∈ (processEnvOf given).map (·.1)) : key ∈ given.map (·.1) := by
  obtain ⟨⟨_, value⟩, hp, rfl⟩ := List.mem_map.mp h
  obtain ⟨⟨name, value'⟩, hgiven, hsome⟩ := List.mem_filterMap.mp hp
  refine List.mem_map.mpr ⟨(name, value'), hgiven, ?_⟩
  by_cases hname : name = "__proto__"
  · simp [hname] at hsome
  · simp only [if_neg hname] at hsome
    obtain ⟨_, -, heq⟩ := Option.map_eq_some_iff.mp hsome
    exact congrArg Prod.fst heq

theorem distinct_processEnvOf {given : List (String × Option String)} (h : Record.Distinct given) :
    Record.Distinct (processEnvOf given) := by
  induction given with
  | nil => exact List.nodup_nil
  | cons p given ih =>
    obtain ⟨name, value⟩ := p
    obtain ⟨hname, hgiven⟩ := List.nodup_cons.mp h
    rw [processEnvOf_cons]
    cases (if name = "__proto__" then none else value) with
    | none => exact ih hgiven
    | some value => exact List.nodup_cons.mpr ⟨mt mem_keys_processEnvOf hname, ih hgiven⟩

theorem own_processEnvOf {given : List (String × Option String)} (h : Record.Distinct given) (key : String) :
    (processEnvOf given).own key = if key = "__proto__" then none else givenValue given key := by
  induction given with
  | nil => simp [processEnvOf, Record.own, givenValue]
  | cons p given ih =>
    obtain ⟨name, value⟩ := p
    obtain ⟨hname, hgiven⟩ := List.nodup_cons.mp h
    rw [processEnvOf_cons, Record.own_append, ih hgiven]
    by_cases hkey : name = key
    · subst hkey
      have hnone : (givenValue given name) = none := by
        have hfind : given.find? (fun p => p.1 = name) = none := List.find?_eq_none.mpr fun p hp hkey =>
          hname (List.mem_map.mpr ⟨p, hp, of_decide_eq_true hkey⟩)
        simp [givenValue, hfind]
      have hfirst : givenValue ((name, value) :: given) name = value := by simp [givenValue]
      rw [hfirst, hnone]
      by_cases hproto : name = "__proto__"
      · simp [hproto, Record.own]
      · cases value <;> simp [hproto, Record.own]
    · have hown : Record.own ((if name = "__proto__" then none else value).toList.map fun value => (name, value))
        key = none := by
        cases (if name = "__proto__" then none else value) <;> simp [Record.own, hkey]
      rw [hown]
      simp [givenValue, hkey]

/-! ## Precedence -/

/-- The value a variable is meant to have: what the process was given, else what was forced, else what the
environment has unless it is empty, else the default, else what the environment has. -/
def precedence (process forced initial fallback : Option String) : Option String :=
  process.or (forced.or ((initial.filter (· ≠ "")).or (fallback.or initial)))

/-- An empty value was forced, and a default is not empty. -/
def Refilled (forced fallback : Option String) : Prop := forced = some "" ∧ ∃ value, fallback = some value ∧ value ≠ ""

/-- When a variable has the value it is meant to have: no empty forced value is filled by a default, and no
value for `__proto__` was given that differs from what the variable has without it. -/
structure Met (key : String) (process forced initial fallback : Option String) : Prop where
  kept : process = none → ¬ Refilled forced fallback
  proto : key = "__proto__" → ∀ value, process = some value →
    (Refilled forced fallback → fallback = some value) ∧
      (¬ Refilled forced fallback → precedence none forced initial fallback = some value)

/-- What the commands leave of a variable. -/
def left (process forced initial fallback : Option String) : Option String :=
  process.or (if (forced.or initial).getD "" ≠ "" then forced.or initial else fallback.or (forced.or initial))

theorem left_refilled {forced initial fallback : Option String} (h : Refilled forced fallback) :
    left none forced initial fallback = fallback := by
  obtain ⟨rfl, value, rfl, -⟩ := h
  rfl

theorem left_not_refilled {forced initial fallback : Option String} (h : ¬ Refilled forced fallback) :
    left none forced initial fallback = precedence none forced initial fallback := by
  unfold left precedence
  cases forced with
  | some value =>
    by_cases hvalue : value = ""
    · subst hvalue
      cases fallback with
      | none => rfl
      | some default =>
        have hdefault : default = "" := by
          by_contra hne
          exact h ⟨rfl, default, rfl, hne⟩
        simp [hdefault]
    · simp [hvalue]
  | none =>
    cases initial with
    | none => simp
    | some value => by_cases hvalue : value = "" <;> simp [hvalue, Option.filter]

theorem left_iff (key : String) (process forced initial fallback : Option String) :
    left (if key = "__proto__" then none else process) forced initial fallback =
      precedence process forced initial fallback ↔ Met key process forced initial fallback := by
  have hnone : left none forced initial fallback = precedence none forced initial fallback ↔
    ¬ Refilled forced fallback := by
    refine ⟨fun h hrefilled => ?_, left_not_refilled⟩
    rw [left_refilled hrefilled] at h
    obtain ⟨rfl, value, rfl, hne⟩ := hrefilled
    exact hne (Option.some.inj h)
  cases process with
  | none => 
    have hif : (if key = "__proto__" then none else none : Option String) = none := ite_self _
    rw [hif, hnone]
    exact ⟨fun h => ⟨fun _ => h, fun _ _ h => nomatch h⟩, fun h => h.kept rfl⟩
  | some value =>
    have hmeant : precedence (some value) forced initial fallback = some value := rfl
    by_cases hkey : key = "__proto__"
    · rw [if_pos hkey, hmeant]
      by_cases hrefilled : Refilled forced fallback
      · rw [left_refilled hrefilled]
        exact ⟨fun h => ⟨fun h => (nomatch h), fun _ v hv => ⟨fun _ => h.trans hv, fun hnot => absurd hrefilled hnot⟩⟩,
          fun h => (h.proto hkey value rfl).1 hrefilled⟩
      · rw [left_not_refilled hrefilled]
        exact ⟨fun h => ⟨fun h => (nomatch h), fun _ v hv => ⟨fun hyes => absurd hyes hrefilled, fun _ => h.trans hv⟩⟩,
          fun h => (h.proto hkey value rfl).2 hrefilled⟩
    · rw [if_neg hkey, hmeant]
      exact ⟨fun _ => ⟨fun h => (nomatch h), fun h => absurd h hkey⟩, fun _ => rfl⟩

/-! ## What a call sends -/

/-- What a process shares while an instance has the variables of `i`; the agent is sent what `Sends` says. -/
def pinned (me : Nat) (i : Instance) (Sends : AgentRequest → Prop) : Async.Pairing Shared Answer where
  state s s' := SharedTwin s s' ∧ ((s.instances me).env = i.env ∧ (s.instances me).envDefaults = i.envDefaults) ∧
    (s'.instances me).env = i.env ∧ (s'.instances me).envDefaults = i.envDefaults
  asked q _ := ∀ channel request, q = .agent channel request → Sends request
  answered := AnsweredTwin

section
variable {crypto : Crypto} {config : ArmadaConfig} {me : Nat} {made : Made} {i : Instance} {Sends : AgentRequest → Prop}

theorem setInstance_vars {s : Shared} {me' : Nat} {f : Instance → Instance}
    (hf : ∀ i, (f i).env = i.env ∧ (f i).envDefaults = i.envDefaults) :
    ((s.setInstance me' f).instances me).env = (s.instances me).env ∧
      ((s.setInstance me' f).instances me).envDefaults = (s.instances me).envDefaults := by
  by_cases hme : me = me'
  · subst hme
    simpa [Shared.setInstance] using hf _
  · simp [Shared.setInstance, hme]

theorem pinned_closed : Closed crypto config config (pinned me i Sends) where
  shared h := h.1
  remember id queue h := ⟨(secrets_closed crypto config config).remember id queue h.1, h.2⟩
  forget id h := ⟨(secrets_closed crypto config config).forget id h.1, h.2⟩
  place id _ _ hp h := ⟨SharedTwin.setPlacement h.1 id hp, h.2⟩
  move me' _ _ hf hf' htwin h := by
    obtain ⟨hs, hi, hi'⟩ := h
    rw [← (setInstance_vars hf).1, ← (setInstance_vars hf).2] at hi
    rw [← (setInstance_vars hf').1, ← (setInstance_vars hf').2] at hi'
    exact ⟨hs.setInstance me' htwin, hi, hi'⟩
  warn _ _ h := ⟨⟨h.1.remembered, h.1.placements, h.1.instances⟩, h.2⟩
  asked _ hquiet channel request h := absurd h (hquiet channel request)
  answered h := h

theorem pinned_agent :
    Async.Pair (pinned me i Sends) ChannelTwin (await (openAgent crypto config me made))
      (await (openAgent crypto config me made)) := by
  have hP : Closed crypto config (config.withSecrets config.agentTokenSecret config.auth) (pinned me i Sends) :=
    pinned_closed
  exact pair_await hP (pair_openAgent hP (AuthTwin.refl _) me made rfl)

variable (Sends) in
/-- What a program that pins the variables sends to the agent. -/
theorem sends_of_pinned {α : Type} {p : M α} (hp : Async.Pair (pinned me i Sends) (fun _ _ => True) p p) {s : Shared}
    (hi : (s.instances me).env = i.env ∧ (s.instances me).envDefaults = i.envDefaults) {channel : ControlChannel}
    {request : AgentRequest} (h : Async.Reaches (Unchanged me) p s (.agent channel request)) : Sends request :=
  Async.Twin.reaches hp ⟨.refl s, hi, hi⟩
    (fun _ s' hs hr => ⟨.refl s', ⟨hr.1.trans hs.2.1.1, hr.2.trans hs.2.1.2⟩, hr.1.trans hs.2.1.1, hr.2.trans hs.2.1.2⟩)
    AnsweredTwin.refl h channel request rfl

theorem pinned_exec (cmd : String) (timeout : Option Nat) :
    Async.Pair (pinned me i fun request => ∃ script t, request = .run ["sh", "-lc", script] t ∧
        processScript cmd [] i = .ok script) Eq
      (exec crypto config me made cmd timeout) (exec crypto config me made cmd timeout) := by
  refine Async.Twin.get fun s₁ s₁' hs => ?_
  obtain ⟨-, ⟨henv, hdefaults⟩, henv', hdefaults'⟩ := hs
  change Async.Pair _ _
    (Async.Prog.ofExcept (withEnvPrefix cmd (s₁.instances me).env (s₁.instances me).envDefaults) >>= _)
    (Async.Prog.ofExcept (withEnvPrefix cmd (s₁'.instances me).env (s₁'.instances me).envDefaults) >>= _)
  rw [henv, hdefaults, henv', hdefaults', ← processScript_nil]
  refine Async.Pair.bind (Async.Pair.ofExcept_same _) fun command command' hcommand => ?_
  obtain ⟨rfl, hcommand⟩ := hcommand
  refine Async.Pair.tryCatch ?_ fun x => Async.Pair.pure rfl
  refine Async.Pair.bind pinned_agent fun channel channel' _ => ?_
  refine Async.Twin.ask (fun channel request hrequest => ?_) fun a a' ha => ?_
  · cases hrequest
    exact ⟨command, _, rfl, hcommand⟩
  · obtain rfl : a = a' := ha
    change Async.Pair _ _ (Async.Prog.ofExcept a >>= _) (Async.Prog.ofExcept a >>= _)
    exact Async.Pair.bind (Async.Pair.ofExcept (.refl a)) fun _ _ h => Async.Pair.pure (congrArg toExecResult h)

theorem exec_sends {s : Shared} {cmd : String} {timeout : Option Nat} {channel : ControlChannel}
    {request : AgentRequest}
    (h : Async.Reaches (Unchanged me) (exec crypto config me made cmd timeout) s (.agent channel request)) :
    ∃ script t, request = .run ["sh", "-lc", script] t ∧ processScript cmd [] (s.instances me) = .ok script :=
  sends_of_pinned (fun request => ∃ script t, request = .run ["sh", "-lc", script] t ∧
    processScript cmd [] (s.instances me) = .ok script) (i := s.instances me)
    ((pinned_exec cmd timeout).mono fun _ _ _ => trivial) ⟨rfl, rfl⟩ h

theorem startProcess_sends {s : Shared} {cmd : String} {options : StartProcessOptions} {channel : ControlChannel}
    {request : AgentRequest}
    (h : Async.Reaches (Unchanged me) (startProcess crypto config me made cmd options) s (.agent channel request)) :
    ∃ script, request = .startProcess ["sh", "-lc", script] options.cwd ∧
      processScript cmd options.env (s.instances me) = .ok script := by
  refine sends_of_pinned (fun request => ∃ script, request = .startProcess ["sh", "-lc", script] options.cwd ∧
    processScript cmd options.env (s.instances me) = .ok script) (i := s.instances me) ?_ ⟨rfl, rfl⟩ h
  refine Async.Pair.bind pinned_agent fun channel channel' _ => ?_
  refine Async.Twin.get fun s₁ s₁' hs => ?_
  obtain ⟨-, ⟨henv, hdefaults⟩, henv', hdefaults'⟩ := hs
  change Async.Pair _ _ (Async.Prog.ofExcept (withEnvPrefix cmd (processEnvOf options.env) []) >>= _)
    (Async.Prog.ofExcept (withEnvPrefix cmd (processEnvOf options.env) []) >>= _)
  refine Async.Pair.bind (Async.Pair.ofExcept_same _) fun inner inner' hinner => ?_
  obtain ⟨rfl, hinner⟩ := hinner
  rw [henv, hdefaults, henv', hdefaults']
  refine Async.Pair.bind (Async.Pair.ofExcept_same _) fun command command' hcommand => ?_
  obtain ⟨rfl, hcommand⟩ := hcommand
  refine Async.Twin.ask (fun channel request hrequest => ?_) fun a a' ha => ?_
  · cases hrequest
    exact ⟨command, rfl, by rw [processScript, hinner]; exact hcommand⟩
  · obtain rfl : a = a' := ha
    cases a with
    | error cause => exact Async.Pair.throw _
    | ok pid => exact Async.Twin.get fun s₂ s₂' _ => Async.Pair.pure trivial

end

/-! ## The value when the command starts -/

/-- What a prefix leaves of a variable, and when that is the value it is meant to have. -/
theorem processScript_leaves {cmd script : String} {given : List (String × Option String)} {i : Instance}
    {calls : List SetEnvVars} (hi : Remembers i calls) (hscript : processScript cmd given i = .ok script)
    (hgiven : Record.Distinct given) (hnul : ∀ p ∈ given, ∀ value, p.2 = some value → NulFree value)
    (initial : Env) (key : String) : ∃ final, envBefore script cmd initial = some final ∧
      (final key = precedence (givenValue given key) (lastSet calls false key) (initial key) (lastSet calls true key) ↔
        Met key (givenValue given key) (lastSet calls false key) (initial key) (lastSet calls true key)) := by
  have hprocess : ∀ p ∈ processEnvOf given, NulFree p.2 := by
    rintro ⟨_, value⟩ hp
    obtain ⟨⟨name, value'⟩, hgiven, hsome⟩ := List.mem_filterMap.mp hp
    by_cases hname : name = "__proto__"
    · simp [hname] at hsome
    · simp only [if_neg hname] at hsome
      obtain ⟨v, hv, heq⟩ := Option.map_eq_some_iff.mp hsome
      cases heq
      exact hnul _ hgiven _ hv
  refine ⟨_, envBefore_processScript hscript hi.valid hprocess initial, ?_⟩
  rw [exportAll_apply (distinct_processEnvOf hgiven), exportUnset_apply hi.distinct.2, exportAll_apply hi.distinct.1,
    own_processEnvOf hgiven, hi.env, hi.envDefaults]
  exact left_iff key _ _ _ _

/-- **The precedence of an environment variable**, after any `setEnvVars` calls, in any environment: in the
command of every `exec` and every `startProcess` that the agent is sent, the variable has the value it is
meant to have exactly if no empty forced value is filled by a default. -/
theorem env_precedence (crypto : Crypto) (config : ArmadaConfig) (me : Nat) (made : Made)
    {calls : List SetEnvVars} {s : Shared} (hs : After me calls s) (cmd : String) (initial : Env) (key : String) :
    (∀ timeout channel argv t,
      Async.Reaches (Unchanged me) (exec crypto config me made cmd timeout) s (.agent channel (.run argv t)) →
      ∃ script final, argv = ["sh", "-lc", script] ∧ envBefore script cmd initial = some final ∧
        (final key = precedence none (lastSet calls false key) (initial key) (lastSet calls true key) ↔
          Met key none (lastSet calls false key) (initial key) (lastSet calls true key))) ∧
    (∀ options channel argv cwd, Record.Distinct options.env →
      (∀ p ∈ options.env, ∀ value, p.2 = some value → NulFree value) →
      Async.Reaches (Unchanged me) (startProcess crypto config me made cmd options) s
        (.agent channel (.startProcess argv cwd)) →
      ∃ script final, argv = ["sh", "-lc", script] ∧ envBefore script cmd initial = some final ∧
        (final key = precedence (givenValue options.env key) (lastSet calls false key) (initial key)
            (lastSet calls true key) ↔
          Met key (givenValue options.env key) (lastSet calls false key) (initial key) (lastSet calls true key))) := by
  refine ⟨fun timeout channel argv t h => ?_, fun options channel argv cwd hdistinct hnul h => ?_⟩
  · obtain ⟨script, _, hargv, hscript⟩ := exec_sends h
    cases hargv
    obtain ⟨final, hfinal, hmet⟩ := processScript_leaves hs.remembers hscript List.nodup_nil (by simp) initial key
    exact ⟨script, final, rfl, hfinal, hmet⟩
  · obtain ⟨script, hargv, hscript⟩ := startProcess_sends h
    cases hargv
    obtain ⟨final, hfinal, hmet⟩ := processScript_leaves hs.remembers hscript hdistinct hnul initial key
    exact ⟨script, final, rfl, hfinal, hmet⟩

/-- The agent of instance 0. -/
def openedChannel : ControlChannel :=
  { url := "http://10.0.0.7:8090", token := "t"
    pod := { clusterId := "c", podName := "armada-01-0", podNamespace := "jobs", nodeName := none } }

/-- Instance 0 has reached its agent, and these calls of it have been made. -/
def opened (calls : List SetEnvVars) : Shared :=
  calls.foldl (fun s call => afterCall 0 call s)
  (Shared.init.setInstance 0 fun i => { i with channel := some openedChannel })

theorem after_opened {calls : List SetEnvVars} (hcalls : ∀ call ∈ calls, Passed call) :
    After 0 calls (opened calls) := by
  induction calls using List.reverseRecOn with
  | nil => exact .fresh rfl rfl
  | append_singleton calls call ih =>
    have hbefore := ih fun c hc => hcalls c (List.mem_append_left _ hc)
    have hlast := After.call hbefore call (hcalls call (List.mem_append_right _ (List.mem_singleton_self _)))
    unfold opened at hlast ⊢
    rw [List.foldl_append]
    exact hlast

/-- A value is forced, and there is a default. -/
def forcedAndDefault (value : String) : List SetEnvVars := [⟨[("K", value)], false⟩, ⟨[("K", "d")], true⟩]

/-- What comes before the command. -/
def runScript (value : String) : String :=
  "export K='" ++ value ++ "'; [ -n \"$\x7bK:-\x7d\" ] || export K='d'; "

theorem env_precedence_run : ∃ script final script' final',
    envBefore script "run" (fun _ => none) = some final ∧ final "K" = some "v" ∧
    envBefore script' "run" (fun _ => none) = some final' ∧ final' "K" = some "p" := by
  have hcalls : ∀ call ∈ forcedAndDefault "v", Passed call := by
    simp [forcedAndDefault, Passed, Record.Distinct, NulFree]
  obtain ⟨hexec, hstart⟩ := env_precedence digests plainConfig 0 (created 0) (after_opened hcalls) "run"
    (fun _ => none) "K"
  have hasked : Async.asksAfter (exec digests plainConfig 0 (created 0) "run" none) (opened (forcedAndDefault "v"))
      [⟨.turn, ()⟩] = some (.agent openedChannel (.run ["sh", "-lc", runScript "v" ++ "run"] (some 21600000))) := by
    decide +kernel
  have hstarted : Async.asksAfter (startProcess digests plainConfig 0 (created 0) "run" ⟨none, none, [("K", some "p")]⟩)
      (opened (forcedAndDefault "v")) [⟨.turn, ()⟩] =
        some (.agent openedChannel (.startProcess ["sh", "-lc", runScript "v" ++ "export K='p'; run"] none)) := by
    decide +kernel
  obtain ⟨script, final, -, hfinal, hmet⟩ := hexec none _ _ _ (.of_asksAfter (fun _ => ⟨rfl, rfl⟩) hasked)
  obtain ⟨script', final', -, hfinal', hmet'⟩ :=
    hstart ⟨none, none, [("K", some "p")]⟩ _ _ _ (by simp [Record.Distinct])
    (by simp [NulFree]) (.of_asksAfter (fun _ => ⟨rfl, rfl⟩) hstarted)
  have hforced : lastSet (forcedAndDefault "v") false "K" = some "v" := by decide +kernel
  have hnot : ¬ Refilled (some "v") (lastSet (forcedAndDefault "v") true "K") := fun h => absurd h.1 (by decide)
  rw [hforced] at hmet hmet'
  exact ⟨script, final, script', final', hfinal, hmet.mpr ⟨fun _ => hnot, fun h => absurd h (by decide)⟩, hfinal',
    hmet'.mpr ⟨fun h => absurd h (by decide), fun h => absurd h (by decide)⟩⟩

/-- **A default replaces an empty value that was forced**, though what was forced comes first. -/
theorem env_precedence_refilled : ∃ script, Async.Reaches (Unchanged 0)
      (exec digests plainConfig 0 (created 0) "run" none) (opened (forcedAndDefault ""))
      (.agent openedChannel (.run ["sh", "-lc", script] (some 21600000))) ∧
    (envBefore script "run" fun _ => none).map (· "K") = some (some "d") ∧
    precedence none (lastSet (forcedAndDefault "") false "K") none
      (lastSet (forcedAndDefault "") true "K") = some "" := by
  have hasked : Async.asksAfter (exec digests plainConfig 0 (created 0) "run" none) (opened (forcedAndDefault ""))
      [⟨.turn, ()⟩] = some (.agent openedChannel (.run ["sh", "-lc", runScript "" ++ "run"] (some 21600000))) := by
    decide +kernel
  exact ⟨runScript "" ++ "run", .of_asksAfter (fun _ => ⟨rfl, rfl⟩) hasked, by decide +kernel, by decide +kernel⟩

end ComputeArmada.Adapter
