import ComputeArmada.Adapter.Variables

/-!
# What git makes of a clone

The words of `gitCheckout`'s command as `git clone` takes them, options and arguments.

* `CommandLine`, `gitClone` : what git reads of the words after `git clone`;
* `ReadAs` : the script of a checkout, read by `sh` and then by git;
* `gitCheckout_sends` : the script that the agent is sent;
* `clone_read_iff` : it is read as asked for unless the repository or the directory begins with a `-`.
-/

namespace ComputeArmada.Adapter
open Sh
open Sh.Scanner hiding tokens

/-! ## Options and arguments -/

/-- Options, with the value of those that have one, and arguments. -/
structure CommandLine where
  options : List (String × Option String)
  arguments : List String
  deriving DecidableEq

def CommandLine.option (line : CommandLine) (name : String) (value : Option String) : CommandLine :=
  { line with options := (name, value) :: line.options }

def CommandLine.argument (line : CommandLine) (word : String) : CommandLine :=
  { line with arguments := word :: line.arguments }

def isDashed (word : String) : Bool := word.toList.head? = some '-'

/-- The words after `git clone`: up to a `--`, one that begins with `-` is an option, and the word after an
option that takes a value is its value. -/
def gitClone (takesValue : String → Bool) : List String → CommandLine
  | [] => { options := [], arguments := [] }
  | [word] =>
    if word = "--" then { options := [], arguments := [] }
    else if isDashed word then { options := [(word, none)], arguments := [] }
    else { options := [], arguments := [word] }
  | word :: value :: words =>
    if word = "--" then { options := [], arguments := value :: words }
    else if isDashed word then
      if takesValue word then (gitClone takesValue words).option word (some value)
      else (gitClone takesValue (value :: words)).option word none
    else (gitClone takesValue (value :: words)).argument word

section
variable {takesValue : String → Bool}

theorem gitClone_option {value : String} {words : List String} (hvalue : takesValue "--branch" = true) :
    gitClone takesValue ("--branch" :: value :: words) =
      (gitClone takesValue words).option "--branch" (some value) := by
  rw [gitClone, if_neg (by decide), if_pos (by decide), if_pos hvalue]

/-- The last word is an argument unless it begins with a dash. -/
theorem gitClone_last (dir : String) :
    gitClone takesValue [dir] = { options := [], arguments := [dir] } ↔ isDashed dir = false := by
  have hdashes : isDashed "--" = true := by decide
  rw [gitClone]
  by_cases hdir : dir = "--"
  · simp [hdir, hdashes]
  · cases hdash : isDashed dir <;> simp [hdir]

/-- Two words are the two arguments unless one of them begins with a dash. -/
theorem gitClone_two (repo dir : String) :
    gitClone takesValue [repo, dir] = { options := [], arguments := [repo, dir] } ↔
      isDashed repo = false ∧ isDashed dir = false := by
  have hdashes : isDashed "--" = true := by decide
  rw [gitClone]
  by_cases hrepo : repo = "--"
  · simp [hrepo, hdashes]
  · rw [if_neg hrepo]
    cases hdash : isDashed repo with
    | true =>
      simp only [if_true]
      cases takesValue repo <;> simp [CommandLine.option]
    | false =>
      have hlast := @gitClone_last takesValue dir
      rw [← hlast]
      simp only [CommandLine.argument, Bool.false_eq_true, if_false, true_and]
      constructor
      · intro h
        obtain ⟨hoptions, harguments⟩ := CommandLine.mk.inj h
        cases hline : gitClone takesValue [dir] with
        | mk options arguments => simp_all
      · intro h
        rw [h]

end

/-! ## From the script to the words -/

/-- A simple command's words, after expansion. -/
def wordsOf (env : Env) (ts : List Token) : Option (List String) :=
  ts.mapM fun
    | .word w => expand env w
    | .operator _ => none

/-- The script of a checkout sets the variables, and its command is a `git clone` of which git reads the
branch as the only option, the repository and the directory. -/
def ReadAs (takesValue : String → Bool) (i : Instance) (repo : String) (options : Option GitCheckoutOptions)
    (script : String) : Prop :=
  ∃ ts, tokens script = some (prefixTokens i.env i.envDefaults ++ ts) ∧
    ∀ env, ∃ words, wordsOf env ts = some ("git" :: "clone" :: words) ∧
      gitClone takesValue words =
        { options := ((options.bind (·.branch)).map fun branch => ("--branch", some branch)).toList
          arguments := [repo, (options.bind (·.targetDir)).getD "."] }

/-! ## NUL -/

theorem of_nulFree_shellQuote {v : String} (h : NulFree (shellQuote v)) : NulFree v := by
  intro c hc hnul
  refine h c ?_ hnul
  rw [shellQuote_toList]
  refine List.mem_cons_of_mem _ (List.mem_append_left _ (List.mem_flatMap.mpr ⟨c, hc, ?_⟩))
  rw [if_neg (by omega)]
  exact List.mem_singleton_self c

theorem of_nulFree_join {text : String × String → String} {r : Record} (h : NulFree (String.join (r.map text))) :
    ∀ p ∈ r, NulFree (text p) := by
  intro p hp c hc
  refine h c ?_
  rw [String.toList_join]
  exact List.mem_flatMap.mpr ⟨text p, List.mem_map_of_mem hp, hc⟩

/-- Everything that the script quotes. -/
structure CloneNulFree (i : Instance) (repo : String) (options : Option GitCheckoutOptions) : Prop where
  values : ∀ p ∈ i.env ++ i.envDefaults, NulFree p.2
  repo : NulFree repo
  branch : ∀ branch ∈ options.bind (·.branch), NulFree branch
  targetDir : ∀ dir ∈ options.bind (·.targetDir), NulFree dir

section
variable {i : Instance} {repo script : String} {options : Option GitCheckoutOptions}

theorem nulFree_of_gitCloneCommand (h : NulFree (gitCloneCommand repo options)) : NulFree repo ∧
    (∀ branch ∈ options.bind (·.branch), NulFree branch) ∧ ∀ dir ∈ options.bind (·.targetDir), NulFree dir := by
  rw [gitCloneCommand_eq] at h
  simp only [nulFree_append] at h
  obtain ⟨-, hbranch, ⟨hrepo, -⟩, hdir⟩ := h
  refine ⟨of_nulFree_shellQuote hrepo, fun branch hmem => ?_, fun dir hmem => ?_⟩
  · rw [Option.mem_def.mp hmem] at hbranch
    change NulFree ("--branch " ++ (shellQuote branch ++ " ")) at hbranch
    simp only [nulFree_append] at hbranch
    exact of_nulFree_shellQuote hbranch.2.1
  · rw [Option.mem_def.mp hmem] at hdir
    exact of_nulFree_shellQuote hdir

theorem cloneNulFree_of_script (hscript : processScript (gitCloneCommand repo options) [] i = .ok script)
    (h : NulFree script) : CloneNulFree i repo options := by
  rw [processScript_nil] at hscript
  rw [withEnvPrefix_eq (of_withEnvPrefix hscript)] at hscript
  cases hscript
  simp only [nulFree_append] at h
  obtain ⟨⟨henv, hdefaults⟩, hcommand⟩ := h
  obtain ⟨hrepo, hbranch, hdir⟩ := nulFree_of_gitCloneCommand hcommand
  refine ⟨List.forall_mem_append.mpr ⟨fun p hp => ?_, fun p hp => ?_⟩, hrepo, hbranch, hdir⟩
  · have htext := of_nulFree_join henv p hp
    simp only [exportText, nulFree_append] at htext
    exact of_nulFree_shellQuote htext.1.2
  · have htext := of_nulFree_join hdefaults p hp
    simp only [guardText, nulFree_append] at htext
    exact of_nulFree_shellQuote htext.1.2

/-- Without a NUL, the shell reads the variables' commands and then the clone. -/
theorem tokens_clone (hscript : processScript (gitCloneCommand repo options) [] i = .ok script)
    (h : CloneNulFree i repo options) :
    tokens script = some (prefixTokens i.env i.envDefaults ++ cloneTokens repo options) := by
  rw [processScript_nil] at hscript
  obtain ⟨hnames, hdefaultNames⟩ := List.forall_mem_append.mp (of_withEnvPrefix hscript)
  obtain ⟨hvalues, hdefaultValues⟩ := List.forall_mem_append.mp h.values
  obtain ⟨script', hscript', hread⟩ := tokens_withEnvPrefix (⟨hnames, hvalues⟩ : Variables i.env)
    (⟨hdefaultNames, hdefaultValues⟩ : Variables i.envDefaults) (gitCloneCommand repo options)
  obtain rfl := Except.ok.inj (hscript.symm.trans hscript')
  rw [hread, tokens_gitCloneCommand h.repo h.branch h.targetDir]
  rfl

end

theorem tokens_nulFree {script : String} {ts : List Token} (h : tokens script = some ts) : NulFree script := by
  unfold tokens tokensFrom at h
  split at h
  · assumption
  · cases h

/-! ## What git reads -/

/-- The words after `git clone`. -/
def cloneWords (repo : String) (options : Option GitCheckoutOptions) : List String :=
  ((options.bind (·.branch)).elim [] fun branch => ["--branch", branch]) ++
    [repo, (options.bind (·.targetDir)).getD "."]

theorem wordsOf_cloneTokens (env : Env) (repo : String) (options : Option GitCheckoutOptions) :
    wordsOf env (cloneTokens repo options) = some ("git" :: "clone" :: cloneWords repo options) := by
  have hgit : expand env (plainWord "git") = some "git" := expand_plain (by decide) (by decide)
  have hclone : expand env (plainWord "clone") = some "clone" := expand_plain (by decide) (by decide)
  have hflag : expand env (plainWord "--branch") = some "--branch" := expand_plain (by decide) (by decide)
  unfold wordsOf cloneTokens cloneWords
  cases options.bind (·.branch) <;> simp [hgit, hclone, hflag, expand_literal]

section
variable {takesValue : String → Bool} (hvalue : takesValue "--branch" = true)
include hvalue

theorem gitClone_cloneWords (repo : String) (options : Option GitCheckoutOptions) :
    gitClone takesValue (cloneWords repo options) =
        { options := ((options.bind (·.branch)).map fun branch => ("--branch", some branch)).toList
          arguments := [repo, (options.bind (·.targetDir)).getD "."] } ↔
      isDashed repo = false ∧ isDashed ((options.bind (·.targetDir)).getD ".") = false := by
  rw [← @gitClone_two takesValue]
  unfold cloneWords
  generalize (options.bind (·.targetDir)).getD "." = dir
  cases options.bind (·.branch) with
  | none => exact Iff.rfl
  | some branch =>
    change gitClone takesValue ("--branch" :: branch :: [repo, dir]) = _ ↔ _
    rw [gitClone_option hvalue]
    cases gitClone takesValue [repo, dir] with
    | mk options arguments => simp [CommandLine.option]

/-- The script of a checkout is read as asked for exactly without a NUL and a dash. -/
theorem readAs_iff {i : Instance} {repo script : String} {options : Option GitCheckoutOptions}
    (hscript : processScript (gitCloneCommand repo options) [] i = .ok script) :
    ReadAs takesValue i repo options script ↔ CloneNulFree i repo options ∧ isDashed repo = false ∧
      ∀ dir ∈ options.bind (·.targetDir), isDashed dir = false := by
  have hdir : isDashed ((options.bind (·.targetDir)).getD ".") = false ↔
      ∀ dir ∈ options.bind (·.targetDir), isDashed dir = false := by
    cases options.bind (·.targetDir) with
    | none => simp [isDashed]
    | some dir => simp
  rw [← hdir, ← gitClone_cloneWords hvalue]
  constructor
  · rintro ⟨ts, hts, hwords⟩
    have hnul := cloneNulFree_of_script hscript (tokens_nulFree hts)
    rw [tokens_clone hscript hnul] at hts
    obtain rfl := List.append_cancel_left (Option.some.inj hts)
    obtain ⟨words, hwords, hread⟩ := hwords fun _ => none
    rw [wordsOf_cloneTokens] at hwords
    cases hwords
    exact ⟨hnul, hread⟩
  · rintro ⟨hnul, hread⟩
    exact ⟨_, tokens_clone hscript hnul, fun env => ⟨_, wordsOf_cloneTokens env repo options, hread⟩⟩

end

/-! ## The command of a checkout -/

section
variable {crypto : Crypto} {config : ArmadaConfig} {me : Nat} {made : Made} {repo : String}
  {options : Option GitCheckoutOptions}

theorem gitCheckout_sends {s : Shared} {channel : ControlChannel} {request : AgentRequest}
    (h : Async.Reaches (Unchanged me) (gitCheckout crypto config me made repo options) s (.agent channel request)) :
    ∃ script t, request = .run ["sh", "-lc", script] t ∧
      processScript (gitCloneCommand repo options) [] (s.instances me) = .ok script := by
  refine sends_of_pinned (fun request => ∃ script t, request = .run ["sh", "-lc", script] t ∧
    processScript (gitCloneCommand repo options) [] (s.instances me) = .ok script) (i := s.instances me) ?_ ⟨rfl, rfl⟩ h
  have hP : Closed crypto config (config.withSecrets config.agentTokenSecret config.auth)
      (pinned me (s.instances me) fun request => ∃ script t, request = .run ["sh", "-lc", script] t ∧
        processScript (gitCloneCommand repo options) [] (s.instances me) = .ok script) := pinned_closed
  refine Async.Pair.bind (pair_await hP (pinned_exec _ _)) fun result result' hresult => ?_
  obtain rfl := hresult
  split
  · exact Async.Pair.throw _
  · exact Async.Pair.pure trivial

end

/-- **The words of a clone stay arguments exactly when none of them begins with a dash**: of every command that
a checkout sends, git reads `--branch` as the only option, with the branch that was asked for, and the
repository and the directory as its arguments, if and only if neither of these begins with a `-`, and no
value holds a NUL. A branch may be any string. -/
theorem clone_read_iff (crypto : Crypto) (config : ArmadaConfig) (me : Nat) (made : Made) (s : Shared)
    (takesValue : String → Bool) (hvalue : takesValue "--branch" = true) (repo : String)
    (options : Option GitCheckoutOptions) {channel : ControlChannel} {argv : List String} {t : Option Nat}
    (h : Async.Reaches (Unchanged me) (gitCheckout crypto config me made repo options) s
      (.agent channel (.run argv t))) :
    ∃ script, argv = ["sh", "-lc", script] ∧
      (ReadAs takesValue (s.instances me) repo options script ↔
        CloneNulFree (s.instances me) repo options ∧ isDashed repo = false ∧
          ∀ dir ∈ options.bind (·.targetDir), isDashed dir = false) := by
  obtain ⟨script, _, hargv, hscript⟩ := gitCheckout_sends h
  cases hargv
  exact ⟨script, rfl, readAs_iff hvalue hscript⟩

/-- The options of `git clone` that take the next word as their value. -/
def gitTakesValue (word : String) : Bool :=
  word ∈ ["--branch", "-b", "--origin", "-o", "--upload-pack", "-u", "--reference", "--reference-if-able",
    "--template", "--config", "-c", "--depth", "--shallow-since", "--shallow-exclude", "--separate-git-dir",
    "--jobs", "-j", "--filter", "--server-option", "--bundle-uri", "--revision", "--ref-format"]

/-- A branch that begins with a dash. -/
def dashedBranch : GitCheckoutOptions := { targetDir := none, branch := some "-x" }

theorem clone_read_dashedBranch : ∃ script, Async.Reaches (Unchanged 0)
      (gitCheckout digests plainConfig 0 (created 0) "https://x/y" (some dashedBranch)) (opened [])
      (.agent openedChannel (.run ["sh", "-lc", script] (some 21600000))) ∧
    ReadAs gitTakesValue ((opened []).instances 0) "https://x/y" (some dashedBranch) script := by
  have hasked : Async.asksAfter (gitCheckout digests plainConfig 0 (created 0) "https://x/y" (some dashedBranch))
      (opened []) [⟨.turn, ()⟩] = some (.agent openedChannel
        (.run ["sh", "-lc", gitCloneCommand "https://x/y" (some dashedBranch)] (some 21600000))) := by
    decide +kernel
  have hreaches := Async.Reaches.of_asksAfter (R := Unchanged 0) (fun _ => ⟨rfl, rfl⟩) hasked
  obtain ⟨script, hargv, hread⟩ := clone_read_iff digests plainConfig 0 (created 0) (opened []) gitTakesValue
    (by decide) "https://x/y" (some dashedBranch) hreaches
  cases hargv
  exact ⟨_, hreaches, hread.mpr ⟨⟨fun _ h => (nomatch h), by decide, by decide, by decide⟩, by decide, by decide⟩⟩

/-- **A repository that begins with a dash is an option**, here one that names a program to run. -/
theorem clone_smuggled : ∃ script, Async.Reaches (Unchanged 0)
      (gitCheckout digests plainConfig 0 (created 0) "--upload-pack=id" none) (opened [])
      (.agent openedChannel (.run ["sh", "-lc", script] (some 21600000))) ∧
    ¬ ReadAs gitTakesValue ((opened []).instances 0) "--upload-pack=id" none script ∧
    gitClone gitTakesValue (cloneWords "--upload-pack=id" none) =
      { options := [("--upload-pack=id", none)], arguments := ["."] } := by
  have hasked : Async.asksAfter (gitCheckout digests plainConfig 0 (created 0) "--upload-pack=id" none)
      (opened []) [⟨.turn, ()⟩] = some (.agent openedChannel
        (.run ["sh", "-lc", gitCloneCommand "--upload-pack=id" none] (some 21600000))) := by
    decide +kernel
  have hreaches := Async.Reaches.of_asksAfter (R := Unchanged 0) (fun _ => ⟨rfl, rfl⟩) hasked
  refine ⟨_, hreaches, fun hread => ?_, by decide⟩
  obtain ⟨script, _, hargv, hscript⟩ := gitCheckout_sends hreaches
  cases hargv
  exact absurd ((readAs_iff (by decide) hscript).mp hread).2.1 (by decide)

end ComputeArmada.Adapter
