import ComputeArmada.Lib.Sh
import ComputeArmada.Adapter.Sandbox

/-!
# Values in shell commands

What `sh` reads in the commands of `shell.ts`.

* `run_shellQuote` : a quoted value, at the start of a word or within one;
* `run_exportText`, `run_guardText` : one variable, forced or by default;
* `withEnvPrefix_eq`, `run_envPrefix` : the prefix of a command;
* `quoting_contains` : none of them reads as anything but the values it was built from.
-/

namespace ComputeArmada.Adapter
open Sh
open Sh.Scanner hiding tokens

/-! ## One value -/

theorem shellQuote_toList (v : String) : (shellQuote v).toList =
    apostrophe :: ((v.toList.flatMap fun c => if c.toNat = 39 then "'\\''".toList else [c]) ++ [apostrophe]) := by
  simp [shellQuote]
  rfl

/-- What stands between the quotes. -/
theorem run_quotedChars {ts : List Token} (cs : List Char) (w : Word) :
    (reading ts (.word w) [.single]).run (cs.flatMap fun c => if c.toNat = 39 then "'\\''".toList else [c]) =
      reading ts (.word (w ++ cs.map fun c => (.full, c))) [.single] := by
  induction cs generalizing w with
  | nil => simp [run]
  | cons c cs ih =>
    rw [List.flatMap_cons, run_append]
    by_cases hc : c.toNat = 39
    · obtain rfl : c = apostrophe := Char.toNat_inj.mp hc
      have hquote : (reading ts (.word w) [.single]).run "'\\''".toList =
          reading ts (.word (w ++ [(.full, apostrophe)])) [.single] := run_apostrophe
      rw [if_pos hc, hquote, ih]
      simp
    · have hstep : (reading ts (.word w) [.single]).run [c] = reading ts (.word (w ++ [(.full, c)])) [.single] :=
        step_single fun h => hc (h ▸ rfl)
      rw [if_neg hc, hstep, ih]
      simp

theorem run_shellQuote {ts : List Token} (w : Word) (v : String) :
    (reading ts (.word w) []).run (shellQuote v).toList = reading ts (.word (w ++ literalWord v)) [] := by
  have hopen : (reading ts (.word w) []).run [apostrophe] = reading ts (.word (w ++ [])) [.single] := rfl
  have hclose : ∀ w, (reading ts (.word w) [.single]).run [apostrophe] = reading ts (.word (w ++ [])) [] :=
    fun _ => rfl
  rw [shellQuote_toList, ← List.singleton_append, run_append, run_append, hopen, run_quotedChars, hclose]
  simp [literalWord]

theorem run_shellQuote_boundary {s : Scanner} (hs : s.Boundary) (v : String) :
    s.run (shellQuote v).toList = reading s.delimit.tokens (.word (literalWord v)) [] := by
  have hopen : s.run [apostrophe] = reading s.delimit.tokens (.word []) [.single] := by
    obtain ⟨ts, current, modes, escaped, dollar⟩ := s
    obtain ⟨rfl, rfl, rfl, hcurrent⟩ := hs
    cases current with
    | nothing => rfl
    | operator text => rfl
    | word w => exact absurd rfl (hcurrent w)
  have hclose : ∀ ts w, (reading ts (.word w) [.single]).run [apostrophe] = reading ts (.word (w ++ [])) [] :=
    fun _ _ => rfl
  rw [shellQuote_toList, ← List.singleton_append, run_append, run_append, hopen, run_quotedChars, hclose]
  simp [literalWord]

/-- What may stand right after a word: a blank, a `;` or nothing. -/
def EndsWord (rest : String) : Prop := ∀ c, rest.toList.head? = some c → c = ' ' ∨ c = '\t' ∨ c = ';'

theorem step_endsWord {ts : List Token} {w : Word} {c : Char} (h : c = ' ' ∨ c = '\t' ∨ c = ';') :
    (reading ts (.word w) []).step c = (reading (ts ++ [.word w]) .nothing []).step c := by
  have hblank : reading (ts ++ [.word w]) .nothing [] = reading (ts ++ [.word w] ++ []) .nothing [] := by
    rw [List.append_nil]
  have hsemicolon : reading (ts ++ [.word w]) (.operator ";") [] =
      reading (ts ++ [.word w] ++ []) (.operator ";") [] := by
    rw [List.append_nil]
  rcases h with rfl | rfl | rfl
  · exact hblank
  · exact hblank
  · exact hsemicolon

theorem finish_endsWord {ts : List Token} {w : Word} {rest : String} (h : EndsWord rest) :
    ((reading ts (.word w) []).run rest.toList).finish =
      (start.run rest.toList).finish.map (ts ++ [.word w] ++ ·) := by
  have hafter : reading (ts ++ [.word w]) .nothing [] = start.after (ts ++ [.word w]) := by
    simp [reading, start, after]
  rw [← finish_after, ← run_after, ← hafter]
  cases hrest : rest.toList with
  | nil =>
    have hword : (reading ts (.word w) []).finish = some (ts ++ [.word w]) := rfl
    have hnothing : (reading (ts ++ [.word w]) .nothing []).finish = some (ts ++ [.word w] ++ []) := rfl
    rw [List.append_nil] at hnothing
    exact hword.trans hnothing.symm
  | cons c cs =>
    have hstep := @step_endsWord ts w c (h c (by rw [hrest]; rfl))
    exact congrArg (fun s => (s.run cs).finish) hstep

/-! ## Environment variables -/

/-- `export NAME='value'; ` -/
def exportText (p : String × String) : String := "export " ++ p.1 ++ "=" ++ shellQuote p.2 ++ "; "

/-- `[ -n "$\x7bNAME:-\x7d" ] || export NAME='value'; ` -/
def guardText (p : String × String) : String :=
  "[ -n \"$\x7b" ++ p.1 ++ ":-\x7d\" ] || export " ++ p.1 ++ "=" ++ shellQuote p.2 ++ "; "

theorem assertEnvName_ok {name : String} (h : isName name = true) : assertEnvName name = .ok name := if_pos h

theorem of_assertEnvName {name name' : String} (h : assertEnvName name = .ok name') : isName name = true := by
  by_contra hname
  have herror : assertEnvName name = .error _ := if_neg hname
  rw [herror] at h
  cases h

theorem withEnvPrefix_eq {cmd : String} {env defaults : Record}
    (hnames : ∀ p ∈ env ++ defaults, isName p.1 = true) : withEnvPrefix cmd env defaults =
      .ok (String.join (env.map exportText) ++ String.join (defaults.map guardText) ++ cmd) := by
  obtain ⟨henv, hdefaults⟩ := List.forall_mem_append.mp hnames
  unfold withEnvPrefix
  rw [mapM_ok (g := exportText) fun p hp => ?_, mapM_ok (g := guardText) fun p hp => ?_]
  · rfl
  · simp only [assertEnvName_ok (hdefaults p hp)]
    rfl
  · simp only [assertEnvName_ok (henv p hp)]
    rfl

/-- A prefix is built of names that `sh` accepts only. -/
theorem of_withEnvPrefix {cmd script : String} {env defaults : Record}
    (h : withEnvPrefix cmd env defaults = .ok script) : ∀ p ∈ env ++ defaults, isName p.1 = true := by
  unfold withEnvPrefix at h
  obtain ⟨forced, hforced, h⟩ := of_bind_ok h
  obtain ⟨guarded, hguarded, -⟩ := of_bind_ok h
  refine List.forall_mem_append.mpr ⟨fun p hp => ?_, fun p hp => ?_⟩
  · obtain ⟨text, htext⟩ := of_mapM_ok hforced p hp
    obtain ⟨name, hname, -⟩ := of_bind_ok htext
    exact of_assertEnvName hname
  · obtain ⟨text, htext⟩ := of_mapM_ok hguarded p hp
    obtain ⟨name, hname, -⟩ := of_bind_ok htext
    exact of_assertEnvName hname

/-! ## What the shell reads -/

section
variable {name value : String}

theorem run_name {ts : List Token} {modes : List Mode} (hmodes : modes = [] ∨ modes = [.braces, .double])
    (hname : isName name = true) (w : Word) : (reading ts (.word w) modes).run name.toList =
      reading ts (.word (w ++ name.toList.map fun c => (quoting modes, c))) modes :=
  run_ordinary hmodes (ordinary_of_isName hname)

/-- `NAME='value'; ` after `export `. -/
theorem run_assign {ts : List Token} (hname : isName name = true) :
    (reading ts .nothing []).run (name ++ "=" ++ shellQuote value ++ "; ").toList =
      reading (ts ++ [.word (assignWord name value), .operator ";"]) .nothing [] := by
  obtain ⟨c, cs, hcs⟩ := List.exists_cons_of_ne_nil (isName_ne_nil hname)
  have hord := ordinary_of_isName hname
  rw [hcs] at hord
  have hfirst : (reading ts .nothing []).step c = reading (ts ++ []) (.word [(.plain, c)]) [] :=
    step_ordinary (.inl rfl) (hord c (List.mem_cons_self ..))
  have hrun : (reading ts .nothing []).run name.toList = reading ts (.word (plainWord name)) [] := by
    rw [hcs]
    change ((reading ts .nothing []).step c).run cs = _
    rw [hfirst, List.append_nil, run_ordinary (.inl rfl) fun c hc => hord c (List.mem_cons_of_mem _ hc)]
    simp [plainWord, hcs, quoting]
  have hequals : ∀ w, (reading ts (.word w) []).run "=".toList = reading ts (.word (w ++ plainWord "=")) [] :=
    fun _ => rfl
  have hend : ∀ w, (reading ts (.word w) []).run "; ".toList =
      reading (ts ++ [.word w] ++ [.operator ";"]) .nothing [] := fun _ => rfl
  simp only [String.toList_append, run_append, hrun, hequals, run_shellQuote, hend]
  simp [assignWord]

/-- Between two words, after tokens that were read before. -/
theorem run_nothing {ts : List Token} (text : List Char) :
    (reading ts .nothing []).run text = (start.run text).after ts := by
  rw [← run_after]
  simp [reading, start, after]

theorem run_exportText {ts : List Token} (hname : isName name = true) :
    (reading ts .nothing []).run (exportText (name, value)).toList =
      reading (ts ++ exportTokens name value) .nothing [] := by
  have hstart : start.run "export ".toList = reading [.word (plainWord "export")] .nothing [] := by
    decide +kernel
  have hexport : (reading ts .nothing []).run "export ".toList =
      reading (ts ++ [.word (plainWord "export")]) .nothing [] := by
    rw [run_nothing, hstart]
    rfl
  have htext : exportText (name, value) = "export " ++ (name ++ "=" ++ shellQuote value ++ "; ") := by
    simp [exportText, String.append_assoc]
  rw [htext, String.toList_append, run_append, hexport, run_assign hname]
  simp [exportTokens]

/-- `:-\x7d" ] || export ` after the name. -/
theorem run_guardEnd {ts : List Token} (w : Word) :
    (reading ts (.word w) [.braces, .double]).run ":-\x7d\" ] || export ".toList =
      reading (ts ++ [.word (w ++ [(.double, ':'), (.double, '-'), (.double, closeBrace)]),
        .word (plainWord "]"), .operator "||", .word (plainWord "export")]) .nothing [] := by
  have hcolon : ∀ w, (reading ts (.word w) [.braces, .double]).step ':' =
      reading ts (.word (w ++ [(.double, ':')])) [.braces, .double] := fun _ => rfl
  have hdash : ∀ w, (reading ts (.word w) [.braces, .double]).step '-' =
      reading ts (.word (w ++ [(.double, '-')])) [.braces, .double] := fun _ => rfl
  have hclose : ∀ w, (reading ts (.word w) [.braces, .double]).step closeBrace =
      reading ts (.word (w ++ [(.double, closeBrace)])) [.double] := fun _ => rfl
  have hquote : ∀ w, (reading ts (.word w) [.double]).step quotationMark = reading ts (.word (w ++ [])) [] :=
    fun _ => rfl
  have hblank : ∀ w, (reading ts (.word w) []).step ' ' = reading (ts ++ [.word w]) .nothing [] := fun _ => rfl
  have hbraces : (reading ts (.word w) [.braces, .double]).run [':', '-', closeBrace, quotationMark, ' '] =
      reading (ts ++ [.word (w ++ [(.double, ':'), (.double, '-'), (.double, closeBrace)])]) .nothing [] := by
    simp [run, hcolon, hdash, hclose, hquote, hblank]
  have hrest : start.run "] || export ".toList =
      reading [.word (plainWord "]"), .operator "||", .word (plainWord "export")] .nothing [] := by
    decide +kernel
  have htext : ":-\x7d\" ] || export ".toList =
      [':', '-', closeBrace, quotationMark, ' '] ++ "] || export ".toList := by decide
  rw [htext, run_append, hbraces, run_nothing, hrest]
  simp [reading, after]

theorem run_guardText {ts : List Token} (hname : isName name = true) :
    (reading ts .nothing []).run (guardText (name, value)).toList =
      reading (ts ++ guardTokens name value) .nothing [] := by
  have hopen : start.run "[ -n \"$\x7b".toList = reading [.word (plainWord "["), .word (plainWord "-n")]
      (.word [(.double, '$'), (.double, openBrace)]) [.braces, .double] := by
    decide +kernel
  have hbegin : (reading ts .nothing []).run "[ -n \"$\x7b".toList =
      reading (ts ++ [.word (plainWord "["), .word (plainWord "-n")])
        (.word [(.double, '$'), (.double, openBrace)]) [.braces, .double] := by
    rw [run_nothing, hopen]
    rfl
  have htext : guardText (name, value) = "[ -n \"$\x7b" ++ (name ++ (":-\x7d\" ] || export " ++
      (name ++ "=" ++ shellQuote value ++ "; "))) := by
    simp [guardText, String.append_assoc]
  have hword : defaultWord name = [(.double, '$'), (.double, openBrace)] ++ name.toList.map (fun c => (.double, c)) ++
      [(.double, ':'), (.double, '-'), (.double, closeBrace)] := by
    simp [defaultWord, openBrace, closeBrace]
  rw [htext, String.toList_append, run_append, hbegin, String.toList_append, run_append, run_name (.inr rfl) hname,
    String.toList_append, run_append, run_guardEnd, run_assign hname]
  simp [guardTokens, exportTokens, hword, quoting]

end

/-- The commands that set the variables `env`, and those of `defaults` that are not set. -/
def prefixTokens (env defaults : Record) : List Token :=
  env.flatMap (fun p => exportTokens p.1 p.2) ++ defaults.flatMap (fun p => guardTokens p.1 p.2)

theorem run_join {text : String × String → String} {block : String × String → List Token} {r : Record}
    (h : ∀ p ∈ r, ∀ ts, (reading ts .nothing []).run (text p).toList = reading (ts ++ block p) .nothing [])
    (ts : List Token) : (reading ts .nothing []).run (String.join (r.map text)).toList =
      reading (ts ++ r.flatMap block) .nothing [] := by
  rw [String.toList_join]
  induction r generalizing ts with
  | nil => simp [run]
  | cons p r ih =>
    have hp := h p (List.mem_cons_self ..) ts
    rw [List.map_cons, List.flatMap_cons, run_append, hp, ih fun p' hp' => h p' (List.mem_cons_of_mem _ hp')]
    simp

/-- The prefix is read as its commands, and leaves the shell where it was. -/
theorem run_envPrefix {env defaults : Record} (hnames : ∀ p ∈ env ++ defaults, isName p.1 = true) :
    start.run (String.join (env.map exportText) ++ String.join (defaults.map guardText)).toList =
      start.after (prefixTokens env defaults) := by
  obtain ⟨henv, hdefaults⟩ := List.forall_mem_append.mp hnames
  have hforced := @run_join exportText (fun p => exportTokens p.1 p.2) env fun p hp ts => run_exportText (henv p hp)
  have hguarded := @run_join guardText (fun p => guardTokens p.1 p.2) defaults
    fun p hp ts => run_guardText (hdefaults p hp)
  change (reading [] .nothing []).run _ = _
  rw [String.toList_append, run_append, hforced, hguarded]
  simp [prefixTokens, reading, start, after]

/-! ## NUL -/

theorem nulFree_append {s t : String} : NulFree (s ++ t) ↔ NulFree s ∧ NulFree t := by
  simp only [NulFree, String.toList_append, List.forall_mem_append]

theorem nulFree_shellQuote {v : String} (h : NulFree v) : NulFree (shellQuote v) := by
  intro c hc
  simp only [shellQuote_toList, List.mem_cons, List.mem_append, List.mem_flatMap, List.not_mem_nil, or_false] at hc
  rcases hc with rfl | ⟨d, hd, hc⟩ | rfl
  · decide
  · split at hc
    · exact (by decide : ∀ c ∈ "'\\''".toList, c.toNat ≠ 0) c hc
    · exact List.mem_singleton.mp hc ▸ h d hd
  · decide

theorem nulFree_name {name : String} (h : isName name = true) : NulFree name := by
  intro c hc hnul
  have hzero : c = Char.ofNat 0 := Char.toNat_inj.mp hnul
  exact (ordinary_of_isName h c hc).ne (by decide) hzero

theorem nulFree_join {text : String × String → String} {r : Record} (h : ∀ p ∈ r, NulFree (text p)) :
    NulFree (String.join (r.map text)) := by
  intro c hc
  rw [String.toList_join, List.mem_flatMap] at hc
  obtain ⟨_, hmem, hc⟩ := hc
  obtain ⟨p, hp, rfl⟩ := List.mem_map.mp hmem
  exact h p hp c hc

theorem nulFree_exportText {name value : String} (hname : isName name = true) (hvalue : NulFree value) :
    NulFree (exportText (name, value)) := by
  simp only [exportText, nulFree_append]
  exact ⟨⟨⟨⟨by decide, nulFree_name hname⟩, by decide⟩, nulFree_shellQuote hvalue⟩, by decide⟩

theorem nulFree_guardText {name value : String} (hname : isName name = true) (hvalue : NulFree value) :
    NulFree (guardText (name, value)) := by
  simp only [guardText, nulFree_append]
  exact ⟨⟨⟨⟨⟨⟨by decide, nulFree_name hname⟩, by decide⟩, nulFree_name hname⟩, by decide⟩,
    nulFree_shellQuote hvalue⟩, by decide⟩

/-- A map of variables as `setEnvVars` takes them, without a NUL. -/
structure Variables (r : Record) : Prop where
  names : ∀ p ∈ r, isEnvName p.1 = true
  values : ∀ p ∈ r, NulFree p.2

theorem nulFree_envPrefix {env defaults : Record} (henv : Variables env) (hdefaults : Variables defaults) :
    NulFree (String.join (env.map exportText) ++ String.join (defaults.map guardText)) :=
  nulFree_append.mpr ⟨nulFree_join fun p hp => nulFree_exportText (henv.names p hp) (henv.values p hp),
    nulFree_join fun p hp => nulFree_guardText (hdefaults.names p hp) (hdefaults.values p hp)⟩

/-- A command with its prefix is read as the prefix's commands, and then as it is alone. -/
theorem tokens_withEnvPrefix {env defaults : Record} (henv : Variables env) (hdefaults : Variables defaults)
    (cmd : String) : ∃ script, withEnvPrefix cmd env defaults = .ok script ∧
      tokens script = (tokens cmd).map (prefixTokens env defaults ++ ·) := by
  have hnames : ∀ p ∈ env ++ defaults, isName p.1 = true :=
    List.forall_mem_append.mpr ⟨henv.names, hdefaults.names⟩
  refine ⟨_, withEnvPrefix_eq hnames, ?_⟩
  unfold tokens tokensFrom
  simp only [nulFree_append.trans (and_iff_right (nulFree_envPrefix henv hdefaults))]
  rw [String.toList_append, run_append, run_envPrefix hnames, run_after, finish_after]
  split <;> rfl

/-! ## Containment -/

/-- The words of `git clone`. -/
def cloneTokens (repo : String) (options : Option GitCheckoutOptions) : List Token :=
  [.word (plainWord "git"), .word (plainWord "clone")] ++
    ((options.bind (·.branch)).elim [] fun branch => [.word (plainWord "--branch"), .word (literalWord branch)]) ++
    [.word (literalWord repo), .word (literalWord ((options.bind (·.targetDir)).getD "."))]

theorem run_shellQuote_blank {ts : List Token} (v : String) :
    (reading ts .nothing []).run (shellQuote v ++ " ").toList =
    reading (ts ++ [.word (literalWord v)]) .nothing [] := by
  have hboundary : (reading ts .nothing []).Boundary := ⟨rfl, rfl, rfl, fun _ h => nomatch h⟩
  have hblank : ∀ ts w, (reading ts (.word w) []).run " ".toList = reading (ts ++ [.word w]) .nothing [] :=
    fun _ _ => rfl
  rw [String.toList_append, run_append, run_shellQuote_boundary hboundary, hblank]
  simp [delimit, reading, Current.tokens]

theorem finish_shellQuote {ts : List Token} (v : String) :
    ((reading ts .nothing []).run (shellQuote v).toList).finish = some (ts ++ [.word (literalWord v)]) := by
  have hboundary : (reading ts .nothing []).Boundary := ⟨rfl, rfl, rfl, fun _ h => nomatch h⟩
  have hfinish : ∀ ts w, (reading ts (.word w) []).finish = some (ts ++ [.word w]) := fun _ _ => rfl
  rw [run_shellQuote_boundary hboundary, hfinish]
  simp [delimit, reading, Current.tokens]

/-- What stands before the repository, where a branch is asked for. -/
def branchText (branch : Option String) : String :=
  branch.elim "" fun branch => "--branch " ++ (shellQuote branch ++ " ")

theorem gitCloneCommand_eq (repo : String) (options : Option GitCheckoutOptions) :
    gitCloneCommand repo options = "git clone " ++ (branchText (options.bind (·.branch)) ++
      (shellQuote repo ++ " " ++ shellQuote ((options.bind (·.targetDir)).getD "."))) := by
  unfold gitCloneCommand
  generalize shellQuote ((options.bind (·.targetDir)).getD ".") = target
  have hgit : "git clone " = "git" ++ " " ++ "clone" ++ " " := by decide
  have hflag : "--branch " = "--branch" ++ " " := by decide
  cases options.bind (·.branch) with
  | none =>
    have hparts : " ".intercalate ["git", "clone", shellQuote repo, target] =
        "git" ++ " " ++ "clone" ++ " " ++ shellQuote repo ++ " " ++ target := rfl
    rw [hgit]
    exact hparts.trans (by simp only [branchText, Option.elim, String.empty_append, String.append_assoc])
  | some branch =>
    have hparts : " ".intercalate ["git", "clone", "--branch", shellQuote branch, shellQuote repo, target] =
        "git" ++ " " ++ "clone" ++ " " ++ "--branch" ++ " " ++ shellQuote branch ++ " " ++ shellQuote repo ++ " " ++
          target := rfl
    rw [hgit]
    exact hparts.trans (by simp only [branchText, Option.elim, hflag, String.append_assoc])

theorem run_branchText {ts : List Token} (branch : Option String) :
    (reading ts .nothing []).run (branchText branch).toList = reading (ts ++ branch.elim []
      fun branch => [.word (plainWord "--branch"), .word (literalWord branch)]) .nothing [] := by
  have hflag : start.run "--branch ".toList = reading [.word (plainWord "--branch")] .nothing [] := by
    decide +kernel
  cases branch with
  | none => simp [branchText, run]
  | some branch =>
    change (reading ts .nothing []).run ("--branch " ++ (shellQuote branch ++ " ")).toList = _
    rw [String.toList_append, run_append, run_nothing, hflag]
    change (reading (ts ++ _) .nothing []).run _ = _
    rw [run_shellQuote_blank]
    simp [reading]

theorem nulFree_branchText {branch : Option String} (h : ∀ b ∈ branch, NulFree b) : NulFree (branchText branch) := by
  cases branch with
  | none => simp [branchText, NulFree]
  | some branch =>
    change NulFree ("--branch " ++ (shellQuote branch ++ " "))
    simp only [nulFree_append]
    exact ⟨by decide, nulFree_shellQuote (h branch rfl), by decide⟩

theorem tokens_gitCloneCommand {repo : String} {options : Option GitCheckoutOptions} (hrepo : NulFree repo)
    (hbranch : ∀ branch ∈ options.bind (·.branch), NulFree branch)
    (htarget : ∀ dir ∈ options.bind (·.targetDir), NulFree dir) :
    tokens (gitCloneCommand repo options) = some (cloneTokens repo options) := by
  have hdir : NulFree ((options.bind (·.targetDir)).getD ".") := by
    cases h : options.bind (·.targetDir) with
    | none => decide
    | some dir => exact htarget dir h
  have hgit : start.run "git clone ".toList =
      reading [.word (plainWord "git"), .word (plainWord "clone")] .nothing [] := by
    decide +kernel
  rw [gitCloneCommand_eq, cloneTokens, tokens, tokensFrom, if_pos]
  · rw [String.toList_append, run_append, hgit, String.toList_append, run_append, run_branchText,
      String.toList_append, run_append, run_shellQuote_blank, finish_shellQuote]
    simp
  · simp only [nulFree_append]
    exact ⟨by decide, nulFree_branchText hbranch, ⟨nulFree_shellQuote hrepo, by decide⟩, nulFree_shellQuote hdir⟩

/-- **No value leaves its quotes**: a quoted value is read as one word that means the value, whatever stands
before it and after it; a command with its prefixes as the prefixes' own commands, then the command; and
`git clone` as its own words. -/
theorem quoting_contains (v : String) (hv : NulFree v) (env defaults processEnv : Record)
    (henv : Variables env) (hdefaults : Variables defaults) (hprocess : Variables processEnv)
    (cmd repo : String) (options : Option GitCheckoutOptions) (hrepo : NulFree repo)
    (hbranch : ∀ branch ∈ options.bind (·.branch), NulFree branch)
    (htarget : ∀ dir ∈ options.bind (·.targetDir), NulFree dir) :
    (∀ s rest, s.Boundary → EndsWord rest → tokensFrom s (shellQuote v ++ rest) =
      (tokens rest).map (s.delimit.tokens ++ [.word (literalWord v)] ++ ·)) ∧
    (∀ vars, expand vars (literalWord v) = some v) ∧
    (∃ script, withEnvPrefix cmd env defaults = .ok script ∧
      tokens script = (tokens cmd).map (prefixTokens env defaults ++ ·)) ∧
    (∃ inner script, withEnvPrefix cmd processEnv [] = .ok inner ∧ withEnvPrefix inner env defaults = .ok script ∧
      tokens script = (tokens cmd).map (prefixTokens env defaults ++ prefixTokens processEnv [] ++ ·)) ∧
    tokens (gitCloneCommand repo options) = some (cloneTokens repo options) := by
  refine ⟨fun s rest hs hrest => ?_, fun _ => expand_literal v, tokens_withEnvPrefix henv hdefaults cmd, ?_, ?_⟩
  · unfold tokens tokensFrom
    simp only [nulFree_append.trans (and_iff_right (nulFree_shellQuote hv))]
    rw [String.toList_append, run_append, run_shellQuote_boundary hs, finish_endsWord hrest]
    split <;> rfl
  · obtain ⟨inner, hinner, hread⟩ := tokens_withEnvPrefix hprocess (⟨by simp, by simp⟩ : Variables []) cmd
    obtain ⟨script, hscript, hread'⟩ := tokens_withEnvPrefix henv hdefaults inner
    refine ⟨inner, script, hinner, hscript, ?_⟩
    rw [hread', hread, Option.map_map]
    simp [Function.comp_def]
  · exact tokens_gitCloneCommand hrepo hbranch htarget

theorem quoting_contains_hostile :
    (∃ script, withEnvPrefix "run" [("K", "it's; rm -rf /")] [("D", "$(id)")] = .ok script ∧
      tokens script = (tokens "run").map (prefixTokens [("K", "it's; rm -rf /")] [("D", "$(id)")] ++ ·)) ∧
    tokens (gitCloneCommand "https://x/y; rm -rf /" (some { targetDir := some "$(touch pwn)", branch := none })) =
      some (cloneTokens "https://x/y; rm -rf /" (some { targetDir := some "$(touch pwn)", branch := none })) :=
  have h := quoting_contains "'; id #" (by decide) [("K", "it's; rm -rf /")] [("D", "$(id)")] [("P", "")]
    ⟨by decide, by decide⟩ ⟨by decide, by decide⟩ ⟨by decide, by decide⟩ "run" "https://x/y; rm -rf /"
    (some { targetDir := some "$(touch pwn)", branch := none }) (by decide) (by decide) (by decide)
  ⟨h.2.2.1, h.2.2.2.2⟩

end ComputeArmada.Adapter
