import Mathlib.Logic.Function.Basic
import Mathlib.Data.String.Basic
import ComputeArmada.Lib.Text

/-!
# The POSIX shell, as far as quoting goes

How `sh` cuts a script into tokens, a character at a time, and what it makes of the few commands that set
its environment.

* `Scanner.step` : token recognition, with its quotes, operators, comments and substitutions;
* `tokens` : the tokens of a script; `Scanner.run_append` : two texts in a row are scanned one after the other;
* `Scanner.run_ordinary` : what plain characters are read as;
* `statement`, `runTokens` : `export NAME=word` and `[ -n word ]` in lists joined by `||`;
* `envBefore` : the environment in which the rest of a script starts.

Here-documents are not read: no operator that begins one has a meaning here.
-/

namespace Sh

/-! ## Tokens -/

/-- What is left of a character's meaning: all, what it has between double quotes, nothing. -/
inductive Quoting
  | plain | double | full
  deriving DecidableEq, Repr

/-- A word without its quotes, before its expansions. -/
abbrev Word := List (Quoting × Char)

inductive Token
  | word (w : Word)
  | operator (text : String)
  deriving DecidableEq, Repr

def apostrophe : Char := Char.ofNat 39
def quotationMark : Char := Char.ofNat 34
def backslash : Char := Char.ofNat 92
def backquote : Char := Char.ofNat 96
def openBrace : Char := Char.ofNat 123
def closeBrace : Char := Char.ofNat 125

/-- The characters of which operators are made. -/
def operatorChars : List Char := [';', '&', '|', '<', '>', '(', ')']

def operators : List String :=
  [";", "&", "|", "<", ">", "(", ")", ";;", "&&", "||", "<<", ">>", "<&", ">&", "<>", "<<-", ">|"]

/-- The token that is being read. -/
inductive Current
  | nothing
  | operator (text : String)
  | word (w : Word)
  deriving DecidableEq, Repr

def Current.tokens : Current → List Token
  | .nothing => []
  | .operator text => [.operator text]
  | .word w => [.word w]

/-- What is being read within a token, or between two. -/
inductive Mode
  | single | double | braces | parens | backquotes | comment
  deriving DecidableEq, Repr

structure Scanner where
  tokens : List Token
  current : Current
  /-- The innermost first. -/
  modes : List Mode
  escaped : Bool
  dollar : Bool
  deriving DecidableEq, Repr

def start : Scanner :=
  { tokens := [], current := .nothing, modes := [], escaped := false, dollar := false }

/-- How the characters of a word are quoted that no quotation of its own holds. -/
def quoting (modes : List Mode) : Quoting := if .double ∈ modes then .double else .plain

namespace Scanner

/-- The current token ends. -/
def delimit (s : Scanner) : Scanner := { s with tokens := s.tokens ++ s.current.tokens, current := .nothing }

/-- Whether a substitution is being read, the text of which is kept as it is. -/
def raw (s : Scanner) : Bool := s.modes.any fun m => m = .braces ∨ m = .parens ∨ m = .backquotes

/-- More of a word, which begins where none has. -/
def add (s : Scanner) (w : Word) : Scanner :=
  match s.current with
  | .word w' => { s with current := .word (w' ++ w) }
  | _ => { s.delimit with current := .word w }

def put (s : Scanner) (c : Char) : Scanner := s.add [(quoting s.modes, c)]

/-- A character that means itself. -/
def literal (s : Scanner) (c : Char) : Scanner := if s.raw then s.put c else s.add [(.full, c)]

/-- A quotation mark, which is no part of the word. -/
def mark (s : Scanner) (c : Char) : Scanner := if s.raw then s.put c else s.add []

def enter (s : Scanner) (m : Mode) : Scanner := { s with modes := m :: s.modes }

def leave (s : Scanner) : Scanner := { s with modes := s.modes.tail }

/-- A character of an operator, the longest that it can be a part of. -/
def operate (s : Scanner) (c : Char) : Scanner :=
  match s.current with
  | .operator text =>
    if text.push c ∈ operators then { s with current := .operator (text.push c) }
    else { s.delimit with current := .operator (String.singleton c) }
  | _ => { s.delimit with current := .operator (String.singleton c) }

/-- A character of a word: one that quotes, begins a substitution, or is a part of it. -/
def compose (s : Scanner) (c : Char) : Scanner :=
  if c = backslash then { s with escaped := true }
  else if c = apostrophe ∧ ¬ (s.modes.head? = some .braces ∧ .double ∈ s.modes) then (s.mark c).enter .single
  else if c = quotationMark then (s.mark c).enter .double
  else if c = backquote then (s.put c).enter .backquotes
  else if c = '$' then { s.put c with dollar := true }
  else s.put c

def plain (s : Scanner) (c : Char) : Scanner :=
  if c = '\n' then { s.delimit with tokens := s.delimit.tokens ++ [.operator "\n"] }
  else if c = ' ' ∨ c = '\t' then s.delimit
  else if c ∈ operatorChars then s.operate c
  else if c = '#' ∧ ¬ s.current matches .word _ then s.delimit.enter .comment
  else s.compose c

def between (s : Scanner) (c : Char) : Scanner :=
  if c = quotationMark then s.leave.mark c
  else if c = backslash then { s with escaped := true }
  else if c = backquote then (s.put c).enter .backquotes
  else if c = '$' then { s.put c with dollar := true }
  else s.put c

def read (s : Scanner) (c : Char) : Scanner :=
  match s.modes with
  | [] => s.plain c
  | .single :: _ => if c = apostrophe then s.leave.mark c else s.literal c
  | .double :: _ => s.between c
  | .braces :: _ => if c = closeBrace then (s.put c).leave else s.compose c
  | .parens :: _ =>
    if c = ')' then (s.put c).leave else if c = '(' then (s.put c).enter .parens else s.compose c
  | .backquotes :: _ =>
    if c = backquote then (s.put c).leave else if c = backslash then { s with escaped := true } else s.put c
  | .comment :: _ => if c = '\n' then s.leave.plain c else s

/-- The character after a backslash: a newline is a line that goes on. -/
def escape (s : Scanner) (c : Char) : Scanner :=
  if s.raw then (s.put backslash).put c
  else if c = '\n' then s
  else if s.modes = [.double] ∧ c ∉ ['$', backquote, quotationMark, backslash] then (s.put backslash).put c
  else s.literal c

def clear (s : Scanner) : Scanner := { s with escaped := false, dollar := false }

/-- The next character. -/
def step (s : Scanner) (c : Char) : Scanner :=
  if s.escaped then s.clear.escape c
  else if s.dollar ∧ c = openBrace then (s.clear.put c).enter .braces
  else if s.dollar ∧ c = '(' then (s.clear.put c).enter .parens
  else s.clear.read c

def run (s : Scanner) (text : List Char) : Scanner := text.foldl step s

/-- The end of the script, where no quotation and no substitution may be open. -/
def finish (s : Scanner) : Option (List Token) :=
  if s.modes = [] ∨ s.modes = [.comment] then
    some ((if s.escaped then s.literal backslash else s).delimit.tokens)
  else none

/-- No word is being read, nor anything that is not between two tokens. -/
structure Boundary (s : Scanner) : Prop where
  modes : s.modes = []
  escaped : s.escaped = false
  dollar : s.dollar = false
  current : ∀ w, s.current ≠ .word w

end Scanner

/-- No argument of a program holds a NUL. -/
def NulFree (s : String) : Prop := ∀ c ∈ s.toList, c.toNat ≠ 0

instance (s : String) : Decidable (NulFree s) := inferInstanceAs (Decidable (∀ c ∈ s.toList, c.toNat ≠ 0))

/-- The tokens of what the scanner still has to read. -/
def tokensFrom (s : Scanner) (script : String) : Option (List Token) :=
  if NulFree script then (s.run script.toList).finish else none

def tokens (script : String) : Option (List Token) := tokensFrom start script

/-! ## What has been read does not matter -/

namespace Scanner
variable (s : Scanner) (ts : List Token) (c : Char)

/-- After tokens that were read before. -/
def after : Scanner := { s with tokens := ts ++ s.tokens }

theorem delimit_after : (s.after ts).delimit = s.delimit.after ts := by simp [delimit, after]

theorem add_after (w : Word) : (s.after ts).add w = (s.add w).after ts := by
  unfold add
  cases h : s.current <;> simp [after, delimit, h]

theorem put_after : (s.after ts).put c = (s.put c).after ts := add_after s ts _

theorem literal_after : (s.after ts).literal c = (s.literal c).after ts := by
  unfold literal
  rw [show (s.after ts).raw = s.raw from rfl]
  split
  · exact put_after s ts c
  · exact add_after s ts _

theorem mark_after : (s.after ts).mark c = (s.mark c).after ts := by
  unfold mark
  rw [show (s.after ts).raw = s.raw from rfl]
  split
  · exact put_after s ts c
  · exact add_after s ts _

theorem operate_after : (s.after ts).operate c = (s.operate c).after ts := by
  unfold operate
  cases h : s.current with
  | nothing => simp [after, delimit, h]
  | word w => simp [after, delimit, h]
  | operator text =>
    simp only [after, h, delimit]
    split <;> simp

theorem compose_after : (s.after ts).compose c = (s.compose c).after ts := by
  unfold compose
  rw [mark_after, put_after]
  simp only [show (s.after ts).modes = s.modes from rfl]
  split_ifs <;> rfl

theorem plain_after : (s.after ts).plain c = (s.plain c).after ts := by
  unfold plain
  rw [delimit_after, operate_after, compose_after]
  simp only [show (s.after ts).current = s.current from rfl]
  split_ifs
  · simp [after]
  all_goals rfl

theorem between_after : (s.after ts).between c = (s.between c).after ts := by
  unfold between
  rw [put_after, show (s.after ts).leave.mark c = (s.leave.mark c).after ts from mark_after s.leave ts c]
  split_ifs <;> rfl

theorem read_after : (s.after ts).read c = (s.read c).after ts := by
  unfold read
  rw [show (s.after ts).modes = s.modes from rfl, plain_after, literal_after, between_after, compose_after,
    put_after, show (s.after ts).leave.mark c = (s.leave.mark c).after ts from mark_after s.leave ts c,
    show (s.after ts).leave.plain c = (s.leave.plain c).after ts from plain_after s.leave ts c]
  split <;> first | rfl | (split_ifs <;> rfl)

theorem escape_after : (s.after ts).escape c = (s.escape c).after ts := by
  unfold escape
  rw [put_after, put_after, literal_after, show (s.after ts).raw = s.raw from rfl,
    show (s.after ts).modes = s.modes from rfl]
  split_ifs <;> rfl

theorem step_after : (s.after ts).step c = (s.step c).after ts := by
  unfold step
  rw [show (s.after ts).clear = s.clear.after ts from rfl, escape_after, put_after, read_after,
    show (s.after ts).escaped = s.escaped from rfl,
    show (s.after ts).dollar = s.dollar from rfl]
  split_ifs <;> rfl

theorem run_after (text : List Char) : (s.after ts).run text = (s.run text).after ts := by
  induction text generalizing s with
  | nil => rfl
  | cons c text ih => exact (congrArg (fun s => run s text) (step_after s ts c)).trans (ih (s.step c))

theorem finish_after : (s.after ts).finish = s.finish.map (ts ++ ·) := by
  unfold finish
  rw [literal_after, show (s.after ts).modes = s.modes from rfl, show (s.after ts).escaped = s.escaped from rfl]
  split
  · split <;> simp [after, delimit]
  · rfl

theorem run_append (text text' : List Char) : s.run (text ++ text') = (s.run text).run text' :=
  List.foldl_append ..

/-! ## Reading words -/

/-- Between two characters, none of which has escaped the next. -/
def reading (ts : List Token) (current : Current) (modes : List Mode) : Scanner :=
  { tokens := ts, current, modes, escaped := false, dollar := false }

variable {s ts c} {w : Word} {modes : List Mode} {text : List Char}

/-- A letter, a digit or an underscore. -/
def Ordinary (c : Char) : Prop := c.isAlphanum = true ∨ c = '_'

instance (c : Char) : Decidable (Ordinary c) := inferInstanceAs (Decidable (_ ∨ _))

theorem Ordinary.ne {d : Char} (hc : Ordinary c) (hd : ¬ Ordinary d) : c ≠ d := fun h => hd (h ▸ hc)

theorem compose_ordinary (hc : Ordinary c) : s.compose c = s.put c := by
  unfold compose
  rw [if_neg (hc.ne (by decide)), if_neg fun h => hc.ne (by decide) h.1, if_neg (hc.ne (by decide)),
    if_neg (hc.ne (by decide)), if_neg (hc.ne (by decide))]

theorem plain_ordinary (hc : Ordinary c) : s.plain c = s.put c := by
  unfold plain
  rw [if_neg (hc.ne (by decide)), if_neg (by rintro (h | h) <;> exact hc.ne (by decide) h), if_neg ?_,
    if_neg fun h => hc.ne (by decide) h.1, compose_ordinary hc]
  intro h
  simp only [operatorChars, List.mem_cons, List.not_mem_nil, or_false] at h
  rcases h with h | h | h | h | h | h | h <;> exact hc.ne (by decide) h

/-- What means nothing to the shell is a part of the word, there and in the name of a parameter. -/
theorem step_ordinary (hmodes : modes = [] ∨ modes = [.braces, .double]) (hc : Ordinary c) {current : Current} :
    (reading ts current modes).step c = (reading ts current modes).put c := by
  change (reading ts current modes).read c = _
  rcases hmodes with rfl | rfl
  · exact plain_ordinary hc
  · change (if c = closeBrace then _ else (reading ts current _).compose c) = _
    rw [if_neg (hc.ne (by decide)), compose_ordinary hc]

theorem run_ordinary (hmodes : modes = [] ∨ modes = [.braces, .double]) (htext : ∀ c ∈ text, Ordinary c) :
    (reading ts (.word w) modes).run text = reading ts (.word (w ++ text.map fun c => (quoting modes, c))) modes := by
  induction text generalizing w with
  | nil => simp [run]
  | cons c text ih =>
    have hc : (reading ts (.word w) modes).step c = reading ts (.word (w ++ [(quoting modes, c)])) modes :=
      step_ordinary hmodes (htext c (List.mem_cons_self ..))
    change ((reading ts (.word w) modes).step c).run text = _
    rw [hc, ih fun c h => htext c (List.mem_cons_of_mem _ h)]
    simp

/-- Within single quotes a character means itself, but for the quote. -/
theorem step_single (hc : c ≠ apostrophe) :
    (reading ts (.word w) [.single]).step c = reading ts (.word (w ++ [(.full, c)])) [.single] := by
  change (if c = apostrophe then _ else (reading ts (.word w) _).literal c) = _
  rw [if_neg hc]
  rfl

/-- The quote ends, a quote that means itself follows, and the quote goes on. -/
theorem run_apostrophe : (reading ts (.word w) [.single]).run [apostrophe, backslash, apostrophe, apostrophe] =
    reading ts (.word (w ++ [(.full, apostrophe)])) [.single] := by
  have h : (reading ts (.word w) [.single]).run [apostrophe, backslash, apostrophe, apostrophe] =
      reading ts (.word (((w ++ []) ++ [(.full, apostrophe)]) ++ [])) [.single] := rfl
  rw [h]
  simp

end Scanner

/-! ## Commands -/

/-- The variables of an environment. -/
abbrev Env := String → Option String

/-- What `sh` takes for the name of a variable. -/
def isName (name : String) : Bool :=
  match name.toList with
  | [] => false
  | c :: cs => (c.isAlpha || c = '_') && cs.all (fun c => c.isAlphanum || c = '_')

def Word.text (w : Word) : String := String.ofList (w.map (·.2))

/-- The name, in a word that is `${NAME:-}` in double quotes. -/
def defaulted (w : Word) : Option String :=
  let text := w.map (·.2)
  let name := String.ofList ((text.drop 2).take (text.length - 5))
  if w.all (·.1 = .double) ∧ text = ['$', openBrace] ++ name.toList ++ [':', '-', closeBrace] ∧ isName name then
    some name
  else none

/-- A character that no expansion looks at. -/
def inert : Quoting × Char → Bool
  | (.full, _) => true
  | (.double, c) => c ∉ ['$', backquote]
  | (.plain, c) => c ∉ ['$', backquote, '~', '*', '?', '[']

/-- A word's expansion, where it is a defaulted parameter or nothing is to be expanded in it. -/
def expand (env : Env) (w : Word) : Option String :=
  match defaulted w with
  | some name => some ((env name).getD "")
  | none => if w.all inert ∨ w = [(.plain, '[')] then some (Word.text w) else none

/-- `NAME=value`. -/
def assignment (arg : String) : Option (String × String) :=
  let name := String.ofList (arg.toList.takeWhile (· ≠ '='))
  match arg.toList.dropWhile (· ≠ '=') with
  | _ :: value => if isName name then some (name, String.ofList value) else none
  | [] => none

/-- What a command leaves of the environment, and whether it succeeds. -/
def builtin (env : Env) : List String → Option (Env × Bool)
  | ["[", "-n", value, "]"] => some (env, value ≠ "")
  | ["export", arg] => (assignment arg).map fun (name, value) => (Function.update env name (some value), true)
  | _ => none

/-- Commands joined by `||`, up to the first that succeeds. -/
def orList (env : Env) : List (List Word) → Option Env
  | [] => some env
  | words :: rest => do
    let (env, succeeds) ← builtin env (← words.mapM (expand env))
    if succeeds then return env else orList env rest

/-- The commands of a list that `;` ends, and what follows it. -/
def splitList : List Token → Option (List (List Word) × List Token)
  | [] => none
  | .operator ";" :: ts => some ([[]], ts)
  | .operator "||" :: ts => (splitList ts).map fun (commands, rest) => ([] :: commands, rest)
  | .operator _ :: _ => none
  | .word w :: ts => (splitList ts).map fun (commands, rest) => (commands.modifyHead (w :: ·), rest)

def statement (env : Env) (ts : List Token) : Option (Env × List Token) := do
  let (commands, rest) ← splitList ts
  return (← orList env commands, rest)

/-- Every list of a script, one after the other: no more than `fuel` of them. -/
def runTokens : (fuel : Nat) → Env → List Token → Option Env
  | _, env, [] => some env
  | 0, _, _ :: _ => none
  | fuel + 1, env, ts => do
    let (env, rest) ← statement env ts
    runTokens fuel env rest

/-- The environment in which the end of a script starts: the rest has been read, to the end of a token,
and has been run. -/
def envBefore (script cmd : String) (env : Env) : Option Env :=
  let before := script.toList.take (script.toList.length - cmd.toList.length)
  let s := start.run before
  if before ++ cmd.toList = script.toList ∧ (∀ c ∈ before, c.toNat ≠ 0) ∧ s = { start with tokens := s.tokens } then
    runTokens s.tokens.length env s.tokens
  else none

/-! ### `export` and its guard -/

def plainWord (text : String) : Word := text.toList.map fun c => (.plain, c)

def literalWord (text : String) : Word := text.toList.map fun c => (.full, c)

/-- `NAME='value'`. -/
def assignWord (name value : String) : Word := plainWord name ++ plainWord "=" ++ literalWord value

/-- `"${NAME:-}"`. -/
def defaultWord (name : String) : Word :=
  ("$\x7b" ++ name ++ ":-\x7d").toList.map fun c => (.double, c)

/-- `export NAME='value';` -/
def exportTokens (name value : String) : List Token :=
  [.word (plainWord "export"), .word (assignWord name value), .operator ";"]

/-- `[ -n "${NAME:-}" ] || export NAME='value';` -/
def guardTokens (name value : String) : List Token :=
  [.word (plainWord "["), .word (plainWord "-n"), .word (defaultWord name), .word (plainWord "]"),
   .operator "||"] ++ exportTokens name value

section
variable {name value : String} {env : Env} {ts : List Token}

theorem ordinary_of_isName (h : isName name = true) : ∀ c ∈ name.toList, Scanner.Ordinary c := by
  unfold isName at h
  intro c hc
  split at h
  · cases h
  · rename_i d ds hname
    rw [hname] at hc
    obtain ⟨hd, hds⟩ := Bool.and_eq_true_iff.mp h
    rcases List.mem_cons.mp hc with rfl | hc
    · rcases Bool.or_eq_true_iff.mp hd with hd | hd
      · exact .inl (by simp [Char.isAlphanum, hd])
      · exact .inr (of_decide_eq_true hd)
    · rcases Bool.or_eq_true_iff.mp (List.all_eq_true.mp hds c hc) with hc | hc
      · exact .inl hc
      · exact .inr (of_decide_eq_true hc)

theorem isName_ne_nil (h : isName name = true) : name.toList ≠ [] := by
  intro hnil
  simp [isName, hnil] at h

theorem expand_of_not_double {w : Word} (hdouble : ∃ p ∈ w, p.1 ≠ .double) (hinert : w.all inert = true) :
    expand env w = some (Word.text w) := by
  have hnone : defaulted w = none := by
    refine if_neg fun h => ?_
    obtain ⟨p, hp, hne⟩ := hdouble
    exact hne (by simpa using List.all_eq_true.mp h.1 p hp)
  rw [expand, hnone]
  exact if_pos (.inl hinert)

/-- What is quoted in full is one word, and means itself. -/
theorem expand_literal (value : String) : expand env (literalWord value) = some value := by
  have htext : Word.text (literalWord value) = value := by simp [Word.text, literalWord, Function.comp_def]
  by_cases hnil : value.toList = []
  · obtain rfl : value = "" := String.toList_injective hnil
    rfl
  · obtain ⟨c, hc⟩ := List.exists_mem_of_ne_nil _ hnil
    have hmem : (Quoting.full, c) ∈ literalWord value := List.mem_map_of_mem hc
    rw [expand_of_not_double ⟨_, hmem, by simp⟩ (by simp [literalWord, inert]), htext]

theorem expand_assign (h : isName name = true) :
    expand env (assignWord name value) = some (name ++ "=" ++ value) := by
  have hinert : (plainWord name).all inert = true := by
    refine List.all_eq_true.mpr fun p hp => ?_
    obtain ⟨c, hc, rfl⟩ := List.mem_map.mp hp
    have hord := ordinary_of_isName h c hc
    simp only [inert, List.mem_cons, List.not_mem_nil, or_false, decide_eq_true_eq, not_or]
    exact ⟨hord.ne (by decide), hord.ne (by decide), hord.ne (by decide), hord.ne (by decide),
      hord.ne (by decide), hord.ne (by decide)⟩
  rw [expand_of_not_double ⟨(.plain, '='), by simp [assignWord, plainWord], by simp⟩]
  · refine congrArg some (String.toList_injective ?_)
    simp [Word.text, assignWord, plainWord, literalWord, Function.comp_def]
  · have hequals : (plainWord "=").all inert = true := by decide
    rw [assignWord, List.all_append, List.all_append, hinert, hequals]
    simp [literalWord, inert]

theorem expand_default (h : isName name = true) : expand env (defaultWord name) = some ((env name).getD "") := by
  have htext : (defaultWord name).map (·.2) = ['$', openBrace] ++ name.toList ++ [':', '-', closeBrace] := by
    simp [defaultWord, Function.comp_def, openBrace, closeBrace]
  have hname : String.ofList ((((defaultWord name).map (·.2)).drop 2).take
      (((defaultWord name).map (·.2)).length - 5)) = name := by
    rw [htext]
    simp
  have hall : (defaultWord name).all (·.1 = .double) = true := by simp [defaultWord]
  have hsome : defaulted (defaultWord name) = some name := by
    unfold defaulted
    simp only [hname]
    exact if_pos ⟨hall, htext, h⟩
  rw [expand, hsome]

theorem expand_plain {text : String} (hne : text.toList ≠ []) (h : (plainWord text).all inert = true) :
    expand env (plainWord text) = some text := by
  obtain ⟨c, hc⟩ := List.exists_mem_of_ne_nil _ hne
  have hmem : (Quoting.plain, c) ∈ plainWord text := List.mem_map_of_mem hc
  rw [expand_of_not_double ⟨_, hmem, by simp⟩ h]
  simp [Word.text, plainWord, Function.comp_def]

/-! ### What they do -/

theorem assignment_of_isName (h : isName name = true) :
    assignment (name ++ "=" ++ value) = some (name, value) := by
  have hne : ∀ c ∈ name.toList, decide (c ≠ '=') = true := fun c hc =>
    decide_eq_true ((ordinary_of_isName h c hc).ne (by decide))
  have htake : (name ++ "=" ++ value).toList.takeWhile (· ≠ '=') = name.toList := by
    rw [String.toList_append, String.toList_append, List.append_assoc, List.takeWhile_append_of_pos hne]
    simp
  have hdrop : (name ++ "=" ++ value).toList.dropWhile (· ≠ '=') = '=' :: value.toList := by
    rw [String.toList_append, String.toList_append, List.append_assoc, List.dropWhile_append_of_pos hne]
    simp
  unfold assignment
  simp only [htake, hdrop, String.ofList_toList]
  exact if_pos h

theorem orList_export (h : isName name = true) (rest : List (List Word)) :
    orList env ([plainWord "export", assignWord name value] :: rest) =
      some (Function.update env name (some value)) := by
  have hexport : expand env (plainWord "export") = some "export" := expand_plain (by decide) (by decide)
  simp [orList, hexport, expand_assign h, builtin, assignment_of_isName h]

theorem orList_guard (h : isName name = true) (rest : List (List Word)) :
    orList env ([plainWord "[", plainWord "-n", defaultWord name, plainWord "]"] :: rest) =
      if (env name).getD "" ≠ "" then some env else orList env rest := by
  have hopen : expand env (plainWord "[") = some "[" := rfl
  have hflag : expand env (plainWord "-n") = some "-n" := expand_plain (by decide) (by decide)
  have hclose : expand env (plainWord "]") = some "]" := expand_plain (by decide) (by decide)
  simp [orList, hopen, hflag, hclose, expand_default h, builtin]

theorem statement_export (h : isName name = true) :
    statement env (exportTokens name value ++ ts) = some (Function.update env name (some value), ts) := by
  have hsplit : splitList (exportTokens name value ++ ts) =
      some ([[plainWord "export", assignWord name value]], ts) := rfl
  simp [statement, hsplit, orList_export h]

theorem statement_guard (h : isName name = true) : statement env (guardTokens name value ++ ts) =
    some (if (env name).getD "" ≠ "" then env else Function.update env name (some value), ts) := by
  have hsplit : splitList (guardTokens name value ++ ts) =
      some ([[plainWord "[", plainWord "-n", defaultWord name, plainWord "]"],
        [plainWord "export", assignWord name value]], ts) := rfl
  unfold statement
  rw [hsplit]
  simp only [Option.bind_eq_bind, Option.bind_some, orList_guard h, orList_export h]
  split <;> rfl

/-- Lists of commands, each of which is read as one and does what `f` says. -/
theorem runTokens_flatMap {α : Type} {block : α → List Token} {f : α → Env → Env} {xs : List α}
    (h : ∀ x ∈ xs, ∀ env ts, statement env (block x ++ ts) = some (f x env, ts)) (hne : ∀ x, block x ≠ [])
    (fuel : Nat) : runTokens (xs.length + fuel) env (xs.flatMap block ++ ts) =
      runTokens fuel (xs.foldl (fun env x => f x env) env) ts := by
  induction xs generalizing env with
  | nil => simp
  | cons x xs ih =>
    have hstep : ∀ fuel ts, runTokens (fuel + 1) env (block x ++ ts) = runTokens fuel (f x env) ts := by
      intro fuel ts
      have hx := h x (List.mem_cons_self ..) env ts
      obtain ⟨t, ts', hblock⟩ := List.exists_cons_of_ne_nil (hne x)
      rw [hblock, List.cons_append] at hx ⊢
      rw [runTokens, hx]
      · rfl
      · exact List.cons_ne_nil _ _
    rw [List.flatMap_cons, List.append_assoc, List.length_cons, Nat.add_right_comm, hstep]
    exact ih fun x' hx' => h x' (List.mem_cons_of_mem _ hx')

end

end Sh
