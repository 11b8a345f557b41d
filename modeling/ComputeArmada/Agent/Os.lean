import Mathlib.Data.Finset.Basic
import Mathlib.Logic.Function.Basic
import ComputeArmada.Lib.Run

/-!
# The pod's processes, as the kernel agent's operating system keeps them

A process is named by the order of its creation, `0 .. count - 1`, which is never reused; its `pid`
is a number the system may hand out again. The agent itself is not in the table: it is PID 1, and a
process whose `parent` is `none` is its child.

* `Os.spawn`, `Os.fork`, `Os.exit`, `Os.kill`, `Os.term`, `Os.setsid`, `Os.closePipe`, `Os.collect` :
  what a system call does to the table;
* `Os.Step` : the ways the table can change, and `Os.Step.*` what each of them leaves alone;
* `Os.Tree` : the running processes form a forest below the agent (`Os.Tree.step`), so that with no
  running child of the agent nothing runs (`Os.Tree.none_running`).
-/

namespace ComputeArmada.Agent

inductive Status
  | running
  | zombie
  | collected
  deriving DecidableEq, Repr

/-- Which end of an `/exec` request a pipe carries. -/
inductive Pipe
  | stdout
  | stderr
  deriving DecidableEq, Repr

structure Proc where
  pid : Nat
  /-- `none` for a child of the agent, one it started or one reparented to it. -/
  parent : Option Nat
  /-- The process whose `setsid` made the group; its pid is the group's number. -/
  group : Nat
  status : Status
  /-- What `ProcessState.ExitCode` answers: the exit status, `-1` after a signal. -/
  code : Int
  /-- The request whose stdout or stderr pipe the process holds open. -/
  holds : Pipe → Option Nat
  /-- SIGTERM was sent to it. When it exits, if ever, is its own business. -/
  termed : Bool

/-- A slot of the table no process was created in yet. -/
def Proc.unborn : Proc :=
  { pid := 0, parent := none, group := 0, status := .collected, code := 0, holds := fun _ => none,
    termed := false }

structure Os where
  count : Nat
  proc : Nat → Proc

namespace Os

def empty : Os := { count := 0, proc := fun _ => .unborn }

def running (os : Os) (u : Nat) : Prop := (os.proc u).status = .running

instance (os : Os) (u : Nat) : Decidable (os.running u) := inferInstanceAs (Decidable (_ = _))

def zombie (os : Os) (u : Nat) : Prop := (os.proc u).status = .zombie

instance (os : Os) (u : Nat) : Decidable (os.zombie u) := inferInstanceAs (Decidable (_ = _))

/-- The number `kill(-n)` reaches the group of `u` by. -/
def pgid (os : Os) (u : Nat) : Nat := (os.proc (os.proc u).group).pid

/-- A pid may be handed out when no process has it that is alive or still to be collected. -/
def pidFree (os : Os) (pid : Nat) : Prop :=
  1 < pid ∧ ∀ u < os.count, (os.proc u).status ≠ .collected → (os.proc u).pid ≠ pid

instance (os : Os) (pid : Nat) : Decidable (os.pidFree pid) := inferInstanceAs (Decidable (_ ∧ _))

/-! ## System calls -/

def set (os : Os) (u : Nat) (p : Proc) : Os := { os with proc := Function.update os.proc u p }

def add (os : Os) (p : Proc) : Os :=
  { count := os.count + 1, proc := Function.update os.proc os.count p }

/-- `cmd.Start` of the agent, with `Setsid`: a child of its own that leads a group of its own, its
output going to the pipes of request `opens`, or to a file. -/
def spawn (os : Os) (pid : Nat) (opens : Option Nat) : Os :=
  os.add { pid, parent := none, group := os.count, status := .running, code := 0,
           holds := fun _ => opens, termed := false }

/-- A fork stays in its parent's group and inherits its open pipes. -/
def fork (os : Os) (u pid : Nat) : Os :=
  os.add { os.proc u with pid, parent := some u, status := .running, code := 0, termed := false }

/-- Everything that dies at once: it becomes a zombie that holds nothing, and its children are the
agent's from then on. -/
def die (os : Os) (victim : Nat → Prop) [DecidablePred victim] (code : Int) : Os :=
  { os with
    proc := fun v =>
      let p := os.proc v
      let p := if victim v then { p with status := .zombie, code, holds := fun _ => none } else p
      if ∃ w ∈ p.parent, victim w then { p with parent := none } else p }

def exit (os : Os) (u : Nat) (code : Int) : Os := os.die (· = u) code

/-- `kill(-number, SIGKILL)`: every running member of the group at that moment. -/
def kill (os : Os) (number : Nat) : Os := os.die (fun v => os.running v ∧ os.pgid v = number) (-1)

/-- SIGTERM to every process of `who`. -/
def term (os : Os) (who : Nat → Prop) [DecidablePred who] : Os :=
  { os with proc := fun v => if who v then { os.proc v with termed := true } else os.proc v }

def setsid (os : Os) (u : Nat) : Os := os.set u { os.proc u with group := u }

def closePipe (os : Os) (u : Nat) (pipe : Pipe) : Os :=
  os.set u { os.proc u with holds := Function.update (os.proc u).holds pipe none }

/-- A wait by the parent, whoever that is. -/
def collect (os : Os) (u : Nat) : Os := os.set u { os.proc u with status := .collected }

/-- The zombie child of the agent that `Wait4(pid)` would collect. -/
def waitable (os : Os) (pid : Nat) : Option Nat :=
  (List.range os.count).find? (fun u =>
    decide (os.zombie u ∧ (os.proc u).parent = none ∧ (os.proc u).pid = pid))

/-- `zombiesOf(os.Getpid())`, from one look at `/proc`. -/
def zombiesOf (os : Os) : List Nat :=
  ((List.range os.count).filter (fun u => decide (os.zombie u ∧ (os.proc u).parent = none))).map
    (fun u => (os.proc u).pid)

/-! ## Steps -/

/-- What a change of the table is for the agent: a start, a wait that collects, or neither. -/
inductive Event
  | quiet
  /-- A process is started, its output going to the pipes of request `opens`, if it has one. -/
  | spawns (opens : Option Nat)
  | collects (u : Nat)

inductive Step (os : Os) : Event → Os → Prop
  | idle : Step os .quiet os
  | spawn {pid : Nat} (opens : Option Nat) (hp : os.pidFree pid) :
      Step os (.spawns opens) (os.spawn pid opens)
  | fork {u pid : Nat} (hu : os.running u) (hp : os.pidFree pid) : Step os .quiet (os.fork u pid)
  | exit {u : Nat} (code : Int) (hu : os.running u) : Step os .quiet (os.exit u code)
  | kill (number : Nat) : Step os .quiet (os.kill number)
  | term (who : Nat → Prop) [DecidablePred who] : Step os .quiet (os.term who)
  | setsid {u : Nat} (hu : os.running u) (hg : (os.proc u).group ≠ u) : Step os .quiet (os.setsid u)
  | closePipe {u : Nat} (pipe : Pipe) (hu : os.running u) : Step os .quiet (os.closePipe u pipe)
  | collect {u : Nat} (hu : os.zombie u) : Step os (.collects u) (os.collect u)

theorem proc_set (os : Os) (u : Nat) (p : Proc) (v : Nat) :
    (os.set u p).proc v = if v = u then p else os.proc v := by
  simp [set, Function.update_apply]

theorem proc_add (os : Os) (p : Proc) (v : Nat) :
    (os.add p).proc v = if v = os.count then p else os.proc v := by
  simp [add, Function.update_apply]

theorem running_die {os : Os} {victim : Nat → Prop} [DecidablePred victim] {code : Int} {v : Nat} :
    (os.die victim code).running v ↔ os.running v ∧ ¬ victim v := by
  simp only [running, die]
  split_ifs <;> simp_all

theorem parent_die {os : Os} {victim : Nat → Prop} [DecidablePred victim] {code : Int} {v : Nat} :
    ((os.die victim code).proc v).parent =
      if ∃ w ∈ (os.proc v).parent, victim w then none else (os.proc v).parent := by
  simp only [die]
  split_ifs <;> rfl

theorem proc_die_of_not {os : Os} {victim : Nat → Prop} [DecidablePred victim] {code : Int} {v : Nat}
    (hv : ¬ victim v) :
    (os.die victim code).proc v = { os.proc v with parent := ((os.die victim code).proc v).parent } := by
  simp only [die, if_neg hv]
  split_ifs <;> rfl

theorem waitable_spec {os : Os} {pid u : Nat} (h : os.waitable pid = some u) :
    os.zombie u ∧ (os.proc u).parent = none ∧ (os.proc u).pid = pid := by
  simpa using List.find?_some h

/-! ## What a step leaves alone -/

/-- What time keeps of a table: pids, the dead and their exit codes, the agent's children, and which
processes lead their group. -/
structure Later (os os' : Os) : Prop where
  count : os.count ≤ os'.count
  pid : ∀ u < os.count, (os'.proc u).pid = (os.proc u).pid
  dead : ∀ u < os.count, ¬ os.running u → ¬ os'.running u ∧ (os'.proc u).code = (os.proc u).code
  gone : ∀ u < os.count, (os.proc u).status = .collected → (os'.proc u).status = .collected
  root : ∀ u < os.count, (os.proc u).parent = none → (os'.proc u).parent = none
  leads : ∀ u < os.count, (os.proc u).group = u → (os'.proc u).group = u

theorem Later.refl (os : Os) : Later os os :=
  ⟨le_rfl, fun _ _ => rfl, fun _ _ h => ⟨h, rfl⟩, fun _ _ h => h, fun _ _ h => h, fun _ _ h => h⟩

theorem Later.trans {a b c : Os} (h : Later a b) (h' : Later b c) : Later a c where
  count := h.count.trans h'.count
  pid u hu := (h'.pid u (hu.trans_le h.count)).trans (h.pid u hu)
  dead u hu hr :=
    have ⟨h1, h2⟩ := h.dead u hu hr
    have ⟨h3, h4⟩ := h'.dead u (hu.trans_le h.count) h1
    ⟨h3, h4.trans h2⟩
  gone u hu hc := h'.gone u (hu.trans_le h.count) (h.gone u hu hc)
  root u hu hr := h'.root u (hu.trans_le h.count) (h.root u hu hr)
  leads u hu hg := h'.leads u (hu.trans_le h.count) (h.leads u hu hg)

theorem Later.add (os : Os) (p : Proc) : Later os (os.add p) := by
  have h : ∀ u < os.count, (os.add p).proc u = os.proc u := fun u hu => by
    rw [proc_add, if_neg (by omega)]
  refine ⟨Nat.le_succ _, fun u hu => ?_, fun u hu hr => ?_, fun u hu hc => ?_, fun u hu hr => ?_,
    fun u hu hg => ?_⟩
  · rw [h u hu]
  · exact ⟨by rwa [running, h u hu], by rw [h u hu]⟩
  · rwa [h u hu]
  · rwa [h u hu]
  · rwa [h u hu]

theorem Later.set (os : Os) (u : Nat) (p : Proc) (hpid : p.pid = (os.proc u).pid)
    (hdead : ¬ os.running u → p.status ≠ .running) (hcode : p.code = (os.proc u).code)
    (hgone : (os.proc u).status = .collected → p.status = .collected)
    (hroot : p.parent = (os.proc u).parent) (hlead : p.group = u ∨ p.group = (os.proc u).group) :
    Later os (os.set u p) := by
  refine ⟨le_rfl, fun v _ => ?_, fun v _ hr => ?_, fun v _ hc => ?_, fun v _ hr => ?_, fun v _ hg => ?_⟩ <;>
    simp only [running, proc_set] <;> split_ifs with hvu
  · rw [hpid, hvu]
  · rfl
  · subst hvu; exact ⟨hdead hr, hcode⟩
  · exact ⟨hr, rfl⟩
  · subst hvu; exact hgone hc
  · exact hc
  · subst hvu; exact hroot.trans hr
  · exact hr
  · subst hvu; exact hlead.elim id (fun h => h.trans hg)
  · exact hg

theorem Later.die (os : Os) (victim : Nat → Prop) [DecidablePred victim] (code : Int)
    (hvic : ∀ v, victim v → os.running v) : Later os (os.die victim code) := by
  refine ⟨le_rfl, fun v _ => ?_, fun v _ hr => ?_, fun v _ hc => ?_, fun v _ hr => ?_, fun v _ hg => ?_⟩
  · simp only [Os.die]; split_ifs <;> rfl
  · rw [running_die, proc_die_of_not (fun hv => hr (hvic v hv))]
    exact ⟨fun h => hr h.1, rfl⟩
  · have hr : ¬ os.running v := by simp [running, hc]
    rw [proc_die_of_not (fun hv => hr (hvic v hv))]
    exact hc
  · rw [parent_die, hr]; simp
  · simp only [Os.die]; split_ifs <;> exact hg

theorem Later.term (os : Os) (who : Nat → Prop) [DecidablePred who] : Later os (os.term who) := by
  refine ⟨le_rfl, fun v _ => ?_, fun v _ hr => ?_, fun v _ hc => ?_, fun v _ hr => ?_, fun v _ hg => ?_⟩ <;>
    simp only [running, Os.term] <;> split_ifs
  all_goals first | rfl | exact hr | exact hg | exact hc | exact ⟨hr, rfl⟩

theorem Step.later {e : Event} {os os' : Os} (h : Step os e os') : Later os os' := by
  cases h with
  | idle => exact .refl os
  | spawn opens hp => exact .add os _
  | fork hu hp => exact .add os _
  | exit code hu => exact .die os _ code (fun v hv => hv ▸ hu)
  | kill number => exact .die os _ (-1) (fun v hv => hv.1)
  | term who => exact .term os who
  | setsid hu hg => exact .set os _ _ rfl (fun h => h) rfl (fun h => h) rfl (.inl rfl)
  | closePipe pipe hu => exact .set os _ _ rfl (fun h => h) rfl (fun h => h) rfl (.inr rfl)
  | collect hu => exact .set os _ _ rfl (by simp) rfl (fun _ => rfl) rfl (.inr rfl)

theorem Step.collected {e : Event} {os os' : Os} (h : Step os e os') {u : Nat} (hu : u < os.count)
    (hc : (os'.proc u).status = .collected) : (os.proc u).status = .collected ∨ e = .collects u := by
  have hset : ∀ (w : Nat) (p : Proc), p.status = (os.proc w).status →
      ((os.set w p).proc u).status = .collected → (os.proc u).status = .collected := by
    intro w p hp h
    rw [proc_set] at h
    split_ifs at h with huw
    · rw [huw, ← hp, h]
    · exact h
  have hadd : ∀ p : Proc, ((os.add p).proc u).status = .collected → (os.proc u).status = .collected := by
    intro p h
    rwa [proc_add, if_neg (by omega)] at h
  have hdie : ∀ (victim : Nat → Prop) [DecidablePred victim] (code : Int),
      ((os.die victim code).proc u).status = .collected → (os.proc u).status = .collected := by
    intro victim _ code h
    simp only [die] at h
    split_ifs at h <;> simp_all
  cases h with
  | idle => exact .inl hc
  | spawn opens hp => exact .inl (hadd _ hc)
  | fork hu' hp => exact .inl (hadd _ hc)
  | exit code hu' => exact .inl (hdie _ code hc)
  | kill number => exact .inl (hdie _ (-1) hc)
  | term who => simp only [Os.term] at hc; split_ifs at hc <;> exact .inl hc
  | setsid hu' hg => exact .inl (hset _ _ (by rfl) hc)
  | closePipe pipe hu' => exact .inl (hset _ _ (by rfl) hc)
  | @collect w hw =>
    by_cases huw : u = w
    · exact .inr (by rw [huw])
    · rw [Os.collect, proc_set, if_neg huw] at hc
      exact .inl hc

/-- A process is created under a pid that is free. -/
theorem Step.born {e : Event} {os os' : Os} (h : Step os e os') {u : Nat} (hu : u < os'.count)
    (hnew : ¬ u < os.count) : u = os.count ∧ os.pidFree (os'.proc u).pid := by
  cases h with
  | @spawn pid opens hp =>
    have huc : u = os.count := by
      have : u < os.count + 1 := hu
      omega
    rw [Os.spawn, proc_add, if_pos huc]
    exact ⟨huc, hp⟩
  | @fork w pid hw hp =>
    have huc : u = os.count := by
      have : u < os.count + 1 := hu
      omega
    rw [Os.fork, proc_add, if_pos huc]
    exact ⟨huc, hp⟩
  | _ => exact absurd hu hnew

/-- No two processes that are alive or still to be collected share a pid. -/
def Distinct (os : Os) : Prop :=
  ∀ u < os.count, ∀ v < os.count, (os.proc u).status ≠ .collected → (os.proc v).status ≠ .collected →
    (os.proc u).pid = (os.proc v).pid → u = v

theorem Distinct.step {e : Event} {os os' : Os} (hd : os.Distinct) (h : Step os e os') : os'.Distinct := by
  have hl := h.later
  have hback : ∀ u < os.count, (os'.proc u).status ≠ .collected → (os.proc u).status ≠ .collected :=
    fun u hu hc hc' => hc (hl.gone u hu hc')
  intro u hu v hv huc hvc heq
  by_cases hu' : u < os.count <;> by_cases hv' : v < os.count
  · rw [hl.pid u hu', hl.pid v hv'] at heq
    exact hd u hu' v hv' (hback u hu' huc) (hback v hv' hvc) heq
  · have hfree := (h.born hv hv').2
    exact absurd (by rw [← heq, hl.pid u hu']) (hfree.2 u hu' (hback u hu' huc))
  · have hfree := (h.born hu hu').2
    exact absurd (by rw [heq, hl.pid v hv']) (hfree.2 v hv' (hback v hv' hvc))
  · rw [(h.born hu hu').1, (h.born hv hv').1]

/-- A zombie child of the agent is what `Wait4` of its pid collects. -/
theorem Distinct.waitable {os : Os} (hd : os.Distinct) {u : Nat} (hu : u < os.count) (hz : os.zombie u)
    (hroot : (os.proc u).parent = none) : os.waitable (os.proc u).pid = some u := by
  cases hw : os.waitable (os.proc u).pid with
  | none =>
    have := List.find?_eq_none.mp hw u (List.mem_range.mpr hu)
    simp [hz, hroot] at this
  | some v =>
    obtain ⟨hvz, -, hpid⟩ := waitable_spec hw
    have hv : v < os.count := List.mem_range.mp (List.mem_of_find?_eq_some hw)
    have hvz : (os.proc v).status = .zombie := hvz
    have hz : (os.proc u).status = .zombie := hz
    rw [hd v hv u hu (by simp [hvz]) (by simp [hz]) hpid]

/-! ## The forest below the agent -/

/-- A running process is in the table, and its parent is the agent or an older running process. -/
def Tree (os : Os) : Prop :=
  ∀ u, os.running u → u < os.count ∧ ∀ v, (os.proc u).parent = some v → os.running v ∧ v < u

theorem Tree.empty : Tree Os.empty := by
  intro u hu
  simp [running, Os.empty, Proc.unborn] at hu

theorem Tree.add {os : Os} (ht : os.Tree) {p : Proc}
    (hp : ∀ w, p.parent = some w → os.running w) : (os.add p).Tree := by
  intro v hv
  simp only [running, proc_add] at hv ⊢
  split_ifs at hv ⊢ with hvc
  · subst hvc
    refine ⟨Nat.lt_succ_self _, fun w hw => ?_⟩
    have hwr := hp w hw
    have hwc := (ht w hwr).1
    rw [if_neg (by omega)]
    exact ⟨hwr, hwc⟩
  · obtain ⟨hlt, hpar⟩ := ht v hv
    refine ⟨Nat.lt_succ_of_lt hlt, fun w hw => ?_⟩
    obtain ⟨hwr, hwv⟩ := hpar w hw
    rw [if_neg (by omega)]
    exact ⟨hwr, hwv⟩

/-- A change that starts, stops and reparents nobody. -/
theorem Tree.congr {os os' : Os} (ht : os.Tree) (hcount : os'.count = os.count)
    (hst : ∀ v, os'.running v ↔ os.running v)
    (hpar : ∀ v, (os'.proc v).parent = (os.proc v).parent) : os'.Tree := by
  intro v hv
  obtain ⟨hlt, h⟩ := ht v ((hst v).mp hv)
  refine ⟨hcount ▸ hlt, fun w hw => ?_⟩
  rw [hst]
  exact h w (hpar v ▸ hw)

theorem Tree.set {os : Os} (ht : os.Tree) {u : Nat} {p : Proc} (hpar : p.parent = (os.proc u).parent)
    (hst : p.status = .running ↔ os.running u) : (os.set u p).Tree := by
  refine ht.congr rfl (fun v => ?_) (fun v => ?_)
  · simp only [running, proc_set]
    split_ifs with h
    · subst h; exact hst
    · rfl
  · rw [proc_set]
    split_ifs with h
    · subst h; exact hpar
    · rfl

theorem Tree.die {os : Os} (ht : os.Tree) (victim : Nat → Prop) [DecidablePred victim] (code : Int) :
    (os.die victim code).Tree := by
  intro v hv
  rw [running_die] at hv
  obtain ⟨hlt, h⟩ := ht v hv.1
  refine ⟨hlt, fun w hw => ?_⟩
  rw [parent_die] at hw
  split_ifs at hw with hdead
  obtain ⟨hwr, hwv⟩ := h w hw
  exact ⟨running_die.mpr ⟨hwr, fun hvw => hdead ⟨w, hw, hvw⟩⟩, hwv⟩

theorem Tree.step {e : Event} {os os' : Os} (ht : os.Tree) (h : Step os e os') : os'.Tree := by
  cases h with
  | idle => exact ht
  | spawn opens hp => exact ht.add (fun w hw => by cases hw)
  | fork hu hp => exact ht.add (fun w hw => by cases hw; exact hu)
  | exit code hu => exact ht.die _ code
  | kill number => exact ht.die _ (-1)
  | term who =>
    refine ht.congr rfl (fun v => ?_) (fun v => ?_) <;> simp only [running, term] <;> split_ifs <;> rfl
  | setsid hu hg => exact ht.set rfl Iff.rfl
  | closePipe pipe hu => exact ht.set rfl Iff.rfl
  | @collect u hu =>
    have hz : (os.proc u).status = .zombie := hu
    exact ht.set rfl (by simp [running, hz])

/-- With no running child of the agent, nothing runs: a reparented process is a child. -/
theorem Tree.none_running {os : Os} (ht : os.Tree)
    (hroot : ∀ u, os.running u → (os.proc u).parent ≠ none) (u : Nat) : ¬ os.running u := by
  induction u using Nat.strong_induction_on with
  | _ u ih =>
    intro hu
    obtain ⟨v, hv⟩ := Option.ne_none_iff_exists'.mp (hroot u hu)
    obtain ⟨hvr, hvu⟩ := (ht u hu).2 v hv
    exact ih v hvu hvr

/-! ## Groups and pipes -/

theorem group_die (os : Os) (victim : Nat → Prop) [DecidablePred victim] (code : Int) (u : Nat) :
    ((os.die victim code).proc u).group = (os.proc u).group := by
  simp only [die]
  split_ifs <;> rfl

theorem group_term (os : Os) (who : Nat → Prop) [DecidablePred who] (u : Nat) :
    ((os.term who).proc u).group = (os.proc u).group := by
  simp only [term]
  split_ifs <;> rfl

theorem group_set (os : Os) {w : Nat} {p : Proc} (hp : p.group = (os.proc w).group) (u : Nat) :
    ((os.set w p).proc u).group = (os.proc u).group := by
  rw [proc_set]
  split_ifs with h
  · rw [hp, h]
  · rfl

theorem group_collect (os : Os) (w u : Nat) : ((os.collect w).proc u).group = (os.proc u).group :=
  group_set os (by rfl) u

/-- No member of the group that `ℓ` leads is alive. -/
def GroupDead (os : Os) (ℓ : Nat) : Prop := ∀ u, os.running u → (os.proc u).group ≠ ℓ

/-- Nothing alive holds the pipe of request `h`: a read of it answers EOF. -/
def Eof (os : Os) (pipe : Pipe) (h : Nat) : Prop := ∀ u, os.running u → (os.proc u).holds pipe ≠ some h

/-- Where a running process has its group and its pipes from: a running process before the step that
has the same, or a start, or its own `setsid`. -/
theorem Step.origin {e : Event} {os os' : Os} (h : Step os e os') {u : Nat} (hu : os'.running u) :
    (∃ w, os.running w ∧ (∀ p n, (os'.proc u).holds p = some n → (os.proc w).holds p = some n) ∧
      ((os'.proc u).group = (os.proc w).group ∨
        (os'.proc u).group = u ∧ w = u ∧ (os.proc u).group ≠ u)) ∨
    (∃ opens, e = .spawns opens ∧ u = os.count ∧ (os'.proc u).group = u ∧
      ∀ p, (os'.proc u).holds p = opens) := by
  have hdie : ∀ (victim : Nat → Prop) [DecidablePred victim] (code : Int),
      (os.die victim code).running u →
      ∃ w, os.running w ∧ (∀ p n, ((os.die victim code).proc u).holds p = some n →
        (os.proc w).holds p = some n) ∧ ((os.die victim code).proc u).group = (os.proc w).group := by
    intro victim _ code h
    rw [running_die] at h
    refine ⟨u, h.1, ?_⟩
    rw [proc_die_of_not h.2]
    exact ⟨fun _ _ h => h, rfl⟩
  cases h with
  | idle => exact .inl ⟨u, hu, fun _ _ h => h, .inl rfl⟩
  | @spawn pid opens hp =>
    by_cases huc : u = os.count
    · refine .inr ⟨opens, rfl, huc, ?_⟩
      rw [Os.spawn, proc_add, if_pos huc]
      exact ⟨huc.symm, fun _ => rfl⟩
    · rw [Os.spawn, running, proc_add, if_neg huc] at hu
      rw [Os.spawn, proc_add, if_neg huc]
      exact .inl ⟨u, hu, fun _ _ h => h, .inl rfl⟩
  | @fork w pid hw hp =>
    by_cases huc : u = os.count
    · rw [Os.fork, proc_add, if_pos huc]
      exact .inl ⟨w, hw, fun _ _ h => h, .inl rfl⟩
    · rw [Os.fork, running, proc_add, if_neg huc] at hu
      rw [Os.fork, proc_add, if_neg huc]
      exact .inl ⟨u, hu, fun _ _ h => h, .inl rfl⟩
  | exit code hu' =>
    obtain ⟨w, hw, h1, h2⟩ := hdie _ code hu
    exact .inl ⟨w, hw, h1, .inl h2⟩
  | kill number =>
    obtain ⟨w, hw, h1, h2⟩ := hdie _ (-1) hu
    exact .inl ⟨w, hw, h1, .inl h2⟩
  | term who =>
    refine .inl ⟨u, ?_, ?_⟩ <;> simp only [running, Os.term] at hu ⊢ <;> split_ifs at hu ⊢
    all_goals first | exact hu | exact ⟨fun _ _ h => h, .inl rfl⟩
  | @setsid w hw hg =>
    by_cases huw : u = w
    · subst huw
      refine .inl ⟨u, hw, ?_⟩
      rw [Os.setsid, proc_set, if_pos rfl]
      exact ⟨fun _ _ h => h, .inr ⟨rfl, rfl, hg⟩⟩
    · rw [Os.setsid, running, proc_set, if_neg huw] at hu
      rw [Os.setsid, proc_set, if_neg huw]
      exact .inl ⟨u, hu, fun _ _ h => h, .inl rfl⟩
  | @closePipe w pipe hw =>
    by_cases huw : u = w
    · subst huw
      refine .inl ⟨u, hw, ?_⟩
      rw [Os.closePipe, proc_set, if_pos rfl]
      refine ⟨fun p n h => ?_, .inl rfl⟩
      by_cases hp : p = pipe
      · subst hp; simp at h
      · simpa [hp] using h
    · rw [Os.closePipe, running, proc_set, if_neg huw] at hu
      rw [Os.closePipe, proc_set, if_neg huw]
      exact .inl ⟨u, hu, fun _ _ h => h, .inl rfl⟩
  | @collect w hw =>
    have huw : u ≠ w := by
      rintro rfl
      rw [Os.collect, running, proc_set, if_pos rfl] at hu
      cases hu
    rw [Os.collect, running, proc_set, if_neg huw] at hu
    rw [Os.collect, proc_set, if_neg huw]
    exact .inl ⟨u, hu, fun _ _ h => h, .inl rfl⟩

theorem Eof.step {e : Event} {os os' : Os} {pipe : Pipe} {h : Nat} (he : os.Eof pipe h)
    (hs : Step os e os') (hne : e ≠ .spawns (some h)) : os'.Eof pipe h := by
  intro u hu hh
  rcases hs.origin hu with ⟨w, hw, hold, -⟩ | ⟨opens, rfl, -, -, hold⟩
  · exact he w hw (hold pipe h hh)
  · rw [hold] at hh
    exact hne (by rw [hh])

/-- A group with no living member stays so: members come from members. -/
theorem GroupDead.step {e : Event} {os os' : Os} {ℓ : Nat} (hg : os.GroupDead ℓ) (hℓ : ℓ < os.count)
    (hlead : (os.proc ℓ).group = ℓ) (hs : Step os e os') : os'.GroupDead ℓ := by
  intro u hu hug
  rcases hs.origin hu with ⟨w, hw, -, h | ⟨h, rfl, hne⟩⟩ | ⟨opens, -, rfl, h, -⟩
  · exact hg w hw (by rw [← h, hug])
  · rw [h] at hug
    subst hug
    exact hne hlead
  · rw [h] at hug
    omega

theorem GroupDead.kill {os : Os} {ℓ number : Nat} (hn : (os.proc ℓ).pid = number) :
    (os.kill number).GroupDead ℓ := by
  intro u hu hug
  rw [Os.kill, running_die] at hu
  refine hu.2 ⟨hu.1, ?_⟩
  rw [Os.kill, proc_die_of_not hu.2] at hug
  rw [pgid, hug, hn]

end Os

end ComputeArmada.Agent
