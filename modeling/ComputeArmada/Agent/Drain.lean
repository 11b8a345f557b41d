import ComputeArmada.Agent.Requests

/-!
# Runs to the end of all that nothing holds up

What the agent comes to by itself once one process is left of the pod: a request whose process is dead,
and whose pipes nothing alive holds, goes to its end by the steps of its own handler.

* `exists_last`, `exists_alone` : one process is left, in the end with its pipes closed;
* `Passes` : what the steps of one handler leave alone (`Passes.single`, `Passes.trans`);
* `Ready` : nothing holds a request up, so that it goes to its `Wait` (`Ready.waits`) and on to where
  its pid is in `children` no more (`Ready.leaves`);
* `exists_drained` : every request with its pid in `children` is at its end, but for the process left.
-/

namespace ComputeArmada.Agent
open Runs

theorem later_of_reach {ok : State → Action → Prop} {s t : State} (h : Reach ok s t) : Os.Later s.os t.os :=
  h.rel (fun s t => Os.Later s.os t.os) (fun _ => .refl _) (fun _ _ _ => .trans)
    (fun _ _ _ _ hs => (step_os hs).later)

theorem Requests.run {ok : State → Action → Prop} {s t : State} (hr : Requests s) (h : Reach ok s t) :
    Requests t :=
  h.inv Requests (fun _ _ _ hr _ hs => hr.step hs) hr

/-! ## One process is left -/

/-- Processes exit, and nothing else happens. -/
def Exits (_ : State) (a : Action) : Prop := ∃ u code, a = .proc (.exit u code)

theorem exits_below {s : State} {u : Nat} (hserving : s.shutdown ≠ .returned) (hu : s.os.running u) (n : Nat) :
    ∃ os, Reach Exits s { s with os := os } ∧ os.running u ∧ os.count = s.os.count ∧
      (os.proc u).group = (s.os.proc u).group ∧ (os.proc u).holds = (s.os.proc u).holds ∧
      ∀ v < n, v ≠ u → ¬ os.running v := by
  induction n with
  | zero => exact ⟨s.os, .refl s, hu, rfl, rfl, rfl, fun v hv => absurd hv (Nat.not_lt_zero v)⟩
  | succ n ih =>
    obtain ⟨os, hrun, hos, hcount, hgroup, hholds, hbelow⟩ := ih
    by_cases hn : n ≠ u ∧ os.running n
    · have hs : step { s with os := os } (.proc (.exit n 0)) = some { s with os := os.exit n 0 } := by
        simp [step, hserving, procStep, hn.2]
      have hexit : ∀ v, (os.exit n 0).running v ↔ os.running v ∧ v ≠ n := fun v => Os.running_die
      refine ⟨os.exit n 0, .tail hrun ⟨n, 0, rfl⟩ hs, (hexit u).mpr ⟨hos, hn.1.symm⟩, hcount, ?_, ?_, ?_⟩
      · rw [Os.exit, Os.group_die]
        exact hgroup
      · rw [← hholds]
        simp only [Os.exit, Os.die, if_neg hn.1.symm]
        split_ifs <;> rfl
      · intro v hv hvu hrunning
        obtain ⟨hrunning, hvn⟩ := (hexit v).mp hrunning
        exact hbelow v (by omega) hvu hrunning
    · refine ⟨os, hrun, hos, hcount, hgroup, hholds, fun v hv hvu hrunning => ?_⟩
      by_cases hvn : v = n
      · subst hvn
        exact hn ⟨hvu, hrunning⟩
      · exact hbelow v (by omega) hvu hrunning

/-- Every state in which `u` runs goes on to one in which nothing else does. -/
theorem exists_last {s : State} {u : Nat} (hr : Requests s) (hserving : s.shutdown ≠ .returned)
    (hu : s.os.running u) :
    ∃ os, Reach Exits s { s with os := os } ∧ os.running u ∧ (∀ v, os.running v → v = u) ∧
      (os.proc u).group = (s.os.proc u).group ∧ (os.proc u).holds = (s.os.proc u).holds := by
  obtain ⟨os, hrun, hos, hcount, hgroup, hholds, hbelow⟩ := exits_below hserving hu s.os.count
  have htree : os.Tree := (hr.run hrun).tree
  refine ⟨os, hrun, hos, fun v hv => ?_, hgroup, hholds⟩
  by_contra hvu
  exact hbelow v (hcount ▸ (htree v hv).1) hvu hv

/-- `u` is left, and holds no pipe. -/
structure Alone (os : Os) (u : Nat) : Prop where
  runs : os.running u
  only : ∀ v, os.running v → v = u
  closed : ∀ pipe, (os.proc u).holds pipe = none

theorem Alone.eof {os : Os} {u : Nat} (ha : Alone os u) (pipe : Pipe) (h : Nat) : os.Eof pipe h := by
  intro v hv
  rw [ha.only v hv, ha.closed pipe]
  simp

theorem running_closePipe (os : Os) (u : Nat) (pipe : Pipe) (v : Nat) :
    (os.closePipe u pipe).running v ↔ os.running v := by
  simp only [Os.closePipe, Os.running, Os.proc_set]
  split_ifs with h
  · rw [h]
  · rfl

theorem exists_alone {s : State} {u : Nat} (hr : Requests s) (hserving : s.shutdown ≠ .returned)
    (hu : s.os.running u) : ∃ os, Reach Any s { s with os := os } ∧ Alone os u := by
  obtain ⟨os, hrun, hos, honly, -⟩ := exists_last hr hserving hu
  have hstdout : step { s with os := os } (.proc (.closePipe u .stdout)) =
      some { s with os := os.closePipe u .stdout } := by
    simp [step, hserving, procStep, hos]
  have hstderr : step { s with os := os.closePipe u .stdout } (.proc (.closePipe u .stderr)) =
      some { s with os := (os.closePipe u .stdout).closePipe u .stderr } := by
    simp [step, hserving, procStep, running_closePipe, hos]
  have hsame : ∀ v, ((os.closePipe u .stdout).closePipe u .stderr).running v ↔ os.running v := fun v => by
    rw [running_closePipe, running_closePipe]
  refine ⟨_, .tail (.tail (hrun.mono fun _ _ _ => trivial) trivial hstdout) trivial hstderr, (hsame u).mpr hos,
    fun v hv => honly v ((hsame v).mp hv), fun pipe => ?_⟩
  cases pipe <;> simp [Os.closePipe, Os.proc_set]

/-! ## The steps of one handler -/

/-- Request `k` moves, and nothing else does. -/
def ByHandler (k : Nat) (_ : State) (a : Action) : Prop := ∃ act, a = .handler k act

/-- The handler of request `k` has moved, and nothing was started or killed for it. -/
structure Passes (k : Nat) (s t : State) : Prop where
  run : Reach (ByHandler k) s t
  others : ∀ j, j ≠ k → t.handler j = s.handler j
  request : (t.handler k).leader = (s.handler k).leader ∧ (t.handler k).endpoint = (s.handler k).endpoint
  runs : ∀ v, t.os.running v → s.os.running v
  procs : ∀ v, s.os.running v → t.os.proc v = s.os.proc v
  later : Os.Later s.os t.os
  agent : t.requests = s.requests ∧ t.shutdown = s.shutdown ∧ t.graceOver = s.graceOver

theorem Passes.refl (k : Nat) (s : State) : Passes k s s :=
  ⟨.refl s, fun _ _ => rfl, ⟨rfl, rfl⟩, fun _ h => h, fun _ _ => rfl, .refl _, rfl, rfl, rfl⟩

theorem Passes.running {k : Nat} {s t : State} (h : Passes k s t) {v : Nat} (hv : s.os.running v) :
    t.os.running v := by
  rw [Os.running, h.procs v hv]
  exact hv

theorem Passes.trans {k : Nat} {s t u : State} (h : Passes k s t) (h' : Passes k t u) : Passes k s u where
  run := h.run.trans h'.run
  others j hj := (h'.others j hj).trans (h.others j hj)
  request := ⟨h'.request.1.trans h.request.1, h'.request.2.trans h.request.2⟩
  runs v hv := h.runs v (h'.runs v hv)
  procs v hv := (h'.procs v (h.running hv)).trans (h.procs v hv)
  later := h.later.trans h'.later
  agent := ⟨h'.agent.1.trans h.agent.1, h'.agent.2.1.trans h.agent.2.1, h'.agent.2.2.trans h.agent.2.2⟩

/-- A step that starts no process and signals none. -/
def HandlerAction.isQuiet : HandlerAction → Bool
  | .start _ | .killerTerm | .killerKill => false
  | _ => true

/-- Such a step collects a process that is dead, if it does anything to the table. -/
theorem handlerStep_quiet {s t : State} {k : Nat} {act : HandlerAction} (hs : handlerStep s k act = some t)
    (hq : act.isQuiet = true) :
    (t.os = s.os ∨ t.os = s.os.collect (s.handler k).leader ∧ ¬ s.os.running (s.handler k).leader) ∧
      (t.handler k).leader = (s.handler k).leader ∧ (t.handler k).endpoint = (s.handler k).endpoint := by
  have hwait := fun heq : act = .wait => wait_inv (heq ▸ hs)
  cases act <;> simp only [handlerStep, Option.ite_none_right_eq_some, Option.some.injEq] at hs
  case start | killerTerm | killerKill => cases hq
  case wait =>
    obtain ⟨⟨-, -, hdead⟩, ⟨-, rfl⟩ | ⟨-, rfl⟩⟩ := hwait rfl
    · exact ⟨.inr ⟨rfl, hdead⟩, by simp⟩
    · exact ⟨.inl rfl, by simp⟩
  case serve =>
    obtain ⟨-, hs⟩ := hs
    split at hs <;> cases hs <;> simp
  case deregister =>
    split at hs <;> simp only [Option.ite_none_right_eq_some, Option.some.injEq] at hs <;>
      obtain ⟨-, rfl⟩ := hs <;> simp
  all_goals
    obtain ⟨-, rfl⟩ := hs
    simp

theorem Passes.single {s t : State} {k : Nat} {act : HandlerAction}
    (hs : step s (.handler k act) = some t) (hq : act.isQuiet = true) : Passes k s t := by
  have ⟨_, _, hact⟩ := step_eq hs
  obtain ⟨⟨H, hH⟩, hreq, -, hshut, hgrace⟩ := handlerStep_frame hact
  obtain ⟨hos, hrequest⟩ := handlerStep_quiet hact hq
  refine ⟨.single ⟨act, rfl⟩ hs, fun j hj => ?_, hrequest, fun v hv => ?_, fun v hv => ?_, (step_os hs).later,
    hreq, hshut, hgrace⟩
  · rw [hH, Function.update_of_ne hj]
  · rcases hos with hos | ⟨hos, -⟩
    · rwa [hos] at hv
    · rw [hos, Os.collect, Os.running, Os.proc_set] at hv
      split_ifs at hv
      exact hv
  · rcases hos with hos | ⟨hos, hdead⟩
    · rw [hos]
    · rw [hos, Os.collect, Os.proc_set, if_neg]
      rintro rfl
      exact hdead hv

/-- Nothing holds the handler of request `k` up. -/
structure Ready (s : State) (k : Nat) : Prop where
  serving : s.shutdown ≠ .returned
  known : k < s.requests
  dead : ¬ s.os.running (s.handler k).leader
  eof : ∀ pipe, s.os.Eof pipe k

theorem Ready.passes {j k : Nat} {s t : State} (hr : Ready s j) (hp : Passes k s t) : Ready t j := by
  have hleader : (t.handler j).leader = (s.handler j).leader := by
    by_cases hj : j = k
    · subst hj
      exact hp.request.1
    · rw [hp.others j hj]
  refine ⟨by rw [hp.agent.2.1]; exact hr.serving, by rw [hp.agent.1]; exact hr.known, ?_, ?_⟩
  · rw [hleader]
    exact fun h => hr.dead (hp.runs _ h)
  · intro pipe v hv
    have hv := hp.runs v hv
    rw [hp.procs v hv]
    exact hr.eof pipe v hv

theorem Ready.step {s t : State} {k : Nat} {act : HandlerAction} (hr : Ready s k)
    (hs : handlerStep s k act = some t) : Agent.step s (.handler k act) = some t := by
  rw [Agent.step, if_neg hr.serving]
  exact (if_pos hr.known).trans hs

/-! ## To `Wait`, and out of `children` -/

theorem Ready.serves {s : State} {k : Nat} (hr : Ready s k) (hpc : (s.handler k).pc = .registered) :
    ∃ t, Passes k s t ∧ (t.handler k).pc = .serving ∧ t.children = s.children ∧
      ((s.handler k).killer ≠ .finished → (t.handler k).killer ≠ .finished) := by
  cases hep : (s.handler k).endpoint with
  | exec =>
    have hs : handlerStep s k .serve =
        some (s.setHandler k { s.handler k with pc := .serving, killer := .selecting }) := by
      simp [handlerStep, hpc, hep]
    exact ⟨_, .single (hr.step hs) rfl, by simp, rfl, by simp⟩
  | processStart =>
    have hs : handlerStep s k .serve =
        some { s.setHandler k { s.handler k with pc := .serving } with
               started := Function.update s.started (s.pidOf k) (some k) } := by
      simp [handlerStep, hpc, hep]
    exact ⟨_, .single (hr.step hs) rfl, by simp, rfl, by simp⟩

theorem Ready.read {s : State} {k : Nat} (hr : Ready s k) (hpc : (s.handler k).pc = .serving)
    (hep : (s.handler k).endpoint = .exec) (pipe : Pipe) :
    ∃ t, Passes k s t ∧ (t.handler k).pc = .serving ∧ t.children = s.children ∧
      (t.handler k).killer = (s.handler k).killer ∧
      (t.handler k).eof = Function.update (s.handler k).eof pipe true := by
  have hat : s.atEof pipe k := fun u _ hu => hr.eof pipe u hu
  have hs : handlerStep s k (.eof pipe) =
      some (s.setHandler k { s.handler k with eof := Function.update (s.handler k).eof pipe true }) := by
    simp [handlerStep, hpc, hep, hat]
  exact ⟨_, .single (hr.step hs) rfl, by simpa using hpc, rfl, by simp, by simp⟩

theorem Ready.reads {s : State} {k : Nat} (hr : Ready s k) (hpc : (s.handler k).pc = .serving)
    (hep : (s.handler k).endpoint = .exec) :
    ∃ t, Passes k s t ∧ (t.handler k).pc = .serving ∧ t.children = s.children ∧
      (t.handler k).killer = (s.handler k).killer ∧ ∀ pipe, (t.handler k).eof pipe = true := by
  obtain ⟨s₁, h₁, hpc₁, hc₁, hk₁, heof₁⟩ := hr.read hpc hep .stdout
  obtain ⟨s₂, h₂, hpc₂, hc₂, hk₂, heof₂⟩ := (hr.passes h₁).read hpc₁ (h₁.request.2.trans hep) .stderr
  refine ⟨s₂, h₁.trans h₂, hpc₂, hc₂.trans hc₁, hk₂.trans hk₁, fun pipe => ?_⟩
  cases pipe <;> simp [heof₂, heof₁]

theorem Ready.collects {s : State} {k : Nat} (hr : Ready s k) (hpc : (s.handler k).pc = .serving)
    (heof : (s.handler k).endpoint = .exec → ∀ pipe, (s.handler k).eof pipe = true) :
    ∃ t, Passes k s t ∧ (t.handler k).pc = .waited ∧ t.children = s.children ∧
      (t.handler k).killer = (s.handler k).killer := by
  have hg : (s.handler k).pc = .serving ∧ ((s.handler k).endpoint = .exec →
      (s.handler k).eof .stdout = true ∧ (s.handler k).eof .stderr = true) ∧
      ¬ s.os.running (s.handler k).leader := ⟨hpc, fun h => ⟨heof h _, heof h _⟩, hr.dead⟩
  obtain ⟨t, hs⟩ : ∃ t, handlerStep s k .wait = some t := by
    simp only [handlerStep, if_pos hg]
    split_ifs <;> exact ⟨_, rfl⟩
  refine ⟨t, .single (hr.step hs) rfl, ?_⟩
  obtain ⟨-, ⟨-, rfl⟩ | ⟨-, rfl⟩⟩ := wait_inv hs <;> simp [State.setHandler]

/-- A request that has stored its pid goes to the end of its `Wait`. -/
theorem Ready.waits {s : State} {k : Nat} (hr : Ready s k)
    (hpc : (s.handler k).pc = .registered ∨ (s.handler k).pc = .serving) :
    ∃ t, Passes k s t ∧ (t.handler k).pc = .waited ∧ t.children = s.children ∧
      ((s.handler k).killer ≠ .finished → (t.handler k).killer ≠ .finished) := by
  obtain ⟨s₁, h₁, hpc₁, hc₁, hk₁⟩ : ∃ t, Passes k s t ∧ (t.handler k).pc = .serving ∧
      t.children = s.children ∧ ((s.handler k).killer ≠ .finished → (t.handler k).killer ≠ .finished) := by
    rcases hpc with hpc | hpc
    · exact hr.serves hpc
    · exact ⟨s, .refl k s, hpc, rfl, id⟩
  obtain ⟨s₂, h₂, hpc₂, hc₂, hk₂, heof⟩ : ∃ t, Passes k s₁ t ∧ (t.handler k).pc = .serving ∧
      t.children = s₁.children ∧ (t.handler k).killer = (s₁.handler k).killer ∧
      ((t.handler k).endpoint = .exec → ∀ pipe, (t.handler k).eof pipe = true) := by
    cases hep : (s₁.handler k).endpoint with
    | exec =>
      obtain ⟨t, h, hpc, hc, hk, heof⟩ := (hr.passes h₁).reads hpc₁ hep
      exact ⟨t, h, hpc, hc, hk, fun _ => heof⟩
    | processStart => exact ⟨s₁, .refl k s₁, hpc₁, rfl, rfl, fun h => by rw [hep] at h; cases h⟩
  obtain ⟨s₃, h₃, hpc₃, hc₃, hk₃⟩ := ((hr.passes h₁).passes h₂).collects hpc₂ heof
  refine ⟨s₃, (h₁.trans h₂).trans h₃, hpc₃, (hc₃.trans hc₂).trans hc₁, fun hk => ?_⟩
  rw [hk₃, hk₂]
  exact hk₁ hk

/-- From `children.Store` to `children.Delete`, which `exec` defers to its end and the `Wait` of
`startProcess` comes to next. -/
def Handler.stored (H : Handler) : Bool :=
  match H.pc with
  | .registered | .serving | .waited => true
  | .closed | .replied => H.endpoint = .exec
  | _ => false

theorem rank_of_stored {H : Handler} (h : H.stored = true) : 3 ≤ H.pc.rank := by
  rw [Handler.stored] at h
  split at h <;> simp_all [Pc.rank]

theorem Ready.deregisters {s : State} {k : Nat} (hr : Ready s k)
    (hpc : (s.handler k).endpoint = .exec ∧ (s.handler k).pc = .replied ∨
      (s.handler k).endpoint = .processStart ∧ (s.handler k).pc = .waited) :
    ∃ t, Passes k s t ∧ (t.handler k).stored = false ∧ t.children = s.children.erase (s.pidOf k) := by
  rcases hpc with ⟨hep, hpc⟩ | ⟨hep, hpc⟩
  · have hs : handlerStep s k .deregister = some { s.setHandler k { s.handler k with pc := .done } with
        children := s.children.erase (s.pidOf k) } := by
      simp [handlerStep, hpc, hep]
    exact ⟨_, .single (hr.step hs) rfl, by simp [Handler.stored], rfl⟩
  · have hs : handlerStep s k .deregister = some { s.setHandler k { s.handler k with pc := .dropped } with
        children := s.children.erase (s.pidOf k) } := by
      simp [handlerStep, hpc, hep]
    exact ⟨_, .single (hr.step hs) rfl, by simp [Handler.stored], rfl⟩

theorem Ready.replies {s : State} {k : Nat} (hr : Ready s k) (hep : (s.handler k).endpoint = .exec)
    (hpc : (s.handler k).pc = .waited ∨ (s.handler k).pc = .closed) :
    ∃ t, Passes k s t ∧ (t.handler k).pc = .replied ∧ t.children = s.children := by
  obtain ⟨s₁, h₁, hpc₁, hc₁⟩ : ∃ t, Passes k s t ∧ (t.handler k).pc = .closed ∧ t.children = s.children := by
    rcases hpc with hpc | hpc
    · have hs : handlerStep s k .closeExited =
          some (s.setHandler k { s.handler k with pc := .closed, exited := true }) := by
        simp [handlerStep, hpc, hep]
      exact ⟨_, .single (hr.step hs) rfl, by simp, rfl⟩
    · exact ⟨s, .refl k s, hpc, rfl⟩
  have hs : handlerStep s₁ k (.reply true) = some (s₁.setHandler k { s₁.handler k with
      pc := .replied
      reported := if true = true ∧ (s₁.handler k).code = 0 then none
        else some ((s₁.handler k).code, decide ((s₁.handler k).ctx = some .deadlineExceeded)) }) := by
    simp [handlerStep, hpc₁]
  exact ⟨_, h₁.trans (.single ((hr.passes h₁).step hs) rfl), by simp, hc₁⟩

theorem pidOf_passes {j k : Nat} {s t : State} (hq : Requests s) (hp : Passes k s t)
    (h2 : 2 ≤ (s.handler j).pc.rank) : t.pidOf j = s.pidOf j := by
  have hleader : (t.handler j).leader = (s.handler j).leader := by
    by_cases hj : j = k
    · subst hj
      exact hp.request.1
    · rw [hp.others j hj]
  rw [State.pidOf, State.pidOf, hleader]
  exact hp.later.pid _ ((hq.each j).leads h2).1

/-- A request with its pid in `children` goes to where it has taken it out. -/
theorem Ready.leaves {s : State} {k : Nat} (hq : Requests s) (hr : Ready s k)
    (hst : (s.handler k).stored = true) :
    ∃ t, Passes k s t ∧ (t.handler k).stored = false ∧ t.children = s.children.erase (s.pidOf k) := by
  have h3 := rank_of_stored hst
  -- To the end of `Wait`, or beyond it where the handler is beyond it.
  obtain ⟨s₁, h₁, hpc₁, hc₁⟩ : ∃ t, Passes k s t ∧
      ((t.handler k).pc = .waited ∨ (t.handler k).endpoint = .exec ∧
        ((t.handler k).pc = .closed ∨ (t.handler k).pc = .replied)) ∧ t.children = s.children := by
    have hthere : ∀ {p}, (s.handler k).pc = p → p = .closed ∨ p = .replied → (s.handler k).endpoint = .exec := by
      intro p hp hc
      rcases hc with rfl | rfl <;> simpa [Handler.stored, hp] using hst
    cases hpc : (s.handler k).pc with
    | registered =>
      obtain ⟨t, h, hw, hc, -⟩ := hr.waits (.inl hpc)
      exact ⟨t, h, .inl hw, hc⟩
    | serving =>
      obtain ⟨t, h, hw, hc, -⟩ := hr.waits (.inr hpc)
      exact ⟨t, h, .inl hw, hc⟩
    | waited => exact ⟨s, .refl k s, .inl hpc, rfl⟩
    | closed => exact ⟨s, .refl k s, .inr ⟨hthere hpc (.inl rfl), .inl hpc⟩, rfl⟩
    | replied => exact ⟨s, .refl k s, .inr ⟨hthere hpc (.inr rfl), .inr hpc⟩, rfl⟩
    | _ => simp [Handler.stored, hpc] at hst
  obtain ⟨s₂, h₂, hpc₂, hc₂⟩ : ∃ t, Passes k s₁ t ∧ ((t.handler k).endpoint = .exec ∧ (t.handler k).pc = .replied ∨
      (t.handler k).endpoint = .processStart ∧ (t.handler k).pc = .waited) ∧ t.children = s₁.children := by
    cases hep : (s₁.handler k).endpoint with
    | exec =>
      by_cases hrep : (s₁.handler k).pc = .replied
      · exact ⟨s₁, .refl k s₁, .inl ⟨hep, hrep⟩, rfl⟩
      · obtain ⟨t, h, hpc, hc⟩ := (hr.passes h₁).replies hep (by tauto)
        exact ⟨t, h, .inl ⟨h.request.2.trans hep, hpc⟩, hc⟩
    | processStart =>
      have hw : (s₁.handler k).pc = .waited := by
        rw [hep] at hpc₁
        simpa using hpc₁
      exact ⟨s₁, .refl k s₁, .inr ⟨hep, hw⟩, rfl⟩
  have h₁₂ := h₁.trans h₂
  obtain ⟨s₃, h₃, hst₃, hc₃⟩ := (hr.passes h₁₂).deregisters hpc₂
  refine ⟨s₃, h₁₂.trans h₃, hst₃, ?_⟩
  rw [hc₃, hc₂, hc₁, pidOf_passes hq h₁₂ (by omega)]

/-! ## All of them -/

/-- What is left of `s` when the requests below `n` are at their ends, those of process `u` apart. -/
structure Drained (u n : Nat) (s t : State) : Prop where
  run : Reach Any s t
  alone : Alone t.os u
  agent : t.requests = s.requests ∧ t.shutdown = s.shutdown ∧ t.graceOver = s.graceOver
  later : Os.Later s.os t.os
  leader : ∀ j, (t.handler j).leader = (s.handler j).leader
  spared : ∀ j, n ≤ j ∨ (s.handler j).leader = u → t.handler j = s.handler j
  ended : ∀ j < n, (t.handler j).stored = true → (t.handler j).leader = u
  children : t.children ⊆ s.children
  erased : ∀ j < n, (s.handler j).stored = true → (s.handler j).leader ≠ u → s.pidOf j ∉ t.children

theorem Drained.pidOf {u n j : Nat} {s t : State} (hd : Drained u n s t) (hq : Requests s)
    (h2 : 2 ≤ (s.handler j).pc.rank) : t.pidOf j = s.pidOf j := by
  rw [State.pidOf, State.pidOf, hd.leader j]
  exact hd.later.pid _ ((hq.each j).leads h2).1

theorem Drained.succ {u n : Nat} {s t : State} (hq : Requests s) (hserving : s.shutdown ≠ .returned)
    (hn : n < s.requests) (hd : Drained u n s t) : ∃ t', Drained u (n + 1) s t' := by
  by_cases hdo : (s.handler n).stored = true ∧ (s.handler n).leader ≠ u
  · have hsame := hd.spared n (.inl le_rfl)
    have hready : Ready t n := by
      refine ⟨by rw [hd.agent.2.1]; exact hserving, by rw [hd.agent.1]; exact hn, ?_,
        fun pipe => hd.alone.eof pipe n⟩
      intro hrun
      rw [hsame] at hrun
      exact hdo.2 (hd.alone.only _ hrun)
    obtain ⟨t', hp, hst, hc⟩ := hready.leaves (hq.run hd.run) (hsame ▸ hdo.1)
    rw [hd.pidOf hq (by have := rank_of_stored hdo.1; omega)] at hc
    have halone : Alone t'.os u := by
      refine ⟨hp.running hd.alone.runs, fun v hv => hd.alone.only v (hp.runs v hv), ?_⟩
      rw [hp.procs u hd.alone.runs]
      exact hd.alone.closed
    have hleader : ∀ j, (t'.handler j).leader = (s.handler j).leader := by
      intro j
      by_cases hj : j = n
      · subst hj
        exact hp.request.1.trans (hd.leader j)
      · rw [hp.others j hj]
        exact hd.leader j
    refine ⟨t', hd.run.trans (hp.run.mono fun _ _ _ => trivial), halone,
      ⟨hp.agent.1.trans hd.agent.1, hp.agent.2.1.trans hd.agent.2.1, hp.agent.2.2.trans hd.agent.2.2⟩,
      hd.later.trans hp.later, hleader, ?_, ?_, ?_, ?_⟩
    · intro j hj
      have hjn : j ≠ n := by
        rintro rfl
        exact hj.elim (by omega) hdo.2
      rw [hp.others j hjn]
      exact hd.spared j (hj.imp (fun h => by omega) id)
    · intro j hj hstored
      by_cases hjn : j = n
      · subst hjn
        rw [hst] at hstored
        cases hstored
      · rw [hp.others j hjn] at hstored ⊢
        exact hd.ended j (by omega) hstored
    · rw [hc]
      exact (Finset.erase_subset _ _).trans hd.children
    · intro j hj hstored hju hmem
      rw [hc, Finset.mem_erase] at hmem
      by_cases hjn : j = n
      · subst hjn
        exact hmem.1 rfl
      · exact hd.erased j (by omega) hstored hju hmem.2
  · -- Nothing to do for request `n`.
    refine ⟨t, hd.run, hd.alone, hd.agent, hd.later, hd.leader, fun j hj => hd.spared j ?_, ?_, hd.children, ?_⟩
    · exact hj.imp (fun h => by omega) id
    · intro j hj hstored
      by_cases hjn : j = n
      · subst hjn
        rw [hd.spared j (.inl le_rfl)] at hstored ⊢
        by_contra hju
        exact hdo ⟨hstored, hju⟩
      · exact hd.ended j (by omega) hstored
    · intro j hj hstored hju
      by_cases hjn : j = n
      · subst hjn
        exact absurd ⟨hstored, hju⟩ hdo
      · exact hd.erased j (by omega) hstored hju

/-- With `u` alone left, every request is brought to where its pid is out of `children`. -/
theorem exists_drained {s : State} {u : Nat} (hq : Requests s) (hserving : s.shutdown ≠ .returned)
    (ha : Alone s.os u) : ∃ t, Drained u s.requests s t := by
  have hall : ∀ n ≤ s.requests, ∃ t, Drained u n s t := by
    intro n
    induction n with
    | zero =>
      intro _
      exact ⟨s, .refl s, ha, ⟨rfl, rfl, rfl⟩, .refl _, fun _ => rfl, fun _ _ => rfl,
        fun j hj => absurd hj (Nat.not_lt_zero j), Finset.Subset.refl _,
        fun j hj => absurd hj (Nat.not_lt_zero j)⟩
    | succ n ih =>
      intro hn
      obtain ⟨t, hd⟩ := ih (by omega)
      exact hd.succ hq hserving (by omega)
  exact hall _ le_rfl

end ComputeArmada.Agent
