import ComputeArmada.Agent.Drain

/-!
# What an abandoned command leaves running

When the context of an `/exec` request ends, the kill goroutine sends SIGTERM to the group, and SIGKILL
five seconds later unless `exited` is closed by then. `exited` is closed once both pipes are at EOF and
the leader is collected, which says nothing about a member that has given up both pipes.

* `MembersHold`, `KeepsPipes` : every member below the leader holds a pipe of the request, and what its
  processes do keeps it so until the group's fate is decided;
* `Moves` : what a step of the agent leaves of a group and its pipes (`Moves.agent`);
* `Kept` : what a run that keeps to it preserves (`Kept.step`), so that `exited` is closed on a dead group;
* `outlives` : a member without a pipe can outlive its request;
* `abandoned_group` : in such a run no member does, and beyond it one can;
* `redirected_child_survives` : a background child with its output redirected.
-/

namespace ComputeArmada.Agent
open Runs

/-- The handler is in `cmd.Wait`, or on its way there. -/
def CommandRuns (s : State) (h : Nat) : Prop :=
  (s.handler h).endpoint = .exec ∧ 2 ≤ (s.handler h).pc.rank ∧ (s.handler h).pc.rank < 5

instance (s : State) (h : Nat) : Decidable (CommandRuns s h) := inferInstanceAs (Decidable (_ ∧ _))

def HoldsPipe (os : Os) (u h : Nat) : Prop :=
  (os.proc u).holds .stdout = some h ∨ (os.proc u).holds .stderr = some h

instance (os : Os) (u h : Nat) : Decidable (HoldsPipe os u h) := inferInstanceAs (Decidable (_ ∨ _))

/-- Every living member of the group that `ℓ` leads, `ℓ` apart, holds a pipe of request `h`. -/
def MembersHold (os : Os) (ℓ h : Nat) : Prop :=
  ∀ u < os.count, os.running u → (os.proc u).group = ℓ → u ≠ ℓ → HoldsPipe os u h

instance (os : Os) (ℓ h : Nat) : Decidable (MembersHold os ℓ h) := inferInstanceAs (Decidable (∀ u < _, _))

/-- The SIGKILL has not gone out, and `exited` is not closed. -/
def Undecided (s : State) (h : Nat) : Prop := (s.handler h).killer ≠ .finished ∧ (s.handler h).pc.rank < 6

instance (s : State) (h : Nat) : Decidable (Undecided s h) := inferInstanceAs (Decidable (_ ∧ _))

/-- Until the fate of the group is decided, no member of it below the leader gives up its last pipe of
request `h`, and no member without one forks. -/
def KeepsPipes (h : Nat) (s : State) (a : Action) : Prop :=
  Undecided s h → match a with
    | .proc (.closePipe u pipe) => (s.os.proc u).group = (s.handler h).leader → u ≠ (s.handler h).leader →
        HoldsPipe (s.os.closePipe u pipe) u h
    | .proc (.fork u _) => (s.os.proc u).group = (s.handler h).leader → HoldsPipe s.os u h
    | _ => True

instance (h : Nat) (s : State) (a : Action) : Decidable (KeepsPipes h s a) :=
  match a with
  | .proc (.closePipe _ _) => inferInstanceAs (Decidable (_ → _ → _ → _))
  | .proc (.fork _ _) => inferInstanceAs (Decidable (_ → _ → _))
  | .proc (.exit _ _) | .proc (.setsid _) | .proc (.wait _) | .request _ _ | .handler _ _ | .signal _ _
  | .reaper _ | .main _ => inferInstanceAs (Decidable (_ → True))

def Through (s : State) (h : Nat) : Prop := (s.handler h).pc = .done ∧ (s.handler h).killer = .finished

instance (s : State) (h : Nat) : Decidable (Through s h) := inferInstanceAs (Decidable (_ ∧ _))

/-! ## Pipes of a group -/

/-- What runs ran before, in its group and with its pipes, but for a process that leads a group of its own. -/
def Moves (os os' : Os) : Prop :=
  ∀ u, os'.running u → (os'.proc u).group = u ∨
    os.running u ∧ (os'.proc u).group = (os.proc u).group ∧ (os'.proc u).holds = (os.proc u).holds

theorem Moves.refl (os : Os) : Moves os os := fun _ hu => .inr ⟨hu, rfl, rfl⟩

theorem Moves.die (os : Os) (victim : Nat → Prop) [DecidablePred victim] (code : Int) :
    Moves os (os.die victim code) := by
  intro u hu
  rw [Os.running_die] at hu
  rw [Os.proc_die_of_not hu.2]
  exact .inr ⟨hu.1, rfl, rfl⟩

theorem Moves.term (os : Os) (who : Nat → Prop) [DecidablePred who] : Moves os (os.term who) := by
  intro u hu
  right
  simp only [Os.running, Os.term] at hu ⊢
  split_ifs at hu ⊢ <;> exact ⟨hu, rfl, rfl⟩

theorem Moves.collect (os : Os) (w : Nat) : Moves os (os.collect w) := by
  intro u hu
  simp only [Os.collect, Os.running, Os.proc_set] at hu ⊢
  split_ifs at hu ⊢
  exact .inr ⟨hu, rfl, rfl⟩

theorem Moves.setsid (os : Os) (w : Nat) : Moves os (os.setsid w) := by
  intro u hu
  simp only [Os.setsid, Os.running, Os.proc_set] at hu ⊢
  split_ifs at hu ⊢ with huw
  · exact .inl huw.symm
  · exact .inr ⟨hu, rfl, rfl⟩

theorem Moves.spawn (os : Os) (pid : Nat) (opens : Option Nat) : Moves os (os.spawn pid opens) := by
  intro u hu
  simp only [Os.spawn, Os.running, Os.proc_add] at hu ⊢
  split_ifs at hu ⊢ with huc
  · exact .inl huc.symm
  · exact .inr ⟨hu, rfl, rfl⟩

theorem moves_handlerStep {s t : State} {h : Nat} {act : HandlerAction} (hs : handlerStep s h act = some t) :
    Moves s.os t.os := by
  have hquiet : act.isQuiet = true → Moves s.os t.os := by
    intro hq
    rcases (handlerStep_quiet hs hq).1 with hos | ⟨hos, -⟩
    · rw [hos]
      exact .refl _
    · rw [hos]
      exact .collect _ _
  cases act with
  | start pid =>
    simp only [handlerStep, Option.ite_none_right_eq_some, Option.some.injEq] at hs
    obtain ⟨-, rfl⟩ := hs
    exact .spawn _ _ _
  | killerTerm =>
    simp only [handlerStep, Option.ite_none_right_eq_some, Option.some.injEq] at hs
    obtain ⟨-, rfl⟩ := hs
    exact .term _ _
  | killerKill =>
    simp only [handlerStep, Option.ite_none_right_eq_some, Option.some.injEq] at hs
    obtain ⟨-, rfl⟩ := hs
    exact .die _ _ _
  | _ => exact hquiet rfl

theorem Moves.agent {s t : State} {a : Action} (hs : step s a = some t) (ha : ∀ act, a ≠ .proc act) :
    Moves s.os t.os := by
  have ⟨_, h⟩ := step_eq hs
  cases a with
  | request => dsimp only at h; subst h; exact .refl _
  | handler k act => exact moves_handlerStep h.2
  | proc act => exact absurd rfl (ha act)
  | signal pid sig =>
    simp only [signalProcess, Option.ite_none_left_eq_some] at h
    obtain ⟨-, h⟩ := h
    cases sig <;> cases h
    · exact .term _ _
    · exact .die _ _ _
    all_goals exact .refl _
  | reaper act =>
    cases act <;> simp only [reaperStep, Option.ite_none_right_eq_some, Option.some.injEq] at h
    case scan => obtain ⟨-, rfl⟩ := h; exact .refl _
    case check => split at h <;> cases h <;> exact .refl _
    case collect =>
      split at h
      · split at h <;> cases h
        · exact .collect _ _
        · exact .refl _
      · cases h
  | main act =>
    cases act <;> simp only [mainStep, Option.ite_none_right_eq_some, Option.ite_none_left_eq_some,
      Option.some.injEq] at h <;> obtain ⟨-, rfl⟩ := h
    case sigterm => exact .term _ _
    all_goals exact .refl _

theorem MembersHold.moves {os os' : Os} {ℓ h : Nat} (hm : MembersHold os ℓ h) (ht : os.Tree)
    (hmoves : Moves os os') : MembersHold os' ℓ h := by
  intro u _ hu hg hℓ
  rcases hmoves u hu with hself | ⟨hu, hgroup, hholds⟩
  · exact absurd (hself.symm.trans hg) hℓ
  · have hold := hm u (ht u hu).1 hu (hgroup ▸ hg) hℓ
    rwa [HoldsPipe, hholds]

theorem MembersHold.closePipe {os : Os} {ℓ h u : Nat} {pipe : Pipe} (hm : MembersHold os ℓ h)
    (hok : (os.proc u).group = ℓ → u ≠ ℓ → HoldsPipe (os.closePipe u pipe) u h) :
    MembersHold (os.closePipe u pipe) ℓ h := by
  intro v hv hrun hgroup hℓ
  by_cases hvu : v = u
  · subst hvu
    rw [Os.closePipe, Os.proc_set, if_pos rfl] at hgroup
    exact hok hgroup hℓ
  · rw [running_closePipe] at hrun
    simp only [HoldsPipe, Os.closePipe, Os.proc_set, if_neg hvu] at hgroup ⊢
    exact hm v hv hrun hgroup hℓ

theorem MembersHold.fork {os : Os} {ℓ h u pid : Nat} (hm : MembersHold os ℓ h) (ht : os.Tree)
    (hok : (os.proc u).group = ℓ → HoldsPipe os u h) : MembersHold (os.fork u pid) ℓ h := by
  intro v _ hrun hgroup hℓ
  simp only [HoldsPipe, Os.fork, Os.running, Os.proc_add] at hrun hgroup ⊢
  split_ifs at hrun hgroup ⊢ with hvc
  · exact hok hgroup
  · exact hm v (ht v hrun).1 hrun hgroup hℓ

theorem MembersHold.step {s t : State} {a : Action} {h : Nat} (hr : Requests s)
    (hm : MembersHold s.os (s.handler h).leader h) (hund : Undecided s h) (hok : KeepsPipes h s a)
    (hs : Agent.step s a = some t) : MembersHold t.os (s.handler h).leader h := by
  by_cases ha : ∀ act, a ≠ .proc act
  · exact hm.moves hr.tree (.agent hs ha)
  push Not at ha
  obtain ⟨act, rfl⟩ := ha
  have ⟨_, os, hos, ht⟩ := step_eq hs
  subst ht
  have hok := hok hund
  cases act with
  | fork u pid =>
    simp only [procStep, Option.ite_none_right_eq_some, Option.some.injEq] at hos
    obtain ⟨-, rfl⟩ := hos
    exact hm.fork hr.tree hok
  | exit u code =>
    simp only [procStep, Option.ite_none_right_eq_some, Option.some.injEq] at hos
    obtain ⟨-, rfl⟩ := hos
    exact hm.moves hr.tree (.die _ _ _)
  | setsid u =>
    simp only [procStep, Option.ite_none_right_eq_some, Option.some.injEq] at hos
    obtain ⟨-, rfl⟩ := hos
    exact hm.moves hr.tree (.setsid _ _)
  | closePipe u pipe =>
    simp only [procStep, Option.ite_none_right_eq_some, Option.some.injEq] at hos
    obtain ⟨-, rfl⟩ := hos
    exact hm.closePipe hok
  | wait u =>
    simp only [procStep, Option.ite_none_right_eq_some, Option.some.injEq] at hos
    obtain ⟨-, rfl⟩ := hos
    exact hm.moves hr.tree (.collect _ _)

/-! ## The fate of a group -/

theorem handlerStep_started {s t : State} {h : Nat} {act : HandlerAction}
    (hs : handlerStep s h act = some t) (h2 : 2 ≤ (s.handler h).pc.rank) :
    ((t.handler h).leader = (s.handler h).leader ∧ (t.handler h).endpoint = (s.handler h).endpoint ∧
      2 ≤ (t.handler h).pc.rank) ∧
    ((t.handler h).killer = .finished ∨ (t.handler h).exited = true →
      (s.handler h).killer = .finished ∨ (s.handler h).exited = true ∨
      act = .closeExited ∧ t.os = s.os ∨ act = .killerKill ∧ t.os = s.os.kill (s.pidOf h)) := by
  cases act <;> simp only [handlerStep, Option.ite_none_right_eq_some, Option.some.injEq] at hs
  case startFails | start =>
    obtain ⟨hg, -⟩ := hs
    simp [hg, Pc.rank] at h2
  case serve =>
    obtain ⟨hg, hs⟩ := hs
    split at hs <;> cases hs <;> simp [Pc.rank]
    exact fun hx => .inr hx
  case wait =>
    obtain ⟨-, hs⟩ := hs
    split at hs <;> cases hs <;> simp [Pc.rank]
  case deregister =>
    split at hs <;> simp only [Option.ite_none_right_eq_some, Option.some.injEq] at hs <;>
      obtain ⟨-, rfl⟩ := hs <;> simp [Pc.rank]
  all_goals obtain ⟨hg, rfl⟩ := hs
  case killerExited => simpa [hg.2] using h2
  case killerTerm => simpa using ⟨h2, .inr⟩
  all_goals simp [Pc.rank]
  all_goals simpa [Pc.rank] using h2

/-- The kill goroutine is there once the handler is in its body, and what is decided stays so. -/
theorem handlerStep_decided {s t : State} {h : Nat} {act : HandlerAction} (hs : handlerStep s h act = some t)
    (hb : (s.handler h).killer ≠ .absent → 4 ≤ (s.handler h).pc.rank) :
    ((t.handler h).killer ≠ .absent → 4 ≤ (t.handler h).pc.rank) ∧ (Undecided t h → Undecided s h) := by
  cases act <;> simp only [handlerStep, Option.ite_none_right_eq_some, Option.some.injEq] at hs
  case serve =>
    obtain ⟨hg, hs⟩ := hs
    have hk : (s.handler h).killer = .absent := by
      by_contra hk
      have := hb hk
      simp [hg, Pc.rank] at this
    split at hs <;> cases hs <;> simp [Undecided, Pc.rank, hg, hk]
  case wait =>
    obtain ⟨hg, hs⟩ := hs
    split at hs <;> cases hs <;> simp_all [Undecided, Pc.rank]
  case deregister =>
    split at hs <;> simp only [Option.ite_none_right_eq_some, Option.some.injEq] at hs <;>
      obtain ⟨hg, rfl⟩ := hs <;> simp_all [Undecided, Pc.rank]
  case killerExited =>
    obtain ⟨⟨hk | hk, -⟩, rfl⟩ := hs <;> simpa [Undecided] using hb (by simp [hk])
  all_goals
    obtain ⟨hg, rfl⟩ := hs
    simp_all [Undecided, Pc.rank]

theorem step_decided {s t : State} {a : Action} {h : Nat} (hs : Agent.step s a = some t)
    (hknown : h < s.requests) (hb : (s.handler h).killer ≠ .absent → 4 ≤ (s.handler h).pc.rank) :
    ((t.handler h).killer ≠ .absent → 4 ≤ (t.handler h).pc.rank) ∧ (Undecided t h → Undecided s h) := by
  rcases step_handler hs h with ⟨hH, -⟩ | ⟨_, _, -, rfl, -⟩ | ⟨act, rfl, -, hact⟩
  · rw [Undecided, Undecided, hH]
    exact ⟨hb, id⟩
  · exact absurd hknown (lt_irrefl _)
  · exact handlerStep_decided hact hb

theorem began_of_reach {ok : State → Action → Prop} {s : State} (hr : Reach ok .init s) (h : Nat) :
    (s.handler h).killer ≠ .absent → 4 ≤ (s.handler h).pc.rank := by
  refine hr.inv (fun s => (s.handler h).killer ≠ .absent → 4 ≤ (s.handler h).pc.rank) ?_
    (by simp [State.init, Handler.absent])
  intro s a t hb _ hs
  rcases step_handler hs h with ⟨hH, -⟩ | ⟨_, _, -, -, hH⟩ | ⟨act, -, -, hact⟩
  · rw [hH]
    exact hb
  · rw [hH]
    simp [Handler.absent]
  · exact (handlerStep_decided hact hb).1

/-- Until the fate of the group is decided its members hold their pipes, and then it is dead. -/
structure Kept (s : State) (h : Nat) : Prop where
  reqs : Requests s
  known : h < s.requests
  exec : (s.handler h).endpoint = .exec
  started : 2 ≤ (s.handler h).pc.rank
  began : (s.handler h).killer ≠ .absent → 4 ≤ (s.handler h).pc.rank
  members : Undecided s h → MembersHold s.os (s.handler h).leader h
  dead : (s.handler h).killer = .finished ∨ (s.handler h).exited = true →
    s.os.GroupDead (s.handler h).leader

/-- `exited` is closed on a dead group: the leader is collected and nothing alive holds a pipe any more. -/
theorem Kept.close {s t : State} {h : Nat} (hk : Kept s h) (hs : handlerStep s h .closeExited = some t) :
    s.os.GroupDead (s.handler h).leader := by
  by_cases hf : (s.handler h).killer = .finished
  · exact hk.dead (.inl hf)
  · simp only [handlerStep, Option.ite_none_right_eq_some] at hs
    obtain ⟨hdead, heof⟩ := (hk.reqs.each h).waited (by simp [hs.1.2, Pc.rank])
    have hheld := hk.members ⟨hf, by simp [hs.1.2, Pc.rank]⟩
    intro u hu hg
    have hℓ : u ≠ (s.handler h).leader := by
      rintro rfl
      exact hdead hu
    rcases hheld u (hk.reqs.tree u hu).1 hu hg hℓ with hp | hp
    · exact ((hk.reqs.each h).eof _ (heof hk.exec _)).2 u hu hp
    · exact ((hk.reqs.each h).eof _ (heof hk.exec _)).2 u hu hp

theorem Kept.step {s t : State} {a : Action} {h : Nat} (hk : Kept s h) (hok : KeepsPipes h s a)
    (hs : step s a = some t) : Kept t h := by
  have hreqs := hk.reqs.step hs
  have hknown := hk.known.trans_le (requests_mono hs)
  obtain ⟨hlt, hlead, -⟩ := (hk.reqs.each h).leads hk.started
  obtain ⟨hbegan, hund⟩ := step_decided hs hk.known hk.began
  have hmem : Undecided t h → MembersHold t.os (s.handler h).leader h :=
    fun ht => (hk.members (hund ht)).step hk.reqs (hund ht) hok hs
  rcases step_handler hs h with ⟨hH, -⟩ | ⟨_, _, -, rfl, -⟩ | ⟨act, rfl, -, hact⟩
  · refine ⟨hreqs, hknown, by rw [hH]; exact hk.exec, by rw [hH]; exact hk.started, hbegan, ?_, ?_⟩
    · rw [hH]
      exact hmem
    · rw [hH]
      exact fun hx => (hk.dead hx).step hlt hlead (step_os hs)
  · exact absurd hk.known (lt_irrefl _)
  · obtain ⟨⟨hleader, hend, hrank⟩, hdead⟩ := handlerStep_started hact hk.started
    refine ⟨hreqs, hknown, hend.trans hk.exec, hrank, hbegan, by rw [hleader]; exact hmem, fun hx => ?_⟩
    rw [hleader]
    rcases hdead hx with hx | hx | ⟨rfl, hos⟩ | ⟨rfl, hos⟩
    · exact (hk.dead (.inl hx)).step hlt hlead (step_os hs)
    · exact (hk.dead (.inr hx)).step hlt hlead (step_os hs)
    · rw [hos]
      exact hk.close hact
    · rw [hos]
      exact Os.GroupDead.kill rfl

/-- Where the context ends before `Wait` is over, the kill goroutine has not come to anything yet. -/
theorem undecided_of_ctxEnd {s t : State} {h : Nat} {err : CtxErr} (hinv : ExecInv s h) (hc : CommandRuns s h)
    (hs : Agent.step s (.handler h (.ctxEnd err)) = some t) : Undecided t h ∧ (t.handler h).exited ≠ true := by
  have ⟨_, _, hact⟩ := step_eq hs
  simp only [handlerStep, Option.ite_none_right_eq_some, Option.some.injEq] at hact
  obtain ⟨⟨-, hctx, -⟩, rfl⟩ := hact
  have h5 := hc.2.2
  have hx : (s.handler h).exited ≠ true := fun hx => absurd (hinv.exited hx) (by omega)
  have hf : (s.handler h).killer ≠ .finished := fun hf => (hinv.finished hf).elim hx (fun h => h hctx)
  simp only [Undecided, setHandler_handler, Function.update_self]
  exact ⟨⟨hf, by omega⟩, hx⟩

theorem Kept.ctxEnd {s t : State} {h : Nat} {err : CtxErr} (hr : Reach Any .init s) (hc : CommandRuns s h)
    (hs : Agent.step s (.handler h (.ctxEnd err)) = some t)
    (hm : MembersHold t.os (t.handler h).leader h) : Kept t h := by
  have ⟨_, hlt, hact⟩ := step_eq hs
  have hreqs := requests_of_reach hr
  obtain ⟨⟨hf, -⟩, hx⟩ := undecided_of_ctxEnd (hreqs.each h) hc hs
  have hbegan := (step_decided hs hlt (began_of_reach hr h)).1
  have hreqs' := hreqs.step hs
  simp only [handlerStep, Option.ite_none_right_eq_some, Option.some.injEq] at hact
  obtain ⟨-, rfl⟩ := hact
  exact ⟨hreqs', hlt, by simpa using hc.1, by simpa using hc.2.1, hbegan, fun _ => hm,
    fun h' => h'.elim (fun h => absurd h hf) (fun h => absurd h hx)⟩

theorem givesUp_of_waited {s : State} {h : Nat} (hr : Ready s h) (hinv : ExecInv s h)
    (hend : (s.handler h).endpoint = .exec) (hpc : (s.handler h).pc = .waited)
    (hf : (s.handler h).killer ≠ .finished) :
    ∃ t, Reach (KeepsPipes h) s t ∧ Through t h ∧ t.os = s.os ∧
      (t.handler h).leader = (s.handler h).leader := by
  have hk : (s.handler h).killer = .selecting ∨ (s.handler h).killer = .termed := by
    cases hkill : (s.handler h).killer with
    | absent => exact absurd (hinv.killer hkill hend) (by simp [hpc, Pc.rank])
    | selecting => exact .inl rfl
    | termed => exact .inr rfl
    | finished => exact absurd hkill hf
  have hex : ∃ t, exec step (KeepsPipes h) s [.handler h .closeExited, .handler h .killerExited,
      .handler h (.reply false), .handler h .deregister] = some t ∧ Through t h ∧ t.os = s.os ∧
      (t.handler h).leader = (s.handler h).leader := by
    simp [exec, step, handlerStep, State.setHandler, Through, KeepsPipes, hr.serving, hr.known, hk, hend, hpc]
  obtain ⟨t, ht, hrest⟩ := hex
  exact ⟨t, Run.of_exec step _ _ _ _ ht, hrest⟩

/-- A request whose process is dead comes to the end of its `Wait`, wherever it is before it. -/
theorem Ready.waits_of_undecided {s : State} {h : Nat} (hr : Ready s h) (h2 : 2 ≤ (s.handler h).pc.rank)
    (hund : Undecided s h) :
    ∃ t, Passes h s t ∧ (t.handler h).pc = .waited ∧ (t.handler h).killer ≠ .finished := by
  obtain ⟨hf, h6⟩ := hund
  cases hpc : (s.handler h).pc <;> simp [hpc, Pc.rank] at h2 h6
  case started =>
    have hs : handlerStep s h .register = some { s.setHandler h { s.handler h with pc := .registered } with
        children := insert (s.pidOf h) s.children } := by
      simp [handlerStep, hpc]
    have hp := Passes.single (hr.step hs) rfl
    obtain ⟨t, ht, hw, -, hk⟩ := (hr.passes hp).waits (.inl (by simp))
    exact ⟨t, hp.trans ht, hw, hk (by simpa using hf)⟩
  case waited => exact ⟨s, .refl h s, hpc, hf⟩
  case registered =>
    obtain ⟨t, ht, hw, -, hk⟩ := hr.waits (.inl hpc)
    exact ⟨t, ht, hw, hk hf⟩
  case serving =>
    obtain ⟨t, ht, hw, -, hk⟩ := hr.waits (.inr hpc)
    exact ⟨t, ht, hw, hk hf⟩

/-- A living member without a pipe: the others exit, and the request comes to its end beside it. -/
theorem outlives {s : State} {h u : Nat} (hreach : Reach Any .init s) (hserving : s.shutdown ≠ .returned)
    (hend : (s.handler h).endpoint = .exec) (h2 : 2 ≤ (s.handler h).pc.rank) (hund : Undecided s h)
    (hu : s.os.running u) (hg : (s.os.proc u).group = (s.handler h).leader) (hℓ : u ≠ (s.handler h).leader)
    (hno : ¬ HoldsPipe s.os u h) :
    ∃ t, Reach (KeepsPipes h) s t ∧ Through t h ∧ ¬ t.os.GroupDead (t.handler h).leader := by
  have hr := requests_of_reach hreach
  obtain ⟨os, hexits, hos, honly, hgroup, hholds⟩ := exists_last hr hserving hu
  have hready : Ready { s with os := os } h := by
    refine ⟨hserving, hr.known h h2, fun hrun => hℓ (honly _ hrun).symm, fun pipe v hv hp => hno ?_⟩
    rw [honly v hv, hholds] at hp
    cases pipe with
    | stdout => exact .inl hp
    | stderr => exact .inr hp
  obtain ⟨t, hpass, hpc, hf⟩ := hready.waits_of_undecided h2 hund
  have hr' := (hr.run hexits).run hpass.run
  obtain ⟨t', hrun, hth, hos', hleader⟩ := givesUp_of_waited (hready.passes hpass) (hr'.each h)
    (hpass.request.2.trans hend) hpc hf
  refine ⟨t', ((hexits.mono ?_).trans (hpass.run.mono ?_)).trans hrun, hth, fun hdead => ?_⟩
  · rintro _ _ ⟨v, code, rfl⟩ _
    trivial
  · rintro _ _ ⟨act, rfl⟩ _
    trivial
  · rw [hos', hleader, hpass.request.1] at hdead
    refine hdead u (hpass.running hos) ?_
    rw [hpass.procs u hos]
    exact hgroup.trans hg

theorem outlives_of_not_hold {s : State} {h : Nat} (hreach : Reach Any .init s) (hserving : s.shutdown ≠ .returned)
    (hend : (s.handler h).endpoint = .exec) (h2 : 2 ≤ (s.handler h).pc.rank) (hund : Undecided s h)
    (hnot : ¬ MembersHold s.os (s.handler h).leader h) :
    ∃ t, Reach (KeepsPipes h) s t ∧ Through t h ∧ ¬ t.os.GroupDead (t.handler h).leader := by
  simp only [MembersHold, not_forall] at hnot
  obtain ⟨u, -, hu, hg, hℓ, hno⟩ := hnot
  exact outlives hreach hserving hend h2 hund hu hg hℓ hno

theorem not_hold_of_not_keeps {s t : State} {a : Action} {h : Nat} (hr : Requests s)
    (h2 : 2 ≤ (s.handler h).pc.rank) (hs : step s a = some t) (hnot : ¬ KeepsPipes h s a) :
    t.handler = s.handler ∧ t.shutdown = s.shutdown ∧ Undecided s h ∧
      ¬ MembersHold t.os (s.handler h).leader h := by
  have hlt := ((hr.each h).leads h2).1
  simp only [KeepsPipes, not_forall] at hnot
  obtain ⟨hund, hnot⟩ := hnot
  cases a with
  | proc act =>
    have ⟨_, os, hos, ht⟩ := step_eq hs
    subst ht
    refine ⟨rfl, rfl, hund, fun hm => hnot ?_⟩
    cases act with
    | closePipe u pipe =>
      simp only [procStep, Option.ite_none_right_eq_some, Option.some.injEq] at hos
      obtain ⟨hu, rfl⟩ := hos
      intro hg hℓ
      refine hm u (hr.tree u hu).1 ((running_closePipe _ _ _ _).mpr hu) ?_ hℓ
      rw [Os.closePipe, Os.proc_set, if_pos rfl]
      exact hg
    | fork u pid =>
      simp only [procStep, Option.ite_none_right_eq_some, Option.some.injEq] at hos
      obtain ⟨-, rfl⟩ := hos
      intro hg
      have hchild := hm s.os.count (Nat.lt_succ_self _)
      simp only [Os.running, HoldsPipe, Os.fork, Os.proc_add, if_true] at hchild
      exact hchild trivial hg (by omega)
    | _ => trivial
  | _ => exact absurd trivial hnot

/-- **What an abandoned command leaves running.** Say the context of an `/exec` request ends before its
`Wait` is over. Where every living member below the leader then holds a pipe of the request, and the run
keeps to `KeepsPipes`, no member of the group is alive once handler and kill goroutine are through. A
member without a pipe when the context ends, or after a step that does not keep to it, can outlive them. -/
theorem abandoned_group (h : Nat) :
    (∀ s₁ s₂ s₃ err, Reach Any .init s₁ → CommandRuns s₁ h → step s₁ (.handler h (.ctxEnd err)) = some s₂ →
      MembersHold s₂.os (s₂.handler h).leader h → Reach (KeepsPipes h) s₂ s₃ → Through s₃ h →
      s₃.os.GroupDead (s₃.handler h).leader) ∧
    (∀ s₁ s₂ err, Reach Any .init s₁ → CommandRuns s₁ h → step s₁ (.handler h (.ctxEnd err)) = some s₂ →
      ¬ MembersHold s₂.os (s₂.handler h).leader h →
      ∃ u, Reach (KeepsPipes h) s₂ u ∧ Through u h ∧ ¬ u.os.GroupDead (u.handler h).leader) ∧
    (∀ s t a, Reach Any .init s → (s.handler h).endpoint = .exec → 2 ≤ (s.handler h).pc.rank →
      (s.handler h).ctx ≠ none → step s a = some t → ¬ KeepsPipes h s a →
      ∃ u, Reach (KeepsPipes h) t u ∧ Through u h ∧ ¬ u.os.GroupDead (u.handler h).leader) := by
  refine ⟨?_, ?_, ?_⟩
  · intro s₁ s₂ s₃ err h₁ hc hs hm hrun hth
    have hk := hrun.inv (fun s => Kept s h) (fun _ _ _ hk hok hs => hk.step hok hs) (Kept.ctxEnd h₁ hc hs hm)
    exact hk.dead (.inl hth.2)
  · intro s₁ s₂ err h₁ hc hs hnot
    have hund := (undecided_of_ctxEnd ((requests_of_reach h₁).each h) hc hs).1
    obtain ⟨hserving, -, hact⟩ := step_eq hs
    have hreach := h₁.tail trivial hs
    simp only [handlerStep, Option.ite_none_right_eq_some, Option.some.injEq] at hact
    obtain ⟨-, rfl⟩ := hact
    exact outlives_of_not_hold hreach hserving (by simpa using hc.1) (by simpa using hc.2.1) hund hnot
  · intro s t a hr hend h2 _ hs hnot
    have hreqs := requests_of_reach hr
    obtain ⟨hH, hshut, hund, hm⟩ := not_hold_of_not_keeps hreqs h2 hs hnot
    have hserving := (step_eq hs).1
    refine outlives_of_not_hold (hr.tail trivial hs) (by rw [hshut]; exact hserving) ?_ ?_ ?_ ?_
    · rw [hH]
      exact hend
    · rw [hH]
      exact h2
    · rw [Undecided, hH]
      exact hund
    · rw [hH]
      exact hm

def commandForks : List Action :=
  [.request .exec false, .handler 0 (.start 7), .handler 0 .register, .handler 0 .serve,
   .proc (.fork 0 8)]

/-- Its caller is gone: the shell obeys the SIGTERM, the child holds the pipes until the SIGKILL. -/
def killedInTime : List Action :=
  [.handler 0 .killerTerm, .proc (.exit 0 (-1)), .handler 0 .killerKill, .handler 0 (.eof .stdout),
   .handler 0 (.eof .stderr), .handler 0 .wait, .handler 0 .closeExited, .handler 0 (.reply false),
   .handler 0 .deregister]

/-- The child writes to a file and ignores the SIGTERM: the pipes are at EOF once the shell is gone. -/
def redirectedChild : List Action :=
  [.proc (.closePipe 1 .stdout), .proc (.closePipe 1 .stderr), .handler 0 .killerTerm,
   .proc (.exit 0 (-1)), .handler 0 (.eof .stdout), .handler 0 (.eof .stderr), .handler 0 .wait]

/-- The kill goroutine wakes up on `exited` and not on its timer, and the handler ends. -/
def givesUp : List Action :=
  [.handler 0 .closeExited, .handler 0 .killerExited, .handler 0 (.reply false), .handler 0 .deregister]

theorem abandoned_group_commandForks :
    (∃ s, Reach Any .init s ∧ Through s 0 ∧ s.os.count = 2 ∧ s.os.GroupDead (s.handler 0).leader) ∧
    (∃ s t, Reach Any .init s ∧ Reach (KeepsPipes 0) s t ∧ Through t 0 ∧
      ¬ t.os.GroupDead (t.handler 0).leader) ∧
    ∃ s t, Reach Any .init s ∧ Reach (KeepsPipes 0) s t ∧ Through t 0 ∧
      ¬ t.os.GroupDead (t.handler 0).leader := by
  refine ⟨?_, ?_, ?_⟩
  · obtain ⟨s₁, h₁, hc, s₂, hs, hm, s₃, he, hth, hcount⟩ := Run.exists_of_exec step Any
      (fun s₁ => CommandRuns s₁ 0 ∧ ∃ s₂ ∈ step s₁ (.handler 0 (.ctxEnd .canceled)),
        MembersHold s₂.os (s₂.handler 0).leader 0 ∧
        ∃ s₃ ∈ exec step (KeepsPipes 0) s₂ killedInTime, Through s₃ 0 ∧ s₃.os.count = 2)
      .init commandForks (by decide)
    have hrun := Run.of_exec step _ _ _ _ he
    exact ⟨s₃, (Run.tail h₁ trivial hs).trans (hrun.mono fun _ _ _ => trivial), hth, hcount,
      (abandoned_group 0).1 s₁ s₂ s₃ .canceled h₁ hc hs hm hrun hth⟩
  · -- The child has both redirected when the caller goes away.
    obtain ⟨s, hr, hc, t, hs, hnot⟩ := Run.exists_of_exec step Any
      (fun s => CommandRuns s 0 ∧ ∃ t ∈ step s (.handler 0 (.ctxEnd .canceled)),
        ¬ MembersHold t.os (t.handler 0).leader 0)
      .init (commandForks ++ redirectedChild.take 2) (by decide)
    obtain ⟨u, hu, hth, hdead⟩ := (abandoned_group 0).2.1 s t .canceled hr hc hs hnot
    exact ⟨t, u, Run.tail hr trivial hs, hu, hth, hdead⟩
  · -- It redirects the second one after that.
    obtain ⟨s, hr, hend, h2, hctx, t, hs, hnot⟩ := Run.exists_of_exec step Any
      (fun s => (s.handler 0).endpoint = .exec ∧ 2 ≤ (s.handler 0).pc.rank ∧ (s.handler 0).ctx ≠ none ∧
        ∃ t ∈ step s (.proc (.closePipe 1 .stderr)), ¬ KeepsPipes 0 s (.proc (.closePipe 1 .stderr)))
      .init (commandForks ++ .handler 0 (.ctxEnd .canceled) :: redirectedChild.take 1) (by decide)
    obtain ⟨u, hu, hth, hdead⟩ := (abandoned_group 0).2.2 s t _ hr hend h2 hctx hs hnot
    exact ⟨t, u, Run.tail hr trivial hs, hu, hth, hdead⟩

theorem redirected_child_survives :
    ∃ s₁ s₂ s₃, Reach Any .init s₁ ∧ CommandRuns s₁ 0 ∧
      step s₁ (.handler 0 (.ctxEnd .canceled)) = some s₂ ∧ Reach Any s₂ s₃ ∧ Through s₃ 0 ∧
      s₃.os.running 1 ∧ (s₃.os.proc 1).group = (s₃.handler 0).leader := by
  obtain ⟨s₁, h₁, hc, s₂, hs, s₃, he, hth⟩ := Run.exists_of_exec step Any
    (fun s₁ => CommandRuns s₁ 0 ∧ ∃ s₂ ∈ step s₁ (.handler 0 (.ctxEnd .canceled)),
      ∃ s₃ ∈ exec step Any s₂ (redirectedChild ++ givesUp),
        Through s₃ 0 ∧ s₃.os.running 1 ∧ (s₃.os.proc 1).group = (s₃.handler 0).leader)
    .init commandForks (by decide)
  exact ⟨s₁, s₂, s₃, h₁, hc, hs, Run.of_exec step _ _ _ _ he, hth⟩

end ComputeArmada.Agent
