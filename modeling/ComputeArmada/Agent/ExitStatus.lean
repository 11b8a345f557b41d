import ComputeArmada.Agent.Requests

/-!
# Whose exit status an answer reports

Every child of the agent has one waiter that may collect it: the handler that started it, or the orphan
reaper. The reaper tells them apart by the pid's entry in `children`, which is made after the process is
started and, by `exec`, taken back after the process is collected and the pid free again.

* `Owned` : what the reaper and `cmd.Start` need of the entries and of the reaper's last lookup;
* `Own` : the process of a request, in every state of a run that keeps to it (`Own.step`);
* `steal` : what can follow a step that does not;
* `exit_statuses` : every code reported is the started process's own, in these runs and not beyond;
* `reaped_before_registered` : a command that exits before its pid is stored.
-/

namespace ComputeArmada.Agent
open Runs

/-- The handler has a process whose `Wait` has not returned. -/
def Awaiting (s : State) (h : Nat) : Prop := 2 ≤ (s.handler h).pc.rank ∧ (s.handler h).pc.rank < 5

instance (s : State) (h : Nat) : Decidable (Awaiting s h) := inferInstanceAs (Decidable (_ ∧ _))

/-! ## Who collects what -/

/-- The pid the reaper is about to look up in `children`. -/
def Reaper.looksUp : Reaper → Option Nat
  | .scanned (pid :: _) => some pid
  | _ => none

/-- The pid the reaper found unowned and is about to wait for. -/
def Reaper.waitsFor : Reaper → Option Nat
  | .unowned pid _ => some pid
  | _ => none

/-- When the reaper looks a pid up, the handler waiting for it, if one is, has its entry in `children`;
and no process is started under the pid the reaper is about to wait for. -/
def Owned (s : State) (a : Action) : Prop :=
  (a = .reaper .check → ∀ h < s.requests, Awaiting s h → s.reaper.looksUp = some (s.pidOf h) →
    s.pidOf h ∈ s.children) ∧
  ∀ pid ∈ a.starts, s.reaper.waitsFor ≠ some pid

instance (s : State) (a : Action) : Decidable (Owned s a) := inferInstanceAs (Decidable (_ ∧ _))

/-- What of it one request relies on. -/
def OwnedBy (h : Nat) (s : State) (a : Action) : Prop :=
  (a = .reaper .check → Awaiting s h → s.reaper.looksUp = some (s.pidOf h) → s.pidOf h ∈ s.children) ∧
  ∀ pid, a = .handler h (.start pid) → s.reaper.waitsFor ≠ some pid

theorem Owned.each {s : State} {a : Action} (hr : Requests s) (hok : Owned s a) (h : Nat) : OwnedBy h s a :=
  ⟨fun ha haw hl => hok.1 ha h (hr.known h haw.1) haw hl, fun pid ha => hok.2 pid (ha ▸ rfl)⟩

/-- The process of request `h`, in every state reached while the entries of `children` are right. -/
structure Own (s : State) (h : Nat) : Prop where
  unowned : Awaiting s h → s.reaper.waitsFor ≠ some (s.pidOf h)
  kept : Awaiting s h → (s.os.proc (s.handler h).leader).status ≠ .collected
  waited : 5 ≤ (s.handler h).pc.rank → ¬ s.os.running (s.handler h).leader ∧
    (s.handler h).code = (s.os.proc (s.handler h).leader).code
  reported : ∀ r, (s.handler h).reported = some r → 5 ≤ (s.handler h).pc.rank ∧ r.1 = (s.handler h).code
  entry : ∀ pid, s.started pid = some h → 2 ≤ (s.handler h).pc.rank ∧ s.pidOf h = pid

theorem Own.init (h : Nat) : Own .init h := by
  constructor <;> simp [State.init, Handler.absent, Pc.rank, Awaiting]

/-- The handler neither starts nor waits, and nobody collects the process it is to wait for. -/
theorem Own.move {s t : State} {e : Os.Event} {h : Nat} (ho : Own s h) (hi : ExecInv s h)
    (hos : Os.Step s.os e t.os) (hH : Same (s.handler h) (t.handler h))
    (hcol : Awaiting s h → e ≠ .collects (s.handler h).leader)
    (hun : Awaiting s h → t.reaper.waitsFor ≠ some (s.pidOf h))
    (hst : ∀ pid, t.started pid = some h → 2 ≤ (s.handler h).pc.rank ∧ s.pidOf h = pid) : Own t h := by
  have haw : Awaiting t h ↔ Awaiting s h := by
    have h2 := hH.started
    have h5 := hH.waited
    simp only [Awaiting]
    omega
  have hpid : 2 ≤ (s.handler h).pc.rank → t.pidOf h = s.pidOf h := fun h2 => by
    rw [State.pidOf, State.pidOf, hH.leader, hos.later.pid _ (hi.leads h2).1]
  constructor
  · rw [haw]
    intro ha
    rw [hpid ha.1]
    exact hun ha
  · rw [haw, hH.leader]
    intro ha hc
    rcases hos.collected (hi.leads ha.1).1 hc with hc | he
    · exact ho.kept ha hc
    · exact hcol ha he
  · rw [hH.waited, hH.leader, hH.code]
    intro h5
    obtain ⟨hdead, hcode⟩ := ho.waited h5
    obtain ⟨hdead', hcode'⟩ := hos.later.dead _ (hi.leads (by omega)).1 hdead
    exact ⟨hdead', hcode.trans hcode'.symm⟩
  · intro r hr
    rw [hH.waited, hH.code]
    exact (hH.reported r hr).elim (ho.reported r) id
  · intro pid hp
    obtain ⟨h2, hpid'⟩ := hst pid hp
    exact ⟨hH.started.mpr h2, (hpid h2).trans hpid'⟩

theorem Own.start {s t : State} {h pid : Nat} (ho : Own s h)
    (hs : handlerStep s h (.start pid) = some t) (hw : s.reaper.waitsFor ≠ some pid) : Own t h := by
  simp only [handlerStep, Option.ite_none_right_eq_some, Option.some.injEq] at hs
  obtain ⟨⟨hpc, -⟩, rfl⟩ := hs
  have hproc : (s.os.spawn pid ((s.handler h).pipes h)).proc s.os.count =
      { pid, parent := none, group := s.os.count, status := .running, code := 0,
        holds := fun _ => (s.handler h).pipes h, termed := false } := by
    rw [Os.spawn, Os.proc_add, if_pos rfl]
  constructor <;> simp only [setHandler_handler, Function.update_self, Awaiting, State.pidOf, Pc.rank, hproc]
  · exact fun _ => hw
  · simp
  · simp
  · intro r hr
    have := (ho.reported r hr).1
    simp [hpc, Pc.rank] at this
  · intro p hp
    have := (ho.entry p hp).1
    simp [hpc, Pc.rank] at this

theorem Own.wait {s t : State} {h : Nat} (ho : Own s h) (hs : handlerStep s h .wait = some t) :
    Own t h := by
  obtain ⟨⟨hpc, -, hdead⟩, ⟨hz, rfl⟩ | ⟨hz, -⟩⟩ := wait_inv hs
  · have hproc : (s.os.collect (s.handler h).leader).proc (s.handler h).leader =
        { s.os.proc (s.handler h).leader with status := .collected } := by
      rw [Os.collect, Os.proc_set, if_pos rfl]
    constructor <;>
      simp only [setHandler_handler, Function.update_self, Awaiting, State.pidOf, Pc.rank, hproc, Os.running]
    · simp
    · simp
    · simp
    · intro r hr
      have := (ho.reported r hr).1
      simp [hpc, Pc.rank] at this
    · exact fun p hp => ⟨by omega, (ho.entry p hp).2⟩
  · -- Its own `Wait` is the only one that collects the leader, so it is still a zombie.
    have hk := ho.kept (by simp [Awaiting, hpc, Pc.rank])
    cases hst : (s.os.proc (s.handler h).leader).status with
    | running => exact absurd hst hdead
    | zombie => exact absurd hst hz
    | collected => exact absurd hst hk

/-! ## One step -/

theorem waitsFor_step {s t : State} {a : Action} (hs : step s a = some t) {pid : Nat}
    (hw : t.reaper.waitsFor = some pid) :
    s.reaper.waitsFor = some pid ∨ a = .reaper .check ∧ s.reaper.looksUp = some pid ∧ pid ∉ s.children := by
  have ⟨_, h⟩ := step_eq hs
  cases a with
  | request => dsimp only at h; subst h; exact .inl hw
  | handler k act => rw [(handlerStep_frame h.2).2.2.1] at hw; exact .inl hw
  | signal pid sig => rw [signalProcess_frame h] at hw; exact .inl hw
  | main act => rw [(mainStep_frame h).2.2.2.2.1] at hw; exact .inl hw
  | proc act => obtain ⟨os, -, rfl⟩ := h; exact .inl hw
  | reaper act =>
    cases act with
    | scan =>
      simp only [reaperStep, Option.ite_none_right_eq_some, Option.some.injEq] at h
      obtain ⟨-, rfl⟩ := h
      cases hz : s.os.zombiesOf <;> simp [Reaper.waitsFor] at hw
    | check =>
      simp only [reaperStep] at h
      split at h <;> cases h
      · cases hw
      · rename_i p rest hr
        dsimp only at hw
        split at hw
        · cases hw
        · simp only [Reaper.waitsFor, Option.some.injEq] at hw
          subst hw
          exact .inr ⟨rfl, by rw [hr]; rfl, ‹_›⟩
    | collect =>
      simp only [reaperStep] at h
      split at h
      · split at h <;> cases h <;> cases hw
      · cases h

theorem started_step {s t : State} {a : Action} (hs : step s a = some t) {pid h : Nat}
    (hp : t.started pid = some h) :
    s.started pid = some h ∨ a = .handler h .serve ∧ (s.handler h).pc = .registered ∧ s.pidOf h = pid := by
  have ⟨_, h'⟩ := step_eq hs
  cases a with
  | request => dsimp only at h'; subst h'; exact .inl hp
  | signal pid sig => rw [signalProcess_frame h'] at hp; exact .inl hp
  | main act => rw [(mainStep_frame h').2.2.1] at hp; exact .inl hp
  | proc act => obtain ⟨os, -, rfl⟩ := h'; exact .inl hp
  | reaper act => rw [(reaperStep_frame h').2.2.1] at hp; exact .inl hp
  | handler k act =>
    obtain ⟨-, h'⟩ := h'
    cases act <;> simp only [handlerStep, Option.ite_none_right_eq_some, Option.some.injEq] at h'
    case serve =>
      obtain ⟨hg, h'⟩ := h'
      split at h' <;> cases h'
      · exact .inl hp
      · dsimp only at hp
        by_cases hpid : pid = s.pidOf k
        · subst hpid
          rw [Function.update_self, Option.some.injEq] at hp
          subst hp
          exact .inr ⟨rfl, hg, rfl⟩
        · rw [Function.update_of_ne hpid] at hp
          exact .inl hp
    case deregister =>
      split at h' <;> simp only [Option.ite_none_right_eq_some, Option.some.injEq] at h' <;>
        obtain ⟨-, rfl⟩ := h' <;> exact .inl hp
    case wait =>
      obtain ⟨-, h'⟩ := h'
      split at h' <;> cases h' <;> exact .inl hp
    all_goals
      obtain ⟨-, rfl⟩ := h'
      exact .inl hp

/-- Nobody else collects the process of a handler that is to wait for it. -/
theorem Own.not_collects {s t : State} {a : Action} {h : Nat} (hr : Requests s) (ho : Own s h)
    (hs : step s a = some t) (hne : ∀ act, a ≠ .handler h act) (haw : Awaiting s h) :
    a.event s ≠ .collects (s.handler h).leader := by
  have ⟨_, h'⟩ := step_eq hs
  intro he
  cases a with
  | handler k act =>
    cases act <;> simp only [Action.event, reduceCtorEq] at he
    case wait =>
      have hk := (wait_inv h'.2).1.1
      split at he <;> simp only [Os.Event.collects.injEq, reduceCtorEq] at he
      exact hne _ (by rw [hr.inj k h (by simp [hk, Pc.rank]) haw.1 he])
  | reaper act =>
    cases act <;> simp only [Action.event, reduceCtorEq] at he
    case collect =>
      split at he
      · rename_i pid rest hreap
        cases hw : s.os.waitable pid <;>
          simp only [hw, Option.elim, Os.Event.collects.injEq, reduceCtorEq] at he
        refine ho.unowned haw ?_
        rw [hreap, Reaper.waitsFor, State.pidOf, ← he, (Os.waitable_spec hw).2.2]
      · cases he
  | proc act =>
    cases act <;> simp only [Action.event, Os.Event.collects.injEq, reduceCtorEq] at he
    simp only [procStep, Option.ite_none_right_eq_some, Option.some.injEq] at h'
    obtain ⟨-, ⟨⟨-, hpar⟩, -⟩, -⟩ := h'
    rw [he] at hpar
    exact hpar ((hr.each h).leads haw.1).2.2
  | _ => cases he

theorem Own.step {s t : State} {a : Action} {h : Nat} (hr : Requests s) (ho : Own s h) (hok : OwnedBy h s a)
    (hs : step s a = some t) : Own t h := by
  have hun : Awaiting s h → t.reaper.waitsFor ≠ some (s.pidOf h) := by
    intro haw hw
    rcases waitsFor_step hs hw with hw | ⟨rfl, hl, hnot⟩
    · exact ho.unowned haw hw
    · exact hnot (hok.1 rfl haw hl)
  have hst : ∀ pid, t.started pid = some h → 2 ≤ (s.handler h).pc.rank ∧ s.pidOf h = pid := by
    intro pid hp
    rcases started_step hs hp with hp | ⟨-, hpc, hpid⟩
    · exact ho.entry pid hp
    · exact ⟨by simp [hpc, Pc.rank], hpid⟩
  rcases step_handler hs h with ⟨hH, hne⟩ | ⟨_, _, rfl, rfl, hH⟩ | ⟨act, rfl, -, hact⟩
  · exact ho.move (hr.each h) (step_os hs) (hH ▸ .refl _) (ho.not_collects hr hs hne) hun hst
  · have hnone : ∀ pid, t.started pid ≠ some s.requests := fun pid hp =>
      absurd (hr.known _ (hst pid hp).1) (lt_irrefl _)
    constructor <;> simp [hH, Pc.rank, Awaiting, Handler.absent, hnone]
  · by_cases hstart : ∃ pid, act = .start pid
    · obtain ⟨pid, rfl⟩ := hstart
      exact ho.start hact (hok.2 pid rfl)
    by_cases hwait : act = .wait
    · subst hwait
      exact ho.wait hact
    · refine ho.move (hr.each h) (step_os hs) (handlerStep_same hact (fun pid hp => hstart ⟨pid, hp⟩) hwait)
        ?_ hun hst
      intro _ he
      cases act <;> simp [Action.event] at he hwait hstart

theorem own_of_reach {s : State} (hr : Reach Owned .init s) (h : Nat) : Own s h := by
  refine hr.inv_of Requests (fun s => Own s h) ?_ ?_ .init (.init h)
  · exact fun _ _ _ hr _ hs => Requests.step hr hs
  · exact fun _ _ _ hr ho hok hs => Own.step hr ho (hok.each hr h) hs

/-! ## Codes that are the process's own -/

/-- The process of request `h` is dead and `code` is its exit code. -/
def ExitedWith (s : State) (h : Nat) (code : Int) : Prop :=
  ¬ s.os.running (s.handler h).leader ∧ code = (s.os.proc (s.handler h).leader).code

instance (s : State) (h : Nat) (code : Int) : Decidable (ExitedWith s h code) :=
  inferInstanceAs (Decidable (_ ∧ _))

/-- Somebody else has collected the process that the handler is to wait for. -/
def Stolen (s : State) (h : Nat) : Prop :=
  Awaiting s h ∧ (s.os.proc (s.handler h).leader).status = .collected

instance (s : State) (h : Nat) : Decidable (Stolen s h) := inferInstanceAs (Decidable (_ ∧ _))

/-- Every answer is the exit code of the process the request started, and no status is stolen. -/
structure ExitsOwn (s : State) : Prop where
  exec : ∀ h code timedOut, (s.handler h).reported = some (code, timedOut) → ExitedWith s h code
  status : ∀ pid code, processStatus s pid = some (some code) →
    ∃ h, s.started pid = some h ∧ s.pidOf h = pid ∧ ExitedWith s h code
  kept : ∀ h, ¬ Stolen s h

theorem exitsOwn {s : State} (ho : ∀ h, Own s h) : ExitsOwn s where
  exec h code timedOut hrep := by
    obtain ⟨h5, hcode⟩ := (ho h).reported _ hrep
    obtain ⟨hdead, hown⟩ := (ho h).waited h5
    exact ⟨hdead, hcode.trans hown⟩
  status pid code hst := by
    rw [processStatus, Option.map_eq_some_iff] at hst
    obtain ⟨h, hent, hst⟩ := hst
    split at hst
    · rename_i hdone
      obtain ⟨hdead, hown⟩ := (ho h).waited (by simp [hdone, Pc.rank])
      exact ⟨h, hent, ((ho h).entry pid hent).2, hdead, by rw [← hown, Option.some.inj hst]⟩
    · cases hst
  kept h hstolen := (ho h).kept hstolen.1 hstolen.2

/-! ## The way to a stolen status -/

theorem Reaper.waitsFor_eq {r : Reaper} {pid : Nat} (h : r.waitsFor = some pid) :
    ∃ rest, r = .unowned pid rest := by
  cases r with
  | unowned p rest => cases h; exact ⟨rest, rfl⟩
  | _ => cases h

theorem steal_zombie {s : State} {h : Nat} (hr : Requests s) (hserving : s.shutdown ≠ .returned)
    (haw : Awaiting s h) (hw : s.reaper.waitsFor = some (s.pidOf h))
    (hz : s.os.zombie (s.handler h).leader) : ∃ u, Reach Any s u ∧ Stolen u h := by
  obtain ⟨rest, hreap⟩ := Reaper.waitsFor_eq hw
  obtain ⟨hlt, -, hroot⟩ := (hr.each h).leads haw.1
  have hwait : s.os.waitable (s.pidOf h) = some (s.handler h).leader := hr.pids.waitable hlt hz hroot
  have hs : step s (.reaper .collect) =
      some { s with reaper := .scanned rest, os := s.os.collect (s.handler h).leader } := by
    rw [step, if_neg hserving]
    simp only [reaperStep, hreap, hwait]
  exact ⟨_, .single trivial hs, haw, by simp [Os.collect, Os.proc_set]⟩

/-- A reaper about to wait for the pid of a process whose handler waits too: the process may exit now. -/
theorem steal {s : State} {h : Nat} (hr : Requests s) (hserving : s.shutdown ≠ .returned)
    (haw : Awaiting s h) (hw : s.reaper.waitsFor = some (s.pidOf h)) : ∃ u, Reach Any s u ∧ Stolen u h := by
  cases hst : (s.os.proc (s.handler h).leader).status with
  | collected => exact ⟨s, .refl s, haw, hst⟩
  | zombie => exact steal_zombie hr hserving haw hw hst
  | running =>
    have hs : step s (.proc (.exit (s.handler h).leader 0)) =
        some { s with os := s.os.exit (s.handler h).leader 0 } := by
      simp [step, hserving, procStep, Os.running, hst]
    have hlater := (step_os hs).later
    have hpid := hlater.pid _ ((hr.each h).leads haw.1).1
    obtain ⟨u, hu, hstolen⟩ := steal_zombie (hr.step hs) hserving haw
      (hw.trans (by rw [State.pidOf, State.pidOf, hpid])) (by
        simp only [Os.zombie, Os.exit, Os.die]
        split_ifs <;> rfl)
    exact ⟨u, .head trivial hs hu, hstolen⟩

theorem steal_of_not_owned {s t : State} {a : Action} (hr : Requests s) (hs : step s a = some t)
    (hnot : ¬ Owned s a) : ∃ u h, Reach Any t u ∧ Stolen u h := by
  have ⟨hserving, hact⟩ := step_eq hs
  by_cases hcheck : a = .reaper .check → ∀ h < s.requests, Awaiting s h →
      s.reaper.looksUp = some (s.pidOf h) → s.pidOf h ∈ s.children
  · -- A start under the pid the reaper is about to wait for.
    have hstart : ∃ pid ∈ a.starts, s.reaper.waitsFor = some pid := by
      by_contra hno
      push Not at hno
      exact hnot ⟨hcheck, hno⟩
    obtain ⟨pid, hp, hw⟩ := hstart
    obtain ⟨k, rfl⟩ : ∃ k, a = .handler k (.start pid) := by
      cases a with
      | handler k act => cases act <;> cases hp; exact ⟨k, rfl⟩
      | _ => cases hp
    have hreqs := hr.step hs
    simp only [handlerStep, Option.ite_none_right_eq_some, Option.some.injEq] at hact
    obtain ⟨-, -, rfl⟩ := hact
    refine (steal (h := k) hreqs hserving ?_ ?_).imp fun u hu => ⟨k, hu⟩
    · simp [Awaiting, Pc.rank]
    · have hreaper : ∀ H, (s.setHandler k H).reaper = s.reaper := fun _ => rfl
      simp [State.pidOf, Os.spawn, Os.proc_add, hreaper, hw]
  · -- A lookup of a pid whose entry is missing.
    push Not at hcheck
    obtain ⟨rfl, h, -, haw, hl, hmem⟩ := hcheck
    have hreqs := hr.step hs
    obtain ⟨rest, hreap⟩ : ∃ rest, s.reaper = .scanned (s.pidOf h :: rest) := by
      cases hre : s.reaper with
      | scanned pids =>
        cases pids with
        | nil => rw [hre] at hl; cases hl
        | cons pid rest => rw [hre] at hl; cases hl; exact ⟨rest, rfl⟩
      | _ => rw [hre] at hl; cases hl
    simp only [reaperStep, hreap, if_neg hmem, Option.some.injEq] at hact
    subst hact
    exact (steal hreqs hserving haw rfl).imp fun u hu => ⟨h, hu⟩

/-- **Exit statuses.** In a run that keeps to `Owned` every code reported is that of the process the
request started and the reaper takes none a handler waits for. A step that does not keep to it can be
followed by a run to a state where the reaper has. -/
theorem exit_statuses (s : State) :
    (Reach Owned .init s → ExitsOwn s) ∧
    (∀ t a, Reach Any .init s → step s a = some t → ¬ Owned s a → ∃ u h, Reach Any t u ∧ Stolen u h) :=
  ⟨fun hr => exitsOwn (own_of_reach hr),
    fun _ _ hr hs hnot => steal_of_not_owned (requests_of_reach hr) hs hnot⟩

/-- A command whose pid is stored and a detached one, next to the orphan the reaper is there for. -/
def twoRequests : List Action :=
  [.request .exec false, .request .processStart false, .handler 0 (.start 7), .handler 0 .register,
   .handler 1 (.start 8), .handler 1 .register, .handler 0 .serve, .handler 1 .serve,
   .proc (.exit 0 3), .proc (.exit 1 4), .reaper .scan, .reaper .check, .reaper .check, .reaper .check,
   .handler 0 (.eof .stdout), .handler 0 (.eof .stderr), .handler 0 .wait, .handler 0 .closeExited,
   .handler 0 (.reply false), .handler 1 .wait, .handler 1 .deregister, .handler 1 .closeDone]

/-- A command that exits before its pid is stored, while the reaper looks. -/
def exitsEarly : List Action :=
  [.request .exec false, .handler 0 (.start 7), .proc (.exit 0 0), .reaper .scan]

theorem exit_statuses_twoRequests :
    (∃ s, Reach Owned .init s ∧ (s.handler 0).reported = some (3, false) ∧
      processStatus s 8 = some (some 4) ∧ ExitsOwn s) ∧
    ∃ s h, Reach Any .init s ∧ Stolen s h := by
  constructor
  · obtain ⟨s, hr, hrep, hst⟩ := Run.exists_of_exec step Owned
      (fun s => (s.handler 0).reported = some (3, false) ∧ processStatus s 8 = some (some 4))
      .init twoRequests (by decide)
    exact ⟨s, hr, hrep, hst, (exit_statuses s).1 hr⟩
  · obtain ⟨s, hr, t, hs, hnot⟩ := Run.exists_of_exec step Any
      (fun s => ∃ t ∈ step s (.reaper .check), ¬ Owned s (.reaper .check)) .init exitsEarly (by decide)
    obtain ⟨u, h, hu, hstolen⟩ := (exit_statuses s).2 t _ hr hs hnot
    exact ⟨u, h, (Run.tail hr trivial hs).trans hu, hstolen⟩

/-- The response says `-1` of a command that exited with 0. -/
theorem reaped_before_registered : ∃ s, Reach Any .init s ∧
    (s.handler 0).reported = some (-1, false) ∧ ¬ ExitedWith s 0 (-1) :=
  Run.exists_of_exec step Any (fun s => (s.handler 0).reported = some (-1, false) ∧ ¬ ExitedWith s 0 (-1))
    .init (exitsEarly ++ [.reaper .check, .reaper .collect, .handler 0 .register, .handler 0 .serve,
      .handler 0 (.eof .stdout), .handler 0 (.eof .stderr), .handler 0 .wait, .handler 0 .closeExited,
      .handler 0 (.reply false)]) (by decide)

end ComputeArmada.Agent
