import ComputeArmada.Agent.Abandon
import ComputeArmada.Agent.ExitStatus

/-!
# What a pid goes on to mean

`/process/start` answers with the pid of the process, and that is all the caller has of it. The agent keeps an
entry for it in `started` for ever, and the system hands the pid out again.

* `Handle` : what a pid means to `/process/status`, `/process/logs`, `/process/signal` and `/process/waitport`;
* `Unreused` : no group is led under the pid of an entry but the one it was made for;
* `Handles` : all entries, in every state of a run that keeps to it (`Handles.step`);
* `handle_keeps` : a pid keeps meaning the process it was answered for;
* `signal_after_reuse` : a signal to a process that is gone, and whom it reaches.
-/

namespace ComputeArmada.Agent
open Runs

/-! ## Calls that name a pid -/

/-- Whom `kill(-number, sig)` reaches, whatever the signal. -/
def Reached (os : Os) (number u : Nat) : Prop := os.running u ∧ os.pgid u = number

instance (os : Os) (number u : Nat) : Decidable (Reached os number u) := inferInstanceAs (Decidable (_ ∧ _))

/-- What `/process/logs` answers, where `logs` is what the log file of each request holds. -/
def processLogs (s : State) (logs : Nat → List UInt8) (pid : Nat) : Option (List UInt8) := (s.started pid).map logs

theorem signalProcess_reached {s t : State} {pid : Nat} {sig : Signal} (hs : signalProcess s pid sig = some t) {u : Nat}
    (hu : ¬ Reached s.os pid u) :
    (t.os.proc u).status = (s.os.proc u).status ∧ (t.os.proc u).termed = (s.os.proc u).termed := by
  simp only [signalProcess, Option.ite_none_left_eq_some] at hs
  obtain ⟨-, hs⟩ := hs
  cases sig <;> cases hs
  case TERM =>
    have hproc : ((s.os.term fun v => s.os.running v ∧ s.os.pgid v = pid).proc u) = s.os.proc u := if_neg hu
    rw [hproc]
    exact ⟨rfl, rfl⟩
  case KILL =>
    dsimp only
    have hvictim : ¬ (s.os.running u ∧ s.os.pgid u = pid) := hu
    rw [Os.kill, Os.proc_die_of_not hvictim]
    exact ⟨rfl, rfl⟩
  all_goals exact ⟨rfl, rfl⟩

/-- `pid` means the process that `/process/start` of request `h` created. -/
structure Handle (s : State) (h pid : Nat) : Prop where
  leads : (s.os.proc (s.handler h).leader).pid = pid ∧ (s.os.proc (s.handler h).leader).group = (s.handler h).leader
  /-- What all four calls look up; `/process/waitport` watches it. -/
  entry : s.started pid = some h
  status : processStatus s pid = some none ∧ (s.handler h).pc ≠ .done ∨
    ∃ code, processStatus s pid = some (some code) ∧ ExitedWith s h code
  logs : ∀ logs, processLogs s logs pid = some (logs h)
  signals : ∀ u, Reached s.os pid u → (s.os.proc u).group = (s.handler h).leader

/-- `/process/start` of request `h` has answered `pid`, or is about to. -/
def Answered (s : State) (h pid : Nat) : Prop :=
  (s.handler h).endpoint = .processStart ∧ 4 ≤ (s.handler h).pc.rank ∧ s.pidOf h = pid

instance (s : State) (h pid : Nat) : Decidable (Answered s h pid) := inferInstanceAs (Decidable (_ ∧ _ ∧ _))

/-! ## Reuse -/

/-- The pid that an action gives to a new process. -/
def Action.hands : Action → Option Nat
  | .handler _ (.start pid) => some pid
  | .proc (.fork _ pid) => some pid
  | _ => none

/-- The system hands out no pid that is the number of a group with a process in it. -/
def Recycles (s : State) (a : Action) : Prop :=
  ∀ pid ∈ a.hands, ∀ u < s.os.count, (s.os.proc u).status ≠ .collected → s.os.pgid u ≠ pid

instance (s : State) (a : Action) : Decidable (Recycles s a) :=
  inferInstanceAs (Decidable (∀ pid ∈ _, ∀ u < _, _))

/-- The pid under which an action makes a new group. -/
def Action.groups (s : State) : Action → Option Nat
  | .handler _ (.start pid) => some pid
  | .proc (.setsid u) => some (s.os.proc u).pid
  | _ => none

/-- Request `h` has started a detached process. -/
def Detached (s : State) (h : Nat) : Prop := (s.handler h).endpoint = .processStart ∧ 2 ≤ (s.handler h).pc.rank

instance (s : State) (h : Nat) : Decidable (Detached s h) := inferInstanceAs (Decidable (_ ∧ _))

/-- No group is made under the pid of a process that `/process/start` has started. -/
def Unreused (s : State) (a : Action) : Prop :=
  ∀ pid ∈ a.groups s, ∀ h < s.requests, Detached s h → s.pidOf h ≠ pid

instance (s : State) (a : Action) : Decidable (Unreused s a) :=
  inferInstanceAs (Decidable (∀ pid ∈ _, ∀ h < _, _))

/-- The reaper leaves the processes of `/process/start` to their handlers. -/
def Unstolen (s : State) (a : Action) : Prop :=
  ∀ h < s.requests, (s.handler h).endpoint = .processStart → OwnedBy h s a

instance (h : Nat) (s : State) (a : Action) : Decidable (OwnedBy h s a) :=
  decidable_of_iff ((a = .reaper .check → Awaiting s h → s.reaper.looksUp = some (s.pidOf h) → s.pidOf h ∈ s.children) ∧
    ∀ pid ∈ a.starts, a = .handler h (.start pid) → s.reaper.waitsFor ≠ some pid)
    (and_congr_right fun _ => ⟨fun hall pid ha => hall pid (ha ▸ rfl) ha, fun hall pid _ ha => hall pid ha⟩)

instance (s : State) (a : Action) : Decidable (Unstolen s a) := inferInstanceAs (Decidable (∀ h < _, _))

/-! ## One step -/

theorem handlerStep_endpoint {s t : State} {h : Nat} {act : HandlerAction} (hs : handlerStep s h act = some t) :
    (t.handler h).endpoint = (s.handler h).endpoint := by
  cases act <;> simp only [handlerStep, Option.ite_none_right_eq_some, Option.some.injEq] at hs
  case serve =>
    obtain ⟨-, hs⟩ := hs
    split at hs <;> cases hs <;> simp
  case wait =>
    obtain ⟨-, hs⟩ := hs
    split at hs <;> cases hs <;> simp
  case deregister =>
    split at hs <;> simp only [Option.ite_none_right_eq_some, Option.some.injEq] at hs <;>
      obtain ⟨-, rfl⟩ := hs <;> simp
  all_goals
    obtain ⟨-, rfl⟩ := hs
    simp

theorem endpoint_step {s t : State} {a : Action} (hs : step s a = some t) {h : Nat} (hh : h < s.requests) :
    (t.handler h).endpoint = (s.handler h).endpoint := by
  rcases step_handler hs h with ⟨hH, -⟩ | ⟨_, _, -, rfl, -⟩ | ⟨act, -, -, hact⟩
  · rw [hH]
  · exact absurd hh (lt_irrefl _)
  · exact handlerStep_endpoint hact

theorem start_step {s t : State} {h pid : Nat} (hs : step s (.handler h (.start pid)) = some t) :
    (t.handler h).pc = .started ∧ s.os.pidFree pid ∧ t.os.count = s.os.count + 1 := by
  obtain ⟨-, -, hact⟩ := step_eq hs
  simp only [handlerStep, Option.ite_none_right_eq_some, Option.some.injEq] at hact
  obtain ⟨⟨-, hfree⟩, rfl⟩ := hact
  exact ⟨by simp, hfree, rfl⟩

theorem detached_step {s t : State} {a : Action} (hr : Requests s) (hs : step s a = some t) {h : Nat}
    (hd : Detached t h) :
    (Detached s h ∧ (t.handler h).leader = (s.handler h).leader ∧ t.pidOf h = s.pidOf h) ∨
      ∃ pid, a = .handler h (.start pid) ∧ (t.handler h).leader = s.os.count ∧ t.pidOf h = pid := by
  have hlater := (step_os hs).later
  have hpid : Detached s h → (t.handler h).leader = (s.handler h).leader → t.pidOf h = s.pidOf h := fun hd hl => by
    rw [State.pidOf, State.pidOf, hl, hlater.pid _ ((hr.each h).leads hd.2).1]
  rcases step_handler hs h with ⟨hH, -⟩ | ⟨_, _, -, -, hH⟩ | ⟨act, rfl, -, hact⟩
  · have hd' : Detached s h := by rwa [Detached, hH] at hd
    exact .inl ⟨hd', by rw [hH], hpid hd' (by rw [hH])⟩
  · have h2 := hd.2
    rw [hH] at h2
    simp [Pc.rank] at h2
  · have hend := handlerStep_endpoint hact
    by_cases hstart : ∃ pid, act = .start pid
    · obtain ⟨pid, rfl⟩ := hstart
      simp only [handlerStep, Option.ite_none_right_eq_some, Option.some.injEq] at hact
      obtain ⟨-, rfl⟩ := hact
      exact .inr ⟨pid, rfl, by simp, by simp [State.pidOf, Os.spawn, Os.proc_add]⟩
    have hmove : (2 ≤ (t.handler h).pc.rank ↔ 2 ≤ (s.handler h).pc.rank) ∧
        (t.handler h).leader = (s.handler h).leader := by
      by_cases hwait : act = .wait
      · subst hwait
        obtain ⟨⟨hpc, -⟩, ⟨-, rfl⟩ | ⟨-, rfl⟩⟩ := wait_inv hact <;> simp [hpc, Pc.rank]
      · have hsame := handlerStep_same hact (fun pid hp => hstart ⟨pid, hp⟩) hwait
        exact ⟨hsame.started, hsame.leader⟩
    have hd' : Detached s h := ⟨hend.symm.trans hd.1, hmove.1.mp hd.2⟩
    exact .inl ⟨hd', hmove.2, hpid hd' hmove.2⟩

/-- The map has another entry only where `/process/start` makes one. -/
theorem started_eq {s t : State} {a : Action} (hs : step s a = some t) : t.started = s.started ∨
    ∃ k, a = .handler k .serve ∧ Detached s k ∧ t.started = Function.update s.started (s.pidOf k) (some k) := by
  have ⟨_, h⟩ := step_eq hs
  cases a with
  | request => dsimp only at h; subst h; exact .inl rfl
  | signal pid sig => rw [signalProcess_frame h]; exact .inl rfl
  | main act => exact .inl (mainStep_frame h).2.2.1
  | proc act => obtain ⟨os, -, rfl⟩ := h; exact .inl rfl
  | reaper act => exact .inl (reaperStep_frame h).2.2.1
  | handler k act =>
    obtain ⟨-, h⟩ := h
    cases act <;> simp only [handlerStep, Option.ite_none_right_eq_some, Option.some.injEq] at h
    case serve =>
      obtain ⟨hpc, h⟩ := h
      split at h <;> rename_i hend <;> cases h
      · exact .inl rfl
      · exact .inr ⟨k, rfl, ⟨hend, by simp [hpc, Pc.rank]⟩, rfl⟩
    case wait =>
      obtain ⟨-, h⟩ := h
      split at h <;> cases h <;> exact .inl rfl
    case deregister =>
      split at h <;> simp only [Option.ite_none_right_eq_some, Option.some.injEq] at h <;>
        obtain ⟨-, rfl⟩ := h <;> exact .inl rfl
    all_goals
      obtain ⟨-, rfl⟩ := h
      exact .inl rfl

theorem served_step {s t : State} {a : Action} (hs : step s a = some t) {h : Nat} (hd : Detached t h)
    (h4 : 4 ≤ (t.handler h).pc.rank) :
    4 ≤ (s.handler h).pc.rank ∨ t.started = Function.update s.started (s.pidOf h) (some h) := by
  rcases step_handler hs h with ⟨hH, -⟩ | ⟨_, _, -, -, hH⟩ | ⟨act, rfl, -, hact⟩
  · rw [hH] at h4
    exact .inl h4
  · rw [hH] at h4
    simp [Pc.rank] at h4
  · have hend := (handlerStep_endpoint hact).symm.trans hd.1
    cases act <;> simp only [handlerStep, Option.ite_none_right_eq_some, Option.some.injEq] at hact
    case serve =>
      obtain ⟨-, hact⟩ := hact
      rw [hend] at hact
      cases hact
      exact .inr rfl
    case wait => exact .inl (by simp [hact.1.1, Pc.rank])
    case deregister =>
      rw [hend] at hact
      simp only [Option.ite_none_right_eq_some, Option.some.injEq] at hact
      exact .inl (by simp [hact.1, Pc.rank])
    case startFails | start | register =>
      obtain ⟨-, rfl⟩ := hact
      simp [Pc.rank] at h4
    case closeExited | reply | closeDone =>
      obtain ⟨hg, rfl⟩ := hact
      exact .inl (by simp [hg, Pc.rank])
    all_goals
      obtain ⟨-, rfl⟩ := hact
      exact .inl (by simpa using h4)

/-! ## Runs -/

/-- The detached processes, in every state reached while none of their pids is reused. -/
structure Handles (s : State) : Prop where
  reqs : Requests s
  grouped : ∀ u, s.os.running u → (s.os.proc u).group < s.os.count
  apart : ∀ h k, Detached s h → Detached s k → s.pidOf h = s.pidOf k → h = k
  entry : ∀ h, Detached s h → 4 ≤ (s.handler h).pc.rank → s.started (s.pidOf h) = some h
  groups : ∀ h, Detached s h → ∀ u, Reached s.os (s.pidOf h) u → (s.os.proc u).group = (s.handler h).leader
  own : ∀ h, (h < s.requests → (s.handler h).endpoint = .processStart) → Own s h

theorem Handles.init : Handles .init := by
  refine ⟨.init, ?_, ?_, ?_, ?_, fun h _ => .init h⟩ <;>
    simp [State.init, Os.empty, Os.running, Proc.unborn, Detached, Handler.absent, Pc.rank]

section
variable {s t : State} {a : Action}

theorem handlerStep_group {h : Nat} {act : HandlerAction} (hs : handlerStep s h act = some t) {u : Nat}
    (hu : u < s.os.count) : (t.os.proc u).group = (s.os.proc u).group := by
  cases act <;> simp only [handlerStep, Option.ite_none_right_eq_some, Option.some.injEq] at hs
  case serve =>
    obtain ⟨-, hs⟩ := hs
    split at hs <;> cases hs <;> rfl
  case wait =>
    obtain ⟨-, hs⟩ := hs
    split at hs <;> cases hs
    · exact Os.group_collect s.os _ u
    · rfl
  case deregister =>
    split at hs <;> simp only [Option.ite_none_right_eq_some, Option.some.injEq] at hs <;>
      obtain ⟨-, rfl⟩ := hs <;> rfl
  all_goals obtain ⟨-, rfl⟩ := hs
  case start pid => exact congrArg Proc.group ((Os.proc_add _ _ _).trans (if_neg (by omega)))
  case killerTerm => exact Os.group_term s.os _ u
  case killerKill => exact Os.group_die s.os _ _ u
  all_goals rfl

theorem signalProcess_group {pid : Nat} {sig : Signal} (hs : signalProcess s pid sig = some t) (u : Nat) :
    (t.os.proc u).group = (s.os.proc u).group := by
  simp only [signalProcess, Option.ite_none_left_eq_some] at hs
  obtain ⟨-, hs⟩ := hs
  cases sig <;> cases hs
  case TERM => exact Os.group_term s.os _ u
  case KILL => exact Os.group_die s.os _ _ u
  all_goals rfl

/-- Only `setsid` takes a process to another group. -/
theorem group_step (hs : step s a = some t) {u : Nat} (hu : u < s.os.count) :
    (t.os.proc u).group = (s.os.proc u).group ∨ a = .proc (.setsid u) ∧ (t.os.proc u).group = u := by
  have ⟨_, h⟩ := step_eq hs
  cases a with
  | request => dsimp only at h; subst h; exact .inl rfl
  | handler k act => exact .inl (handlerStep_group h.2 hu)
  | signal pid sig => exact .inl (signalProcess_group h u)
  | reaper act =>
    cases act <;> simp only [reaperStep, Option.ite_none_right_eq_some, Option.some.injEq] at h
    case scan =>
      obtain ⟨-, rfl⟩ := h
      exact .inl rfl
    case check => split at h <;> cases h <;> exact .inl rfl
    case collect =>
      split at h
      · split at h <;> cases h
        · exact .inl (Os.group_collect s.os _ u)
        · exact .inl rfl
      · cases h
  | main act =>
    cases act <;> simp only [mainStep, Option.ite_none_right_eq_some, Option.ite_none_left_eq_some,
      Option.some.injEq] at h <;> obtain ⟨-, rfl⟩ := h
    case sigterm => exact .inl (Os.group_term s.os _ u)
    all_goals exact .inl rfl
  | proc act =>
    obtain ⟨os, hos, rfl⟩ := h
    cases act <;> simp only [procStep, Option.ite_none_right_eq_some, Option.some.injEq] at hos <;>
      obtain ⟨-, rfl⟩ := hos
    case fork => exact .inl (congrArg Proc.group ((Os.proc_add _ _ _).trans (if_neg (by omega))))
    case exit => exact .inl (Os.group_die s.os _ _ u)
    case closePipe w pipe => exact .inl (Os.group_set s.os (by rfl) u)
    case wait w => exact .inl (Os.group_collect s.os w u)
    case setsid w =>
      by_cases huw : u = w
      · subst huw
        exact .inr ⟨rfl, by simp [Os.setsid, Os.proc_set]⟩
      · exact .inl (by simp [Os.setsid, Os.proc_set, huw])

/-- The group of a running process is one that was there, or it makes it now. -/
theorem group_origin (hi : Handles s) (hs : step s a = some t) {u : Nat} (hu : t.os.running u) :
    (∃ w, s.os.running w ∧ (t.os.proc u).group = (s.os.proc w).group) ∨
    (t.os.proc u).group = u ∧ u < t.os.count ∧ a.groups s = some (t.os.proc u).pid := by
  have hlater := (step_os hs).later
  rcases (step_os hs).origin hu with ⟨w, hw, -, hgroup | ⟨hself, rfl, hother⟩⟩ | ⟨opens, he, rfl, hself, -⟩
  · exact .inl ⟨w, hw, hgroup⟩
  · have hlt := (hi.reqs.tree w hw).1
    rcases group_step hs hlt with hsame | ⟨rfl, -⟩
    · exact absurd (hsame.symm.trans hself) hother
    · exact .inr ⟨hself, hlt.trans_le hlater.count, by rw [hlater.pid w hlt]; rfl⟩
  · obtain ⟨k, pid, rfl, -⟩ := start_of_spawns he
    obtain ⟨-, -, hact⟩ := step_eq hs
    simp only [handlerStep, Option.ite_none_right_eq_some, Option.some.injEq] at hact
    obtain ⟨-, rfl⟩ := hact
    refine .inr ⟨hself, by simp [Os.spawn, Os.add], ?_⟩
    simp [Action.groups, Os.spawn, Os.proc_add]

theorem Handles.step (hi : Handles s) (hrec : Recycles s a) (hun : Unreused s a) (hst : Unstolen s a)
    (hs : step s a = some t) : Handles t := by
  have hlater := (step_os hs).later
  have hreqs := hi.reqs.step hs
  -- what is started under a pid that no entry has
  have hnew : ∀ h pid, a = .handler h (.start pid) → ∀ k, Detached s k → s.pidOf k ≠ pid := fun h pid ha k hk =>
    hun pid (by rw [ha]; rfl) k (hi.reqs.known k hk.2) hk
  have hapart : ∀ h k, Detached t h → Detached t k → t.pidOf h = t.pidOf k → h = k := by
    intro h k hh hk heq
    rcases detached_step hi.reqs hs hh with ⟨hh, -, hpid⟩ | ⟨pid, ha, -, hpid⟩ <;>
      rcases detached_step hi.reqs hs hk with ⟨hk, -, kpid⟩ | ⟨pid', ha', -, kpid⟩
    · exact hi.apart h k hh hk (hpid.symm.trans (heq.trans kpid))
    · exact absurd (hpid.symm.trans (heq.trans kpid)) (hnew k pid' ha' h hh)
    · exact absurd (kpid.symm.trans (heq.symm.trans hpid)) (hnew h pid ha k hk)
    · rw [ha] at ha'
      cases ha'
      rfl
  refine ⟨hreqs, ?_, hapart, ?_, ?_, ?_⟩
  · intro u hu
    rcases group_origin hi hs hu with ⟨w, hw, hgroup⟩ | ⟨hself, hlt, -⟩
    · rw [hgroup]
      exact (hi.grouped w hw).trans_le hlater.count
    · rwa [hself]
  · intro h hd h4
    rcases detached_step hi.reqs hs hd with ⟨hd', -, hpid⟩ | ⟨pid, rfl, -, -⟩
    · rw [hpid]
      rcases served_step hs hd h4 with h4 | hserved
      · have hentry := hi.entry h hd' h4
        rcases started_eq hs with hsame | ⟨k, -, hk, hupdate⟩
        · rwa [hsame]
        · rw [hupdate]
          by_cases hkh : s.pidOf h = s.pidOf k
          · obtain rfl := hi.apart h k hd' hk hkh
            rw [Function.update_self]
          · rwa [Function.update_of_ne hkh]
      · rw [hserved, Function.update_self]
    · rw [(start_step hs).1] at h4
      simp [Pc.rank] at h4
  · intro h hd u hu
    rcases group_origin hi hs hu.1 with ⟨w, hw, hgroup⟩ | ⟨hself, hlt, hmade⟩
    · have hpgid : s.os.pgid w = t.pidOf h := by
        rw [← hu.2, Os.pgid, Os.pgid, hgroup, hlater.pid _ (hi.grouped w hw)]
      rcases detached_step hi.reqs hs hd with ⟨hd', hleader, hpid⟩ | ⟨pid, rfl, -, hpid⟩
      · rw [hgroup, hleader]
        exact hi.groups h hd' w ⟨hw, hpgid.trans hpid⟩
      · have hrunning : (s.os.proc w).status = .running := hw
        exact absurd (hpgid.trans hpid) (hrec pid rfl w (hi.reqs.tree w hw).1 (by simp [hrunning]))
    · have hpgid : (t.os.proc u).pid = t.pidOf h := by rw [← hu.2, Os.pgid, hself]
      rcases detached_step hi.reqs hs hd with ⟨hd', -, hpid⟩ | ⟨pid, rfl, hleader, hpid⟩
      · exact absurd (hpid.symm.trans hpgid.symm) (hun _ hmade h (hi.reqs.known h hd'.2) hd')
      · -- the process that is started is the only one with its pid
        rw [hself, hleader]
        by_contra hne
        have hcount := (start_step hs).2.2
        have hold : u < s.os.count := by omega
        have hrunning : (t.os.proc u).status = .running := hu.1
        have huncollected : (s.os.proc u).status ≠ .collected := fun hc => by
          have hgone := hlater.gone u hold hc
          rw [hrunning] at hgone
          cases hgone
        exact (start_step hs).2.1.2 u hold huncollected ((hlater.pid u hold).symm.trans (hpgid.trans hpid))
  · intro h hend
    have hend' : h < s.requests → (s.handler h).endpoint = .processStart := fun hlt =>
      (endpoint_step hs hlt).symm.trans (hend (hlt.trans_le (requests_mono hs)))
    refine (hi.own h hend').step hi.reqs ⟨fun ha haw hl => ?_, fun pid ha => ?_⟩ hs
    · exact (hst h (hi.reqs.known h haw.1) (hend' (hi.reqs.known h haw.1))).1 ha haw hl
    · have hlt : h < s.requests := by
        subst ha
        exact (step_eq hs).2.1
      exact (hst h hlt (hend' hlt)).2 pid ha

theorem Answered.step {h pid : Nat} (hr : Requests s) (hanswered : Answered s h pid) (hs : step s a = some t) :
    Answered t h pid := by
  obtain ⟨hend, h4, hpid⟩ := hanswered
  have h2 : 2 ≤ (s.handler h).pc.rank := by omega
  have hmove : 4 ≤ (t.handler h).pc.rank ∧ (t.handler h).leader = (s.handler h).leader := by
    rcases step_handler hs h with ⟨hH, -⟩ | ⟨_, _, -, rfl, -⟩ | ⟨act, rfl, -, hact⟩
    · rw [hH]
      exact ⟨h4, rfl⟩
    · exact absurd (hr.known _ h2) (lt_irrefl _)
    · refine ⟨?_, (handlerStep_started hact h2).1.1⟩
      cases act <;> simp only [handlerStep, Option.ite_none_right_eq_some, Option.some.injEq] at hact
      case startFails | start | register =>
        obtain ⟨hg, -⟩ := hact
        simp [hg, Pc.rank] at h4
      case serve =>
        obtain ⟨hg, -⟩ := hact
        simp [hg, Pc.rank] at h4
      case wait =>
        obtain ⟨-, hact⟩ := hact
        split at hact <;> cases hact <;> simp [Pc.rank]
      case deregister =>
        split at hact <;> simp only [Option.ite_none_right_eq_some, Option.some.injEq] at hact <;>
          obtain ⟨-, rfl⟩ := hact <;> simp [Pc.rank]
      case closeExited | reply | closeDone =>
        obtain ⟨-, rfl⟩ := hact
        simp [Pc.rank]
      all_goals
        obtain ⟨-, rfl⟩ := hact
        simpa using h4
  refine ⟨(endpoint_step hs (hr.known h h2)).trans hend, hmove.1, ?_⟩
  rw [State.pidOf, hmove.2, (step_os hs).later.pid _ ((hr.each h).leads h2).1]
  exact hpid

theorem Handles.handle {h pid : Nat} (hi : Handles s) (hanswered : Answered s h pid) : Handle s h pid := by
  obtain ⟨hend, h4, hpid⟩ := hanswered
  have hd : Detached s h := ⟨hend, by omega⟩
  have hentry : s.started pid = some h := hpid ▸ hi.entry h hd h4
  have hstatus : processStatus s pid = some (if (s.handler h).pc = .done then some (s.handler h).code else none) := by
    rw [processStatus, hentry]
    rfl
  refine ⟨⟨hpid, ((hi.reqs.each h).leads hd.2).2.1⟩, hentry, ?_, fun logs => by rw [processLogs, hentry]; rfl,
    hpid ▸ hi.groups h hd⟩
  by_cases hdone : (s.handler h).pc = .done
  · rw [if_pos hdone] at hstatus
    exact .inr ⟨_, hstatus, (hi.own h fun _ => hend).waited (by simp [hdone, Pc.rank])⟩
  · rw [if_neg hdone] at hstatus
    exact .inl ⟨hstatus, hdone⟩

end

/-- What keeps the pids of detached processes to them. -/
def KeepsHandles (s : State) (a : Action) : Prop := Recycles s a ∧ Unreused s a ∧ Unstolen s a

instance (s : State) (a : Action) : Decidable (KeepsHandles s a) := inferInstanceAs (Decidable (_ ∧ _ ∧ _))

/-- **A pid keeps meaning the process it was answered for**, in every run in which no group is made under it again
and the reaper leaves the process alone. -/
theorem handle_keeps {s t : State} {h pid : Nat} (hs : Reach KeepsHandles .init s) (hanswered : Answered s h pid)
    (hrun : Reach KeepsHandles s t) : Handle t h pid := by
  have hstep : ∀ s a t, Handles s → KeepsHandles s a → step s a = some t → Handles t := fun _ _ _ hi hok hs =>
    hi.step hok.1 hok.2.1 hok.2.2 hs
  have hi := hs.inv Handles hstep .init
  obtain ⟨hi', hanswered'⟩ := hrun.inv (fun t => Handles t ∧ Answered t h pid)
    (fun _ _ _ hi hok hs => ⟨hstep _ _ _ hi.1 hok hs, hi.2.step hi.1.reqs hs⟩) ⟨hi, hanswered⟩
  exact hi'.handle hanswered'

/-- A detached process. -/
def detached : List Action :=
  [.request .processStart false, .handler 0 (.start 7), .handler 0 .register, .handler 0 .serve]

/-- It ends, its handler collects it, and a command is started under this pid. -/
def endsThenExec (pid : Nat) : List Action :=
  [.proc (.exit 0 3), .handler 0 .wait, .handler 0 .deregister, .handler 0 .closeDone, .request .exec false,
   .handler 1 (.start pid)]

/-- The command after it has a pid of its own. -/
theorem handle_keeps_detached : ∃ t, Handle t 0 7 ∧ processStatus t 7 = some (some 3) := by
  obtain ⟨s, hs, hanswered, t, ht, hstatus⟩ := Run.exists_of_exec step KeepsHandles
    (fun s => Answered s 0 7 ∧ ∃ t ∈ exec step KeepsHandles s (endsThenExec 8),
      processStatus t 7 = some (some 3)) .init detached (by decide)
  exact ⟨t, handle_keeps hs hanswered (Run.of_exec step _ _ _ _ ht), hstatus⟩

/-- A signal to a process that is gone reaches a command under the same pid. -/
theorem signal_after_reuse : ¬ ∀ (s t : State) (h pid : Nat), Reach Recycles .init s → Answered s h pid →
    Reach Recycles s t → Handle t h pid := by
  intro hall
  obtain ⟨s, hs, hanswered, t, ht, hreached, hgroup⟩ := Run.exists_of_exec step Recycles
    (fun s => Answered s 0 7 ∧ ∃ t ∈ exec step Recycles s (endsThenExec 7),
      Reached t.os 7 1 ∧ (t.os.proc 1).group ≠ (t.handler 0).leader) .init detached (by decide)
  exact hgroup ((hall s t 0 7 hs hanswered (Run.of_exec step _ _ _ _ ht)).signals 1 hreached)

end ComputeArmada.Agent
