import ComputeArmada.Agent.Drain

/-!
# `shutdown` and the processes it leaves behind

`shutdown` waits for `children` to empty. That is the registry of the processes requests started, not
the set of processes that run: a process whose parent dies is reparented to the agent and is in no
registry, one is started a moment before its pid is stored, and where a pid is handed out before the
request that had it is through, that request deletes the entry of the next.

* `Orphan`, `Unstored`, `Fresh` : these three, and `GivesGrace`, a run without them while the grace lasts;
* `Entries` : in such a run the registry has every process that is stored (`Entries.step`), so that an
  early return finds nothing running (`Entries.none_running`);
* `returns_early` : a process that is not stored, or whose entry another request deletes, runs on;
* `shutdown_early_return` : what a run needs for `shutdown` to give every process its grace;
* `shutdown_forked_kernel` : a wrapper that forks the kernel and dies is enough for it not to.
-/

namespace ComputeArmada.Agent
open Runs

/-- `shutdown` returned before its deadline. -/
def ReturnedEarly (s : State) : Prop := s.shutdown = .returned ∧ s.graceOver = false

instance (s : State) : Decidable (ReturnedEarly s) := inferInstanceAs (Decidable (_ ∧ _))

/-! ## What the grace needs of the pod -/

/-- A process that has outlived its parent: a child of the agent that no request started. -/
def Orphan (s : State) (u : Nat) : Prop :=
  s.os.running u ∧ (s.os.proc u).parent = none ∧
    ∀ h < s.requests, 2 ≤ (s.handler h).pc.rank → (s.handler h).leader ≠ u

instance (s : State) (u : Nat) : Decidable (Orphan s u) := inferInstanceAs (Decidable (_ ∧ _ ∧ ∀ h < _, _))

/-- The process of request `h` runs, and the handler is between `cmd.Start` and `children.Store`. -/
def Unstored (s : State) (h : Nat) : Prop :=
  (s.handler h).pc = .started ∧ s.os.running (s.handler h).leader

instance (s : State) (h : Nat) : Decidable (Unstored s h) := inferInstanceAs (Decidable (_ ∧ _))

/-- From `cmd.Start` to `children.Delete`: the entry of its pid is the handler's, made or to be made. -/
def Handler.ownsEntry (H : Handler) : Bool := H.pc = .started || H.stored

/-- No request that is yet to delete its entry has the pid. -/
def Fresh (s : State) (pid : Nat) : Prop :=
  ∀ h < s.requests, (s.handler h).ownsEntry = true → s.pidOf h ≠ pid

instance (s : State) (pid : Nat) : Decidable (Fresh s pid) := inferInstanceAs (Decidable (∀ h < _, _))

/-- While the grace lasts, a look finds no orphan alive and no process on its way to `children`, and a
process is started under a fresh pid. -/
def GivesGrace (s : State) (a : Action) : Prop :=
  s.graceOver = false →
    (a = .main .look → (∀ u < s.os.count, ¬ Orphan s u) ∧ ∀ h < s.requests, ¬ Unstored s h) ∧
    ∀ pid ∈ a.starts, Fresh s pid

instance (s : State) (a : Action) : Decidable (GivesGrace s a) :=
  inferInstanceAs (Decidable (_ → (_ → (∀ u < _, _) ∧ ∀ h < _, _) ∧ ∀ pid ∈ _, _))

/-! ## The registry -/

theorem handlerStep_ownsEntry {s t : State} {h : Nat} {act : HandlerAction}
    (hs : handlerStep s h act = some t) (ht : (t.handler h).ownsEntry = true) (hact : ∀ pid, act ≠ .start pid) :
    (s.handler h).ownsEntry = true ∧ (t.handler h).leader = (s.handler h).leader := by
  cases act <;> simp only [handlerStep, Option.ite_none_right_eq_some, Option.some.injEq] at hs
  case start pid => exact absurd rfl (hact pid)
  case serve =>
    obtain ⟨hg, hs⟩ := hs
    split at hs <;> cases hs <;> simp [Handler.ownsEntry, Handler.stored, hg]
  case wait =>
    obtain ⟨hg, hs⟩ := hs
    split at hs <;> cases hs <;> simp [Handler.ownsEntry, Handler.stored, hg]
  case deregister =>
    split at hs <;> simp only [Option.ite_none_right_eq_some, Option.some.injEq] at hs <;>
      obtain ⟨-, rfl⟩ := hs <;> simp [Handler.ownsEntry, Handler.stored] at ht
  all_goals obtain ⟨hg, rfl⟩ := hs
  all_goals simp_all [Handler.ownsEntry, Handler.stored]

theorem handlerStep_stored {s t : State} {h : Nat} {act : HandlerAction} (hs : handlerStep s h act = some t)
    (hact : act ≠ .register) (ht : (t.handler h).stored = true) : (s.handler h).stored = true := by
  cases act <;> simp only [handlerStep, Option.ite_none_right_eq_some, Option.some.injEq] at hs
  case register => exact absurd rfl hact
  case serve =>
    obtain ⟨hg, hs⟩ := hs
    split at hs <;> cases hs <;> simp [Handler.stored, hg]
  case wait =>
    obtain ⟨hg, hs⟩ := hs
    split at hs <;> cases hs <;> simp [Handler.stored, hg]
  case deregister =>
    split at hs <;> simp only [Option.ite_none_right_eq_some, Option.some.injEq] at hs <;>
      obtain ⟨-, rfl⟩ := hs <;> simp [Handler.stored] at ht
  all_goals obtain ⟨hg, rfl⟩ := hs
  all_goals simp_all [Handler.stored]

/-- The registry is changed by a handler that stores its pid, and by one that is done with it. -/
theorem children_step {s t : State} {a : Action} (hs : step s a = some t) :
    (t.children = s.children ∧ ∀ h, a ≠ .handler h .register ∧ a ≠ .handler h .deregister) ∨
    (∃ h, a = .handler h .register ∧ (t.handler h).stored = true ∧ (t.handler h).leader = (s.handler h).leader ∧
      t.children = insert (s.pidOf h) s.children) ∨
    ∃ h, a = .handler h .deregister ∧ (s.handler h).stored = true ∧ (t.handler h).stored = false ∧
      t.children = s.children.erase (s.pidOf h) := by
  have ⟨_, h⟩ := step_eq hs
  cases a with
  | request => dsimp only at h; subst h; exact .inl ⟨rfl, by simp⟩
  | signal pid sig => rw [signalProcess_frame h]; exact .inl ⟨rfl, by simp⟩
  | reaper act => exact .inl ⟨(reaperStep_frame h).2.1, by simp⟩
  | main act => exact .inl ⟨(mainStep_frame h).2.1, by simp⟩
  | proc act => obtain ⟨os, -, rfl⟩ := h; exact .inl ⟨rfl, by simp⟩
  | handler k act =>
    have hact := h.2
    cases act <;> simp only [handlerStep, Option.ite_none_right_eq_some, Option.some.injEq] at hact
    case register =>
      obtain ⟨-, rfl⟩ := hact
      exact .inr (.inl ⟨k, rfl, by simp [Handler.stored], by simp, rfl⟩)
    case deregister =>
      split at hact <;> simp only [Option.ite_none_right_eq_some, Option.some.injEq] at hact <;>
        obtain ⟨hpc, rfl⟩ := hact <;>
        exact .inr (.inr ⟨k, rfl, by simp_all [Handler.stored], by simp [Handler.stored], rfl⟩)
    case serve =>
      obtain ⟨-, hact⟩ := hact
      split at hact <;> cases hact <;> exact .inl ⟨rfl, by simp⟩
    case wait =>
      obtain ⟨-, hact⟩ := hact
      split at hact <;> cases hact <;> exact .inl ⟨rfl, by simp⟩
    all_goals
      obtain ⟨-, rfl⟩ := hact
      exact .inl ⟨rfl, by simp⟩

theorem rank_of_ownsEntry {H : Handler} (h : H.ownsEntry = true) : 2 ≤ H.pc.rank := by
  rw [Handler.ownsEntry, Bool.or_eq_true, decide_eq_true_eq] at h
  rcases h with hpc | hst
  · simp [hpc, Pc.rank]
  · have := rank_of_stored hst
    omega

theorem ownsEntry_of_stored {H : Handler} (h : H.stored = true) : H.ownsEntry = true := by
  rw [Handler.ownsEntry, h, Bool.or_true]

/-- A handler that owns an entry after a step has just started its process, or it owned the entry of the
same pid before. -/
theorem ownsEntry_step {s t : State} {a : Action} (hr : Requests s) (hs : step s a = some t) {h : Nat}
    (ht : (t.handler h).ownsEntry = true) :
    (∃ pid, a = .handler h (.start pid) ∧ t.pidOf h = pid) ∨
    (s.handler h).ownsEntry = true ∧ t.pidOf h = s.pidOf h := by
  have hpid : (s.handler h).ownsEntry = true → (t.handler h).leader = (s.handler h).leader →
      t.pidOf h = s.pidOf h := by
    intro hown hleader
    rw [State.pidOf, State.pidOf, hleader]
    exact (step_os hs).later.pid _ ((hr.each h).leads (rank_of_ownsEntry hown)).1
  rcases step_handler hs h with ⟨hH, -⟩ | ⟨_, _, -, -, hH⟩ | ⟨act, rfl, -, hact⟩
  · rw [hH] at ht
    exact .inr ⟨ht, hpid ht (by rw [hH])⟩
  · rw [hH] at ht
    cases ht
  · by_cases hstart : ∃ pid, act = .start pid
    · obtain ⟨pid, rfl⟩ := hstart
      simp only [handlerStep, Option.ite_none_right_eq_some, Option.some.injEq] at hact
      obtain ⟨-, rfl⟩ := hact
      exact .inl ⟨pid, rfl, by simp [State.pidOf, Os.spawn, Os.proc_add]⟩
    · obtain ⟨hown, hleader⟩ := handlerStep_ownsEntry hact ht (fun pid hp => hstart ⟨pid, hp⟩)
      exact .inr ⟨hown, hpid hown hleader⟩

theorem stored_step {s t : State} {a : Action} (hs : step s a = some t) {h : Nat}
    (ht : (t.handler h).stored = true) : a = .handler h .register ∨ (s.handler h).stored = true := by
  rcases step_handler hs h with ⟨hH, -⟩ | ⟨_, _, -, -, hH⟩ | ⟨act, rfl, -, hact⟩
  · rw [hH] at ht
    exact .inr ht
  · rw [hH] at ht
    cases ht
  · by_cases hreg : act = .register
    · exact .inl (by rw [hreg])
    · exact .inr (handlerStep_stored hact hreg ht)

/-- The registry against the requests, while the grace lasts. -/
structure Entries (s : State) : Prop where
  distinct : ∀ h k, (s.handler h).ownsEntry = true → (s.handler k).ownsEntry = true →
    s.pidOf h = s.pidOf k → h = k
  entered : ∀ h, (s.handler h).stored = true → s.pidOf h ∈ s.children

theorem Entries.init : Entries .init := by
  constructor <;> simp [State.init, Handler.absent, Handler.ownsEntry, Handler.stored]

theorem known_of_ownsEntry {s : State} (hr : Requests s) {h : Nat} (ho : (s.handler h).ownsEntry = true) :
    h < s.requests :=
  hr.known h (rank_of_ownsEntry ho)

theorem Entries.step {s t : State} {a : Action} (hr : Requests s) (he : Entries s)
    (hfresh : ∀ pid ∈ a.starts, Fresh s pid) (hs : step s a = some t) : Entries t := by
  have hdistinct : ∀ h k, (t.handler h).ownsEntry = true → (t.handler k).ownsEntry = true →
      t.pidOf h = t.pidOf k → h = k := by
    intro h k hh hk heq
    rcases ownsEntry_step hr hs hh with ⟨pid, rfl, hpid⟩ | ⟨hh, hpid⟩
    · rcases ownsEntry_step hr hs hk with ⟨pid', hk', -⟩ | ⟨hk, hpid'⟩
      · cases hk'
        rfl
      · exact absurd (by rw [← hpid', ← heq, hpid]) (hfresh pid rfl k (known_of_ownsEntry hr hk) hk)
    · rcases ownsEntry_step hr hs hk with ⟨pid', rfl, hpid'⟩ | ⟨hk, hpid'⟩
      · exact absurd (by rw [← hpid, heq, hpid']) (hfresh pid' rfl h (known_of_ownsEntry hr hh) hh)
      · exact he.distinct h k hh hk (by rw [← hpid, heq, hpid'])
  refine ⟨hdistinct, fun h hst => ?_⟩
  have hpid : t.pidOf h = s.pidOf h := by
    rcases ownsEntry_step hr hs (ownsEntry_of_stored hst) with ⟨pid, rfl, -⟩ | ⟨-, hpid⟩
    · rcases stored_step hs hst with hreg | hst'
      · cases hreg
      · have h2 := rank_of_stored hst'
        have ⟨_, _, hact⟩ := step_eq hs
        simp only [handlerStep, Option.ite_none_right_eq_some] at hact
        simp [hact.1.1, Pc.rank] at h2
    · exact hpid
  rw [hpid]
  rcases children_step hs with ⟨hc, hne⟩ | ⟨k, rfl, -, -, hc⟩ | ⟨k, rfl, hk, hk', hc⟩
  · rw [hc]
    rcases stored_step hs hst with hreg | hst'
    · exact absurd hreg (hne h).1
    · exact he.entered h hst'
  · rw [hc]
    rcases stored_step hs hst with hreg | hst'
    · cases hreg
      exact Finset.mem_insert_self _ _
    · exact Finset.mem_insert_of_mem (he.entered h hst')
  · rw [hc, Finset.mem_erase]
    rcases stored_step hs hst with hreg | hst'
    · cases hreg
    · refine ⟨fun heq => ?_, he.entered h hst'⟩
      have := he.distinct h k (ownsEntry_of_stored hst') (ownsEntry_of_stored hk) heq
      subst this
      rw [hk'] at hst
      cases hst

theorem graceOver_step {s t : State} {a : Action} (hs : step s a = some t) (ht : t.graceOver = false) :
    s.graceOver = false := by
  have ⟨_, h⟩ := step_eq hs
  cases a with
  | request => dsimp only at h; subst h; exact ht
  | handler k act => rwa [(handlerStep_frame h.2).2.2.2.2] at ht
  | signal pid sig => rwa [signalProcess_frame h] at ht
  | reaper act => rwa [(reaperStep_frame h).2.2.2.2.2] at ht
  | proc act => obtain ⟨os, -, rfl⟩ := h; exact ht
  | main act =>
    cases act <;> simp only [mainStep, Option.ite_none_right_eq_some, Option.ite_none_left_eq_some,
      Option.some.injEq] at h <;> obtain ⟨-, rfl⟩ := h
    case graceOver => cases ht
    all_goals exact ht

theorem entries_of_reach {s : State} (h : Reach GivesGrace .init s) (hgrace : s.graceOver = false) : Entries s := by
  refine h.inv_of Requests (fun s => s.graceOver = false → Entries s) ?_ ?_ .init (fun _ => .init) hgrace
  · exact fun _ _ _ hr _ hs => hr.step hs
  · intro s a t hr he hok hs ht
    have hgrace := graceOver_step hs ht
    exact (he hgrace).step hr (hok hgrace).2 hs

/-- Any run: an entry is that of a handler that has stored it and is yet to delete it. -/
theorem stored_of_entry {ok : State → Action → Prop} {s : State} (h : Reach ok .init s) :
    ∀ pid ∈ s.children, ∃ h, (s.handler h).stored = true ∧ s.pidOf h = pid := by
  refine h.inv_of Requests (fun s => ∀ pid ∈ s.children, ∃ h, (s.handler h).stored = true ∧ s.pidOf h = pid)
    (fun _ _ _ hr _ hs => hr.step hs) ?_ .init (by simp [State.init])
  intro s a t hr he _ hs pid hpid
  -- A handler that had stored the pid still has, unless it is the one that deletes it now.
  have hkeep : ∀ h, (s.handler h).stored = true → s.pidOf h = pid → a ≠ .handler h .deregister →
      ∃ h, (t.handler h).stored = true ∧ t.pidOf h = pid := by
    intro h hst hp hne
    have h3 := rank_of_stored hst
    have hlt := ((hr.each h).leads (by omega)).1
    have hsame : (t.handler h).stored = true ∧ (t.handler h).leader = (s.handler h).leader := by
      rcases step_handler hs h with ⟨hH, -⟩ | ⟨_, _, -, rfl, -⟩ | ⟨act, rfl, -, hact⟩
      · rw [hH]
        exact ⟨hst, rfl⟩
      · exact absurd (hr.known _ (by omega)) (lt_irrefl _)
      · cases act <;> simp only [handlerStep, Option.ite_none_right_eq_some, Option.some.injEq] at hact
        case deregister => exact absurd rfl hne
        case serve =>
          obtain ⟨-, hact⟩ := hact
          split at hact <;> cases hact <;> simp [Handler.stored]
        case wait =>
          obtain ⟨-, hact⟩ := hact
          split at hact <;> cases hact <;> simp [Handler.stored]
        all_goals obtain ⟨hg, rfl⟩ := hact
        all_goals simp_all [Handler.stored]
    refine ⟨h, hsame.1, ?_⟩
    rw [← hp, State.pidOf, State.pidOf, hsame.2]
    exact (step_os hs).later.pid _ hlt
  rcases children_step hs with ⟨hc, hne⟩ | ⟨k, rfl, hst, hleader, hc⟩ | ⟨k, rfl, -, -, hc⟩
  · rw [hc] at hpid
    obtain ⟨h, hst, hp⟩ := he pid hpid
    exact hkeep h hst hp (hne h).2
  · rw [hc, Finset.mem_insert] at hpid
    rcases hpid with rfl | hpid
    · refine ⟨k, hst, ?_⟩
      have hact := (step_eq hs).2.2
      simp only [handlerStep, Option.ite_none_right_eq_some] at hact
      rw [State.pidOf, State.pidOf, hleader]
      exact (step_os hs).later.pid _ ((hr.each k).leads (by simp [hact.1, Pc.rank])).1
    · obtain ⟨h, hst, hp⟩ := he pid hpid
      exact hkeep h hst hp (by simp)
  · rw [hc, Finset.mem_erase] at hpid
    obtain ⟨h, hst, hp⟩ := he pid hpid.2
    refine hkeep h hst hp fun heq => ?_
    cases heq
    exact hpid.1 hp.symm

/-! ## Early returns -/

theorem look_inv {s t : State} (h : step s (.main .look) = some t) :
    s.shutdown = .looking ∧ t = { s with shutdown := if s.children = ∅ then .returned else .waiting } := by
  have ⟨_, h⟩ := step_eq h
  simp only [mainStep, Option.ite_none_right_eq_some, Option.some.injEq] at h
  exact ⟨h.1, h.2.symm⟩

/-- The steps that can end in `shutdown` having returned early: a look at an empty registry. -/
theorem returnedEarly_inv {s t : State} {a : Action} (h : step s a = some t) (hr : ReturnedEarly t) :
    a = .main .look ∧ s.children = ∅ ∧ t.os = s.os := by
  obtain ⟨hret, hgrace⟩ := hr
  have ⟨hs, h'⟩ := step_eq h
  cases a with
  | request => dsimp only at h'; subst h'; exact absurd hret hs
  | handler k act => rw [(handlerStep_frame h'.2).2.2.2.1] at hret; exact absurd hret hs
  | signal pid sig => rw [signalProcess_frame h'] at hret; exact absurd hret hs
  | reaper act => rw [(reaperStep_frame h').2.2.2.2.1] at hret; exact absurd hret hs
  | proc act => obtain ⟨os, -, rfl⟩ := h'; exact absurd hret hs
  | main act =>
    cases act with
    | look =>
      obtain ⟨-, rfl⟩ := look_inv h
      dsimp only at hret
      split at hret
      · rename_i hc; exact ⟨rfl, hc, rfl⟩
      · cases hret
    | loopTest =>
      simp only [mainStep, Option.ite_none_right_eq_some, Option.some.injEq] at h'
      obtain ⟨-, rfl⟩ := h'
      dsimp only at hret hgrace
      rw [hgrace] at hret
      cases hret
    | sigterm =>
      simp only [mainStep, Option.ite_none_right_eq_some, Option.some.injEq] at h'
      obtain ⟨-, rfl⟩ := h'
      cases hret
    | graceOver =>
      simp only [mainStep, Option.ite_none_left_eq_some, Option.some.injEq] at h'
      obtain ⟨-, rfl⟩ := h'
      cases hgrace

/-- With an empty registry, no orphan and no process on its way to it, nothing runs: a running child of
the agent is the process of a request whose `Wait` is not over. -/
theorem Entries.none_running {s : State} (hr : Requests s) (he : Entries s) (hc : s.children = ∅)
    (horphan : ∀ u < s.os.count, ¬ Orphan s u) (hunstored : ∀ h < s.requests, ¬ Unstored s h) (u : Nat) :
    ¬ s.os.running u := by
  refine hr.tree.none_running (fun u hu hroot => ?_) u
  obtain ⟨h, hlt, h2, rfl⟩ : ∃ h < s.requests, 2 ≤ (s.handler h).pc.rank ∧ (s.handler h).leader = u := by
    by_contra hno
    push Not at hno
    exact horphan u (hr.tree u hu).1 ⟨hu, hroot, hno⟩
  have h5 : ¬ 5 ≤ (s.handler h).pc.rank := fun h5 => ((hr.each h).waited h5).1 hu
  have hstored : (s.handler h).stored = true := by
    cases hpc : (s.handler h).pc <;> simp [hpc, Pc.rank] at h2 h5
    case started => exact absurd ⟨hpc, hu⟩ (hunstored h hlt)
    all_goals simp [Handler.stored, hpc]
  have hmem := he.entered h hstored
  rw [hc] at hmem
  exact absurd hmem (Finset.notMem_empty _)

/-- `shutdown` comes to a look at the registry, and returns at once where it is empty. -/
theorem returns_of_empty {s : State} (hserving : s.shutdown ≠ .returned) (hgrace : s.graceOver = false)
    (hc : s.children = ∅) :
    ∃ t, Reach Any s t ∧ ReturnedEarly t ∧ ∀ u, s.os.running u → t.os.running u := by
  have hlook : ∀ t : State, t.shutdown = .looking → t.children = ∅ →
      step t (.main .look) = some { t with shutdown := .returned } := by
    intro t ht hc
    simp [step, mainStep, ht, hc]
  have hloop : ∀ t : State, t.shutdown = .waiting → t.graceOver = false →
      step t (.main .loopTest) = some { t with shutdown := .looking } := by
    intro t ht hg
    simp [step, mainStep, ht, hg]
  cases hsh : s.shutdown with
  | returned => exact absurd hsh hserving
  | looking =>
    exact ⟨_, .single trivial (hlook s hsh hc), ⟨rfl, hgrace⟩, fun u hu => hu⟩
  | waiting =>
    exact ⟨_, .tail (.single trivial (hloop s hsh hgrace)) trivial (hlook _ rfl hc), ⟨rfl, hgrace⟩, fun u hu => hu⟩
  | serving =>
    have hterm : step s (.main .sigterm) =
        some { s with shutdown := .waiting, os := s.os.term (fun v => s.os.running v) } := by
      simp [step, mainStep, hsh]
    refine ⟨_, .tail (.tail (.single trivial hterm) trivial (hloop _ rfl hgrace)) trivial (hlook _ rfl hc),
      ⟨rfl, hgrace⟩, fun u hu => ?_⟩
    show ((s.os.term fun v => s.os.running v).proc u).status = .running
    simp only [Os.term]
    split_ifs
    exact hu

/-- A process runs that is the stored process of no request, or of one whose pid another request has
stored too: everything else can come to its end, and `shutdown` returns. -/
theorem returns_early {s : State} {u : Nat} (hreach : Reach Any .init s) (hserving : s.shutdown ≠ .returned)
    (hgrace : s.graceOver = false) (hu : s.os.running u)
    (hshared : ∀ h, (s.handler h).stored = true → (s.handler h).leader = u →
      ∃ k, (s.handler k).stored = true ∧ (s.handler k).leader ≠ u ∧ s.pidOf k = s.pidOf h) :
    ∃ t, Reach Any s t ∧ ReturnedEarly t ∧ t.os.running u := by
  have hr := requests_of_reach hreach
  obtain ⟨os, hrun, halone⟩ := exists_alone hr hserving hu
  have hr₁ := hr.run hrun
  obtain ⟨t, hd⟩ := exists_drained (s := { s with os := os }) hr₁ hserving halone
  have hpid : ∀ h, (s.handler h).stored = true → t.pidOf h = s.pidOf h := by
    intro h hst
    have h3 := rank_of_stored hst
    rw [hd.pidOf hr₁ (show 2 ≤ (s.handler h).pc.rank by omega)]
    exact (later_of_reach hrun).pid _ ((hr.each h).leads (by omega)).1
  have hempty : t.children = ∅ := by
    rw [Finset.eq_empty_iff_forall_notMem]
    intro pid hmem
    obtain ⟨h, hst, hp⟩ := stored_of_entry (hreach.trans (hrun.trans hd.run)) pid hmem
    have hlt : h < s.requests := by
      have h3 := rank_of_stored hst
      have := (hr₁.run hd.run).known h (by omega)
      rwa [hd.agent.1] at this
    have hleader : (s.handler h).leader = u := (hd.leader h).symm.trans (hd.ended h hlt hst)
    have hst : (s.handler h).stored = true := by
      rw [hd.spared h (.inr hleader)] at hst
      exact hst
    obtain ⟨k, hk, hku, hkh⟩ := hshared h hst hleader
    refine hd.erased k (known_of_ownsEntry hr₁ (ownsEntry_of_stored hk)) hk hku ?_
    rw [← hd.pidOf hr₁ (show 2 ≤ (s.handler k).pc.rank by have := rank_of_stored hk; omega), hpid k hk, hkh,
      ← hpid h hst, hp]
    exact hmem
  obtain ⟨t', hrun', hearly, hkeep⟩ := returns_of_empty (by rw [hd.agent.2.1]; exact hserving)
    (by rw [hd.agent.2.2]; exact hgrace) hempty
  exact ⟨t', (hrun.trans hd.run).trans hrun', hearly, hkeep u hd.alone.runs⟩

/-- A look that finds an orphan, or a process on its way to the registry. -/
theorem returns_after_look {s t : State} (hreach : Reach Any .init s) (hgrace : s.graceOver = false)
    (hs : step s (.main .look) = some t) {u : Nat} (hu : s.os.running u)
    (hnot : ∀ h, (s.handler h).stored = true → (s.handler h).leader ≠ u) :
    ∃ t', Reach Any t t' ∧ ReturnedEarly t' ∧ t'.os.running u := by
  have hreach' := hreach.tail trivial hs
  obtain ⟨-, rfl⟩ := look_inv hs
  by_cases hc : s.children = ∅
  · exact ⟨_, .refl _, ⟨by simp [hc], hgrace⟩, hu⟩
  · refine returns_early hreach' (by simp [hc]) hgrace hu ?_
    exact fun h hst hleader => absurd hleader (hnot h hst)

/-- A handler that owns its entry has stored it, or does so now. -/
theorem exists_stored {s : State} {h : Nat} (hserving : s.shutdown ≠ .returned) (hlt : h < s.requests)
    (ho : (s.handler h).ownsEntry = true) : ∃ t, Passes h s t ∧ (t.handler h).stored = true := by
  by_cases hpc : (s.handler h).pc = .started
  · have hs : step s (.handler h .register) = some { s.setHandler h { s.handler h with pc := .registered } with
        children := insert (s.pidOf h) s.children } := by
      simp [step, handlerStep, hserving, hlt, hpc]
    exact ⟨_, .single hs rfl, by simp [Handler.stored]⟩
  · refine ⟨s, .refl h s, ?_⟩
    rw [Handler.ownsEntry, Bool.or_eq_true, decide_eq_true_eq] at ho
    exact ho.resolve_left hpc

/-- A start under the pid of a request that is yet to delete its entry: both store it, and the earlier
one deletes it. -/
theorem returns_after_start {s t : State} {h k pid : Nat} (hreach : Reach Any .init s)
    (hgrace : s.graceOver = false) (hs : step s (.handler h (.start pid)) = some t)
    (hk : (s.handler k).ownsEntry = true) (hpid : s.pidOf k = pid) :
    ∃ t', Reach Any t t' ∧ ReturnedEarly t' ∧ t'.os.running s.os.count := by
  have hr := requests_of_reach hreach
  have hr' := hr.step hs
  have hlater := (step_os hs).later
  have hklt := known_of_ownsEntry hr hk
  obtain ⟨hserving, hlt, hact⟩ := step_eq hs
  obtain ⟨-, hreq, -, hshut, hgraceOver⟩ := handlerStep_frame hact
  simp only [handlerStep, Option.ite_none_right_eq_some, Option.some.injEq] at hact
  obtain ⟨⟨harr, -⟩, ht⟩ := hact
  have hkh : k ≠ h := by
    rintro rfl
    simp [Handler.ownsEntry, Handler.stored, harr] at hk
  -- After the start, `h` has the new process and `k` what it had.
  have hproc : t.os.proc s.os.count = (s.os.spawn pid ((s.handler h).pipes h)).proc s.os.count := by rw [← ht]
  rw [Os.spawn, Os.proc_add, if_pos rfl] at hproc
  have hH : (t.handler h).leader = s.os.count ∧ (t.handler h).pc = .started := by
    rw [← ht]
    simp
  have hK : t.handler k = s.handler k := by
    rw [← ht]
    simp [hkh]
  have hku : (s.handler k).leader < s.os.count := ((hr.each k).leads (rank_of_ownsEntry hk)).1
  have hpids : t.pidOf h = pid ∧ t.pidOf k = pid := by
    rw [State.pidOf, hH.1, hproc, State.pidOf, hK, hlater.pid _ hku]
    exact ⟨rfl, hpid⟩
  obtain ⟨t₁, h₁, hst₁⟩ := exists_stored (s := t) (h := k) (by rw [hshut]; exact hserving)
    (by rw [hreq]; exact hklt) (by rw [hK]; exact hk)
  have hown : (t₁.handler h).ownsEntry = true := by
    rw [h₁.others h hkh.symm, Handler.ownsEntry, hH.2]
    rfl
  obtain ⟨t₂, h₂, hst₂⟩ := exists_stored (s := t₁) (h := h) (by rw [h₁.agent.2.1, hshut]; exact hserving)
    (by rw [h₁.agent.1, hreq]; exact hlt) hown
  have hr₁ := hr'.run h₁.run
  have hleader : (t₂.handler h).leader = s.os.count ∧ (t₂.handler k).leader = (s.handler k).leader := by
    rw [h₂.request.1, h₁.others h hkh.symm, h₂.others k hkh, h₁.request.1, hK]
    exact ⟨hH.1, rfl⟩
  have hpids₂ : t₂.pidOf h = pid ∧ t₂.pidOf k = pid := by
    have h2 := rank_of_ownsEntry hown
    have k2 := rank_of_ownsEntry (ownsEntry_of_stored hst₁)
    rw [pidOf_passes hr₁ h₂ h2, pidOf_passes hr₁ h₂ k2]
    rw [h₁.others h hkh.symm] at h2
    rw [pidOf_passes hr' h₁ h2, pidOf_passes hr' h₁ (by rw [hK]; exact rank_of_ownsEntry hk)]
    exact hpids
  have hrun : Reach Any t t₂ :=
    (h₁.run.mono fun _ _ _ => trivial).trans (h₂.run.mono fun _ _ _ => trivial)
  have hrunning : t₂.os.running s.os.count :=
    h₂.running (h₁.running (by rw [Os.running, hproc]))
  obtain ⟨t', hrun', hearly, hu⟩ := returns_early (u := s.os.count)
    ((hreach.tail trivial hs).trans hrun)
    (by rw [h₂.agent.2.1, h₁.agent.2.1, hshut]; exact hserving)
    (by rw [h₂.agent.2.2, h₁.agent.2.2, hgraceOver]; exact hgrace) hrunning (by
      intro j hst hj
      have hjh : j = h := by
        have h3 := rank_of_stored hst
        have h3' := rank_of_stored hst₂
        exact (hr₁.run h₂.run).inj j h (by omega) (by omega) (hj.trans hleader.1.symm)
      subst hjh
      refine ⟨k, by rw [h₂.others k hkh]; exact hst₁, by rw [hleader.2]; omega, ?_⟩
      rw [hpids₂.1, hpids₂.2])
  exact ⟨t', hrun.trans hrun', hearly, hu⟩

/-- **`shutdown` and the grace period.** In a run that keeps to `GivesGrace`, `shutdown` returns early only
when nothing runs any more. A step that does not keep to it can be followed by a run to an early return
that leaves a process running. -/
theorem shutdown_early_return (s : State) :
    (Reach GivesGrace .init s → ReturnedEarly s → ∀ u, ¬ s.os.running u) ∧
    (∀ t a, Reach Any .init s → step s a = some t → ¬ GivesGrace s a →
      ∃ t', Reach Any t t' ∧ ReturnedEarly t' ∧ ∃ u, t'.os.running u) := by
  constructor
  · intro h hr
    cases h with
    | refl => exact absurd hr.1 (by decide)
    | tail hreach hok hs =>
      obtain ⟨rfl, hc, hos⟩ := returnedEarly_inv hs hr
      have hgrace := graceOver_step hs hr.2
      obtain ⟨horphan, hunstored⟩ := (hok hgrace).1 rfl
      rw [hos]
      exact (entries_of_reach hreach hgrace).none_running (requests_of_reach hreach) hc horphan hunstored
  · intro t a hreach hs hnot
    have hr := requests_of_reach hreach
    simp only [GivesGrace, not_forall, exists_prop] at hnot
    obtain ⟨hgrace, hnot⟩ := hnot
    by_cases hstart : ∀ pid ∈ a.starts, Fresh s pid
    · have hlook : a = .main .look ∧
          ((∃ u, Orphan s u) ∨ ∃ h, Unstored s h) := by
        by_contra hno
        refine hnot ⟨fun ha => ?_, hstart⟩
        push Not at hno
        exact ⟨fun u _ => (hno ha).1 u, fun h _ => (hno ha).2 h⟩
      obtain ⟨rfl, ⟨u, hu, -, hno⟩ | ⟨h, hpc, hu⟩⟩ := hlook
      · obtain ⟨t', hrun, hearly, hu⟩ := returns_after_look hreach hgrace hs hu (fun h hst =>
          hno h (known_of_ownsEntry hr (ownsEntry_of_stored hst)) (rank_of_ownsEntry (ownsEntry_of_stored hst)))
        exact ⟨t', hrun, hearly, u, hu⟩
      · obtain ⟨t', hrun, hearly, hu⟩ := returns_after_look hreach hgrace hs hu (fun k hst hk => by
          have := hr.inj k h (rank_of_ownsEntry (ownsEntry_of_stored hst)) (by simp [hpc, Pc.rank]) hk
          subst this
          simp [Handler.stored, hpc] at hst)
        exact ⟨t', hrun, hearly, _, hu⟩
    · simp only [Fresh, not_forall, exists_prop, ne_eq, not_not] at hstart
      obtain ⟨pid, hp, k, -, hk, hpid⟩ := hstart
      obtain ⟨h, rfl⟩ : ∃ h, a = .handler h (.start pid) := by
        cases a with
        | handler h act => cases act <;> cases hp; exact ⟨h, rfl⟩
        | _ => cases hp
      obtain ⟨t', hrun, hearly, hu⟩ := returns_after_start hreach hgrace hs hk hpid
      exact ⟨t', hrun, hearly, _, hu⟩

/-- A command that is waited for and deregistered before `shutdown` looks. -/
def commandEnds : List Action :=
  [.request .exec false, .handler 0 (.start 7), .handler 0 .register, .handler 0 .serve, .main .sigterm,
   .proc (.exit 0 0), .handler 0 (.eof .stdout), .handler 0 (.eof .stderr), .handler 0 .wait,
   .handler 0 .closeExited, .handler 0 (.reply false), .handler 0 .deregister, .main .loopTest, .main .look]

/-- `sh -lc` forks the kernel, dies of the SIGTERM and is collected; the kernel is still flushing. -/
def wrapperForks : List Action :=
  [.request .processStart false, .handler 0 (.start 7), .handler 0 .register, .handler 0 .serve,
   .proc (.fork 0 8), .main .sigterm, .proc (.exit 0 (-1)), .handler 0 .wait, .handler 0 .deregister,
   .main .loopTest]

theorem shutdown_early_return_commandEnds :
    (∃ s, Reach GivesGrace .init s ∧ ReturnedEarly s ∧ s.os.count = 1 ∧ ∀ u, ¬ s.os.running u) ∧
    ∃ s, Reach Any .init s ∧ ReturnedEarly s ∧ ∃ u, s.os.running u := by
  constructor
  · obtain ⟨s, hr, hearly, hcount⟩ := Run.exists_of_exec step GivesGrace
      (fun s => ReturnedEarly s ∧ s.os.count = 1) .init commandEnds (by decide)
    exact ⟨s, hr, hearly, hcount, (shutdown_early_return s).1 hr hearly⟩
  · obtain ⟨s, hr, t, hs, hnot⟩ := Run.exists_of_exec step Any
      (fun s => ∃ t ∈ step s (.main .look), ¬ GivesGrace s (.main .look)) .init wrapperForks (by decide)
    obtain ⟨t', hrun, hearly⟩ := (shutdown_early_return s).2 t _ hr hs hnot
    exact ⟨t', (Run.tail hr trivial hs).trans hrun, hearly⟩

theorem shutdown_forked_kernel : ∃ s, Reach Any .init s ∧ ReturnedEarly s ∧ s.os.running 1 :=
  Run.exists_of_exec step Any (fun s => ReturnedEarly s ∧ s.os.running 1) .init
    (wrapperForks ++ [.main .look]) (by decide)

/-- The pod is stopped between `cmd.Start` and `children.Store`. -/
example : ∃ s, Reach Any .init s ∧ ReturnedEarly s ∧ s.os.running 0 :=
  Run.exists_of_exec step Any (fun s => ReturnedEarly s ∧ s.os.running 0) .init
    [.request .exec false, .main .sigterm, .handler 0 (.start 7), .main .loopTest, .main .look] (by decide)

/-- A detached process is given the pid of a command that is through but for its deferred delete. -/
example : ∃ s, Reach Any .init s ∧ ReturnedEarly s ∧ s.os.running 1 :=
  Run.exists_of_exec step Any (fun s => ReturnedEarly s ∧ s.os.running 1) .init
    [.request .exec false, .request .processStart false, .handler 0 (.start 7), .handler 0 .register,
     .handler 0 .serve, .proc (.exit 0 0), .handler 0 (.eof .stdout), .handler 0 (.eof .stderr),
     .handler 0 .wait, .handler 1 (.start 7), .handler 1 .register, .handler 0 .closeExited,
     .handler 0 (.reply false), .handler 0 .deregister, .main .sigterm, .main .loopTest, .main .look]
    (by decide)

end ComputeArmada.Agent
