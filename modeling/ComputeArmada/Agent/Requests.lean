import ComputeArmada.Agent.Machine

/-!
# Requests and their processes, in every reachable state

* `ExecInv` : the leader, the readers and the kill goroutine of a request (`ExecInv.step`);
* `Same` : a step of a handler other than its start and its `Wait` (`handlerStep_same`);
* `Requests` : these of all requests, and one process each (`Requests.step`, `requests_of_reach`).
-/

namespace ComputeArmada.Agent
open Runs

/-- The state of request `h`, in every reachable state. -/
structure ExecInv (s : State) (h : Nat) : Prop where
  leads : 2 ≤ (s.handler h).pc.rank → (s.handler h).leader < s.os.count ∧
    (s.os.proc (s.handler h).leader).group = (s.handler h).leader ∧
    (s.os.proc (s.handler h).leader).parent = none
  eof : ∀ pipe, (s.handler h).eof pipe = true → 4 ≤ (s.handler h).pc.rank ∧ s.os.Eof pipe h
  waited : 5 ≤ (s.handler h).pc.rank → ¬ s.os.running (s.handler h).leader ∧
    ((s.handler h).endpoint = .exec → ∀ pipe, (s.handler h).eof pipe = true)
  killer : (s.handler h).killer = .absent → (s.handler h).endpoint = .exec → (s.handler h).pc.rank < 4
  termed : (s.handler h).killer = .termed → (s.handler h).ctx ≠ none
  finished : (s.handler h).killer = .finished → (s.handler h).exited = true ∨ (s.handler h).ctx ≠ none
  exited : (s.handler h).exited = true → 6 ≤ (s.handler h).pc.rank

theorem ExecInv.init (h : Nat) : ExecInv .init h := by
  constructor <;> simp [State.init, Handler.absent, Pc.rank]

theorem State.atEof_iff {s : State} (ht : s.os.Tree) {pipe : Pipe} {h : Nat} :
    s.atEof pipe h ↔ s.os.Eof pipe h :=
  ⟨fun he u hu => he u (ht u hu).1 hu, fun he u _ hu => he u hu⟩

/-- The process of a request stays the leader of its group and a child of the agent. -/
theorem ExecInv.lead {s : State} {os : Os} {h : Nat} (hi : ExecInv s h) (hl : Os.Later s.os os)
    (h2 : 2 ≤ (s.handler h).pc.rank) : (s.handler h).leader < os.count ∧
      (os.proc (s.handler h).leader).group = (s.handler h).leader ∧
      (os.proc (s.handler h).leader).parent = none := by
  obtain ⟨hlt, hg, hroot⟩ := hi.leads h2
  exact ⟨hlt.trans_le hl.count, hl.leads _ hlt hg, hl.root _ hlt hroot⟩

theorem ExecInv.congr {s t : State} {h : Nat} {e : Os.Event} (hi : ExecInv s h) (ho : Os.Step s.os e t.os)
    (he : e ≠ .spawns (some h)) (hH : t.handler h = s.handler h) : ExecInv t h where
  leads hr := by
    rw [hH] at hr ⊢
    exact hi.lead ho.later hr
  eof pipe hp := by
    rw [hH] at hp ⊢
    exact ⟨(hi.eof pipe hp).1, (hi.eof pipe hp).2.step ho he⟩
  waited hr := by
    rw [hH] at hr ⊢
    have hlt := (hi.leads (by omega)).1
    exact ⟨(ho.later.dead _ hlt (hi.waited hr).1).1, (hi.waited hr).2⟩
  killer := by rw [hH]; exact hi.killer
  termed := by rw [hH]; exact hi.termed
  finished := by rw [hH]; exact hi.finished
  exited := by rw [hH]; exact hi.exited

theorem ExecInv.move {s t : State} {h : Nat} {e : Os.Event} {H : Handler} (hi : ExecInv s h)
    (ho : Os.Step s.os e t.os) (he : e ≠ .spawns (some h)) (hH : t.handler h = H)
    (hsame : H.leader = (s.handler h).leader ∧ H.eof = (s.handler h).eof ∧
      H.endpoint = (s.handler h).endpoint)
    (hrank : (s.handler h).pc.rank ≤ H.pc.rank) (h2 : 2 ≤ H.pc.rank → 2 ≤ (s.handler h).pc.rank)
    (h5 : 5 ≤ H.pc.rank → 5 ≤ (s.handler h).pc.rank)
    (hk : H.killer = .absent → H.endpoint = .exec → H.pc.rank < 4)
    (ht : H.killer = .termed → H.ctx ≠ none)
    (hf : H.killer = .finished → H.exited = true ∨ H.ctx ≠ none)
    (hx : H.exited = true → 6 ≤ H.pc.rank) : ExecInv t h := by
  obtain ⟨hleader, heof, hend⟩ := hsame
  constructor
  · rw [hH, hleader]
    intro hr
    exact hi.lead ho.later (h2 hr)
  · rw [hH, heof]
    intro pipe hp
    exact ⟨(hi.eof pipe hp).1.trans hrank, (hi.eof pipe hp).2.step ho he⟩
  · rw [hH, hleader, heof, hend]
    intro hr
    have hr5 := h5 hr
    have hlt := (hi.leads (by omega)).1
    exact ⟨(ho.later.dead _ hlt (hi.waited hr5).1).1, (hi.waited hr5).2⟩
  all_goals rw [hH]; assumption

/-- `Wait` returns: the readers are done and the leader is dead, collected now or before. -/
theorem ExecInv.waits {s t : State} {h : Nat} {e : Os.Event} {code : Int} (hi : ExecInv s h)
    (ho : Os.Step s.os e t.os) (he : e ≠ .spawns (some h)) (hpc : (s.handler h).pc = .serving)
    (hH : t.handler h = { s.handler h with pc := .waited, code })
    (hboth : (s.handler h).endpoint = .exec → ∀ pipe, (s.handler h).eof pipe = true)
    (hdead : ¬ s.os.running (s.handler h).leader) : ExecInv t h := by
  have h2 : 2 ≤ (s.handler h).pc.rank := by simp [hpc, Pc.rank]
  have hlt := (hi.leads h2).1
  constructor <;> rw [hH]
  · exact fun _ => hi.lead ho.later h2
  · exact fun pipe hp => ⟨by simp [Pc.rank], (hi.eof pipe hp).2.step ho he⟩
  · exact fun _ => ⟨(ho.later.dead _ hlt hdead).1, hboth⟩
  · intro hk hep
    have := hi.killer hk hep
    simp [hpc, Pc.rank] at this
  · exact hi.termed
  · exact hi.finished
  · intro hx
    have := hi.exited hx
    simp [hpc, Pc.rank] at this

theorem ExecInv.act {s t : State} {h : Nat} {act : HandlerAction} (htree : s.os.Tree)
    (hi : ExecInv s h) (hs : handlerStep s h act = some t) : ExecInv t h := by
  have ho := handlerStep_os hs
  have hwait := fun heq : act = .wait => wait_inv (heq ▸ hs)
  obtain ⟨hleads, heof, hwaited, hkiller, htermed, hfinished, hexited⟩ := id hi
  cases act <;> simp only [handlerStep, Option.ite_none_right_eq_some, Option.some.injEq] at hs
  case startFails | start =>
    -- Before the start no reader has returned.
    obtain ⟨hg, rfl⟩ := hs
    have hno : ∀ pipe, (s.handler h).eof pipe ≠ true := fun pipe hp => by
      have := (heof pipe hp).1
      simp [hg, Pc.rank] at this
    constructor <;> simp_all [Pc.rank, Os.spawn, Os.add]
  case eof pipe =>
    obtain ⟨⟨hep, hpc, hat⟩, rfl⟩ := hs
    have heof' : ∀ p, Function.update (s.handler h).eof pipe true p = true → s.os.Eof p h := by
      intro p hp
      by_cases hpp : p = pipe
      · exact hpp ▸ (State.atEof_iff htree).mp hat
      · rw [Function.update_of_ne hpp] at hp
        exact (heof p hp).2
    constructor <;> simp_all [Pc.rank]
  case wait =>
    obtain ⟨⟨hpc, hboth, hdead⟩, h' | h'⟩ := hwait rfl <;> obtain ⟨-, rfl⟩ := h'
    all_goals
      refine hi.waits ho ?_ hpc (Function.update_self ..) hboth hdead
      simp only [Action.event]
      split <;> simp
  case serve =>
    obtain ⟨hg, hs⟩ := hs
    clear hwait hleads heof hwaited
    split at hs <;> cases hs <;>
      refine hi.move ho (by simp [Action.event]) (Function.update_self ..) ⟨rfl, rfl, rfl⟩ ?_ ?_ ?_ ?_ ?_ ?_ ?_ <;>
        simp_all [Pc.rank]
  case deregister =>
    clear hwait hleads heof hwaited
    split at hs <;> simp only [Option.ite_none_right_eq_some, Option.some.injEq] at hs <;>
      obtain ⟨hg, rfl⟩ := hs <;>
      refine hi.move ho (by simp [Action.event]) (Function.update_self ..) ⟨rfl, rfl, rfl⟩ ?_ ?_ ?_ ?_ ?_ ?_ ?_ <;>
        simp_all [Pc.rank]
  all_goals
    obtain ⟨hg, rfl⟩ := hs
    clear hwait hleads heof hwaited
    refine hi.move ho (by simp [Action.event]) (Function.update_self ..) ⟨rfl, rfl, rfl⟩ ?_ ?_ ?_ ?_ ?_ ?_ ?_ <;>
      clear hi ho <;> simp_all [Pc.rank]

theorem ExecInv.step {s t : State} {a : Action} {h : Nat} (htree : s.os.Tree) (hi : ExecInv s h)
    (hs : step s a = some t) : ExecInv t h := by
  rcases step_handler hs h with ⟨hH, hne⟩ | ⟨endpoint, deadline, -, -, hH⟩ | ⟨act, -, -, hs⟩
  · refine hi.congr (step_os hs) (fun he => ?_) hH
    obtain ⟨k, pid, rfl, hk⟩ := start_of_spawns he
    rw [Handler.pipes] at hk
    split at hk <;> cases hk
    exact hne _ rfl
  · constructor <;> simp [hH, Handler.absent, Pc.rank]
  · exact hi.act htree hs

/-- A step that neither starts the process nor waits for it. -/
structure Same (H H' : Handler) : Prop where
  leader : H'.leader = H.leader
  code : H'.code = H.code
  started : 2 ≤ H'.pc.rank ↔ 2 ≤ H.pc.rank
  waited : 5 ≤ H'.pc.rank ↔ 5 ≤ H.pc.rank
  reported : ∀ r, H'.reported = some r → H.reported = some r ∨ 5 ≤ H.pc.rank ∧ r.1 = H.code

theorem Same.refl (H : Handler) : Same H H := ⟨rfl, rfl, Iff.rfl, Iff.rfl, fun _ h => .inl h⟩

theorem handlerStep_same {s t : State} {h : Nat} {act : HandlerAction} (hs : handlerStep s h act = some t)
    (hstart : ∀ pid, act ≠ .start pid) (hwait : act ≠ .wait) : Same (s.handler h) (t.handler h) := by
  cases act <;> simp only [handlerStep, Option.ite_none_right_eq_some, Option.some.injEq] at hs
  case start pid => exact absurd rfl (hstart pid)
  case wait => exact absurd rfl hwait
  case serve =>
    obtain ⟨hg, hs⟩ := hs
    split at hs <;> cases hs <;> simp only [setHandler_handler, Function.update_self] <;>
      exact ⟨rfl, rfl, by simp [hg, Pc.rank], by simp [hg, Pc.rank], fun _ hr => .inl hr⟩
  case deregister =>
    split at hs <;> simp only [Option.ite_none_right_eq_some, Option.some.injEq] at hs <;>
      obtain ⟨hg, rfl⟩ := hs <;> simp only [setHandler_handler, Function.update_self] <;>
      exact ⟨rfl, rfl, by simp [hg, Pc.rank], by simp [hg, Pc.rank], fun _ hr => .inl hr⟩
  case reply copyFailed =>
    obtain ⟨hg, rfl⟩ := hs
    simp only [setHandler_handler, Function.update_self]
    refine ⟨rfl, rfl, by simp [hg, Pc.rank], by simp [hg, Pc.rank], fun r hr => .inr ?_⟩
    simp only [Option.ite_none_left_eq_some, Option.some.injEq] at hr
    exact ⟨by simp [hg, Pc.rank], by rw [← hr.2]⟩
  all_goals
    obtain ⟨hg, rfl⟩ := hs
    simp only [setHandler_handler, Function.update_self]
    exact ⟨rfl, rfl, by simp [hg, Pc.rank], by simp [hg, Pc.rank], fun _ hr => .inl hr⟩

/-! ## All requests -/

structure Requests (s : State) : Prop where
  tree : s.os.Tree
  pids : s.os.Distinct
  each : ∀ h, ExecInv s h
  known : ∀ h, 2 ≤ (s.handler h).pc.rank → h < s.requests
  inj : ∀ h k, 2 ≤ (s.handler h).pc.rank → 2 ≤ (s.handler k).pc.rank →
    (s.handler h).leader = (s.handler k).leader → h = k

theorem Requests.init : Requests .init := by
  refine ⟨.empty, ?_, ExecInv.init, ?_, ?_⟩ <;>
    simp [State.init, Os.Distinct, Os.empty, Handler.absent, Pc.rank]

/-- The leaders of a step's requests are those before it, and a new one for a start. -/
theorem Requests.step_inj {s t : State} {a : Action} (hr : Requests s) (hs : step s a = some t) (h k : Nat)
    (h2 : 2 ≤ (t.handler h).pc.rank) (k2 : 2 ≤ (t.handler k).pc.rank)
    (heq : (t.handler h).leader = (t.handler k).leader) : h = k := by
  have hmove : ∀ j, 2 ≤ (t.handler j).pc.rank →
      (2 ≤ (s.handler j).pc.rank ∧ (t.handler j).leader = (s.handler j).leader) ∨
      ((∃ pid, a = .handler j (.start pid)) ∧ (t.handler j).leader = s.os.count) := by
    intro j j2
    rcases step_handler hs j with ⟨hH, -⟩ | ⟨_, _, -, -, hH⟩ | ⟨act, rfl, -, hact⟩
    · rw [hH] at j2 ⊢
      exact .inl ⟨j2, rfl⟩
    · rw [hH] at j2
      simp [Pc.rank] at j2
    · by_cases hstart : ∃ pid, act = .start pid
      · obtain ⟨pid, rfl⟩ := hstart
        simp only [handlerStep, Option.ite_none_right_eq_some, Option.some.injEq] at hact
        obtain ⟨-, rfl⟩ := hact
        exact .inr ⟨⟨pid, rfl⟩, by simp⟩
      by_cases hwait : act = .wait
      · subst hwait
        obtain ⟨⟨hpc, -⟩, ⟨-, rfl⟩ | ⟨-, rfl⟩⟩ := wait_inv hact <;> simp [hpc, Pc.rank]
      · have hsame := handlerStep_same hact (fun pid hp => hstart ⟨pid, hp⟩) hwait
        exact .inl ⟨hsame.started.mp j2, hsame.leader⟩
  rcases hmove h h2 with ⟨h2, hl⟩ | ⟨⟨pid, rfl⟩, hl⟩ <;> rcases hmove k k2 with ⟨k2, kl⟩ | ⟨⟨pid', hk⟩, kl⟩
  · exact hr.inj h k h2 k2 (by rw [← hl, heq, kl])
  · have := ((hr.each h).leads h2).1
    omega
  · have := ((hr.each k).leads k2).1
    omega
  · cases hk
    rfl

theorem Requests.step {s t : State} {a : Action} (hr : Requests s) (hs : step s a = some t) : Requests t := by
  refine ⟨hr.tree.step (step_os hs), hr.pids.step (step_os hs), fun h => (hr.each h).step hr.tree hs,
    fun h h2 => ?_, hr.step_inj hs⟩
  rcases step_handler hs h with ⟨hH, -⟩ | ⟨_, _, -, -, hH⟩ | ⟨act, -, hlt, -⟩
  · rw [hH] at h2
    exact (hr.known h h2).trans_le (requests_mono hs)
  · rw [hH] at h2
    simp [Pc.rank] at h2
  · exact hlt.trans_le (requests_mono hs)

theorem requests_of_reach {ok : State → Action → Prop} {s : State} (hr : Reach ok .init s) : Requests s :=
  hr.inv Requests (fun _ _ _ hr _ hs => hr.step hs) .init

end ComputeArmada.Agent
