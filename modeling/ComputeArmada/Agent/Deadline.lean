import ComputeArmada.Agent.ExitStatus

/-!
# A command that ends before its deadline

* `Ended` : the process of a request is dead and nobody holds its pipes;
* `EndsFirst` : it ended by itself, and its final event is built later;
* `EndsFirst.reported` : what that event says.
-/

namespace ComputeArmada.Agent
open Runs

/-- The command of request `h` and everything holding its pipes have exited; its final event is not sent yet. -/
structure Ended (s : State) (h : Nat) : Prop where
  exec : (s.handler h).endpoint = .exec
  started : 2 ≤ (s.handler h).pc.rank
  unreported : (s.handler h).pc.rank < 7
  dead : ¬ s.os.running (s.handler h).leader
  pipes : ∀ pipe, s.atEof pipe h

/-- A request with a deadline whose command ended in `s`, before the deadline passed or the caller left; its
final event is built in `u` and sent in `v`. -/
structure EndsFirst (h : Nat) (s u v : State) (copyFailed : Bool) : Prop where
  reached : Reach Owned .init s
  deadline : (s.handler h).deadline = true
  ahead : (s.handler h).ctx = none
  ended : Ended s h
  runs : Reach Owned s u
  replies : step u (.handler h (.reply copyFailed)) = some v

theorem leader_step {s t : State} {a : Action} {h : Nat} (hr : Requests s) (hs : step s a = some t)
    (h2 : 2 ≤ (s.handler h).pc.rank) :
    2 ≤ (t.handler h).pc.rank ∧ (t.handler h).leader = (s.handler h).leader := by
  rcases step_handler hs h with ⟨hH, -⟩ | ⟨_, _, -, rfl, -⟩ | ⟨act, rfl, -, hact⟩
  · rw [hH]
    exact ⟨h2, rfl⟩
  · exact absurd (hr.known _ h2) (lt_irrefl _)
  · by_cases hstart : ∃ pid, act = .start pid
    · obtain ⟨pid, rfl⟩ := hstart
      simp only [handlerStep, Option.ite_none_right_eq_some] at hact
      rw [hact.1.1] at h2
      exact absurd h2 (by decide)
    by_cases hwait : act = .wait
    · subst hwait
      obtain ⟨-, ⟨-, rfl⟩ | ⟨-, rfl⟩⟩ := wait_inv hact <;> simp [Pc.rank]
    · have hsame := handlerStep_same hact (fun pid hp => hstart ⟨pid, hp⟩) hwait
      exact ⟨hsame.started.mpr h2, hsame.leader⟩

theorem leader_run {ok : State → Action → Prop} {s t : State} {h : Nat} (hr : Requests s) (hrun : Reach ok s t)
    (h2 : 2 ≤ (s.handler h).pc.rank) :
    2 ≤ (t.handler h).pc.rank ∧ (t.handler h).leader = (s.handler h).leader :=
  hrun.inv_of Requests (fun t => 2 ≤ (t.handler h).pc.rank ∧ (t.handler h).leader = (s.handler h).leader)
    (fun _ _ _ hr _ hs => hr.step hs)
    (fun _ _ _ hr hkept _ hs => ⟨(leader_step hr hs hkept.1).1, (leader_step hr hs hkept.1).2.trans hkept.2⟩)
    hr ⟨h2, rfl⟩

theorem later_run {ok : State → Action → Prop} {s t : State} (hrun : Reach ok s t) : s.os.Later t.os :=
  hrun.rel (fun s t => s.os.Later t.os) (fun s => .refl s.os) (fun _ _ _ h h' => h.trans h')
    (fun _ _ _ _ hs => (step_os hs).later)

section
variable {h : Nat} {s u v : State} {copyFailed : Bool}

def ownCode (s : State) (h : Nat) : Int := (s.os.proc (s.handler h).leader).code

theorem EndsFirst.code (hf : EndsFirst h s u v copyFailed) : (u.handler h).code = ownCode s h := by
  have hr := requests_of_reach hf.reached
  obtain ⟨-, hleader⟩ := leader_run hr hf.runs hf.ended.started
  have hpc : (u.handler h).pc = .closed := by
    have hact := (step_eq hf.replies).2.2
    simp only [handlerStep, Option.ite_none_right_eq_some] at hact
    exact hact.1
  obtain ⟨-, hcode⟩ := (own_of_reach (hf.reached.trans hf.runs) h).waited (by simp [hpc, Pc.rank])
  have hlt := ((hr.each h).leads hf.ended.started).1
  rw [hcode, hleader, ((later_run hf.runs).dead _ hlt hf.ended.dead).2, ownCode]

/-- The final event has the command's own code, and says what the context says by then. -/
theorem EndsFirst.reported (hf : EndsFirst h s u v copyFailed) : (v.handler h).reported =
    if copyFailed = true ∧ ownCode s h = 0 then none
    else some (ownCode s h, decide ((u.handler h).ctx = some .deadlineExceeded)) := by
  have hcode := hf.code
  have hact := (step_eq hf.replies).2.2
  simp only [handlerStep, Option.ite_none_right_eq_some, Option.some.injEq] at hact
  obtain ⟨-, rfl⟩ := hact
  simp only [setHandler_handler, Function.update_self, hcode]

end

end ComputeArmada.Agent
