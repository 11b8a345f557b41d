import ComputeArmada.Lib.Async

/-!
# Processes in one environment

Numbered systems that share nothing with each other but an environment.

* `Fleet`, `Fleet.step` : the processes, and a step of one of them;
* `Holds.move` : what a process may rely on while the environment moves;
* `Fleet.holds` : where each process is sound and no step of one disturbs another, every run of them all
  keeps to every one's specification;
* `Fleet.inv_asked` : an invariant of the environment and of what the processes have asked of it.
-/

namespace Async
open Runs

/-- Processes and the environment; that of each process alone is not looked at. -/
structure Fleet (σ : Type) {Q : Type} (A : Q → Type) (ε α E L : Type) where
  env : E
  process : Nat → World σ A ε α E L

section
variable {σ Q : Type} {A : Q → Type} {ε α E C D L : Type}

namespace Fleet

/-- Process `p`, in the environment. -/
def world (f : Fleet σ A ε α E L) (p : Nat) : World σ A ε α E L := { f.process p with env := f.env }

/-- Every process is about to begin in `s`. -/
def start (s : σ) (e : E) : Fleet σ A ε α E L := { env := e, process := fun _ => .start s e }

def step (sys : Nat → System σ A ε α E C D L) (f : Fleet σ A ε α E L) (x : Nat × Act C D L) :
    Option (Fleet σ A ε α E L) :=
  ((sys x.1).step (f.world x.1) x.2).map fun w =>
    { env := w.env, process := Function.update f.process x.1 w }

end Fleet

variable {sys : Nat → System σ A ε α E C D L} {sp : Nat → Spec σ A ε α E L}

/-- The environment moves as a process relies on it to. -/
theorem Holds.move {sp : Spec σ A ε α E L} (law : sp.Lawful) {w : World σ A ε α E L} {e : E} (hw : Holds sp w)
    (hinv : sp.inv w.shared e) (hr : sp.rely (w.shared, w.env) (w.shared, e)) :
    Holds sp { w with env := e } :=
  ⟨hinv, fun n l phase hn => (hw.calls n l phase hn).later law hr,
    fun x hx => law.issued _ _ _ _ _ _ hr (hw.log x hx)⟩

/-- No step of a process disturbs another. -/
def Undisturbed (sys : Nat → System σ A ε α E C D L) (sp : Nat → Spec σ A ε α E L) : Prop :=
  ∀ p q w w' a s, Holds (sp p) w → Holds (sp p) w' → (sys p).step w a = some w' → (sp q).inv s w.env →
    (sp q).inv s w'.env ∧ (sp q).rely (s, w.env) (s, w'.env)

namespace Fleet

theorem holds_start {s : σ} {e : E} (h : ∀ p, (sp p).inv s e) (p : Nat) :
    Holds (sp p) ((start s e : Fleet σ A ε α E L).world p) := Async.holds_start (h p)

theorem step_holds (hs : ∀ p, Sound (sys p) (sp p)) (hok : ∀ p w a, Allowed (sys p) (sp p) w a)
    (hquiet : Undisturbed sys sp) {f f' : Fleet σ A ε α E L} {x : Nat × Act C D L}
    (hf : ∀ p, Holds (sp p) (f.world p)) (h : step sys f x = some f') (p : Nat) : Holds (sp p) (f'.world p) := by
  obtain ⟨w, hstep, rfl⟩ := Option.map_eq_some_iff.mp h
  have hw : Holds (sp x.1) w := ((hs x.1).step (hf x.1) (hok _ _ _) hstep).1
  by_cases hp : p = x.1
  · subst hp
    simpa only [world, Function.update_self] using hw
  · obtain ⟨hinv, hr⟩ := hquiet x.1 p _ w x.2 (f.world p).shared (hf x.1) hw hstep (hf p).inv
    simpa only [world, Function.update_of_ne hp] using (hf p).move (hs p).law hinv hr

/-- Every run of the fleet keeps to what each process is to keep. -/
theorem holds (hs : ∀ p, Sound (sys p) (sp p)) (hok : ∀ p w a, Allowed (sys p) (sp p) w a)
    (hquiet : Undisturbed sys sp) {f f' : Fleet σ A ε α E L} (hf : ∀ p, Holds (sp p) (f.world p))
    (h : Run (Fires (step sys)) Any f f') (p : Nat) : Holds (sp p) (f'.world p) :=
  h.inv (fun f => ∀ p, Holds (sp p) (f.world p))
    (fun _ _ _ hf _ hstep => step_holds hs hok hquiet hf hstep) hf p

/-! ## What was asked -/

/-- Process `p` has asked `q` for call `c`. -/
def Asked (f : Fleet σ A ε α E L) (p : Nat) (c : Caller L) (q : Q) : Prop := (c, q) ∈ (f.process p).log

/-- Whatever a call waits for, it has asked. -/
def Recorded (f : Fleet σ A ε α E L) : Prop :=
  ∀ p n l q k, (f.process p).calls n = some (l, .asking q k) → f.Asked p (n, l) q

theorem recorded_start (s : σ) (e : E) : (start s e : Fleet σ A ε α E L).Recorded := by
  intro p n l q k h
  cases h

theorem step_asked {f f' : Fleet σ A ε α E L} {x : Nat × Act C D L} (h : step sys f x = some f')
    (hf : f.Recorded) : (∀ p c q, f.Asked p c q → f'.Asked p c q) ∧ f'.Recorded := by
  obtain ⟨w, hstep, rfl⟩ := Option.map_eq_some_iff.mp h
  obtain ⟨hlog, hasking⟩ := System.asked hstep (hf x.1)
  refine ⟨fun p c q hq => ?_, fun p n l q k hn => ?_⟩
  · by_cases hp : p = x.1
    · subst hp
      simpa only [Asked, Function.update_self] using hlog _ hq
    · simpa only [Asked, Function.update_of_ne hp] using hq
  · by_cases hp : p = x.1
    · subst hp
      simp only [Asked, Function.update_self] at hn ⊢
      exact hasking n l q k hn
    · simp only [Asked, Function.update_of_ne hp] at hn ⊢
      exact hf p n l q k hn

/-- The environment answers what a process has asked, or moves. -/
theorem step_env {f f' : Fleet σ A ε α E L} {x : Nat × Act C D L} (h : step sys f x = some f')
    (hf : f.Recorded) : f'.env = f.env ∨
      (∃ p c q ch a, f.Asked p c q ∧ (sys p).respond f.env c.1 q ch = some (a, f'.env)) ∨
      ∃ p d, x = (p, .drift d) ∧ (sys p).drift f.env d = some f'.env := by
  obtain ⟨w, hstep, rfl⟩ := Option.map_eq_some_iff.mp h
  obtain ⟨p, act⟩ := x
  rcases System.env_cases hstep with henv | ⟨n, ch, l, q, k, a, -, hn, hresp⟩ | ⟨d, rfl, hd⟩
  · exact .inl henv
  · exact .inr (.inl ⟨p, (n, l), q, ch, a, hf p n l q k hn, hresp⟩)
  · exact .inr (.inr ⟨p, d, rfl, hd⟩)

/-- An invariant of the environment and of what it has been asked: more may be asked, what was asked may be
answered, and the environment may move. -/
theorem inv_asked {ok : Fleet σ A ε α E L → Nat × Act C D L → Prop} (I : E → (Nat → Caller L → Q → Prop) → Prop)
    (hmore : ∀ e asked asked', (∀ p c q, asked p c q → asked' p c q) → I e asked → I e asked')
    (hrespond : ∀ e e' asked p c q ch a, I e asked → asked p c q → (sys p).respond e c.1 q ch = some (a, e') →
      I e' asked)
    (hdrift : ∀ f e' asked p d, I f.env asked → ok f (p, .drift d) → (sys p).drift f.env d = some e' → I e' asked)
    {f f' : Fleet σ A ε α E L} (h : Run (Fires (step sys)) ok f f') (hf : f.Recorded) (h0 : I f.env f.Asked) :
    I f'.env f'.Asked := by
  refine h.inv_of Recorded (fun f => I f.env f.Asked) (fun _ _ _ hf _ hstep => (step_asked hstep hf).2) ?_ hf h0
  intro f x f' hf hI hok hstep
  refine hmore _ _ _ (step_asked hstep hf).1 ?_
  rcases step_env hstep hf with henv | ⟨p, c, q, ch, a, hq, hresp⟩ | ⟨p, d, rfl, hd⟩
  · exact henv ▸ hI
  · exact hrespond _ _ _ p c q ch a hI hq hresp
  · exact hdrift f _ _ p d hI hok hd

end Fleet

end

end Async
