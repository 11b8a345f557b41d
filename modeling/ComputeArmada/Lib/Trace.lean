import ComputeArmada.Lib.Async

/-!
# What one program asks and comes to

A program on its own, whatever the others leave it to read and the environment answers.

* `Gives` : its requests with their answers, and its outcome;
* `gives_bind`, `gives_attempt`, `gives_tryCatch`, … : of a program by its parts;
* `System.gives` : every call that is through in a run came to its outcome so.
-/

namespace Async
open Runs

section
variable {σ Q : Type} {A : Q → Type} {ε α β : Type}

inductive Gives : Prog σ A ε α → List (Σ q, A q) → Except ε α → Prop
  | done (a : α) : Gives (.done a) [] (.ok a)
  | fail (x : ε) : Gives (.fail x) [] (.error x)
  | get {k trace r} (s : σ) (h : Gives (k s) trace r) : Gives (.get k) trace r
  | set {s k trace r} (h : Gives k trace r) : Gives (.set s k) trace r
  | ask {q k trace r} (a : A q) (h : Gives (k a) trace r) : Gives (.ask q k) (⟨q, a⟩ :: trace) r

variable {p : Prog σ A ε α} {trace : List (Σ q, A q)}

theorem gives_pure {a : α} {r : Except ε α} : Gives (pure a : Prog σ A ε α) trace r ↔ trace = [] ∧ r = .ok a := by
  constructor
  · intro h
    cases h
    exact ⟨rfl, rfl⟩
  · rintro ⟨rfl, rfl⟩
    exact .done a

theorem gives_ofExcept {x r : Except ε α} : Gives (.ofExcept x : Prog σ A ε α) trace r ↔ trace = [] ∧ r = x := by
  cases x with
  | ok a => exact gives_pure
  | error x =>
    constructor
    · intro h
      cases h
      exact ⟨rfl, rfl⟩
    · rintro ⟨rfl, rfl⟩
      exact .fail x

theorem gives_get {f : σ → Prog σ A ε α} {r : Except ε α} :
    Gives (MonadState.get >>= f) trace r ↔ ∃ s, Gives (f s) trace r := by
  constructor
  · intro h
    cases h with
    | get s h => exact ⟨s, h⟩
  · rintro ⟨s, h⟩
    exact .get s h

theorem gives_ask {q : Q} {k : A q → Prog σ A ε α} {r : Except ε α} :
    Gives (.ask q k) trace r ↔ ∃ a trace', trace = ⟨q, a⟩ :: trace' ∧ Gives (k a) trace' r := by
  constructor
  · intro h
    cases h with
    | ask a h => exact ⟨a, _, rfl, h⟩
  · rintro ⟨a, trace', rfl, h⟩
    exact .ask a h

/-- A program that goes on ends early with an error, or goes on with a value. -/
theorem gives_bind {f : α → Prog σ A ε β} {r : Except ε β} : Gives (p >>= f) trace r ↔
    (∃ x, r = .error x ∧ Gives p trace (.error x)) ∨
    ∃ a before after, trace = before ++ after ∧ Gives p before (.ok a) ∧ Gives (f a) after r := by
  constructor
  · intro h
    induction p generalizing trace with
    | done a => exact .inr ⟨a, [], trace, rfl, .done a, h⟩
    | fail x =>
      cases h
      exact .inl ⟨x, rfl, .fail x⟩
    | get k ih =>
      cases h with
      | get s h =>
        rcases ih s h with ⟨x, hr, h⟩ | ⟨a, before, after, htrace, hp, h⟩
        · exact .inl ⟨x, hr, .get s h⟩
        · exact .inr ⟨a, before, after, htrace, .get s hp, h⟩
    | set s k ih =>
      cases h with
      | set h =>
        rcases ih h with ⟨x, hr, h⟩ | ⟨a, before, after, htrace, hp, h⟩
        · exact .inl ⟨x, hr, .set h⟩
        · exact .inr ⟨a, before, after, htrace, .set hp, h⟩
    | ask q k ih =>
      cases h with
      | ask x h =>
        rcases ih x h with ⟨x', hr, h⟩ | ⟨a, before, after, rfl, hp, h⟩
        · exact .inl ⟨x', hr, .ask x h⟩
        · exact .inr ⟨a, ⟨q, x⟩ :: before, after, rfl, .ask x hp, h⟩
  · rintro (⟨x, rfl, h⟩ | ⟨a, before, after, rfl, hp, h⟩)
    · generalize hr : Except.error x = r at h
      induction h with
      | done a => cases hr
      | fail x' =>
        cases hr
        exact .fail x
      | get s _ ih => exact .get s (ih hr)
      | set _ ih => exact .set (ih hr)
      | ask a _ ih => exact .ask a (ih hr)
    · generalize hr : Except.ok a = r' at hp
      induction hp with
      | done a' =>
        cases hr
        exact h
      | fail x => cases hr
      | get s _ ih => exact .get s (ih hr)
      | set _ ih => exact .set (ih hr)
      | ask a _ ih => exact .ask a (ih hr)

theorem gives_attempt {r : Except ε (Except ε α)} :
    Gives p.attempt trace r ↔ ∃ r', r = .ok r' ∧ Gives p trace r' := by
  constructor
  · intro h
    induction p generalizing trace with
    | done a =>
      cases h
      exact ⟨_, rfl, .done a⟩
    | fail x =>
      cases h
      exact ⟨_, rfl, .fail x⟩
    | get k ih =>
      cases h with
      | get s h =>
        obtain ⟨r', hr, h⟩ := ih s h
        exact ⟨r', hr, .get s h⟩
    | set s k ih =>
      cases h with
      | set h =>
        obtain ⟨r', hr, h⟩ := ih h
        exact ⟨r', hr, .set h⟩
    | ask q k ih =>
      cases h with
      | ask a h =>
        obtain ⟨r', hr, h⟩ := ih a h
        exact ⟨r', hr, .ask a h⟩
  · rintro ⟨r', rfl, h⟩
    induction h with
    | done a => exact .done _
    | fail x => exact .done _
    | get s _ ih => exact .get s ih
    | set _ ih => exact .set ih
    | ask a _ ih => exact .ask a ih

/-- A program that is caught ends well by itself, or as its handler does. -/
theorem gives_tryCatch {h : ε → Prog σ A ε α} {r : Except ε α} : Gives (tryCatch p h) trace r ↔
    (∃ a, r = .ok a ∧ Gives p trace (.ok a)) ∨
    ∃ x before after, trace = before ++ after ∧ Gives p before (.error x) ∧ Gives (h x) after r := by
  change Gives (p.attempt >>= Prog.handle h) trace r ↔ _
  rw [gives_bind]
  constructor
  · rintro (⟨x, -, hp⟩ | ⟨outcome, before, after, rfl, hp, h⟩)
    · obtain ⟨r', hr, -⟩ := gives_attempt.mp hp
      cases hr
    · obtain ⟨r', hr, hp⟩ := gives_attempt.mp hp
      obtain rfl := Except.ok.inj hr
      cases outcome with
      | ok a =>
        obtain ⟨rfl, rfl⟩ := gives_pure.mp h
        exact .inl ⟨a, rfl, by rwa [List.append_nil]⟩
      | error x => exact .inr ⟨x, before, after, rfl, hp, h⟩
  · rintro (⟨a, rfl, hp⟩ | ⟨x, before, after, rfl, hp, h⟩)
    · exact .inr ⟨.ok a, trace, [], (List.append_nil _).symm, gives_attempt.mpr ⟨_, rfl, hp⟩, .done a⟩
    · exact .inr ⟨.error x, before, after, rfl, gives_attempt.mpr ⟨_, rfl, hp⟩, h⟩

end

/-! ## In a run -/

section
variable {σ Q : Type} {A : Q → Type} {ε α E C D L : Type}

/-- What is to come of a call. -/
inductive Phase.Gives : Phase σ A ε α → List (Σ q, A q) → Except ε α → Prop
  | asking {q k trace r} (h : Async.Gives (.ask q k) trace r) : Gives (.asking q k) trace r
  | answered {q a k trace r} (h : Async.Gives (k a) trace r) : Gives (.answered q a k) (⟨q, a⟩ :: trace) r
  | settled (r : Except ε α) : Gives (.settled r) [] r

theorem Phase.Gives.of_advance {p : Prog σ A ε α} {s : σ} {trace : List (Σ q, A q)} {r : Except ε α}
    (h : (advance p s).2.Gives trace r) : Async.Gives p trace r := by
  induction p generalizing s with
  | done a =>
    cases h
    exact .done a
  | fail x =>
    cases h
    exact .fail x
  | get k ih => exact .get s (ih s h)
  | set s' k ih => exact .set (ih h)
  | ask q k =>
    cases h with
    | asking h => exact h

/-- What is to come of every call is what its program gives after what it has asked. -/
def Given (sys : System σ A ε α E C D L) (w : World σ A ε α E L) : Prop :=
  ∀ n l phase, w.calls n = some (l, phase) →
    ∃ before, ∀ after r, phase.Gives after r → Async.Gives (sys.body l) (before ++ after) r

variable {sys : System σ A ε α E C D L}

theorem Given.step {w w' : World σ A ε α E L} {a : Act C D L} (hw : Given sys w) (h : sys.step w a = some w') :
    Given sys w' := by
  intro n l phase hn
  by_cases hcall : a.call = some n
  · cases a with
    | drift d => cases hcall
    | begin m l' =>
      cases hcall
      simp only [System.step] at h
      split at h <;> cases h
      simp only [World.run, Function.update_self, Option.some.injEq, Prod.mk.injEq] at hn
      obtain ⟨rfl, rfl⟩ := hn
      exact ⟨[], fun after r h => h.of_advance⟩
    | resume m =>
      cases hcall
      simp only [System.step] at h
      split at h <;> cases h
      rename_i q x k hold
      simp only [World.run, Function.update_self, Option.some.injEq, Prod.mk.injEq] at hn
      obtain ⟨rfl, rfl⟩ := hn
      obtain ⟨before, hbefore⟩ := hw _ _ _ hold
      refine ⟨before ++ [⟨q, x⟩], fun after r h => ?_⟩
      rw [List.append_assoc]
      exact hbefore _ r (.answered h.of_advance)
    | serve m ch =>
      cases hcall
      simp only [System.step] at h
      split at h
      · rename_i q k hold
        obtain ⟨⟨x, e⟩, -, rfl⟩ := Option.map_eq_some_iff.mp h
        simp only [Function.update_self, Option.some.injEq, Prod.mk.injEq] at hn
        obtain ⟨rfl, rfl⟩ := hn
        obtain ⟨before, hbefore⟩ := hw _ _ _ hold
        refine ⟨before, fun after r h => ?_⟩
        cases h with
        | answered h => exact hbefore _ r (.asking (.ask x h))
      · cases h
  · exact hw n l phase (by rw [← System.frame h hcall, hn])

/-- **Every call that is through came to its outcome by what its program gives.** -/
theorem System.gives {ok : World σ A ε α E L → Act C D L → Prop} {s : σ} {e : E} {w : World σ A ε α E L}
    {n : Nat} {l : L} {r : Except ε α} (h : Run (Fires sys.step) ok (.start s e) w)
    (hn : w.calls n = some (l, .settled r)) :
    ∃ trace, Async.Gives (sys.body l) trace r := by
  have hw : Given sys w :=
    h.inv (Given sys) (fun _ _ _ hw _ hstep => hw.step hstep) fun _ _ _ hn => nomatch hn
  obtain ⟨before, hbefore⟩ := hw n l _ hn
  exact ⟨_, hbefore [] r (.settled r)⟩

end

end Async
