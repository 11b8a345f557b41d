import Mathlib.Data.List.Basic

/-!
# Runs of a machine driven by actions

A machine is a function `step : S → A → Option S`, with `none` where an action is not enabled; a
system with free choices is a relation `S → A → S → Prop`, and `Fires step` is the function's.

* `Run step ok s t` : `t` is reached from `s` by steps each of which meets `ok` in the state it is
  taken from (`Run.trans`, `Run.mono`, `Run.head`);
* `Run.inv` : what holds at the start and is kept by every step holds at the end;
* `Run.rel` : a preorder that every step respects relates the two ends;
* `exec` : a finite schedule run on a machine, and the `Run` it is (`Run.of_exec`,
  `Run.exists_of_exec`).
-/

namespace Runs

variable {S A : Type*}

/-- `t` is reached from `s` by steps that each meet `ok` in the state they are taken from. -/
inductive Run (step : S → A → S → Prop) (ok : S → A → Prop) : S → S → Prop
  | refl (s : S) : Run step ok s s
  | tail {s t u : S} {a : A} : Run step ok s t → ok t a → step t a u → Run step ok s u

/-- No condition on the steps. -/
abbrev Any : S → A → Prop := fun _ _ => True

/-- The relation of a machine given as a function. -/
def Fires (step : S → A → Option S) : S → A → S → Prop := fun s a t => step s a = some t

section
variable {step : S → A → S → Prop} {ok ok' : S → A → Prop} {s t u : S}

theorem Run.single {a : A} (hok : ok s a) (h : step s a t) : Run step ok s t :=
  .tail (.refl s) hok h

theorem Run.trans (h : Run step ok s t) (h' : Run step ok t u) : Run step ok s u := by
  induction h' with
  | refl => exact h
  | tail _ hok hs ih => exact .tail ih hok hs

theorem Run.head {a : A} (hok : ok s a) (hs : step s a t) (h : Run step ok t u) : Run step ok s u :=
  (Run.single hok hs).trans h

theorem Run.mono (hok : ∀ s a, ok s a → ok' s a) (h : Run step ok s t) : Run step ok' s t := by
  induction h with
  | refl => exact .refl _
  | tail _ h hs ih => exact .tail ih (hok _ _ h) hs

/-- What holds at the start of a run and is kept by every step of it holds at its end. -/
theorem Run.inv (I : S → Prop) (hstep : ∀ t a u, I t → ok t a → step t a u → I u)
    (h : Run step ok s t) (h0 : I s) : I t := by
  induction h with
  | refl => exact h0
  | tail _ hok hs ih => exact hstep _ _ _ ih hok hs

/-- An invariant that needs a second one, already known of every state of the run. -/
theorem Run.inv_of (J I : S → Prop) (hJ : ∀ t a u, J t → ok t a → step t a u → J u)
    (hstep : ∀ t a u, J t → I t → ok t a → step t a u → I u)
    (h : Run step ok s t) (hJ0 : J s) (h0 : I s) : I t :=
  (h.inv (fun t => J t ∧ I t)
    (fun t a u ⟨j, i⟩ hok hs => ⟨hJ t a u j hok hs, hstep t a u j i hok hs⟩) ⟨hJ0, h0⟩).2

/-- A preorder that every step respects relates the two ends of a run. -/
theorem Run.rel (R : S → S → Prop) (hrefl : ∀ s, R s s) (htrans : ∀ s t u, R s t → R t u → R s u)
    (hstep : ∀ t a u, ok t a → step t a u → R t u) (h : Run step ok s t) : R s t := by
  induction h with
  | refl => exact hrefl _
  | tail _ hok hs ih => exact htrans _ _ _ ih (hstep _ _ _ hok hs)

end

/-! ## Schedules -/

/-- A finite schedule, run on a machine: `none` as soon as an action is not enabled or is not `ok`. -/
def exec (step : S → A → Option S) (ok : S → A → Prop) [∀ s a, Decidable (ok s a)] :
    S → List A → Option S
  | s, [] => some s
  | s, a :: as => if ok s a then (step s a).bind (fun t => exec step ok t as) else none

theorem Run.of_exec (step : S → A → Option S) (ok : S → A → Prop) [∀ s a, Decidable (ok s a)] :
    ∀ (as : List A) (s t : S), exec step ok s as = some t → Run (Fires step) ok s t
  | [], s, t, h => by
    rw [exec, Option.some.injEq] at h
    exact h ▸ .refl s
  | a :: as, s, t, h => by
    rw [exec] at h
    split at h
    · rename_i hok
      obtain ⟨u, hu, h⟩ := Option.bind_eq_some_iff.mp h
      exact Run.head hok hu (Run.of_exec step ok as u t h)
    · cases h

/-- A schedule whose end passes a test is a run to a state that does. -/
theorem Run.exists_of_exec (step : S → A → Option S) (ok : S → A → Prop) [∀ s a, Decidable (ok s a)]
    (p : S → Prop) [DecidablePred p] (s : S) (as : List A)
    (h : (exec step ok s as).any (fun t => decide (p t)) = true) : ∃ t, Run (Fires step) ok s t ∧ p t := by
  cases ht : exec step ok s as with
  | none => simp [ht] at h
  | some t => exact ⟨t, Run.of_exec step ok as s t ht, by simpa [ht] using h⟩

end Runs
