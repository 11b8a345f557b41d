import ComputeArmada.Lib.Trace

/-!
# From one state to another

A program on its own again, now with the state that it begins and ends in, and what the others may do to it
while it waits.

* `Leads` : its requests with their answers, where they lead, and its outcome;
* `leads_bind`, `leads_attempt`, … : of a program by its parts;
* `Prog.Stateless` : a program that neither reads nor writes, `Leads.rely` : it leaves the state to the others;
* `Prog.play` : the run that answers lead to; `exists_leads` : however it is answered, there is one.
-/

namespace Async

section
variable {σ Q : Type} {A : Q → Type} {ε α β : Type}

/-- A program from a state to a state, which the others change as `R` says during each wait. -/
inductive Leads (R : σ → σ → Prop) : Prog σ A ε α → σ → List (Σ q, A q) → σ → Except ε α → Prop
  | done (a : α) (s : σ) : Leads R (.done a) s [] s (.ok a)
  | fail (x : ε) (s : σ) : Leads R (.fail x) s [] s (.error x)
  | get {k s trace s' r} (h : Leads R (k s) s trace s' r) : Leads R (.get k) s trace s' r
  | set {k s s₁ trace s' r} (h : Leads R k s₁ trace s' r) : Leads R (.set s₁ k) s trace s' r
  | ask {q k s s₁ trace s' r} (a : A q) (hr : R s s₁) (h : Leads R (k a) s₁ trace s' r) :
      Leads R (.ask q k) s (⟨q, a⟩ :: trace) s' r

variable {R : σ → σ → Prop} {p : Prog σ A ε α} {trace : List (Σ q, A q)} {s s' : σ}

theorem Leads.gives {r : Except ε α} (h : Leads R p s trace s' r) : Gives p trace r := by
  induction h with
  | done a s => exact .done a
  | fail x s => exact .fail x
  | get _ ih => exact .get _ ih
  | set _ ih => exact .set ih
  | ask a _ _ ih => exact .ask a ih

theorem leads_pure {a : α} {r : Except ε α} :
    Leads R (pure a : Prog σ A ε α) s trace s' r ↔ trace = [] ∧ s' = s ∧ r = .ok a := by
  constructor
  · intro h
    cases h
    exact ⟨rfl, rfl, rfl⟩
  · rintro ⟨rfl, rfl, rfl⟩
    exact .done a s'

theorem leads_throw {x : ε} {r : Except ε α} :
    Leads R (throw x : Prog σ A ε α) s trace s' r ↔ trace = [] ∧ s' = s ∧ r = .error x := by
  constructor
  · intro h
    cases h
    exact ⟨rfl, rfl, rfl⟩
  · rintro ⟨rfl, rfl, rfl⟩
    exact .fail x s'

theorem leads_ofExcept {x r : Except ε α} :
    Leads R (.ofExcept x : Prog σ A ε α) s trace s' r ↔ trace = [] ∧ s' = s ∧ r = x := by
  cases x with
  | ok a => exact leads_pure
  | error x => exact leads_throw

theorem leads_get {f : σ → Prog σ A ε α} {r : Except ε α} :
    Leads R (MonadState.get >>= f) s trace s' r ↔ Leads R (f s) s trace s' r := by
  constructor
  · intro h
    cases h with
    | get h => exact h
  · exact .get

theorem leads_modify {g : σ → σ} {r : Except ε Unit} :
    Leads R (modify g : Prog σ A ε Unit) s trace s' r ↔ trace = [] ∧ s' = g s ∧ r = .ok () := by
  constructor
  · intro h
    cases h with
    | get h => cases h with
      | set h =>
        cases h
        exact ⟨rfl, rfl, rfl⟩
  · rintro ⟨rfl, rfl, rfl⟩
    exact .get (.set (.done () _))

theorem leads_ask {q : Q} {k : A q → Prog σ A ε α} {r : Except ε α} : Leads R (.ask q k) s trace s' r ↔
    ∃ a s₁ rest, trace = ⟨q, a⟩ :: rest ∧ R s s₁ ∧ Leads R (k a) s₁ rest s' r := by
  constructor
  · intro h
    cases h with
    | ask a hr h => exact ⟨a, _, _, rfl, hr, h⟩
  · rintro ⟨a, s₁, rest, rfl, hr, h⟩
    exact .ask a hr h

/-- A program that goes on ends early with an error, or goes on with a value. -/
theorem leads_bind {f : α → Prog σ A ε β} {r : Except ε β} : Leads R (p >>= f) s trace s' r ↔
    (∃ x, r = .error x ∧ Leads R p s trace s' (.error x)) ∨
    ∃ a before after s₁, trace = before ++ after ∧ Leads R p s before s₁ (.ok a) ∧
      Leads R (f a) s₁ after s' r := by
  change Leads R (p.bind f) s trace s' r ↔ _
  constructor
  · intro h
    induction p generalizing s trace with
    | done a => exact .inr ⟨a, [], trace, _, rfl, .done a _, h⟩
    | fail x =>
      cases h
      exact .inl ⟨x, rfl, .fail x _⟩
    | get k ih =>
      cases h with
      | get h =>
        rcases ih _ h with ⟨x, hr, h⟩ | ⟨a, before, after, s₁, htrace, hp, h⟩
        · exact .inl ⟨x, hr, .get h⟩
        · exact .inr ⟨a, before, after, s₁, htrace, .get hp, h⟩
    | set s₂ k ih =>
      cases h with
      | set h =>
        rcases ih h with ⟨x, hr, h⟩ | ⟨a, before, after, s₁, htrace, hp, h⟩
        · exact .inl ⟨x, hr, .set h⟩
        · exact .inr ⟨a, before, after, s₁, htrace, .set hp, h⟩
    | ask q k ih =>
      cases h with
      | ask x hR h =>
        rcases ih x h with ⟨x', hr, h⟩ | ⟨a, before, after, s₁, rfl, hp, h⟩
        · exact .inl ⟨x', hr, .ask x hR h⟩
        · exact .inr ⟨a, ⟨q, x⟩ :: before, after, s₁, rfl, .ask x hR hp, h⟩
  · rintro (⟨x, rfl, h⟩ | ⟨a, before, after, s₁, rfl, hp, h⟩)
    · generalize hr : Except.error x = r at h
      induction h with
      | done a s => cases hr
      | fail x' s =>
        cases hr
        exact .fail x s
      | get _ ih => exact .get (ih hr)
      | set _ ih => exact .set (ih hr)
      | ask a hR _ ih => exact .ask a hR (ih hr)
    · generalize hr : Except.ok a = r' at hp
      induction hp with
      | done a' s =>
        cases hr
        exact h
      | fail x s => cases hr
      | get _ ih => exact .get (ih h hr)
      | set _ ih => exact .set (ih h hr)
      | ask x hR _ ih => exact .ask x hR (ih h hr)

theorem leads_attempt {r : Except ε (Except ε α)} :
    Leads R p.attempt s trace s' r ↔ ∃ r', r = .ok r' ∧ Leads R p s trace s' r' := by
  constructor
  · intro h
    induction p generalizing s trace with
    | done a =>
      cases h
      exact ⟨_, rfl, .done a s'⟩
    | fail x =>
      cases h
      exact ⟨_, rfl, .fail x s'⟩
    | get k ih =>
      cases h with
      | get h =>
        obtain ⟨r', hr, h⟩ := ih _ h
        exact ⟨r', hr, .get h⟩
    | set s₁ k ih =>
      cases h with
      | set h =>
        obtain ⟨r', hr, h⟩ := ih h
        exact ⟨r', hr, .set h⟩
    | ask q k ih =>
      cases h with
      | ask a hR h =>
        obtain ⟨r', hr, h⟩ := ih a h
        exact ⟨r', hr, .ask a hR h⟩
  · rintro ⟨r', rfl, h⟩
    induction h with
    | done a s => exact .done _ s
    | fail x s => exact .done _ s
    | get _ ih => exact .get ih
    | set _ ih => exact .set ih
    | ask a hR _ ih => exact .ask a hR ih

/-- The run of a program on its own whose requests are answered so. -/
def Prog.play (answer : (q : Q) → A q) : Prog σ A ε α → σ → List (Σ q, A q) × σ × Except ε α
  | .done a, s => ([], s, .ok a)
  | .fail x, s => ([], s, .error x)
  | .get k, s => (k s).play answer s
  | .set s k, _ => k.play answer s
  | .ask q k, s =>
    let (trace, s', r) := (k (answer q)).play answer s
    (⟨q, answer q⟩ :: trace, s', r)

theorem leads_play (refl : ∀ s, R s s) (answer : (q : Q) → A q) (p : Prog σ A ε α) (s : σ) :
    Leads R p s (p.play answer s).1 (p.play answer s).2.1 (p.play answer s).2.2 := by
  induction p generalizing s with
  | done a => exact .done a s
  | fail x => exact .fail x s
  | get k ih => exact .get (ih s s)
  | set s₁ k ih => exact .set (ih s₁)
  | ask q k ih => exact .ask _ (refl s) (ih _ s)

theorem answered_play (answer : (q : Q) → A q) (p : Prog σ A ε α) (s : σ) :
    ∀ x ∈ (p.play answer s).1, x.2 = answer x.1 := by
  induction p generalizing s with
  | done a => exact fun _ h => nomatch h
  | fail x => exact fun _ h => nomatch h
  | get k ih => exact ih s s
  | set s₁ k ih => exact ih s₁
  | ask q k ih => exact List.forall_mem_cons.mpr ⟨rfl, ih _ s⟩

/-- However the requests are answered, there is an end. -/
theorem exists_leads {P : (q : Q) → A q → Prop} (refl : ∀ s, R s s) (answered : ∀ q, ∃ a, P q a)
    (p : Prog σ A ε α) (s : σ) : ∃ trace s' r, Leads R p s trace s' r ∧ ∀ x ∈ trace, P x.1 x.2 := by
  choose answer hanswer using answered
  refine ⟨_, _, _, leads_play refl answer p s, fun x hx => ?_⟩
  rw [answered_play answer p s x hx]
  exact hanswer x.1

/-! ## Programs without state -/

/-- It asks and ends, and no more. -/
def Prog.Asks : Prog σ A ε α → Prop
  | .done _ => True
  | .fail _ => True
  | .get _ => False
  | .set _ _ => False
  | .ask _ k => ∀ a, (k a).Asks

/-- Nothing is read and nothing written. -/
structure Prog.Stateless (p : Prog σ A ε α) : Prop where
  asks : p.Asks

namespace Prog.Stateless

theorem pure (a : α) : (Pure.pure a : Prog σ A ε α).Stateless := ⟨trivial⟩

theorem throw (x : ε) : (MonadExcept.throw x : Prog σ A ε α).Stateless := ⟨trivial⟩

theorem ofExcept (x : Except ε α) : (Prog.ofExcept x : Prog σ A ε α).Stateless := by
  cases x <;> exact ⟨trivial⟩

theorem ask {q : Q} {k : A q → Prog σ A ε α} (h : ∀ a, (k a).Stateless) : (Prog.ask q k).Stateless :=
  ⟨fun a => (h a).asks⟩

theorem bind {f : α → Prog σ A ε β} (hp : p.Stateless) (hf : ∀ a, (f a).Stateless) : (p >>= f).Stateless := by
  obtain ⟨hp⟩ := hp
  change (p.bind f).Stateless
  induction p with
  | done a => exact hf a
  | fail x => exact ⟨trivial⟩
  | get k => exact hp.elim
  | set s k => exact hp.elim
  | ask q k ih => exact ask fun a => ih a (hp a)

theorem attempt (hp : p.Stateless) : p.attempt.Stateless := by
  obtain ⟨hp⟩ := hp
  induction p with
  | done a => exact ⟨trivial⟩
  | fail x => exact ⟨trivial⟩
  | get k => exact hp.elim
  | set s k => exact hp.elim
  | ask q k ih => exact ask fun a => ih a (hp a)

end Prog.Stateless

/-- Such a program leaves the state to the others. -/
theorem Leads.rely {r : Except ε α} (h : Leads R p s trace s' r) (hp : p.Stateless) (refl : ∀ s, R s s)
    (trans : ∀ s₁ s₂ s₃, R s₁ s₂ → R s₂ s₃ → R s₁ s₃) : R s s' := by
  obtain ⟨hp⟩ := hp
  induction h with
  | done a s => exact refl s
  | fail x s => exact refl s
  | get => exact hp.elim
  | set => exact hp.elim
  | ask a hR _ ih => exact trans _ _ _ hR (ih (hp a))

/-- And it does the same from any other. -/
theorem Leads.of_gives {r : Except ε α} (h : Gives p trace r) (hp : p.Stateless) (refl : ∀ s, R s s) (s : σ) :
    Leads R p s trace s r := by
  obtain ⟨hp⟩ := hp
  induction h with
  | done a => exact .done a s
  | fail x => exact .fail x s
  | get => exact hp.elim
  | set => exact hp.elim
  | ask a _ ih => exact .ask a (refl s) (ih (hp a))

end

end Async
