import ComputeArmada.Lib.Trace

/-!
# Two runs of programs that wait

Two runs that make related calls and get related answers, compared step by step.

* `Pairing` : which states, requests and answers of the two runs are related;
* `Twin` : that two programs keep to it, asking related requests as long as the answers are related
  (`Twin.bind`, `Twin.get`, `Twin.modify`, `Twin.attempt`, `Twin.tryCatch`);
* `openSystem` : programs whose environment may answer anything;
* `WorldTwin.step`, `WorldTwin.runs` : where the programs are twins, so are the runs: what they have asked
  is related, request for request;
* `Reaches` : what a program comes to ask (`Twin.reaches`; `asksAfter` evaluates it);
* `Twin.gives`, `WorldTwin.alone` : one program, and one run, that is its own twin.
-/

namespace Async

/-- What two runs are to have in common. -/
structure Pairing (σ : Type) {Q : Type} (A : Q → Type) where
  state : σ → σ → Prop
  asked : Q → Q → Prop
  answered : (q q' : Q) → A q → A q' → Prop

/-! ## Programs -/

section
variable {σ Q : Type} {A : Q → Type} {ε α β γ δ : Type}

/-- Two programs that do related things, as long as they get related answers, and end in `Φ`. -/
inductive Twin (P : Pairing σ A) (Φ : Except ε α → Except ε β → Prop) : Prog σ A ε α → Prog σ A ε β → Prop
  | done {a b} (h : Φ (.ok a) (.ok b)) : Twin P Φ (.done a) (.done b)
  | fail {x y} (h : Φ (.error x) (.error y)) : Twin P Φ (.fail x) (.fail y)
  | get {k k'} (h : ∀ s s', P.state s s' → Twin P Φ (k s) (k' s')) : Twin P Φ (.get k) (.get k')
  | set {s s' k k'} (h : P.state s s') (hk : Twin P Φ k k') : Twin P Φ (.set s k) (.set s' k')
  | ask {q q' k k'} (h : P.asked q q') (hk : ∀ a a', P.answered q q' a a' → Twin P Φ (k a) (k' a')) :
      Twin P Φ (.ask q k) (.ask q' k')

/-- Both fail in the same way, or both succeed with related values. -/
inductive Ends (R : α → β → Prop) : Except ε α → Except ε β → Prop
  | ok {a b} (h : R a b) : Ends R (.ok a) (.ok b)
  | error (x : ε) : Ends R (.error x) (.error x)

theorem Ends.refl (r : Except ε α) : Ends Eq r r := by
  cases r with
  | ok a => exact .ok rfl
  | error x => exact .error x

theorem Ends.bind {R : α → β → Prop} {S : γ → δ → Prop} {r : Except ε α} {r' : Except ε β} {f : α → Except ε γ}
    {f' : β → Except ε δ} (h : Ends R r r') (hf : ∀ a b, R a b → Ends S (f a) (f' b)) :
    Ends S (r >>= f) (r' >>= f') := by
  cases h with
  | ok h => exact hf _ _ h
  | error x => exact .error x

variable {P : Pairing σ A}

theorem Twin.mono {Φ Ψ : Except ε α → Except ε β → Prop} (h : ∀ r r', Φ r r' → Ψ r r') {p : Prog σ A ε α}
    {p' : Prog σ A ε β} (hp : Twin P Φ p p') : Twin P Ψ p p' := by
  induction hp with
  | done hr => exact .done (h _ _ hr)
  | fail hr => exact .fail (h _ _ hr)
  | get _ ih => exact .get ih
  | set hs _ ih => exact .set hs ih
  | ask hq _ ih => exact .ask hq ih

theorem Twin.bind {Φ : Except ε α → Except ε β → Prop} {Ψ : Except ε γ → Except ε δ → Prop}
    {p : Prog σ A ε α} {p' : Prog σ A ε β} {f : α → Prog σ A ε γ} {f' : β → Prog σ A ε δ} (hp : Twin P Φ p p')
    (hf : ∀ a b, Φ (.ok a) (.ok b) → Twin P Ψ (f a) (f' b))
    (hx : ∀ x y, Φ (.error x) (.error y) → Ψ (.error x) (.error y)) : Twin P Ψ (p >>= f) (p' >>= f') := by
  change Twin P Ψ (p.bind f) (p'.bind f')
  induction hp with
  | done hr => exact hf _ _ hr
  | fail hr => exact .fail (hx _ _ hr)
  | get _ ih => exact .get ih
  | set hs _ ih => exact .set hs ih
  | ask hq _ ih => exact .ask hq ih

theorem Twin.attempt {Φ : Except ε (Except ε α) → Except ε (Except ε β) → Prop} {p : Prog σ A ε α}
    {p' : Prog σ A ε β} (hp : Twin P (fun r r' => Φ (.ok r) (.ok r')) p p') : Twin P Φ p.attempt p'.attempt := by
  induction hp with
  | done hr => exact .done hr
  | fail hr => exact .done hr
  | get _ ih => exact .get ih
  | set hs _ ih => exact .set hs ih
  | ask hq _ ih => exact .ask hq ih

end

/-! ## Programs that fail in the same way -/

section
variable {σ Q : Type} {A : Q → Type} {ε α β γ δ : Type} {P : Pairing σ A}

/-- Twins that fail alike and otherwise end in `R`. -/
abbrev Pair (P : Pairing σ A) (R : α → β → Prop) : Prog σ A ε α → Prog σ A ε β → Prop := Twin P (Ends R)

variable {R : α → β → Prop} {S : γ → δ → Prop}

theorem Pair.pure {a : α} {b : β} (h : R a b) : Pair P R (Pure.pure a : Prog σ A ε α) (Pure.pure b) := .done (.ok h)

theorem Pair.throw (x : ε) : Pair P R (MonadExcept.throw x : Prog σ A ε α) (MonadExcept.throw x) := .fail (.error x)

theorem Pair.ofExcept {r : Except ε α} {r' : Except ε β} (h : Ends R r r') : Pair P R (.ofExcept r) (.ofExcept r') := by
  cases h with
  | ok h => exact .done (.ok h)
  | error x => exact .fail (.error x)

/-- A value that is known, in both programs. -/
theorem Pair.ofExcept_same (r : Except ε α) :
    Pair P (fun a b => a = b ∧ r = .ok a) (.ofExcept r : Prog σ A ε α) (.ofExcept r) := by
  cases r with
  | ok a => exact .done (.ok ⟨rfl, rfl⟩)
  | error x => exact .fail (.error x)

theorem Pair.bind {p : Prog σ A ε α} {p' : Prog σ A ε β} {f : α → Prog σ A ε γ} {f' : β → Prog σ A ε δ}
    (hp : Pair P R p p') (hf : ∀ a b, R a b → Pair P S (f a) (f' b)) : Pair P S (p >>= f) (p' >>= f') := by
  refine Twin.bind hp (fun a b h => ?_) fun x y h => ?_
  · cases h with
    | ok h => exact hf a b h
  · cases h
    exact .error x

theorem Pair.mono {R' : α → β → Prop} {p : Prog σ A ε α} {p' : Prog σ A ε β} (hp : Pair P R p p')
    (h : ∀ a b, R a b → R' a b) : Pair P R' p p' := by
  refine Twin.mono (fun r r' hr => ?_) hp
  cases hr with
  | ok hr => exact .ok (h _ _ hr)
  | error x => exact .error x

theorem Pair.get {f : σ → Prog σ A ε α} {f' : σ → Prog σ A ε β}
    (h : ∀ s s', P.state s s' → Pair P R (f s) (f' s')) :
    Pair P R (MonadState.get >>= f) (MonadState.get >>= f') := Twin.get h

theorem Pair.modify {g g' : σ → σ} (h : ∀ s s', P.state s s' → P.state (g s) (g' s')) :
    Pair P (fun _ _ => True) (modify g : Prog σ A ε Unit) (modify g') :=
  Twin.get fun s s' hs => .set (h s s' hs) (.done (.ok trivial))

/-- The outcomes of two programs, as values. -/
theorem Pair.attempt {p : Prog σ A ε α} {p' : Prog σ A ε β} (hp : Pair P R p p') :
    Pair P (Ends R) p.attempt p'.attempt := Twin.attempt (Twin.mono (fun _ _ h => .ok h) hp)

theorem Pair.tryCatch {p p' : Prog σ A ε α} {h h' : ε → Prog σ A ε α} {R : α → α → Prop} (hp : Pair P R p p')
    (hh : ∀ x, Pair P R (h x) (h' x)) : Pair P R (tryCatch p h) (tryCatch p' h') := by
  refine Pair.bind (f := Prog.handle h) hp.attempt fun r r' hr => ?_
  cases hr with
  | ok hr => exact .pure hr
  | error x => exact hh x

end

/-! ## Runs -/

section
variable {σ Q : Type} {A : Q → Type} {ε α L : Type}

/-- Programs whose environment may answer anything. -/
def openSystem [DecidableEq Q] (body : L → Prog σ A ε α) : System σ A ε α Unit (Σ q, A q) Empty L where
  body := body
  respond _ _ q c := if h : c.1 = q then some (h ▸ c.2, ()) else none
  drift _ d := nomatch d

variable {P : Pairing σ A} {Label : L → L → Prop} {Φ : Except ε α → Except ε α → Prop}

/-- Where two calls are. -/
inductive PhaseTwin (P : Pairing σ A) (Φ : Except ε α → Except ε α → Prop) : Phase σ A ε α → Phase σ A ε α → Prop
  | asking {q q' k k'} (hk : ∀ a a', P.answered q q' a a' → Twin P Φ (k a) (k' a')) :
      PhaseTwin P Φ (.asking q k) (.asking q' k')
  | answered {q q' a a' k k'} (h : Twin P Φ (k a) (k' a')) : PhaseTwin P Φ (.answered q a k) (.answered q' a' k')
  | settled {r r'} (h : Φ r r') : PhaseTwin P Φ (.settled r) (.settled r')

/-- What two requests of two logs have in common. -/
structure LogTwin (P : Pairing σ A) (Label : L → L → Prop) (x x' : Caller L × Q) : Prop where
  call : x.1.1 = x'.1.1
  label : Label x.1.2 x'.1.2
  asked : P.asked x.2 x'.2

structure WorldTwin {E : Type} (P : Pairing σ A) (Label : L → L → Prop) (Φ : Except ε α → Except ε α → Prop)
    (w w' : World σ A ε α E L) : Prop where
  shared : P.state w.shared w'.shared
  calls : ∀ n, Option.Rel (fun c c' => Label c.1 c'.1 ∧ PhaseTwin P Φ c.2 c'.2) (w.calls n) (w'.calls n)
  log : List.Forall₂ (LogTwin P Label) w.log w'.log

/-- Steps of two runs that are the same, but for what may differ. -/
inductive ActTwin (P : Pairing σ A) (Label : L → L → Prop) :
    Act (Σ q, A q) Empty L → Act (Σ q, A q) Empty L → Prop
  | begin (n : Nat) {l l' : L} (h : Label l l') : ActTwin P Label (.begin n l) (.begin n l')
  | serve (n : Nat) {q q' : Q} {a : A q} {a' : A q'} (h : P.answered q q' a a') :
      ActTwin P Label (.serve n ⟨q, a⟩) (.serve n ⟨q', a'⟩)
  | resume (n : Nat) : ActTwin P Label (.resume n) (.resume n)

theorem Twin.advance {p p' : Prog σ A ε α} (hp : Twin P Φ p p') {s s' : σ} (hs : P.state s s') :
    P.state (advance p s).1 (advance p' s').1 ∧ PhaseTwin P Φ (advance p s).2 (advance p' s').2 ∧
      ∀ q k q' k', (Async.advance p s).2 = .asking q k → (Async.advance p' s').2 = .asking q' k' → P.asked q q' := by
  induction hp generalizing s s' with
  | done h => exact ⟨hs, .settled h, fun _ _ _ _ h => nomatch h⟩
  | fail h => exact ⟨hs, .settled h, fun _ _ _ _ h => nomatch h⟩
  | get _ ih => exact ih s s' hs hs
  | set h _ ih => exact ih h
  | ask h hk _ =>
    refine ⟨hs, .asking hk, fun q k q' k' hq hq' => ?_⟩
    cases hq
    cases hq'
    exact h

variable {E : Type} {w w' v v' : World σ A ε α E L}

theorem WorldTwin.run (hw : WorldTwin P Label Φ w w') {n : Nat} {l l' : L} (hl : Label l l')
    {p p' : Prog σ A ε α} (hp : Twin P Φ p p') : WorldTwin P Label Φ (w.run n l p) (w'.run n l' p') := by
  obtain ⟨hshared, hphase, hasked⟩ := hp.advance hw.shared
  refine ⟨hshared, fun m => ?_, ?_⟩
  · by_cases hm : m = n
    · subst hm
      simp only [World.run, Function.update_self]
      exact .some ⟨hl, hphase⟩
    · simp only [World.run, Function.update_of_ne hm]
      exact hw.calls m
  · simp only [World.run]
    cases hq : (Async.advance p w.shared).2 with
    | asking q k =>
      cases hq' : (Async.advance p' w'.shared).2 with
      | asking q' k' => exact .cons ⟨rfl, hl, hasked q k q' k' hq hq'⟩ hw.log
      | answered q' a' k' => rw [hq, hq'] at hphase; cases hphase
      | settled r' => rw [hq, hq'] at hphase; cases hphase
    | answered q a k =>
      cases hq' : (Async.advance p' w'.shared).2 with
      | asking q' k' => rw [hq, hq'] at hphase; cases hphase
      | answered q' a' k' => exact hw.log
      | settled r' => rw [hq, hq'] at hphase; cases hphase
    | settled r =>
      cases hq' : (Async.advance p' w'.shared).2 with
      | asking q' k' => rw [hq, hq'] at hphase; cases hphase
      | answered q' a' k' => rw [hq, hq'] at hphase; cases hphase
      | settled r' => exact hw.log

/-- An answer is the one that was given, to the request that is open. -/
theorem respond_openSystem [DecidableEq Q] {body : L → Prog σ A ε α} {e e' : Unit} {n : Nat} {q : Q}
    {c : Σ q, A q} {a : A q} (h : (openSystem body).respond e n q c = some (a, e')) : c = ⟨q, a⟩ := by
  obtain ⟨q', a'⟩ := c
  simp only [openSystem] at h
  split at h
  · rename_i hq
    cases hq
    cases h
    rfl
  · cases h

theorem WorldTwin.step [DecidableEq Q] {body body' : L → Prog σ A ε α}
    (hbody : ∀ l l', Label l l' → Twin P Φ (body l) (body' l')) {w w' v v' : World σ A ε α Unit L}
    {a a' : Act (Σ q, A q) Empty L} (hw : WorldTwin P Label Φ w w') (ha : ActTwin P Label a a')
    (h : (openSystem body).step w a = some v) (h' : (openSystem body').step w' a' = some v') :
    WorldTwin P Label Φ v v' := by
  cases ha with
  | begin n hl =>
    simp only [System.step] at h h'
    split at h <;> cases h
    split at h' <;> cases h'
    exact hw.run hl (hbody _ _ hl)
  | serve n hanswered =>
    simp only [System.step] at h h'
    split at h
    · rename_i l q k hn
      split at h'
      · rename_i l' q' k' hn'
        obtain ⟨⟨a, e⟩, hresp, rfl⟩ := Option.map_eq_some_iff.mp h
        obtain ⟨⟨a', e'⟩, hresp', rfl⟩ := Option.map_eq_some_iff.mp h'
        cases respond_openSystem hresp
        cases respond_openSystem hresp'
        refine ⟨hw.shared, fun m => ?_, hw.log⟩
        by_cases hm : m = n
        · subst hm
          have hcalls := hw.calls m
          rw [hn, hn'] at hcalls
          simp only [Function.update_self]
          cases hcalls with
          | some hrel =>
            obtain ⟨hl, hphase⟩ := hrel
            cases hphase with
            | asking hk => exact .some ⟨hl, .answered (hk _ _ hanswered)⟩
        · simp only [Function.update_of_ne hm]
          exact hw.calls m
      · cases h'
    · cases h
  | resume n =>
    simp only [System.step] at h h'
    split at h <;> cases h
    rename_i l q a k hn
    split at h' <;> cases h'
    rename_i l' q' a' k' hn'
    have hcalls := hw.calls n
    rw [hn, hn'] at hcalls
    cases hcalls with
    | some hrel =>
      obtain ⟨hl, hphase⟩ := hrel
      cases hphase with
      | answered hp => exact hw.run hl hp

/-- Two runs that make related calls and get related answers, step by step. -/
theorem WorldTwin.runs [DecidableEq Q] {body body' : L → Prog σ A ε α}
    (hbody : ∀ l l', Label l l' → Twin P Φ (body l) (body' l')) {w w' v v' : World σ A ε α Unit L}
    {as as' : List (Act (Σ q, A q) Empty L)} (hw : WorldTwin P Label Φ w w')
    (has : List.Forall₂ (ActTwin P Label) as as') (h : as.foldlM (openSystem body).step w = some v)
    (h' : as'.foldlM (openSystem body').step w' = some v') : WorldTwin P Label Φ v v' := by
  induction has generalizing w w' with
  | nil =>
    cases h
    cases h'
    exact hw
  | cons ha _ ih =>
    rw [List.foldlM_cons] at h h'
    obtain ⟨u, hu, h⟩ := Option.bind_eq_some_iff.mp h
    obtain ⟨u', hu', h'⟩ := Option.bind_eq_some_iff.mp h'
    exact ih (hw.step hbody ha hu hu') h h'

theorem WorldTwin.start {s s' : σ} {e e' : E} (h : P.state s s') :
    WorldTwin P Label Φ (World.start s e) (World.start s' e') := ⟨h, fun _ => .none, .nil⟩

/-! ## What one program comes to ask -/

/-- `p`, started in `s`, may come to ask `q` while the state changes, as it waits, as `R` says. -/
inductive Reaches (R : σ → σ → Prop) : Prog σ A ε α → σ → Q → Prop
  | here {q k s} : Reaches R (.ask q k) s q
  | get {k s q} (h : Reaches R (k s) s q) : Reaches R (.get k) s q
  | set {s' k s q} (h : Reaches R k s' q) : Reaches R (.set s' k) s q
  | later {q' k s a s' q} (hr : R s s') (h : Reaches R (k a) s' q) : Reaches R (.ask q' k) s q

/-- What a program asks after these answers, in a state that nothing else changes. -/
def asksAfter [DecidableEq Q] (p : Prog σ A ε α) (s : σ) : List (Σ q, A q) → Option Q
  | [] => match advance p s with
    | (_, .asking q _) => some q
    | _ => none
  | ⟨q', a⟩ :: answers => match advance p s with
    | (s', .asking q k) => if h : q' = q then asksAfter (k (h ▸ a)) s' answers else none
    | _ => none

theorem Reaches.of_advance {R : σ → σ → Prop} {p : Prog σ A ε α} {s s' : σ} {q q' : Q} {k : A q → Prog σ A ε α}
    (h : advance p s = (s', .asking q k)) (hk : Reaches R (.ask q k) s' q') : Reaches R p s q' := by
  induction p generalizing s with
  | done a => cases h
  | fail x => cases h
  | get k ih => exact .get (ih s h)
  | set s₁ k ih => exact .set (ih h)
  | ask q₁ k₁ ih =>
    cases h
    exact hk

theorem Reaches.of_asksAfter [DecidableEq Q] {R : σ → σ → Prop} (hR : ∀ s, R s s) {p : Prog σ A ε α} {s : σ}
    {answers : List (Σ q, A q)} {q : Q} (h : asksAfter p s answers = some q) : Reaches R p s q := by
  induction answers generalizing p s with
  | nil =>
    unfold asksAfter at h
    split at h
    · rename_i hp
      cases h
      exact .of_advance hp .here
    · cases h
  | cons answer answers ih =>
    unfold asksAfter at h
    split at h
    · rename_i hp
      split at h
      · exact .of_advance hp (.later (hR _) (ih h))
      · cases h
    · cases h

/-- Of a program that is a twin of itself, every request is related to itself. -/
theorem Twin.reaches {R : σ → σ → Prop} {p : Prog σ A ε α} {s : σ} {q : Q} (hp : Twin P Φ p p)
    (hs : P.state s s) (hR : ∀ s s', P.state s s → R s s' → P.state s' s') (hA : ∀ q a, P.answered q q a a)
    (h : Reaches R p s q) : P.asked q q := by
  induction h with
  | here => cases hp with
    | ask hq _ => exact hq
  | get _ ih => cases hp with
    | get hk => exact ih (hk _ _ hs) hs
  | set _ ih => cases hp with
    | set hs' hk => exact ih hk hs'
  | later hr _ ih => cases hp with
    | ask _ hk => exact ih (hk _ _ (hA _ _)) (hR _ _ hs hr)

/-- Whatever it reads, where every state is related to itself. -/
theorem Twin.gives {p : Prog σ A ε α} {trace : List (Σ q, A q)} {r : Except ε α} (hp : Twin P Φ p p)
    (hs : ∀ s, P.state s s) (hA : ∀ q a, P.answered q q a a) (h : Gives p trace r) :
    Φ r r ∧ ∀ x ∈ trace, P.asked x.1 x.1 := by
  induction h with
  | done a => cases hp with
    | done hr => exact ⟨hr, fun _ h => nomatch h⟩
  | fail x => cases hp with
    | fail hr => exact ⟨hr, fun _ h => nomatch h⟩
  | get s _ ih => cases hp with
    | get hk => exact ih (hk s s (hs s))
  | set _ ih => cases hp with
    | set _ hk => exact ih hk
  | ask a _ ih => cases hp with
    | ask hq hk =>
      obtain ⟨hr, hrest⟩ := ih (hk a a (hA _ _))
      exact ⟨hr, List.forall_mem_cons.mpr ⟨hq, hrest⟩⟩

end

/-! ## One run alone -/

section
variable {σ Q : Type} {A : Q → Type} {ε α E C D L : Type} {P : Pairing σ A} {Φ : Except ε α → Except ε α → Prop}

/-- Where every program is a twin of itself, so is every step, in any environment. -/
theorem WorldTwin.alone {sys : System σ A ε α E C D L} (hbody : ∀ l, Twin P Φ (sys.body l) (sys.body l))
    (hA : ∀ q a, P.answered q q a a) {w w' : World σ A ε α E L} {a : Act C D L} (hw : WorldTwin P Eq Φ w w)
    (h : sys.step w a = some w') : WorldTwin P Eq Φ w' w' := by
  have hphase : ∀ {n l phase}, w.calls n = some (l, phase) → PhaseTwin P Φ phase phase := by
    intro n l phase hn
    have hcall := hw.calls n
    rw [hn] at hcall
    cases hcall with
    | some hrel => exact hrel.2
  cases a with
  | begin n l =>
    simp only [System.step] at h
    split at h <;> cases h
    exact hw.run rfl (hbody l)
  | resume n =>
    simp only [System.step] at h
    split at h <;> cases h
    rename_i hn
    cases hphase hn with
    | answered hp => exact hw.run rfl hp
  | serve n ch =>
    simp only [System.step] at h
    split at h
    · rename_i l q k hn
      obtain ⟨⟨a, e⟩, -, rfl⟩ := Option.map_eq_some_iff.mp h
      refine ⟨hw.shared, fun m => ?_, hw.log⟩
      by_cases hm : m = n
      · subst hm
        simp only [Function.update_self]
        cases hphase hn with
        | asking hk => exact .some ⟨rfl, .answered (hk a a (hA q a))⟩
      · simp only [Function.update_of_ne hm]
        exact hw.calls m
    · cases h
  | drift d =>
    obtain ⟨e, -, rfl⟩ := Option.map_eq_some_iff.mp h
    exact ⟨hw.shared, hw.calls, hw.log⟩

end

end Async
