import Mathlib.Logic.Function.Basic
import ComputeArmada.Lib.Run

/-!
# Programs that wait, sharing one thread

Any number of calls run programs over one shared state. A program runs alone until it asks the
environment something; while it waits other calls run, the environment answers in its own time and
order, and moves by itself.

* `Prog` : a program, a tree of reads and writes of the shared state and of requests;
* `advance` : a turn, a program up to its next request; `System.step` : the calls and the environment;
* `Spec` : an invariant of shared state and environment, what everyone leaves of them (`rely`), what a
  call promises of its turns (`turn`), what is known of a request and of an answer;
* `Safe`, `Does` : that a program keeps to it, from within a turn (`Does.bind`, `Does.ask`, `Does.modify`,
  `Does.attempt`, `Does.tryCatch`);
* `Ensures` : that it does from any state, for a specification that says nothing of states;
* `Sound.step`, `Sound.holds` : where every program does, so does every run, and every request ever made is
  one the specification allows.
-/

namespace Async
open Runs

/-- A program over the shared state `σ`, asking requests `q` that are answered by an `A q`. -/
inductive Prog (σ : Type) {Q : Type} (A : Q → Type) (ε : Type) (α : Type)
  | done (a : α)
  | fail (x : ε)
  | get (k : σ → Prog σ A ε α)
  | set (s : σ) (k : Prog σ A ε α)
  | ask (q : Q) (k : A q → Prog σ A ε α)

section
variable {σ Q : Type} {A : Q → Type} {ε α β : Type}

namespace Prog

def bind : Prog σ A ε α → (α → Prog σ A ε β) → Prog σ A ε β
  | .done a, f => f a
  | .fail x, _ => .fail x
  | .get k, f => .get (fun s => (k s).bind f)
  | .set s k, f => .set s (k.bind f)
  | .ask q k, f => .ask q (fun a => (k a).bind f)

/-- The outcome of a program as a value. -/
def attempt : Prog σ A ε α → Prog σ A ε (Except ε α)
  | .done a => .done (.ok a)
  | .fail x => .done (.error x)
  | .get k => .get (fun s => (k s).attempt)
  | .set s k => .set s k.attempt
  | .ask q k => .ask q (fun a => (k a).attempt)

def ofExcept : Except ε α → Prog σ A ε α
  | .ok a => .done a
  | .error x => .fail x

instance : Monad (Prog σ A ε) where
  pure := .done
  bind := .bind

/-- What a `catch` block makes of an outcome. -/
def handle (h : ε → Prog σ A ε α) : Except ε α → Prog σ A ε α
  | .ok a => .done a
  | .error x => h x

instance : MonadExceptOf ε (Prog σ A ε) where
  throw := .fail
  tryCatch p h := p.attempt.bind (handle h)

instance : MonadStateOf σ (Prog σ A ε) where
  get := .get .done
  set s := .set s (.done ())
  modifyGet f := .get fun s => .set (f s).2 (.done (f s).1)

end Prog

/-- Where a call is: waiting for an answer, about to go on with one, or through. -/
inductive Phase (σ : Type) {Q : Type} (A : Q → Type) (ε : Type) (α : Type)
  | asking (q : Q) (k : A q → Prog σ A ε α)
  | answered (q : Q) (a : A q) (k : A q → Prog σ A ε α)
  | settled (r : Except ε α)

/-- A program up to its next request. -/
def advance : Prog σ A ε α → σ → σ × Phase σ A ε α
  | .done a, s => (s, .settled (.ok a))
  | .fail x, s => (s, .settled (.error x))
  | .get k, s => advance (k s) s
  | .set s k, _ => advance k s
  | .ask q k, s => (s, .asking q k)

end

/-! ## The system -/

/-- Calls named by `L` and an environment of states `E`, which chooses its answers to a call by a `C` and
its own moves by a `D`. -/
structure System (σ : Type) {Q : Type} (A : Q → Type) (ε α E C D L : Type) where
  body : L → Prog σ A ε α
  respond : E → Nat → (q : Q) → C → Option (A q × E)
  drift : E → D → Option E

/-- A call: its number, and what it is a call of. -/
abbrev Caller (L : Type) := Nat × L

structure World (σ : Type) {Q : Type} (A : Q → Type) (ε α E L : Type) where
  shared : σ
  env : E
  calls : Nat → Option (L × Phase σ A ε α)
  /-- Every request made so far, the last one first. -/
  log : List (Caller L × Q)

inductive Act (C D L : Type)
  | begin (n : Nat) (l : L)
  | serve (n : Nat) (c : C)
  | resume (n : Nat)
  | drift (d : D)

/-- The call that takes a step. -/
def Act.call {C D L : Type} : Act C D L → Option Nat
  | .begin n _ | .serve n _ | .resume n => some n
  | .drift _ => none

section
variable {σ Q : Type} {A : Q → Type} {ε α E C D L : Type}

def World.start (s : σ) (e : E) : World σ A ε α E L :=
  { shared := s, env := e, calls := fun _ => none, log := [] }

/-- Call `n` runs `p` up to its next request. -/
def World.run (w : World σ A ε α E L) (n : Nat) (l : L) (p : Prog σ A ε α) : World σ A ε α E L :=
  { w with
    shared := (advance p w.shared).1
    calls := Function.update w.calls n (some (l, (advance p w.shared).2))
    log := match (advance p w.shared).2 with
      | .asking q _ => ((n, l), q) :: w.log
      | _ => w.log }

def System.step (sys : System σ A ε α E C D L) (w : World σ A ε α E L) :
    Act C D L → Option (World σ A ε α E L)
  | .begin n l =>
    match w.calls n with
    | none => some (w.run n l (sys.body l))
    | some _ => none
  | .serve n c =>
    match w.calls n with
    | some (l, .asking q k) =>
      (sys.respond w.env n q c).map (fun (a, e) =>
        { w with env := e, calls := Function.update w.calls n (some (l, .answered q a k)) })
    | _ => none
  | .resume n =>
    match w.calls n with
    | some (l, .answered _ a k) => some (w.run n l (k a))
    | _ => none
  | .drift d => (sys.drift w.env d).map (fun e => { w with env := e })

end

/-! ## Specifications -/

/-- What a system is to keep. `rely` relates shared state and environment before a step of anyone to
those after it. -/
structure Spec (σ : Type) {Q : Type} (A : Q → Type) (ε α E L : Type) where
  inv : σ → E → Prop
  rely : σ × E → σ × E → Prop
  /-- What a call has done when its turn ends, in a request (`none`) or with an outcome. -/
  turn : Caller L → Option (Except ε α) → E → σ → σ → Prop
  /-- The moves of the environment that are reckoned with. -/
  moves : E → E → Prop
  /-- Where a call may begin. -/
  start : Caller L → σ → E → Prop
  /-- What is known of a request from the moment it is made. -/
  issued : Caller L → Q → σ → E → Prop
  /-- What is known of an answer from the moment it is given. -/
  got : Caller L → (q : Q) → A q → σ → E → Prop
  /-- Where a call may go on with an answer. -/
  guard : Caller L → (q : Q) → A q → σ → E → Prop
  post : Caller L → Except ε α → σ → E → Prop

/-- `rely` and unfinished turns are preorders, a turn does what `rely` says, and knowledge lasts. -/
structure Spec.Lawful {σ Q : Type} {A : Q → Type} {ε α E L : Type} (sp : Spec σ A ε α E L) : Prop where
  refl : ∀ x, sp.rely x x
  trans : ∀ x y z, sp.rely x y → sp.rely y z → sp.rely x z
  turn_refl : ∀ c e s, sp.turn c none e s s
  turn_trans : ∀ c e s s' s'', sp.turn c none e s s' → sp.turn c none e s' s'' → sp.turn c none e s s''
  turn_rely : ∀ c r e s s', sp.turn c r e s s' → sp.rely (s, e) (s', e)
  issued : ∀ c q s e s' e', sp.rely (s, e) (s', e') → sp.issued c q s e → sp.issued c q s' e'
  got : ∀ c q a s e s' e', sp.rely (s, e) (s', e') → sp.got c q a s e → sp.got c q a s' e'
  post : ∀ c r s e s' e', sp.rely (s, e) (s', e') → sp.post c r s e → sp.post c r s' e'

section
variable {σ Q : Type} {A : Q → Type} {ε ρ α β E C D L : Type}

/-- Program `p` of caller `c`, in `s` and `e` within a turn that began in `s₀`, keeps to the
specification and ends in `Φ`. -/
def Safe (sp : Spec σ A ε ρ E L) (c : Caller L) :
    Prog σ A ε β → (Except ε β → σ → σ → E → Prop) → σ → σ → E → Prop
  | .done a, Φ, s₀, s, e => Φ (.ok a) s₀ s e
  | .fail x, Φ, s₀, s, e => Φ (.error x) s₀ s e
  | .get k, Φ, s₀, s, e => Safe sp c (k s) Φ s₀ s e
  | .set s' k, Φ, s₀, _, e => Safe sp c k Φ s₀ s' e
  | .ask q k, Φ, s₀, s, e => sp.inv s e ∧ sp.turn c none e s₀ s ∧ sp.issued c q s e ∧
      ∀ a s' e', sp.rely (s, e) (s', e') → sp.inv s' e' → sp.got c q a s' e' → sp.guard c q a s' e' →
        Safe sp c (k a) Φ s' s' e'

variable {sp : Spec σ A ε ρ E L} {c : Caller L}

theorem Safe.mono {Φ Ψ : Except ε β → σ → σ → E → Prop} (h : ∀ r s₀ s e, Φ r s₀ s e → Ψ r s₀ s e) :
    ∀ {p : Prog σ A ε β} {s₀ s : σ} {e : E}, Safe sp c p Φ s₀ s e → Safe sp c p Ψ s₀ s e
  | .done _, _, _, _, hp => h _ _ _ _ hp
  | .fail _, _, _, _, hp => h _ _ _ _ hp
  | .get k, _, s, _, hp => Safe.mono h (p := k s) hp
  | .set _ k, _, _, _, hp => Safe.mono h (p := k) hp
  | .ask _ _, _, _, _, hp => ⟨hp.1, hp.2.1, hp.2.2.1,
      fun a s' e' hr hi hg hq => Safe.mono h (hp.2.2.2 a s' e' hr hi hg hq)⟩

theorem Safe.and {Φ Ψ : Except ε β → σ → σ → E → Prop} : ∀ {p : Prog σ A ε β} {s₀ s : σ} {e : E},
    Safe sp c p Φ s₀ s e → Safe sp c p Ψ s₀ s e → Safe sp c p (fun r s₀ s e => Φ r s₀ s e ∧ Ψ r s₀ s e) s₀ s e
  | .done _, _, _, _, hp, hq => ⟨hp, hq⟩
  | .fail _, _, _, _, hp, hq => ⟨hp, hq⟩
  | .get k, _, s, _, hp, hq => Safe.and (p := k s) hp hq
  | .set _ k, _, _, _, hp, hq => Safe.and (p := k) hp hq
  | .ask _ _, _, _, _, hp, hq => ⟨hp.1, hp.2.1, hp.2.2.1,
      fun a s' e' hr hi hg hok => Safe.and (hp.2.2.2 a s' e' hr hi hg hok) (hq.2.2.2 a s' e' hr hi hg hok)⟩

variable {f : α → Prog σ A ε β} {p : Prog σ A ε α} {s₀ s : σ} {e : E}

theorem Safe.bind_iff {Φ : Except ε β → σ → σ → E → Prop} :
    Safe sp c (p >>= f) Φ s₀ s e ↔ Safe sp c p (fun r s₀ s e => match r with
      | .ok a => Safe sp c (f a) Φ s₀ s e
      | .error x => Φ (.error x) s₀ s e) s₀ s e := by
  change Safe sp c (p.bind f) Φ s₀ s e ↔ _
  induction p generalizing s₀ s e with
  | done a => exact Iff.rfl
  | fail x => exact Iff.rfl
  | get k ih => exact ih _
  | set s' k ih => exact ih
  | ask q k ih => simp only [Prog.bind, Safe, ih]

theorem Safe.attempt_iff {Φ : Except ε (Except ε α) → σ → σ → E → Prop} :
    Safe sp c p.attempt Φ s₀ s e ↔ Safe sp c p (fun r s₀ s e => Φ (.ok r) s₀ s e) s₀ s e := by
  induction p generalizing s₀ s e with
  | done a => exact Iff.rfl
  | fail x => exact Iff.rfl
  | get k ih => exact ih _
  | set s' k ih => exact ih
  | ask q k ih => simp only [Prog.attempt, Safe, ih]

/-! ## What a program does -/

/-- Program `p`, within any turn that has kept to the specification so far, keeps to it, and ends with
`Φ` where it does not fail. -/
structure Does (sp : Spec σ A ε ρ E L) (c : Caller L) (p : Prog σ A ε α) (Φ : α → σ → E → Prop)
    (s : σ) (e : E) : Prop where
  safe : ∀ s₀, sp.inv s e → sp.turn c none e s₀ s → Safe sp c p (fun r s₀' s' e' => sp.inv s' e' ∧
    sp.turn c none e' s₀' s' ∧ sp.rely (s, e) (s', e') ∧ ∀ a, r = .ok a → Φ a s' e') s₀ s e

theorem Does.mono {Φ Ψ : α → σ → E → Prop} (hp : Does sp c p Φ s e)
    (h : ∀ a s' e', sp.rely (s, e) (s', e') → sp.inv s' e' → Φ a s' e' → Ψ a s' e') : Does sp c p Ψ s e :=
  ⟨fun s₀ hinv hturn => (hp.safe s₀ hinv hturn).mono fun _ _ _ _ ⟨hi, ht, hr, hΦ⟩ =>
    ⟨hi, ht, hr, fun a ha => h a _ _ hr hi (hΦ a ha)⟩⟩

/-- The invariant may be used at any point. -/
theorem Does.assume {Φ : α → σ → E → Prop} (h : sp.inv s e → Does sp c p Φ s e) : Does sp c p Φ s e :=
  ⟨fun s₀ hinv => (h hinv).safe s₀ hinv⟩

theorem Does.get {f : σ → Prog σ A ε β} {Ψ : β → σ → E → Prop} (h : Does sp c (f s) Ψ s e) :
    Does sp c (MonadState.get >>= f) Ψ s e := ⟨h.safe⟩

theorem Does.attempt {Φ : α → σ → E → Prop} (hp : Does sp c p Φ s e) :
    Does sp c p.attempt (fun r s e => ∀ a, r = .ok a → Φ a s e) s e := by
  refine ⟨fun s₀ hinv hturn => ?_⟩
  refine Safe.attempt_iff.mpr ((hp.safe s₀ hinv hturn).mono fun r _ _ _ ⟨hi, ht, hr, hΦ⟩ => ?_)
  refine ⟨hi, ht, hr, fun r' hr' => ?_⟩
  cases hr'
  exact hΦ

variable (law : sp.Lawful)
include law

theorem Does.pure {a : α} {Φ : α → σ → E → Prop} (h : Φ a s e) :
    Does sp c (Pure.pure a : Prog σ A ε α) Φ s e := by
  refine ⟨fun s₀ hinv hturn => ⟨hinv, hturn, law.refl _, fun b hb => ?_⟩⟩
  cases hb
  exact h

theorem Does.throw {x : ε} {Φ : α → σ → E → Prop} : Does sp c (throw x : Prog σ A ε α) Φ s e :=
  ⟨fun _ hinv hturn => ⟨hinv, hturn, law.refl _, fun _ h => nomatch h⟩⟩

theorem Does.ofExcept {r : Except ε α} {Φ : α → σ → E → Prop} (h : ∀ a, r = .ok a → Φ a s e) :
    Does sp c (.ofExcept r : Prog σ A ε α) Φ s e := by
  cases r with
  | ok a => exact Does.pure law (h a rfl)
  | error x => exact Does.throw law

theorem Does.bind {Φ : α → σ → E → Prop} {Ψ : β → σ → E → Prop} (hp : Does sp c p Φ s e)
    (hf : ∀ a s' e', sp.rely (s, e) (s', e') → sp.inv s' e' → Φ a s' e' → Does sp c (f a) Ψ s' e') :
    Does sp c (p >>= f) Ψ s e := by
  refine ⟨fun s₀ hinv hturn => ?_⟩
  refine Safe.bind_iff.mpr ((hp.safe s₀ hinv hturn).mono fun r s₀' s' e' ⟨hi, ht, hr, hΦ⟩ => ?_)
  cases r with
  | error x => exact ⟨hi, ht, hr, fun _ h => nomatch h⟩
  | ok a =>
    exact ((hf a s' e' hr hi (hΦ a rfl)).safe s₀' hi ht).mono fun _ _ _ _ ⟨hi', ht', hr', hΨ⟩ =>
      ⟨hi', ht', law.trans _ _ _ hr hr', hΨ⟩

theorem Does.modify {g : σ → σ} {Φ : Unit → σ → E → Prop} (hinv : sp.inv (g s) e)
    (hturn : sp.turn c none e s (g s)) (h : Φ () (g s) e) :
    Does sp c (modify g : Prog σ A ε Unit) Φ s e :=
  ⟨fun _ _ ht => ⟨hinv, law.turn_trans _ _ _ _ _ ht hturn, law.turn_rely _ _ _ _ _ hturn, fun _ _ => h⟩⟩

theorem Does.ask {q : Q} {f : A q → Prog σ A ε β} {Ψ : β → σ → E → Prop} (hissued : sp.issued c q s e)
    (hf : ∀ a s' e', sp.rely (s, e) (s', e') → sp.inv s' e' → sp.got c q a s' e' → sp.guard c q a s' e' →
      Does sp c (f a) Ψ s' e') : Does sp c (.ask q f : Prog σ A ε β) Ψ s e := by
  refine ⟨fun s₀ hinv hturn => ⟨hinv, hturn, hissued, fun a s' e' hr hi hg hq => ?_⟩⟩
  exact ((hf a s' e' hr hi hg hq).safe s' hi (law.turn_refl _ _ _)).mono fun _ _ _ _ ⟨hi', ht', hr', hΨ⟩ =>
    ⟨hi', ht', law.trans _ _ _ hr hr', hΨ⟩

theorem Does.tryCatch {h : ε → Prog σ A ε α} {Φ : α → σ → E → Prop} (hp : Does sp c p Φ s e)
    (hh : ∀ x s' e', sp.rely (s, e) (s', e') → sp.inv s' e' → Does sp c (h x) Φ s' e') :
    Does sp c (tryCatch p h) Φ s e := by
  have hbind : Does sp c (p.attempt >>= Prog.handle h) Φ s e := by
    refine Does.bind law hp.attempt fun r s' e' hr hi hΦ => ?_
    cases r with
    | ok a => exact Does.pure law (hΦ a rfl)
    | error x => exact hh x s' e' hr hi
  exact ⟨hbind.safe⟩

end

/-! ## Programs of which the state does not matter -/

section
variable {σ Q : Type} {A : Q → Type} {ε ρ α β E L : Type}

/-- A specification that says nothing of shared state and environment. -/
structure Spec.Free (sp : Spec σ A ε ρ E L) : Prop where
  inv : ∀ s e, sp.inv s e
  turn : ∀ c r e s s', sp.turn c r e s s'

/-- Program `p` keeps to such a specification and ends in `Φ`, wherever it starts. -/
structure Ensures (sp : Spec σ A ε ρ E L) (c : Caller L) (p : Prog σ A ε α) (Φ : Except ε α → Prop) : Prop where
  safe : ∀ s₀ s e, Safe sp c p (fun r _ _ _ => Φ r) s₀ s e

variable {sp : Spec σ A ε ρ E L} {c : Caller L} {p : Prog σ A ε α} {Φ Ψ : Except ε α → Prop}

theorem Ensures.mono (hp : Ensures sp c p Φ) (h : ∀ r, Φ r → Ψ r) : Ensures sp c p Ψ :=
  ⟨fun s₀ s e => (hp.safe s₀ s e).mono fun r _ _ _ => h r⟩

theorem Ensures.pure {a : α} (h : Φ (.ok a)) : Ensures sp c (Pure.pure a) Φ := ⟨fun _ _ _ => h⟩

theorem Ensures.throw {x : ε} (h : Φ (.error x)) : Ensures sp c (throw x) Φ := ⟨fun _ _ _ => h⟩

theorem Ensures.ofExcept {r : Except ε α} (h : Φ r) : Ensures sp c (.ofExcept r) Φ := by
  cases r with
  | ok a => exact ⟨fun _ _ _ => h⟩
  | error x => exact ⟨fun _ _ _ => h⟩

theorem Ensures.bind {f : α → Prog σ A ε β} {Ψ : Except ε β → Prop} (hp : Ensures sp c p Φ)
    (hf : ∀ a, Φ (.ok a) → Ensures sp c (f a) Ψ) (hx : ∀ x, Φ (.error x) → Ψ (.error x)) :
    Ensures sp c (p >>= f) Ψ := by
  refine ⟨fun s₀ s e => Safe.bind_iff.mpr ((hp.safe s₀ s e).mono fun r s₀ s e h => ?_)⟩
  cases r with
  | ok a => exact (hf a h).safe s₀ s e
  | error x => exact hx x h

theorem Ensures.get {f : σ → Prog σ A ε α} (h : ∀ s, Ensures sp c (f s) Φ) :
    Ensures sp c (MonadState.get >>= f) Φ := ⟨fun s₀ s e => (h s).safe s₀ s e⟩

theorem Ensures.modify {g : σ → σ} {Φ : Except ε Unit → Prop} (h : Φ (.ok ())) :
    Ensures sp c (modify g) Φ := ⟨fun _ _ _ => h⟩

theorem Ensures.attempt {Φ : Except ε (Except ε α) → Prop} (hp : Ensures sp c p fun r => Φ (.ok r)) :
    Ensures sp c p.attempt Φ := ⟨fun s₀ s e => Safe.attempt_iff.mpr (hp.safe s₀ s e)⟩

theorem Ensures.tryCatch {h : ε → Prog σ A ε α} (hp : Ensures sp c p Ψ) (hok : ∀ a, Ψ (.ok a) → Φ (.ok a))
    (hh : ∀ x, Ψ (.error x) → Ensures sp c (h x) Φ) : Ensures sp c (tryCatch p h) Φ := by
  have hbind : Ensures sp c (p.attempt >>= Prog.handle h) Φ := by
    refine Ensures.bind (Φ := fun r => ∃ r', r = .ok r' ∧ Ψ r') (.attempt (hp.mono fun r hr => ⟨r, rfl, hr⟩)) ?_ ?_
    · rintro r ⟨r', hr, hΨ⟩
      obtain rfl := Except.ok.inj hr
      cases r with
      | ok a => exact Ensures.pure (hok a hΨ)
      | error x => exact hh x hΨ
    · rintro x ⟨r', hr, -⟩
      cases hr
  exact ⟨hbind.safe⟩

theorem Ensures.ask (free : sp.Free) {q : Q} {f : A q → Prog σ A ε α} (hissued : ∀ s e, sp.issued c q s e)
    (hf : ∀ a, (∃ s e, sp.got c q a s e ∧ sp.guard c q a s e) → Ensures sp c (f a) Φ) :
    Ensures sp c (.ask q f) Φ :=
  ⟨fun _ s e => ⟨free.inv s e, free.turn _ _ _ _ _, hissued s e, fun a s' e' _ _ hg hq =>
    (hf a ⟨s', e', hg, hq⟩).safe s' s' e'⟩⟩

/-- A program of a caller of whom nothing is asked. -/
theorem Ensures.of_free (free : sp.Free) (hissued : ∀ q s e, sp.issued c q s e) (hΦ : ∀ r, Φ r) :
    Ensures sp c p Φ := by
  refine ⟨fun s₀ s e => ?_⟩
  induction p generalizing s₀ s e with
  | done a => exact hΦ _
  | fail x => exact hΦ _
  | get k ih => exact ih _ _ _ _
  | set s' k ih => exact ih _ _ _
  | ask q k ih => exact ⟨free.inv _ _, free.turn _ _ _ _ _, hissued _ _ _, fun a s' e' _ _ _ _ => ih a s' s' e'⟩

end

/-! ## Soundness -/

section
variable {σ Q : Type} {A : Q → Type} {ε α E C D L : Type}

/-- What a call that is through has kept to. -/
def Ended (sp : Spec σ A ε α E L) (c : Caller L) (r : Except ε α) (s₀ s : σ) (e : E) : Prop :=
  sp.inv s e ∧ sp.turn c (some r) e s₀ s ∧ sp.post c r s e

/-- The programs and the environment of `sys` keep to `sp`. -/
structure Sound (sys : System σ A ε α E C D L) (sp : Spec σ A ε α E L) : Prop where
  law : sp.Lawful
  body : ∀ c s e, sp.inv s e → sp.start c s e → Safe sp c (sys.body c.2) (Ended sp c) s s e
  respond : ∀ c q ch a s e e', sp.inv s e → sp.issued c q s e → sys.respond e c.1 q ch = some (a, e') →
    sp.moves e e' → sp.inv s e' ∧ sp.rely (s, e) (s, e') ∧ sp.got c q a s e'
  drift : ∀ d s e e', sp.inv s e → sys.drift e d = some e' → sp.moves e e' →
    sp.inv s e' ∧ sp.rely (s, e) (s, e')

/-- What the specification says of a call that is at `phase`. -/
def PhaseOk (sp : Spec σ A ε α E L) (c : Caller L) : Phase σ A ε α → σ → E → Prop
  | .asking q k, s, e => sp.issued c q s e ∧
      ∀ a s' e', sp.rely (s, e) (s', e') → sp.inv s' e' → sp.got c q a s' e' → sp.guard c q a s' e' →
        Safe sp c (k a) (Ended sp c) s' s' e'
  | .answered q a k, s, e => sp.got c q a s e ∧
      ∀ s' e', sp.rely (s, e) (s', e') → sp.inv s' e' → sp.guard c q a s' e' →
        Safe sp c (k a) (Ended sp c) s' s' e'
  | .settled r, s, e => sp.post c r s e

structure Holds (sp : Spec σ A ε α E L) (w : World σ A ε α E L) : Prop where
  inv : sp.inv w.shared w.env
  calls : ∀ n l phase, w.calls n = some (l, phase) → PhaseOk sp (n, l) phase w.shared w.env
  log : ∀ x ∈ w.log, sp.issued x.1 x.2 w.shared w.env

/-- The steps a specification reckons with: calls begin where `start` and go on where `guard` holds, and
the environment moves as `moves` says. -/
def Allowed (sys : System σ A ε α E C D L) (sp : Spec σ A ε α E L) (w : World σ A ε α E L)
    (a : Act C D L) : Prop :=
  (∀ n l, a = .begin n l → sp.start (n, l) w.shared w.env) ∧
  (∀ n l q x k, a = .resume n → w.calls n = some (l, .answered q x k) →
    sp.guard (n, l) q x w.shared w.env) ∧
  ∀ w', sys.step w a = some w' → sp.moves w.env w'.env

/-- How a phase ends the turn it is reached in. -/
def Phase.outcome : Phase σ A ε α → Option (Except ε α)
  | .settled r => some r
  | _ => none

/-- What the turn that took `w` to `w'` did, if there was one. -/
def Turned (sp : Spec σ A ε α E L) (w w' : World σ A ε α E L) : Act C D L → Prop
  | .begin n _ | .resume n => ∃ l phase, w'.calls n = some (l, phase) ∧
      sp.turn (n, l) phase.outcome w.env w.shared w'.shared
  | _ => w'.shared = w.shared

variable {sys : System σ A ε α E C D L} {sp : Spec σ A ε α E L}

/-- The calls that do not take the step are where they were. -/
theorem System.frame {w w' : World σ A ε α E L} {a : Act C D L} {n : Nat} (h : sys.step w a = some w')
    (hn : a.call ≠ some n) : w'.calls n = w.calls n := by
  cases a with
  | begin m l =>
    simp only [System.step] at h
    split at h <;> cases h
    exact Function.update_of_ne (fun heq => hn (congrArg some heq.symm)) _ _
  | resume m =>
    simp only [System.step] at h
    split at h <;> cases h
    exact Function.update_of_ne (fun heq => hn (congrArg some heq.symm)) _ _
  | serve m ch =>
    simp only [System.step] at h
    split at h
    · obtain ⟨_, -, rfl⟩ := Option.map_eq_some_iff.mp h
      exact Function.update_of_ne (fun heq => hn (congrArg some heq.symm)) _ _
    · cases h
  | drift d =>
    obtain ⟨e, -, rfl⟩ := Option.map_eq_some_iff.mp h
    rfl

/-- What a step does to the environment. -/
theorem System.env_cases {w w' : World σ A ε α E L} {a : Act C D L} (h : sys.step w a = some w') :
    w'.env = w.env ∨
    (∃ n ch l q k x, a = .serve n ch ∧ w.calls n = some (l, .asking q k) ∧
      sys.respond w.env n q ch = some (x, w'.env)) ∨
    ∃ d, a = .drift d ∧ sys.drift w.env d = some w'.env := by
  cases a with
  | begin n l =>
    simp only [System.step] at h
    split at h <;> cases h
    exact .inl rfl
  | resume n =>
    simp only [System.step] at h
    split at h <;> cases h
    exact .inl rfl
  | serve n ch =>
    simp only [System.step] at h
    split at h
    · rename_i l q k hn
      obtain ⟨⟨x, e⟩, hresp, rfl⟩ := Option.map_eq_some_iff.mp h
      exact .inr (.inl ⟨n, ch, l, q, k, x, rfl, hn, hresp⟩)
    · cases h
  | drift d =>
    obtain ⟨e, hd, rfl⟩ := Option.map_eq_some_iff.mp h
    exact .inr (.inr ⟨d, rfl, hd⟩)

theorem System.log_suffix {w w' : World σ A ε α E L} {a : Act C D L} (h : sys.step w a = some w') :
    w.log <:+ w'.log := by
  have hrun : ∀ (n : Nat) (l : L) (p : Prog σ A ε α), w.log <:+ (w.run n l p).log := by
    intro n l p
    simp only [World.run]
    split
    · exact List.suffix_cons _ _
    · exact List.suffix_refl _
  cases a with
  | begin n l =>
    simp only [System.step] at h
    split at h <;> cases h
    exact hrun n l _
  | resume n =>
    simp only [System.step] at h
    split at h <;> cases h
    exact hrun n _ _
  | serve n ch =>
    simp only [System.step] at h
    split at h
    · obtain ⟨_, -, rfl⟩ := Option.map_eq_some_iff.mp h
      exact List.suffix_refl _
    · cases h
  | drift d =>
    obtain ⟨_, -, rfl⟩ := Option.map_eq_some_iff.mp h
    exact List.suffix_refl _

theorem System.asked {w w' : World σ A ε α E L} {a : Act C D L} (h : sys.step w a = some w')
    (hw : ∀ n l q k, w.calls n = some (l, .asking q k) → ((n, l), q) ∈ w.log) :
    (∀ x ∈ w.log, x ∈ w'.log) ∧ ∀ n l q k, w'.calls n = some (l, .asking q k) → ((n, l), q) ∈ w'.log := by
  have hrun : ∀ (n : Nat) (l : L) (p : Prog σ A ε α), (∀ x ∈ w.log, x ∈ (w.run n l p).log) ∧
      ∀ m l' q k, (w.run n l p).calls m = some (l', .asking q k) → ((m, l'), q) ∈ (w.run n l p).log := by
    intro n l p
    have hlog : ∀ x ∈ w.log, x ∈ (w.run n l p).log := by
      intro x hx
      simp only [World.run]
      split
      · exact List.mem_cons_of_mem _ hx
      · exact hx
    refine ⟨hlog, fun m l' q k hm => ?_⟩
    by_cases hmn : m = n
    · subst hmn
      simp only [World.run, Function.update_self, Option.some.injEq, Prod.mk.injEq] at hm
      obtain ⟨rfl, hphase⟩ := hm
      simp [World.run, hphase]
    · simp only [World.run, Function.update_of_ne hmn] at hm
      exact hlog _ (hw m l' q k hm)
  cases a with
  | begin n l =>
    simp only [System.step] at h
    split at h <;> cases h
    exact hrun n l _
  | resume n =>
    simp only [System.step] at h
    split at h <;> cases h
    exact hrun n _ _
  | serve n ch =>
    simp only [System.step] at h
    split at h
    · obtain ⟨_, -, rfl⟩ := Option.map_eq_some_iff.mp h
      refine ⟨fun _ hx => hx, fun m l' q k hm => ?_⟩
      by_cases hmn : m = n
      · subst hmn
        simp at hm
      · simp only [Function.update_of_ne hmn] at hm
        exact hw m l' q k hm
    · cases h
  | drift d =>
    obtain ⟨_, -, rfl⟩ := Option.map_eq_some_iff.mp h
    exact ⟨fun _ hx => hx, hw⟩

theorem System.label {w w' : World σ A ε α E L} {a : Act C D L} {n : Nat} {l : L} {phase : Phase σ A ε α}
    (h : sys.step w a = some w') (hn : w'.calls n = some (l, phase)) :
    a = .begin n l ∨ ∃ phase', w.calls n = some (l, phase') := by
  by_cases hcall : a.call = some n
  · cases a with
    | drift d => cases hcall
    | begin m l' =>
      cases hcall
      simp only [System.step] at h
      split at h <;> cases h
      simp only [World.run, Function.update_self, Option.some.injEq, Prod.mk.injEq] at hn
      exact .inl (by rw [hn.1])
    | resume m =>
      cases hcall
      simp only [System.step] at h
      split at h <;> cases h
      rename_i hold
      simp only [World.run, Function.update_self, Option.some.injEq, Prod.mk.injEq] at hn
      exact .inr ⟨_, by rw [hold, hn.1]⟩
    | serve m ch =>
      cases hcall
      simp only [System.step] at h
      split at h
      · rename_i hold
        obtain ⟨_, -, rfl⟩ := Option.map_eq_some_iff.mp h
        simp only [Function.update_self, Option.some.injEq, Prod.mk.injEq] at hn
        exact .inr ⟨_, by rw [hold, hn.1]⟩
      · cases h
  · exact .inr ⟨phase, by rw [← System.frame h hcall, hn]⟩

theorem System.answered {w w' : World σ A ε α E L} {a : Act C D L} {n : Nat} {l : L} {q : Q} {x : A q}
    {k k' : A q → Prog σ A ε α} (h : sys.step w a = some w') (hn : w.calls n = some (l, .asking q k))
    (hn' : w'.calls n = some (l, .answered q x k')) :
    ∃ ch, a = .serve n ch ∧ sys.respond w.env n q ch = some (x, w'.env) := by
  have hcall : a.call = some n := by
    by_contra hne
    have hsame := System.frame h hne
    rw [hn, hn'] at hsame
    simp at hsame
  cases a with
  | drift d => cases hcall
  | begin m l' =>
    cases hcall
    simp [System.step, hn] at h
  | resume m =>
    cases hcall
    simp [System.step, hn] at h
  | serve m ch =>
    cases hcall
    simp only [System.step, hn] at h
    obtain ⟨⟨x', e⟩, hresp, rfl⟩ := Option.map_eq_some_iff.mp h
    simp only [Function.update_self, Option.some.injEq, Prod.mk.injEq, Phase.answered.injEq, heq_eq_eq,
      true_and] at hn'
    obtain ⟨rfl, rfl⟩ := hn'
    exact ⟨ch, rfl, hresp⟩

/-- A call is through at the end of a turn of its own. -/
theorem System.settled {w w' : World σ A ε α E L} {a : Act C D L} {n : Nat} {l : L} {r : Except ε α}
    (h : sys.step w a = some w') (hn : w.calls n ≠ some (l, .settled r))
    (hn' : w'.calls n = some (l, .settled r)) :
    w'.env = w.env ∧ ((∃ l', a = .begin n l') ∨ a = .resume n) := by
  have hcall : a.call = some n := by
    by_contra hne
    exact hn ((System.frame h hne).symm.trans hn')
  cases a with
  | drift d => cases hcall
  | begin m l' =>
    cases hcall
    simp only [System.step] at h
    split at h <;> cases h
    exact ⟨rfl, .inl ⟨l', rfl⟩⟩
  | resume m =>
    cases hcall
    simp only [System.step] at h
    split at h <;> cases h
    exact ⟨rfl, .inr rfl⟩
  | serve m ch =>
    cases hcall
    simp only [System.step] at h
    split at h
    · obtain ⟨_, -, rfl⟩ := Option.map_eq_some_iff.mp h
      simp at hn'
    · cases h

theorem holds_start {s : σ} {e : E} (h : sp.inv s e) : Holds sp (.start s e : World σ A ε α E L) :=
  ⟨h, fun _ _ _ h => (nomatch h), fun _ h => (nomatch h)⟩

theorem PhaseOk.later (law : sp.Lawful) {c : Caller L} {phase : Phase σ A ε α} {s s' : σ} {e e' : E}
    (hp : PhaseOk sp c phase s e) (hr : sp.rely (s, e) (s', e')) : PhaseOk sp c phase s' e' := by
  cases phase with
  | asking q k =>
    exact ⟨law.issued _ _ _ _ _ _ hr hp.1, fun a s'' e'' hr' => hp.2 a s'' e'' (law.trans _ _ _ hr hr')⟩
  | answered q a k =>
    exact ⟨law.got _ _ _ _ _ _ _ hr hp.1, fun s'' e'' hr' => hp.2 s'' e'' (law.trans _ _ _ hr hr')⟩
  | settled r => exact law.post _ _ _ _ _ _ hr hp

/-- A turn leaves the invariant, and does what it promises. -/
theorem Safe.advance {c : Caller L} {p : Prog σ A ε α} {s₀ s : σ} {e : E}
    (hp : Safe sp c p (Ended sp c) s₀ s e) :
    sp.inv (advance p s).1 e ∧ sp.turn c (advance p s).2.outcome e s₀ (advance p s).1 ∧
      PhaseOk sp c (advance p s).2 (advance p s).1 e := by
  induction p generalizing s with
  | done a => exact hp
  | fail x => exact hp
  | get k ih => exact ih _ hp
  | set s' k ih => exact ih hp
  | ask q k ih => exact ⟨hp.1, hp.2.1, hp.2.2⟩

/-- Call `n` takes a turn: the rest of the world sees what `rely` allows. -/
theorem Holds.run (law : sp.Lawful) {w : World σ A ε α E L} {n : Nat} {l : L} {p : Prog σ A ε α}
    (hw : Holds sp w) (hp : Safe sp (n, l) p (Ended sp (n, l)) w.shared w.shared w.env) :
    Holds sp (w.run n l p) ∧ ∃ phase, (w.run n l p).calls n = some (l, phase) ∧
      sp.turn (n, l) phase.outcome w.env w.shared (w.run n l p).shared := by
  obtain ⟨hinv, hturn, hph⟩ := hp.advance
  have hr := law.turn_rely _ _ _ _ _ hturn
  refine ⟨⟨hinv, fun m l' phase hm => ?_, fun x hx => ?_⟩, _, Function.update_self .., hturn⟩
  · by_cases hmn : m = n
    · subst hmn
      simp only [World.run, Function.update_self, Option.some.injEq, Prod.mk.injEq] at hm
      obtain ⟨rfl, rfl⟩ := hm
      exact hph
    · simp only [World.run, Function.update_of_ne hmn] at hm
      exact (hw.calls m l' phase hm).later law hr
  · have hold : ∀ x ∈ w.log, sp.issued x.1 x.2 (w.run n l p).shared (w.run n l p).env :=
      fun x hx => law.issued _ _ _ _ _ _ hr (hw.log x hx)
    simp only [World.run] at hx
    split at hx
    · rename_i q k heq
      rcases List.mem_cons.mp hx with rfl | hx
      · rw [heq] at hph
        exact hph.1
      · exact hold x hx
    · exact hold x hx

theorem Sound.step (hs : Sound sys sp) {w w' : World σ A ε α E L} {a : Act C D L} (hw : Holds sp w)
    (hok : Allowed sys sp w a) (h : sys.step w a = some w') : Holds sp w' ∧ Turned sp w w' a := by
  have hmoves := hok.2.2 w' h
  cases a with
  | begin n l =>
    simp only [System.step] at h
    split at h <;> cases h
    obtain ⟨hw', hturn⟩ := hw.run hs.law (hs.body (n, l) _ _ hw.inv (hok.1 n l rfl))
    exact ⟨hw', l, hturn⟩
  | resume n =>
    simp only [System.step] at h
    split at h <;> cases h
    rename_i l q a k hn
    obtain ⟨hgot, hk⟩ := hw.calls n l _ hn
    obtain ⟨hw', hturn⟩ := hw.run hs.law (hk _ _ (hs.law.refl _) hw.inv (hok.2.1 n l q a k rfl hn))
    exact ⟨hw', l, hturn⟩
  | serve n ch =>
    simp only [System.step] at h
    split at h
    · rename_i l q k hn
      obtain ⟨⟨a, e⟩, hresp, rfl⟩ := Option.map_eq_some_iff.mp h
      obtain ⟨hissued, hk⟩ := hw.calls n l _ hn
      obtain ⟨hinv, hr, hgot⟩ := hs.respond (n, l) q ch a _ _ _ hw.inv hissued hresp hmoves
      refine ⟨⟨hinv, fun m l' phase hm => ?_, fun x hx => hs.law.issued _ _ _ _ _ _ hr (hw.log x hx)⟩, rfl⟩
      by_cases hmn : m = n
      · subst hmn
        simp only [Function.update_self, Option.some.injEq, Prod.mk.injEq] at hm
        obtain ⟨rfl, rfl⟩ := hm
        -- What is known of the answer outlives whatever happens before the call goes on.
        exact ⟨hgot, fun s' e' hr' hi hg =>
          hk a s' e' (hs.law.trans _ _ _ hr hr') hi (hs.law.got _ _ _ _ _ _ _ hr' hgot) hg⟩
      · simp only [Function.update_of_ne hmn] at hm
        exact (hw.calls m l' phase hm).later hs.law hr
    · cases h
  | drift d =>
    obtain ⟨e, hd, rfl⟩ := Option.map_eq_some_iff.mp h
    obtain ⟨hinv, hr⟩ := hs.drift d _ _ _ hw.inv hd hmoves
    exact ⟨⟨hinv, fun m l phase hm => (hw.calls m l phase hm).later hs.law hr,
      fun x hx => hs.law.issued _ _ _ _ _ _ hr (hw.log x hx)⟩, rfl⟩

/-- What the turn has done in which a call gets through. -/
theorem Sound.settled (hs : Sound sys sp) {w w' : World σ A ε α E L} {a : Act C D L} {n : Nat} {l : L}
    {r : Except ε α} (hw : Holds sp w) (hok : Allowed sys sp w a) (h : sys.step w a = some w')
    (hn : w.calls n ≠ some (l, .settled r)) (hn' : w'.calls n = some (l, .settled r)) :
    sp.turn (n, l) (some r) w.env w.shared w'.shared := by
  have hturned := (hs.step hw hok h).2
  obtain ⟨-, ⟨l', rfl⟩ | rfl⟩ := System.settled h hn hn'
  · obtain ⟨l'', phase, hcall, hturn⟩ := hturned
    cases hcall.symm.trans hn'
    exact hturn
  · obtain ⟨l'', phase, hcall, hturn⟩ := hturned
    cases hcall.symm.trans hn'
    exact hturn

/-- The same specification, with something else known of the outcomes. -/
def Spec.ending (sp : Spec σ A ε α E L) (post : Caller L → Except ε α → σ → E → Prop) : Spec σ A ε α E L :=
  { sp with post }

theorem Safe.ending {post : Caller L → Except ε α → σ → E → Prop} {β : Type} {c : Caller L} {p : Prog σ A ε β}
    {Φ : Except ε β → σ → σ → E → Prop} {s₀ s : σ} {e : E} (h : Safe sp c p Φ s₀ s e) :
    Safe (sp.ending post) c p Φ s₀ s e := by
  induction p generalizing s₀ s e with
  | done a => exact h
  | fail x => exact h
  | get k ih => exact ih s h
  | set s' k ih => exact ih h
  | ask q k ih => exact ⟨h.1, h.2.1, h.2.2.1, fun a s' e' hr hi hg hq => ih a (h.2.2.2 a s' e' hr hi hg hq)⟩

/-- More is known of the outcomes than a sound specification says. -/
theorem Sound.ending (hs : Sound sys sp) {post : Caller L → Except ε α → σ → E → Prop}
    (hpost : ∀ c r s e s' e', sp.rely (s, e) (s', e') → post c r s e → post c r s' e')
    (hbody : ∀ c s e, sp.inv s e → sp.start c s e →
      Safe sp c (sys.body c.2) (Ended (sp.ending post) c) s s e) : Sound sys (sp.ending post) where
  law := { hs.law with post := hpost }
  body c s e hinv hstart := (hbody c s e hinv hstart).ending
  respond := hs.respond
  drift := hs.drift

/-- Every run of the steps that are reckoned with keeps the invariant and what is known of every call and
request. -/
theorem Sound.holds (hs : Sound sys sp) {ok : World σ A ε α E L → Act C D L → Prop}
    {w w' : World σ A ε α E L} (hok : ∀ w a, ok w a → Allowed sys sp w a) (hw : Holds sp w)
    (h : Run (Fires sys.step) ok w w') : Holds sp w' :=
  h.inv (Holds sp) (fun _ _ _ hw ha hstep => (hs.step hw (hok _ _ ha) hstep).1) hw

end

end Async
