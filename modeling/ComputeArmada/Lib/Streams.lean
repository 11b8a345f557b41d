import Mathlib.Tactic.ByContra

/-!
# Streams that are read in chunks

A stream whose source puts chunks in and ends it, and whose reader takes them out and may cancel it.

* `Readable` : the chunks that wait in a stream, and how it stands;
* `enqueue`, `close`, `fail` : what its source does; `read`, `cancel` : what its reader does;
* `Finished` : a stream that is closed, errored or cancelled; a chunk and a read make none of one that is not to be
  closed (`of_enqueue`, `of_read`), `fail` and `cancel` of every one;
* `of_read_chunk`, `of_read_end` : what a read takes out of it.
-/

namespace Streams

inductive Standing (ε : Type)
  | readable
  | closed
  | errored (cause : ε)
  deriving DecidableEq

structure Readable (α ε : Type) where
  queue : List α
  /-- Closed, as soon as no chunk waits in it. -/
  closing : Bool
  standing : Standing ε

/-- What a read comes to. -/
inductive Got (α ε : Type)
  | chunk (a : α)
  | done
  | failed (cause : ε)

section
variable {α ε : Type}

namespace Readable

def empty : Readable α ε := { queue := [], closing := false, standing := .readable }

/-- Chunks may be put in. -/
def accepts (s : Readable α ε) : Bool :=
  match s.standing with
  | .readable => !s.closing
  | _ => false

/-- None, where it throws. -/
def enqueue (s : Readable α ε) (a : α) : Option (Readable α ε) :=
  if s.accepts then some { s with queue := s.queue ++ [a] } else none

/-- None, where it throws. -/
def close (s : Readable α ε) : Option (Readable α ε) :=
  if s.accepts then
    some (if s.queue.isEmpty then { s with standing := .closed } else { s with closing := true })
  else none

/-- The chunks that wait are lost. -/
def fail (s : Readable α ε) (cause : ε) : Readable α ε :=
  match s.standing with
  | .readable => { s with queue := [], standing := .errored cause }
  | _ => s

/-- None, where the reader is to wait. -/
def read (s : Readable α ε) : Option (Got α ε × Readable α ε) :=
  match s.standing with
  | .errored cause => some (.failed cause, s)
  | .closed => some (.done, s)
  | .readable =>
    match s.queue with
    | [] => none
    | a :: queue =>
      some (.chunk a, { s with queue, standing := if s.closing ∧ queue.isEmpty then .closed else .readable })

def cancel (s : Readable α ε) : Readable α ε :=
  match s.standing with
  | .readable => { s with queue := [], standing := .closed }
  | _ => s

/-! ## The end of a stream -/

/-- Closed, errored or cancelled. -/
def Finished (s : Readable α ε) : Prop := s.standing ≠ .readable

instance [DecidableEq ε] (s : Readable α ε) : Decidable s.Finished :=
  inferInstanceAs (Decidable (s.standing ≠ .readable))

theorem accepts_iff {s : Readable α ε} : s.accepts = true ↔ ¬ s.Finished ∧ s.closing = false := by
  unfold accepts Finished
  cases s.standing <;> simp

theorem enqueue_eq_none {s : Readable α ε} {a : α} (h : s.enqueue a = none) : s.Finished ∨ s.closing = true := by
  by_contra hnot
  obtain ⟨hfinished, hclosing⟩ := not_or.mp hnot
  have haccepts : s.accepts = true := accepts_iff.mpr ⟨hfinished, eq_false_of_ne_true hclosing⟩
  unfold enqueue at h
  rw [if_pos haccepts] at h
  cases h

theorem of_enqueue {s t : Readable α ε} {a : α} (h : s.enqueue a = some t) :
    t = { s with queue := s.queue ++ [a] } := by
  unfold enqueue at h
  split at h
  · exact (Option.some.inj h).symm
  · cases h

theorem finished_fail (s : Readable α ε) (cause : ε) : (s.fail cause).Finished := by
  unfold fail
  split
  · intro h
    cases h
  · assumption

theorem closing_fail (s : Readable α ε) (cause : ε) : (s.fail cause).closing = s.closing := by
  unfold fail
  split <;> rfl

/-- A read finishes no stream but one that was to be closed. -/
theorem of_read {s t : Readable α ε} {got : Got α ε} (h : s.read = some (got, t)) :
    t.closing = s.closing ∧ (t.Finished → s.Finished ∨ s.closing = true) := by
  unfold read at h
  split at h
  · cases h
    exact ⟨rfl, .inl⟩
  · cases h
    exact ⟨rfl, .inl⟩
  · split at h
    · cases h
    · cases h
      refine ⟨rfl, fun hfinished => .inr ?_⟩
      by_contra hclosing
      refine hfinished ?_
      dsimp only
      rw [if_neg fun h => hclosing h.1]

/-! ## What is in a stream -/

/-- The error that it has ended with. -/
def failure (s : Readable α ε) : Option ε :=
  match s.standing with
  | .errored cause => some cause
  | _ => none

theorem enqueue_of_accepts {s : Readable α ε} (h : s.accepts = true) (a : α) :
    s.enqueue a = some { s with queue := s.queue ++ [a] } := if_pos h

theorem close_of_accepts {s : Readable α ε} (h : s.accepts = true) (hqueue : s.queue = []) :
    s.close = some { s with standing := .closed } := by
  unfold close
  rw [if_pos h, if_pos (by rw [hqueue]; rfl)]

theorem fail_of_accepts {s : Readable α ε} (h : s.accepts = true) (cause : ε) :
    s.fail cause = { s with queue := [], standing := .errored cause } := by
  unfold accepts at h
  unfold fail
  cases hstanding : s.standing with
  | readable => rfl
  | closed =>
    rw [hstanding] at h
    cases h
  | errored cause' =>
    rw [hstanding] at h
    cases h

theorem of_read_chunk {s t : Readable α ε} {a : α} (h : s.read = some (.chunk a, t)) :
    s.queue = a :: t.queue ∧ ¬ s.Finished ∧ t.failure = none ∧ (t.Finished → s.closing = true ∧ t.queue = []) := by
  unfold read at h
  split at h
  · cases h
  · cases h
  · rename_i hstanding
    split at h
    · cases h
    · rename_i b queue hqueue
      cases h
      refine ⟨hqueue, fun h => h hstanding, ?_, fun hfinished => ?_⟩
      · unfold failure
        dsimp only
        split
        · rename_i h
          split at h <;> cases h
        · rfl
      · by_contra hnot
        refine hfinished ?_
        dsimp only
        rw [if_neg fun h => hnot ⟨h.1, List.isEmpty_iff.mp h.2⟩]

/-- A read that gives no chunk finds the stream finished, and leaves it so. -/
theorem of_read_end {s t : Readable α ε} {got : Got α ε} (h : s.read = some (got, t)) (hgot : ∀ a, got ≠ .chunk a) :
    t = s ∧ s.Finished := by
  unfold read at h
  split at h
  · rename_i hstanding
    cases h
    exact ⟨rfl, fun h => nomatch hstanding.symm.trans h⟩
  · rename_i hstanding
    cases h
    exact ⟨rfl, fun h => nomatch hstanding.symm.trans h⟩
  · split at h
    · cases h
    · cases h
      exact absurd rfl (hgot _)

end Readable

end

end Streams
