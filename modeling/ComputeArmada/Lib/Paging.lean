import Mathlib.Data.List.Forall2

/-!
# Pages of a list that changes while it is read

A list is read by the slices of those of its elements that are in view. Elements join it at its end and
go out of view, for good, wherever they stand.

* `page` : a slice; `rank` : how many elements in view stand before a position;
* `mem_page`, `of_mem_page` : what a slice holds, by rank;
* `Grows` : how the list changes, and `Grows.rank_le` : ranks only fall.
-/

namespace Paging

variable {α : Type*} (p : α → Bool)

/-- Of the elements in view, those from the `skip`-th on, at most `take` of them. -/
def page (l : List α) (skip take : Nat) : List α := ((l.filter p).drop skip).take take

/-- How many elements in view stand before position `i`. -/
def rank (l : List α) (i : Nat) : Nat := (l.take i).countP p

variable {p}

/-- An element in view is where its rank says. -/
theorem getElem?_rank {l : List α} {i : Nat} {a : α} (h : l[i]? = some a) (ha : p a = true) :
    (l.filter p)[rank p l i]? = some a := by
  have hsplit : l = l.take i ++ a :: l.drop (i + 1) := by
    obtain ⟨hi, rfl⟩ := List.getElem?_eq_some_iff.mp h
    simp
  have hfilter : l.filter p = (l.take i).filter p ++ a :: (l.drop (i + 1)).filter p := by
    conv_lhs => rw [hsplit]
    rw [List.filter_append, List.filter_cons_of_pos ha]
  rw [hfilter, rank, List.countP_eq_length_filter, List.getElem?_append_right (Nat.le_refl _), Nat.sub_self]
  rfl

/-- Every place among the elements in view is the rank of one. -/
theorem exists_rank {l : List α} {m : Nat} {a : α} (h : (l.filter p)[m]? = some a) :
    ∃ i, l[i]? = some a ∧ p a = true ∧ rank p l i = m := by
  induction l generalizing m with
  | nil => simp at h
  | cons b l ih =>
    have hlater : ∀ i, rank p (b :: l) (i + 1) = rank p l i + if p b then 1 else 0 := fun i => by
      rw [rank, List.take_succ_cons, List.countP_cons, rank]
    by_cases hb : p b = true
    · rw [List.filter_cons_of_pos hb] at h
      cases m with
      | zero =>
        cases h
        exact ⟨0, rfl, hb, rfl⟩
      | succ m =>
        obtain ⟨i, hi, ha, hm⟩ := ih h
        exact ⟨i + 1, hi, ha, by rw [hlater, hm, if_pos hb]⟩
    · rw [List.filter_cons_of_neg hb] at h
      obtain ⟨i, hi, ha, hm⟩ := ih h
      exact ⟨i + 1, hi, ha, by rw [hlater, hm, if_neg hb, Nat.add_zero]⟩

theorem rank_lt {l : List α} {i : Nat} {a : α} (h : l[i]? = some a) (ha : p a = true) :
    rank p l i < (l.filter p).length :=
  (List.getElem?_eq_some_iff.mp (getElem?_rank h ha)).1

theorem mem_page {l : List α} {i skip take : Nat} {a : α} (h : l[i]? = some a) (ha : p a = true)
    (hskip : skip ≤ rank p l i) (htake : rank p l i < skip + take) : a ∈ page p l skip take := by
  refine List.mem_of_getElem? (i := rank p l i - skip) ?_
  rw [page, List.getElem?_take_of_lt (by omega), List.getElem?_drop, Nat.add_sub_cancel' hskip]
  exact getElem?_rank h ha

theorem of_mem_page {l : List α} {skip take : Nat} {a : α} (h : a ∈ page p l skip take) :
    ∃ i, l[i]? = some a ∧ p a = true ∧ skip ≤ rank p l i ∧ rank p l i < skip + take := by
  obtain ⟨m, hm⟩ := List.getElem?_of_mem h
  obtain ⟨hlt, -⟩ := List.getElem?_eq_some_iff.mp hm
  have htake : m < take := by
    rw [page, List.length_take] at hlt
    omega
  rw [page, List.getElem?_take_of_lt htake, List.getElem?_drop] at hm
  obtain ⟨i, hi, ha, hrank⟩ := exists_rank hm
  exact ⟨i, hi, ha, by omega, by omega⟩

/-- A page that is not full is the last: nothing in view is behind it. -/
theorem rank_lt_of_short {l : List α} {i skip take : Nat} {a : α} (h : l[i]? = some a) (ha : p a = true)
    (hshort : (page p l skip take).length < take) : rank p l i < skip + take := by
  have hlt := rank_lt h ha
  rw [page, List.length_take, List.length_drop] at hshort
  omega

/-! ## Change -/

/-- The elements of `l` in their places, each as `R` allows, and others after them. -/
def Grows (R : α → α → Prop) (l l' : List α) : Prop := ∃ old new, l' = old ++ new ∧ List.Forall₂ R l old

variable {R : α → α → Prop} {l l' : List α}

theorem Grows.length_le (h : Grows R l l') : l.length ≤ l'.length := by
  obtain ⟨old, new, rfl, hold⟩ := h
  rw [List.length_append, hold.length_eq]
  exact Nat.le_add_right _ _

theorem countP_le_of_forall₂ (hR : ∀ a a', R a a' → p a' = true → p a = true) (h : List.Forall₂ R l l') :
    l'.countP p ≤ l.countP p := by
  induction h with
  | nil => exact Nat.le_refl _
  | @cons a a' _ _ hab _ ih =>
    rw [List.countP_cons, List.countP_cons]
    by_cases ha' : p a' = true
    · rw [if_pos ha', if_pos (hR _ _ hab ha')]
      omega
    · rw [if_neg ha']
      omega

/-- Where elements go out of view for good, ranks only fall. -/
theorem Grows.rank_le (hR : ∀ a a', R a a' → p a' = true → p a = true) (h : Grows R l l') {i : Nat}
    (hi : i ≤ l.length) : rank p l' i ≤ rank p l i := by
  obtain ⟨old, new, rfl, hold⟩ := h
  have hlen : i ≤ old.length := hold.length_eq ▸ hi
  rw [rank, List.take_append_of_le_length hlen]
  exact countP_le_of_forall₂ hR (List.forall₂_take i hold)

end Paging
