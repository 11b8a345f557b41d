import Mathlib.Data.List.Infix
import Mathlib.Data.String.Basic

/-!
# Lists of characters

* `decidableChars` : a property of every character of a text is decided along the text;
* `splitOn_singleton` : `String.splitOn` at one character splits the list of characters;
* `Replaced` : a text with every occurrence of a token, from the left and not overlapping, replaced;
* `Replaced.not_isInfix` : what is left holds the token no more, if it has none of the characters around the
  replacement and is not within it;
* `replaced_replace` : `String.replace` does that.
-/

namespace Text

/-- Along the text, not over all of Unicode. -/
instance (priority := 2000) decidableChars (p : Char → Prop) [DecidablePred p] (cs : List Char) :
    Decidable (∀ c ∈ cs, p c) :=
  List.decidableBAll p cs

/-! ## Pieces -/

section
open String

theorem splitOnAux_of_valid (sep : Char) (l m r : List Char) (acc : List String) :
    splitOnAux (ofList (l ++ m ++ r)) (ofList [sep]) ⟨utf8Len l⟩ ⟨utf8Len l + utf8Len m⟩ 0 acc =
      acc.reverse ++ (List.splitOnPPrepend (· == sep) r m.reverse).map ofList := by
  have hsep : Pos.Raw.get (ofList [sep]) 0 = sep := get_of_valid [] [sep]
  have hsepNext : Pos.Raw.next (ofList [sep]) 0 = ⟨sep.utf8Size⟩ := by simpa using next_of_valid [] sep []
  have hsepEnd : Pos.Raw.atEnd (ofList [sep]) ⟨sep.utf8Size⟩ = true := by
    rw [atEnd_iff, rawEndPos_ofList]
    exact Nat.le_of_eq (by simp)
  induction r generalizing l m acc with
  | nil =>
    have hend : Pos.Raw.atEnd (ofList (l ++ m ++ [])) ⟨utf8Len l + utf8Len m⟩ = true := by
      rw [atEnd_iff, rawEndPos_ofList]
      exact Nat.le_of_eq (by simp)
    rw [splitOnAux, if_pos hend, extract_of_valid l m [], List.splitOnPPrepend_nil, List.reverse_cons,
      List.reverse_reverse]
    rfl
  | cons c r ih =>
    have hget : Pos.Raw.get (ofList (l ++ m ++ c :: r)) ⟨utf8Len l + utf8Len m⟩ = c := by
      simpa only [utf8Len_append, List.headD_cons] using get_of_valid (l ++ m) (c :: r)
    have hnext : Pos.Raw.next (ofList (l ++ m ++ c :: r)) ⟨utf8Len l + utf8Len m⟩ =
        ⟨utf8Len l + utf8Len m + c.utf8Size⟩ := by
      simpa only [utf8Len_append] using next_of_valid (l ++ m) c r
    have hend : ¬ Pos.Raw.atEnd (ofList (l ++ m ++ c :: r)) ⟨utf8Len l + utf8Len m⟩ = true := by
      have hpos := c.utf8Size_pos
      rw [atEnd_iff, rawEndPos_ofList, Pos.Raw.mk_le_mk]
      simp only [utf8Len_append, utf8Len_cons]
      omega
    rw [splitOnAux, if_neg hend, hget, hsep]
    by_cases h : c = sep
    · subst h
      have hback : (⟨utf8Len l + utf8Len m + c.utf8Size⟩ : Pos.Raw).unoffsetBy ⟨c.utf8Size⟩ =
          ⟨utf8Len l + utf8Len m⟩ := by
        simp [Pos.Raw.unoffsetBy]
      have hrest := ih (l ++ m ++ [c]) [] (ofList m :: acc)
      simp only [utf8Len_append, utf8Len_cons, utf8Len_nil, List.append_assoc, List.singleton_append,
        Nat.zero_add, Nat.add_zero, List.reverse_nil] at hrest
      rw [if_pos (beq_self_eq_true c), List.splitOnPPrepend_cons_pos (by exact beq_self_eq_true c)]
      simp only [hnext, hsepNext, hsepEnd, if_true, hback, extract_of_valid l m (c :: r)]
      rw [List.append_assoc, Nat.add_assoc, hrest]
      simp
    · have hback : (⟨utf8Len l + utf8Len m⟩ : Pos.Raw).unoffsetBy 0 = ⟨utf8Len l + utf8Len m⟩ := by
        simp [Pos.Raw.unoffsetBy]
      have hrest := ih l (m ++ [c]) acc
      simp only [utf8Len_append, utf8Len_cons, utf8Len_nil, List.append_assoc, List.singleton_append,
        Nat.zero_add, List.reverse_append, List.reverse_singleton] at hrest
      rw [if_neg (by simpa using h), hback, hnext, List.splitOnPPrepend_cons_neg (by simpa using h), List.append_assoc,
        Nat.add_assoc, hrest]

/-- A separator of one character. -/
theorem splitOn_singleton (s : String) (sep : Char) :
    s.splitOn (ofList [sep]) = (s.toList.splitOn sep).map ofList := by
  have hne : (ofList [sep] == "") = false := by
    rw [beq_eq_false_iff_ne]
    exact fun h => absurd (congrArg String.toList h) (by simp)
  have haux := splitOnAux_of_valid sep [] [] s.toList []
  simp only [List.nil_append, List.reverse_nil, ofList_toList, utf8Len_nil, Nat.add_zero,
    List.splitOnPPrepend_nil_right] at haux
  rw [splitOn, hne, List.splitOn_eq_splitOnP]
  exact haux

end

/-! ## Infixes -/

section
variable {α : Type} {t xs ys : List α} {a : α}

/-- An infix without `a` lies to one side of it. -/
theorem isInfix_of_isInfix_append_cons (h : t <:+: xs ++ a :: ys) (ha : a ∉ t) : t <:+: xs ∨ t <:+: ys := by
  obtain ⟨before, after, h⟩ := h
  rw [List.append_assoc] at h
  rcases List.append_eq_append_iff.mp h with ⟨mid, rfl, hmid⟩ | ⟨mid, rfl, hmid⟩
  · rcases List.append_eq_append_iff.mp hmid with ⟨rest, rfl, -⟩ | ⟨rest, ht, hrest⟩
    · exact .inl ⟨before, rest, by rw [List.append_assoc]⟩
    · rcases rest with _ | ⟨b, rest⟩
      · rw [List.append_nil] at ht
        exact .inl ⟨before, [], by rw [ht, List.append_nil]⟩
      · obtain ⟨rfl, -⟩ := List.cons.inj hrest
        exact absurd (ht ▸ List.mem_append_right _ (List.mem_cons_self ..)) ha
  · rcases mid with _ | ⟨b, mid⟩
    · rcases t with _ | ⟨c, t⟩
      · exact .inl (List.nil_infix)
      · obtain ⟨rfl, -⟩ := List.cons.inj hmid
        exact absurd (List.mem_cons_self ..) ha
    · obtain ⟨-, hys⟩ := List.cons.inj hmid
      exact .inr ⟨mid, after, by rw [List.append_assoc]; exact hys.symm⟩

end

/-! ## Replacing a token -/

/-- `out` is `cs` with every occurrence of `token`, from the left and not overlapping, replaced by `new`. -/
inductive Replaced (token new : List Char) : List Char → List Char → Prop
  | nil : Replaced token new [] []
  | found {cs out : List Char} (h : Replaced token new cs out) :
      Replaced token new (token ++ cs) (new ++ out)
  | keep {c : Char} {cs out : List Char} (hno : ¬ token <+: c :: cs) (h : Replaced token new cs out) :
      Replaced token new (c :: cs) (c :: out)

namespace Replaced
variable {token new cs out : List Char}

/-- What is not of the token stays. -/
theorem mem (h : Replaced token new cs out) {c : Char} (hc : c ∈ cs) (htoken : c ∉ token) : c ∈ out := by
  induction h with
  | nil => exact hc
  | found h ih => exact List.mem_append_right _ (ih ((List.mem_append.mp hc).resolve_left htoken))
  | keep hno h ih =>
    rcases List.mem_cons.mp hc with rfl | hc
    · exact List.mem_cons_self ..
    · exact List.mem_cons_of_mem _ (ih hc)

theorem mem_or (h : Replaced token new cs out) {c : Char} (hc : c ∈ out) : c ∈ cs ∨ c ∈ new := by
  induction h with
  | nil => exact .inl hc
  | found h ih =>
    rcases List.mem_append.mp hc with hc | hc
    · exact .inr hc
    · exact (ih hc).imp_left fun hc => List.mem_append_right _ hc
  | keep hno h ih =>
    rcases List.mem_cons.mp hc with rfl | hc
    · exact .inl (List.mem_cons_self ..)
    · exact (ih hc).imp_left fun hc => List.mem_cons_of_mem _ hc

/-- A token that occurs is replaced somewhere. -/
theorem isInfix_new (h : Replaced token new cs out) (hne : token ≠ []) (htoken : token <:+: cs) :
    new <:+: out := by
  induction h with
  | nil => exact absurd (List.infix_nil.mp htoken) hne
  | @found cs out h ih => exact ⟨[], out, rfl⟩
  | keep hno h ih =>
    obtain hpre | htail := List.infix_cons_iff.mp htoken
    · exact absurd hpre hno
    · exact (ih htail).trans (List.infix_cons_iff.mpr (.inr (List.infix_refl _)))

/-- A beginning without the first character of the replacement is one of the text before. -/
theorem isPrefix {l : Char} {mid : List Char} (h : Replaced token (l :: mid) cs out) {p : List Char}
    (hp : p <+: out) (hl : l ∉ p) : p <+: cs := by
  induction h generalizing p with
  | nil => exact hp
  | found h ih =>
    rcases p with _ | ⟨b, p⟩
    · exact List.nil_prefix
    · obtain ⟨rfl, -⟩ := List.cons_prefix_cons.mp hp
      exact absurd (List.mem_cons_self ..) hl
  | keep hno h ih =>
    rcases p with _ | ⟨b, p⟩
    · exact List.nil_prefix
    · obtain ⟨rfl, hrest⟩ := List.cons_prefix_cons.mp hp
      exact List.cons_prefix_cons.mpr ⟨rfl, ih hrest fun hmem => hl (List.mem_cons_of_mem _ hmem)⟩

/-- **No occurrence is left**, where the token has neither the first nor the last character of the
replacement and does not occur between these: none can span a replacement or reach into one. -/
theorem not_isInfix {l r : Char} {mid : List Char} (h : Replaced token (l :: (mid ++ [r])) cs out)
    (hl : l ∉ token) (hr : r ∉ token) (hne : token ≠ []) (hmid : ¬ token <:+: mid) : ¬ token <:+: out := by
  induction h with
  | nil => exact fun hin => hne (List.infix_nil.mp hin)
  | @found cs out h ih =>
    intro hin
    have hin' : token <:+: (l :: mid) ++ r :: out := by simpa using hin
    rcases isInfix_of_isInfix_append_cons hin' hr with hin | hin
    · have hfirst : token <:+: [] ++ l :: mid := hin
      rcases isInfix_of_isInfix_append_cons hfirst hl with hin | hin
      · exact hne (List.infix_nil.mp hin)
      · exact hmid hin
    · exact ih hin
  | @keep c cs out hno h ih =>
    intro hin
    obtain hpre | htail := List.infix_cons_iff.mp hin
    · obtain ⟨b, t, rfl⟩ := List.exists_cons_of_ne_nil hne
      obtain ⟨rfl, hrest⟩ := List.cons_prefix_cons.mp hpre
      exact hno (List.cons_prefix_cons.mpr
        ⟨rfl, h.isPrefix hrest fun hmem => hl (List.mem_cons_of_mem _ hmem)⟩)
    · exact ih htail

/-- Text in which the token begins nowhere is kept. -/
theorem append {kept : List Char} (h : Replaced token new cs out)
    (hno : ∀ before after, kept = before ++ after → after ≠ [] → ¬ token <+: after ++ cs) :
    Replaced token new (kept ++ cs) (kept ++ out) := by
  induction kept with
  | nil => exact h
  | cons c kept ih =>
    refine .keep (hno [] (c :: kept) rfl (by simp)) (ih fun before after hk hne => ?_)
    exact hno (c :: before) after (by rw [hk]; rfl) hne

end Replaced

/-! ## `String.replace` -/

section
open String.Slice.Pattern String.Slice.Pattern.Model

variable {s : String.Slice} {token new : String}

/-- What `replace` does with one step of the search. -/
def addStep (new : String) (sofar : String) : SearchStep s → String
  | .matched _ _ => sofar ++ new.toSlice
  | .rejected start stop => sofar ++ s.slice! start stop

theorem append_slice (a : String) (t : String.Slice) : a ++ t = a ++ t.copy := rfl

theorem replaced_steps {pos : s.Pos} {steps : List (SearchStep s)} (h : IsValidSearchFrom token pos steps) :
    ∀ {t₁ t₂ : String}, pos.Splits t₁ t₂ → ∀ sofar : String, ∃ out,
      Replaced token.toList new.toList t₂.toList out ∧
        (steps.foldl (addStep new) sofar).toList = sofar.toList ++ out := by
  induction h with
  | endPos =>
    intro t₁ t₂ hs sofar
    obtain ⟨-, rfl⟩ := String.Slice.splits_endPos_iff.mp hs
    exact ⟨[], .nil, by simp⟩
  | @matched steps start stop hm _ ih =>
    intro t₁ t₂ hs sofar
    obtain ⟨u₁, u₂, hstart, hstop⟩ := ForwardStringSearcher.isLongestMatchAt_iff_splits.mp hm
    obtain ⟨out, hr, hout⟩ := ih hstop (sofar ++ new.toSlice)
    obtain rfl := hs.eq_right hstart
    refine ⟨new.toList ++ out, ?_, ?_⟩
    · rw [String.toList_append]
      exact .found hr
    · rw [List.foldl_cons]
      simp only [addStep]
      rw [hout, append_slice]
      simp
  | @mismatched steps start stop hlt hno _ ih =>
    intro t₁ t₂ hs sofar
    obtain ⟨u₁, u₂, hstop⟩ : ∃ u₁ u₂, stop.Splits u₁ u₂ := ⟨_, _, stop.splits⟩
    obtain ⟨kept, -, rfl, rfl⟩ := (hs.lt_iff_exists_eq_append hstop).mp hlt
    obtain ⟨out, hr, hout⟩ := ih hstop (sofar ++ s.slice! start stop)
    refine ⟨kept.toList ++ out, ?_, ?_⟩
    · rw [String.toList_append]
      refine hr.append fun before after hk hne hpre => ?_
      obtain ⟨rest, hrest⟩ := hpre
      have hkept : kept = String.ofList before ++ String.ofList after := by
        rw [← String.toList_inj, String.toList_append, String.toList_ofList, String.toList_ofList, hk]
      have hcopy : s.copy = (t₁ ++ String.ofList before) ++ (String.ofList after ++ u₂) := by
        rw [hs.eq_append, hkept, String.append_assoc, String.append_assoc]
      have htext : String.ofList after ++ u₂ = token ++ String.ofList rest := by
        rw [← String.toList_inj, String.toList_append, String.toList_append, String.toList_ofList,
          String.toList_ofList, hrest]
      obtain ⟨p, hp⟩ : ∃ p : s.Pos, p.Splits (t₁ ++ String.ofList before) (String.ofList after ++ u₂) :=
        ⟨_, String.Slice.Pos.splits_ofEqAppend hcopy⟩
      refine hno _ ?_ ?_ (ForwardStringSearcher.matchesAt_iff_splits.mpr ⟨_, _, by rwa [htext] at hp⟩)
      · exact (hs.le_iff_exists_eq_append hp).mpr
          ⟨String.ofList before, rfl, by rw [hkept, String.append_assoc]⟩
      · refine (hp.lt_iff_exists_eq_append hstop).mpr ⟨String.ofList after, ?_, ?_, rfl⟩
        · intro h
          exact hne (by rw [← String.toList_ofList (l := after), h]; rfl)
        · rw [hkept, String.append_assoc]
    · rw [List.foldl_cons]
      simp only [addStep]
      obtain ⟨hle, hkept⟩ := String.Slice.copy_slice_eq_iff_splits.mpr ⟨t₁, u₂, hs, hstop⟩
      rw [hout, append_slice, ← String.Slice.slice_eq_slice! (h := hle), hkept]
      simp

theorem replaced_replace (s token new : String) (ht : token ≠ "") :
    Replaced token.toList new.toList s.toList (s.replace token new).toList := by
  have hsearch := (ForwardStringSearcher.lawfulToForwardSearcherModel ht).isValidSearchFrom_toList s.toSlice
  obtain ⟨out, hr, hout⟩ := @replaced_steps _ _ new _ _ hsearch _ _ (String.Slice.splits_startPos _) ""
  have hfold : s.replace token new = ((ToForwardSearcher.toSearcher token s.toSlice).toList).foldl
    (addStep new) "" := by
    unfold String.replace String.Slice.replace
    rw [← Std.Iter.foldl_toList]
    congr
    funext sofar step
    cases step <;> rfl
  rw [hfold, hout]
  simpa using hr

end

end Text
