import Mathlib.Algebra.GroupWithZero.Nat
import Mathlib.Data.List.Basic
import Mathlib.Data.List.Induction

/-!
# Slash-separated paths

Paths of bytes, and how they are cleaned without a look at the files.

* `split` : the components of a path; `Valid` : one that names an entry of a directory;
* `clean`, `join` : the shortest path with the same meaning where no component is a link, and a name under it;
* `Normal`, `parts_render` : what is clean stays so;
* `under` : a path and names below it (`join_under`, `under_injective`).
-/

namespace Paths

/-- A path, or one component of it. -/
abbrev Path := List UInt8

def slash : UInt8 := 47

def dot : Path := [46]

def dotdot : Path := [46, 46]

/-- The name of an entry. -/
structure Valid (c : Path) : Prop where
  nonempty : c ≠ []
  noSlash : slash ∉ c
  noZero : 0 ∉ c
  notDot : c ≠ dot
  notDotdot : c ≠ dotdot

instance (c : Path) : Decidable (Valid c) :=
  decidable_of_iff (c ≠ [] ∧ slash ∉ c ∧ 0 ∉ c ∧ c ≠ dot ∧ c ≠ dotdot)
    ⟨fun ⟨h1, h2, h3, h4, h5⟩ => ⟨h1, h2, h3, h4, h5⟩, fun ⟨h1, h2, h3, h4, h5⟩ => ⟨h1, h2, h3, h4, h5⟩⟩

def split (path : Path) : List Path := path.splitOn slash

def rooted (path : Path) : Bool := path.head? = some slash

/-- One more component, where `out` holds those before it, the last one first. -/
def push (fromRoot : Bool) (out : List Path) (c : Path) : List Path :=
  if c = [] ∨ c = dot then out
  else if c = dotdot then
    match out with
    | [] => if fromRoot then [] else [dotdot]
    | last :: rest => if last = dotdot then dotdot :: out else rest
  else c :: out

def parts (path : Path) : List Path := ((split path).foldl (push (rooted path)) []).reverse

def render (fromRoot : Bool) (ps : List Path) : Path :=
  if fromRoot then slash :: [slash].intercalate ps else if ps = [] then dot else [slash].intercalate ps

/-- The shortest name of a path. -/
def clean (path : Path) : Path := render (rooted path) (parts path)

/-- The elements that are not empty, joined and cleaned. -/
def join (elements : List Path) : Path :=
  match elements.filter (· ≠ []) with
  | [] => []
  | es => clean ([slash].intercalate es)

/-! ## Components -/

theorem not_mem_of_mem_split {path c : Path} (h : c ∈ split path) : slash ∉ c := by
  induction path generalizing c with
  | nil =>
    obtain rfl : c = [] := by simpa [split] using h
    exact List.not_mem_nil
  | cons b path ih =>
    unfold split at h ih
    rw [List.splitOn_cons_eq_if_modifyHead] at h
    split at h
    · rcases List.mem_cons.mp h with rfl | h
      · exact List.not_mem_nil
      · exact ih h
    · rename_i hb
      obtain ⟨d, ds, hds⟩ := List.exists_cons_of_ne_nil (List.splitOn_ne_nil slash path)
      rw [hds] at h ih
      rcases List.mem_cons.mp h with rfl | h
      · have hd := ih List.mem_cons_self
        have hne : b ≠ slash := by simpa using hb
        simp only [List.mem_cons, not_or]
        exact ⟨hne.symm, hd⟩
      · exact ih (List.mem_cons_of_mem _ h)

theorem split_append_slash (path path' : Path) : split (path ++ slash :: path') = split path ++ split path' :=
  List.splitOn_append_cons_self path path'

theorem split_name {c : Path} (h : slash ∉ c) : split c = [c] := List.splitOn_eq_singleton h

theorem split_intercalate {ps : List Path} (h : ∀ p ∈ ps, slash ∉ p) (hne : ps ≠ []) :
    split ([slash].intercalate ps) = ps := List.splitOn_intercalate slash h hne

theorem rooted_append {path : Path} (h : path ≠ []) (path' : Path) : rooted (path ++ path') = rooted path := by
  obtain ⟨b, rest, rfl⟩ := List.exists_cons_of_ne_nil h
  rfl

theorem split_rooted {path : Path} (h : rooted path = true) :
    ∃ rest, path = slash :: rest ∧ split path = [] :: split rest := by
  obtain ⟨rest, rfl⟩ : ∃ rest, path = slash :: rest := by
    cases path with
    | nil => cases h
    | cons b rest =>
      have hb : b = slash := by simpa [rooted] using h
      exact ⟨rest, by rw [hb]⟩
  exact ⟨rest, rfl, split_append_slash [] rest⟩

/-! ## Clean paths -/

/-- A component that says something of its own. -/
structure Plain (c : Path) : Prop where
  nonempty : c ≠ []
  noSlash : slash ∉ c
  notDot : c ≠ dot
  notDotdot : c ≠ dotdot

theorem Valid.plain {c : Path} (h : Valid c) : Plain c := ⟨h.nonempty, h.noSlash, h.notDot, h.notDotdot⟩

/-- The components of a clean path, the last one first: those that lead up are at the front. -/
def Normal (fromRoot : Bool) (out : List Path) : Prop :=
  ∃ rest k, out = rest ++ List.replicate k dotdot ∧ (fromRoot = true → k = 0) ∧ ∀ c ∈ rest, Plain c

theorem Normal.noSlash {fromRoot : Bool} {out : List Path} (h : Normal fromRoot out) {c : Path} (hc : c ∈ out) :
    c ≠ [] ∧ slash ∉ c := by
  obtain ⟨rest, k, rfl, -, hrest⟩ := h
  rcases List.mem_append.mp hc with hc | hc
  · exact ⟨(hrest c hc).nonempty, (hrest c hc).noSlash⟩
  · obtain rfl := List.eq_of_mem_replicate hc
    exact ⟨by decide, by decide⟩

theorem Normal.append {fromRoot : Bool} {out names : List Path} (h : Normal fromRoot out)
    (hnames : ∀ c ∈ names, Plain c) :
    Normal fromRoot (names ++ out) := by
  obtain ⟨rest, k, rfl, hk, hrest⟩ := h
  refine ⟨names ++ rest, k, (List.append_assoc _ _ _).symm, hk, fun c hc => ?_⟩
  exact (List.mem_append.mp hc).elim (hnames c) (hrest c)

theorem push_plain {c : Path} (h : Plain c) (fromRoot : Bool) (out : List Path) : push fromRoot out c = c :: out := by
  unfold push
  rw [if_neg (by simp [h.nonempty, h.notDot]), if_neg h.notDotdot]

theorem push_skip {c : Path} (h : c = [] ∨ c = dot) (fromRoot : Bool) (out : List Path) :
    push fromRoot out c = out := by
  unfold push
  rw [if_pos h]

theorem Normal.push {fromRoot : Bool} {out : List Path} (h : Normal fromRoot out) {c : Path} (hc : slash ∉ c) :
    Normal fromRoot (push fromRoot out c) := by
  by_cases hskip : c = [] ∨ c = dot
  · rwa [push_skip hskip]
  by_cases hup : c = dotdot
  · obtain ⟨rest, k, rfl, hk, hrest⟩ := h
    unfold Paths.push
    rw [if_neg hskip, if_pos hup]
    cases rest with
    | cons last rest =>
      rw [List.cons_append]
      dsimp only
      rw [if_neg (hrest last List.mem_cons_self).notDotdot]
      exact ⟨rest, k, rfl, hk, fun c hc => hrest c (List.mem_cons_of_mem _ hc)⟩
    | nil =>
      cases k with
      | zero =>
        dsimp only [List.nil_append, List.replicate_zero]
        split
        · exact ⟨[], 0, rfl, fun _ => rfl, nofun⟩
        · rename_i hroot
          exact ⟨[], 1, rfl, fun h => absurd h hroot, nofun⟩
      | succ k =>
        rw [List.nil_append, List.replicate_succ]
        dsimp only
        rw [if_pos rfl]
        exact ⟨[], k + 2, rfl, fun h => absurd (hk h) (by omega), nofun⟩
  · obtain ⟨hnil, hdot⟩ := not_or.mp hskip
    have hplain : Plain c := ⟨hnil, hc, hdot, hup⟩
    rw [push_plain hplain]
    exact h.append fun d hd => List.mem_singleton.mp hd ▸ hplain

theorem Normal.foldl {fromRoot : Bool} {out cs : List Path} (h : Normal fromRoot out) (hcs : ∀ c ∈ cs, slash ∉ c) :
    Normal fromRoot (cs.foldl (Paths.push fromRoot) out) := by
  induction cs generalizing out with
  | nil => exact h
  | cons c cs ih => exact ih (h.push (hcs c List.mem_cons_self)) fun d hd => hcs d (List.mem_cons_of_mem _ hd)

theorem mem_push {fromRoot : Bool} {out : List Path} {c d : Path} (h : c ∈ push fromRoot out d) : c ∈ out ∨ c = d := by
  unfold push at h
  split at h
  · exact .inl h
  split at h
  · rename_i hup
    cases out with
    | nil =>
      dsimp only at h
      split at h
      · cases h
      · exact .inr ((List.mem_singleton.mp h).trans hup.symm)
    | cons last rest =>
      dsimp only at h
      split at h
      · exact (List.mem_cons.mp h).symm.imp_right fun h => h.trans hup.symm
      · exact .inl (List.mem_cons_of_mem _ h)
  · exact (List.mem_cons.mp h).symm

/-- Nothing is said in a clean path but what was said before. -/
theorem mem_parts {path c : Path} (h : c ∈ parts path) : c ∈ split path := by
  have hfold : ∀ cs out : List Path, c ∈ cs.foldl (push (rooted path)) out → c ∈ out ∨ c ∈ cs := by
    intro cs
    induction cs with
    | nil => exact fun _ h => .inl h
    | cons d cs ih =>
      intro out h
      rcases ih _ h with hpush | hcs
      · rcases mem_push hpush with hout | rfl
        · exact .inl hout
        · exact .inr List.mem_cons_self
      · exact .inr (List.mem_cons_of_mem _ hcs)
  exact (hfold _ _ (List.mem_reverse.mp h)).resolve_left List.not_mem_nil

theorem normal_parts (path : Path) : Normal (rooted path) (parts path).reverse := by
  unfold parts
  rw [List.reverse_reverse]
  exact Normal.foldl ⟨[], 0, rfl, fun _ => rfl, nofun⟩ fun _ hc => not_mem_of_mem_split hc

theorem foldl_plain {cs : List Path} (h : ∀ c ∈ cs, Plain c) (fromRoot : Bool) (out : List Path) :
    cs.foldl (push fromRoot) out = cs.reverse ++ out := by
  induction cs generalizing out with
  | nil => rfl
  | cons c cs ih =>
    rw [List.foldl_cons, push_plain (h c List.mem_cons_self), ih fun d hd => h d (List.mem_cons_of_mem _ hd)]
    simp

theorem foldl_dotdots (k : Nat) : (List.replicate k dotdot).foldl (push false) [] = List.replicate k dotdot := by
  induction k with
  | zero => rfl
  | succ k ih =>
    have hpush : push false (List.replicate k dotdot) dotdot = List.replicate (k + 1) dotdot := by
      cases k with
      | zero => rfl
      | succ k => rfl
    rw [List.replicate_succ', List.foldl_append, ih, List.foldl_cons, List.foldl_nil, hpush, List.replicate_succ']

/-- The components of a clean path are kept. -/
theorem Normal.foldl_self {fromRoot : Bool} {out : List Path} (h : Normal fromRoot out) :
    out.reverse.foldl (Paths.push fromRoot) [] = out := by
  obtain ⟨rest, k, rfl, hk, hrest⟩ := h
  have hups : (List.replicate k dotdot).foldl (Paths.push fromRoot) [] = List.replicate k dotdot := by
    cases fromRoot with
    | true => rw [hk rfl]; rfl
    | false => exact foldl_dotdots k
  rw [List.reverse_append, List.reverse_replicate, List.foldl_append, hups, foldl_plain (by simpa using hrest),
    List.reverse_reverse]

theorem split_render {fromRoot : Bool} {ps : List Path} (h : Normal fromRoot ps.reverse) (hne : ps ≠ []) :
    split (render fromRoot ps) = (if fromRoot then [[]] else []) ++ ps := by
  have hps : split ([slash].intercalate ps) = ps :=
    split_intercalate (fun p hp => (h.noSlash (List.mem_reverse.mpr hp)).2) hne
  unfold render
  cases fromRoot with
  | true =>
    rw [if_pos rfl, if_pos rfl]
    exact (split_append_slash [] _).trans (by rw [hps]; rfl)
  | false =>
    rw [if_neg (by decide), if_neg hne, hps]
    rfl

theorem rooted_render {fromRoot : Bool} {ps : List Path} (h : Normal fromRoot ps.reverse) :
    rooted (render fromRoot ps) = fromRoot := by
  unfold render
  cases fromRoot with
  | true => rfl
  | false =>
    rw [if_neg (by decide)]
    split
    · rfl
    · rename_i hne
      obtain ⟨p, rest, rfl⟩ := List.exists_cons_of_ne_nil hne
      obtain ⟨hp, hslash⟩ := h.noSlash (List.mem_reverse.mpr List.mem_cons_self)
      obtain ⟨b, bs, rfl⟩ := List.exists_cons_of_ne_nil hp
      have hb : b ≠ slash := fun hb => hslash (hb ▸ List.mem_cons_self)
      cases rest <;> simp [rooted, List.intercalate, hb]

theorem parts_render {fromRoot : Bool} {ps : List Path} (h : Normal fromRoot ps.reverse) :
    parts (render fromRoot ps) = ps := by
  unfold parts
  rw [rooted_render h]
  by_cases hne : ps = []
  · subst hne
    cases fromRoot <;> rfl
  · have hfold := h.foldl_self
    rw [List.reverse_reverse] at hfold
    rw [split_render h hne]
    cases fromRoot with
    | true =>
      rw [if_pos rfl, List.singleton_append, List.foldl_cons, push_skip (.inl rfl), hfold, List.reverse_reverse]
    | false => rw [if_neg (by decide), List.nil_append, hfold, List.reverse_reverse]

theorem render_ne_nil {fromRoot : Bool} {ps : List Path} (h : Normal fromRoot ps.reverse) :
    render fromRoot ps ≠ [] := by
  intro hnil
  have hparts := parts_render h
  have hrooted := rooted_render h
  rw [hnil] at hparts hrooted
  subst hparts hrooted
  exact absurd hnil (by decide)

/-! ## Names below a path -/

/-- The clean path of what is found below a path, by the names on the way. -/
def under (root : Path) (names : List Path) : Path := render (rooted root) (parts root ++ names)

theorem normal_under (root : Path) {names : List Path} (h : ∀ c ∈ names, Plain c) :
    Normal (rooted root) (parts root ++ names).reverse := by
  rw [List.reverse_append]
  exact (normal_parts root).append fun c hc => h c (List.mem_reverse.mp hc)

theorem join_name {path c : Path} (hpath : path ≠ []) (h : Plain c) : join [path, c] = under path [c] := by
  have hfilter : [path, c].filter (· ≠ []) = [path, c] := by simp [hpath, h.nonempty]
  have hjoin : [slash].intercalate [path, c] = path ++ slash :: c := by simp [List.intercalate]
  unfold join
  rw [hfilter]
  dsimp only
  rw [hjoin]
  unfold clean under parts
  rw [rooted_append hpath, split_append_slash, split_name h.noSlash, List.foldl_append, List.foldl_cons, List.foldl_nil,
    push_plain h, List.reverse_cons]

theorem join_under {root c : Path} {names : List Path} (h : ∀ c ∈ names, Plain c) (hc : Plain c) :
    join [under root names, c] = under root (names ++ [c]) := by
  have hnormal := normal_under root h
  have hne : under root names ≠ [] := render_ne_nil hnormal
  rw [join_name hne hc]
  unfold under
  rw [rooted_render hnormal, parts_render hnormal, List.append_assoc]

theorem parts_under (root : Path) {names : List Path} (h : ∀ c ∈ names, Plain c) :
    parts (under root names) = parts root ++ names := parts_render (normal_under _ h)

theorem under_ne {root : Path} {names : List Path} (h : ∀ c ∈ names, Plain c) (hne : names ≠ []) :
    under root names ≠ root := by
  intro heq
  have hparts := parts_under root h
  rw [heq] at hparts
  exact hne (List.append_right_eq_self.mp hparts.symm)

theorem intercalate_concat {ps : List Path} (hne : ps ≠ []) (c : Path) :
    [slash].intercalate (ps ++ [c]) = [slash].intercalate ps ++ slash :: c := by
  induction ps with
  | nil => exact absurd rfl hne
  | cons p ps ih =>
    by_cases hps : ps = []
    · subst hps
      simp
    · rw [List.cons_append, List.intercalate_cons_of_ne_nil (by simp), ih hps, List.intercalate_cons_of_ne_nil hps]
      simp

/-- Below a path with names, one more name is just appended. -/
theorem under_concat {root c : Path} {names : List Path} (hne : names ≠ []) :
    under root (names ++ [c]) = under root names ++ slash :: c := by
  have hsome : parts root ++ names ≠ [] := by simp [hne]
  have hmore : parts root ++ (names ++ [c]) ≠ [] := by simp
  have hjoin : [slash].intercalate (parts root ++ (names ++ [c])) =
      [slash].intercalate (parts root ++ names) ++ slash :: c := by
    rw [← List.append_assoc]
    exact intercalate_concat hsome c
  unfold under render
  rw [hjoin, if_neg hsome, if_neg hmore]
  cases rooted root <;> rfl

theorem mem_intercalate {ps : List Path} {b : UInt8} (hb : b ≠ slash) :
    b ∈ [slash].intercalate ps ↔ ∃ p ∈ ps, b ∈ p := by
  induction ps with
  | nil => simp
  | cons p ps ih =>
    by_cases hps : ps = []
    · subst hps
      simp
    · rw [List.intercalate_cons_of_ne_nil hps, List.mem_append, List.mem_append, List.mem_singleton, ih,
        List.exists_mem_cons_iff]
      simp [hb]

/-- A byte that is neither of a separator nor of a dot is of a component. -/
theorem mem_render {fromRoot : Bool} {ps : List Path} {b : UInt8} (hslash : b ≠ slash) (hdot : b ∉ dot) :
    b ∈ render fromRoot ps ↔ ∃ p ∈ ps, b ∈ p := by
  unfold render
  split
  · rw [List.mem_cons, or_iff_right hslash, mem_intercalate hslash]
  split
  · rename_i hps
    simp [hps, hdot]
  · exact mem_intercalate hslash

theorem mem_under {root : Path} {names : List Path} {b : UInt8} (hslash : b ≠ slash) (hdot : b ∉ dot) :
    b ∈ under root names ↔ b ∈ clean root ∨ ∃ c ∈ names, b ∈ c := by
  rw [under, clean, mem_render hslash hdot, mem_render hslash hdot]
  simp only [List.mem_append, or_and_right, exists_or]

/-! ### Lengths -/

/-- What components take, each with a separator. -/
def total (ps : List Path) : Nat := (ps.map fun p => p.length + 1).sum

theorem length_intercalate {ps : List Path} (hne : ps ≠ []) : ([slash].intercalate ps).length + 1 = total ps := by
  induction ps with
  | nil => exact absurd rfl hne
  | cons p ps ih =>
    by_cases hps : ps = []
    · subst hps
      simp [total]
    · have hrest := ih hps
      rw [List.intercalate_cons_of_ne_nil hps]
      simp only [total, List.map_cons, List.sum_cons, List.length_append, List.length_singleton] at hrest ⊢
      omega

theorem total_split (path : Path) : total (split path) = path.length + 1 := by
  have hne : split path ≠ [] := List.splitOn_ne_nil slash path
  have hlength := length_intercalate hne
  have hjoin : [slash].intercalate (split path) = path := List.intercalate_splitOn slash
  rw [hjoin] at hlength
  exact hlength.symm

theorem total_push (fromRoot : Bool) (out : List Path) (c : Path) :
    total (push fromRoot out c) ≤ total out + (c.length + 1) ∧ (c = [] → total (push fromRoot out c) = total out) := by
  unfold push
  split
  · exact ⟨by omega, fun _ => rfl⟩
  · rename_i hskip
    refine ⟨?_, fun hc => absurd (.inl hc) hskip⟩
    split
    · rename_i hup
      subst hup
      split
      · split <;> simp [total, dotdot]
      · split
        · simp only [total, List.map_cons, List.sum_cons]
          omega
        · simp only [total, List.map_cons, List.sum_cons]
          omega
    · simp only [total, List.map_cons, List.sum_cons]
      omega

theorem total_foldl (fromRoot : Bool) (out cs : List Path) :
    total (cs.foldl (push fromRoot) out) ≤ total out + total cs := by
  induction cs generalizing out with
  | nil => exact Nat.le_add_right _ _
  | cons c cs ih =>
    have hpush := (total_push fromRoot out c).1
    have hrest := ih (push fromRoot out c)
    rw [List.foldl_cons]
    simp only [total, List.map_cons, List.sum_cons] at hpush hrest ⊢
    omega

theorem total_parts (path : Path) : total (parts path) + (if rooted path then 1 else 0) ≤ path.length + 1 := by
  have hreverse : ∀ ps : List Path, total ps.reverse = total ps := fun ps => by
    unfold total
    rw [List.map_reverse, List.sum_reverse]
  unfold parts
  rw [hreverse]
  split
  · rename_i hrooted
    obtain ⟨rest, rfl, hsplit⟩ := split_rooted hrooted
    have hrest := total_foldl true [] (split rest)
    rw [total_split] at hrest
    rw [hsplit, hrooted, List.foldl_cons, push_skip (.inl rfl)]
    simp only [total, List.map_nil, List.sum_nil, List.length_cons] at hrest ⊢
    omega
  · have hall := total_foldl (rooted path) [] (split path)
    rw [total_split] at hall
    simp only [total, List.map_nil, List.sum_nil] at hall ⊢
    omega

theorem length_clean {path : Path} (h : path ≠ []) : (clean path).length ≤ path.length := by
  have htotal := total_parts path
  have hpos := List.length_pos_iff.mpr h
  unfold clean render
  by_cases hparts : parts path = []
  · rw [hparts]
    split <;> simp [dot] <;> omega
  · have hlength := length_intercalate hparts
    rw [if_neg hparts]
    split
    · rename_i hrooted
      rw [if_pos hrooted] at htotal
      rw [List.length_cons]
      omega
    · rename_i hrooted
      rw [if_neg hrooted] at htotal
      omega

/-! ### Prefixes -/

/-- What stands before the names in a path below a root. -/
def stem (root : Path) : Path := if parts root ≠ [] then clean root ++ [slash] else if rooted root then [slash] else []

/-- A root that is spelled as it stands before the names, its last slash there or not. -/
def Spelled (root : Path) : Prop := root = stem root ∨ root ++ [slash] = stem root

instance (root : Path) : Decidable (Spelled root) := inferInstanceAs (Decidable (_ ∨ _))

theorem intercalate_append {ps qs : List Path} (hps : ps ≠ []) (hqs : qs ≠ []) :
    [slash].intercalate (ps ++ qs) = [slash].intercalate ps ++ slash :: [slash].intercalate qs := by
  induction ps with
  | nil => exact absurd rfl hps
  | cons p ps ih =>
    by_cases hnil : ps = []
    · subst hnil
      rw [List.singleton_append, List.intercalate_cons_of_ne_nil hqs, List.intercalate_singleton, List.append_assoc,
        List.singleton_append]
    · rw [List.cons_append, List.intercalate_cons_of_ne_nil (by simp [hqs]), ih hnil,
        List.intercalate_cons_of_ne_nil hnil]
      simp

theorem under_eq {root : Path} {names : List Path} (hne : names ≠ []) :
    under root names = stem root ++ [slash].intercalate names := by
  unfold under stem
  by_cases hparts : parts root = []
  · rw [hparts, List.nil_append, if_neg (by simp)]
    unfold render
    cases rooted root
    · exact if_neg hne
    · rfl
  · have hmore : parts root ++ names ≠ [] := by simp [hparts]
    rw [if_pos hparts]
    unfold clean render
    rw [intercalate_append hparts hne, if_neg hparts, if_neg hmore]
    cases rooted root <;> simp

theorem intercalate_ne_nil {names : List Path} (hplain : ∀ c ∈ names, Plain c) (hne : names ≠ []) :
    [slash].intercalate names ≠ [] := by
  intro hnil
  have hsplit := split_intercalate (fun c hc => (hplain c hc).noSlash) hne
  rw [hnil] at hsplit
  exact (hplain [] (hsplit ▸ List.mem_singleton_self _)).nonempty rfl

theorem head_intercalate {names : List Path} (hplain : ∀ c ∈ names, Plain c) (hne : names ≠ []) :
    ([slash].intercalate names).head? ≠ some slash := by
  intro hslash
  have hsplit := split_intercalate (fun c hc => (hplain c hc).noSlash) hne
  obtain ⟨rest, -, hrest⟩ := split_rooted (decide_eq_true hslash : rooted ([slash].intercalate names) = true)
  rw [hsplit] at hrest
  exact (hplain [] (hrest ▸ List.mem_cons_self)).nonempty rfl

theorem last_intercalate {names : List Path} (hplain : ∀ c ∈ names, Plain c) (hne : names ≠ []) :
    (split ([slash].intercalate names)).getLast? = names.getLast? := by
  rw [split_intercalate (fun c hc => (hplain c hc).noSlash) hne]

theorem last_under {root : Path} {names : List Path} (hplain : ∀ c ∈ names, Plain c) (hne : names ≠ []) :
    (split (under root names)).getLast? = names.getLast? := by
  obtain ⟨c, hc⟩ := Option.ne_none_iff_exists'.mp (List.getLast?_eq_none_iff.not.mpr hne)
  rw [under, split_render (normal_under _ hplain) (by simp [hne]), ← List.append_assoc, List.getLast?_append, hc]
  rfl

theorem parts_slash {path : Path} (h : path ≠ []) : parts (path ++ [slash]) = parts path := by
  have hsplit : split (path ++ [slash]) = split path ++ [[]] := split_append_slash path []
  unfold parts
  rw [rooted_append h, hsplit, List.foldl_append, List.foldl_cons, List.foldl_nil, push_skip (.inl rfl)]

theorem Spelled.eq_clean {root : Path} (hroot : root ≠ []) (h : Spelled root) :
    root = clean root ∨ root = clean root ++ [slash] := by
  unfold Spelled stem at h
  by_cases hparts : parts root = []
  · rw [if_neg (not_not.mpr hparts)] at h
    cases hrooted : rooted root with
    | true =>
      rw [hrooted, if_pos rfl] at h
      obtain rfl := h.resolve_right fun h => hroot (List.append_left_eq_self.mp h)
      exact .inl (by decide)
    | false =>
      rw [hrooted, if_neg (by decide)] at h
      exact absurd (h.resolve_right (by simp)) hroot
  · rw [if_pos hparts] at h
    exact h.symm.imp_left fun h => List.append_cancel_right h

theorem spelled_isPrefix {root : Path} (hroot : root ≠ []) (hpre : root <+: stem root) : Spelled root := by
  obtain ⟨more, hmore⟩ := hpre
  by_cases hnil : more = []
  · subst hnil
    exact .inl (by rwa [List.append_nil] at hmore)
  have hpos := List.length_pos_iff.mpr hnil
  unfold Spelled
  unfold stem at hmore ⊢
  split at hmore
  · rename_i hparts
    have hlength := congrArg List.length hmore
    have hclean := length_clean hroot
    simp only [List.length_append, List.length_singleton] at hlength
    obtain ⟨hsame, -⟩ := List.append_inj hmore (by omega)
    exact .inr (by rw [if_pos hparts, ← hsame])
  split at hmore
  · have hlength := congrArg List.length hmore
    have hrooted := List.length_pos_iff.mpr hroot
    simp only [List.length_append, List.length_singleton] at hlength
    omega
  · exact absurd (List.append_eq_nil_iff.mp hmore).1 hroot

/-- A path below a root that begins with the root as a string: the root is spelled out, or it ends within a name. -/
theorem spelled_or_within {root : Path} {names : List Path} (hroot : root ≠ []) (hplain : ∀ c ∈ names, Plain c)
    (hne : names ≠ []) (hpre : root <+: under root names) :
    Spelled root ∨ ∃ before s r after, names = before ++ (s ++ r) :: after ∧ s ≠ [] ∧ r ≠ [] ∧
      under root (before ++ [s ++ r]) = root ++ r := by
  induction names using List.reverseRecOn with
  | nil => exact absurd rfl hne
  | append_singleton names c ih =>
    have hself : under root (names ++ [c]) ≠ root := under_ne hplain hne
    -- the root ends within the last name
    have hwithin : ∀ front s r, under root (names ++ [c]) = front ++ c → root = front ++ s → c = s ++ r → s ≠ [] →
        ∃ before s r after, names ++ [c] = before ++ (s ++ r) :: after ∧ s ≠ [] ∧ r ≠ [] ∧
          under root (before ++ [s ++ r]) = root ++ r := by
      rintro front s r hunder hfront rfl hs
      refine ⟨names, s, r, [], rfl, hs, fun hr => hself ?_, by rw [hunder, ← List.append_assoc, ← hfront]⟩
      rw [hunder, hr, List.append_nil, ← hfront]
    obtain ⟨rest, hrest⟩ := hpre
    by_cases hnames : names = []
    · have hunder : under root (names ++ [c]) = stem root ++ c := by
        rw [hnames, under_eq (by simp), List.nil_append, List.intercalate_singleton]
      rw [hunder] at hrest
      rcases List.append_eq_append_iff.mp hrest with ⟨more, hstem, -⟩ | ⟨s, hfront, hc⟩
      · exact .inl (spelled_isPrefix hroot ⟨more, hstem.symm⟩)
      · by_cases hs : s = []
        · exact .inl (.inl (by rwa [hs, List.append_nil] at hfront))
        · exact .inr (hwithin _ s rest hunder hfront hc hs)
    · have hplain' : ∀ d ∈ names, Plain d := fun d hd => hplain d (List.mem_append_left _ hd)
      have hunder : under root (names ++ [c]) = under root names ++ [slash] ++ c := by
        rw [under_concat hnames, List.append_assoc, List.singleton_append]
      have hlonger : root ≠ under root names ++ [slash] := by
        intro heq
        have hparts := congrArg parts heq
        have hnil : under root names ≠ [] := render_ne_nil (normal_under _ hplain')
        rw [parts_slash hnil, parts_under root hplain'] at hparts
        exact hnames (List.append_right_eq_self.mp hparts.symm)
      rw [hunder] at hrest
      rcases List.append_eq_append_iff.mp hrest with ⟨more, hfront, -⟩ | ⟨s, hfront, hc⟩
      · rcases List.eq_nil_or_concat more with rfl | ⟨more, b, rfl⟩
        · exact absurd (by rw [hfront, List.append_nil]) hlonger
        · rw [List.concat_eq_append, ← List.append_assoc] at hfront
          obtain ⟨hfront, -⟩ := List.append_inj' hfront rfl
          rcases ih hplain' hnames ⟨more, hfront.symm⟩ with h | ⟨before, s, r, after, rfl, hs, hr, hend⟩
          · exact .inl h
          · exact .inr ⟨before, s, r, after ++ [c], by simp, hs, hr, hend⟩
      · by_cases hs : s = []
        · exact absurd (by rwa [hs, List.append_nil] at hfront) hlonger
        · exact .inr (hwithin _ s rest hunder hfront hc hs)

theorem under_injective {root : Path} {names names' : List Path} (h : ∀ c ∈ names, Plain c) (h' : ∀ c ∈ names', Plain c)
    (heq : under root names = under root names') : names = names' := by
  have hparts := congrArg parts heq
  unfold under at hparts
  rw [parts_render (normal_under _ h), parts_render (normal_under _ h')] at hparts
  exact List.append_cancel_left hparts

end Paths
