import ComputeArmada.Agent.Listing

/-!
# The nodes a listing walks over

* `Seen` : a node, the names under which it is listed, and where it was found;
* `mem_listing` : the entries of a listing are those of the nodes it has seen;
* `seen_deep` : below the first level the path of a node leads to it; `seen_first` : and on the first level, where
  the cleaned root leads where the root does.
-/

namespace ComputeArmada.Agent
open Paths FileTree

variable {t : FileTree} {cwd : Loc} {root : Path} {recursive : Bool}

/-- An entry of the root is looked up in the root as it is spelled, and all below it by cleaned paths. -/
inductive Seen (t : FileTree) (cwd : Loc) (root : Path) : Bool → List Path → Loc → Node → Prop
  | first {recursive c loc node} (hroot : t.resolve true cwd root = .ok loc) (hnode : t.get (loc ++ [c]) = some node)
      (hitself : recursive = true → ∃ itself, osLstat t cwd root = .ok itself ∧ itself.isDirectory = true) :
      Seen t cwd root recursive [c] (loc ++ [c]) node
  | deep {c loc child names loc' node} (hfirst : Seen t cwd root true [c] loc child) (hchild : child.isDirectory = true)
      (hloc : t.resolve true cwd (under root [c]) = .ok loc') (hne : names ≠ [])
      (hnode : t.get (loc' ++ names) = some node) :
      Seen t cwd root true (c :: names) (loc' ++ names) node

theorem Seen.get {names : List Path} {loc : Loc} {node : Node} (h : Seen t cwd root recursive names loc node) :
    t.get loc = some node := by
  cases h with
  | first _ hnode _ => exact hnode
  | deep _ _ _ _ hnode => exact hnode

theorem Seen.ne_nil {names : List Path} {loc : Loc} {node : Node} (h : Seen t cwd root recursive names loc node) :
    names ≠ [] := by
  cases h <;> exact List.cons_ne_nil _ _

theorem Seen.forall_names {P : Path → Prop} (hall : ∀ loc, t.get loc ≠ none → ∀ c ∈ loc, P c)
    {names : List Path} {loc : Loc} {node : Node} (h : Seen t cwd root recursive names loc node) :
    ∀ c ∈ names, P c := by
  cases h with
  | first _ hnode _ =>
    exact fun d hd => hall _ (by rw [hnode]; exact Option.some_ne_none _) d (List.mem_append_right _ hd)
  | deep hfirst _ _ _ hnode =>
    refine List.forall_mem_cons.mpr ⟨?_, fun d hd =>
      hall _ (by rw [hnode]; exact Option.some_ne_none _) d (List.mem_append_right _ hd)⟩
    cases hfirst with
    | first _ hnode _ => exact hall _ (by rw [hnode]; exact Option.some_ne_none _) _ (by simp)
    | deep _ _ _ hne _ => exact absurd rfl hne

theorem Seen.valid {names : List Path} {loc : Loc} {node : Node} (h : Seen t cwd root recursive names loc node) :
    ∀ c ∈ names, Valid c := h.forall_names fun _ hget _ hc => get_valid hget hc

theorem Seen.plain {names : List Path} {loc : Loc} {node : Node} (h : Seen t cwd root recursive names loc node) :
    ∀ c ∈ names, Plain c := fun c hc => (h.valid c hc).plain

theorem Seen.unique {names : List Path} {loc loc' : Loc} {node node' : Node}
    (h : Seen t cwd root recursive names loc node)
    (h' : Seen t cwd root recursive names loc' node') : loc = loc' := by
  cases h with
  | first hroot _ _ =>
    cases h' with
    | first hroot' _ _ => rw [Except.ok.inj (hroot.symm.trans hroot')]
    | deep _ _ _ hne _ => exact absurd rfl hne
  | deep _ _ hloc hne _ =>
    cases h' with
    | first _ _ _ => exact absurd rfl hne
    | deep _ _ hloc' _ _ => rw [Except.ok.inj (hloc.symm.trans hloc')]

theorem Seen.itself {names : List Path} {loc : Loc} {node : Node} (h : Seen t cwd root true names loc node) :
    ∃ itself, osLstat t cwd root = .ok itself ∧ itself.isDirectory = true := by
  cases h with
  | first _ _ hitself => exact hitself rfl
  | deep hfirst _ _ _ _ =>
    cases hfirst with
    | first _ _ hitself => exact hitself rfl
    | deep _ _ _ hne _ => exact absurd rfl hne

theorem Seen.dir {names : List Path} {loc : Loc} {node : Node} (h : Seen t cwd root recursive names loc node) :
    ∃ dir, t.resolve true cwd root = .ok dir := by
  cases h with
  | first hroot _ _ => exact ⟨_, hroot⟩
  | deep hfirst _ _ _ _ =>
    cases hfirst with
    | first hroot _ _ => exact ⟨_, hroot⟩
    | deep _ _ _ hne _ => exact absurd rfl hne

/-- The nodes on the way to a node are listed as well. -/
theorem Seen.above {before after : List Path} {c : Path} {loc : Loc} {node : Node}
    (h : Seen t cwd root recursive (before ++ c :: after) loc node) :
    ∃ loc' node', Seen t cwd root recursive (before ++ [c]) loc' node' := by
  generalize hnames : before ++ c :: after = names at h
  cases h with
  | first hroot hnode hitself =>
    rename_i d dir
    obtain ⟨rfl, rfl, rfl⟩ : before = [] ∧ c = d ∧ after = [] := by
      cases before with
      | nil => simpa using hnames
      | cons b before => simp at hnames
    exact ⟨_, _, .first hroot hnode hitself⟩
  | deep hfirst hchild hloc hne hnode =>
    rename_i d loc₁ child names loc'
    cases before with
    | nil =>
      obtain ⟨rfl, -⟩ := List.cons.inj hnames
      exact ⟨_, _, hfirst⟩
    | cons b before =>
      rw [List.cons_append] at hnames
      obtain ⟨rfl, rfl⟩ := List.cons.inj hnames
      obtain ⟨found, hfound⟩ : ∃ found, t.get (loc' ++ (before ++ [c])) = some found := by
        by_cases hafter : after = []
        · exact ⟨_, by rw [← hnode, hafter]⟩
        · rw [List.append_cons, ← List.append_assoc] at hnode
          obtain ⟨access, size, habove⟩ := get_above (by rw [hnode]; exact Option.some_ne_none _) hafter
          exact ⟨_, habove⟩
      exact ⟨_, _, .deep hfirst hchild hloc (by simp) hfound⟩

theorem mem_listing {es : List FileEntry} (h : listEntries t cwd root recursive = .ok es) :
    (es.map (·.path)).Nodup ∧ ∀ e, e ∈ es ↔
      ∃ names loc node, Seen t cwd root recursive names loc node ∧ e = fileEntry (under root names) node := by
  cases recursive with
  | false =>
    obtain ⟨hnodup, hmem⟩ := flat_mem h
    refine ⟨hnodup, fun e => (hmem e).trans ⟨?_, ?_⟩⟩
    · rintro ⟨c, child, ⟨loc, hloc, -, hget⟩, rfl⟩
      exact ⟨[c], _, child, .first hloc hget nofun, rfl⟩
    · rintro ⟨names, loc, node, hseen, rfl⟩
      cases hseen with
      | first hroot hnode _ => exact ⟨_, node, ⟨_, hroot, by simp, hnode⟩, rfl⟩
  | true =>
    obtain ⟨itself, hlstat, hempty, -⟩ := deep_ok h
    by_cases hdir : itself.isDirectory = true
    · obtain ⟨hnodup, hmem⟩ := deep_entries hlstat hdir h
      have hfirst : ∀ c child, Below t cwd root [c] child → ∃ loc, Seen t cwd root true [c] loc child := by
        rintro c child ⟨loc, hloc, -, hget⟩
        exact ⟨_, .first hloc hget fun _ => ⟨itself, hlstat, hdir⟩⟩
      have hbelow : ∀ c loc child, Seen t cwd root true [c] loc child → Below t cwd root [c] child := by
        intro c loc child hseen
        cases hseen with
        | first hroot hnode _ => exact ⟨_, hroot, by simp, hnode⟩
        | deep _ _ _ hne _ => exact absurd rfl hne
      refine ⟨hnodup, fun e => (hmem e).trans ⟨?_, ?_⟩⟩
      · rintro ⟨c, child, hb, rfl | ⟨hchild, names, found, ⟨loc', hloc', hne, hget⟩, rfl⟩⟩
        · obtain ⟨loc, hseen⟩ := hfirst c child hb
          exact ⟨[c], loc, child, hseen, rfl⟩
        · obtain ⟨loc, hseen⟩ := hfirst c child hb
          exact ⟨c :: names, _, found, .deep hseen hchild hloc' hne hget, rfl⟩
      · rintro ⟨names, loc, node, hseen, rfl⟩
        cases hseen with
        | first hroot hnode _ => exact ⟨_, node, ⟨_, hroot, by simp, hnode⟩, .inl rfl⟩
        | deep hseen hchild hloc' hne hnode =>
          exact ⟨_, _, hbelow _ _ _ hseen, .inr ⟨hchild, _, node, ⟨_, hloc', hne, hnode⟩, rfl⟩⟩
    · rw [hempty (by simpa using hdir)]
      refine ⟨List.nodup_nil, fun e => iff_of_false List.not_mem_nil ?_⟩
      have hnone : ∀ c loc child, ¬ Seen t cwd root true [c] loc child := by
        intro c loc child hseen
        cases hseen with
        | first _ _ hitself =>
          obtain ⟨itself', hlstat', hdir'⟩ := hitself rfl
          obtain rfl := Except.ok.inj (hlstat.symm.trans hlstat')
          exact hdir hdir'
        | deep _ _ _ hne _ => exact absurd rfl hne
      rintro ⟨names, loc, node, hseen, -⟩
      cases hseen with
      | first hroot hnode hitself => exact hnone _ _ _ (.first hroot hnode hitself)
      | deep hseen _ _ _ _ => exact hnone _ _ _ hseen

/-- What is below a clean path is found where the path leads. -/
theorem resolve_below {path : Path} {names more : List Path} {loc : Loc} {node : Node}
    (hpath : path = under root names) (hplain : ∀ c ∈ names, Plain c) (hloc : t.resolve true cwd path = .ok loc)
    (hne : more ≠ []) (hnode : t.get (loc ++ more) = some node) (hlink : node.isSymlink = false)
    (hsearch : ∀ k < more.length, (t.get (loc ++ more.take k)).any Node.searchable = true) :
    t.resolve true cwd (under root (names ++ more)) = .ok (loc ++ more) := by
  have hnormal := normal_under root hplain
  have hclean : clean path = path := by
    rw [hpath, clean, parts_under _ hplain]
    unfold under
    rw [rooted_render hnormal]
  have hunder : under path more = under root (names ++ more) := by
    rw [under, hpath, parts_under _ hplain]
    unfold under
    rw [rooted_render hnormal, List.append_assoc]
  rw [← hunder]
  exact resolve_under (by rwa [hclean]) hne hnode (fun _ => hlink) hsearch

/-- Below the first level the paths are those by which the walk came there. -/
theorem seen_deep {es : List FileEntry} (h : listEntries t cwd root true = .ok es) {c : Path}
    {names : List Path} {loc : Loc}
    {node : Node} (hseen : Seen t cwd root true (c :: names) loc node) (hne : names ≠ [])
    (hlink : node.isSymlink = false) :
    t.resolve true cwd (under root (c :: names)) = .ok loc := by
  have hall := hseen.plain
  cases hseen with
  | first _ _ _ => exact absurd rfl hne
  | deep hfirst hchild hloc _ hnode =>
    rename_i loc₀ child loc'
    obtain ⟨itself, hlstat, hempty, hdeep⟩ := deep_ok h
    cases hfirst with
    | deep _ _ _ hne _ => exact absurd rfl hne
    | first hroot hget hitself =>
      obtain ⟨itself', hlstat', hdir⟩ := hitself rfl
      obtain rfl := Except.ok.inj (hlstat.symm.trans hlstat')
      obtain ⟨loc₁, access, size, hroot', -, g, -, hg⟩ := hdeep hdir
      obtain rfl := Except.ok.inj (hroot.symm.trans hroot')
      obtain ⟨loc₂, below, hloc₂, -, -, hbelow⟩ := (hg _ (mem_entries.mpr hget)).2.directory hchild
      obtain rfl := Except.ok.inj (hloc.symm.trans hloc₂)
      have hc : ∀ d ∈ [c], Plain d := fun d hd => hall d (by rw [List.mem_singleton.mp hd]; exact List.mem_cons_self)
      exact resolve_below rfl hc hloc hne hnode hlink (hbelow.ways names (by rw [hnode]; exact Option.some_ne_none _))

/-- The directory that a listing has entries of can be searched. -/
theorem first_search {es : List FileEntry} (h : listEntries t cwd root recursive = .ok es) {c : Path}
    {dir : Loc} {node : Node}
    (hseen : Seen t cwd root recursive [c] (dir ++ [c]) node) (hroot : t.resolve true cwd root = .ok dir) :
    (t.get dir).any Node.searchable = true := by
  have hentry := mem_entries.mpr hseen.get
  cases recursive with
  | false =>
    obtain ⟨loc, access, size, hloc, hget, -, hsearch⟩ := flat_ok h
    obtain rfl := Except.ok.inj (hroot.symm.trans hloc)
    rw [hget]
    exact hsearch _ hentry
  | true =>
    obtain ⟨itself, hlstat, -, hdeep⟩ := deep_ok h
    obtain ⟨itself', hlstat', hdir⟩ := hseen.itself
    obtain rfl := Except.ok.inj (hlstat.symm.trans hlstat')
    obtain ⟨loc, access, size, hloc, hget, g, -, hg⟩ := hdeep hdir
    obtain rfl := Except.ok.inj (hroot.symm.trans hloc)
    rw [hget]
    exact (hg _ hentry).1

/-- Where the cleaned root leads where the root does, each node is found by its names from there. -/
theorem Seen.ways {es : List FileEntry} (h : listEntries t cwd root recursive = .ok es) {names : List Path}
    {loc dir : Loc}
    {node : Node} (hseen : Seen t cwd root recursive names loc node) (hroot : t.resolve true cwd root = .ok dir)
    (hclean : t.resolve true cwd (clean root) = .ok dir) :
    loc = dir ++ names ∧ ∀ k < names.length, (t.get (dir ++ names.take k)).any Node.searchable = true := by
  cases hseen with
  | first hroot' hnode hitself =>
    rename_i c dir'
    obtain rfl := Except.ok.inj (hroot.symm.trans hroot')
    refine ⟨rfl, fun k hk => ?_⟩
    obtain rfl : k = 0 := by simpa using hk
    rw [List.take_zero, List.append_nil]
    exact first_search h (.first hroot hnode hitself) hroot
  | deep hfirst hchild hloc' hne hnode =>
    rename_i c loc₁ child names loc'
    cases hfirst with
    | deep _ _ _ hne _ => exact absurd rfl hne
    | first hroot' hget hitself =>
      obtain rfl := Except.ok.inj (hroot.symm.trans hroot')
      have hsearch := first_search h (.first hroot hget hitself) hroot
      have hunder : t.resolve true cwd (under root [c]) = .ok (dir ++ [c]) := by
        refine resolve_under hclean (by simp) hget (fun _ => ?_) fun k hk => ?_
        · cases child with
          | symlink target => cases hchild
          | _ => rfl
        · obtain rfl : k = 0 := by simpa using hk
          rwa [List.take_zero, List.append_nil]
      obtain rfl := Except.ok.inj (hunder.symm.trans hloc')
      refine ⟨(List.append_cons dir c names).symm, fun k hk => ?_⟩
      cases k with
      | zero => rwa [List.take_zero, List.append_nil]
      | succ k =>
        obtain ⟨itself, hlstat, -, hdeep⟩ := deep_ok h
        obtain ⟨itself', hlstat', hdir⟩ := hitself rfl
        obtain rfl := Except.ok.inj (hlstat.symm.trans hlstat')
        obtain ⟨loc₁, access, size, hloc₁, -, g, -, hg⟩ := hdeep hdir
        obtain rfl := Except.ok.inj (hroot.symm.trans hloc₁)
        obtain ⟨loc₂, below, hloc₂, -, -, hbelow⟩ := (hg _ (mem_entries.mpr hget)).2.directory hchild
        obtain rfl := Except.ok.inj (hunder.symm.trans hloc₂)
        rw [List.take_succ_cons, List.append_cons]
        exact hbelow.ways names (by rw [hnode]; exact Option.some_ne_none _) k (Nat.lt_of_succ_lt_succ hk)

/-- On the first level they are so where the cleaned root leads where the root does. -/
theorem seen_first {es : List FileEntry} (h : listEntries t cwd root recursive = .ok es) {c : Path} {loc : Loc}
    {node : Node} (hseen : Seen t cwd root recursive [c] loc node) (hlink : node.isSymlink = false)
    (hclean : t.resolve true cwd (clean root) = t.resolve true cwd root) :
    t.resolve true cwd (under root [c]) = .ok loc := by
  cases hseen with
  | deep _ _ _ hne _ => exact absurd rfl hne
  | first hroot hnode hitself =>
    have hways := (Seen.first hroot hnode hitself).ways h hroot (hclean.trans hroot)
    exact resolve_under (hclean.trans hroot) (by simp) hnode (fun _ => hlink) hways.2

end ComputeArmada.Agent
