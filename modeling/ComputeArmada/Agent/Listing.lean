import ComputeArmada.Agent.Files

/-!
# Listing directories

Both ways to list a directory, against the nodes that there are below it.

* `flat_ok`, `walkDir_shown`, `deep_ok` : what a listing that succeeds holds;
* `listEntries_error` : the depth suffices;
* `first_level_iff` : when the flat listing is the first level of the recursive one.
-/

namespace ComputeArmada.Agent
open Paths FileTree

variable {t : FileTree} {cwd : Loc}

/-! ## System calls -/

theorem readDir_ok {path : Path} {items : List (Path × Node)} (h : osReadDir t cwd path = .ok items) :
    ∃ loc access size, t.resolve true cwd path = .ok loc ∧ t.get loc = some (.directory access size) ∧
      items = t.entries loc := by
  unfold osReadDir at h
  split at h
  · cases h
  rename_i loc hloc
  split at h
  · rename_i access size hget
    split at h
    · exact ⟨loc, access, size, hloc, hget, (Except.ok.inj h).symm⟩
    · cases h
  · cases h
  · cases h

/-- An entry is looked up in the directory that was read. -/
theorem dirInfo_ok {path c : Path} {loc : Loc} {access : Access} {size : Nat} (h : t.resolve true cwd path = .ok loc)
    (hloc : t.get loc = some (.directory access size)) {node : Node} (hnode : t.get (loc ++ [c]) = some node)
    {info : Node} (hinfo : dirInfo t cwd path c = .ok info) : access.search = true ∧ info = node := by
  by_cases hsearch : access.search = true
  · have hchild := osLstat_of_resolve (resolve_child h hloc hsearch hnode nofun) hnode
    rw [dirInfo, hchild] at hinfo
    exact ⟨hsearch, (Except.ok.inj hinfo).symm⟩
  · have hc : Valid c := get_valid (by rw [hnode]; exact Option.some_ne_none _) (by simp)
    have hrefused : t.resolve false cwd (path ++ slash :: c) = .error .acces :=
      resolve_child_acces h hloc (by simpa using hsearch) hc
    unfold dirInfo osLstat status at hinfo
    rw [hrefused] at hinfo
    cases hinfo

theorem mapM_ok {ε α β : Type} {f : α → Except ε β} {g : α → β} {xs : List α} {ys : List β}
    (hg : ∀ x ∈ xs, ∀ y, f x = .ok y → y = g x) (h : xs.mapM f = .ok ys) :
    ys = xs.map g ∧ ∀ x ∈ xs, f x = .ok (g x) := by
  induction xs generalizing ys with
  | nil =>
    obtain rfl := Except.ok.inj h
    exact ⟨rfl, nofun⟩
  | cons x xs ih =>
    rw [List.mapM_cons] at h
    cases hx : f x with
    | error e => rw [hx] at h; cases h
    | ok y =>
      rw [hx] at h
      cases hxs : xs.mapM f with
      | error e => rw [hxs] at h; cases h
      | ok ys' =>
        rw [hxs] at h
        obtain rfl := Except.ok.inj h
        obtain ⟨rfl, hrest⟩ := ih (fun z hz => hg z (List.mem_cons_of_mem x hz)) hxs
        obtain rfl := hg x List.mem_cons_self y hx
        exact ⟨rfl, List.forall_mem_cons.mpr ⟨hx, hrest⟩⟩

theorem plain_of_get {loc : Loc} {names : List Path} (h : t.get (loc ++ names) ≠ none) : ∀ c ∈ names, Plain c :=
  fun _ hc => (get_valid h (List.mem_append_right loc hc)).plain

/-! ## The flat listing -/

theorem flat_ok {root : Path} {es : List FileEntry} (h : listEntries t cwd root false = .ok es) :
    ∃ loc access size, t.resolve true cwd root = .ok loc ∧ t.get loc = some (.directory access size) ∧
      es = ((t.entries loc).map fun d => fileEntry (join [root, d.1]) d.2) ∧
      ∀ d ∈ t.entries loc, access.search = true := by
  unfold listEntries at h
  rw [if_neg (by decide)] at h
  cases hread : osReadDir t cwd root with
  | error e => rw [hread] at h; cases h
  | ok found =>
    rw [hread] at h
    obtain ⟨loc, access, size, hloc, hget, rfl⟩ := readDir_ok hread
    have hone : ∀ d ∈ t.entries loc, ∀ e, (do return fileEntry (join [root, d.1]) (← dirInfo t cwd root d.1) :
        Except PathError FileEntry) = .ok e → access.search = true ∧ fileEntry (join [root, d.1]) d.2 = e := by
      intro d hd e he
      cases hinfo : dirInfo t cwd root d.1 with
      | error err => rw [hinfo] at he; cases he
      | ok info =>
        rw [hinfo] at he
        obtain ⟨hsearch, rfl⟩ := dirInfo_ok hloc hget (mem_entries.mp hd) hinfo
        exact ⟨hsearch, Except.ok.inj he⟩
    obtain ⟨hes, hall⟩ := mapM_ok (fun d hd e he => (hone d hd e he).2.symm) h
    exact ⟨loc, access, size, hloc, hget, hes, fun d hd => (hone d hd _ (hall d hd)).1⟩

/-! ## The recursive listing -/

/-- One entry for each node below a location, whose paths continue `names`. -/
structure Lists (t : FileTree) (root : Path) (names : List Path) (loc : Loc) (es : List FileEntry) : Prop where
  once : (es.map (·.path)).Nodup
  mem : ∀ e, e ∈ es ↔ ∃ more node, more ≠ [] ∧ t.get (loc ++ more) = some node ∧
    e = fileEntry (under root (names ++ more)) node
  ways : ∀ more, t.get (loc ++ more) ≠ none → ∀ k < more.length, (t.get (loc ++ more.take k)).any Node.searchable = true

/-- What the walk gives for a node and what is below it, where its path is `names` below `root`. -/
structure Shown (t : FileTree) (cwd : Loc) (root : Path) (names : List Path) (node : Node) (es : List FileEntry) :
    Prop where
  plain : node.isDirectory = false → es = [fileEntry (under root names) node]
  directory : node.isDirectory = true → ∃ loc below, t.resolve true cwd (under root names) = .ok loc ∧
    (t.get loc).any Node.isDirectory = true ∧ es = fileEntry (under root names) node :: below ∧
    Lists t root names loc below

section
variable {root : Path} {names : List Path} {loc : Loc}

theorem Shown.mem {node : Node} {es : List FileEntry} (h : Shown t cwd root names node es)
    (hplain : ∀ c ∈ names, Plain c) (hnode : t.get loc = some node)
    (hloc : node.isDirectory = true → t.resolve true cwd (under root names) = .ok loc) :
    (es.map (·.path)).Nodup ∧ ∀ e, e ∈ es ↔ ∃ more found, t.get (loc ++ more) = some found ∧
      e = fileEntry (under root (names ++ more)) found := by
  by_cases hdir : node.isDirectory = true
  · obtain ⟨loc', below, hloc', -, rfl, hbelow⟩ := h.directory hdir
    obtain rfl : loc = loc' := Except.ok.inj ((hloc hdir).symm.trans hloc')
    refine ⟨List.nodup_cons.mpr ⟨fun hmem => ?_, hbelow.once⟩, fun e => ?_⟩
    · obtain ⟨e, he, hpath⟩ := List.mem_map.mp hmem
      obtain ⟨more, found, hmore, hfound, rfl⟩ := (hbelow.mem e).mp he
      have hall : ∀ c ∈ names ++ more, Plain c := List.forall_mem_append.mpr
        ⟨hplain, plain_of_get (by rw [hfound]; exact Option.some_ne_none _)⟩
      exact hmore (List.append_right_eq_self.mp (under_injective hall hplain hpath))
    · rw [List.mem_cons, hbelow.mem]
      constructor
      · rintro (rfl | ⟨more, found, -, hfound, rfl⟩)
        · exact ⟨[], node, by rwa [List.append_nil], by rw [List.append_nil]⟩
        · exact ⟨more, found, hfound, rfl⟩
      · rintro ⟨more, found, hfound, rfl⟩
        by_cases hmore : more = []
        · subst hmore
          rw [List.append_nil] at hfound
          obtain rfl := Option.some.inj (hnode.symm.trans hfound)
          exact .inl (by rw [List.append_nil])
        · exact .inr ⟨more, found, hmore, hfound, rfl⟩
  · rw [h.plain (by simpa using hdir)]
    refine ⟨List.nodup_singleton _, fun e => ?_⟩
    rw [List.mem_singleton]
    constructor
    · rintro rfl
      exact ⟨[], node, by rwa [List.append_nil], by rw [List.append_nil]⟩
    · rintro ⟨more, found, hfound, rfl⟩
      by_cases hmore : more = []
      · subst hmore
        rw [List.append_nil] at hfound
        obtain rfl := Option.some.inj (hnode.symm.trans hfound)
        rw [List.append_nil]
      · obtain ⟨access, size, habove⟩ := get_above (by rw [hfound]; exact Option.some_ne_none _) hmore
        rw [hnode] at habove
        obtain rfl := Option.some.inj habove
        exact absurd rfl hdir

/-- The paths of different entries, and of what is below them, are different. -/
theorem nodup_flatMap (root : Path) {g : Path × Node → List FileEntry} (hplain : ∀ c ∈ names, Plain c)
    (h : ∀ d ∈ t.entries loc, ((g d).map (·.path)).Nodup ∧
      ∀ e ∈ g d, ∃ more, (∀ c ∈ d.1 :: more, Plain c) ∧ e.path = under root (names ++ d.1 :: more)) :
    (((t.entries loc).flatMap g).map (·.path)).Nodup := by
  rw [List.map_flatMap, List.nodup_flatMap]
  refine ⟨fun d hd => (h d hd).1, ?_⟩
  have hnames : (t.entries loc).Pairwise fun d d' => d.1 ≠ d'.1 := List.pairwise_map.mp (nodup_entries t loc)
  refine hnames.imp_of_mem fun {d d'} hd hd' hne path hpath hpath' => ?_
  obtain ⟨e, he, rfl⟩ := List.mem_map.mp hpath
  obtain ⟨e', he', heq⟩ := List.mem_map.mp hpath'
  obtain ⟨more, hmore, hunder⟩ := (h d hd).2 e he
  obtain ⟨more', hmore', hunder'⟩ := (h d' hd').2 e' he'
  have hpaths := under_injective (List.forall_mem_append.mpr ⟨hplain, hmore'⟩)
    (List.forall_mem_append.mpr ⟨hplain, hmore⟩) (hunder'.symm.trans (heq.trans hunder))
  exact hne (List.cons.inj (List.append_cancel_left hpaths)).1.symm

/-- A directory whose entries were all walked, each where it is. -/
theorem Lists.flatMap {g : Path × Node → List FileEntry} (hplain : ∀ c ∈ names, Plain c)
    (h : ∀ d ∈ t.entries loc, Shown t cwd root (names ++ [d.1]) d.2 (g d))
    (hsearch : ∀ d ∈ t.entries loc, (t.get loc).any Node.searchable = true)
    (hloc : ∀ d ∈ t.entries loc, d.2.isDirectory = true →
      t.resolve true cwd (under root (names ++ [d.1])) = .ok (loc ++ [d.1])) :
    Lists t root names loc ((t.entries loc).flatMap g) := by
  have hplain' : ∀ d ∈ t.entries loc, ∀ c ∈ names ++ [d.1], Plain c := fun d hd => List.forall_mem_append.mpr
    ⟨hplain, plain_of_get (by rw [mem_entries.mp hd]; exact Option.some_ne_none _)⟩
  have hmem : ∀ d ∈ t.entries loc, ((g d).map (·.path)).Nodup ∧ ∀ e, e ∈ g d ↔ ∃ more found,
      t.get (loc ++ d.1 :: more) = some found ∧ e = fileEntry (under root (names ++ d.1 :: more)) found := by
    intro d hd
    have hd' := (h d hd).mem (hplain' d hd) (mem_entries.mp hd) (hloc d hd)
    simpa only [List.append_assoc, List.singleton_append] using hd'
  constructor
  · refine nodup_flatMap root hplain fun d hd => ⟨(hmem d hd).1, fun e he => ?_⟩
    obtain ⟨more, found, hfound, rfl⟩ := ((hmem d hd).2 e).mp he
    exact ⟨more, plain_of_get (by rw [hfound]; exact Option.some_ne_none _), rfl⟩
  · intro e
    rw [List.mem_flatMap]
    constructor
    · rintro ⟨d, hd, he⟩
      obtain ⟨more, found, hfound, rfl⟩ := ((hmem d hd).2 e).mp he
      exact ⟨d.1 :: more, found, List.cons_ne_nil _ _, hfound, rfl⟩
    · rintro ⟨more, found, hmore, hfound, rfl⟩
      obtain ⟨c, more, rfl⟩ := List.exists_cons_of_ne_nil hmore
      obtain ⟨child, hchild⟩ : ∃ child, t.get (loc ++ [c]) = some child := by
        by_cases hnil : more = []
        · exact ⟨found, by rw [← hfound, hnil]⟩
        · rw [List.append_cons] at hfound
          obtain ⟨access, size, habove⟩ := get_above (by rw [hfound]; exact Option.some_ne_none _) hnil
          exact ⟨_, habove⟩
      have hd : (c, child) ∈ t.entries loc := mem_entries.mpr hchild
      exact ⟨_, hd, ((hmem _ hd).2 _).mpr ⟨more, found, hfound, rfl⟩⟩
  · intro more hmore k hk
    obtain ⟨c, more, rfl⟩ := List.exists_cons_of_ne_nil (List.ne_nil_of_length_pos (Nat.zero_lt_of_lt hk))
    obtain ⟨found, hfound⟩ := Option.ne_none_iff_exists'.mp hmore
    by_cases hnil : more = []
    · subst hnil
      obtain rfl : k = 0 := by simpa using hk
      rw [List.take_zero, List.append_nil]
      exact hsearch _ (mem_entries.mpr hfound)
    · rw [List.append_cons] at hfound
      obtain ⟨access, size, hchild⟩ := get_above (by rw [hfound]; exact Option.some_ne_none _) hnil
      have hd : (c, Node.directory access size) ∈ t.entries loc := mem_entries.mpr hchild
      cases k with
      | zero =>
        rw [List.take_zero, List.append_nil]
        exact hsearch _ hd
      | succ k =>
        obtain ⟨loc', below, hloc', -, -, hbelow⟩ := (h _ hd).directory rfl
        obtain rfl := Except.ok.inj ((hloc _ hd rfl).symm.trans hloc')
        rw [List.take_succ_cons, List.append_cons]
        exact hbelow.ways more (by rw [hfound]; exact Option.some_ne_none _) k (Nat.lt_of_succ_lt_succ hk)

end

theorem walkDir_info {root path : Path} {depth : Nat} {item : Node} {info : Except PathError Node} {es : List FileEntry}
    (hpath : path ≠ root) (h : walkDir t cwd root depth path item info = .ok es) : ∃ node, info = .ok node := by
  cases depth with
  | zero => cases h
  | succ depth =>
    unfold walkDir at h
    rw [if_neg hpath] at h
    cases info with
    | error e => cases h
    | ok node => exact ⟨node, rfl⟩

/-- What `walkDir` does with the entries of a directory. -/
def walkItems (t : FileTree) (cwd : Loc) (root : Path) (depth : Nat) (path : Path) :
    Except PathError (List FileEntry) := do
  let dirs ← osReadDir t cwd path
  let below ← dirs.mapM fun d => walkDir t cwd root depth (join [path, d.1]) d.2 (dirInfo t cwd path d.1)
  return below.flatten

theorem walkDir_succ {root path : Path} (hpath : path ≠ root) (depth : Nat) (node : Node) :
    walkDir t cwd root (depth + 1) path node (.ok node) =
      if node.isDirectory then (walkItems t cwd root depth path).map fun below => fileEntry path node :: below
      else .ok [fileEntry path node] := by
  unfold walkDir walkItems
  rw [if_neg hpath]
  change (if node.isDirectory = true then _ else _) = _
  split
  · cases osReadDir t cwd path with
    | error e => rfl
    | ok dirs =>
      have hitems : ∀ below : Except PathError (List (List FileEntry)),
          (below >>= fun below => pure ([fileEntry path node] ++ below.flatten)) =
            (below >>= fun below => pure below.flatten).map fun below => fileEntry path node :: below := by
        rintro (e | below) <;> rfl
      exact hitems _
  · rfl

theorem walkDir_root (root : Path) (depth : Nat) (node : Node) :
    walkDir t cwd root (depth + 1) root node (.ok node) =
      if node.isDirectory then walkItems t cwd root depth root else .ok [] := by
  unfold walkDir walkItems
  rw [if_pos rfl]
  rfl

/-- The entries of a directory, each walked on its own. -/
theorem walkItems_ok {root path : Path} {names : List Path} {depth : Nat} {es : List FileEntry}
    (hplain : ∀ c ∈ names, Plain c) (hjoin : ∀ c, Plain c → join [path, c] = under root (names ++ [c]))
    (h : walkItems t cwd root depth path = .ok es) :
    ∃ loc access size, t.resolve true cwd path = .ok loc ∧ t.get loc = some (.directory access size) ∧
      ∃ g, es = (t.entries loc).flatMap g ∧ ∀ d ∈ t.entries loc, access.search = true ∧
        walkDir t cwd root depth (under root (names ++ [d.1])) d.2 (.ok d.2) = .ok (g d) := by
  unfold walkItems at h
  cases hread : osReadDir t cwd path with
  | error e => rw [hread] at h; cases h
  | ok dirs =>
    obtain ⟨loc, access, size, hloc, hget, rfl⟩ := readDir_ok hread
    rw [hread] at h
    obtain ⟨f, hf⟩ : ∃ f, f = fun d : Path × Node =>
      walkDir t cwd root depth (join [path, d.1]) d.2 (dirInfo t cwd path d.1) := ⟨_, rfl⟩
    have hmaps : (t.entries loc).mapM f >>= (fun below => pure below.flatten) = .ok es := by
      rw [hf]
      exact h
    cases hmap : (t.entries loc).mapM f with
    | error e => rw [hmap] at hmaps; cases hmaps
    | ok below =>
      rw [hmap] at hmaps
      obtain rfl := Except.ok.inj hmaps
      obtain ⟨rfl, hall⟩ := mapM_ok (g := fun d => (f d).toOption.getD []) (fun d _ y hy => by rw [hy]; rfl) hmap
      refine ⟨loc, access, size, hloc, hget, _, rfl, fun d hd => ?_⟩
      have hnode := mem_entries.mp hd
      have hd' : ∀ c ∈ names ++ [d.1], Plain c := List.forall_mem_append.mpr
        ⟨hplain, plain_of_get (by rw [hnode]; exact Option.some_ne_none _)⟩
      have hwalk := hall d hd
      have hfd : f d = walkDir t cwd root depth (under root (names ++ [d.1])) d.2 (dirInfo t cwd path d.1) := by
        rw [hf, ← hjoin d.1 (hd' d.1 (by simp))]
      rw [hfd] at hwalk
      obtain ⟨info, hinfo⟩ := walkDir_info (under_ne hd' (by simp)) hwalk
      obtain ⟨hsearch, rfl⟩ := dirInfo_ok hloc hget hnode hinfo
      rw [hinfo] at hwalk
      exact ⟨hsearch, hfd ▸ hinfo ▸ hwalk⟩

theorem walkDir_shown {root : Path} {names : List Path} {depth : Nat} {node : Node} {es : List FileEntry}
    (hplain : ∀ c ∈ names, Plain c) (hne : names ≠ [])
    (h : walkDir t cwd root depth (under root names) node (.ok node) = .ok es) : Shown t cwd root names node es := by
  induction depth generalizing names node es with
  | zero => cases h
  | succ depth ih =>
    rw [walkDir_succ (under_ne hplain hne)] at h
    by_cases hdir : node.isDirectory = true
    · rw [if_pos hdir] at h
      cases hitems : walkItems t cwd root depth (under root names) with
      | error e => rw [hitems] at h; cases h
      | ok below =>
        rw [hitems] at h
        obtain rfl := Except.ok.inj h
        obtain ⟨loc, access, size, hloc, hget, g, rfl, hg⟩ :=
          walkItems_ok hplain (fun c hc => join_under hplain hc) hitems
        refine ⟨fun h => by simp [hdir] at h, fun _ => ⟨loc, _, hloc, by rw [hget]; rfl, rfl, ?_⟩⟩
        have hnames : ∀ d ∈ t.entries loc, ∀ c ∈ names ++ [d.1], Plain c := fun d hd => List.forall_mem_append.mpr
          ⟨hplain, plain_of_get (by rw [mem_entries.mp hd]; exact Option.some_ne_none _)⟩
        have hsearch : ∀ d ∈ t.entries loc, (t.get loc).any Node.searchable = true := by
          intro d hd
          rw [hget]
          exact (hg d hd).1
        refine Lists.flatMap hplain (fun d hd => ih (hnames d hd) (by simp) (hg d hd).2) hsearch fun d hd hdir => ?_
        rw [under_concat hne]
        refine resolve_child hloc hget (hg d hd).1 (mem_entries.mp hd) fun _ => ?_
        cases hnode : d.2 with
        | directory access size => rfl
        | _ => rw [hnode] at hdir; cases hdir
    · rw [if_neg hdir] at h
      exact ⟨fun _ => (Except.ok.inj h).symm, fun h => absurd h hdir⟩

theorem deep_ok {root : Path} {es : List FileEntry} (h : listEntries t cwd root true = .ok es) :
    ∃ node, osLstat t cwd root = .ok node ∧ (node.isDirectory = false → es = []) ∧
      (node.isDirectory = true → ∃ loc access size, t.resolve true cwd root = .ok loc ∧
        t.get loc = some (.directory access size) ∧ ∃ g, es = (t.entries loc).flatMap g ∧
          ∀ d ∈ t.entries loc, access.search = true ∧ Shown t cwd root [d.1] d.2 (g d)) := by
  unfold listEntries at h
  rw [if_pos rfl] at h
  cases hlstat : osLstat t cwd root with
  | error e => rw [hlstat] at h; cases h
  | ok node =>
    rw [hlstat] at h
    change walkDir t cwd root (maxDepth t + 1 + 1) root node (.ok node) = .ok es at h
    rw [walkDir_root] at h
    refine ⟨node, rfl, fun hdir => ?_, fun hdir => ?_⟩
    · rw [if_neg (by simp [hdir])] at h
      exact (Except.ok.inj h).symm
    · rw [if_pos hdir] at h
      have hne : root ≠ [] := by
        rintro rfl
        cases hlstat
      obtain ⟨loc, access, size, hloc, hget, g, rfl, hg⟩ :=
        walkItems_ok (List.forall_mem_nil Plain) (fun c hc => join_name hne hc) h
      refine ⟨loc, access, size, hloc, hget, g, rfl, fun d hd => ?_⟩
      have hc : Plain d.1 := plain_of_get (by rw [mem_entries.mp hd]; exact Option.some_ne_none _) d.1 (by simp)
      exact ⟨(hg d hd).1, walkDir_shown (by simpa using hc) (by simp) (hg d hd).2⟩

/-! ## The depth suffices -/

theorem mapM_error {ε α β : Type} {f : α → Except ε β} {xs : List α} {e : ε} (h : xs.mapM f = .error e) :
    ∃ x ∈ xs, f x = .error e := by
  induction xs with
  | nil => cases h
  | cons x xs ih =>
    rw [List.mapM_cons] at h
    cases hx : f x with
    | error e' =>
      rw [hx] at h
      obtain rfl := Except.error.inj h
      exact ⟨x, List.mem_cons_self, hx⟩
    | ok y =>
      rw [hx] at h
      cases hxs : xs.mapM f with
      | error e' =>
        rw [hxs] at h
        obtain rfl := Except.error.inj h
        obtain ⟨z, hz, hfz⟩ := ih hxs
        exact ⟨z, List.mem_cons_of_mem x hz, hfz⟩
      | ok ys => rw [hxs] at h; cases h

theorem length_le_maxDepth {loc : Loc} (h : t.get loc ≠ none) : loc.length ≤ maxDepth t := by
  obtain ⟨node, hnode⟩ := Option.ne_none_iff_exists'.mp h
  have hmem : loc.length ∈ t.nodes.map (·.1.length) := List.mem_map.mpr ⟨_, mem_of_get hnode, rfl⟩
  unfold maxDepth
  generalize t.nodes.map (·.1.length) = lengths at hmem
  induction lengths with
  | nil => cases hmem
  | cons n lengths ih =>
    rw [List.foldr_cons]
    rcases List.mem_cons.mp hmem with rfl | hmem
    · exact le_max_left _ _
    · exact (ih hmem).trans (le_max_right _ _)

theorem readDir_error {path : Path} {e : PathError} (h : osReadDir t cwd path = .error e) : e.err ≠ .nametoolong := by
  unfold osReadDir at h
  split at h
  · rename_i err herr
    obtain rfl := Except.error.inj h
    exact resolve_error herr
  · split at h
    · split at h
      · cases h
      · obtain rfl := Except.error.inj h
        exact nofun
    all_goals
      obtain rfl := Except.error.inj h
      exact nofun

theorem lstat_error {path : Path} {e : PathError} (h : osLstat t cwd path = .error e) : e.err ≠ .nametoolong := by
  unfold osLstat at h
  cases hloc : t.resolve false cwd path with
  | error err =>
    rw [status_of_error hloc] at h
    obtain rfl := Except.error.inj h
    exact resolve_error hloc
  | ok loc =>
    rw [status_of_resolve hloc] at h
    cases hnode : t.get loc with
    | some node => rw [hnode] at h; cases h
    | none =>
      rw [hnode] at h
      obtain rfl := Except.error.inj h
      intro hlong
      cases hlong

/-- A directory that is read, where every entry of it is walked with depth to spare. -/
theorem walkItems_error {root path : Path} {names : List Path} {depth : Nat} {e : PathError}
    (hplain : ∀ c ∈ names, Plain c) (hjoin : ∀ c, Plain c → join [path, c] = under root (names ++ [c]))
    (hdepth : ∀ loc, t.resolve true cwd path = .ok loc → maxDepth t ≤ depth + loc.length)
    (hwalk : ∀ loc access size c node, t.resolve true cwd path = .ok loc → t.get loc = some (.directory access size) →
      access.search = true → t.get (loc ++ [c]) = some node → 0 < depth →
      ∀ e, walkDir t cwd root depth (under root (names ++ [c])) node (.ok node) = .error e → e.err ≠ .nametoolong)
    (h : walkItems t cwd root depth path = .error e) : e.err ≠ .nametoolong := by
  unfold walkItems at h
  cases hread : osReadDir t cwd path with
  | error e' =>
    rw [hread] at h
    obtain rfl := Except.error.inj h
    exact readDir_error hread
  | ok dirs =>
    obtain ⟨loc, access, size, hloc, hget, rfl⟩ := readDir_ok hread
    rw [hread] at h
    obtain ⟨f, hf⟩ : ∃ f, f = fun d : Path × Node =>
      walkDir t cwd root depth (join [path, d.1]) d.2 (dirInfo t cwd path d.1) := ⟨_, rfl⟩
    have hmaps : (t.entries loc).mapM f >>= (fun below => pure below.flatten) = .error e := by
      rw [hf]
      exact h
    cases hmap : (t.entries loc).mapM f with
    | ok below => rw [hmap] at hmaps; cases hmaps
    | error e' =>
      rw [hmap] at hmaps
      obtain rfl := Except.error.inj hmaps
      obtain ⟨d, hd, hfd⟩ := mapM_error hmap
      have hnode := mem_entries.mp hd
      have hne : t.get (loc ++ [d.1]) ≠ none := by
        rw [hnode]
        exact Option.some_ne_none _
      have hc : Plain d.1 := plain_of_get hne d.1 (by simp)
      have hlength := length_le_maxDepth hne
      have hspare := hdepth loc hloc
      rw [List.length_append, List.length_singleton] at hlength
      rw [hf] at hfd
      dsimp only at hfd
      rw [hjoin d.1 hc] at hfd
      cases hinfo : dirInfo t cwd path d.1 with
      | ok info =>
        obtain ⟨hsearch, rfl⟩ := dirInfo_ok hloc hget hnode hinfo
        rw [hinfo] at hfd
        exact hwalk loc access size d.1 d.2 hloc hget hsearch hnode (by omega) _ hfd
      | error err =>
        rw [hinfo] at hfd
        obtain ⟨depth, rfl⟩ : ∃ d, depth = d + 1 := ⟨depth - 1, by omega⟩
        have hall : ∀ c ∈ names ++ [d.1], Plain c := List.forall_mem_append.mpr ⟨hplain, by simpa using hc⟩
        unfold walkDir at hfd
        rw [if_neg (under_ne hall (by simp))] at hfd
        obtain rfl := Except.error.inj hfd
        exact lstat_error hinfo

theorem walkDir_error {root : Path} {names : List Path} {depth : Nat} {node : Node} {e : PathError}
    (hplain : ∀ c ∈ names, Plain c) (hne : names ≠ []) (hpos : 0 < depth)
    (hdepth : ∀ loc, node.isDirectory = true → t.resolve true cwd (under root names) = .ok loc →
      maxDepth t < depth + loc.length)
    (h : walkDir t cwd root depth (under root names) node (.ok node) = .error e) : e.err ≠ .nametoolong := by
  induction depth generalizing names node e with
  | zero => exact absurd hpos (lt_irrefl 0)
  | succ depth ih =>
    rw [walkDir_succ (under_ne hplain hne)] at h
    by_cases hdir : node.isDirectory = true
    · rw [if_pos hdir] at h
      cases hitems : walkItems t cwd root depth (under root names) with
      | ok below => rw [hitems] at h; cases h
      | error e' =>
        rw [hitems] at h
        obtain rfl := Except.error.inj h
        refine walkItems_error hplain (fun c hc => join_under hplain hc) (fun loc hloc => ?_) ?_ hitems
        · have := hdepth loc hdir hloc
          omega
        intro loc access size c child hloc hget hsearch hchild hspare e he
        have hall : ∀ d ∈ names ++ [c], Plain d := List.forall_mem_append.mpr
          ⟨hplain, plain_of_get (by rw [hchild]; exact Option.some_ne_none _)⟩
        refine ih hall (by simp) hspare (fun loc' hdir' hloc' => ?_) he
        have hlink : child.isSymlink = false := by
          cases child with
          | symlink target => cases hdir'
          | _ => rfl
        rw [under_concat hne, resolve_child hloc hget hsearch hchild fun _ => hlink] at hloc'
        obtain rfl := Except.ok.inj hloc'
        have := hdepth loc hdir hloc
        rw [List.length_append, List.length_singleton]
        omega
    · rw [if_neg hdir] at h
      cases h

/-- The walk reaches every node before its depth is used up. -/
theorem listEntries_error {root : Path} {recursive : Bool} {e : PathError}
    (h : listEntries t cwd root recursive = .error e) : e.err ≠ .nametoolong := by
  unfold listEntries at h
  cases recursive with
  | true =>
    rw [if_pos rfl] at h
    cases hlstat : osLstat t cwd root with
    | error e' =>
      rw [hlstat] at h
      obtain rfl := Except.error.inj h
      exact lstat_error hlstat
    | ok node =>
      rw [hlstat] at h
      change walkDir t cwd root (maxDepth t + 1 + 1) root node (.ok node) = .error e at h
      rw [walkDir_root] at h
      have hne : root ≠ [] := by
        rintro rfl
        cases hlstat
      split at h
      · refine walkItems_error (List.forall_mem_nil Plain) (fun c hc => join_name hne hc) (fun _ _ => by omega) ?_ h
        intro loc access size c child _ _ _ hchild _ e he
        have hc : ∀ d ∈ [c], Plain d := plain_of_get (by rw [hchild]; exact Option.some_ne_none _)
        exact walkDir_error hc (by simp) (by omega) (fun _ _ _ => by omega) he
      · cases h
  | false =>
    rw [if_neg (by decide)] at h
    cases hread : osReadDir t cwd root with
    | error e' =>
      rw [hread] at h
      obtain rfl := Except.error.inj h
      exact readDir_error hread
    | ok found =>
      rw [hread] at h
      obtain ⟨d, -, hd⟩ := mapM_error h
      cases hinfo : dirInfo t cwd root d.1 with
      | ok info => rw [hinfo] at hd; cases hd
      | error err =>
        rw [hinfo] at hd
        obtain rfl := Except.error.inj hd
        exact lstat_error hinfo

/-! ## The first level -/

/-- A node below a path, reached through directories alone from where the path leads. -/
def Below (t : FileTree) (cwd : Loc) (root : Path) (names : List Path) (node : Node) : Prop :=
  ∃ loc, t.resolve true cwd root = .ok loc ∧ names ≠ [] ∧ t.get (loc ++ names) = some node

/-- The two listings of a path agree with each other, and with the nodes below it. -/
structure FirstLevel (t : FileTree) (cwd : Loc) (root : Path) (flat deep : List FileEntry) : Prop where
  first : ∀ e, e ∈ flat ↔ e ∈ deep ∧ ∃ c, Valid c ∧ e.path = join [root, c]
  once : (flat.map (·.path)).Nodup
  each : ∀ names node, Below t cwd root names node →
    deep.filter (fun e => e.path = under root names) = [fileEntry (under root names) node]
  only : ∀ e ∈ deep, ∃ names node, Below t cwd root names node ∧ e = fileEntry (under root names) node

/-- What an entry says of a node. -/
def kind (node : Node) : String × Nat := (typeName node, node.size)

/-- The path itself is a directory and no link to one, unless there is nothing in it; and each directory in it
is the same below where the cleaned path leads. -/
structure Straight (t : FileTree) (cwd : Loc) (root : Path) : Prop where
  itself : (∃ node, osLstat t cwd root = .ok node ∧ node.isDirectory = true) ∨
    ∀ names node, ¬ Below t cwd root names node
  below : ∀ c node, Below t cwd root [c] node → node.isDirectory = true → ∀ names, names ≠ [] → ∀ k,
    (∃ found, Below t cwd root (c :: names) found ∧ kind found = k) ↔
      ∃ found, Below t cwd (join [root, c]) names found ∧ kind found = k

theorem fileEntry_inj {path path' : Path} {node node' : Node} :
    fileEntry path node = fileEntry path' node' ↔ path = path' ∧ kind node = kind node' := by
  unfold fileEntry kind
  rw [FileEntry.mk.injEq, Prod.mk.injEq]

theorem Below.plain {root : Path} {names : List Path} {node : Node} (h : Below t cwd root names node) :
    ∀ c ∈ names, Plain c := by
  obtain ⟨loc, -, -, hget⟩ := h
  exact plain_of_get (by rw [hget]; exact Option.some_ne_none _)

/-- What the recursive listing holds, of a path that is a directory itself. -/
theorem deep_entries {root : Path} {deep : List FileEntry} {node : Node} (hlstat : osLstat t cwd root = .ok node)
    (hdir : node.isDirectory = true) (h : listEntries t cwd root true = .ok deep) :
    (deep.map (·.path)).Nodup ∧ ∀ e, e ∈ deep ↔ ∃ c child, Below t cwd root [c] child ∧
      (e = fileEntry (under root [c]) child ∨ child.isDirectory = true ∧
        ∃ names found, Below t cwd (under root [c]) names found ∧ e = fileEntry (under root (c :: names)) found) := by
  obtain ⟨node', hlstat', -, hdeep⟩ := deep_ok h
  obtain rfl := Except.ok.inj (hlstat.symm.trans hlstat')
  obtain ⟨loc, access, size, hloc, hget, g, rfl, hg⟩ := hdeep hdir
  have hplain : ∀ d ∈ t.entries loc, Plain d.1 := fun d hd =>
    plain_of_get (by rw [mem_entries.mp hd]; exact Option.some_ne_none _) d.1 (by simp)
  have hmem : ∀ d ∈ t.entries loc, ((g d).map (·.path)).Nodup ∧ ∀ e, e ∈ g d ↔ e = fileEntry (under root [d.1]) d.2 ∨
      d.2.isDirectory = true ∧ ∃ names found, Below t cwd (under root [d.1]) names found ∧
        e = fileEntry (under root (d.1 :: names)) found := by
    intro d hd
    by_cases hd2 : d.2.isDirectory = true
    · obtain ⟨loc', below, hloc', -, hgd, hbelow⟩ := (hg d hd).2.directory hd2
      rw [hgd]
      have hin : ∀ e, e ∈ below ↔ ∃ names found, Below t cwd (under root [d.1]) names found ∧
          e = fileEntry (under root (d.1 :: names)) found := by
        intro e
        rw [hbelow.mem]
        constructor
        · rintro ⟨names, found, hne, hfound, rfl⟩
          exact ⟨names, found, ⟨loc', hloc', hne, hfound⟩, rfl⟩
        · rintro ⟨names, found, ⟨loc'', hloc'', hne, hfound⟩, rfl⟩
          obtain rfl := Except.ok.inj (hloc'.symm.trans hloc'')
          exact ⟨names, found, hne, hfound, rfl⟩
      refine ⟨List.nodup_cons.mpr ⟨fun hpath => ?_, hbelow.once⟩, fun e => ?_⟩
      · obtain ⟨e, he, heq⟩ := List.mem_map.mp hpath
        obtain ⟨names, found, hfound, rfl⟩ := (hin e).mp he
        have hnames := under_injective (List.forall_mem_cons.mpr ⟨hplain d hd, hfound.plain⟩)
          (by simpa using hplain d hd) heq
        obtain ⟨-, -, hne, -⟩ := hfound
        exact hne (List.cons.inj hnames).2
      · rw [List.mem_cons, hin]
        exact or_congr_right (iff_and_self.mpr fun _ => hd2)
    · rw [(hg d hd).2.plain (by simpa using hd2)]
      refine ⟨List.nodup_singleton _, fun e => ?_⟩
      rw [List.mem_singleton]
      exact (or_iff_left fun h => hd2 h.1).symm
  refine ⟨nodup_flatMap root (List.forall_mem_nil Plain) fun d hd => ⟨(hmem d hd).1, fun e he => ?_⟩, fun e => ?_⟩
  · rcases ((hmem d hd).2 e).mp he with rfl | ⟨-, names, found, hfound, rfl⟩
    · exact ⟨[], by simpa using hplain d hd, rfl⟩
    · exact ⟨names, List.forall_mem_cons.mpr ⟨hplain d hd, hfound.plain⟩, rfl⟩
  · rw [List.mem_flatMap]
    constructor
    · rintro ⟨d, hd, he⟩
      exact ⟨d.1, d.2, ⟨loc, hloc, by simp, mem_entries.mp hd⟩, ((hmem d hd).2 e).mp he⟩
    · rintro ⟨c, child, ⟨loc', hloc', -, hchild⟩, he⟩
      obtain rfl := Except.ok.inj (hloc.symm.trans hloc')
      have hd : (c, child) ∈ t.entries loc := mem_entries.mpr hchild
      exact ⟨_, hd, ((hmem _ hd).2 e).mpr he⟩

def everyone : Access := { read := true, write := true, search := true }

/-- `/w` with a file and a directory in it, and the link `/l` to it. -/
def linkedTree : FileTree where
  nodes :=
    [([], .directory everyone 4096), ([bytes "w"], .directory everyone 4096),
      ([bytes "w", bytes "a"], .file everyone [120]),
     ([bytes "w", bytes "d"], .directory everyone 4096), ([bytes "w", bytes "d", bytes "b"], .file everyone []),
     ([bytes "l"], .symlink (bytes "/w"))]
  once := by decide +kernel
  root := by decide +kernel
  parent := by decide +kernel
  valid := by decide +kernel

section
variable {root : Path} {node : Node} {flat deep : List FileEntry}

theorem Below.ne_nil {names : List Path} (h : Below t cwd root names node) : root ≠ [] ∧ names ≠ [] := by
  obtain ⟨loc, hloc, hne, -⟩ := h
  exact ⟨(ok_of_resolve hloc).1, hne⟩

theorem Below.join {c : Path} (h : Below t cwd root [c] node) : join [root, c] = under root [c] :=
  join_name h.ne_nil.1 (h.plain c (by simp))

theorem flat_mem (h : listEntries t cwd root false = .ok flat) :
    (flat.map (·.path)).Nodup ∧ ∀ e, e ∈ flat ↔ ∃ c child, Below t cwd root [c] child ∧
      e = fileEntry (under root [c]) child := by
  obtain ⟨loc, access, size, hloc, hget, rfl, -⟩ := flat_ok h
  have hbelow : ∀ d ∈ t.entries loc, Below t cwd root [d.1] d.2 := fun d hd => ⟨loc, hloc, by simp, mem_entries.mp hd⟩
  refine ⟨?_, fun e => ?_⟩
  · have hsingle : (t.entries loc).map (fun d => fileEntry (Paths.join [root, d.1]) d.2) =
        (t.entries loc).flatMap fun d => [fileEntry (Paths.join [root, d.1]) d.2] := List.map_eq_flatMap
    rw [hsingle]
    refine nodup_flatMap root (List.forall_mem_nil Plain) fun d hd => ⟨List.nodup_singleton _, fun e he => ?_⟩
    obtain rfl := List.mem_singleton.mp he
    exact ⟨[], (hbelow d hd).plain, (hbelow d hd).join⟩
  · rw [List.mem_map]
    constructor
    · rintro ⟨d, hd, rfl⟩
      exact ⟨d.1, d.2, hbelow d hd, by rw [(hbelow d hd).join]⟩
    · rintro ⟨c, child, hb, rfl⟩
      obtain ⟨loc', hloc', -, hchild⟩ := id hb
      obtain rfl := Except.ok.inj (hloc.symm.trans hloc')
      exact ⟨(c, child), mem_entries.mpr hchild, by rw [hb.join]⟩

/-- Each node below the path, where the recursive listing reads the directories of the path itself. -/
theorem Straight.deep_mem (hs : Straight t cwd root) (h : listEntries t cwd root true = .ok deep) :
    (deep.map (·.path)).Nodup ∧ ∀ e, e ∈ deep ↔ ∃ names node, Below t cwd root names node ∧
      e = fileEntry (under root names) node := by
  obtain ⟨node, hlstat, hfile, -⟩ := deep_ok h
  by_cases hdir : node.isDirectory = true
  · obtain ⟨hnodup, hmem⟩ := deep_entries hlstat hdir h
    refine ⟨hnodup, fun e => (hmem e).trans ⟨?_, ?_⟩⟩
    · rintro ⟨c, child, hb, rfl | ⟨hchild, names, found, hfound, rfl⟩⟩
      · exact ⟨[c], child, hb, rfl⟩
      · rw [← hb.join] at hfound
        obtain ⟨found', hfound', hkind⟩ := (hs.below c child hb hchild names hfound.ne_nil.2 _).mpr ⟨found, hfound, rfl⟩
        exact ⟨c :: names, found', hfound', fileEntry_inj.mpr ⟨rfl, hkind.symm⟩⟩
    · rintro ⟨names, node, hb, rfl⟩
      obtain ⟨c, more, rfl⟩ := List.exists_cons_of_ne_nil hb.ne_nil.2
      by_cases hmore : more = []
      · subst hmore
        exact ⟨c, node, hb, .inl rfl⟩
      · obtain ⟨loc, hloc, -, hget⟩ := id hb
        rw [List.append_cons] at hget
        obtain ⟨access, size, hchild⟩ := get_above (by rw [hget]; exact Option.some_ne_none _) hmore
        have hbc : Below t cwd root [c] (.directory access size) := ⟨loc, hloc, by simp, hchild⟩
        obtain ⟨found, hfound, hkind⟩ := (hs.below c _ hbc rfl more hmore _).mp ⟨node, hb, rfl⟩
        rw [hbc.join] at hfound
        exact ⟨c, _, hbc, .inr ⟨rfl, more, found, hfound, fileEntry_inj.mpr ⟨rfl, hkind.symm⟩⟩⟩
  · rw [hfile (by simpa using hdir)]
    refine ⟨List.nodup_nil, fun e => iff_of_false List.not_mem_nil ?_⟩
    rintro ⟨names, found, hb, -⟩
    rcases hs.itself with ⟨node', hlstat', hdir'⟩ | hnone
    · obtain rfl := Except.ok.inj (hlstat.symm.trans hlstat')
      exact hdir hdir'
    · exact hnone names found hb

theorem filter_path {es : List FileEntry} (hnodup : (es.map (·.path)).Nodup) {e : FileEntry} (he : e ∈ es) :
    es.filter (fun e' => e'.path = e.path) = [e] := by
  induction es with
  | nil => cases he
  | cons e' es ih =>
    rw [List.map_cons, List.nodup_cons] at hnodup
    rcases List.mem_cons.mp he with rfl | he
    · rw [List.filter_cons_of_pos (by simp), List.filter_eq_nil_iff.mpr]
      intro e' he' hpath
      exact hnodup.1 (List.mem_map.mpr ⟨e', he', of_decide_eq_true hpath⟩)
    · have hne : e'.path ≠ e.path := fun hpath => hnodup.1 (hpath ▸ List.mem_map_of_mem he)
      rw [List.filter_cons_of_neg (by simpa using hne), ih hnodup.2 he]

/-- So it is for a path that leads to the same directory when it is cleaned, and is not itself a link. -/
theorem straight_of_clean {loc : Loc} (hroot : t.resolve true cwd root = .ok loc)
    (hclean : t.resolve true cwd (clean root) = .ok loc) (hlstat : osLstat t cwd root = .ok node)
    (hdir : node.isDirectory = true) (h : listEntries t cwd root true = .ok deep) : Straight t cwd root := by
  refine ⟨.inl ⟨node, hlstat, hdir⟩, fun c child hb hchild names hne k => ?_⟩
  obtain ⟨itself, hitself, -, hdeep⟩ := deep_ok h
  obtain rfl := Except.ok.inj (hlstat.symm.trans hitself)
  obtain ⟨loc', access, size, hloc', hget, g, rfl, hg⟩ := hdeep hdir
  obtain rfl := Except.ok.inj (hroot.symm.trans hloc')
  obtain ⟨loc', hloc', -, hnode⟩ := id hb
  obtain rfl := Except.ok.inj (hroot.symm.trans hloc')
  have hunder : t.resolve true cwd (under root [c]) = .ok (loc ++ [c]) := by
    refine resolve_under hclean (by simp) hnode (fun _ => ?_) fun i hi => ?_
    · cases child with
      | symlink target => cases hchild
      | _ => rfl
    · obtain rfl : i = 0 := by simpa using hi
      rw [List.take_zero, List.append_nil, hget]
      exact (hg _ (mem_entries.mpr hnode)).1
  have hbelow : ∀ found, Below t cwd root (c :: names) found ↔ Below t cwd (under root [c]) names found := by
    intro found
    constructor
    · rintro ⟨loc', hloc', -, hfound⟩
      obtain rfl := Except.ok.inj (hroot.symm.trans hloc')
      exact ⟨_, hunder, hne, by rwa [List.append_cons] at hfound⟩
    · rintro ⟨loc', hloc', -, hfound⟩
      obtain rfl := Except.ok.inj (hunder.symm.trans hloc')
      exact ⟨loc, hroot, List.cons_ne_nil _ _, by rwa [List.append_cons]⟩
  rw [hb.join]
  exact exists_congr fun found => and_congr_left fun _ => hbelow found

/-- **The flat listing is the first level** of the recursive one, and that has every node below the path once,
exactly if the path itself is a directory and cleaning it leads nowhere else. -/
theorem first_level_iff (hflat : listEntries t cwd root false = .ok flat)
    (hdeep : listEntries t cwd root true = .ok deep) : FirstLevel t cwd root flat deep ↔ Straight t cwd root := by
  obtain ⟨itself, hlstat, hfile, -⟩ := deep_ok hdeep
  refine ⟨fun h => ?_, fun h => ?_⟩
  · have hitself : ∀ names found, Below t cwd root names found → itself.isDirectory = true := by
      intro names found hb
      by_contra hnot
      have heach := h.each names found hb
      rw [hfile (by simpa using hnot)] at heach
      cases heach
    refine ⟨?_, fun c child hb hchild names hne k => ?_⟩
    · by_cases hdir' : itself.isDirectory = true
      · exact .inl ⟨itself, hlstat, hdir'⟩
      · exact .inr fun names found hb => hdir' (hitself names found hb)
    obtain ⟨-, hmem⟩ := deep_entries hlstat (hitself _ _ hb) hdeep
    rw [hb.join]
    constructor
    · rintro ⟨found, hfound, rfl⟩
      have hin : fileEntry (under root (c :: names)) found ∈ deep :=
        List.mem_of_mem_filter (h.each _ _ hfound ▸ List.mem_singleton_self _)
      obtain ⟨c', child', hb', heq | ⟨-, names', found', hfound', heq⟩⟩ := (hmem _).mp hin
      · have hnames := under_injective hfound.plain hb'.plain (fileEntry_inj.mp heq).1
        exact absurd (List.cons.inj hnames).2 hne
      · have hall : ∀ d ∈ c' :: names', Plain d := List.forall_mem_cons.mpr ⟨hb'.plain c' (by simp), hfound'.plain⟩
        obtain ⟨hpath, hkind⟩ := fileEntry_inj.mp heq
        obtain ⟨rfl, rfl⟩ := List.cons.inj (under_injective hfound.plain hall hpath)
        exact ⟨found', hfound', hkind.symm⟩
    · rintro ⟨found, hfound, rfl⟩
      have hin := (hmem _).mpr ⟨c, child, hb, .inr ⟨hchild, names, found, hfound, rfl⟩⟩
      obtain ⟨names', found', hfound', heq⟩ := h.only _ hin
      have hall : ∀ d ∈ c :: names, Plain d := List.forall_mem_cons.mpr ⟨hb.plain c (by simp), hfound.plain⟩
      obtain ⟨hpath, hkind⟩ := fileEntry_inj.mp heq
      obtain rfl := under_injective hall hfound'.plain hpath
      exact ⟨found', hfound', hkind.symm⟩
  · obtain ⟨hnodup, hmem⟩ := h.deep_mem hdeep
    obtain ⟨honce, hfirst⟩ := flat_mem hflat
    refine ⟨fun e => ?_, honce, fun names node hb => ?_, fun e he => (hmem e).mp he⟩
    · rw [hfirst, hmem]
      constructor
      · rintro ⟨c, child, hb, rfl⟩
        obtain ⟨loc, -, -, hget⟩ := id hb
        have hc : Valid c := get_valid (by rw [hget]; exact Option.some_ne_none _) (by simp)
        exact ⟨⟨[c], child, hb, rfl⟩, c, hc, hb.join.symm⟩
      · rintro ⟨⟨names, node, hb, rfl⟩, c, hc, hpath⟩
        have hjoin : Paths.join [root, c] = under root [c] := join_name hb.ne_nil.1 hc.plain
        obtain rfl := under_injective hb.plain (by simpa using hc.plain) (hpath.trans hjoin)
        exact ⟨c, node, hb, rfl⟩
    · exact filter_path hnodup ((hmem _).mpr ⟨names, node, hb, rfl⟩)

/-- The two listings of `/w`. -/
theorem first_level_w : FirstLevel linkedTree [] (bytes "/w")
    [{ path := bytes "/w/a", type := "file", size := 1 }, { path := bytes "/w/d", type := "directory", size := 4096 }]
    [{ path := bytes "/w/a", type := "file", size := 1 }, { path := bytes "/w/d", type := "directory", size := 4096 },
     { path := bytes "/w/d/b", type := "file", size := 0 }] := by
  have hroot : linkedTree.resolve true [] (bytes "/w") = .ok [bytes "w"] := by decide +kernel
  have hlstat : osLstat linkedTree [] (bytes "/w") = .ok (.directory everyone 4096) := by decide +kernel
  refine (first_level_iff (by decide +kernel) ?hdeep).mpr (straight_of_clean hroot hroot hlstat rfl ?hdeep)
  decide +kernel

/-- Through a link as the root, the recursive listing has nothing at all. -/
theorem linked_root_empty : ¬ ∀ (t : FileTree) (cwd : Loc) (root : Path) (flat deep : List FileEntry) (node : Node),
    osStat t cwd root = .ok node → node.isDirectory = true → listEntries t cwd root false = .ok flat →
    listEntries t cwd root true = .ok deep → FirstLevel t cwd root flat deep := by
  intro h
  have hfirst := h linkedTree [] (bytes "/l")
    [{ path := bytes "/l/a", type := "file", size := 1 }, { path := bytes "/l/d", type := "directory", size := 4096 }]
    [] (.directory everyone 4096) (by decide +kernel) rfl (by decide +kernel) (by decide +kernel)
  exact List.not_mem_nil ((hfirst.first _).mp List.mem_cons_self).1

end

end ComputeArmada.Agent
