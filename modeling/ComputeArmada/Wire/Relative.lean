import ComputeArmada.Wire.Listed

/-!
# Relative paths

What is left of a listed path without the root, for each way to spell the root.

* `relative` : what `toFileInfos` leaves, on the bytes of the paths;
* `Relative` : what the caller may rely on; `Apt` : the roots for which it holds (`relative_iff`);
* `dot_file_lost` : a dot file below the working directory is listed without its dot.
-/

namespace ComputeArmada.Wire
open Adapter Agent Async FileTree Paths

/-! ## Strings and bytes -/

def relative (root path : Path) : Path :=
  if root <+: path then
    let rest := path.drop root.length
    if rest.head? = some slash then rest.tail else rest
  else path

theorem slash_byte : String.utf8EncodeChar '/' = [slash] := by decide

theorem slash_ascii : slash.toNat < 0x80 := by decide

theorem head_encode (cs : List Char) : (Utf8.encode cs).head? = some slash ↔ cs.head? = some '/' := by
  cases cs with
  | nil => simp [Utf8.encode]
  | cons c cs =>
    rw [Utf8.encode_cons, List.head?_cons, Option.some_inj]
    constructor
    · intro h
      obtain ⟨b, bs, hbytes⟩ := List.exists_cons_of_ne_nil (String.utf8EncodeChar_ne_nil (c := c))
      rw [hbytes, List.cons_append, List.head?_cons, Option.some_inj] at h
      have hone := (Utf8.one_of_mem slash_ascii (c := c) (by rw [hbytes, h]; exact List.mem_cons_self)).1
      have hrun := Utf8.run_encodeChar c
      rw [hone, ← slash_byte, Utf8.run_encodeChar] at hrun
      simpa using hrun.symm
    · rintro rfl
      rw [slash_byte]
      rfl

theorem bytes_relativePath (rootPath : String) (entry : AgentFileEntry) :
    bytes (infoFor rootPath entry).relativePath = relative (bytes rootPath) (bytes entry.path) := by
  unfold infoFor relative bytes
  dsimp only
  by_cases hpre : rootPath.toList <+: entry.path.toList
  · rw [if_pos (List.isPrefixOf_iff_prefix.mpr hpre), if_pos (Utf8.encode_isPrefix.mpr hpre), String.toList_ofList]
    obtain ⟨rest, hrest⟩ := hpre
    rw [← hrest, List.drop_left, Utf8.encode_append, List.drop_left]
    by_cases hslash : rest.head? = some '/'
    · rw [if_pos hslash, if_pos ((head_encode rest).mpr hslash)]
      obtain ⟨rest, rfl⟩ : ∃ more, rest = '/' :: more := by
        cases rest with
        | nil => cases hslash
        | cons c more => exact ⟨more, by rw [Option.some.inj hslash]⟩
      rw [Utf8.encode_cons, slash_byte]
      rfl
    · rw [if_neg hslash, if_neg (mt (head_encode rest).mp hslash)]
  · rw [if_neg (mt List.isPrefixOf_iff_prefix.mp hpre), if_neg (mt Utf8.encode_isPrefix.mp hpre)]

theorem getLast_splitOn (cs : List Char) :
    (cs.splitOn '/').getLast? = some (cs.reverse.takeWhile (· ≠ '/')).reverse := by
  have hall : ∀ u : List Char, '/' ∉ u → ∀ c ∈ u, decide (c ≠ '/') = true := fun u hu c hc =>
    decide_eq_true fun h => hu (h ▸ hc)
  by_cases hslash : '/' ∈ cs.reverse
  · obtain ⟨u, v, hcs, hu⟩ := List.eq_append_cons_of_mem hslash
    obtain rfl : cs = v.reverse ++ '/' :: u.reverse := by simpa using congrArg List.reverse hcs
    have hlast : u.reverse.splitOn '/' = [u.reverse] := List.splitOn_eq_singleton (by simpa using hu)
    rw [hcs, List.takeWhile_append_of_pos (hall u hu), List.takeWhile_cons_of_neg (by simp), List.append_nil,
      List.splitOn_append_cons_self, hlast, List.getLast?_concat]
  · rw [List.splitOn_eq_singleton (by simpa using hslash), List.getLast?_singleton]
    have htake : cs.reverse.takeWhile (· ≠ '/') = cs.reverse := List.takeWhile_eq_self_iff.mpr (hall _ hslash)
    rw [htake, List.reverse_reverse]

theorem bytes_baseName (s : String) : (split (bytes s)).getLast? = some (bytes (baseName s)) := by
  unfold split bytes baseName
  rw [Utf8.splitOn_encode slash_ascii slash_byte, List.getLast?_map, getLast_splitOn, Option.map_some,
    String.toList_ofList]

/-! ## Texts -/

theorem wellFormed_one {b : UInt8} (h : b.toNat < 0x80) : Utf8.WellFormed [b] := by
  refine ⟨[Char.ofNat b.toNat], ?_⟩
  have hspells : Utf8.Spells (Char.ofNat b.toNat) .none [b] := by
    refine .last ?_
    unfold Utf8.next
    dsimp only
    rw [if_pos h]
  rw [Utf8.encode_cons, hspells.encodeChar]
  rfl

theorem wellFormed_intercalate {ps : List Path} (h : ∀ p ∈ ps, Utf8.WellFormed p) :
    Utf8.WellFormed ([slash].intercalate ps) := by
  induction ps with
  | nil => exact ⟨[], rfl⟩
  | cons p ps ih =>
    obtain ⟨hp, hps⟩ := List.forall_mem_cons.mp h
    by_cases hnil : ps = []
    · subst hnil
      rwa [List.intercalate_singleton]
    · rw [List.intercalate_cons_of_ne_nil hnil]
      exact (hp.append (wellFormed_one slash_ascii)).append (ih hps)

theorem wellFormed_under {root : Path} {names : List Path} (hroot : Utf8.WellFormed root)
    (hnames : ∀ c ∈ names, Utf8.WellFormed c) : Utf8.WellFormed (under root names) := by
  have hall : ∀ c ∈ parts root ++ names, Utf8.WellFormed c := by
    refine List.forall_mem_append.mpr ⟨fun c hc => ?_, hnames⟩
    exact hroot.splitOn slash_ascii slash_byte (mem_parts hc)
  unfold under render
  split
  · exact (wellFormed_one slash_ascii).append (wellFormed_intercalate hall)
  split
  · exact ⟨['.'], by decide⟩
  · exact wellFormed_intercalate hall

/-! ## Roots -/

/-- The two paths lead to one node, a link at the end being that node. -/
def SameFile (t : FileTree) (cwd : Loc) (path path' : Path) : Prop :=
  ∃ loc, t.get loc ≠ none ∧ t.resolve false cwd path = .ok loc ∧ t.resolve false cwd path' = .ok loc

section
variable {t : FileTree} {cwd : Loc} {root : Path} {recursive : Bool} {names : List Path}

theorem relative_drop {rest : Path} (h : rest.head? ≠ some slash) : relative root (root ++ rest) = rest := by
  unfold relative
  rw [if_pos (List.prefix_append root rest), List.drop_left]
  exact if_neg h

theorem relative_slash (rest : Path) : relative root (root ++ slash :: rest) = rest := by
  unfold relative
  rw [if_pos (List.prefix_append root _), List.drop_left]
  exact if_pos rfl

theorem relative_spelled (hspelled : Spelled root) (hplain : ∀ c ∈ names, Plain c) (hne : names ≠ []) :
    relative root (under root names) = [slash].intercalate names := by
  rw [under_eq hne]
  rcases hspelled with h | h
  · rw [← h]
    exact relative_drop (head_intercalate hplain hne)
  · rw [← h, List.append_assoc]
    exact relative_slash _

theorem same_spelled {es : List FileEntry} {loc : Loc} {node : Node} (hroot : root ≠ [])
    (hes : listEntries t cwd root recursive = .ok es) (hspelled : Spelled root)
    (hseen : Seen t cwd root recursive names loc node) :
    SameFile t cwd (root ++ slash :: [slash].intercalate names) (under root names) := by
  obtain ⟨dir, hdir⟩ := hseen.dir
  have hclean : t.resolve true cwd (clean root) = .ok dir := by
    rcases hspelled.eq_clean hroot with h | h
    · rwa [← h]
    · rw [h] at hdir
      exact resolve_slash (render_ne_nil (normal_parts root)) hdir
  obtain ⟨rfl, hways⟩ := hseen.ways hes hdir hclean
  have hget := hseen.get
  exact ⟨_, by rw [hget]; exact Option.some_ne_none _, resolve_names hdir hseen.ne_nil hget nofun hways,
    resolve_under hclean hseen.ne_nil hget nofun hways⟩

end

/-! ## Listings -/

/-- The relative paths are relative to the root, as the caller passed it. -/
structure Relative (t : FileTree) (cwd : Loc) (path : String) (files : List FileInfo) : Prop where
  nonempty : ∀ info ∈ files, info.relativePath ≠ ""
  noSlash : ∀ info ∈ files, info.relativePath.toList.head? ≠ some '/'
  same : ∀ info ∈ files, SameFile t cwd (bytes (path ++ "/" ++ info.relativePath)) (bytes info.absolutePath)
  nameAbsolute : ∀ info ∈ files, (split (bytes info.absolutePath)).getLast? = some (bytes info.name)
  nameRelative : ∀ info ∈ files, (split (bytes info.relativePath)).getLast? = some (bytes info.name)
  once : (files.map (·.relativePath)).Nodup

/-- A root that is spelled out; or one to which each path that is listed is relative as it is. -/
def Apt (t : FileTree) (cwd : Loc) (root : Path) (recursive : Bool) : Prop :=
  Spelled root ∨ ∀ names loc node, Seen t cwd root recursive names loc node → rooted root = false ∧
    ¬ root <+: under root names ∧ SameFile t cwd (root ++ slash :: under root names) (under root names)

section
variable {engine : Engine} {t : FileTree} {cwd : Loc} {path : String} {recursive : Bool} {files : List FileInfo}

variable (engine) in
theorem infoOf_bytes {names : List Path} (node : Node) (hutf8 : Utf8.WellFormed (under (bytes path) names)) :
    bytes (infoOf engine path names node).absolutePath = under (bytes path) names ∧
      bytes (infoOf engine path names node).relativePath = relative (bytes path) (under (bytes path) names) := by
  have habsolute : bytes (infoOf engine path names node).absolutePath = under (bytes path) names :=
    bytes_listedPath hutf8
  exact ⟨habsolute, (bytes_relativePath _ _).trans (congrArg _ habsolute)⟩

/-- What is left of each path is told apart, where it is found from the root. -/
theorem relative_of (rel : List Path → Path) (h : Listed engine t cwd path recursive files)
    (hutf8 : ∀ names loc node, Seen t cwd (bytes path) recursive names loc node →
      Utf8.WellFormed (under (bytes path) names))
    (hrel : ∀ names loc node, Seen t cwd (bytes path) recursive names loc node →
      relative (bytes path) (under (bytes path) names) = rel names ∧ rel names ≠ [] ∧ (rel names).head? ≠ some slash ∧
        (split (rel names)).getLast? = names.getLast? ∧
        SameFile t cwd (bytes path ++ slash :: rel names) (under (bytes path) names))
    (hinj : ∀ names names', (∀ c ∈ names, Plain c) → (∀ c ∈ names', Plain c) → names ≠ [] → names' ≠ [] →
      rel names = rel names' → names = names') : Relative t cwd path files := by
  have hinfo : ∀ info ∈ files, ∃ names loc node, Seen t cwd (bytes path) recursive names loc node ∧
      bytes info.absolutePath = under (bytes path) names ∧ bytes info.relativePath = rel names ∧
      info.name = baseName info.absolutePath := by
    intro info hmem
    obtain ⟨names, loc, node, hseen, rfl⟩ := (h.mem info).mp hmem
    obtain ⟨habsolute, hrelative⟩ := infoOf_bytes engine node (hutf8 _ _ _ hseen)
    exact ⟨names, loc, node, hseen, habsolute, hrelative.trans (hrel _ _ _ hseen).1, rfl⟩
  refine ⟨?_, ?_, ?_, ?_, ?_, ?_⟩
  · intro info hmem hempty
    obtain ⟨names, loc, node, hseen, -, hrelative, -⟩ := hinfo info hmem
    rw [hempty] at hrelative
    exact (hrel _ _ _ hseen).2.1 hrelative.symm
  · intro info hmem hslash
    obtain ⟨names, loc, node, hseen, -, hrelative, -⟩ := hinfo info hmem
    refine (hrel _ _ _ hseen).2.2.1 ?_
    rw [← hrelative]
    exact (head_encode _).mpr hslash
  · intro info hmem
    obtain ⟨names, loc, node, hseen, habsolute, hrelative, -⟩ := hinfo info hmem
    rw [bytes_append, bytes_append, hrelative, habsolute, List.append_assoc]
    exact (hrel _ _ _ hseen).2.2.2.2
  · intro info hmem
    obtain ⟨names, loc, node, -, -, -, hname⟩ := hinfo info hmem
    rw [hname]
    exact bytes_baseName _
  · intro info hmem
    obtain ⟨names, loc, node, hseen, habsolute, hrelative, hname⟩ := hinfo info hmem
    have hlast := bytes_baseName info.absolutePath
    rw [habsolute, last_under hseen.plain hseen.ne_nil] at hlast
    rw [hrelative, (hrel _ _ _ hseen).2.2.2.1, hname, hlast]
  · obtain ⟨es, hes, rfl⟩ := h.entries
    obtain ⟨hnodup, hmem⟩ := mem_listing hes
    rw [List.map_map]
    refine List.Nodup.map_on (fun e he e' he' heq => ?_) hnodup.of_map
    obtain ⟨names, loc, node, hseen, rfl⟩ := (hmem e).mp he
    obtain ⟨names', loc', node', hseen', rfl⟩ := (hmem e').mp he'
    have hbytes := (infoOf_bytes engine node (hutf8 _ _ _ hseen)).2.trans (hrel _ _ _ hseen).1
    have hbytes' := (infoOf_bytes engine node' (hutf8 _ _ _ hseen')).2.trans (hrel _ _ _ hseen').1
    have hsame : rel names = rel names' := hbytes.symm.trans ((congrArg bytes heq).trans hbytes')
    obtain rfl := hinj _ _ hseen.plain hseen'.plain hseen.ne_nil hseen'.ne_nil hsame
    obtain rfl := hseen.unique hseen'
    rw [Option.some.inj (hseen.get.symm.trans hseen'.get)]

/-- **The relative paths are relative to the root** exactly if it is spelled out, or, where it is itself relative, every
path that is listed is the same from there. -/
theorem relative_iff (h : Listed engine t cwd path recursive files)
    (hnames : ∀ loc, t.get loc ≠ none → ∀ c ∈ loc, Utf8.WellFormed c) :
    Relative t cwd path files ↔ Apt t cwd (bytes path) recursive := by
  obtain ⟨es, hes, -⟩ := h.entries
  have hutf8 : ∀ names loc node, Seen t cwd (bytes path) recursive names loc node →
      Utf8.WellFormed (under (bytes path) names) := fun names loc node hseen =>
    wellFormed_under ⟨path.toList, rfl⟩ (hseen.forall_names hnames)
  have hnonempty : ∀ names loc node, Seen t cwd (bytes path) recursive names loc node → bytes path ≠ [] := by
    intro names loc node hseen
    obtain ⟨dir, hdir⟩ := hseen.dir
    exact (ok_of_resolve hdir).1
  constructor
  · intro hrelative
    by_cases hspelled : Spelled (bytes path)
    · exact .inl hspelled
    refine .inr fun names loc node hseen => ?_
    have hplain := hseen.plain
    -- where the root ends within a name, the rest of the name is all that is told
    have hpre : ¬ bytes path <+: under (bytes path) names := by
      intro hpre
      obtain ⟨before, s, r, after, rfl, hs, hr, hend⟩ :=
        (spelled_or_within (hnonempty _ _ _ hseen) hplain hseen.ne_nil hpre).resolve_left hspelled
      obtain ⟨loc', node', hseen'⟩ := hseen.above
      have hslash : slash ∉ s ++ r := (hplain (s ++ r) (by simp)).noSlash
      have hrslash : slash ∉ r := fun h => hslash (List.mem_append_right s h)
      have hhead : r.head? ≠ some slash := fun h => hrslash (List.mem_of_mem_head? h)
      have hinfo := (h.mem _).mpr ⟨_, loc', node', hseen', rfl⟩
      obtain ⟨habsolute, hrel⟩ := infoOf_bytes engine node' (hutf8 _ _ _ hseen')
      have hname := hrelative.nameAbsolute _ hinfo
      have hname' := hrelative.nameRelative _ hinfo
      rw [habsolute, last_under hseen'.plain hseen'.ne_nil, List.getLast?_concat] at hname
      rw [hrel, hend, relative_drop hhead, split_name hrslash, List.getLast?_singleton, ← hname,
        Option.some_inj] at hname'
      exact hs (List.append_left_eq_self.mp hname'.symm)
    have hinfo := (h.mem _).mpr ⟨_, loc, node, hseen, rfl⟩
    obtain ⟨habsolute, hrel⟩ := infoOf_bytes engine node (hutf8 _ _ _ hseen)
    have hwhole : relative (bytes path) (under (bytes path) names) = under (bytes path) names := if_neg hpre
    rw [hwhole] at hrel
    refine ⟨?_, hpre, ?_⟩
    · have hhead := hrelative.noSlash _ hinfo
      rw [ne_eq, ← head_encode] at hhead
      have hrooted : rooted (under (bytes path) names) = rooted (bytes path) := rooted_render (normal_under _ hplain)
      rw [← hrooted, ← hrel]
      exact decide_eq_false hhead
    · have hsame := hrelative.same _ hinfo
      rwa [bytes_append, bytes_append, hrel, habsolute, List.append_assoc] at hsame
  · rintro (hspelled | hwhole)
    · refine relative_of (fun names => [slash].intercalate names) h hutf8 (fun names loc node hseen => ?_) ?_
      · have hplain := hseen.plain
        have hne := hseen.ne_nil
        exact ⟨relative_spelled hspelled hplain hne, intercalate_ne_nil hplain hne, head_intercalate hplain hne,
          last_intercalate hplain hne, same_spelled (hnonempty _ _ _ hseen) hes hspelled hseen⟩
      · intro names names' hplain hplain' hne hne' heq
        have hsplit := congrArg split heq
        rwa [split_intercalate (fun c hc => (hplain c hc).noSlash) hne,
          split_intercalate (fun c hc => (hplain' c hc).noSlash) hne'] at hsplit
    · refine relative_of (under (bytes path)) h hutf8 (fun names loc node hseen => ?_) ?_
      · have hplain := hseen.plain
        obtain ⟨hrooted, hpre, hsame⟩ := hwhole _ _ _ hseen
        have hnormal := normal_under (bytes path) hplain
        refine ⟨if_neg hpre, render_ne_nil hnormal, fun hhead => ?_, last_under hplain hseen.ne_nil, hsame⟩
        have hunder : rooted (under (bytes path) names) = true := decide_eq_true hhead
        rw [under, rooted_render hnormal, hrooted] at hunder
        cases hunder
      · exact fun names names' hplain hplain' _ _ heq => under_injective hplain hplain' heq

/-- Below `/w` they are. -/
theorem relative_w : Relative linkedTree [] "/w" (entriesOfW.map fun e => infoFor "/w" (entryRead laconic e)) := by
  have hes : listEntries linkedTree [] (bytes "/w") true = .ok entriesOfW := by decide +kernel
  have hlisted : Listed laconic linkedTree [] "/w" true (entriesOfW.map fun e => infoFor "/w" (entryRead laconic e)) :=
    listed_of_entries digests mappedConfig { id := "s", options := none, attachOnly := false } agentAt (by decide)
      (by decide +kernel : osStat linkedTree [] (bytes "/w") = .ok (.directory everyone 4096)) rfl hes
  have htexts : ∀ p ∈ linkedTree.nodes, ∀ c ∈ p.1, Utf8.decodeFatal c ≠ none := by decide +kernel
  refine (relative_iff hlisted fun loc hget c hc => ?_).mpr (.inl (by decide +kernel))
  obtain ⟨node, hnode⟩ := Option.ne_none_iff_exists'.mp hget
  exact Utf8.wellFormed_iff.mpr (htexts _ (mem_of_get hnode) c hc)

end

/-- A dot file in the root directory. -/
def dotTree : FileTree where
  nodes := [([], .directory everyone 4096), ([bytes ".env"], .file everyone [120])]
  once := by decide +kernel
  root := by decide +kernel
  parent := by decide +kernel
  valid := by decide +kernel

/-- From the directory itself, as `.`, it is told without its dot. -/
theorem dot_file_lost : ¬ ∀ (engine : Engine) (t : FileTree) (cwd : Loc) (path : String) (recursive : Bool)
    (files : List FileInfo), (∀ loc, t.get loc ≠ none → ∀ c ∈ loc, Utf8.WellFormed c) →
    Listed engine t cwd path recursive files → Relative t cwd path files := by
  intro h
  have hes : listEntries dotTree [] (bytes ".") false = .ok [{ path := bytes ".env", type := "file", size := 1 }] := by
    decide +kernel
  have htexts : ∀ p ∈ dotTree.nodes, ∀ c ∈ p.1, Utf8.decodeFatal c ≠ none := by decide +kernel
  have hnames : ∀ loc, dotTree.get loc ≠ none → ∀ c ∈ loc, Utf8.WellFormed c := fun loc hget c hc => by
    obtain ⟨node, hnode⟩ := Option.ne_none_iff_exists'.mp hget
    exact Utf8.wellFormed_iff.mpr (htexts _ (mem_of_get hnode) c hc)
  have hlisted : Listed laconic dotTree [] "." false _ :=
    listed_of_entries digests mappedConfig { id := "s", options := none, attachOnly := false } agentAt
      (by decide) (by decide +kernel : osStat dotTree [] (bytes ".") = .ok (.directory everyone 4096)) rfl hes
  have hname := (h laconic dotTree [] "." false _ hnames hlisted).nameRelative _ (List.mem_singleton_self _)
  revert hname
  decide +kernel

end ComputeArmada.Wire
