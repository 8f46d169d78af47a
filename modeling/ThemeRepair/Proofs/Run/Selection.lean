import ThemeRepair.Proofs.Run.Edits

/-!
# Which files are found

A file below the root is a candidate if it is in reach, no exclude glob matches it and it is no
backup.  The components that are found are the candidates that a component glob matches, the
templates are the other candidates that a template glob matches (`discovery_selects_candidates`).
No path is found twice, and the paths are in the order of their names, the first difference
deciding.

Out of reach are the files below a directory whose path is longer than the system takes.  Such a
directory is reported (`exists_failure_of_not_isInReach`), and what is in it is not found, whatever
the globs say (`discovery_leaves_out_unreachable_files`).
-/

namespace ThemeRepair

variable {t : Tree} {root suffix p : String} {top : Location} {selector : Selector}
  {visited : List (List String)} {rel : List String} {kind : DocumentKind} {scan : Settings.Scan}
  {components templates excludes : List Glob}

namespace Path

/-- A path that stands before another one in the order of names is smaller, name by name. -/
theorem lt_of_namesLe {as bs : List String} (h : namesLe as bs = true) (hne : as ≠ bs) :
    as < bs := by
  induction as generalizing bs with
  | nil =>
    cases bs with
    | nil => exact absurd rfl hne
    | cons b bs => exact .nil
  | cons a as ih =>
    cases bs with
    | nil => cases h
    | cons b bs =>
      rcases namesLe_cons_iff.mp h with hlt | ⟨rfl, hle⟩
      · exact .rel hlt
      · exact .cons (ih hle fun heq => hne (by rw [heq]))

theorem append_lt_append_left {as bs : List String} (front : List String) (h : as < bs) :
    front ++ as < front ++ bs := by
  induction front with
  | nil => exact h
  | cons a front ih => exact .cons ih

end Path

/-! ## Selected paths -/

namespace Discovery

/-- The paths of the chosen files. -/
def paths (root : String) (selector : Selector) (kind : DocumentKind)
    (visited : List (List String)) : List String :=
  (Pass.chosen selector kind visited).map (Path.joinAll root)

theorem mem_paths :
    p ∈ paths root selector kind visited ↔
      ∃ rel ∈ visited, selector.selects kind (Path.ofNames rel) = true ∧
        p = Path.joinAll root rel := by
  simp only [paths, List.mem_map, Pass.mem_chosen]
  constructor
  · rintro ⟨rel, ⟨hvisited, hselects⟩, rfl⟩
    exact ⟨rel, hvisited, hselects, rfl⟩
  · rintro ⟨rel, hvisited, hselects, rfl⟩
    exact ⟨rel, ⟨hvisited, hselects⟩, rfl⟩

/-- The files that are visited have names such as directories have. -/
def NamesFiles (visited : List (List String)) : Prop :=
  ∀ rel ∈ visited, rel ≠ [] ∧ ∀ x ∈ rel, Path.IsName x

/-- The paths are in the order of their names. -/
theorem sorted_paths (kind : DocumentKind) (hvisited : NamesFiles visited)
    (hnodup : visited.Nodup) :
    (paths root selector kind visited).Pairwise fun p q => Path.names p < Path.names q := by
  have hnames {rel : List String} (h : rel ∈ Pass.chosen selector kind visited) :
      Path.names (Path.joinAll root rel) = Path.pieces root ++ rel := by
    obtain ⟨hne, hrel⟩ := hvisited rel (Pass.mem_chosen.mp h).1
    exact Path.names_joinAll hrel hne
  rw [paths, List.pairwise_map]
  refine ((Pass.sorted_chosen ..).and (Pass.nodup_chosen hnodup)).imp_of_mem ?_
  rintro as bs has hbs ⟨hle, hne⟩
  rw [hnames has, hnames hbs]
  exact Path.append_lt_append_left _ (Path.lt_of_namesLe hle hne)

/-- No path is found twice, and none for both kinds of document. -/
theorem nodup_paths_append (hvisited : NamesFiles visited) (hnodup : visited.Nodup) :
    (paths root selector .component visited ++ paths root selector .template visited).Nodup := by
  have hinj {as bs : List String} (has : as ∈ visited) (hbs : bs ∈ visited)
      (heq : Path.joinAll root as = Path.joinAll root bs) : as = bs :=
    Path.joinAll_injective (hvisited as has).2 (hvisited bs hbs).2 heq
  have hone (kind : DocumentKind) : (paths root selector kind visited).Nodup :=
    (Pass.nodup_chosen hnodup).map_on fun as has bs hbs =>
      hinj (Pass.mem_chosen.mp has).1 (Pass.mem_chosen.mp hbs).1
  rw [List.nodup_append']
  refine ⟨hone _, hone _, List.disjoint_left.mpr fun p hp hq => ?_⟩
  obtain ⟨as, has, hcomponent, rfl⟩ := mem_paths.mp hp
  obtain ⟨bs, hbs, htemplate, heq⟩ := mem_paths.mp hq
  obtain rfl := hinj has hbs heq
  cases Selector.selects_unique hcomponent htemplate

/-- In which order the files are visited does not matter. -/
theorem paths_of_perm {visited' : List (List String)} (root : String) (selector : Selector)
    (kind : DocumentKind) (h : visited.Perm visited') :
    paths root selector kind visited = paths root selector kind visited' := by
  rw [paths, Pass.chosen_of_perm h]
  rfl

end Discovery

/-! ## Candidates -/

/-- A file below the root that both lists of files may hold: it is in reach, no exclude glob
matches its relative path, and the path does not end in the suffix of backups. -/
structure IsCandidate (t : Tree) (root : String) (top : Location) (excludes : List Glob)
    (suffix : String) (rel : List String) : Prop where
  file : t.HasFile (top ++ rel)
  reach : Tree.IsInReach root rel
  kept : Glob.anyMatch excludes (Path.ofNames rel) = false
  original : ¬ suffix.toList <:+ (Path.ofNames rel).toList

/-- A path stands for one file. -/
theorem eq_of_joinAll_eq {rel' : List String} (ht : t.Proper) (h : t.HasFile (top ++ rel))
    (h' : t.HasFile (top ++ rel')) (heq : Path.joinAll root rel = Path.joinAll root rel') :
    rel = rel' := by
  obtain ⟨content, mode, hnode⟩ := h
  obtain ⟨content', mode', hnode'⟩ := h'
  exact Path.joinAll_injective (ht.isName_of_node? hnode) (ht.isName_of_node? hnode') heq

namespace Selector

/-- What globs that were read and a suffix say about relative paths. -/
def ofGlobs (components templates excludes : List Glob) (suffix : String) : Selector where
  isComponent := Glob.anyMatch components
  isTemplate := Glob.anyMatch templates
  isExcluded := fun path => Glob.anyMatch excludes path || isBackup suffix path

theorem ofSettings_eq (suffix : String)
    (hcomponents : readGlobs scan.componentGlobs = .ok components)
    (htemplates : readGlobs scan.templateGlobs = .ok templates)
    (hexcludes : readGlobs (defaultExcludes ++ scan.excludeGlobs) = .ok excludes) :
    ofSettings scan suffix = .ok (ofGlobs components templates excludes suffix) := by
  rw [ofSettings, hcomponents, htemplates, hexcludes]
  rfl

/-- The globs take a relative path for a document of a kind: a template is what only a template
glob matches. -/
def IsOfKind (components templates : List Glob) : DocumentKind → String → Prop
  | .component, path => Glob.anyMatch components path = true
  | .template, path => Glob.anyMatch components path = false ∧ Glob.anyMatch templates path = true

theorem selects_ofGlobs_iff {path : String} :
    (ofGlobs components templates excludes suffix).selects kind path = true ↔
      Glob.anyMatch excludes path = false ∧ ¬ suffix.toList <:+ path.toList ∧
        IsOfKind components templates kind path := by
  rw [← List.isSuffixOf_iff_suffix, Bool.not_eq_true]
  cases kind <;>
    simp [selects, selectsComponent, selectsTemplate, ofGlobs, IsOfKind, isBackup, and_assoc]

end Selector

section Find

variable {mode : Nat} (ht : t.Proper) (hfree : t.LinkFree)
  (hroot : t.resolve root .read = .ok (.found top (.directory mode)))
include ht hfree hroot

theorem namesFiles_walk (followLinks : Bool) :
    Discovery.NamesFiles (Discovery.files (t.walk followLinks root)) := by
  intro rel hrel
  obtain ⟨hne, ⟨content, m, hnode⟩, -⟩ := (Tree.mem_files_walk ht hfree hroot).mp hrel
  exact ⟨hne, ht.isName_of_node? hnode⟩

/-- A walk visits the files below its root that are in reach. -/
theorem mem_files_walk_iff {followLinks : Bool} :
    rel ∈ Discovery.files (t.walk followLinks root) ↔
      t.HasFile (top ++ rel) ∧ Tree.IsInReach root rel := by
  rw [Tree.mem_files_walk ht hfree hroot, and_iff_right_iff_imp]
  -- The root is a directory and no file.
  rintro ⟨⟨content, m, hnode⟩, -⟩ rfl
  have htop : t.node? top = some (.directory mode) :=
    (Tree.resolve_eq_ok_iff.mp hroot).2.node?_of_found
  rw [List.append_nil, htop] at hnode
  cases hnode

/-- The paths that are found for a kind of document are those of the candidates of that kind. -/
theorem mem_paths_walk_iff (kind : DocumentKind) {followLinks : Bool} :
    p ∈ Discovery.paths root (Selector.ofGlobs components templates excludes suffix) kind
        (Discovery.files (t.walk followLinks root)) ↔
      ∃ rel, p = Path.joinAll root rel ∧ IsCandidate t root top excludes suffix rel ∧
        Selector.IsOfKind components templates kind (Path.ofNames rel) := by
  simp only [Discovery.mem_paths, mem_files_walk_iff ht hfree hroot, Selector.selects_ofGlobs_iff]
  constructor
  · rintro ⟨rel, ⟨hfile, hreach⟩, ⟨hkept, horiginal, hkind⟩, rfl⟩
    exact ⟨rel, rfl, ⟨hfile, hreach, hkept, horiginal⟩, hkind⟩
  · rintro ⟨rel, rfl, ⟨hfile, hreach, hkept, horiginal⟩, hkind⟩
    exact ⟨rel, ⟨hfile, hreach⟩, ⟨hkept, horiginal, hkind⟩, rfl⟩

/-- The directory above a file out of reach is reported. -/
theorem exists_failure_of_not_isInReach (followLinks : Bool)
    (hfile : t.HasFile (top ++ rel)) (hreach : ¬ Tree.IsInReach root rel) :
    ∃ k, k <+: rel ∧ k ≠ rel ∧ Path.isTooLong (Path.joinAll root k) = true ∧
      (Tree.WalkError.os (Path.joinAll root k) .nameTooLong).message ∈
        Discovery.failures (t.walk followLinks root) := by
  obtain ⟨k, ⟨rest, rfl⟩, hne, hproper, hkreach, hlong⟩ :=
    Tree.exists_tooLong_of_not_isInReach hreach
  obtain ⟨content, m, hnode⟩ := hfile
  rw [← List.append_assoc] at hnode
  obtain ⟨m', hdir⟩ := ht.directory_above hnode fun hnil => hproper (by simp [hnil])
  exact ⟨k, ⟨rest, rfl⟩, hproper, hlong,
    (Tree.mem_failures_walk ht hfree hroot).mpr ⟨k, m', hne, hdir, hkreach, hlong, rfl⟩⟩

/-- **Which files are found.**  In a tree without links and with globs that can be read, the
components are the candidates that a component glob matches and the templates are the other
candidates that a template glob matches.  No path is in the lists twice, and each list is in the
order of names.  A file that is not in reach lies in a directory that is reported.  In another
order of listing the same files are found and the same reports are made. -/
theorem discovery_selects_candidates (suffix : String)
    (hcomponents : Selector.readGlobs scan.componentGlobs = .ok components)
    (htemplates : Selector.readGlobs scan.templateGlobs = .ok templates)
    (hexcludes : Selector.readGlobs (Selector.defaultExcludes ++ scan.excludeGlobs) =
      .ok excludes) :
    ∃ found, Discovery.find t root scan suffix = .ok found ∧
      (∀ p, p ∈ found.components ↔
        ∃ rel, p = Path.joinAll root rel ∧ IsCandidate t root top excludes suffix rel ∧
          Glob.anyMatch components (Path.ofNames rel) = true) ∧
      (∀ p, p ∈ found.templates ↔
        ∃ rel, p = Path.joinAll root rel ∧ IsCandidate t root top excludes suffix rel ∧
          Glob.anyMatch components (Path.ofNames rel) = false ∧
          Glob.anyMatch templates (Path.ofNames rel) = true) ∧
      (found.components ++ found.templates).Nodup ∧
      (found.components.Pairwise fun p q => Path.names p < Path.names q) ∧
      (found.templates.Pairwise fun p q => Path.names p < Path.names q) ∧
      (∀ rel, t.HasFile (top ++ rel) → ¬ Tree.IsInReach root rel →
        ∃ k, k <+: rel ∧ k ≠ rel ∧ Path.isTooLong (Path.joinAll root k) = true ∧
          (Tree.WalkError.os (Path.joinAll root k) .nameTooLong).message ∈ found.errors) ∧
      ∀ s : Tree, s.Relists t → ∃ found', Discovery.find s root scan suffix = .ok found' ∧
        found'.components = found.components ∧ found'.templates = found.templates ∧
        found'.errors.Perm found.errors := by
  have hselector := Selector.ofSettings_eq suffix hcomponents htemplates hexcludes
  have hnames := namesFiles_walk ht hfree hroot scan.followLinks
  have hnodup : (Discovery.files (t.walk scan.followLinks root)).Nodup :=
    Tree.nodup_files_walk ht hfree hroot
  refine ⟨_, find_eq_ok_iff.mpr ⟨_, hselector, rfl⟩, fun p => ?_, fun p => ?_, ?_, ?_, ?_,
    fun rel hfile hreach => ?_, fun s hs => ⟨_, find_eq_ok_iff.mpr ⟨_, hselector, rfl⟩, ?_⟩⟩
  · exact mem_paths_walk_iff ht hfree hroot .component
  · exact mem_paths_walk_iff ht hfree hroot .template
  · exact Discovery.nodup_paths_append hnames hnodup
  · exact Discovery.sorted_paths .component hnames hnodup
  · exact Discovery.sorted_paths .template hnames hnodup
  · obtain ⟨k, hk, hproper, hlong, hmem⟩ :=
      exists_failure_of_not_isInReach ht hfree hroot scan.followLinks hfile hreach
    exact ⟨k, hk, hproper, hlong, hmem⟩
  · have hvisits : (s.walk scan.followLinks root).Perm (t.walk scan.followLinks root) :=
      Tree.perm_walk ht hfree hs hroot
    have hfiles : (Discovery.files (s.walk scan.followLinks root)).Perm
        (Discovery.files (t.walk scan.followLinks root)) := hvisits.filterMap _
    have hpaths (kind : DocumentKind) := Discovery.paths_of_perm root
      (Selector.ofGlobs components templates excludes suffix) kind hfiles
    exact ⟨hpaths .component, hpaths .template, hvisits.filterMap _⟩

end Find

/-- A component and a template are found; what has the name of a backup is not. -/
theorem discovery_selects_candidates_blockedBackup :
    ∃ found, Discovery.find blockedBackup "." {} ".bak" = .ok found ∧
      found.components = ["./a.component.yml"] ∧ found.templates = ["./b.twig"] ∧
      (found.components ++ found.templates).Nodup ∧
      ∀ s : Tree, s.Relists blockedBackup → ∃ found',
        Discovery.find s "." {} ".bak" = .ok found' ∧ found'.components = found.components ∧
        found'.templates = found.templates ∧ found'.errors.Perm found.errors := by
  have hfind : Discovery.find blockedBackup "." {} ".bak" =
      .ok ⟨["./a.component.yml"], ["./b.twig"], []⟩ := by decide +kernel
  obtain ⟨components, hcomponents, -⟩ := exists_ok_of_map (by decide +kernel :
    (Selector.readGlobs ({} : Settings.Scan).componentGlobs).map List.length = .ok 1)
  obtain ⟨templates, htemplates, -⟩ := exists_ok_of_map (by decide +kernel :
    (Selector.readGlobs ({} : Settings.Scan).templateGlobs).map List.length = .ok 1)
  obtain ⟨excludes, hexcludes, -⟩ := exists_ok_of_map (by decide +kernel :
    (Selector.readGlobs (Selector.defaultExcludes ++ ({} : Settings.Scan).excludeGlobs)).map
      List.length = .ok 4)
  have hroot : blockedBackup.resolve "." .read =
      .ok (.found [] (.directory Node.directoryMode)) := by decide +kernel
  obtain ⟨found, hfound, -, -, hnodup, -, -, -, hrelists⟩ :=
    discovery_selects_candidates proper_blockedBackup linkFree_blockedBackup hroot ".bak"
      hcomponents htemplates hexcludes
  obtain rfl := Except.ok.inj (hfind.symm.trans hfound)
  exact ⟨_, hfound, rfl, rfl, hnodup, hrelists⟩

/-! ## A file out of reach -/

/-- A template in a directory. -/
def farTheme : Tree where
  entries := [(["tree"], .directory Node.directoryMode),
    (["tree", "d"], .directory Node.directoryMode),
    (["tree", "d", "a.twig"], .file ByteArray.empty Node.fileMode)]

theorem proper_farTheme : farTheme.Proper := by
  refine ⟨by decide, fun e he => ?_⟩
  have hname : ∀ name ∈ ["tree", "d", "a.twig"], Path.IsName name := by
    intro name hname
    fin_cases hname <;> exact ⟨by decide, by decide, by decide, by decide⟩
  fin_cases he
  · exact ⟨[], _, rfl, hname _ (by simp), _, rfl⟩
  · exact ⟨["tree"], _, rfl, hname _ (by simp), _, rfl⟩
  · exact ⟨["tree", "d"], _, rfl, hname _ (by simp), _, rfl⟩

theorem linkFree_farTheme : farTheme.LinkFree := by
  refine Tree.linkFree_of_entries proper_farTheme fun e he target => ?_
  fin_cases he <;> exact Node.noConfusion

/-- The directory with slashes behind its name. -/
def slashed (n : Nat) : String := "tree" ++ String.ofList (List.replicate n '/')

theorem toList_slashed (n : Nat) :
    (slashed n).toList = ['t', 'r', 'e', 'e'] ++ List.replicate n '/' := by
  simp [slashed]

theorem utf8ByteSize_slashed (n : Nat) : (slashed n).utf8ByteSize = 4 + n := by
  have hsize : (String.ofList (List.replicate n '/')).utf8ByteSize = n := by
    induction n with
    | zero => rfl
    | succ n ih =>
      have hone : (String.singleton '/').utf8ByteSize = 1 := by decide
      rw [List.replicate_succ, String.ofList_cons, String.utf8ByteSize_append, ih, hone]
      omega
  have htree : "tree".utf8ByteSize = 4 := by decide
  rw [slashed, String.utf8ByteSize_append, hsize, htree]

theorem pieces_slashed (n : Nat) : Path.pieces (slashed (n + 1)) = ["tree"] := by
  have hslashes (n : Nat) : Path.pieces (String.ofList (List.replicate n '/')) = [] := by
    induction n with
    | zero => rfl
    | succ n ih =>
      rw [List.replicate_succ, ← List.nil_append ('/' :: _), Path.pieces_slash, ih]
      rfl
  rw [← String.ofList_toList (s := slashed (n + 1)), toList_slashed, List.replicate_succ,
    Path.pieces_slash, hslashes]
  decide

theorem endsInSlash_slashed (n : Nat) : Path.endsInSlash (slashed (n + 1)) = true :=
  Path.endsInSlash_iff.mpr ⟨['t', 'r', 'e', 'e'] ++ List.replicate n '/', by
    rw [toList_slashed, List.replicate_succ', List.append_assoc]⟩

/-- However many slashes stand behind it, the path leads to the directory, if the system takes
it. -/
theorem resolve_slashed {n : Nat} (hshort : 4 + (n + 1) ≤ 4095) :
    farTheme.resolve (slashed (n + 1)) .read =
      .ok (.found ["tree"] (.directory Node.directoryMode)) := by
  have hname : Tree.IsLookup .read "tree" [""] :=
    ⟨by decide, by decide, fun h => Tree.Use.noConfusion h.1, by decide⟩
  have hpath : Tree.IsPathText (slashed (n + 1)) := by
    refine ⟨?_, ?_, ?_⟩
    · rw [Path.holdsNul, toList_slashed]
      simp
    · intro hempty
      have := congrArg String.toList hempty
      rw [toList_slashed] at this
      simp at this
    · rw [Path.isTooLong, utf8ByteSize_slashed]
      simpa using hshort
  have horigin : Tree.origin (.inside []) (slashed (n + 1)) = .inside [] := by
    rw [Tree.origin, Path.isAbsolute, toList_slashed]
    rfl
  have hnames : Path.names (slashed (n + 1)) = ["tree", ""] := by
    rw [Path.names_eq, pieces_slashed, endsInSlash_slashed]
    rfl
  refine Tree.resolve_eq_ok_iff.mpr ⟨hpath, ?_⟩
  rw [horigin, hnames]
  exact .enter hname rfl (.skip (.inl rfl) .nil)

/-- The directory in it may have a path that is too long. -/
theorem isTooLong_below_slashed {n : Nat} (hlong : 4095 < 4 + (n + 1) + 1) :
    Path.isTooLong (Path.joinAll (slashed (n + 1)) ["d"]) = true := by
  have hone : "d".utf8ByteSize = 1 := by decide
  show Path.isTooLong (Path.join (slashed (n + 1)) "d") = true
  rw [Path.join, endsInSlash_slashed, Bool.or_true, if_pos rfl, Path.isTooLong,
    String.utf8ByteSize_append, utf8ByteSize_slashed, hone]
  simpa using hlong

/-- Not every file that passes the globs is found. -/
theorem discovery_leaves_out_unreachable_files :
    ¬ ∀ (t : Tree) (root : String) (top : Location) (mode : Nat), t.Proper → t.LinkFree →
      t.resolve root .read = .ok (.found top (.directory mode)) →
      ∀ (scan : Settings.Scan) (suffix : String) (components templates excludes : List Glob),
        suffix ≠ "" → Selector.readGlobs scan.componentGlobs = .ok components →
        Selector.readGlobs scan.templateGlobs = .ok templates →
        Selector.readGlobs (Selector.defaultExcludes ++ scan.excludeGlobs) = .ok excludes →
        ∀ found, Discovery.find t root scan suffix = .ok found →
          ∀ p, p ∈ found.templates ↔
            ∃ rel, p = Path.joinAll root rel ∧ t.HasFile (top ++ rel) ∧
              Glob.anyMatch excludes (Path.ofNames rel) = false ∧
              ¬ suffix.toList <:+ (Path.ofNames rel).toList ∧
              Glob.anyMatch components (Path.ofNames rel) = false ∧
              Glob.anyMatch templates (Path.ofNames rel) = true := by
  intro h
  obtain ⟨components, hcomponents, hother⟩ := exists_ok_of_map (by decide +kernel :
    (Selector.readGlobs ({} : Settings.Scan).componentGlobs).map
      (fun gs => Glob.anyMatch gs "d/a.twig") = .ok false)
  obtain ⟨templates, htemplates, hmatch⟩ := exists_ok_of_map (by decide +kernel :
    (Selector.readGlobs ({} : Settings.Scan).templateGlobs).map
      (fun gs => Glob.anyMatch gs "d/a.twig") = .ok true)
  obtain ⟨excludes, hexcludes, hkept⟩ := exists_ok_of_map (by decide +kernel :
    (Selector.readGlobs (Selector.defaultExcludes ++ ({} : Settings.Scan).excludeGlobs)).map
      (fun gs => Glob.anyMatch gs "d/a.twig") = .ok false)
  have hroot : farTheme.resolve (slashed 4091) .read =
      .ok (.found ["tree"] (.directory Node.directoryMode)) := resolve_slashed (by decide)
  have hselector := Selector.ofSettings_eq ".bak" hcomponents htemplates hexcludes
  have hrel : Path.ofNames ["d", "a.twig"] = "d/a.twig" := by decide +kernel
  have hfile : farTheme.HasFile (["tree"] ++ ["d", "a.twig"]) := ⟨_, _, rfl⟩
  have hsuffix : ¬ ".bak".toList <:+ "d/a.twig".toList := by decide
  rw [← hrel] at hother hmatch hkept hsuffix
  have hfound := (h farTheme (slashed 4091) ["tree"] _ proper_farTheme linkFree_farTheme hroot {}
    ".bak" components templates excludes (by decide) hcomponents htemplates hexcludes _
    (find_eq_ok_iff.mpr ⟨_, hselector, rfl⟩) (Path.joinAll (slashed 4091) ["d", "a.twig"])).2
    ⟨_, rfl, hfile, hkept, hsuffix, hother, hmatch⟩
  obtain ⟨rel, hpath, hcandidate, -⟩ :=
    (mem_paths_walk_iff proper_farTheme linkFree_farTheme hroot .template).mp hfound
  -- The path is that of no other file, and its directory is not read.
  obtain rfl := eq_of_joinAll_eq proper_farTheme hfile hcandidate.file hpath
  have hshort := hcandidate.reach ["d"] (by decide) (by decide) (by decide)
  have hlong : Path.isTooLong (Path.joinAll (slashed 4091) ["d"]) = true :=
    isTooLong_below_slashed (by decide)
  rw [hlong] at hshort
  cases hshort

end ThemeRepair
