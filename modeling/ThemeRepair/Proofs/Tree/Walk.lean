import ThemeRepair.Discovery
import ThemeRepair.Proofs.Tree.Plain

/-!
# What a walk visits

In a proper tree without links, a walk visits every file below its root once (`mem_files_walk`,
`nodup_files_walk`), except for what lies in a directory whose path is longer than the system
takes.  It reports those directories (`mem_failures_walk`).  The levels that a walk may go down are
enough for everything in the tree (`Proper.length_le_walkFuel`).

The order in which directories are listed changes the order of the walk only (`perm_walk`).
-/

namespace ThemeRepair
namespace Tree

open Discovery (files failures)

variable {t : Tree} {followLinks : Bool} {fuel : Nat} {root path : String}
  {relative names rel : List String} {top l : Location} {inside : List Ancestor}

/-- A file stands at the location. -/
def HasFile (t : Tree) (l : Location) : Prop :=
  ∃ content mode, t.node? l = some (.file content mode)

/-- None of the directories that names go through from a path has a path that is too long. -/
def IsInReach (path : String) (names : List String) : Prop :=
  ∀ k, k <+: names → k ≠ [] → k ≠ names → Path.isTooLong (Path.joinAll path k) = false

theorem isInReach_singleton (path name : String) : IsInReach path [name] := by
  intro k hk hne hproper
  cases k with
  | nil => exact absurd rfl hne
  | cons x k =>
    obtain ⟨rfl, hnil⟩ := List.cons_prefix_cons.mp hk
    rw [List.prefix_nil] at hnil
    subst hnil
    exact absurd rfl hproper

theorem isInReach_cons {name : String} (hnames : names ≠ []) :
    IsInReach path (name :: names) ↔
      Path.isTooLong (Path.join path name) = false ∧ IsInReach (Path.join path name) names := by
  constructor
  · intro h
    refine ⟨h [name] (by simp) (by simp) (by simpa using hnames.symm), fun k hk hne hproper => ?_⟩
    exact h (name :: k) (List.cons_prefix_cons.mpr ⟨rfl, hk⟩) (by simp) (by simpa using hproper)
  · rintro ⟨hname, h⟩ k hk hne hproper
    cases k with
    | nil => exact absurd rfl hne
    | cons x k =>
      obtain ⟨rfl, hrest⟩ := List.cons_prefix_cons.mp hk
      by_cases hnil : k = []
      · subst hnil
        exact hname
      · exact h k hrest hnil (by simpa using hproper)

/-- What a walk visits of one thing in a directory. -/
def filesOfChild (t : Tree) (followLinks : Bool) (fuel : Nat) (path : String)
    (relative : List String) (l : Location) (inside : List Ancestor) (child : String × Node) :
    List (List String) :=
  match child.2 with
  | .file _ _ => [relative ++ [child.1]]
  | .directory _ =>
    if Path.isTooLong (Path.join path child.1) then []
    else files (t.walkBelow followLinks fuel (Path.join path child.1) (relative ++ [child.1])
      (l ++ [child.1]) (⟨Path.join path child.1, l ++ [child.1]⟩ :: inside))
  | .link _ => []

theorem files_flatMap {α : Type} (as : List α) (visit : α → List Visit) :
    files (as.flatMap visit) = as.flatMap fun a => files (visit a) := by
  rw [files, List.filterMap_flatMap]
  rfl

theorem files_walkBelow_succ (ht : t.Proper) (hfree : t.LinkFree) :
    files (t.walkBelow followLinks (fuel + 1) path relative l inside) =
      (t.children l).flatMap (t.filesOfChild followLinks fuel path relative l inside) := by
  rw [walkBelow, files_flatMap]
  refine List.flatMap_congr fun child hchild => ?_
  have hnode := ht.mem_children_iff.mp hchild
  rw [filesOfChild]
  cases hchild2 : child.2 with
  | file content mode => rfl
  | directory mode =>
    dsimp only
    split <;> rfl
  | link target => exact absurd (hchild2 ▸ hnode) (hfree _ target)

/-- A walk visits the files below a directory that are within its levels and in reach. -/
theorem mem_files_walkBelow (ht : t.Proper) (hfree : t.LinkFree) :
    rel ∈ files (t.walkBelow followLinks fuel path relative l inside) ↔
      ∃ names, rel = relative ++ names ∧ names ≠ [] ∧ names.length ≤ fuel ∧
        t.HasFile (l ++ names) ∧ IsInReach path names := by
  induction fuel generalizing path relative l inside with
  | zero =>
    rw [walkBelow]
    refine ⟨fun h => absurd h List.not_mem_nil, ?_⟩
    rintro ⟨names, -, hne, hlen, -⟩
    exact absurd (List.length_eq_zero_iff.mp (Nat.le_zero.mp hlen)) hne
  | succ fuel ih =>
    rw [files_walkBelow_succ ht hfree, List.mem_flatMap]
    constructor
    · rintro ⟨⟨name, node⟩, hchild, hrel⟩
      have hnode := ht.mem_children_iff.mp hchild
      rw [filesOfChild] at hrel
      cases node with
      | file content mode =>
        obtain rfl := List.mem_singleton.mp hrel
        exact ⟨[name], rfl, by simp, by simp, ⟨content, mode, hnode⟩,
          isInReach_singleton path name⟩
      | directory mode =>
        dsimp only at hrel
        split at hrel
        · cases hrel
        · next hshort =>
          obtain ⟨names, rfl, hne, hlen, hfile, hreach⟩ := ih.mp hrel
          refine ⟨name :: names, by simp, by simp, by simpa using hlen, by simpa using hfile, ?_⟩
          exact (isInReach_cons hne).mpr ⟨by simpa using hshort, hreach⟩
      | link target => cases hrel
    · rintro ⟨names, rfl, hne, hlen, hfile, hreach⟩
      cases names with
      | nil => exact absurd rfl hne
      | cons name names =>
        obtain ⟨content, mode, hnode⟩ := hfile
        by_cases hnil : names = []
        · subst hnil
          exact ⟨(name, .file content mode), ht.mem_children_iff.mpr hnode,
            List.mem_singleton_self _⟩
        · obtain ⟨hshort, hreach⟩ := (isInReach_cons hnil).mp hreach
          rw [← List.singleton_append, ← List.append_assoc] at hnode
          obtain ⟨m, hdir⟩ := ht.directory_above hnode hnil
          refine ⟨(name, .directory m), ht.mem_children_iff.mpr hdir, ?_⟩
          rw [filesOfChild]
          dsimp only
          rw [if_neg (by simp [hshort])]
          exact ih.mpr ⟨names, by simp, hnil, by simpa using hlen, ⟨content, mode, hnode⟩, hreach⟩

/-- What is visited of one thing in a directory begins with its name. -/
theorem prefix_of_mem_filesOfChild (ht : t.Proper) (hfree : t.LinkFree) {child : String × Node}
    (h : rel ∈ t.filesOfChild followLinks fuel path relative l inside child) :
    relative ++ [child.1] <+: rel := by
  rw [filesOfChild] at h
  split at h
  · exact List.mem_singleton.mp h ▸ List.prefix_rfl
  · split at h
    · cases h
    · obtain ⟨names, rfl, -⟩ := (mem_files_walkBelow ht hfree).mp h
      exact List.prefix_append ..
  · cases h

/-- A walk visits no file twice. -/
theorem nodup_files_walkBelow (ht : t.Proper) (hfree : t.LinkFree) :
    (files (t.walkBelow followLinks fuel path relative l inside)).Nodup := by
  induction fuel generalizing path relative l inside with
  | zero => exact List.nodup_nil
  | succ fuel ih =>
    rw [files_walkBelow_succ ht hfree, List.nodup_flatMap]
    constructor
    · intro child _
      rw [filesOfChild]
      split
      · exact List.nodup_singleton _
      · split
        · exact List.nodup_nil
        · exact ih
      · exact List.nodup_nil
    · refine (nodup_children ht.nodup l).imp fun {a b} hne => ?_
      refine List.disjoint_left.mpr fun rel ha hb => ?_
      -- both names would stand in the same place of `rel`
      have hpa := prefix_of_mem_filesOfChild ht hfree ha
      have hpb := prefix_of_mem_filesOfChild ht hfree hb
      have heq := List.prefix_of_prefix_length_le hpa hpb (by simp)
      have heq' := heq.eq_of_length (by simp)
      exact hne (by simpa using heq')

theorem Proper.length_le_walkFuel {n : Node} (ht : t.Proper) (h : t.node? (top ++ names) = some n) :
    names.length ≤ t.walkFuel := by
  have hlen := ht.length_le h
  rw [List.length_append] at hlen
  calc names.length ≤ t.entries.length + 2 := by omega
    _ ≤ t.walkFuel := Nat.le_mul_of_pos_left _ (by omega)

/-! ## What a walk does not visit -/

/-- What stands out of reach stands below a directory in reach whose path is too long. -/
theorem exists_tooLong_of_not_isInReach (h : ¬ IsInReach path names) :
    ∃ k, k <+: names ∧ k ≠ [] ∧ k ≠ names ∧ IsInReach path k ∧
      Path.isTooLong (Path.joinAll path k) = true := by
  induction names generalizing path with
  | nil =>
    refine absurd (fun k hk hne _ => ?_) h
    exact absurd (List.prefix_nil.mp hk) hne
  | cons name names ih =>
    by_cases hnil : names = []
    · rw [hnil] at h
      exact absurd (isInReach_singleton path name) h
    · by_cases hlong : Path.isTooLong (Path.join path name) = true
      · exact ⟨[name], by simp, by simp, fun heq => hnil (List.cons.inj heq).2.symm,
          isInReach_singleton path name, hlong⟩
      · have hshort : Path.isTooLong (Path.join path name) = false := by simpa using hlong
        have hrest : ¬ IsInReach (Path.join path name) names := fun hreach =>
          h ((isInReach_cons hnil).mpr ⟨hshort, hreach⟩)
        obtain ⟨k, hk, hne, hproper, hreach, hklong⟩ := ih hrest
        exact ⟨name :: k, List.cons_prefix_cons.mpr ⟨rfl, hk⟩, by simp, by simpa using hproper,
          (isInReach_cons hne).mpr ⟨hshort, hreach⟩, hklong⟩

theorem failures_flatMap {α : Type} (as : List α) (visit : α → List Visit) :
    failures (as.flatMap visit) = as.flatMap fun a => failures (visit a) := by
  rw [failures, List.filterMap_flatMap]
  rfl

/-- A walk reports the directories that are within its levels and in reach and whose path is too
long. -/
theorem mem_failures_walkBelow (ht : t.Proper) (hfree : t.LinkFree) {e : String} :
    e ∈ failures (t.walkBelow followLinks fuel path relative l inside) ↔
      ∃ names mode, names ≠ [] ∧ names.length ≤ fuel ∧
        t.node? (l ++ names) = some (.directory mode) ∧ IsInReach path names ∧
        Path.isTooLong (Path.joinAll path names) = true ∧
        e = (WalkError.os (Path.joinAll path names) .nameTooLong).message := by
  induction fuel generalizing path relative l inside with
  | zero =>
    rw [walkBelow]
    refine ⟨fun h => absurd h List.not_mem_nil, ?_⟩
    rintro ⟨names, -, hne, hlen, -⟩
    exact absurd (List.length_eq_zero_iff.mp (Nat.le_zero.mp hlen)) hne
  | succ fuel ih =>
    rw [walkBelow, failures_flatMap, List.mem_flatMap]
    constructor
    · rintro ⟨⟨name, node⟩, hchild, he⟩
      have hnode := ht.mem_children_iff.mp hchild
      cases node with
      | file content mode => cases he
      | directory mode =>
        dsimp only at he
        split at he
        · next hlong =>
          exact ⟨[name], mode, by simp, by simp, hnode, isInReach_singleton path name, hlong,
            List.mem_singleton.mp he⟩
        · next hshort =>
          obtain ⟨names, m, hne, hlen, hdir, hreach, hlong, rfl⟩ := ih.mp he
          refine ⟨name :: names, m, by simp, by simpa using hlen, by simpa using hdir, ?_, hlong,
            rfl⟩
          exact (isInReach_cons hne).mpr ⟨by simpa using hshort, hreach⟩
      | link target => exact absurd hnode (hfree _ target)
    · rintro ⟨names, mode, hne, hlen, hdir, hreach, hlong, rfl⟩
      cases names with
      | nil => exact absurd rfl hne
      | cons name names =>
        by_cases hnil : names = []
        · subst hnil
          refine ⟨(name, .directory mode), ht.mem_children_iff.mpr hdir, ?_⟩
          have hlong : Path.isTooLong (Path.join path name) = true := hlong
          dsimp only
          rw [if_pos hlong]
          exact List.mem_singleton_self _
        · obtain ⟨hshort, hreach⟩ := (isInReach_cons hnil).mp hreach
          rw [← List.singleton_append, ← List.append_assoc] at hdir
          obtain ⟨m, habove⟩ := ht.directory_above hdir hnil
          refine ⟨(name, .directory m), ht.mem_children_iff.mpr habove, ?_⟩
          dsimp only
          rw [if_neg (by simp [hshort])]
          exact ih.mpr ⟨names, mode, hnil, by simpa using hlen, hdir, hreach, hlong, rfl⟩

/-! ## The order of listing -/

/-- A tree that lists its directories in another order is walked in another order. -/
theorem perm_walkBelow {s : Tree} (ht : t.Proper) (hfree : t.LinkFree) (h : s.Relists t) :
    (s.walkBelow followLinks fuel path relative l inside).Perm
      (t.walkBelow followLinks fuel path relative l inside) := by
  induction fuel generalizing path relative l inside with
  | zero => exact List.Perm.refl _
  | succ fuel ih =>
    rw [walkBelow, walkBelow]
    refine (List.Perm.flatMap_right _ (h.entries.filterMap _)).trans ?_
    refine List.Perm.flatMap_left _ fun child hchild => ?_
    have hnode := ht.mem_children_iff.mp hchild
    cases hchild2 : child.2 with
    | file content mode => exact List.Perm.refl _
    | directory mode =>
      dsimp only
      split
      · exact List.Perm.refl _
      · exact ih
    | link target => exact absurd (hchild2 ▸ hnode) (hfree _ target)

/-! ## A walk from a root -/

/-- Without links it does not matter whether a link at the end would be followed. -/
theorem Leads.inspect {n : Nat} {here : Directory} {p : Place} (hfree : t.LinkFree)
    (h : t.Leads .read n here names p) : t.Leads .inspect n here names p := by
  have hname : ∀ {name rest}, IsLookup .read name rest → IsLookup .inspect name rest :=
    fun h => ⟨h.ne_skip, h.ne_up, fun hwrite => Use.noConfusion hwrite.1, h.short⟩
  induction h with
  | nil => exact .nil
  | skip hskip _ ih => exact .skip hskip ih
  | up _ ih => exact .up ih
  | vacant hlook hnode => exact .vacant (hname hlook) hnode
  | file hlook hnode => exact .file (hname hlook) hnode
  | seen _ hnode _ => exact absurd hnode (hfree _ _)
  | enter hlook hnode _ ih => exact .enter (hname hlook) hnode ih
  | link _ hnode _ _ _ _ => exact absurd hnode (hfree _ _)
  | standard hlook hstd _ ih => exact .standard (hname hlook) hstd ih
  | null hlook => exact .null (hname hlook)

theorem resolve_inspect {p : Place} (hfree : t.LinkFree) (h : t.resolve root .read = .ok p) :
    t.resolve root .inspect = .ok p := by
  obtain ⟨hpath, hlead⟩ := resolve_eq_ok_iff.mp h
  exact resolve_eq_ok_iff.mpr ⟨hpath, hlead.inspect hfree⟩

/-- A walk from a directory of the tree. -/
theorem walk_eq {mode : Nat} (hfree : t.LinkFree)
    (h : t.resolve root .read = .ok (.found top (.directory mode))) :
    t.walk followLinks root =
      t.walkBelow followLinks t.walkFuel root [] top [⟨root, top⟩] := by
  rw [walk, locate, locate, resolve_inspect hfree h, h]
  rfl

/-- A walk from a directory visits the files below it that are in reach. -/
theorem mem_files_walk {mode : Nat} (ht : t.Proper) (hfree : t.LinkFree)
    (h : t.resolve root .read = .ok (.found top (.directory mode))) :
    rel ∈ files (t.walk followLinks root) ↔
      rel ≠ [] ∧ t.HasFile (top ++ rel) ∧ IsInReach root rel := by
  rw [walk_eq hfree h, mem_files_walkBelow ht hfree]
  constructor
  · rintro ⟨names, rfl, hne, -, hfile, hreach⟩
    exact ⟨hne, hfile, hreach⟩
  · rintro ⟨hne, hfile, hreach⟩
    obtain ⟨content, m, hnode⟩ := hfile
    exact ⟨rel, rfl, hne, ht.length_le_walkFuel hnode, ⟨content, m, hnode⟩, hreach⟩

/-- A walk from a directory reports the directories below it that are in reach and whose path is
too long. -/
theorem mem_failures_walk {mode : Nat} {e : String} (ht : t.Proper) (hfree : t.LinkFree)
    (h : t.resolve root .read = .ok (.found top (.directory mode))) :
    e ∈ failures (t.walk followLinks root) ↔
      ∃ names m, names ≠ [] ∧ t.node? (top ++ names) = some (.directory m) ∧
        IsInReach root names ∧ Path.isTooLong (Path.joinAll root names) = true ∧
        e = (WalkError.os (Path.joinAll root names) .nameTooLong).message := by
  rw [walk_eq hfree h, mem_failures_walkBelow ht hfree]
  constructor
  · rintro ⟨names, m, hne, -, hrest⟩
    exact ⟨names, m, hne, hrest⟩
  · rintro ⟨names, m, hne, hdir, hrest⟩
    exact ⟨names, m, hne, ht.length_le_walkFuel hdir, hdir, hrest⟩

/-- The order of listing does not matter to what a walk comes to. -/
theorem perm_walk {mode : Nat} {s : Tree} (ht : t.Proper) (hfree : t.LinkFree)
    (h : s.Relists t) (hroot : t.resolve root .read = .ok (.found top (.directory mode))) :
    (s.walk followLinks root).Perm (t.walk followLinks root) := by
  have hsame := sameDirectories_of_node? (h.node? ht)
  have hfuel : s.walkFuel = t.walkFuel := by rw [walkFuel, walkFuel, h.entries.length_eq]
  rw [walk_eq hfree hroot, walk_eq (hfree.congr (h.node? ht)) (resolve_directory hfree hsame hroot),
    hfuel]
  exact perm_walkBelow ht hfree h

theorem nodup_files_walk {mode : Nat} (ht : t.Proper) (hfree : t.LinkFree)
    (h : t.resolve root .read = .ok (.found top (.directory mode))) :
    (files (t.walk followLinks root)).Nodup := by
  rw [walk_eq hfree h]
  exact nodup_files_walkBelow ht hfree

theorem walk_of_outside (hfree : t.LinkFree) (h : t.resolve root .read = .ok .outside) :
    t.walk followLinks root = [] := by
  rw [walk, locate, locate, resolve_inspect hfree h, h]
  rfl

theorem isDirectory_of_found {mode : Nat}
    (h : t.resolve root .read = .ok (.found top (.directory mode))) :
    t.isDirectory root = true := by
  rw [isDirectory, h]

theorem isDirectory_of_outside (h : t.resolve root .read = .ok .outside) :
    t.isDirectory root = true := by
  rw [isDirectory, h]

theorem isDirectory_cases (h : t.isDirectory root = true) :
    (∃ top mode, t.resolve root .read = .ok (.found top (.directory mode))) ∨
      t.resolve root .read = .ok .outside := by
  unfold isDirectory at h
  split at h
  · next top mode hres => exact .inl ⟨top, mode, hres⟩
  · next hres => exact .inr hres
  · cases h

end Tree
end ThemeRepair
