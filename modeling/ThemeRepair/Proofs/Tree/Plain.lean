import ThemeRepair.Proofs.Tree.Access
import ThemeRepair.Proofs.Tree.Proper

/-!
# Trees without links

Without links, a path below a directory stands for the entry that its names spell, and what it
leads to is what stands there (`resolve_joinAll`).  Whether the system takes the path at all is a
matter of its text (`refusal?`), and no tree has a say in it.

Only the directories on the way count, so the same holds in every tree that has them, and putting
a file changes none (`IsBelow.transfer`, `sameDirectories_put`).  The directory of a temporary file
is the one that the file is in (`IsBelow.makeTemporary_joinAll`).
-/

namespace ThemeRepair
namespace Tree

variable {s t : Tree} {use : Use} {n : Nat} {here : Directory} {top l : Location}
  {root path name : String} {rest first last init rel : List String}

/-- Nothing in the tree is a link. -/
def LinkFree (t : Tree) : Prop := ∀ l target, t.node? l ≠ some (.link target)

/-- The trees have the same directories. -/
def SameDirectories (s t : Tree) : Prop :=
  ∀ l mode, s.node? l = some (.directory mode) ↔ t.node? l = some (.directory mode)

theorem LinkFree.congr (ht : t.LinkFree) (h : ∀ l, s.node? l = t.node? l) : s.LinkFree :=
  fun l target hnode => ht l target ((h l).symm.trans hnode)

theorem sameDirectories_of_node? (h : ∀ l, s.node? l = t.node? l) : SameDirectories s t :=
  fun l _ => by rw [h l]

theorem linkFree_of_entries (ht : t.Proper) (h : ∀ e ∈ t.entries, ∀ target, e.2 ≠ .link target) :
    t.LinkFree := by
  intro l target hnode
  by_cases hl : l = []
  · subst hl
    cases hnode
  · exact h _ ((ht.node?_eq_some_iff hl).mp hnode) target rfl

theorem SameDirectories.trans {r : Tree} (h : SameDirectories r s) (h' : SameDirectories s t) :
    SameDirectories r t :=
  fun l mode => (h l mode).trans (h' l mode)

theorem SameDirectories.covers (h : SameDirectories s t) (ht : t.LinkFree) : Covers s t := by
  intro l node hfile hnode
  cases node with
  | file content mode => exact absurd rfl (hfile content mode)
  | directory mode => exact (h l mode).mpr hnode
  | link target => exact absurd hnode (ht l target)

theorem sameDirectories_put (h : t.IsFree l) (content : ByteArray) (mode : Nat) :
    SameDirectories (t.put l (.file content mode)) t :=
  fun _ _ => node?_put_iff_of_isFree h fun _ _ => Node.noConfusion

theorem LinkFree.put (h : t.LinkFree) (hl : l ≠ []) (content : ByteArray) (mode : Nat) :
    (t.put l (.file content mode)).LinkFree := by
  intro k target hk
  by_cases hkl : k = l
  · subst hkl
    rw [node?_put_self hl] at hk
    cases hk
  · rw [node?_put_of_ne hkl] at hk
    exact h k target hk

/-! ## Following names below a directory -/

theorem isLookup_of_isName (h : Path.IsName name) (hshort : Path.isNameTooLong name = false)
    (hrest : rest ≠ [""]) : IsLookup use name rest :=
  ⟨fun hskip => hskip.elim h.ne_empty h.ne_dot, h.ne_up, fun hslash => hrest hslash.2, hshort⟩

theorem follow_tooLong (h : Path.IsName name) (hlong : Path.isNameTooLong name = true)
    (hrest : rest ≠ [""]) : t.follow use n here (name :: rest) = .error .nameTooLong := by
  have hskip : ¬ (name = "" ∨ name = ".") := fun hskip => hskip.elim h.ne_empty h.ne_dot
  have hslash : ¬ (use = .write ∧ rest = [""]) := fun hslash => hrest hslash.2
  have hpass : t.pass use here (name :: rest) = .error .nameTooLong := by
    rw [pass.eq_def]
    simp only [if_neg hskip, if_neg h.ne_up, if_neg hslash, if_pos hlong]
  rw [follow.eq_1, hpass]

/-- The place of a location: what stands there, or the name alone. -/
def entryPlace (t : Tree) (l : Location) : Place :=
  match t.node? l with
  | some node => .found l node
  | none => .vacant l.dropLast (l.getLast?.getD "")

theorem entryPlace_concat (l : Location) (name : String) :
    t.entryPlace (l ++ [name]) =
      match t.node? (l ++ [name]) with
      | some node => .found (l ++ [name]) node
      | none => .vacant l name := by
  rw [entryPlace, List.dropLast_concat, List.getLast?_concat]
  rfl

/-- Below a directory, names lead to the entry that they spell, unless one of them is too long. -/
theorem follow_below (hfree : t.LinkFree)
    (hchain : ∀ k, k <+: init → ∃ mode, t.node? (l ++ k) = some (.directory mode))
    (hnames : ∀ x ∈ init ++ [name], Path.IsName x) :
    t.follow use n (.inside l) (init ++ [name]) =
      if (init ++ [name]).any Path.isNameTooLong then .error .nameTooLong
      else .ok (t.entryPlace (l ++ (init ++ [name]))) := by
  induction init generalizing l with
  | nil =>
    have hname : Path.IsName name := hnames name (by simp)
    by_cases hlong : Path.isNameTooLong name = true
    · rw [if_pos (by simp [hlong])]
      exact follow_tooLong hname hlong (by simp)
    · have hlookup : IsLookup use name [] :=
        isLookup_of_isName hname (by simpa using hlong) (by simp)
      rw [if_neg (by simp [hlong]), List.nil_append, entryPlace_concat]
      cases hnode : t.node? (l ++ [name]) with
      | none => rw [follow_vacant hlookup hnode, if_pos rfl]
      | some node =>
        cases node with
        | file content mode => rw [follow_file hlookup hnode, if_pos rfl]
        | directory mode => rw [follow_enter hlookup hnode, follow_nil, place, hnode]
        | link target => exact absurd hnode (hfree _ target)
  | cons x init ih =>
    have hx : Path.IsName x := hnames x (by simp)
    have hrest : init ++ [name] ≠ [""] := by
      intro heq
      have hmem : "" ∈ init ++ [name] := heq ▸ List.mem_singleton_self ""
      exact (hnames "" (List.mem_cons_of_mem x hmem)).ne_empty rfl
    by_cases hlong : Path.isNameTooLong x = true
    · rw [if_pos (by simp [hlong])]
      exact follow_tooLong hx hlong hrest
    · obtain ⟨mode, hdir⟩ := hchain [x] (by simp)
      have hlookup : IsLookup use x (init ++ [name]) :=
        isLookup_of_isName hx (by simpa using hlong) hrest
      have hchain' : ∀ k, k <+: init →
          ∃ mode, t.node? (l ++ [x] ++ k) = some (.directory mode) := by
        intro k hk
        rw [List.append_assoc]
        exact hchain (x :: k) (List.cons_prefix_cons.mpr ⟨rfl, hk⟩)
      have hnames' : ∀ y ∈ init ++ [name], Path.IsName y :=
        fun y hy => hnames y (List.mem_cons_of_mem x hy)
      rw [List.cons_append, follow_enter hlookup hdir, ih hchain' hnames', List.any_cons,
        Bool.eq_false_iff.mpr hlong, Bool.false_or, List.append_assoc, List.singleton_append]

/-- Names that lead to a directory without a link are followed by others, whatever for. -/
theorem Leads.follow_append {mode : Nat} (hfree : t.LinkFree) (hne : last ≠ []) (hlast : "" ∉ last)
    (h : t.Leads .read n here first (.found top (.directory mode))) :
    t.follow use n here (first ++ last) = t.follow use n (.inside top) last := by
  have hslash : ∀ rest : List String, rest ++ last ≠ [""] := by
    intro rest heq
    obtain ⟨-, rfl⟩ := eq_singleton_of_append hne heq
    exact hlast (List.mem_singleton_self "")
  have hlookup : ∀ {name rest}, IsLookup .read name rest → IsLookup use name (rest ++ last) :=
    fun hname => ⟨hname.ne_skip, hname.ne_up, fun h => hslash _ h.2, hname.short⟩
  generalize hp : Place.found top (.directory mode) = p at h
  induction h with
  | nil =>
    obtain ⟨rfl, -⟩ := place_eq_directory hp.symm
    rfl
  | skip hskip _ ih => rw [List.cons_append, follow_skip hskip, ih hp]
  | up _ ih => rw [List.cons_append, follow_up, ih hp]
  | vacant _ _ => cases hp
  | file _ _ => simp at hp
  | seen _ _ huse => cases huse
  | enter hname hnode _ ih => rw [List.cons_append, follow_enter (hlookup hname) hnode, ih hp]
  | link _ hnode _ _ _ _ => exact absurd hnode (hfree _ _)
  | standard hname hstd _ ih =>
    rw [List.cons_append, follow_top (hlookup hname), if_pos hstd, ih hp]
  | null _ => cases hp

/-- Names that stand for no step lead nowhere else. -/
theorem follow_noSteps {dots : List String} (hdots : ∀ x ∈ dots, Path.IsNoStep x) :
    t.follow use n here dots = .ok (t.place here) := by
  induction dots with
  | nil => exact follow_nil
  | cons x dots ih =>
    rw [follow_skip (hdots x List.mem_cons_self)]
    exact ih fun y hy => hdots y (List.mem_cons_of_mem x hy)

/-- At the end of a way to a directory, names that stand for no step can be left out. -/
theorem Leads.of_noSteps {dots : List String} {mode : Nat} (hs : t.Sound here)
    (hdots : ∀ x ∈ dots, Path.IsNoStep x)
    (h : t.Leads .read n here (first ++ dots) (.found top (.directory mode))) :
    t.Leads .read n here first (.found top (.directory mode)) := by
  by_cases hnil : dots = []
  · rwa [hnil, List.append_nil] at h
  · obtain ⟨d, j, -, hfirst, hlast⟩ := h.split hs hnil
    have hend := hlast.follow_eq
    rw [follow_noSteps hdots] at hend
    rwa [Except.ok.inj hend] at hfirst

/-- At the end of a way to a directory, names that stand for no step can be added. -/
theorem Leads.noSteps {dots : List String} {mode : Nat} (hdots : ∀ x ∈ dots, Path.IsNoStep x)
    (h : t.Leads .read n here first (.found top (.directory mode))) :
    t.Leads .read n here (first ++ dots) (.found top (.directory mode)) := by
  obtain ⟨j, -, happend⟩ := h.append
  have hplace : t.place (.inside top) = .found top (.directory mode) := by
    rw [place, h.node?_of_found]
  exact happend dots _ (follow_eq_ok_iff.mp (hplace ▸ follow_noSteps hdots))

/-- The slash at the end of a directory's path can be left out. -/
theorem Leads.pieces {mode : Nat} (hs : t.Sound here)
    (h : t.Leads .read n here (Path.names path) (.found top (.directory mode))) :
    t.Leads .read n here (Path.pieces path) (.found top (.directory mode)) := by
  rw [Path.names_eq] at h
  refine h.of_noSteps hs fun x hx => ?_
  split at hx
  · exact .inl (List.mem_singleton.mp hx)
  · cases hx

/-! ## Paths below a root -/

/-- Why the system does not take a path that goes through the names `relative` below a root; `none`
if it does. -/
def refusal? (path : String) (relative : List String) : Option OsError :=
  if Path.holdsNul path then some .nulInPath
  else if Path.isTooLong path then some .nameTooLong
  else if relative.any Path.isNameTooLong then some .nameTooLong
  else none

theorem isPathText_of_refusal? (hne : path ≠ "") (h : refusal? path rest = none) :
    IsPathText path ∧ ∀ x ∈ rest, Path.isNameTooLong x = false := by
  unfold refusal? at h
  split at h
  · cases h
  split at h
  · cases h
  split at h
  · cases h
  next hnul hlong hnames =>
    refine ⟨⟨by simpa using hnul, hne, by simpa using hlong⟩, fun x hx => ?_⟩
    simp only [List.any_eq_true, not_exists, not_and] at hnames
    simpa using hnames x hx

/-- A path leads to the same directory in trees with the same directories. -/
theorem resolve_directory {mode : Nat} (hfree : t.LinkFree) (hst : SameDirectories s t)
    (h : t.resolve root use = .ok (.found top (.directory mode))) :
    s.resolve root use = .ok (.found top (.directory mode)) := by
  obtain ⟨hpath, hlead⟩ := resolve_eq_ok_iff.mp h
  exact resolve_eq_ok_iff.mpr ⟨hpath, hlead.transfer (hst.covers hfree)⟩

theorem resolve_outside (hfree : t.LinkFree) (hst : SameDirectories s t)
    (h : t.resolve root use = .ok .outside) : s.resolve root use = .ok .outside := by
  obtain ⟨hpath, hlead⟩ := resolve_eq_ok_iff.mp h
  exact resolve_eq_ok_iff.mpr
    ⟨hpath, hlead.transfer_outside (hst.covers hfree) (sound_root.origin root)⟩

theorem prefix_ne_concat {k : List String} (h : k <+: init) : k ≠ init ++ [name] := by
  intro heq
  have hlen := h.length_le
  rw [heq, List.length_append, List.length_singleton] at hlen
  omega

/-- The names `rel` lead from the directory at `top`, which a root leads to, through directories
to an entry of the last one. -/
structure IsBelow (t : Tree) (root : String) (top : Location) (rel : List String) : Prop where
  resolve : ∃ mode, t.resolve root .read = .ok (.found top (.directory mode))
  chain : ∀ k, k <+: rel → k ≠ rel → ∃ mode, t.node? (top ++ k) = some (.directory mode)
  names : ∀ x ∈ rel, Path.IsName x
  ne_nil : rel ≠ []

namespace IsBelow

theorem transfer (h : t.IsBelow root top rel) (hfree : t.LinkFree)
    (hst : SameDirectories s t) : s.IsBelow root top rel := by
  refine ⟨?_, fun k hk hne => ?_, h.names, h.ne_nil⟩
  · obtain ⟨mode, hres⟩ := h.resolve
    exact ⟨mode, resolve_directory hfree hst hres⟩
  · obtain ⟨mode, hdir⟩ := h.chain k hk hne
    exact ⟨mode, (hst _ mode).mpr hdir⟩

theorem suffixed {suffix : String} (h : t.IsBelow root top rel) (hsuffix : '/' ∉ suffix.toList) :
    t.IsBelow root top (Path.suffixed suffix rel) := by
  refine ⟨h.resolve, fun k hk hne => ?_, Path.isName_suffixed h.names h.ne_nil hsuffix,
    Path.suffixed_ne_nil suffix rel⟩
  obtain ⟨init, name, rfl⟩ := (List.eq_nil_or_concat' rel).resolve_left h.ne_nil
  rw [Path.suffixed_concat] at hk hne
  have hinit : k <+: init := (List.prefix_concat_iff.mp hk).resolve_left hne
  exact h.chain k (hinit.trans (List.prefix_append ..)) (prefix_ne_concat hinit)

variable (h : t.IsBelow root top rel)
include h

/-- A file that is put below a root leaves a proper tree. -/
theorem proper_put (ht : t.Proper) (hplace : t.IsFree (top ++ rel)) (content : ByteArray)
    (mode : Nat) : (t.put (top ++ rel) (.file content mode)).Proper := by
  obtain ⟨init, name, rfl⟩ := (List.eq_nil_or_concat' rel).resolve_left h.ne_nil
  have hdir := h.chain init (List.prefix_append ..) (by simp)
  rw [← List.append_assoc] at hplace ⊢
  exact ht.put hplace (h.names name (by simp)) hdir content mode

theorem root_ne_empty : root ≠ "" := by
  obtain ⟨mode, hres⟩ := h.resolve
  exact (resolve_eq_ok_iff.mp hres).1.ne_empty

theorem path_ne_empty : Path.joinAll root rel ≠ "" :=
  Path.joinAll_ne_empty h.root_ne_empty h.names

theorem names_path : Path.names (Path.joinAll root rel) = Path.pieces root ++ rel :=
  Path.names_joinAll h.names h.ne_nil

theorem origin_path : origin (.inside []) (Path.joinAll root rel) = origin (.inside []) root := by
  rw [origin, origin, Path.isAbsolute_joinAll h.root_ne_empty h.names]

theorem empty_notMem : "" ∉ rel := fun hmem => (h.names "" hmem).ne_empty rfl

theorem leads_root :
    ∃ mode, t.Leads .read linkLimit (origin (.inside []) root) (Path.pieces root)
      (.found top (.directory mode)) := by
  obtain ⟨mode, hres⟩ := h.resolve
  exact ⟨mode, (resolve_eq_ok_iff.mp hres).2.pieces (sound_root.origin root)⟩

variable (hfree : t.LinkFree)
include hfree

theorem follow_path :
    t.follow use linkLimit (origin (.inside []) root) (Path.pieces root ++ rel) =
      if rel.any Path.isNameTooLong then .error .nameTooLong
      else .ok (t.entryPlace (top ++ rel)) := by
  obtain ⟨mode, hlead⟩ := h.leads_root
  rw [hlead.follow_append hfree h.ne_nil h.empty_notMem]
  obtain ⟨init, name, rfl⟩ := (List.eq_nil_or_concat' rel).resolve_left h.ne_nil
  exact follow_below hfree
    (fun k hk => h.chain k (hk.trans (List.prefix_append ..)) (prefix_ne_concat hk)) h.names

/-- A path below a root leads to the entry that its names spell, if the system takes it. -/
theorem resolve_joinAll :
    t.resolve (Path.joinAll root rel) use =
      match refusal? (Path.joinAll root rel) rel with
      | some e => .error e
      | none => .ok (t.entryPlace (top ++ rel)) := by
  have hfollow : t.follow use linkLimit _ _ = _ := h.follow_path hfree
  rw [← h.names_path, ← h.origin_path] at hfollow
  unfold Tree.resolve refusal?
  split
  · rfl
  split
  · next hpath => exact absurd (by simpa using hpath) h.path_ne_empty
  split
  · rfl
  rw [hfollow]
  split <;> rfl

/-- The directory that the last name is looked up in. -/
theorem directoryAt_init (hshort : ∀ x ∈ rel, Path.isNameTooLong x = false) :
    t.directoryAt (origin (.inside []) root) (Path.pieces root ++ rel.dropLast) =
      .ok (top ++ rel.dropLast) := by
  rw [directoryAt_eq_ok_iff]
  have hchain : ∀ k, k <+: rel.dropLast → ∃ mode, t.node? (top ++ k) = some (.directory mode) := by
    intro k hk
    refine h.chain k (hk.trans (List.dropLast_prefix rel)) ?_
    obtain ⟨init, name, rfl⟩ := (List.eq_nil_or_concat' rel).resolve_left h.ne_nil
    rw [List.dropLast_concat] at hk
    exact prefix_ne_concat hk
  obtain ⟨m, hdir⟩ := hchain rel.dropLast List.prefix_rfl
  by_cases hnil : rel.dropLast = []
  · obtain ⟨mode, hlead⟩ := h.leads_root
    exact ⟨mode, by simpa [hnil] using hlead⟩
  · have hinit : t.IsBelow root top rel.dropLast :=
      ⟨h.resolve, fun k hk _ => hchain k hk,
        fun x hx => h.names x (List.dropLast_subset rel hx), hnil⟩
    refine ⟨m, follow_eq_ok_iff.mp ?_⟩
    rw [hinit.follow_path hfree, if_neg]
    · rw [entryPlace, hdir]
    · rw [List.any_eq_true]
      rintro ⟨x, hx, hlong⟩
      rw [hshort x (List.dropLast_subset rel hx)] at hlong
      cases hlong

/-- A file is put in the place of a path below a root, where no directory stands. -/
theorem replace_joinAll {content : ByteArray} {mode : Nat}
    (hrefusal : refusal? (Path.joinAll root rel) rel = none)
    (hnode : ∀ m, t.node? (top ++ rel) ≠ some (.directory m)) :
    t.replace (Path.joinAll root rel) content mode =
      .ok (t.put (top ++ rel) (.file content mode)) := by
  obtain ⟨⟨hnul, hempty, hlong⟩, hshort⟩ := isPathText_of_refusal? h.path_ne_empty hrefusal
  have hslash : Path.endsInSlash (Path.joinAll root rel) = false :=
    Path.endsInSlash_joinAll h.names h.ne_nil
  have hat := h.directoryAt_init hfree hshort
  have hpath := h.names_path
  have horigin := h.origin_path
  have hnames := h.names
  obtain ⟨init, name, rfl⟩ := (List.eq_nil_or_concat' rel).resolve_left h.ne_nil
  have hname : Path.IsName name := hnames name (by simp)
  rw [List.dropLast_concat] at hat
  unfold replace
  rw [if_neg (by simp [hnul]), if_neg (by simpa using hempty), if_neg (by simp [hlong])]
  dsimp only
  rw [filter_names hslash, hpath, ← List.append_assoc, List.getLast?_concat]
  dsimp only
  rw [if_neg (fun hdots => hdots.elim hname.ne_dot hname.ne_up), List.dropLast_concat,
    horigin, hat]
  change (if _ then _ else _) = _
  rw [if_neg (by simp [hshort name (by simp)]), if_neg (by simp [hslash]), List.append_assoc]
  split
  · next hd => exact absurd hd (hnode _)
  · rfl

/-- A temporary file is made beside a file below a root, unless its path is too long or the system
refuses it: its directory is there. -/
theorem makeTemporary_joinAll (hrefusal : refusal? (Path.joinAll root rel) rel = none) :
    t.makeTemporary (Path.joinAll root rel) =
      if Path.isTooLong (t.system.temporaryPath (Path.joinAll root rel)) then .error .nameTooLong
      else t.system.allow (Path.joinAll root rel) .makeTemporary := by
  have hshort := (isPathText_of_refusal? h.path_ne_empty hrefusal).2
  have hat := h.directoryAt_init hfree hshort
  have hroot := h.root_ne_empty
  have hnames := h.names
  obtain ⟨init, name, rfl⟩ := (List.eq_nil_or_concat' rel).resolve_left h.ne_nil
  have hinit : ∀ x ∈ init, Path.IsName x := fun x hx => hnames x (List.mem_append_left _ hx)
  rw [List.dropLast_concat] at hat
  obtain ⟨mode, hlead⟩ := directoryAt_eq_ok_iff.mp hat
  obtain ⟨habsolute, steps, dots, dots', hdots, hdots', hpieces, hdirectory⟩ :=
    Path.names_directory_join (hnames name (by simp))
      (Path.joinAll_ne_empty hroot hinit)
  rw [Path.isAbsolute_joinAll hroot hinit] at habsolute
  -- up to names that stand for no step, the way to the directory is the one that the file has
  rw [← Path.pieces_joinAll hinit, hpieces] at hlead
  have hway := (hlead.of_noSteps (sound_root.origin root) hdots).noSteps hdots'
  have horigin : origin (.inside []) (Path.directory (Path.join (Path.joinAll root init) name)) =
      origin (.inside []) root := by
    rw [origin, origin, habsolute]
  rw [← hdirectory, ← horigin] at hway
  rw [Path.joinAll_concat, makeTemporary, directoryAt_eq_ok_iff.mpr ⟨mode, hway⟩]

end IsBelow

end Tree
end ThemeRepair
