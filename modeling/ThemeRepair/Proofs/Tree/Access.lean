import ThemeRepair.Proofs.Tree.Lookups

/-!
# Reading what was written

A path names an entry of a directory, which its last name stands for (`IsEntryOf`); where the
entry is a link, the path leads on from there.

* `read_write`: writing to some path leaves what a file holds, unless the path leads to the file.
* `read_replace`: a new file in the place of a path is what the path leads to then.
* `read_replace_of_not_passes`, `read_replace_of_passes`: another path is not concerned, unless
  its way passes the entry; then it leads to the new file as well.
-/

namespace ThemeRepair
namespace Tree

variable {t t' : Tree} {use : Use} {n : Nat} {here : Directory} {k l d : Location}
  {path other name : String} {names : List String} {p : Place} {b content : ByteArray}

/-! ## What a path leads to -/

/-- A path that can be handed to the system. -/
structure IsPathText (path : String) : Prop where
  no_nul : Path.holdsNul path = false
  ne_empty : path ≠ ""
  short : Path.isTooLong path = false

theorem resolve_eq_ok_iff :
    t.resolve path use = .ok p ↔ IsPathText path ∧
      t.Leads use linkLimit (origin (.inside []) path) (Path.names path) p := by
  unfold resolve
  constructor
  · intro h
    split at h
    · cases h
    · next hnul =>
      split at h
      · cases h
      · next hempty =>
        split at h
        · cases h
        · next hlong =>
          refine ⟨⟨by simpa using hnul, by simpa using hempty, by simpa using hlong⟩, ?_⟩
          exact follow_eq_ok_iff.mp h
  · rintro ⟨⟨hnul, hempty, hlong⟩, h⟩
    rw [if_neg (by simp [hnul]), if_neg (by simpa using hempty), if_neg (by simp [hlong])]
    exact follow_eq_ok_iff.mpr h

/-- The bytes that are read at a place. -/
def Place.content? : Place → Option ByteArray
  | .found _ (.file content _) => some content
  | .null => some ByteArray.empty
  | _ => none

theorem read_eq_ok_iff :
    t.read path = .ok b ↔ IsPathText path ∧ ∃ p, p.content? = some b ∧
      t.Leads .read linkLimit (origin (.inside []) path) (Path.names path) p := by
  have hread : t.read path = .ok b ↔ ∃ p, t.resolve path .read = .ok p ∧ p.content? = some b := by
    unfold read
    cases hres : t.resolve path .read with
    | error e => simp
    | ok p =>
      cases p with
      | found l node => cases node <;> simp [Place.content?]
      | vacant directory name => simp [Place.content?]
      | outside => simp [Place.content?]
      | null => simp [Place.content?]
  rw [hread]
  constructor
  · rintro ⟨p, hres, hp⟩
    obtain ⟨hpath, hlead⟩ := resolve_eq_ok_iff.mp hres
    exact ⟨hpath, p, hp, hlead⟩
  · rintro ⟨hpath, p, hp, hlead⟩
    exact ⟨p, resolve_eq_ok_iff.mpr ⟨hpath, hlead⟩, hp⟩

theorem Sound.content?_place (h : t.Sound here) : (t.place here).content? = none := by
  obtain hout | ⟨l, mode, -, hdir⟩ := h.place
  · rw [hout]
    rfl
  · rw [hdir]
    rfl

theorem Leads.node?_of_vacant (h : t.Leads use n here names (.vacant l name)) :
    t.node? (l ++ [name]) = none := by
  generalize hp : Place.vacant l name = p at h
  induction h with
  | @nil n here =>
    cases here with
    | inside k =>
      rw [place] at hp
      split at hp <;> cases hp
    | above => cases hp
    | top => cases hp
    | standard directory => cases hp
  | skip _ _ ih => exact ih hp
  | up _ ih => exact ih hp
  | vacant _ hnode =>
    cases hp
    exact hnode
  | file _ _ => cases hp
  | seen _ _ _ => cases hp
  | enter _ _ _ ih => exact ih hp
  | link _ _ _ _ _ ih => exact ih hp
  | standard _ _ _ ih => exact ih hp
  | null _ => cases hp

theorem Leads.node?_of_found {node : Node} (h : t.Leads use n here names (.found l node)) :
    t.node? l = some node := by
  generalize hp : Place.found l node = p at h
  induction h with
  | @nil n here =>
    cases here with
    | inside k =>
      rw [place] at hp
      split at hp
      · next hk =>
        cases hp
        exact hk
      · cases hp
    | above => cases hp
    | top => cases hp
    | standard directory => cases hp
  | skip _ _ ih => exact ih hp
  | up _ ih => exact ih hp
  | vacant _ _ => cases hp
  | file _ hnode =>
    cases hp
    exact hnode
  | seen _ hnode _ =>
    cases hp
    exact hnode
  | enter _ _ _ ih => exact ih hp
  | link _ _ _ _ _ ih => exact ih hp
  | standard _ _ _ ih => exact ih hp
  | null _ => cases hp

/-! ## Writing -/

/-- What is written is lost, or put in a location that is free for a file; if there is a file, it
is the one that the path leads to. -/
theorem write_ok (h : t.write path content = .ok t') :
    t' = t ∨ ∃ d name mode, t.IsFree (d ++ [name]) ∧
      (∀ node, t.node? (d ++ [name]) = some node →
        t.resolve path .write = .ok (.found (d ++ [name]) node)) ∧
      t' = t.put (d ++ [name]) (.file content mode) := by
  unfold write at h
  split at h
  · cases h
  · next directory name hres =>
    cases h
    obtain ⟨-, hlead⟩ := resolve_eq_ok_iff.mp hres
    have hnone := hlead.node?_of_vacant
    refine .inr ⟨directory, name, _, .inl hnone, fun node hnode => ?_, rfl⟩
    rw [hnone] at hnode
    cases hnode
  · next l c mode hres =>
    cases h
    obtain ⟨-, hlead⟩ := resolve_eq_ok_iff.mp hres
    have hfound := hlead.node?_of_found
    have hfree : t.IsFree l := .inr ⟨c, mode, hfound⟩
    obtain ⟨d, name, rfl⟩ := List.eq_nil_or_concat' l |>.resolve_left hfree.ne_nil
    refine .inr ⟨d, name, mode, hfree, fun node hnode => ?_, rfl⟩
    rw [hres, ← Option.some.inj (hfound.symm.trans hnode)]
  · cases h
  · cases h
  · cases h
    exact .inl rfl

/-- A free location ends every way that comes there. -/
theorem Leads.of_isFree {rest : List String} (hfree : t.IsFree (d ++ [name]))
    (hname : IsLookup .read name rest) (h : t.Leads .read n (.inside d) (name :: rest) p) :
    rest = [] ∧ (p = .vacant d name ∨
      ∃ content mode, p = .found (d ++ [name]) (.file content mode)) := by
  cases h with
  | skip hskip _ => exact absurd hskip hname.ne_skip
  | up _ => exact absurd rfl hname.ne_up
  | vacant _ _ => exact ⟨rfl, .inl rfl⟩
  | file _ _ => exact ⟨rfl, .inr ⟨_, _, rfl⟩⟩
  | seen _ _ huse => cases huse
  | enter _ hnode _ => exact absurd hnode (hfree.node?_ne_directory _)
  | link _ hnode _ _ _ => exact absurd hnode (hfree.node?_ne_link _)

/-- What is written to `other` is written to the file that `path` leads to. -/
def SharesFile (t : Tree) (path other : String) : Prop :=
  ∃ l node, t.resolve path .read = .ok (.found l node) ∧
    t.resolve other .write = .ok (.found l node)

/-- A file keeps its bytes when others are written to some path, unless the path leads to the
file; then it gets these. -/
theorem read_write (h : t.read path = .ok b) (hwrite : t.write other content = .ok t') :
    t'.read path = .ok b ∨ t.SharesFile path other ∧ t'.read path = .ok content := by
  obtain rfl | ⟨d, name, mode, hfree, hthere, rfl⟩ := write_ok hwrite
  · exact .inl h
  · obtain ⟨hpath, p, hp, hlead⟩ := read_eq_ok_iff.mp h
    obtain ⟨-, hsame⟩ | ⟨-, rest, ⟨j, hcome⟩, hname, hend⟩ :=
      hlead.put content mode hfree.node?_ne_directory (sound_root.origin path)
    · exact .inl (read_eq_ok_iff.mpr ⟨hpath, p, hp, hsame⟩)
    · obtain ⟨hnil, rfl | ⟨c, m, rfl⟩⟩ := hcome.of_isFree hfree hname
      · cases hp
      · exact .inr ⟨⟨_, _, resolve_eq_ok_iff.mpr ⟨hpath, hlead⟩, hthere _ hlead.node?_of_found⟩,
          read_eq_ok_iff.mpr ⟨hpath, _, rfl, hend hnil⟩⟩

/-! ## Replacing -/

theorem directoryAt_eq_ok_iff :
    t.directoryAt here names = .ok d ↔
      ∃ mode, t.Leads .read linkLimit here names (.found d (.directory mode)) := by
  have hiff : t.directoryAt here names = .ok d ↔
      ∃ mode, t.follow .read linkLimit here names = .ok (.found d (.directory mode)) := by
    unfold directoryAt
    cases t.follow .read linkLimit here names with
    | error e => simp
    | ok p =>
      cases p with
      | found l node => cases node <;> simp
      | vacant directory name => simp
      | outside => simp
      | null => simp
  simp only [hiff, follow_eq_ok_iff]

/-- The last name of a path stands for the entry `name` of the directory at `d`. -/
def IsEntryOf (t : Tree) (path : String) (d : Location) (name : String) : Prop :=
  ∃ init, Path.names path = init ++ [name] ∧
    t.directoryAt (origin (.inside []) path) init = .ok d

theorem IsEntryOf.unique {e : Location} {name' : String} (h : t.IsEntryOf path d name)
    (h' : t.IsEntryOf path e name') : d = e ∧ name = name' := by
  obtain ⟨init, hnames, hd⟩ := h
  obtain ⟨init', hnames', he⟩ := h'
  obtain ⟨rfl, hname⟩ := List.append_inj' (hnames.symm.trans hnames') rfl
  rw [hd] at he
  exact ⟨Except.ok.inj he, List.singleton_inj.mp hname⟩

theorem IsEntryOf.transfer (hst : Covers t' t) (h : t.IsEntryOf path d name) :
    t'.IsEntryOf path d name := by
  obtain ⟨init, hnames, hd⟩ := h
  obtain ⟨mode, hlead⟩ := directoryAt_eq_ok_iff.mp hd
  exact ⟨init, hnames, directoryAt_eq_ok_iff.mpr ⟨mode, hlead.transfer hst⟩⟩

/-- What a path leads to is what its entry leads to. -/
theorem IsEntryOf.leads (h : t.IsEntryOf path d name)
    (hlead : t.Leads .read n (origin (.inside []) path) (Path.names path) p) :
    t.Sound (.inside d) ∧ ∃ j, t.Leads .read j (.inside d) [name] p := by
  obtain ⟨init, hnames, hd⟩ := h
  obtain ⟨mode, hdir⟩ := directoryAt_eq_ok_iff.mp hd
  rw [hnames] at hlead
  obtain ⟨e, j, he, hfirst, hlast⟩ := hlead.split (sound_root.origin path) (by simp)
  obtain ⟨rfl, -⟩ := place_eq_directory (hfirst.unique hdir)
  exact ⟨he, j, hlast⟩

/-- Nothing follows a name that leads to a file. -/
theorem Leads.eq_nil_of_content {m : Nat} {rest : List String} {q : Place}
    (hs : t.Sound here) (h : t.Leads .read n here [name] p) (hp : p.content? = some b)
    (hq : t.Leads .read m here (name :: rest) q) : rest = [] := by
  by_contra hrest
  rw [← List.singleton_append] at hq
  obtain ⟨e, j, he, hfirst, -⟩ := hq.split hs hrest
  have hplace := hfirst.unique h
  rw [← hplace, he.content?_place] at hp
  cases hp

theorem filter_names (h : Path.endsInSlash path = false) :
    (Path.names path).filter (· != "") = Path.names path := by
  rw [List.filter_eq_self]
  intro name hname
  rw [Path.names, h] at hname
  simp only [Bool.false_eq_true, if_false, List.append_nil, List.mem_map, List.mem_filter] at hname
  obtain ⟨cs, ⟨-, hne⟩, rfl⟩ := hname
  simpa [← String.ofList_eq_empty_iff] using hne

/-- A new file is put in the place of the path's entry, which is no directory. -/
theorem replace_ok {mode : Nat} (h : t.replace path content mode = .ok t') :
    ∃ d name, t.IsEntryOf path d name ∧ IsLookup .read name [] ∧
      (∀ m, t.node? (d ++ [name]) ≠ some (.directory m)) ∧
      t' = t.put (d ++ [name]) (.file content mode) := by
  unfold replace at h
  split at h
  · cases h
  split at h
  · cases h
  split at h
  · cases h
  dsimp only at h
  split at h
  · cases h
  next name hlast =>
    split at h
    · cases h
    next hdots =>
      cases hd : t.directoryAt (origin (.inside []) path)
          ((Path.names path).filter (· != "")).dropLast with
      | error e =>
        rw [hd] at h
        cases h
      | ok d =>
        rw [hd] at h
        change (if _ then _ else _) = _ at h
        split at h
        · cases h
        next hshort =>
          split at h
          · cases h
          next hslash =>
            have hslash' : Path.endsInSlash path = false := by simpa using hslash
            rw [filter_names hslash'] at hlast hd
            have hmem : name ∈ (Path.names path).filter (· != "") := by
              rw [filter_names hslash']
              exact List.mem_of_getLast? hlast
            have hne : name ≠ "" := by simpa using (List.mem_filter.mp hmem).2
            have hnames : Path.names path = (Path.names path).dropLast ++ [name] :=
              (List.dropLast_append_getLast? name hlast).symm
            have hname : IsLookup .read name [] :=
              ⟨by simpa [hne] using fun hdot => hdots (.inl hdot), fun hup => hdots (.inr hup),
                by simp, by simpa using hshort⟩
            refine ⟨d, name, ⟨_, hnames, hd⟩, hname, ?_⟩
            split at h
            · cases h
            · next hnode =>
              cases h
              exact ⟨hnode, rfl⟩

/-- The way along `other` comes to the entry that the last name of `path` stands for. -/
def PassesEntryOf (t : Tree) (path other : String) : Prop :=
  ∃ d name, t.IsEntryOf path d name ∧
    t.LooksUp (d ++ [name]) (origin (.inside []) other) (Path.names other)

/-- Which entries a way passes is up to the directories and links. -/
theorem PassesEntryOf.transfer (hst : Covers t' t) (h : t.PassesEntryOf path other) :
    t'.PassesEntryOf path other := by
  obtain ⟨d, name, hentry, hlook⟩ := h
  exact ⟨d, name, hentry.transfer hst, hlook.transfer hst⟩

/-- Writing a file makes no difference to the entries that a way passes. -/
theorem passesEntryOf_write_iff {written : String} (hwrite : t.write written content = .ok t') :
    t'.PassesEntryOf path other ↔ t.PassesEntryOf path other := by
  obtain rfl | ⟨d, name, mode, hfree, -, rfl⟩ := write_ok hwrite
  · exact Iff.rfl
  · exact ⟨.transfer (covers_put hfree content mode), .transfer (put_covers hfree content mode)⟩

section Replace

variable {mode : Nat} {bytes : ByteArray} (hread : t.read path = .ok b)
  (hreplace : t.replace path content mode = .ok t') (hother : t.read other = .ok bytes)

include hread hreplace in
/-- A new file in the place of a path is what the path leads to then. -/
theorem read_replace : t'.read path = .ok content := by
  obtain ⟨d, name, hentry, hname, hnode, rfl⟩ := replace_ok hreplace
  obtain ⟨hpath, p, hp, hlead⟩ := read_eq_ok_iff.mp hread
  obtain ⟨hs, i, hlast⟩ := hentry.leads hlead
  obtain ⟨init, hnames, hd⟩ := hentry
  obtain ⟨m, hdir⟩ := directoryAt_eq_ok_iff.mp hd
  -- the way to the directory does not pass the entry, which leads to a file
  have hsame : (t.put (d ++ [name]) (.file content mode)).Leads .read linkLimit
      (origin (.inside []) path) init (.found d (.directory m)) := by
    obtain ⟨-, hsame⟩ | ⟨-, rest, ⟨j, hcome⟩, -, -⟩ :=
      hdir.put content mode hnode (sound_root.origin path)
    · exact hsame
    · obtain rfl := Leads.eq_nil_of_content hs hlast hp hcome
      rw [hlast.unique hcome] at hp
      cases hp
  obtain ⟨j, -, happ⟩ := hsame.append
  refine read_eq_ok_iff.mpr ⟨hpath, .found (d ++ [name]) (.file content mode), rfl, ?_⟩
  rw [hnames]
  exact happ [name] _ (.file hname (node?_put_self (by simp)))

include hreplace hother in
/-- A path whose way does not pass the entry of the replaced one leads where it led. -/
theorem read_replace_of_not_passes (hpass : ¬ t.PassesEntryOf path other) :
    t'.read other = .ok bytes := by
  obtain ⟨d, name, hentry, hname, hnode, rfl⟩ := replace_ok hreplace
  obtain ⟨hpath, q, hq, hlead⟩ := read_eq_ok_iff.mp hother
  obtain ⟨-, hsame⟩ | ⟨hlook, -⟩ :=
    hlead.put content mode hnode (sound_root.origin other)
  · exact read_eq_ok_iff.mpr ⟨hpath, q, hq, hsame⟩
  · exact absurd ⟨d, name, hentry, hlook⟩ hpass

include hread hreplace hother in
/-- A path whose way passes the entry of the replaced one leads to the new file. -/
theorem read_replace_of_passes (hpass : t.PassesEntryOf path other) :
    t'.read other = .ok content := by
  obtain ⟨d, name, hentry, hname, hnode, rfl⟩ := replace_ok hreplace
  obtain ⟨-, p, hp, hlead⟩ := read_eq_ok_iff.mp hread
  obtain ⟨hs, i, hlast⟩ := hentry.leads hlead
  obtain ⟨hpath, q, hq, hlead'⟩ := read_eq_ok_iff.mp hother
  obtain ⟨hnot, -⟩ | ⟨-, rest, ⟨j, hcome⟩, -, hend⟩ :=
    hlead'.put content mode hnode (sound_root.origin other)
  · obtain ⟨d', name', hentry', hlook⟩ := hpass
    obtain ⟨rfl, rfl⟩ := hentry.unique hentry'
    exact absurd hlook hnot
  · -- the entry leads to a file, so no name is left behind it
    obtain rfl := Leads.eq_nil_of_content hs hlast hp hcome
    exact read_eq_ok_iff.mpr ⟨hpath, _, rfl, hend rfl⟩

end Replace

end Tree
end ThemeRepair
