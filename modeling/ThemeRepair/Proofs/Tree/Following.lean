import Mathlib.Data.List.Basic
import ThemeRepair.Proofs.Tree.Nodes
import ThemeRepair.Tree.Access

/-!
# Where following a path leads

`Tree.Leads` is the relation of following a path name by name, with one rule for each kind of
name.  `follow_eq_ok_iff` says that `Tree.follow` finds exactly the places it leads to; what is
said of following is then shown by induction on its rules.

* `Leads.mono`, `Leads.unique`: the number of links that may be followed does not matter where
  it is large enough.
* `Leads.append`, `Leads.split`: the last names are followed from the directory that the names
  before them lead to.
* `LooksUp`: the way comes to a location, the names to it being the last step before what stands
  there matters.  A file that is put where the way does not come to leaves the way as it was
  (`Leads.put`).
-/

namespace ThemeRepair
namespace Tree

/-- A name that is looked up in a directory, the names behind it being left.  What is written
cannot end in a slash. -/
structure IsLookup (use : Use) (name : String) (rest : List String) : Prop where
  ne_skip : ¬ (name = "" ∨ name = ".")
  ne_up : name ≠ ".."
  no_slash : ¬ (use = .write ∧ rest = [""])
  short : Path.isNameTooLong name = false

/-- Names lead from a directory to a place, `links` symbolic links being followed at most. -/
inductive Leads (t : Tree) (use : Use) :
    (links : Nat) → Directory → List String → Place → Prop
  | nil {n : Nat} {here : Directory} : Leads t use n here [] (t.place here)
  | skip {n : Nat} {here : Directory} {name : String} {rest : List String} {p : Place} :
      name = "" ∨ name = "." → Leads t use n here rest p → Leads t use n here (name :: rest) p
  | up {n : Nat} {here : Directory} {rest : List String} {p : Place} :
      Leads t use n here.parent rest p → Leads t use n here (".." :: rest) p
  | vacant {n : Nat} {l : Location} {name : String} :
      IsLookup use name [] → t.node? (l ++ [name]) = none →
      Leads t use n (.inside l) [name] (.vacant l name)
  | file {n : Nat} {l : Location} {name : String} {content : ByteArray} {mode : Nat} :
      IsLookup use name [] → t.node? (l ++ [name]) = some (.file content mode) →
      Leads t use n (.inside l) [name] (.found (l ++ [name]) (.file content mode))
  | seen {n : Nat} {l : Location} {name target : String} :
      IsLookup use name [] → t.node? (l ++ [name]) = some (.link target) → use = .inspect →
      Leads t use n (.inside l) [name] (.found (l ++ [name]) (.link target))
  | enter {n : Nat} {l : Location} {name : String} {rest : List String} {p : Place} {mode : Nat} :
      IsLookup use name rest → t.node? (l ++ [name]) = some (.directory mode) →
      Leads t use n (.inside (l ++ [name])) rest p → Leads t use n (.inside l) (name :: rest) p
  | link {n : Nat} {l : Location} {name target : String} {rest : List String} {p : Place} :
      IsLookup use name rest → t.node? (l ++ [name]) = some (.link target) →
      ¬ (rest = [] ∧ use = .inspect) → target ≠ "" →
      Leads t use n (origin (.inside l) target) (Path.names target ++ rest) p →
      Leads t use (n + 1) (.inside l) (name :: rest) p
  | standard {n : Nat} {name : String} {rest : List String} {p : Place} :
      IsLookup use name rest → standardDirectories.contains name = true →
      Leads t use n (.standard name) rest p → Leads t use n .top (name :: rest) p
  | null {n : Nat} : IsLookup use "null" [] →
      Leads t use n (.standard "dev") ["null"] .null

variable {t : Tree} {use : Use} {n : Nat} {here : Directory} {l : Location} {name : String}
  {rest names : List String} {p q : Place}

/-! ## The relation and the function -/

theorem follow_nil : t.follow use n here [] = .ok (t.place here) := by
  cases n <;> rfl

/-- Two ways that pass the same names on to the first link go on alike. -/
theorem follow_congr {here' : Directory} {names' : List String}
    (h : t.pass use here names = t.pass use here' names') :
    t.follow use n here names = t.follow use n here' names' := by
  rw [follow.eq_1 t use n here names, follow.eq_1 t use n here' names', h]

theorem follow_skip (h : name = "" ∨ name = ".") :
    t.follow use n here (name :: rest) = t.follow use n here rest := by
  apply follow_congr
  rw [pass.eq_def]
  exact if_pos h

theorem follow_up : t.follow use n here (".." :: rest) = t.follow use n here.parent rest := by
  apply follow_congr
  rw [pass.eq_def]
  rfl

section Lookup

variable (h : IsLookup use name rest)
include h

theorem pass_lookup :
    t.pass use here (name :: rest) =
      match here with
      | .inside l =>
        match t.node? (l ++ [name]) with
        | none => if rest.isEmpty then .ok (.arrived (.vacant l name)) else .error .notFound
        | some (.directory _) => t.pass use (.inside (l ++ [name])) rest
        | some (.file content mode) =>
          if rest.isEmpty then .ok (.arrived (.found (l ++ [name]) (.file content mode)))
          else .error .notDirectory
        | some (.link target) =>
          if rest.isEmpty && use = .inspect then
            .ok (.arrived (.found (l ++ [name]) (.link target)))
          else .ok (.link l target rest)
      | .above => .error .notFound
      | .top =>
        if standardDirectories.contains name then t.pass use (.standard name) rest
        else .error .notFound
      | .standard directory =>
        if directory = "dev" ∧ name = "null" then
          if rest.isEmpty then .ok (.arrived .null) else .error .notDirectory
        else .error .notFound := by
  rw [pass.eq_def]
  refine (if_neg h.ne_skip).trans ((if_neg h.ne_up).trans ((if_neg h.no_slash).trans ?_))
  exact if_neg (by simp [h.short])

theorem follow_vacant (hnode : t.node? (l ++ [name]) = none) :
    t.follow use n (.inside l) (name :: rest) =
      if rest = [] then .ok (.vacant l name) else .error .notFound := by
  rw [follow.eq_1, pass_lookup h]
  simp only [hnode]
  cases rest <;> rfl

theorem follow_file {content : ByteArray} {mode : Nat}
    (hnode : t.node? (l ++ [name]) = some (.file content mode)) :
    t.follow use n (.inside l) (name :: rest) =
      if rest = [] then .ok (.found (l ++ [name]) (.file content mode))
      else .error .notDirectory := by
  rw [follow.eq_1, pass_lookup h]
  simp only [hnode]
  cases rest <;> rfl

theorem follow_enter {mode : Nat} (hnode : t.node? (l ++ [name]) = some (.directory mode)) :
    t.follow use n (.inside l) (name :: rest) = t.follow use n (.inside (l ++ [name])) rest := by
  apply follow_congr
  rw [pass_lookup h]
  simp only [hnode]

theorem follow_seen {target : String} (hnode : t.node? (l ++ [name]) = some (.link target))
    (hseen : rest = [] ∧ use = .inspect) :
    t.follow use n (.inside l) (name :: rest) = .ok (.found (l ++ [name]) (.link target)) := by
  rw [follow.eq_1, pass_lookup h]
  simp only [hnode, hseen.1, hseen.2]
  rfl

theorem follow_link {target : String} (hnode : t.node? (l ++ [name]) = some (.link target))
    (hseen : ¬ (rest = [] ∧ use = .inspect)) :
    t.follow use n (.inside l) (name :: rest) =
      match n with
      | 0 => .error .tooManyLinks
      | n + 1 =>
        if target = "" then .error .notFound
        else t.follow use n (origin (.inside l) target) (Path.names target ++ rest) := by
  rw [follow.eq_1, pass_lookup h]
  have hif : (rest.isEmpty && decide (use = .inspect)) = false := by
    simpa using hseen
  simp only [hnode, hif, String.isEmpty_iff]
  rfl

theorem follow_above : t.follow use n .above (name :: rest) = .error .notFound := by
  rw [follow.eq_1, pass_lookup h]

theorem follow_top :
    t.follow use n .top (name :: rest) =
      if standardDirectories.contains name then t.follow use n (.standard name) rest
      else .error .notFound := by
  by_cases hname : standardDirectories.contains name = true
  · rw [if_pos hname]
    apply follow_congr
    rw [pass_lookup h]
    exact if_pos hname
  · rw [follow.eq_1, pass_lookup h]
    simp only [hname]
    rfl

theorem follow_standard {directory : String} :
    t.follow use n (.standard directory) (name :: rest) =
      if directory = "dev" ∧ name = "null" then
        if rest = [] then .ok .null else .error .notDirectory
      else .error .notFound := by
  rw [follow.eq_1, pass_lookup h]
  by_cases hnull : directory = "dev" ∧ name = "null"
  · simp only [hnull, and_self, if_true]
    cases rest <;> rfl
  · simp only [if_neg hnull]

end Lookup

/-- A name that is passed is a step in place, a step up, or looked up. -/
theorem isLookup_of_follow (hskip : ¬ (name = "" ∨ name = ".")) (hup : name ≠ "..")
    (h : t.follow use n here (name :: rest) = .ok p) : IsLookup use name rest := by
  have hpass : ∀ e, t.pass use here (name :: rest) ≠ .error e := by
    intro e he
    rw [follow.eq_1, he] at h
    cases h
  rw [pass.eq_def] at hpass
  simp only [if_neg hskip, if_neg hup] at hpass
  refine ⟨hskip, hup, fun hslash => ?_, ?_⟩
  · exact hpass _ (if_pos hslash)
  · refine Bool.eq_false_iff.mpr fun hlong => hpass .nameTooLong ?_
    have hne : ¬ (use = .write ∧ rest = [""]) := fun hslash => hpass _ (if_pos hslash)
    rw [if_neg hne, if_pos hlong]

theorem Leads.follow_eq (h : t.Leads use n here names p) : t.follow use n here names = .ok p := by
  induction h with
  | nil => exact follow_nil
  | skip hskip _ ih => rw [follow_skip hskip, ih]
  | up _ ih => rw [follow_up, ih]
  | vacant hname hnode => rw [follow_vacant hname hnode, if_pos rfl]
  | file hname hnode => rw [follow_file hname hnode, if_pos rfl]
  | seen hname hnode huse => exact follow_seen hname hnode ⟨rfl, huse⟩
  | enter hname hnode _ ih => rw [follow_enter hname hnode, ih]
  | link hname hnode hseen htarget _ ih =>
    rw [follow_link hname hnode hseen]
    simp only [if_neg htarget, ih]
  | standard hname hstd _ ih => rw [follow_top hname, if_pos hstd, ih]
  | null hname => rw [follow_standard hname, if_pos ⟨rfl, rfl⟩, if_pos rfl]

/-- The names that a directory of the tree is asked for. -/
theorem leads_inside_of_follow (hname : IsLookup use name rest)
    (henter : ∀ q, t.follow use n (.inside (l ++ [name])) rest = .ok q →
      t.Leads use n (.inside (l ++ [name])) rest q)
    (hlink : ∀ m target q, m < n →
      t.follow use m (origin (.inside l) target) (Path.names target ++ rest) = .ok q →
      t.Leads use m (origin (.inside l) target) (Path.names target ++ rest) q)
    (h : t.follow use n (.inside l) (name :: rest) = .ok p) :
    t.Leads use n (.inside l) (name :: rest) p := by
  cases hnode : t.node? (l ++ [name]) with
  | none =>
    rw [follow_vacant hname hnode] at h
    split at h
    · next hrest =>
      subst hrest
      cases h
      exact .vacant hname hnode
    · cases h
  | some node =>
    cases node with
    | file content mode =>
      rw [follow_file hname hnode] at h
      split at h
      · next hrest =>
        subst hrest
        cases h
        exact .file hname hnode
      · cases h
    | directory mode =>
      rw [follow_enter hname hnode] at h
      exact .enter hname hnode (henter p h)
    | link target =>
      by_cases hseen : rest = [] ∧ use = .inspect
      · rw [follow_seen hname hnode hseen] at h
        obtain ⟨rfl, huse⟩ := hseen
        cases h
        exact .seen hname hnode huse
      · rw [follow_link hname hnode hseen] at h
        cases n with
        | zero => cases h
        | succ m =>
          dsimp only at h
          split at h
          · cases h
          · next htarget =>
            exact .link hname hnode hseen htarget (hlink m target p (Nat.lt_succ_self m) h)

/-- `Tree.follow` finds the places that names lead to. -/
theorem follow_eq_ok_iff : t.follow use n here names = .ok p ↔ t.Leads use n here names p := by
  refine ⟨fun h => ?_, Leads.follow_eq⟩
  -- links first, since the target of a link comes in front of the names that are left
  induction n using Nat.strongRecOn generalizing here names p with
  | ind n ihn =>
    induction names generalizing here p with
    | nil =>
      rw [follow_nil] at h
      cases h
      exact .nil
    | cons name rest ih =>
      by_cases hskip : name = "" ∨ name = "."
      · rw [follow_skip hskip] at h
        exact .skip hskip (ih h)
      · by_cases hup : name = ".."
        · subst hup
          rw [follow_up] at h
          exact .up (ih h)
        · have hname := isLookup_of_follow hskip hup h
          cases here with
          | inside l =>
            exact leads_inside_of_follow hname (fun _ hq => ih hq)
              (fun m _ _ hm hq => ihn m hm hq) h
          | above =>
            rw [follow_above hname] at h
            cases h
          | top =>
            rw [follow_top hname] at h
            split at h
            · next hstd => exact .standard hname hstd (ih h)
            · cases h
          | standard directory =>
            rw [follow_standard hname] at h
            split at h
            · next hnull =>
              obtain ⟨rfl, rfl⟩ := hnull
              split at h
              · next hrest =>
                subst hrest
                cases h
                exact .null hname
              · cases h
            · cases h

/-! ## Following on -/

/-- More links than are needed may be followed. -/
theorem Leads.mono {m : Nat} (h : t.Leads use n here names p) (hnm : n ≤ m) :
    t.Leads use m here names p := by
  induction h generalizing m with
  | nil => exact .nil
  | skip hskip _ ih => exact .skip hskip (ih hnm)
  | up _ ih => exact .up (ih hnm)
  | vacant hname hnode => exact .vacant hname hnode
  | file hname hnode => exact .file hname hnode
  | seen hname hnode huse => exact .seen hname hnode huse
  | enter hname hnode _ ih => exact .enter hname hnode (ih hnm)
  | link hname hnode hseen htarget _ ih =>
    obtain ⟨m, rfl⟩ : ∃ k, m = k + 1 := ⟨m - 1, by omega⟩
    exact .link hname hnode hseen htarget (ih (by omega))
  | standard hname hstd _ ih => exact .standard hname hstd (ih hnm)
  | null hname => exact .null hname

/-- Names lead to one place. -/
theorem Leads.unique {m : Nat} (hp : t.Leads use n here names p)
    (hq : t.Leads use m here names q) : p = q := by
  have hp' := (hp.mono (Nat.le_max_left n m)).follow_eq
  have hq' := (hq.mono (Nat.le_max_right n m)).follow_eq
  exact Except.ok.inj (hp'.symm.trans hq')

/-- A directory that a path can really stand in: it and those above it are directories. -/
def Sound (t : Tree) : Directory → Prop
  | .inside l => ∀ k, k <+: l → ∃ mode, t.node? k = some (.directory mode)
  | _ => True

theorem sound_root : t.Sound (.inside []) := by
  intro k hk
  rw [List.prefix_nil] at hk
  subst hk
  exact ⟨t.rootMode, rfl⟩

theorem Sound.parent (h : t.Sound here) : t.Sound here.parent := by
  cases here with
  | inside l =>
    rw [Directory.parent]
    split
    · trivial
    · exact fun k hk => h k (hk.trans (List.dropLast_prefix l))
  | above => trivial
  | top => trivial
  | standard name => trivial

theorem Sound.enter (h : t.Sound (.inside l)) {mode : Nat}
    (hnode : t.node? (l ++ [name]) = some (.directory mode)) :
    t.Sound (.inside (l ++ [name])) := by
  intro k hk
  obtain hk | hk := List.prefix_concat_iff.mp hk
  · exact ⟨mode, hk ▸ hnode⟩
  · exact h k hk

theorem Sound.origin (h : t.Sound here) (path : String) : t.Sound (origin here path) := by
  rw [Tree.origin]
  split
  · trivial
  · exact h

theorem Sound.place (h : t.Sound here) :
    t.place here = .outside ∨ ∃ l mode, here = .inside l ∧
      t.place here = .found l (.directory mode) := by
  cases here with
  | inside l =>
    obtain ⟨mode, hmode⟩ := h l List.prefix_rfl
    exact .inr ⟨l, mode, rfl, by rw [Tree.place, hmode]⟩
  | above => exact .inl rfl
  | top => exact .inl rfl
  | standard name => exact .inl rfl

/-! ## First some names, then the others -/

theorem IsLookup.read (h : IsLookup use name rest) (rest' : List String) :
    IsLookup .read name rest' :=
  ⟨h.ne_skip, h.ne_up, fun hslash => by simp at hslash, h.short⟩

theorem place_eq_directory {d : Location} {mode : Nat}
    (h : t.place here = .found d (.directory mode)) :
    here = .inside d ∧ t.node? d = some (.directory mode) := by
  cases here with
  | inside l =>
    rw [place] at h
    split at h
    · next node hnode =>
      obtain ⟨rfl, rfl⟩ : l = d ∧ node = .directory mode := by simpa using h
      exact ⟨rfl, hnode⟩
    · cases h
  | above => cases h
  | top => cases h
  | standard directory => cases h

/-- Names that lead to a directory can be followed by others. -/
theorem Leads.append {first : List String} {d : Location} {mode : Nat}
    (h : t.Leads .read n here first (.found d (.directory mode))) :
    ∃ j, j ≤ n ∧ ∀ last q, t.Leads .read j (.inside d) last q →
      t.Leads .read n here (first ++ last) q := by
  generalize hp : Place.found d (.directory mode) = p at h
  induction h with
  | @nil n here =>
    obtain ⟨rfl, -⟩ := place_eq_directory hp.symm
    exact ⟨n, Nat.le_refl n, fun last q hq => hq⟩
  | skip hskip _ ih =>
    obtain ⟨j, hj, happ⟩ := ih hp
    exact ⟨j, hj, fun last q hq => .skip hskip (happ last q hq)⟩
  | up _ ih =>
    obtain ⟨j, hj, happ⟩ := ih hp
    exact ⟨j, hj, fun last q hq => .up (happ last q hq)⟩
  | vacant _ _ => cases hp
  | file _ _ => simp at hp
  | seen _ _ huse => cases huse
  | enter hname hnode _ ih =>
    obtain ⟨j, hj, happ⟩ := ih hp
    exact ⟨j, hj, fun last q hq => .enter (hname.read _) hnode (happ last q hq)⟩
  | @link n l name target rest p hname hnode hseen htarget _ ih =>
    obtain ⟨j, hj, happ⟩ := ih hp
    refine ⟨j, by omega, fun last q hq => .link (hname.read _) hnode (by simp) htarget ?_⟩
    have hend := happ last q hq
    rwa [List.append_assoc] at hend
  | standard hname hstd _ ih =>
    obtain ⟨j, hj, happ⟩ := ih hp
    exact ⟨j, hj, fun last q hq => .standard (hname.read _) hstd (happ last q hq)⟩
  | null _ => cases hp

theorem eq_singleton_of_append {first last : List String} (hlast : last ≠ [])
    (h : first ++ last = [name]) : first = [] ∧ last = [name] := by
  obtain ⟨rfl, hname⟩ | ⟨-, hnil⟩ := List.append_eq_singleton_iff.mp h
  · exact ⟨rfl, hname⟩
  · exact absurd hnil hlast

/-- Names that others follow lead to a directory. -/
theorem Leads.split {first last : List String} (hs : t.Sound here)
    (h : t.Leads .read n here (first ++ last) p) (hlast : last ≠ []) :
    ∃ d j, t.Sound d ∧ t.Leads .read n here first (t.place d) ∧ t.Leads .read j d last p := by
  generalize hnames : first ++ last = names at h
  induction h generalizing first with
  | nil => exact absurd (List.append_eq_nil_iff.mp hnames).2 hlast
  | @skip n here name rest p hskip hrest ih =>
    cases first with
    | nil =>
      obtain rfl : last = _ := hnames
      exact ⟨here, n, hs, .nil, .skip hskip hrest⟩
    | cons head tail =>
      obtain ⟨rfl, rfl⟩ := List.cons.inj hnames
      obtain ⟨d, j, hd, hfirst, hend⟩ := ih hs rfl
      exact ⟨d, j, hd, .skip hskip hfirst, hend⟩
  | @up n here rest p hrest ih =>
    cases first with
    | nil =>
      obtain rfl : last = _ := hnames
      exact ⟨here, n, hs, .nil, .up hrest⟩
    | cons head tail =>
      obtain ⟨rfl, rfl⟩ := List.cons.inj hnames
      obtain ⟨d, j, hd, hfirst, hend⟩ := ih hs.parent rfl
      exact ⟨d, j, hd, .up hfirst, hend⟩
  | @vacant n l name hname hnode =>
    obtain ⟨rfl, rfl⟩ := eq_singleton_of_append hlast hnames
    exact ⟨.inside l, n, hs, .nil, .vacant hname hnode⟩
  | @file n l name content mode hname hnode =>
    obtain ⟨rfl, rfl⟩ := eq_singleton_of_append hlast hnames
    exact ⟨.inside l, n, hs, .nil, .file hname hnode⟩
  | seen _ _ huse => cases huse
  | @enter n l name rest p mode hname hnode hrest ih =>
    cases first with
    | nil =>
      obtain rfl : last = _ := hnames
      exact ⟨.inside l, n, hs, .nil, .enter hname hnode hrest⟩
    | cons head tail =>
      obtain ⟨rfl, rfl⟩ := List.cons.inj hnames
      obtain ⟨d, j, hd, hfirst, hend⟩ := ih (hs.enter hnode) rfl
      exact ⟨d, j, hd, .enter (hname.read _) hnode hfirst, hend⟩
  | @link n l name target rest p hname hnode hseen htarget hrest ih =>
    cases first with
    | nil =>
      obtain rfl : last = _ := hnames
      exact ⟨.inside l, n + 1, hs, .nil, .link hname hnode hseen htarget hrest⟩
    | cons head tail =>
      obtain ⟨rfl, rfl⟩ := List.cons.inj hnames
      obtain ⟨d, j, hd, hfirst, hend⟩ := ih (hs.origin target) (List.append_assoc ..)
      exact ⟨d, j, hd, .link (hname.read _) hnode (by simp) htarget hfirst, hend⟩
  | @standard n name rest p hname hstd hrest ih =>
    cases first with
    | nil =>
      obtain rfl : last = _ := hnames
      exact ⟨.top, n, hs, .nil, .standard hname hstd hrest⟩
    | cons head tail =>
      obtain ⟨rfl, rfl⟩ := List.cons.inj hnames
      obtain ⟨d, j, hd, hfirst, hend⟩ := ih trivial rfl
      exact ⟨d, j, hd, .standard (hname.read _) hstd hfirst, hend⟩
  | @null n hname =>
    obtain ⟨rfl, rfl⟩ := eq_singleton_of_append hlast hnames
    exact ⟨.standard "dev", n, hs, .nil, .null hname⟩

end Tree
end ThemeRepair
