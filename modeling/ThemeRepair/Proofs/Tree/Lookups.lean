import ThemeRepair.Proofs.Tree.Following

/-!
# What the way along a path depends on

`LooksUp k` holds of a way that comes to the location `k` and looks up what stands there.  Only
the directories and links of a tree are followed, so two trees that have the same ones look up
the same locations and lead to the same directories (`LooksUp.transfer`, `Leads.transfer`).

A file that is put at a location ends every way that comes there, and no other way is changed
(`Leads.put`).
-/

namespace ThemeRepair
namespace Tree

/-- Names are followed from a directory, and what stands at the location `k` is looked up. -/
inductive LooksUp (t : Tree) (k : Location) : Directory → List String → Prop
  | here {l : Location} {name : String} {rest : List String} :
      IsLookup .read name rest → l ++ [name] = k → LooksUp t k (.inside l) (name :: rest)
  | skip {here : Directory} {name : String} {rest : List String} :
      name = "" ∨ name = "." → LooksUp t k here rest → LooksUp t k here (name :: rest)
  | up {here : Directory} {rest : List String} :
      LooksUp t k here.parent rest → LooksUp t k here (".." :: rest)
  | enter {l : Location} {name : String} {rest : List String} {mode : Nat} :
      IsLookup .read name rest → t.node? (l ++ [name]) = some (.directory mode) →
      LooksUp t k (.inside (l ++ [name])) rest → LooksUp t k (.inside l) (name :: rest)
  | link {l : Location} {name target : String} {rest : List String} :
      IsLookup .read name rest → t.node? (l ++ [name]) = some (.link target) → target ≠ "" →
      LooksUp t k (origin (.inside l) target) (Path.names target ++ rest) →
      LooksUp t k (.inside l) (name :: rest)
  | standard {name : String} {rest : List String} :
      IsLookup .read name rest → standardDirectories.contains name = true →
      LooksUp t k (.standard name) rest → LooksUp t k .top (name :: rest)

variable {s t : Tree} {use : Use} {n : Nat} {here : Directory} {k l : Location} {name : String}
  {rest names : List String} {p : Place}

/-! ## One name further -/

theorem looksUp_skip_iff (hskip : name = "" ∨ name = ".") :
    t.LooksUp k here (name :: rest) ↔ t.LooksUp k here rest := by
  refine ⟨fun h => ?_, .skip hskip⟩
  cases h with
  | here hname _ => exact absurd hskip hname.ne_skip
  | skip _ hrest => exact hrest
  | up _ => simp at hskip
  | enter hname _ _ => exact absurd hskip hname.ne_skip
  | link hname _ _ _ => exact absurd hskip hname.ne_skip
  | standard hname _ _ => exact absurd hskip hname.ne_skip

theorem looksUp_up_iff : t.LooksUp k here (".." :: rest) ↔ t.LooksUp k here.parent rest := by
  refine ⟨fun h => ?_, .up⟩
  cases h with
  | here hname _ => exact absurd rfl hname.ne_up
  | skip hskip _ => simp at hskip
  | up hrest => exact hrest
  | enter hname _ _ => exact absurd rfl hname.ne_up
  | link hname _ _ _ => exact absurd rfl hname.ne_up
  | standard hname _ _ => exact absurd rfl hname.ne_up

theorem looksUp_lookup_iff (hname : IsLookup .read name rest) :
    t.LooksUp k (.inside l) (name :: rest) ↔
      l ++ [name] = k ∨
      (∃ mode, t.node? (l ++ [name]) = some (.directory mode) ∧
        t.LooksUp k (.inside (l ++ [name])) rest) ∨
      (∃ target, t.node? (l ++ [name]) = some (.link target) ∧ target ≠ "" ∧
        t.LooksUp k (origin (.inside l) target) (Path.names target ++ rest)) := by
  constructor
  · intro h
    cases h with
    | here _ hk => exact .inl hk
    | skip hskip _ => exact absurd hskip hname.ne_skip
    | up _ => exact absurd rfl hname.ne_up
    | enter _ hnode hrest => exact .inr (.inl ⟨_, hnode, hrest⟩)
    | link _ hnode htarget hrest => exact .inr (.inr ⟨_, hnode, htarget, hrest⟩)
  · rintro (hk | ⟨mode, hnode, hrest⟩ | ⟨target, hnode, htarget, hrest⟩)
    · exact .here hname hk
    · exact .enter hname hnode hrest
    · exact .link hname hnode htarget hrest

theorem looksUp_top_iff (hname : IsLookup .read name rest)
    (hstd : standardDirectories.contains name = true) :
    t.LooksUp k .top (name :: rest) ↔ t.LooksUp k (.standard name) rest := by
  refine ⟨fun h => ?_, .standard hname hstd⟩
  cases h with
  | skip hskip _ => exact absurd hskip hname.ne_skip
  | up _ => exact absurd rfl hname.ne_up
  | standard _ _ hrest => exact hrest

theorem not_looksUp_standard {directory : String} (hname : IsLookup .read name rest) :
    ¬ t.LooksUp k (.standard directory) (name :: rest) := by
  intro h
  cases h with
  | skip hskip _ => exact hname.ne_skip hskip
  | up _ => exact hname.ne_up rfl

theorem not_looksUp_nil : ¬ t.LooksUp k here [] := by
  intro h
  cases h

/-! ## Trees with the same directories and links -/

/-- What stands in one tree and is no file stands in the other, too. -/
def Covers (s t : Tree) : Prop :=
  ∀ l node, (∀ content mode, node ≠ .file content mode) → t.node? l = some node →
    s.node? l = some node

theorem Covers.directory {mode : Nat} (h : Covers s t)
    (hnode : t.node? l = some (.directory mode)) :
    s.node? l = some (.directory mode) :=
  h l _ (fun _ _ => Node.noConfusion) hnode

theorem Covers.link {target : String} (h : Covers s t) (hnode : t.node? l = some (.link target)) :
    s.node? l = some (.link target) :=
  h l _ (fun _ _ => Node.noConfusion) hnode

theorem put_covers (h : t.IsFree l) (content : ByteArray) (mode : Nat) :
    Covers (t.put l (.file content mode)) t :=
  fun _ _ hn hnode => (node?_put_iff_of_isFree h hn).mpr hnode

theorem covers_put (h : t.IsFree l) (content : ByteArray) (mode : Nat) :
    Covers t (t.put l (.file content mode)) :=
  fun _ _ hn hnode => (node?_put_iff_of_isFree h hn).mp hnode

theorem LooksUp.transfer (hst : Covers s t) (h : t.LooksUp k here names) :
    s.LooksUp k here names := by
  induction h with
  | here hname hk => exact .here hname hk
  | skip hskip _ ih => exact .skip hskip ih
  | up _ ih => exact .up ih
  | enter hname hnode _ ih => exact .enter hname (hst.directory hnode) ih
  | link hname hnode htarget _ ih => exact .link hname (hst.link hnode) htarget ih
  | standard hname hstd _ ih => exact .standard hname hstd ih

theorem Leads.transfer {d : Location} {mode : Nat} (hst : Covers s t)
    (h : t.Leads use n here names (.found d (.directory mode))) :
    s.Leads use n here names (.found d (.directory mode)) := by
  generalize hp : Place.found d (.directory mode) = p at h
  induction h with
  | @nil n here =>
    obtain ⟨rfl, hnode⟩ := place_eq_directory hp.symm
    have hplace : s.place (.inside d) = .found d (.directory mode) := by
      rw [place, hst.directory hnode]
    exact hp ▸ hplace ▸ .nil
  | skip hskip _ ih => exact .skip hskip (ih hp)
  | up _ ih => exact .up (ih hp)
  | vacant _ _ => cases hp
  | file _ _ => simp at hp
  | seen hname hnode huse => simp at hp
  | enter hname hnode _ ih => exact .enter hname (hst.directory hnode) (ih hp)
  | link hname hnode hseen htarget _ ih =>
    exact .link hname (hst.link hnode) hseen htarget (ih hp)
  | standard hname hstd _ ih => exact .standard hname hstd (ih hp)
  | null _ => cases hp

theorem Leads.transfer_outside (hst : Covers s t) (hs : t.Sound here)
    (h : t.Leads use n here names .outside) : s.Leads use n here names .outside := by
  generalize hp : Place.outside = p at h
  induction h with
  | @nil n here =>
    cases here with
    | inside l =>
      obtain ⟨mode, hnode⟩ := hs l List.prefix_rfl
      rw [place, hnode] at hp
      cases hp
    | above => exact .nil
    | top => exact .nil
    | standard directory => exact .nil
  | skip hskip _ ih => exact .skip hskip (ih hs hp)
  | up _ ih => exact .up (ih hs.parent hp)
  | vacant _ _ => cases hp
  | file _ _ => cases hp
  | seen _ _ _ => cases hp
  | enter hname hnode _ ih => exact .enter hname (hst.directory hnode) (ih (hs.enter hnode) hp)
  | @link _ _ _ target _ _ hname hnode hseen htarget _ ih =>
    exact .link hname (hst.link hnode) hseen htarget (ih (hs.origin target) hp)
  | standard hname hstd _ ih => exact .standard hname hstd (ih trivial hp)
  | null _ => cases hp

/-! ## A file on the way -/

section Put

variable {d : Location} (content : ByteArray) (mode : Nat)

theorem place_put (hs : t.Sound here) (hk : ∀ m, t.node? k ≠ some (.directory m)) :
    (t.put k (.file content mode)).place here = t.place here := by
  cases here with
  | inside l =>
    obtain ⟨m, hm⟩ := hs l List.prefix_rfl
    have hne : l ≠ k := by
      rintro rfl
      exact hk m hm
    rw [place, place, node?_put_of_ne hne]
  | above => rfl
  | top => rfl
  | standard directory => rfl

/-- A way in a tree where a file is put at the location `d ++ [name]`.  Either it does not come
there and is as before, or it comes there with some names left, and ends there if these are
none. -/
theorem Leads.put (hk : ∀ m, t.node? (d ++ [name]) ≠ some (.directory m)) (hs : t.Sound here)
    (h : t.Leads .read n here names p) :
    (¬ t.LooksUp (d ++ [name]) here names ∧
      (t.put (d ++ [name]) (.file content mode)).Leads .read n here names p) ∨
    (t.LooksUp (d ++ [name]) here names ∧
      ∃ rest, (∃ j, t.Leads .read j (.inside d) (name :: rest) p) ∧
        IsLookup .read name rest ∧
        (rest = [] → (t.put (d ++ [name]) (.file content mode)).Leads .read n here names
          (.found (d ++ [name]) (.file content mode)))) := by
  have hself : (t.put (d ++ [name]) (.file content mode)).node? (d ++ [name]) =
      some (.file content mode) := node?_put_self (by simp)
  have hother : ∀ l, l ≠ d ++ [name] →
      (t.put (d ++ [name]) (.file content mode)).node? l = t.node? l :=
    fun l hl => node?_put_of_ne hl
  -- a name that is looked up there ends the induction
  have hthere : ∀ {n l x rest p}, l ++ [x] = d ++ [name] → IsLookup .read x rest →
      t.Leads .read n (.inside l) (x :: rest) p →
      t.LooksUp (d ++ [name]) (.inside l) (x :: rest) ∧
        ∃ rest', (∃ j, t.Leads .read j (.inside d) (name :: rest') p) ∧
          IsLookup .read name rest' ∧
          (rest' = [] → (t.put (d ++ [name]) (.file content mode)).Leads .read n (.inside l)
            (x :: rest) (.found (d ++ [name]) (.file content mode))) := by
    intro n l x rest p hlx hx hrest
    obtain ⟨rfl, rfl⟩ : l = d ∧ x = name := by simpa using List.append_inj' hlx rfl
    refine ⟨.here hx rfl, rest, ⟨n, hrest⟩, hx, fun hnil => ?_⟩
    subst hnil
    exact .file hx hself
  induction h with
  | nil => exact .inl ⟨not_looksUp_nil, place_put content mode hs hk ▸ .nil⟩
  | skip hskip _ ih =>
    rw [looksUp_skip_iff hskip]
    obtain ⟨hnot, hrest⟩ | ⟨hlook, rest, hcome, hname, hend⟩ := ih hs
    · exact .inl ⟨hnot, .skip hskip hrest⟩
    · exact .inr ⟨hlook, rest, hcome, hname, fun hnil => .skip hskip (hend hnil)⟩
  | up _ ih =>
    rw [looksUp_up_iff]
    obtain ⟨hnot, hrest⟩ | ⟨hlook, rest, hcome, hname, hend⟩ := ih hs.parent
    · exact .inl ⟨hnot, .up hrest⟩
    · exact .inr ⟨hlook, rest, hcome, hname, fun hnil => .up (hend hnil)⟩
  | @vacant n l x hx hnode =>
    by_cases hlx : l ++ [x] = d ++ [name]
    · exact .inr (hthere hlx hx (.vacant hx hnode))
    · refine .inl ⟨?_, .vacant hx ((hother _ hlx).trans hnode)⟩
      rw [looksUp_lookup_iff hx]
      simp [hlx, hnode]
  | @file n l x c m hx hnode =>
    by_cases hlx : l ++ [x] = d ++ [name]
    · exact .inr (hthere hlx hx (.file hx hnode))
    · refine .inl ⟨?_, .file hx ((hother _ hlx).trans hnode)⟩
      rw [looksUp_lookup_iff hx]
      simp [hlx, hnode]
  | seen _ _ huse => cases huse
  | @enter n l x rest p m hx hnode _ ih =>
    have hlx : l ++ [x] ≠ d ++ [name] := fun heq => hk m (heq ▸ hnode)
    have hiff : t.LooksUp (d ++ [name]) (.inside l) (x :: rest) ↔
        t.LooksUp (d ++ [name]) (.inside (l ++ [x])) rest := by
      rw [looksUp_lookup_iff hx]
      simp [hlx, hnode]
    rw [hiff]
    obtain ⟨hnot, hrest⟩ | ⟨hlook, rest, hcome, hname, hend⟩ := ih (hs.enter hnode)
    · exact .inl ⟨hnot, .enter hx ((hother _ hlx).trans hnode) hrest⟩
    · exact .inr ⟨hlook, rest, hcome, hname,
        fun hnil => .enter hx ((hother _ hlx).trans hnode) (hend hnil)⟩
  | @link n l x target rest p hx hnode hseen htarget hrest ih =>
    by_cases hlx : l ++ [x] = d ++ [name]
    · exact .inr (hthere hlx hx (.link hx hnode hseen htarget hrest))
    · have hiff : t.LooksUp (d ++ [name]) (.inside l) (x :: rest) ↔
          t.LooksUp (d ++ [name]) (origin (.inside l) target) (Path.names target ++ rest) := by
        rw [looksUp_lookup_iff hx]
        simp [hlx, hnode, htarget]
      rw [hiff]
      obtain ⟨hnot, hrest⟩ | ⟨hlook, rest, hcome, hname, hend⟩ := ih (hs.origin target)
      · exact .inl ⟨hnot, .link hx ((hother _ hlx).trans hnode) hseen htarget hrest⟩
      · exact .inr ⟨hlook, rest, hcome, hname,
          fun hnil => .link hx ((hother _ hlx).trans hnode) hseen htarget (hend hnil)⟩
  | standard hx hstd _ ih =>
    rw [looksUp_top_iff hx hstd]
    obtain ⟨hnot, hrest⟩ | ⟨hlook, rest, hcome, hname, hend⟩ := ih trivial
    · exact .inl ⟨hnot, .standard hx hstd hrest⟩
    · exact .inr ⟨hlook, rest, hcome, hname, fun hnil => .standard hx hstd (hend hnil)⟩
  | null hx => exact .inl ⟨not_looksUp_standard hx, .null hx⟩

end Put

end Tree
end ThemeRepair
