import Mathlib.Data.List.Basic
import Mathlib.Data.List.Infix
import Mathlib.Data.List.Nodup
import Mathlib.Data.List.Perm.Subperm
import ThemeRepair.Proofs.Tree.Nodes
import ThemeRepair.Proofs.Tree.Path

/-!
# Proper trees

A tree is `Proper` if its entries are those of a file system: no location twice, the names such
as directories have, and everything in a directory that is there.  Then what stands at a location
and what the directory of it lists are the same (`Proper.mem_children_iff`), and nothing lies
deeper than there are entries (`Proper.length_le`).

A file that is put in a directory leaves the tree proper (`Proper.put`), and so does listing the
entries in another order (`Relists.proper`).
-/

namespace ThemeRepair
namespace Tree

variable {t : Tree} {l init k : Location} {n : Node} {name : String}

/-- The entries of a tree are those of a file system. -/
structure Proper (t : Tree) : Prop where
  nodup : (t.entries.map Prod.fst).Nodup
  inside : ∀ e ∈ t.entries, ∃ init name, e.1 = init ++ [name] ∧ Path.IsName name ∧
    ∃ mode, t.node? init = some (.directory mode)

theorem find?_eq_some_iff_of_nodup {es : List (Location × Node)} (h : (es.map Prod.fst).Nodup) :
    (es.find? fun e => e.1 == l).map Prod.snd = some n ↔ (l, n) ∈ es := by
  induction es with
  | nil => simp
  | cons e es ih =>
    rw [List.map_cons, List.nodup_cons] at h
    by_cases hel : e.1 = l
    · rw [List.find?_cons_of_pos (by simpa using hel), Option.map_some, Option.some.injEq,
        List.mem_cons]
      constructor
      · rintro rfl
        exact .inl (Prod.ext hel.symm rfl)
      · rintro (heq | hmem)
        · rw [← heq]
        · exact absurd (List.mem_map.mpr ⟨_, hmem, rfl⟩) (hel ▸ h.1)
    · rw [List.find?_cons_of_neg (by simpa using hel), ih h.2, List.mem_cons]
      refine ⟨.inr, fun hmem => hmem.resolve_left fun heq => hel ?_⟩
      rw [← heq]

/-- What a directory lists for an entry: the name of it, if the entry is in the directory. -/
def childOf? (l : Location) (e : Location × Node) : Option (String × Node) :=
  match e.1.getLast? with
  | some name => if e.1.dropLast = l then some (name, e.2) else none
  | none => none

theorem children_eq (t : Tree) (l : Location) : t.children l = t.entries.filterMap (childOf? l) :=
  rfl

theorem childOf?_eq_some_iff {e : Location × Node} :
    childOf? l e = some (name, n) ↔ e = (l ++ [name], n) := by
  constructor
  · intro h
    unfold childOf? at h
    split at h
    · next last hlast =>
      split at h
      · next hinit =>
        obtain ⟨rfl, rfl⟩ := Prod.mk.inj (Option.some.inj h)
        obtain ⟨front, hfront⟩ := List.getLast?_eq_some_iff.mp hlast
        rw [hfront, List.dropLast_concat] at hinit
        rw [← hinit, ← hfront]
      · cases h
    · cases h
  · rintro rfl
    simp [childOf?]

theorem mem_children_iff_mem_entries :
    (name, n) ∈ t.children l ↔ (l ++ [name], n) ∈ t.entries := by
  simp only [children_eq, List.mem_filterMap, childOf?_eq_some_iff, exists_eq_right]

/-- No name is listed twice. -/
theorem nodup_children (h : (t.entries.map Prod.fst).Nodup) (l : Location) :
    (t.children l).Pairwise fun a b => a.1 ≠ b.1 := by
  have hpair : t.entries.Pairwise fun a b => a.1 ≠ b.1 := List.pairwise_map.mp h
  rw [children_eq, List.pairwise_filterMap]
  refine hpair.imp fun {a b} hne x hx y hy hxy => hne ?_
  rw [childOf?_eq_some_iff.mp hx, childOf?_eq_some_iff.mp hy, hxy]

namespace Proper

variable (h : t.Proper)
include h

theorem node?_eq_some_iff (hl : l ≠ []) : t.node? l = some n ↔ (l, n) ∈ t.entries := by
  rw [node?_of_ne_nil hl]
  exact find?_eq_some_iff_of_nodup h.nodup

/-- A directory lists what stands in it. -/
theorem mem_children_iff : (name, n) ∈ t.children l ↔ t.node? (l ++ [name]) = some n := by
  rw [mem_children_iff_mem_entries, h.node?_eq_some_iff (by simp)]

theorem of_node? (hnode : t.node? (init ++ [name]) = some n) :
    Path.IsName name ∧ ∃ mode, t.node? init = some (.directory mode) := by
  rw [h.node?_eq_some_iff (by simp)] at hnode
  obtain ⟨init', name', heq, hname, hdir⟩ := h.inside _ hnode
  obtain ⟨rfl, rfl⟩ : init = init' ∧ name = name' := by
    simpa using List.append_inj' heq rfl
  exact ⟨hname, hdir⟩

/-- Everything above something is a directory. -/
theorem directory_above (hnode : t.node? (l ++ k) = some n) (hk : k ≠ []) :
    ∃ mode, t.node? l = some (.directory mode) := by
  induction k using List.reverseRecOn generalizing n with
  | nil => exact absurd rfl hk
  | append_singleton front last ih =>
    rw [← List.append_assoc] at hnode
    obtain ⟨-, mode, hdir⟩ := h.of_node? hnode
    by_cases hfront : front = []
    · subst hfront
      rw [List.append_nil] at hdir
      exact ⟨mode, hdir⟩
    · exact ih hdir hfront

/-- Where something stands, the names are such as directories have. -/
theorem isName_of_node? (hnode : t.node? (l ++ k) = some n) : ∀ x ∈ k, Path.IsName x := by
  induction k using List.reverseRecOn generalizing n with
  | nil => simp
  | append_singleton front last ih =>
    rw [← List.append_assoc] at hnode
    obtain ⟨hname, mode, hdir⟩ := h.of_node? hnode
    intro x hx
    obtain hx | hx := List.mem_append.mp hx
    · exact ih hdir x hx
    · exact List.mem_singleton.mp hx ▸ hname

/-- Nothing lies deeper than there are entries: every step of the way to it is one. -/
theorem length_le (hnode : t.node? l = some n) : l.length ≤ t.entries.length := by
  have hnodup : ((List.range l.length).map fun i => l.take (i + 1)).Nodup := by
    refine List.Nodup.map_on (fun i hi j hj hij => ?_) List.nodup_range
    have hlen := congrArg List.length hij
    rw [List.mem_range] at hi hj
    simp only [List.length_take] at hlen
    omega
  have hsub : ((List.range l.length).map fun i => l.take (i + 1)) ⊆ t.entries.map Prod.fst := by
    intro k hk
    obtain ⟨i, hi, rfl⟩ := List.mem_map.mp hk
    have hlt : i < l.length := List.mem_range.mp hi
    have hne : l.take (i + 1) ≠ [] := by
      rw [ne_eq, List.take_eq_nil_iff]
      rintro (hzero | hnil)
      · omega
      · rw [hnil] at hlt
        exact absurd hlt (Nat.not_lt_zero i)
    have hsome : ∃ m, t.node? (l.take (i + 1)) = some m := by
      by_cases hdrop : l.drop (i + 1) = []
      · have hwhole : l.take (i + 1) = l := by
          have happ := List.take_append_drop (i + 1) l
          rwa [hdrop, List.append_nil] at happ
        rw [hwhole]
        exact ⟨n, hnode⟩
      · rw [← List.take_append_drop (i + 1) l] at hnode
        obtain ⟨mode, hdir⟩ := h.directory_above hnode hdrop
        exact ⟨_, hdir⟩
    obtain ⟨m, hm⟩ := hsome
    exact List.mem_map.mpr ⟨_, (h.node?_eq_some_iff hne).mp hm, rfl⟩
  simpa using (List.subperm_of_subset hnodup hsub).length_le

end Proper

/-! ## Putting a file -/

theorem mem_putEntry {e : Location × Node} {es : List (Location × Node)}
    (h : e ∈ putEntry l n es) : e = (l, n) ∨ e ∈ es := by
  induction es with
  | nil => exact .inl (List.mem_singleton.mp h)
  | cons e' es ih =>
    rw [putEntry] at h
    split at h
    · exact (List.mem_cons.mp h).imp_right (List.mem_cons_of_mem e')
    · obtain rfl | hmem := List.mem_cons.mp h
      · exact .inr List.mem_cons_self
      · exact (ih hmem).imp_right (List.mem_cons_of_mem e')

theorem nodup_putEntry {es : List (Location × Node)} (h : (es.map Prod.fst).Nodup) :
    ((putEntry l n es).map Prod.fst).Nodup := by
  induction es with
  | nil => exact List.nodup_singleton l
  | cons e es ih =>
    rw [List.map_cons, List.nodup_cons] at h
    rw [putEntry]
    split
    · next heq =>
      rw [List.map_cons, List.nodup_cons, ← heq]
      exact h
    · next hne =>
      rw [List.map_cons, List.nodup_cons]
      refine ⟨fun hmem => ?_, ih h.2⟩
      obtain ⟨e', he', hfst⟩ := List.mem_map.mp hmem
      obtain rfl | he' := mem_putEntry he'
      · exact hne hfst.symm
      · exact h.1 (List.mem_map.mpr ⟨e', he', hfst⟩)

/-- A file that is put in a directory leaves a proper tree. -/
theorem Proper.put (h : t.Proper) (hfree : t.IsFree (init ++ [name])) (hname : Path.IsName name)
    (hdir : ∃ mode, t.node? init = some (.directory mode)) (content : ByteArray) (mode : Nat) :
    (t.put (init ++ [name]) (.file content mode)).Proper := by
  have hkept : ∀ {k m}, t.node? k = some (.directory m) →
      (t.put (init ++ [name]) (.file content mode)).node? k = some (.directory m) :=
    fun hk => (node?_put_iff_of_isFree hfree fun _ _ => Node.noConfusion).mpr hk
  refine ⟨nodup_putEntry h.nodup, fun e he => ?_⟩
  obtain rfl | he := mem_putEntry he
  · obtain ⟨m, hm⟩ := hdir
    exact ⟨init, name, rfl, hname, m, hkept hm⟩
  · obtain ⟨init', name', heq, hname', m, hm⟩ := h.inside e he
    exact ⟨init', name', heq, hname', m, hkept hm⟩

/-! ## The order of listing -/

/-- The trees have the same entries, and may list them in different orders. -/
structure Relists (s t : Tree) : Prop where
  rootMode : s.rootMode = t.rootMode
  entries : s.entries.Perm t.entries

namespace Relists

variable {s : Tree} (h : s.Relists t) (ht : t.Proper)
include h ht

theorem node? (l : Location) : s.node? l = t.node? l := by
  by_cases hl : l = []
  · subst hl
    rw [node?_nil, node?_nil, h.rootMode]
  · have hs : (s.entries.map Prod.fst).Nodup := (h.entries.map _).nodup_iff.mpr ht.nodup
    refine Option.ext fun n => ?_
    rw [ht.node?_eq_some_iff hl, node?_of_ne_nil hl, find?_eq_some_iff_of_nodup hs,
      h.entries.mem_iff]

theorem proper : s.Proper := by
  refine ⟨(h.entries.map _).nodup_iff.mpr ht.nodup, fun e he => ?_⟩
  obtain ⟨init, name, heq, hname, mode, hdir⟩ := ht.inside e (h.entries.mem_iff.mp he)
  exact ⟨init, name, heq, hname, mode, (h.node? ht init).trans hdir⟩

end Relists
end Tree
end ThemeRepair
