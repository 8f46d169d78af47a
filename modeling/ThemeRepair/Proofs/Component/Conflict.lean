import ThemeRepair.Component.Scan
import ThemeRepair.Proofs.Declaration.Block

/-!
# The declarations in conflict

`Component.firstTaken` picks, of declarations in the order of the text, the first one of each name
that is taken.  Their names are the taken ones among all names, each once
(`Component.mem_names_firstTaken`, `Component.nodup_names_firstTaken`), and each of them is the
block that `Declaration.eraseBlock` takes away for its name
(`Component.exists_first_of_mem_firstTaken`).
-/

namespace ThemeRepair
namespace Component

open Line (declaresAt nested)

theorem mem_names_firstTaken {taken : List Text} {name : Text} (seen : List Text)
    (ds : List Declaration) :
    name ∈ (firstTaken taken seen ds).map Declaration.name ↔
      name ∈ taken ∧ name ∉ seen ∧ name ∈ ds.map Declaration.name := by
  induction ds generalizing seen with
  | nil => simp [firstTaken]
  | cons d ds ih =>
    rw [firstTaken]
    by_cases hd : d.name ∈ taken ∧ d.name ∉ seen
    · rw [if_pos (by simpa using hd), List.map_cons, List.mem_cons, ih]
      constructor
      · rintro (rfl | ⟨ht, hs, hm⟩)
        · exact ⟨hd.1, hd.2, by simp⟩
        · exact ⟨ht, fun h => hs (List.mem_cons_of_mem _ h), List.mem_cons_of_mem _ hm⟩
      · rintro ⟨ht, hs, hm⟩
        by_cases hname : name = d.name
        · exact Or.inl hname
        · refine Or.inr ⟨ht, ?_, ?_⟩
          · simpa [hname] using hs
          · simpa [hname] using hm
    · rw [if_neg (by simpa using hd), ih, List.map_cons, List.mem_cons]
      constructor
      · rintro ⟨ht, hs, hm⟩
        exact ⟨ht, hs, Or.inr hm⟩
      · rintro ⟨ht, hs, rfl | hm⟩
        · exact absurd ⟨ht, hs⟩ hd
        · exact ⟨ht, hs, hm⟩

/-- No name is in conflict twice. -/
theorem nodup_names_firstTaken (taken seen : List Text) (ds : List Declaration) :
    ((firstTaken taken seen ds).map Declaration.name).Nodup := by
  induction ds generalizing seen with
  | nil => exact List.nodup_nil
  | cons d ds ih =>
    rw [firstTaken]
    split
    · rw [List.map_cons, List.nodup_cons]
      refine ⟨fun hmem => ?_, ih (d.name :: seen)⟩
      exact ((mem_names_firstTaken (d.name :: seen) ds).1 hmem).2.1 (by simp)
    · exact ih seen

/-- A declaration in conflict is the first one of its name. -/
theorem exists_first_of_mem_firstTaken {taken : List Text} {role : Role} {depth : Nat}
    {d : Declaration} (seen : List Text) (offset : Nat) (ls : List Line)
    (h : d ∈ firstTaken taken seen (Declaration.among role depth offset ls)) :
    ∃ above l rest, ls = above ++ l :: rest ∧
      (∀ m ∈ above, declaresAt depth d.name m = false) ∧ declaresAt depth d.name l = true ∧
      d.span = ⟨offset + Line.total above,
        offset + Line.total above + l.size + Line.total (nested depth rest)⟩ := by
  induction ls generalizing seen offset with
  | nil => simp [Declaration.among, firstTaken] at h
  | cons l ls ih =>
    have hmem : d.name ∉ seen ∧ d.name ∈ taken := by
      have := (mem_names_firstTaken seen _).1 (List.mem_map_of_mem h)
      exact ⟨this.2.1, this.1⟩
    -- The line above the first one is of another name; the rest is the same search further on.
    have hnext : ∀ seen', d ∈ firstTaken taken seen' (Declaration.among role depth
        (offset + l.size) ls) → declaresAt depth d.name l = false →
        ∃ above m rest, l :: ls = above ++ m :: rest ∧
          (∀ k ∈ above, declaresAt depth d.name k = false) ∧ declaresAt depth d.name m = true ∧
          d.span = ⟨offset + Line.total above,
            offset + Line.total above + m.size + Line.total (nested depth rest)⟩ := by
      intro seen' h' hl
      obtain ⟨above, m, rest, rfl, habove, hm, hspan⟩ := ih seen' (offset + l.size) h'
      refine ⟨l :: above, m, rest, rfl, ?_, hm, ?_⟩
      · intro k hk
        rcases List.mem_cons.1 hk with rfl | hk
        · exact hl
        · exact habove k hk
      · rw [hspan]
        simp only [Line.total_cons, Nat.add_assoc]
    rw [Declaration.among_cons] at h
    cases hname : Declaration.nameAt? depth l with
    | none =>
      rw [hname] at h
      refine hnext seen h ?_
      rw [← Bool.not_eq_true, ← Declaration.nameAt?_eq_some_iff, hname]
      simp
    | some name =>
      rw [hname] at h
      have hne : d.name ≠ name → declaresAt depth d.name l = false := by
        intro hne
        rw [← Bool.not_eq_true, ← Declaration.nameAt?_eq_some_iff, hname, Option.some.injEq]
        exact hne.symm
      simp only [Option.map_some, Option.toList_some, List.cons_append, List.nil_append,
        firstTaken] at h
      split at h
      · -- The line declares a name that is taken and new, so it is the first of its name.
        rcases List.mem_cons.1 h with rfl | h
        · exact ⟨[], l, ls, rfl, by simp, Declaration.nameAt?_eq_some_iff.1 hname, by simp⟩
        · have hseen := ((mem_names_firstTaken _ _).1 (List.mem_map_of_mem h)).2.1
          exact hnext (name :: seen) h (hne fun he => hseen (by simp [he]))
      · next hnot =>
        refine hnext seen h (hne fun he => hnot ?_)
        simp only [Bool.and_eq_true, List.contains_eq_mem, decide_eq_true_eq, Bool.not_eq_true',
          decide_eq_false_iff_not, ← he]
        exact ⟨hmem.2, hmem.1⟩

end Component
end ThemeRepair
