import ThemeRepair.Proofs.Component.Change
import ThemeRepair.Proofs.Region.Opening

/-!
# Replacing the header of a section

A section header that gives way to another one of its key separates the text as the old one did, so
every other region is found again with the same header and body.  Of the properties this holds too
(`Component.exists_properties_of_swap`), and they are followed by a key if they were before.
-/

namespace ThemeRepair
namespace Component

open Line (below nested opensSection)

variable {ls : List Line} {r : Region}

/-! ## Searches past a section header -/

/-- A search passes over a section header of another key, whatever it says. -/
theorem exists_locate_of_swap {keyword : Text} {admits : Line → Bool} {xs ys : List Line}
    {a b : Line} (ha : below 0 a = false) (hb : below 0 b = false)
    (hna : (a.declares keyword && admits a) = false)
    (hnb : (b.declares keyword && admits b) = false)
    (h : Region.locate keyword admits [] (xs ++ a :: ys) [] = .ok (some r)) :
    ∃ r' : Region, Region.locate keyword admits [] (xs ++ b :: ys) [] = .ok (some r') ∧
      r'.header = r.header ∧ r'.body = r.body ∧
      (r'.after = r.after ∨ ∃ zs, r.after = zs ++ a :: ys ∧ r'.after = zs ++ b :: ys) := by
  rcases Region.forall_or_exists_first (fun l => l.declares keyword && admits l) xs with
    hxs | ⟨passed, header, rest, rfl, hpassed, hheader⟩
  · rcases Region.forall_or_exists_first (fun l => l.declares keyword && admits l) ys with
      hys | ⟨passed, header, rest, rfl, hpassed, hheader⟩
    · rw [Region.locate_eq_none (fun l hl => ?_)] at h
      · cases h
      · rw [List.mem_append, List.mem_cons] at hl
        rcases hl with hl | rfl | hl
        · exact hxs l hl
        · exact hna
        · exact hys l hl
    · have hsplit : ∀ m : Line, xs ++ m :: (passed ++ header :: rest) =
          (xs ++ m :: passed) ++ header :: rest := fun m => by simp
      have hforall : ∀ m : Line, (m.declares keyword && admits m) = false →
          ∀ l ∈ xs ++ m :: passed, (l.declares keyword && admits l) = false := fun m hm => by
        simp only [List.forall_mem_append, List.forall_mem_cons]
        exact ⟨hxs, hm, hpassed⟩
      rw [hsplit] at h ⊢
      obtain ⟨rfl, hmix⟩ := (Region.locate_append_cons_eq_ok_iff (hforall a hna) hheader).1 h
      exact ⟨_, (Region.locate_append_cons_eq_ok_iff (hforall b hnb) hheader).2 ⟨rfl, hmix⟩, rfl,
        rfl, Or.inl rfl⟩
  · -- The region ends in front of the section header, whichever it is.
    have hsplit : ∀ m : Line, passed ++ header :: rest ++ m :: ys =
        passed ++ header :: (rest ++ m :: ys) := fun m => by simp
    have hnested := Line.nested_append_top ha header.depth rest ys
    have hnested' := Line.nested_append_top hb header.depth rest ys
    have hle : (nested header.depth rest).length ≤ rest.length :=
      (Line.isPrefix_nested header.depth rest).length_le
    rw [hsplit] at h ⊢
    obtain ⟨rfl, hmix⟩ := (Region.locate_append_cons_eq_ok_iff hpassed hheader).1 h
    rw [hnested, ← hnested'] at hmix
    refine ⟨_, (Region.locate_append_cons_eq_ok_iff hpassed hheader).2 ⟨rfl, hmix⟩, rfl,
      hnested'.trans hnested.symm, Or.inr ⟨rest.drop (nested header.depth rest).length, ?_, ?_⟩⟩
    · rw [hnested, List.drop_append_of_le_length hle, List.append_nil]
    · rw [hnested', List.drop_append_of_le_length hle, List.append_nil]

/-- A child is found in the same way wherever its parent stands. -/
theorem exists_child_of_body_eq {parent parent' : Region} {keyword : Text}
    (hbody : parent'.body = parent.body) (h : parent.child keyword = .ok (some r)) :
    ∃ r' : Region, parent'.child keyword = .ok (some r') ∧ r'.header = r.header ∧
      r'.body = r.body ∧ ∃ zs, r.after = zs ++ parent.after ∧ r'.after = zs ++ parent'.after := by
  have hdepth : parent'.childDepth? = parent.childDepth? := by
    rw [Region.childDepth?, Region.firstContent?, hbody]
    rfl
  rw [Region.child] at h ⊢
  rw [hdepth]
  split at h
  · next depth _ =>
    obtain ⟨passed, rest, hsplit, hpassed, hheader, hc⟩ := Region.exists_of_locate h
    obtain ⟨hr, hmix⟩ := Region.capture_eq_ok_iff.1 hc
    have hr' : r.body = nested r.header.depth rest ∧
        r.after = rest.drop (nested r.header.depth rest).length ++ parent.after := by
      rw [hr]
      exact ⟨rfl, rfl⟩
    rw [hbody, hsplit, Region.locate_append_cons hpassed hheader, Region.capture_of_unmixed hmix]
    exact ⟨_, rfl, rfl, hr'.1.symm, _, hr'.2, rfl⟩
  · cases h

/-! ## The properties -/

/-- Lines that are the same but for a header of the variants. -/
def Swapped (ls ms : List Line) : Prop :=
  ms = ls ∨ ∃ xs ys a b, ls = xs ++ a :: ys ∧ ms = xs ++ b :: ys ∧
    opensSection "variants".toList a = true ∧ opensSection "variants".toList b = true

/-- With an empty mapping the header of a section is still one. -/
theorem opensSection_mapped {keyword : Text} {s : Region}
    (h : Region.findSection keyword ls = .ok (some s)) (hm : s.Mappable) :
    opensSection keyword s.mapped = true := by
  obtain ⟨hin, hdepth, -⟩ := Region.isIn_of_findSection h
  have hdeclares := Region.declares_mapped hin.hasKey hm
  rw [hin.keyword_eq] at hdeclares
  rw [opensSection, hdeclares, Region.depth_mapped hin.hasKey]
  exact beq_iff_eq.2 hdepth

theorem Swapped.append_left {ls ms : List Line} (h : Swapped ls ms) (zs : List Line) :
    Swapped (zs ++ ls) (zs ++ ms) := by
  rcases h with rfl | ⟨xs, ys, a, b, rfl, rfl, ha, hb⟩
  · exact Or.inl rfl
  · exact Or.inr ⟨zs ++ xs, ys, a, b, by simp, by simp, ha, hb⟩

/-- Both headers are keys, so a region is followed by a key as before. -/
theorem isFollowedByKey_of_swapped {r' : Region} (h : Swapped r.after r'.after) :
    r'.isFollowedByKey = r.isFollowedByKey := by
  rcases h with h | ⟨xs, ys, a, b, hr, hr', ha, hb⟩
  · rw [Region.isFollowedByKey, h]
    rfl
  · have hkey : ∀ m : Line, opensSection "variants".toList m = true →
        m.isContent = true ∧ m.key?.isSome = true := by
      intro m hm
      have hdeclares := Line.declares_of_opensSection hm
      rw [Line.declares, Bool.and_eq_true, beq_iff_eq] at hdeclares
      exact ⟨hdeclares.1, by rw [hdeclares.2]; rfl⟩
    rw [Region.isFollowedByKey, Region.isFollowedByKey, hr, hr', List.find?_append,
      List.find?_append, List.find?_cons_of_pos (hkey a ha).1,
      List.find?_cons_of_pos (hkey b hb).1]
    cases xs.find? Line.isContent with
    | none => simp only [Option.none_or, (hkey a ha).2, (hkey b hb).2]
    | some l => rfl

/-- The slots are found again under another header of the variants. -/
theorem exists_slots_of_swap {xs ys : List Line} {a b : Line}
    (ha : opensSection "variants".toList a = true) (hb : opensSection "variants".toList b = true)
    (hs : (Sections.ofLines (xs ++ a :: ys)).slots = .ok (some r)) :
    ∃ r' : Region, (Sections.ofLines (xs ++ b :: ys)).slots = .ok (some r') ∧
      r'.header = r.header ∧ r'.body = r.body := by
  obtain ⟨r', hr', hheader, hbody, -⟩ := exists_locate_of_swap
    (Line.below_zero_of_opensSection ha) (Line.below_zero_of_opensSection hb)
    (by rw [Line.declares_eq_false (Line.declares_of_opensSection ha) (by decide)]; rfl)
    (by rw [Line.declares_eq_false (Line.declares_of_opensSection hb) (by decide)]; rfl) hs
  exact ⟨r', hr', hheader, hbody⟩

/-- **The properties are found again** under another header of the variants. -/
theorem exists_properties_of_swap {xs ys : List Line} {a b : Line}
    (ha : opensSection "variants".toList a = true) (hb : opensSection "variants".toList b = true)
    (hr : (Sections.ofLines (xs ++ a :: ys)).properties = .ok (some r)) :
    ∃ r' : Region, (Sections.ofLines (xs ++ b :: ys)).properties = .ok (some r') ∧
      r'.header = r.header ∧ r'.body = r.body ∧ r'.isFollowedByKey = r.isFollowedByKey ∧
      ((found (Sections.ofLines (xs ++ b :: ys)).props).isSome =
        (found (Sections.ofLines (xs ++ a :: ys)).props).isSome) := by
  have hta := Line.below_zero_of_opensSection ha
  have htb := Line.below_zero_of_opensSection hb
  have hother : ∀ (keyword : Text) (admits : Line → Bool), "variants".toList ≠ keyword →
      (a.declares keyword && admits a) = false ∧ (b.declares keyword && admits b) = false := by
    intro keyword admits hne
    rw [Line.declares_eq_false (Line.declares_of_opensSection ha) hne,
      Line.declares_eq_false (Line.declares_of_opensSection hb) hne]
    exact ⟨rfl, rfl⟩
  have hprops := hother "props".toList (fun l => l.depth == 0) (by decide)
  have hproperties := hother "properties".toList (fun _ => true) (by decide)
  have hswap : ∀ {r r' : Region}, (r'.after = r.after ∨
      ∃ zs, r.after = zs ++ a :: ys ∧ r'.after = zs ++ b :: ys) → Swapped r.after r'.after := by
    rintro r r' (h | ⟨zs, h, h'⟩)
    · exact Or.inl h
    · exact Or.inr ⟨zs, ys, a, b, h, h', ha, hb⟩
  rcases properties_cases hr with ⟨hnone, hfind⟩ | ⟨props, hfound, hchild⟩
  · have hnone' : (Sections.ofLines (xs ++ b :: ys)).props = .ok none := by
      have hopened := Region.locate_eq_none_iff.1 hnone
      rw [Line.opened_append_top hta hprops.1] at hopened
      exact Region.locate_eq_none_iff.2 (by rw [Line.opened_append_top htb hprops.2, hopened])
    obtain ⟨r', hfind', hheader, hbody, hafter⟩ :=
      exists_locate_of_swap hta htb hproperties.1 hproperties.2 hfind
    exact ⟨r', (properties_of_no_props hnone').trans hfind', hheader, hbody,
      isFollowedByKey_of_swapped (hswap hafter), by rw [hnone, hnone']⟩
  · obtain ⟨props', hlocated, -, hpbody, hpafter⟩ :=
      exists_locate_of_swap hta htb hprops.1 hprops.2 hfound
    have hfound' : (Sections.ofLines (xs ++ b :: ys)).props = .ok (some props') := hlocated
    obtain ⟨r', hchild', hheader, hbody, zs, hafter, hafter'⟩ :=
      exists_child_of_body_eq hpbody hchild
    refine ⟨r', (properties_of_props hfound').trans hchild', hheader, hbody,
      isFollowedByKey_of_swapped ?_, by rw [hfound, hfound']; rfl⟩
    rw [hafter, hafter']
    exact (hswap hpafter).append_left zs

end Component
end ThemeRepair
