import ThemeRepair.Proofs.Region.Apart

/-!
# The regions inside a region

Inside a region that is not refused no region is refused either, so the search for the first region
of a key and the search for all of them always end (`Region.exists_child`,
`Region.exists_descendants`).  What they find are regions of the same lines and lie in the body.

All regions of a key depend on the body alone: `Region.outermost` are the blocks in question,
without their places.
-/

namespace ThemeRepair
namespace Region

open Line (nested Closes)

/-- The blocks of a key that do not lie in an earlier one, among lines of which the first `taken`
lie in one. -/
def outermost (keyword : Text) : (taken : Nat) → List Line → List (Line × List Line)
  | _, [] => []
  | taken + 1, _ :: ls => outermost keyword taken ls
  | 0, l :: ls =>
    if l.declares keyword then
      (l, nested l.depth ls) :: outermost keyword (nested l.depth ls).length ls
    else outermost keyword 0 ls

/-- The header of the region is one of the lines `among`, which stand between others. -/
def HeaderAmong (r : Region) (before among after : List Line) : Prop :=
  ∃ above inside, r.before = before ++ above ∧ among = above ++ r.header :: inside ∧
    r.body ++ r.after = inside ++ after

theorem HeaderAmong.cons {r : Region} {before among after : List Line} {l : Line}
    (h : r.HeaderAmong (before ++ [l]) among after) : r.HeaderAmong before (l :: among) after := by
  obtain ⟨above, inside, hbefore, rfl, hrest⟩ := h
  exact ⟨l :: above, inside, by rw [hbefore, List.append_assoc]; rfl, rfl, hrest⟩

/-- A region with its header in the body of another one lies in it. -/
theorem HeaderAmong.inside {r parent : Region} {keyword parentKey : Text} {ls : List Line}
    (hr : r.IsIn keyword ls) (hparent : parent.IsIn parentKey ls)
    (h : r.HeaderAmong (parent.before ++ [parent.header]) parent.body parent.after) :
    r.Inside parent := by
  obtain ⟨above, inside, hbefore, hbody, hrest⟩ := h
  rw [List.append_assoc] at hbefore
  exact inside_of_body hparent hr hbefore hbody hrest

theorem exists_descendantsAmong {keyword : Text} {ls after : List Line}
    (hmix : Line.mixesIndentation ls = false)
    (hclose : ∀ l ∈ ls, l.isContent = true → Closes l.depth after) (before : List Line)
    (taken : Nat) :
    ∃ rs, descendantsAmong keyword after before taken ls = .ok rs ∧
      rs.map (fun r => (r.header, r.body)) = outermost keyword taken ls ∧
      ∀ r ∈ rs, r.IsIn keyword (before ++ (ls ++ after)) ∧ r.HeaderAmong before ls after := by
  induction ls generalizing before taken with
  | nil => exact ⟨[], by rw [descendantsAmong], by rw [outermost]; rfl, by simp⟩
  | cons l ls ih =>
    have hrest := Line.mixesIndentation_of_subset
      (Line.marks_subset_of_sublist (List.sublist_cons_self l ls)) hmix
    have hcloseRest : ∀ m ∈ ls, m.isContent = true → Closes m.depth after :=
      fun m hm => hclose m (List.mem_cons_of_mem l hm)
    have hplace : before ++ [l] ++ (ls ++ after) = before ++ (l :: ls ++ after) := by simp
    -- What is found behind the first line is found among all of them.
    have hbehind : ∀ taken, ∃ rs, descendantsAmong keyword after (before ++ [l]) taken ls = .ok rs ∧
        rs.map (fun r => (r.header, r.body)) = outermost keyword taken ls ∧
        ∀ r ∈ rs, r.IsIn keyword (before ++ (l :: ls ++ after)) ∧
          r.HeaderAmong before (l :: ls) after := by
      intro taken
      obtain ⟨rs, hrs, hmap, hin⟩ := ih hrest hcloseRest (before ++ [l]) taken
      rw [hplace] at hin
      exact ⟨rs, hrs, hmap, fun r hr => ⟨(hin r hr).1, (hin r hr).2.cons⟩⟩
    cases taken with
    | succ taken =>
      obtain ⟨rs, hrs, hmap, hin⟩ := hbehind taken
      exact ⟨rs, by rw [descendantsAmong, hrs], by rw [outermost, hmap], hin⟩
    | zero =>
      by_cases hl : l.declares keyword = true
      · obtain ⟨rs, hrs, hmap, hin⟩ := hbehind (nested l.depth ls).length
        have hcapture : capture keyword before l ls after = .ok _ :=
          capture_of_unmixed (Line.mixesIndentation_nested hmix)
        refine ⟨⟨before, l, keyword, nested l.depth ls,
          ls.drop (nested l.depth ls).length ++ after⟩ :: rs, ?_, ?_, ?_⟩
        · rw [descendantsAmong, if_pos hl, hcapture]
          simp only [bind, Except.bind, hrs]
          rfl
        · rw [outermost, if_pos hl, List.map_cons, hmap]
        · rw [List.forall_mem_cons]
          refine ⟨⟨?_, [], ls, ?_, rfl, (capture_append hcapture).2.2⟩, hin⟩
          · exact isIn_of_capture hcapture hl
              (hclose l List.mem_cons_self (Line.isContent_of_declares hl))
          · exact (List.append_nil before).symm
      · obtain ⟨rs, hrs, hmap, hin⟩ := hbehind 0
        exact ⟨rs, by rw [descendantsAmong, if_neg hl, hrs], by rw [outermost, if_neg hl, hmap],
          hin⟩

section Parent

variable {parent : Region} {parentKey : Text} {ls : List Line}

/-- All regions of a key inside a region. -/
theorem exists_descendants (hparent : parent.IsIn parentKey ls) (keyword : Text) :
    ∃ rs, parent.descendants keyword = .ok rs ∧
      rs.map (fun r => (r.header, r.body)) = outermost keyword 0 parent.body ∧
      ∀ r ∈ rs, r.IsIn keyword ls ∧ r.Inside parent := by
  have hbody := Line.mixesIndentation_of_subset
    (Line.marks_subset_of_sublist (List.sublist_cons_self parent.header parent.body))
    hparent.unmixed
  obtain ⟨rs, hrs, hmap, hin⟩ := exists_descendantsAmong hbody
    (fun l hl hc => hparent.closes_after_of_mem_body hl hc) (parent.before ++ [parent.header]) 0
  have hlines : parent.before ++ [parent.header] ++ (parent.body ++ parent.after) = ls := by
    rw [← hparent.lines_eq, lines, List.append_assoc]
    rfl
  rw [hlines] at hin
  exact ⟨rs, hrs, hmap, fun r hr => ⟨(hin r hr).1, (hin r hr).2.inside (hin r hr).1 hparent⟩⟩

/-- The first region of a key inside a region, if there is one. -/
theorem exists_child (hparent : parent.IsIn parentKey ls) (keyword : Text) :
    ∃ found, parent.child keyword = .ok found ∧
      ∀ r, found = some r → r.IsIn keyword ls ∧ r.Inside parent := by
  have hfound : ∃ found, parent.child keyword = .ok found := by
    rw [child]
    split
    · next depth _ =>
      rcases forall_or_exists_first (fun l => l.declares keyword && l.depth == depth)
        parent.body with hnone | ⟨passed, header, rest, hbody, hpassed, hheader⟩
      · exact ⟨none, locate_eq_none hnone _ _⟩
      · have hmix := hparent.unmixed
        rw [hbody] at hmix
        have hblock := Line.mixesIndentation_nested (Line.mixesIndentation_of_subset
          (Line.marks_subset_of_sublist ((List.sublist_append_right passed _).cons _)) hmix)
        rw [hbody, locate_append_cons hpassed hheader, capture_of_unmixed hblock]
        exact ⟨_, rfl⟩
    · exact ⟨none, rfl⟩
  obtain ⟨found, hchild⟩ := hfound
  refine ⟨found, hchild, ?_⟩
  rintro r rfl
  exact ⟨(isIn_of_child hparent hchild).1, inside_of_child hparent hchild⟩

end Parent

/-- The stretch of a region holds its lines. -/
theorem slice_span (r : Region) : Text.slice r.text r.span = Line.join (r.header :: r.body) := by
  have hcuts : Span.Cuts r.span r.text (Line.join r.before) (Line.join (r.header :: r.body))
      (Line.join r.after) := by
    refine ⟨?_, Line.total_eq_size_join r.before, ?_⟩
    · rw [text, lines, ← Line.join_append, ← Line.join_append, List.cons_append]
    · rw [span, stop, bodyStart, start, Line.total_eq_size_join, Line.total_eq_size_join,
        Line.join_cons, Text.size_append, Line.size, Nat.add_assoc]
  exact hcuts.slice_eq

end Region
end ThemeRepair
