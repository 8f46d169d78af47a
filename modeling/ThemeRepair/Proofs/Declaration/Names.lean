import ThemeRepair.Proofs.Declaration.Block
import ThemeRepair.Proofs.Region.Location

/-!
# The declared names alone

Of a region with slots only the names matter.  `Declaration.names` reads them line by line, so what
edits elsewhere in the region do to them is an induction on the lines above the edit: a header may
give way to another of the same depth and key (`Declaration.names_append_congr`), and a block that
is declared deeper than the names may go (`Declaration.names_eraseBlock_append`).
-/

namespace ThemeRepair
namespace Declaration

open Line (below reaches nested trimmed)

/-- The names declared at a depth, up to the first content line that is indented less. -/
def names (depth : Nat) : List Line → List Text
  | [] => []
  | l :: ls => if reaches depth l then (nameAt? depth l).toList ++ names depth ls else []

theorem names_eq (depth : Nat) (ls : List Line) :
    names depth ls = (blocks depth (ls.takeWhile (reaches depth))).map Prod.fst := by
  rw [map_fst_blocks]
  induction ls with
  | nil => rfl
  | cons l ls ih =>
    rw [names, List.takeWhile_cons]
    split
    · rw [List.filterMap_cons, ih]
      cases nameAt? depth l <;> rfl
    · rfl

@[simp] theorem names_trimmed (depth : Nat) (ls : List Line) :
    names depth (trimmed ls) = names depth ls := by
  rw [names_eq, names_eq, blocks_takeWhile_trimmed]

theorem names_append_congr {depth : Nat} {ls ms : List Line}
    (h : names depth ls = names depth ms) (front : List Line) :
    names depth (front ++ ls) = names depth (front ++ ms) := by
  induction front with
  | nil => exact h
  | cons l front ih =>
    rw [List.cons_append, List.cons_append, names, names, ih]

/-- A line declares by its depth and key only. -/
theorem names_cons_congr {depth : Nat} {l m : Line} (hl : l.isContent = true)
    (hm : m.isContent = true) (hdepth : m.depth = l.depth) (hkey : m.key? = l.key?)
    {ls ms : List Line} (h : names depth ls = names depth ms) :
    names depth (l :: ls) = names depth (m :: ms) := by
  rw [names, names, reaches, reaches, nameAt?, nameAt?, hl, hm, hdepth, hkey, h]

theorem names_append_of_below {depth : Nat} {ls : List Line}
    (h : ∀ l ∈ ls, below depth l = true) (ms : List Line) :
    names depth (ls ++ ms) = names depth ms := by
  induction ls with
  | nil => rfl
  | cons l ls ih =>
    have hl := h l (by simp)
    rw [List.cons_append, names, if_pos (Line.reaches_of_below hl), nameAt?_eq_none_of_below hl,
      ih fun m hm => h m (List.mem_cons_of_mem l hm)]
    rfl

/-- A block that is declared deeper than the names takes none of them away. -/
theorem names_eraseBlock_append {depth deeper : Nat} (hlt : depth < deeper) (name : Text)
    (ls ms : List Line) :
    names depth (eraseBlock deeper name ls ++ ms) = names depth (ls ++ ms) := by
  induction ls with
  | nil => rfl
  | cons l ls ih =>
    rw [eraseBlock]
    split
    · next hl =>
      have hblock : ∀ m ∈ l :: nested deeper ls, below depth m = true := by
        rw [List.forall_mem_cons]
        constructor
        · simp only [Line.declaresAt, Bool.and_eq_true, beq_iff_eq] at hl
          rw [Line.below_of_isContent hl.1.1, hl.1.2, decide_eq_true_eq]
          exact hlt
        · exact fun m hm => Line.below_mono (Nat.le_of_lt hlt) (Line.below_of_mem_nested hm)
      have hsplit : l :: ls ++ ms =
          (l :: nested deeper ls) ++ (ls.drop (nested deeper ls).length ++ ms) := by
        conv_lhs => rw [← Line.nested_append_drop deeper ls]
        simp only [List.cons_append, List.append_assoc]
      rw [hsplit, names_append_of_below hblock]
    · rw [List.cons_append, List.cons_append, names, names, ih]

end Declaration

namespace Region

open Line (reaches)

theorem map_fst_blocks_eq_names (r : Region) (depth : Nat) :
    (r.blocks depth).map Prod.fst = Declaration.names depth r.body :=
  (Declaration.names_eq depth r.body).symm

/-- What a region declares stands deeper than its header. -/
theorem lt_of_mem_blocks {r : Region} {keyword : Text} {ls : List Line} (hin : r.IsIn keyword ls)
    {depth : Nat} {name : Text} (h : name ∈ (r.blocks depth).map Prod.fst) : r.depth < depth := by
  rw [blocks, Declaration.map_fst_blocks, List.mem_filterMap] at h
  obtain ⟨l, hl, hname⟩ := h
  rw [Declaration.nameAt?_eq_some_iff, Line.declaresAt, Bool.and_eq_true, Bool.and_eq_true,
    beq_iff_eq] at hname
  rw [← hname.1.2]
  exact hin.depth_lt_of_mem_body (( List.takeWhile_prefix _).subset hl) hname.1.1

/-- What is declared is the first block of its name, and no line above it ends the declarations. -/
theorem exists_eraseBlock_of_mem_blocks {r : Region} {depth : Nat} {name : Text}
    (h : name ∈ (r.blocks depth).map Prod.fst) :
    ∃ above l tail, r.body = above ++ l :: tail ∧
      Declaration.eraseBlock depth name r.body =
        above ++ tail.drop (Line.nested depth tail).length ∧
      l.isContent = true ∧ l.depth = depth ∧ ∀ m ∈ above, reaches depth m = true := by
  rw [blocks, Declaration.map_fst_blocks, List.mem_filterMap] at h
  obtain ⟨m, hm, hmname⟩ := h
  rcases forall_or_exists_first (Line.declaresAt depth name) (r.body.takeWhile (reaches depth)) with
    hnone | ⟨above, l, rest, htake, habove, hl⟩
  · rw [Declaration.nameAt?_eq_some_iff, hnone m hm] at hmname
    cases hmname
  · have hsplit : r.body = above ++ l :: (rest ++ r.body.dropWhile (reaches depth)) := by
      rw [← List.cons_append, ← List.append_assoc, ← htake, List.takeWhile_append_dropWhile]
    have hreaches : ∀ m ∈ above, reaches depth m = true := fun m hm =>
      List.mem_takeWhile_imp (by rw [htake]; simp [hm] : m ∈ r.body.takeWhile (reaches depth))
    generalize rest ++ r.body.dropWhile (reaches depth) = tail at hsplit
    refine ⟨above, l, tail, hsplit, ?_, ?_, ?_, hreaches⟩
    · rw [hsplit, Declaration.eraseBlock_append_cons habove hl]
    · rw [Line.declaresAt, Bool.and_eq_true, Bool.and_eq_true] at hl
      exact hl.1.1
    · rw [Line.declaresAt, Bool.and_eq_true, Bool.and_eq_true, beq_iff_eq] at hl
      exact hl.1.2

theorem hasContent_of_blocks {r : Region} {depth : Nat} (h : r.blocks depth ≠ []) :
    r.hasContent = true := by
  rw [hasContent, ← Bool.not_eq_false, Option.isSome_eq_false_iff, Option.isNone_iff_eq_none]
  intro hnone
  rw [firstContent?, List.find?_eq_none] at hnone
  apply h
  rw [blocks, ← List.append_nil (r.body.takeWhile _), Declaration.blocks_append_of_below]
  · rfl
  · intro m hm
    exact Line.below_of_not_isContent
      (by simpa using hnone m (( List.takeWhile_prefix _).subset hm))

/-- Where something is declared, the body begins at the depth of the declarations or deeper. -/
theorem depth_le_of_blocks {r : Region} {depth : Nat} (h : r.blocks depth ≠ []) {l : Line}
    (hl : r.firstContent? = some l) : depth ≤ l.depth := by
  by_contra hlt
  apply h
  obtain ⟨hc, blanks, rest, hbody, hblanks⟩ := List.find?_eq_some_iff_append.1 hl
  have hblank : ∀ m ∈ blanks, m.isContent = false := fun m hm => by simpa using hblanks m hm
  have hstop : reaches depth l = false := Line.reaches_eq_false_iff.2 ⟨hc, by omega⟩
  have htake : r.body.takeWhile (reaches depth) = blanks := by
    rw [hbody, List.takeWhile_append_of_pos fun m hm => by rw [reaches, hblank m hm]; rfl,
      List.takeWhile_cons_of_neg (by simp [hstop]), List.append_nil]
  rw [blocks, htake, ← List.append_nil blanks,
    Declaration.blocks_append_of_below fun m hm => Line.below_of_not_isContent (hblank m hm)]
  rfl

end Region
end ThemeRepair
