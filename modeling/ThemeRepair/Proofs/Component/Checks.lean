import ThemeRepair.Proofs.Component.Rewriting
import ThemeRepair.Proofs.Declaration.Names

/-!
# What the checks read

The checks of a scan read little of the regions: of the slots the names, of the properties the
blocks that are declared at one depth, and whether their first content line is a misplaced section.
Here each of these is said for the regions of a scan and followed through a rewriting.
-/

namespace ThemeRepair
namespace Component

open Declaration (names eraseBlock)

variable {w : Nat} {ls : List Line} {r : Region} {header : Line} {body : List Line}

/-! ## The names of the slots -/

theorem slotNames_eq (w : Nat) (slots : Region) :
    slotNames w slots = names (slots.depth + w) slots.body := by
  rw [slotNames, Region.map_name_declarations, Region.map_fst_blocks_eq_names]

/-- The names of slots that carry a rewriting are those of the rewritten lines. -/
theorem slotNames_of_carries {s s' : Region} (h : Carries r header body s s') (hdepth : s.depth = 0)
    (hnames : 0 < r.depth → ∀ behind,
      names w (header :: body ++ behind) = names w (r.header :: r.body ++ behind)) :
    slotNames w s' = slotNames w s := by
  obtain ⟨hheader, hbody⟩ := h
  have hdepth' : s'.depth = 0 := by
    rw [Region.depth, hheader]
    exact hdepth
  rw [slotNames_eq, slotNames_eq, hdepth, hdepth', Nat.zero_add]
  rcases hbody with hbody | ⟨hpositive, front, hs, hs'⟩
  · rw [hbody]
  · rw [hs, hs', Declaration.names_trimmed, Declaration.names_trimmed]
    exact Declaration.names_append_congr (hnames hpositive _) front

/-- The header declares the same, and the body declares the same above the depth of the blocks. -/
theorem names_of_rewrites (hin : r.IsIn "properties".toList ls) (h : Rewrites r header body)
    (hbody : body = r.body ∨
      ∃ depth name, (0 < r.depth → w < depth) ∧ body = eraseBlock depth name r.body)
    (hdepth : 0 < r.depth) (behind : List Line) :
    names w (header :: body ++ behind) = names w (r.header :: r.body ++ behind) := by
  have hkey : header.key? = r.header.key? := by
    have hdeclares := hin.declares
    rw [Line.declares, Bool.and_eq_true, beq_iff_eq] at hdeclares
    rw [h.key?_eq, hdeclares.2]
  refine Declaration.names_cons_congr h.isContent hin.isContent_header h.depth_eq.symm hkey.symm ?_
  rcases hbody with rfl | ⟨depth, name, hlt, rfl⟩
  · rfl
  · exact Declaration.names_eraseBlock_append (hlt hdepth) name r.body behind

/-! ## The blocks of the properties -/

/-- Lines of a region are nested below it, wherever the others are. -/
theorem nested_of_sublist {keyword : Text} (hin : r.IsIn keyword ls) (hsub : body.Sublist r.body) :
    Line.nested r.depth body = Line.trimmed body := by
  rw [Line.nested_eq,
    List.takeWhile_eq_self_iff.2 fun l hl => hin.below_of_mem_body (hsub.subset hl)]

/-- Of a region less one block, the blocks are the others. -/
theorem blocks_of_erased {r' : Region} {depth : Nat} {name : Text}
    (hin : r.IsIn "properties".toList ls)
    (hbody : r'.body = Line.nested r.depth (eraseBlock depth name r.body)) :
    r'.blocks depth = (r.blocks depth).eraseP fun b => b.1 == name := by
  rw [nested_of_sublist hin (Declaration.sublist_eraseBlock depth name r.body)] at hbody
  rw [Region.blocks, hbody, Declaration.blocks_takeWhile_trimmed,
    Declaration.takeWhile_eraseBlock, Declaration.blocks_eraseBlock, Region.blocks]

/-- There is one block less. -/
theorem length_blocks_of_erased {r' : Region} {depth : Nat} {name : Text}
    (hin : r.IsIn "properties".toList ls)
    (hbody : r'.body = Line.nested r.depth (eraseBlock depth name r.body))
    (hname : name ∈ (r.blocks depth).map Prod.fst) :
    (r'.blocks depth).length + 1 = (r.blocks depth).length := by
  obtain ⟨b, hb, hbname⟩ := List.mem_map.1 hname
  have hpos := List.length_pos_of_mem hb
  rw [blocks_of_erased hin hbody, List.length_eraseP_of_mem hb (by simp [hbname])]
  omega

/-- Of several blocks some are left. -/
theorem blocks_of_erased_ne_nil {r' : Region} {depth : Nat} {name : Text}
    (hin : r.IsIn "properties".toList ls)
    (hbody : r'.body = Line.nested r.depth (eraseBlock depth name r.body))
    (hname : name ∈ (r.blocks depth).map Prod.fst) (hmany : (r.blocks depth).length ≠ 1) :
    r'.blocks depth ≠ [] := by
  have hlength := length_blocks_of_erased hin hbody hname
  rw [← List.length_pos_iff]
  omega

theorem map_fst_blocks_of_erased {r' : Region} {depth : Nat} {name : Text}
    (hin : r.IsIn "properties".toList ls)
    (hbody : r'.body = Line.nested r.depth (eraseBlock depth name r.body)) :
    (r'.blocks depth).map Prod.fst = ((r.blocks depth).map Prod.fst).erase name := by
  rw [blocks_of_erased hin hbody, List.erase_eq_eraseP, List.eraseP_map]
  have hbeq : (fun b : Text × List Line => b.1 == name) = (fun n => name == n) ∘ Prod.fst := by
    funext b
    rw [Function.comp_apply, Bool.eq_iff_iff, beq_iff_eq, beq_iff_eq, eq_comm]
  rw [hbeq]

/-- Properties are declared two levels deep in the props, or one below themselves. -/
theorem declaredDepth_eq (w : Nat) (ls : List Line) (r : Region) :
    declaredDepth w ls r =
      if (found (Sections.ofLines ls).props).isSome then 2 * w else r.depth + w := by
  unfold declaredDepth
  cases hprops : found (Sections.ofLines ls).props with
  | none => rfl
  | some props =>
    have hdepth := (isIn_of_props (found_eq_some_iff.1 hprops)).2.1
    rw [propertyDepth, hdepth, Nat.zero_add]
    rfl

theorem declaredDepth_congr {ls' : List Line} {r' : Region}
    (hprops : (found (Sections.ofLines ls').props).isSome =
      (found (Sections.ofLines ls).props).isSome) (hdepth : r'.depth = r.depth) :
    declaredDepth w ls' r' = declaredDepth w ls r := by
  rw [declaredDepth_eq, declaredDepth_eq, hprops, hdepth]

/-! ## Misplaced sections -/

/-- A section is misplaced if the first content line is one and not deep enough. -/
theorem isSome_misplacedSibling? (w : Nat) (r : Region) :
    (misplacedSibling? w r).isSome = r.firstContent?.any fun l =>
      decide (l.depth < r.depth + w) && l.key?.any siblingKeywords.contains := by
  cases hfirst : r.firstContent? with
  | none => simp only [misplacedSibling?, hfirst, Option.isSome_none, Option.any_none]
  | some l =>
    by_cases hcond : l.depth < r.depth + w ∧ l.key?.any siblingKeywords.contains = true
    · simp [misplacedSibling?, hfirst, hcond]
    · simp only [misplacedSibling?, hfirst, if_neg hcond, Option.isSome_none, Option.any_some]
      simpa using hcond

theorem isSome_misplacedSibling?_congr {r' : Region} (hdepth : r'.depth = r.depth)
    (hfirst : r'.firstContent? = r.firstContent?) :
    (misplacedSibling? w r').isSome = (misplacedSibling? w r).isSome := by
  rw [isSome_misplacedSibling?, isSome_misplacedSibling?, hdepth, hfirst]

/-- A section misplaced below a bare header is the one defect of the properties. -/
theorem emptyProperties_of_misplaced {span : Span} (hblock : r.isBlock = true)
    (hmisplaced : misplacedSibling? w r = some span) :
    emptyProperties w r = [(r.valueSpan, .emptyCollection (some span))] := by
  have hseq : Region.isEmptySequence r.inline = false := by
    rw [← Bool.not_eq_true]
    intro hseq
    rw [Region.isBlock_of_isEmptySequence hseq] at hblock
    cases hblock
  have hcontent : r.hasContent = true := by
    have hany := isSome_misplacedSibling? w r
    rw [hmisplaced, Option.isSome_some, eq_comm, Option.any_eq_true] at hany
    obtain ⟨l, hfirst, -⟩ := hany
    rw [Region.hasContent, hfirst, Option.isSome_some]
  rw [emptyProperties, hseq, hblock, hcontent, hmisplaced]
  rfl

/-- No section is misplaced in front of the first declaration. -/
theorem isSome_misplacedSibling?_of_blocks (h : r.blocks (r.depth + w) ≠ []) :
    (misplacedSibling? w r).isSome = false := by
  rw [isSome_misplacedSibling?]
  cases hfirst : r.firstContent? with
  | none => rfl
  | some l =>
    have hle := Region.depth_le_of_blocks h hfirst
    have hnot : decide (l.depth < r.depth + w) = false := by
      rw [decide_eq_false_iff_not]
      omega
    rw [Option.any_some, hnot, Bool.false_and]

/-! ## Conflicts -/

theorem conflictDefects_eq {slots : Region} (hr : (Sections.ofLines ls).properties = .ok (some r))
    (hslots : (Sections.ofLines ls).slots = .ok (some slots)) :
    conflictDefects w (Sections.ofLines ls) = nameConflicts w (declaredDepth w ls r) r slots := by
  simp only [conflictDefects, found_eq_some_iff.2 hr, found_eq_some_iff.2 hslots]
  rfl

/-- A declared name that is taken is reported. -/
theorem exists_conflict {slots : Region} {name : Text}
    (hr : (Sections.ofLines ls).properties = .ok (some r))
    (hslots : (Sections.ofLines ls).slots = .ok (some slots)) (htaken : name ∈ slotNames w slots)
    (hname : name ∈ (r.blocks (declaredDepth w ls r)).map Prod.fst) :
    ∃ d : Declaration, (d.span, FindingKind.nameConflict d.name
      (if (r.declarations .schemaProperty (declaredDepth w ls r)).length = 1
        then some r.valueSpan else none)) ∈ conflictDefects w (Sections.ofLines ls) := by
  rw [conflictDefects_eq hr hslots]
  have hmem : name ∈ (firstTaken (slotNames w slots) []
      (r.declarations .schemaProperty (declaredDepth w ls r))).map Declaration.name := by
    rw [mem_names_firstTaken, Region.map_name_declarations]
    exact ⟨htaken, List.not_mem_nil, hname⟩
  obtain ⟨d, hd, -⟩ := List.mem_map.1 hmem
  exact ⟨d, List.mem_map.2 ⟨d, hd, rfl⟩⟩

/-- Where the properties are indented, slots are declared in front of them. -/
theorem lt_declaredDepth {name : Text} (hin : r.IsIn "properties".toList ls)
    (hname : name ∈ (r.blocks (declaredDepth w ls r)).map Prod.fst) (hdepth : 0 < r.depth) :
    w < declaredDepth w ls r := by
  have hlt := Region.lt_of_mem_blocks hin hname
  rw [declaredDepth_eq] at hlt ⊢
  by_cases hprops : (found (Sections.ofLines ls).props).isSome = true
  · rw [if_pos hprops] at hlt ⊢
    omega
  · rw [if_neg hprops] at hlt ⊢
    omega

end Component
end ThemeRepair
