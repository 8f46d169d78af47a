import ThemeRepair.Proofs.Component.Checks
import ThemeRepair.Proofs.Component.Passes
import ThemeRepair.Proofs.Component.SectionHeader

/-!
# Conflicts are resolved and nothing else is lost

While properties are in conflict with slots, a repair takes one of them away in each pass.
`Component.Unshadowed` is what such a pass keeps: where the properties and the slots are found, the
names of the slots, and those blocks of the properties that have no such name.  It holds on along
every change (`Component.Unshadowed.change`), and where the run ends the blocks that are left are
all that there are (`Component.repair_keeps_unshadowed`).

A run that begins without a misplaced section below the properties never meets one: a block that
goes leaves another in front, or a header that is an empty mapping.
-/

namespace ThemeRepair
namespace Component

open Line (opensSection)
open Declaration (names eraseBlock)

variable {w : Nat} {ls : List Line} {r : Region} {header : Line} {body : List Line}

/-! ## The invariant of a run -/

/-- In lines where the properties and the slots are found, `kept` are the blocks of properties whose
names are not taken, and no section is misplaced below the properties. -/
structure Unshadowed (w depth : Nat) (taken : List Text) (kept : List (Text × List Line))
    (ls : List Line) (r slots : Region) : Prop where
  properties : (Sections.ofLines ls).properties = .ok (some r)
  slots_found : (Sections.ofLines ls).slots = .ok (some slots)
  depth_eq : r.depth = depth
  declared : declaredDepth w ls r = depth + w
  taken_eq : slotNames w slots = taken
  aligned : r.isBlock = false ∨ (misplacedSibling? w r).isSome = false
  kept_eq : (r.blocks (depth + w)).filter (fun b => !taken.contains b.1) = kept

theorem filter_eraseP_of_mem {taken : List Text} {name : Text} (hname : name ∈ taken)
    (bs : List (Text × List Line)) :
    (bs.eraseP fun b => b.1 == name).filter (fun b => !taken.contains b.1) =
      bs.filter fun b => !taken.contains b.1 := by
  induction bs with
  | nil => rfl
  | cons b bs ih =>
    by_cases hb : b.1 = name
    · have htaken : (!taken.contains b.1) = false := by simp [hb, hname]
      rw [List.eraseP_cons_of_pos (by simp [hb]), List.filter_cons_of_neg (by simp [hb, hname])]
    · rw [List.eraseP_cons_of_neg (by simp [hb]), List.filter_cons, List.filter_cons, ih]

namespace Unshadowed

variable {depth : Nat} {taken : List Text} {kept : List (Text × List Line)} {slots : Region}

/-- The invariant behind a rewriting of the properties, from what the new region says of its header
and blocks. -/
theorem of_rewrites (hu : Unshadowed w depth taken kept ls r slots) (h : Rewrites r header body)
    (hsub : body.Sublist r.body)
    (hbody : body = r.body ∨
      ∃ deeper name, (0 < r.depth → w < deeper) ∧ body = eraseBlock deeper name r.body)
    (haligned : ∀ r' : Region, r'.header = header → r'.keyword = r.keyword →
      r'.body = Line.nested r.depth body →
      r'.isBlock = false ∨ (misplacedSibling? w r').isSome = false)
    (hkept : ∀ r' : Region, r'.body = Line.nested r.depth body →
      (r'.blocks (depth + w)).filter (fun b => !taken.contains b.1) = kept) :
    ∃ r' slots', Unshadowed w depth taken kept (rewritten r header body) r' slots' := by
  have hin := isIn_of_properties hu.properties
  obtain ⟨r', hr', hheader, hbody', hprops⟩ := exists_properties_of_rewrites hu.properties h
  obtain ⟨slots', hslots', hcarries⟩ := exists_section_of_rewrites hin h
    (by decide : "slots".toList ≠ "properties".toList) (below_zero_of_sublist hin hsub)
    hu.slots_found
  have hdepth : r'.depth = r.depth := by rw [Region.depth, hheader, h.depth_eq]
  have hzero := (Region.isIn_of_findSection hu.slots_found).2.1
  refine ⟨r', slots', hr', hslots', hdepth.trans hu.depth_eq, ?_, ?_, ?_, hkept r' hbody'⟩
  · rw [declaredDepth_congr hprops hdepth, hu.declared]
  · rw [slotNames_of_carries hcarries hzero (names_of_rewrites hin h hbody), hu.taken_eq]
  · refine haligned r' hheader ?_ hbody'
    rw [(isIn_of_properties hr').keyword_eq, hin.keyword_eq]

/-- Another header of the variants keeps the invariant. -/
theorem of_swap {xs ys : List Line} {a b : Line} (ha : opensSection "variants".toList a = true)
    (hb : opensSection "variants".toList b = true)
    (hu : Unshadowed w depth taken kept (xs ++ a :: ys) r slots) :
    ∃ r' slots', Unshadowed w depth taken kept (xs ++ b :: ys) r' slots' := by
  obtain ⟨r', hr', hheader, hbody, -, hprops⟩ := exists_properties_of_swap ha hb hu.properties
  obtain ⟨slots', hslots', hsheader, hsbody⟩ := exists_slots_of_swap ha hb hu.slots_found
  have hdepth : r'.depth = r.depth := Region.depth_congr hheader
  have hkeyword : r'.keyword = r.keyword :=
    (isIn_of_properties hu.properties).keyword_congr (isIn_of_properties hr')
  have hfirst : r'.firstContent? = r.firstContent? := Region.firstContent?_congr hbody
  refine ⟨r', slots', hr', hslots', hdepth.trans hu.depth_eq, ?_, ?_, ?_, ?_⟩
  · rw [declaredDepth_congr hprops hdepth, hu.declared]
  · rw [slotNames_eq, Region.depth, hsheader, hsbody, ← hu.taken_eq, slotNames_eq]
    rfl
  · rw [Region.isBlock_congr hheader hkeyword, isSome_misplacedSibling?_congr hdepth hfirst]
    exact hu.aligned
  · rw [Region.blocks, hbody]
    exact hu.kept_eq

/-- A change keeps the invariant. -/
theorem change {kind : FindingKind} {ls' : List Line}
    (hu : Unshadowed w depth taken kept ls r slots) (h : Change w ls kind ls') :
    ∃ r' slots', Unshadowed w depth taken kept ls' r' slots' := by
  have hin := isIn_of_properties hu.properties
  cases h with
  | mapped hr hm =>
    obtain rfl := Option.some.inj (Except.ok.inj (hu.properties.symm.trans hr))
    have hm' : r.Mappable := hm.symm.imp (fun h => h.1) id
    refine hu.of_rewrites (rewrites_mapped hin hm' (List.Sublist.refl _)) (List.Sublist.refl _)
      (Or.inl rfl) (fun r' hheader hkeyword _ => ?_) fun r' hbody => ?_
    · exact Or.inl (Region.isBlock_of_mapped hin.hasKey hm' hheader hkeyword)
    · rw [hin.nested_body] at hbody
      rw [Region.blocks, hbody]
      exact hu.kept_eq
  | @realigned _ blanks rest l span hr hblock hbody hblanks hl hdepth hkey =>
    -- The line is misplaced already, and the invariant knows of none.
    obtain rfl := Option.some.inj (Except.ok.inj (hu.properties.symm.trans hr))
    have hfirst : r.firstContent? = some l := by
      rw [Region.firstContent?, hbody, Line.find?_isContent_append_of_blank hblanks,
        List.find?_cons_of_pos hl]
    have hmisplaced := hu.aligned.resolve_left (by simp [hblock])
    rw [isSome_misplacedSibling?, hfirst, Option.any_some, hkey,
      decide_eq_true hdepth] at hmisplaced
    cases hmisplaced
  | @variants v hv hseq =>
    -- The variants header is a line at the top of the text, on one side of the properties.
    have hlines : v.before ++ v.header :: (v.body ++ v.after) = ls := (isIn_of_variants hv).lines_eq
    rw [← hlines] at hu
    exact hu.of_swap (Region.opensSection_header hv) (opensSection_mapped hv (Or.inr hseq))
  | @removed _ slots₀ name hr hslots htaken hname hmany =>
    obtain rfl := Option.some.inj (Except.ok.inj (hu.properties.symm.trans hr))
    obtain rfl := Option.some.inj (Except.ok.inj (hu.slots_found.symm.trans hslots))
    have hlt := lt_declaredDepth hin hname
    rw [hu.declared] at hname hmany hlt ⊢
    rw [hu.taken_eq] at htaken
    refine hu.of_rewrites (rewrites_eraseBlock hin (depth + w) name)
      (Declaration.sublist_eraseBlock _ _ _) (Or.inr ⟨depth + w, name, hlt, rfl⟩)
      (fun r' hheader _ hbody => Or.inr ?_) fun r' hbody => ?_
    · -- Another block is left, and no line in front of it is less deep.
      have hdepth : r'.depth = depth := by
        rw [← hu.depth_eq, Region.depth, hheader]
        rfl
      apply isSome_misplacedSibling?_of_blocks
      rw [hdepth]
      exact blocks_of_erased_ne_nil hin hbody hname hmany
    · rw [blocks_of_erased hin hbody, filter_eraseP_of_mem htaken]
      exact hu.kept_eq
  | @collapsed _ slots₀ name hr hslots htaken hname hone hblock =>
    obtain rfl := Option.some.inj (Except.ok.inj (hu.properties.symm.trans hr))
    obtain rfl := Option.some.inj (Except.ok.inj (hu.slots_found.symm.trans hslots))
    have hlt := lt_declaredDepth hin hname
    rw [hu.declared] at hlt ⊢
    rw [hu.taken_eq] at htaken
    -- The header is bare no more, so it does not matter what stands first below it.
    have hm : r.Mappable := Or.inl hblock
    refine hu.of_rewrites (rewrites_mapped hin hm (Declaration.sublist_eraseBlock _ _ _))
      (Declaration.sublist_eraseBlock _ _ _) (Or.inr ⟨depth + w, name, hlt, rfl⟩)
      (fun r' hheader hkeyword _ => ?_) fun r' hbody => ?_
    · exact Or.inl (Region.isBlock_of_mapped hin.hasKey hm hheader hkeyword)
    · rw [blocks_of_erased hin hbody, filter_eraseP_of_mem htaken]
      exact hu.kept_eq

/-- Where nothing is left to fix, no block has a taken name. -/
theorem kept_eq_blocks {path : String} {t : Text}
    (hu : Unshadowed w depth taken kept (Line.ofText t) r slots)
    (hsettled : nextFix? w path t = none) : kept = r.blocks (depth + w) := by
  rw [← hu.kept_eq, List.filter_eq_self]
  intro b hb
  rw [Bool.not_eq_true', List.contains_eq_mem, decide_eq_false_iff_not]
  intro htaken
  have hname := List.mem_map_of_mem (f := Prod.fst) hb
  rw [← hu.declared] at hname
  rw [← hu.taken_eq] at htaken
  obtain ⟨d, hd⟩ := exists_conflict hu.properties hu.slots_found htaken hname
  have hauto : true = false := nextFix?_eq_none_iff.1 hsettled _
    (List.mem_map_of_mem (List.mem_append_right _ hd))
  cases hauto

end Unshadowed

/-- A scan that reports no misplaced section meets none below a bare header. -/
theorem aligned_of_scan {path : String} {t : Text}
    (hr : (Sections.ofLines (Line.ofText t)).properties = .ok (some r))
    (hrealign : ∀ f ∈ (scan w path t).findings, ∀ span,
      f.kind ≠ .emptyCollection (some span)) :
    r.isBlock = false ∨ (misplacedSibling? w r).isSome = false := by
  -- A misplaced section below a bare header would be the one finding at the properties.
  by_contra hnot
  rw [not_or, Bool.not_eq_false, Bool.not_eq_false] at hnot
  obtain ⟨hblock, hsome⟩ := hnot
  obtain ⟨span, hspan⟩ := Option.isSome_iff_exists.1 hsome
  have hdefects := emptyProperties_of_misplaced hblock hspan
  have hmem : (r.valueSpan, FindingKind.emptyCollection (some span)) ∈
      propertiesDefects w (Sections.ofLines (Line.ofText t)) := by
    simp only [propertiesDefects, hr, found, hdefects, List.mem_singleton]
  exact hrealign _ (List.mem_map_of_mem (List.mem_append_left _ (List.mem_append_left _ hmem)))
    span rfl

/-- **Resolving conflicts loses nothing else.**  Where the first scan finds the properties, one
level below the props if there are any, and the slots, and reports no misplaced section, a repair
leaves the properties that no slot shadows: the same names in the same order, each with the text of
its block. -/
theorem repair_keeps_unshadowed {path : String} {t : Text} {o : Outcome} {slots : Region}
    (hr : (Sections.ofLines (Line.ofText t)).properties = .ok (some r))
    (hslots : (Sections.ofLines (Line.ofText t)).slots = .ok (some slots))
    (hdepth : ∀ props, (Sections.ofLines (Line.ofText t)).props = .ok (some props) →
      r.depth = props.depth + w)
    (hrealign : ∀ f ∈ (scan w path t).findings, ∀ span, f.kind ≠ .emptyCollection (some span))
    (h : repair w path t = .ok o) :
    ∃ r', (Sections.ofLines (Line.ofText o.text)).properties = .ok (some r') ∧
      r'.depth = r.depth ∧
      (r'.declarations .schemaProperty (r.depth + w)).map
          (fun d => (d.name, Text.slice o.text d.span)) =
        ((r.declarations .schemaProperty (r.depth + w)).map
          fun d => (d.name, Text.slice t d.span)).filter
            fun b => !((slots.declarations .slot (slots.depth + w)).map
              Declaration.name).contains b.1 := by
  obtain ⟨hpasses, hsettled, -, -⟩ := passes_of_repair h
  have hdeclared : declaredDepth w (Line.ofText t) r = r.depth + w := by
    unfold declaredDepth
    cases hprops : found (Sections.ofLines (Line.ofText t)).props with
    | none => rfl
    | some props =>
      rw [propertyDepth, hdepth props (found_eq_some_iff.1 hprops)]
      omega
  have hstart : Unshadowed w r.depth (slotNames w slots) _ (Line.ofText t) r slots :=
    ⟨hr, hslots, rfl, hdeclared, rfl, aligned_of_scan hr hrealign, rfl⟩
  obtain ⟨r', slots', hend⟩ := hpasses.preserves
    (P := fun ls => ∃ r' slots', Unshadowed w r.depth (slotNames w slots) _ ls r' slots')
    (by
      rintro _ _ _ ⟨_, _, hu⟩ hchange
      exact hu.change hchange)
    ⟨r, slots, hstart⟩
  have hblocks := hend.kept_eq_blocks hsettled
  have htext := text_of_isIn (isIn_of_properties hr)
  have htext' := text_of_isIn (isIn_of_properties hend.properties)
  refine ⟨r', hend.properties, hend.depth_eq, ?_⟩
  rw [← htext, ← htext', Region.map_slice_declarations, Region.map_slice_declarations, ← hblocks,
    List.filter_map]
  rfl

/-- Of two properties one has the name of a slot. -/
theorem repair_keeps_unshadowed_one_of_two :
    ∃ r' : Region,
      (Sections.ofLines (Line.ofText
        "props:\n  properties:\n    b: y\nslots:\n  a: z\n".toList)).properties = .ok (some r') ∧
      (r'.declarations .schemaProperty 4).map (fun d => (d.name, Text.slice
          "props:\n  properties:\n    b: y\nslots:\n  a: z\n".toList d.span)) =
        [("b".toList, "    b: y\n".toList)] := by
  have hr : (Sections.ofLines (Line.ofText
      "props:\n  properties:\n    a: x\n    b: y\nslots:\n  a: z\n".toList)).properties =
      .ok (some ⟨[⟨"props:".toList, ['\n']⟩], ⟨"  properties:".toList, ['\n']⟩,
        "properties".toList, [⟨"    a: x".toList, ['\n']⟩, ⟨"    b: y".toList, ['\n']⟩],
        [⟨"slots:".toList, ['\n']⟩, ⟨"  a: z".toList, ['\n']⟩]⟩) := rfl
  have hslots : (Sections.ofLines (Line.ofText
      "props:\n  properties:\n    a: x\n    b: y\nslots:\n  a: z\n".toList)).slots =
      .ok (some ⟨[⟨"props:".toList, ['\n']⟩, ⟨"  properties:".toList, ['\n']⟩,
        ⟨"    a: x".toList, ['\n']⟩, ⟨"    b: y".toList, ['\n']⟩], ⟨"slots:".toList, ['\n']⟩,
        "slots".toList, [⟨"  a: z".toList, ['\n']⟩], []⟩) := rfl
  have hkinds : (scan 2 "card.yml"
      "props:\n  properties:\n    a: x\n    b: y\nslots:\n  a: z\n".toList).findings.map
        Finding.kind = [.nameConflict "a".toList none] := rfl
  have hrepair : repair 2 "card.yml"
      "props:\n  properties:\n    a: x\n    b: y\nslots:\n  a: z\n".toList =
      .ok ⟨"props:\n  properties:\n    b: y\nslots:\n  a: z\n".toList,
        [⟨"card.yml", 3, ⟨21, 30⟩, "    a: x\n".toList, .nameConflict "a".toList none⟩],
        [], []⟩ := rfl
  obtain ⟨r', hr', -, hleft⟩ := repair_keeps_unshadowed hr hslots
    (fun props hprops => by rw [(isIn_of_props hprops).2.1]; rfl)
    (fun f hf span hkind => by
      have hmem := List.mem_map_of_mem (f := Finding.kind) hf
      rw [hkinds, List.mem_singleton, hkind] at hmem
      cases hmem) hrepair
  exact ⟨r', hr', hleft⟩

end Component
end ThemeRepair
