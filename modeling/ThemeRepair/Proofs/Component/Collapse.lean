import ThemeRepair.Proofs.Component.Checks

/-!
# Where a resolved conflict leaves an empty mapping

With the last property the header of the properties gets an empty mapping, so that no bare header is
left behind.  Whether a property is the last one is told from the declarations: the header gets the
mapping exactly if one name is declared below it (`Component.collapse_iff_sole`).

A body without content declares nothing, so the mapping is never missing.  The converse fails.  A
body also holds lines that declare no name at the depth of the properties: quoted keys, items of a
sequence, lines that are less deep.  They stay below the mapping.
-/

namespace ThemeRepair
namespace Component

open Line (trimmed)
open Declaration (eraseBlock)

/-- Of two regions the first has no value on its header, and the second an empty mapping. -/
def GetsMapping (r r' : Region) : Prop := r.isBlock = true ∧ r'.inline = "{}".toList

variable {w : Nat} {path : String} {t t' : Text} {f : Finding} {name : Text}
  {collapse : Option Span} {r r' : Region}

theorem not_getsMapping_of_header (hheader : r'.header = r.header)
    (hkeyword : r'.keyword = r.keyword) : ¬ GetsMapping r r' := by
  rintro ⟨hblock, hinline⟩
  rw [Region.inline_congr hheader hkeyword] at hinline
  rw [Region.isBlock, hinline] at hblock
  cases hblock

/-- Content below a header is content of the lines that its body is taken from. -/
theorem hasContent_of_body {ls : List Line} (hbody : r.body = trimmed ls) :
    r.hasContent = ls.any Line.isContent := by
  rw [Region.hasContent, Region.firstContent?, hbody, Line.find?_trimmed, Bool.eq_iff_iff,
    List.find?_isSome, List.any_eq_true]

/-- **A header gets an empty mapping for the only property below it.**  The fix of a conflict takes
the block of the property away and nothing else of the body.  The header gets an empty mapping
exactly if no other property is declared, and stays as it is otherwise.  It gets one wherever the
body has no content left, and only there but for content that declares no property. -/
theorem collapse_iff_sole (hmem : f ∈ (scan w path t).findings)
    (hkind : f.kind = .nameConflict name collapse) (hfix : f.fix t = .ok t') :
    ∃ r r', (Sections.ofLines (Line.ofText t)).properties = .ok (some r) ∧
      (Sections.ofLines (Line.ofText t')).properties = .ok (some r') ∧
      r'.body = trimmed (eraseBlock (declaredDepth w (Line.ofText t) r) name r.body) ∧
      (GetsMapping r r' ↔
        (r.declarations .schemaProperty (declaredDepth w (Line.ofText t) r)).length = 1) ∧
      (¬ GetsMapping r r' → r'.header = r.header) ∧
      (r'.hasContent = false → GetsMapping r r') ∧
      ((GetsMapping r r' ↔ r'.hasContent = false) ↔
        ¬ ((r.declarations .schemaProperty (declaredDepth w (Line.ofText t) r)).length = 1 ∧
          ∃ l ∈ eraseBlock (declaredDepth w (Line.ofText t) r) name r.body,
            l.isContent = true)) := by
  have hchange := change_of_fix hmem (by rw [hkind]; rfl) hfix
  rw [hkind] at hchange
  generalize Line.ofText t' = ls' at hchange ⊢
  cases hchange with
  | @removed r slots _ hr hslots htaken hname hmany =>
    have hin := isIn_of_properties hr
    obtain ⟨r', hr', hheader, hbody, -⟩ := exists_properties_of_rewrites hr
      (rewrites_eraseBlock hin (declaredDepth w (Line.ofText t) r) name)
    have hkeyword : r'.keyword = r.keyword := hin.keyword_congr (isIn_of_properties hr')
    have hnot := not_getsMapping_of_header hheader hkeyword
    have hcontent := Region.hasContent_of_blocks (blocks_of_erased_ne_nil hin hbody hname hmany)
    rw [nested_of_sublist hin (Declaration.sublist_eraseBlock _ _ _)] at hbody
    refine ⟨r, r', hr, hr', hbody, ?_, fun _ => hheader, ?_, ?_⟩
    · rw [Region.length_declarations]
      exact iff_of_false hnot hmany
    · rw [hcontent]
      intro hfalse
      cases hfalse
    · rw [Region.length_declarations, hcontent]
      exact iff_of_true (iff_of_false hnot (by decide)) fun h => hmany h.1
  | @collapsed r slots _ hr hslots htaken hname hone hblock =>
    have hin := isIn_of_properties hr
    have hm : r.Mappable := Or.inl hblock
    obtain ⟨r', hr', hheader, hbody, -⟩ := exists_properties_of_rewrites hr
      (rewrites_mapped hin hm
        (Declaration.sublist_eraseBlock (declaredDepth w (Line.ofText t) r) name r.body))
    have hkeyword : r'.keyword = r.keyword := hin.keyword_congr (isIn_of_properties hr')
    have hgets : GetsMapping r r' :=
      ⟨hblock, Region.inline_of_mapped hin.hasKey hm hheader hkeyword⟩
    rw [nested_of_sublist hin (Declaration.sublist_eraseBlock _ _ _)] at hbody
    refine ⟨r, r', hr, hr', hbody, ?_, fun hnot => absurd hgets hnot, fun _ => hgets, ?_⟩
    · rw [Region.length_declarations]
      exact iff_of_true hgets hone
    · -- The mapping is there, so what counts is whether something stands below it.
      rw [Region.length_declarations, hasContent_of_body hbody, iff_true_left hgets,
        and_iff_right hone, List.any_eq_false]
      simp only [not_exists, not_and]

/-- The second of two properties goes, the first one and a comment stay below a bare header. -/
theorem collapse_iff_sole_of_two :
    ∃ r r' : Region, (Sections.ofLines (Line.ofText
        "properties:\n  a: x\n  b: y\n  # c\nslots:\n  b: z\n".toList)).properties =
          .ok (some r) ∧
      (Sections.ofLines (Line.ofText
        "properties:\n  a: x\n  # c\nslots:\n  b: z\n".toList)).properties = .ok (some r') ∧
      ¬ GetsMapping r r' ∧ r'.hasContent = true := by
  have hmem : (⟨"card.yml", 3, ⟨19, 26⟩, "  b: y\n".toList,
      .nameConflict "b".toList none⟩ : Finding) ∈
      (scan 2 "card.yml" "properties:\n  a: x\n  b: y\n  # c\nslots:\n  b: z\n".toList).findings :=
    List.mem_cons_self
  have hfix : (⟨"card.yml", 3, ⟨19, 26⟩, "  b: y\n".toList,
      .nameConflict "b".toList none⟩ : Finding).fix
        "properties:\n  a: x\n  b: y\n  # c\nslots:\n  b: z\n".toList =
      .ok "properties:\n  a: x\n  # c\nslots:\n  b: z\n".toList := rfl
  obtain ⟨r, r', hr, hr', -, hgets, -, hcontent, -⟩ := collapse_iff_sole hmem rfl hfix
  have hnot : ¬ GetsMapping r r' := by
    rw [hgets]
    cases hr
    decide
  refine ⟨r, r', hr, hr', hnot, ?_⟩
  rw [← Bool.not_eq_false]
  exact fun hfalse => hnot (hcontent hfalse)

/-- A quoted key declares no name.  It is left below the mapping that the header gets for the only
property with a name. -/
theorem fix_collapses_over_content :
    ∃ f ∈ (scan 2 "card.yml" "properties:\n  a: x\n  \"b\": y\nslots:\n  a: z\n".toList).findings,
      f.kind = .nameConflict "a".toList (some ⟨11, 11⟩) ∧
        f.fix "properties:\n  a: x\n  \"b\": y\nslots:\n  a: z\n".toList =
          .ok "properties: {}\n  \"b\": y\nslots:\n  a: z\n".toList ∧
        ∃ r', (Sections.ofLines (Line.ofText
            "properties: {}\n  \"b\": y\nslots:\n  a: z\n".toList)).properties = .ok (some r') ∧
          r'.inline = "{}".toList ∧ r'.hasContent = true :=
  ⟨⟨"card.yml", 2, ⟨12, 19⟩, "  a: x\n".toList, .nameConflict "a".toList (some ⟨11, 11⟩)⟩,
    List.mem_cons_self, rfl, rfl, _, rfl, rfl, rfl⟩

end Component
end ThemeRepair
