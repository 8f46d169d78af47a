import ThemeRepair.Proofs.Component.Rewriting

/-!
# Where a misplaced section goes

A section that stands below a bare properties header by less than one level is no property.  Its
header line gets the indentation of the properties header, and that header an empty mapping.
`Component.realign_moves_section_out` says what the next scan then makes of the document: nothing is
left below the properties, and all that stood below the misplaced line belongs to the section that
this line opens, up to the place where the properties ended.

Nothing but the two header lines is written.  The rest of the body is deeper than the properties
header, so it is deeper than the line that was moved, and what ended the properties ends the section
(`Region.capture_of_body`).
-/

namespace ThemeRepair
namespace Component

variable {w : Nat} {path : String} {t t' : Text} {f : Finding} {s : Span} {r : Region}
  {blanks rest : List Line} {l : Line}

/-! ## The section and its place -/

/-- The first content line below the properties is the header of a section and less than one level
deeper.  `blanks` stand in front of it and `rest` behind it, and `s` is its indentation. -/
structure IsMisplaced (w : Nat) (r : Region) (blanks : List Line) (l : Line) (rest : List Line)
    (key : Text) (s : Span) : Prop where
  body_eq : r.body = blanks ++ l :: rest
  blank : ∀ m ∈ blanks, m.isContent = false
  isContent : l.isContent = true
  depth_lt : l.depth < r.depth + w
  key_eq : l.key? = some key
  sibling : key ∈ siblingKeywords
  start_eq : s.start = r.bodyStart + Line.total blanks
  stop_eq : s.stop = s.start + Text.size l.indentation

/-- The text `t'` in which a section misplaced below the properties `r` of `t` is moved out of them:
`r'` are the properties there, and `m` is the header of the section. -/
structure MovedOut (t t' : Text) (r : Region) (blanks : List Line) (l : Line) (rest : List Line)
    (key : Text) (r' : Region) (m : Line) : Prop where
  lines_eq : Line.ofText t' = r.before ++ r'.header :: (blanks ++ m :: (rest ++ r.after))
  start_eq : r'.start = r.start
  inline_eq : r'.inline = "{}".toList
  body_eq : r'.body = []
  header_indentation : r'.header.indentation = r.header.indentation
  indentation_eq : m.indentation = r.header.indentation
  says_eq : m.body = l.body ∧ m.ending = l.ending
  /-- Wherever the search is limited behind the old end of the properties, what the moved line opens
  is the rest of their body. -/
  captured : ∀ inner outer, r.after = inner ++ outer →
    ∃ moved : Region,
      Region.capture key (r.before ++ r'.header :: blanks) m (rest ++ inner) outer = .ok moved ∧
        moved.body = rest ∧ moved.stop + Text.size t = r.stop + Text.size t'

theorem isMisplaced_of_misplacedSibling? (h : misplacedSibling? w r = some s) :
    ∃ blanks l rest key, IsMisplaced w r blanks l rest key s := by
  obtain ⟨blanks, l, rest, hbody, hblanks, hl, hdepth, hkey, rfl⟩ := exists_of_misplacedSibling? h
  obtain ⟨key, hkey, hsibling⟩ := (Option.any_eq_true _ _).1 hkey
  exact ⟨blanks, l, rest, key, hbody, hblanks, hl, hdepth, hkey, by simpa using hsibling, rfl, rfl⟩

/-- Only below a bare properties header a section is found misplaced. -/
theorem misplaced_of_mem_scan (hmem : f ∈ (scan w path t).findings)
    (hkind : f.kind = .emptyCollection (some s)) :
    ∃ r, (Sections.ofLines (Line.ofText t)).properties = .ok (some r) ∧
      misplacedSibling? w r = some s := by
  obtain ⟨⟨span, kind⟩, hd, rfl⟩ := List.mem_map.1 hmem
  obtain rfl : kind = .emptyCollection (some s) := hkind
  rcases List.mem_append.1 hd with hd | hd
  · rcases List.mem_append.1 hd with hd | hd
    · rw [propertiesDefects] at hd
      split at hd
      · next r hr =>
        refine ⟨r, found_eq_some_iff.1 hr, ?_⟩
        rcases cases_of_mem_emptyProperties hd with ⟨-, hk, -⟩ | ⟨-, hk, -⟩ | ⟨_, -, hk, -, hs⟩
        · cases hk
        · cases hk
        · cases hk
          exact hs
      · cases hd
    · obtain ⟨_, hk⟩ := kind_of_mem_variantsDefects hd
      cases hk
  · obtain ⟨_, _, hk⟩ := kind_of_mem_conflictDefects hd
    cases hk

/-! ## The fix -/

/-- The fix of a misplaced section moves that line and maps the properties header. -/
theorem exists_fix_of_misplaced {key : Text} (hmem : f ∈ (scan w path t).findings)
    (hkind : f.kind = .emptyCollection (some s))
    (hr : (Sections.ofLines (Line.ofText t)).properties = .ok (some r))
    (hplace : IsMisplaced w r blanks l rest key s) :
    ∃ t', f.fix t = .ok t' ∧ r.isBlock = true ∧ Line.ofText t' =
      rewritten r r.mapped (blanks ++ l.withIndentation r.header.indentation :: rest) := by
  rcases fix_cases hmem (by rw [hkind]; rfl) with ⟨t', hfix, hchange⟩ | ⟨_, _, _, hconflict, -⟩
  · rw [hkind] at hchange
    refine ⟨t', hfix, ?_⟩
    generalize Line.ofText t' = ls' at hchange
    cases hchange with
    | realigned _ hr' hblock hbody hblanks hl =>
      obtain rfl := Option.some.inj (Except.ok.inj (hr.symm.trans hr'))
      -- The line that the change moves is the misplaced one, for both are the first with content.
      obtain ⟨rfl, rfl, rfl⟩ := Line.eq_of_append_cons (hplace.body_eq.symm.trans hbody)
        hplace.blank hplace.isContent hblanks hl
      refine ⟨hblock, ?_⟩
      rw [rewritten, List.append_assoc, List.cons_append]
  · rw [hkind] at hconflict
    cases hconflict

/-- What the next scan makes of it. -/
theorem exists_movedOut {key : Text}
    (hr : (Sections.ofLines (Line.ofText t)).properties = .ok (some r)) (hblock : r.isBlock = true)
    (hplace : IsMisplaced w r blanks l rest key s)
    (hlines : Line.ofText t' =
      rewritten r r.mapped (blanks ++ l.withIndentation r.header.indentation :: rest)) :
    ∃ r', (Sections.ofLines (Line.ofText t')).properties = .ok (some r') ∧
      MovedOut t t' r blanks l rest key r' (l.withIndentation r.header.indentation) := by
  have hin := isIn_of_properties hr
  have hsibling : l.key?.any siblingKeywords.contains = true := by
    rw [hplace.key_eq]
    simpa using hplace.sibling
  have hrewrites := rewrites_realigned hin hblock hplace.body_eq hplace.isContent hsibling
  obtain ⟨r', hr', hbefore, hheader, hbody, -⟩ := exists_properties_at_of_rewrites hr hrewrites
  rw [← hlines] at hr'
  have hkeyword := hin.keyword_congr (isIn_of_properties hr')
  have hindent := Region.isIndent_of_mem_indentation (l := r.header)
  obtain ⟨hindentation, hsaid⟩ := Line.withIndentation_eq hplace.isContent hindent
  have hcontent := Line.isContent_withIndentation hplace.isContent hindent
  have hlines' : Line.ofText t' = r.before ++ r'.header ::
      (blanks ++ l.withIndentation r.header.indentation :: (rest ++ r.after)) := by
    rw [hlines, hheader, rewritten, List.append_assoc, List.cons_append]
  refine ⟨r', hr', hlines', ?_, ?_, ?_, ?_, hindentation, ⟨hsaid, rfl⟩, ?_⟩
  · rw [Region.start, Region.start, hbefore]
  · exact Region.inline_of_mapped hin.hasKey (Or.inl hblock) hheader hkeyword
  · rw [hbody]
    exact nested_of_realigned hplace.blank hplace.isContent
  · rw [hheader]
    exact Region.indentation_mapped hin.hasKey
  · intro inner outer hafter
    refine ⟨_, Region.capture_of_body hin hplace.body_eq hplace.isContent hcontent hindentation key hafter,
      rfl, ?_⟩
    have hsize := r.size_text
    rw [text_of_isIn hin] at hsize
    have hsize' := Region.size_text ⟨r.before ++ r'.header :: blanks,
      l.withIndentation r.header.indentation, key, rest, r.after⟩
    rw [Region.text, Region.lines, List.append_assoc, List.cons_append, ← hlines',
      Line.join_ofText] at hsize'
    change Text.size t' = _ + Line.total r.after at hsize'
    omega

/-- **A misplaced section is moved out of the properties as a whole.**  Where a scan finds a section
below the properties header, the fix succeeds.  The properties are then found at the same place,
with an empty mapping and nothing below them; the section's header has their indentation; and what
it opens ends where the properties ended and holds the rest of their body. -/
theorem realign_moves_section_out (hmem : f ∈ (scan w path t).findings)
    (hkind : f.kind = .emptyCollection (some s)) :
    ∃ t' r r' blanks l rest key m, f.fix t = .ok t' ∧
      (Sections.ofLines (Line.ofText t)).properties = .ok (some r) ∧
      IsMisplaced w r blanks l rest key s ∧
      (Sections.ofLines (Line.ofText t')).properties = .ok (some r') ∧
      MovedOut t t' r blanks l rest key r' m := by
  obtain ⟨r, hr, hmisplaced⟩ := misplaced_of_mem_scan hmem hkind
  obtain ⟨blanks, l, rest, key, hplace⟩ := isMisplaced_of_misplacedSibling? hmisplaced
  obtain ⟨t', hfix, hblock, hlines⟩ := exists_fix_of_misplaced hmem hkind hr hplace
  obtain ⟨r', hr', hmoved⟩ := exists_movedOut hr hblock hplace hlines
  exact ⟨t', r, r', blanks, l, rest, key, _, hfix, hr, hplace, hr', hmoved⟩

namespace MisplacedSlots

/-- The slots stand one column below the properties, behind a blank line and a comment. -/
def text : Text :=
  ("props:\r\n  properties:   # none\r\n\n    # note\n" ++
    "   slots:\r\n      a: x\n\n      b: y\nvariants: \x7b\x7d\n").toList

def misplaced : Finding :=
  ⟨"c.component.yml", 2, ⟨21, 24⟩, "   ".toList, .emptyCollection (some ⟨44, 47⟩)⟩

end MisplacedSlots

open MisplacedSlots in
theorem realign_moves_section_out_misplacedSlots :
    misplaced ∈ (scan 2 "c.component.yml" text).findings ∧
      misplaced.kind = .emptyCollection (some ⟨44, 47⟩) ∧
      ∃ t' r r' blanks l rest key m, misplaced.fix text = .ok t' ∧
        (Sections.ofLines (Line.ofText text)).properties = .ok (some r) ∧
        IsMisplaced 2 r blanks l rest key ⟨44, 47⟩ ∧
        (Sections.ofLines (Line.ofText t')).properties = .ok (some r') ∧
        MovedOut text t' r blanks l rest key r' m := by
  have hmem : misplaced ∈ (scan 2 "c.component.yml" text).findings := by decide +kernel
  exact ⟨hmem, rfl, realign_moves_section_out hmem rfl⟩

end Component
end ThemeRepair
