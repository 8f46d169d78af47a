import ThemeRepair.Component.Repair
import ThemeRepair.Proofs.Component.Conflict
import ThemeRepair.Proofs.Region.Edit

/-!
# What one fix does

`Component.Change` says what the fix of a finding makes of the lines of a document, by the kind of
the finding and with nothing said of offsets: which line gets an empty mapping, which one another
indentation, which block goes.  `Component.fix_cases` says that a finding of a scan is fixed, that
the fix does no more than that, and that the new text is read into the changed lines; only a
conflict whose header has a value may be refused.

All that is said of a pass of a repair, and of the whole of it, rests on these five cases.
-/

namespace ThemeRepair
namespace Component

open Region (HasKey)

/-! ## The regions of a scan -/

variable {ls : List Line} {r : Region}

theorem isIn_of_props (h : (Sections.ofLines ls).props = .ok (some r)) :
    r.IsIn "props".toList ls ∧ r.depth = 0 ∧
      ∀ l ∈ r.before, (l.declares "props".toList && l.depth == 0) = false :=
  Region.isIn_of_findSection h

theorem isIn_of_variants (h : (Sections.ofLines ls).variants = .ok (some r)) :
    r.IsIn "variants".toList ls :=
  (Region.isIn_of_findSection h).1

theorem properties_of_no_props (h : (Sections.ofLines ls).props = .ok none) :
    (Sections.ofLines ls).properties = Region.find "properties".toList ls := by
  show Sections.locateProperties ls (Sections.ofLines ls).props = _
  rw [h]
  rfl

theorem properties_of_props {props : Region} (h : (Sections.ofLines ls).props = .ok (some props)) :
    (Sections.ofLines ls).properties = props.child "properties".toList := by
  show Sections.locateProperties ls (Sections.ofLines ls).props = _
  rw [h]
  rfl

/-- The properties are the first ones of a document without props, or a child of the props. -/
theorem properties_cases (h : (Sections.ofLines ls).properties = .ok (some r)) :
    (Sections.ofLines ls).props = .ok none ∧
        Region.find "properties".toList ls = .ok (some r) ∨
      ∃ props : Region, (Sections.ofLines ls).props = .ok (some props) ∧
        props.child "properties".toList = .ok (some r) := by
  cases hprops : (Sections.ofLines ls).props with
  | error e =>
    change Sections.locateProperties ls (Sections.ofLines ls).props = _ at h
    rw [hprops] at h
    cases h
  | ok props? =>
    cases props? with
    | none => exact Or.inl ⟨rfl, properties_of_no_props hprops ▸ h⟩
    | some props => exact Or.inr ⟨props, rfl, properties_of_props hprops ▸ h⟩

theorem isIn_of_properties (h : (Sections.ofLines ls).properties = .ok (some r)) :
    r.IsIn "properties".toList ls := by
  rcases properties_cases h with ⟨-, hfind⟩ | ⟨props, hprops, hchild⟩
  · exact (Region.isIn_of_find hfind).1
  · exact (Region.isIn_of_child (isIn_of_props hprops).1 hchild).1

theorem found_eq_some_iff {x : Except RegionError (Option Region)} :
    found x = some r ↔ x = .ok (some r) := by
  cases x <;> simp [found]

/-- The depth at which a scan looks for properties. -/
def declaredDepth (w : Nat) (ls : List Line) (r : Region) : Nat :=
  propertyDepth w (found (Sections.ofLines ls).props) r

/-- The names of the slots of a document. -/
def slotNames (w : Nat) (slots : Region) : List Text :=
  (slots.declarations .slot (slots.depth + w)).map Declaration.name

/-! ## The changes -/

/-- What the fix of a finding makes of the lines of a document. -/
inductive Change (w : Nat) (ls : List Line) : FindingKind → List Line → Prop
  /-- The properties header, with an empty sequence or without value and body, gets an empty
  mapping. -/
  | mapped {r : Region} (hr : (Sections.ofLines ls).properties = .ok (some r))
      (hm : Region.isEmptySequence r.inline = true ∨ r.isBlock = true ∧ r.hasContent = false) :
      Change w ls (.emptyCollection none) (r.before ++ r.mapped :: (r.body ++ r.after))
  /-- The properties header gets an empty mapping, and the misplaced line below it gets the
  indentation of the header. -/
  | realigned {r : Region} {blanks rest : List Line} {l : Line} (span : Span)
      (hr : (Sections.ofLines ls).properties = .ok (some r)) (hblock : r.isBlock = true)
      (hbody : r.body = blanks ++ l :: rest) (hblanks : ∀ m ∈ blanks, m.isContent = false)
      (hl : l.isContent = true) (hdepth : l.depth < r.depth + w)
      (hkey : l.key?.any siblingKeywords.contains = true) :
      Change w ls (.emptyCollection (some span))
        (r.before ++ r.mapped ::
          (blanks ++ l.withIndentation r.header.indentation :: (rest ++ r.after)))
  /-- The variants header gets an empty mapping for its empty sequence. -/
  | variants {v : Region} (hv : (Sections.ofLines ls).variants = .ok (some v))
      (hseq : Region.isEmptySequence v.inline = true) :
      Change w ls (.sequenceForMapping .variantsRoot) (v.before ++ v.mapped :: (v.body ++ v.after))
  /-- The first property of the name goes. -/
  | removed {r slots : Region} {name : Text}
      (hr : (Sections.ofLines ls).properties = .ok (some r))
      (hslots : (Sections.ofLines ls).slots = .ok (some slots))
      (htaken : name ∈ slotNames w slots)
      (hname : name ∈ (r.blocks (declaredDepth w ls r)).map Prod.fst)
      (hmany : (r.blocks (declaredDepth w ls r)).length ≠ 1) :
      Change w ls (.nameConflict name none)
        (r.before ++ r.header ::
          (Declaration.eraseBlock (declaredDepth w ls r) name r.body ++ r.after))
  /-- The only property goes, and the properties header gets an empty mapping. -/
  | collapsed {r slots : Region} {name : Text}
      (hr : (Sections.ofLines ls).properties = .ok (some r))
      (hslots : (Sections.ofLines ls).slots = .ok (some slots))
      (htaken : name ∈ slotNames w slots)
      (hname : name ∈ (r.blocks (declaredDepth w ls r)).map Prod.fst)
      (hone : (r.blocks (declaredDepth w ls r)).length = 1) (hblock : r.isBlock = true) :
      Change w ls (.nameConflict name (some r.valueSpan))
        (r.before ++ r.mapped ::
          (Declaration.eraseBlock (declaredDepth w ls r) name r.body ++ r.after))

/-! ## A fix is a change -/

/-- A finding at a span that cuts the text is fixed: the text there is what the scan saw. -/
theorem fix_locatedAt {path : String} {t front inside behind : Text} {span : Span}
    {kind : FindingKind} (h : span.Cuts t front inside behind) :
    (Finding.locatedAt path t span kind).fix t = Finding.fixFresh t span kind := by
  have hexpect : Text.expect t span (Text.slice t span) = .ok () := by
    rw [h.slice_eq]
    exact h.expect_eq
  simp only [Finding.fix, Finding.locatedAt, hexpect]
  rfl

theorem text_of_isIn {keyword t : Text} (h : r.IsIn keyword (Line.ofText t)) : r.text = t := by
  rw [Region.text, h.lines_eq, Line.join_ofText]

theorem areRead_of_isIn {keyword t : Text} (h : r.IsIn keyword (Line.ofText t)) :
    Line.AreRead r.lines := by
  rw [h.lines_eq]
  exact Line.areRead_ofText t

/-- The defects of a properties header, each with its cause. -/
theorem cases_of_mem_emptyProperties {w : Nat} {span : Span} {kind : FindingKind}
    (h : (span, kind) ∈ emptyProperties w r) :
    (span = r.inlineSpan ∧ kind = .emptyCollection none ∧
        Region.isEmptySequence r.inline = true) ∨
      (span = r.valueSpan ∧ kind = .emptyCollection none ∧ r.isBlock = true ∧
        r.hasContent = false) ∨
      (∃ indentation, span = r.valueSpan ∧ kind = .emptyCollection (some indentation) ∧
        r.isBlock = true ∧ misplacedSibling? w r = some indentation) := by
  unfold emptyProperties at h
  split at h
  · next hseq =>
    obtain ⟨rfl, rfl⟩ := Prod.mk.inj (List.mem_singleton.1 h)
    exact Or.inl ⟨rfl, rfl, hseq⟩
  · split at h
    · cases h
    · next hblock =>
      have hblock' : r.isBlock = true := by simpa using hblock
      split at h
      · next hcontent =>
        split at h
        · obtain ⟨rfl, rfl⟩ := Prod.mk.inj (List.mem_singleton.1 h)
          exact Or.inr (Or.inl ⟨rfl, rfl, hblock', by simpa using hcontent⟩)
        · cases h
      · split at h
        · next indentation hmisplaced =>
          obtain ⟨rfl, rfl⟩ := Prod.mk.inj (List.mem_singleton.1 h)
          exact Or.inr (Or.inr ⟨indentation, rfl, rfl, hblock', hmisplaced⟩)
        · cases h

/-- Each check has its own kinds. -/
theorem kind_of_mem_propertiesDefects {w : Nat} {s : Sections} {d : Defect}
    (h : d ∈ propertiesDefects w s) : ∃ realign, d.2 = .emptyCollection realign := by
  unfold propertiesDefects at h
  split at h
  · rcases cases_of_mem_emptyProperties h with ⟨-, hkind, -⟩ | ⟨-, hkind, -⟩ | ⟨_, -, hkind, -⟩
    · exact ⟨_, hkind⟩
    · exact ⟨_, hkind⟩
    · exact ⟨_, hkind⟩
  · cases h

theorem kind_of_mem_variantsDefects {s : Sections} {d : Defect} (h : d ∈ variantsDefects s) :
    ∃ target, d.2 = .sequenceForMapping target := by
  unfold variantsDefects at h
  split at h
  · split at h
    · rw [variantsShape] at h
      split at h
      · exact ⟨.variantsRoot, by rw [List.mem_singleton.1 h]⟩
      · obtain ⟨r, -, rfl⟩ := List.mem_map.1 h
        exact ⟨.variantsDefault, rfl⟩
    · cases h
  · cases h

theorem kind_of_mem_conflictDefects {w : Nat} {s : Sections} {d : Defect}
    (h : d ∈ conflictDefects w s) : ∃ name collapse, d.2 = .nameConflict name collapse := by
  unfold conflictDefects at h
  split at h
  · obtain ⟨d, -, rfl⟩ := List.mem_map.1 h
    exact ⟨_, _, rfl⟩
  · cases h

/-- A misplaced section keyword is the first content line of the body. -/
theorem exists_of_misplacedSibling? {w : Nat} {indentation : Span}
    (h : misplacedSibling? w r = some indentation) :
    ∃ blanks l rest, r.body = blanks ++ l :: rest ∧ (∀ m ∈ blanks, m.isContent = false) ∧
      l.isContent = true ∧ l.depth < r.depth + w ∧
      l.key?.any siblingKeywords.contains = true ∧
      indentation = ⟨r.bodyStart + Line.total blanks,
        r.bodyStart + Line.total blanks + Text.size l.indentation⟩ := by
  unfold misplacedSibling? at h
  split at h
  · next l hfirst =>
    split at h
    · next hcond =>
      cases h
      obtain ⟨hl, blanks, rest, hbody, hblanks⟩ := List.find?_eq_some_iff_append.1 hfirst
      have hblanks' : ∀ m ∈ blanks, m.isContent = false := fun m hm => by
        simpa using hblanks m hm
      have htake : r.body.takeWhile (fun l => !l.isContent) = blanks := by
        rw [hbody, Line.takeWhile_of_blank hblanks' hl]
      refine ⟨blanks, l, rest, hbody, hblanks', hl, hcond.1, hcond.2, ?_⟩
      rw [Region.firstContentStart, htake]
    · cases h
  · cases h

/-- With another body below the header, an empty mapping is written all the same. -/
theorem exists_writeEmptyMapping {body : List Line} (h : HasKey r)
    (hread : Line.AreRead { r with body := body }.lines) (hblock : r.isBlock = true) :
    ∃ t', writeEmptyMapping { r with body := body }.text r.valueSpan = .ok t' ∧
      Line.ofText t' = r.before ++ r.mapped :: (body ++ r.after) :=
  ⟨_, Region.writeEmptyMapping_valueSpan (r := { r with body := body }) h hread hblock,
    Line.ofText_join (Region.areRead_mapped (r := { r with body := body }) h hread)⟩

/-- Where the value has to be blank for it, it is written only if there is no value. -/
theorem collapse_cases {body : List Line} (h : HasKey r)
    (hread : Line.AreRead { r with body := body }.lines) :
    (r.isBlock = true ∧ ∃ t', (do
        Text.expectWhite { r with body := body }.text r.valueSpan
        writeEmptyMapping { r with body := body }.text r.valueSpan) = .ok t' ∧
        Line.ofText t' = r.before ++ r.mapped :: (body ++ r.after)) ∨
      r.isBlock = false ∧ (do
        Text.expectWhite { r with body := body }.text r.valueSpan
        writeEmptyMapping { r with body := body }.text r.valueSpan) =
          .error (.stale r.valueSpan []) := by
  have hwhite := (Region.cuts_valueSpan (r := { r with body := body }) h).expectWhite_eq
  cases hblock : r.isBlock with
  | true =>
    have hexpect : Text.expectWhite { r with body := body }.text r.valueSpan = .ok () :=
      hwhite.trans (if_pos (Region.isBlock_iff.1 hblock))
    rw [hexpect]
    exact Or.inl ⟨rfl, exists_writeEmptyMapping h hread hblock⟩
  | false =>
    have hvalue : ¬ Text.isAllWhite r.value = true := fun h => by
      rw [Region.isBlock_iff.2 h] at hblock
      cases hblock
    have hexpect : Text.expectWhite { r with body := body }.text r.valueSpan =
        .error (.stale r.valueSpan []) := hwhite.trans (if_neg hvalue)
    rw [hexpect]
    exact Or.inr ⟨rfl, rfl⟩

/-- The fix of a defect of a properties header. -/
theorem exists_fix_of_emptyProperties {w : Nat} {t : Text} {span : Span} {kind : FindingKind}
    (path : String) (hr : (Sections.ofLines (Line.ofText t)).properties = .ok (some r))
    (hmem : (span, kind) ∈ emptyProperties w r) :
    ∃ t', (Finding.locatedAt path t span kind).fix t = .ok t' ∧
      Change w (Line.ofText t) kind (Line.ofText t') := by
  have hin := isIn_of_properties hr
  have hkey := hin.hasKey
  have hread := areRead_of_isIn hin
  have htext := text_of_isIn hin
  rcases cases_of_mem_emptyProperties hmem with
    ⟨rfl, rfl, hseq⟩ | ⟨rfl, rfl, hblock, hcontent⟩ | ⟨indentation, rfl, rfl, hblock, hmisplaced⟩
  · have hcuts := Region.cuts_inlineSpan hkey
    have hwrite := Region.writeEmptyMapping_inlineSpan hkey hseq
    rw [htext] at hcuts hwrite
    rw [fix_locatedAt hcuts, Finding.fixFresh, hwrite]
    refine ⟨_, rfl, ?_⟩
    rw [Line.ofText_join (Region.areRead_mapped hkey hread)]
    exact Change.mapped hr (Or.inl hseq)
  · have hcuts := Region.cuts_valueSpan hkey
    have hwrite := Region.writeEmptyMapping_valueSpan hkey hread hblock
    rw [htext] at hcuts hwrite
    rw [fix_locatedAt hcuts, Finding.fixFresh, hwrite]
    refine ⟨_, rfl, ?_⟩
    rw [Line.ofText_join (Region.areRead_mapped hkey hread)]
    exact Change.mapped hr (Or.inr ⟨hblock, hcontent⟩)
  · obtain ⟨blanks, l, rest, hbody, hblanks, hl, hdepth, hsibling, rfl⟩ :=
      exists_of_misplacedSibling? hmisplaced
    have hcuts := Region.cuts_valueSpan hkey
    rw [htext] at hcuts
    rw [fix_locatedAt hcuts, Finding.fixFresh]
    -- The line below the header is moved first; the header of the moved region is the old one.
    have hindent := Region.cuts_indentation hbody
    have hwhite : Text.isAllWhite l.indentation = true :=
      Text.isAllWhite_iff.2 fun c hc =>
        Line.isWhite_of_isIndent (Region.isIndent_of_mem_indentation c hc)
    have hexpect := hindent.expectWhite_eq
    rw [htext, if_pos hwhite] at hexpect
    have hat := Region.indentationAt_valueSpan hkey hread
    rw [htext] at hat
    have hsplice := Region.splice_indentation hbody r.header.indentation
    rw [htext] at hsplice
    have hread' := Region.areRead_withIndentation hread hbody hl
      (m := r.header) (by simp [Region.lines])
    obtain ⟨t', hwrite, hlines⟩ := exists_writeEmptyMapping hkey hread' hblock
    simp only [hexpect, hat, hsplice, bind, Except.bind]
    refine ⟨t', hwrite, ?_⟩
    rw [hlines, List.append_assoc, List.cons_append]
    exact Change.realigned _ hr hblock hbody hblanks hl hdepth hsibling

/-- The fix of the root of the variants. -/
theorem exists_fix_of_variantsShape {w : Nat} {t : Text} {span : Span} {kind : FindingKind}
    {defaults : List Region} (path : String)
    (hv : (Sections.ofLines (Line.ofText t)).variants = .ok (some r))
    (hmem : (span, kind) ∈ variantsShape r defaults) (hauto : kind.isAutoFixable = true) :
    ∃ t', (Finding.locatedAt path t span kind).fix t = .ok t' ∧
      Change w (Line.ofText t) kind (Line.ofText t') := by
  have hin := isIn_of_variants hv
  have hread := areRead_of_isIn hin
  unfold variantsShape at hmem
  split at hmem
  · next hseq =>
    obtain ⟨rfl, rfl⟩ := Prod.mk.inj (List.mem_singleton.1 hmem)
    have hcuts := Region.cuts_inlineSpan hin.hasKey
    have hsplice := Region.splice_inlineSpan hin.hasKey hseq
    rw [text_of_isIn hin] at hcuts hsplice
    rw [fix_locatedAt hcuts, Finding.fixFresh, hsplice]
    refine ⟨_, rfl, ?_⟩
    rw [Line.ofText_join (Region.areRead_mapped hin.hasKey hread)]
    exact Change.variants hv hseq
  · obtain ⟨v, -, hv⟩ := List.mem_map.1 hmem
    rw [← (Prod.mk.inj hv).2] at hauto
    exact absurd hauto (by decide)

/-- The fix of a property that a slot shadows: it is refused where the property is the only one and
its header has a value. -/
theorem fix_cases_of_nameConflicts {w : Nat} {t : Text} {span : Span} {kind : FindingKind}
    {slots : Region} (path : String)
    (hr : (Sections.ofLines (Line.ofText t)).properties = .ok (some r))
    (hslots : (Sections.ofLines (Line.ofText t)).slots = .ok (some slots))
    (hmem : (span, kind) ∈ nameConflicts w (declaredDepth w (Line.ofText t) r) r slots) :
    (∃ t', (Finding.locatedAt path t span kind).fix t = .ok t' ∧
        Change w (Line.ofText t) kind (Line.ofText t')) ∨
      ∃ name, kind = .nameConflict name (some r.valueSpan) ∧ r.isBlock = false ∧
        (r.blocks (declaredDepth w (Line.ofText t) r)).length = 1 ∧
        (Finding.locatedAt path t span kind).fix t = .error (.stale r.valueSpan []) := by
  have hin := isIn_of_properties hr
  have hread := areRead_of_isIn hin
  have htext := text_of_isIn hin
  set depth := declaredDepth w (Line.ofText t) r with hdepth
  obtain ⟨d, hd, heq⟩ := List.mem_map.1 hmem
  obtain ⟨rfl, rfl⟩ := Prod.mk.inj heq
  obtain ⟨htaken, -, hname⟩ := (mem_names_firstTaken [] _).1 (List.mem_map_of_mem hd)
  rw [Region.map_name_declarations] at hname
  rw [Region.length_declarations]
  -- A conflict is reported at the first declaration of its name, and there the block is erased.
  obtain ⟨above, l, rest, htake, habove, hl, hspan⟩ := exists_first_of_mem_firstTaken _ _ _ hd
  obtain ⟨front, inside, behind, hcuts, hjoin⟩ := Region.cuts_span_of_first htake habove hl
  rw [htext, ← hspan] at hcuts
  have hread' := Region.areRead_eraseBlock hread depth d.name
  have hsplice : Text.splice t d.span [] =
      .ok { r with body := Declaration.eraseBlock depth d.name r.body }.text := by
    rw [hcuts.splice_eq, List.nil_append, hjoin]
    rfl
  rw [fix_locatedAt hcuts]
  by_cases hone : (r.blocks depth).length = 1
  · rw [if_pos hone, Finding.fixFresh, hsplice]
    -- The value is read in the text without the block; its span is in front of it.
    rcases collapse_cases hin.hasKey hread' with ⟨hblock, t', hcollapse, hlines⟩ | ⟨hblock, hstale⟩
    · refine Or.inl ⟨t', hcollapse, ?_⟩
      rw [hlines]
      exact Change.collapsed hr hslots htaken hname hone hblock
    · exact Or.inr ⟨d.name, rfl, hblock, hone, hstale⟩
  · rw [if_neg hone, Finding.fixFresh, hsplice]
    refine Or.inl ⟨_, rfl, ?_⟩
    rw [Region.text, Line.ofText_join hread']
    exact Change.removed hr hslots htaken hname hone

/-- **A finding of a scan is fixed**, and the new text is read into the changed lines, or its fix
is refused because the header that it would collapse has a value. -/
theorem fix_cases {w : Nat} {path : String} {t : Text} {f : Finding}
    (hmem : f ∈ (scan w path t).findings) (hauto : f.kind.isAutoFixable = true) :
    (∃ t', f.fix t = .ok t' ∧ Change w (Line.ofText t) f.kind (Line.ofText t')) ∨
      ∃ r name, (Sections.ofLines (Line.ofText t)).properties = .ok (some r) ∧
        f.kind = .nameConflict name (some r.valueSpan) ∧ r.isBlock = false ∧
        (r.blocks (declaredDepth w (Line.ofText t) r)).length = 1 ∧
        f.fix t = .error (.stale r.valueSpan []) := by
  obtain ⟨⟨span, kind⟩, hd, rfl⟩ := List.mem_map.1 hmem
  rcases List.mem_append.1 hd with hd | hd
  · rcases List.mem_append.1 hd with hd | hd
    · rw [propertiesDefects] at hd
      split at hd
      · next r hr =>
        exact Or.inl (exists_fix_of_emptyProperties path (found_eq_some_iff.1 hr) hd)
      · cases hd
    · rw [variantsDefects] at hd
      split at hd
      · next v hv =>
        split at hd
        · exact Or.inl (exists_fix_of_variantsShape path (found_eq_some_iff.1 hv) hd hauto)
        · cases hd
      · cases hd
  · rw [conflictDefects] at hd
    split at hd
    · next r slots hr hslots =>
      rw [found_eq_some_iff] at hr hslots
      rcases fix_cases_of_nameConflicts path hr hslots hd with hfixed | ⟨name, hrefused⟩
      · exact Or.inl hfixed
      · exact Or.inr ⟨r, name, hr, hrefused⟩
    · cases hd

/-- A fix of a finding of a scan is a change, and the new text is read into the changed lines. -/
theorem change_of_fix {w : Nat} {path : String} {t t' : Text} {f : Finding}
    (hmem : f ∈ (scan w path t).findings) (hauto : f.kind.isAutoFixable = true)
    (hfix : f.fix t = .ok t') : Change w (Line.ofText t) f.kind (Line.ofText t') := by
  rcases fix_cases hmem hauto with ⟨t'', hfix', hchange⟩ | ⟨r, name, -, -, -, -, hstale⟩
  · rw [hfix] at hfix'
    rw [Except.ok.inj hfix']
    exact hchange
  · rw [hfix] at hstale
    cases hstale

end Component
end ThemeRepair
