import ThemeRepair.Proofs.Component.SectionHeader
import ThemeRepair.Proofs.Region.Walk

/-!
# The variants of a document

A scan reports of the variants either their own empty sequence or the sequences that stand as a
`default` inside them.  The latter are `Component.sequenceDefaults`, which are read from the header
and the body of the section and from nothing else (`Component.variantsDefects_cases`).

`Component.mappedVariants` are the lines after the fix of the section itself.  Doing so once is
enough (`Component.mappedVariants_idem`), it changes no other section
(`Component.opened_mappedVariants`), and it is done on one side of any line that is not indented
(`Component.mappedVariants_append_top`).
-/

namespace ThemeRepair
namespace Component

open Line (below nested opened opensSection)

variable {ls : List Line} {v : Region}

/-! ## Sequences as defaults -/

/-- The block of a default holds a sequence. -/
def holdsItems (b : Line × List Line) : Bool :=
  holdsSequence ⟨[], b.1, "default".toList, b.2, []⟩

/-- The blocks of the defaults that a scan of the variants reports. -/
def sequenceDefaults (v : Region) : List (Line × List Line) :=
  if v.isBlock then (Region.outermost "default".toList 0 v.body).filter holdsItems else []

theorem sequenceDefaults_congr {v' : Region} (hheader : v'.header = v.header)
    (hkeyword : v'.keyword = v.keyword) (hbody : v'.body = v.body) :
    sequenceDefaults v' = sequenceDefaults v := by
  rw [sequenceDefaults, Region.isBlock_congr hheader hkeyword, hbody]
  rfl

theorem sequenceDefaults_of_isEmptySequence (h : Region.isEmptySequence v.inline = true) :
    sequenceDefaults v = [] := by
  rw [sequenceDefaults, Region.isBlock_of_isEmptySequence h]
  rfl

theorem holdsSequence_eq {r : Region} (h : r.keyword = "default".toList) :
    holdsSequence r = holdsItems (r.header, r.body) := by
  have hinline : (⟨[], r.header, "default".toList, r.body, []⟩ : Region).inline = r.inline :=
    Region.inline_congr rfl h.symm
  have hblock : (⟨[], r.header, "default".toList, r.body, []⟩ : Region).isBlock = r.isBlock :=
    Region.isBlock_congr rfl h.symm
  rw [holdsItems, holdsSequence, holdsSequence, hinline, hblock]
  rfl

/-- What a scan reports of the variants. -/
theorem variantsDefects_cases (hv : (Sections.ofLines ls).variants = .ok (some v)) :
    (Region.isEmptySequence v.inline = true ∧ variantsDefects (Sections.ofLines ls) =
        [(v.inlineSpan, .sequenceForMapping .variantsRoot)]) ∨
      Region.isEmptySequence v.inline = false ∧ ∃ rs : List Region,
        variantsDefects (Sections.ofLines ls) =
          rs.map (fun r => (r.span, .sequenceForMapping .variantsDefault)) ∧
        rs.map (fun r => (r.header, r.body)) = sequenceDefaults v ∧ ∀ r ∈ rs, r.text = v.text := by
  obtain ⟨rs, hrs, hmap, hin⟩ :=
    Region.exists_descendants (isIn_of_variants hv) "default".toList
  have hdefaults : ∃ ds, variantDefaults v = .ok ds ∧
      (ds.filter holdsSequence).map (fun r => (r.header, r.body)) = sequenceDefaults v ∧
      ∀ r ∈ ds, r.text = v.text := by
    rw [variantDefaults, sequenceDefaults]
    cases hblock : v.isBlock with
    | false => exact ⟨[], rfl, rfl, by simp⟩
    | true =>
      refine ⟨rs, hrs, ?_, fun r hr => (hin r hr).1.text_congr (isIn_of_variants hv)⟩
      rw [if_pos rfl, ← hmap, List.filter_map]
      congr 1
      exact List.filter_congr fun r hr => holdsSequence_eq (hin r hr).1.keyword_eq
  obtain ⟨ds, hds, hsequences, hdstext⟩ := hdefaults
  have hshape : variantsDefects (Sections.ofLines ls) = variantsShape v ds := by
    simp only [variantsDefects, found_eq_some_iff.2 hv, hds]
  rw [hshape, variantsShape]
  cases hseq : Region.isEmptySequence v.inline with
  | true => exact Or.inl ⟨rfl, rfl⟩
  | false =>
    exact Or.inr ⟨rfl, _, rfl, hsequences, fun r hr => hdstext r (List.mem_filter.1 hr).1⟩

/-! ## An empty mapping for the section -/

/-- The header of variants with an empty mapping for an empty sequence. -/
def mappedHeader (header : Line) : Line :=
  if Region.isEmptySequence (Region.inline ⟨[], header, "variants".toList, [], []⟩) then
    Region.mapped ⟨[], header, "variants".toList, [], []⟩
  else header

/-- The lines with an empty mapping for the first section of variants, where that is an empty
sequence and is not refused. -/
def mappedVariants (ls : List Line) : List Line :=
  match found (Sections.ofLines ls).variants with
  | some v =>
    if Region.isEmptySequence v.inline then v.before ++ v.mapped :: (v.body ++ v.after) else ls
  | none => ls

theorem mappedVariants_of_forall (h : ∀ l ∈ ls, opensSection "variants".toList l = false) :
    mappedVariants ls = ls := by
  have hnone : (Sections.ofLines ls).variants = .ok none := Region.locate_eq_none h [] []
  simp only [mappedVariants, hnone, found]

theorem mappedVariants_append_cons {passed rest : List Line} {header : Line}
    (hpassed : ∀ l ∈ passed, opensSection "variants".toList l = false)
    (hheader : opensSection "variants".toList header = true) :
    mappedVariants (passed ++ header :: rest) = passed ++
      (if Line.mixesIndentation (header :: nested 0 rest) then header else mappedHeader header)
        :: rest := by
  have hdepth : header.depth = 0 := by
    rw [opensSection, Bool.and_eq_true, beq_iff_eq] at hheader
    exact hheader.2
  have hlocate : (Sections.ofLines (passed ++ header :: rest)).variants =
      (Region.capture "variants".toList ([] ++ passed) header rest []).map some :=
    Region.locate_append_cons hpassed hheader []
  cases hmix : Line.mixesIndentation (header :: nested 0 rest) with
  | true =>
    rw [← hdepth] at hmix
    rw [Region.capture_of_mixed hmix] at hlocate
    simp only [mappedVariants, hlocate, Except.map, found, if_pos]
  | false =>
    rw [← hdepth] at hmix
    rw [Region.capture_of_unmixed hmix] at hlocate
    have hlines : nested header.depth rest ++ (rest.drop (nested header.depth rest).length ++ []) =
        rest := by
      rw [List.append_nil, Line.nested_append_drop]
    simp only [mappedVariants, hlocate, Except.map, found, hlines, List.nil_append,
      Bool.false_eq_true, if_false, mappedHeader]
    split
    · next h => rw [if_pos (show Region.isEmptySequence (Region.inline
        ⟨[], header, "variants".toList, [], []⟩) = true from h)]; rfl
    · next h => rw [if_neg (show ¬ Region.isEmptySequence (Region.inline
        ⟨[], header, "variants".toList, [], []⟩) = true from h)]

/-- The new header is one of variants again, and there is nothing more to do about it. -/
theorem mappedHeader_spec {header : Line} (h : opensSection "variants".toList header = true) :
    opensSection "variants".toList (mappedHeader header) = true ∧
      (mappedHeader header).indentation = header.indentation ∧
      mappedHeader (mappedHeader header) = mappedHeader header := by
  by_cases hseq : Region.isEmptySequence
      (Region.inline ⟨[], header, "variants".toList, [], []⟩) = true
  · have hkey : Region.HasKey ⟨[], header, "variants".toList, [], []⟩ :=
      Line.declares_of_opensSection h
    have hindentation := Region.indentation_mapped hkey
    have hdeclares := Region.declares_mapped hkey (Or.inr hseq)
    have hsettled : Region.isEmptySequence (Region.inline
        ⟨[], Region.mapped ⟨[], header, "variants".toList, [], []⟩, "variants".toList, [], []⟩) =
        false := Region.isEmptySequence_of_mapped hkey (Or.inr hseq) rfl rfl
    have hmapped : mappedHeader header =
        Region.mapped ⟨[], header, "variants".toList, [], []⟩ := if_pos hseq
    rw [hmapped]
    refine ⟨?_, hindentation, if_neg (by rw [hsettled]; decide)⟩
    rw [opensSection, Bool.and_eq_true] at h ⊢
    refine ⟨hdeclares, ?_⟩
    rw [Line.depth, hindentation]
    exact h.2
  · have hsame : mappedHeader header = header := if_neg hseq
    rw [hsame, hsame]
    exact ⟨h, rfl, rfl⟩

/-- The header of the variants is all that may change. -/
theorem mappedVariants_cases (ls : List Line) :
    (∀ l ∈ ls, opensSection "variants".toList l = false) ∧ mappedVariants ls = ls ∨
      ∃ passed header header' rest, ls = passed ++ header :: rest ∧
        mappedVariants ls = passed ++ header' :: rest ∧
        (∀ l ∈ passed, opensSection "variants".toList l = false) ∧
        opensSection "variants".toList header = true ∧
        opensSection "variants".toList header' = true := by
  rcases Region.forall_or_exists_first (opensSection "variants".toList) ls with
    hnone | ⟨passed, header, rest, rfl, hpassed, hheader⟩
  · exact Or.inl ⟨hnone, mappedVariants_of_forall hnone⟩
  · refine Or.inr ⟨passed, header, _, rest, rfl, mappedVariants_append_cons hpassed hheader,
      hpassed, hheader, ?_⟩
    split
    · exact hheader
    · exact (mappedHeader_spec hheader).1

theorem mappedVariants_idem (ls : List Line) :
    mappedVariants (mappedVariants ls) = mappedVariants ls := by
  rcases Region.forall_or_exists_first (opensSection "variants".toList) ls with
    hnone | ⟨passed, header, rest, rfl, hpassed, hheader⟩
  · rw [mappedVariants_of_forall hnone, mappedVariants_of_forall hnone]
  · obtain ⟨hopens, hindentation, hidem⟩ := mappedHeader_spec hheader
    rw [mappedVariants_append_cons hpassed hheader]
    cases hmix : Line.mixesIndentation (header :: nested 0 rest) with
    | true =>
      rw [if_pos rfl, mappedVariants_append_cons hpassed hheader, hmix, if_pos rfl]
    | false =>
      have hc := Line.below_eq_false_iff.1 (Line.below_zero_of_opensSection hheader)
      have hc' := Line.below_eq_false_iff.1 (Line.below_zero_of_opensSection hopens)
      have hmarks : Line.marks (mappedHeader header :: nested 0 rest) =
          Line.marks (header :: nested 0 rest) := by
        rw [Line.marks_cons_of_isContent hc'.1, Line.marks_cons_of_isContent hc.1, hindentation]
      have hmix' : Line.mixesIndentation (mappedHeader header :: nested 0 rest) = false := by
        rw [Line.mixesIndentation_eq, hmarks, ← Line.mixesIndentation_eq, hmix]
      simp only [Bool.false_eq_true, if_false]
      rw [mappedVariants_append_cons hpassed hopens, hmix', hidem]
      simp only [Bool.false_eq_true, if_false]

/-- No other section changes. -/
theorem opened_mappedVariants {keyword : Text} (hkeyword : "variants".toList ≠ keyword)
    (ls : List Line) :
    opened (opensSection keyword) (mappedVariants ls) = opened (opensSection keyword) ls := by
  rcases mappedVariants_cases ls with ⟨-, hsame⟩ | ⟨xs, a, b, ys, rfl, hmapped, -, ha, hb⟩
  · rw [hsame]
  · have hother : ∀ m, opensSection "variants".toList m = true →
        opensSection keyword m = false := fun m hm => by
      rw [opensSection, Line.declares_eq_false (Line.declares_of_opensSection hm) hkeyword,
        Bool.false_and]
    rw [hmapped, Line.opened_append_top (Line.below_zero_of_opensSection hb) (hother b hb),
      Line.opened_append_top (Line.below_zero_of_opensSection ha) (hother a ha)]

theorem exists_opens_mappedVariants (ls : List Line) :
    (∃ l ∈ mappedVariants ls, opensSection "variants".toList l = true) ↔
      ∃ l ∈ ls, opensSection "variants".toList l = true := by
  rcases mappedVariants_cases ls with ⟨-, hsame⟩ | ⟨xs, a, b, ys, rfl, hmapped, -, ha, hb⟩
  · rw [hsame]
  · rw [hmapped]
    exact ⟨fun _ => ⟨a, by simp, ha⟩, fun _ => ⟨b, by simp, hb⟩⟩

theorem closes_mappedVariants (h : Line.Closes 0 ls) : Line.Closes 0 (mappedVariants ls) := by
  rcases mappedVariants_cases ls with ⟨-, hsame⟩ | ⟨xs, a, b, ys, rfl, hmapped, -, ha, hb⟩
  · rw [hsame]
    exact h
  · obtain ⟨hc, hd⟩ := Line.below_eq_false_iff.1 (Line.below_zero_of_opensSection hb)
    intro l hl
    rw [hmapped, List.find?_append, List.find?_cons_of_pos hc] at hl
    cases hfind : xs.find? Line.isContent with
    | none =>
      rw [hfind, Option.none_or] at hl
      cases hl
      exact hd
    | some m =>
      rw [hfind, Option.some_or] at hl
      cases hl
      exact h l (by rw [List.find?_append, hfind, Option.some_or])

theorem mappedVariants_append_of_forall {xs : List Line}
    (h : ∀ l ∈ xs, opensSection "variants".toList l = false) (ys : List Line) :
    mappedVariants (xs ++ ys) = xs ++ mappedVariants ys := by
  rcases Region.forall_or_exists_first (opensSection "variants".toList) ys with
    hnone | ⟨passed, header, rest, rfl, hpassed, hheader⟩
  · rw [mappedVariants_of_forall hnone, mappedVariants_of_forall]
    exact List.forall_mem_append.2 ⟨h, hnone⟩
  · rw [mappedVariants_append_cons hpassed hheader, ← List.append_assoc,
      mappedVariants_append_cons (List.forall_mem_append.2 ⟨h, hpassed⟩) hheader, List.append_assoc]

/-- What stands behind a line that is not indented does not matter for variants in front of it. -/
theorem mappedVariants_append_top {xs : List Line} {top : Line}
    (h : ∃ l ∈ xs, opensSection "variants".toList l = true) (htop : below 0 top = false)
    (ys : List Line) : mappedVariants (xs ++ top :: ys) = mappedVariants xs ++ top :: ys := by
  rcases Region.forall_or_exists_first (opensSection "variants".toList) xs with
    hnone | ⟨passed, header, rest, rfl, hpassed, hheader⟩
  · obtain ⟨l, hl, hopens⟩ := h
    rw [hnone l hl] at hopens
    cases hopens
  · obtain ⟨hc, hd⟩ := Line.below_eq_false_iff.1 htop
    have hnested : nested 0 (rest ++ top :: ys) = nested 0 rest :=
      Line.nested_append_of_closes (Line.closes_cons_of_isContent hc hd)
    have hsplit : passed ++ header :: rest ++ top :: ys =
        passed ++ header :: (rest ++ top :: ys) := by simp
    rw [hsplit, mappedVariants_append_cons hpassed hheader,
      mappedVariants_append_cons hpassed hheader, hnested, List.append_assoc, List.cons_append]

/-! ## The texts of sequence defaults -/

/-- The texts of the defaults that a scan reports. -/
def defaultTexts (ls : List Line) : List Text :=
  match found (Sections.ofLines ls).variants with
  | some v => (sequenceDefaults v).map fun b => Line.join (b.1 :: b.2)
  | none => []

/-- They depend on the section of variants alone. -/
theorem defaultTexts_congr {ls' : List Line}
    (h : opened (opensSection "variants".toList) ls' = opened (opensSection "variants".toList) ls) :
    defaultTexts ls' = defaultTexts ls := by
  cases hv : (Sections.ofLines ls).variants with
  | error e =>
    obtain ⟨header, body, hopened, hmix⟩ := Region.exists_error_iff.1 ⟨e, hv⟩
    obtain ⟨e', hv'⟩ := Region.exists_error_iff.2 ⟨header, body, h.trans hopened, hmix⟩
    have hv'' : (Sections.ofLines ls').variants = .error e' := hv'
    simp only [defaultTexts, hv, hv'', found]
  | ok v? =>
    cases v? with
    | none =>
      have hv' : (Sections.ofLines ls').variants = .ok none :=
        Region.locate_eq_none_iff.2 (h.trans (Region.locate_eq_none_iff.1 hv))
      simp only [defaultTexts, hv, hv', found]
    | some v =>
      obtain ⟨hopened, hmix⟩ := Region.opened_of_locate hv
      obtain ⟨v', hv', hheader, hbody⟩ := Region.exists_of_opened (h.trans hopened) hmix [] []
      have hv'' : (Sections.ofLines ls').variants = .ok (some v') := hv'
      have hkeyword : v'.keyword = v.keyword :=
        (isIn_of_variants hv).keyword_congr (isIn_of_variants hv'')
      simp only [defaultTexts, hv, hv'', found, sequenceDefaults_congr hheader hkeyword hbody]

/-- An empty sequence has no defaults inside, and neither has the empty mapping in its place. -/
theorem defaultTexts_mappedVariants (ls : List Line) :
    defaultTexts (mappedVariants ls) = defaultTexts ls := by
  cases hv : found (Sections.ofLines ls).variants with
  | none => simp only [mappedVariants, hv]
  | some v =>
    have hfound := found_eq_some_iff.1 hv
    by_cases hseq : Region.isEmptySequence v.inline = true
    · have hin := isIn_of_variants hfound
      have hbefore := (Region.isIn_of_findSection hfound).2.2
      have hmapped : mappedVariants ls = v.before ++ v.mapped :: (v.body ++ v.after) := by
        simp only [mappedVariants, hv, if_pos hseq]
      have hopened := Line.opened_append_cons hbefore (opensSection_mapped hfound (Or.inr hseq))
        (v.body ++ v.after)
      rw [hmapped]
      have hnone : defaultTexts ls = [] := by
        simp only [defaultTexts, hv, sequenceDefaults_of_isEmptySequence hseq, List.map_nil]
      rw [hnone, defaultTexts]
      split
      · next v' hv' =>
        have hfound' := found_eq_some_iff.1 hv'
        have hheader : v'.header = v.mapped :=
          (Prod.mk.inj (Option.some.inj ((Region.opened_of_locate hfound').1.symm.trans hopened))).1
        have hkeyword : v'.keyword = v.keyword := hin.keyword_congr (isIn_of_variants hfound')
        rw [sequenceDefaults, Region.isBlock_of_mapped hin.hasKey (Or.inr hseq) hheader hkeyword]
        rfl
      · rfl
    · simp only [mappedVariants, hv, if_neg hseq]

theorem map_slice_defaultDefects (t : Text) :
    ((variantsDefects (Sections.ofLines (Line.ofText t))).filter
      (fun d => d.2 == .sequenceForMapping .variantsDefault)).map (fun d => Text.slice t d.1) =
      defaultTexts (Line.ofText t) := by
  unfold defaultTexts
  cases hv : found (Sections.ofLines (Line.ofText t)).variants with
  | none => simp only [variantsDefects, hv, List.filter_nil, List.map_nil]
  | some v =>
    have hfound := found_eq_some_iff.1 hv
    rcases variantsDefects_cases hfound with ⟨hseq, hdefects⟩ | ⟨-, rs, hdefects, hmap, htext⟩
    · rw [hdefects]
      simp only [sequenceDefaults_of_isEmptySequence hseq, List.map_nil]
      rfl
    · simp only [← hmap, List.map_map]
      rw [hdefects, List.filter_eq_self.2, List.map_map]
      · refine List.map_congr_left fun r hr => ?_
        have hslice := Region.slice_span r
        rw [htext r hr, text_of_isIn (isIn_of_variants hfound)] at hslice
        exact hslice
      · intro d hd
        obtain ⟨r, -, rfl⟩ := List.mem_map.1 hd
        rfl

/-- The findings of a scan at defaults are these, in the order of the text. -/
theorem map_before_defaults (w : Nat) (path : String) (t : Text) :
    ((scan w path t).findings.filter
      fun f => f.kind == .sequenceForMapping .variantsDefault).map Finding.before =
      defaultTexts (Line.ofText t) := by
  have hproperties : (propertiesDefects w (Sections.ofLines (Line.ofText t))).filter
      (fun d => d.2 == .sequenceForMapping .variantsDefault) = [] := by
    refine List.filter_eq_nil_iff.2 fun d hd => ?_
    obtain ⟨realign, hkind⟩ := kind_of_mem_propertiesDefects hd
    rw [hkind]
    exact Bool.false_ne_true
  have hconflicts : (conflictDefects w (Sections.ofLines (Line.ofText t))).filter
      (fun d => d.2 == .sequenceForMapping .variantsDefault) = [] := by
    refine List.filter_eq_nil_iff.2 fun d hd => ?_
    obtain ⟨name, collapse, hkind⟩ := kind_of_mem_conflictDefects hd
    rw [hkind]
    exact Bool.false_ne_true
  rw [← map_slice_defaultDefects]
  simp only [scan, List.filter_map, List.map_map, List.filter_append, Function.comp_def,
    Finding.locatedAt]
  rw [hproperties, hconflicts, List.nil_append, List.append_nil]

end Component
end ThemeRepair
