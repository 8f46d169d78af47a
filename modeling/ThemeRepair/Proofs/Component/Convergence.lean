import ThemeRepair.Proofs.Component.Identity
import ThemeRepair.Proofs.Component.Refusal

/-!
# The passes come to an end

The passes need no budget to stop.  `Component.passesLeft` bounds the passes that a document still
takes, and each pass lowers it (`Component.Change.passesLeft_lt`): one for each declared property,
one for the header of the properties and one for the root of the variants.

Two changes seem to go the other way.  A misplaced section that takes its place may be one of
variants, and then its root may be found for the first time.  But behind it nothing is declared any
more, so the bound is two wherever a section is misplaced.  A property that goes may leave such a
section behind.  But then it was not the only one, so the bound was three or more before.

Runs are therefore no longer than the bound of their first text
(`Component.Passes.length_add_passesLeft_le`), and each text has a run to an end
(`Component.exists_passes`).
-/

namespace ThemeRepair
namespace Component

variable {w : Nat} {path : String} {t t' : Text} {f : Finding} {ls body : List Line} {r : Region}

/-! ## The bound -/

/-- A section is misplaced below a bare header of properties. -/
def isMisaligned (w : Nat) (r : Region) : Bool :=
  r.isBlock && (misplacedSibling? w r).isSome

/-- The passes that may give the header of the properties an empty mapping. -/
def headerPasses (r : Region) : Nat :=
  if r.isBlock || Region.isEmptySequence r.inline then 1 else 0

/-- The passes that give the root of the variants an empty mapping. -/
def rootPasses (ls : List Line) : Nat :=
  (variantsIdentities ls).count (identity (.sequenceForMapping .variantsRoot))

/-- As many passes as a document may still take. -/
def passesLeft (w : Nat) (ls : List Line) : Nat :=
  match found (Sections.ofLines ls).properties with
  | some r =>
    if isMisaligned w r then 2
    else (r.blocks (declaredDepth w ls r)).length + headerPasses r + rootPasses ls
  | none => rootPasses ls

/-- The number of properties that a document declares. -/
def declaredCount (w : Nat) (ls : List Line) : Nat :=
  match found (Sections.ofLines ls).properties with
  | some r => (r.declarations .schemaProperty (declaredDepth w ls r)).length
  | none => 0

theorem headerPasses_le_one (r : Region) : headerPasses r ≤ 1 := by
  unfold headerPasses
  split <;> omega

theorem headerPasses_congr {r' : Region} (hheader : r'.header = r.header)
    (hkeyword : r'.keyword = r.keyword) : headerPasses r' = headerPasses r := by
  rw [headerPasses, headerPasses, Region.isBlock_congr hheader hkeyword,
    Region.inline_congr hheader hkeyword]

theorem isMisaligned_congr {r' : Region} (hheader : r'.header = r.header)
    (hkeyword : r'.keyword = r.keyword) (hfirst : r'.firstContent? = r.firstContent?) :
    isMisaligned w r' = isMisaligned w r := by
  have hdepth : r'.depth = r.depth := Region.depth_congr hheader
  rw [isMisaligned, isMisaligned, Region.isBlock_congr hheader hkeyword,
    isSome_misplacedSibling?_congr hdepth hfirst]

theorem headerPasses_of_mappable (h : r.Mappable) : headerPasses r = 1 := by
  rw [headerPasses, if_pos (by rwa [Bool.or_eq_true])]

theorem rootPasses_le_one (ls : List Line) : rootPasses ls ≤ 1 := by
  rw [rootPasses]
  cases hfound : found (Sections.ofLines ls).variants with
  | none =>
    rw [variantsIdentities_of_not_found hfound]
    exact Nat.zero_le 1
  | some v =>
    rw [variantsIdentities_eq (found_eq_some_iff.1 hfound)]
    split
    · exact List.count_le_length
    · rw [List.count_replicate, if_neg (by decide)]
      exact Nat.zero_le 1

theorem passesLeft_of_aligned (hr : (Sections.ofLines ls).properties = .ok (some r))
    (h : isMisaligned w r = false) :
    passesLeft w ls = (r.blocks (declaredDepth w ls r)).length + headerPasses r +
      rootPasses ls := by
  simp only [passesLeft, found_eq_some_iff.2 hr, h, Bool.false_eq_true, if_false]

theorem passesLeft_of_misaligned (hr : (Sections.ofLines ls).properties = .ok (some r))
    (h : isMisaligned w r = true) : passesLeft w ls = 2 := by
  simp only [passesLeft, found_eq_some_iff.2 hr, h, if_true]

theorem passesLeft_of_not_found (h : found (Sections.ofLines ls).properties = none) :
    passesLeft w ls = rootPasses ls := by
  simp only [passesLeft, h]

theorem passesLeft_le (w : Nat) (ls : List Line) : passesLeft w ls ≤ declaredCount w ls + 2 := by
  have hroot := rootPasses_le_one ls
  cases hfound : found (Sections.ofLines ls).properties with
  | none =>
    rw [passesLeft_of_not_found hfound]
    omega
  | some r =>
    have hr := found_eq_some_iff.1 hfound
    cases halign : isMisaligned w r with
    | true =>
      rw [passesLeft_of_misaligned hr halign]
      omega
    | false =>
      have hheader := headerPasses_le_one r
      simp only [passesLeft_of_aligned hr halign, declaredCount, hfound, Region.length_declarations]
      omega

theorem rootPasses_le_passesLeft (w : Nat) (ls : List Line) : rootPasses ls ≤ passesLeft w ls := by
  have hroot := rootPasses_le_one ls
  unfold passesLeft
  split
  · split <;> omega
  · exact Nat.le_refl _

/-! ## A change lowers the bound -/

/-- A rewriting that exposes no finding of the variants leaves them no more passes. -/
theorem rootPasses_le_of_subperm {ls' : List Line}
    (h : (variantsIdentities ls').Subperm (variantsIdentities ls)) :
    rootPasses ls' ≤ rootPasses ls :=
  h.count_le _

/-- Under an empty mapping no pass is due to the header. -/
theorem passesLeft_of_mapped (hr : (Sections.ofLines ls).properties = .ok (some r))
    (hm : r.Mappable) (h : Rewrites r r.mapped body) :
    ∃ r' : Region, r'.body = Line.nested r.depth body ∧
      passesLeft w (rewritten r r.mapped body) =
        (r'.blocks (declaredDepth w ls r)).length + rootPasses (rewritten r r.mapped body) := by
  have hin := isIn_of_properties hr
  obtain ⟨r', hr', hheader, hbody, hprops⟩ := exists_properties_of_rewrites hr h
  have hkeyword : r'.keyword = r.keyword := hin.keyword_congr (isIn_of_properties hr')
  have hdepth : r'.depth = r.depth := by rw [Region.depth, hheader, h.depth_eq]
  have hblock := Region.isBlock_of_mapped hin.hasKey hm hheader hkeyword
  have hseq := Region.isEmptySequence_of_mapped hin.hasKey hm hheader hkeyword
  have halign : isMisaligned w r' = false := by rw [isMisaligned, hblock, Bool.false_and]
  have hnone : headerPasses r' = 0 := by
    rw [headerPasses, hblock, hseq]
    rfl
  refine ⟨r', hbody, ?_⟩
  rw [passesLeft_of_aligned hr' halign, declaredDepth_congr hprops hdepth, hnone, Nat.add_zero]

/-- An empty mapping spends the pass of the header, over a body that declares no more than the old
one. -/
theorem passesLeft_lt_of_mapped (hr : (Sections.ofLines ls).properties = .ok (some r))
    (halign : isMisaligned w r = false) (hm : r.Mappable) (h : Rewrites r r.mapped body)
    (hvariants : (variantsIdentities (rewritten r r.mapped body)).Subperm (variantsIdentities ls))
    (hblocks : ∀ r' : Region, r'.body = Line.nested r.depth body →
      (r'.blocks (declaredDepth w ls r)).length ≤ (r.blocks (declaredDepth w ls r)).length) :
    passesLeft w (rewritten r r.mapped body) < passesLeft w ls := by
  obtain ⟨r', hbody, hnew⟩ := passesLeft_of_mapped (w := w) hr hm h
  have hle := hblocks r' hbody
  have hroot := rootPasses_le_of_subperm hvariants
  rw [passesLeft_of_aligned hr halign, hnew, headerPasses_of_mappable hm]
  omega

/-- Behind a section that takes its place nothing is declared, and at most the root of the variants
is left. -/
theorem passesLeft_lt_of_realigned {blanks rest : List Line} {l : Line}
    (hr : (Sections.ofLines ls).properties = .ok (some r)) (hblock : r.isBlock = true)
    (hbody : r.body = blanks ++ l :: rest) (hblanks : ∀ m ∈ blanks, m.isContent = false)
    (hl : l.isContent = true) (hdepth : l.depth < r.depth + w)
    (hkey : l.key?.any siblingKeywords.contains = true) :
    passesLeft w (rewritten r r.mapped
      (blanks ++ l.withIndentation r.header.indentation :: rest)) < passesLeft w ls := by
  have hmisaligned : isMisaligned w r = true := by
    have hfirst : r.firstContent? = some l := by
      rw [Region.firstContent?, hbody, Line.find?_isContent_append_of_blank hblanks,
        List.find?_cons_of_pos hl]
    rw [isMisaligned, hblock, isSome_misplacedSibling?, hfirst, Option.any_some,
      decide_eq_true hdepth, hkey]
    rfl
  obtain ⟨r', hbody', hnew⟩ := passesLeft_of_mapped (w := w) hr (Or.inl hblock)
    (rewrites_realigned (isIn_of_properties hr) hblock hbody hl hkey)
  have hblocks : r'.blocks (declaredDepth w ls r) = [] := by
    rw [Region.blocks, hbody', nested_of_realigned hblanks hl]
    rfl
  have hroot := rootPasses_le_one
    (rewritten r r.mapped (blanks ++ l.withIndentation r.header.indentation :: rest))
  rw [passesLeft_of_misaligned hr hmisaligned, hnew, hblocks, List.length_nil]
  omega

/-- An empty mapping for the variants spends the pass of the root, and the properties are found as
they were. -/
theorem passesLeft_lt_of_variants {v : Region} (hv : (Sections.ofLines ls).variants = .ok (some v))
    (hseq : Region.isEmptySequence v.inline = true)
    (haligned : ∀ r, (Sections.ofLines ls).properties = .ok (some r) →
      isMisaligned w r = false) :
    passesLeft w (v.before ++ v.mapped :: (v.body ++ v.after)) < passesLeft w ls := by
  have hopens := Region.opensSection_header hv
  have hopens' := opensSection_mapped hv (Or.inr hseq)
  have hlines : v.before ++ v.header :: (v.body ++ v.after) = ls := (isIn_of_variants hv).lines_eq
  have hold : rootPasses ls = 1 := by
    rw [rootPasses, variantsIdentities_eq hv, if_pos hseq, List.count_singleton_self]
  have hnew : rootPasses (v.before ++ v.mapped :: (v.body ++ v.after)) = 0 := by
    rw [rootPasses, variantsIdentities_of_mapped hv hseq, List.count_nil]
  cases hfound : found
      (Sections.ofLines (v.before ++ v.mapped :: (v.body ++ v.after))).properties with
  | none =>
    have hroot := rootPasses_le_passesLeft w ls
    rw [passesLeft_of_not_found hfound]
    omega
  | some r' =>
    have hr' := found_eq_some_iff.1 hfound
    obtain ⟨r, hr, hheader, hbody, -, hprops⟩ := exists_properties_of_swap hopens' hopens hr'
    rw [hlines] at hr hprops
    have hkeyword : r.keyword = r'.keyword :=
      (isIn_of_properties hr').keyword_congr (isIn_of_properties hr)
    have hdepth : r.depth = r'.depth := Region.depth_congr hheader
    have hfirst : r.firstContent? = r'.firstContent? := Region.firstContent?_congr hbody
    have halign := haligned r hr
    have halign' : isMisaligned w r' = false := by
      rw [← isMisaligned_congr hheader hkeyword hfirst, halign]
    have hblocks : r.blocks (declaredDepth w ls r) = r'.blocks (declaredDepth w
        (v.before ++ v.mapped :: (v.body ++ v.after)) r') := by
      rw [declaredDepth_congr hprops hdepth, Region.blocks, hbody]
      rfl
    rw [passesLeft_of_aligned hr halign, passesLeft_of_aligned hr' halign',
      headerPasses_congr hheader hkeyword, hblocks]
    omega

/-- Of several properties one goes, even if a section is misplaced below the others. -/
theorem passesLeft_lt_of_removed {name : Text}
    (hr : (Sections.ofLines ls).properties = .ok (some r)) (halign : isMisaligned w r = false)
    (hname : name ∈ (r.blocks (declaredDepth w ls r)).map Prod.fst)
    (hmany : (r.blocks (declaredDepth w ls r)).length ≠ 1) :
    passesLeft w (rewritten r r.header
      (Declaration.eraseBlock (declaredDepth w ls r) name r.body)) < passesLeft w ls := by
  have hin := isIn_of_properties hr
  have h := rewrites_eraseBlock hin (declaredDepth w ls r) name
  obtain ⟨r', hr', hheader, hbody, hprops⟩ := exists_properties_of_rewrites hr h
  have hkeyword : r'.keyword = r.keyword := hin.keyword_congr (isIn_of_properties hr')
  have hdepth : r'.depth = r.depth := Region.depth_congr hheader
  have hlength := length_blocks_of_erased hin hbody hname
  rw [passesLeft_of_aligned hr halign]
  cases halign' : isMisaligned w r' with
  | true =>
    -- The header is bare, so it had a pass as well, and there were two properties.
    have hblock : r.isBlock = true := by
      rw [isMisaligned, Bool.and_eq_true, Region.isBlock_congr hheader hkeyword] at halign'
      exact halign'.1
    rw [passesLeft_of_misaligned hr' halign', headerPasses_of_mappable (Or.inl hblock)]
    omega
  | false =>
    have hroot := rootPasses_le_of_subperm (variantsIdentities_of_erased hin hname h)
    rw [passesLeft_of_aligned hr' halign', declaredDepth_congr hprops hdepth,
      headerPasses_congr hheader hkeyword]
    omega

/-- **A change lowers the bound.**  While a section is misplaced, the change has to be the one that
puts it into its place. -/
theorem Change.passesLeft_lt {kind : FindingKind} {ls' : List Line} (h : Change w ls kind ls')
    (hfirst : ∀ r, (Sections.ofLines ls).properties = .ok (some r) → isMisaligned w r = true →
      ∃ span, kind = .emptyCollection (some span)) :
    passesLeft w ls' < passesLeft w ls := by
  have haligned : (∀ span, kind ≠ .emptyCollection (some span)) → ∀ r,
      (Sections.ofLines ls).properties = .ok (some r) → isMisaligned w r = false := by
    intro hne r hr
    rw [← Bool.not_eq_true]
    intro hmisaligned
    obtain ⟨span, hspan⟩ := hfirst r hr hmisaligned
    exact hne span hspan
  cases h with
  | mapped hr hm =>
    have hin := isIn_of_properties hr
    have hm' := hm.symm.imp (fun h => h.1) id
    have h := rewrites_mapped hin hm' (List.Sublist.refl _)
    refine passesLeft_lt_of_mapped hr (haligned (by simp) _ hr) hm' h
      (variantsIdentities_of_header hin h) fun r' hbody => ?_
    rw [Region.blocks, hbody, hin.nested_body]
    exact Nat.le_refl _
  | realigned span hr hblock hbody hblanks hl hdepth hkey =>
    have hlt := passesLeft_lt_of_realigned hr hblock hbody hblanks hl hdepth hkey
    rwa [rewritten, List.append_assoc, List.cons_append] at hlt
  | variants hv hseq => exact passesLeft_lt_of_variants hv hseq (haligned (by simp))
  | removed hr hslots htaken hname hmany =>
    exact passesLeft_lt_of_removed hr (haligned (by simp) _ hr) hname hmany
  | @collapsed r slots name hr hslots htaken hname hone hblock =>
    have hin := isIn_of_properties hr
    have h := rewrites_mapped hin (Or.inl hblock)
      (Declaration.sublist_eraseBlock (declaredDepth w ls r) name r.body)
    refine passesLeft_lt_of_mapped hr (haligned (by simp) _ hr) (Or.inl hblock) h
      (variantsIdentities_of_erased hin hname h) fun r' hbody => ?_
    have hlength := length_blocks_of_erased hin hbody hname
    omega

/-! ## A pass -/

/-- A misplaced section is fixed before anything else. -/
theorem kind_of_nextFix?_of_misaligned
    (hr : (Sections.ofLines (Line.ofText t)).properties = .ok (some r))
    (hmisaligned : isMisaligned w r = true) (hnext : nextFix? w path t = some f) :
    ∃ span, f.kind = .emptyCollection (some span) := by
  rw [isMisaligned, Bool.and_eq_true, Option.isSome_iff_exists] at hmisaligned
  obtain ⟨hblock, span, hspan⟩ := hmisaligned
  have hdefects : propertiesDefects w (Sections.ofLines (Line.ofText t)) =
      [(r.valueSpan, .emptyCollection (some span))] := by
    simp only [propertiesDefects, found_eq_some_iff.2 hr]
    exact emptyProperties_of_misplaced hblock hspan
  have hnext' : nextFix? w path t =
      some (Finding.locatedAt path t r.valueSpan (.emptyCollection (some span))) := by
    simp only [nextFix?, scan, hdefects, List.cons_append, List.map_cons]
    exact List.find?_cons_of_pos rfl
  rw [hnext] at hnext'
  exact ⟨span, by rw [Option.some.inj hnext']; rfl⟩

theorem passesLeft_lt_of_pass (hnext : nextFix? w path t = some f) (hfix : f.fix t = .ok t') :
    passesLeft w (Line.ofText t') < passesLeft w (Line.ofText t) :=
  (change_of_nextFix? hnext hfix).passesLeft_lt fun _ hr hmisaligned =>
    kind_of_nextFix?_of_misaligned hr hmisaligned hnext

/-- As long as there is something to fix, a pass is left for it, even if it is refused. -/
theorem passesLeft_pos (hnext : nextFix? w path t = some f) :
    0 < passesLeft w (Line.ofText t) := by
  obtain ⟨hmem, hauto⟩ := mem_of_nextFix? hnext
  rcases fix_cases hmem hauto with ⟨t', hfix, -⟩ | ⟨r, name, hr, -, hblock, hone, -⟩
  · exact Nat.lt_of_le_of_lt (Nat.zero_le _) (passesLeft_lt_of_pass hnext hfix)
  · have halign : isMisaligned w r = false := by rw [isMisaligned, hblock, Bool.false_and]
    rw [passesLeft_of_aligned hr halign, hone]
    omega

/-! ## Runs -/

/-- A run is no longer than the bound, and what is left of the bound is left at its end. -/
theorem Passes.length_add_passesLeft_le {fs : List Finding} (h : Passes w path t fs t') :
    fs.length + passesLeft w (Line.ofText t') ≤ passesLeft w (Line.ofText t) := by
  induction h with
  | done t => rw [List.length_nil, Nat.zero_add]
  | pass hnext hfix hrest ih =>
    have hlt := passesLeft_lt_of_pass hnext hfix
    rw [List.length_cons]
    omega

/-- From every text a run leads to one with nothing to fix, or whose next fix is refused. -/
theorem exists_passes (w : Nat) (path : String) (t : Text) :
    ∃ fs t', Passes w path t fs t' ∧ (nextFix? w path t' = none ∨
      ∃ f e, nextFix? w path t' = some f ∧ f.fix t' = .error e) := by
  -- The induction is on the bound, which a pass lowers.
  generalize hbound : passesLeft w (Line.ofText t) = bound
  induction bound using Nat.strongRecOn generalizing t with
  | ind bound ih =>
    cases hnext : nextFix? w path t with
    | none => exact ⟨[], t, Passes.done t, Or.inl hnext⟩
    | some f =>
      cases hfix : f.fix t with
      | error e => exact ⟨[], t, Passes.done t, Or.inr ⟨f, e, hnext, hfix⟩⟩
      | ok t' =>
        have hlt := passesLeft_lt_of_pass hnext hfix
        rw [hbound] at hlt
        obtain ⟨fs, t'', hpasses, hend⟩ := ih _ hlt t' rfl
        exact ⟨f :: fs, t'', Passes.pass hnext hfix hpasses, hend⟩

/-- With as many passes as the bound says a repair is never given up for want of passes. -/
theorem repairPasses_ne_noConvergence {budget left : Nat}
    (hleft : passesLeft w (Line.ofText t) ≤ left) :
    repairPasses w path budget left t ≠ .error (.noConvergence budget) := by
  intro h
  obtain ⟨fs, t', f, hpasses, hnext, ⟨hlength, -⟩ | hrefused⟩ := cases_of_repairPasses_eq_error h
  · have hle := hpasses.length_add_passesLeft_le
    have hpos := passesLeft_pos hnext
    omega
  · obtain ⟨hmem, hauto⟩ := mem_of_nextFix? hnext
    obtain ⟨name, header, -, -, he⟩ := kind_of_fix_eq_error hmem hauto hrefused
    cases he

/-- **The passes converge on their own.**  Where a document declares `n` properties, no run is
longer than `n + 2` passes; a run leads to a text with nothing left to fix, or to a fix that is
refused, and then that fix is within the `n + 2` as well; and a repair that is allowed so many
passes is never given up for want of them. -/
theorem passes_converge (w : Nat) (path : String) (t : Text) :
    (∀ fs t', Passes w path t fs t' → fs.length ≤ declaredCount w (Line.ofText t) + 2) ∧
      (∃ fs t', Passes w path t fs t' ∧ (nextFix? w path t' = none ∨
        ∃ f e, nextFix? w path t' = some f ∧ f.fix t' = .error e ∧
          fs.length + 1 ≤ declaredCount w (Line.ofText t) + 2)) ∧
      ∀ budget left, declaredCount w (Line.ofText t) + 2 ≤ left →
        repairPasses w path budget left t ≠ .error (.noConvergence budget) := by
  have hle := passesLeft_le w (Line.ofText t)
  refine ⟨fun fs t' hpasses => ?_, ?_, fun budget left hleft =>
    repairPasses_ne_noConvergence (Nat.le_trans hle hleft)⟩
  · have hlength := hpasses.length_add_passesLeft_le
    omega
  · obtain ⟨fs, t', hpasses, hend⟩ := exists_passes w path t
    refine ⟨fs, t', hpasses, hend.imp id ?_⟩
    rintro ⟨f, e, hnext, hrefused⟩
    have hlength := hpasses.length_add_passesLeft_le
    have hpos := passesLeft_pos hnext
    exact ⟨f, e, hnext, hrefused, by omega⟩

/-- The bound is reached: nothing is declared, and the section that takes its place is one of
variants with an empty sequence. -/
theorem passes_converge_of_none_declared :
    ∃ fs, Passes 2 "card.yml" "properties:\n variants: []\n".toList fs
        "properties: {}\nvariants: {}\n".toList ∧
      fs.length = 2 ∧ fs.length ≤ 0 + 2 ∧
      repairPasses 2 "card.yml" 2 2 "properties:\n variants: []\n".toList ≠
        .error (.noConvergence 2) := by
  have hcount : declaredCount 2 (Line.ofText "properties:\n variants: []\n".toList) = 0 := rfl
  have hpasses : Passes 2 "card.yml" "properties:\n variants: []\n".toList
      [⟨"card.yml", 1, ⟨11, 11⟩, [], .emptyCollection (some ⟨12, 13⟩)⟩,
        ⟨"card.yml", 2, ⟨25, 27⟩, "[]".toList, .sequenceForMapping .variantsRoot⟩]
      "properties: {}\nvariants: {}\n".toList :=
    .pass rfl rfl (.pass rfl rfl (.done _))
  obtain ⟨hlength, -, hleft⟩ :=
    passes_converge 2 "card.yml" "properties:\n variants: []\n".toList
  rw [hcount] at hlength hleft
  exact ⟨_, hpasses, rfl, hlength _ _ hpasses, hleft 2 2 (Nat.le_refl 2)⟩

end Component
end ThemeRepair
