import ThemeRepair.Proofs.Component.Convergence
import Mathlib.Data.List.Count

/-!
# How many passes are enough

A repair may take as many passes as the first scan has findings, and `Component.passSlack` more.
The scan reports a shadowed name once, but a pass takes away one property only, so a name that is
declared again and again needs more passes than it has findings.

`Component.passesDue` counts the passes of a document exactly as long as no section is misplaced
below its properties: one for the header, one for the root of the variants, and one for each
property that has the name of a slot, as often as it is declared.  A change lowers it by one
(`Component.Change.passesDue_succ`), and nothing is due where nothing is left to fix
(`Component.passesDue_eq_zero_iff`).

* `Component.repairPasses_eq_noConvergence_iff`: where the properties are indented by no more than
  one level below the props, a repair is given up for want of passes exactly if more are due than
  allowed.
* `Component.le_passesDue_of_noConvergence`: elsewhere a property that goes may leave a section
  misplaced, and one pass more than are due may be needed.
* `Component.repair_gives_up_only_over_repeats` puts both in terms of the first scan.
-/

namespace ThemeRepair
namespace Component

open Line (opensSection)
open Declaration (eraseBlock)

variable {w : Nat} {path : String} {t t' : Text} {ls ls' : List Line} {r : Region} {header : Line}
  {body : List Line}

/-! ## The names that slots take -/

/-- The names of the slots of a document, none if it has no slots. -/
def takenNames (w : Nat) (ls : List Line) : List Text :=
  match found (Sections.ofLines ls).slots with
  | some slots => slotNames w slots
  | none => []

/-- The number of properties that have the name of a slot, each as often as it is declared. -/
def shadowedCount (w : Nat) (ls : List Line) : Nat :=
  match found (Sections.ofLines ls).properties with
  | some r =>
    ((r.declarations .schemaProperty (declaredDepth w ls r)).map Declaration.name).countP
      (takenNames w ls).contains
  | none => 0

theorem mem_takenNames_iff {name : Text} :
    name ∈ takenNames w ls ↔
      ∃ slots, (Sections.ofLines ls).slots = .ok (some slots) ∧ name ∈ slotNames w slots := by
  unfold takenNames
  constructor
  · intro h
    split at h
    · next slots hslots => exact ⟨slots, found_eq_some_iff.1 hslots, h⟩
    · cases h
  · rintro ⟨slots, hslots, h⟩
    rw [found_eq_some_iff.2 hslots]
    exact h

theorem shadowedCount_eq (hr : (Sections.ofLines ls).properties = .ok (some r)) :
    shadowedCount w ls = ((r.blocks (declaredDepth w ls r)).map Prod.fst).countP
      (takenNames w ls).contains := by
  simp only [shadowedCount, found_eq_some_iff.2 hr, Region.map_name_declarations]

theorem shadowedCount_of_not_found (h : found (Sections.ofLines ls).properties = none) :
    shadowedCount w ls = 0 := by
  simp only [shadowedCount, h]

/-- The slots keep their names when the properties are rewritten. -/
theorem takenNames_of_rewrites (hin : r.IsIn "properties".toList ls) (h : Rewrites r header body)
    (hsub : body.Sublist r.body)
    (hbody : body = r.body ∨
      ∃ depth name, (0 < r.depth → w < depth) ∧ body = eraseBlock depth name r.body) :
    takenNames w (rewritten r header body) = takenNames w ls := by
  have hbelow := below_zero_of_sublist hin hsub
  have hne : "slots".toList ≠ "properties".toList := by decide
  cases hslots : found (Sections.ofLines ls).slots with
  | some slots =>
    rw [found_eq_some_iff] at hslots
    obtain ⟨slots', hslots', hcarries⟩ := exists_section_of_rewrites hin h hne hbelow hslots
    have hfound' : found (Sections.ofLines (rewritten r header body)).slots = some slots' :=
      found_eq_some_iff.2 hslots'
    have hzero := (Region.isIn_of_findSection hslots).2.1
    simp only [takenNames, hfound', found_eq_some_iff.2 hslots]
    exact slotNames_of_carries hcarries hzero (names_of_rewrites hin h hbody)
  | none =>
    cases hslots' : found (Sections.ofLines (rewritten r header body)).slots with
    | none => simp only [takenNames, hslots, hslots']
    | some slots' =>
      rw [found_eq_some_iff] at hslots'
      obtain ⟨slots, hbefore, -⟩ := exists_section_before_rewrites hin h hne hbelow hslots'
      have hfound : found (Sections.ofLines ls).slots = some slots := found_eq_some_iff.2 hbefore
      rw [hslots] at hfound
      cases hfound

/-- And when the header of the variants changes. -/
theorem takenNames_subset_of_swap {xs ys : List Line} {a b : Line}
    (ha : opensSection "variants".toList a = true)
    (hb : opensSection "variants".toList b = true) :
    takenNames w (xs ++ a :: ys) ⊆ takenNames w (xs ++ b :: ys) := by
  intro name hname
  obtain ⟨slots, hslots, hmem⟩ := mem_takenNames_iff.1 hname
  obtain ⟨slots', hslots', hheader, hbody⟩ := exists_slots_of_swap ha hb hslots
  refine mem_takenNames_iff.2 ⟨slots', hslots', ?_⟩
  rw [slotNames_eq] at hmem ⊢
  rw [Region.depth, hheader, hbody]
  exact hmem

/-! ## The passes due -/

/-- The passes that are due in a document below whose properties no section is misplaced. -/
def passesDue (w : Nat) (ls : List Line) : Nat :=
  (propertiesIdentities w ls).length + rootPasses ls + shadowedCount w ls

/-- No section is misplaced below a bare header of properties. -/
def Aligned (w : Nat) (ls : List Line) : Prop :=
  ∀ r, (Sections.ofLines ls).properties = .ok (some r) → isMisaligned w r = false

/-- Properties are declared at least one level below their header, as they are where the header is
indented by no more than one level below the props. -/
def Roomy (w : Nat) (ls : List Line) : Prop :=
  ∀ r, (Sections.ofLines ls).properties = .ok (some r) → r.depth + w ≤ declaredDepth w ls r

theorem rootPasses_eq {v : Region} (hv : (Sections.ofLines ls).variants = .ok (some v)) :
    rootPasses ls = if Region.isEmptySequence v.inline then 1 else 0 := by
  rw [rootPasses, variantsIdentities_eq hv]
  split
  · rfl
  · rw [List.count_replicate, if_neg (by decide)]

theorem rootPasses_of_not_found (h : found (Sections.ofLines ls).variants = none) :
    rootPasses ls = 0 := by
  rw [rootPasses, variantsIdentities_of_not_found h, List.count_nil]

/-- A rewriting of the properties leaves the header of the variants alone. -/
theorem rootPasses_of_rewrites (hin : r.IsIn "properties".toList ls) (h : Rewrites r header body)
    (hsub : body.Sublist r.body) : rootPasses (rewritten r header body) = rootPasses ls := by
  have hbelow := below_zero_of_sublist hin hsub
  have hne : "variants".toList ≠ "properties".toList := by decide
  cases hv : found (Sections.ofLines ls).variants with
  | some v =>
    rw [found_eq_some_iff] at hv
    obtain ⟨v', hlocated, hheader, -⟩ := exists_section_of_rewrites hin h hne hbelow hv
    have hv' : (Sections.ofLines (rewritten r header body)).variants = .ok (some v') := hlocated
    have hkeyword : v'.keyword = v.keyword :=
      (isIn_of_variants hv).keyword_congr (isIn_of_variants hv')
    rw [rootPasses_eq hv', rootPasses_eq hv, Region.inline_congr hheader hkeyword]
  | none =>
    cases hv' : found (Sections.ofLines (rewritten r header body)).variants with
    | none => rw [rootPasses_of_not_found hv, rootPasses_of_not_found hv']
    | some v' =>
      rw [found_eq_some_iff] at hv'
      obtain ⟨v, hbefore, -⟩ := exists_section_before_rewrites hin h hne hbelow hv'
      have hfound : found (Sections.ofLines ls).variants = some v := found_eq_some_iff.2 hbefore
      rw [hv] at hfound
      cases hfound

theorem blocks_ne_nil {depth : Nat} {name : Text} (hname : name ∈ (r.blocks depth).map Prod.fst) :
    r.blocks depth ≠ [] := by
  intro hnil
  rw [hnil] at hname
  cases hname

/-- Where the properties declare something, a pass is due to their header only for an empty
sequence. -/
theorem isDue_of_blocks {depth : Nat} (hblocks : r.blocks depth ≠ [])
    (haligned : isMisaligned w r = false) : isDue w r = Region.isEmptySequence r.inline := by
  rw [isDue_of_hasContent (Region.hasContent_of_blocks hblocks)]
  rw [isMisaligned] at haligned
  rw [haligned, Bool.or_false]

theorem length_propertiesIdentities (hr : (Sections.ofLines ls).properties = .ok (some r)) :
    (propertiesIdentities w ls).length = if isDue w r then 1 else 0 := by
  rw [propertiesIdentities_eq hr]
  split <;> rfl

/-! ## A change makes one pass less due -/

/-- The names that are left behind a property that goes. -/
theorem shadowedCount_of_erased {name : Text}
    (hr : (Sections.ofLines ls).properties = .ok (some r)) (htaken : name ∈ takenNames w ls)
    (hname : name ∈ (r.blocks (declaredDepth w ls r)).map Prod.fst)
    (h : Rewrites r header (eraseBlock (declaredDepth w ls r) name r.body)) :
    shadowedCount w (rewritten r header (eraseBlock (declaredDepth w ls r) name r.body)) + 1 =
      shadowedCount w ls := by
  have hin := isIn_of_properties hr
  obtain ⟨r', hr', hheader, hbody, hprops⟩ := exists_properties_of_rewrites hr h
  have hdepth : r'.depth = r.depth := by rw [Region.depth, hheader, h.depth_eq]
  have htaken' := takenNames_of_rewrites (w := w) hin h (Declaration.sublist_eraseBlock _ _ _)
    (Or.inr ⟨_, name, lt_declaredDepth hin hname, rfl⟩)
  have hpos : 0 < ((r.blocks (declaredDepth w ls r)).map Prod.fst).countP
      (takenNames w ls).contains := by
    rw [List.countP_pos_iff]
    exact ⟨name, hname, List.contains_iff_mem.2 htaken⟩
  rw [shadowedCount_eq hr', shadowedCount_eq hr, htaken', declaredDepth_congr hprops hdepth,
    map_fst_blocks_of_erased hin hbody, List.countP_erase,
    if_pos ⟨hname, List.contains_iff_mem.2 htaken⟩]
  omega

theorem shadowedCount_of_mapped (hr : (Sections.ofLines ls).properties = .ok (some r))
    (hm : r.Mappable) : shadowedCount w (rewritten r r.mapped r.body) = shadowedCount w ls := by
  have hin := isIn_of_properties hr
  have h := rewrites_mapped hin hm (List.Sublist.refl r.body)
  obtain ⟨r', hr', hheader, hbody, hprops⟩ := exists_properties_of_rewrites hr h
  have hdepth : r'.depth = r.depth := by rw [Region.depth, hheader, h.depth_eq]
  rw [hin.nested_body] at hbody
  rw [shadowedCount_eq hr', shadowedCount_eq hr,
    takenNames_of_rewrites (w := w) hin h (List.Sublist.refl r.body) (Or.inl rfl),
    declaredDepth_congr hprops hdepth, Region.blocks, hbody]
  rfl

/-- The header of the variants has no part in it. -/
theorem shadowedCount_le_of_swap {xs ys : List Line} {a b : Line}
    (ha : opensSection "variants".toList a = true)
    (hb : opensSection "variants".toList b = true) :
    shadowedCount w (xs ++ a :: ys) ≤ shadowedCount w (xs ++ b :: ys) := by
  cases hfound : found (Sections.ofLines (xs ++ a :: ys)).properties with
  | none =>
    rw [shadowedCount_of_not_found hfound]
    exact Nat.zero_le _
  | some r =>
    have hr := found_eq_some_iff.1 hfound
    obtain ⟨r', hr', hheader, hbody, -, hprops⟩ := exists_properties_of_swap ha hb hr
    have hdepth : r'.depth = r.depth := Region.depth_congr hheader
    rw [shadowedCount_eq hr, shadowedCount_eq hr', declaredDepth_congr hprops hdepth,
      Region.blocks, Region.blocks, hbody]
    refine List.countP_mono_left fun name _ hname => ?_
    rw [List.contains_iff_mem] at hname ⊢
    exact takenNames_subset_of_swap ha hb hname

/-- The header of the variants gets its empty mapping. -/
theorem passesDue_of_variants {v : Region} (hv : (Sections.ofLines ls).variants = .ok (some v))
    (hseq : Region.isEmptySequence v.inline = true) :
    passesDue w (v.before ++ v.mapped :: (v.body ++ v.after)) + 1 = passesDue w ls := by
  have hopens := Region.opensSection_header hv
  have hopens' := opensSection_mapped hv (Or.inr hseq)
  have hlines : v.before ++ v.header :: (v.body ++ v.after) = ls := (isIn_of_variants hv).lines_eq
  have hold : rootPasses ls = 1 := by rw [rootPasses_eq hv, if_pos hseq]
  have hnew : rootPasses (v.before ++ v.mapped :: (v.body ++ v.after)) = 0 := by
    rw [rootPasses, variantsIdentities_of_mapped hv hseq, List.count_nil]
  have hheaders : (propertiesIdentities w (v.before ++ v.mapped :: (v.body ++ v.after))).length =
      (propertiesIdentities w ls).length := by
    rw [← hlines]
    exact Nat.le_antisymm (propertiesIdentities_of_swap hopens hopens').length_le
      (propertiesIdentities_of_swap hopens' hopens).length_le
  have hshadowed : shadowedCount w (v.before ++ v.mapped :: (v.body ++ v.after)) =
      shadowedCount w ls := by
    rw [← hlines]
    exact Nat.le_antisymm (shadowedCount_le_of_swap hopens' hopens)
      (shadowedCount_le_of_swap hopens hopens')
  unfold passesDue
  omega

/-- Where another property is left behind the one that goes, the header is as it was. -/
theorem length_propertiesIdentities_of_erased {name : Text}
    (hr : (Sections.ofLines ls).properties = .ok (some r))
    (hname : name ∈ (r.blocks (declaredDepth w ls r)).map Prod.fst)
    (hmany : (r.blocks (declaredDepth w ls r)).length ≠ 1) (haligned : Aligned w ls)
    (haligned' : Aligned w (rewritten r r.header (eraseBlock (declaredDepth w ls r) name r.body))) :
    (propertiesIdentities w (rewritten r r.header
        (eraseBlock (declaredDepth w ls r) name r.body))).length =
      (propertiesIdentities w ls).length := by
  have hin := isIn_of_properties hr
  obtain ⟨r', hr', hheader, hbody, -⟩ :=
    exists_properties_of_rewrites hr (rewrites_eraseBlock hin (declaredDepth w ls r) name)
  have hkeyword : r'.keyword = r.keyword := hin.keyword_congr (isIn_of_properties hr')
  rw [length_propertiesIdentities hr', length_propertiesIdentities hr,
    isDue_of_blocks (blocks_ne_nil hname) (haligned r hr),
    isDue_of_blocks (blocks_of_erased_ne_nil hin hbody hname hmany) (haligned' r' hr'),
    Region.inline_congr hheader hkeyword]

/-- A bare header over a property has nothing to map. -/
theorem length_propertiesIdentities_of_block
    (hr : (Sections.ofLines ls).properties = .ok (some r)) (hblock : r.isBlock = true)
    (hblocks : r.blocks (declaredDepth w ls r) ≠ []) (haligned : Aligned w ls) :
    (propertiesIdentities w ls).length = 0 := by
  have hseq : Region.isEmptySequence r.inline = false := by
    rw [← Bool.not_eq_true]
    intro hseq
    rw [Region.isBlock_of_isEmptySequence hseq] at hblock
    cases hblock
  rw [length_propertiesIdentities hr, isDue_of_blocks hblocks (haligned r hr), hseq]
  rfl

/-- **A change makes one pass less due**, as long as no section is misplaced before it or behind
it. -/
theorem Change.passesDue_succ {kind : FindingKind} (h : Change w ls kind ls')
    (hkind : identity kind ∈ identities w ls) (haligned : Aligned w ls)
    (haligned' : Aligned w ls') : passesDue w ls' + 1 = passesDue w ls := by
  cases h with
  | @mapped r hr hm =>
    have hin := isIn_of_properties hr
    have hm' : r.Mappable := hm.symm.imp (fun h => h.1) id
    have h := rewrites_mapped hin hm' (List.Sublist.refl r.body)
    have hold := propertiesIdentities_of_mem hkind
    have hnew := propertiesIdentities_of_mapped (w := w) hr hm' h
    have hroot := rootPasses_of_rewrites hin h (List.Sublist.refl _)
    have hshadowed := shadowedCount_of_mapped (w := w) hr hm'
    rw [rewritten] at hnew hroot hshadowed
    rw [passesDue, passesDue, hold, hnew, hroot, hshadowed, List.length_nil, List.length_singleton]
    omega
  | @realigned r blanks rest l span hr hblock hbody hblanks hl hdepth hkey =>
    -- The line is misplaced already.
    have hfirst : r.firstContent? = some l := by
      rw [Region.firstContent?, hbody, Line.find?_isContent_append_of_blank hblanks,
        List.find?_cons_of_pos hl]
    have hmisaligned := haligned r hr
    rw [isMisaligned, isSome_misplacedSibling?, hblock, hfirst, Option.any_some, hkey,
      decide_eq_true hdepth] at hmisaligned
    cases hmisaligned
  | variants hv hseq => exact passesDue_of_variants hv hseq
  | @removed r slots name hr hslots htaken hname hmany =>
    have hin := isIn_of_properties hr
    have h := rewrites_eraseBlock hin (declaredDepth w ls r) name
    have hroot := rootPasses_of_rewrites hin h (Declaration.sublist_eraseBlock _ _ _)
    have hshadowed := shadowedCount_of_erased hr (mem_takenNames_iff.2 ⟨slots, hslots, htaken⟩)
      hname h
    have hheaders := length_propertiesIdentities_of_erased hr hname hmany haligned haligned'
    rw [rewritten] at hroot hshadowed hheaders
    unfold passesDue
    omega
  | @collapsed r slots name hr hslots htaken hname hone hblock =>
    have hin := isIn_of_properties hr
    have hm : r.Mappable := Or.inl hblock
    have h := rewrites_mapped hin hm
      (Declaration.sublist_eraseBlock (declaredDepth w ls r) name r.body)
    have hroot := rootPasses_of_rewrites hin h (Declaration.sublist_eraseBlock _ _ _)
    have hshadowed := shadowedCount_of_erased hr (mem_takenNames_iff.2 ⟨slots, hslots, htaken⟩)
      hname h
    have hnew := propertiesIdentities_of_mapped (w := w) hr hm h
    have hold := length_propertiesIdentities_of_block hr hblock (blocks_ne_nil hname) haligned
    rw [rewritten] at hroot hshadowed hnew
    rw [passesDue, passesDue, hnew, List.length_nil]
    omega

/-! ## Sections that a property leaves misplaced -/

/-- A change keeps the depth at which properties are declared below their header. -/
theorem Roomy.change {kind : FindingKind} (hroomy : Roomy w ls) (h : Change w ls kind ls') :
    Roomy w ls' := by
  intro r' hr'
  rcases h.rewrites with ⟨v, hv, hseq, rfl⟩ | ⟨r, header, body, hr, hrewrites, rfl⟩
  · have hlines : v.before ++ v.header :: (v.body ++ v.after) = ls := (isIn_of_variants hv).lines_eq
    obtain ⟨r, hr, hheader, -, -, hprops⟩ := exists_properties_of_swap
      (opensSection_mapped hv (Or.inr hseq)) (Region.opensSection_header hv) hr'
    rw [hlines] at hr hprops
    have hdepth : r.depth = r'.depth := Region.depth_congr hheader
    have hle := hroomy r hr
    rwa [declaredDepth_congr hprops hdepth, hdepth] at hle
  · obtain ⟨r₀, hr₀, hheader, -, hprops⟩ := exists_properties_of_rewrites hr hrewrites
    obtain rfl := Option.some.inj (Except.ok.inj (hr₀.symm.trans hr'))
    have hdepth : r₀.depth = r.depth := by rw [Region.depth, hheader, hrewrites.depth_eq]
    rw [declaredDepth_congr hprops hdepth, hdepth]
    exact hroomy r hr

/-- Below an empty mapping no section is misplaced. -/
theorem aligned_of_mapped (hr : (Sections.ofLines ls).properties = .ok (some r)) (hm : r.Mappable)
    (h : Rewrites r r.mapped body) : Aligned w (rewritten r r.mapped body) := by
  intro r' hr'
  have hin := isIn_of_properties hr
  obtain ⟨r₀, hr₀, hheader, -⟩ := exists_properties_of_rewrites hr h
  obtain rfl := Option.some.inj (Except.ok.inj (hr₀.symm.trans hr'))
  have hkeyword : r₀.keyword = r.keyword := hin.keyword_congr (isIn_of_properties hr')
  rw [isMisaligned, Region.isBlock_of_mapped hin.hasKey hm hheader hkeyword, Bool.false_and]

/-- A change leaves a section misplaced only if a property goes, and only where properties are
declared at less than one level below their header, so that the header is indented. -/
theorem Change.aligned_or_uncovers {kind : FindingKind} (h : Change w ls kind ls')
    (haligned : Aligned w ls) :
    Aligned w ls' ∨ ∃ r name, kind = .nameConflict name none ∧
      (Sections.ofLines ls').properties = .ok (some r) ∧ isMisaligned w r = true ∧ 0 < r.depth ∧
      declaredDepth w ls' r < r.depth + w ∧ rootPasses ls' = rootPasses ls := by
  cases h with
  | mapped hr hm =>
    have hm' : Region.Mappable _ := hm.symm.imp (fun h => h.1) id
    exact Or.inl (aligned_of_mapped hr hm'
      (rewrites_mapped (isIn_of_properties hr) hm' (List.Sublist.refl _)))
  | realigned span hr hblock hbody hblanks hl hdepth hkey =>
    have h := aligned_of_mapped (w := w) hr (Or.inl hblock)
      (rewrites_realigned (isIn_of_properties hr) hblock hbody hl hkey)
    rw [rewritten, List.append_assoc, List.cons_append] at h
    exact Or.inl h
  | @variants v hv hseq =>
    refine Or.inl fun r' hr' => ?_
    have hlines : v.before ++ v.header :: (v.body ++ v.after) = ls := (isIn_of_variants hv).lines_eq
    obtain ⟨r, hr, hheader, hbody, -⟩ := exists_properties_of_swap
      (opensSection_mapped hv (Or.inr hseq)) (Region.opensSection_header hv) hr'
    have hkeyword : r.keyword = r'.keyword :=
      (isIn_of_properties hr').keyword_congr (isIn_of_properties hr)
    rw [hlines] at hr
    rw [← isMisaligned_congr hheader hkeyword (Region.firstContent?_congr hbody)]
    exact haligned r hr
  | @removed r slots name hr hslots htaken hname hmany =>
    have hin := isIn_of_properties hr
    have h := rewrites_eraseBlock hin (declaredDepth w ls r) name
    obtain ⟨r', hr', hheader, hbody, hprops⟩ := exists_properties_of_rewrites hr h
    have hdepth : r'.depth = r.depth := Region.depth_congr hheader
    have hdeclared : declaredDepth w _ r' = declaredDepth w ls r := declaredDepth_congr hprops hdepth
    by_cases hmisaligned : isMisaligned w r' = true
    · -- The first line below the header is above another property, and less than a level deeper.
      have hblocks := blocks_of_erased_ne_nil hin hbody hname hmany
      have hany := hmisaligned
      rw [isMisaligned, Bool.and_eq_true, isSome_misplacedSibling?, Option.any_eq_true] at hany
      obtain ⟨-, l, hfirst, hl⟩ := hany
      rw [Bool.and_eq_true, decide_eq_true_eq] at hl
      have hle := Region.depth_le_of_blocks hblocks hfirst
      have hlt : declaredDepth w ls r < r'.depth + w := by omega
      refine Or.inr ⟨r', name, rfl, hr', hmisaligned, ?_,
        Nat.lt_of_le_of_lt (Nat.le_of_eq hdeclared) hlt,
        rootPasses_of_rewrites hin h (Declaration.sublist_eraseBlock _ _ _)⟩
      rw [declaredDepth_eq] at hlt
      split at hlt <;> omega
    · refine Or.inl fun r₀ hr₀ => ?_
      obtain rfl := Option.some.inj (Except.ok.inj (hr'.symm.trans hr₀))
      simpa using hmisaligned
  | collapsed hr hslots htaken hname hone hblock =>
    exact Or.inl (aligned_of_mapped hr (Or.inl hblock) (rewrites_mapped (isIn_of_properties hr)
      (Or.inl hblock) (Declaration.sublist_eraseBlock _ _ _)))

theorem Aligned.change {kind : FindingKind} (haligned : Aligned w ls) (hroomy : Roomy w ls)
    (h : Change w ls kind ls') : Aligned w ls' := by
  rcases h.aligned_or_uncovers haligned with haligned' | ⟨r, name, -, hr, -, -, hlt, -⟩
  · exact haligned'
  · have hle := hroomy.change h r hr
    omega

/-! ## What is due and what is left to fix -/

/-- The findings of a scan that are left to a human. -/
def manualCount (w : Nat) (path : String) (t : Text) : Nat :=
  (scan w path t).findings.countP fun f => !f.kind.isAutoFixable

/-- The names that a scan finds in conflict, each counted once. -/
def conflictCount (w : Nat) (ls : List Line) : Nat :=
  (conflictDefects w (Sections.ofLines ls)).length

/-- Of the defects of the variants only that of the root is fixed. -/
theorem countP_variantsDefects (ls : List Line) :
    (variantsDefects (Sections.ofLines ls)).countP (fun d => d.2.isAutoFixable) =
      rootPasses ls := by
  rw [rootPasses, variantsIdentities, List.count, List.countP_map]
  refine List.countP_congr fun d hd => ?_
  obtain ⟨target, hkind⟩ := kind_of_mem_variantsDefects hd
  rw [Function.comp_apply, hkind]
  cases target <;> decide

theorem countP_propertiesDefects (w : Nat) (ls : List Line) :
    (propertiesDefects w (Sections.ofLines ls)).countP (fun d => d.2.isAutoFixable) =
      (propertiesIdentities w ls).length := by
  rw [propertiesIdentities, List.length_map, List.countP_eq_length]
  intro d hd
  obtain ⟨realign, hkind⟩ := kind_of_mem_propertiesDefects hd
  rw [hkind]
  rfl

/-- The findings that have a fix, check by check. -/
theorem countP_isAutoFixable (w : Nat) (path : String) (t : Text) :
    (scan w path t).findings.countP (fun f => f.kind.isAutoFixable) =
      (propertiesIdentities w (Line.ofText t)).length + rootPasses (Line.ofText t) +
        conflictCount w (Line.ofText t) := by
  have hconflicts : (conflictDefects w (Sections.ofLines (Line.ofText t))).countP
      (fun d => d.2.isAutoFixable) = conflictCount w (Line.ofText t) := by
    rw [conflictCount, List.countP_eq_length]
    intro d hd
    obtain ⟨name, collapse, hkind⟩ := kind_of_mem_conflictDefects hd
    rw [hkind]
    rfl
  rw [scan, List.countP_map, List.countP_append, List.countP_append]
  exact congrArg₂ _
    (congrArg₂ _ (countP_propertiesDefects w _) (countP_variantsDefects _)) hconflicts

theorem length_findings (w : Nat) (path : String) (t : Text) :
    (scan w path t).findings.length =
      (propertiesIdentities w (Line.ofText t)).length + rootPasses (Line.ofText t) +
        conflictCount w (Line.ofText t) + manualCount w path t := by
  rw [List.length_eq_countP_add_countP fun f : Finding => f.kind.isAutoFixable,
    countP_isAutoFixable, manualCount]
  simp only [Bool.not_eq_true, Bool.decide_eq_false]

/-- Names are in conflict exactly if properties are shadowed. -/
theorem shadowedCount_eq_zero_iff : shadowedCount w ls = 0 ↔ conflictCount w ls = 0 := by
  obtain ⟨names, heq, -, hmem⟩ := exists_names_conflictIdentities w ls
  have hlength : conflictCount w ls = names.length := by
    have hlength := congrArg List.length heq
    rwa [conflictIdentities, List.length_map, List.length_map] at hlength
  rw [hlength, List.length_eq_zero_iff, List.eq_nil_iff_forall_not_mem]
  cases hfound : found (Sections.ofLines ls).properties with
  | none =>
    rw [shadowedCount_of_not_found hfound]
    refine iff_of_true rfl fun name hname => ?_
    obtain ⟨r, slots, hr, -⟩ := (hmem name).1 hname
    rw [found_eq_some_iff.2 hr] at hfound
    cases hfound
  | some r =>
    have hr := found_eq_some_iff.1 hfound
    rw [shadowedCount_eq hr, List.countP_eq_zero]
    constructor
    · intro hnone name hname
      obtain ⟨r', slots, hr', hslots, htaken, hdeclared⟩ := (hmem name).1 hname
      obtain rfl := Option.some.inj (Except.ok.inj (hr.symm.trans hr'))
      exact hnone name hdeclared
        (List.contains_iff_mem.2 (mem_takenNames_iff.2 ⟨slots, hslots, htaken⟩))
    · intro hnone name hdeclared htaken
      obtain ⟨slots, hslots, htaken⟩ := mem_takenNames_iff.1 (List.contains_iff_mem.1 htaken)
      exact hnone name ((hmem name).2 ⟨r, slots, hr, hslots, htaken, hdeclared⟩)

/-- Passes are due exactly as long as there is something to fix. -/
theorem passesDue_eq_zero_iff :
    passesDue w (Line.ofText t) = 0 ↔ nextFix? w path t = none := by
  have hcount := countP_isAutoFixable w path t
  have hnone : nextFix? w path t = none ↔
      (scan w path t).findings.countP (fun f => f.kind.isAutoFixable) = 0 := by
    rw [nextFix?_eq_none_iff, List.countP_eq_zero]
    simp only [Bool.not_eq_true]
  have hshadowed := @shadowedCount_eq_zero_iff w (Line.ofText t)
  rw [hnone, hcount, passesDue]
  omega

/-! ## Runs -/

theorem mem_identities_of_nextFix? {f : Finding} (hnext : nextFix? w path t = some f) :
    identity f.kind ∈ identities w (Line.ofText t) := by
  rw [← map_identity_findings w path]
  exact List.mem_map_of_mem (mem_of_nextFix? hnext).1

/-- A pass that goes through leaves the outcome to the passes behind it. -/
theorem repairPasses_succ_eq_error_iff {f : Finding} {e : FixError} {budget left : Nat}
    (hnext : nextFix? w path t = some f) (hfix : f.fix t = .ok t') :
    repairPasses w path budget (left + 1) t = .error e ↔
      repairPasses w path budget left t' = .error e := by
  rw [repairPasses, hnext]
  cases hrest : repairPasses w path budget left t' <;>
    simp [hfix, hrest, bind, Except.bind, pure, Except.pure]

/-- A conflict is only fixed once nothing is due to a header any more. -/
theorem headers_of_nextFix? {f : Finding} {name : Text} {collapse : Option Span}
    (hnext : nextFix? w path t = some f) (hkind : f.kind = .nameConflict name collapse) :
    propertiesIdentities w (Line.ofText t) = [] ∧ rootPasses (Line.ofText t) = 0 := by
  rw [nextFix?, scan, List.map_append, List.find?_append] at hnext
  cases hfirst : List.find? (fun f : Finding => f.kind.isAutoFixable)
      ((propertiesDefects w (Sections.ofLines (Line.ofText t)) ++
        variantsDefects (Sections.ofLines (Line.ofText t))).map
          fun d => Finding.locatedAt path t d.1 d.2) with
  | some g =>
    -- What is found at a header is no conflict.
    rw [hfirst, Option.some_or, Option.some.injEq] at hnext
    obtain ⟨d, hd, hdf⟩ := List.mem_map.1 (List.mem_of_find?_eq_some hfirst)
    have hdkind : d.2 = .nameConflict name collapse := by
      rw [← hkind, ← hnext, ← hdf]
      rfl
    rcases List.mem_append.1 hd with hd | hd
    · obtain ⟨realign, hd⟩ := kind_of_mem_propertiesDefects hd
      rw [hd] at hdkind
      cases hdkind
    · obtain ⟨target, hd⟩ := kind_of_mem_variantsDefects hd
      rw [hd] at hdkind
      cases hdkind
  | none =>
    have hcount := (List.countP_eq_zero (p := fun d : Defect => d.2.isAutoFixable)).2
      fun d hd => List.find?_eq_none.1 hfirst _ (List.mem_map_of_mem hd)
    rw [List.countP_append, countP_propertiesDefects, countP_variantsDefects,
      Nat.add_eq_zero_iff, List.length_eq_zero_iff] at hcount
    exact hcount

theorem passesDue_pos {f : Finding} (hnext : nextFix? w path t = some f) :
    0 < passesDue w (Line.ofText t) := by
  by_contra hzero
  have hnone : nextFix? w path t = none := passesDue_eq_zero_iff.1 (Nat.eq_zero_of_not_pos hzero)
  rw [hnext] at hnone
  cases hnone

/-- A fix is refused only as the last pass that is due. -/
theorem passesDue_of_refused {f : Finding} {e : FixError} (hnext : nextFix? w path t = some f)
    (hfix : f.fix t = .error e) : passesDue w (Line.ofText t) = 1 := by
  obtain ⟨hmem, hauto⟩ := mem_of_nextFix? hnext
  rcases fix_cases hmem hauto with ⟨t', hfix', -⟩ | ⟨r, name, hr, hkind, -, hone, -⟩
  · rw [hfix] at hfix'
    cases hfix'
  · obtain ⟨hheader, hroot⟩ := headers_of_nextFix? hnext hkind
    have hpos := passesDue_pos hnext
    have hle : shadowedCount w (Line.ofText t) ≤ 1 := by
      rw [shadowedCount_eq hr, ← hone, ← List.length_map (f := Prod.fst)]
      exact List.countP_le_length
    rw [passesDue, hheader, hroot, List.length_nil] at hpos ⊢
    omega

/-- A fix that is refused is no want of passes. -/
theorem ne_noConvergence_of_refused {f : Finding} {e : FixError} (hnext : nextFix? w path t = some f)
    (hfix : f.fix t = .error e) (n : Nat) : e ≠ .noConvergence n := by
  rintro rfl
  obtain ⟨hmem, hauto⟩ := mem_of_nextFix? hnext
  obtain ⟨name, header, -, -, he⟩ := kind_of_fix_eq_error hmem hauto hfix
  cases he

theorem repairPasses_succ_of_refused {f : Finding} {e : FixError} {budget left : Nat}
    (hnext : nextFix? w path t = some f) (hfix : f.fix t = .error e) :
    repairPasses w path budget (left + 1) t ≠ .error (.noConvergence budget) := by
  intro h
  rw [repairPasses, hnext] at h
  simp only [hfix, bind, Except.bind, Except.error.injEq] at h
  exact ne_noConvergence_of_refused hnext hfix budget h

/-- **A repair is given up for want of passes exactly if more are due than allowed**, if no section
can come to be misplaced. -/
theorem repairPasses_eq_noConvergence_iff {budget left : Nat}
    (hroomy : Roomy w (Line.ofText t)) (haligned : Aligned w (Line.ofText t)) :
    repairPasses w path budget left t = .error (.noConvergence budget) ↔
      left < passesDue w (Line.ofText t) := by
  -- The induction is on the passes left, and a pass lowers both sides by one.
  induction left generalizing t with
  | zero =>
    cases hnext : nextFix? w path t with
    | none =>
      rw [passesDue_eq_zero_iff.2 hnext]
      simp [repairPasses, hnext]
    | some f =>
      refine iff_of_true ?_ (passesDue_pos hnext)
      simp [repairPasses, hnext]
  | succ left ih =>
    cases hnext : nextFix? w path t with
    | none =>
      rw [passesDue_eq_zero_iff.2 hnext]
      simp [repairPasses, hnext]
    | some f =>
      cases hfix : f.fix t with
      | error e =>
        rw [passesDue_of_refused hnext hfix]
        exact iff_of_false (repairPasses_succ_of_refused hnext hfix) (by omega)
      | ok t' =>
        have hchange := change_of_nextFix? hnext hfix
        have haligned' := haligned.change hroomy hchange
        have hdue := hchange.passesDue_succ (mem_identities_of_nextFix? hnext) haligned haligned'
        rw [repairPasses_succ_eq_error_iff hnext hfix, ih (hroomy.change hchange) haligned']
        omega

/-- Below an indented header one pass puts a misplaced section into its place, and nothing is left
behind it. -/
theorem repairPasses_of_misaligned {budget left : Nat}
    (hr : (Sections.ofLines (Line.ofText t)).properties = .ok (some r))
    (hmisaligned : isMisaligned w r = true) (hdepth : 0 < r.depth)
    (hroot : rootPasses (Line.ofText t) = 0) :
    repairPasses w path budget (left + 1) t ≠ .error (.noConvergence budget) := by
  intro h
  cases hnext : nextFix? w path t with
  | none => simp [repairPasses, hnext] at h
  | some f =>
    cases hfix : f.fix t with
    | error e => exact repairPasses_succ_of_refused hnext hfix h
    | ok t' =>
      rw [repairPasses_succ_eq_error_iff hnext hfix] at h
      refine repairPasses_ne_noConvergence (Nat.le_trans (Nat.le_of_eq ?_) (Nat.zero_le left)) h
      obtain ⟨span, hkind⟩ := kind_of_nextFix?_of_misaligned hr hmisaligned hnext
      have hchange := change_of_nextFix? hnext hfix
      rw [hkind] at hchange
      generalize Line.ofText t' = ls' at hchange ⊢
      cases hchange with
      | @realigned r₀ blanks rest l _ hr₀ hblock hbody hblanks hl hless hkey =>
        obtain rfl := Option.some.inj (Except.ok.inj (hr.symm.trans hr₀))
        have hin := isIn_of_properties hr
        obtain ⟨r', hbody', hleft⟩ := passesLeft_of_mapped (w := w) hr (Or.inl hblock)
          (rewrites_realigned hin hblock hbody hl hkey)
        have hblocks : r'.blocks (declaredDepth w (Line.ofText t) r) = [] := by
          rw [Region.blocks, hbody', nested_of_realigned hblanks hl]
          rfl
        have hle := rootPasses_le_of_subperm
          (variantsIdentities_of_realigned hin hblock hbody hblanks hl hkey hdepth)
        rw [hblocks, List.length_nil] at hleft
        rw [rewritten, List.append_assoc, List.cons_append] at hleft hle
        omega

/-- A section that comes to be misplaced takes one more pass. -/
theorem le_passesDue_of_noConvergence {budget left : Nat} (haligned : Aligned w (Line.ofText t))
    (h : repairPasses w path budget left t = .error (.noConvergence budget)) :
    left ≤ passesDue w (Line.ofText t) := by
  induction left generalizing t with
  | zero => exact Nat.zero_le _
  | succ left ih =>
    cases hnext : nextFix? w path t with
    | none => simp [repairPasses, hnext] at h
    | some f =>
      cases hfix : f.fix t with
      | error e => exact absurd h (repairPasses_succ_of_refused hnext hfix)
      | ok t' =>
        rw [repairPasses_succ_eq_error_iff hnext hfix] at h
        have hchange := change_of_nextFix? hnext hfix
        rcases hchange.aligned_or_uncovers haligned with
          haligned' | ⟨r, name, hkind, hr, hmisaligned, hdepth, -, hroot⟩
        · have hle := ih haligned' h
          have hdue := hchange.passesDue_succ (mem_identities_of_nextFix? hnext) haligned haligned'
          omega
        · rw [(headers_of_nextFix? hnext hkind).2] at hroot
          have hpos := passesDue_pos hnext
          cases left with
          | zero => omega
          | succ left => exact absurd h (repairPasses_of_misaligned hr hmisaligned hdepth hroot)

/-- Where no property is declared at less than a level below the header, none is declared above a
misplaced section. -/
theorem shadowedCount_of_misaligned (hr : (Sections.ofLines ls).properties = .ok (some r))
    (hroomy : r.depth + w ≤ declaredDepth w ls r) (hmisaligned : isMisaligned w r = true) :
    shadowedCount w ls = 0 := by
  have hblocks : r.blocks (declaredDepth w ls r) = [] := by
    by_contra hblocks
    rw [isMisaligned, Bool.and_eq_true, isSome_misplacedSibling?, Option.any_eq_true] at hmisaligned
    obtain ⟨-, l, hfirst, hl⟩ := hmisaligned
    rw [Bool.and_eq_true, decide_eq_true_eq] at hl
    have hle := Region.depth_le_of_blocks hblocks hfirst
    omega
  rw [shadowedCount_eq hr, hblocks]
  rfl

/-- **Only repeated declarations use up the passes.**  A repair that is given up for want of passes
has had as many as the first scan has findings and `passSlack` more.  Then the properties with the
name of a slot outnumber the findings for them by `passSlack` and by the findings that are left to
a human, or by more.  Where the properties are indented by no more than one level below the props,
it is given up exactly if they outnumber them by more than that. -/
theorem repair_gives_up_only_over_repeats (w : Nat) (path : String) (t : Text) :
    (∀ n, repair w path t = .error (.noConvergence n) →
      n = (scan w path t).findings.length + passSlack ∧
        conflictCount w (Line.ofText t) + manualCount w path t + passSlack ≤
          shadowedCount w (Line.ofText t)) ∧
      ((∀ r, (Sections.ofLines (Line.ofText t)).properties = .ok (some r) →
          r.depth + w ≤ declaredDepth w (Line.ofText t) r) →
        (repair w path t = .error (.noConvergence ((scan w path t).findings.length + passSlack)) ↔
          conflictCount w (Line.ofText t) + manualCount w path t + passSlack <
            shadowedCount w (Line.ofText t))) := by
  have hlength := length_findings w path t
  have hsuffices : ∀ r, (Sections.ofLines (Line.ofText t)).properties = .ok (some r) →
      isMisaligned w r = true →
        repair w path t ≠ .error (.noConvergence ((scan w path t).findings.length + passSlack)) := by
    intro r hr hmisaligned
    refine repairPasses_ne_noConvergence ?_
    rw [passesLeft_of_misaligned hr hmisaligned, passSlack]
    omega
  constructor
  · intro n hrepair
    have hn : n = (scan w path t).findings.length + passSlack := by
      obtain ⟨fs, t', f, -, hnext, ⟨-, he⟩ | hrefused⟩ := cases_of_repairPasses_eq_error hrepair
      · exact FixError.noConvergence.inj he
      · exact absurd rfl (ne_noConvergence_of_refused hnext hrefused n)
    subst hn
    have haligned : Aligned w (Line.ofText t) := by
      intro r hr
      by_contra hmisaligned
      exact hsuffices r hr (Bool.not_eq_false _ ▸ hmisaligned) hrepair
    have hle := le_passesDue_of_noConvergence haligned hrepair
    rw [passesDue] at hle
    exact ⟨rfl, by omega⟩
  · intro hroomy
    by_cases haligned : Aligned w (Line.ofText t)
    · have hiff : repairPasses w path ((scan w path t).findings.length + passSlack)
            ((scan w path t).findings.length + passSlack) t =
            .error (.noConvergence ((scan w path t).findings.length + passSlack)) ↔
          (scan w path t).findings.length + passSlack < passesDue w (Line.ofText t) :=
        repairPasses_eq_noConvergence_iff hroomy haligned
      rw [passesDue] at hiff
      refine hiff.trans ?_
      omega
    · unfold Aligned at haligned
      push Not at haligned
      obtain ⟨r, hr, hmisaligned⟩ := haligned
      rw [Ne, Bool.not_eq_false] at hmisaligned
      rw [shadowedCount_of_misaligned hr (hroomy r hr) hmisaligned]
      exact iff_of_false (hsuffices r hr hmisaligned) (Nat.not_lt_zero _)

/-- A card that declares one property ten times, with a slot of the same name. -/
def tenfold : Text :=
  "properties:\n".toList ++ (List.replicate 10 "  a: x\n".toList).flatten ++ "slots:\n  a: z\n".toList

/-- Of ten declarations nine go, and the budget of nine passes is used up. -/
theorem repair_gives_up_only_over_repeats_of_tenfold :
    shadowedCount 2 (Line.ofText tenfold) = 10 ∧
      repair 2 "card.yml" tenfold = .error (.noConvergence 9) ∧
      9 = (scan 2 "card.yml" tenfold).findings.length + passSlack ∧
      conflictCount 2 (Line.ofText tenfold) + manualCount 2 "card.yml" tenfold + passSlack ≤ 10 := by
  have hcount : shadowedCount 2 (Line.ofText tenfold) = 10 := by decide +kernel
  have hconflicts : conflictCount 2 (Line.ofText tenfold) = 1 := by decide +kernel
  have hmanual : manualCount 2 "card.yml" tenfold = 0 := by decide +kernel
  have hlength : (scan 2 "card.yml" tenfold).findings.length = 1 := by decide +kernel
  have hprops : (found (Sections.ofLines (Line.ofText tenfold)).props).isSome = false := by
    decide +kernel
  obtain ⟨honly, hiff⟩ := repair_gives_up_only_over_repeats 2 "card.yml" tenfold
  have hrepair := (hiff fun r hr => by
    rw [declaredDepth_eq, hprops, if_neg Bool.false_ne_true]).2
    (by rw [hcount, hconflicts, hmanual, passSlack]; omega)
  rw [hlength] at hrepair
  have hrest := honly 9 hrepair
  rw [hcount] at hrest
  exact ⟨hcount, hrepair, hrest⟩

/-- The budget is not always enough: the name is found in conflict once, and the repair is given up
although each of its passes makes progress. -/
theorem passes_do_not_always_suffice :
    ¬ ∀ (w : Nat) (path : String) (t : Text), 1 ≤ w →
      ∀ n, repair w path t ≠ .error (.noConvergence n) := by
  intro h
  have hrepair : repair 2 "card.yml" tenfold = .error (.noConvergence 9) := by decide +kernel
  exact h 2 "card.yml" tenfold (by omega) 9 hrepair

end Component
end ThemeRepair
