import ThemeRepair.Proofs.Component.Identity
import Mathlib.Data.List.Count

/-!
# What a fix exposes

A fix takes its own finding away, and the next scan finds nothing that was not there before, except
for what the fix exposes (`Component.exposed`):

* a misplaced section of variants that comes to be the first one is checked from then on;
* of two properties of one name that a slot has too, the second is in conflict once the first is
  gone;
* a property that goes may uncover a misplaced section below it.

`Component.findings_subperm_of_fix` says so for the scans before and after any fix, with findings as
multisets.
-/

namespace ThemeRepair
namespace Component

open Line (below nested opened opensSection)
open Declaration (eraseBlock)

/-! ## The exposed findings -/

/-- The properties are not indented, the first line below them is a key of variants, and no section
of variants stands in front of them. -/
def uncoversVariants (r : Region) : Bool :=
  r.depth == 0 && r.firstContent?.any (fun l => l.key? == some "variants".toList) &&
    r.before.all fun l => !opensSection "variants".toList l

/-- A section is misplaced below the properties once the first property of the name is gone, and
none was before. -/
def uncoversSection (w depth : Nat) (name : Text) (r : Region) : Bool :=
  r.isBlock && !(misplacedSibling? w r).isSome &&
    (misplacedSibling? w { r with body := eraseBlock depth name r.body }).isSome

/-- The section that a realignment opens, with what follows it: the first content line below the
properties has the indentation of their header, and the lines behind it stay. -/
def realignedSection (r : Region) : List Line :=
  match r.body.dropWhile fun l => !l.isContent with
  | [] => []
  | l :: rest => l.withIndentation r.header.indentation :: (rest ++ r.after)

/-- What the fix of a finding exposes in the lines that were scanned. -/
def exposed (w : Nat) (ls : List Line) (kind : FindingKind) : List (String × Option Text) :=
  match found (Sections.ofLines ls).properties with
  | none => []
  | some r =>
    match kind with
    | .emptyCollection (some _) =>
      if uncoversVariants r then
        (variantsIdentities (realignedSection r)).diff (variantsIdentities ls)
      else []
    | .nameConflict name none =>
      let depth := declaredDepth w ls r
      let declared := (r.declarations .schemaProperty depth).map Declaration.name
      (if 1 < declared.count name then [identity (.nameConflict name none)] else []) ++
        if uncoversSection w depth name r then [identity (.emptyCollection none)] else []
    | _ => []

variable {w : Nat} {ls ls' : List Line} {r : Region} {header : Line} {body : List Line}

theorem exposed_of_realigned (hr : (Sections.ofLines ls).properties = .ok (some r)) (w : Nat)
    (span : Span) :
    exposed w ls (.emptyCollection (some span)) =
      if uncoversVariants r then
        (variantsIdentities (realignedSection r)).diff (variantsIdentities ls)
      else [] := by
  simp only [exposed, found_eq_some_iff.2 hr]

theorem exposed_of_removed (hr : (Sections.ofLines ls).properties = .ok (some r)) (w : Nat)
    (name : Text) :
    exposed w ls (.nameConflict name none) =
      (if 1 < ((r.blocks (declaredDepth w ls r)).map Prod.fst).count name then
          [identity (.nameConflict name none)]
        else []) ++
        if uncoversSection w (declaredDepth w ls r) name r then [identity (.emptyCollection none)]
        else [] := by
  simp only [exposed, found_eq_some_iff.2 hr, Region.map_name_declarations]

/-! ## A misplaced section takes its place -/

/-- Where the properties are not indented, the first section of variants is one in front of them,
or one in the lines that stand for what is below them. -/
theorem opened_rewritten_top {m : Line} {ms : List Line} (h : Rewrites r m ms)
    (hzero : r.depth = 0) :
    opened (opensSection "variants".toList) (rewritten r m ms) =
      (opened (opensSection "variants".toList) r.before).or
        (opened (opensSection "variants".toList) (ms ++ r.after)) := by
  have htop : below 0 m = false :=
    Line.below_eq_false_iff.2 ⟨h.isContent, by rw [h.depth_eq, hzero]⟩
  rw [rewritten, Line.opened_append_top htop (h.opensSection_eq (by decide))]

/-- A realignment that uncovers variants makes the section that it opens the first one. -/
theorem opened_uncovered {blanks rest : List Line} {l : Line} (hin : r.IsIn "properties".toList ls)
    (hblock : r.isBlock = true) (hbody : r.body = blanks ++ l :: rest)
    (hblanks : ∀ m ∈ blanks, m.isContent = false) (hl : l.isContent = true)
    (hkey : l.key?.any siblingKeywords.contains = true) (huncovers : uncoversVariants r = true) :
    opened (opensSection "variants".toList) (rewritten r r.mapped
        (blanks ++ l.withIndentation r.header.indentation :: rest)) =
      opened (opensSection "variants".toList) (realignedSection r) := by
  rw [uncoversVariants, Bool.and_eq_true, Bool.and_eq_true, beq_iff_eq, List.all_eq_true]
    at huncovers
  obtain ⟨⟨hzero, -⟩, hbefore⟩ := huncovers
  have hnone : opened (opensSection "variants".toList) r.before = none :=
    Line.opened_eq_none_iff.2 fun m hm => by simpa using hbefore m hm
  have hdrop : (r.body.dropWhile fun m => !m.isContent) = l :: rest := by
    rw [hbody, List.dropWhile_append_of_pos fun m hm => by simp [hblanks m hm],
      List.dropWhile_cons_of_neg (by simp [hl])]
  have hopens : ∀ m ∈ blanks, opensSection "variants".toList m = false := by
    intro m hm
    rw [opensSection, Line.declares, hblanks m hm, Bool.false_and, Bool.false_and]
  rw [opened_rewritten_top (rewrites_realigned hin hblock hbody hl hkey) hzero, hnone,
    Option.none_or, List.append_assoc, Line.opened_append_of_forall hopens, realignedSection, hdrop]
  rfl

/-- Nothing but a section of variants changes which one is the first. -/
theorem opened_realigned {blanks rest : List Line} {l : Line} (hin : r.IsIn "properties".toList ls)
    (hblock : r.isBlock = true) (hbody : r.body = blanks ++ l :: rest)
    (hblanks : ∀ m ∈ blanks, m.isContent = false) (hl : l.isContent = true)
    (hkey : l.key?.any siblingKeywords.contains = true) (hzero : r.depth = 0)
    (hkept : uncoversVariants r = false) :
    opened (opensSection "variants".toList) (rewritten r r.mapped
        (blanks ++ l.withIndentation r.header.indentation :: rest)) =
      opened (opensSection "variants".toList) ls := by
  have h := rewrites_realigned hin hblock hbody hl hkey
  have hself := rewrites_of_sublist hin hin.declares rfl (List.Sublist.refl r.body)
  have hrbody := below_zero_of_sublist hin (List.Sublist.refl r.body)
  have hlines : rewritten r r.header r.body = ls := hin.lines_eq
  rw [opened_rewritten_top h hzero, ← hlines, opened_rewritten_top hself hzero]
  by_cases hbefore : ∀ m ∈ r.before, opensSection "variants".toList m = false
  · -- Then the line is no key of variants, and the lines on both sides open no section either.
    have hfirst : r.firstContent? = some l := by
      rw [Region.firstContent?, hbody, Line.find?_isContent_append_of_blank hblanks,
        List.find?_cons_of_pos hl]
    have hall : (r.before.all fun m => !opensSection "variants".toList m) = true :=
      List.all_eq_true.2 fun m hm => by rw [hbefore m hm]; rfl
    rw [uncoversVariants, hzero, hfirst, hall, Bool.and_true, Option.any_some] at hkept
    have hne : (l.key? == some "variants".toList) = false := hkept
    rw [hbody, List.forall_mem_append, List.forall_mem_cons] at hrbody
    have hnone : ∀ m ∈ blanks ++ l.withIndentation r.header.indentation :: rest,
        opensSection "variants".toList m = false := by
      rw [List.forall_mem_append, List.forall_mem_cons]
      refine ⟨fun m hm => Line.opensSection_of_below (hrbody.1 m hm), ?_,
        fun m hm => Line.opensSection_of_below (hrbody.2.2 m hm)⟩
      rw [opensSection, Line.declares, Line.key?_withIndentation hl
        (Region.isIndent_of_mem_indentation (l := r.header)), hne, Bool.and_false, Bool.false_and]
    rw [Line.opened_append_of_forall hnone, Line.opened_append_of_forall fun m hm =>
      Line.opensSection_of_below (below_zero_of_sublist hin (List.Sublist.refl r.body) m hm)]
  · rw [← Line.opened_eq_none_iff] at hbefore
    obtain ⟨s, hs⟩ := Option.ne_none_iff_exists'.1 hbefore
    rw [hs, Option.some_or, Option.some_or]

/-- At the variants a realignment exposes what was set apart for it. -/
theorem variantsIdentities_subperm_of_realigned {blanks rest : List Line} {l : Line}
    (hr : (Sections.ofLines ls).properties = .ok (some r))
    (hblock : r.isBlock = true) (hbody : r.body = blanks ++ l :: rest)
    (hblanks : ∀ m ∈ blanks, m.isContent = false) (hl : l.isContent = true)
    (hkey : l.key?.any siblingKeywords.contains = true) (span : Span)
    (hls' : ls' = rewritten r r.mapped (blanks ++ l.withIndentation r.header.indentation :: rest)) :
    (variantsIdentities ls').Subperm
      (variantsIdentities ls ++ exposed w ls (.emptyCollection (some span))) := by
  have hin := isIn_of_properties hr
  rw [exposed_of_realigned hr]
  cases huncovers : uncoversVariants r with
  | true =>
    have hsection : (variantsIdentities ls').Subperm (variantsIdentities (realignedSection r)) :=
      hls' ▸ variantsIdentities_congr
        (opened_uncovered hin hblock hbody hblanks hl hkey huncovers)
    rw [if_pos rfl, List.subperm_ext_iff]
    intro i _
    have hcount := hsection.count_le i
    rw [List.count_append, List.count_diff]
    omega
  | false =>
    rw [if_neg Bool.false_ne_true, List.append_nil, hls']
    rcases Nat.eq_zero_or_pos r.depth with hzero | hpositive
    · exact variantsIdentities_congr
        (opened_realigned hin hblock hbody hblanks hl hkey hzero huncovers)
    · exact variantsIdentities_of_realigned hin hblock hbody hblanks hl hkey hpositive

/-! ## A property goes -/

/-- At the properties a property that goes exposes a misplaced section at most. -/
theorem propertiesIdentities_subperm_of_removed {name : Text}
    (hr : (Sections.ofLines ls).properties = .ok (some r))
    (hname : name ∈ (r.blocks (declaredDepth w ls r)).map Prod.fst)
    (hmany : (r.blocks (declaredDepth w ls r)).length ≠ 1)
    (hls' : ls' = rewritten r r.header (eraseBlock (declaredDepth w ls r) name r.body)) :
    (propertiesIdentities w ls').Subperm (propertiesIdentities w ls ++
      if uncoversSection w (declaredDepth w ls r) name r then [identity (.emptyCollection none)]
      else []) := by
  subst hls'
  have hin := isIn_of_properties hr
  have hself := rewrites_eraseBlock hin (declaredDepth w ls r) name
  obtain ⟨r', hr', hheader, hbody, -⟩ := exists_properties_of_rewrites hr hself
  have hkeyword : r'.keyword = r.keyword := hin.keyword_congr (isIn_of_properties hr')
  have hdepth : r'.depth = r.depth := Region.depth_congr hheader
  have hblocks : r.blocks (declaredDepth w ls r) ≠ [] := fun hnil => by
    rw [hnil] at hname
    cases hname
  have hcontent : r.hasContent = true := Region.hasContent_of_blocks hblocks
  -- Another property is left.
  have hcontent' : r'.hasContent = true :=
    Region.hasContent_of_blocks (blocks_of_erased_ne_nil hin hbody hname hmany)
  have hmisplaced : (misplacedSibling? w r').isSome = (misplacedSibling? w
      { r with body := eraseBlock (declaredDepth w ls r) name r.body }).isSome := by
    refine isSome_misplacedSibling?_congr hdepth ?_
    rw [Region.firstContent?, hbody, nested_of_sublist hin (Declaration.sublist_eraseBlock _ _ _),
      Line.find?_trimmed]
    rfl
  rw [propertiesIdentities_eq hr', propertiesIdentities_eq hr, isDue_of_hasContent hcontent',
    isDue_of_hasContent hcontent, Region.inline_congr hheader hkeyword,
    Region.isBlock_congr hheader hkeyword, hmisplaced, uncoversSection]
  cases Region.isEmptySequence r.inline <;> cases r.isBlock <;>
    cases (misplacedSibling? w r).isSome <;> cases (misplacedSibling? w
      { r with body := eraseBlock (declaredDepth w ls r) name r.body }).isSome <;> simp

/-- At the conflicts it exposes the next property of its name at most. -/
theorem conflictIdentities_subperm_of_erased {slots : Region} {name : Text}
    (hr : (Sections.ofLines ls).properties = .ok (some r))
    (hslots : (Sections.ofLines ls).slots = .ok (some slots)) (htaken : name ∈ slotNames w slots)
    (hname : name ∈ (r.blocks (declaredDepth w ls r)).map Prod.fst)
    (h : Rewrites r header (eraseBlock (declaredDepth w ls r) name r.body)) :
    (identity (.nameConflict name none) :: conflictIdentities w
        (rewritten r header (eraseBlock (declaredDepth w ls r) name r.body))).Subperm
      (conflictIdentities w ls ++
        if 1 < ((r.blocks (declaredDepth w ls r)).map Prod.fst).count name then
          [identity (.nameConflict name none)]
        else []) := by
  have hconflict : Conflicting w ls name := ⟨r, slots, hr, hslots, htaken, hname⟩
  split
  · have hsub := conflictIdentities_subperm fun other hother =>
      (Conflicting.of_erased hr hname h hother).1
    refine ((List.subperm_cons (identity (.nameConflict name none))).2 hsub).trans ?_
    exact (List.perm_append_singleton _ _).symm.subperm
  · next hcount =>
    rw [List.append_nil]
    refine conflictIdentities_cons_subperm
      (fun other hother => (Conflicting.of_erased hr hname h hother).1) hconflict ?_
    intro hagain
    have hmem := (Conflicting.of_erased hr hname h hagain).2
    rw [← List.count_pos_iff, List.count_erase_self] at hmem
    omega

/-! ## The scan after a fix -/

/-- Scans compare by how often each check finds each identity. -/
theorem cons_identities_subperm {i : String × Option Text} {more : List (String × Option Text)}
    (h : ∀ j, [i].count j + (propertiesIdentities w ls').count j +
        (variantsIdentities ls').count j + (conflictIdentities w ls').count j ≤
      (propertiesIdentities w ls).count j + (variantsIdentities ls).count j +
        (conflictIdentities w ls).count j + more.count j) :
    (i :: identities w ls').Subperm (identities w ls ++ more) := by
  rw [List.subperm_ext_iff]
  intro j _
  have hj := h j
  rw [← List.singleton_append, identities, identities]
  simp only [List.count_append]
  omega

/-- **A change exposes what it may, and its own finding is gone.** -/
theorem Change.identities_subperm {kind : FindingKind} (h : Change w ls kind ls')
    (hkind : identity kind ∈ identities w ls) :
    (identity kind :: identities w ls').Subperm (identities w ls ++ exposed w ls kind) := by
  cases h with
  | @mapped r hr hm =>
    -- The header keeps its key and its lines, so only its own finding goes.
    have hin := isIn_of_properties hr
    have hm' : r.Mappable := hm.symm.imp (fun h => h.1) id
    have h := rewrites_mapped hin hm' (List.Sublist.refl _)
    have hold := propertiesIdentities_of_mem hkind
    have hnew := propertiesIdentities_of_mapped (w := w) hr hm' h
    have hvariants := variantsIdentities_of_header hin h
    have hconflicts := conflictIdentities_subperm fun name => Conflicting.of_header (w := w) hr h
    refine cons_identities_subperm fun j => ?_
    have hv := hvariants.count_le j
    have hc := hconflicts.count_le j
    rw [rewritten] at hnew hv hc
    rw [hold, hnew, List.count_nil]
    omega
  | @realigned r blanks rest l span hr hblock hbody hblanks hl hdepth hkey =>
    have hin := isIn_of_properties hr
    have h := rewrites_realigned hin hblock hbody hl hkey
    -- The properties have no lines any more, so nothing is declared in them.
    have hlines : r.before ++ r.mapped ::
        (blanks ++ l.withIndentation r.header.indentation :: (rest ++ r.after)) =
        rewritten r r.mapped (blanks ++ l.withIndentation r.header.indentation :: rest) := by
      rw [rewritten, List.append_assoc, List.cons_append]
    have hold := propertiesIdentities_of_mem hkind
    have hnew := propertiesIdentities_of_mapped (w := w) hr (Or.inl hblock) h
    have hvariants :=
      variantsIdentities_subperm_of_realigned (w := w) hr hblock hbody hblanks hl hkey span hlines
    have hconflicts := conflictIdentities_eq_nil fun name hname =>
      Conflicting.not_of_realigned (w := w) hr hblock hbody hblanks hl hkey hname
    rw [← hlines] at hnew hconflicts
    refine cons_identities_subperm fun j => ?_
    have hv := hvariants.count_le j
    rw [List.count_append] at hv
    rw [hold, hnew, hconflicts, List.count_nil, identity_emptyCollection]
    omega
  | @variants v hv hseq =>
    have hopens := Region.opensSection_header hv
    have hopens' := opensSection_mapped hv (Or.inr hseq)
    have hlines : v.before ++ v.header :: (v.body ++ v.after) = ls := (isIn_of_variants hv).lines_eq
    have hold := variantsIdentities_eq hv
    rw [if_pos hseq] at hold
    have hnew := variantsIdentities_of_mapped hv hseq
    have hproperties :
        (propertiesIdentities w (v.before ++ v.mapped :: (v.body ++ v.after))).Subperm
          (propertiesIdentities w (v.before ++ v.header :: (v.body ++ v.after))) :=
      propertiesIdentities_of_swap hopens hopens'
    have hconflicts : (conflictIdentities w (v.before ++ v.mapped :: (v.body ++ v.after))).Subperm
        (conflictIdentities w (v.before ++ v.header :: (v.body ++ v.after))) :=
      conflictIdentities_subperm fun name hname => hname.of_swap hopens' hopens
    rw [hlines] at hproperties hconflicts
    refine cons_identities_subperm fun j => ?_
    have hp := hproperties.count_le j
    have hc := hconflicts.count_le j
    rw [hold, hnew, List.count_nil]
    omega
  | @removed r slots name hr hslots htaken hname hmany =>
    have hin := isIn_of_properties hr
    have hproperties := propertiesIdentities_subperm_of_removed hr hname hmany rfl
    have hvariants := variantsIdentities_of_erased hin hname
      (rewrites_eraseBlock hin (declaredDepth w ls r) name)
    have hconflicts := conflictIdentities_subperm_of_erased hr hslots htaken hname
      (rewrites_eraseBlock hin (declaredDepth w ls r) name)
    refine cons_identities_subperm fun j => ?_
    have hp := hproperties.count_le j
    have hv := hvariants.count_le j
    have hc := hconflicts.count_le j
    rw [← List.singleton_append] at hc
    simp only [List.count_append] at hp hc
    rw [exposed_of_removed hr, List.count_append]
    rw [rewritten] at hp hv hc
    omega
  | @collapsed r slots name hr hslots htaken hname hone hblock =>
    have hin := isIn_of_properties hr
    have h := rewrites_mapped hin (Or.inl hblock)
      (Declaration.sublist_eraseBlock (declaredDepth w ls r) name r.body)
    have hnew := propertiesIdentities_of_mapped (w := w) hr (Or.inl hblock) h
    have hvariants := variantsIdentities_of_erased hin hname h
    have hconflicts := conflictIdentities_subperm_of_erased hr hslots htaken hname h
    have hcount : ((r.blocks (declaredDepth w ls r)).map Prod.fst).count name ≤ 1 := by
      rw [← hone, ← List.length_map (f := Prod.fst)]
      exact List.count_le_length
    rw [if_neg (Nat.not_lt.2 hcount), List.append_nil] at hconflicts
    refine cons_identities_subperm fun j => ?_
    have hv := hvariants.count_le j
    have hc := hconflicts.count_le j
    rw [← List.singleton_append, List.count_append] at hc
    rw [rewritten] at hnew hv hc
    rw [hnew, identity_nameConflict, List.count_nil]
    omega

/-- **A fix introduces no findings but those it exposes.**  As multisets of identities, the findings
of the scan after the fix of a finding are among the findings of the scan before, without that one,
and those that the fix exposes. -/
theorem findings_subperm_of_fix {path : String} {t t' : Text} {f : Finding}
    (hmem : f ∈ (scan w path t).findings) (hauto : f.kind.isAutoFixable = true)
    (hfix : f.fix t = .ok t') :
    ((scan w path t').findings.map fun g => identity g.kind).Subperm
      (((scan w path t).findings.erase f).map (fun g => identity g.kind) ++
        exposed w (Line.ofText t) f.kind) := by
  have hkind : identity f.kind ∈ identities w (Line.ofText t) := by
    rw [← map_identity_findings w path]
    exact List.mem_map_of_mem hmem
  have hsub := (change_of_fix hmem hauto hfix).identities_subperm hkind
  have hperm : (identities w (Line.ofText t)).Perm
      (identity f.kind :: ((scan w path t).findings.erase f).map fun g => identity g.kind) := by
    rw [← map_identity_findings w path]
    exact (List.perm_cons_erase hmem).map _
  rw [map_identity_findings, ← List.subperm_cons (identity f.kind), ← List.cons_append]
  exact hsub.trans (hperm.append_right _).subperm

/-- One of two empty sequences is replaced, and the other is still found. -/
theorem findings_subperm_of_fix_one_of_two :
    ((scan 2 "card.yml" "properties: {}\nvariants: []\n".toList).findings.map
      fun g => identity g.kind).Subperm [("variants-root", none)] := by
  have hmem : (⟨"card.yml", 1, ⟨12, 14⟩, "[]".toList, .emptyCollection none⟩ : Finding) ∈
      (scan 2 "card.yml" "properties: []\nvariants: []\n".toList).findings := List.mem_cons_self
  exact findings_subperm_of_fix hmem rfl rfl

/-- The fix of a finding of one text makes it another, and the scan of that finds something that is
not among the other findings. -/
def Introduces (w : Nat) (path : String) (t t' : Text) : Prop :=
  ∃ f ∈ (scan w path t).findings, f.kind.isAutoFixable = true ∧ f.fix t = .ok t' ∧
    ¬ ((scan w path t').findings.map fun g => identity g.kind).Subperm
      (((scan w path t).findings.erase f).map fun g => identity g.kind)

/-- What a fix exposes was not found before: a misplaced section, the next property of a name, or a
section below the property that is gone. -/
theorem fix_exposes_findings :
    Introduces 2 "card.yml" "properties:\n variants: []\n".toList
        "properties: {}\nvariants: []\n".toList ∧
      Introduces 2 "card.yml" "properties:\n  a: x\n  a: y\nslots:\n  a: z\n".toList
        "properties:\n  a: y\nslots:\n  a: z\n".toList ∧
      Introduces 2 "card.yml"
        "props:\n   properties:\n    a: x\n    slots: y\nslots:\n  a: z\n".toList
        "props:\n   properties:\n    slots: y\nslots:\n  a: z\n".toList := by
  refine ⟨⟨⟨"card.yml", 1, ⟨11, 11⟩, [], .emptyCollection (some ⟨12, 13⟩)⟩,
      List.mem_cons_self, rfl, rfl, fun h => ?_⟩,
    ⟨⟨"card.yml", 2, ⟨12, 19⟩, "  a: x\n".toList, .nameConflict "a".toList none⟩,
      List.mem_cons_self, rfl, rfl, fun h => ?_⟩,
    ⟨⟨"card.yml", 3, ⟨22, 31⟩, "    a: x\n".toList, .nameConflict "a".toList none⟩,
      List.mem_cons_self, rfl, rfl, fun h => ?_⟩⟩
  -- Each scan finds one thing, and nothing else was found before.
  · exact absurd h.length_le (by decide)
  · exact absurd h.length_le (by decide)
  · exact absurd h.length_le (by decide)

end Component
end ThemeRepair
