import ThemeRepair.Proofs.Component.Change
import ThemeRepair.Proofs.Region.Opening

/-!
# Rewriting the properties

A fix writes into one region, and the next scan locates all regions afresh.  What fixes do to the
properties is a rewriting: another header of the same key and indentation, and other lines below it
(`Component.Rewrites`).  It is known what the next scan finds then.  The properties are at the same
place, with the lines nested below the new header
(`Component.exists_properties_at_of_rewrites`).  Any other section is the old one, or holds the new
lines where it held the old ones (`Component.exists_section_of_rewrites`), and none is found that
was not found before (`Component.exists_section_before_rewrites`).

What fixes do besides is to map the variants (`Component.Change.rewrites`).
-/

namespace ThemeRepair
namespace Component

open Line (below nested trimmed marks opened opensSection)

variable {ls : List Line} {r : Region}

/-- The lines with another header and body for the region. -/
def rewritten (r : Region) (header : Line) (body : List Line) : List Line :=
  r.before ++ header :: (body ++ r.after)

/-- A header and lines that may stand for the properties and what is below them: the header is
again one of properties, the lines have no marks of their own, and they begin no section unless the
properties are one. -/
structure Rewrites (r : Region) (header : Line) (body : List Line) : Prop where
  declares : header.declares "properties".toList = true
  indentation : header.indentation = r.header.indentation
  marks : marks body ⊆ marks (r.header :: r.body)
  opens : ∀ l ∈ body, opensSection "props".toList l = false
  below : 0 < r.depth → ∀ l ∈ body, below 0 l = true

namespace Rewrites

variable {header : Line} {body : List Line}

theorem isContent (h : Rewrites r header body) : header.isContent = true :=
  Line.isContent_of_declares h.declares

theorem depth_eq (h : Rewrites r header body) : header.depth = r.depth := by
  rw [Line.depth, h.indentation]
  rfl

theorem key?_eq (h : Rewrites r header body) : header.key? = some "properties".toList := by
  have hdeclares := h.declares
  rw [Line.declares, Bool.and_eq_true, beq_iff_eq] at hdeclares
  exact hdeclares.2

/-- The new header opens no other section. -/
theorem opensSection_eq (h : Rewrites r header body) {keyword : Text}
    (hkeyword : keyword ≠ "properties".toList) : opensSection keyword header = false := by
  have hne : (some "properties".toList == some keyword) = false := by
    rw [beq_eq_false_iff_ne]
    exact fun he => hkeyword (Option.some.inj he).symm
  rw [opensSection, Line.declares, h.key?_eq, hne, Bool.and_false, Bool.false_and]

/-- The new lines have the marks of the old ones. -/
theorem marks_cons_subset (h : Rewrites r header body) (hheader : r.header.isContent = true) :
    Line.marks (header :: body) ⊆ Line.marks (r.header :: r.body) := by
  rw [Line.marks_cons_of_isContent h.isContent, h.indentation]
  refine List.append_subset.2 ⟨?_, h.marks⟩
  rw [Line.marks_cons_of_isContent hheader]
  exact List.subset_append_left _ _

end Rewrites

variable {header : Line} {body : List Line}

theorem below_zero_of_sublist {keyword : Text} (hin : r.IsIn keyword ls)
    (hsub : body.Sublist r.body) : ∀ l ∈ body, below 0 l = true :=
  fun _ hl => Line.below_mono (Nat.zero_le _) (hin.below_of_mem_body (hsub.subset hl))

/-- Some of the lines of the body, below the header or one like it, rewrite the region. -/
theorem rewrites_of_sublist (hin : r.IsIn "properties".toList ls)
    (hdeclares : header.declares "properties".toList = true)
    (hindentation : header.indentation = r.header.indentation) (hsub : body.Sublist r.body) :
    Rewrites r header body where
  declares := hdeclares
  indentation := hindentation
  marks := Line.marks_subset_of_sublist (hsub.trans (List.sublist_cons_self _ _))
  opens l hl := Line.opensSection_of_below (below_zero_of_sublist hin hsub l hl)
  below _ := below_zero_of_sublist hin hsub

/-- The header with an empty mapping, over some of the lines, rewrites the properties. -/
theorem rewrites_mapped (hin : r.IsIn "properties".toList ls) (hm : r.Mappable)
    (hsub : body.Sublist r.body) : Rewrites r r.mapped body := by
  have hdeclares := Region.declares_mapped hin.hasKey hm
  rw [hin.keyword_eq] at hdeclares
  exact rewrites_of_sublist hin hdeclares (Region.indentation_mapped hin.hasKey) hsub

theorem rewrites_eraseBlock (hin : r.IsIn "properties".toList ls) (depth : Nat) (name : Text) :
    Rewrites r r.header (Declaration.eraseBlock depth name r.body) :=
  rewrites_of_sublist hin hin.declares rfl (Declaration.sublist_eraseBlock depth name r.body)

/-- The misplaced line, with the indentation of the header, rewrites the properties as well. -/
theorem rewrites_realigned {blanks rest : List Line} {l : Line}
    (hin : r.IsIn "properties".toList ls) (hblock : r.isBlock = true)
    (hbody : r.body = blanks ++ l :: rest) (hl : l.isContent = true)
    (hkey : l.key?.any siblingKeywords.contains = true) :
    Rewrites r r.mapped (blanks ++ l.withIndentation r.header.indentation :: rest) := by
  have hm : r.Mappable := Or.inl hblock
  have hdeclares := Region.declares_mapped hin.hasKey hm
  rw [hin.keyword_eq] at hdeclares
  have hbelow := below_zero_of_sublist hin (List.Sublist.refl r.body)
  rw [hbody] at hbelow
  simp only [List.forall_mem_append, List.forall_mem_cons] at hbelow
  have hindent := Line.indentation_withIndentation hl
    (Region.isIndent_of_mem_indentation (l := r.header))
  have hcontent := Line.isContent_withIndentation hl
    (Region.isIndent_of_mem_indentation (l := r.header))
  refine ⟨hdeclares, Region.indentation_mapped hin.hasKey, ?_, ?_, ?_⟩
  · -- The marks that the line has now are those of the header.
    rw [hbody, Line.marks_append, Line.marks_cons_of_isContent hcontent, hindent,
      Line.marks_cons_of_isContent hin.isContent_header, Line.marks_append, Line.marks_cons l]
    intro c hc
    simp only [List.mem_append] at hc ⊢
    rcases hc with hc | hc | hc
    · exact Or.inr (Or.inl hc)
    · exact Or.inl hc
    · exact Or.inr (Or.inr (Or.inr hc))
  · -- The line may open a section from now on, but none of props.
    simp only [List.forall_mem_append, List.forall_mem_cons]
    refine ⟨fun m hm => Line.opensSection_of_below (hbelow.1 m hm), ?_,
      fun m hm => Line.opensSection_of_below (hbelow.2.2 m hm)⟩
    have hne : (l.key? == some "props".toList) = false := by
      rw [beq_eq_false_iff_ne]
      rintro heq
      rw [heq] at hkey
      exact absurd hkey (by decide)
    rw [opensSection, Line.declares, Line.key?_withIndentation hl
      (Region.isIndent_of_mem_indentation (l := r.header)), hne, Bool.and_false, Bool.false_and]
  · intro hdepth
    simp only [List.forall_mem_append, List.forall_mem_cons]
    refine ⟨hbelow.1, ?_, hbelow.2.2⟩
    rw [Line.below_of_isContent hcontent, Line.depth, hindent, decide_eq_true_eq]
    exact hdepth

/-- The misplaced line ends the properties from then on: nothing is nested below them. -/
theorem nested_of_realigned {blanks rest : List Line} {l : Line}
    (hblanks : ∀ m ∈ blanks, m.isContent = false) (hl : l.isContent = true) :
    nested r.depth (blanks ++ l.withIndentation r.header.indentation :: rest) = [] := by
  have hindent := Region.isIndent_of_mem_indentation (l := r.header)
  refine Line.nested_of_closes ((Line.closes_append_of_blank hblanks).2
    (Line.closes_cons_of_isContent (Line.isContent_withIndentation hl hindent) ?_))
  rw [Line.depth, Line.indentation_withIndentation hl hindent]
  exact Nat.le_refl _

/-- **A change maps the variants or rewrites the properties.** -/
theorem Change.rewrites {w : Nat} {kind : FindingKind} {ls' : List Line}
    (h : Change w ls kind ls') :
    (∃ v, (Sections.ofLines ls).variants = .ok (some v) ∧
        Region.isEmptySequence v.inline = true ∧
        ls' = v.before ++ v.mapped :: (v.body ++ v.after)) ∨
      ∃ r header body, (Sections.ofLines ls).properties = .ok (some r) ∧
        Rewrites r header body ∧ ls' = rewritten r header body := by
  cases h with
  | mapped hr hm =>
    have hm' : Region.Mappable _ := hm.symm.imp (fun h => h.1) id
    exact Or.inr
      ⟨_, _, _, hr, rewrites_mapped (isIn_of_properties hr) hm' (List.Sublist.refl _), rfl⟩
  | realigned span hr hblock hbody hblanks hl hdepth hkey =>
    refine Or.inr ⟨_, _, _, hr,
      rewrites_realigned (isIn_of_properties hr) hblock hbody hl hkey, ?_⟩
    rw [rewritten, List.append_assoc, List.cons_append]
  | variants hv hseq => exact Or.inl ⟨_, hv, hseq, rfl⟩
  | removed hr hslots htaken hname hmany =>
    exact Or.inr ⟨_, _, _, hr, rewrites_eraseBlock (isIn_of_properties hr) _ _, rfl⟩
  | collapsed hr hslots htaken hname hone hblock =>
    exact Or.inr ⟨_, _, _, hr, rewrites_mapped (isIn_of_properties hr) (Or.inl hblock)
      (Declaration.sublist_eraseBlock _ _ _), rfl⟩

/-! ## The properties under a rewriting -/

/-- The region that the new lines make up. -/
theorem exists_isIn_of_rewrites (hin : r.IsIn "properties".toList ls)
    (h : Rewrites r header body) :
    ∃ r' : Region, r'.IsIn "properties".toList (rewritten r header body) ∧
      r'.before = r.before ∧ r'.header = header ∧ r'.body = nested r.depth body := by
  have hsub : marks (header :: nested r.depth body) ⊆ marks (r.header :: r.body) := by
    have hnested := Line.marks_subset_of_sublist
      ((Line.isPrefix_nested r.depth body).sublist.cons_cons header)
    exact List.Subset.trans hnested (h.marks_cons_subset hin.isContent_header)
  have hmix := Line.mixesIndentation_of_subset hsub hin.unmixed
  rw [← h.depth_eq] at hmix
  have hcapture : Region.capture "properties".toList r.before header body r.after = .ok _ :=
    Region.capture_of_unmixed hmix
  have hclose : Line.Closes header.depth r.after := by
    rw [h.depth_eq]
    exact hin.closes_after
  exact ⟨_, Region.isIn_of_capture hcapture h.declares hclose, rfl, rfl, by rw [h.depth_eq]⟩

/-- The parent of the properties, and what of its body stands above them, stays. -/
theorem exists_props_of_rewrites {props : Region} {passed rest : List Line}
    (hprops : (Sections.ofLines ls).props = .ok (some props))
    (hin : r.IsIn "properties".toList ls) (hdepth : 0 < r.depth)
    (hbefore : r.before = props.before ++ props.header :: passed)
    (hbody : props.body = passed ++ r.header :: rest) (h : Rewrites r header body) :
    ∃ props' : Region, (Sections.ofLines (rewritten r header body)).props = .ok (some props') ∧
      props'.IsIn "props".toList (rewritten r header body) ∧ props'.before = props.before ∧
      props'.header = props.header ∧ ∃ rest', props'.body = passed ++ header :: rest' := by
  obtain ⟨hpin, hpdepth, hpbefore⟩ := isIn_of_props hprops
  have hpassed : ∀ l ∈ passed, below 0 l = true := fun l hl => by
    rw [← hpdepth]
    exact hpin.below_of_mem_body (by rw [hbody]; simp [hl])
  -- The old and the new properties both lie in the run of indented lines below the props.
  have hrun : ∀ (m : Line) (ms : List Line), m.isContent = true → m.depth = r.depth →
      (∀ l ∈ ms, below 0 l = true) →
      nested 0 (passed ++ m :: (ms ++ r.after)) =
        trimmed (passed ++ (m :: ms ++ r.after.takeWhile (below 0))) := by
    intro m ms hc hm hms
    have hall : ∀ l ∈ passed ++ m :: ms, below 0 l = true := by
      simp only [List.forall_mem_append, List.forall_mem_cons]
      refine ⟨hpassed, ?_, hms⟩
      rw [Line.below_of_isContent hc, hm, decide_eq_true_eq]
      exact hdepth
    have hsplit : passed ++ m :: (ms ++ r.after) = (passed ++ m :: ms) ++ r.after := by simp
    rw [hsplit, Line.nested_append_of_forall hall, List.append_assoc]
  have hlines : props.body ++ props.after = passed ++ r.header :: (r.body ++ r.after) := by
    have heq := hpin.lines_eq.trans hin.lines_eq.symm
    rw [Region.lines, Region.lines, hbefore, List.append_assoc] at heq
    exact (List.cons.inj (List.append_cancel_left heq)).2
  have hold : props.body =
      trimmed (passed ++ (r.header :: r.body ++ r.after.takeWhile (below 0))) := by
    rw [hpin.body_eq, hlines, hpdepth]
    exact hrun r.header r.body hin.isContent_header rfl
      (below_zero_of_sublist hin (List.Sublist.refl _))
  have hnew := hrun header body h.isContent h.depth_eq (h.below hdepth)
  have hmix := hpin.unmixed
  rw [hold] at hmix
  have hmix' := Line.mixesIndentation_insert (h.marks_cons_subset hin.isContent_header) hmix
  have hpdepth' : props.header.depth = 0 := hpdepth
  -- The new lines have no marks but old ones, so the props are refused no more than before.
  rw [← hnew, ← hpdepth'] at hmix'
  have hcapture : Region.capture "props".toList props.before props.header
      (passed ++ header :: (body ++ r.after)) [] = .ok _ := Region.capture_of_unmixed hmix'
  have hin' := Region.isIn_of_capture hcapture hpin.declares (Line.closes_nil _)
  have hlines' : props.before ++ props.header :: (passed ++ header :: (body ++ r.after) ++ []) =
      rewritten r header body := by
    rw [rewritten, hbefore]
    simp
  rw [hlines'] at hin'
  refine ⟨_, Region.findSection_of_isIn hin' hpdepth hpbefore, hin', rfl, rfl,
    trimmed (body ++ r.after.takeWhile (below 0)), ?_⟩
  simp only [hpdepth', hnew]
  rw [Line.trimmed_append_of_content ⟨header, by simp, h.isContent⟩, List.cons_append,
    Line.trimmed_cons_of_isContent h.isContent]

/-- Where no line opens the props, none of the new lines does. -/
theorem no_props_of_rewrites (hprops : (Sections.ofLines ls).props = .ok none)
    (hin : r.IsIn "properties".toList ls) (h : Rewrites r header body) :
    (Sections.ofLines (rewritten r header body)).props = .ok none := by
  have hnone := Region.forall_of_locate_eq_none hprops
  refine Region.locate_eq_none (fun l hl => ?_) [] []
  rw [rewritten, List.mem_append, List.mem_cons, List.mem_append] at hl
  rcases hl with hl | rfl | hl | hl
  · exact hnone l (hin.mem_lines.2 (Or.inl hl))
  · exact h.opensSection_eq (by decide)
  · exact h.opens l hl
  · exact hnone l (hin.mem_lines.2 (Or.inr (Or.inr (Or.inr hl))))

/-- The depth of the children is decided above the properties or by them. -/
theorem childDepth?_of_rewrites {props props' : Region} {passed rest rest' : List Line}
    (hin : r.IsIn "properties".toList ls) (h : Rewrites r header body)
    (hbody : props.body = passed ++ r.header :: rest)
    (hbody' : props'.body = passed ++ header :: rest')
    (hchild : props.childDepth? = some r.depth) : props'.childDepth? = some r.depth := by
  rw [Region.childDepth?, Region.firstContent?, hbody, List.find?_append,
    List.find?_cons_of_pos hin.isContent_header] at hchild
  rw [Region.childDepth?, Region.firstContent?, hbody', List.find?_append,
    List.find?_cons_of_pos h.isContent]
  cases hfind : passed.find? Line.isContent with
  | none => rw [Option.none_or, Option.map_some, h.depth_eq]
  | some l =>
    rw [hfind] at hchild
    exact hchild

/-- **The properties are found again** where they were, with the new header and what is nested
below it. -/
theorem exists_properties_at_of_rewrites
    (hr : (Sections.ofLines ls).properties = .ok (some r)) (h : Rewrites r header body) :
    ∃ r' : Region, (Sections.ofLines (rewritten r header body)).properties = .ok (some r') ∧
      r'.before = r.before ∧ r'.header = header ∧ r'.body = nested r.depth body ∧
      ((found (Sections.ofLines (rewritten r header body)).props).isSome =
        (found (Sections.ofLines ls).props).isSome) := by
  have hin := isIn_of_properties hr
  obtain ⟨r', hin', hbefore', hheader', hbody'⟩ := exists_isIn_of_rewrites hin h
  have hdepth' : r'.depth = r.depth := by
    rw [Region.depth, hheader', h.depth_eq]
  rcases properties_cases hr with ⟨hprops, hfind⟩ | ⟨props, hprops, hlocated⟩
  · have hprops' := no_props_of_rewrites hprops hin h
    have hfind' := Region.find_of_isIn hin' (by
      rw [hbefore']
      exact (Region.isIn_of_find hfind).2)
    exact ⟨r', (properties_of_no_props hprops').trans hfind', hbefore', hheader', hbody',
      by rw [hprops, hprops']⟩
  · obtain ⟨-, hchild, hdeeper, passed, hbefore, -, ⟨rest, hbody⟩, hpassed⟩ :=
      Region.isIn_of_child (isIn_of_props hprops).1 hlocated
    have hpositive : 0 < r.depth := Nat.lt_of_le_of_lt (Nat.zero_le _) hdeeper
    obtain ⟨props', hprops', hpin', hpbefore', hpheader', rest', hpbody'⟩ :=
      exists_props_of_rewrites hprops hin hpositive hbefore hbody h
    have hchild' := childDepth?_of_rewrites hin h hbody hpbody' hchild
    have hlocated' : props'.child "properties".toList = .ok (some r') := by
      refine Region.child_of_isIn hpin' hin' ?_ (by rw [hpbody', hheader']) ?_ ?_
      · rw [hbefore', hbefore, hpbefore', hpheader']
      · rw [hchild', hdepth']
      · rw [hdepth']
        exact hpassed
    exact ⟨r', (properties_of_props hprops').trans hlocated', hbefore', hheader', hbody',
      by rw [hprops, hprops']; rfl⟩

theorem exists_properties_of_rewrites
    (hr : (Sections.ofLines ls).properties = .ok (some r)) (h : Rewrites r header body) :
    ∃ r' : Region, (Sections.ofLines (rewritten r header body)).properties = .ok (some r') ∧
      r'.header = header ∧ r'.body = nested r.depth body ∧
      ((found (Sections.ofLines (rewritten r header body)).props).isSome =
        (found (Sections.ofLines ls).props).isSome) := by
  obtain ⟨r', hr', -, hrest⟩ := exists_properties_at_of_rewrites hr h
  exact ⟨r', hr', hrest⟩

/-! ## Other sections under a rewriting -/

/-- **Another section is the old one**, or it holds the new lines where it held the old ones. -/
theorem opened_rewritten {keyword : Text} (hin : r.IsIn "properties".toList ls)
    (h : Rewrites r header body) (hkeyword : keyword ≠ "properties".toList)
    (hbelow : ∀ l ∈ body, below 0 l = true) :
    opened (opensSection keyword) (rewritten r header body) =
        opened (opensSection keyword) ls ∨
      0 < r.depth ∧ ∃ top front,
        opened (opensSection keyword) ls =
          some (top, trimmed (front ++ (r.header :: r.body ++ r.after.takeWhile (below 0)))) ∧
        opened (opensSection keyword) (rewritten r header body) =
          some (top, trimmed (front ++ (header :: body ++ r.after.takeWhile (below 0)))) := by
  have hrbody := below_zero_of_sublist hin (List.Sublist.refl r.body)
  have hself := rewrites_of_sublist hin hin.declares rfl (List.Sublist.refl _)
  have hlines : rewritten r r.header r.body = ls := hin.lines_eq
  rcases Nat.eq_zero_or_pos r.depth with hzero | hpositive
  · -- The header separates what is above it from what is below it.
    have htop : ∀ (m : Line) (ms : List Line), Rewrites r m ms →
        (∀ l ∈ ms, below 0 l = true) →
        opened (opensSection keyword) (rewritten r m ms) =
          (opened (opensSection keyword) r.before).or
            (opened (opensSection keyword) r.after) := by
      intro m ms hm hms
      have hbelow : below 0 m = false :=
        Line.below_eq_false_iff.2 ⟨hm.isContent, by rw [hm.depth_eq, hzero]⟩
      rw [rewritten, Line.opened_append_top hbelow (hm.opensSection_eq hkeyword),
        Line.opened_append_of_forall fun l hl => Line.opensSection_of_below (hms l hl)]
    left
    rw [htop header body h hbelow, ← hlines, htop r.header r.body hself hrbody]
  · -- The lines are indented, before and after, so they are in one section or in none.
    have hall : ∀ (m : Line) (ms : List Line), Rewrites r m ms → (∀ l ∈ ms, below 0 l = true) →
        ∀ l ∈ m :: ms, below 0 l = true := by
      intro m ms hm hms
      rw [List.forall_mem_cons, Line.below_of_isContent hm.isContent, hm.depth_eq,
        decide_eq_true_eq]
      exact ⟨hpositive, hms⟩
    have hnew := hall header body h hbelow
    have hold := hall r.header r.body hself hrbody
    rcases Line.opened_insert keyword r.before r.after with
      ⟨s, hs⟩ | ⟨top, front, hs⟩
    · left
      rw [rewritten, ← List.cons_append, hs _ hnew, ← hlines, rewritten, ← List.cons_append,
        hs _ hold]
    · refine Or.inr ⟨hpositive, top, front, ?_, ?_⟩
      · rw [← hlines, rewritten, ← List.cons_append]
        exact hs _ hold
      · rw [rewritten, ← List.cons_append]
        exact hs _ hnew

/-- An indented header bears every mark of its region, for the region does not mix them. -/
theorem marks_subset_of_indentation (hin : r.IsIn "properties".toList ls) (hdepth : 0 < r.depth)
    (h : Rewrites r header body) : marks (r.header :: r.body) ⊆ marks (header :: body) := by
  obtain ⟨a, rest, ha⟩ := List.exists_cons_of_length_pos hdepth
  have hamem : a ∈ r.header.indentation := by rw [ha]; simp
  have hheader : r.header.indentation ⊆ marks (r.header :: r.body) := by
    rw [Line.marks_cons_of_isContent hin.isContent_header]
    exact List.subset_append_left _ _
  have hindent : ∀ c ∈ marks (r.header :: r.body), c = ' ' ∨ c = '\t' := by
    intro c hc
    obtain ⟨l, -, hcl⟩ := List.mem_flatMap.1 hc
    have hc' := Region.isIndent_of_mem_indentation c hcl
    rw [Text.isIndent, Bool.or_eq_true, beq_iff_eq, beq_iff_eq] at hc'
    exact hc'
  -- There are only two marks, and the region does not have both.
  have hunmixed := hin.unmixed
  rw [Line.mixesIndentation_eq, Bool.and_eq_false_iff, List.contains_eq_mem, List.contains_eq_mem,
    decide_eq_false_iff_not, decide_eq_false_iff_not] at hunmixed
  intro c hc
  have hca : c = a := by
    rcases hindent c hc with rfl | rfl <;> rcases hindent a (hheader hamem) with rfl | rfl
    · rfl
    · exact absurd (hheader hamem) (hunmixed.resolve_left (fun hn => hn hc))
    · exact absurd hc (hunmixed.resolve_left (fun hn => hn (hheader hamem)))
    · rfl
  rw [Line.marks_cons_of_isContent h.isContent, h.indentation, hca]
  exact List.mem_append_left _ hamem

/-- How another section stands before and after a rewriting: the same, or with the new lines where
it held the old ones. -/
def Carries (r : Region) (header : Line) (body : List Line) (s s' : Region) : Prop :=
  s'.header = s.header ∧ (s'.body = s.body ∨ 0 < r.depth ∧ ∃ front,
    s.body = trimmed (front ++ (r.header :: r.body ++ r.after.takeWhile (below 0))) ∧
      s'.body = trimmed (front ++ (header :: body ++ r.after.takeWhile (below 0))))

/-- A section that was found is found again. -/
theorem exists_section_of_rewrites {keyword : Text} {s : Region}
    (hin : r.IsIn "properties".toList ls) (h : Rewrites r header body)
    (hkeyword : keyword ≠ "properties".toList) (hbelow : ∀ l ∈ body, below 0 l = true)
    (hs : Region.findSection keyword ls = .ok (some s)) :
    ∃ s', Region.findSection keyword (rewritten r header body) = .ok (some s') ∧
      Carries r header body s s' := by
  obtain ⟨hopened, hmix⟩ := Region.opened_of_locate hs
  rcases opened_rewritten hin h hkeyword hbelow with heq | ⟨hdepth, top, front, hold, hnew⟩
  · obtain ⟨s', hs', hheader, hbody⟩ := Region.exists_of_opened (heq.trans hopened) hmix [] []
    exact ⟨s', hs', hheader, Or.inl hbody⟩
  · obtain ⟨rfl, hsbody⟩ := Prod.mk.inj (Option.some.inj (hopened.symm.trans hold))
    rw [hsbody] at hmix
    have hmix' := Line.mixesIndentation_insert (h.marks_cons_subset hin.isContent_header) hmix
    obtain ⟨s', hs', hheader, hbody⟩ := Region.exists_of_opened hnew hmix' [] []
    exact ⟨s', hs', hheader, Or.inr ⟨hdepth, front, hsbody, hbody⟩⟩

/-- A section that is found after a rewriting was found before. -/
theorem exists_section_before_rewrites {keyword : Text} {s' : Region}
    (hin : r.IsIn "properties".toList ls) (h : Rewrites r header body)
    (hkeyword : keyword ≠ "properties".toList) (hbelow : ∀ l ∈ body, below 0 l = true)
    (hs' : Region.findSection keyword (rewritten r header body) = .ok (some s')) :
    ∃ s, Region.findSection keyword ls = .ok (some s) ∧ Carries r header body s s' := by
  obtain ⟨hopened, hmix⟩ := Region.opened_of_locate hs'
  rcases opened_rewritten hin h hkeyword hbelow with heq | ⟨hdepth, top, front, hold, hnew⟩
  · obtain ⟨s, hs, hheader, hbody⟩ := Region.exists_of_opened (heq.symm.trans hopened) hmix [] []
    exact ⟨s, hs, hheader.symm, Or.inl hbody.symm⟩
  · obtain ⟨rfl, hsbody⟩ := Prod.mk.inj (Option.some.inj (hopened.symm.trans hnew))
    rw [hsbody] at hmix
    have hmix' := Line.mixesIndentation_insert (marks_subset_of_indentation hin hdepth h) hmix
    obtain ⟨s, hs, hheader, hbody⟩ := Region.exists_of_opened hold hmix' [] []
    exact ⟨s, hs, hheader.symm, Or.inr ⟨hdepth, front, hbody, hsbody⟩⟩

end Component
end ThemeRepair
