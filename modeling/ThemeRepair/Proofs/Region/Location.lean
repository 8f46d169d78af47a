import ThemeRepair.Region
import ThemeRepair.Proofs.Line.Nesting

/-!
# Where regions are found

Every way of looking for a region ends in `Region.locate`, which splits lines at the first header
that declares the key and passes a test (`Region.locate_append_cons`, `Region.locate_eq_none`,
`Region.exists_of_locate`).

`Region.IsIn` says what a region found in a text is, whichever way it was found: it cuts the lines
of the text, its header declares the key, its body is what is nested below the header among *all*
lines that follow, and its indentation is not mixed.  The last two hold of a child as well, although
it is captured inside its parent only (`Region.isIn_of_child`): the parent ends where the child
would have ended, at the latest.
-/

namespace ThemeRepair
namespace Region

open Line (below nested trimmed Closes marks)

/-! ## Capturing a region -/

/-- What is captured below a header, if it is not refused. -/
theorem capture_eq_ok_iff {keyword : Text} {before rest after : List Line} {header : Line}
    {r : Region} :
    capture keyword before header rest after = .ok r ↔
      r = ⟨before, header, keyword, nested header.depth rest,
        rest.drop (nested header.depth rest).length ++ after⟩ ∧
      Line.mixesIndentation (header :: nested header.depth rest) = false := by
  rw [capture]
  cases hmix : Line.mixesIndentation (header :: nested header.depth rest) with
  | true => simp
  | false =>
    simp only [Bool.false_eq_true, if_false, Except.ok.injEq, and_true]
    exact eq_comm

theorem capture_of_unmixed {keyword : Text} {before rest after : List Line} {header : Line}
    (h : Line.mixesIndentation (header :: nested header.depth rest) = false) :
    capture keyword before header rest after =
      .ok ⟨before, header, keyword, nested header.depth rest,
        rest.drop (nested header.depth rest).length ++ after⟩ :=
  capture_eq_ok_iff.2 ⟨rfl, h⟩

theorem capture_of_mixed {keyword : Text} {before rest after : List Line} {header : Line}
    (h : Line.mixesIndentation (header :: nested header.depth rest) = true) :
    capture keyword before header rest after =
      .error (.ambiguous keyword (before.length + 1)) := by
  rw [capture]
  simp only [h, if_true]

/-! ## The first header -/

/-- Lines split at the first one that opens a region. -/
theorem locate_append_cons {keyword : Text} {admits : Line → Bool} {before passed rest : List Line}
    {header : Line} (hpassed : ∀ l ∈ passed, (l.declares keyword && admits l) = false)
    (hheader : (header.declares keyword && admits header) = true) (after : List Line) :
    locate keyword admits before (passed ++ header :: rest) after =
      (capture keyword (before ++ passed) header rest after).map some := by
  have htake : (passed ++ header :: rest).takeWhile
      (fun l => !(l.declares keyword && admits l)) = passed := by
    rw [List.takeWhile_append_of_pos (fun l hl => by rw [hpassed l hl]; rfl),
      List.takeWhile_cons_of_neg (by rw [hheader]; decide), List.append_nil]
  rw [locate]
  simp only [htake, List.drop_left]

/-- What is found at the first one, if it is not refused. -/
theorem locate_append_cons_eq_ok_iff {keyword : Text} {admits : Line → Bool}
    {before passed rest after : List Line} {header : Line} {r : Region}
    (hpassed : ∀ l ∈ passed, (l.declares keyword && admits l) = false)
    (hheader : (header.declares keyword && admits header) = true) :
    locate keyword admits before (passed ++ header :: rest) after = .ok (some r) ↔
      r = ⟨before ++ passed, header, keyword, nested header.depth rest,
        rest.drop (nested header.depth rest).length ++ after⟩ ∧
      Line.mixesIndentation (header :: nested header.depth rest) = false := by
  rw [locate_append_cons hpassed hheader, ← capture_eq_ok_iff]
  cases capture keyword (before ++ passed) header rest after <;> simp [Except.map]

theorem locate_eq_none {keyword : Text} {admits : Line → Bool} {among : List Line}
    (h : ∀ l ∈ among, (l.declares keyword && admits l) = false) (before after : List Line) :
    locate keyword admits before among after = .ok none := by
  have htake : among.takeWhile (fun l => !(l.declares keyword && admits l)) = among := by
    rw [List.takeWhile_eq_self_iff]
    intro l hl
    rw [h l hl]
    rfl
  rw [locate]
  simp only [htake, List.drop_length]

/-- Either no line opens a region, or the lines split at the first one that does. -/
theorem forall_or_exists_first (opens : Line → Bool) (among : List Line) :
    (∀ l ∈ among, opens l = false) ∨
      ∃ passed header rest, among = passed ++ header :: rest ∧
        (∀ l ∈ passed, opens l = false) ∧ opens header = true := by
  cases hfind : among.find? opens with
  | none => exact Or.inl fun l hl => by simpa using List.find?_eq_none.1 hfind l hl
  | some header =>
    obtain ⟨hheader, passed, rest, hamong, hpassed⟩ := List.find?_eq_some_iff_append.1 hfind
    exact Or.inr ⟨passed, header, rest, hamong, fun l hl => by simpa using hpassed l hl, hheader⟩

/-- A region that was looked for among lines splits them at its header. -/
theorem exists_of_locate {keyword : Text} {admits : Line → Bool} {before among after : List Line}
    {r : Region} (h : locate keyword admits before among after = .ok (some r)) :
    ∃ passed rest, among = passed ++ r.header :: rest ∧
      (∀ l ∈ passed, (l.declares keyword && admits l) = false) ∧
      (r.header.declares keyword && admits r.header) = true ∧
      capture keyword (before ++ passed) r.header rest after = .ok r := by
  rcases forall_or_exists_first (fun l => l.declares keyword && admits l) among with
    hnone | ⟨passed, header, rest, rfl, hpassed, hheader⟩
  · rw [locate_eq_none hnone] at h
    cases h
  · obtain ⟨rfl, hmix⟩ := (locate_append_cons_eq_ok_iff hpassed hheader).1 h
    exact ⟨passed, rest, rfl, hpassed, hheader, capture_of_unmixed hmix⟩

/-- Nothing was looked for in vain unless no line opens a region. -/
theorem forall_of_locate_eq_none {keyword : Text} {admits : Line → Bool}
    {before among after : List Line} (h : locate keyword admits before among after = .ok none) :
    ∀ l ∈ among, (l.declares keyword && admits l) = false := by
  rcases forall_or_exists_first (fun l => l.declares keyword && admits l) among with
    hnone | ⟨passed, header, rest, rfl, hpassed, hheader⟩
  · exact hnone
  · rw [locate_append_cons hpassed hheader] at h
    cases hc : capture keyword (before ++ passed) header rest after <;> rw [hc] at h <;> cases h

/-! ## Regions of a text -/

/-- Behind the end of a region stand the lines after it. -/
theorem size_text (r : Region) : Text.size r.text = r.stop + Line.total r.after := by
  rw [text, ← Line.total_eq_size_join, lines, Line.total_append, Line.total_cons,
    Line.total_append, stop, bodyStart, start]
  omega

/-- A region of a key in lines: it cuts them, and its body is all that is nested below its
header. -/
structure IsIn (r : Region) (keyword : Text) (ls : List Line) : Prop where
  lines_eq : r.lines = ls
  keyword_eq : r.keyword = keyword
  declares : r.header.declares keyword = true
  body_eq : r.body = nested r.depth (r.body ++ r.after)
  unmixed : Line.mixesIndentation (r.header :: r.body) = false

namespace IsIn

variable {r : Region} {keyword : Text} {ls : List Line}

/-- Regions of the same lines lie in the same text. -/
theorem text_congr {s : Region} {other : Text} (h : r.IsIn keyword ls) (hs : s.IsIn other ls) :
    r.text = s.text := by
  rw [text, text, h.lines_eq, hs.lines_eq]

theorem isContent_header (h : r.IsIn keyword ls) : r.header.isContent = true :=
  Line.isContent_of_declares h.declares

/-- The lines behind a region close its depth. -/
theorem closes_after (h : r.IsIn keyword ls) : Closes r.depth r.after := by
  have hclose := Line.closes_drop_nested r.depth (r.body ++ r.after)
  rwa [← h.body_eq, List.drop_left] at hclose

theorem below_of_mem_body (h : r.IsIn keyword ls) {l : Line} (hl : l ∈ r.body) :
    below r.depth l = true := by
  rw [h.body_eq] at hl
  exact Line.below_of_mem_nested hl

/-- A content line in the body is deeper than the header. -/
theorem depth_lt_of_mem_body (h : r.IsIn keyword ls) {l : Line} (hl : l ∈ r.body)
    (hc : l.isContent = true) : r.depth < l.depth := by
  have hbelow := h.below_of_mem_body hl
  rwa [Line.below_of_isContent hc, decide_eq_true_eq] at hbelow

/-- What ends the region ends what a line in its body opens, which is deeper. -/
theorem closes_after_of_mem_body (h : r.IsIn keyword ls) {l : Line} (hl : l ∈ r.body)
    (hc : l.isContent = true) : Closes l.depth r.after :=
  h.closes_after.mono (Nat.le_of_lt (h.depth_lt_of_mem_body hl hc))

/-- The body is nested below the header among its own lines too. -/
theorem nested_body (h : r.IsIn keyword ls) : nested r.depth r.body = r.body := by
  have hb := h.body_eq
  rw [Line.nested_append_of_closes h.closes_after] at hb
  exact hb.symm

/-- So are the lines behind any content line of the body. -/
theorem nested_of_body {blanks rest : List Line} {l : Line} (h : r.IsIn keyword ls)
    (hbody : r.body = blanks ++ l :: rest) (hl : l.isContent = true) :
    nested r.depth rest = rest := by
  have htrimmed : trimmed r.body = r.body := by
    conv_rhs => rw [← h.nested_body, Line.nested_eq,
      List.takeWhile_eq_self_iff.2 fun m hm => h.below_of_mem_body hm]
  -- The body ends with a content line, at the latest with this one.
  rw [hbody, Line.trimmed_append_of_content ⟨l, List.mem_cons_self, hl⟩,
    Line.trimmed_cons_of_isContent hl] at htrimmed
  have hrest := (List.cons.inj (List.append_cancel_left htrimmed)).2
  have hbelow : ∀ m ∈ rest, below r.depth m = true := fun m hm =>
    h.below_of_mem_body (by simp [hbody, hm])
  rw [Line.nested_eq, List.takeWhile_eq_self_iff.2 hbelow, hrest]

theorem mem_lines (h : r.IsIn keyword ls) {l : Line} :
    l ∈ ls ↔ l ∈ r.before ∨ l = r.header ∨ l ∈ r.body ∨ l ∈ r.after := by
  rw [← h.lines_eq, lines]
  simp

end IsIn

/-- What is captured in front of lines that close the depth of the header is a region of the
lines. -/
theorem isIn_of_capture {keyword : Text} {before rest after : List Line} {header : Line}
    {r : Region} (h : capture keyword before header rest after = .ok r)
    (hheader : header.declares keyword = true) (hafter : Closes header.depth after) :
    r.IsIn keyword (before ++ header :: (rest ++ after)) := by
  obtain ⟨rfl, hmix⟩ := capture_eq_ok_iff.1 h
  have hrest : nested header.depth rest ++
      (rest.drop (nested header.depth rest).length ++ after) = rest ++ after := by
    rw [← List.append_assoc, Line.nested_append_drop]
  refine ⟨?_, rfl, hheader, ?_, hmix⟩
  · rw [lines, hrest]
  · rw [hrest]
    exact (Line.nested_append_of_closes hafter).symm

theorem capture_append {keyword : Text} {before rest after : List Line} {header : Line}
    {r : Region} (h : capture keyword before header rest after = .ok r) :
    r.before = before ∧ r.header = header ∧ r.body ++ r.after = rest ++ after := by
  obtain ⟨rfl, -⟩ := capture_eq_ok_iff.1 h
  refine ⟨rfl, rfl, ?_⟩
  rw [← List.append_assoc, Line.nested_append_drop]

/-- A line with the indentation of the header, in place of a content line of the body, opens a
region that ends where the old one ended. -/
theorem capture_of_body {r : Region} {keyword : Text} {ls blanks rest : List Line} {l m : Line}
    (h : r.IsIn keyword ls) (hbody : r.body = blanks ++ l :: rest) (hl : l.isContent = true)
    (hm : m.isContent = true) (hindentation : m.indentation = r.header.indentation) (key : Text)
    {before inner outer : List Line} (hafter : r.after = inner ++ outer) :
    capture key before m (rest ++ inner) outer = .ok ⟨before, m, key, rest, r.after⟩ := by
  have hdepth : m.depth = r.depth := congrArg List.length hindentation
  have hclose : Closes r.depth inner := by
    have hclose := h.closes_after
    rw [hafter] at hclose
    exact hclose.of_append
  have hnested : nested m.depth (rest ++ inner) = rest := by
    rw [hdepth, Line.nested_append_of_closes hclose, h.nested_of_body hbody hl]
  -- The marks of the new region are among those of the old one.
  have hmix : Line.mixesIndentation (m :: rest) = false := by
    refine Line.mixesIndentation_of_subset ?_ h.unmixed
    rw [Line.marks_cons_of_isContent hm, Line.marks_cons_of_isContent h.isContent_header,
      hindentation]
    have hsub : rest.Sublist r.body := by
      rw [hbody]
      exact (List.sublist_cons_self l rest).trans (List.sublist_append_right blanks _)
    exact List.append_subset.2 ⟨List.subset_append_left _ _,
      List.Subset.trans (Line.marks_subset_of_sublist hsub) (List.subset_append_right _ _)⟩
  rw [← hnested] at hmix
  rw [capture_of_unmixed hmix, hnested, List.drop_left, hafter]

/-- A region that is not indented. -/
theorem isIn_of_findSection {keyword : Text} {ls : List Line} {r : Region}
    (h : findSection keyword ls = .ok (some r)) :
    r.IsIn keyword ls ∧ r.depth = 0 ∧
      ∀ l ∈ r.before, (l.declares keyword && l.depth == 0) = false := by
  obtain ⟨passed, rest, rfl, hpassed, hheader, hc⟩ := exists_of_locate h
  rw [Bool.and_eq_true, beq_iff_eq] at hheader
  have hin := isIn_of_capture hc hheader.1 (Line.closes_nil _)
  rw [List.append_nil, List.nil_append] at hin
  refine ⟨hin, hheader.2, ?_⟩
  rw [(capture_append hc).1]
  exact hpassed

/-- A region at any depth. -/
theorem isIn_of_find {keyword : Text} {ls : List Line} {r : Region}
    (h : find keyword ls = .ok (some r)) :
    r.IsIn keyword ls ∧ ∀ l ∈ r.before, l.declares keyword = false := by
  obtain ⟨passed, rest, rfl, hpassed, hheader, hc⟩ := exists_of_locate h
  rw [Bool.and_true] at hheader
  have hin := isIn_of_capture hc hheader (Line.closes_nil _)
  rw [List.append_nil, List.nil_append] at hin
  refine ⟨hin, ?_⟩
  rw [(capture_append hc).1]
  intro l hl
  have := hpassed l hl
  rwa [Bool.and_true] at this

/-- A child of a region is a region of the same lines: the lines behind the parent close its depth
as well. -/
theorem isIn_of_child {parent r : Region} {keyword parentKey : Text} {ls : List Line}
    (hparent : parent.IsIn parentKey ls) (h : parent.child keyword = .ok (some r)) :
    r.IsIn keyword ls ∧ parent.childDepth? = some r.depth ∧ parent.depth < r.depth ∧
      ∃ passed, r.before = parent.before ++ parent.header :: passed ∧
        parent.body ++ parent.after = passed ++ r.header :: (r.body ++ r.after) ∧
        (∃ rest, parent.body = passed ++ r.header :: rest) ∧
        ∀ l ∈ passed, (l.declares keyword && l.depth == r.depth) = false := by
  rw [child] at h
  split at h
  · next depth hdepth =>
    obtain ⟨passed, rest, hbody, hpassed, hheader, hc⟩ := exists_of_locate h
    rw [Bool.and_eq_true, beq_iff_eq] at hheader
    have hmem : r.header ∈ parent.body := by rw [hbody]; simp
    have hcontent := Line.isContent_of_declares hheader.1
    have hin := isIn_of_capture hc hheader.1 (hparent.closes_after_of_mem_body hmem hcontent)
    obtain ⟨hbefore, -, happend⟩ := capture_append hc
    have hlines : parent.before ++ [parent.header] ++ passed ++ r.header :: (rest ++ parent.after)
        = ls := by
      rw [← hparent.lines_eq, lines, hbody]
      simp
    rw [hlines] at hin
    have hdepth' : depth = r.depth := hheader.2.symm
    refine ⟨hin, by rw [hdepth, hdepth'], hparent.depth_lt_of_mem_body hmem hcontent, passed, ?_,
      ?_, ⟨rest, hbody⟩, ?_⟩
    · rw [hbefore]
      simp
    · rw [happend, hbody]
      simp
    · rw [← hdepth']
      exact hpassed
  · cases h

end Region
end ThemeRepair
