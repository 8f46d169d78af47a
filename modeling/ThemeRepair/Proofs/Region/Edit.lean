import ThemeRepair.Fix
import ThemeRepair.Proofs.Declaration.Block
import ThemeRepair.Proofs.Line.Placement
import ThemeRepair.Proofs.Region.Header

/-!
# Edits of a region as edits of its lines

A fix writes into the text of a region.  Here each kind of writing is read as another list of lines:

* an empty mapping for the value puts `Region.mapped` in place of the header
  (`Region.writeEmptyMapping_valueSpan`, `Region.writeEmptyMapping_inlineSpan`,
  `Region.splice_inlineSpan`);
* another indentation for the first content line gives that line another indentation and no more
  (`Region.splice_indentation`);
* nothing in place of a block takes its lines away (`Region.splice_block`).

Each of these lists looks as the lines of a text do, so it is what the new text is read into.
-/

namespace ThemeRepair

namespace Line

/-- A line with another indentation. -/
def withIndentation (l : Line) (indentation : Text) : Line := l.withContent (indentation ++ l.body)

/-- What a content line says after its indentation begins with something else. -/
theorem withIndentation_eq {l : Line} (hl : l.isContent = true) {indentation : Text}
    (h : ∀ c ∈ indentation, Text.isIndent c = true) :
    (l.withIndentation indentation).indentation = indentation ∧
      (l.withIndentation indentation).body = l.body := by
  obtain ⟨c, t, hbody⟩ := List.exists_cons_of_ne_nil (body_ne_nil hl)
  have hc : Text.isIndent c = false := by
    have hhead := List.head?_dropWhile_not Text.isIndent l.content
    rw [show l.content.dropWhile Text.isIndent = c :: t from hbody] at hhead
    exact hhead
  constructor
  · rw [Line.indentation, withIndentation, withContent, hbody, List.takeWhile_append_of_pos h,
      List.takeWhile_cons_of_neg (by simp [hc]), List.append_nil]
  · rw [body, withIndentation, withContent, List.dropWhile_append_of_pos h, hbody,
      List.dropWhile_cons_of_neg (by simp [hc])]

theorem indentation_withIndentation {l : Line} (hl : l.isContent = true) {indentation : Text}
    (h : ∀ c ∈ indentation, Text.isIndent c = true) :
    (l.withIndentation indentation).indentation = indentation := (withIndentation_eq hl h).1

theorem isContent_withIndentation {l : Line} (hl : l.isContent = true) {indentation : Text}
    (h : ∀ c ∈ indentation, Text.isIndent c = true) :
    (l.withIndentation indentation).isContent = true := by
  rw [isContent, (withIndentation_eq hl h).2]
  exact hl

theorem key?_withIndentation {l : Line} (hl : l.isContent = true) {indentation : Text}
    (h : ∀ c ∈ indentation, Text.isIndent c = true) :
    (l.withIndentation indentation).key? = l.key? := by
  rw [key?, (withIndentation_eq hl h).2]
  rfl

theorem AreRead.no_feed {ls : List Line} {l : Line} (h : AreRead ls) (hl : l ∈ ls) :
    '\n' ∉ l.content := by
  rcases h.shaped l hl with hl | hl
  · exact hl.no_feed
  · exact hl.no_feed

/-- Lines that are all ended make up a text that is empty or ends with a line feed. -/
theorem join_eq_nil_or_getLast? {ls : List Line} (h : ∀ l ∈ ls, l.Ended) :
    join ls = [] ∨ (join ls).getLast? = some '\n' := by
  cases hls : ls.getLast? with
  | none =>
    rw [List.getLast?_eq_none_iff.1 hls]
    exact Or.inl rfl
  | some l =>
    obtain ⟨above, rfl⟩ := List.getLast?_eq_some_iff.1 hls
    have hending : l.ending.getLast? = some '\n' := by
      rcases (h l (by simp)).ending with he | ⟨he, -⟩ <;> rw [he] <;> rfl
    right
    have hjoin : join (above ++ [l]) = (join above ++ l.content) ++ l.ending := by
      simp [join, toText]
    rw [hjoin, List.getLast?_append, hending, Option.some_or]

end Line

/-- The indentation at an offset that stands in its line, with the text of the line before it. -/
theorem Text.indentationAt_eq {above front behind indentation : Text} {c : Char}
    (habove : above = [] ∨ above.getLast? = some '\n') (hfront : '\n' ∉ indentation ++ c :: front)
    (hi : ∀ d ∈ indentation, Text.isIndent d = true) (hc : Text.isIndent c = false) :
    Text.indentationAt (above ++ (indentation ++ c :: front) ++ behind)
      (Text.size (above ++ (indentation ++ c :: front))) = indentation := by
  have hline : (above ++ (indentation ++ c :: front)).reverse.takeWhile (· != '\n') =
      (indentation ++ c :: front).reverse := by
    have hall : ∀ d ∈ (indentation ++ c :: front).reverse, (d != '\n') = true := by
      intro d hd
      rw [bne_iff_ne]
      rintro rfl
      exact hfront (List.mem_reverse.1 hd)
    rw [List.reverse_append, List.takeWhile_append_of_pos hall]
    rcases habove with rfl | hlast
    · rw [List.reverse_nil, List.takeWhile_nil, List.append_nil]
    · obtain ⟨above, rfl⟩ := List.getLast?_eq_some_iff.1 hlast
      rw [List.reverse_concat, List.takeWhile_cons_of_neg (by decide), List.append_nil]
  rw [Text.indentationAt, Text.splitAt?_append]
  simp only [hline, List.reverse_reverse]
  rw [List.append_assoc, List.takeWhile_append_of_pos hi, List.cons_append,
    List.takeWhile_cons_of_neg (by simp [hc]), List.append_nil]

namespace Region

open Line (AreRead)

variable {r : Region}

/-! ## An empty mapping for the value -/

theorem header_no_feed (hread : AreRead r.lines) : '\n' ∉ r.header.content :=
  hread.no_feed (by simp [lines])

/-- The header with an empty mapping is a line in place of the header. -/
theorem replaces_mapped (h : r.HasKey) (hread : AreRead r.lines) :
    Line.Replaces r.mapped.content r.header := by
  have hfeed := header_no_feed hread
  have hcontent := header_content_eq h
  rw [mapped, Line.withContent, mappedValue]
  split
  · have hfront : ∀ v : Text, r.header.indentation ++ (r.keyword ++ ':' :: (v ++ r.comment)) =
        (r.header.indentation ++ (r.keyword ++ [':'])) ++ (v ++ r.comment) := by
      intro v
      simp only [List.append_assoc, List.cons_append, List.nil_append]
    rw [hfront] at hcontent
    simp only [hfront]
    split
    · exact Line.Replaces.of_middle hcontent hfeed (by decide) (Or.inr (by decide))
    · exact Line.Replaces.of_middle hcontent hfeed (by decide) (Or.inr (by decide))
  · have hfront : ∀ v : Text, r.header.indentation ++
        (r.keyword ++ ':' :: (r.lead ++ (v ++ r.trail) ++ r.comment)) =
        (r.header.indentation ++ (r.keyword ++ ':' :: r.lead)) ++
          (v ++ (r.trail ++ r.comment)) := by
      intro v
      simp only [List.append_assoc, List.cons_append]
    rw [r.value_eq.1, hfront] at hcontent
    simp only [hfront]
    exact Line.Replaces.of_middle hcontent hfeed (by decide) (Or.inr (by decide))

theorem areRead_mapped (h : r.HasKey) (hread : AreRead r.lines) :
    AreRead (r.before ++ r.mapped :: (r.body ++ r.after)) :=
  AreRead.rewrite hread (replaces_mapped h hread)

/-- Only the last line of a text may be without an ending. -/
theorem ended_header (hread : AreRead r.lines) (hne : r.body ++ r.after ≠ []) :
    r.header.Ended := by
  have hread' : AreRead ((r.before ++ [r.header]) ++ (r.body ++ r.after)) := by
    simpa [lines] using hread
  exact hread'.ended_of_append hne r.header (by simp)

/-- Behind a header without a comment no number sign follows. -/
theorem head?_after_header (hread : AreRead r.lines) :
    (r.header.ending ++ Line.join (r.body ++ r.after)).head? ≠ some '#' := by
  have hshape := hread.shaped r.header (by simp [lines])
  have hnil : r.header.ending = [] → r.body ++ r.after = [] := by
    intro he
    by_contra hne
    rcases (ended_header hread hne).ending with h | ⟨h, -⟩
    · rw [he] at h
      cases h
    · rw [he] at h
      cases h
  rcases hshape with hl | hl
  · rcases hl.ending with he | ⟨he, -⟩ <;> rw [he] <;> simp
  · rcases hl.ending with he | ⟨he, -⟩
    · rw [he]
      simp
    · rw [he, hnil he]
      simp [Line.join]

/-- Where there is no value, the empty mapping is written behind the colon. -/
theorem writeEmptyMapping_valueSpan (h : r.HasKey) (hread : AreRead r.lines)
    (hblock : r.isBlock = true) :
    writeEmptyMapping r.text r.valueSpan =
      .ok (Line.join (r.before ++ r.mapped :: (r.body ++ r.after))) := by
  have hmapping : mappingFor r.value
      (r.comment ++ (r.header.ending ++ Line.join (r.body ++ r.after))) = r.mappedValue := by
    rw [mappingFor, mappedValue, isBlock_iff.1 hblock, if_pos hblock]
    obtain ⟨-, -, hcomment, -⟩ := h.exists_body
    rcases hcomment with hnil | hhead
    · have hne := head?_after_header hread
      rw [hnil, List.nil_append, beq_eq_false_iff_ne.2 hne]
      rfl
    · obtain ⟨c, hc⟩ := List.head?_eq_some_iff.1 hhead
      rw [hc]
      simp
  rw [(cuts_valueSpan h).writeEmptyMapping_eq, hmapping, Line.join_append r.before,
    Line.join_cons, Line.toText, mapped, Line.withContent]
  simp only [List.append_assoc, List.cons_append, List.nil_append]

/-- An empty sequence is replaced by the empty mapping. -/
theorem splice_inlineSpan (h : r.HasKey) (hseq : isEmptySequence r.inline = true) :
    Text.splice r.text r.inlineSpan "{}".toList =
      .ok (Line.join (r.before ++ r.mapped :: (r.body ++ r.after))) := by
  rw [(cuts_inlineSpan h).splice_eq, Line.join_append r.before, Line.join_cons, Line.toText, mapped,
    Line.withContent, mappedValue, isBlock_of_isEmptySequence hseq]
  simp only [Bool.false_eq_true, if_false, List.append_assoc, List.cons_append]

theorem writeEmptyMapping_inlineSpan (h : r.HasKey) (hseq : isEmptySequence r.inline = true) :
    writeEmptyMapping r.text r.inlineSpan =
      .ok (Line.join (r.before ++ r.mapped :: (r.body ++ r.after))) := by
  have hmapping : ∀ after, mappingFor r.inline after = "{}".toList := by
    intro after
    rw [mappingFor, not_isAllWhite_of_isEmptySequence hseq]
    rfl
  rw [(cuts_inlineSpan h).writeEmptyMapping_eq, hmapping, ← splice_inlineSpan h hseq,
    (cuts_inlineSpan h).splice_eq]

/-! ## Another indentation for a line of the body -/

/-- The indentation at the value of a header is that of the header. -/
theorem indentationAt_valueSpan (h : r.HasKey) (hread : AreRead r.lines) :
    Text.indentationAt r.text r.valueSpan.start = r.header.indentation := by
  have hcuts := cuts_valueSpan h
  obtain ⟨c, key, hkey, hc⟩ := h.isKey.start
  -- The search goes back to the line feed in front of the header, and the header has none.
  have habove := Line.join_eq_nil_or_getLast? (hread.ended_of_append (List.cons_ne_nil _ _))
  have hfeed := header_no_feed hread
  rw [header_content_eq h, hkey] at hfeed
  have hfront : '\n' ∉ r.header.indentation ++ c :: (key ++ [':']) := by
    intro hm
    apply hfeed
    simp only [List.mem_append, List.mem_cons, List.not_mem_nil, or_false] at hm ⊢
    rcases hm with hm | hm | hm | hm
    · exact Or.inl hm
    · exact Or.inr (Or.inl (Or.inl hm))
    · exact Or.inr (Or.inl (Or.inr hm))
    · exact Or.inr (Or.inr (Or.inl hm))
  rw [hcuts.text, hcuts.start, hkey, List.cons_append, ← List.append_assoc (Line.join r.before)]
  rw [List.append_assoc (Line.join r.before)]
  exact Text.indentationAt_eq habove hfront isIndent_of_mem_indentation
    (Line.isIndent_of_isKeyStart hc)

/-- The indentation of a line of the body cuts the text. -/
theorem cuts_indentation {blanks rest : List Line} {l : Line}
    (hbody : r.body = blanks ++ l :: rest) :
    Span.Cuts ⟨r.bodyStart + Line.total blanks,
        r.bodyStart + Line.total blanks + Text.size l.indentation⟩ r.text
      (Line.join (r.before ++ r.header :: blanks)) l.indentation
      (l.body ++ (l.ending ++ Line.join (rest ++ r.after))) := by
  have hstart := r.bodyStart_add_total blanks
  refine ⟨?_, hstart, by rw [hstart]⟩
  have hsplit : r.lines = (r.before ++ r.header :: blanks) ++ (l :: (rest ++ r.after)) := by
    simp [lines, hbody]
  rw [text, hsplit, Line.join_append, Line.join_cons, Line.toText, Line.content_eq l]
  simp only [List.append_assoc]

/-- Giving a line of the body another indentation changes this line only. -/
theorem splice_indentation {blanks rest : List Line} {l : Line}
    (hbody : r.body = blanks ++ l :: rest) (indentation : Text) :
    Text.splice r.text ⟨r.bodyStart + Line.total blanks,
        r.bodyStart + Line.total blanks + Text.size l.indentation⟩ indentation =
      .ok { r with body := blanks ++ l.withIndentation indentation :: rest }.text := by
  have hsplit : { r with body := blanks ++ l.withIndentation indentation :: rest }.lines =
      (r.before ++ r.header :: blanks) ++
        (l.withIndentation indentation :: (rest ++ r.after)) := by
    simp [lines]
  rw [(cuts_indentation hbody).splice_eq, text, hsplit,
    Line.join_append (r.before ++ r.header :: blanks), Line.join_cons, Line.toText,
    Line.withIndentation, Line.withContent]
  simp only [List.append_assoc]

/-- Lines are still lines of a text when a content line is given the indentation of another. -/
theorem areRead_withIndentation {blanks rest : List Line} {l m : Line} (hread : AreRead r.lines)
    (hbody : r.body = blanks ++ l :: rest) (hl : l.isContent = true) (hm : m ∈ r.lines) :
    AreRead { r with body := blanks ++ l.withIndentation m.indentation :: rest }.lines := by
  have hfeed : '\n' ∉ m.indentation := fun hmem =>
    hread.no_feed hm ((List.takeWhile_sublist _).subset hmem)
  have hmem : l ∈ r.lines := by simp [lines, hbody]
  have hcontent : l.content = [] ++ (l.indentation ++ l.body) := Line.content_eq l
  have hreplaces := Line.Replaces.of_middle hcontent (hread.no_feed hmem) hfeed
    (Or.inl (Line.body_ne_nil hl))
  have hsplit : r.lines = (r.before ++ r.header :: blanks) ++ (l :: (rest ++ r.after)) := by
    simp [lines, hbody]
  rw [hsplit] at hread
  have hnew := hread.rewrite hreplaces
  simpa [lines, Line.withIndentation] using hnew

/-! ## A block taken away -/

/-- The span of the first declaration of a name cuts the text, and around it stand the lines without
the block. -/
theorem cuts_span_of_first {depth : Nat} {name : Text} {above rest : List Line} {l : Line}
    (hbody : r.body.takeWhile (Line.reaches depth) = above ++ l :: rest)
    (habove : ∀ m ∈ above, Line.declaresAt depth name m = false)
    (hl : Line.declaresAt depth name l = true) :
    ∃ front inside behind,
      Span.Cuts ⟨r.bodyStart + Line.total above, r.bodyStart + Line.total above + l.size +
        Line.total (Line.nested depth rest)⟩ r.text front inside behind ∧
      front ++ behind = Line.join
        (r.before ++ r.header :: (Declaration.eraseBlock depth name r.body ++ r.after)) := by
  have hclose := Line.closes_dropWhile_reaches depth r.body
  have hsplit : r.body = above ++ l :: (rest ++ r.body.dropWhile (Line.reaches depth)) := by
    conv_lhs => rw [← List.takeWhile_append_dropWhile (p := Line.reaches depth) (l := r.body)]
    rw [hbody, List.append_assoc, List.cons_append]
  -- The span is taken among the lines that are searched; the block goes on no further than they do.
  have hnested : Line.nested depth rest =
      Line.nested depth (rest ++ r.body.dropWhile (Line.reaches depth)) :=
    (Line.nested_append_of_closes hclose).symm
  have herase : Declaration.eraseBlock depth name r.body = above ++
      (rest ++ r.body.dropWhile (Line.reaches depth)).drop (Line.nested depth
        (rest ++ r.body.dropWhile (Line.reaches depth))).length := by
    conv_lhs => rw [hsplit]
    exact Declaration.eraseBlock_append_cons habove hl _
  have hstart := r.bodyStart_add_total above
  have htext : r.text = Line.join (r.before ++ r.header :: above) ++
      (Line.join (l :: (rest ++ r.body.dropWhile (Line.reaches depth))) ++ Line.join r.after) := by
    rw [text, lines]
    conv_lhs => rw [hsplit]
    simp only [← Line.join_append, List.append_assoc, List.cons_append]
  have hcuts := Declaration.cuts_block (Line.join (r.before ++ r.header :: above)) l
    (rest ++ r.body.dropWhile (Line.reaches depth)) depth (Line.join r.after)
  rw [← htext, ← hnested, ← hstart] at hcuts
  refine ⟨_, _, _, hcuts, ?_⟩
  rw [herase]
  simp only [hnested, ← Line.join_append, List.append_assoc, List.cons_append]

theorem areRead_eraseBlock (hread : AreRead r.lines) (depth : Nat) (name : Text) :
    AreRead { r with body := Declaration.eraseBlock depth name r.body }.lines := by
  refine hread.sublist ?_
  rw [lines, lines]
  exact List.Sublist.append_left ((((Declaration.sublist_eraseBlock depth name r.body)).append_right
    r.after).cons_cons r.header) r.before

end Region
end ThemeRepair
