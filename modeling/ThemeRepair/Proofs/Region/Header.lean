import ThemeRepair.Proofs.Line.Key
import ThemeRepair.Proofs.Line.Reading
import ThemeRepair.Proofs.Region.Location
import ThemeRepair.Proofs.Text.Cut

/-!
# The value on a header line

A header line is indentation, key, colon, value and comment (`Region.header_content_eq`), and the
value is white space, the inline value and white space (`Region.value_eq`).  So both spans that a
finding names on a header cut the text there (`Region.cuts_valueSpan`, `Region.cuts_inlineSpan`).

`Region.mapped` is the header with an empty mapping for its value: in place of an empty sequence,
or behind the colon where there is no value.  It is the header again but for the value
(`Region.indentation_mapped`, `Region.declares_mapped`), and the value is the empty mapping,
whatever region the header then opens (`Region.inline_of_mapped`).
-/

namespace ThemeRepair
namespace Region

/-! ## The parts of a header -/

/-- The comment behind the value. -/
def comment (r : Region) : Text :=
  (r.header.body.drop (r.keyword.length + 1)).drop r.value.length

/-- The white space in front of the inline value. -/
def lead (r : Region) : Text := r.value.takeWhile Text.isWhite

/-- The white space behind the inline value. -/
def trail (r : Region) : Text := (Text.trimStart r.value).drop r.inline.length

/-- The header declares the key of the region. -/
def HasKey (r : Region) : Prop := r.header.declares r.keyword = true

theorem IsIn.hasKey {r : Region} {keyword : Text} {ls : List Line} (h : r.IsIn keyword ls) :
    r.HasKey := by
  rw [HasKey, h.keyword_eq]
  exact h.declares

/-- Regions of one key have one keyword, also in different lines. -/
theorem IsIn.keyword_congr {r r' : Region} {keyword : Text} {ls ls' : List Line}
    (h : r.IsIn keyword ls) (h' : r'.IsIn keyword ls') : r'.keyword = r.keyword :=
  h'.keyword_eq.trans h.keyword_eq.symm

variable {r : Region}

theorem HasKey.keyOf? (h : r.HasKey) : Line.keyOf? r.header.body = some r.keyword := by
  rw [HasKey, Line.declares, Bool.and_eq_true] at h
  simpa [Line.key?] using h.2

theorem HasKey.isKey (h : r.HasKey) : Line.IsKey r.keyword := (Line.keyOf?_eq_some_iff.1 h.keyOf?).1

/-- What stands behind the colon is the value and the comment. -/
theorem HasKey.exists_body (h : r.HasKey) :
    r.header.body = r.keyword ++ ':' :: (r.value ++ r.comment) ∧
      (r.value ++ r.comment).head?.all Text.isIndent = true ∧
      (r.comment = [] ∨ r.comment.head? = some '#') ∧
      Line.uncommented (r.value ++ r.comment) = r.value := by
  obtain ⟨-, rest, hbody, hspace⟩ := Line.keyOf?_eq_some_iff.1 h.keyOf?
  have hdrop : r.header.body.drop (r.keyword.length + 1) = rest := by
    rw [hbody, ← List.drop_drop, List.drop_left]
    rfl
  have hvalue : r.value = Line.uncommented rest := by rw [value, hdrop]
  obtain ⟨comment, hrest, hcomment⟩ := Line.exists_comment rest
  have hc : r.comment = comment := by
    calc r.comment = rest.drop (Line.uncommented rest).length := by
          rw [Region.comment, hdrop, hvalue]
      _ = (Line.uncommented rest ++ comment).drop (Line.uncommented rest).length := by
          rw [← hrest]
      _ = comment := List.drop_left
  have happend : r.value ++ r.comment = rest := by rw [hc, hvalue, ← hrest]
  rw [happend]
  exact ⟨hbody, hspace, by rw [hc]; exact hcomment, hvalue.symm⟩

theorem header_body_eq (h : r.HasKey) :
    r.header.body = r.keyword ++ ':' :: (r.value ++ r.comment) := h.exists_body.1

/-- The parts of a header line. -/
theorem header_content_eq (h : r.HasKey) :
    r.header.content =
      r.header.indentation ++ (r.keyword ++ ':' :: (r.value ++ r.comment)) := by
  rw [← header_body_eq h]
  exact List.takeWhile_append_dropWhile.symm

/-- The parts of a value. -/
theorem value_eq (r : Region) :
    r.value = r.lead ++ (r.inline ++ r.trail) ∧ Text.isAllWhite r.lead = true ∧
      Text.isAllWhite r.trail = true := by
  obtain ⟨trail, htrail, hwhite⟩ :=
    Text.exists_eq_dropEndWhile_append Text.isWhite (Text.trimStart r.value)
  have hstart : Text.trimStart r.value = r.inline ++ trail := htrail
  have ht : r.trail = trail := by
    rw [Region.trail, hstart]
    exact List.drop_left
  refine ⟨?_, List.all_takeWhile, ?_⟩
  · rw [ht, ← hstart]
    exact List.takeWhile_append_dropWhile.symm
  · rw [ht]
    exact Text.isAllWhite_iff.2 hwhite

/-- What a header says depends on nothing around it. -/
theorem depth_congr {r' : Region} (hheader : r'.header = r.header) : r'.depth = r.depth := by
  rw [depth, hheader]
  rfl

theorem firstContent?_congr {r' : Region} (hbody : r'.body = r.body) :
    r'.firstContent? = r.firstContent? := by
  rw [firstContent?, hbody]
  rfl

theorem inline_congr {r' : Region} (hheader : r'.header = r.header)
    (hkeyword : r'.keyword = r.keyword) : r'.inline = r.inline := by
  rw [inline, value, hheader, hkeyword]
  rfl

theorem isBlock_congr {r' : Region} (hheader : r'.header = r.header)
    (hkeyword : r'.keyword = r.keyword) : r'.isBlock = r.isBlock := by
  rw [isBlock, inline_congr hheader hkeyword]
  rfl

theorem isBlock_iff : r.isBlock = true ↔ Text.isAllWhite r.value = true := by
  rw [isBlock, List.isEmpty_iff, inline, Text.trim_eq_nil_iff]

/-! ## The spans of a header -/

/-- The value cuts the text of the region. -/
theorem cuts_valueSpan (h : r.HasKey) :
    r.valueSpan.Cuts r.text
      (Line.join r.before ++ (r.header.indentation ++ (r.keyword ++ [':']))) r.value
      (r.comment ++ (r.header.ending ++ Line.join (r.body ++ r.after))) := by
  refine ⟨?_, ?_, ?_⟩
  · rw [Region.text, lines, Line.join_append, Line.join_cons, Line.toText, header_content_eq h]
    simp only [List.append_assoc, List.cons_append, List.nil_append]
  · simp only [valueSpan, start, Line.total_eq_size_join, Text.size_append, Text.size_cons,
      Text.size_nil]
    have hcolon : (':' : Char).utf8Size = 1 := rfl
    omega
  · simp only [valueSpan, start, Line.total_eq_size_join, Text.size_append, Text.size_cons,
      Text.size_nil]
    have hcolon : (':' : Char).utf8Size = 1 := rfl
    omega

/-- The inline value cuts the text of the region. -/
theorem cuts_inlineSpan (h : r.HasKey) :
    r.inlineSpan.Cuts r.text
      (Line.join r.before ++ (r.header.indentation ++ (r.keyword ++ ':' :: r.lead))) r.inline
      (r.trail ++ (r.comment ++ (r.header.ending ++ Line.join (r.body ++ r.after)))) := by
  have hvalue := r.value_eq.1
  have hcuts := cuts_valueSpan h
  have htrim : Text.trimStart r.value = r.inline ++ r.trail := by
    have hsplit : r.lead ++ Text.trimStart r.value = r.value :=
      List.takeWhile_append_dropWhile
    rw [hvalue] at hsplit
    conv at hsplit => lhs; rw [← hvalue]
    exact List.append_cancel_left hsplit
  have hsize : Text.size r.value =
      Text.size r.lead + (Text.size r.inline + Text.size r.trail) := by
    conv_lhs => rw [hvalue]
    rw [Text.size_append, Text.size_append]
  have hfirst : r.inlineSpan.start =
      Text.size (Line.join r.before ++ (r.header.indentation ++ (r.keyword ++ ':' :: r.lead))) := by
    have hstop := hcuts.stop
    simp only [inlineSpan, htrim, hstop, hsize, Text.size_append, Text.size_cons, Text.size_nil]
    omega
  refine ⟨?_, hfirst, ?_⟩
  · rw [hcuts.text]
    conv_lhs => rw [hvalue]
    simp only [List.append_assoc, List.cons_append, List.nil_append]
  · rw [← hfirst]
    rfl

/-! ## Empty sequences -/

/-- An empty sequence is white space in brackets. -/
theorem isEmptySequence_iff {t : Text} :
    isEmptySequence t = true ↔ ∃ inner, t = '[' :: (inner ++ [']']) ∧
      Text.isAllWhite inner = true := by
  constructor
  · intro h
    cases t with
    | nil => simp [isEmptySequence] at h
    | cons c rest =>
      by_cases hc : c = '['
      · subst hc
        simp only [isEmptySequence, Bool.and_eq_true, beq_iff_eq] at h
        obtain ⟨inner, rfl⟩ := List.getLast?_eq_some_iff.1 h.1
        rw [List.dropLast_concat] at h
        exact ⟨inner, rfl, h.2⟩
      · simp [isEmptySequence, hc] at h
  · rintro ⟨inner, rfl, hwhite⟩
    simp [isEmptySequence, hwhite]

theorem not_isAllWhite_of_isEmptySequence {t : Text} (h : isEmptySequence t = true) :
    Text.isAllWhite t = false := by
  obtain ⟨inner, rfl, -⟩ := isEmptySequence_iff.1 h
  have hbracket : Text.isWhite '[' = false := by decide
  simp [Text.isAllWhite, hbracket]

theorem isBlock_of_isEmptySequence (h : isEmptySequence r.inline = true) : r.isBlock = false := by
  obtain ⟨inner, hinline, -⟩ := isEmptySequence_iff.1 h
  rw [isBlock, hinline]
  rfl

theorem plain_of_isAllWhite {t : Text} (h : Text.isAllWhite t = true) : Line.Plain t := by
  intro c hc
  have hwhite := Text.isAllWhite_iff.1 h c hc
  refine ⟨?_, ?_, ?_⟩ <;> rintro rfl <;> exact absurd hwhite (by decide)

/-! ## The header with an empty mapping -/

/-- The empty mapping in place of the value. -/
def mappedValue (r : Region) : Text :=
  if r.isBlock then (if r.comment = [] then " {}".toList else " {} ".toList)
  else r.lead ++ ("{}".toList ++ r.trail)

/-- The header with an empty mapping for its value. -/
def mapped (r : Region) : Line :=
  r.header.withContent
    (r.header.indentation ++ (r.keyword ++ ':' :: (r.mappedValue ++ r.comment)))

/-- A header whose value may be made an empty mapping: it has none, or an empty sequence. -/
def Mappable (r : Region) : Prop := r.isBlock = true ∨ isEmptySequence r.inline = true

theorem indentation_append_key {indentation key rest : Text}
    (hi : ∀ c ∈ indentation, Text.isIndent c = true) (hkey : Line.IsKey key) (ending : Text) :
    Line.indentation ⟨indentation ++ (key ++ rest), ending⟩ = indentation ∧
      Line.body ⟨indentation ++ (key ++ rest), ending⟩ = key ++ rest := by
  obtain ⟨c, t, rfl, hc⟩ := hkey.start
  have hc' := Line.isIndent_of_isKeyStart hc
  constructor
  · rw [Line.indentation, List.takeWhile_append_of_pos hi, List.cons_append,
      List.takeWhile_cons_of_neg (by simp [hc']), List.append_nil]
  · rw [Line.body, List.dropWhile_append_of_pos hi, List.cons_append,
      List.dropWhile_cons_of_neg (by simp [hc'])]

theorem isIndent_of_mem_indentation {l : Line} : ∀ c ∈ l.indentation, Text.isIndent c = true :=
  fun c hc => List.all_eq_true.1 List.all_takeWhile c hc

/-- The value still begins with a space or tab. -/
theorem head?_mappedValue (h : r.HasKey) (hm : r.Mappable) :
    ∃ c t, r.mappedValue = c :: t ∧ Text.isIndent c = true := by
  unfold mappedValue
  split
  · split
    · exact ⟨' ', "{}".toList, rfl, rfl⟩
    · exact ⟨' ', "{} ".toList, rfl, rfl⟩
  · next hblock =>
    have hseq : isEmptySequence r.inline = true := hm.resolve_left hblock
    obtain ⟨inner, hinline, -⟩ := isEmptySequence_iff.1 hseq
    obtain ⟨-, hspace, -, -⟩ := h.exists_body
    rw [r.value_eq.1] at hspace
    -- A value directly behind the colon would make the line no key, so there is white space first.
    cases hlead : r.lead with
    | nil =>
      rw [hlead, hinline] at hspace
      have hbracket : Text.isIndent '[' = true := hspace
      exact absurd hbracket (by decide)
    | cons c t =>
      rw [hlead] at hspace
      exact ⟨c, t ++ ("{}".toList ++ r.trail), rfl, hspace⟩

/-- The comment behind the value stays one. -/
theorem uncommented_mappedValue (h : r.HasKey) (hm : r.Mappable) :
    Line.uncommented (r.mappedValue ++ r.comment) = r.mappedValue := by
  obtain ⟨-, -, hcomment, huncommented⟩ := h.exists_body
  unfold mappedValue
  split
  · split
    · next hnil =>
      exact Line.uncommented_append_comment (by decide) (Or.inl hnil)
    · next hne =>
      exact Line.uncommented_append_comment (by decide)
        (Or.inr ⟨hcomment.resolve_left hne, rfl⟩)
  · next hblock =>
    -- Brackets and braces are read alike by the search for a comment, and so are their insides.
    obtain ⟨inner, hinline, hinner⟩ := isEmptySequence_iff.1 (hm.resolve_left hblock)
    obtain ⟨hvalue, hlead, -⟩ := r.value_eq
    have hplain : ∀ a b : Char, a ≠ '#' ∧ a ≠ '\'' ∧ a ≠ '"' → b ≠ '#' ∧ b ≠ '\'' ∧ b ≠ '"' →
        ∀ t, Text.isAllWhite t = true → Line.Plain (r.lead ++ a :: (t ++ [b])) := by
      intro a b ha hb t ht c hc
      simp only [List.mem_append, List.mem_cons, List.not_mem_nil, or_false] at hc
      rcases hc with hc | rfl | hc | rfl
      · exact plain_of_isAllWhite hlead c hc
      · exact ha
      · exact plain_of_isAllWhite ht c hc
      · exact hb
    have hold : r.value ++ r.comment =
        (r.lead ++ '[' :: (inner ++ [']'])) ++ (r.trail ++ r.comment) := by
      rw [hvalue, hinline]
      simp only [List.append_assoc, List.cons_append, List.nil_append]
    have hval : r.value = (r.lead ++ '[' :: (inner ++ [']'])) ++ r.trail := by
      rw [hvalue, hinline]
      simp only [List.append_assoc, List.cons_append, List.nil_append]
    have hlast : ∀ (a b : Char) (t : Text), (r.lead ++ a :: (t ++ [b])).getLast? = some b := by
      intro a b t
      rw [← List.cons_append, ← List.append_assoc, List.getLast?_concat]
    rw [hold, hval] at huncommented
    have hnew := Line.uncommented_replace
      (hplain '[' ']' (by decide) (by decide) inner hinner)
      (hplain '{' '}' (by decide) (by decide) [] rfl)
      (hlast '[' ']' inner) (hlast '{' '}' []) rfl r.trail huncommented
    simpa using hnew

variable (h : r.HasKey) (hm : r.Mappable)

include h

@[simp] theorem indentation_mapped : r.mapped.indentation = r.header.indentation :=
  (indentation_append_key isIndent_of_mem_indentation h.isKey r.header.ending).1

theorem depth_mapped : r.mapped.depth = r.header.depth := by
  rw [Line.depth, indentation_mapped h, Line.depth]

theorem body_mapped : r.mapped.body = r.keyword ++ ':' :: (r.mappedValue ++ r.comment) :=
  (indentation_append_key isIndent_of_mem_indentation h.isKey r.header.ending).2

omit h in
/-- A line whose body starts with a key is a content line. -/
theorem isContent_of_body {l : Line} {key rest : Text} (hkey : Line.IsKey key)
    (hbody : l.body = key ++ rest) : l.isContent = true := by
  obtain ⟨c, t, rfl, hc⟩ := hkey.start
  have hwhite := Line.isWhite_of_isKeyStart hc
  have hne : c ≠ '#' := by
    rintro rfl
    exact absurd hc (by decide)
  rw [Line.isContent, hbody]
  simp [Text.isAllWhite, hwhite, hne]

include hm

theorem declares_mapped : r.mapped.declares r.keyword = true := by
  obtain ⟨c, t, hvalue, hspace⟩ := head?_mappedValue h hm
  have hkey : r.mapped.key? = some r.keyword := by
    rw [Line.key?, Line.keyOf?_eq_some_iff]
    refine ⟨h.isKey, r.mappedValue ++ r.comment, body_mapped h, ?_⟩
    rw [hvalue]
    exact hspace
  rw [Line.declares, isContent_of_body h.isKey (body_mapped h), hkey]
  simp

/-- Whatever region the header opens then, its inline value is the empty mapping. -/
theorem inline_of_mapped {r' : Region} (hheader : r'.header = r.mapped)
    (hkeyword : r'.keyword = r.keyword) : r'.inline = "{}".toList := by
  have hvalue : r'.value = r.mappedValue := by
    have hdrop : (r.keyword ++ ':' :: (r.mappedValue ++ r.comment)).drop (r.keyword.length + 1) =
        r.mappedValue ++ r.comment := by
      rw [← List.drop_drop, List.drop_left]
      rfl
    rw [value, hheader, hkeyword, body_mapped h, hdrop]
    exact uncommented_mappedValue h hm
  have hbrace : Text.isWhite '{' = false ∧ Text.isWhite '}' = false := by decide
  obtain ⟨-, hlead, htrail⟩ := r.value_eq
  rw [inline, hvalue, mappedValue]
  split
  · split
    · rfl
    · rfl
  · exact Text.trim_append_append hlead htrail rfl hbrace.1 rfl hbrace.2

theorem isBlock_of_mapped {r' : Region} (hheader : r'.header = r.mapped)
    (hkeyword : r'.keyword = r.keyword) : r'.isBlock = false := by
  rw [isBlock, inline_of_mapped h hm hheader hkeyword]
  rfl

theorem isEmptySequence_of_mapped {r' : Region} (hheader : r'.header = r.mapped)
    (hkeyword : r'.keyword = r.keyword) : isEmptySequence r'.inline = false := by
  rw [inline_of_mapped h hm hheader hkeyword]
  rfl

end Region
end ThemeRepair
