import ThemeRepair.Proofs.Component.Change
import ThemeRepair.Proofs.Region.Coverage
import ThemeRepair.Proofs.Text.Edit

/-!
# Where findings stand

`Component.IsPlaced` says what the spans of a finding hold, kind by kind, and how the two spans of a
finding lie in the text where it has two: the header in front, the line or the block below it behind,
and at least the end of the header line between them.  Every finding of a scan is placed
(`Component.isPlaced_of_mem_scan`).  So a fix may write at one span first and still read the other
one at its old offsets.
-/

namespace ThemeRepair
namespace Component

open Line (contentLines)

variable {w : Nat} {path : String} {t : Text} {span : Span} {kind : FindingKind} {r : Region}

/-- What the spans of a finding hold, and how they lie in the text. -/
inductive IsPlaced (t : Text) : Span → FindingKind → Prop
  /-- An empty sequence as value. -/
  | sequence {s : Span} {front value behind : Text} (hs : s.Cuts t front value behind)
      (hseq : Region.isEmptySequence value = true) : IsPlaced t s (.emptyCollection none)
  /-- No value. -/
  | blank {s : Span} {front value behind : Text} (hs : s.Cuts t front value behind)
      (hblank : Text.isAllWhite value = true) : IsPlaced t s (.emptyCollection none)
  /-- No value, and the indentation of a line further below. -/
  | displaced {s s' : Span} {front value between old rest : Text} {header : Nat × Line}
      (hs : s.Cuts t front value (between ++ (old ++ rest)))
      (hs' : s'.Cuts t (front ++ (value ++ between)) old rest) (hbetween : between ≠ [])
      (hblank : Text.isAllWhite value = true) (hold : Text.isAllWhite old = true)
      (hne : old ≠ []) (hheader : header ∈ contentLines t)
      (hover : header.1 ≤ s.start ∧ s.stop < header.1 + header.2.size)
      (hindent : Text.indentationAt t s.start = header.2.indentation) :
      IsPlaced t s (.emptyCollection (some s'))
  /-- An empty sequence as value of the variants. -/
  | variants {s : Span} {front value behind : Text} (hs : s.Cuts t front value behind)
      (hseq : Region.isEmptySequence value = true) :
      IsPlaced t s (.sequenceForMapping .variantsRoot)
  /-- A default, which is left to a human. -/
  | unfixed (s : Span) : IsPlaced t s (.sequenceForMapping .variantsDefault)
  /-- A block. -/
  | block {s : Span} {front block behind : Text} {name : Text} (hs : s.Cuts t front block behind) :
      IsPlaced t s (.nameConflict name none)
  /-- A block, and the value of a header further above. -/
  | only {s s' : Span} {front value between block rest : Text} {name : Text}
      (hs : s.Cuts t (front ++ (value ++ between)) block rest)
      (hs' : s'.Cuts t front value (between ++ (block ++ rest))) (hbetween : between ≠ []) :
      IsPlaced t s (.nameConflict name (some s'))

theorem isPlaced_of_emptyProperties
    (hr : (Sections.ofLines (Line.ofText t)).properties = .ok (some r))
    (h : (span, kind) ∈ emptyProperties w r) : IsPlaced t span kind := by
  have hin := isIn_of_properties hr
  have hread := areRead_of_isIn hin
  have htext := text_of_isIn hin
  have hvalue := Region.cuts_valueSpan hin.hasKey
  rcases cases_of_mem_emptyProperties h with
    ⟨rfl, rfl, hseq⟩ | ⟨rfl, rfl, hblock, -⟩ | ⟨indentation, rfl, rfl, hblock, hmisplaced⟩
  · have hinline := Region.cuts_inlineSpan hin.hasKey
    rw [htext] at hinline
    exact IsPlaced.sequence hinline hseq
  · rw [htext] at hvalue
    exact IsPlaced.blank hvalue (Region.isBlock_iff.1 hblock)
  · obtain ⟨blanks, l, rest, hbody, -, hl, -, -, rfl⟩ := exists_of_misplacedSibling? hmisplaced
    have hdeeper : 0 < l.indentation.length :=
      Nat.zero_lt_of_lt (hin.depth_lt_of_mem_body (by simp [hbody]) hl)
    have hlt := Region.valueSpan_stop_lt_bodyStart hin.hasKey hread (by simp [hbody])
    have hindentation := Region.cuts_indentation hbody
    have hat := Region.indentationAt_valueSpan hin.hasKey hread
    rw [htext] at hvalue hindentation hat
    have hlt' := Nat.lt_of_lt_of_le hlt (Nat.le_add_right _ (Line.total blanks))
    obtain ⟨between, hbehind, hfront, hbetween⟩ := hvalue.exists_between hindentation hlt'.le
    rw [hbehind] at hvalue
    rw [hfront] at hindentation
    exact IsPlaced.displaced hvalue hindentation (hbetween hlt') (Region.isBlock_iff.1 hblock)
      (Text.isAllWhite_iff.2 fun c hc =>
        Line.isWhite_of_isIndent (Region.isIndent_of_mem_indentation c hc))
      (List.length_pos_iff.1 hdeeper) hin.header_mem_contentLines
      ⟨(Region.valueSpan_within_header hin.hasKey).1, hlt⟩ hat

theorem isPlaced_of_variantsShape {defaults : List Region}
    (hv : (Sections.ofLines (Line.ofText t)).variants = .ok (some r))
    (h : (span, kind) ∈ variantsShape r defaults) : IsPlaced t span kind := by
  have hin := isIn_of_variants hv
  unfold variantsShape at h
  split at h
  · next hseq =>
    obtain ⟨rfl, rfl⟩ := Prod.mk.inj (List.mem_singleton.1 h)
    have hinline := Region.cuts_inlineSpan hin.hasKey
    rw [text_of_isIn hin] at hinline
    exact IsPlaced.variants hinline hseq
  · obtain ⟨v, -, heq⟩ := List.mem_map.1 h
    obtain ⟨-, rfl⟩ := Prod.mk.inj heq
    exact IsPlaced.unfixed span

theorem isPlaced_of_nameConflicts {depth : Nat} {slots : Region}
    (hr : (Sections.ofLines (Line.ofText t)).properties = .ok (some r))
    (h : (span, kind) ∈ nameConflicts w depth r slots) : IsPlaced t span kind := by
  have hin := isIn_of_properties hr
  have htext := text_of_isIn hin
  obtain ⟨d, hd, heq⟩ := List.mem_map.1 h
  obtain ⟨rfl, rfl⟩ := Prod.mk.inj heq
  obtain ⟨above, l, rest, htake, habove, hl, hspan⟩ := exists_first_of_mem_firstTaken _ _ _ hd
  obtain ⟨front, block, behind, hblock, -⟩ := Region.cuts_span_of_first htake habove hl
  rw [htext, ← hspan] at hblock
  split
  · have hbody : r.body ≠ [] := by
      rintro hnil
      rw [hnil] at htake
      simp at htake
    have hlt := Region.valueSpan_stop_lt_bodyStart hin.hasKey (areRead_of_isIn hin) hbody
    have hlt' : r.valueSpan.stop < d.span.start := by
      rw [hspan]
      exact Nat.lt_of_lt_of_le hlt (Nat.le_add_right _ _)
    have hvalue := Region.cuts_valueSpan hin.hasKey
    rw [htext] at hvalue
    obtain ⟨between, hbehind, hfront, hbetween⟩ := hvalue.exists_between hblock hlt'.le
    rw [hbehind] at hvalue
    rw [hfront] at hblock
    exact IsPlaced.only hblock hvalue (hbetween hlt')
  · exact IsPlaced.block hblock

/-- Every finding of a scan is placed, and holds what stands at its span. -/
theorem isPlaced_of_mem_scan {f : Finding} (h : f ∈ (scan w path t).findings) :
    IsPlaced t f.span f.kind ∧ f.before = Text.slice t f.span := by
  obtain ⟨⟨span, kind⟩, hd, rfl⟩ := List.mem_map.1 h
  refine ⟨?_, rfl⟩
  rcases List.mem_append.1 hd with hd | hd
  · rcases List.mem_append.1 hd with hd | hd
    · rw [propertiesDefects] at hd
      split at hd
      · next r hr => exact isPlaced_of_emptyProperties (found_eq_some_iff.1 hr) hd
      · cases hd
    · rw [variantsDefects] at hd
      split at hd
      · next v hv =>
        split at hd
        · exact isPlaced_of_variantsShape (found_eq_some_iff.1 hv) hd
        · cases hd
      · cases hd
  · rw [conflictDefects] at hd
    split at hd
    · next r slots hr hslots => exact isPlaced_of_nameConflicts (found_eq_some_iff.1 hr) hd
    · cases hd

end Component
end ThemeRepair
