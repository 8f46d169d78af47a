import ThemeRepair.Proofs.Finding.Diff

/-!
# Applying a finding to the text that it fixed

A finding that was fixed stays in the hands of whoever scanned the text, and may be applied to the
new text.  All that keeps it from being fixed again is what it remembers of the old text, and
`Finding.fix_again` says when that is enough.  Where an empty sequence or a longer blank value gave
way to the empty mapping, the finding is stale.  But a header with nothing behind the colon, or with
one space, looks the same at the old span afterwards, for the mapping begins with a space: there a
second mapping is written, unless the finding also moves a line and its old indentation is not blank
any more.
-/

namespace ThemeRepair
namespace Finding

variable {t t' : Text} {f : Finding} {s s' : Span} {front value rest : Text}

/-! ## What a fix leaves -/

/-- Where there is no value, an empty mapping begins with a space, whatever follows. -/
theorem exists_mappingFor_eq (hblank : Text.isAllWhite value = true) (behind : Text) :
    ∃ gap, mappingFor value behind = " {}".toList ++ gap := by
  rw [mappingFor, hblank]
  simp only [Bool.not_true, Bool.false_eq_true, if_false]
  split
  · exact ⟨[' '], rfl⟩
  · exact ⟨[], rfl⟩

/-- What a header looks like once it was fixed, seen from the finding: braces stand where an empty
sequence stood, or a mapping behind a space where nothing but white space did. -/
inductive FixedAs (f : Finding) (t : Text) : Prop
  | braces {front rest : Text} (hstart : f.span.start = Text.size front)
      (hstop : f.span.stop = Text.size front + Text.size f.before)
      (hseq : Region.isEmptySequence f.before = true)
      (htext : t = front ++ ("{}".toList ++ rest))
  | spaced {front rest : Text} {realign : Option Span} (hstart : f.span.start = Text.size front)
      (hstop : f.span.stop = Text.size front + Text.size f.before)
      (hblank : Text.isAllWhite f.before = true) (hkind : f.kind = .emptyCollection realign)
      (hbelow : ∀ s ∈ realign, f.span.stop < s.start ∧ s.start < s.stop)
      (htext : t = front ++ (" {}".toList ++ rest))

/-- The fix of a header leaves it so. -/
theorem fixedAs_of_fix {w : Nat} {path : String}
    (hmem : f ∈ (Component.scan w path t).findings)
    (hkind : (∃ realign, f.kind = .emptyCollection realign) ∨
      f.kind = .sequenceForMapping .variantsRoot)
    (hfix : f.fix t = .ok t') : FixedAs f t' := by
  obtain ⟨hplaced, hbefore⟩ := Component.isPlaced_of_mem_scan hmem
  have hfresh := fixFresh_of_fix hfix
  generalize hspan : f.span = span at hplaced hbefore hfresh
  generalize hfkind : f.kind = kind at hplaced hfresh hkind
  cases hplaced with
  | @sequence front value behind hs hseq =>
    rw [hs.slice_eq] at hbefore
    subst hspan hbefore
    have hmapping : mappingFor f.before behind = "{}".toList := by
      rw [mappingFor, Region.not_isAllWhite_of_isEmptySequence hseq]
      rfl
    rw [fixFresh, hs.writeEmptyMapping_eq, hmapping] at hfresh
    exact FixedAs.braces hs.start hs.stop hseq (Except.ok.inj hfresh).symm
  | @blank front value behind hs hblank =>
    rw [hs.slice_eq] at hbefore
    subst hspan hbefore
    obtain ⟨gap, hmapping⟩ := exists_mappingFor_eq hblank behind
    rw [fixFresh, hs.writeEmptyMapping_eq, hmapping, List.append_assoc] at hfresh
    exact FixedAs.spaced hs.start hs.stop hblank hfkind (by simp) (Except.ok.inj hfresh).symm
  | @displaced s' front value between old rest header hs hs' hbetween hblank hold hne =>
    rw [hs.slice_eq] at hbefore
    subst hspan hbefore
    obtain ⟨gap, hmapping⟩ := exists_mappingFor_eq hblank (between ++ (old ++ rest))
    rw [fixFresh_displaced hs hs' hbetween hold, hmapping, List.append_assoc] at hfresh
    refine FixedAs.spaced hs.start hs.stop hblank hfkind ?_ (Except.ok.inj hfresh).symm
    rintro s ⟨⟩
    have hpos := Text.size_pos_of_ne_nil hbetween
    have hpos' := Text.size_pos_of_ne_nil hne
    rw [hs.stop, hs'.stop, hs'.start, Text.size_append, Text.size_append]
    omega
  | @variants front value behind hs hseq =>
    rw [hs.slice_eq] at hbefore
    subst hspan hbefore
    rw [fixFresh, hs.splice_eq] at hfresh
    exact FixedAs.braces hs.start hs.stop hseq (Except.ok.inj hfresh).symm
  | unfixed => cases hfresh
  | block => simp at hkind
  | only => simp at hkind

/-! ## What the old span holds -/

/-- A value that an empty mapping behind the colon still begins with. -/
def IsLeadOfMapping (value : Text) : Prop := value = [] ∨ value = [' ']

/-- In a text with the same beginning, the span holds the old value if the rest begins with it. -/
theorem slice?_front_iff (hstart : s.start = Text.size front)
    (hstop : s.stop = Text.size front + Text.size value) (u : Text) :
    Text.slice? (front ++ u) s = some value ↔ value <+: u := by
  constructor
  · intro h
    obtain ⟨front', behind, hcuts⟩ := Span.Cuts.slice?_eq_some_iff.1 h
    obtain rfl : front = front' := by
      refine Text.eq_of_size_eq ⟨u, rfl⟩ ⟨value ++ behind, hcuts.text.symm⟩ ?_
      rw [← hstart, hcuts.start]
    exact ⟨behind, (List.append_cancel_left hcuts.text).symm⟩
  · rintro ⟨behind, rfl⟩
    exact Span.Cuts.slice?_eq ⟨rfl, hstart, hstop⟩

/-- Blank text that an empty mapping behind a space begins with is at most that space. -/
theorem prefix_mapping_iff (hblank : Text.isAllWhite value = true) (rest : Text) :
    value <+: " {}".toList ++ rest ↔ IsLeadOfMapping value := by
  constructor
  · rintro ⟨behind, h⟩
    have hmapping : " {}".toList ++ rest = ' ' :: '{' :: '}' :: rest := rfl
    rw [hmapping] at h
    match value, h with
    | [], _ => exact Or.inl rfl
    | [c], h =>
      obtain rfl : c = ' ' := (List.cons.inj h).1
      exact Or.inr rfl
    | c :: d :: v, h =>
      obtain rfl : d = '{' := (List.cons.inj (List.cons.inj h).2).1
      have hwhite := Text.isAllWhite_iff.1 hblank '{' (by simp)
      exact absurd hwhite (by decide)
  · rintro (rfl | rfl)
    · exact List.nil_prefix
    · exact ⟨'{' :: '}' :: rest, rfl⟩

/-! ## The second mapping -/

/-- The text with one more empty mapping in place of what stood behind the colon at first. -/
def doubled (front value rest : Text) : Text :=
  front ++ (" {}".toList ++ (" {}".toList.drop value.length ++ rest))

/-- Over the beginning of a mapping, another one is written. -/
theorem writeEmptyMapping_again (hlead : IsLeadOfMapping value)
    (hstart : s.start = Text.size front) (hstop : s.stop = Text.size front + Text.size value)
    (rest : Text) :
    writeEmptyMapping (front ++ (" {}".toList ++ rest)) s = .ok (doubled front value rest) := by
  have hcuts : s.Cuts (front ++ (" {}".toList ++ rest)) front value
      (" {}".toList.drop value.length ++ rest) := by
    refine ⟨?_, hstart, hstop⟩
    rcases hlead with rfl | rfl <;> rfl
  have hmapping : mappingFor value (" {}".toList.drop value.length ++ rest) = " {}".toList := by
    rcases hlead with rfl | rfl <;> rfl
  rw [hcuts.writeEmptyMapping_eq, hmapping, doubled]

/-- Blank text behind the beginning of a mapping stands behind all of it. -/
theorem exists_behind_mapping {front' blank rest' : Text}
    (h : s'.Cuts (front ++ (" {}".toList ++ rest)) front' blank rest')
    (hblank : Text.isAllWhite blank = true) (hne : blank ≠ [])
    (hlt : Text.size front < s'.start) :
    ∃ between, front' = front ++ (" {}".toList ++ between) ∧ rest = between ++ (blank ++ rest') := by
  have hprefix : front ++ [' '] <+: front' := by
    refine Text.prefix_of_size_le ⟨'{' :: '}' :: rest, by simp⟩
      ⟨blank ++ rest', h.text.symm⟩ ?_
    have hspace : (' ' : Char).utf8Size = 1 := rfl
    rw [Text.size_append, Text.size_cons, Text.size_nil, hspace, ← h.start]
    omega
  obtain ⟨y, rfl⟩ := hprefix
  obtain ⟨c, v, rfl⟩ := List.exists_cons_of_ne_nil hne
  have hc := Text.isAllWhite_iff.1 hblank c List.mem_cons_self
  have htext := h.text
  simp only [List.append_assoc, List.append_cancel_left_eq] at htext
  have hbraces : '{' :: '}' :: rest = y ++ (c :: (v ++ rest')) := (List.cons.inj htext).2
  -- The braces are not blank, so both stand in front.
  match y, hbraces with
  | [], hbraces =>
    rw [← (List.cons.inj hbraces).1] at hc
    exact absurd hc (by decide)
  | [d], hbraces =>
    rw [← (List.cons.inj (List.cons.inj hbraces).2).1] at hc
    exact absurd hc (by decide)
  | d :: e :: between, hbraces =>
    obtain ⟨hd, hbraces⟩ := List.cons.inj hbraces
    obtain ⟨he, hrest⟩ := List.cons.inj hbraces
    subst hd he
    exact ⟨between, by simp, hrest⟩

/-! ## The same finding again -/

/-- The span holds nothing but white space. -/
def BlankAt (t : Text) (s : Span) : Prop := (Text.slice? t s).any Text.isAllWhite = true

/-- The finding is fixed in a text that has an empty mapping at its place already. -/
def WritesAgain (f : Finding) (t : Text) : Prop :=
  ∃ front rest rest', Text.size front = f.span.start ∧ t = front ++ (" {}".toList ++ rest) ∧
    f.fix t = .ok (doubled front f.before rest') ∧
    (f.kind = .emptyCollection none → rest' = rest)

theorem not_isLeadOfMapping_of_sequence (hseq : Region.isEmptySequence value = true) :
    ¬ IsLeadOfMapping value := by
  rintro (rfl | rfl) <;> exact absurd hseq (by decide)

/-- Braces do not begin as brackets do. -/
theorem fix_again_of_sequence (hstart : f.span.start = Text.size front)
    (hstop : f.span.stop = Text.size front + Text.size f.before)
    (hseq : Region.isEmptySequence f.before = true) (rest : Text) :
    f.fix (front ++ ("{}".toList ++ rest)) = .error (.stale f.span f.before) := by
  apply fix_of_not_slice?
  rw [Ne, slice?_front_iff hstart hstop]
  rintro ⟨behind, h⟩
  obtain ⟨inner, hbefore, -⟩ := Region.isEmptySequence_iff.1 hseq
  rw [hbefore] at h
  exact absurd (List.cons.inj h).1 (by decide)

section

variable (hstart : f.span.start = Text.size front)
  (hstop : f.span.stop = Text.size front + Text.size f.before)

include hstart hstop

theorem fix_again_of_long (hblank : Text.isAllWhite f.before = true)
    (hlong : ¬ IsLeadOfMapping f.before) (rest : Text) :
    f.fix (front ++ (" {}".toList ++ rest)) = .error (.stale f.span f.before) := by
  apply fix_of_not_slice?
  rwa [Ne, slice?_front_iff hstart hstop, prefix_mapping_iff hblank]

/-- What the mapping begins with is found again. -/
theorem fix_of_lead (hlead : IsLeadOfMapping f.before) (rest : Text) :
    f.fix (front ++ (" {}".toList ++ rest)) =
      fixFresh (front ++ (" {}".toList ++ rest)) f.span f.kind := by
  have hblank : Text.isAllWhite f.before = true := by
    rcases hlead with h | h <;> rw [h] <;> rfl
  apply fix_of_slice?
  rwa [slice?_front_iff hstart hstop, prefix_mapping_iff hblank]

theorem fix_again_of_none (hkind : f.kind = .emptyCollection none)
    (hlead : IsLeadOfMapping f.before) (rest : Text) :
    f.fix (front ++ (" {}".toList ++ rest)) = .ok (doubled front f.before rest) := by
  rw [fix_of_lead hstart hstop hlead, hkind, fixFresh]
  exact writeEmptyMapping_again hlead hstart hstop rest

/-- Where a line is moved too, it depends on what stands where its indentation stood. -/
theorem fix_again_of_some (hkind : f.kind = .emptyCollection (some s'))
    (hlead : IsLeadOfMapping f.before) (hlt : f.span.stop < s'.start) (hne : s'.start < s'.stop)
    (rest : Text) :
    ¬ BlankAt (front ++ (" {}".toList ++ rest)) s' ∧
        f.fix (front ++ (" {}".toList ++ rest)) = .error (.stale s' []) ∨
      BlankAt (front ++ (" {}".toList ++ rest)) s' ∧ ∃ rest',
        f.fix (front ++ (" {}".toList ++ rest)) = .ok (doubled front f.before rest') := by
  rw [fix_of_lead hstart hstop hlead, hkind, fixFresh, BlankAt, Text.expectWhite]
  by_cases hwhite : (Text.slice? (front ++ (" {}".toList ++ rest)) s').any Text.isAllWhite = true
  · right
    refine ⟨hwhite, ?_⟩
    obtain ⟨blank, hslice, hblank⟩ := (Option.any_eq_true _ _).1 hwhite
    obtain ⟨front', tail, hcuts⟩ := Span.Cuts.slice?_eq_some_iff.1 hslice
    have hblankNe : blank ≠ [] := by
      rintro rfl
      have hstop' := hcuts.stop
      rw [← hcuts.start, Text.size_nil] at hstop'
      omega
    obtain ⟨between, rfl, rfl⟩ := exists_behind_mapping hcuts hblank hblankNe (by omega)
    have hsplice := hcuts.splice_eq
      (Text.indentationAt (front ++ (" {}".toList ++ (between ++ (blank ++ tail)))) f.span.start)
    simp only [List.append_assoc] at hsplice
    rw [if_pos hwhite]
    simp only [hsplice, bind, Except.bind]
    exact ⟨_, writeEmptyMapping_again hlead hstart hstop _⟩
  · left
    rw [if_neg hwhite]
    exact ⟨hwhite, rfl⟩

end

/-- **A fixed finding, applied to the new text.**  It is stale there unless it was a header with
nothing or one space behind the colon.  Such a header is given a second mapping, but for one case:
where a line was moved as well and what stands at its old indentation is not blank, that is what
makes the finding stale. -/
theorem fix_again {w : Nat} {path : String}
    (hmem : f ∈ (Component.scan w path t).findings)
    (hkind : (∃ realign, f.kind = .emptyCollection realign) ∨
      f.kind = .sequenceForMapping .variantsRoot)
    (hfix : f.fix t = .ok t') :
    (¬ IsLeadOfMapping f.before → f.fix t' = .error (.stale f.span f.before)) ∧
      (IsLeadOfMapping f.before → ∃ realign, f.kind = .emptyCollection realign ∧
        ((∃ s ∈ realign, ¬ BlankAt t' s ∧ f.fix t' = .error (.stale s [])) ∨
          (∀ s ∈ realign, BlankAt t' s) ∧ f.WritesAgain t')) := by
  rcases fixedAs_of_fix hmem hkind hfix with
    ⟨hstart, hstop, hseq, rfl⟩ | @⟨front, rest, realign, hstart, hstop, hblank, hfkind, hbelow, rfl⟩
  · exact ⟨fun _ => fix_again_of_sequence hstart hstop hseq _,
      fun hlead => absurd hlead (not_isLeadOfMapping_of_sequence hseq)⟩
  · refine ⟨fun hlong => fix_again_of_long hstart hstop hblank hlong rest, fun hlead => ?_⟩
    refine ⟨realign, hfkind, ?_⟩
    cases realign with
    | none =>
      have hagain := fix_again_of_none hstart hstop hfkind hlead rest
      exact Or.inr ⟨by simp, front, rest, rest, hstart.symm, rfl, hagain, fun _ => rfl⟩
    | some s =>
      obtain ⟨hlt, hne⟩ := hbelow s rfl
      rcases fix_again_of_some hstart hstop hfkind hlead hlt hne rest with
        ⟨hfull, hstale⟩ | ⟨hempty, rest', hagain⟩
      · exact Or.inl ⟨s, rfl, hfull, hstale⟩
      · refine Or.inr ⟨fun s' hs' => ?_, front, rest, rest', hstart.symm, rfl, hagain, ?_⟩
        · cases hs'
          exact hempty
        · rw [hfkind]
          simp

namespace BareProperties

def text : Text := "properties:\nslots:\n".toList

def fixed : Text := "properties: {}\nslots:\n".toList

def absent : Finding := ⟨"c.component.yml", 1, ⟨11, 11⟩, [], .emptyCollection none⟩

end BareProperties

open BareProperties in
/-- A header with nothing behind the colon is given two mappings. -/
theorem fix_again_bareProperties :
    absent ∈ (Component.scan 2 "c.component.yml" text).findings ∧
      absent.fix text = .ok fixed ∧ IsLeadOfMapping absent.before ∧
      absent.WritesAgain fixed := by
  have hmem : absent ∈ (Component.scan 2 "c.component.yml" text).findings := by decide +kernel
  have hfix : absent.fix text = .ok fixed := by decide +kernel
  obtain ⟨realign, hkind, hagain⟩ :=
    (fix_again hmem (Or.inl ⟨none, rfl⟩) hfix).2 (Or.inl rfl)
  cases hkind
  refine ⟨hmem, hfix, Or.inl rfl, ?_⟩
  rcases hagain with ⟨s, hs, -⟩ | ⟨-, hwrites⟩
  · cases hs
  · exact hwrites

open BareProperties in
/-- So a finding that was fixed is not refused from then on. -/
theorem fix_again_writes_second_mapping :
    ∃ f t', f ∈ (Component.scan 2 "c.component.yml" text).findings ∧
      f.kind = .emptyCollection none ∧ f.fix text = .ok t' ∧
      f.fix t' = .ok "properties: {} {}\nslots:\n".toList := by
  refine ⟨absent, fixed, ?_, rfl, ?_, ?_⟩
  · decide +kernel
  · decide +kernel
  · decide +kernel

end Finding
end ThemeRepair
