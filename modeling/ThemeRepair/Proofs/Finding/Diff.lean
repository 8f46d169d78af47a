import ThemeRepair.Proofs.Component.Place
import ThemeRepair.Proofs.Template.Replacement

/-!
# What a fix changes in a text

`Finding.Edits` says, kind by kind, what the fix of a finding is to write over which spans of the
text that was scanned: an empty mapping over a value, the indentation of the header over that of a
line below it, nothing over a block, the new call over an old one.  `Finding.fix_makes_edits` says
that a fix makes these edits, all at the offsets of that text, and keeps everything else.

A fix that makes two edits makes the one further down first.  It then reads the header in a text
that is not the scanned one any more, and finds there what the scan found, because the end of the
header line stands between the two spans (`Finding.fixFresh_displaced`, `Finding.fixFresh_only`).
-/

namespace ThemeRepair
namespace Finding

open Line (contentLines)

variable {t out : Text} {f : Finding}

/-- What makes the value at a span of a text an empty mapping. -/
inductive MapsAt (t : Text) (s : Span) : Text → Prop
  /-- Braces in place of a value. -/
  | value {front value behind : Text} (hs : s.Cuts t front value behind)
      (hvalue : Text.isAllWhite value = false) : MapsAt t s "{}".toList
  /-- Braces between two spaces where there is no value and a comment follows. -/
  | commented {front value behind : Text} (hs : s.Cuts t front value behind)
      (hblank : Text.isAllWhite value = true) (hcomment : behind.head? = some '#') :
      MapsAt t s " {} ".toList
  /-- Braces behind a space where there is no value and no comment follows. -/
  | plain {front value behind : Text} (hs : s.Cuts t front value behind)
      (hblank : Text.isAllWhite value = true) (hplain : behind.head? ≠ some '#') :
      MapsAt t s " {}".toList

/-- The edits that fix a kind of finding at a span of a text, in the order of the text. -/
inductive Edits (t : Text) (s : Span) : FindingKind → List (Span × Text) → Prop
  | mapped {mapping : Text} (hmapping : MapsAt t s mapping) :
      Edits t s (.emptyCollection none) [(s, mapping)]
  /-- The displaced line gets the indentation of the header line, on which the value stands. -/
  | realigned {mapping : Text} {displaced : Span} {header : Nat × Line}
      (hmapping : MapsAt t s mapping) (hheader : header ∈ contentLines t)
      (hover : header.1 ≤ s.start ∧ s.stop < header.1 + header.2.size) :
      Edits t s (.emptyCollection (some displaced))
        [(s, mapping), (displaced, header.2.indentation)]
  | variants : Edits t s (.sequenceForMapping .variantsRoot) [(s, "{}".toList)]
  | removed {name : Text} : Edits t s (.nameConflict name none) [(s, [])]
  /-- The header has no value, so what is written there is not the braces alone. -/
  | collapsed {name mapping : Text} {header : Span} (hmapping : MapsAt t header mapping)
      (hblank : mapping ≠ "{}".toList) :
      Edits t s (.nameConflict name (some header)) [(header, mapping), (s, [])]
  | called {call : HeadingCall} : Edits t s (.legacyCall call) [(s, call.replacement)]

section

variable {s s' : Span} {front value behind between old rest : Text}

theorem mapsAt_mappingFor (h : s.Cuts t front value behind) :
    MapsAt t s (mappingFor value behind) := by
  unfold mappingFor
  split
  · next hvalue => exact MapsAt.value h (by simpa using hvalue)
  · next hblank =>
    have hblank' : Text.isAllWhite value = true := by simpa using hblank
    split
    · next hcomment => exact MapsAt.commented h hblank' (by simpa using hcomment)
    · next hplain => exact MapsAt.plain h hblank' (by simpa using hplain)

theorem mappingFor_ne (hblank : Text.isAllWhite value = true) (behind : Text) :
    mappingFor value behind ≠ "{}".toList := by
  rw [mappingFor, hblank]
  split
  · next h => exact absurd h (by decide)
  · split <;> decide

/-! ## Fixes with two edits -/

/-- Giving a line further down another indentation leaves the value above it as it is. -/
theorem fixFresh_displaced (hs : s.Cuts t front value (between ++ (old ++ rest)))
    (hs' : s'.Cuts t (front ++ (value ++ between)) old rest) (hbetween : between ≠ [])
    (hold : Text.isAllWhite old = true) :
    fixFresh t s (.emptyCollection (some s')) =
      .ok (front ++ (mappingFor value (between ++ (old ++ rest)) ++
        (between ++ (Text.indentationAt t s.start ++ rest)))) := by
  have hwhite : Text.expectWhite t s' = .ok () := hs'.expectWhite_eq.trans (if_pos hold)
  have hsplice := hs'.splice_eq (Text.indentationAt t s.start)
  have hcuts := hs.behind_replaced (between ++ (Text.indentationAt t s.start ++ rest))
  simp only [List.append_assoc] at hsplice
  rw [fixFresh, hwhite]
  simp only [hsplice, bind, Except.bind]
  rw [hcuts.writeEmptyMapping_eq, mappingFor_append hbetween value _ (old ++ rest)]

/-- Taking a block away leaves the value of the header above it as it is. -/
theorem fixFresh_only {name : Text} (hs : s.Cuts t (front ++ (value ++ between)) old rest)
    (hs' : s'.Cuts t front value (between ++ (old ++ rest))) (hbetween : between ≠ []) :
    fixFresh t s (.nameConflict name (some s')) =
      if Text.isAllWhite value then
        .ok (front ++ (mappingFor value (between ++ (old ++ rest)) ++ (between ++ rest)))
      else .error (.stale s' []) := by
  have hsplice := hs.splice_eq []
  have hcuts := hs'.behind_replaced (between ++ rest)
  simp only [List.append_assoc, List.nil_append] at hsplice
  rw [fixFresh, hsplice]
  simp only [bind, Except.bind]
  rw [hcuts.expectWhite_eq, hcuts.writeEmptyMapping_eq,
    mappingFor_append hbetween value rest (old ++ rest)]
  cases Text.isAllWhite value <;> rfl

end

/-! ## The edits of a fix -/

theorem expect_of_slice? {s : Span} {expected : Text} (h : Text.slice? t s ≠ some expected) :
    Text.expect t s expected = .error (.stale s expected) := if_neg h

theorem fix_of_not_slice? (h : Text.slice? t f.span ≠ some f.before) :
    f.fix t = .error (.stale f.span f.before) := by
  rw [fix, expect_of_slice? h]
  rfl

theorem fix_of_slice? (h : Text.slice? t f.span = some f.before) :
    f.fix t = fixFresh t f.span f.kind := by
  rw [fix, Text.expect, if_pos h]
  rfl

theorem fixFresh_of_fix (h : f.fix t = .ok out) : fixFresh t f.span f.kind = .ok out := by
  rw [fix] at h
  cases hexpect : Text.expect t f.span f.before with
  | error e =>
    rw [hexpect] at h
    cases h
  | ok u =>
    rw [hexpect] at h
    exact h

/-- A fix at spans that are placed makes the edits of its kind. -/
theorem exists_edits_of_isPlaced {s : Span} {kind : FindingKind}
    (hplaced : Component.IsPlaced t s kind) (h : fixFresh t s kind = .ok out) :
    ∃ edits, Edits t s kind edits ∧ Text.Edited 0 edits t out := by
  cases hplaced with
  | sequence hs hseq =>
    rw [fixFresh, hs.writeEmptyMapping_eq] at h
    cases h
    exact ⟨_, Edits.mapped (mapsAt_mappingFor hs), hs.edited _⟩
  | blank hs hblank =>
    rw [fixFresh, hs.writeEmptyMapping_eq] at h
    cases h
    exact ⟨_, Edits.mapped (mapsAt_mappingFor hs), hs.edited _⟩
  | displaced hs hs' hbetween hblank hold hne hheader hover hindent =>
    rw [fixFresh_displaced hs hs' hbetween hold, hindent] at h
    cases h
    exact ⟨_, Edits.realigned (mapsAt_mappingFor hs) hheader hover, hs.edited_two hs' _ _⟩
  | variants hs hseq =>
    rw [fixFresh, hs.splice_eq] at h
    cases h
    exact ⟨_, Edits.variants, hs.edited _⟩
  | unfixed => cases h
  | block hs =>
    rw [fixFresh, hs.splice_eq] at h
    cases h
    exact ⟨_, Edits.removed, hs.edited _⟩
  | only hs hs' hbetween =>
    rw [fixFresh_only hs hs' hbetween] at h
    split at h
    · next hblank =>
      cases h
      exact ⟨_, Edits.collapsed (mapsAt_mappingFor hs') (mappingFor_ne hblank _),
        hs'.edited_two hs _ []⟩
    · cases h

/-- **A fix changes the spans that its finding names, and nothing else.**  What a scan or a search
for calls finds names spans one behind the other, and where the fix is made it replaces them, all at
the offsets of the text that was looked at, by what its kind says. -/
theorem fix_makes_edits {w : Nat} {path : String} {settings : Settings.Headings}
    (hmem : f ∈ (Component.scan w path t).findings ∨ f ∈ Template.findCalls settings path t)
    (hfix : f.fix t = .ok out) :
    ∃ edits, Edits t f.span f.kind edits ∧
      (edits.Pairwise fun e e' => e.1.start ≤ e.1.stop ∧ e.1.stop ≤ e'.1.start) ∧
      Text.Edited 0 edits t out := by
  have hfresh := fixFresh_of_fix hfix
  rcases hmem with hmem | hmem
  · obtain ⟨edits, hedits, hedited⟩ :=
      exists_edits_of_isPlaced (Component.isPlaced_of_mem_scan hmem).1 hfresh
    exact ⟨edits, hedits, hedited.ordered, hedited⟩
  · obtain ⟨front, behind, call, hcuts, hkind⟩ := Template.exists_cuts_of_mem_findCalls hmem
    rw [hkind, fixFresh, hcuts.splice_eq] at hfresh
    cases hfresh
    rw [hkind]
    have hedited := hcuts.edited call.replacement
    exact ⟨_, Edits.called, hedited.ordered, hedited⟩

namespace CommentedConflict

def text : Text := "properties: # x\r\n  a: y\r\nslots:\r\n  a: z\r\n".toList

def conflict : Finding :=
  ⟨"c.component.yml", 2, ⟨17, 25⟩, "  a: y\r\n".toList,
    .nameConflict "a".toList (some ⟨11, 12⟩)⟩

def fixed : Text := "properties: {} # x\r\nslots:\r\n  a: z\r\n".toList

end CommentedConflict

open CommentedConflict in
/-- The only property goes, and the comment on the header stays one. -/
theorem fix_makes_edits_commentedConflict :
    conflict ∈ (Component.scan 2 "c.component.yml" text).findings ∧
      conflict.fix text = .ok fixed ∧
      ∃ edits, Edits text ⟨17, 25⟩ conflict.kind edits ∧
        (edits.Pairwise fun e e' => e.1.start ≤ e.1.stop ∧ e.1.stop ≤ e'.1.start) ∧
        Text.Edited 0 edits text fixed := by
  have hmem : conflict ∈ (Component.scan 2 "c.component.yml" text).findings := by decide +kernel
  have hfix : conflict.fix text = .ok fixed := by decide +kernel
  have heither : conflict ∈ (Component.scan 2 "c.component.yml" text).findings ∨
      conflict ∈ Template.findCalls {} "c.component.yml" text := Or.inl hmem
  exact ⟨hmem, hfix, fix_makes_edits heither hfix⟩

end Finding
end ThemeRepair
