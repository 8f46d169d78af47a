import Mathlib.Data.List.Pairwise
import ThemeRepair.Proofs.Text.Cut

/-!
# Several edits of one text

`Text.Edited` says that a text comes from another one by edits that are all given at the offsets of
the old text: in the order of the text each span is replaced, and the stretches between the spans
stay as they are.  So the spans do not overlap (`Text.Edited.ordered`).

Two spans that cut a text one behind the other leave a stretch between them
(`Span.Cuts.exists_between`), and both edits together leave it alone (`Span.Cuts.edited_two`).
-/

namespace ThemeRepair

namespace Text

/-- A text that begins at an offset, spans of it with what is written over them, in the order of
the text, and the text with the spans replaced. -/
inductive Edited : (off : Nat) → List (Span × Text) → Text → Text → Prop
  | done (off : Nat) (t : Text) : Edited off [] t t
  | edit {off : Nat} {kept old new t t' : Text} {s : Span} {edits : List (Span × Text)}
      (hspan : s = ⟨off + size kept, off + size kept + size old⟩)
      (hrest : Edited (off + size kept + size old) edits t t') :
      Edited off ((s, new) :: edits) (kept ++ (old ++ t)) (kept ++ (new ++ t'))

namespace Edited

variable {off : Nat} {edits : List (Span × Text)} {t t' : Text}

theorem le_start (h : Edited off edits t t') : ∀ e ∈ edits, off ≤ e.1.start := by
  induction h with
  | done off t => simp
  | edit hspan hrest ih =>
    rw [List.forall_mem_cons]
    refine ⟨?_, fun e he => ?_⟩
    · rw [hspan]
      exact Nat.le_add_right _ _
    · have := ih e he
      omega

/-- Each span ends before the next one begins. -/
theorem ordered (h : Edited off edits t t') :
    edits.Pairwise fun e e' => e.1.start ≤ e.1.stop ∧ e.1.stop ≤ e'.1.start := by
  induction h with
  | done off t => exact List.Pairwise.nil
  | edit hspan hrest ih =>
    refine List.pairwise_cons.2 ⟨fun e he => ?_, ih⟩
    have hle := hrest.le_start e he
    rw [hspan]
    exact ⟨Nat.le_add_right _ _, hle⟩

end Edited
end Text

namespace Span.Cuts

variable {s s' : Span} {t front inside behind between old rest : Text}

theorem span_eq (h : s.Cuts t front inside behind) :
    s = ⟨Text.size front, Text.size front + Text.size inside⟩ := by
  rw [← h.stop, ← h.start]

/-- One edit replaces the part that its span cuts out. -/
theorem edited (h : s.Cuts t front inside behind) (new : Text) :
    Text.Edited 0 [(s, new)] t (front ++ (new ++ behind)) := by
  rw [h.text]
  refine Text.Edited.edit ?_ (Text.Edited.done _ behind)
  rw [Nat.zero_add]
  exact h.span_eq

/-- Between two spans of which one follows the other stands what is behind the first and in front of
the second. -/
theorem exists_between (h : s.Cuts t front inside behind) {front' inside' behind' : Text}
    (h' : s'.Cuts t front' inside' behind') (hle : s.stop ≤ s'.start) :
    ∃ between, behind = between ++ (inside' ++ behind') ∧ front' = front ++ (inside ++ between) ∧
      (s.stop < s'.start → between ≠ []) := by
  have hprefix : front ++ inside <+: front' := by
    refine Text.prefix_of_size_le ⟨behind, ?_⟩ ⟨inside' ++ behind', h'.text.symm⟩ ?_
    · rw [h.text, List.append_assoc]
    · rw [Text.size_append, ← h.stop, ← h'.start]
      exact hle
  obtain ⟨between, rfl⟩ := hprefix
  have htext := h.text
  rw [h'.text] at htext
  simp only [List.append_assoc, List.append_cancel_left_eq] at htext
  refine ⟨between, htext.symm, List.append_assoc .., ?_⟩
  rintro hlt rfl
  rw [h.stop, h'.start, List.append_nil, Text.size_append] at hlt
  exact Nat.lt_irrefl _ hlt

/-- A span still cuts the text when something behind it is replaced. -/
theorem behind_replaced (h : s.Cuts t front inside behind) (new : Text) :
    s.Cuts (front ++ (inside ++ new)) front inside new :=
  ⟨rfl, h.start, h.stop⟩

/-- Two edits, one behind the other, leave what stands between them alone. -/
theorem edited_two (h : s.Cuts t front inside (between ++ (old ++ rest)))
    (h' : s'.Cuts t (front ++ (inside ++ between)) old rest) (new new' : Text) :
    Text.Edited 0 [(s, new), (s', new')] t
      (front ++ (new ++ (between ++ (new' ++ rest)))) := by
  rw [h.text]
  refine Text.Edited.edit ?_ (Text.Edited.edit ?_ (Text.Edited.done _ rest))
  · rw [Nat.zero_add]
    exact h.span_eq
  · rw [h'.span_eq, Text.size_append, Text.size_append, Nat.zero_add,
      ← Nat.add_assoc (Text.size front)]

end Span.Cuts

/-- What makes a value an empty mapping depends on the first character behind the value only. -/
theorem mappingFor_append {between : Text} (h : between ≠ []) (value rest rest' : Text) :
    mappingFor value (between ++ rest) = mappingFor value (between ++ rest') := by
  obtain ⟨c, u, rfl⟩ := List.exists_cons_of_ne_nil h
  rfl

end ThemeRepair
