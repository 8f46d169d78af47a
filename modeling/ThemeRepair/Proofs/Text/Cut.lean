import ThemeRepair.Fix

/-!
# Spans as cuts

A span names a stretch of a text exactly where the text is a concatenation of three parts and the
span runs from the size of the first part to the end of the second.  `Span.Cuts` says so, and with
it no later argument computes with offsets: reading the span gives the middle part
(`Span.Cuts.slice?_eq`), writing over it replaces the middle part (`Span.Cuts.splice_eq`), and what
makes the value there an empty mapping depends on the middle part and on the first character
behind it (`Span.Cuts.writeEmptyMapping_eq`).
-/

namespace ThemeRepair

/-! ## Offsets of prefixes -/

namespace Text

theorem size_le_of_prefix {x t : Text} (h : x <+: t) : size x ≤ size t := by
  obtain ⟨y, rfl⟩ := h
  rw [size_append]
  omega

theorem size_pos_of_ne_nil {t : Text} (h : t ≠ []) : 0 < size t := by
  obtain ⟨c, t, rfl⟩ := List.exists_cons_of_ne_nil h
  have := c.utf8Size_pos
  rw [size_cons]
  omega

/-- Of two beginnings of a text, the one with fewer bytes is a beginning of the other. -/
theorem prefix_of_size_le {x y t : Text} (hx : x <+: t) (hy : y <+: t) (h : size x ≤ size y) :
    x <+: y := by
  rcases List.prefix_or_prefix_of_prefix hx hy with hxy | ⟨z, rfl⟩
  · exact hxy
  · rw [size_append] at h
    by_cases hz : z = []
    · simp [hz]
    · have := size_pos_of_ne_nil hz
      omega

theorem length_lt_of_size_lt {x y t : Text} (hx : x <+: t) (hy : y <+: t)
    (h : size x < size y) : x.length < y.length := by
  obtain ⟨z, rfl⟩ := prefix_of_size_le hx hy (Nat.le_of_lt h)
  have hz : z ≠ [] := by
    rintro rfl
    simp at h
  have := List.length_pos_iff.2 hz
  rw [List.length_append]
  omega

/-- Beginnings of a text with as many bytes are the same. -/
theorem eq_of_size_eq {x y t : Text} (hx : x <+: t) (hy : y <+: t) (h : size x = size y) :
    x = y := by
  have hxy := prefix_of_size_le hx hy (Nat.le_of_eq h)
  have hyx := prefix_of_size_le hy hx (Nat.le_of_eq h.symm)
  exact hxy.eq_of_length_le hyx.length_le

end Text

/-! ## Cuts -/

/-- A span cuts a text into what stands before it, in it and behind it. -/
structure Span.Cuts (s : Span) (t before inside after : Text) : Prop where
  text : t = before ++ (inside ++ after)
  start : s.start = Text.size before
  stop : s.stop = Text.size before + Text.size inside

namespace Span.Cuts

variable {s : Span} {t before inside after : Text}

/-- What is cut before and behind the middle part, seen from one end only. -/
theorem splitAt?_start (h : s.Cuts t before inside after) :
    Text.splitAt? t s.start = some (before, inside ++ after) := by
  rw [h.text, h.start]
  exact Text.splitAt?_append before (inside ++ after)

theorem splitAt?_stop (h : s.Cuts t before inside after) :
    Text.splitAt? t s.stop = some (before ++ inside, after) := by
  rw [h.text, h.stop, ← List.append_assoc, ← Text.size_append]
  exact Text.splitAt?_append (before ++ inside) after

/-- Reading a span gives the part that it cuts out. -/
theorem slice?_eq (h : s.Cuts t before inside after) : Text.slice? t s = some inside := by
  have hle : s.start ≤ s.stop := by rw [h.start, h.stop]; omega
  have hlen : s.stop - s.start = Text.size inside := by rw [h.start, h.stop]; omega
  rw [Text.slice?, if_pos hle, h.splitAt?_start]
  simp only [hlen, Text.splitAt?_append, Option.map_some]

theorem slice_eq (h : s.Cuts t before inside after) : Text.slice t s = inside := by
  rw [Text.slice, h.slice?_eq, Option.getD_some]

/-- A span that can be read cuts the text. -/
theorem slice?_eq_some_iff :
    Text.slice? t s = some inside ↔ ∃ before after, s.Cuts t before inside after := by
  refine ⟨fun h => ?_, fun ⟨_, _, h⟩ => h.slice?_eq⟩
  rw [Text.slice?] at h
  split at h
  · next hle =>
    split at h
    · next before rest hstart =>
      obtain ⟨⟨part, after⟩, hstop, rfl⟩ := Option.map_eq_some_iff.1 h
      obtain ⟨htext, hbefore⟩ := Text.splitAt?_eq_some_iff.1 hstart
      obtain ⟨hrest, hsize⟩ := Text.splitAt?_eq_some_iff.1 hstop
      simp only at htext hbefore hrest hsize
      refine ⟨before, after, by rw [htext, hrest], hbefore, ?_⟩
      show s.stop = Text.size before + Text.size part
      omega
    · cases h
  · cases h

/-- Writing over a span replaces the part that it cuts out. -/
theorem splice_eq (h : s.Cuts t before inside after) (new : Text) :
    Text.splice t s new = .ok (before ++ (new ++ after)) := by
  rw [Text.splice, Text.splice?, h.splitAt?_start, h.splitAt?_stop]
  simp

/-- The text that a span is expected to hold is the part that it cuts out. -/
theorem expect_eq (h : s.Cuts t before inside after) : Text.expect t s inside = .ok () := by
  rw [Text.expect, if_pos h.slice?_eq]

/-- A span is found white exactly if the part that it cuts out is. -/
theorem expectWhite_eq (h : s.Cuts t before inside after) :
    Text.expectWhite t s =
      if Text.isAllWhite inside then .ok () else .error (.stale s []) := by
  rw [Text.expectWhite, h.slice?_eq]
  rfl

end Span.Cuts

/-- A span that ends within the beginning of a text is read there, whatever follows. -/
theorem Text.slice?_append_congr {s : Span} {x y z : Text} (h : s.stop ≤ Text.size x) :
    Text.slice? (x ++ y) s = Text.slice? (x ++ z) s := by
  have himp (y z inside : Text) (hslice : Text.slice? (x ++ y) s = some inside) :
      Text.slice? (x ++ z) s = some inside := by
    obtain ⟨front, behind, hcuts⟩ := Span.Cuts.slice?_eq_some_iff.1 hslice
    obtain ⟨rest, rfl⟩ : front ++ inside <+: x := by
      refine Text.prefix_of_size_le ⟨behind, ?_⟩ ⟨y, rfl⟩ ?_
      · rw [hcuts.text, List.append_assoc]
      · rw [Text.size_append, ← hcuts.stop]
        exact h
    exact Span.Cuts.slice?_eq
      ⟨by rw [List.append_assoc, List.append_assoc], hcuts.start, hcuts.stop⟩
  exact Option.ext fun inside => ⟨himp y z inside, himp z y inside⟩

/-! ## Empty mappings -/

/-- What is written to make a value an empty mapping: by the value, and by what follows it. -/
def mappingFor (value after : Text) : Text :=
  if !Text.isAllWhite value then "{}".toList
  else if after.head? == some '#' then " {} ".toList
  else " {}".toList

/-- Making the value at a span an empty mapping replaces the part that the span cuts out. -/
theorem Span.Cuts.writeEmptyMapping_eq {s : Span} {t before inside after : Text}
    (h : s.Cuts t before inside after) :
    writeEmptyMapping t s = .ok (before ++ (mappingFor inside after ++ after)) := by
  have hm : emptyMapping t s = .ok (mappingFor inside after) := by
    rw [emptyMapping, h.slice?_eq, h.splitAt?_stop]
    simp only [mappingFor]
    split
    · rfl
    · split <;> rfl
  rw [writeEmptyMapping, hm]
  exact h.splice_eq (mappingFor inside after)

end ThemeRepair
