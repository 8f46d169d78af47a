import ThemeRepair.Proofs.Region.Edit
import ThemeRepair.Proofs.Region.Opening

/-!
# Regions apart and regions inside one another

Two regions of one text that are opened by different keys do not overlap by halves: one ends in
front of the other, or one lies in the body of the other (`Region.precedes_or_inside`).  A section
lies in no body, for its header is not indented (`Region.IsIn.not_inside_of_section`).

In offsets, a region in front of another one is `Span.Apart` from it (`Region.Precedes.apart`), and
one in the body of another is `Span.Within` it (`Region.Inside.within`).
-/

namespace ThemeRepair
namespace Span

variable {a b c : Span}

/-- Two stretches without a byte in common. -/
def Apart (a b : Span) : Prop := a.stop ≤ b.start ∨ b.stop ≤ a.start

/-- A stretch that is part of another one. -/
def Within (a b : Span) : Prop := b.start ≤ a.start ∧ a.stop ≤ b.stop

instance : Decidable (a.Apart b) := inferInstanceAs (Decidable (_ ∨ _))

instance : Decidable (a.Within b) := inferInstanceAs (Decidable (_ ∧ _))

theorem Apart.symm (h : a.Apart b) : b.Apart a := Or.symm h

theorem Within.trans (hab : a.Within b) (hbc : b.Within c) : a.Within c :=
  ⟨Nat.le_trans hbc.1 hab.1, Nat.le_trans hab.2 hbc.2⟩

theorem Within.apart (hab : a.Within b) (hbc : b.Apart c) : a.Apart c :=
  hbc.imp (Nat.le_trans hab.2) fun h => Nat.le_trans h hab.1

/-- A stretch with something in it is not both. -/
theorem Within.not_apart (h : a.Within b) (hne : a.start < a.stop) : ¬ a.Apart b := by
  obtain ⟨hstart, hstop⟩ := h
  rintro (hle | hle) <;> omega

end Span

namespace Region

open Line (below nested Closes)

variable {r s : Region} {keyword other : Text} {ls : List Line}

/-- The region ends in front of another one. -/
def Precedes (r s : Region) : Prop :=
  ∃ between, s.before = r.before ++ r.header :: (r.body ++ between) ∧
    r.after = between ++ s.header :: (s.body ++ s.after)

/-- The region lies in the body of another one. -/
def Inside (r s : Region) : Prop :=
  ∃ above behind, r.before = s.before ++ s.header :: above ∧
    s.body = above ++ r.header :: (r.body ++ behind)

/-! ## How two regions lie -/

/-- A header in a body is deeper. -/
theorem Inside.depth_lt (h : s.Inside r) (hr : r.IsIn keyword ls) (hs : s.IsIn other ls) :
    r.depth < s.depth := by
  obtain ⟨above, behind, -, hbody⟩ := h
  exact hr.depth_lt_of_mem_body (by rw [hbody]; simp) hs.isContent_header

theorem IsIn.not_inside_of_section (hr : r.IsIn keyword ls) (hs : s.IsIn other ls)
    (hzero : s.depth = 0) : ¬ s.Inside r := by
  intro hinside
  have hlt := hinside.depth_lt hr hs
  omega

/-- A region with its header in the body of another one lies in that body: what ends the outer
region ends the inner one, which is deeper. -/
theorem inside_of_body {above inside : List Line} (hr : r.IsIn keyword ls) (hs : s.IsIn other ls)
    (hbefore : s.before = r.before ++ r.header :: above)
    (hbody : r.body = above ++ s.header :: inside)
    (hrest : s.body ++ s.after = inside ++ r.after) : s.Inside r := by
  have hclose : Closes s.depth r.after :=
    hr.closes_after_of_mem_body (by rw [hbody]; simp) hs.isContent_header
  have hsbody : s.body = nested s.depth inside := by
    rw [hs.body_eq, hrest, Line.nested_append_of_closes hclose]
  refine ⟨above, inside.drop s.body.length, hbefore, ?_⟩
  rw [hbody, hsbody, Line.nested_append_drop]

theorem inside_of_child {parent : Region} (hparent : parent.IsIn keyword ls)
    (h : parent.child other = .ok (some r)) : r.Inside parent := by
  obtain ⟨hr, -, -, passed, hbefore, hlines, ⟨rest, hbody⟩, -⟩ := isIn_of_child hparent h
  rw [hbody, List.append_assoc, List.cons_append] at hlines
  exact inside_of_body hparent hr hbefore hbody
    (List.cons.inj (List.append_cancel_left hlines)).2.symm

/-- A region with its header behind the header of another one lies behind it or in it. -/
theorem precedes_or_inside_of_before {above : List Line} (hr : r.IsIn keyword ls)
    (hs : s.IsIn other ls) (hbefore : s.before = r.before ++ r.header :: above)
    (hbody : r.body ++ r.after = above ++ s.header :: (s.body ++ s.after)) :
    r.Precedes s ∨ s.Inside r := by
  rcases List.append_eq_append_iff.1 hbody with
    ⟨between, rfl, hafter⟩ | ⟨inside, hrbody, hsheader⟩
  · exact Or.inl ⟨between, hbefore, hafter⟩
  · cases inside with
    | nil =>
      rw [List.append_nil] at hrbody
      rw [List.nil_append] at hsheader
      exact Or.inl ⟨[], by rw [List.append_nil, hbefore, hrbody], hsheader.symm⟩
    | cons l inside =>
      obtain ⟨rfl, hrest⟩ := List.cons.inj hsheader
      exact Or.inr (inside_of_body hr hs hbefore hrbody hrest)

/-- **Two regions of different keys do not overlap by halves.** -/
theorem precedes_or_inside (hr : r.IsIn keyword ls) (hs : s.IsIn other ls)
    (hne : keyword ≠ other) :
    (r.Precedes s ∨ s.Precedes r) ∨ r.Inside s ∨ s.Inside r := by
  have hlines := hr.lines_eq.trans hs.lines_eq.symm
  rw [lines, lines] at hlines
  -- One header stands in front of the other, for a line does not declare two keys.
  have hheader : r.header ≠ s.header := fun heq => by
    have hdeclares := Line.declares_eq_false hr.declares hne
    rw [heq, hs.declares] at hdeclares
    cases hdeclares
  rcases List.append_eq_append_iff.1 hlines with ⟨front, hbefore, hrest⟩ | ⟨front, hbefore, hrest⟩
  · cases front with
    | nil => exact absurd (List.cons.inj hrest).1 hheader
    | cons l above =>
      obtain ⟨rfl, hbody⟩ := List.cons.inj hrest
      rcases precedes_or_inside_of_before hr hs hbefore hbody with hprecedes | hinside
      · exact Or.inl (Or.inl hprecedes)
      · exact Or.inr (Or.inr hinside)
  · cases front with
    | nil => exact absurd (List.cons.inj hrest).1.symm hheader
    | cons l above =>
      obtain ⟨rfl, hbody⟩ := List.cons.inj hrest
      rcases precedes_or_inside_of_before hs hr hbefore hbody with hprecedes | hinside
      · exact Or.inl (Or.inr hprecedes)
      · exact Or.inr (Or.inl hinside)

/-! ## The stretches of two regions -/

theorem IsIn.start_lt_stop (h : r.IsIn keyword ls) : r.span.start < r.span.stop := by
  have hpos := Line.size_pos_of_isContent h.isContent_header
  rw [span, stop, bodyStart]
  simp only
  omega

theorem Precedes.apart (h : r.Precedes s) : r.span.Apart s.span := by
  obtain ⟨between, hbefore, -⟩ := h
  left
  rw [span, span, stop, bodyStart, start, start, hbefore]
  simp only [Line.total_append, Line.total_cons]
  omega

/-- A region inside another one stands in the stretch of the body. -/
theorem Inside.within_body (h : r.Inside s) : r.span.Within ⟨s.bodyStart, s.stop⟩ := by
  obtain ⟨above, behind, hbefore, hbody⟩ := h
  rw [span, Span.Within, stop, stop, bodyStart, bodyStart, start, start, hbefore, hbody]
  simp only [Line.total_append, Line.total_cons]
  omega

theorem Inside.within (h : r.Inside s) : r.span.Within s.span :=
  h.within_body.trans ⟨Nat.le_add_right _ _, Nat.le_refl _⟩

/-- The value stands on the header line. -/
theorem valueSpan_within_header (h : r.HasKey) :
    r.valueSpan.Within ⟨r.start, r.bodyStart⟩ := by
  have hsize : r.header.size = Text.size r.header.indentation + (Text.size r.keyword +
      (Char.utf8Size ':' + (Text.size r.value + Text.size r.comment))) +
        Text.size r.header.ending := by
    rw [Line.size, Line.toText, header_content_eq h]
    simp only [Text.size_append, Text.size_cons]
  have hcolon : Char.utf8Size ':' = 1 := rfl
  rw [valueSpan, Span.Within, bodyStart, hsize, hcolon]
  simp only
  omega

/-- Where lines follow, the header has an ending, so its value ends in front of the next line. -/
theorem valueSpan_stop_lt_bodyStart (h : r.HasKey) (hread : Line.AreRead r.lines)
    (hbody : r.body ≠ []) : r.valueSpan.stop < r.bodyStart := by
  have hending : r.header.ending ≠ [] := by
    rcases (ended_header hread (by simp [hbody])).ending with he | ⟨he, -⟩ <;>
      rw [he] <;> exact List.cons_ne_nil _ _
  have hpos := Text.size_pos_of_ne_nil hending
  have hstop := (cuts_valueSpan h).stop
  have hcolon : (':' : Char).utf8Size = 1 := rfl
  rw [bodyStart, start, Line.size, Line.toText, header_content_eq h]
  simp only [Line.total_eq_size_join, Text.size_append, Text.size_cons, Text.size_nil] at hstop ⊢
  omega

theorem valueSpan_within (h : r.HasKey) : r.valueSpan.Within r.span :=
  (valueSpan_within_header h).trans ⟨Nat.le_refl _, Nat.le_add_right _ _⟩

/-- The inline value is part of the value. -/
theorem inlineSpan_within (h : r.HasKey) : r.inlineSpan.Within r.valueSpan := by
  have hvalue := cuts_valueSpan h
  have hinline := cuts_inlineSpan h
  have hsize : Text.size r.value =
      Text.size r.lead + (Text.size r.inline + Text.size r.trail) := by
    conv_lhs => rw [r.value_eq.1]
    rw [Text.size_append, Text.size_append]
  rw [Span.Within, hvalue.start, hvalue.stop, hinline.start, hinline.stop, hsize]
  simp only [Text.size_append, Text.size_cons, Text.size_nil]
  omega

end Region
end ThemeRepair
