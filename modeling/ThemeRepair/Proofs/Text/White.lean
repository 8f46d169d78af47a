import Mathlib.Data.List.DropRight
import ThemeRepair.Text.Basic

/-!
# Taking away what stands at the ends

`Text.dropEndWhile` is the `List.rdropWhile` of the library (`Text.dropEndWhile_eq_rdropWhile`), so
a list is what it keeps and a rest that satisfies the test throughout.  Two uses of it follow:
a text is the white space at its start, its `Text.trim`, and the white space at its end
(`Text.exists_eq_trim`), and white space around a text does not change what trimming gives
(`Text.trim_surround`): the text itself where it starts and ends with other characters
(`Text.trim_append_append`).
-/

namespace ThemeRepair
namespace Text

/-! ## Dropping at the end -/

section DropEnd

variable {α : Type} {p : α → Bool}

theorem dropEndWhile_eq_rdropWhile (l : List α) : dropEndWhile p l = l.rdropWhile p := by
  induction l with
  | nil => rfl
  | cons a l ih =>
    have hcons : (a :: l).rdropWhile p =
        if l.rdropWhile p = [] then [a].rdropWhile p else a :: l.rdropWhile p := by
      rw [List.rdropWhile, List.reverse_cons, List.dropWhile_append]
      simp only [List.rdropWhile, List.reverse_eq_nil_iff, List.isEmpty_iff]
      split <;> simp
    rw [hcons, dropEndWhile, ih]
    cases hl : l.rdropWhile p with
    | nil => simp [List.rdropWhile_singleton]
    | cons b m => simp

/-- What stands at the end and satisfies the test is dropped. -/
theorem dropEndWhile_append_of_all {l m : List α} (h : ∀ a ∈ m, p a = true) :
    dropEndWhile p (l ++ m) = dropEndWhile p l := by
  rw [dropEndWhile_eq_rdropWhile, dropEndWhile_eq_rdropWhile, List.rdropWhile, List.reverse_append,
    List.dropWhile_append_of_pos, List.rdropWhile]
  intro a ha
  exact h a (List.mem_reverse.1 ha)

/-- What stands before something that fails the test is kept. -/
theorem dropEndWhile_append_of_exists {l m : List α} (h : ∃ a ∈ m, p a = false) :
    dropEndWhile p (l ++ m) = l ++ dropEndWhile p m := by
  obtain ⟨a, ha, hp⟩ := h
  have hne : (m.reverse.dropWhile p).isEmpty = false := by
    rw [List.isEmpty_eq_false_iff]
    intro hnil
    have := List.dropWhile_eq_nil_iff.1 hnil a (List.mem_reverse.2 ha)
    rw [hp] at this
    exact absurd this (by decide)
  rw [dropEndWhile_eq_rdropWhile, dropEndWhile_eq_rdropWhile, List.rdropWhile, List.reverse_append,
    List.dropWhile_append, hne]
  simp [List.rdropWhile]

/-- A list is what is kept of it and a rest that satisfies the test throughout. -/
theorem exists_eq_dropEndWhile_append (p : α → Bool) (l : List α) :
    ∃ m, l = dropEndWhile p l ++ m ∧ ∀ a ∈ m, p a = true := by
  refine ⟨l.rtakeWhile p, ?_, fun a ha => List.mem_rtakeWhile_imp ha⟩
  rw [dropEndWhile_eq_rdropWhile]
  exact List.rdropWhile_append_rtakeWhile.symm

/-- A list that ends with something that fails the test is kept. -/
theorem dropEndWhile_of_getLast? {l : List α} {a : α} (h : l.getLast? = some a)
    (ha : p a = false) : dropEndWhile p l = l := by
  obtain ⟨m, rfl⟩ := List.getLast?_eq_some_iff.1 h
  rw [dropEndWhile_append_of_exists ⟨a, by simp, ha⟩, dropEndWhile, dropEndWhile]
  simp [ha]

end DropEnd

/-! ## White space around a text -/

theorem isAllWhite_iff {t : Text} : isAllWhite t = true ↔ ∀ c ∈ t, isWhite c = true := by
  simp [isAllWhite]

theorem not_mem_of_isAllWhite {t : Text} {c : Char} (ht : isAllWhite t = true)
    (hc : isWhite c = false) : c ∉ t := by
  intro hmem
  rw [isAllWhite_iff.1 ht c hmem] at hc
  cases hc

/-- A text is white space, what trimming gives, and white space. -/
theorem exists_eq_trim (t : Text) :
    ∃ lead trail, t = lead ++ (trim t ++ trail) ∧ isAllWhite lead = true ∧
      isAllWhite trail = true ∧ trimStart t = trim t ++ trail := by
  obtain ⟨trail, htrail, hwhite⟩ := exists_eq_dropEndWhile_append isWhite (trimStart t)
  refine ⟨t.takeWhile isWhite, trail, ?_, ?_, isAllWhite_iff.2 hwhite, htrail⟩
  · have ht : t = t.takeWhile isWhite ++ trimStart t := List.takeWhile_append_dropWhile.symm
    rw [show trim t ++ trail = trimStart t from htrail.symm]
    exact ht
  · exact List.all_takeWhile

/-- White space at both ends of a text that starts and ends with other characters is all that
trimming takes away. -/
theorem trim_append_append {lead t trail : Text} {a b : Char}
    (hlead : isAllWhite lead = true) (htrail : isAllWhite trail = true)
    (hfirst : t.head? = some a) (ha : isWhite a = false)
    (hlast : t.getLast? = some b) (hb : isWhite b = false) :
    trim (lead ++ (t ++ trail)) = t := by
  have hstart : trimStart (lead ++ (t ++ trail)) = t ++ trail := by
    rw [trimStart, List.dropWhile_append_of_pos (isAllWhite_iff.1 hlead)]
    obtain ⟨u, rfl⟩ := List.head?_eq_some_iff.1 hfirst
    rw [List.cons_append, List.dropWhile_cons_of_neg (by simp [ha])]
  rw [trim, hstart, trimEnd, dropEndWhile_append_of_all (isAllWhite_iff.1 htrail)]
  exact dropEndWhile_of_getLast? hlast hb

theorem trim_eq_nil_iff {t : Text} : trim t = [] ↔ isAllWhite t = true := by
  constructor
  · intro h
    obtain ⟨lead, trail, ht, hlead, htrail, -⟩ := exists_eq_trim t
    rw [h, List.nil_append] at ht
    rw [isAllWhite_iff] at hlead htrail ⊢
    intro c hc
    rw [ht] at hc
    rcases List.mem_append.1 hc with hc | hc
    · exact hlead c hc
    · exact htrail c hc
  · intro h
    have hstart : trimStart t = [] := by
      rw [trimStart, List.dropWhile_eq_nil_iff]
      exact isAllWhite_iff.1 h
    rw [trim, hstart]
    rfl

/-- White space around a text does not change what trimming gives. -/
theorem trim_surround {lead trail : Text} (t : Text) (hlead : isAllWhite lead = true)
    (htrail : isAllWhite trail = true) : trim (lead ++ (t ++ trail)) = trim t := by
  have hstart : trimStart (lead ++ (t ++ trail)) = trimStart (t ++ trail) :=
    List.dropWhile_append_of_pos (isAllWhite_iff.1 hlead)
  rw [trim, hstart]
  by_cases ht : isAllWhite t = true
  · have hall : isAllWhite (t ++ trail) = true := by
      rw [isAllWhite, List.all_append, Bool.and_eq_true]
      exact ⟨ht, htrail⟩
    exact (trim_eq_nil_iff.2 hall).trans (trim_eq_nil_iff.2 ht).symm
  · have hkept : (t.dropWhile isWhite).isEmpty = false := by
      rw [List.isEmpty_eq_false_iff, ne_eq, List.dropWhile_eq_nil_iff]
      exact fun hnil => ht (isAllWhite_iff.2 hnil)
    have hcut : trimStart (t ++ trail) = trimStart t ++ trail := by
      rw [trimStart, List.dropWhile_append, hkept]
      rfl
    rw [hcut, trimEnd, dropEndWhile_append_of_all (isAllWhite_iff.1 htrail)]
    rfl

/-- Trimming twice is trimming once. -/
theorem trim_trim (t : Text) : trim (trim t) = trim t := by
  obtain ⟨lead, trail, ht, hlead, htrail, -⟩ := exists_eq_trim t
  have hsurround := trim_surround (trim t) hlead htrail
  rwa [← ht, eq_comm] at hsurround

end Text
end ThemeRepair
