import ThemeRepair.Proofs.Template.Literal

/-!
# Where the parts of an expression meet

Joined by the separator, the parts that `splitTop` gives are the text, so each joint between two of
them is an occurrence of the separator: `JoinsAt separator parts x y` says that the parts have a
joint with `x` before it and `y` behind it.

The joints are told by the text alone: the separator is cut at exactly where a reader who comes
from the left stands outside literals and on the ground level (`joinsAt_splitTop_iff`, for a scan
that begins anywhere).  A part of a balanced text is read from its own left end as it was read in
the text, so it has no joint (`splitting_is_exact`).
-/

namespace ThemeRepair
namespace Template

/-- The parts of a text have a joint with one text before it and another one behind it. -/
def JoinsAt (separator : Char) (parts : List Text) (x y : Text) : Prop :=
  ∃ front back, parts = front ++ back ∧ front ≠ [] ∧ back ≠ [] ∧
    [separator].intercalate front = x ∧ [separator].intercalate back = y

section Joints

variable {separator : Char} {parts : List Text} {x y : Text}

/-- One part has no joint. -/
theorem not_joinsAt_singleton (part : Text) : ¬ JoinsAt separator [part] x y := by
  rintro ⟨front, back, hparts, hfront, hback, -, -⟩
  have hlen := congrArg List.length hparts
  have := List.length_pos_of_ne_nil hfront
  have := List.length_pos_of_ne_nil hback
  simp only [List.length_singleton, List.length_append] at hlen
  omega

theorem intercalate_nil_cons (separator : Text) (h : parts ≠ []) :
    separator.intercalate ([] :: parts) = separator ++ separator.intercalate parts := by
  obtain ⟨part, parts, rfl⟩ := List.exists_cons_of_ne_nil h
  simp [List.intercalate]

/-- An empty part in front adds a joint at the start of the text. -/
theorem joinsAt_nil_cons_iff (h : parts ≠ []) :
    JoinsAt separator ([] :: parts) x y ↔
      (x = [] ∧ [separator].intercalate parts = y) ∨
        ∃ x', x = separator :: x' ∧ JoinsAt separator parts x' y := by
  constructor
  · rintro ⟨front, back, hparts, hfront, hback, rfl, rfl⟩
    obtain ⟨part, front, rfl⟩ := List.exists_cons_of_ne_nil hfront
    obtain ⟨rfl, rfl⟩ := List.cons.inj hparts
    by_cases hnil : front = []
    · subst hnil
      exact .inl ⟨rfl, rfl⟩
    · exact .inr ⟨_, intercalate_nil_cons [separator] hnil, front, back, rfl, hnil, hback, rfl, rfl⟩
  · rintro (⟨rfl, rfl⟩ | ⟨x', rfl, front, back, rfl, hfront, hback, rfl, rfl⟩)
    · exact ⟨[[]], parts, rfl, by simp, h, rfl, rfl⟩
    · exact ⟨[] :: front, back, rfl, by simp, hback, intercalate_nil_cons [separator] hfront, rfl⟩

/-- A character in front of the first part stands before every joint. -/
theorem joinsAt_consFirst_iff (c : Char) (h : parts ≠ []) :
    JoinsAt separator (consFirst c parts) x y ↔
      ∃ x', x = c :: x' ∧ JoinsAt separator parts x' y := by
  obtain ⟨part, parts, rfl⟩ := List.exists_cons_of_ne_nil h
  constructor
  · rintro ⟨front, back, hparts, hfront, hback, rfl, rfl⟩
    obtain ⟨first, front, rfl⟩ := List.exists_cons_of_ne_nil hfront
    obtain ⟨rfl, rfl⟩ := List.cons.inj hparts
    exact ⟨_, intercalate_consFirst [separator] c (List.cons_ne_nil part front), part :: front,
      back, rfl, by simp, hback, rfl, rfl⟩
  · rintro ⟨x', rfl, front, back, hparts, hfront, hback, rfl, rfl⟩
    obtain ⟨first, front, rfl⟩ := List.exists_cons_of_ne_nil hfront
    obtain ⟨rfl, rfl⟩ := List.cons.inj hparts
    exact ⟨(c :: part) :: front, back, rfl, by simp, hback,
      intercalate_consFirst [separator] c (List.cons_ne_nil part front), rfl⟩

/-- The joints are the separators behind which the scan of the text before them stands outside
literals and on the ground level. -/
theorem joinsAt_splitTop_iff (hsep : isNeutral separator = true) {q : Quoting} {depth : Nat}
    {t : Text} :
    JoinsAt separator (splitTop separator q depth t) x y ↔
      t = x ++ separator :: y ∧ scan q depth x = (.outside, 0) := by
  have hquote : isQuote separator = false := (isNeutral_iff.1 hsep).1
  induction t generalizing q depth x with
  | nil => simp [splitTop, not_joinsAt_singleton]
  | cons c t ih =>
    rw [splitTop]
    split
    · next hcut =>
      simp only [Quoting.shows, Bool.and_eq_true, decide_eq_true_eq, beq_iff_eq] at hcut
      obtain ⟨⟨⟨rfl, -⟩, rfl⟩, rfl⟩ := hcut
      rw [joinsAt_nil_cons_iff (splitTop_ne_nil c .outside 0 t), intercalate_splitTop]
      cases x with
      | nil => simp [scan]
      | cons d x =>
        have hscan : scan .outside 0 (c :: x) = scan .outside 0 x := by
          rw [scan, step_outside hquote, depthAfter_neutral hsep]
        simp only [reduceCtorEq, false_and, false_or, List.cons.injEq, List.cons_append]
        constructor
        · rintro ⟨x', ⟨rfl, rfl⟩, hjoin⟩
          obtain ⟨rfl, hx⟩ := ih.1 hjoin
          exact ⟨⟨rfl, rfl⟩, hscan.trans hx⟩
        · rintro ⟨⟨rfl, rfl⟩, hx⟩
          exact ⟨x, ⟨rfl, rfl⟩, ih.2 ⟨rfl, hscan.symm.trans hx⟩⟩
    · next hcut =>
      rw [joinsAt_consFirst_iff c (splitTop_ne_nil _ _ _ _)]
      constructor
      · rintro ⟨x', rfl, hjoin⟩
        obtain ⟨rfl, hx⟩ := ih.1 hjoin
        exact ⟨rfl, hx⟩
      · rintro ⟨ht, hx⟩
        cases x with
        | nil =>
          -- Here the scan stands where it would have cut.
          obtain ⟨rfl, rfl⟩ := List.cons.inj ht
          obtain ⟨rfl, rfl⟩ := Prod.mk.inj hx
          simp [Quoting.shows, hquote] at hcut
        | cons d x =>
          obtain ⟨rfl, rfl⟩ := List.cons.inj ht
          exact ⟨x, rfl, ih.2 ⟨rfl, hx⟩⟩

end Joints

/-- **Splitting is lossless and exact.**  The parts of a text, joined by the separator, are the
text.  The separator is a joint exactly where a reader who comes from the left end of the text
stands outside literals and on the ground level.  The parts of a balanced text are balanced, and
each of them, split again, is one part. -/
theorem splitting_is_exact {separator : Char} (hsep : separator = ',' ∨ separator = ':')
    (t : Text) :
    [separator].intercalate (splitTop separator .outside 0 t) = t ∧
      (∀ x y, JoinsAt separator (splitTop separator .outside 0 t) x y ↔
        t = x ++ separator :: y ∧ StandsAt x 0) ∧
      (Balanced t → ∀ part ∈ splitTop separator .outside 0 t,
        Balanced part ∧ splitTop separator .outside 0 part = [part]) := by
  have hneutral : isNeutral separator = true := by rcases hsep with rfl | rfl <;> rfl
  refine ⟨intercalate_splitTop separator .outside 0 t, fun x y => ?_, fun ht part hpart => ?_⟩
  · rw [joinsAt_splitTop_iff hneutral, standsAt_iff]
  · obtain ⟨hbalanced, hinner⟩ := balanced_of_mem_splitTop hneutral ht hpart
    exact ⟨hbalanced, splitTop_of_inner hneutral hbalanced hinner⟩

/-- Entries with commas in a literal behind an escaped quote, and in brackets of two kinds. -/
def commaEntries : Text := "a: 'x\\', y', b: f([1, 2], \x7b\x7d), c: \"'\"".toList

theorem splitting_is_exact_commaEntries :
    (',' = ',' ∨ ',' = ':') ∧ Balanced commaEntries ∧
      splitTop ',' .outside 0 commaEntries =
        ["a: 'x\\', y'".toList, " b: f([1, 2], \x7b\x7d)".toList, " c: \"'\"".toList] ∧
      StandsAt "a: 'x\\', y'".toList 0 ∧
      (∀ y, ¬ JoinsAt ',' (splitTop ',' .outside 0 commaEntries) "a: 'x\\'".toList y) ∧
      ∀ part ∈ splitTop ',' .outside 0 commaEntries,
        Balanced part ∧ splitTop ',' .outside 0 part = [part] := by
  have hsep : ',' = ',' ∨ ',' = ':' := .inl rfl
  have hbalanced : Balanced commaEntries := by decide
  have hparts : splitTop ',' .outside 0 commaEntries =
      ["a: 'x\\', y'".toList, " b: f([1, 2], \x7b\x7d)".toList, " c: \"'\"".toList] := by
    decide
  obtain ⟨-, hjoints, hagain⟩ := splitting_is_exact hsep commaEntries
  have hfirst : JoinsAt ',' (splitTop ',' .outside 0 commaEntries) "a: 'x\\', y'".toList
      " b: f([1, 2], \x7b\x7d), c: \"'\"".toList := by
    rw [hparts]
    exact ⟨["a: 'x\\', y'".toList], _, rfl, by simp, by simp, rfl, rfl⟩
  refine ⟨hsep, hbalanced, hparts, ((hjoints _ _).1 hfirst).2, fun y hjoin => ?_, hagain hbalanced⟩
  -- Behind the escaped quote the scan is still inside the literal.
  have hscan := standsAt_iff.1 ((hjoints _ y).1 hjoin).2
  exact absurd hscan (by decide)

end Template
end ThemeRepair
