import ThemeRepair.Proofs.Region.Extent
import ThemeRepair.Proofs.Region.Walk

/-!
# Regions inside regions, seen from the text

A region may be found in a text, or in a region that was found before, to any depth
(`Region.Obtained`).  A search inside a region sees the lines of its body only, and yet it makes no
difference: what it finds is what the same header opens in front of the whole rest of the text
(`Region.search_inside_sees_enough`).  For all that is nested below the inner header is nested below
the outer one, so the outer region ends no earlier, and it would have been refused over the
indentation that the inner one could be refused over.
-/

namespace ThemeRepair
namespace Region

open Line (contentLines contentFrom)

variable {t keyword : Text} {r parent : Region}

/-- A region that is obtained from a text: it is found in the text, or in a region obtained from
it. -/
inductive Obtained (t : Text) : Region → Prop
  | find {keyword : Text} {r : Region} (h : find keyword (Line.ofText t) = .ok (some r)) :
      Obtained t r
  | findSection {keyword : Text} {r : Region}
      (h : findSection keyword (Line.ofText t) = .ok (some r)) : Obtained t r
  | child {keyword : Text} {parent r : Region} (hparent : Obtained t parent)
      (h : parent.child keyword = .ok (some r)) : Obtained t r
  | descendant {keyword : Text} {parent r : Region} {rs : List Region}
      (hparent : Obtained t parent) (h : parent.descendants keyword = .ok rs) (hr : r ∈ rs) :
      Obtained t r

/-- However it is obtained, it is a region of the lines of the text. -/
theorem Obtained.isIn (h : Obtained t r) : ∃ keyword, r.IsIn keyword (Line.ofText t) := by
  induction h with
  | find h => exact ⟨_, (isIn_of_find h).1⟩
  | findSection h => exact ⟨_, (isIn_of_findSection h).1⟩
  | child _ h ih =>
    obtain ⟨_, hparent⟩ := ih
    exact ⟨_, (isIn_of_child hparent h).1⟩
  | @descendant keyword _ _ _ _ h hr ih =>
    obtain ⟨_, hparent⟩ := ih
    obtain ⟨rs, hrs, -, hin⟩ := exists_descendants hparent keyword
    rw [h] at hrs
    cases hrs
    exact ⟨keyword, (hin _ hr).1⟩

/-- The first content line of the text at the end of a region or behind it is not deeper than its
header. -/
theorem IsIn.depth_le_of_find? (h : r.IsIn keyword (Line.ofText t)) {p : Nat × Line}
    (hp : (contentLines t).find? (fun p => r.stop ≤ p.1) = some p) : p.2.depth ≤ r.depth := by
  have hcut : contentLines t = contentFrom 0 (r.before ++ r.header :: r.body) ++
      contentFrom r.stop r.after := by
    have htotal : 0 + Line.total (r.before ++ r.header :: r.body) = r.stop := by
      rw [Line.total_append, Line.total_cons, stop, bodyStart, start]
      omega
    rw [Line.contentLines_eq, ← h.lines_eq, lines, ← htotal, ← Line.contentFrom_append]
    simp
  have hfront : (contentFrom 0 (r.before ++ r.header :: r.body)).find?
      (fun p => r.stop ≤ p.1) = none := by
    rw [List.find?_eq_none]
    intro q hq
    have hlt := (Line.mem_contentFrom_bounds hq).2
    rw [Line.total_append, Line.total_cons] at hlt
    rw [decide_eq_true_eq, stop, bodyStart, start]
    omega
  rw [hcut, List.find?_append, hfront, Option.none_or] at hp
  -- All content lines behind the region start at its end or later, so this is the first of them.
  obtain ⟨-, passed, rest, hbehind, hpassed⟩ := List.find?_eq_some_iff_append.1 hp
  cases passed with
  | cons q passed =>
    have hq : q ∈ contentFrom r.stop r.after := by rw [hbehind]; simp
    have hnot := hpassed q List.mem_cons_self
    have hle := (Line.mem_contentFrom_bounds hq).1
    simp [hle] at hnot
  | nil =>
    have hfirst : r.after.find? Line.isContent = some p.2 := by
      rw [Line.find?_isContent_eq_head?, ← Line.map_snd_contentFrom r.stop, hbehind]
      rfl
    exact h.closes_after p.2 hfirst

/-- The region is what its header opens in the text, with all the lines behind it to look at. -/
structure IsOpenedIn (r : Region) (t keyword : Text) : Prop where
  captured : ∃ rest, Line.ofText t = r.before ++ r.header :: rest ∧
    capture keyword r.before r.header rest [] = .ok r
  ended : ∀ p, (contentLines t).find? (fun p => r.stop ≤ p.1) = some p → p.2.depth ≤ r.depth

theorem IsIn.isOpenedIn (h : r.IsIn keyword (Line.ofText t)) : r.IsOpenedIn t keyword where
  captured := ⟨r.body ++ r.after, h.lines_eq.symm,
    h.capture_eq (List.append_nil _) (Line.closes_nil _)⟩
  ended := fun _ hp => h.depth_le_of_find? hp

/-- The region stands in the body of another one, and deeper. -/
structure StandsIn (r parent : Region) : Prop where
  start_le : parent.bodyStart ≤ r.start
  stop_le : r.stop ≤ parent.stop
  depth_lt : parent.depth < r.depth

theorem Inside.standsIn {parentKey : Text} {ls : List Line} (h : r.Inside parent)
    (hparent : parent.IsIn parentKey ls) (hr : r.IsIn keyword ls) : r.StandsIn parent where
  start_le := h.within_body.1
  stop_le := h.within_body.2
  depth_lt := h.depth_lt hparent hr

/-- **A search inside a region is never refused, and it sees enough**: what it finds stands in the
body of the region, and is what its header opens in the whole text. -/
theorem search_inside_sees_enough (h : Obtained t parent) (keyword : Text) :
    ∃ found among, parent.child keyword = .ok found ∧ parent.descendants keyword = .ok among ∧
      ∀ r, found = some r ∨ r ∈ among → r.StandsIn parent ∧ r.IsOpenedIn t keyword := by
  obtain ⟨parentKey, hparent⟩ := h.isIn
  obtain ⟨found, hchild, hfound⟩ := exists_child hparent keyword
  obtain ⟨among, hdescendants, -, hamong⟩ := exists_descendants hparent keyword
  refine ⟨found, among, hchild, hdescendants, fun r hr => ?_⟩
  have hr' : r.IsIn keyword (Line.ofText t) ∧ r.Inside parent := hr.elim (hfound r) (hamong r)
  exact ⟨hr'.2.standsIn hparent hr'.1, hr'.1.isOpenedIn⟩

namespace SizedVariants

def line (content : String) : Line := ⟨content.toList, ['\n']⟩

/-- What stands between the default and the end of the variants. -/
def between : List Line := [line "    # of two", line "", line "  colour:"]

def variants : Region :=
  ⟨[], line "variants:", "variants".toList, line "  size:" :: line "    default: a" :: between,
    [line "name: x"]⟩

def size : Region :=
  ⟨[line "variants:"], line "  size:", "size".toList, [line "    default: a"],
    between ++ [line "name: x"]⟩

def defaultSize : Region :=
  ⟨[line "variants:", line "  size:"], line "    default: a", "default".toList, [],
    between ++ [line "name: x"]⟩

end SizedVariants

open SizedVariants in
/-- Variants with a size in them, and a default in that. -/
theorem search_inside_sees_enough_sizedVariants :
    Obtained variants.text size ∧ size.child "default".toList = .ok (some defaultSize) ∧
      defaultSize.StandsIn size ∧ defaultSize.IsOpenedIn variants.text "default".toList := by
  have hvariants : Obtained variants.text variants :=
    Obtained.findSection (by decide +kernel : findSection "variants".toList _ = _)
  have hsize : Obtained variants.text size :=
    Obtained.child hvariants (by decide +kernel : variants.child "size".toList = _)
  have hdefault : size.child "default".toList = .ok (some defaultSize) := by decide +kernel
  obtain ⟨found, _, hchild, -, hfound⟩ := search_inside_sees_enough hsize "default".toList
  rw [hdefault] at hchild
  cases hchild
  exact ⟨hsize, hdefault, hfound defaultSize (Or.inl rfl)⟩

end Region
end ThemeRepair
