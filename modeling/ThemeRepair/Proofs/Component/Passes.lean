import ThemeRepair.Proofs.Component.Change

/-!
# The passes of a repair

`Component.Passes` is a run of passes as a relation, with no number of passes allowed: each pass
fixes the first finding with a fix of the scan of the text at hand.  A repair that ends is such a
run, and it ends where a scan finds nothing more to fix (`Component.passes_of_repair`).  From there
nothing happens any more (`Component.repair_of_settled`), so a repair is idempotent, and what it
reports is what a scan of its text says (`Component.repair_reports_fixpoint`).
-/

namespace ThemeRepair
namespace Component

/-- A run of passes from a text to another, with the findings fixed on the way. -/
inductive Passes (w : Nat) (path : String) : Text → List Finding → Text → Prop
  | done (t : Text) : Passes w path t [] t
  | pass {t t' t'' : Text} {f : Finding} {fs : List Finding} (hnext : nextFix? w path t = some f)
      (hfix : f.fix t = .ok t') (hrest : Passes w path t' fs t'') : Passes w path t (f :: fs) t''

variable {w : Nat} {path : String} {t t' : Text} {f : Finding} {o : Outcome}

/-! ## One pass -/

/-- What a pass fixes has a fix, and everything before it in the scan has none. -/
theorem nextFix?_eq_some_iff :
    nextFix? w path t = some f ↔ f.kind.isAutoFixable = true ∧ ∃ before after,
      (scan w path t).findings = before ++ f :: after ∧
        ∀ g ∈ before, g.kind.isAutoFixable = false := by
  simp only [nextFix?, List.find?_eq_some_iff_append, Bool.not_eq_true']

theorem nextFix?_eq_none_iff :
    nextFix? w path t = none ↔
      ∀ g ∈ (scan w path t).findings, g.kind.isAutoFixable = false := by
  simp only [nextFix?, List.find?_eq_none, Bool.not_eq_true]

/-- A pass is a change of the lines. -/
theorem change_of_nextFix? (hnext : nextFix? w path t = some f) (hfix : f.fix t = .ok t') :
    Change w (Line.ofText t) f.kind (Line.ofText t') := by
  obtain ⟨hauto, before, after, hscan, -⟩ := nextFix?_eq_some_iff.1 hnext
  exact change_of_fix (by rw [hscan]; simp) hauto hfix

/-! ## Runs -/

/-- Passes that end are a run to a text with nothing left to fix. -/
theorem passes_of_repairPasses {budget left : Nat}
    (h : repairPasses w path budget left t = .ok o) :
    Passes w path t o.fixed o.text ∧ nextFix? w path o.text = none ∧
      (scan w path o.text).findings = o.manual ∧
      (scan w path o.text).regionErrors = o.regionErrors := by
  -- The induction is on the passes left, and each pass begins from the text of the one before.
  induction left generalizing t o with
  | zero =>
    rw [repairPasses] at h
    split at h
    · next hnone =>
      cases h
      exact ⟨Passes.done t, hnone, rfl, rfl⟩
    · cases h
  | succ left ih =>
    rw [repairPasses] at h
    split at h
    · next hnone =>
      cases h
      exact ⟨Passes.done t, hnone, rfl, rfl⟩
    · next f hnext =>
      cases hfix : f.fix t with
      | error e =>
        rw [hfix] at h
        cases h
      | ok t' =>
        cases hrest : repairPasses w path budget left t' with
        | error e =>
          simp only [hfix, hrest, bind, Except.bind] at h
          cases h
        | ok o' =>
          simp only [hfix, hrest, bind, Except.bind] at h
          cases h
          obtain ⟨hpasses, hsettled⟩ := ih hrest
          exact ⟨Passes.pass hnext hfix hpasses, hsettled⟩

theorem passes_of_repair (h : repair w path t = .ok o) :
    Passes w path t o.fixed o.text ∧ nextFix? w path o.text = none ∧
      (scan w path o.text).findings = o.manual ∧
      (scan w path o.text).regionErrors = o.regionErrors :=
  passes_of_repairPasses h

/-- A text with nothing to fix is its own repair. -/
theorem repair_of_settled (h : nextFix? w path t = none) :
    repair w path t =
      .ok ⟨t, [], (scan w path t).findings, (scan w path t).regionErrors⟩ := by
  rw [repair, repairPasses, h]

/-- What every change of the lines keeps is kept by a run. -/
theorem Passes.preserves {P : List Line → Prop}
    (hchange : ∀ ls kind ls', P ls → Change w ls kind ls' → P ls') {fs : List Finding}
    (h : Passes w path t fs t') (ht : P (Line.ofText t)) : P (Line.ofText t') := by
  induction h with
  | done t => exact ht
  | pass hnext hfix hrest ih => exact ih (hchange _ _ _ ht (change_of_nextFix? hnext hfix))

/-- **A repair ends in a fixpoint.**  Its text is reached by fixing one finding after the other,
always the first one of the scan that has a fix; the scan of its text is what it reports, with
nothing left to fix; and another repair changes nothing. -/
theorem repair_reports_fixpoint (h : repair w path t = .ok o) :
    Passes w path t o.fixed o.text ∧
      (∀ f ∈ (scan w path o.text).findings, f.kind.isAutoFixable = false) ∧
      (scan w path o.text).findings = o.manual ∧
      (scan w path o.text).regionErrors = o.regionErrors ∧
      repair w path o.text = .ok ⟨o.text, [], o.manual, o.regionErrors⟩ := by
  obtain ⟨hpasses, hsettled, hmanual, hrefused⟩ := passes_of_repair h
  have hagain := repair_of_settled hsettled
  rw [hmanual, hrefused] at hagain
  exact ⟨hpasses, nextFix?_eq_none_iff.1 hsettled, hmanual, hrefused, hagain⟩

/-- Two passes: an empty sequence of properties, then one of variants. -/
theorem repair_reports_fixpoint_two_passes :
    repair 2 "card.yml" "properties: []\nvariants: [ ]\n".toList =
        .ok ⟨"properties: {}\nvariants: {}\n".toList,
          [⟨"card.yml", 1, ⟨12, 14⟩, "[]".toList, .emptyCollection none⟩,
            ⟨"card.yml", 2, ⟨25, 28⟩, "[ ]".toList, .sequenceForMapping .variantsRoot⟩], [], []⟩ ∧
      repair 2 "card.yml" "properties: {}\nvariants: {}\n".toList =
        .ok ⟨"properties: {}\nvariants: {}\n".toList, [], [], []⟩ := by
  have hrepair : repair 2 "card.yml" "properties: []\nvariants: [ ]\n".toList =
      .ok ⟨"properties: {}\nvariants: {}\n".toList,
        [⟨"card.yml", 1, ⟨12, 14⟩, "[]".toList, .emptyCollection none⟩,
          ⟨"card.yml", 2, ⟨25, 28⟩, "[ ]".toList, .sequenceForMapping .variantsRoot⟩], [], []⟩ :=
    rfl
  exact ⟨hrepair, (repair_reports_fixpoint hrepair).2.2.2.2⟩

end Component
end ThemeRepair
