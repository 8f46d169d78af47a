import ThemeRepair.Proofs.Component.Passes

/-!
# Fixes that are refused

A finding of a scan holds what stands at its span, so the fix of the same text finds it there.  One
fix looks at a second span: where a property in conflict is the only one, its header is to get an
empty mapping, and that is refused where the header has a value already.  No other fix of a fresh
finding is refused (`Component.exists_fix_iff`).

A repair fixes fresh findings only.  So it is given up for want of passes, or it has come to such a
header (`Component.repair_refused_only_at_collapse`).
-/

namespace ThemeRepair
namespace Component

variable {w : Nat} {path : String} {t : Text} {f : Finding} {r : Region} {e : FixError}

/-- A header without a value is blank behind the colon. -/
theorem isAllWhite_slice_valueSpan
    (hr : (Sections.ofLines (Line.ofText t)).properties = .ok (some r)) :
    Text.isAllWhite (Text.slice t r.valueSpan) = r.isBlock := by
  have hin := isIn_of_properties hr
  have hcuts := Region.cuts_valueSpan hin.hasKey
  rw [text_of_isIn hin] at hcuts
  rw [hcuts.slice_eq, Bool.eq_iff_iff, Region.isBlock_iff]

/-- A fresh finding is fixed unless its fix would write an empty mapping over a value. -/
theorem exists_fix_iff (hmem : f ∈ (scan w path t).findings)
    (hauto : f.kind.isAutoFixable = true) :
    (∃ t', f.fix t = .ok t') ↔ ∀ name header, f.kind = .nameConflict name (some header) →
      Text.isAllWhite (Text.slice t header) = true := by
  constructor
  · rintro ⟨t', hfix⟩ name header hkind
    have hchange := change_of_fix hmem hauto hfix
    rw [hkind] at hchange
    generalize Line.ofText t' = ls' at hchange
    cases hchange with
    | collapsed hr _ _ _ _ hblock => rw [isAllWhite_slice_valueSpan hr, hblock]
  · intro hblank
    rcases fix_cases hmem hauto with ⟨t', hfix, -⟩ | ⟨r, name, hr, hkind, hblock, -, -⟩
    · exact ⟨t', hfix⟩
    · have hvalue := hblank name r.valueSpan hkind
      rw [isAllWhite_slice_valueSpan hr, hblock] at hvalue
      cases hvalue

/-- What a refusal says of the finding. -/
theorem kind_of_fix_eq_error (hmem : f ∈ (scan w path t).findings)
    (hauto : f.kind.isAutoFixable = true) (hfix : f.fix t = .error e) :
    ∃ name header, f.kind = .nameConflict name (some header) ∧
      Text.isAllWhite (Text.slice t header) = false ∧ e = .stale header [] := by
  rcases fix_cases hmem hauto with ⟨t', hfix', -⟩ | ⟨r, name, hr, hkind, hblock, -, hstale⟩
  · rw [hfix] at hfix'
    cases hfix'
  · rw [hfix] at hstale
    refine ⟨name, r.valueSpan, hkind, ?_, Except.error.inj hstale⟩
    rw [isAllWhite_slice_valueSpan hr, hblock]

/-- A finding that a pass fixes is one of the scan. -/
theorem mem_of_nextFix? (h : nextFix? w path t = some f) :
    f ∈ (scan w path t).findings ∧ f.kind.isAutoFixable = true := by
  obtain ⟨hauto, before, after, hscan, -⟩ := nextFix?_eq_some_iff.1 h
  exact ⟨by rw [hscan]; simp, hauto⟩

/-- Passes that are given up have run out with something left to fix, or have come to a fix that is
refused. -/
theorem cases_of_repairPasses_eq_error {budget left : Nat}
    (h : repairPasses w path budget left t = .error e) :
    ∃ fs t' f, Passes w path t fs t' ∧ nextFix? w path t' = some f ∧
      (fs.length = left ∧ e = .noConvergence budget ∨ f.fix t' = .error e) := by
  induction left generalizing t with
  | zero =>
    rw [repairPasses] at h
    split at h
    · cases h
    · next f hnext =>
      exact ⟨[], t, f, Passes.done t, hnext, Or.inl ⟨rfl, (Except.error.inj h).symm⟩⟩
  | succ left ih =>
    rw [repairPasses] at h
    split at h
    · cases h
    · next f hnext =>
      cases hfix : f.fix t with
      | error e' =>
        rw [hfix] at h
        cases h
        exact ⟨[], t, f, Passes.done t, hnext, Or.inr hfix⟩
      | ok t' =>
        cases hrest : repairPasses w path budget left t' with
        | ok o =>
          simp only [hfix, hrest, bind, Except.bind] at h
          cases h
        | error e' =>
          simp only [hfix, hrest, bind, Except.bind] at h
          cases h
          obtain ⟨fs, t'', g, hpasses, hnext', hend⟩ := ih hrest
          refine ⟨f :: fs, t'', g, Passes.pass hnext hfix hpasses, hnext', hend.imp_left ?_⟩
          rintro ⟨hlength, he⟩
          exact ⟨by rw [List.length_cons, hlength], he⟩

/-- **A fresh finding is refused only where a collapse meets a value.**  The fix of a finding of a
scan goes through exactly if the header that it would collapse, if any, is blank behind the colon.
A repair ends in a result, or runs out of passes, or comes by its passes to a text whose next fix
is refused for such a header. -/
theorem repair_refused_only_at_collapse (w : Nat) (path : String) (t : Text) :
    (∀ f ∈ (scan w path t).findings, f.kind.isAutoFixable = true →
      ((∃ t', f.fix t = .ok t') ↔ ∀ name header, f.kind = .nameConflict name (some header) →
        Text.isAllWhite (Text.slice t header) = true)) ∧
      ∀ e, repair w path t = .error e →
        e = .noConvergence ((scan w path t).findings.length + passSlack) ∨
          ∃ fs t' f name header, Passes w path t fs t' ∧ nextFix? w path t' = some f ∧
            f.kind = .nameConflict name (some header) ∧
            Text.isAllWhite (Text.slice t' header) = false ∧ e = .stale header [] := by
  refine ⟨fun f hmem hauto => exists_fix_iff hmem hauto, fun e hrepair => ?_⟩
  obtain ⟨fs, t', f, hpasses, hnext, ⟨-, hbudget⟩ | hrefused⟩ :=
    cases_of_repairPasses_eq_error hrepair
  · exact Or.inl hbudget
  · obtain ⟨hmem, hauto⟩ := mem_of_nextFix? hnext
    obtain ⟨name, header, hkind, hvalue, he⟩ := kind_of_fix_eq_error hmem hauto hrefused
    exact Or.inr ⟨fs, t', f, name, header, hpasses, hnext, hkind, hvalue, he⟩

/-- The only property of an empty mapping is refused, and one below a bare header is not. -/
theorem repair_refused_only_at_collapse_of_each :
    (∃ t', (⟨"card.yml", 2, ⟨12, 19⟩, "  a: x\n".toList,
        .nameConflict "a".toList (some ⟨11, 11⟩)⟩ : Finding).fix
          "properties:\n  a: x\nslots:\n  a: z\n".toList = .ok t') ∧
      ∃ fs t' f name header,
        Passes 2 "card.yml" "properties: {}\n  a: x\nslots:\n  a: z\n".toList fs t' ∧
          nextFix? 2 "card.yml" t' = some f ∧ f.kind = .nameConflict name (some header) ∧
          Text.isAllWhite (Text.slice t' header) = false ∧
          (FixError.stale ⟨11, 14⟩ [] : FixError) = .stale header [] := by
  have hmem : (⟨"card.yml", 2, ⟨12, 19⟩, "  a: x\n".toList,
      .nameConflict "a".toList (some ⟨11, 11⟩)⟩ : Finding) ∈
      (scan 2 "card.yml" "properties:\n  a: x\nslots:\n  a: z\n".toList).findings :=
    List.mem_cons_self
  have hrepair : repair 2 "card.yml" "properties: {}\n  a: x\nslots:\n  a: z\n".toList =
      .error (.stale ⟨11, 14⟩ []) := rfl
  refine ⟨((repair_refused_only_at_collapse _ _ _).1 _ hmem rfl).2 ?_, ?_⟩
  · rintro name header hkind
    cases hkind
    rfl
  · rcases (repair_refused_only_at_collapse _ _ _).2 _ hrepair with hbudget | hcollapse
    · cases hbudget
    · exact hcollapse

/-- An anchor on the header is a value.  The only property below it is in conflict, and its fix is
refused as stale in the very text of the scan, and with it the whole repair. -/
theorem fix_refuses_fresh_collapse :
    ∃ f ∈ (scan 2 "card.yml" "properties: &p\n  a: x\nslots:\n  a: z\n".toList).findings,
      f.kind.isAutoFixable = true ∧
        f.fix "properties: &p\n  a: x\nslots:\n  a: z\n".toList = .error (.stale ⟨11, 14⟩ []) ∧
        repair 2 "card.yml" "properties: &p\n  a: x\nslots:\n  a: z\n".toList =
          .error (.stale ⟨11, 14⟩ []) :=
  ⟨⟨"card.yml", 2, ⟨15, 22⟩, "  a: x\n".toList, .nameConflict "a".toList (some ⟨11, 14⟩)⟩,
    List.mem_cons_self, rfl, rfl, rfl⟩

end Component
end ThemeRepair
