import ThemeRepair.Proofs.Component.Rewriting
import ThemeRepair.Proofs.Region.Apart

/-!
# Slots and resolved conflicts

The fix of a conflict writes into the properties: it takes a block of their body away, and may write
a mapping on their header (`Component.exists_conflict_of_mem`).  So the slots are left alone where
they and the properties are two stretches of the text, and there they are found again with the same
text (`Component.exists_section_of_separate`).

Below props they always are.  Without props the properties are the first ones anywhere, and those
may be in the body of the slots: `Component.resolution_keeps_slots` says that nothing but this takes
a fix into the slots.
-/

namespace ThemeRepair
namespace Component

open Line (below nested Closes opened opensSection)
open Declaration (eraseBlock)

variable {w : Nat} {path : String} {t : Text} {f : Finding} {name : Text} {collapse : Option Span}
  {ls : List Line} {r : Region} {header : Line} {body : List Line}

/-! ## Where a conflict is fixed -/

/-- A conflict is found by its own check. -/
theorem mem_conflictDefects (hmem : f ∈ (scan w path t).findings)
    (hkind : f.kind = .nameConflict name collapse) :
    (f.span, f.kind) ∈ conflictDefects w (Sections.ofLines (Line.ofText t)) := by
  obtain ⟨d, hd, rfl⟩ := List.mem_map.1 hmem
  have hkind' : d.2 = .nameConflict name collapse := hkind
  rcases List.mem_append.1 hd with hd | hd
  · rcases List.mem_append.1 hd with hd | hd
    · obtain ⟨realign, hd⟩ := kind_of_mem_propertiesDefects hd
      rw [hkind'] at hd
      cases hd
    · obtain ⟨target, hd⟩ := kind_of_mem_variantsDefects hd
      rw [hkind'] at hd
      cases hd
  · exact hd

/-- The span of a conflict is a block of the body. -/
theorem span_of_mem_nameConflicts {slots : Region} {depth : Nat} {span : Span} {kind : FindingKind}
    (h : (span, kind) ∈ nameConflicts w depth r slots) :
    span.Within r.span ∧ span.start < span.stop := by
  obtain ⟨d, hd, heq⟩ := List.mem_map.1 h
  obtain ⟨rfl, -⟩ := Prod.mk.inj heq
  obtain ⟨above, l, rest, htake, -, hl, hspan⟩ := exists_first_of_mem_firstTaken _ _ _ hd
  have hpos := Line.size_pos_of_isContent (l := l) (by
    simp only [Line.declaresAt, Bool.and_eq_true] at hl
    exact hl.1.1)
  have hreach := Line.total_le_of_isPrefix
    (List.takeWhile_prefix (Line.reaches depth) (l := r.body))
  have hnested := Line.total_le_of_isPrefix (Line.isPrefix_nested depth rest)
  rw [show r.body.takeWhile (Line.reaches depth) = above ++ l :: rest from htake,
    Line.total_append, Line.total_cons] at hreach
  rw [hspan, Region.span, Span.Within, Region.stop, Region.bodyStart]
  simp only
  omega

/-- A conflict has properties and slots, its block is inside the properties, and so is the value
that it collapses. -/
theorem exists_conflict_of_mem (hmem : f ∈ (scan w path t).findings)
    (hkind : f.kind = .nameConflict name collapse) :
    ∃ r slots, (Sections.ofLines (Line.ofText t)).properties = .ok (some r) ∧
      (Sections.ofLines (Line.ofText t)).slots = .ok (some slots) ∧
      f.span.Within r.span ∧ f.span.start < f.span.stop ∧
      ∀ value ∈ collapse, value.Within r.span := by
  have hdefect := mem_conflictDefects hmem hkind
  rw [conflictDefects] at hdefect
  split at hdefect
  · next r slots hr hslots =>
    rw [found_eq_some_iff] at hr hslots
    obtain ⟨hwithin, hne⟩ := span_of_mem_nameConflicts hdefect
    refine ⟨r, slots, hr, hslots, hwithin, hne, fun value hvalue => ?_⟩
    obtain ⟨d, -, heq⟩ := List.mem_map.1 hdefect
    have hkind' := (Prod.mk.inj heq).2.trans hkind
    have hcollapse := (FindingKind.nameConflict.inj hkind').2
    rw [Option.mem_def, ← hcollapse] at hvalue
    split at hvalue
    · rw [← Option.some.inj hvalue]
      exact Region.valueSpan_within (isIn_of_properties hr).hasKey
    · cases hvalue
  · cases hdefect

/-- The fix of a conflict rewrites the properties with lines of their own. -/
theorem rewrites_of_nameConflict {t' : Text} (hmem : f ∈ (scan w path t).findings)
    (hkind : f.kind = .nameConflict name collapse) (hfix : f.fix t = .ok t')
    (hr : (Sections.ofLines (Line.ofText t)).properties = .ok (some r)) :
    ∃ header body, Rewrites r header body ∧ (∀ l ∈ body, below 0 l = true) ∧
      Line.ofText t' = rewritten r header body := by
  have hin := isIn_of_properties hr
  have hchange := change_of_fix hmem (by rw [hkind]; rfl) hfix
  rw [hkind] at hchange
  generalize Line.ofText t' = ls' at hchange ⊢
  cases hchange with
  | removed hr' hslots htaken hname hmany =>
    obtain rfl := Option.some.inj (Except.ok.inj (hr.symm.trans hr'))
    exact ⟨_, _, rewrites_eraseBlock hin _ name,
      below_zero_of_sublist hin (Declaration.sublist_eraseBlock _ _ _), rfl⟩
  | collapsed hr' hslots htaken hname hone hblock =>
    obtain rfl := Option.some.inj (Except.ok.inj (hr.symm.trans hr'))
    have hsub := Declaration.sublist_eraseBlock (declaredDepth w (Line.ofText t) r) name r.body
    exact ⟨_, _, rewrites_mapped hin (Or.inl hblock) hsub, below_zero_of_sublist hin hsub, rfl⟩

/-! ## Sections apart from the properties -/

/-- Lines close a depth by the first content line, whatever follows it. -/
theorem closes_of_header {depth : Nat} {between rest rest' : List Line} {a b : Line}
    (ha : a.isContent = true) (hb : b.isContent = true) (hdepth : b.depth = a.depth)
    (h : Closes depth (between ++ a :: rest)) : Closes depth (between ++ b :: rest') := by
  intro l hl
  rw [List.find?_append, List.find?_cons_of_pos hb] at hl
  cases hfind : between.find? Line.isContent with
  | some m =>
    rw [hfind, Option.some_or] at hl
    exact h l (by rw [List.find?_append, hfind, Option.some_or, ← hl])
  | none =>
    rw [hfind, Option.none_or] at hl
    rw [← Option.some.inj hl, hdepth]
    exact h a (by rw [List.find?_append, hfind, Option.none_or, List.find?_cons_of_pos ha])

/-- A section in front of the properties, or behind them, is found again as it was. -/
theorem exists_section_of_separate {keyword : Text} {s : Region}
    (hin : r.IsIn "properties".toList ls) (h : Rewrites r header body)
    (hkeyword : keyword ≠ "properties".toList) (hbelow : ∀ l ∈ body, below 0 l = true)
    (hs : Region.findSection keyword ls = .ok (some s))
    (hseparate : r.Precedes s ∨ s.Precedes r) :
    ∃ s', Region.findSection keyword (rewritten r header body) = .ok (some s') ∧
      s'.header = s.header ∧ s'.body = s.body := by
  obtain ⟨hsin, hzero, hfirst⟩ := Region.isIn_of_findSection hs
  have hopens := Region.opensSection_header hs
  have hfirst' : ∀ l ∈ s.before, opensSection keyword l = false := hfirst
  have hopened : opened (opensSection keyword) (rewritten r header body) =
      some (s.header, s.body) := by
    rcases hseparate with ⟨between, hbefore, hafter⟩ | ⟨between, hbefore, hafter⟩
    · -- Nothing that is new in front of the section opens one of its key.
      rw [hbefore] at hfirst'
      simp only [List.forall_mem_append, List.forall_mem_cons] at hfirst'
      obtain ⟨hrbefore, -, -, hbetween⟩ := hfirst'
      have hlines : rewritten r header body =
          (r.before ++ header :: (body ++ between)) ++ s.header :: (s.body ++ s.after) := by
        rw [rewritten, hafter]
        simp
      rw [hlines, Line.opened_append_cons _ hopens]
      · exact congrArg some (Prod.ext rfl hsin.body_eq.symm)
      · simp only [List.forall_mem_append, List.forall_mem_cons]
        exact ⟨hrbefore, h.opensSection_eq hkeyword,
          fun l hl => Line.opensSection_of_below (hbelow l hl), hbetween⟩
    · -- The section ends where it ended, at the first content line behind it.
      have hlines : rewritten r header body =
          s.before ++ s.header :: (s.body ++ (between ++ header :: (body ++ r.after))) := by
        rw [rewritten, hbefore]
        simp
      have hclose := hsin.closes_after
      rw [hafter] at hclose
      have hclose' : Closes s.depth (between ++ header :: (body ++ r.after)) :=
        closes_of_header hin.isContent_header h.isContent h.depth_eq hclose
      rw [hlines, Line.opened_append_cons hfirst' hopens]
      refine congrArg some (Prod.ext rfl ?_)
      exact (Line.nested_append_of_closes hclose').trans hsin.nested_body
  exact Region.exists_of_opened hopened hsin.unmixed [] []

/-! ## The slots -/

/-- Properties and slots are two stretches of the text, or the properties are in the slots, and then
there are no props. -/
theorem separate_or_inside {slots : Region}
    (hr : (Sections.ofLines ls).properties = .ok (some r))
    (hslots : (Sections.ofLines ls).slots = .ok (some slots)) :
    (r.Precedes slots ∨ slots.Precedes r) ∨
      r.Inside slots ∧ (Sections.ofLines ls).props = .ok none := by
  have hin := isIn_of_properties hr
  obtain ⟨hsin, hzero, -⟩ := Region.isIn_of_findSection hslots
  rcases Region.precedes_or_inside hin hsin (by decide) with hseparate | hinside | hinside
  · exact Or.inl hseparate
  · refine Or.inr ⟨hinside, ?_⟩
    rcases properties_cases hr with ⟨hnone, -⟩ | ⟨props, hprops, hchild⟩
    · exact hnone
    · -- Properties below props are in the props, and those are apart from the slots.
      obtain ⟨hpin, hpzero, -⟩ := isIn_of_props hprops
      have hwithin := (Region.inside_of_child hpin hchild).within
      have hapart : props.span.Apart slots.span := by
        rcases Region.precedes_or_inside hpin hsin (by decide) with
          (hprecedes | hprecedes) | hpinside | hsinside
        · exact hprecedes.apart
        · exact hprecedes.apart.symm
        · exact absurd hpinside (hsin.not_inside_of_section hpin hpzero)
        · exact absurd hsinside (hpin.not_inside_of_section hsin hzero)
      exact absurd (hwithin.apart hapart) (hinside.within.not_apart hin.start_lt_stop)
  · exact absurd hinside (hin.not_inside_of_section hsin hzero)

/-- **A resolved conflict leaves the slots alone, unless the properties are in them.**  The block
that goes and the value that gives way to a mapping are apart from the slots, and the next scan
finds the slots with the same text, exactly where the properties are no part of the slots.  They can
be one only in a document without props, and then the block that goes is part of the slots. -/
theorem resolution_keeps_slots (hmem : f ∈ (scan w path t).findings)
    (hkind : f.kind = .nameConflict name collapse) :
    ∃ r slots, (Sections.ofLines (Line.ofText t)).properties = .ok (some r) ∧
      (Sections.ofLines (Line.ofText t)).slots = .ok (some slots) ∧
      (f.span.Apart slots.span ↔ ¬ r.span.Within slots.span) ∧
      (¬ r.span.Within slots.span →
        (∀ value ∈ collapse, value.Apart slots.span) ∧
          ∀ t', f.fix t = .ok t' →
            ∃ slots', (Sections.ofLines (Line.ofText t')).slots = .ok (some slots') ∧
              slots'.raw = slots.raw) ∧
      (r.span.Within slots.span →
        (Sections.ofLines (Line.ofText t)).props = .ok none ∧ f.span.Within slots.span) := by
  obtain ⟨r, slots, hr, hslots, hwithin, hne, hvalue⟩ := exists_conflict_of_mem hmem hkind
  have hin := isIn_of_properties hr
  refine ⟨r, slots, hr, hslots, ?_⟩
  rcases separate_or_inside hr hslots with hseparate | ⟨hinside, hnone⟩
  · have hapart : r.span.Apart slots.span :=
      hseparate.elim Region.Precedes.apart fun h => h.apart.symm
    have hnot : ¬ r.span.Within slots.span := fun h => h.not_apart hin.start_lt_stop hapart
    refine ⟨iff_of_true (hwithin.apart hapart) hnot, fun _ => ⟨fun value h =>
      (hvalue value h).apart hapart, fun t' hfix => ?_⟩, fun h => absurd h hnot⟩
    obtain ⟨header, body, hrewrites, hbelow, hlines⟩ :=
      rewrites_of_nameConflict hmem hkind hfix hr
    rw [hlines]
    obtain ⟨slots', hslots', -, hbody⟩ :=
      exists_section_of_separate hin hrewrites (by decide) hbelow hslots hseparate
    exact ⟨slots', hslots', by rw [Region.raw, hbody]; rfl⟩
  · have hpart := hinside.within
    exact ⟨iff_of_false ((hwithin.trans hpart).not_apart hne) fun h => h hpart,
      fun h => absurd hpart h, fun _ => ⟨hnone, hwithin.trans hpart⟩⟩

/-- Slots in front of the properties. -/
theorem resolution_keeps_slots_in_front :
    ∃ slots slots' : Region, (Sections.ofLines (Line.ofText
        "slots:\n  a: z\nprops:\n  properties:\n    a: x\n    b: y\n".toList)).slots =
          .ok (some slots) ∧
      (Sections.ofLines (Line.ofText
        "slots:\n  a: z\nprops:\n  properties:\n    b: y\n".toList)).slots =
          .ok (some slots') ∧ slots'.raw = slots.raw := by
  have hmem : (⟨"card.yml", 5, ⟨35, 44⟩, "    a: x\n".toList,
      .nameConflict "a".toList none⟩ : Finding) ∈ (scan 2 "card.yml"
        "slots:\n  a: z\nprops:\n  properties:\n    a: x\n    b: y\n".toList).findings :=
    List.mem_cons_self
  obtain ⟨r, slots, hr, hslots, -, hkeeps, hinside⟩ := resolution_keeps_slots hmem rfl
  have hnot : ¬ r.span.Within slots.span := fun h => by
    cases (hinside h).1
  obtain ⟨slots', hslots', hraw⟩ := (hkeeps hnot).2
    "slots:\n  a: z\nprops:\n  properties:\n    b: y\n".toList rfl
  exact ⟨slots, slots', hslots, hslots', hraw⟩

/-- A slot with a key of properties is taken for the properties of a document without props, and
loses what has the name of another slot. -/
theorem fix_removes_block_of_slots :
    ∃ f ∈ (scan 2 "card.yml"
        "slots:\n  properties:\n    a: x\n    b: y\n  a: z\n".toList).findings,
      f.kind = .nameConflict "a".toList none ∧
        f.fix "slots:\n  properties:\n    a: x\n    b: y\n  a: z\n".toList =
          .ok "slots:\n  properties:\n    b: y\n  a: z\n".toList ∧
        ∃ slots slots' : Region, (Sections.ofLines (Line.ofText
            "slots:\n  properties:\n    a: x\n    b: y\n  a: z\n".toList)).slots =
              .ok (some slots) ∧
          (Sections.ofLines (Line.ofText
            "slots:\n  properties:\n    b: y\n  a: z\n".toList)).slots = .ok (some slots') ∧
          f.span.Within slots.span ∧ slots'.raw ≠ slots.raw :=
  ⟨⟨"card.yml", 3, ⟨21, 30⟩, "    a: x\n".toList, .nameConflict "a".toList none⟩,
    List.mem_cons_self, rfl, rfl,
    ⟨[], ⟨"slots:".toList, ['\n']⟩, "slots".toList, [⟨"  properties:".toList, ['\n']⟩,
      ⟨"    a: x".toList, ['\n']⟩, ⟨"    b: y".toList, ['\n']⟩, ⟨"  a: z".toList, ['\n']⟩], []⟩,
    ⟨[], ⟨"slots:".toList, ['\n']⟩, "slots".toList, [⟨"  properties:".toList, ['\n']⟩,
      ⟨"    b: y".toList, ['\n']⟩, ⟨"  a: z".toList, ['\n']⟩], []⟩,
    rfl, rfl, by decide, by decide⟩

end Component
end ThemeRepair
