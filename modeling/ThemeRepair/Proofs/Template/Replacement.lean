import ThemeRepair.Proofs.Template.Written

/-!
# Replacing the calls of a template

Findings are fixed in the order of their starts (`Finding.sorted_byStart`), and there an overlap is
one of neighbours (`Finding.firstOverlap?_cases`).  Those of a template come in that order, no two
of them beginning at one place (`findCalls_pairwise`).  Where no two of them overlap, all of them are
fixed, and the template that comes out is told by `Replaced`: the stretches between the calls stay
as they are, and each call is replaced by its keyed form (`replaced_of_fixAll`).  Where two overlap,
nothing is fixed, and the later one is refused as stale (`fixAll_findCalls`).
-/

namespace ThemeRepair

/-! ## The order of the starts -/

namespace Finding

theorem perm_byStart (fs : List Finding) : (byStart fs).Perm fs := List.mergeSort_perm _ _

theorem sorted_byStart (fs : List Finding) :
    (byStart fs).Pairwise fun f g => f.span.start ≤ g.span.start := by
  have hsorted : (byStart fs).Pairwise
      fun f g => decide (f.span.start ≤ g.span.start) = true := by
    refine List.pairwise_mergeSort ?_ ?_ _
    · intro f g h hfg hgh
      simp only [decide_eq_true_eq] at *
      omega
    · intro f g
      simp only [Bool.or_eq_true, decide_eq_true_eq]
      omega
  exact hsorted.imp of_decide_eq_true

/-- Findings in the order of their starts follow each other, or one begins inside an earlier
one. -/
theorem firstOverlap?_cases {fs : List Finding}
    (hsorted : fs.Pairwise fun f g => f.span.start ≤ g.span.start) :
    (firstOverlap? fs = none ∧ fs.Pairwise fun f g => f.span.stop ≤ g.span.start) ∨
      ∃ f g, [f, g].Sublist fs ∧ g.span.start < f.span.stop ∧ firstOverlap? fs = some g := by
  induction fs with
  | nil => exact .inl ⟨rfl, .nil⟩
  | cons f fs ih =>
    obtain ⟨-, hsorted⟩ := List.pairwise_cons.1 hsorted
    cases fs with
    | nil => exact .inl ⟨rfl, List.pairwise_singleton _ _⟩
    | cons g fs =>
      rw [firstOverlap?]
      split
      · next hlt => exact .inr ⟨f, g, ((List.nil_sublist fs).cons_cons g).cons_cons f, hlt, rfl⟩
      · next hle =>
        rcases ih hsorted with ⟨hnone, hpair⟩ | ⟨f', g', hsub, hlt, hsome⟩
        · refine .inl ⟨hnone, .cons (fun h hh => ?_) hpair⟩
          have hg : g.span.start ≤ h.span.start := by
            rcases List.mem_cons.1 hh with rfl | hh
            · exact Nat.le_refl _
            · exact (List.pairwise_cons.1 hsorted).1 h hh
          omega
        · exact .inr ⟨f', g', hsub.cons f, hlt, hsome⟩

end Finding

namespace Template

/-! ## Replaced spans -/

/-- A text that begins at an offset, findings in the order of the text, and the text with their
spans replaced. -/
inductive Replaced : (off : Nat) → Text → List Finding → Text → Prop
  | done (off : Nat) (t : Text) : Replaced off t [] t
  | call {off : Nat} {u old t new : Text} {f : Finding} {fs : List Finding} {call : HeadingCall}
      (hspan : f.span = ⟨off + Text.size u, off + Text.size u + Text.size old⟩)
      (hbefore : f.before = old) (hkind : f.kind = .legacyCall call)
      (hrest : Replaced (off + Text.size u + Text.size old) t fs new) :
      Replaced off (u ++ (old ++ t)) (f :: fs) (u ++ (call.replacement ++ new))

namespace Replaced

theorem le_start {off : Nat} {t new : Text} {fs : List Finding} (h : Replaced off t fs new) :
    ∀ f ∈ fs, off ≤ f.span.start := by
  induction h with
  | done off t => simp
  | call hspan hbefore hkind hrest ih =>
    rintro f hf
    rcases List.mem_cons.1 hf with rfl | hf
    · rw [hspan]
      exact Nat.le_add_right _ _
    · have := ih f hf
      omega

/-- Fixing the findings from the last one to the first writes the replaced text. -/
theorem fixBackwards_eq {off : Nat} {t new : Text} {fs : List Finding}
    (h : Replaced off t fs new) (front : Text) (hoff : off = Text.size front) :
    Finding.fixBackwards (front ++ t) fs = .ok (front ++ new) := by
  induction h generalizing front with
  | done off t => rfl
  | @call off u old t new f fs call hspan hbefore hkind hrest ih =>
    have hih := ih (front ++ (u ++ old)) (by simp only [hoff, Text.size_append]; omega)
    have hcuts : f.span.Cuts (front ++ (u ++ (old ++ new))) (front ++ u) old new := by
      rw [hspan, hoff]
      exact ⟨by simp, by simp, by simp⟩
    have hlast : Finding.fix (front ++ (u ++ (old ++ new))) f =
        .ok (front ++ (u ++ (call.replacement ++ new))) := by
      rw [Finding.fix, hbefore, hcuts.expect_eq, hkind]
      show Text.splice _ f.span call.replacement = _
      rw [hcuts.splice_eq]
      simp
    simp only [List.append_assoc] at hih
    show (Finding.fixBackwards (front ++ (u ++ (old ++ t))) fs).bind (fun t => Finding.fix t f) = _
    rw [hih]
    exact hlast

end Replaced

/-- The findings of calls whose stretches follow each other in a text can be replaced. -/
theorem exists_replaced {fs : List Finding} (front t : Text)
    (hcuts : ∀ f ∈ fs, ∃ x behind call, f.span.Cuts (front ++ t) x f.before behind ∧
      f.kind = .legacyCall call)
    (hle : ∀ f ∈ fs, Text.size front ≤ f.span.start)
    (hpair : fs.Pairwise fun f g => f.span.stop ≤ g.span.start) :
    ∃ new, Replaced (Text.size front) t fs new := by
  induction fs generalizing front t with
  | nil => exact ⟨t, .done _ t⟩
  | cons f fs ih =>
    obtain ⟨hfirst, hpair⟩ := List.pairwise_cons.1 hpair
    obtain ⟨x, behind, call, hcut, hkind⟩ := hcuts f List.mem_cons_self
    obtain ⟨u, rfl⟩ : front <+: x := by
      refine Text.prefix_of_size_le ⟨t, rfl⟩ ⟨f.before ++ behind, hcut.text.symm⟩ ?_
      rw [← hcut.start]
      exact hle f List.mem_cons_self
    have ht : t = u ++ (f.before ++ behind) := by
      have := hcut.text
      rwa [List.append_assoc, List.append_cancel_left_eq] at this
    obtain ⟨new, hnew⟩ := ih (front ++ (u ++ f.before)) behind
      (by
        intro g hg
        obtain ⟨y, behind', call', hcut', hkind'⟩ := hcuts g (List.mem_cons_of_mem f hg)
        refine ⟨y, behind', call', ?_, hkind'⟩
        rw [ht] at hcut'
        simpa using hcut')
      (by
        intro g hg
        have := hfirst g hg
        rw [hcut.stop] at this
        simpa [Nat.add_assoc] using this)
      hpair
    have hspan : f.span = ⟨Text.size front + Text.size u,
        Text.size front + Text.size u + Text.size f.before⟩ := by
      rw [← Text.size_append, ← hcut.stop, ← hcut.start]
    have hrest : Replaced (Text.size front + Text.size u + Text.size f.before) behind fs new := by
      simpa [Nat.add_assoc] using hnew
    rw [ht]
    exact ⟨_, Replaced.call hspan rfl hkind hrest⟩

/-! ## The order of the findings -/

section Order

variable {settings : Settings.Headings} {path : String} {t : Text}

/-- A finding of a template names a stretch of it. -/
theorem exists_cuts_of_mem_findCalls {f : Finding} (h : f ∈ findCalls settings path t) :
    ∃ x behind call, f.span.Cuts t x f.before behind ∧ f.kind = .legacyCall call := by
  obtain ⟨w, x, behind, n, rfl, -, -, rfl⟩ := mem_findCalls_iff.1 h
  refine ⟨x, behind, _, ?_, rfl⟩
  rw [w.finding_before]
  exact w.cuts x behind

/-- Heads of different styles do not begin at one place. -/
theorem start_ne_of_mem_headsFrom {ns : Text} {g h : FoundHead}
    (hg : g ∈ headsFrom ns .expression 0 0 t) (hh : h ∈ headsFrom ns .statement 0 0 t) :
    g.start ≠ h.start := by
  obtain ⟨x, u, hx, hu, hgs⟩ := exists_headText_of_mem_headsFrom hg
  obtain ⟨y, v, hy, hv, hhs⟩ := exists_headText_of_mem_headsFrom hh
  intro heq
  obtain rfl : x = y :=
    Text.eq_of_size_eq ⟨u ++ g.rest, hx.symm⟩ ⟨v ++ h.rest, hy.symm⟩ (by omega)
  rw [hx, List.append_cancel_left_eq] at hy
  have := (hu.unique hv hy).1
  cases this

/-- The findings are in the order of the text, each at a place of its own. -/
theorem findCalls_pairwise :
    (findCalls settings path t).Pairwise fun f g => f.span.start < g.span.start := by
  have hspan {c : FoundCall} {f : Finding} (hf : finding? settings path t c = some f) :
      f.span = c.span := by
    obtain ⟨call, -, rfl⟩ := Option.map_eq_some_iff.1 hf
    rfl
  have hstart {style : CallStyle} {h : FoundHead} {c : FoundCall}
      (hc : h.complete? style t = some c) : c.span.start = h.start := by
    simp only [FoundHead.complete?, Option.bind_eq_bind, Option.bind_eq_some_iff, Prod.exists,
      Option.pure_def, Option.some.injEq] at hc
    obtain ⟨body, behind, -, tail, rest, -, rfl⟩ := hc
    rfl
  have hstyle (style : CallStyle) : (callsOfStyle settings.legacyNamespace style t).Pairwise
      fun c d => c.span.start ≠ d.span.start := by
    refine List.Pairwise.filterMap _ (fun g h hlt c hc d hd => ?_) (headsFrom_pairwise 0 0 t)
    rw [hstart hc, hstart hd]
    exact hlt.ne
  have hboth : (callsByStyle settings.legacyNamespace t).Pairwise
      fun c d => c.span.start ≠ d.span.start := by
    refine List.pairwise_append.2 ⟨hstyle _, hstyle _, fun c hc d hd => ?_⟩
    obtain ⟨g, hg, hgc⟩ := List.mem_filterMap.1 hc
    obtain ⟨h, hh, hhd⟩ := List.mem_filterMap.1 hd
    rw [hstart hgc, hstart hhd]
    exact start_ne_of_mem_headsFrom hg hh
  have hfound : ((callsByStyle settings.legacyNamespace t).filterMap
      (finding? settings path t)).Pairwise fun f g => f.span.start ≠ g.span.start := by
    refine List.Pairwise.filterMap _ (fun c d hne f hf g hg => ?_) hboth
    rw [hspan hf, hspan hg]
    exact hne
  have hne : (findCalls settings path t).Pairwise fun f g => f.span.start ≠ g.span.start :=
    ((Finding.perm_byStart _).pairwise_iff fun h => h.symm).2 hfound
  exact ((Finding.sorted_byStart _).and hne).imp fun h => Nat.lt_of_le_of_ne h.1 h.2

/-- Findings in the order of the text are their own sorted list. -/
theorem byStart_findCalls :
    Finding.byStart (findCalls settings path t) = findCalls settings path t := by
  refine List.mergeSort_of_pairwise (findCalls_pairwise.imp fun h => ?_)
  simp only [decide_eq_true_eq]
  omega

end Order

/-! ## Fixing all findings -/

section FixAll

variable {settings : Settings.Headings} {t : Text}

/-- The findings of a template are all fixed if they follow each other; else one that begins inside
another is refused as stale. -/
theorem fixAll_findCalls (path : String) :
    ((findCalls settings path t).Pairwise (fun f g => f.span.stop ≤ g.span.start) ∧
      ∃ new, Replaced 0 t (findCalls settings path t) new ∧
        Finding.fixAll t (findCalls settings path t) = .ok new) ∨
    ∃ f ∈ findCalls settings path t, ∃ g ∈ findCalls settings path t,
      f.span.start < g.span.start ∧ g.span.start < f.span.stop ∧
      Finding.fixAll t (findCalls settings path t) = .error (.stale g.span g.before) := by
  have hstart : (findCalls settings path t).Pairwise fun f g => f.span.start < g.span.start :=
    findCalls_pairwise
  rw [Finding.fixAll, byStart_findCalls]
  rcases Finding.firstOverlap?_cases (hstart.imp Nat.le_of_lt) with
    ⟨hnone, hpair⟩ | ⟨f, g, hsub, hstop, hsome⟩
  · obtain ⟨new, hnew⟩ := exists_replaced [] t
      (fun f hf => exists_cuts_of_mem_findCalls hf) (fun f _ => Nat.zero_le _) hpair
    refine .inl ⟨hpair, new, hnew, ?_⟩
    rw [hnone]
    exact hnew.fixBackwards_eq [] rfl
  · have hlt := (List.pairwise_cons.1 (hstart.sublist hsub)).1 g List.mem_cons_self
    refine .inr ⟨f, hsub.subset (by simp), g, hsub.subset (by simp), hlt, hstop, ?_⟩
    rw [hsome]

/-- What comes out of a template that is rewritten. -/
theorem replaced_of_fixAll (path : String) {out : Text}
    (h : Finding.fixAll t (findCalls settings path t) = .ok out) :
    Replaced 0 t (findCalls settings path t) out ∧
      (findCalls settings path t).Pairwise (fun f g => f.span.stop ≤ g.span.start) := by
  rcases fixAll_findCalls (t := t) path with ⟨hpair, new, hnew, hok⟩ | ⟨f, -, g, -, -, -, herr⟩
  · rw [hok] at h
    cases h
    exact ⟨hnew, hpair⟩
  · rw [herr] at h
    cases h

end FixAll

end Template
end ThemeRepair
