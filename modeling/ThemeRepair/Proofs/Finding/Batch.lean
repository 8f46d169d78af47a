import ThemeRepair.Proofs.Finding.Diff
import ThemeRepair.Proofs.Region.Apart

/-!
# Fixing many calls at once

Findings of calls are fixed from the last one to the first, each in a text that is not the old one
any more.  Still the outcome is that of one edit.  What is fixed already stands behind the span that
is looked at, and a span is read in what stands before its end
(`Finding.slice?_of_replaced`), so that each finding is compared with the old text
(`Finding.fixBackwards_cases`).

Overlaps are looked for between neighbours in the order of the starts.  That is enough where no
span is empty: then neighbours follow each other exactly if no two spans have a byte in common
(`Finding.pairwise_byStart_iff`), which says nothing of an order, and there is only one order to
fix the findings in (`Finding.byStart_congr`).
-/

namespace ThemeRepair
namespace Finding

open Template (Replaced mem_byStart_iff)

variable {t : Text} {fs gs : List Finding}

/-! ## Back to front -/

/-- A span in front of all that is replaced holds in the new text what it holds in the old one. -/
theorem slice?_of_replaced {s : Span} {new : Text} (h : Replaced 0 t fs new)
    (hs : ∀ f ∈ fs, s.stop ≤ f.span.start) : Text.slice? new s = Text.slice? t s := by
  cases h with
  | done => rfl
  | @call _ u old t new f fs call hspan hbefore hkind hrest =>
    have hle : s.stop ≤ Text.size u := by
      have := hs f List.mem_cons_self
      rwa [hspan, Nat.zero_add] at this
    exact Text.slice?_append_congr hle

/-- Of findings that follow each other, each is compared with the text as it was at first: all of
them are replaced, or one of them does not stand there. -/
theorem fixBackwards_cases (t : Text) (hcalls : ∀ f ∈ fs, ∃ call, f.kind = .legacyCall call)
    (hpair : fs.Pairwise fun f g => f.span.stop ≤ g.span.start) :
    ((∀ f ∈ fs, Text.slice? t f.span = some f.before) ∧
        ∃ out, Replaced 0 t fs out ∧ fixBackwards t fs = .ok out) ∨
      ∃ f ∈ fs, Text.slice? t f.span ≠ some f.before ∧
        fixBackwards t fs = .error (.stale f.span f.before) := by
  induction fs with
  | nil => exact .inl ⟨by simp, t, Replaced.done 0 t, rfl⟩
  | cons f fs ih =>
    obtain ⟨hfirst, hrest⟩ := List.pairwise_cons.1 hpair
    have hstep : fixBackwards t (f :: fs) = (fixBackwards t fs).bind fun u => fix u f := rfl
    rcases ih (fun g hg => hcalls g (List.mem_cons_of_mem f hg)) hrest with
      ⟨hheld, u, hu, hbehind⟩ | ⟨g, hg, hstale, hbehind⟩
    · by_cases hslice : Text.slice? t f.span = some f.before
      · have hall : ∀ g ∈ f :: fs, Text.slice? t g.span = some g.before :=
          List.forall_mem_cons.2 ⟨hslice, hheld⟩
        have hcuts : ∀ g ∈ f :: fs, ∃ x behind call,
            g.span.Cuts ([] ++ t) x g.before behind ∧ g.kind = .legacyCall call := by
          intro g hg
          obtain ⟨x, behind, hcut⟩ := Span.Cuts.slice?_eq_some_iff.1 (hall g hg)
          obtain ⟨call, hkind⟩ := hcalls g hg
          exact ⟨x, behind, call, hcut, hkind⟩
        obtain ⟨out, hout⟩ := Template.exists_replaced [] t hcuts (fun g _ => Nat.zero_le _) hpair
        exact .inl ⟨hall, out, hout, hout.fixBackwards_eq [] rfl⟩
      · -- What was replaced behind the span does not change what the span holds.
        have hslice' : Text.slice? u f.span ≠ some f.before := by
          rwa [slice?_of_replaced hu hfirst]
        refine .inr ⟨f, List.mem_cons_self, hslice, ?_⟩
        rw [hstep, hbehind]
        exact fix_of_not_slice? hslice'
    · refine .inr ⟨g, List.mem_cons_of_mem f hg, hstale, ?_⟩
      rw [hstep, hbehind]
      rfl

/-- Calls that follow each other and stand in the text are all replaced.  Else one is refused. -/
theorem fixAll_cases (t : Text) (hcalls : ∀ f ∈ fs, ∃ call, f.kind = .legacyCall call) :
    ((byStart fs).Pairwise (fun f g => f.span.stop ≤ g.span.start) ∧
        (∀ f ∈ fs, Text.slice? t f.span = some f.before) ∧
        ∃ out, Replaced 0 t (byStart fs) out ∧ fixAll t fs = .ok out) ∨
      (¬ ((byStart fs).Pairwise (fun f g => f.span.stop ≤ g.span.start) ∧
          ∀ f ∈ fs, Text.slice? t f.span = some f.before) ∧
        ∃ f ∈ fs, fixAll t fs = .error (.stale f.span f.before)) := by
  rw [fixAll]
  rcases firstOverlap?_cases (sorted_byStart fs) with ⟨hnone, hpair⟩ | ⟨f, g, hsub, hlt, hsome⟩
  · rw [hnone]
    rcases fixBackwards_cases t (fun f hf => hcalls f (mem_byStart_iff.1 hf)) hpair with
      ⟨hheld, out, hout, hfixed⟩ | ⟨f, hf, hstale, hrefused⟩
    · exact .inl ⟨hpair, fun f hf => hheld f (mem_byStart_iff.2 hf), out, hout, hfixed⟩
    · exact .inr ⟨fun hall => hstale (hall.2 f (mem_byStart_iff.1 hf)), f, mem_byStart_iff.1 hf, hrefused⟩
  · rw [hsome]
    refine .inr ⟨fun hall => ?_, g, mem_byStart_iff.1 (hsub.subset (by simp)), rfl⟩
    have hle := (List.pairwise_cons.1 (hall.1.sublist hsub)).1 g List.mem_cons_self
    omega

/-! ## The order does not matter -/

/-- Stretches with something in them, taken by their starts, follow each other exactly if no two of
them have a byte in common. -/
theorem pairwise_byStart_iff (hne : ∀ f ∈ fs, f.span.start < f.span.stop) :
    (byStart fs).Pairwise (fun f g => f.span.stop ≤ g.span.start) ↔
      fs.Pairwise fun f g => f.span.Apart g.span := by
  rw [← (perm_byStart fs).pairwise_iff fun h => h.symm]
  refine ⟨fun h => h.imp Or.inl, fun h => ?_⟩
  refine (h.and (sorted_byStart fs)).imp_of_mem fun {f g} _ hg hboth => ?_
  have hlt := hne g (mem_byStart_iff.1 hg)
  obtain ⟨hstop | hstop, hle⟩ := hboth
  · exact hstop
  · omega

/-- Stretches with something in them and apart from each other begin at places of their own. -/
theorem pairwise_start_lt (hne : ∀ f ∈ fs, f.span.start < f.span.stop)
    (hapart : fs.Pairwise fun f g => f.span.Apart g.span) :
    (byStart fs).Pairwise fun f g => f.span.start < g.span.start := by
  refine ((pairwise_byStart_iff hne).2 hapart).imp_of_mem fun {f g} hf _ hle => ?_
  have hlt := hne f (mem_byStart_iff.1 hf)
  omega

/-- So they come in one order only. -/
theorem byStart_congr (hne : ∀ f ∈ fs, f.span.start < f.span.stop)
    (hapart : fs.Pairwise fun f g => f.span.Apart g.span) (hperm : gs.Perm fs) :
    byStart gs = byStart fs := by
  have hne' : ∀ f ∈ gs, f.span.start < f.span.stop := fun f hf => hne f (hperm.mem_iff.1 hf)
  have hapart' := (hperm.pairwise_iff fun h => h.symm).2 hapart
  have hsame : (byStart gs).Perm (byStart fs) :=
    (perm_byStart gs).trans (hperm.trans (perm_byStart fs).symm)
  refine hsame.eq_of_pairwise (fun f g _ _ hfg hgf => ?_) (pairwise_start_lt hne' hapart')
    (pairwise_start_lt hne hapart)
  omega

/-- **Many calls are replaced at once.**  A list of findings of calls, with any non-empty spans, is
fixed exactly if no two spans have a byte in common and each of them holds what its finding saw.
Then the text that comes out has all spans replaced and everything between them kept, whatever the
order of the list.  Otherwise one of the findings is refused as stale. -/
theorem fixAll_replaces_at_once (t : Text)
    (hcalls : ∀ f ∈ fs, ∃ call, f.kind = .legacyCall call)
    (hne : ∀ f ∈ fs, f.span.start < f.span.stop) :
    ((∃ out, fixAll t fs = .ok out) ↔
        fs.Pairwise (fun f g => f.span.Apart g.span) ∧
          ∀ f ∈ fs, Text.slice? t f.span = some f.before) ∧
      (∀ out, fixAll t fs = .ok out →
        (∃ gs, gs.Perm fs ∧ Replaced 0 t gs out) ∧ ∀ gs, gs.Perm fs → fixAll t gs = .ok out) ∧
      ∀ e, fixAll t fs = .error e → ∃ f ∈ fs, e = .stale f.span f.before := by
  have hcases := fixAll_cases t hcalls
  rw [pairwise_byStart_iff hne] at hcases
  rcases hcases with ⟨hapart, hheld, new, hnew, hok⟩ | ⟨hnot, f, hf, herror⟩
  · refine ⟨⟨fun _ => ⟨hapart, hheld⟩, fun _ => ⟨new, hok⟩⟩, fun out hout => ?_, fun e he => ?_⟩
    · obtain rfl : new = out := Except.ok.inj (hok.symm.trans hout)
      refine ⟨⟨byStart fs, perm_byStart fs, hnew⟩, fun gs hperm => ?_⟩
      rw [fixAll, byStart_congr hne hapart hperm]
      exact hok
    · rw [hok] at he
      cases he
  · have hnone : ∀ out, fixAll t fs ≠ .ok out := by
      intro out hout
      rw [herror] at hout
      cases hout
    refine ⟨⟨fun hok => ?_, fun hall => absurd hall hnot⟩, fun out hout => absurd hout (hnone out),
      fun e he => ⟨f, hf, Except.error.inj (he.symm.trans herror)⟩⟩
    obtain ⟨out, hout⟩ := hok
    exact absurd hout (hnone out)

namespace TwoCalls

def text : Text := "é one ß two\n".toList

def one : Finding :=
  ⟨"a.twig", 1, ⟨3, 6⟩, "one".toList, .legacyCall ⟨1, ⟨[], [], [], none, none⟩, "1".toList⟩⟩

def two : Finding :=
  ⟨"a.twig", 1, ⟨10, 13⟩, "two".toList, .legacyCall ⟨2, ⟨[], [], [], none, none⟩, "zwei".toList⟩⟩

def replaced : Text := "é 1 ß zwei\n".toList

end TwoCalls

open TwoCalls in
/-- Two calls behind letters of two bytes, in either order. -/
theorem fixAll_replaces_at_once_twoCalls :
    fixAll text [one, two] = .ok replaced ∧ fixAll text [two, one] = .ok replaced ∧
      ∃ gs, gs.Perm [one, two] ∧ Replaced 0 text gs replaced := by
  have hcalls : ∀ f ∈ [one, two], ∃ call, f.kind = .legacyCall call := by
    simp [one, two]
  have hne : ∀ f ∈ [one, two], f.span.start < f.span.stop := by decide
  have hsorted : byStart [one, two] = [one, two] := List.mergeSort_of_pairwise (by decide)
  have hok : fixAll text [one, two] = .ok replaced := by
    rw [fixAll, hsorted]
    decide +kernel
  obtain ⟨hreplaced, horder⟩ := (fixAll_replaces_at_once text hcalls hne).2.1 replaced hok
  exact ⟨hok, horder [two, one] (List.Perm.swap one two []), hreplaced⟩

end Finding
end ThemeRepair
