import ThemeRepair.Proofs.Finding.Diff

/-!
# Findings applied to any text

A finding may be applied to a text that it was not found in, alone or in a batch with findings of
other texts.  `Finding.IsAnswer` lists what may come of that: a new text, the refusal of the kind
that has no fix, or the refusal of a span that does not hold what it is expected to hold.  A slice
outside the text, `FixError.outOfRange`, is not among them.

The spans that a fix compares first are read safely in any text.  One reading has no comparison of
its own: that of the value on the header, in a text where a line was moved before.  It is safe
because every finding that moves a line moves one behind its value (`Finding.IsFoundIn.inOrder`),
so what stands up to the end of the value is still there (`Finding.fixFresh_displaced_isAnswer`).
In a batch each fix works on the text that the fixes before it left, which is one more text that the
finding was not found in (`Finding.fixBackwards_isAnswer`).
-/

namespace ThemeRepair
namespace Finding

/-- What comes of applying some findings: a new text, or a refusal that one of them accounts for. -/
inductive IsAnswer (fs : List Finding) : Except FixError Text → Prop
  | fixed (out : Text) : IsAnswer fs (.ok out)
  | needsHuman {f : Finding} (hf : f ∈ fs) (hkind : f.kind = .sequenceForMapping .variantsDefault) :
      IsAnswer fs (.error (.needsHuman .variantsDefault))
  | stale {f : Finding} (hf : f ∈ fs) : IsAnswer fs (.error (.stale f.span f.before))
  /-- The second span of a finding is not blank. -/
  | notBlank {f : Finding} {s : Span} (hf : f ∈ fs)
      (hkind : f.kind = .emptyCollection (some s) ∨ ∃ name, f.kind = .nameConflict name (some s)) :
      IsAnswer fs (.error (.stale s []))

variable {t u : Text} {f : Finding} {fs gs : List Finding} {s : Span}

namespace IsAnswer

variable {x : Except FixError Text}

theorem mono (h : IsAnswer fs x) (hsub : fs ⊆ gs) : IsAnswer gs x := by
  cases h with
  | fixed out => exact .fixed out
  | needsHuman hf hkind => exact .needsHuman (hsub hf) hkind
  | stale hf => exact .stale (hsub hf)
  | notBlank hf hkind => exact .notBlank (hsub hf) hkind

theorem bind {g : Text → Except FixError Text} (h : IsAnswer fs x) (hg : ∀ u, IsAnswer fs (g u)) :
    IsAnswer fs (x.bind g) := by
  cases h with
  | fixed out => exact hg out
  | needsHuman hf hkind => exact .needsHuman hf hkind
  | stale hf => exact .stale hf
  | notBlank hf hkind => exact .notBlank hf hkind

end IsAnswer

/-! ## One finding -/

/-- A line that the finding moves stands behind the span of the finding. -/
def InOrder (f : Finding) : Prop :=
  ∀ s, f.kind = .emptyCollection (some s) → f.span.stop ≤ s.start

/-- A span that is found blank can be read. -/
theorem expectWhite_cases (u : Text) (s : Span) :
    (∃ front blank behind, s.Cuts u front blank behind ∧ Text.expectWhite u s = .ok ()) ∨
      Text.expectWhite u s = .error (.stale s []) := by
  by_cases hwhite : (Text.slice? u s).any Text.isAllWhite = true
  · obtain ⟨blank, hslice, -⟩ := (Option.any_eq_true _ _).1 hwhite
    obtain ⟨front, behind, hcuts⟩ := Span.Cuts.slice?_eq_some_iff.1 hslice
    exact .inl ⟨front, blank, behind, hcuts, if_pos hwhite⟩
  · exact .inr (if_neg hwhite)

/-- The value is read in the text with the moved line, in front of that line. -/
theorem fixFresh_displaced_isAnswer {front value behind : Text} (hf : f ∈ fs)
    (hkind : f.kind = .emptyCollection (some s)) (hspan : f.span.Cuts u front value behind)
    (horder : f.span.stop ≤ s.start) :
    IsAnswer fs (fixFresh u f.span (.emptyCollection (some s))) := by
  rw [fixFresh]
  rcases expectWhite_cases u s with ⟨front', blank, behind', hcuts, hok⟩ | hstale
  · obtain ⟨between, rfl, rfl, -⟩ := hspan.exists_between hcuts horder
    have hsplice := hcuts.splice_eq (Text.indentationAt u f.span.start)
    simp only [List.append_assoc] at hsplice
    simp only [hok, hsplice, bind, Except.bind]
    rw [(hspan.behind_replaced _).writeEmptyMapping_eq]
    exact .fixed _
  · rw [hstale]
    exact .notBlank hf (.inl hkind)

/-- The header is compared in the text without the block, whatever is left at its place. -/
theorem fixFresh_only_isAnswer {front block behind name : Text} (hf : f ∈ fs)
    (hkind : f.kind = .nameConflict name (some s)) (hspan : f.span.Cuts u front block behind) :
    IsAnswer fs (fixFresh u f.span (.nameConflict name (some s))) := by
  rw [fixFresh, hspan.splice_eq]
  simp only [bind, Except.bind]
  rcases expectWhite_cases (front ++ ([] ++ behind)) s with ⟨_, _, _, hcuts, hok⟩ | hstale
  · rw [hok, hcuts.writeEmptyMapping_eq]
    exact .fixed _
  · rw [hstale]
    exact .notBlank hf (.inr ⟨name, hkind⟩)

/-- A finding whose spans are in order has an answer for every text. -/
theorem fix_isAnswer (hf : f ∈ fs) (horder : f.InOrder) (u : Text) : IsAnswer fs (f.fix u) := by
  by_cases hslice : Text.slice? u f.span = some f.before
  · obtain ⟨front, behind, hspan⟩ := Span.Cuts.slice?_eq_some_iff.1 hslice
    rw [fix_of_slice? hslice]
    match hkind : f.kind with
    | .emptyCollection none =>
      rw [fixFresh, hspan.writeEmptyMapping_eq]
      exact .fixed _
    | .emptyCollection (some s) =>
      exact fixFresh_displaced_isAnswer hf hkind hspan (horder s hkind)
    | .sequenceForMapping .variantsRoot =>
      rw [fixFresh, hspan.splice_eq]
      exact .fixed _
    | .sequenceForMapping .variantsDefault => exact .needsHuman hf hkind
    | .nameConflict name none =>
      rw [fixFresh, hspan.splice_eq]
      exact .fixed _
    | .nameConflict name (some s) => exact fixFresh_only_isAnswer hf hkind hspan
    | .legacyCall call =>
      rw [fixFresh, hspan.splice_eq]
      exact .fixed _
  · rw [fix_of_not_slice? hslice]
    exact .stale hf

/-- Out of order, the line that is moved may be the one in front of the value, and the value is then
looked for behind the end of the text. -/
example : (⟨"c.component.yml", 2, ⟨5, 6⟩, "x".toList, .emptyCollection (some ⟨0, 4⟩)⟩ :
    Finding).fix "    \nx".toList = .error (.outOfRange ⟨5, 6⟩) := by decide

/-! ## Batches -/

theorem fixBackwards_isAnswer (horder : ∀ f ∈ fs, f.InOrder) (u : Text) :
    IsAnswer fs (fixBackwards u fs) := by
  induction fs with
  | nil => exact .fixed u
  | cons f fs ih =>
    obtain ⟨hf, hfs⟩ := List.forall_mem_cons.1 horder
    exact ((ih hfs).mono (List.subset_cons_self f fs)).bind (fix_isAnswer List.mem_cons_self hf)

theorem fixAll_isAnswer (horder : ∀ f ∈ fs, f.InOrder) (u : Text) :
    IsAnswer fs (fixAll u fs) := by
  have hsub : byStart fs ⊆ fs := (perm_byStart fs).subset
  rw [fixAll]
  rcases firstOverlap?_cases (sorted_byStart fs) with ⟨hnone, -⟩ | ⟨f, g, hpair, -, hsome⟩
  · rw [hnone]
    exact (fixBackwards_isAnswer (fun f hf => horder f (hsub hf)) u).mono hsub
  · rw [hsome]
    exact .stale (hsub (hpair.subset (by simp)))

/-! ## Findings of scans -/

/-- A scan of the text for what is wrong with a component, or a search of it for old heading calls,
gives the finding. -/
def IsFoundIn (t : Text) (f : Finding) : Prop :=
  (∃ w path, f ∈ (Component.scan w path t).findings) ∨
    ∃ settings path, f ∈ Template.findCalls settings path t

theorem IsFoundIn.inOrder (h : IsFoundIn t f) : f.InOrder := by
  intro s hkind
  rcases h with ⟨w, path, hmem⟩ | ⟨settings, path, hmem⟩
  · have hplaced := (Component.isPlaced_of_mem_scan hmem).1
    rw [hkind] at hplaced
    generalize f.span = span at hplaced ⊢
    cases hplaced with
    | displaced hs hs' =>
      rw [hs.stop, hs'.start, Text.size_append, Text.size_append]
      omega
  · obtain ⟨_, _, call, -, hcall⟩ := Template.exists_cuts_of_mem_findCalls hmem
    rw [hkind] at hcall
    cases hcall

/-- **No finding leaves the text that it is applied to.**  Whatever text a finding comes from and
whatever text it is applied to, it has an answer there; and where it is fixed at all, the place
whose indentation is read is a place of the text.  A list of findings, of any texts, in any order
and with repetitions, has an answer as well. -/
theorem fix_stays_in_text :
    (∀ (t u : Text) (f : Finding), IsFoundIn t f → IsAnswer [f] (f.fix u) ∧
      (Text.slice? u f.span = some f.before → (Text.splitAt? u f.span.start).isSome = true)) ∧
      ∀ (u : Text) (fs : List Finding), (∀ f ∈ fs, ∃ t, IsFoundIn t f) →
        IsAnswer fs (fixAll u fs) := by
  refine ⟨fun t u f hfound => ⟨?_, fun hslice => ?_⟩, fun u fs hfound => ?_⟩
  · exact fix_isAnswer (List.mem_singleton_self f) hfound.inOrder u
  · obtain ⟨front, behind, hcuts⟩ := Span.Cuts.slice?_eq_some_iff.1 hslice
    rw [hcuts.splitAt?_start]
    rfl
  · refine fixAll_isAnswer (fun f hf => ?_) u
    obtain ⟨t, ht⟩ := hfound f hf
    exact ht.inOrder

namespace MovedSlots

def text : Text := "properties:\n slots:\n   a: x\n".toList

def moved : Finding :=
  ⟨"c.component.yml", 1, ⟨11, 11⟩, [], .emptyCollection (some ⟨12, 13⟩)⟩

/-- Where the line was that is to be moved, there is a letter of two bytes. -/
def other : Text := "properties:\né\n".toList

end MovedSlots

open MovedSlots in
/-- The span of the line ends inside a letter, and that is found out, also behind the first of two
fixes. -/
theorem fix_stays_in_text_movedSlots :
    moved ∈ (Component.scan 2 "c.component.yml" text).findings ∧
      IsAnswer [moved] (moved.fix other) ∧ moved.fix other = .error (.stale ⟨12, 13⟩ []) ∧
      IsAnswer [moved, moved] (fixAll other [moved, moved]) := by
  have hmem : moved ∈ (Component.scan 2 "c.component.yml" text).findings := by decide +kernel
  have hfound : IsFoundIn text moved := .inl ⟨2, "c.component.yml", hmem⟩
  have hboth : ∀ f ∈ [moved, moved], ∃ t, IsFoundIn t f := by
    intro f hf
    obtain rfl : f = moved := by simpa using hf
    exact ⟨text, hfound⟩
  refine ⟨hmem, (fix_stays_in_text.1 text other moved hfound).1, ?_,
    fix_stays_in_text.2 other [moved, moved] hboth⟩
  decide +kernel

end Finding
end ThemeRepair
