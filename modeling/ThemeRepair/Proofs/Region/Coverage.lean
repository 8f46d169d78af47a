import Mathlib.Data.List.Pairwise
import ThemeRepair.Proofs.Region.Descent

/-!
# Every match inside a region is covered once

The search for all regions of a key inside another one walks down the body and, where it has found a
region, goes on behind it.  So a line that declares the key is never lost: the search comes to it
and opens a region there, or it is passed over as part of the region found last
(`Region.IsSweep.covered`).  And it is never covered twice, for each region begins behind the one
found before it (`Region.IsSweep.ordered`).

`Region.search_inside_covers_once` says so from the text: each content line of the body that
declares the key starts exactly one of the regions, or stands inside exactly one.
-/

namespace ThemeRepair
namespace Region

open Line (contentLines contentFrom contentIn nested)

variable {t keyword : Text} {r s parent : Region} {p : Nat × Line}

/-! ## The walk down the body -/

/-- Regions found one behind the other among lines that begin at an offset, of which the first
`taken` belong to a region found before: none of the other lines that declare the key is left
out. -/
structure IsSweep (keyword : Text) (offset taken : Nat) (ls : List Line) (rs : List Region) :
    Prop where
  ordered : rs.Pairwise fun r s => r.stop ≤ s.start
  behind : ∀ r ∈ rs, offset + Line.total (ls.take taken) ≤ r.start
  covered : ∀ p ∈ contentFrom (offset + Line.total (ls.take taken)) (ls.drop taken),
    p.2.key? = some keyword → ∃ r ∈ rs, r.start ≤ p.1 ∧ p.1 < r.stop

namespace IsSweep

variable {offset taken : Nat} {l : Line} {ls : List Line} {rs : List Region}

theorem nil (keyword : Text) (offset taken : Nat) : IsSweep keyword offset taken [] [] where
  ordered := List.Pairwise.nil
  behind := nofun
  covered := by simp

/-- A line of the region found before is passed over. -/
theorem skip (h : IsSweep keyword (offset + l.size) taken ls rs) :
    IsSweep keyword offset (taken + 1) (l :: ls) rs := by
  have hoffset : offset + Line.total ((l :: ls).take (taken + 1)) =
      offset + l.size + Line.total (ls.take taken) := by
    rw [List.take_succ_cons, Line.total_cons, Nat.add_assoc]
  refine ⟨h.ordered, ?_, ?_⟩
  · rw [hoffset]
    exact h.behind
  · rw [hoffset, List.drop_succ_cons]
    exact h.covered

/-- A line that does not declare the key is passed over as well. -/
theorem pass (hl : l.declares keyword = false)
    (h : IsSweep keyword (offset + l.size) 0 ls rs) : IsSweep keyword offset 0 (l :: ls) rs := by
  refine ⟨h.ordered, fun r hr => ?_, fun p hp hkey => ?_⟩
  · have := h.behind r hr
    simp only [List.take_zero, Line.total_nil] at this ⊢
    omega
  · simp only [List.take_zero, Line.total_nil, List.drop_zero, Nat.add_zero] at hp
    have hbehind : p ∈ contentFrom (offset + l.size) ls := by
      cases hc : l.isContent with
      | false => rwa [Line.contentFrom_cons_of_not_isContent hc] at hp
      | true =>
        rw [Line.contentFrom_cons_of_isContent hc] at hp
        rcases List.mem_cons.1 hp with rfl | hp
        · rw [Line.declares_iff.2 ⟨hc, hkey⟩] at hl
          cases hl
        · exact hp
    exact h.covered p (by simpa using hbehind) hkey

/-- A line that declares the key opens a region, which takes the lines nested below it. -/
theorem capture (hstart : r.start = offset) (hheader : r.header = l)
    (hbody : r.body = nested l.depth ls) (hl : l.declares keyword = true)
    (h : IsSweep keyword (offset + l.size) r.body.length ls rs) :
    IsSweep keyword offset 0 (l :: ls) (r :: rs) := by
  have htake : ls.take r.body.length = r.body := by
    rw [hbody]
    exact (List.prefix_iff_eq_take.1 (Line.isPrefix_nested l.depth ls)).symm
  have hstop : r.stop = offset + l.size + Line.total (ls.take r.body.length) := by
    rw [stop, bodyStart, hstart, hheader, htake]
  have hpos := Line.size_pos_of_isContent (Line.isContent_of_declares hl)
  have hbehind : ∀ s ∈ rs, r.stop ≤ s.start := fun s hs => hstop ▸ h.behind s hs
  refine ⟨List.pairwise_cons.2 ⟨hbehind, h.ordered⟩, ?_, ?_⟩
  · simp only [List.take_zero, Line.total_nil, Nat.add_zero, List.forall_mem_cons]
    refine ⟨hstart.ge, fun s hs => ?_⟩
    have := hbehind s hs
    omega
  · intro p hp hkey
    simp only [List.take_zero, Line.total_nil, List.drop_zero, Nat.add_zero] at hp
    -- What starts before the end of the region is covered by it, the rest by what follows.
    by_cases hlt : p.1 < r.stop
    · exact ⟨r, List.mem_cons_self, hstart.trans_le (Line.mem_contentFrom_bounds hp).1, hlt⟩
    · have hsplit : l :: ls = (l :: ls.take r.body.length) ++ ls.drop r.body.length := by
        rw [List.cons_append, List.take_append_drop]
      rw [hsplit, Line.contentFrom_append, List.mem_append, Line.total_cons] at hp
      rcases hp with hp | hp
      · have := (Line.mem_contentFrom_bounds hp).2
        rw [Line.total_cons] at this
        omega
      · rw [← Nat.add_assoc] at hp
        obtain ⟨s, hs, hcovers⟩ := h.covered p hp hkey
        exact ⟨s, List.mem_cons_of_mem r hs, hcovers⟩

end IsSweep

theorem isSweep_descendantsAmong {after before ls : List Line} {taken : Nat} {rs : List Region}
    (h : descendantsAmong keyword after before taken ls = .ok rs) :
    IsSweep keyword (Line.total before) taken ls rs := by
  induction ls generalizing before taken rs with
  | nil =>
    cases h
    exact IsSweep.nil keyword _ taken
  | cons l ls ih =>
    have hoffset : Line.total (before ++ [l]) = Line.total before + l.size := by simp
    cases taken with
    | succ taken =>
      rw [descendantsAmong] at h
      exact (hoffset ▸ ih h).skip
    | zero =>
      rw [descendantsAmong] at h
      split at h
      · next hl =>
        cases hcapture : Region.capture keyword before l ls after with
        | error e =>
          rw [hcapture] at h
          cases h
        | ok r =>
          cases hrest : descendantsAmong keyword after (before ++ [l]) r.body.length ls with
          | error e =>
            simp only [hcapture, hrest, bind, Except.bind] at h
            cases h
          | ok rs' =>
            simp only [hcapture, hrest, bind, Except.bind] at h
            cases h
            obtain ⟨rfl, -⟩ := capture_eq_ok_iff.1 hcapture
            exact IsSweep.capture rfl rfl rfl hl (hoffset ▸ ih hrest)
      · next hl => exact (hoffset ▸ ih h).pass (by simpa using hl)

/-! ## The lines of a region, seen from the text -/

/-- The content lines in the stretch of a region are its header and those of its body. -/
theorem IsIn.contentIn_span (h : r.IsIn keyword (Line.ofText t)) :
    contentIn t r.span = (r.start, r.header) :: contentFrom r.bodyStart r.body := by
  have hlines : Line.ofText t = r.before ++ (r.header :: r.body ++ r.after) := h.lines_eq.symm
  have hspan : r.span =
      ⟨Line.total r.before, Line.total r.before + Line.total (r.header :: r.body)⟩ := by
    rw [span, stop, bodyStart, start, Line.total_cons, Nat.add_assoc]
  rw [hspan, Line.contentIn_eq hlines, Line.contentFrom_cons_of_isContent h.isContent_header]
  rfl

/-- The header is a content line of the text. -/
theorem IsIn.header_mem_contentLines (h : r.IsIn keyword (Line.ofText t)) :
    (r.start, r.header) ∈ contentLines t := by
  have hmem : (r.start, r.header) ∈ contentIn t r.span := by
    rw [h.contentIn_span]
    exact List.mem_cons_self
  exact (Line.mem_contentIn_iff.1 hmem).1

/-- The content lines between header and end of a region are those of its body. -/
theorem IsIn.contentIn_body (h : r.IsIn keyword (Line.ofText t)) :
    contentIn t ⟨r.bodyStart, r.stop⟩ = contentFrom r.bodyStart r.body := by
  have hlines : Line.ofText t = (r.before ++ [r.header]) ++ (r.body ++ r.after) := by
    rw [← h.lines_eq, lines]
    simp
  have hstart : r.bodyStart = Line.total (r.before ++ [r.header]) := by
    rw [bodyStart, start, Line.total_append, Line.total_cons, Line.total_nil, Nat.add_zero]
  rw [stop, hstart]
  exact Line.contentIn_eq hlines

/-- The region starts with the line. -/
def StartsWith (r : Region) (p : Nat × Line) : Prop := r.start = p.1

/-- The line stands strictly inside the region, all of it behind the start of the header. -/
def Encloses (r : Region) (p : Nat × Line) : Prop := r.start < p.1 ∧ p.1 + p.2.size ≤ r.stop

/-- A content line that begins in the stretch of a region starts the region, or it is a line of the
body and deeper than the header. -/
theorem IsIn.startsWith_or_encloses (h : r.IsIn keyword (Line.ofText t))
    (hp : p ∈ contentLines t) (hstart : r.start ≤ p.1) (hstop : p.1 < r.stop) :
    r.StartsWith p ∨ r.Encloses p ∧ r.depth < p.2.depth := by
  have hmem : p ∈ contentIn t r.span := Line.mem_contentIn_iff.2 ⟨hp, hstart, hstop⟩
  rw [h.contentIn_span] at hmem
  rcases List.mem_cons.1 hmem with rfl | hbody
  · exact Or.inl rfl
  · obtain ⟨hle, hstop⟩ := Line.stop_le_of_mem_contentFrom hbody
    have hpos := Line.size_pos_of_isContent h.isContent_header
    rw [bodyStart] at hle
    refine Or.inr ⟨⟨by omega, hstop⟩, ?_⟩
    exact h.depth_lt_of_mem_body (Line.mem_of_mem_contentFrom hbody)
      (Line.isContent_of_mem_contentFrom hbody)

theorem Encloses.within (h : r.Encloses p) (hp : p ∈ contentLines t) :
    r.start ≤ p.1 ∧ p.1 < r.stop := by
  rw [Line.contentLines_eq] at hp
  have hpos := Line.size_pos_of_isContent (Line.isContent_of_mem_contentFrom hp)
  have hstart := h.1
  have hstop := h.2
  omega

/-! ## Every match once -/

/-- The regions follow each other in the text, each starts with a line of the parent's body that
declares the key, and each such line starts exactly one of them or stands inside exactly one, which
is less indented. -/
structure CoverOnce (rs : List Region) (t keyword : Text) (parent : Region) : Prop where
  ordered : rs.Pairwise fun r s => r.start < s.start ∧ r.stop ≤ s.start
  opened : ∀ r ∈ rs, (r.start, r.header) ∈ contentIn t ⟨parent.bodyStart, parent.stop⟩ ∧
    r.header.key? = some keyword
  once : ∀ p ∈ contentIn t ⟨parent.bodyStart, parent.stop⟩, p.2.key? = some keyword →
    (∃! r, r ∈ rs ∧ r.StartsWith p) ∧ (∀ r ∈ rs, ¬ r.Encloses p) ∨
      (∃! r, r ∈ rs ∧ r.Encloses p) ∧ ∀ r ∈ rs, ¬ r.StartsWith p
  shallower : ∀ r ∈ rs, ∀ p ∈ contentIn t ⟨parent.bodyStart, parent.stop⟩, r.Encloses p →
    r.depth < p.2.depth

/-- Of regions that follow each other, at most one stands over an offset. -/
theorem eq_of_over {rs : List Region} (hordered : rs.Pairwise fun r s => r.stop ≤ s.start)
    {n : Nat} (hr : r ∈ rs) (hs : s ∈ rs) (hrn : r.start ≤ n ∧ n < r.stop)
    (hsn : s.start ≤ n ∧ n < s.stop) : r = s := by
  by_contra hne
  have hapart : rs.Pairwise fun r s => r.span.Apart s.span := hordered.imp Or.inl
  have hsymm : Std.Symm fun r s : Region => r.span.Apart s.span := ⟨fun _ _ h => h.symm⟩
  rcases hapart.forall hr hs hne with hle | hle
  · exact absurd (Nat.lt_of_lt_of_le hrn.2 hle) (Nat.not_lt.2 hsn.1)
  · exact absurd (Nat.lt_of_lt_of_le hsn.2 hle) (Nat.not_lt.2 hrn.1)

/-- A content line that regions following each other cover starts exactly one of them, or it stands
inside exactly one. -/
theorem once_of_covered {rs : List Region} (hordered : rs.Pairwise fun r s => r.stop ≤ s.start)
    (hin : ∀ r ∈ rs, r.IsIn keyword (Line.ofText t)) (hp : p ∈ contentLines t)
    (hcovered : ∃ r ∈ rs, r.start ≤ p.1 ∧ p.1 < r.stop) :
    (∃! r, r ∈ rs ∧ r.StartsWith p) ∧ (∀ r ∈ rs, ¬ r.Encloses p) ∨
      (∃! r, r ∈ rs ∧ r.Encloses p) ∧ ∀ r ∈ rs, ¬ r.StartsWith p := by
  obtain ⟨r, hr, hover⟩ := hcovered
  -- Any other region that starts with the line or encloses it stands over its offset too.
  have hstarts : ∀ s ∈ rs, s.StartsWith p → s = r := fun s hs hsp =>
    eq_of_over hordered hs hr ⟨hsp.le, hsp ▸ (hin s hs).start_lt_stop⟩ hover
  have hencloses : ∀ s ∈ rs, s.Encloses p → s = r := fun s hs hsp =>
    eq_of_over hordered hs hr (hsp.within hp) hover
  rcases (hin r hr).startsWith_or_encloses hp hover.1 hover.2 with hrp | ⟨hrp, -⟩
  · refine Or.inl ⟨⟨r, ⟨hr, hrp⟩, fun s hs => hstarts s hs.1 hs.2⟩, fun s hs hsp => ?_⟩
    have hlt := hsp.1
    rw [hencloses s hs hsp, hrp] at hlt
    exact Nat.lt_irrefl _ hlt
  · refine Or.inr ⟨⟨r, ⟨hr, hrp⟩, fun s hs => hencloses s hs.1 hs.2⟩, fun s hs hsp => ?_⟩
    have hlt := hrp.1
    rw [← hstarts s hs hsp, hsp] at hlt
    exact Nat.lt_irrefl _ hlt

/-- **The search for all regions of a key inside a region covers every match once.**  It is never
refused, what it finds follows each other in the text, and each line of the body that declares the
key, at any depth, starts exactly one of the regions found or stands inside exactly one. -/
theorem search_inside_covers_once (h : Obtained t parent) (keyword : Text) :
    ∃ rs, parent.descendants keyword = .ok rs ∧ CoverOnce rs t keyword parent := by
  obtain ⟨parentKey, hparent⟩ := h.isIn
  obtain ⟨rs, hrs, -, hin⟩ := exists_descendants hparent keyword
  have hsweep : IsSweep keyword (Line.total (parent.before ++ [parent.header])) 0 parent.body rs :=
    isSweep_descendantsAmong hrs
  have hstart : Line.total (parent.before ++ [parent.header]) = parent.bodyStart := by
    simp [bodyStart, start]
  rw [hstart] at hsweep
  refine ⟨rs, hrs, ⟨?_, ?_, ?_, ?_⟩⟩
  · refine hsweep.ordered.imp_of_mem fun {r s} hr _ hle => ⟨?_, hle⟩
    exact Nat.lt_of_lt_of_le (hin r hr).1.start_lt_stop hle
  · intro r hr
    obtain ⟨hrin, hinside⟩ := hin r hr
    obtain ⟨hle, hstop⟩ := hinside.within_body
    refine ⟨Line.mem_contentIn_iff.2 ⟨hrin.header_mem_contentLines, hle, ?_⟩, ?_⟩
    · exact Nat.lt_of_lt_of_le hrin.start_lt_stop hstop
    · exact (Line.declares_iff.1 hrin.declares).2
  · intro p hp hkey
    have hline := (Line.mem_contentIn_iff.1 hp).1
    rw [hparent.contentIn_body] at hp
    exact once_of_covered hsweep.ordered (fun r hr => (hin r hr).1) hline
      (hsweep.covered p (by simpa using hp) hkey)
  · intro r hr p hp hrp
    have hline := (Line.mem_contentIn_iff.1 hp).1
    have hover := hrp.within hline
    rcases (hin r hr).1.startsWith_or_encloses hline hover.1 hover.2 with hstarts | ⟨-, hlt⟩
    · exact absurd hrp.1 (by rw [hstarts]; exact Nat.lt_irrefl _)
    · exact hlt

namespace NestedDefaults

open SizedVariants (line)

/-- The variants, with a default in a size and one in a default of their own. -/
def variants : Region :=
  ⟨[], line "variants:", "variants".toList, [line "  size:", line "    default: []",
    line "  # of all", line "  default:", line "    default: x"], [line "slots: {}"]⟩

def ofSize : Region :=
  ⟨[line "variants:", line "  size:"], line "    default: []", "default".toList, [],
    [line "  # of all", line "  default:", line "    default: x", line "slots: {}"]⟩

def ofAll : Region :=
  ⟨[line "variants:", line "  size:", line "    default: []", line "  # of all"],
    line "  default:", "default".toList, [line "    default: x"], [line "slots: {}"]⟩

end NestedDefaults

open NestedDefaults in
open SizedVariants (line) in
/-- The default inside the other one is no region of its own. -/
theorem search_inside_covers_once_nestedDefaults :
    Obtained variants.text variants ∧
      variants.descendants "default".toList = .ok [ofSize, ofAll] ∧
      CoverOnce [ofSize, ofAll] variants.text "default".toList variants ∧
      ofAll.Encloses (56, line "    default: x") := by
  have hvariants : Obtained variants.text variants :=
    Obtained.findSection (by decide +kernel : findSection "variants".toList _ = _)
  have hdescendants : variants.descendants "default".toList = .ok [ofSize, ofAll] := by
    decide +kernel
  obtain ⟨rs, hrs, hcover⟩ := search_inside_covers_once hvariants "default".toList
  rw [hdescendants] at hrs
  cases hrs
  exact ⟨hvariants, hdescendants, hcover, by decide, by decide⟩

end Region
end ThemeRepair
