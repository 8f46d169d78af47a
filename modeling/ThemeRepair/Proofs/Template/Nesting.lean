import ThemeRepair.Document.Repair
import ThemeRepair.Proofs.Template.Replacement

/-!
# Calls in the arguments of calls

The search for heads knows nothing of string literals, so it also finds a head that stands in an
argument of another call, and where both have a level, two findings overlap.  This is the only way
in which they can: a head that begins in the stretch of another call begins in its arguments
(`holds_of_overlap`), because neither the inside of a head nor a tail holds an opening brace.

So a template is rewritten exactly if no call begins in the arguments of another one
(`rewriting_refused_iff_nested`).
-/

namespace ThemeRepair
namespace Template

/-! ## The stretch of the arguments -/

/-- The stretch of the arguments that a found head opens: from the brace that ends the head to the
bracket that closes it, or to the end of the text where no bracket does. -/
def FoundHead.argumentsSpan (t : Text) (h : FoundHead) : Span where
  start := Text.size t - Text.size h.rest - 1
  stop :=
    match splitAtClose .outside 0 h.rest with
    | some (_, behind) => Text.size t - Text.size behind
    | none => Text.size t

/-- A head begins in the arguments of another one. -/
def FoundHead.Holds (t : Text) (h g : FoundHead) : Prop :=
  (h.argumentsSpan t).start ≤ g.start ∧ g.start < (h.argumentsSpan t).stop

instance (t : Text) (h g : FoundHead) : Decidable (h.Holds t g) :=
  inferInstanceAs (Decidable (_ ∧ _))

/-- Two heads that the search finds in a text, the second one in the arguments of the first. -/
structure Nested (ns t : Text) (style : CallStyle) (h : FoundHead) (style' : CallStyle)
    (g : FoundHead) : Prop where
  outer : h ∈ headsFrom ns style 0 0 t
  inner : g ∈ headsFrom ns style' 0 0 t
  holds : h.Holds t g

namespace WrittenCall

variable {ns : Text}

theorem argumentsSpan_foundHead (w : WrittenCall ns) (x behind : Text) :
    (w.foundHead (Text.size x) behind).argumentsSpan (x ++ (w.text ++ behind)) =
      ⟨Text.size x + Text.size w.headText - 1,
        Text.size x + Text.size w.headText + Text.size w.body + w.close.utf8Size⟩ := by
  simp only [FoundHead.argumentsSpan, foundHead, w.splitAtClose_rest]
  simp only [w.text_append, rest, Text.size_append, Text.size_cons, Span.mk.injEq]
  omega

theorem size_text (w : WrittenCall ns) :
    Text.size w.text = Text.size w.headText + Text.size w.body + w.close.utf8Size +
      Text.size w.tailText := by
  simp only [text, Text.size_append, Text.size_cons]
  omega

end WrittenCall

/-- No tail holds an opening brace. -/
theorem TailText.not_mem {style : CallStyle} {tail : CallTail} {v : Text}
    (h : TailText style tail v) : '{' ∉ v := by
  have hwhite {w : Text} (hw : Text.isAllWhite w = true) : '{' ∉ w :=
    Text.not_mem_of_isAllWhite hw (by decide)
  have hdash (trim : Bool) : '{' ∉ dash trim := by cases trim <;> simp [dash]
  cases h with
  | expression h₁ h₂ => simp [hwhite h₁, hwhite h₂, hdash]
  | statement h => simp [hwhite h, hdash]
  | only h₁ h₂ => simp [hwhite h₁, hwhite h₂, hdash]

/-- A place of a text that is behind a head, or at the brace that ends it, is so in bytes too. -/
theorem HeadText.size_le {ns x u r y s : Text} {style : CallStyle} {head : CallHead}
    (hns : ns.all isHeadInside = true) (hu : HeadText ns style head u)
    (heq : x ++ (u ++ r) = y ++ s) (hle : x.length + u.length ≤ y.length + 1) :
    Text.size x + Text.size u ≤ Text.size y + 1 := by
  obtain ⟨mid, rfl, -, -⟩ := hu.exists_eq hns
  have hopen : x ++ '{' :: style.second :: mid <+: y := by
    refine List.prefix_of_prefix_length_le ⟨'{' :: r, ?_⟩ ⟨s, rfl⟩ ?_
    · rw [← heq]
      simp
    · simp only [List.length_append, List.length_cons, List.length_nil] at hle ⊢
      omega
  have hsize := Text.size_le_of_prefix hopen
  have hbrace : ('{' : Char).utf8Size = 1 := by decide
  simp only [Text.size_append, Text.size_cons, Text.size_nil, hbrace] at hsize ⊢
  omega

/-- A head that begins inside the stretch of a call begins in its arguments. -/
theorem holds_of_overlap {ns : Text} (hns : ns.all isHeadInside = true) {w : WrittenCall ns}
    {x behind y u r : Text} {style : CallStyle} {g : FoundHead}
    (hy : x ++ (w.text ++ behind) = y ++ (u ++ r)) (hu : HeadText ns style g.head u)
    (hg : g.start = Text.size y) (hstart : Text.size x < Text.size y)
    (hstop : Text.size y < Text.size x + Text.size w.text) :
    (w.foundHead (Text.size x) behind).Holds (x ++ (w.text ++ behind)) g := by
  have hx : x ++ (w.headText ++ w.rest behind) = y ++ (u ++ r) := by
    rw [← hy, w.text_append]
  have hlt : x.length < y.length :=
    Text.length_lt_of_size_lt ⟨_, rfl⟩ ⟨u ++ r, hx.symm⟩ hstart
  have hmeet := w.isHead.length_add_length_le hns hu hx hlt
  have hsize := w.isHead.size_le hns hx hmeet
  obtain ⟨mid', hmid', -, -⟩ := hu.exists_eq hns
  rw [FoundHead.Holds, w.argumentsSpan_foundHead, hg]
  constructor
  · show Text.size x + Text.size w.headText - 1 ≤ Text.size y
    omega
  · -- Behind the closing bracket there is only the tail, where no head begins.
    by_contra hbehind
    simp only [not_lt] at hbehind
    obtain ⟨a, rfl⟩ : x ++ (w.headText ++ (w.body ++ [w.close])) <+: y := by
      refine Text.prefix_of_size_le (t := y ++ (u ++ r)) ?_ ⟨u ++ r, rfl⟩ ?_
      · exact ⟨w.tailText ++ behind, by rw [← hx, WrittenCall.rest]; simp⟩
      · simp only [Text.size_append, Text.size_cons, Text.size_nil]
        omega
    have htail : w.tailText ++ behind = a ++ (u ++ r) := by
      rw [WrittenCall.rest] at hx
      simpa using hx
    rw [w.size_text] at hstop
    simp only [Text.size_append, Text.size_cons, Text.size_nil] at hstop
    refine w.isTail.not_mem ?_
    rcases List.append_eq_append_iff.1 htail with ⟨b, rfl, -⟩ | ⟨b, hb, hb'⟩
    · rw [Text.size_append] at hstop
      omega
    · cases b with
      | nil =>
        rw [hb, List.append_nil] at hstop
        omega
      | cons d b =>
        rw [hmid'] at hb'
        obtain ⟨rfl, -⟩ := List.cons.inj hb'
        rw [hb]
        simp

/-! ## The path is only a label -/

section Path

variable {settings : Settings.Headings} {t : Text}

/-- A finding under another path. -/
def relabel (path : String) (f : Finding) : Finding := { f with path := path }

theorem findCalls_relabel (path path' : String) :
    findCalls settings path t = (findCalls settings path' t).map (relabel path) := by
  have hone (c : FoundCall) : finding? settings path t c =
      (finding? settings path' t c).map (relabel path) := by
    simp only [finding?, Option.map_map]
    rfl
  rw [findCalls, findCalls, Finding.byStart, Finding.byStart,
    List.map_mergeSort (s := fun f g => decide (f.span.start ≤ g.span.start))]
  · rw [List.map_filterMap]
    simp only [hone]
  · intro a _ b _
    rfl

theorem firstOverlap?_relabel (path : String) (fs : List Finding) :
    Finding.firstOverlap? (fs.map (relabel path)) =
      (Finding.firstOverlap? fs).map (relabel path) := by
  induction fs with
  | nil => rfl
  | cons f fs ih =>
    cases fs with
    | nil => rfl
    | cons g fs =>
      simp only [List.map_cons, Finding.firstOverlap?] at ih ⊢
      show (if g.span.start < f.span.stop then _ else _) = _
      split
      · rfl
      · exact ih

theorem fixBackwards_relabel (path : String) (t : Text) (fs : List Finding) :
    Finding.fixBackwards t (fs.map (relabel path)) = Finding.fixBackwards t fs := by
  simp only [Finding.fixBackwards, List.foldr_map]
  rfl

/-- Findings under different paths are fixed alike. -/
theorem fixAll_findCalls_path (path path' : String) :
    Finding.fixAll t (findCalls settings path t) =
      Finding.fixAll t (findCalls settings path' t) := by
  rw [Finding.fixAll, Finding.fixAll, byStart_findCalls, byStart_findCalls,
    findCalls_relabel path path', firstOverlap?_relabel, fixBackwards_relabel]
  cases Finding.firstOverlap? (findCalls settings path' t) with
  | none => rfl
  | some f => rfl

end Path

/-! ## When a template is refused -/

section Refusal

variable {settings : Settings.Headings} {t : Text}

/-- Of findings that follow each other, the one that begins first ends before the other begins. -/
theorem stop_le_of_start_lt {fs : List Finding} {f g : Finding}
    (hpair : fs.Pairwise fun f g => f.span.stop ≤ g.span.start)
    (hstart : fs.Pairwise fun f g => f.span.start < g.span.start) (hf : f ∈ fs) (hg : g ∈ fs)
    (hlt : f.span.start < g.span.start) : f.span.stop ≤ g.span.start := by
  induction fs with
  | nil => cases hf
  | cons e fs ih =>
    obtain ⟨hpair₁, hpair⟩ := List.pairwise_cons.1 hpair
    obtain ⟨hstart₁, hstart⟩ := List.pairwise_cons.1 hstart
    rcases List.mem_cons.1 hf with rfl | hf' <;> rcases List.mem_cons.1 hg with rfl | hg'
    · omega
    · exact hpair₁ g hg'
    · have := hstart₁ f hf'
      omega
    · exact ih hpair hstart hf' hg'

/-- Where one call begins in the arguments of another, their findings do not follow each other. -/
theorem not_pairwise_of_nested (hns : settings.legacyNamespace.all isHeadInside = true)
    {style style' : CallStyle} {h g : FoundHead} {m n : Nat} (path : String)
    (hnested : Nested settings.legacyNamespace t style h style' g)
    (hh : h.level? style = some m) (hg : g.level? style' = some n) :
    ¬ (findCalls settings path t).Pairwise fun f f' => f.span.stop ≤ f'.span.start := by
  intro hpair
  obtain ⟨hout, hin, hholds⟩ := hnested
  obtain ⟨w, x, behind, rfl, ht, rfl, hm⟩ := FoundHead.exists_written hout hh
  obtain ⟨f', hf', hstart'⟩ := exists_mem_findCalls_of_level settings path hin hg
  have hf : w.finding settings path t (Text.size x) m ∈ findCalls settings path t :=
    mem_findCalls_iff.2 ⟨w, x, behind, m, ht, hout, hm, rfl⟩
  have hfstart : (w.finding settings path t (Text.size x) m).span.start = Text.size x := rfl
  have hfstop : (w.finding settings path t (Text.size x) m).span.stop =
      Text.size x + Text.size w.text := rfl
  obtain ⟨hle, hlt⟩ : Text.size x + Text.size w.headText - 1 ≤ g.start ∧
      g.start < Text.size x + Text.size w.headText + Text.size w.body + w.close.utf8Size := by
    rw [ht, FoundHead.Holds, w.argumentsSpan_foundHead] at hholds
    exact hholds
  have hhead : 2 ≤ Text.size w.headText := by
    obtain ⟨mid, hmid, -, -⟩ := w.isHead.exists_eq hns
    have hfirst := ('{' : Char).utf8Size_pos
    have hsecond := w.style.second.utf8Size_pos
    rw [hmid, Text.size_cons, Text.size_cons]
    omega
  have hstop := w.size_text
  have hapart := stop_le_of_start_lt hpair findCalls_pairwise hf hf' (by omega)
  omega

/-- A template is rewritten, as a text and as a document, exactly if no call that it holds begins
in the arguments of another one.  Where one does, a call that begins so is refused as stale, though
nothing changed since it was found. -/
theorem rewriting_refused_iff_nested (path : String) (t : Text) :
    ((¬ ∃ style h style' g, Nested "@components".toList t style h style' g ∧
        (h.level? style).isSome = true ∧ (g.level? style').isSome = true) ∧
      ((findCalls {} path t).Pairwise fun f f' => f.span.stop ≤ f'.span.start) ∧
      ∃ out, modernise {} t = .ok out ∧
        repair {} path t = .ok ⟨out, findCalls {} path t, [], []⟩) ∨
    ∃ style h style' g, Nested "@components".toList t style h style' g ∧
      (h.level? style).isSome = true ∧ (g.level? style').isSome = true ∧
      ∃ f ∈ findCalls {} path t, f.span.start = g.start ∧
        modernise {} t = .error (.stale f.span f.before) ∧
        repair {} path t = .error (.stale f.span f.before) := by
  have hns : ({} : Settings.Headings).legacyNamespace.all isHeadInside = true := by decide
  have hpath : modernise {} t = Finding.fixAll t (findCalls {} path t) :=
    fixAll_findCalls_path "" path
  rw [hpath]
  rcases fixAll_findCalls (t := t) path with
    ⟨hpair, out, -, hok⟩ | ⟨f, hf, g, hg, hstart, hstop, herr⟩
  · refine .inl ⟨?_, hpair, out, hok, ?_⟩
    · rintro ⟨style, h, style', g, hnested, hh, hg⟩
      obtain ⟨m, hm⟩ := Option.isSome_iff_exists.1 hh
      obtain ⟨n, hn⟩ := Option.isSome_iff_exists.1 hg
      exact not_pairwise_of_nested hns path hnested hm hn hpair
    · rw [repair, hok]
      rfl
  · obtain ⟨w, x, behind, m, ht, hw, hm, rfl⟩ := mem_findCalls_iff.1 hf
    obtain ⟨w', x', behind', n, ht', hw', hn, rfl⟩ := mem_findCalls_iff.1 hg
    have hholds : (w.foundHead (Text.size x) behind).Holds t
        (w'.foundHead (Text.size x') behind') := by
      rw [ht]
      refine holds_of_overlap hns (u := w'.headText) (r := w'.rest behind') ?_ w'.isHead rfl
        hstart hstop
      rw [← ht, ht', w'.text_append]
    refine .inr ⟨w.style, w.foundHead (Text.size x) behind, w'.style,
      w'.foundHead (Text.size x') behind', ⟨hw, hw', hholds⟩, ?_, ?_, _, hg, rfl, herr, ?_⟩
    · rw [w.level?_foundHead, hm]
      rfl
    · rw [w'.level?_foundHead, hn]
      rfl
    · rw [repair, herr]
      rfl

end Refusal

/-- A call in a string argument of another call. -/
def callInString : Text :=
  ("\x7b\x7b include('@components/h1.html.twig', \x7bcontent: \"" ++
    "\x7b\x7b include('@components/h2.html.twig', \x7bcontent: b\x7d) \x7d\x7d" ++
    "\"\x7d) \x7d\x7d").toList

/-- The findings of a template may overlap, and then it is refused. -/
theorem rewriting_does_not_always_succeed :
    (¬ ∀ t : Text, (findCalls {} "" t).Pairwise fun f g => f.span.stop ≤ g.span.start) ∧
      ¬ ∀ t : Text, ∃ out, modernise {} t = .ok out := by
  have hns : ({} : Settings.Headings).legacyNamespace.all isHeadInside = true := by decide
  obtain ⟨h, hh, g, hg, hholds, hm, hn⟩ :
      ∃ h ∈ headsFrom "@components".toList .expression 0 0 callInString,
        ∃ g ∈ headsFrom "@components".toList .expression 0 0 callInString,
          h.Holds callInString g ∧ (h.level? .expression).isSome = true ∧
            (g.level? .expression).isSome = true := by
    decide +kernel
  obtain ⟨m, hm⟩ := Option.isSome_iff_exists.1 hm
  obtain ⟨n, hn⟩ := Option.isSome_iff_exists.1 hn
  have hoverlap := not_pairwise_of_nested hns "" ⟨hh, hg, hholds⟩ hm hn
  refine ⟨fun hall => hoverlap (hall callInString), fun hall => ?_⟩
  obtain ⟨out, hout⟩ := hall callInString
  rcases fixAll_findCalls (t := callInString) "" with ⟨hpair, -⟩ | ⟨f, -, g, -, -, -, herr⟩
  · exact hoverlap hpair
  · rw [modernise, herr] at hout
    cases hout

end Template
end ThemeRepair
