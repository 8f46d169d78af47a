import ThemeRepair.Proofs.Template.Nesting
import ThemeRepair.Proofs.Template.Rendering

/-!
# Templates that a rewriting settles

The first run over a template replaces the calls that have a level and leaves all other heads
alone.  What a second run can find is therefore a head that the first one left alone, and whether
that head begins a call may have changed only if a replaced call stood in its arguments, or if it
stood itself in the arguments of a replaced call and was copied from there.  Where heads that are
nested in one another are either all replaced or all left alone (`Unmixed`), neither can be, and a
second run has nothing to do (`modernise_settles`).

The proof follows the template and its rewritten form from one replaced call to the next (`Between`).
A keyed call holds no head, and in the stretch before it the search sees in the rewritten template
the heads that it saw before (`IsReplacement.cases_of_mem_headsFrom`), so what it finds in the
whole is left alone (`level?_eq_none_of_replaced`).
-/

namespace ThemeRepair
namespace Template

/-- Of two heads that are nested in one another, either both begin a call with a level or both are
left alone. -/
def Unmixed (ns t : Text) : Prop :=
  ∀ style h style' g, Nested ns t style h style' g →
    ((h.level? style).isSome = true ↔ (g.level? style').isSome = true)

/-- Only the heads that the search finds have to be looked at. -/
instance (ns t : Text) : Decidable (Unmixed ns t) :=
  decidable_of_iff (∀ style ∈ [CallStyle.expression, .statement],
      ∀ h ∈ headsFrom ns style 0 0 t, ∀ style' ∈ [CallStyle.expression, .statement],
      ∀ g ∈ headsFrom ns style' 0 0 t, h.Holds t g →
        ((h.level? style).isSome = true ↔ (g.level? style').isSome = true)) <| by
    have hstyle (style : CallStyle) : style ∈ [CallStyle.expression, .statement] := by
      cases style <;> decide
    constructor
    · intro h style g style' g' hnested
      exact h style (hstyle style) g hnested.outer style' (hstyle style') g' hnested.inner
        hnested.holds
    · intro h style _ g hg style' _ g' hg' hholds
      exact h style g style' g' ⟨hg, hg', hholds⟩

section Settling

variable {ns : Text}

/-! ## The arguments of a replaced call -/

/-- No head stands in the arguments of a call in which the search finds none. -/
theorem headFree_body (hns : ns.all isHeadInside = true) {w : WrittenCall ns} {t x behind : Text}
    (ht : t = x ++ (w.text ++ behind))
    (hmem : w.foundHead (Text.size x) behind ∈ headsFrom ns w.style 0 0 t)
    (hnone : ∀ style g, ¬ Nested ns t w.style (w.foundHead (Text.size x) behind) style g) :
    HeadFree ns w.body := by
  intro style head u hu hinfix
  obtain ⟨a, b, hbody⟩ := hinfix
  have hplace : t = (x ++ (w.headText ++ a)) ++ (u ++ (b ++ w.close :: (w.tailText ++ behind))) := by
    rw [ht, WrittenCall.text, ← hbody]
    simp
  obtain ⟨h, hfound, y, v, hy, hv, hstart, hle, hlt⟩ :=
    exists_covering_of_headText hplace hu (Nat.zero_le _)
  have hx : x ++ (w.headText ++ w.rest behind) = y ++ (v ++ h.rest) := by
    rw [← hy, ht, w.text_append]
  have hlong := w.isHead.two_le_length hns
  simp only [List.length_append] at hle hlt
  -- The head that the search finds around the place begins behind the head of the call.
  have hbehind : x.length + w.headText.length ≤ y.length + 1 := by
    rcases Nat.lt_trichotomy y.length x.length with hyx | hyx | hyx
    · have := hv.length_add_length_le hns w.isHead hx.symm hyx
      omega
    · obtain rfl : y = x :=
        (List.prefix_of_prefix_length_le ⟨_, hx.symm⟩ ⟨_, rfl⟩ hyx.le).eq_of_length hyx
      rw [List.append_cancel_left_eq] at hx
      have hrest := (w.isHead.unique hv hx).2.2
      have hlength := congrArg List.length hx
      simp only [List.length_append, hrest] at hlength
      omega
    · exact w.isHead.length_add_length_le hns hv hx hyx
  have hsize := w.isHead.size_le hns hx hbehind
  have hbefore : Text.size y ≤ Text.size x + Text.size w.headText + Text.size w.body := by
    have hprefix : y <+: x ++ (w.headText ++ a) := by
      refine List.prefix_of_prefix_length_le ⟨_, hy.symm⟩ ⟨_, hplace.symm⟩ ?_
      simp only [List.length_append]
      exact hle
    have hsize := Text.size_le_of_prefix hprefix
    rw [← hbody]
    simp only [Text.size_append] at hsize ⊢
    omega
  refine hnone style h ⟨hmem, hfound, ?_⟩
  have hclose := w.close.utf8Size_pos
  rw [ht, FoundHead.Holds, w.argumentsSpan_foundHead, hstart]
  constructor
  · show Text.size x + Text.size w.headText - 1 ≤ 0 + Text.size y
    omega
  · show 0 + Text.size y < Text.size x + Text.size w.headText + Text.size w.body + _
    omega

/-! ## Heads between calls -/

/-- A tail that is read before a text that begins with an opening brace is read before any other
text as well. -/
theorem callTail?_transfer {style : CallStyle} {a z z' r : Text} {tail : CallTail}
    (hz : z.head? = some '{') (h : callTail? style (a ++ z) = some (tail, r)) :
    ∃ r', callTail? style (a ++ z') = some (tail, r') := by
  obtain ⟨v, hv, heq⟩ := callTail?_eq_some_iff.1 h
  rcases List.append_eq_append_iff.1 heq with ⟨b, rfl, hb⟩ | ⟨b, rfl, -⟩
  · cases b with
    | nil => exact ⟨z', by simpa using callTail?_append hv z'⟩
    | cons d b =>
      rw [hb] at hz
      obtain rfl : d = '{' := by simpa using hz
      exact absurd (by simp) hv.not_mem
  · refine ⟨b ++ z', ?_⟩
    rw [List.append_assoc]
    exact callTail?_append hv (b ++ z')

/-- The arguments of a head end behind the brace that opens them. -/
theorem FoundHead.start_lt_stop {t : Text} {h : FoundHead} (hrest : Text.size h.rest < Text.size t) :
    (h.argumentsSpan t).start < (h.argumentsSpan t).stop := by
  simp only [FoundHead.argumentsSpan]
  cases hsplit : splitAtClose .outside 0 h.rest with
  | none =>
    dsimp only
    omega
  | some p =>
    obtain ⟨-, c, -, hbody⟩ := splitAtClose_eq_some_iff.1 hsplit
    have hsize := congrArg Text.size hbody
    have hc := c.utf8Size_pos
    simp only [Text.size_append, Text.size_cons] at hsize
    dsimp only
    omega

/-- Arguments that do not reach a place are closed by a bracket before it. -/
theorem exists_closed_before {start : Nat} {head : CallHead} {x v z : Text} (hz : z ≠ [])
    (hstop : ¬ Text.size x < (FoundHead.argumentsSpan (x ++ z) ⟨start, head, v ++ z⟩).stop) :
    ∃ body c a, v = body ++ c :: a ∧ Balanced body ∧ isClosing c = true ∧
      splitAtClose .outside 0 (v ++ z) = some (body, a ++ z) := by
  have hzpos := Text.size_pos_of_ne_nil hz
  simp only [FoundHead.argumentsSpan, Text.size_append] at hstop
  cases hsplit : splitAtClose .outside 0 (v ++ z) with
  | none =>
    rw [hsplit] at hstop
    exact absurd (by dsimp only; omega) hstop
  | some p =>
    obtain ⟨body, behind⟩ := p
    rw [hsplit] at hstop
    have hle : Text.size x + Text.size z - Text.size behind ≤ Text.size x := Nat.le_of_not_lt hstop
    obtain ⟨hbal, c, hc, hbody⟩ := splitAtClose_eq_some_iff.1 hsplit
    have hcut : v ++ z = (body ++ [c]) ++ behind := by simpa using hbody
    rcases List.append_eq_append_iff.1 hcut with ⟨a, ha, rfl⟩ | ⟨a, rfl, rfl⟩
    · have hnil : a = [] := by
        by_contra hne
        have := Text.size_pos_of_ne_nil hne
        simp only [Text.size_append] at hle
        omega
      subst hnil
      exact ⟨body, c, [], by simpa using ha.symm, hbal, hc, rfl⟩
    · exact ⟨body, c, a, by simp, hbal, hc, rfl⟩

/-- A head before a call is left alone whatever call stands there, unless the call begins in its
arguments. -/
theorem level?_eq_none_of_sameRest {style : CallStyle} {h h' : FoundHead} {x z z' : Text}
    (hz : z.head? = some '{') (hz' : z'.head? = some '{') (hhead : h.head = h'.head)
    (hrest : SameRest z z' h.rest h'.rest)
    (hx : Text.size h.rest < Text.size (x ++ z)) (hnone : h.level? style = none)
    (hholds : ¬ ((h.argumentsSpan (x ++ z)).start ≤ Text.size x ∧
      Text.size x < (h.argumentsSpan (x ++ z)).stop)) :
    h'.level? style = none := by
  obtain ⟨start, head, rest⟩ := h
  obtain ⟨start', head', rest'⟩ := h'
  obtain rfl : head = head' := hhead
  rcases hrest.eq_or_eq with ⟨v, rfl, rfl⟩ | ⟨rfl, rfl⟩
  rotate_left
  · -- The head ends with the brace that the call begins with.
    exfalso
    have hstart :
        (FoundHead.argumentsSpan (x ++ '{' :: rest) ⟨start, head, rest⟩).start = Text.size x := by
      have hbrace : ('{' : Char).utf8Size = 1 := by decide
      simp only [FoundHead.argumentsSpan, Text.size_append, Text.size_cons]
      omega
    have hlt := FoundHead.start_lt_stop hx
    exact hholds ⟨hstart.le, hstart ▸ hlt⟩
  · -- The arguments are closed before the call, so both scans stop at the same bracket.
    have hstart :
        (FoundHead.argumentsSpan (x ++ z) ⟨start, head, v ++ z⟩).start ≤ Text.size x := by
      simp only [FoundHead.argumentsSpan, Text.size_append]
      omega
    obtain ⟨body, c, a, rfl, hbal, hc, hsplit⟩ :=
      exists_closed_before (by rintro rfl; cases hz) fun hstop => hholds ⟨hstart, hstop⟩
    have hsplit' : splitAtClose .outside 0 ((body ++ c :: a) ++ z') = some (body, a ++ z') := by
      rw [List.append_assoc, List.cons_append]
      exact splitAtClose_of_balanced hbal hc
    simp only [FoundHead.level?, hsplit, hsplit', Option.bind_eq_bind, Option.bind_some] at hnone ⊢
    cases htail : callTail? style (a ++ z') with
    | none => rfl
    | some p =>
      obtain ⟨r, hr⟩ := callTail?_transfer hz' htail
      rw [hr] at hnone
      exact hnone

/-! ## Heads behind a call -/

/-- The search finds no head in a head-free text that ends with a brace, whatever follows it. -/
theorem le_start_of_headFree (hns : ns.all isHeadInside = true) {style : CallStyle}
    {off taken : Nat} {s t : Text} {h : FoundHead} (hfree : HeadFree ns s)
    (hend : ∃ y, s = y ++ ['}'])
    (hmem : h ∈ headsFrom ns style off taken (s ++ t)) : off + Text.size s ≤ h.start := by
  obtain ⟨x, u, heq, hu, hstart⟩ := exists_headText_of_mem_headsFrom hmem
  by_contra hlt
  obtain ⟨b, rfl⟩ : x <+: s :=
    Text.prefix_of_size_le ⟨u ++ h.rest, heq.symm⟩ ⟨t, rfl⟩ (by omega)
  have hb : b ≠ [] := by
    rintro rfl
    rw [List.append_nil] at hlt
    omega
  rw [List.append_assoc, List.append_cancel_left_eq] at heq
  rcases List.append_eq_append_iff.1 heq with ⟨c, rfl, -⟩ | ⟨c, rfl, -⟩
  · obtain ⟨y, hy⟩ := hend
    have hlast : b.getLast? = some '}' := by
      have := congrArg List.getLast? hy
      rwa [List.getLast?_append_of_ne_nil _ hb, List.getLast?_concat] at this
    have hmem : '}' ∈ b := List.mem_of_getLast? hlast
    exact hu.not_mem_of_isJoint hns rfl (List.mem_append_left c hmem)
  · exact hfree style h.head u hu ⟨x, c, by simp⟩

theorem FoundHead.level?_congr {style : CallStyle} {h h' : FoundHead} (hhead : h.head = h'.head)
    (hrest : h.rest = h'.rest) : h.level? style = h'.level? style := by
  simp only [FoundHead.level?, hhead, hrest]

theorem TailText.exists_eq_append {style : CallStyle} {tail : CallTail} {v : Text}
    (h : TailText style tail v) : ∃ y, v = y ++ ['}'] := by
  cases h with
  | @expression trim w₁ w₂ h₁ h₂ =>
    exact ⟨w₁ ++ ([')'] ++ (w₂ ++ (dash trim ++ ['}']))), by simp⟩
  | @statement trim w h => exact ⟨w ++ (dash trim ++ ['%']), by simp⟩
  | @only trim w₁ w₂ h₁ h₂ => exact ⟨w₁ ++ ("only".toList ++ (w₂ ++ (dash trim ++ ['%']))), by simp⟩

/-- A call ends with a brace. -/
theorem WrittenCall.exists_text_eq_append (w : WrittenCall ns) : ∃ y, w.text = y ++ ['}'] := by
  obtain ⟨v, hv⟩ := w.isTail.exists_eq_append
  exact ⟨w.headText ++ (w.body ++ w.close :: v), by rw [WrittenCall.text, hv]; simp⟩

/-- A call begins with a brace and the character of its style. -/
theorem WrittenCall.exists_text_eq_cons (hns : ns.all isHeadInside = true) (w : WrittenCall ns) :
    ∃ y, w.text = '{' :: w.style.second :: y := by
  obtain ⟨mid, hmid, -, -⟩ := w.isHead.exists_eq hns
  exact ⟨_, by rw [WrittenCall.text, hmid]; rfl⟩

/-- Behind a call the search looks at every character again. -/
theorem WrittenCall.takenAfter_eq_zero (hns : ns.all isHeadInside = true) (w : WrittenCall ns)
    (style : CallStyle) (u t : Text) : takenAfter ns style 0 (u ++ w.text) t = 0 := by
  have hle : takenAfter ns style 0 u (w.text ++ t) ≤ 1 := by
    obtain ⟨y, hy⟩ := w.exists_text_eq_cons hns
    refine takenAfter_le_one hns ?_ (Nat.zero_le _)
    rw [hy]
    exact .call (by cases w.style <;> rfl) (by cases w.style <;> rfl) _ _
  obtain ⟨y, hy⟩ := w.exists_text_eq_append
  rw [takenAfter_append]
  rw [hy] at hle ⊢
  exact takenAfter_closing hns (by omega) t

/-- A text that can take the place of a call: it begins and ends as one, and holds no head. -/
structure IsReplacement (ns s : Text) : Prop where
  headFree : HeadFree ns s
  opens : ∃ y, s = '{' :: '{' :: y
  ends : ∃ y, s = y ++ ['}']

/-- Where a call is replaced, the search finds the heads behind the replacement, and in front of it
heads that it found in front of the call. -/
theorem IsReplacement.cases_of_mem_headsFrom {s : Text} (hs : IsReplacement ns s)
    (hns : ns.all isHeadInside = true) (w : WrittenCall ns) {style : CallStyle} {off off' : Nat}
    {u t new : Text} {h' : FoundHead} (hmem : h' ∈ headsFrom ns style off' 0 (u ++ (s ++ new))) :
    h' ∈ headsFrom ns style (off' + Text.size u + Text.size s) 0 new ∨
      ∃ h ∈ headsFrom ns style off 0 (u ++ (w.text ++ t)), h.head = h'.head ∧
        SameRest (w.text ++ t) (s ++ new) h.rest h'.rest ∧ h.start < off + Text.size u := by
  obtain ⟨hfree, ⟨y, hy⟩, hends⟩ := hs
  obtain ⟨z, hz⟩ := w.exists_text_eq_cons hns
  have hopening : SameOpening (w.text ++ t) (s ++ new) := by
    rw [hz, hy]
    exact .call (by cases w.style <;> rfl) rfl _ _
  refine (headsFrom_transfer hns hopening off off' 0 u hmem).imp_left fun hmem => ?_
  have hle := le_start_of_headFree hns hfree hends hmem
  have hbehind := mem_headsFrom_of_le hmem hle
  have htaken : takenAfter ns style 0 u (s ++ new) ≤ 1 := by
    refine takenAfter_le_one hns ?_ (Nat.zero_le _)
    rw [hy]
    exact .call rfl rfl _ _
  obtain ⟨x, rfl⟩ := hends
  rwa [takenAfter_closing hns (by omega)] at hbehind

end Settling

/-! ## The run over a template -/

section Run

variable {path : String} {T : Text}

theorem mem_indentationAt {t : Text} {offset : Nat} {c : Char}
    (h : c ∈ Text.indentationAt t offset) : Text.isIndent c = true := by
  rw [Text.indentationAt] at h
  split at h
  · exact List.mem_takeWhile_imp h
  · cases h

/-- Where a template is rewritten and no nested heads are mixed, the search finds no head in the
arguments of a replaced call, and no replaced call in the arguments of a head that is left
alone. -/
theorem apart_of_unmixed (hunmixed : Unmixed "@components".toList T)
    (hpair : (findCalls {} path T).Pairwise fun f g => f.span.stop ≤ g.span.start)
    {style : CallStyle} {h : FoundHead} {n : Nat}
    (hmem : h ∈ headsFrom "@components".toList style 0 0 T) (hlevel : h.level? style = some n) :
    (∀ style' g, ¬ Nested "@components".toList T style h style' g) ∧
      ∀ style' g, g ∈ headsFrom "@components".toList style' 0 0 T → g.level? style' = none →
        ¬ g.Holds T h := by
  have hns : ({} : Settings.Headings).legacyNamespace.all isHeadInside = true := by decide
  constructor
  · intro style' g hnested
    have hg : (g.level? style').isSome = true :=
      (hunmixed style h style' g hnested).1 (by rw [hlevel]; rfl)
    obtain ⟨m, hm⟩ := Option.isSome_iff_exists.1 hg
    exact not_pairwise_of_nested hns path hnested hlevel hm hpair
  · intro style' g hg hnone hholds
    have := (hunmixed style' g style h ⟨hg, hmem, hholds⟩).2 (by rw [hlevel]; rfl)
    rw [hnone] at this
    cases this

/-- The call that a finding of a template replaces, at its place. -/
theorem exists_written_of_span {f : Finding} {call : HeadingCall} {x old behind : Text}
    (hf : f ∈ findCalls {} path T) (hT : T = x ++ (old ++ behind))
    (hstart : f.span.start = Text.size x) (hbefore : f.before = old)
    (hkind : f.kind = .legacyCall call) :
    ∃ (w : WrittenCall "@components".toList) (n : Nat), old = w.text ∧
      w.foundHead (Text.size x) behind ∈ headsFrom "@components".toList w.style 0 0 T ∧
      w.level? = some n ∧
      call.replacement = render {} (Text.indentationAt T (Text.size x))
        (headingArgs (arguments w.body) n) w.head.trim w.tail.trim w.tail.only := by
  obtain ⟨w, y, behind', n, hTw, hfound, hlevel, rfl⟩ := mem_findCalls_iff.1 hf
  obtain rfl : y = x := Text.eq_of_size_eq ⟨_, hTw.symm⟩ ⟨_, hT.symm⟩ hstart
  have hold : old = w.text := by rw [← hbefore, hTw, w.finding_before]
  obtain rfl : behind' = behind := by
    rw [hTw, hold, List.append_cancel_left_eq, List.append_cancel_left_eq] at hT
    exact hT
  cases hkind
  exact ⟨w, n, hold, hfound, hlevel, rfl⟩

/-- A place between two calls of a template, or its beginning or end: what stands before and behind
it, and the findings that lie behind it. -/
structure Between (path : String) (T front t : Text) (fs : List Finding) : Prop where
  eq_append : T = front ++ t
  mem_findCalls : ∀ f ∈ fs, f ∈ findCalls {} path T
  /-- No head that the search finds before the place reaches over it. -/
  takenAfter_eq_zero : ∀ style, takenAfter "@components".toList style 0 front t = 0
  /-- The heads behind the place that begin a call with a level are findings. -/
  exists_mem : ∀ style, ∀ h ∈ headsFrom "@components".toList style (Text.size front) 0 t,
    (h.level? style).isSome = true → ∃ f ∈ fs, f.span.start = h.start

namespace Between

theorem start (path : String) (T : Text) : Between path T [] T (findCalls {} path T) where
  eq_append := rfl
  mem_findCalls _ hf := hf
  takenAfter_eq_zero _ := rfl
  exists_mem style h hmem hh := by
    obtain ⟨m, hm⟩ := Option.isSome_iff_exists.1 hh
    exact exists_mem_findCalls_of_level {} path hmem hm

variable {front t : Text} {fs : List Finding}

/-- What the search finds behind the place it finds in the template. -/
theorem mem_headsFrom (hb : Between path T front t fs) {style : CallStyle} {h : FoundHead}
    (hmem : h ∈ headsFrom "@components".toList style (Text.size front) 0 t) :
    h ∈ headsFrom "@components".toList style 0 0 T := by
  rw [hb.eq_append]
  refine mem_headsFrom_of_mem_behind ?_
  rwa [hb.takenAfter_eq_zero, Nat.zero_add]

/-- A head before all findings is left alone. -/
theorem level?_eq_none (hb : Between path T front t fs) {style : CallStyle} {h : FoundHead}
    (hmem : h ∈ headsFrom "@components".toList style (Text.size front) 0 t)
    (hlt : ∀ f ∈ fs, h.start < f.span.start) : h.level? style = none := by
  by_contra hne
  obtain ⟨f, hf, hstart⟩ := hb.exists_mem style h hmem (Option.isSome_iff_ne_none.2 hne)
  have := hlt f hf
  omega

/-- From one place to the next one, behind the first call. -/
theorem call {u : Text} {w : WrittenCall "@components".toList} {f : Finding}
    (hb : Between path T front (u ++ (w.text ++ t)) (f :: fs))
    (hstart : f.span.start = Text.size front + Text.size u) :
    Between path T (front ++ (u ++ w.text)) t fs where
  eq_append := by rw [hb.eq_append]; simp
  mem_findCalls g hg := hb.mem_findCalls g (List.mem_cons_of_mem f hg)
  takenAfter_eq_zero style := by
    rw [← List.append_assoc]
    exact w.takenAfter_eq_zero (by decide) style (front ++ u) t
  exists_mem style h hmem hh := by
    have hmem' : h ∈ headsFrom "@components".toList style (Text.size front) 0
        ((u ++ w.text) ++ t) := by
      refine mem_headsFrom_of_mem_behind ?_
      rwa [w.takenAfter_eq_zero (by decide), ← Text.size_append]
    rw [List.append_assoc] at hmem'
    obtain ⟨g, hg, hgstart⟩ := hb.exists_mem style h hmem' hh
    rcases List.mem_cons.1 hg with rfl | hg
    · have hle := le_start_of_mem_headsFrom hmem
      obtain ⟨y, hy⟩ := w.exists_text_eq_cons (by decide)
      have hpos := Text.size_pos_of_ne_nil (t := w.text) (by rw [hy]; simp)
      simp only [Text.size_append] at hle
      omega
    · exact ⟨g, hg, hgstart⟩

end Between

/-- The search finds only heads that are left alone in a text whose calls are replaced. -/
theorem level?_eq_none_of_replaced (hunmixed : Unmixed "@components".toList T)
    (hpair : (findCalls {} path T).Pairwise fun f g => f.span.stop ≤ g.span.start)
    {off : Nat} {t new : Text} {fs : List Finding} (hreplaced : Replaced off t fs new)
    {front : Text} (hb : Between path T front t fs) (hoff : off = Text.size front)
    {off' : Nat} {style : CallStyle} {h' : FoundHead}
    (hmem : h' ∈ headsFrom "@components".toList style off' 0 new) : h'.level? style = none := by
  have hns : ("@components".toList).all isHeadInside = true := by decide
  induction hreplaced generalizing front off' with
  | done off t =>
    subst hoff
    rcases headsFrom_transfer hns .nil (Text.size front) off' 0 t (by rwa [List.append_nil]) with
      hmem | ⟨h, hmem, hhead, hrest, -⟩
    · simp [headsFrom] at hmem
    · have hrest : h.rest = h'.rest := by
        rcases hrest.eq_or_eq with ⟨v, hv, hv'⟩ | ⟨hv, -⟩
        · rw [hv, hv']
        · cases hv
      rw [List.append_nil] at hmem
      rw [← FoundHead.level?_congr hhead hrest]
      exact hb.level?_eq_none hmem (by simp)
  | @call off u old t new f fs call hspan hbefore hkind hrest ih =>
    subst hoff
    have hx : T = (front ++ u) ++ (old ++ t) := by rw [hb.eq_append, List.append_assoc]
    have hsize : Text.size (front ++ u) = Text.size front + Text.size u := Text.size_append _ _
    have hstart : f.span.start = Text.size front + Text.size u := by rw [hspan]
    obtain ⟨w, n, rfl, hfound, hlevel, hnew⟩ := exists_written_of_span
      (hb.mem_findCalls f List.mem_cons_self) hx (hstart.trans hsize.symm) hbefore hkind
    obtain ⟨hinside, houtside⟩ := apart_of_unmixed hunmixed hpair hfound
      (n := n) (by rw [w.level?_foundHead, hlevel])
    have hs : IsReplacement "@components".toList call.replacement := by
      rw [hnew]
      refine ⟨headFree_render (fun hmem => ?_) (headFree_body hns hx hfound hinside),
        exists_render_eq_cons, exists_render_eq_append⟩
      exact absurd (mem_indentationAt hmem) (by decide)
    rcases hs.cases_of_mem_headsFrom hns w (t := t) hmem with hmem | ⟨h, hgap, hhead, hsame, hlt⟩
    · refine ih (hb.call hstart) ?_ hmem
      simp only [Text.size_append]
      omega
    · have hnone : h.level? style = none := by
        refine hb.level?_eq_none hgap fun g hg => ?_
        rcases List.mem_cons.1 hg with rfl | hg
        · omega
        · have := hrest.le_start g hg
          omega
      have hfoundT := hb.mem_headsFrom hgap
      obtain ⟨old', hold'⟩ := w.exists_text_eq_cons hns
      obtain ⟨new', hnew'⟩ := hs.opens
      refine level?_eq_none_of_sameRest (by rw [hold']; rfl) (by rw [hnew']; rfl) hhead hsame ?_
        hnone (x := front ++ u) ?_
      · obtain ⟨y, v, hy, hv, -⟩ := exists_headText_of_mem_headsFrom hfoundT
        have hpos := Text.size_pos_of_ne_nil (t := v)
          (List.ne_nil_of_length_pos (by have := hv.two_le_length hns; omega))
        rw [← hx, hy]
        simp only [Text.size_append]
        omega
      · rw [← hx]
        exact houtside style h hfoundT hnone

/-- A template that is rewritten and in which no nested heads are mixed is settled: a second run
finds no call in it and changes nothing. -/
theorem modernise_settles {t out : Text} (path : String) (h : modernise {} t = .ok out)
    (hunmixed : Unmixed "@components".toList t) :
    findCalls {} path out = [] ∧ modernise {} out = .ok out := by
  have hns : ({} : Settings.Headings).legacyNamespace.all isHeadInside = true := by decide
  obtain ⟨hreplaced, hpair⟩ := replaced_of_fixAll "" h
  have hnone (path : String) : findCalls {} path out = [] := by
    rw [List.eq_nil_iff_forall_not_mem]
    intro f hf
    obtain ⟨w, x, behind, n, -, hfound, hlevel, -⟩ := mem_findCalls_iff.1 hf
    have hleft := level?_eq_none_of_replaced hunmixed hpair hreplaced (Between.start "" t) rfl hfound
    rw [w.level?_foundHead, hlevel] at hleft
    cases hleft
  refine ⟨hnone path, ?_⟩
  rw [modernise, hnone ""]
  simp [Finding.fixAll, Finding.byStart, Finding.firstOverlap?, Finding.fixBackwards]

/-- What a run writes where the search meets the calls in the order of the text and apart. -/
def modernisedInOrder? (t : Text) : Option Text :=
  let fs := (callsByStyle "@components".toList t).filterMap (finding? {} "" t)
  if (fs.Pairwise fun f g => decide (f.span.start ≤ g.span.start) = true) ∧
      Finding.firstOverlap? fs = none then
    (Finding.fixBackwards t fs).toOption
  else none

theorem modernise_of_inOrder {t out : Text} (h : modernisedInOrder? t = some out) :
    modernise {} t = .ok out := by
  simp only [modernisedInOrder?] at h
  split at h
  case isFalse => cases h
  case isTrue hcond =>
    obtain ⟨hordered, hapart⟩ := hcond
    have hsorted := List.mergeSort_of_pairwise hordered
    rw [modernise, findCalls, Finding.fixAll, Finding.byStart, Finding.byStart]
    simp only [hsorted, hapart]
    cases hout : Finding.fixBackwards t _ with
    | error e =>
      rw [hout] at h
      cases h
    | ok new =>
      rw [hout] at h
      rw [Option.some.inj h]

/-- A call of a template for any level, without a level, and a call with one. -/
def callsSideBySide : Text :=
  "\x7b\x7b include('@components/heading.html.twig', \x7b\x7d) \x7d\x7d".toList ++
    "\x7b\x7b include('@components/h1.html.twig', \x7b\x7d) \x7d\x7d".toList

/-- The second call becomes a keyed call, and from then on the first one is left alone. -/
theorem modernise_settles_callsSideBySide :
    ∃ out, modernise {} callsSideBySide = .ok out ∧ out ≠ callsSideBySide ∧
      findCalls {} "" out = [] ∧ modernise {} out = .ok out := by
  have hunmixed : Unmixed "@components".toList callsSideBySide := by decide +kernel
  have hany : (modernisedInOrder? callsSideBySide).any (· != callsSideBySide) = true := by
    decide +kernel
  obtain ⟨out, hout, hne⟩ := (Option.any_eq_true _ _).1 hany
  have hrun := modernise_of_inOrder hout
  exact ⟨out, hrun, bne_iff_ne.1 hne, modernise_settles "" hrun hunmixed⟩

/-- A call in a string argument of another call whose head is left alone, because the inner call
holds a quote that is not closed for the outer one. -/
def callWithOpenQuote : Text :=
  "\x7b\x7b include('@components/h1.html.twig', \x7ba: \"".toList ++
    "\x7b\x7b include('@components/h1.html.twig', \x7ba: '\"'\x7d) \x7d\x7d".toList ++
    "\"\x7d) \x7d\x7d".toList

/-- The same text with the keyed form of the inner call, which lacks the quote. -/
def callWithKeyedInside : Text :=
  "\x7b\x7b include('@components/h1.html.twig', \x7ba: \"".toList ++
    "\x7b\x7b include('@adesso_cms_theme/heading/heading.twig', \x7b\n  heading: \x7b\n".toList ++
    "    title: '',\n    as: 'h1',\n    visual_level: '1'\n  \x7d\n\x7d) \x7d\x7d".toList ++
    "\"\x7d) \x7d\x7d".toList

/-- A second run may find a call that the first one left alone. -/
theorem rewriting_is_not_idempotent :
    ¬ ∀ t out : Text, modernise {} t = .ok out → modernise {} out = .ok out := by
  intro h
  have hfirst : modernisedInOrder? callWithOpenQuote = some callWithKeyedInside := by
    decide +kernel
  have hsecond : (modernisedInOrder? callWithKeyedInside).any (· != callWithKeyedInside) = true := by
    decide +kernel
  obtain ⟨again, hagain, hne⟩ := (Option.any_eq_true _ _).1 hsecond
  have hsame := h callWithOpenQuote callWithKeyedInside (modernise_of_inOrder hfirst)
  rw [modernise_of_inOrder hagain] at hsame
  exact bne_iff_ne.1 hne (Except.ok.inj hsame)

end Run

end Template
end ThemeRepair
