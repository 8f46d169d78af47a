import ThemeRepair.Proofs.Component.Passes
import ThemeRepair.Proofs.Component.Rewriting
import ThemeRepair.Proofs.Component.Variants

/-!
# What a repair leaves alone

The props cut a text into what stands in front of them, themselves, and what stands behind them
(`Component.cutAtProps`).  A repair writes inside the props, and besides that it makes an empty
mapping of an empty sequence that is the value of the first variants section, on whichever side of
the props that stands (`Component.Cut.mapVariants`).  `Component.repair_frames_props` says so for
whole repairs, and that slots and sequence defaults are what they were.

The invariant of a run is `Component.Framed`: the lines are two fixed lists on the sides of the
props header, with indented lines between them.  Variants that are refused for their indentation
are not written to, not even where their header has an empty sequence.
-/

namespace ThemeRepair
namespace Component

open Line (below nested trimmed opened opensSection)

variable {ls xs ys : List Line} {top : Line}

/-! ## Lines around the props -/

/-- The lines have a header of props, with `xs` in front of it and `ys` behind its section. -/
structure Framed (xs : List Line) (top : Line) (ys ls : List Line) : Prop where
  first : ∀ l ∈ xs, opensSection "props".toList l = false
  opens : opensSection "props".toList top = true
  closes : Line.Closes 0 ys
  exists_eq : ∃ ms, ls = xs ++ top :: (ms ++ ys) ∧ ∀ m ∈ ms, below 0 m = true

/-- The two sides of the props with the variants mapped: in front of the props if there are
variants, else behind them. -/
def mappedSides (xs ys : List Line) : List Line × List Line :=
  if xs.any (opensSection "variants".toList) then (mappedVariants xs, ys)
  else (xs, mappedVariants ys)

namespace Framed

theorem opensSection_top (h : Framed xs top ys ls) {keyword : Text}
    (hkeyword : "props".toList ≠ keyword) : opensSection keyword top = false := by
  rw [opensSection, Line.declares_eq_false (Line.declares_of_opensSection h.opens) hkeyword,
    Bool.false_and]

/-- Another section stands on one of the sides. -/
theorem opened_eq (h : Framed xs top ys ls) {keyword : Text} (hkeyword : "props".toList ≠ keyword) :
    opened (opensSection keyword) ls =
      (opened (opensSection keyword) xs).or (opened (opensSection keyword) ys) := by
  obtain ⟨ms, rfl, hms⟩ := h.exists_eq
  rw [Line.opened_append_top (Line.below_zero_of_opensSection h.opens)
      (h.opensSection_top hkeyword),
    Line.opened_append_of_forall fun l hl => Line.opensSection_of_below (hms l hl)]

/-- Mapping the variants maps them on their side. -/
theorem exists_mapped_eq (h : Framed xs top ys ls) :
    ∃ ms, ls = xs ++ top :: (ms ++ ys) ∧ (∀ m ∈ ms, below 0 m = true) ∧
      mappedVariants ls = (mappedSides xs ys).1 ++ top :: (ms ++ (mappedSides xs ys).2) := by
  obtain ⟨ms, rfl, hms⟩ := h.exists_eq
  refine ⟨ms, rfl, hms, ?_⟩
  unfold mappedSides
  split
  · next hany =>
    exact mappedVariants_append_top (List.any_eq_true.1 hany)
      (Line.below_zero_of_opensSection h.opens) _
  · -- The header of the props and the indented lines below it are no header of variants.
    next hany =>
    have hxs : ∀ l ∈ xs, opensSection "variants".toList l = false := by
      simpa using hany
    have hfront : ∀ l ∈ xs ++ top :: ms, opensSection "variants".toList l = false := by
      simp only [List.forall_mem_append, List.forall_mem_cons]
      exact ⟨hxs, h.opensSection_top (by decide), fun m hm => Line.opensSection_of_below (hms m hm)⟩
    have hsplit : ∀ zs, xs ++ top :: (ms ++ zs) = (xs ++ top :: ms) ++ zs := fun zs => by simp
    rw [hsplit, hsplit, mappedVariants_append_of_forall hfront]

theorem mapped (h : Framed xs top ys ls) :
    Framed (mappedSides xs ys).1 top (mappedSides xs ys).2 (mappedVariants ls) := by
  obtain ⟨ms, -, hms, hmapped⟩ := h.exists_mapped_eq
  refine ⟨?_, h.opens, ?_, ms, hmapped, hms⟩
  · rw [mappedSides]
    split
    · rw [← Line.opened_eq_none_iff, opened_mappedVariants (by decide), Line.opened_eq_none_iff]
      exact h.first
    · exact h.first
  · rw [mappedSides]
    split
    · exact h.closes
    · exact closes_mappedVariants h.closes

/-- Where mapping the variants changes nothing, it changes nothing on the sides. -/
theorem mappedSides_eq (h : Framed xs top ys ls) (hls : mappedVariants ls = ls) :
    mappedSides xs ys = (xs, ys) := by
  obtain ⟨ms, hms, -, hmapped⟩ := h.exists_mapped_eq
  rw [hls, hms] at hmapped
  rw [mappedSides] at hmapped ⊢
  split
  · next hany =>
    rw [if_pos hany] at hmapped
    have hfront : xs = mappedVariants xs := List.append_cancel_right hmapped
    rw [← hfront]
  · next hany =>
    rw [if_neg hany] at hmapped
    have hbehind : ys = mappedVariants ys :=
      List.append_cancel_left (List.cons.inj (List.append_cancel_left hmapped)).2
    rw [← hbehind]

/-- The props are found where their header is, unless they are refused. -/
theorem props_eq (h : Framed xs top ys ls) {props : Region}
    (hprops : (Sections.ofLines ls).props = .ok (some props)) :
    props.before = xs ∧ props.header = top ∧
      ∃ blanks, props.after = blanks ++ ys ∧ ∀ l ∈ blanks, l.isContent = false := by
  obtain ⟨ms, rfl, hms⟩ := h.exists_eq
  have htop : top.depth = 0 :=
    Nat.le_zero.1 (Line.below_eq_false_iff.1 (Line.below_zero_of_opensSection h.opens)).2
  obtain ⟨rfl, -⟩ := (Region.locate_append_cons_eq_ok_iff h.first h.opens).1 hprops
  obtain ⟨blanks, hsplit, hblanks⟩ := Line.exists_eq_trimmed_append ms
  refine ⟨rfl, rfl, blanks, ?_, hblanks⟩
  have hnested : nested top.depth (ms ++ ys) = trimmed ms := by
    rw [htop]
    exact Line.nested_append_of_below hms h.closes
  have hdrop : ms.drop (trimmed ms).length = blanks := by
    have hdropped := congrArg (List.drop (trimmed ms).length) hsplit
    rwa [List.drop_left] at hdropped
  rw [hnested, List.append_nil,
    List.drop_append_of_le_length (Line.isPrefix_trimmed ms).length_le, hdrop]

/-- A rewriting of the properties happens between the sides. -/
theorem rewritten {r : Region} {header : Line} {body : List Line} (h : Framed xs top ys ls)
    (hr : (Sections.ofLines ls).properties = .ok (some r)) (hw : Rewrites r header body) :
    Framed xs top ys (rewritten r header body) := by
  rcases properties_cases hr with ⟨hprops, -⟩ | ⟨props, hprops, hlocated⟩
  · -- The header of the props is among the lines.
    obtain ⟨ms, rfl, -⟩ := h.exists_eq
    have hnone := Region.forall_of_locate_eq_none hprops top (by simp)
    exact absurd (hnone.symm.trans h.opens) (by decide)
  · obtain ⟨hbefore, hheader, blanks, hafter, hblanks⟩ := h.props_eq hprops
    obtain ⟨hpin, hpdepth, -⟩ := isIn_of_props hprops
    obtain ⟨-, -, hdeeper, passed, hrbefore, hbody, -, -⟩ := Region.isIn_of_child hpin hlocated
    obtain ⟨-, -, -, -, zs, hrafter, -⟩ :=
      exists_child_of_body_eq (rfl : props.body = props.body) hlocated
    have hpositive : 0 < r.depth := Nat.lt_of_le_of_lt (Nat.zero_le _) hdeeper
    -- The section of the properties, up to where it ends, is a piece of the body of the props.
    have hpbody : props.body = passed ++ r.header :: (r.body ++ zs) := by
      have hsplit : passed ++ r.header :: (r.body ++ (zs ++ props.after)) =
          (passed ++ r.header :: (r.body ++ zs)) ++ props.after := by simp
      rw [hrafter, hsplit] at hbody
      exact List.append_cancel_right hbody
    have hbelow : ∀ l ∈ props.body, below 0 l = true := fun l hl => by
      rw [← hpdepth]
      exact hpin.below_of_mem_body hl
    rw [hpbody] at hbelow
    simp only [List.forall_mem_append, List.forall_mem_cons] at hbelow
    refine ⟨h.first, h.opens, h.closes, passed ++ header :: (body ++ (zs ++ blanks)), ?_, ?_⟩
    · rw [Component.rewritten, hrbefore, hrafter, hafter, hbefore, hheader]
      simp
    · simp only [List.forall_mem_append, List.forall_mem_cons]
      refine ⟨hbelow.1, ?_, hw.below hpositive, hbelow.2.2.2, fun l hl =>
        Line.below_of_not_isContent (hblanks l hl)⟩
      rw [Line.below_of_isContent hw.isContent, hw.depth_eq, decide_eq_true_eq]
      exact hpositive

end Framed

theorem mappedSides_idem (xs ys : List Line) :
    mappedSides (mappedSides xs ys).1 (mappedSides xs ys).2 = mappedSides xs ys := by
  by_cases hany : xs.any (opensSection "variants".toList) = true
  · have hany' : (mappedVariants xs).any (opensSection "variants".toList) = true := by
      rw [List.any_eq_true] at hany ⊢
      exact (exists_opens_mappedVariants xs).2 hany
    have hsides : mappedSides xs ys = (mappedVariants xs, ys) := if_pos hany
    rw [hsides, mappedSides, if_pos hany', mappedVariants_idem]
  · have hsides : mappedSides xs ys = (xs, mappedVariants ys) := if_neg hany
    rw [hsides, mappedSides, if_neg hany, mappedVariants_idem]

/-! ## The invariant of a run -/

/-- What mapping the variants keeps. -/
theorem slots_defaults_mappedVariants (ls : List Line) :
    opened (opensSection "slots".toList) (mappedVariants ls) =
        opened (opensSection "slots".toList) ls ∧
      defaultTexts (mappedVariants ls) = defaultTexts ls :=
  ⟨opened_mappedVariants (by decide) ls, defaultTexts_mappedVariants ls⟩

theorem mappedVariants_eq {v : Region} (hv : (Sections.ofLines ls).variants = .ok (some v))
    (hseq : Region.isEmptySequence v.inline = true) :
    mappedVariants ls = v.before ++ v.mapped :: (v.body ++ v.after) := by
  simp only [mappedVariants, found_eq_some_iff.2 hv, if_pos hseq]

/-- In a run over lines with props, the two sides are those of the first lines, mapped or to be
mapped, and neither the slots nor the sequence defaults change. -/
structure Surrounded (xs : List Line) (top : Line) (ys start ls : List Line) : Prop where
  exists_framed : ∃ xs' ys', Framed xs' top ys' ls ∧ mappedSides xs' ys' = mappedSides xs ys
  slots : opened (opensSection "slots".toList) ls = opened (opensSection "slots".toList) start
  defaults : defaultTexts ls = defaultTexts start

theorem Surrounded.change {w : Nat} {kind : FindingKind} {start ls' : List Line}
    (h : Surrounded xs top ys start ls) (hchange : Change w ls kind ls') :
    Surrounded xs top ys start ls' := by
  obtain ⟨⟨xs', ys', hframed, hsides⟩, hslots, hdefaults⟩ := h
  rcases hchange.rewrites with ⟨v, hv, hseq, rfl⟩ | ⟨r, header, body, hr, hw, rfl⟩
  · -- Sides that were mapped already stay as they are when they are mapped once more.
    rw [← mappedVariants_eq hv hseq]
    obtain ⟨hslots', hdefaults'⟩ := slots_defaults_mappedVariants ls
    exact ⟨⟨_, _, hframed.mapped, (mappedSides_idem xs' ys').trans hsides⟩, hslots'.trans hslots,
      hdefaults'.trans hdefaults⟩
  · -- Slots and variants open on the sides, and those are the same before and after.
    have hframed' := hframed.rewritten hr hw
    have hkept : ∀ keyword : Text, "props".toList ≠ keyword →
        opened (opensSection keyword) (rewritten r header body) =
          opened (opensSection keyword) ls := fun keyword hkeyword => by
      rw [hframed'.opened_eq hkeyword, hframed.opened_eq hkeyword]
    exact ⟨⟨xs', ys', hframed', hsides⟩, (hkept _ (by decide)).trans hslots,
      (defaultTexts_congr (hkept _ (by decide))).trans hdefaults⟩

/-- In a run over lines with refused props, only the variants are mapped. -/
structure Refused (start ls : List Line) : Prop where
  refused : ∃ e, (Sections.ofLines ls).props = .error e
  mapped : mappedVariants ls = mappedVariants start
  slots : opened (opensSection "slots".toList) ls = opened (opensSection "slots".toList) start
  defaults : defaultTexts ls = defaultTexts start

theorem Refused.change {w : Nat} {kind : FindingKind} {start ls' : List Line}
    (h : Refused start ls) (hchange : Change w ls kind ls') : Refused start ls' := by
  obtain ⟨⟨e, he⟩, hmapped, hslots, hdefaults⟩ := h
  rcases hchange.rewrites with ⟨v, hv, hseq, rfl⟩ | ⟨r, header, body, hr, -, -⟩
  · rw [← mappedVariants_eq hv hseq]
    obtain ⟨hslots', hdefaults'⟩ := slots_defaults_mappedVariants ls
    obtain ⟨header, body, hopened, hmix⟩ := Region.exists_error_iff.1 ⟨e, he⟩
    refine ⟨Region.exists_error_iff.2 ⟨header, body, ?_, hmix⟩,
      (mappedVariants_idem ls).trans hmapped, hslots'.trans hslots, hdefaults'.trans hdefaults⟩
    exact (opened_mappedVariants (by decide : "variants".toList ≠ "props".toList) ls).trans hopened
  · rcases properties_cases hr with ⟨hprops, -⟩ | ⟨props, hprops, -⟩ <;>
    · rw [he] at hprops
      cases hprops

/-- Only a sequence as a default has no fix. -/
theorem kind_of_not_isAutoFixable {f : Finding} (h : f.kind.isAutoFixable = false) :
    (f.kind == .sequenceForMapping .variantsDefault) = true := by
  cases hkind : f.kind with
  | sequenceForMapping target =>
    cases target with
    | variantsDefault => rfl
    | variantsRoot =>
      rw [hkind] at h
      cases h
  | emptyCollection realign =>
    rw [hkind] at h
    cases h
  | nameConflict name collapse =>
    rw [hkind] at h
    cases h
  | legacyCall call =>
    rw [hkind] at h
    cases h

/-- Where nothing is left to fix, the variants are mapped. -/
theorem mappedVariants_of_settled {w : Nat} {path : String} {t : Text}
    (h : nextFix? w path t = none) : mappedVariants (Line.ofText t) = Line.ofText t := by
  unfold mappedVariants
  split
  · next v hv =>
    rcases variantsDefects_cases (found_eq_some_iff.1 hv) with ⟨-, hdefects⟩ | ⟨hseq, -⟩
    · have hmem : (v.inlineSpan, FindingKind.sequenceForMapping .variantsRoot) ∈
          variantsDefects (Sections.ofLines (Line.ofText t)) := by
        rw [hdefects]
        exact List.mem_singleton_self _
      have hauto : true = false := nextFix?_eq_none_iff.1 h _ (List.mem_map_of_mem
        (List.mem_append_left _ (List.mem_append_right _ hmem)))
      cases hauto
    · rw [if_neg (by rw [hseq]; decide)]
  · rfl

/-! ## Texts around the props -/

/-- A text in three parts. -/
structure Cut where
  front : Text
  inside : Text
  behind : Text

/-- The text that the parts make up. -/
def Cut.text (c : Cut) : Text := c.front ++ (c.inside ++ c.behind)

/-- Where the props cut a text.  Props that are refused have no extent: the text stands in front of
them. -/
def cutAtProps (t : Text) : Cut :=
  match found (Sections.ofLines (Line.ofText t)).props with
  | some props => ⟨Line.join props.before, Text.slice t props.span, Line.join props.after⟩
  | none => ⟨t, [], []⟩

/-- A text with an empty mapping for the value of the first variants section, where that is an empty
sequence and the section is not refused. -/
def mapVariants (t : Text) : Text :=
  match found (Sections.ofLines (Line.ofText t)).variants with
  | some v =>
    if Region.isEmptySequence v.inline then
      (Text.splice? t v.inlineSpan "{}".toList).getD t
    else t
  | none => t

/-- The first variants section of the outer parts, mapped. -/
def Cut.mapVariants (c : Cut) : Cut :=
  if (Line.ofText c.front).any (opensSection "variants".toList) then
    { c with front := Component.mapVariants c.front }
  else { c with behind := Component.mapVariants c.behind }

theorem cutAtProps_of_refused {t : Text} {e : RegionError}
    (h : (Sections.ofLines (Line.ofText t)).props = .error e) : cutAtProps t = ⟨t, [], []⟩ := by
  simp only [cutAtProps, h, found]

theorem cutAtProps_of_found {t : Text} {props : Region}
    (h : (Sections.ofLines (Line.ofText t)).props = .ok (some props)) :
    cutAtProps t = ⟨Line.join props.before, Line.join (props.header :: props.body),
      Line.join props.after⟩ := by
  have hslice := Region.slice_span props
  rw [text_of_isIn (isIn_of_props h).1] at hslice
  simp only [cutAtProps, h, found, hslice]

/-- The parts make up the text. -/
theorem text_cutAtProps (t : Text) : (cutAtProps t).text = t := by
  cases hfound : found (Sections.ofLines (Line.ofText t)).props with
  | none => simp only [cutAtProps, hfound, Cut.text, List.append_nil]
  | some props =>
    have hprops := found_eq_some_iff.1 hfound
    have htext := text_of_isIn (isIn_of_props hprops).1
    rw [Region.text, Region.lines] at htext
    rw [cutAtProps_of_found hprops, Cut.text, ← htext]
    simp only [← Line.join_append, List.cons_append]

theorem mapVariants_eq (t : Text) :
    mapVariants t = Line.join (mappedVariants (Line.ofText t)) := by
  rw [mapVariants, mappedVariants]
  cases hv : found (Sections.ofLines (Line.ofText t)).variants with
  | none => exact (Line.join_ofText t).symm
  | some v =>
    have hin := isIn_of_variants (found_eq_some_iff.1 hv)
    by_cases hseq : Region.isEmptySequence v.inline = true
    · have hsplice := Region.splice_inlineSpan hin.hasKey hseq
      rw [text_of_isIn hin, Text.splice] at hsplice
      simp only [if_pos hseq]
      split at hsplice
      · next t' ht' =>
        rw [ht', Option.getD_some]
        exact Except.ok.inj hsplice
      · cases hsplice
    · simp only [if_neg hseq, Line.join_ofText]

theorem mapVariants_join (h : Line.AreRead ls) :
    mapVariants (Line.join ls) = Line.join (mappedVariants ls) := by
  rw [mapVariants_eq, Line.ofText_join h]

theorem mapVariants_nil : mapVariants [] = [] := rfl

/-- A text that stands in front of everything is mapped as a whole. -/
theorem text_mapVariants_of_front (t : Text) :
    { Cut.mapVariants ⟨t, [], []⟩ with inside := [] }.text = mapVariants t := by
  unfold Cut.mapVariants
  split
  · simp only [Cut.text, List.append_nil]
  · next hany =>
    have hnone : ∀ l ∈ Line.ofText t, opensSection "variants".toList l = false := by
      simpa using hany
    simp only [Cut.text, mapVariants_nil, List.append_nil, mapVariants_eq t,
      mappedVariants_of_forall hnone, Line.join_ofText]

/-- Of lines around the props the outer parts are mapped as the sides are. -/
theorem mapVariants_of_sides {inside : Text} (hxs : Line.AreRead xs) (hys : Line.AreRead ys) :
    Cut.mapVariants ⟨Line.join xs, inside, Line.join ys⟩ =
      ⟨Line.join (mappedSides xs ys).1, inside, Line.join (mappedSides xs ys).2⟩ := by
  rw [Cut.mapVariants, mappedSides, Line.ofText_join hxs]
  split
  · rw [mapVariants_join hxs]
  · rw [mapVariants_join hys]

/-- What the lines of the end of a run say of its text. -/
theorem exists_slots_of_opened {start : List Line} {slots : Region}
    (h : opened (opensSection "slots".toList) ls = opened (opensSection "slots".toList) start)
    (hslots : (Sections.ofLines start).slots = .ok (some slots)) :
    ∃ slots' : Region,
      (Sections.ofLines ls).slots = .ok (some slots') ∧ slots'.raw = slots.raw := by
  obtain ⟨hopened, hmix⟩ := Region.opened_of_locate hslots
  obtain ⟨slots', hslots', -, hbody⟩ := Region.exists_of_opened (h.trans hopened) hmix [] []
  exact ⟨slots', hslots', by rw [Region.raw, hbody]; rfl⟩

/-- What is left to a human in the end are the sequence defaults. -/
theorem map_before_manual {w : Nat} {path : String} {t : Text} {o : Outcome}
    (h : repair w path t = .ok o) :
    o.manual.map Finding.before = defaultTexts (Line.ofText o.text) := by
  obtain ⟨-, hsettled, hmanual, -⟩ := passes_of_repair h
  rw [← map_before_defaults w path, hmanual, List.filter_eq_self.2]
  intro f hf
  rw [← hmanual] at hf
  exact kind_of_not_isAutoFixable (nextFix?_eq_none_iff.1 hsettled f hf)

/-- The lines of a run that found the props. -/
theorem framed_of_props {props : Region} (h : (Sections.ofLines ls).props = .ok (some props)) :
    Framed props.before props.header props.after ls := by
  obtain ⟨hin, hdepth, hfirst⟩ := isIn_of_props h
  refine ⟨hfirst, Region.opensSection_header h, ?_, props.body, hin.lines_eq.symm, ?_⟩
  · rw [← hdepth]
    exact hin.closes_after
  · exact below_zero_of_sublist hin (List.Sublist.refl _)

/-- **A repair writes inside the props and maps the variants.**  In a text with a header of props
the parts outside the props stay as they are but for an empty sequence as value of the first
variants section; refused props stay as they are too.  The slots have the same text, and what is
left to a human are the sequence defaults of the first scan. -/
theorem repair_frames_props {w : Nat} {path : String} {t : Text} {o : Outcome}
    (hprops : ∃ l ∈ Line.ofText t, opensSection "props".toList l = true)
    (h : repair w path t = .ok o) :
    (cutAtProps t).text = t ∧
      (∃ inside, o.text = { (cutAtProps t).mapVariants with inside := inside }.text ∧
        ((cutAtProps t).inside = [] → inside = [])) ∧
      (∀ slots, (Sections.ofLines (Line.ofText t)).slots = .ok (some slots) →
        ∃ slots', (Sections.ofLines (Line.ofText o.text)).slots = .ok (some slots') ∧
          slots'.raw = slots.raw) ∧
      o.manual.map Finding.before = ((scan w path t).findings.filter
        fun f => f.kind == .sequenceForMapping .variantsDefault).map Finding.before := by
  obtain ⟨hpasses, hsettled, -, -⟩ := passes_of_repair h
  have hend := mappedVariants_of_settled hsettled
  rw [map_before_manual h, map_before_defaults]
  refine ⟨text_cutAtProps t, ?_⟩
  cases hfound : (Sections.ofLines (Line.ofText t)).props with
  | error e =>
    have hstart : Refused (Line.ofText t) (Line.ofText t) := ⟨⟨e, hfound⟩, rfl, rfl, rfl⟩
    obtain ⟨-, hmapped, hslots, hdefaults⟩ := hpasses.preserves (P := Refused (Line.ofText t))
      (fun _ _ _ hr hchange => hr.change hchange) hstart
    have htext : o.text = mapVariants t := by
      rw [mapVariants_eq, ← hmapped, hend, Line.join_ofText]
    refine ⟨⟨[], ?_, fun _ => rfl⟩, fun slots => exists_slots_of_opened hslots, hdefaults⟩
    rw [cutAtProps_of_refused hfound, htext, text_mapVariants_of_front]
  | ok props? =>
    cases props? with
    | none =>
      obtain ⟨l, hl, hopens⟩ := hprops
      have hnone := Region.forall_of_locate_eq_none hfound l hl
      exact absurd (hnone.symm.trans hopens) (by decide)
    | some props =>
      have hin := (isIn_of_props hfound).1
      have hstart : Surrounded props.before props.header props.after (Line.ofText t)
          (Line.ofText t) := ⟨⟨_, _, framed_of_props hfound, rfl⟩, rfl, rfl⟩
      obtain ⟨⟨xs, ys, hframed', hsides⟩, hslots, hdefaults⟩ := hpasses.preserves
        (P := Surrounded props.before props.header props.after (Line.ofText t))
        (fun _ _ _ hs hchange => hs.change hchange) hstart
      -- Nothing is left to map on the sides of the last lines.
      rw [hframed'.mappedSides_eq hend] at hsides
      obtain ⟨ms, hms, -⟩ := hframed'.exists_eq
      have hread : Line.AreRead (props.before ++ props.header :: (props.body ++ props.after)) :=
        areRead_of_isIn hin
      have hreadFront := hread.sublist (List.sublist_append_left _ _)
      have hreadBehind := hread.sublist ((List.sublist_append_right props.body props.after).trans
        ((List.sublist_cons_self _ _).trans (List.sublist_append_right _ _)))
      rw [cutAtProps_of_found hfound, mapVariants_of_sides hreadFront hreadBehind, ← hsides]
      refine ⟨⟨Line.join (props.header :: ms), ?_, ?_⟩,
        fun slots => exists_slots_of_opened hslots, hdefaults⟩
      · rw [← Line.join_ofText o.text, hms]
        simp only [Cut.text, ← Line.join_append, List.cons_append]
      · -- The header of the props is no empty line.
        intro hnil
        rw [Line.join_cons, Line.toText, List.append_eq_nil_iff, List.append_eq_nil_iff] at hnil
        have hcontent := Line.body_ne_nil hin.isContent_header
        rw [Line.content_eq, List.append_eq_nil_iff] at hnil
        exact absurd hnil.1.1.2 hcontent

/-- Variants in front of the props are mapped, slots behind them stay. -/
theorem repair_frames_props_between :
    (∃ l ∈ Line.ofText "variants: []\nprops:\n  properties:\nslots:\n  a: b\n".toList,
        opensSection "props".toList l = true) ∧
      ∃ inside, "variants: {}\nprops:\n  properties: {}\nslots:\n  a: b\n".toList =
        "variants: {}\n".toList ++ (inside ++ "slots:\n  a: b\n".toList) := by
  have hprops : ∃ l ∈ Line.ofText "variants: []\nprops:\n  properties:\nslots:\n  a: b\n".toList,
      opensSection "props".toList l = true := by decide
  have hrepair : repair 2 "card.yml"
      "variants: []\nprops:\n  properties:\nslots:\n  a: b\n".toList =
      .ok ⟨"variants: {}\nprops:\n  properties: {}\nslots:\n  a: b\n".toList,
        [⟨"card.yml", 3, ⟨33, 33⟩, [], .emptyCollection none⟩,
          ⟨"card.yml", 1, ⟨10, 12⟩, "[]".toList, .sequenceForMapping .variantsRoot⟩], [], []⟩ := rfl
  obtain ⟨-, ⟨inside, hinside, -⟩, -⟩ := repair_frames_props hprops hrepair
  exact ⟨hprops, inside, hinside⟩

/-- Variants that mix their indentation keep an empty sequence in their header. -/
theorem repair_keeps_refused_variants :
    cutAtProps "props:\nvariants: []\n  a: x\n\tb: y\n".toList =
        ⟨[], "props:\n".toList, "variants: []\n  a: x\n\tb: y\n".toList⟩ ∧
      ∃ o, repair 2 "card.yml" "props:\nvariants: []\n  a: x\n\tb: y\n".toList = .ok o ∧
        ∀ inside, o.text ≠ [] ++ (inside ++ "variants: {}\n  a: x\n\tb: y\n".toList) := by
  refine ⟨rfl, ⟨"props:\nvariants: []\n  a: x\n\tb: y\n".toList, [], [],
    [.ambiguous "variants".toList 2]⟩, rfl, fun inside htext => ?_⟩
  have hsuffix : "variants: {}\n  a: x\n\tb: y\n".toList <:+
      "props:\nvariants: []\n  a: x\n\tb: y\n".toList := ⟨inside, htext.symm⟩
  exact absurd hsuffix (by decide)

end Component
end ThemeRepair
