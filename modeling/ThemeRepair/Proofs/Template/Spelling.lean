import ThemeRepair.Proofs.Text.White
import ThemeRepair.Template.Call

/-!
# How old heading calls are written

The recognisers of heads and tails are told by the texts that they recognise.  `HeadText` is the
way a head is written, `TailText` the way a tail is written, with all the white space and both
kinds of quotes that a writer may choose from.  A text starts with a head exactly if it is such a
spelling and a rest (`callHead?_eq_some_iff`), and likewise for tails (`callTail?_eq_some_iff`);
in both cases the recogniser finds the parts that were written.

From the spelling follows what no head can hold: between its first two characters and the brace
that ends it there is none of the characters that could begin or end a piece of an expression
(`HeadText.exists_eq`).
-/

namespace ThemeRepair
namespace Template

/-! ## Spellings -/

/-- The mark that trims white space, or nothing. -/
def dash (trim : Bool) : Text := if trim then ['-'] else []

/-- The names of the old heading templates. -/
inductive TemplateName : Text → Prop
  | level (d : Char) (low : '1' ≤ d) (high : d ≤ '6') : TemplateName ['h', d]
  | heading : TemplateName "heading".toList
  | headline : TemplateName "headline".toList

/-- The path of an old heading template, directly in its namespace or in a folder there. -/
inductive TemplatePath (ns name : Text) : Text → Prop
  | direct (hname : TemplateName name) :
      TemplatePath ns name (ns ++ '/' :: (name ++ ".html.twig".toList))
  | folder (hname : TemplateName name) :
      TemplatePath ns name (ns ++ '/' :: ("headline/".toList ++ (name ++ ".html.twig".toList)))

/-- The path of an old heading template between quotes. -/
inductive QuotedPath (ns name : Text) : Text → Prop
  | quoted {path : Text} {q q' : Char} (hpath : TemplatePath ns name path)
      (hq : isQuote q = true) (hq' : isQuote q' = true) : QuotedPath ns name (q :: (path ++ [q']))

/-- The ways to write a head. -/
inductive HeadText (ns : Text) : CallStyle → CallHead → Text → Prop
  | expression {trim : Bool} {name path w₁ w₂ w₃ w₄ : Text} (hpath : QuotedPath ns name path)
      (h₁ : Text.isAllWhite w₁ = true) (h₂ : Text.isAllWhite w₂ = true)
      (h₃ : Text.isAllWhite w₃ = true) (h₄ : Text.isAllWhite w₄ = true) :
      HeadText ns .expression ⟨trim, name⟩
        (['{', '{'] ++ (dash trim ++ (w₁ ++ ("include(".toList ++ (w₂ ++ (path ++ (w₃ ++ ([','] ++
          (w₄ ++ ['{'])))))))))
  | statement {trim : Bool} {name path w₁ w₂ w₃ w₄ : Text} (hpath : QuotedPath ns name path)
      (h₁ : Text.isAllWhite w₁ = true) (h₂ : Text.isAllWhite w₂ = true ∧ w₂ ≠ [])
      (h₃ : Text.isAllWhite w₃ = true ∧ w₃ ≠ []) (h₄ : Text.isAllWhite w₄ = true ∧ w₄ ≠ []) :
      HeadText ns .statement ⟨trim, name⟩
        (['{', '%'] ++ (dash trim ++ (w₁ ++ ("include".toList ++ (w₂ ++ (path ++ (w₃ ++
          ("with".toList ++ (w₄ ++ ['{'])))))))))

/-- The ways to write a tail. -/
inductive TailText : CallStyle → CallTail → Text → Prop
  | expression {trim : Bool} {w₁ w₂ : Text} (h₁ : Text.isAllWhite w₁ = true)
      (h₂ : Text.isAllWhite w₂ = true) :
      TailText .expression ⟨trim, false⟩ (w₁ ++ ([')'] ++ (w₂ ++ (dash trim ++ ['}', '}']))))
  | statement {trim : Bool} {w : Text} (h : Text.isAllWhite w = true) :
      TailText .statement ⟨trim, false⟩ (w ++ (dash trim ++ ['%', '}']))
  | only {trim : Bool} {w₁ w₂ : Text} (h₁ : Text.isAllWhite w₁ = true)
      (h₂ : Text.isAllWhite w₂ = true) :
      TailText .statement ⟨trim, true⟩ (w₁ ++ ("only".toList ++ (w₂ ++ (dash trim ++ ['%', '}']))))

/-! ## White space, dashes and quotes -/

/-- A text that does not start with white space. -/
def Solid (t : Text) : Prop := t.head?.any Text.isWhite = false

theorem afterWhite_append {w t : Text} (hw : Text.isAllWhite w = true) (ht : Solid t) :
    afterWhite (w ++ t) = t := by
  rw [afterWhite, List.dropWhile_append_of_pos (Text.isAllWhite_iff.1 hw)]
  cases t with
  | nil => rfl
  | cons c t =>
    have hc : Text.isWhite c = false := by simpa [Solid] using ht
    exact List.dropWhile_cons_of_neg (by simp [hc])

theorem exists_white (t : Text) : ∃ w, Text.isAllWhite w = true ∧ t = w ++ afterWhite t :=
  ⟨t.takeWhile Text.isWhite, List.all_takeWhile, List.takeWhile_append_dropWhile.symm⟩

theorem afterSomeWhite?_append {w t : Text} (hw : Text.isAllWhite w = true ∧ w ≠ [])
    (ht : Solid t) : afterSomeWhite? (w ++ t) = some t := by
  obtain ⟨hw, hne⟩ := hw
  obtain ⟨c, w, rfl⟩ := List.exists_cons_of_ne_nil hne
  have hc : Text.isWhite c = true := Text.isAllWhite_iff.1 hw c (by simp)
  rw [afterSomeWhite?, if_pos (by simp [hc]), afterWhite_append hw ht]

theorem exists_white_of_afterSomeWhite? {t r : Text} (h : afterSomeWhite? t = some r) :
    ∃ w, (Text.isAllWhite w = true ∧ w ≠ []) ∧ t = w ++ r := by
  rw [afterSomeWhite?] at h
  split at h
  · next hc =>
    cases h
    obtain ⟨w, hw, ht⟩ := exists_white t
    refine ⟨w, ⟨hw, ?_⟩, ht⟩
    rintro rfl
    cases t with
    | nil => simp at hc
    | cons c t =>
      have hlen := congrArg List.length ht
      simp only [List.head?_cons, Option.any_some] at hc
      have := (List.dropWhile_sublist (l := t) Text.isWhite).length_le
      simp only [List.nil_append, afterWhite, List.dropWhile_cons_of_pos hc,
        List.length_cons] at hlen
      omega
  · cases h

theorem optionalDash_append {trim : Bool} {t : Text} (ht : t.head? ≠ some '-') :
    optionalDash (dash trim ++ t) = (trim, t) := by
  cases trim with
  | true => rfl
  | false =>
    cases t with
    | nil => rfl
    | cons c t =>
      have hc : ¬ '-' = c := by rintro rfl; simp at ht
      simp [optionalDash, dash, Text.after?, hc]

theorem dash_append_optionalDash (t : Text) :
    dash (optionalDash t).1 ++ (optionalDash t).2 = t := by
  rw [optionalDash]
  split
  · next hr => exact (Text.eq_append_of_after? hr).symm
  · rfl

theorem afterQuote?_eq_some_iff {t r : Text} :
    afterQuote? t = some r ↔ ∃ q, isQuote q = true ∧ t = q :: r := by
  cases t with
  | nil => simp [afterQuote?]
  | cons c t =>
    rw [afterQuote?]
    constructor
    · intro h
      split at h
      · next hc =>
        cases h
        exact ⟨c, hc, rfl⟩
      · cases h
    · rintro ⟨q, hq, ht⟩
      obtain ⟨rfl, rfl⟩ := List.cons.inj ht
      rw [if_pos hq]

/-! ## The path of the template -/

theorem templateName?_append {name : Text} (h : TemplateName name) (t : Text) :
    templateName? (name ++ t) = some (name, t) := by
  cases h with
  | level d low high => simp [templateName?, low, high]
  | heading => rfl
  | headline => rfl

theorem eq_append_of_templateName? {t name r : Text} (h : templateName? t = some (name, r)) :
    TemplateName name ∧ t = name ++ r := by
  rw [templateName?.eq_def] at h
  split at h
  · next d rest =>
    split at h
    · next hd =>
      cases h
      exact ⟨.level d hd.1 hd.2, rfl⟩
    · split at h
      · next hr =>
        cases h
        exact ⟨.heading, Text.eq_append_of_after? hr⟩
      · next hr =>
        cases h
        exact ⟨.headline, Text.eq_append_of_after? hr⟩
      · cases h
  · cases h

/-- No name of a template starts with the folder. -/
theorem TemplateName.after?_folder {name : Text} (h : TemplateName name) (t : Text) :
    Text.after? "headline/".toList (name ++ (".html.twig".toList ++ t)) = none := by
  cases h with
  | level d low high =>
    have hd : ¬ 'e' = d := by
      rintro rfl
      exact absurd high (by decide)
    simp [Text.after?, hd]
  | heading => rfl
  | headline => rfl

theorem legacyTemplate?_append {ns name path : Text} (h : TemplatePath ns name path) (t : Text) :
    legacyTemplate? ns (path ++ t) = some (name, t) := by
  cases h with
  | direct hname =>
    simp only [legacyTemplate?, List.append_assoc, List.cons_append, Text.after?_append,
      Option.bind_eq_bind, Option.bind_some, Text.after?, if_true, hname.after?_folder,
      Option.getD_none, templateName?_append hname, Option.pure_def]
  | folder hname =>
    simp only [legacyTemplate?, List.append_assoc, List.cons_append, Text.after?_append,
      Option.bind_eq_bind, Option.bind_some, Text.after?, if_true, Option.getD_some,
      templateName?_append hname, Option.pure_def]

theorem eq_append_of_legacyTemplate? {ns t name r : Text}
    (h : legacyTemplate? ns t = some (name, r)) :
    ∃ path, TemplatePath ns name path ∧ t = path ++ r := by
  simp only [legacyTemplate?, Option.bind_eq_bind, Option.bind_eq_some_iff, Option.pure_def,
    Option.some.injEq, Prod.exists, Prod.mk.injEq] at h
  obtain ⟨t₁, h₁, t₂, h₂, name', t₃, h₃, t₄, h₄, rfl, rfl⟩ := h
  obtain ⟨hname, h₃⟩ := eq_append_of_templateName? h₃
  have h₁ := Text.eq_append_of_after? h₁
  have h₂ := Text.eq_append_of_after? h₂
  have h₄ := Text.eq_append_of_after? h₄
  cases hf : Text.after? "headline/".toList t₂ with
  | none =>
    rw [hf, Option.getD_none] at h₃
    exact ⟨_, .direct hname, by simp [h₁, h₂, h₃, h₄]⟩
  | some t₅ =>
    rw [hf, Option.getD_some] at h₃
    have hf := Text.eq_append_of_after? hf
    exact ⟨_, .folder hname, by simp [h₁, h₂, hf, h₃, h₄]⟩

theorem quotedTemplate?_append {ns name path : Text} (h : QuotedPath ns name path) (t : Text) :
    quotedTemplate? ns (path ++ t) = some (name, t) := by
  cases h with
  | quoted hpath hq hq' =>
    have hfirst {q : Char} (hq : isQuote q = true) (u : Text) : afterQuote? (q :: u) = some u :=
      afterQuote?_eq_some_iff.2 ⟨q, hq, rfl⟩
    simp only [quotedTemplate?, List.cons_append, List.append_assoc, List.nil_append, hfirst hq,
      hfirst hq', Option.bind_eq_bind, Option.bind_some, legacyTemplate?_append hpath,
      Option.pure_def]

theorem eq_append_of_quotedTemplate? {ns t name r : Text}
    (h : quotedTemplate? ns t = some (name, r)) :
    ∃ path, QuotedPath ns name path ∧ t = path ++ r := by
  simp only [quotedTemplate?, Option.bind_eq_bind, Option.bind_eq_some_iff, Option.pure_def,
    Option.some.injEq, Prod.exists, Prod.mk.injEq] at h
  obtain ⟨t₁, h₁, name', t₂, h₂, t₃, h₃, rfl, rfl⟩ := h
  obtain ⟨q, hq, rfl⟩ := afterQuote?_eq_some_iff.1 h₁
  obtain ⟨path, hpath, rfl⟩ := eq_append_of_legacyTemplate? h₂
  obtain ⟨q', hq', rfl⟩ := afterQuote?_eq_some_iff.1 h₃
  exact ⟨_, .quoted hpath hq hq', by simp⟩

/-- A quoted path does not start with white space. -/
theorem QuotedPath.solid {ns name path : Text} (h : QuotedPath ns name path) (t : Text) :
    Solid (path ++ t) := by
  cases h with
  | @quoted path q q' hpath hq hq' =>
    simp only [isQuote, Bool.or_eq_true, beq_iff_eq] at hq
    rcases hq with rfl | rfl <;> rfl

/-! ## Heads -/

/-- White space does not start with a dash. -/
theorem head?_white_append {w t : Text} (hw : Text.isAllWhite w = true) (ht : t.head? ≠ some '-') :
    (w ++ t).head? ≠ some '-' := by
  cases w with
  | nil => exact ht
  | cons d w =>
    have hd := Text.isAllWhite_iff.1 hw d (by simp)
    rintro hdash
    obtain rfl : d = '-' := by simpa using hdash
    exact absurd hd (by decide)

theorem callHead?_append {ns u : Text} {style : CallStyle} {head : CallHead}
    (h : HeadText ns style head u) (t : Text) : callHead? ns style (u ++ t) = some (head, t) := by
  cases h with
  | @expression trim name path w₁ w₂ w₃ w₄ hpath h₁ h₂ h₃ h₄ =>
    have hdash (x : Text) : optionalDash (dash trim ++ (w₁ ++ ("include(".toList ++ x))) =
        (trim, w₁ ++ ("include(".toList ++ x)) :=
      optionalDash_append (head?_white_append h₁ (by rintro ⟨⟩))
    simp only [callHead?, List.append_assoc, Text.after?_append, Option.bind_eq_bind,
      Option.bind_some, hdash, afterWhite_append h₁ (show Solid ("include(".toList ++ _) from rfl),
      afterWhite_append h₂ (hpath.solid _), quotedTemplate?_append hpath,
      afterWhite_append h₃ (show Solid ([','] ++ _) from rfl),
      afterWhite_append h₄ (show Solid (['{'] ++ _) from rfl), Option.pure_def]
  | @statement trim name path w₁ w₂ w₃ w₄ hpath h₁ h₂ h₃ h₄ =>
    have hdash (x : Text) : optionalDash (dash trim ++ (w₁ ++ ("include".toList ++ x))) =
        (trim, w₁ ++ ("include".toList ++ x)) :=
      optionalDash_append (head?_white_append h₁ (by rintro ⟨⟩))
    simp only [callHead?, List.append_assoc, Text.after?_append, Option.bind_eq_bind,
      Option.bind_some, hdash, afterWhite_append h₁ (show Solid ("include".toList ++ _) from rfl),
      afterSomeWhite?_append h₂ (hpath.solid _), quotedTemplate?_append hpath,
      afterSomeWhite?_append h₃ (show Solid ("with".toList ++ _) from rfl),
      afterSomeWhite?_append h₄ (show Solid (['{'] ++ _) from rfl), Option.pure_def]

theorem exists_headText_of_callHead? {ns t r : Text} {style : CallStyle} {head : CallHead}
    (h : callHead? ns style t = some (head, r)) :
    ∃ u, HeadText ns style head u ∧ t = u ++ r := by
  cases style with
  | expression =>
    simp only [callHead?, Option.bind_eq_bind, Option.bind_eq_some_iff, Option.pure_def,
      Option.some.injEq, Prod.exists, Prod.mk.injEq] at h
    obtain ⟨t₁, h₁, t₂, h₂, name, t₃, h₃, t₄, h₄, t₅, h₅, rfl, rfl⟩ := h
    obtain ⟨w₁, hw₁, e₁⟩ := exists_white (optionalDash t₁).2
    obtain ⟨w₂, hw₂, e₂⟩ := exists_white t₂
    obtain ⟨path, hpath, e₃⟩ := eq_append_of_quotedTemplate? h₃
    obtain ⟨w₃, hw₃, e₄⟩ := exists_white t₃
    obtain ⟨w₄, hw₄, e₅⟩ := exists_white t₄
    refine ⟨_, .expression hpath hw₁ hw₂ hw₃ hw₄, ?_⟩
    have hrest : t₁ = dash (optionalDash t₁).1 ++ (w₁ ++ ("include(".toList ++ (w₂ ++ (path ++
        (w₃ ++ ([','] ++ (w₄ ++ (['{'] ++ t₅)))))))) := by
      rw [← Text.eq_append_of_after? h₅, ← e₅, ← Text.eq_append_of_after? h₄, ← e₄, ← e₃, ← e₂,
        ← Text.eq_append_of_after? h₂, ← e₁]
      exact (dash_append_optionalDash t₁).symm
    rw [Text.eq_append_of_after? h₁]
    simp only [List.append_assoc]
    rw [← hrest]
  | statement =>
    simp only [callHead?, Option.bind_eq_bind, Option.bind_eq_some_iff, Option.pure_def,
      Option.some.injEq, Prod.exists, Prod.mk.injEq] at h
    obtain ⟨t₁, h₁, t₂, h₂, t₃, h₃, name, t₄, h₄, t₅, h₅, t₆, h₆, t₇, h₇, t₈, h₈, rfl, rfl⟩ := h
    obtain ⟨w₁, hw₁, e₁⟩ := exists_white (optionalDash t₁).2
    obtain ⟨w₂, hw₂, e₂⟩ := exists_white_of_afterSomeWhite? h₃
    obtain ⟨path, hpath, e₃⟩ := eq_append_of_quotedTemplate? h₄
    obtain ⟨w₃, hw₃, e₄⟩ := exists_white_of_afterSomeWhite? h₅
    obtain ⟨w₄, hw₄, e₅⟩ := exists_white_of_afterSomeWhite? h₇
    refine ⟨_, .statement hpath hw₁ hw₂ hw₃ hw₄, ?_⟩
    have hrest : t₁ = dash (optionalDash t₁).1 ++ (w₁ ++ ("include".toList ++ (w₂ ++ (path ++
        (w₃ ++ ("with".toList ++ (w₄ ++ (['{'] ++ t₈)))))))) := by
      rw [← Text.eq_append_of_after? h₈, ← e₅, ← Text.eq_append_of_after? h₆, ← e₄, ← e₃, ← e₂,
        ← Text.eq_append_of_after? h₂, ← e₁]
      exact (dash_append_optionalDash t₁).symm
    rw [Text.eq_append_of_after? h₁]
    simp only [List.append_assoc]
    rw [← hrest]

/-- A text starts with a head exactly if it is a spelling of the head and the rest. -/
theorem callHead?_eq_some_iff {ns t r : Text} {style : CallStyle} {head : CallHead} :
    callHead? ns style t = some (head, r) ↔ ∃ u, HeadText ns style head u ∧ t = u ++ r := by
  constructor
  · exact exists_headText_of_callHead?
  · rintro ⟨u, hu, rfl⟩
    exact callHead?_append hu r

/-- A text that is read as a head as a whole is a spelling of it. -/
theorem headText_of_callHead? {ns u : Text} {style : CallStyle} {head : CallHead}
    (h : callHead? ns style u = some (head, [])) : HeadText ns style head u := by
  obtain ⟨u', hu', rfl⟩ := callHead?_eq_some_iff.1 h
  rwa [List.append_nil]

/-! ## What a head holds -/

/-- The characters that a head can hold between its first two characters and the brace that ends
it: none that begins or ends an expression or a statement, and no colon. -/
def isHeadInside (c : Char) : Bool :=
  c != '{' && c != '}' && c != '%' && c != ':'

theorem isHeadInside_of_isWhite {c : Char} (h : Text.isWhite c = true) : isHeadInside c = true := by
  simp only [isHeadInside, Bool.and_eq_true, bne_iff_ne, ne_eq]
  refine ⟨⟨⟨?_, ?_⟩, ?_⟩, ?_⟩ <;> rintro rfl <;> exact absurd h (by decide)

theorem all_isHeadInside_of_isAllWhite {w : Text} (h : Text.isAllWhite w = true) :
    w.all isHeadInside = true := by
  rw [List.all_eq_true]
  intro c hc
  exact isHeadInside_of_isWhite (Text.isAllWhite_iff.1 h c hc)

theorem TemplateName.all_isHeadInside {name : Text} (h : TemplateName name) :
    name.all isHeadInside = true := by
  cases h with
  | level d low high =>
    have hd : isHeadInside d = true := by
      simp only [isHeadInside, Bool.and_eq_true, bne_iff_ne, ne_eq]
      refine ⟨⟨⟨?_, ?_⟩, ?_⟩, ?_⟩ <;> rintro rfl
      · exact absurd high (by decide)
      · exact absurd high (by decide)
      · exact absurd low (by decide)
      · exact absurd high (by decide)
    simp only [List.all_cons, hd, List.all_nil, Bool.and_true]
    rfl
  | heading => rfl
  | headline => rfl

theorem QuotedPath.all_isHeadInside {ns name path : Text} (hns : ns.all isHeadInside = true)
    (h : QuotedPath ns name path) : path.all isHeadInside = true := by
  cases h with
  | @quoted path q q' hpath hq hq' =>
    have hquote {q : Char} (hq : isQuote q = true) : isHeadInside q = true := by
      simp only [isQuote, Bool.or_eq_true, beq_iff_eq] at hq
      rcases hq with rfl | rfl <;> rfl
    have hpath : path.all isHeadInside = true := by
      cases hpath with
      | direct hname =>
        simp only [List.all_append, List.all_cons, hns, hname.all_isHeadInside, Bool.true_and]
        rfl
      | folder hname =>
        simp only [List.all_append, List.all_cons, hns, hname.all_isHeadInside, Bool.true_and]
        rfl
    simp [hpath, hquote hq, hquote hq']

/-- The character behind the first brace of a head. -/
def CallStyle.second : CallStyle → Char
  | .expression => '{'
  | .statement => '%'

/-- A head is a brace and the character of its style, an inside, and the brace that ends it. -/
theorem HeadText.exists_eq {ns u : Text} {style : CallStyle} {head : CallHead}
    (hns : ns.all isHeadInside = true) (h : HeadText ns style head u) :
    ∃ mid, u = '{' :: style.second :: (mid ++ ['{']) ∧ mid.all isHeadInside = true ∧ mid ≠ [] := by
  have hdash (trim : Bool) : (dash trim).all isHeadInside = true := by cases trim <;> rfl
  cases h with
  | @expression trim name path w₁ w₂ w₃ w₄ hpath h₁ h₂ h₃ h₄ =>
    refine ⟨dash trim ++ (w₁ ++ ("include(".toList ++ (w₂ ++ (path ++ (w₃ ++ ([','] ++ w₄)))))),
      by simp [CallStyle.second], ?_, by simp⟩
    simp only [List.all_append, hdash, all_isHeadInside_of_isAllWhite h₁,
      all_isHeadInside_of_isAllWhite h₂, all_isHeadInside_of_isAllWhite h₃,
      all_isHeadInside_of_isAllWhite h₄, hpath.all_isHeadInside hns]
    rfl
  | @statement trim name path w₁ w₂ w₃ w₄ hpath h₁ h₂ h₃ h₄ =>
    refine ⟨dash trim ++ (w₁ ++ ("include".toList ++ (w₂ ++ (path ++ (w₃ ++
      ("with".toList ++ w₄)))))), by simp [CallStyle.second], ?_, by simp⟩
    simp only [List.all_append, hdash, all_isHeadInside_of_isAllWhite h₁,
      all_isHeadInside_of_isAllWhite h₂.1, all_isHeadInside_of_isAllWhite h₃.1,
      all_isHeadInside_of_isAllWhite h₄.1, hpath.all_isHeadInside hns]
    rfl

/-- The characters that join pieces of an expression, none of which a head holds. -/
def isJoint (c : Char) : Bool := c == ':' || c == '}'

theorem HeadText.not_mem_of_isJoint {ns u : Text} {style : CallStyle} {head : CallHead} {c : Char}
    (hns : ns.all isHeadInside = true) (h : HeadText ns style head u) (hc : isJoint c = true) :
    c ∉ u := by
  obtain ⟨mid, rfl, hinside, -⟩ := h.exists_eq hns
  simp only [isJoint, Bool.or_eq_true, beq_iff_eq] at hc
  rw [List.all_eq_true] at hinside
  intro hmem
  simp only [List.mem_cons, List.mem_append, List.not_mem_nil, or_false] at hmem
  rcases hc with rfl | rfl
  all_goals
    rcases hmem with hmem | hmem | hmem | hmem
    · exact absurd hmem (by decide)
    · cases style <;> exact absurd hmem (by decide)
    · exact absurd (hinside _ hmem) (by decide)
    · exact absurd hmem (by decide)

/-! ## Tails -/

theorem solid_dash_append {trim : Bool} {t : Text} (ht : Solid t) : Solid (dash trim ++ t) := by
  cases trim with
  | true => rfl
  | false => exact ht

theorem callTail?_append {style : CallStyle} {tail : CallTail} {v : Text}
    (h : TailText style tail v) (t : Text) : callTail? style (v ++ t) = some (tail, t) := by
  cases h with
  | @expression trim w₁ w₂ h₁ h₂ =>
    have hdash : optionalDash (dash trim ++ (['}', '}'] ++ t)) = (trim, ['}', '}'] ++ t) :=
      optionalDash_append (by rintro ⟨⟩)
    simp only [callTail?, List.append_assoc, afterWhite_append h₁ (show Solid ([')'] ++ _) from rfl),
      Text.after?_append, Option.bind_eq_bind, Option.bind_some,
      afterWhite_append h₂ (solid_dash_append (show Solid (['}', '}'] ++ t) from rfl)), hdash,
      Option.pure_def]
  | @statement trim w h =>
    have hdash : optionalDash (dash trim ++ (['%', '}'] ++ t)) = (trim, ['%', '}'] ++ t) :=
      optionalDash_append (by rintro ⟨⟩)
    have honly : Text.after? "only".toList (dash trim ++ (['%', '}'] ++ t)) = none := by
      cases trim <;> rfl
    simp only [callTail?, List.append_assoc, Text.after?_append, Option.bind_eq_bind,
      Option.bind_some, afterWhite_append h (solid_dash_append (show Solid (['%', '}'] ++ t) from rfl)),
      honly, hdash, Option.pure_def]
  | @only trim w₁ w₂ h₁ h₂ =>
    have hdash : optionalDash (dash trim ++ (['%', '}'] ++ t)) = (trim, ['%', '}'] ++ t) :=
      optionalDash_append (by rintro ⟨⟩)
    simp only [callTail?, List.append_assoc, Text.after?_append, Option.bind_eq_bind,
      Option.bind_some, afterWhite_append h₁ (show Solid ("only".toList ++ _) from rfl),
      afterWhite_append h₂ (solid_dash_append (show Solid (['%', '}'] ++ t) from rfl)), hdash,
      Option.pure_def]

theorem exists_tailText_of_callTail? {style : CallStyle} {tail : CallTail} {t r : Text}
    (h : callTail? style t = some (tail, r)) : ∃ v, TailText style tail v ∧ t = v ++ r := by
  obtain ⟨w₁, hw₁, e₁⟩ := exists_white t
  cases style with
  | expression =>
    simp only [callTail?, Option.bind_eq_bind, Option.bind_eq_some_iff, Option.pure_def,
      Option.some.injEq, Prod.mk.injEq] at h
    obtain ⟨t₁, h₁, t₂, h₂, rfl, rfl⟩ := h
    obtain ⟨w₂, hw₂, e₂⟩ := exists_white t₁
    refine ⟨_, .expression hw₁ hw₂, ?_⟩
    have hrest : t₁ = w₂ ++ (dash (optionalDash (afterWhite t₁)).1 ++ (['}', '}'] ++ t₂)) := by
      rw [← Text.eq_append_of_after? h₂, dash_append_optionalDash]
      exact e₂
    simp only [List.append_assoc]
    rw [← hrest, ← Text.eq_append_of_after? h₁]
    exact e₁
  | statement =>
    simp only [callTail?, Option.bind_eq_bind, Option.bind_eq_some_iff, Option.pure_def,
      Option.some.injEq, Prod.mk.injEq] at h
    obtain ⟨t₁, h₁, rfl, rfl⟩ := h
    cases honly : Text.after? "only".toList (afterWhite t) with
    | none =>
      simp only [honly] at h₁
      refine ⟨_, .statement hw₁, ?_⟩
      simp only [List.append_assoc]
      rw [← Text.eq_append_of_after? h₁, dash_append_optionalDash]
      exact e₁
    | some t₂ =>
      simp only [honly] at h₁
      obtain ⟨w₂, hw₂, e₂⟩ := exists_white t₂
      refine ⟨_, .only hw₁ hw₂, ?_⟩
      simp only [List.append_assoc]
      rw [← Text.eq_append_of_after? h₁, dash_append_optionalDash, ← e₂,
        ← Text.eq_append_of_after? honly]
      exact e₁

/-- A text starts with a tail exactly if it is a spelling of the tail and the rest. -/
theorem callTail?_eq_some_iff {style : CallStyle} {tail : CallTail} {t r : Text} :
    callTail? style t = some (tail, r) ↔ ∃ v, TailText style tail v ∧ t = v ++ r := by
  constructor
  · exact exists_tailText_of_callTail?
  · rintro ⟨v, hv, rfl⟩
    exact callTail?_append hv r

/-- A text that is read as a tail as a whole is a spelling of it. -/
theorem tailText_of_callTail? {style : CallStyle} {tail : CallTail} {v : Text}
    (h : callTail? style v = some (tail, [])) : TailText style tail v := by
  obtain ⟨v', hv', rfl⟩ := callTail?_eq_some_iff.1 h
  rwa [List.append_nil]

end Template
end ThemeRepair
