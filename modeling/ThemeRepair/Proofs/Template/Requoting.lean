import ThemeRepair.Proofs.Template.Literal
import ThemeRepair.Proofs.Template.ReadBack

/-!
# What a value written with other quotes means

The tag, the level and the classes of a heading are written again, with single quotes where a value
is a string literal.  `Denotes m` tells what the text of a value means: a literal is what stands
between its quotes, with the escapes taken away, which is done alike for both kinds of quotes; but
only between double quotes does `#{` begin an expression whose value takes its place.

* `sameValue_requote_iff` — a value written again means what it meant before, unless it is a literal
  between double quotes that holds an expression and no quote of either kind.
* `requoting_keeps_values_iff` — so it is with the arguments of every finding.
* `requoting_drops_interpolation` — and there are findings in which an expression is lost.
-/

namespace ThemeRepair
namespace Template

/-! ## The meaning of values -/

/-- A way to evaluate expressions: the values, those that are strings, how a value is printed, what
the expressions are in some context, and how escapes are taken away. -/
structure Semantics where
  Value : Type
  ofText : Text → Value
  print : Value → Text
  eval : Text → Value
  unescape : Text → Text
  print_ofText : ∀ t, print (ofText t) = t
  unescape_plain : ∀ t, '\\' ∉ t → unescape t = t

/-- The inside of a literal holds a mark that begins an expression, and no backslash takes the mark
along. -/
def Interpolates (i : Text) : Prop :=
  ∃ run behind, i = run ++ '#' :: '{' :: behind ∧ LiteralBody '"' run

/-- The string that stands between two double quotes: runs without their escapes, and expressions
as they are printed. -/
inductive DenotesInside (m : Semantics) : Text → Text → Prop
  | run {t : Text} (ht : LiteralBody '"' t) (hrun : ¬ Interpolates t) :
      DenotesInside m t (m.unescape t)
  | piece {t e u s : Text} (ht : LiteralBody '"' t) (hrun : ¬ Interpolates t) (he : Balanced e)
      (hu : DenotesInside m u s) :
      DenotesInside m (t ++ '#' :: '{' :: (e ++ '}' :: u))
        (m.unescape t ++ (m.print (m.eval e) ++ s))

/-- A text is one string literal. -/
def IsLiteral (m : Semantics) (v : Text) : Prop :=
  (∃ i, v = '\'' :: (i ++ ['\'']) ∧ LiteralBody '\'' i) ∨
    ∃ i s, v = '"' :: (i ++ ['"']) ∧ DenotesInside m i s

/-- The value of the text of an argument.  A bare integer stands for its digits. -/
inductive Denotes (m : Semantics) : Text → m.Value → Prop
  | integer {v : Text} (hv : isDigits v = true) : Denotes m v (m.ofText v)
  | single {i : Text} (hi : LiteralBody '\'' i) :
      Denotes m ('\'' :: (i ++ ['\''])) (m.ofText (m.unescape i))
  | double {i s : Text} (hi : DenotesInside m i s) : Denotes m ('"' :: (i ++ ['"'])) (m.ofText s)
  | expression {v : Text} (hdigits : isDigits v = false) (hliteral : ¬ IsLiteral m v) :
      Denotes m v (m.eval v)

/-- Two texts have the same value in all contexts. -/
def SameValue (v v' : Text) : Prop :=
  ∀ (m : Semantics) (x : m.Value), Denotes m v x ↔ Denotes m v' x

/-- A literal between double quotes that holds an expression, and no quote of either kind. -/
def LosesInterpolation (v : Text) : Prop :=
  ∃ i, v = '"' :: (i ++ ['"']) ∧ '"' ∉ i ∧ '\'' ∉ i ∧ Interpolates i

/-! ## Literals and their values -/

section Values

variable {m : Semantics} {v i : Text} {q : Char} {x : m.Value}

theorem isDigits_quoted (hq : isQuote q = true) (t : Text) : isDigits (q :: t) = false := by
  simp only [isQuote, Bool.or_eq_true, beq_iff_eq] at hq
  rcases hq with rfl | rfl <;> simp [isDigits]

theorem denotes_single_iff (hi : LiteralBody '\'' i) :
    Denotes m ('\'' :: (i ++ ['\''])) x ↔ x = m.ofText (m.unescape i) := by
  constructor
  · generalize hv : '\'' :: (i ++ ['\'']) = v
    intro h
    cases h with
    | integer hdigits =>
      rw [← hv, isDigits_quoted (by decide)] at hdigits
      cases hdigits
    | single hi' =>
      obtain rfl := List.append_cancel_right (List.cons.inj hv).2
      rfl
    | double hi' => exact absurd (List.cons.inj hv).1 (by decide)
    | expression _ hliteral => exact absurd (.inl ⟨i, hv.symm, hi⟩) hliteral
  · rintro rfl
    exact .single hi

/-- What is between double quotes is a string, or it is an expression that is no literal. -/
theorem Denotes.of_double (h : Denotes m ('"' :: (i ++ ['"'])) x) :
    (∃ s, DenotesInside m i s ∧ x = m.ofText s) ∨
      ¬ IsLiteral m ('"' :: (i ++ ['"'])) ∧ x = m.eval ('"' :: (i ++ ['"'])) := by
  generalize hv : '"' :: (i ++ ['"']) = v at h
  cases h with
  | integer hdigits =>
    rw [← hv, isDigits_quoted (by decide)] at hdigits
    cases hdigits
  | single _ => exact absurd (List.cons.inj hv).1 (by decide)
  | double hinside =>
    obtain rfl := List.append_cancel_right (List.cons.inj hv).2
    exact .inl ⟨_, hinside, rfl⟩
  | expression _ hliteral => exact .inr ⟨hliteral, rfl⟩

theorem denotes_double_iff (hi : LiteralBody '"' i) (hrun : ¬ Interpolates i) :
    Denotes m ('"' :: (i ++ ['"'])) x ↔ x = m.ofText (m.unescape i) := by
  constructor
  · intro h
    rcases h.of_double with ⟨s, hinside, rfl⟩ | ⟨hliteral, -⟩
    · cases hinside with
      | run _ _ => rfl
      | piece ht _ _ _ => exact absurd ⟨_, _, rfl, ht⟩ hrun
    · exact absurd (.inr ⟨i, _, rfl, .run hi hrun⟩) hliteral
  · rintro rfl
    exact .double (.run hi hrun)

theorem denotes_integer_iff (hv : isDigits v = true) : Denotes m v x ↔ x = m.ofText v := by
  constructor
  · intro h
    cases h with
    | integer _ => rfl
    | single _ =>
      rw [isDigits_quoted (by decide)] at hv
      cases hv
    | double _ =>
      rw [isDigits_quoted (by decide)] at hv
      cases hv
    | expression hdigits _ =>
      rw [hv] at hdigits
      cases hdigits
  · rintro rfl
    exact .integer hv

/-- An expression in a literal is part of its value. -/
theorem DenotesInside.length_le {s : Text} {n : Nat}
    (heval : ∀ e, n ≤ (m.print (m.eval e)).length) (hi : Interpolates i)
    (h : DenotesInside m i s) : n ≤ s.length := by
  cases h with
  | run _ hrun => exact absurd hi hrun
  | @piece t e u s _ _ _ _ =>
    have := heval e
    simp only [List.length_append]
    omega

/-- A context in which every expression is longer than a text. -/
def longer (i : Text) : Semantics where
  Value := Text
  ofText := id
  print := id
  eval _ := '#' :: i
  unescape := id
  print_ofText _ := rfl
  unescape_plain _ _ := rfl

/-- Where all expressions are longer than the literal, no literal that holds an expression means
the text between its quotes. -/
theorem not_denotes_longer (hi : Interpolates i) :
    ¬ Denotes (longer i) ('"' :: (i ++ ['"'])) i := by
  intro h
  rcases h.of_double with ⟨s, hinside, hvalue⟩ | ⟨-, hvalue⟩
  · have hvalue : i = s := hvalue
    have hlonger : i.length + 1 ≤ s.length := hinside.length_le (fun _ => Nat.le_refl _) hi
    rw [← hvalue] at hlonger
    omega
  · have hvalue : i = '#' :: i := hvalue
    exact absurd (congrArg List.length hvalue) (by simp)

/-! ## Values that are written again -/

theorem unquote?_quoted (hquote : isQuote q = true) (hq : q ∉ i) :
    unquote? (q :: (i ++ [q])) = some i := by
  simp [unquote?, hquote, hq]

/-- Only a literal between double quotes that holds no quote of either kind is written in another
way. -/
theorem requote_cases (v : Text) :
    requote v = v ∨
      ∃ i, v = '"' :: (i ++ ['"']) ∧ '"' ∉ i ∧ '\'' ∉ i ∧ requote v = '\'' :: (i ++ ['\'']) := by
  unfold requote
  split
  · next i hunquote =>
    obtain ⟨q, hquote, rfl, hq⟩ := eq_of_unquote? hunquote
    by_cases hsingle : i.contains '\'' = true
    · exact .inl (if_pos hsingle)
    · rw [if_neg hsingle]
      simp only [isQuote, Bool.or_eq_true, beq_iff_eq] at hquote
      rcases hquote with rfl | rfl
      · exact .inl rfl
      · exact .inr ⟨i, rfl, hq, by simpa using hsingle, rfl⟩
  · exact .inl rfl

theorem requote_double (hdouble : '"' ∉ i) (hsingle : '\'' ∉ i) :
    requote ('"' :: (i ++ ['"'])) = '\'' :: (i ++ ['\'']) := by
  rw [requote, unquote?_quoted (by decide) hdouble]
  exact if_neg (by simpa using hsingle)

/-- Written again, a value means what it meant before unless an expression in a literal is lost. -/
theorem sameValue_requote_iff (hv : Balanced v) :
    SameValue v (requote v) ↔ ¬ LosesInterpolation v := by
  constructor
  · rintro hsame ⟨i, rfl, hdouble, hsingle, hinterpolates⟩
    rw [requote_double hdouble hsingle] at hsame
    have hbody : LiteralBody '\'' i := literalBody_of_balanced (by decide) hv hdouble hsingle
    exact not_denotes_longer hinterpolates ((hsame (longer i) i).2 (.single hbody))
  · intro hkeeps m x
    rcases requote_cases v with heq | ⟨i, rfl, hdouble, hsingle, heq⟩
    · rw [heq]
    · have hinterpolates : ¬ Interpolates i := fun h => hkeeps ⟨i, rfl, hdouble, hsingle, h⟩
      rw [heq, denotes_double_iff (literalBody_of_balanced (by decide) hv hdouble hdouble)
        hinterpolates, denotes_single_iff (literalBody_of_balanced (by decide) hv hdouble hsingle)]

/-- A level that is digits is put between quotes. -/
theorem sameValue_requoteLevel_iff (hv : Balanced v) :
    SameValue v (requoteLevel v) ↔ ¬ LosesInterpolation v := by
  by_cases hdigits : isDigits v = true
  · rw [requoteLevel, if_pos hdigits]
    have hall : ∀ c ∈ v, c.isDigit = true := by
      simp only [isDigits, Bool.and_eq_true, List.all_eq_true] at hdigits
      exact hdigits.2
    have hback : '\\' ∉ v := fun h => absurd (hall _ h) (by decide)
    have hsingle : '\'' ∉ v := fun h => absurd (hall _ h) (by decide)
    have hbody : LiteralBody '\'' v :=
      (literalBody_of_not_mem hsingle).1 (endsEscaped_of_not_mem hback)
    refine iff_of_true (fun m x => ?_) ?_
    · show _ ↔ Denotes m ('\'' :: (v ++ ['\''])) x
      rw [denotes_integer_iff hdigits, denotes_single_iff hbody, m.unescape_plain v hback]
    · rintro ⟨i, rfl, -⟩
      rw [isDigits_quoted (by decide)] at hdigits
      cases hdigits
  · rw [requoteLevel, if_neg hdigits]
    exact sameValue_requote_iff hv

end Values

/-! ## The arguments of a finding -/

section Arguments

variable {args : List Argument} {n : Nat} {v : Text}

theorem asTag_headingArgs (h : lookup args "as".toList = some v) :
    (headingArgs args n).asTag = requote v := by
  show ((lookup args "as".toList).map requote).getD _ = requote v
  rw [h]
  rfl

theorem visualLevel_headingArgs (h : lookup args "level".toList = some v) :
    (headingArgs args n).visualLevel = requoteLevel v := by
  show ((lookup args "level".toList).map requoteLevel).getD _ = requoteLevel v
  rw [h]
  rfl

theorem additionalClasses_headingArgs (h : lookup args "color".toList = some v) :
    (headingArgs args n).additionalClasses = some (requote v) := by
  show (lookup args "color".toList).map requote = some (requote v)
  rw [h]
  rfl

end Arguments

theorem WrittenCall.Gives.exists_call {settings : Settings.Headings} {path : String} {t : Text}
    {w : WrittenCall settings.legacyNamespace} {f : Finding} (h : w.Gives path t f) :
    ∃ call n, f.kind = .legacyCall call ∧ w.level? = some n ∧
      call.args = headingArgs (arguments w.body) n := by
  obtain ⟨x, behind, n, -, -, hn, rfl⟩ := h
  exact ⟨_, n, rfl, hn, rfl⟩

/-- **Values that are written again.**  Each finding is built from a call.  The tag, the level and
the classes of its heading mean what the arguments of the call mean, unless an argument is a literal
between double quotes that holds an expression and no quote of either kind. -/
theorem requoting_keeps_values_iff {settings : Settings.Headings} {path : String} {t : Text}
    {f : Finding} (hf : f ∈ findCalls settings path t) :
    (∃ w : WrittenCall settings.legacyNamespace, w.Gives path t f) ∧
      ∀ w : WrittenCall settings.legacyNamespace, w.Gives path t f →
        ∃ call, f.kind = .legacyCall call ∧
          (∀ v, lookup (arguments w.body) "as".toList = some v →
            (SameValue v call.args.asTag ↔ ¬ LosesInterpolation v)) ∧
          (∀ v, lookup (arguments w.body) "level".toList = some v →
            (SameValue v call.args.visualLevel ↔ ¬ LosesInterpolation v)) ∧
          ∀ v, lookup (arguments w.body) "color".toList = some v →
            ∃ e, call.args.additionalClasses = some e ∧
              (SameValue v e ↔ ¬ LosesInterpolation v) := by
  refine ⟨mem_findCalls_iff_gives.1 hf, fun w hgives => ?_⟩
  obtain ⟨call, n, hkind, -, hargs⟩ := hgives.exists_call
  have hbalanced {key v : Text} (hv : lookup (arguments w.body) key = some v) : Balanced v :=
    (isValue_of_lookup w.balanced hv).balanced
  refine ⟨call, hkind, fun v hv => ?_, fun v hv => ?_, fun v hv => ⟨requote v, ?_, ?_⟩⟩
  · rw [hargs, asTag_headingArgs hv]
    exact sameValue_requote_iff (hbalanced hv)
  · rw [hargs, visualLevel_headingArgs hv]
    exact sameValue_requoteLevel_iff (hbalanced hv)
  · rw [hargs, additionalClasses_headingArgs hv]
  · exact sameValue_requote_iff (hbalanced hv)

/-- A call with a literal tag, and classes that hold an expression. -/
def colouredCall : WrittenCall ({} : Settings.Headings).legacyNamespace :=
  secondLevelCall "content: t, as: \"h3\", color: \"c-#\x7bn\x7d\"".toList '}' (by decide)

theorem requoting_keeps_values_iff_colouredCall :
    ∃ f ∈ findCalls {} "" colouredCall.text, ∃ call, f.kind = .legacyCall call ∧
      SameValue "\"h3\"".toList call.args.asTag ∧
      ∃ e, call.args.additionalClasses = some e ∧ ¬ SameValue "\"c-#\x7bn\x7d\"".toList e := by
  have hgives : colouredCall.Gives "" colouredCall.text _ := gives_secondLevelCall ..
  have hf := mem_findCalls_iff_gives.2 ⟨colouredCall, hgives⟩
  obtain ⟨-, hall⟩ := requoting_keeps_values_iff hf
  obtain ⟨call, hkind, htag, -, hclasses⟩ := hall colouredCall hgives
  obtain ⟨e, he, hiff⟩ := hclasses "\"c-#\x7bn\x7d\"".toList (by decide)
  have hloses : LosesInterpolation "\"c-#\x7bn\x7d\"".toList :=
    ⟨"c-#\x7bn\x7d".toList, by decide, by decide, by decide, "c-".toList, "n\x7d".toList, by decide,
      .plain (by decide) (by decide) (.plain (by decide) (by decide) .nil)⟩
  refine ⟨_, hf, call, hkind, (htag _ (by decide)).2 ?_, e, he, fun h => hiff.1 h hloses⟩
  -- The tag holds no mark of an expression.
  rintro ⟨i, hi, -, -, run, behind, rfl, -⟩
  have hmark : '#' ∈ "\"h3\"".toList := by
    rw [hi]
    simp
  exact absurd hmark (by decide)

theorem requoting_drops_interpolation :
    ¬ ∀ (t : Text), ∀ f ∈ findCalls {} "" t,
      ∃ w : WrittenCall ({} : Settings.Headings).legacyNamespace, w.Gives "" t f ∧
        ∃ call, f.kind = .legacyCall call ∧
          ∀ v e, lookup (arguments w.body) "color".toList = some v →
            call.args.additionalClasses = some e → SameValue v e := by
  intro h
  have hgives : colouredCall.Gives "" colouredCall.text _ := gives_secondLevelCall ..
  obtain ⟨w, hw, call, hkind, hsame⟩ := h _ _ (mem_findCalls_iff_gives.2 ⟨colouredCall, hgives⟩)
  obtain ⟨call', n, hkind', -, hargs⟩ := hgives.exists_call
  obtain rfl := FindingKind.legacyCall.inj (hkind.symm.trans hkind')
  have hcolour : lookup (arguments colouredCall.body) "color".toList =
      some "\"c-#\x7bn\x7d\"".toList := by decide
  have hclasses : call.args.additionalClasses = some "'c-#\x7bn\x7d'".toList := by
    rw [hargs, additionalClasses_headingArgs hcolour]
    decide
  rw [(hw.unique hgives).1] at hsame
  have hvalue := hsame _ _ hcolour hclasses
  have hmark : Interpolates "c-#\x7bn\x7d".toList :=
    ⟨"c-".toList, "n\x7d".toList, by decide,
      .plain (by decide) (by decide) (.plain (by decide) (by decide) .nil)⟩
  have hinside : LiteralBody '\'' "c-#\x7bn\x7d".toList :=
    (literalBody_of_not_mem (by decide)).1 (by decide)
  -- In a context where expressions are long, the string cannot be the text between the quotes.
  exact not_denotes_longer hmark
    ((hvalue (longer _) "c-#\x7bn\x7d".toList).2 (.single hinside))

end Template
end ThemeRepair
