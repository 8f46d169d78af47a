import Mathlib.Data.List.Induction
import ThemeRepair.Proofs.Template.Balance

/-!
# String literals, and places outside them

`LiteralBody q t` says what can stand between two quotes `q`: characters other than the quote and
the backslash, and backslashes, each with the character that it takes along.  `StandsAt t depth`
says where a reader stands who comes from the left end of a text: behind neutral characters,
brackets and whole literals, on a level that closing brackets do not sink below the ground.

Neither knows of the scan character by character, and the scan agrees with both.

* `scan_literal` — the scan passes over a whole literal and stands on the same level behind it.
* `Reached.step` — what one step of the scan knows about the text behind it.
* `standsAt_iff` — so the scan is outside literals behind exactly the texts that stand at a level.
* `endsOutside_iff` — whether it is outside at all does not depend on the brackets.
-/

namespace ThemeRepair
namespace Template

/-! ## The inside of a literal -/

/-- A text that can stand between two quotes of a kind. -/
inductive LiteralBody (q : Char) : Text → Prop
  | nil : LiteralBody q []
  | plain {c : Char} {t : Text} (hquote : c ≠ q) (hback : c ≠ '\\') (ht : LiteralBody q t) :
      LiteralBody q (c :: t)
  | escaped {c : Char} {t : Text} (ht : LiteralBody q t) : LiteralBody q ('\\' :: c :: t)

theorem LiteralBody.append {q : Char} {t u : Text} (ht : LiteralBody q t)
    (hu : LiteralBody q u) : LiteralBody q (t ++ u) := by
  induction ht with
  | nil => exact hu
  | plain hquote hback _ ih => exact .plain hquote hback ih
  | escaped _ ih => exact .escaped ih

/-- Of a text without a quote, only the end decides whether it can stand between two of them. -/
theorem literalBody_of_not_mem {q : Char} {i : Text} (hq : q ∉ i) :
    (endsEscaped false i = false → LiteralBody q i) ∧
      (endsEscaped true i = false → ∃ c t, i = c :: t ∧ LiteralBody q t) := by
  induction i with
  | nil => exact ⟨fun _ => .nil, fun h => absurd h (by decide)⟩
  | cons c t ih =>
    simp only [List.mem_cons, not_or] at hq
    obtain ⟨ihplain, ihescaped⟩ := ih hq.2
    refine ⟨fun h => ?_, fun h => ⟨c, t, rfl, ihplain h⟩⟩
    by_cases hback : c = '\\'
    · subst hback
      obtain ⟨d, u, rfl, hu⟩ := ihescaped h
      exact .escaped hu
    · have hc : (!false && c == '\\') = false := by simpa using hback
      rw [endsEscaped, List.foldl_cons, hc] at h
      exact .plain (Ne.symm hq.1) hback (ihplain h)

/-- What stands between two quotes and holds another one nowhere can stand between two of those. -/
theorem literalBody_of_balanced {q q' : Char} {i : Text} (hquote : isQuote q = true)
    (h : Balanced (q :: (i ++ [q]))) (hq : q ∉ i) (hq' : q' ∉ i) : LiteralBody q' i :=
  (literalBody_of_not_mem hq').1 ((balanced_literal_iff hquote hq).1 h)

theorem ne_backslash_of_isQuote {q : Char} (h : isQuote q = true) : q ≠ '\\' := by
  rintro rfl
  exact absurd h (by decide)

/-! ## The scan -/

/-- Where the scan stands behind a text.  A bracket that closes on the ground level does not stop
it. -/
def scan : Quoting → (depth : Nat) → Text → Quoting × Nat
  | q, depth, [] => (q, depth)
  | q, depth, c :: t => scan (q.step c) (q.depthAfter depth c) t

theorem scan_append (q : Quoting) (depth : Nat) (t u : Text) :
    scan q depth (t ++ u) = scan (scan q depth t).1 (scan q depth t).2 u := by
  induction t generalizing q depth with
  | nil => rfl
  | cons c t ih => exact ih (q.step c) (q.depthAfter depth c)

theorem scan_concat (q : Quoting) (depth : Nat) (t : Text) (c : Char) :
    scan q depth (t ++ [c]) =
      ((scan q depth t).1.step c, (scan q depth t).1.depthAfter (scan q depth t).2 c) :=
  scan_append q depth t [c]

/-- Outside literals, a character that is no quote leaves the scan outside. -/
theorem step_outside {c : Char} (h : isQuote c = false) : Quoting.step .outside c = .outside := by
  simp [Quoting.step, h]

theorem step_quote {q : Char} (h : isQuote q = true) :
    Quoting.step .outside q = .inside q false := by
  simp [Quoting.step, h]

theorem depthAfter_inside (q c : Char) (escaped : Bool) (depth : Nat) :
    Quoting.depthAfter (.inside q escaped) depth c = depth := by
  simp [Quoting.depthAfter, Quoting.shows]

theorem depthAfter_quote {q : Char} (h : isQuote q = true) (depth : Nat) :
    Quoting.depthAfter .outside depth q = depth := by
  simp [Quoting.depthAfter, Quoting.shows, h]

theorem depthAfter_neutral {c : Char} (h : isNeutral c = true) (depth : Nat) :
    Quoting.depthAfter .outside depth c = depth := by
  obtain ⟨hquote, hopen, hclose⟩ := isNeutral_iff.1 h
  simp [Quoting.depthAfter, Quoting.shows, hquote, hopen, hclose]

theorem not_isQuote_of_isOpening {c : Char} (h : isOpening c = true) : isQuote c = false := by
  simp only [isOpening, Bool.or_eq_true, beq_iff_eq, or_assoc] at h
  rcases h with rfl | rfl | rfl <;> rfl

theorem not_isOpening_of_isClosing {c : Char} (h : isClosing c = true) : isOpening c = false := by
  simp only [isClosing, Bool.or_eq_true, beq_iff_eq, or_assoc] at h
  rcases h with rfl | rfl | rfl <;> rfl

theorem depthAfter_opening {c : Char} (h : isOpening c = true) (depth : Nat) :
    Quoting.depthAfter .outside depth c = depth + 1 := by
  simp [Quoting.depthAfter, Quoting.shows, not_isQuote_of_isOpening h, h]

theorem depthAfter_closing {c : Char} (h : isClosing c = true) (depth : Nat) :
    Quoting.depthAfter .outside depth c = depth - 1 := by
  simp [Quoting.depthAfter, Quoting.shows, not_isQuote_of_isClosing h,
    not_isOpening_of_isClosing h, h]

/-- A character is a quote, an opening or a closing bracket, or neutral. -/
theorem char_cases (c : Char) :
    isQuote c = true ∨ isOpening c = true ∨ isClosing c = true ∨ isNeutral c = true := by
  rw [isNeutral_iff]
  cases isQuote c <;> cases isOpening c <;> cases isClosing c <;> simp

/-- Inside a literal the scan waits for the quote that ends it. -/
theorem scan_literalBody {q : Char} {t : Text} (hq : q ≠ '\\') (ht : LiteralBody q t)
    (depth : Nat) (u : Text) :
    scan (.inside q false) depth (t ++ q :: u) = scan .outside depth u := by
  induction ht with
  | nil => simp [scan, Quoting.step, depthAfter_inside, hq]
  | plain hquote hback _ ih =>
    simpa [scan, Quoting.step, depthAfter_inside, hback, hquote] using ih
  | escaped _ ih => simpa [scan, Quoting.step, depthAfter_inside] using ih

/-- The scan passes over a whole literal. -/
theorem scan_literal {q : Char} {t : Text} (hq : isQuote q = true) (ht : LiteralBody q t)
    (depth : Nat) (u : Text) :
    scan .outside depth (q :: (t ++ q :: u)) = scan .outside depth u := by
  rw [scan, step_quote hq, depthAfter_quote hq]
  exact scan_literalBody (ne_backslash_of_isQuote hq) ht depth u

/-! ## Places outside literals -/

/-- Read from the left, a text ends outside all literals, and as many brackets are open as the
depth says; a closing bracket where none is open has no effect. -/
inductive StandsAt : Text → (depth : Nat) → Prop
  | start : StandsAt [] 0
  | neutral {t : Text} {depth : Nat} {c : Char} (ht : StandsAt t depth)
      (hc : isNeutral c = true) : StandsAt (t ++ [c]) depth
  | opening {t : Text} {depth : Nat} {c : Char} (ht : StandsAt t depth)
      (hc : isOpening c = true) : StandsAt (t ++ [c]) (depth + 1)
  | closing {t : Text} {depth : Nat} {c : Char} (ht : StandsAt t depth)
      (hc : isClosing c = true) : StandsAt (t ++ [c]) (depth - 1)
  | literal {t i : Text} {depth : Nat} {q : Char} (ht : StandsAt t depth) (hq : isQuote q = true)
      (hi : LiteralBody q i) : StandsAt (t ++ q :: (i ++ [q])) depth

/-- What the scan knows about the text behind it: it stands outside literals, or in one that a
quote opened there, right behind a backslash or not. -/
inductive Reached (t : Text) : Quoting → (depth : Nat) → Prop
  | outside {depth : Nat} (ht : StandsAt t depth) : Reached t .outside depth
  | inside {y i : Text} {q : Char} {depth : Nat} (ht : t = y ++ q :: i) (hy : StandsAt y depth)
      (hq : isQuote q = true) (hi : LiteralBody q i) : Reached t (.inside q false) depth
  | escaped {y i : Text} {q : Char} {depth : Nat} (ht : t = y ++ q :: (i ++ ['\\']))
      (hy : StandsAt y depth) (hq : isQuote q = true) (hi : LiteralBody q i) :
      Reached t (.inside q true) depth

theorem Reached.step {t : Text} {q : Quoting} {depth : Nat} (h : Reached t q depth) (c : Char) :
    Reached (t ++ [c]) (q.step c) (q.depthAfter depth c) := by
  cases h with
  | outside ht =>
    rcases char_cases c with hc | hc | hc | hc
    · rw [step_quote hc, depthAfter_quote hc]
      exact .inside rfl ht hc .nil
    · rw [step_outside (not_isQuote_of_isOpening hc), depthAfter_opening hc]
      exact .outside (ht.opening hc)
    · rw [step_outside (not_isQuote_of_isClosing hc), depthAfter_closing hc]
      exact .outside (ht.closing hc)
    · rw [step_outside (isNeutral_iff.1 hc).1, depthAfter_neutral hc]
      exact .outside (ht.neutral hc)
  | @inside y i q depth ht hy hq hi =>
    rw [depthAfter_inside, ht, Quoting.step]
    by_cases hback : c = '\\'
    · rw [if_pos hback, hback]
      exact .escaped (by simp) hy hq hi
    · rw [if_neg hback]
      by_cases hquote : c = q
      · rw [if_pos hquote, hquote, List.append_assoc]
        exact .outside (hy.literal hq hi)
      · rw [if_neg hquote]
        exact .inside (by simp) hy hq (hi.append (.plain hquote hback .nil))
  | escaped ht hy hq hi =>
    rw [depthAfter_inside, ht, Quoting.step]
    refine .inside ?_ hy hq (hi.append (.escaped (c := c) .nil))
    simp

/-- The scan of a text knows it. -/
theorem reached_scan (t : Text) : Reached t (scan .outside 0 t).1 (scan .outside 0 t).2 := by
  induction t using List.reverseRecOn with
  | nil => exact .outside .start
  | append_singleton t c ih =>
    rw [scan_concat]
    exact ih.step c

theorem StandsAt.scan_eq {t : Text} {depth : Nat} (h : StandsAt t depth) :
    scan .outside 0 t = (.outside, depth) := by
  induction h with
  | start => rfl
  | neutral _ hc ih =>
    rw [scan_concat, ih, step_outside (isNeutral_iff.1 hc).1, depthAfter_neutral hc]
  | opening _ hc ih =>
    rw [scan_concat, ih, step_outside (not_isQuote_of_isOpening hc), depthAfter_opening hc]
  | closing _ hc ih =>
    rw [scan_concat, ih, step_outside (not_isQuote_of_isClosing hc), depthAfter_closing hc]
  | literal _ hq hi ih =>
    rw [scan_append, ih]
    exact scan_literal hq hi _ []

/-- The scan is outside literals behind exactly the texts that stand at a level, and knows the
level. -/
theorem standsAt_iff {t : Text} {depth : Nat} :
    StandsAt t depth ↔ scan .outside 0 t = (.outside, depth) := by
  refine ⟨StandsAt.scan_eq, fun h => ?_⟩
  have hreached := reached_scan t
  rw [h] at hreached
  cases hreached with
  | outside ht => exact ht

/-! ## Ends of literals -/

/-- Read from the left, a text ends outside all literals, on whatever level. -/
def EndsOutside (t : Text) : Prop := ∃ depth, StandsAt t depth

theorem scan_fst (q : Quoting) (depth : Nat) (t : Text) :
    (scan q depth t).1 = t.foldl Quoting.step q := by
  induction t generalizing q depth with
  | nil => rfl
  | cons c t ih => exact ih (q.step c) (q.depthAfter depth c)

/-- Whether a text ends outside literals does not depend on its brackets. -/
theorem endsOutside_iff {t : Text} :
    EndsOutside t ↔ t.foldl Quoting.step .outside = .outside := by
  simp only [EndsOutside, standsAt_iff]
  rw [← scan_fst .outside 0 t]
  constructor
  · rintro ⟨depth, h⟩
    rw [h]
  · intro h
    exact ⟨(scan .outside 0 t).2, Prod.ext h rfl⟩

theorem EndsOutside.append {t u : Text} (ht : EndsOutside t) (hu : EndsOutside u) :
    EndsOutside (t ++ u) := by
  rw [endsOutside_iff] at *
  rw [List.foldl_append, ht, hu]

theorem scan_of_walk {q : Quoting} {depth : Nat} {t : Text} {p : Quoting × Nat}
    (h : walk q depth t = some p) : scan q depth t = p := by
  induction t generalizing q depth with
  | nil => exact Option.some.inj h
  | cons c t ih =>
    rw [walk] at h
    split at h
    · cases h
    · exact ih h

theorem Balanced.endsOutside {t : Text} (h : Balanced t) : EndsOutside t :=
  ⟨0, standsAt_iff.2 (scan_of_walk h)⟩

end Template
end ThemeRepair
