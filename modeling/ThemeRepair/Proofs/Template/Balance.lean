import Mathlib.Data.List.Basic
import ThemeRepair.Template.Bracket

/-!
# Balanced template expressions

`walk` says where the scan of a template expression stands behind a text: inside a string literal
or not, and how many brackets are open.  It has no answer behind a bracket that closes more than
the text has opened.  A text is `Balanced` where the scan comes back to where it began, and a
separator is `Inner` to it where every occurrence stands inside a literal or inside brackets.

The two ways in which the arguments of a call are cut are read off from it: `splitAtClose` cuts
behind a balanced text and nowhere else (`splitAtClose_eq_some_iff`), and `splitTop` cuts behind
each balanced text that the separator is inner to (`splitTop_append`, `splitTop_of_inner`), so that
the parts of a balanced text are such texts again (`balanced_of_mem_splitTop`).

A literal is balanced whatever the kind of its quotes, as long as neither kind stands in it
(`balanced_literal_iff`), and brackets around a balanced text make every separator in it inner
(`inner_braces`).
-/

namespace ThemeRepair
namespace Template

/-- Where a scan stands behind a text, `none` behind a bracket that closes more than the text has
opened. -/
def walk : Quoting → (depth : Nat) → Text → Option (Quoting × Nat)
  | q, depth, [] => some (q, depth)
  | q, depth, c :: t =>
    if q.shows c && isClosing c && depth == 0 then none
    else walk (q.step c) (q.depthAfter depth c) t

@[simp] theorem walk_nil (q : Quoting) (depth : Nat) : walk q depth [] = some (q, depth) := rfl

theorem walk_append (q : Quoting) (depth : Nat) (t u : Text) :
    walk q depth (t ++ u) = (walk q depth t).bind fun p => walk p.1 p.2 u := by
  induction t generalizing q depth with
  | nil => rfl
  | cons c t ih =>
    rw [List.cons_append, walk, walk]
    split
    · rfl
    · exact ih (q.step c) (q.depthAfter depth c)

/-- The scan comes back outside all literals and brackets, without closing more than was
opened. -/
def Balanced (t : Text) : Prop := walk .outside 0 t = some (.outside, 0)

instance (t : Text) : Decidable (Balanced t) :=
  inferInstanceAs (Decidable (walk .outside 0 t = some (.outside, 0)))

/-- Every occurrence of a separator stands inside a literal or inside brackets. -/
def Inner (separator : Char) (t : Text) : Prop :=
  ∀ x y, t = x ++ separator :: y → ¬ Balanced x

/-- Only the places of the separator have to be looked at. -/
instance (separator : Char) (t : Text) : Decidable (Inner separator t) :=
  decidable_of_iff (∀ n ∈ List.range t.length, t[n]? = some separator → ¬ Balanced (t.take n)) <| by
    constructor
    · rintro h x y rfl
      have := h x.length (by simp) (by simp)
      simpa using this
    · intro h n _ hn
      obtain ⟨hlt, hget⟩ := List.getElem?_eq_some_iff.1 hn
      refine h (t.take n) (t.drop (n + 1)) ?_
      rw [← hget, ← List.drop_eq_getElem_cons hlt, List.take_append_drop]

namespace Balanced

theorem nil : Balanced [] := rfl

theorem append {t u : Text} (ht : Balanced t) (hu : Balanced u) : Balanced (t ++ u) := by
  unfold Balanced at *
  rw [walk_append, ht]
  exact hu

/-- What follows a balanced beginning of a balanced text is balanced. -/
theorem of_append {t u : Text} (ht : Balanced t) (h : Balanced (t ++ u)) : Balanced u := by
  unfold Balanced at *
  rwa [walk_append, ht] at h

end Balanced

/-! ## Characters that the scan passes by -/

/-- A character that is neither a quote nor a bracket. -/
def isNeutral (c : Char) : Bool := !isQuote c && !isOpening c && !isClosing c

theorem isNeutral_iff {c : Char} :
    isNeutral c = true ↔ isQuote c = false ∧ isOpening c = false ∧ isClosing c = false := by
  simp [isNeutral, and_assoc]

/-- No bracket that closes is a quote. -/
theorem not_isQuote_of_isClosing {c : Char} (h : isClosing c = true) : isQuote c = false := by
  simp only [isClosing, Bool.or_eq_true, beq_iff_eq, or_assoc] at h
  rcases h with rfl | rfl | rfl <;> rfl

theorem walk_cons_of_isNeutral {c : Char} (hc : isNeutral c = true) (depth : Nat) (t : Text) :
    walk .outside depth (c :: t) = walk .outside depth t := by
  obtain ⟨hq, ho, hcl⟩ := isNeutral_iff.1 hc
  simp [walk, Quoting.step, Quoting.depthAfter, hq, ho, hcl]

theorem walk_of_neutral {t : Text} (h : t.all isNeutral = true) (depth : Nat) :
    walk .outside depth t = some (.outside, depth) := by
  induction t with
  | nil => rfl
  | cons c t ih =>
    rw [List.all_cons, Bool.and_eq_true] at h
    rw [walk_cons_of_isNeutral h.1]
    exact ih h.2

theorem balanced_of_neutral {t : Text} (h : t.all isNeutral = true) : Balanced t :=
  walk_of_neutral h 0

/-- A scan that began outside is only ever inside a literal that a quote has opened. -/
theorem isQuote_of_walk {q : Quoting} {depth depth' : Nat} {t : Text} {c : Char} {escaped : Bool}
    (hq : ∀ d e, q = .inside d e → isQuote d = true)
    (h : walk q depth t = some (.inside c escaped, depth')) : isQuote c = true := by
  induction t generalizing q depth with
  | nil =>
    obtain ⟨rfl, -⟩ := Prod.mk.inj (Option.some.inj h)
    exact hq c escaped rfl
  | cons d t ih =>
    rw [walk] at h
    split at h
    · cases h
    · refine ih (fun a e ha => ?_) h
      cases q with
      | outside =>
        by_cases hd : isQuote d = true
        · rw [Quoting.step, if_pos hd] at ha
          cases ha
          exact hd
        · rw [Quoting.step, if_neg hd] at ha
          cases ha
      | inside b e' =>
        have hb : isQuote b = true := hq b e' rfl
        cases e' with
        | true =>
          cases ha
          exact hb
        | false =>
          simp only [Quoting.step] at ha
          split at ha
          · cases ha
            exact hb
          · split at ha
            · cases ha
            · cases ha
              exact hb

/-- Inside a literal the scan waits for the quote that opened it. -/
theorem walk_inside {q : Char} {t : Text} (hq : q ∉ t) (hb : '\\' ∉ t) (depth : Nat) (u : Text) :
    walk (.inside q false) depth (t ++ u) = walk (.inside q false) depth u := by
  induction t with
  | nil => rfl
  | cons c t ih =>
    simp only [List.mem_cons, not_or] at hq hb
    rw [List.cons_append, walk, if_neg (by simp [Quoting.shows])]
    simp only [Quoting.step, if_neg (Ne.symm hb.1), if_neg (Ne.symm hq.1), Quoting.depthAfter,
      Quoting.shows]
    exact ih hq.2 hb.2

/-- A literal without a backslash is balanced. -/
theorem balanced_literal {q : Char} {t : Text} (hquote : isQuote q = true) (hq : q ∉ t)
    (hb : '\\' ∉ t) : Balanced (q :: (t ++ [q])) := by
  have hne : q ≠ '\\' := by rintro rfl; simp [isQuote] at hquote
  have hopen : walk .outside 0 (q :: (t ++ [q])) = walk (.inside q false) 0 (t ++ [q]) := by
    rw [walk, if_neg (by simp [Quoting.shows, hquote])]
    simp [Quoting.step, Quoting.depthAfter, Quoting.shows, hquote]
  unfold Balanced
  rw [hopen, walk_inside hq hb]
  simp [walk, Quoting.shows, Quoting.step, Quoting.depthAfter, hne]

/-- Whether a text inside a literal ends behind a backslash that takes the next character along. -/
def endsEscaped (escaped : Bool) (t : Text) : Bool := t.foldl (fun e c => !e && c == '\\') escaped

/-- Inside a literal, only the backslashes of a text without its quote matter. -/
theorem walk_inside_eq {q : Char} {t : Text} (hq : q ∉ t) (escaped : Bool) (depth : Nat) :
    walk (.inside q escaped) depth t = some (.inside q (endsEscaped escaped t), depth) := by
  induction t generalizing escaped with
  | nil => rfl
  | cons c t ih =>
    simp only [List.mem_cons, not_or] at hq
    have hstep : Quoting.step (.inside q escaped) c = .inside q (!escaped && c == '\\') := by
      cases escaped with
      | true => rfl
      | false =>
        by_cases hb : c = '\\'
        · simp [Quoting.step, hb]
        · simp [Quoting.step, hb, Ne.symm hq.1]
    rw [walk, if_neg (by simp [Quoting.shows]), hstep]
    exact ih hq.2 _

/-- A literal that does not hold its quote is balanced unless the closing quote is taken along by
a backslash. -/
theorem balanced_literal_iff {q : Char} {t : Text} (hquote : isQuote q = true) (hq : q ∉ t) :
    Balanced (q :: (t ++ [q])) ↔ endsEscaped false t = false := by
  have hne : q ≠ '\\' := by rintro rfl; simp [isQuote] at hquote
  have hopen : walk .outside 0 (q :: (t ++ [q])) =
      walk (.inside q (endsEscaped false t)) 0 [q] := by
    rw [walk, if_neg (by simp [Quoting.shows, hquote])]
    simp only [Quoting.step, hquote, if_true, Quoting.depthAfter, Quoting.shows]
    rw [walk_append]
    simp [walk_inside_eq hq]
  unfold Balanced
  rw [hopen]
  cases endsEscaped false t <;> simp [walk, Quoting.shows, Quoting.step, Quoting.depthAfter, hne]

/-- More brackets around a text change nothing but the depth. -/
theorem walk_add {q q' : Quoting} {depth depth' : Nat} {t : Text}
    (h : walk q depth t = some (q', depth')) (n : Nat) :
    walk q (depth + n) t = some (q', depth' + n) := by
  induction t generalizing q depth with
  | nil =>
    obtain ⟨rfl, rfl⟩ := Prod.mk.inj (Option.some.inj h)
    rfl
  | cons c t ih =>
    rw [walk] at h
    split at h
    · cases h
    · next hc =>
      have hdepth : q.depthAfter (depth + n) c = q.depthAfter depth c + n := by
        unfold Quoting.depthAfter
        by_cases hs : q.shows c = true
        · rw [if_pos hs, if_pos hs]
          by_cases ho : isOpening c = true
          · rw [if_pos ho, if_pos ho]
            omega
          · rw [if_neg ho, if_neg ho]
            by_cases hcl : isClosing c = true
            · have hpos : depth ≠ 0 := fun h0 => hc (by simp [hs, hcl, h0])
              rw [if_pos hcl, if_pos hcl]
              omega
            · rw [if_neg hcl, if_neg hcl]
        · rw [if_neg hs, if_neg hs]
      have hopen : ¬ (q.shows c && isClosing c && depth + n == 0) = true := by
        simp only [Bool.and_eq_true, beq_iff_eq, not_and] at hc ⊢
        intro hshow h0
        exact hc hshow (by omega)
      rw [walk, if_neg hopen, hdepth]
      exact ih h

/-- Behind an opening brace the scan stands one level deeper. -/
theorem walk_brace (t : Text) : walk .outside 0 ('{' :: t) = walk .outside 1 t := rfl

/-- Braces around a balanced text. -/
theorem Balanced.braces {t : Text} (h : Balanced t) : Balanced ('{' :: (t ++ ['}'])) := by
  have hinside : walk .outside 1 t = some (.outside, 1) := walk_add h 1
  unfold Balanced
  rw [walk_brace, walk_append, hinside]
  rfl

/-! ## Inner separators -/

theorem inner_of_not_mem {separator : Char} {t : Text} (h : separator ∉ t) : Inner separator t := by
  rintro x y rfl
  simp at h

/-- In front of a text that a separator is inner to, a balanced text without one does no harm. -/
theorem Inner.append_left {separator : Char} {t u : Text} (ht : separator ∉ t)
    (hbal : Balanced t) (hu : Inner separator u) : Inner separator (t ++ u) := by
  intro x y hxy hx
  obtain ⟨v, rfl, hv⟩ | ⟨v, rfl, hv⟩ := List.append_eq_append_iff.1 hxy
  · refine hu v y hv ?_
    unfold Balanced at hx hbal ⊢
    rwa [walk_append, hbal] at hx
  · cases v with
    | nil =>
      refine hu [] y (by simpa using hv.symm) Balanced.nil
    | cons c v =>
      obtain ⟨rfl, -⟩ := List.cons.inj hv
      simp at ht

/-- A separator that is inner to a text is inner to what follows a balanced beginning of it. -/
theorem Inner.of_append {separator : Char} {t u : Text} (ht : Balanced t)
    (h : Inner separator (t ++ u)) : Inner separator u := by
  rintro x y rfl hx
  exact h (t ++ x) y (by simp) (ht.append hx)

theorem Inner.of_append_left {separator : Char} {t u : Text} (h : Inner separator (t ++ u)) :
    Inner separator t := by
  rintro x y rfl
  exact h x (y ++ u) (by simp)

/-- Text without the separator may follow. -/
theorem Inner.append_right {separator : Char} {t u : Text} (h : Inner separator t)
    (hu : separator ∉ u) : Inner separator (t ++ u) := by
  intro x y hxy
  rcases List.append_eq_append_iff.1 hxy with ⟨v, rfl, hv⟩ | ⟨v, rfl, hv⟩
  · rw [hv] at hu
    simp at hu
  · cases v with
    | nil =>
      rw [List.nil_append] at hv
      rw [← hv] at hu
      simp at hu
    | cons c v =>
      obtain ⟨rfl, -⟩ := List.cons.inj hv
      exact h x v rfl

/-- Every separator in a literal is inner to it. -/
theorem inner_literal {separator q : Char} {t : Text} (hquote : isQuote q = true) (hq : q ∉ t)
    (hsep : separator ≠ q) : Inner separator (q :: (t ++ [q])) := by
  intro x y hxy hx
  cases x with
  | nil => exact hsep (List.cons.inj hxy).1.symm
  | cons c x =>
    obtain ⟨rfl, htail⟩ := List.cons.inj hxy
    have hqx : q ∉ x := by
      rcases List.append_eq_append_iff.1 htail with ⟨v, -, hv⟩ | ⟨v, rfl, -⟩
      · cases v with
        | nil => exact absurd (List.cons.inj hv).1.symm hsep
        | cons d v => simpa using (List.cons.inj hv).2
      · exact fun hmem => hq (List.mem_append_left v hmem)
    -- The scan of such a beginning ends inside the literal.
    have hwalk : walk .outside 0 (q :: x) = some (.inside q (endsEscaped false x), 0) := by
      rw [walk, if_neg (by simp [Quoting.shows, hquote])]
      simp only [Quoting.step, hquote, if_true, Quoting.depthAfter, Quoting.shows]
      simp [walk_inside_eq hqx]
    unfold Balanced at hx
    rw [hwalk] at hx
    cases hx

/-- Every separator between braces is inner to the text with its braces. -/
theorem inner_braces {separator : Char} {t : Text} (h : Balanced t)
    (hsep : isNeutral separator = true) : Inner separator ('{' :: (t ++ ['}'])) := by
  intro x y hxy hx
  cases x with
  | nil =>
    obtain ⟨rfl, -⟩ := List.cons.inj hxy
    exact absurd hsep (by decide)
  | cons c x =>
    obtain ⟨rfl, htail⟩ := List.cons.inj hxy
    obtain ⟨v, rfl⟩ : x <+: t := by
      rcases List.append_eq_append_iff.1 htail with ⟨v, -, hv⟩ | ⟨v, rfl, -⟩
      · cases v with
        | nil =>
          obtain ⟨rfl, -⟩ := List.cons.inj hv
          exact absurd hsep (by decide)
        | cons d v => simp at hv
      · exact List.prefix_append x v
    -- The scan of a beginning of the text never gets below the level that the brace has opened.
    unfold Balanced at h hx
    rw [walk_append] at h
    obtain ⟨⟨q, depth⟩, hwalk, -⟩ := Option.bind_eq_some_iff.1 h
    rw [walk_brace, show (1 : Nat) = 0 + 1 from rfl, walk_add hwalk 1] at hx
    cases hx

/-! ## Cutting at the close -/

/-- A text is cut at the first bracket that closes more than the text before it has opened. -/
theorem splitAtClose_eq_some_iff {q : Quoting} {depth : Nat} {t body behind : Text} :
    splitAtClose q depth t = some (body, behind) ↔
      walk q depth body = some (.outside, 0) ∧
        ∃ c, isClosing c = true ∧ t = body ++ c :: behind := by
  induction t generalizing q depth body with
  | nil => simp [splitAtClose]
  | cons d t ih =>
    rw [splitAtClose]
    split
    · next hd =>
      simp only [Quoting.shows, Bool.and_eq_true, decide_eq_true_eq, beq_iff_eq] at hd
      obtain ⟨⟨⟨rfl, hquote⟩, hclose⟩, rfl⟩ := hd
      constructor
      · intro h
        cases h
        exact ⟨rfl, d, hclose, rfl⟩
      · rintro ⟨hwalk, c, hc, ht⟩
        cases body with
        | nil =>
          obtain ⟨rfl, rfl⟩ := List.cons.inj ht
          rfl
        | cons e body =>
          obtain ⟨rfl, rfl⟩ := List.cons.inj ht
          rw [walk, if_pos (by simp [Quoting.shows, hclose, not_isQuote_of_isClosing hclose])] at hwalk
          cases hwalk
    · next hd =>
      simp only [Option.map_eq_some_iff, Prod.exists, Prod.mk.injEq]
      constructor
      · rintro ⟨body', behind', h, rfl, rfl⟩
        obtain ⟨hwalk, c, hc, rfl⟩ := ih.1 h
        refine ⟨?_, c, hc, rfl⟩
        rw [walk, if_neg hd]
        exact hwalk
      · rintro ⟨hwalk, c, hc, ht⟩
        cases body with
        | nil =>
          obtain ⟨rfl, rfl⟩ := List.cons.inj ht
          obtain ⟨rfl, rfl⟩ := Prod.mk.inj (Option.some.inj hwalk)
          simp [Quoting.shows, hc, not_isQuote_of_isClosing hc] at hd
        | cons e body =>
          obtain ⟨rfl, rfl⟩ := List.cons.inj ht
          rw [walk, if_neg hd] at hwalk
          exact ⟨body, behind, ih.2 ⟨hwalk, c, hc, rfl⟩, rfl, rfl⟩

/-- Behind a balanced text, the next closing bracket is the one that closes. -/
theorem splitAtClose_of_balanced {body behind : Text} {c : Char} (h : Balanced body)
    (hc : isClosing c = true) :
    splitAtClose .outside 0 (body ++ c :: behind) = some (body, behind) :=
  splitAtClose_eq_some_iff.2 ⟨h, c, hc, rfl⟩

/-! ## Cutting at separators -/

section SplitTop

variable {separator : Char}

/-- No cut before the scan is back on the ground level. -/
theorem splitTop_append_of_walk {q : Quoting} {depth : Nat} {x : Text}
    (hsep : isNeutral separator = true) (hx : walk q depth x = some (.outside, 0))
    (hinner : ∀ a b, x = a ++ separator :: b → walk q depth a ≠ some (.outside, 0)) (y : Text) :
    splitTop separator q depth x = [x] ∧
      splitTop separator q depth (x ++ separator :: y) = x :: splitTop separator .outside 0 y := by
  obtain ⟨hquote, -, -⟩ := isNeutral_iff.1 hsep
  induction x generalizing q depth with
  | nil =>
    obtain ⟨rfl, rfl⟩ := Prod.mk.inj (Option.some.inj hx)
    exact ⟨rfl, by simp [splitTop, Quoting.shows, hquote]⟩
  | cons c x ih =>
    rw [walk] at hx
    split at hx
    · cases hx
    · next hclose =>
      have hcut : ¬ (q.shows c && c == separator && depth == 0) = true := by
        intro h
        simp only [Quoting.shows, Bool.and_eq_true, decide_eq_true_eq, beq_iff_eq] at h
        obtain ⟨⟨⟨rfl, -⟩, rfl⟩, rfl⟩ := h
        exact hinner [] x rfl rfl
      obtain ⟨hone, htwo⟩ := ih hx fun a b hab => by
        have := hinner (c :: a) b (by rw [hab]; rfl)
        rwa [walk, if_neg hclose] at this
      constructor
      · rw [splitTop, if_neg hcut, hone]
        rfl
      · rw [List.cons_append, splitTop, if_neg hcut, htwo]
        rfl

/-- A balanced text that the separator is inner to is one part. -/
theorem splitTop_of_inner {x : Text} (hsep : isNeutral separator = true) (hx : Balanced x)
    (hinner : Inner separator x) : splitTop separator .outside 0 x = [x] :=
  (splitTop_append_of_walk hsep hx hinner []).1

/-- Followed by a separator, it is the first of the parts. -/
theorem splitTop_append {x : Text} (hsep : isNeutral separator = true) (hx : Balanced x)
    (hinner : Inner separator x) (y : Text) :
    splitTop separator .outside 0 (x ++ separator :: y) =
      x :: splitTop separator .outside 0 y :=
  (splitTop_append_of_walk hsep hx hinner y).2

/-- The first part is balanced and the separator inner to it; what follows it is cut in turn. -/
theorem splitTop_eq_cons {q : Quoting} {depth : Nat} {t part : Text} {parts : List Text}
    (hsep : isNeutral separator = true) (ht : walk q depth t = some (.outside, 0))
    (h : splitTop separator q depth t = part :: parts) :
    walk q depth part = some (.outside, 0) ∧
      (∀ a b, part = a ++ separator :: b → walk q depth a ≠ some (.outside, 0)) ∧
      (t = part ∧ parts = [] ∨
        ∃ rest, t = part ++ separator :: rest ∧ walk .outside 0 rest = some (.outside, 0) ∧
          splitTop separator .outside 0 rest = parts) := by
  obtain ⟨hquote, -, -⟩ := isNeutral_iff.1 hsep
  induction t generalizing q depth part with
  | nil =>
    obtain ⟨rfl, rfl⟩ := List.cons.inj h
    exact ⟨ht, by simp, .inl ⟨rfl, rfl⟩⟩
  | cons c t ih =>
    rw [splitTop] at h
    split at h
    · next hcut =>
      simp only [Quoting.shows, Bool.and_eq_true, decide_eq_true_eq, beq_iff_eq] at hcut
      obtain ⟨⟨⟨rfl, -⟩, rfl⟩, rfl⟩ := hcut
      obtain ⟨rfl, rfl⟩ := List.cons.inj h
      rw [walk_cons_of_isNeutral hsep] at ht
      exact ⟨rfl, by simp, .inr ⟨t, rfl, ht, rfl⟩⟩
    · next hcut =>
      rw [walk] at ht
      split at ht
      · cases ht
      · next hclose =>
        obtain ⟨first, others, hparts⟩ := List.exists_cons_of_ne_nil
          (splitTop_ne_nil separator (q.step c) (q.depthAfter depth c) t)
        rw [hparts] at h
        obtain ⟨rfl, rfl⟩ := List.cons.inj h
        obtain ⟨hwalk, hinner, hrest⟩ := ih ht hparts
        refine ⟨by rw [walk, if_neg hclose]; exact hwalk, ?_, ?_⟩
        · intro a b hab ha
          cases a with
          | nil =>
            -- The scan stands where it ends, so the first character would have been cut at.
            obtain ⟨rfl, rfl⟩ := Prod.mk.inj (Option.some.inj ha)
            obtain ⟨rfl, -⟩ := List.cons.inj hab
            simp [Quoting.shows, hquote] at hcut
          | cons d a =>
            obtain ⟨rfl, rfl⟩ := List.cons.inj hab
            rw [walk, if_neg hclose] at ha
            exact hinner a b rfl ha
        · rcases hrest with ⟨rfl, rfl⟩ | ⟨rest, rfl, hrest⟩
          · exact .inl ⟨rfl, rfl⟩
          · exact .inr ⟨rest, rfl, hrest⟩

/-- The parts of a balanced text are balanced, and the separator is inner to each. -/
theorem balanced_of_mem_splitTop {t part : Text} (hsep : isNeutral separator = true)
    (ht : Balanced t) (h : part ∈ splitTop separator .outside 0 t) :
    Balanced part ∧ Inner separator part := by
  generalize hparts : splitTop separator .outside 0 t = parts at h
  induction parts generalizing t with
  | nil => cases h
  | cons first parts ih =>
    obtain ⟨hwalk, hinner, hrest⟩ := splitTop_eq_cons hsep ht hparts
    rcases List.mem_cons.1 h with rfl | h
    · exact ⟨hwalk, hinner⟩
    · rcases hrest with ⟨-, rfl⟩ | ⟨rest, -, hrest, hcut⟩
      · cases h
      · exact ih hrest hcut h

end SplitTop

end Template
end ThemeRepair
