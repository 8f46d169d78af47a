import ThemeRepair.Proofs.Template.Literal
import ThemeRepair.Proofs.Template.Recognition

/-!
# Which bracket closes which

The scan of an expression counts the brackets of all kinds together.  `WellNested closes t` is the
grammar of the texts whose brackets nest when a closing bracket may close an opening one as
`closes` says: with `anyKind` these are the balanced texts (`balanced_iff_wellNested`), with
`ownKind` each closing bracket has to close one of its own kind.

`climb` reads a text with a stack of the open brackets in the place of their number, so it sees
which of them a closing bracket meets.

* `UnwindsFrom.step` — what one step of `climb` leaves to be read, the text of before has to begin
  with.
* `wellNested_iff_climb` — so the texts that `climb` comes back from are those of the grammar.
* `wellNested_iff_pairs` — of the balanced texts, the nested ones are those in which `closes` holds
  of every two brackets that belong together.

So the mapping from which a finding was built is nested by kind, and ends with a brace, exactly if
no two brackets of different kinds belong together in it (`mapping_nested_iff_kinds_agree`).  The
search does not ask for that (`mapping_may_end_with_parenthesis`).
-/

namespace ThemeRepair
namespace Template

/-! ## Brackets that nest -/

/-- The bracket that closes an opening bracket of its own kind. -/
def closerOf (o : Char) : Char := if o = '(' then ')' else if o = '[' then ']' else '}'

/-- Any bracket closes any other one. -/
def anyKind (_ _ : Char) : Bool := true

/-- A bracket closes one of its own kind. -/
def ownKind (o c : Char) : Bool := c == closerOf o

/-- Texts of neutral characters, literals, and brackets around such texts, where `closes` says
which bracket closes which. -/
inductive WellNested (closes : Char → Char → Bool) : Text → Prop
  | nil : WellNested closes []
  | neutral {c : Char} {t : Text} (hc : isNeutral c = true) (ht : WellNested closes t) :
      WellNested closes (c :: t)
  | literal {q : Char} {i t : Text} (hq : isQuote q = true) (hi : LiteralBody q i)
      (ht : WellNested closes t) : WellNested closes (q :: (i ++ q :: t))
  | group {o c : Char} {i t : Text} (ho : isOpening o = true) (hc : isClosing c = true)
      (h : closes o c = true) (hi : WellNested closes i) (ht : WellNested closes t) :
      WellNested closes (o :: (i ++ c :: t))

/-- The brackets that are open behind a character, the innermost first; `none` where a closing
bracket meets none that it closes. -/
def stackAfter? (closes : Char → Char → Bool) (q : Quoting) (stack : Text) (c : Char) :
    Option Text :=
  if q.shows c then
    if isOpening c then some (c :: stack)
    else if isClosing c then
      match stack with
      | o :: stack => if closes o c then some stack else none
      | [] => none
    else some stack
  else some stack

/-- Where a scan stands behind a text, and which brackets are open there. -/
def climb (closes : Char → Char → Bool) : Quoting → (stack : Text) → Text →
    Option (Quoting × Text)
  | q, stack, [] => some (q, stack)
  | q, stack, c :: t =>
    (stackAfter? closes q stack c).bind fun stack => climb closes (q.step c) stack t

section Climb

variable {closes closes' : Char → Char → Bool} {stack stack' t u : Text} {q q' : Quoting}
  {c o : Char}

theorem climb_append (q : Quoting) (stack t u : Text) :
    climb closes q stack (t ++ u) =
      (climb closes q stack t).bind fun p => climb closes p.1 p.2 u := by
  induction t generalizing q stack with
  | nil => rfl
  | cons c t ih =>
    rw [List.cons_append, climb, climb]
    cases stackAfter? closes q stack c with
    | none => rfl
    | some stack => exact ih (q.step c) stack

/-! ### One character -/

theorem stackAfter?_inside (a : Char) (escaped : Bool) (stack : Text) (c : Char) :
    stackAfter? closes (.inside a escaped) stack c = some stack := by
  simp [stackAfter?, Quoting.shows]

theorem stackAfter?_quote (hc : isQuote c = true) (stack : Text) :
    stackAfter? closes .outside stack c = some stack := by
  simp [stackAfter?, Quoting.shows, hc]

theorem stackAfter?_neutral (hc : isNeutral c = true) (stack : Text) :
    stackAfter? closes .outside stack c = some stack := by
  obtain ⟨hquote, hopen, hclose⟩ := isNeutral_iff.1 hc
  simp [stackAfter?, Quoting.shows, hquote, hopen, hclose]

theorem stackAfter?_opening (hc : isOpening c = true) (stack : Text) :
    stackAfter? closes .outside stack c = some (c :: stack) := by
  simp [stackAfter?, Quoting.shows, not_isQuote_of_isOpening hc, hc]

theorem stackAfter?_closing_eq_some_iff (hc : isClosing c = true) :
    stackAfter? closes .outside stack c = some stack' ↔
      ∃ o, stack = o :: stack' ∧ closes o c = true := by
  cases stack with
  | nil =>
    simp [stackAfter?, Quoting.shows, not_isQuote_of_isClosing hc, not_isOpening_of_isClosing hc,
      hc]
  | cons o stack =>
    simp [stackAfter?, Quoting.shows, not_isQuote_of_isClosing hc, not_isOpening_of_isClosing hc,
      hc, and_comm]

/-- The open brackets are as many as the scan counts. -/
theorem length_of_stackAfter? (h : stackAfter? closes q stack c = some stack') :
    stack'.length = q.depthAfter stack.length c ∧
      ¬ (q.shows c && isClosing c && stack.length == 0) = true := by
  cases q with
  | inside a escaped =>
    rw [stackAfter?_inside] at h
    cases h
    simp [depthAfter_inside, Quoting.shows]
  | outside =>
    rcases char_cases c with hc | hc | hc | hc
    · rw [stackAfter?_quote hc] at h
      cases h
      simp [depthAfter_quote hc, Quoting.shows, hc]
    · rw [stackAfter?_opening hc] at h
      cases h
      have hclose : isClosing c = false := by
        by_contra hclose
        rw [not_isOpening_of_isClosing (by simpa using hclose)] at hc
        cases hc
      simp [depthAfter_opening hc, hclose]
    · obtain ⟨o, rfl, -⟩ := (stackAfter?_closing_eq_some_iff hc).1 h
      simp [depthAfter_closing hc]
    · rw [stackAfter?_neutral hc] at h
      cases h
      simp [depthAfter_neutral hc, (isNeutral_iff.1 hc).2.2]

/-- Where any bracket closes any other one, only the number of the open ones matters. -/
theorem exists_stackAfter?_anyKind
    (h : ¬ (q.shows c && isClosing c && stack.length == 0) = true) :
    ∃ stack', stackAfter? anyKind q stack c = some stack' := by
  unfold stackAfter?
  split
  · next hshow =>
    split
    · exact ⟨_, rfl⟩
    · split
      · next hclose =>
        cases stack with
        | nil => simp [hshow, hclose] at h
        | cons o stack => exact ⟨stack, rfl⟩
      · exact ⟨_, rfl⟩
  · exact ⟨_, rfl⟩

/-- Brackets may close more. -/
theorem stackAfter?_mono (hmono : ∀ o c, closes o c = true → closes' o c = true)
    (h : stackAfter? closes q stack c = some stack') :
    stackAfter? closes' q stack c = some stack' := by
  cases q with
  | inside a escaped => rwa [stackAfter?_inside] at h ⊢
  | outside =>
    rcases char_cases c with hc | hc | hc | hc
    · rwa [stackAfter?_quote hc] at h ⊢
    · rwa [stackAfter?_opening hc] at h ⊢
    · obtain ⟨o, hstack, hclose⟩ := (stackAfter?_closing_eq_some_iff hc).1 h
      exact (stackAfter?_closing_eq_some_iff hc).2 ⟨o, hstack, hmono o c hclose⟩
    · rwa [stackAfter?_neutral hc] at h ⊢

/-! ### Whole texts -/

theorem climb_mono (hmono : ∀ o c, closes o c = true → closes' o c = true)
    (h : climb closes q stack t = some (q', stack')) :
    climb closes' q stack t = some (q', stack') := by
  induction t generalizing q stack with
  | nil => exact h
  | cons c t ih =>
    obtain ⟨next, hnext, hrest⟩ := Option.bind_eq_some_iff.1 h
    rw [climb, stackAfter?_mono hmono hnext]
    exact ih hrest

theorem walk_of_climb (h : climb closes q stack t = some (q', stack')) :
    walk q stack.length t = some (q', stack'.length) := by
  induction t generalizing q stack with
  | nil =>
    obtain ⟨rfl, rfl⟩ := Prod.mk.inj (Option.some.inj h)
    rfl
  | cons c t ih =>
    obtain ⟨next, hnext, hrest⟩ := Option.bind_eq_some_iff.1 h
    obtain ⟨hlen, hopen⟩ := length_of_stackAfter? hnext
    rw [walk, if_neg hopen, ← hlen]
    exact ih hrest

theorem exists_climb_of_walk {depth : Nat} (h : walk q stack.length t = some (q', depth)) :
    ∃ stack', climb anyKind q stack t = some (q', stack') ∧ stack'.length = depth := by
  induction t generalizing q stack with
  | nil =>
    obtain ⟨rfl, rfl⟩ := Prod.mk.inj (Option.some.inj h)
    exact ⟨stack, rfl, rfl⟩
  | cons c t ih =>
    rw [walk] at h
    split at h
    · cases h
    · next hopen =>
      obtain ⟨next, hnext⟩ := exists_stackAfter?_anyKind hopen
      rw [← (length_of_stackAfter? hnext).1] at h
      rw [climb, hnext]
      exact ih h

theorem climb_literalBody {a : Char} {i : Text} (ha : a ≠ '\\') (hi : LiteralBody a i)
    (stack u : Text) :
    climb closes (.inside a false) stack (i ++ a :: u) = climb closes .outside stack u := by
  induction hi with
  | nil => simp [climb, stackAfter?_inside, Quoting.step, ha]
  | plain hquote hback _ ih =>
    simpa [climb, stackAfter?_inside, Quoting.step, hback, hquote] using ih
  | escaped _ ih => simpa [climb, stackAfter?_inside, Quoting.step] using ih

/-! ## The grammar and the stack -/

/-- A nested text leaves the open brackets as they are. -/
theorem WellNested.climb_append (h : WellNested closes t) (stack u : Text) :
    climb closes .outside stack (t ++ u) = climb closes .outside stack u := by
  induction h generalizing stack u with
  | nil => rfl
  | neutral hc _ ih =>
    rw [List.cons_append, climb, stackAfter?_neutral hc, step_outside (isNeutral_iff.1 hc).1]
    exact ih stack u
  | @literal a i t hq hi _ ih =>
    rw [List.cons_append, climb, stackAfter?_quote hq, step_quote hq, List.append_assoc]
    exact (climb_literalBody (ne_backslash_of_isQuote hq) hi stack (t ++ u)).trans (ih stack u)
  | @group o c i t ho hc hclose _ _ ihi iht =>
    have hstack : stackAfter? closes .outside (o :: stack) c = some stack :=
      (stackAfter?_closing_eq_some_iff hc).2 ⟨o, rfl, hclose⟩
    rw [List.cons_append, climb, stackAfter?_opening ho, step_outside (not_isQuote_of_isOpening ho),
      List.append_assoc]
    calc climb closes .outside (o :: stack) (i ++ (c :: t ++ u))
        = climb closes .outside (o :: stack) (c :: (t ++ u)) := ihi (o :: stack) _
      _ = climb closes .outside stack (t ++ u) := by
          rw [climb, hstack, step_outside (not_isQuote_of_isClosing hc)]
          rfl
      _ = climb closes .outside stack u := iht stack u

/-- A text closes the open brackets one after the other, with nested texts in between. -/
inductive Unwinds (closes : Char → Char → Bool) : (stack : Text) → Text → Prop
  | done {t : Text} (ht : WellNested closes t) : Unwinds closes [] t
  | close {o c : Char} {i t stack : Text} (hi : WellNested closes i) (hc : isClosing c = true)
      (h : closes o c = true) (ht : Unwinds closes stack t) :
      Unwinds closes (o :: stack) (i ++ c :: t)

/-- What may stand before a nested text may stand before one that closes open brackets. -/
theorem Unwinds.prepend {p : Text} (hp : ∀ u, WellNested closes u → WellNested closes (p ++ u))
    (h : Unwinds closes stack t) : Unwinds closes stack (p ++ t) := by
  cases h with
  | done ht => exact .done (hp t ht)
  | close hi hc hclose ht =>
    rw [← List.append_assoc]
    exact .close (hp _ hi) hc hclose ht

/-- A text ends the literal that the scan stands in, and closes the open brackets behind it. -/
inductive UnwindsFrom (closes : Char → Char → Bool) : Quoting → (stack : Text) → Text → Prop
  | outside {stack t : Text} (h : Unwinds closes stack t) : UnwindsFrom closes .outside stack t
  | inside {a : Char} {i stack t : Text} (hi : LiteralBody a i) (h : Unwinds closes stack t) :
      UnwindsFrom closes (.inside a false) stack (i ++ a :: t)
  | escaped {a d : Char} {i stack t : Text} (hi : LiteralBody a i) (h : Unwinds closes stack t) :
      UnwindsFrom closes (.inside a true) stack (d :: (i ++ a :: t))

theorem UnwindsFrom.step (hstack : stackAfter? closes q stack c = some stack')
    (h : UnwindsFrom closes (q.step c) stack' t) : UnwindsFrom closes q stack (c :: t) := by
  cases q with
  | outside =>
    rcases char_cases c with hc | hc | hc | hc
    · rw [stackAfter?_quote hc] at hstack
      cases hstack
      rw [step_quote hc] at h
      cases h with
      | @inside _ i _ t hi ht =>
        have := ht.prepend (p := c :: (i ++ [c])) fun u hu => by
          simpa using WellNested.literal hc hi hu
        exact .outside (by simpa using this)
    · rw [stackAfter?_opening hc] at hstack
      cases hstack
      rw [step_outside (not_isQuote_of_isOpening hc)] at h
      cases h with
      | outside h =>
        cases h with
        | @close _ d i t _ hi hd hclose ht =>
          have := ht.prepend (p := c :: (i ++ [d])) fun u hu => by
            simpa using WellNested.group hc hd hclose hi hu
          exact .outside (by simpa using this)
    · obtain ⟨o, rfl, hclose⟩ := (stackAfter?_closing_eq_some_iff hc).1 hstack
      rw [step_outside (not_isQuote_of_isClosing hc)] at h
      cases h with
      | outside h => exact .outside (.close .nil hc hclose h)
    · rw [stackAfter?_neutral hc] at hstack
      cases hstack
      rw [step_outside (isNeutral_iff.1 hc).1] at h
      cases h with
      | outside h => exact .outside (h.prepend (p := [c]) fun u hu => .neutral hc hu)
  | inside a escaped =>
    rw [stackAfter?_inside] at hstack
    cases hstack
    cases escaped with
    | true =>
      rw [Quoting.step] at h
      cases h with
      | inside hi h => exact .escaped hi h
    | false =>
      rw [Quoting.step] at h
      by_cases hback : c = '\\'
      · rw [if_pos hback] at h
        cases h with
        | escaped hi h =>
          rw [hback]
          exact .inside (i := '\\' :: _ :: _) (.escaped hi) h
      · rw [if_neg hback] at h
        by_cases hquote : c = a
        · rw [if_pos hquote] at h
          cases h with
          | outside h =>
            rw [hquote]
            exact .inside (i := []) .nil h
        · rw [if_neg hquote] at h
          cases h with
          | inside hi h => exact .inside (i := c :: _) (.plain hquote hback hi) h

/-- What is read down to the last open bracket closes them one after the other. -/
theorem unwindsFrom_of_climb (h : climb closes q stack t = some (.outside, [])) :
    UnwindsFrom closes q stack t := by
  induction t generalizing q stack with
  | nil =>
    obtain ⟨rfl, rfl⟩ := Prod.mk.inj (Option.some.inj h)
    exact .outside (.done .nil)
  | cons c t ih =>
    obtain ⟨next, hnext, hrest⟩ := Option.bind_eq_some_iff.1 h
    exact (ih hrest).step hnext

/-- The nested texts are those that leave no bracket open. -/
theorem wellNested_iff_climb :
    WellNested closes t ↔ climb closes .outside [] t = some (.outside, []) := by
  constructor
  · intro h
    have := h.climb_append [] []
    rwa [List.append_nil] at this
  · intro h
    cases unwindsFrom_of_climb h with
    | outside h =>
      cases h with
      | done ht => exact ht

/-- Where any bracket closes any other one, the nested texts are the balanced ones. -/
theorem balanced_iff_wellNested : Balanced t ↔ WellNested anyKind t := by
  rw [wellNested_iff_climb]
  constructor
  · intro h
    have hwalk : walk .outside ([] : Text).length t = some (.outside, 0) := h
    obtain ⟨stack, hclimb, hlen⟩ := exists_climb_of_walk hwalk
    rwa [List.length_eq_zero_iff.1 hlen] at hclimb
  · exact walk_of_climb

/-! ## Brackets that belong together -/

/-- A bracket of the text closes the opening one, and only balanced text stands between them. -/
def Pairs (t : Text) (o c : Char) : Prop :=
  ∃ x i y, t = x ++ o :: (i ++ c :: y) ∧ EndsOutside x ∧ isOpening o = true ∧
    isClosing c = true ∧ Balanced i

theorem Pairs.append_right (h : Pairs t o c) (u : Text) : Pairs (t ++ u) o c := by
  obtain ⟨x, i, y, rfl, hx, ho, hc, hi⟩ := h
  exact ⟨x, i, y ++ u, by simp, hx, ho, hc, hi⟩

theorem Pairs.append_left (h : Pairs t o c) (hu : EndsOutside u) : Pairs (u ++ t) o c := by
  obtain ⟨x, i, y, rfl, hx, ho, hc, hi⟩ := h
  exact ⟨u ++ x, i, y, by simp, hu.append hx, ho, hc, hi⟩

theorem endsOutside_singleton (h : isQuote c = false) : EndsOutside [c] :=
  endsOutside_iff.2 (step_outside h)

/-- Of two brackets that belong together the one closes the other. -/
theorem WellNested.closes_of_pairs (h : WellNested closes t) (hpair : Pairs t o c) :
    closes o c = true := by
  obtain ⟨x, i, y, rfl, hx, ho, hc, hi⟩ := hpair
  rw [wellNested_iff_climb, Template.climb_append] at h
  obtain ⟨⟨q, stack⟩, hclimb, hrest⟩ := Option.bind_eq_some_iff.1 h
  -- The scan comes to the opening bracket outside literals,
  obtain rfl : q = .outside := by
    have hquoting := congrArg Prod.fst (scan_of_walk (walk_of_climb hclimb))
    rw [scan_fst] at hquoting
    exact hquoting.symm.trans (endsOutside_iff.1 hx)
  dsimp only at hrest
  rw [climb, stackAfter?_opening ho, step_outside (not_isQuote_of_isOpening ho), Option.bind_some,
    Template.climb_append] at hrest
  -- and to the closing one with the same bracket on top of the stack.
  obtain ⟨p, hinner, hrest⟩ := Option.bind_eq_some_iff.1 hrest
  have hsame : climb anyKind .outside (o :: stack) i = some (.outside, o :: stack) := by
    have := (balanced_iff_wellNested.1 hi).climb_append (o :: stack) []
    rwa [List.append_nil] at this
  obtain rfl : p = (.outside, o :: stack) :=
    Option.some.inj ((climb_mono (fun _ _ _ => rfl) hinner).symm.trans hsame)
  obtain ⟨next, hnext, -⟩ := Option.bind_eq_some_iff.1 hrest
  obtain ⟨o', hstack, hclose⟩ := (stackAfter?_closing_eq_some_iff hc).1 hnext
  obtain ⟨rfl, -⟩ := List.cons.inj hstack
  exact hclose

/-- A balanced text is nested if the brackets that belong together close each other. -/
theorem wellNested_of_pairs (h : WellNested anyKind t)
    (hpairs : ∀ o c, Pairs t o c → closes o c = true) : WellNested closes t := by
  induction h with
  | nil => exact .nil
  | @neutral d t hd _ ih =>
    refine .neutral hd (ih fun o c hpair => hpairs o c ?_)
    exact hpair.append_left (endsOutside_singleton (isNeutral_iff.1 hd).1)
  | @literal a i t ha hi _ ih =>
    refine .literal ha hi (ih fun o c hpair => hpairs o c ?_)
    have hends : EndsOutside (a :: (i ++ [a])) := ⟨0, StandsAt.literal .start ha hi⟩
    simpa using hpair.append_left hends
  | @group o' c' i t ho hc _ hi _ ihi iht =>
    have hbalanced : Balanced i := balanced_iff_wellNested.2 hi
    have hopen : EndsOutside [o'] := endsOutside_singleton (not_isQuote_of_isOpening ho)
    have hclose : EndsOutside [c'] := endsOutside_singleton (not_isQuote_of_isClosing hc)
    refine .group ho hc (hpairs o' c' ⟨[], i, t, rfl, ⟨0, .start⟩, ho, hc, hbalanced⟩)
      (ihi fun o c hpair => hpairs o c ?_) (iht fun o c hpair => hpairs o c ?_)
    · exact (hpair.append_right (c' :: t)).append_left hopen
    · have hbefore : EndsOutside (o' :: (i ++ [c'])) :=
        hopen.append (hbalanced.endsOutside.append hclose)
      simpa using hpair.append_left hbefore

theorem wellNested_iff_pairs (h : Balanced t) :
    WellNested closes t ↔ ∀ o c, Pairs t o c → closes o c = true :=
  ⟨fun hnested _ _ => hnested.closes_of_pairs, wellNested_of_pairs (balanced_iff_wellNested.1 h)⟩

end Climb

/-! ## The mapping of a call -/

section Mapping

variable {ns : Text}

/-- The mapping that a call hands over, from the brace that ends the head to the bracket that
closes it. -/
def WrittenCall.mapping (w : WrittenCall ns) : Text := '{' :: (w.body ++ [w.close])

/-- The brace at the end of a head is the one that opens the mapping. -/
theorem HeadText.exists_eq_concat {style : CallStyle} {head : CallHead} {u : Text}
    (h : HeadText ns style head u) : ∃ front, u = front ++ ['{'] := by
  cases h <;>
  · simp only [← List.append_assoc]
    exact ⟨_, rfl⟩

theorem WrittenCall.text_eq_mapping (w : WrittenCall ns) {front : Text}
    (hfront : w.headText = front ++ ['{']) : w.text = front ++ (w.mapping ++ w.tailText) := by
  simp [WrittenCall.text, WrittenCall.mapping, hfront]

theorem WrittenCall.wellNested_mapping (w : WrittenCall ns) : WellNested anyKind w.mapping :=
  .group rfl w.closes rfl (balanced_iff_wellNested.1 w.balanced) .nil

/-- The brace and the bracket that closes the mapping belong together. -/
theorem WrittenCall.pairs_mapping (w : WrittenCall ns) : Pairs w.mapping '{' w.close :=
  ⟨[], w.body, [], rfl, ⟨0, .start⟩, rfl, w.closes, w.balanced⟩

/-- **Which mappings are nested by kind.**  Each finding is built from a call, and the mapping of
the call begins at the brace that ends the head.  Its brackets nest if a bracket may close one of
any kind.  It ends with a brace, with each bracket closing one of its own kind, exactly if no two
brackets that belong together in it are of different kinds. -/
theorem mapping_nested_iff_kinds_agree {settings : Settings.Headings} {path : String} {t : Text}
    {f : Finding} (hf : f ∈ findCalls settings path t) :
    (∃ w : WrittenCall settings.legacyNamespace, w.Gives path t f) ∧
      ∀ w : WrittenCall settings.legacyNamespace, w.Gives path t f →
        (∃ x front rest, t = x ++ (front ++ (w.mapping ++ rest)) ∧ f.span.start = Text.size x ∧
          w.headText = front ++ ['{']) ∧
        WellNested anyKind w.mapping ∧
        ((w.close = '}' ∧ WellNested ownKind w.mapping) ↔
          ∀ o c, Pairs w.mapping o c → c = closerOf o) := by
  refine ⟨mem_findCalls_iff_gives.1 hf, fun w hgives => ⟨?_, w.wellNested_mapping, ?_⟩⟩
  · obtain ⟨x, behind, n, ht, -, -, rfl⟩ := hgives
    obtain ⟨front, hfront⟩ := w.isHead.exists_eq_concat
    refine ⟨x, front, w.tailText ++ behind, ?_, rfl, hfront⟩
    rw [ht, w.text_eq_mapping hfront]
    simp
  · have hown : WellNested ownKind w.mapping ↔
        ∀ o c, Pairs w.mapping o c → ownKind o c = true :=
      wellNested_iff_pairs (balanced_iff_wellNested.2 w.wellNested_mapping)
    have hpairs : WellNested ownKind w.mapping ↔ ∀ o c, Pairs w.mapping o c → c = closerOf o := by
      simpa only [ownKind, beq_iff_eq] using hown
    rw [← hpairs]
    refine ⟨And.right, fun h => ⟨?_, h⟩⟩
    exact hpairs.1 h '{' w.close w.pairs_mapping

end Mapping

/-- A call in whose title a bracket closes a parenthesis. -/
def crossedCall : WrittenCall ({} : Settings.Headings).legacyNamespace :=
  secondLevelCall "content: t(a]".toList '}' (by decide)

theorem mapping_nested_iff_kinds_agree_crossedCall :
    ∃ f ∈ findCalls {} "" crossedCall.text, crossedCall.Gives "" crossedCall.text f ∧
      WellNested anyKind crossedCall.mapping ∧ Pairs crossedCall.mapping '(' ']' ∧
      ¬ WellNested ownKind crossedCall.mapping := by
  have hgives : crossedCall.Gives "" crossedCall.text _ := gives_secondLevelCall ..
  have hf := mem_findCalls_iff_gives.2 ⟨crossedCall, hgives⟩
  obtain ⟨-, hall⟩ := mapping_nested_iff_kinds_agree hf
  obtain ⟨-, hnested, hiff⟩ := hall crossedCall hgives
  have hpair : Pairs crossedCall.mapping '(' ']' :=
    ⟨"\x7bcontent: t".toList, ['a'], ['}'], by decide, endsOutside_iff.2 (by decide), by decide,
      by decide, by decide⟩
  refine ⟨_, hf, hgives, hnested, hpair, fun h => ?_⟩
  exact absurd (hiff.1 ⟨rfl, h⟩ '(' ']' hpair) (by decide)

/-- A call whose mapping a parenthesis closes. -/
def parenthesisedCall : WrittenCall ({} : Settings.Headings).legacyNamespace :=
  secondLevelCall "content: t".toList ')' (by decide)

theorem mapping_may_end_with_parenthesis :
    ¬ ∀ (t : Text), ∀ f ∈ findCalls {} "" t,
      ∃ w : WrittenCall ({} : Settings.Headings).legacyNamespace, w.Gives "" t f ∧
        w.close = '}' ∧ WellNested ownKind w.mapping := by
  intro h
  have hgives : parenthesisedCall.Gives "" parenthesisedCall.text _ := gives_secondLevelCall ..
  obtain ⟨w, hw, hclose, -⟩ := h _ _ (mem_findCalls_iff_gives.2 ⟨parenthesisedCall, hgives⟩)
  -- The finding is built from no other call.
  rw [(hw.unique hgives).2] at hclose
  exact absurd hclose (by decide)

end Template
end ThemeRepair
