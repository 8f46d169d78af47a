import ThemeRepair.Proofs.Template.Spelling
import ThemeRepair.Proofs.Text.Cut

/-!
# The search for heads

`headsFrom` gives the heads of a text from left to right and passes over one that begins inside
another.  What it gives is there (`exists_headText_of_mem_headsFrom`), in the order of the text
(`headsFrom_pairwise`), and of all heads that stand in the text it leaves out only those that
another one covers (`exists_covering_of_headText`).

A head begins inside another one at most at the brace that ends that one
(`HeadText.length_add_length_le`), since nothing else in it is a brace that a head could begin
with.  So a search that is broken off at some place of the text goes on there without knowing what
it saw before, up to one character: `takenAfter` is what it has to know.  How the search goes in a
stretch of text depends, of all that stands behind the stretch, only on whether another call begins
there (`headsFrom_transfer`).
-/

namespace ThemeRepair

namespace Template

section Heads

variable {ns : Text}

/-! ## Where heads meet -/

theorem HeadText.two_le_length {style : CallStyle} {head : CallHead} {u : Text}
    (hns : ns.all isHeadInside = true) (h : HeadText ns style head u) : 2 ≤ u.length := by
  obtain ⟨mid, rfl, -, -⟩ := h.exists_eq hns
  simp

/-- The head that stands at a place is the only one there. -/
theorem HeadText.unique {style style' : CallStyle} {head head' : CallHead} {u u' r r' : Text}
    (h : HeadText ns style head u) (h' : HeadText ns style' head' u') (heq : u ++ r = u' ++ r') :
    style = style' ∧ head = head' ∧ r = r' := by
  have hstyle : style = style' := by
    have hsecond := congrArg (fun t : Text => t[1]?) heq
    cases h <;> cases h' <;> first | rfl | exact absurd hsecond (by simp)
  subst hstyle
  have hread := callHead?_append h r
  rw [heq, callHead?_append h' r'] at hread
  obtain ⟨hhead, hr⟩ := Prod.mk.inj (Option.some.inj hread)
  exact ⟨rfl, hhead.symm, hr.symm⟩

/-- In a head there is no second place where a head could begin, but for its last character. -/
theorem HeadText.length_le_of_eq_append {style : CallStyle} {head : CallHead} {u x z : Text}
    {c : Char} (hns : ns.all isHeadInside = true) (h : HeadText ns style head u)
    (hc : isHeadInside c = false) (hx : x ≠ []) (hu : u = x ++ '{' :: z)
    (hz : z.head?.all (· == c) = true) : z = [] := by
  obtain ⟨mid, hmid, hinside, hne⟩ := h.exists_eq hns
  rw [hmid] at hu
  obtain ⟨a, x, rfl⟩ := List.exists_cons_of_ne_nil hx
  rw [List.cons_append, List.cons.injEq] at hu
  obtain ⟨-, hu⟩ := hu
  cases x with
  | nil =>
    -- The second character of the head would be the brace, and `c` the first of its inside.
    obtain ⟨-, rfl⟩ := List.cons.inj hu
    obtain ⟨b, mid, rfl⟩ := List.exists_cons_of_ne_nil hne
    obtain rfl : b = c := by simpa using hz
    simp [hc] at hinside
  | cons b x =>
    rw [List.cons_append, List.cons.injEq] at hu
    obtain ⟨-, hu⟩ := hu
    by_contra hzne
    obtain ⟨z, d, rfl⟩ := List.eq_nil_or_concat z |>.resolve_left hzne
    have hcut : mid = x ++ '{' :: z := by
      have := congrArg List.dropLast hu
      rwa [List.concat_eq_append, List.dropLast_concat, ← List.cons_append, ← List.append_assoc,
        List.dropLast_concat] at this
    rw [hcut] at hinside
    simp [isHeadInside] at hinside

/-- A head that begins behind the beginning of another one begins behind its end, or at the brace
that ends it. -/
theorem HeadText.length_add_length_le {style style' : CallStyle} {head head' : CallHead}
    {x u r x' u' r' : Text} (hns : ns.all isHeadInside = true) (h : HeadText ns style head u)
    (h' : HeadText ns style' head' u') (heq : x ++ (u ++ r) = x' ++ (u' ++ r'))
    (hlt : x.length < x'.length) : x.length + u.length ≤ x'.length + 1 := by
  obtain ⟨mid', hu', -, -⟩ := h'.exists_eq hns
  have hsecond : isHeadInside style'.second = false := by cases style' <;> rfl
  obtain ⟨y, rfl⟩ : x <+: x' :=
    List.prefix_of_prefix_length_le ⟨u ++ r, rfl⟩ ⟨u' ++ r', heq.symm⟩ hlt.le
  have hy : y ≠ [] := by
    rintro rfl
    simp at hlt
  rw [List.append_assoc, List.append_cancel_left_eq] at heq
  rcases List.append_eq_append_iff.1 heq with ⟨z, rfl, -⟩ | ⟨z, hz, hz'⟩
  · simp only [List.length_append]
    omega
  · cases z with
    | nil =>
      simp only [hz, List.append_nil, List.length_append]
      omega
    | cons d z =>
      rw [hu', List.cons_append, List.cons_append, List.cons_append, List.cons.injEq] at hz'
      obtain ⟨rfl, hz'⟩ := hz'
      have hnil : z = [] := by
        refine h.length_le_of_eq_append hns hsecond hy hz ?_
        cases z with
        | nil => rfl
        | cons e z =>
          obtain ⟨rfl, -⟩ := List.cons.inj hz'
          simp
      simp only [hz, hnil, List.length_append, List.length_singleton]
      omega

/-! ## What the search gives -/

variable {style : CallStyle}

/-- A head begins with a brace. -/
theorem callHead?_eq_none (hns : ns.all isHeadInside = true) {c : Char} (hc : c ≠ '{') (t : Text) :
    callHead? ns style (c :: t) = none := by
  rw [Option.eq_none_iff_forall_ne_some]
  rintro ⟨head, rest⟩ hhead
  obtain ⟨u, hu, heq⟩ := callHead?_eq_some_iff.1 hhead
  obtain ⟨mid, rfl, -, -⟩ := hu.exists_eq hns
  exact hc (List.cons.inj heq).1

theorem exists_headText_of_mem_headsFrom {off taken : Nat} {t : Text} {h : FoundHead}
    (hmem : h ∈ headsFrom ns style off taken t) :
    ∃ x u, t = x ++ (u ++ h.rest) ∧ HeadText ns style h.head u ∧ h.start = off + Text.size x := by
  fun_induction headsFrom ns style off taken t with
  | case1 => cases hmem
  | case2 off taken c t ih =>
    obtain ⟨x, u, rfl, hu, hstart⟩ := ih hmem
    exact ⟨c :: x, u, rfl, hu, by rw [hstart, Text.size_cons]; omega⟩
  | case3 off c t head rest hhead ih =>
    rcases List.mem_cons.1 hmem with rfl | hmem
    · obtain ⟨u, hu, heq⟩ := callHead?_eq_some_iff.1 hhead
      exact ⟨[], u, heq, hu, rfl⟩
    · obtain ⟨x, u, rfl, hu, hstart⟩ := ih hmem
      exact ⟨c :: x, u, rfl, hu, by rw [hstart, Text.size_cons]; omega⟩
  | case4 off c t hhead ih =>
    obtain ⟨x, u, rfl, hu, hstart⟩ := ih hmem
    exact ⟨c :: x, u, rfl, hu, by rw [hstart, Text.size_cons]; omega⟩

theorem le_start_of_mem_headsFrom {off taken : Nat} {t : Text} {h : FoundHead}
    (hmem : h ∈ headsFrom ns style off taken t) : off ≤ h.start := by
  obtain ⟨x, u, -, -, hstart⟩ := exists_headText_of_mem_headsFrom hmem
  omega

/-- Heads are found from left to right. -/
theorem headsFrom_pairwise (off taken : Nat) (t : Text) :
    (headsFrom ns style off taken t).Pairwise fun g h => g.start < h.start := by
  fun_induction headsFrom ns style off taken t with
  | case1 => exact .nil
  | case2 off taken c t ih => exact ih
  | case3 off c t head rest hhead ih =>
    refine .cons (fun h hmem => ?_) ih
    have := le_start_of_mem_headsFrom hmem
    have := c.utf8Size_pos
    show off < h.start
    omega
  | case4 off c t hhead ih => exact ih

/-- A head of a text, found where its search began at the offset `off`, begins no later than behind
`n` characters of the text and ends behind them. -/
def Covers (ns : Text) (style : CallStyle) (off : Nat) (t : Text) (n : Nat) (h : FoundHead) : Prop :=
  ∃ y v, t = y ++ (v ++ h.rest) ∧ HeadText ns style h.head v ∧ h.start = off + Text.size y ∧
    y.length ≤ n ∧ n < y.length + v.length

theorem Covers.cons {off n : Nat} {c : Char} {t : Text} {h : FoundHead}
    (hcovers : Covers ns style (off + c.utf8Size) t n h) : Covers ns style off (c :: t) (n + 1) h := by
  obtain ⟨y, v, rfl, hv, hstart, hle, hlt⟩ := hcovers
  refine ⟨c :: y, v, rfl, hv, ?_, by simpa using hle, ?_⟩
  · rw [hstart, Text.size_cons]
    omega
  · simp only [List.length_cons]
    omega

/-- A head that stands in the text is found, or another one is found that begins before it and
ends behind its beginning. -/
theorem exists_covering_of_headText {off taken : Nat} {t x u r : Text} {head : CallHead}
    (ht : t = x ++ (u ++ r)) (hu : HeadText ns style head u) (htaken : taken ≤ x.length) :
    ∃ h ∈ headsFrom ns style off taken t, Covers ns style off t x.length h := by
  fun_induction headsFrom ns style off taken t generalizing x with
  | case1 =>
    obtain ⟨-, hnil, -⟩ : x = [] ∧ u = [] ∧ r = [] := by simpa using ht.symm
    cases hu <;> simp at hnil
  | case2 off taken c t ih =>
    obtain ⟨a, x, rfl⟩ := List.exists_cons_of_length_pos (l := x) (by omega)
    obtain ⟨rfl, htail⟩ := List.cons.inj ht
    obtain ⟨h, hmem, hcovers⟩ := ih htail (by simpa using htaken)
    exact ⟨h, hmem, hcovers.cons⟩
  | case3 off c t head' rest hhead ih =>
    obtain ⟨v, hv, heq⟩ := callHead?_eq_some_iff.1 hhead
    by_cases hshort : x.length < v.length
    · exact ⟨_, List.mem_cons_self, [], v, heq, hv, rfl, by simp, by simpa using hshort⟩
    · have hlen := congrArg List.length heq
      simp only [List.length_cons, List.length_append] at hlen
      have hvpos : 0 < v.length := List.length_pos_of_ne_nil (by cases hv <;> simp)
      obtain ⟨a, x, rfl⟩ := List.exists_cons_of_length_pos (l := x) (by omega)
      obtain ⟨rfl, htail⟩ := List.cons.inj ht
      simp only [List.length_cons] at hshort
      obtain ⟨h, hmem, hcovers⟩ := ih htail (by omega)
      exact ⟨h, List.mem_cons_of_mem _ hmem, hcovers.cons⟩
  | case4 off c t hhead ih =>
    cases x with
    | nil =>
      rw [List.nil_append] at ht
      rw [ht, callHead?_append hu] at hhead
      cases hhead
    | cons a x =>
      obtain ⟨rfl, htail⟩ := List.cons.inj ht
      obtain ⟨h, hmem, hcovers⟩ := ih htail (by simp)
      exact ⟨h, hmem, hcovers.cons⟩

/-! ## Going on with a search -/

/-- How many characters of what follows a text belong to a head that begins in the text, where
`taken` characters of the text belong to one that begins before it. -/
def takenAfter (ns : Text) (style : CallStyle) : (taken : Nat) → (t behind : Text) → Nat
  | taken, [], _ => taken
  | taken + 1, _ :: t, behind => takenAfter ns style taken t behind
  | 0, c :: t, behind =>
    match callHead? ns style (c :: (t ++ behind)) with
    | some (_, rest) => takenAfter ns style ((t ++ behind).length - rest.length) t behind
    | none => takenAfter ns style 0 t behind

theorem takenAfter_append (taken : Nat) (t u behind : Text) :
    takenAfter ns style taken (t ++ u) behind =
      takenAfter ns style (takenAfter ns style taken t (u ++ behind)) u behind := by
  induction t generalizing taken with
  | nil => simp [takenAfter]
  | cons c t ih =>
    cases taken with
    | succ taken => simpa [takenAfter] using ih taken
    | zero =>
      simp only [List.cons_append, takenAfter, List.append_assoc]
      cases callHead? ns style (c :: (t ++ (u ++ behind))) with
      | none => exact ih 0
      | some p => exact ih _

/-- The heads of a text are those that begin in its first part and those that the search gives
when it goes on behind it. -/
theorem headsFrom_append (ns : Text) (style : CallStyle) (off taken : Nat) (t behind : Text) :
    ∃ front, headsFrom ns style off taken (t ++ behind) =
        front ++ headsFrom ns style (off + Text.size t) (takenAfter ns style taken t behind) behind ∧
      ∀ h ∈ front, h.start < off + Text.size t := by
  induction t generalizing off taken with
  | nil => exact ⟨[], by simp [takenAfter], by simp⟩
  | cons c t ih =>
    have hsize : off + Text.size (c :: t) = off + c.utf8Size + Text.size t := by
      rw [Text.size_cons]
      omega
    have hc := c.utf8Size_pos
    rw [hsize]
    cases taken with
    | succ taken => exact ih (off + c.utf8Size) taken
    | zero =>
      rw [List.cons_append, headsFrom, takenAfter]
      cases callHead? ns style (c :: (t ++ behind)) with
      | none => exact ih (off + c.utf8Size) 0
      | some p =>
        obtain ⟨front, heq, hfront⟩ := ih (off + c.utf8Size) ((t ++ behind).length - p.2.length)
        refine ⟨⟨off, p.1, p.2⟩ :: front, congrArg (_ :: ·) heq, ?_⟩
        rintro h hmem
        rcases List.mem_cons.1 hmem with rfl | hmem
        · show off < off + c.utf8Size + Text.size t
          omega
        · exact hfront h hmem

/-- A head that begins behind the first part of a text is found when the search goes on there. -/
theorem mem_headsFrom_of_le {off taken : Nat} {t behind : Text} {h : FoundHead}
    (hmem : h ∈ headsFrom ns style off taken (t ++ behind)) (hle : off + Text.size t ≤ h.start) :
    h ∈ headsFrom ns style (off + Text.size t) (takenAfter ns style taken t behind) behind := by
  obtain ⟨front, heq, hfront⟩ := headsFrom_append ns style off taken t behind
  rw [heq] at hmem
  rcases List.mem_append.1 hmem with hmem | hmem
  · have := hfront h hmem
    omega
  · exact hmem

theorem mem_headsFrom_of_mem_behind {off taken : Nat} {t behind : Text} {h : FoundHead}
    (hmem : h ∈ headsFrom ns style (off + Text.size t) (takenAfter ns style taken t behind) behind) :
    h ∈ headsFrom ns style off taken (t ++ behind) := by
  obtain ⟨front, heq, -⟩ := headsFrom_append ns style off taken t behind
  rw [heq]
  exact List.mem_append_right _ hmem

/-- Where no head begins, the search passes by. -/
theorem headsFrom_append_of_not_mem {t : Text} (ht : '{' ∉ t) (hns : ns.all isHeadInside = true)
    (off : Nat) (behind : Text) :
    headsFrom ns style off 0 (t ++ behind) =
      headsFrom ns style (off + Text.size t) 0 behind := by
  induction t generalizing off with
  | nil => rfl
  | cons c t ih =>
    simp only [List.mem_cons, not_or] at ht
    rw [List.cons_append, headsFrom, callHead?_eq_none hns (Ne.symm ht.1)]
    show headsFrom ns style (off + c.utf8Size) 0 (t ++ behind) = _
    rw [ih ht.2, Text.size_cons, Nat.add_assoc]

/-- No head reaches over a closing brace. -/
theorem takenAfter_closing (hns : ns.all isHeadInside = true) {taken : Nat} {t : Text}
    (htaken : taken ≤ t.length + 1) (behind : Text) :
    takenAfter ns style taken (t ++ ['}']) behind = 0 := by
  induction t generalizing taken with
  | nil =>
    have hnone : callHead? ns style ('}' :: behind) = none :=
      callHead?_eq_none hns (by decide) behind
    obtain rfl | rfl : taken = 0 ∨ taken = 1 := by simp at htaken; omega
    · simp [takenAfter, hnone]
    · simp [takenAfter]
  | cons c t ih =>
    cases taken with
    | succ taken => exact ih (by simpa using htaken)
    | zero =>
      rw [List.cons_append, takenAfter]
      split
      · next head rest hhead =>
        refine ih ?_
        obtain ⟨u, hu, heq⟩ := callHead?_eq_some_iff.1 hhead
        have hclosing : '}' ∉ u := hu.not_mem_of_isJoint hns rfl
        have heq' : (c :: t) ++ ('}' :: behind) = u ++ rest := by
          rw [← heq]
          simp
        rcases List.append_eq_append_iff.1 heq' with ⟨z, rfl, hz⟩ | ⟨z, hz, rfl⟩
        · cases z with
          | nil =>
            have := congrArg List.length hz
            simp only [List.nil_append, List.length_cons] at this
            simp only [List.length_append, List.length_singleton]
            omega
          | cons d z =>
            obtain ⟨rfl, -⟩ := List.cons.inj hz
            simp at hclosing
        · simp only [List.length_append, List.length_cons, List.length_nil]
          omega
      · exact ih (Nat.zero_le _)

/-! ## Stretches with different texts behind them -/

/-- Two texts that are both empty or both begin like a call. -/
inductive SameOpening : Text → Text → Prop
  | nil : SameOpening [] []
  | call {c c' : Char} (hc : isHeadInside c = false) (hc' : isHeadInside c' = false)
      (z z' : Text) : SameOpening ('{' :: c :: z) ('{' :: c' :: z')

/-- The rests behind one head that a stretch of text holds, where different texts follow the
stretch. -/
inductive SameRest (z z' : Text) : Text → Text → Prop
  | before (v : Text) : SameRest z z' (v ++ z) (v ++ z')
  | brace {w w' : Text} (hz : z = '{' :: w) (hz' : z' = '{' :: w') : SameRest z z' w w'

theorem SameOpening.symm {z z' : Text} (h : SameOpening z z') : SameOpening z' z := by
  cases h with
  | nil => exact .nil
  | call hc hc' z z' => exact .call hc' hc z' z

theorem SameRest.eq_or_eq {z z' r r' : Text} (h : SameRest z z' r r') :
    (∃ v, r = v ++ z ∧ r' = v ++ z') ∨ z = '{' :: r ∧ z' = '{' :: r' := by
  cases h with
  | before v => exact .inl ⟨v, rfl, rfl⟩
  | brace hz hz' => exact .inr ⟨hz, hz'⟩

theorem SameRest.length_sub {z z' r r' : Text} (h : SameRest z z' r r') (t : Text) :
    (t ++ z).length - r.length = (t ++ z').length - r'.length := by
  cases h with
  | before v =>
    simp only [List.length_append]
    omega
  | brace hz hz' =>
    simp only [hz, hz', List.length_append, List.length_cons]
    omega

/-- A head that begins in a stretch of text is the same whatever call follows the stretch. -/
theorem callHead?_transfer (hns : ns.all isHeadInside = true) {z z' t r : Text} {head : CallHead}
    (hz : SameOpening z z') (ht : t ≠ []) (h : callHead? ns style (t ++ z) = some (head, r)) :
    ∃ r', callHead? ns style (t ++ z') = some (head, r') ∧ SameRest z z' r r' := by
  obtain ⟨u, hu, heq⟩ := callHead?_eq_some_iff.1 h
  rcases List.append_eq_append_iff.1 heq with ⟨a, rfl, ha⟩ | ⟨v, rfl, rfl⟩
  · cases a with
    | nil =>
      obtain rfl : z = r := ha
      rw [List.append_nil] at hu
      exact ⟨z', callHead?_append hu z', .before []⟩
    | cons d a =>
      cases hz with
      | nil => cases ha
      | @call c c' hc hc' w w' =>
        obtain ⟨rfl, htail⟩ := List.cons.inj ha
        have hnil : a = [] := by
          refine hu.length_le_of_eq_append hns hc ht rfl ?_
          cases a with
          | nil => rfl
          | cons e a =>
            obtain ⟨rfl, -⟩ := List.cons.inj htail
            simp
        subst hnil
        obtain rfl : c :: w = r := htail
        refine ⟨c' :: w', ?_, .brace rfl rfl⟩
        have := callHead?_append hu (c' :: w')
        rwa [List.append_assoc] at this
  · refine ⟨v ++ z', ?_, .before v⟩
    rw [List.append_assoc]
    exact callHead?_append hu (v ++ z')

/-- Whether a head begins at a place of a stretch does not depend on the call that follows it. -/
theorem callHead?_transfer_none (hns : ns.all isHeadInside = true) {z z' t : Text}
    (hz : SameOpening z z') (ht : t ≠ []) (h : callHead? ns style (t ++ z) = none) :
    callHead? ns style (t ++ z') = none := by
  cases hhead : callHead? ns style (t ++ z') with
  | none => rfl
  | some p =>
    obtain ⟨r, hr, -⟩ := callHead?_transfer hns hz.symm ht hhead
    rw [h] at hr
    cases hr

/-- The heads that begin in a stretch of text are the same whatever call follows it. -/
theorem headsFrom_transfer (hns : ns.all isHeadInside = true) {z z' : Text}
    (hz : SameOpening z z') (off off' taken : Nat) (t : Text) {h' : FoundHead}
    (hmem : h' ∈ headsFrom ns style off' taken (t ++ z')) :
    h' ∈ headsFrom ns style (off' + Text.size t) (takenAfter ns style taken t z') z' ∨
      ∃ h ∈ headsFrom ns style off taken (t ++ z), h.head = h'.head ∧
        SameRest z z' h.rest h'.rest ∧ h.start < off + Text.size t := by
  induction t generalizing off off' taken with
  | nil => exact .inl (by simpa [takenAfter] using hmem)
  | cons c t ih =>
    have hsize (n : Nat) : n + Text.size (c :: t) = n + c.utf8Size + Text.size t := by
      rw [Text.size_cons]
      omega
    rw [hsize, hsize]
    cases taken with
    | succ taken => exact ih (off + c.utf8Size) (off' + c.utf8Size) taken hmem
    | zero =>
      rw [List.cons_append, headsFrom] at hmem
      rw [takenAfter, List.cons_append, headsFrom]
      cases hhead : callHead? ns style (c :: (t ++ z)) with
      | none =>
        have hnone := callHead?_transfer_none hns hz (List.cons_ne_nil c t) hhead
        rw [List.cons_append] at hnone
        rw [hnone] at hmem ⊢
        exact ih (off + c.utf8Size) (off' + c.utf8Size) 0 hmem
      | some p =>
        obtain ⟨r', hr', hrest⟩ := callHead?_transfer hns hz (List.cons_ne_nil c t) hhead
        rw [List.cons_append] at hr'
        rw [hr'] at hmem ⊢
        rcases List.mem_cons.1 hmem with rfl | hmem
        · refine .inr ⟨_, List.mem_cons_self, rfl, hrest, ?_⟩
          have := c.utf8Size_pos
          show off < off + c.utf8Size + Text.size t
          omega
        · simp only at hmem ⊢
          rw [hrest.length_sub t]
          rcases ih (off + c.utf8Size) (off' + c.utf8Size) _ hmem with hmem | ⟨h, hmem, hh⟩
          · exact .inl hmem
          · exact .inr ⟨h, List.mem_cons_of_mem _ hmem, hh⟩

/-- At most the brace that a call begins with belongs to a head before it. -/
theorem takenAfter_le_one (hns : ns.all isHeadInside = true) {z : Text} (hz : SameOpening z z)
    {taken : Nat} {t : Text} (htaken : taken ≤ t.length + 1) :
    takenAfter ns style taken t z ≤ 1 := by
  induction t generalizing taken with
  | nil => simpa [takenAfter] using htaken
  | cons c t ih =>
    cases taken with
    | succ taken => exact ih (by simpa using htaken)
    | zero =>
      rw [takenAfter]
      cases hhead : callHead? ns style (c :: (t ++ z)) with
      | none => exact ih (Nat.zero_le _)
      | some p =>
        obtain ⟨head, rest⟩ := p
        obtain ⟨r, -, hrest⟩ := callHead?_transfer hns hz (List.cons_ne_nil c t) hhead
        refine ih ?_
        cases hrest with
        | before v =>
          simp only [List.length_append]
          omega
        | brace hz hz' =>
          have := congrArg List.length hz
          simp only [List.length_append, List.length_cons] at this ⊢
          omega

end Heads

end Template
end ThemeRepair
