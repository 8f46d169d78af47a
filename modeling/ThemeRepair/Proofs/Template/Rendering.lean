import ThemeRepair.Proofs.Template.Written

/-!
# What a keyed call holds

A text is `HeadFree` where no head of an old call stands in it.  No head holds a colon or a closing
brace, so head-free texts that one of these joins are head-free together, and neither has what
stands around a head-free text to be looked at as long as it holds no opening brace.

The arguments of a keyed call are parts of the old arguments, or literals around parts of them
(`infix_lookup`, `infix_idOf?`), and the keyed call itself does not start with a head.  So a keyed
call is head-free if the body of the old call was (`headFree_render`).
-/

namespace ThemeRepair
namespace Template

/-- No head stands in a text. -/
def HeadFree (ns t : Text) : Prop :=
  ∀ style head u, HeadText ns style head u → ¬ u <:+: t

/-! ## Stretches of a text -/

/-- A stretch that lacks the character between two texts lies in one of them. -/
theorem infix_or_infix_of_not_mem {u s t : Text} {c : Char} (hc : c ∉ u)
    (h : u <:+: s ++ c :: t) : u <:+: s ∨ u <:+: t := by
  obtain ⟨a, b, hab⟩ := h
  rcases List.append_eq_append_iff.1 hab with ⟨x, rfl, -⟩ | ⟨x, hx, hxb⟩
  · exact .inl ⟨a, x, rfl⟩
  · cases x with
    | nil => exact .inl ⟨a, [], by simpa using hx⟩
    | cons d x =>
      obtain ⟨rfl, rfl⟩ := List.cons.inj hxb
      rcases List.append_eq_append_iff.1 hx with ⟨y, rfl, rfl⟩ | ⟨y, rfl, hy⟩
      · simp at hc
      · cases y with
        | nil =>
          rw [List.nil_append] at hy
          rw [← hy] at hc
          simp at hc
        | cons e y =>
          obtain ⟨-, rfl⟩ := List.cons.inj hy
          exact .inr ⟨y, b, rfl⟩

/-- A stretch that begins with a character lies behind a text that lacks it. -/
theorem infix_of_append_left {u l t : Text} {c : Char} (hu : u.head? = some c) (hc : c ∉ l)
    (h : u <:+: l ++ t) : u <:+: t := by
  induction l with
  | nil => exact h
  | cons d l ih =>
    simp only [List.mem_cons, not_or] at hc
    rcases List.infix_cons_iff.1 h with ⟨b, hb⟩ | h
    · obtain ⟨u, rfl⟩ := List.head?_eq_some_iff.1 hu
      exact absurd (List.cons.inj hb).1 hc.1
    · exact ih hc.2 h

/-- A stretch that ends with a character lies before a text that lacks it. -/
theorem infix_of_append_right {u t r : Text} {c : Char} (hu : u.getLast? = some c) (hc : c ∉ r)
    (h : u <:+: t ++ r) : u <:+: t := by
  rw [← List.reverse_infix] at h ⊢
  rw [List.reverse_append] at h
  exact infix_of_append_left (by simpa using hu) (by simpa using hc) h

section HeadFree

variable {ns : Text}

theorem HeadText.head?_eq {style : CallStyle} {head : CallHead} {u : Text}
    (hns : ns.all isHeadInside = true) (h : HeadText ns style head u) : u.head? = some '{' := by
  obtain ⟨mid, rfl, -, -⟩ := h.exists_eq hns
  rfl

theorem HeadText.getLast?_eq {style : CallStyle} {head : CallHead} {u : Text}
    (hns : ns.all isHeadInside = true) (h : HeadText ns style head u) :
    u.getLast? = some '{' := by
  obtain ⟨mid, rfl, -, -⟩ := h.exists_eq hns
  exact List.getLast?_eq_some_iff.2 ⟨'{' :: style.second :: mid, by simp⟩

namespace HeadFree

theorem of_isInfix {s t : Text} (h : HeadFree ns t) (hs : s <:+: t) : HeadFree ns s :=
  fun style head u hu hus => h style head u hu (hus.trans hs)

/-- It takes two opening braces to write a head. -/
theorem of_count_le_one (hns : ns.all isHeadInside = true) {t : Text} (h : t.count '{' ≤ 1) :
    HeadFree ns t := by
  intro style head u hu hinfix
  obtain ⟨mid, rfl, -, -⟩ := hu.exists_eq hns
  have hle := hinfix.sublist.count_le '{'
  simp only [List.count_cons, List.count_append, List.count_nil, beq_self_eq_true, if_true] at hle
  omega

theorem of_not_mem (hns : ns.all isHeadInside = true) {t : Text} (h : '{' ∉ t) :
    HeadFree ns t :=
  of_count_le_one hns (by rw [List.count_eq_zero.2 h]; omega)

theorem join (hns : ns.all isHeadInside = true) {s t : Text} {c : Char} (hc : isJoint c = true)
    (hs : HeadFree ns s) (ht : HeadFree ns t) : HeadFree ns (s ++ c :: t) := by
  intro style head u hu hinfix
  rcases infix_or_infix_of_not_mem (hu.not_mem_of_isJoint hns hc) hinfix with h | h
  · exact hs style head u hu h
  · exact ht style head u hu h

/-- What stands around a head-free text and holds no opening brace does no harm. -/
theorem surround (hns : ns.all isHeadInside = true) {l t r : Text} (hl : '{' ∉ l) (hr : '{' ∉ r)
    (h : HeadFree ns t) : HeadFree ns (l ++ (t ++ r)) := by
  intro style head u hu hinfix
  exact h style head u hu (infix_of_append_right (hu.getLast?_eq hns) hr
    (infix_of_append_left (hu.head?_eq hns) hl hinfix))

end HeadFree

/-! ## The values of arguments -/

theorem infix_trim (t : Text) : Text.trim t <:+: t := by
  obtain ⟨lead, trail, ht, -⟩ := Text.exists_eq_trim t
  exact ⟨lead, trail, by simpa using ht.symm⟩

theorem infix_intercalate {separator part : Text} {parts : List Text} (h : part ∈ parts) :
    part <:+: separator.intercalate parts := by
  induction parts with
  | nil => cases h
  | cons p parts ih =>
    cases parts with
    | nil =>
      obtain rfl : part = p := by simpa using h
      simp [List.intercalate]
    | cons p' parts =>
      have hcons : separator.intercalate (p :: p' :: parts) =
          p ++ (separator ++ separator.intercalate (p' :: parts)) := by
        simp [List.intercalate]
      rw [hcons]
      rcases List.mem_cons.1 h with rfl | h
      · exact (List.prefix_append _ _).isInfix
      · exact ((ih h).trans (List.suffix_append _ _).isInfix).trans (List.suffix_append _ _).isInfix

/-- Cutting gives stretches of the text. -/
theorem infix_of_mem_splitTop {separator : Char} {part t : Text}
    (h : part ∈ splitTop separator .outside 0 t) : part <:+: t := by
  rw [← intercalate_splitTop separator .outside 0 t]
  exact infix_intercalate h

theorem infix_value_of_entry {entry : Text} {a : Argument}
    (h : Argument.ofEntry? entry = some a) : a.value <:+: entry := by
  rw [Argument.ofEntry?] at h
  split at h
  · next key part parts hparts =>
    dsimp only at h
    split at h
    · cases h
    · cases h
      refine (infix_trim _).trans ?_
      have hjoin := intercalate_splitTop ':' .outside 0 entry
      rw [hparts] at hjoin
      have hcons : [':'].intercalate (key :: part :: parts) =
          key ++ ([':'] ++ [':'].intercalate (part :: parts)) := by
        simp [List.intercalate]
      rw [hcons] at hjoin
      rw [← hjoin]
      exact (List.suffix_append _ _).isInfix.trans (List.suffix_append _ _).isInfix
  · cases h

/-- The value of an argument is a stretch of the body. -/
theorem infix_lookup {body key value : Text} (h : lookup (arguments body) key = some value) :
    value <:+: body := by
  obtain ⟨a, ha, rfl⟩ := Option.map_eq_some_iff.1 h
  obtain ⟨entry, hentry, hof⟩ := List.mem_filterMap.1 (List.mem_of_find?_eq_some ha)
  exact (infix_value_of_entry hof).trans (infix_of_mem_splitTop hentry)

theorem firstIdSetting?_suffix {t : Text} {p : Text × Text} (h : firstIdSetting? t = some p) :
    p.1 <:+ t := by
  induction t with
  | nil => cases h
  | cons c t ih =>
    rw [firstIdSetting?] at h
    split at h
    · next found hfound =>
      cases h
      simp only [idSetting?, Option.bind_eq_bind, Option.bind_eq_some_iff, Option.pure_def,
        Option.some.injEq] at hfound
      obtain ⟨inner, hinner, -, -, -, -, -, -, -, -, rfl⟩ := hfound
      exact ⟨_, (Text.eq_append_of_after? hinner).symm⟩
    · exact (ih h).trans (List.suffix_cons c t)

/-- The id is a stretch of the attributes. -/
theorem infix_idOf? {attributes id : Text} (h : idOf? attributes = some id) :
    id <:+: attributes := by
  simp only [idOf?, Option.bind_eq_bind, Option.bind_eq_some_iff, Prod.exists] at h
  obtain ⟨inner, rest, hset, inside, behind, hsplit, hvalue⟩ := h
  split at hvalue
  · cases hvalue
  · cases hvalue
    obtain ⟨-, c, -, hinner⟩ := splitAtClose_eq_some_iff.1 hsplit
    have hinside : inside <:+: inner := by
      rw [hinner]
      exact (List.prefix_append _ _).isInfix
    exact (((infix_trim _).trans (List.drop_suffix _ _).isInfix).trans hinside).trans
      (firstIdSetting?_suffix hset).isInfix

theorem infix_unquote? {t inner : Text} (h : unquote? t = some inner) : inner <:+: t := by
  rw [unquote?.eq_def] at h
  split at h
  · split at h
    · cases h
      exact (List.dropLast_prefix _).isInfix.trans (List.suffix_cons _ _).isInfix
    · cases h
  · cases h

theorem headFree_singleQuoted (hns : ns.all isHeadInside = true) {t : Text}
    (h : HeadFree ns t) : HeadFree ns (singleQuoted t) :=
  h.surround hns (l := ['\'']) (r := ['\'']) (by decide) (by decide)

theorem headFree_requote (hns : ns.all isHeadInside = true) {value : Text}
    (h : HeadFree ns value) : HeadFree ns (requote value) := by
  rw [requote]
  split
  · next inner hinner =>
    split
    · exact h
    · exact headFree_singleQuoted hns (h.of_isInfix (infix_unquote? hinner))
  · exact h

theorem headFree_requoteLevel (hns : ns.all isHeadInside = true) {value : Text}
    (h : HeadFree ns value) : HeadFree ns (requoteLevel value) := by
  rw [requoteLevel]
  split
  · exact headFree_singleQuoted hns h
  · exact headFree_requote hns h

theorem not_mem_digits (n : Nat) : '{' ∉ (toString n).toList := by
  intro h
  have hdigit : ('{' : Char).isDigit = true := by
    rw [Nat.toString_eq_ofList_toDigits, String.toList_ofList] at h
    exact Nat.isDigit_of_mem_toDigits (b := 10) (by decide) (by decide) h
  exact absurd hdigit (by decide)

/-! ## The keyed call -/

/-- A colon and a space cut a line into a label, which no head can reach over, and a value. -/
theorem exists_label (hns : ns.all isHeadInside = true) {start value : Text} (label : Text)
    (hstart : start = label ++ [':', ' ']) (hlabel : '{' ∉ label) (hvalue : HeadFree ns value) :
    ∃ label value', start ++ value = label ++ ':' :: value' ∧ '{' ∉ label ∧
      HeadFree ns value' := by
  refine ⟨label, ' ' :: value, by rw [hstart, List.append_assoc]; rfl, hlabel, ?_⟩
  simpa using hvalue.surround hns (l := [' ']) (r := []) (by decide) (by decide)

/-- Each field of a heading is a label and a head-free value. -/
theorem exists_label_of_mem_fields (hns : ns.all isHeadInside = true) {body field : Text} {n : Nat}
    (hbody : HeadFree ns body) (h : field ∈ fields (headingArgs (arguments body) n)) :
    ∃ label value, field = label ++ ':' :: value ∧ '{' ∉ label ∧ HeadFree ns value := by
  have hvalue {key value : Text} (h : lookup (arguments body) key = some value) :
      HeadFree ns value := hbody.of_isInfix (infix_lookup h)
  have hdigits : HeadFree ns (toString n).toList := .of_not_mem hns (not_mem_digits n)
  simp only [fields, headingArgs, List.mem_append, List.mem_cons, List.not_mem_nil, or_false,
    Option.mem_toList, Option.map_eq_some_iff, or_assoc] at h
  rcases h with rfl | rfl | rfl | ⟨classes, ⟨color, hcolor, rfl⟩, rfl⟩ | ⟨id, hid, rfl⟩
  · refine exists_label hns "title".toList (by decide) (by decide) ?_
    cases hcontent : lookup (arguments body) "content".toList with
    | none => exact .of_not_mem hns (by decide)
    | some value => exact hvalue hcontent
  · refine exists_label hns "as".toList (by decide) (by decide) ?_
    cases has : lookup (arguments body) "as".toList with
    | none =>
      refine headFree_singleQuoted hns (.of_not_mem hns ?_)
      rw [List.mem_cons, not_or]
      exact ⟨by decide, not_mem_digits n⟩
    | some value => exact headFree_requote hns (hvalue has)
  · refine exists_label hns "visual_level".toList (by decide) (by decide) ?_
    cases hlevel : lookup (arguments body) "level".toList with
    | none => exact headFree_singleQuoted hns hdigits
    | some value => exact headFree_requoteLevel hns (hvalue hlevel)
  · exact exists_label hns "additional_classes".toList (by decide) (by decide)
      (headFree_requote hns (hvalue hcolor))
  · obtain ⟨attributes, hattributes, hid⟩ := Option.bind_eq_some_iff.1 hid
    exact exists_label hns "id".toList (by decide) (by decide)
      ((hvalue hattributes).of_isInfix (infix_idOf? hid))

/-- Lines that each hold a label and a head-free value are head-free together. -/
theorem headFree_intercalate (hns : ns.all isHeadInside = true) {lines : List Text}
    (hlines : ∀ line ∈ lines, ∃ label value, line = label ++ ':' :: value ∧ '{' ∉ label ∧
      HeadFree ns value)
    {before after : Text} (hbefore : ∀ l, '{' ∉ l → HeadFree ns (before ++ l))
    (hafter : '{' ∉ after) :
    HeadFree ns (before ++ ([',', '\n'].intercalate lines ++ after)) := by
  induction lines generalizing before with
  | nil => exact hbefore _ (by simpa [List.intercalate] using hafter)
  | cons line lines ih =>
    obtain ⟨label, value, rfl, hlabel, hvalue⟩ := hlines line List.mem_cons_self
    cases lines with
    | nil =>
      have := (hbefore label hlabel).join hns (c := ':') rfl
        (hvalue.surround hns (l := []) (by simp) hafter)
      simpa [List.intercalate] using this
    | cons line' lines =>
      have hcomma : ∀ l, '{' ∉ l → HeadFree ns ((value ++ [',', '\n']) ++ l) := by
        intro l hl
        have := hvalue.surround hns (l := []) (r := [',', '\n'] ++ l) (by simp) (by simp [hl])
        simpa using this
      have hrest := ih (fun l hl => hlines l (List.mem_cons_of_mem _ hl)) hcomma
      have := (hbefore label hlabel).join hns (c := ':') rfl hrest
      simpa [List.intercalate] using this

end HeadFree

section Render

variable {settings : Settings.Headings} {indent : Text} {args : HeadingArgs}
  {trimBefore trimAfter only : Bool}

/-- The beginning of a keyed call, up to the colon behind its group. -/
def keyedHead (settings : Settings.Headings) (indent : Text) (trimBefore : Bool) : Text :=
  '{' :: '{' :: (dash trimBefore ++ (" include('".toList ++ (settings.targetTemplate ++
    (['\'', ',', ' ', '{', '\n'] ++ (indent ++ ("  ".toList ++ settings.argumentGroup))))))

/-- The end of a keyed call, behind its last field. -/
def keyedTail (indent : Text) (trimAfter only : Bool) : Text :=
  ('\n' :: indent) ++ '}' ::
    ((if only then ", with_context = false".toList else []) ++ (") ".toList ++ dash trimAfter)
      ++ '}' :: ['}'])

theorem render_eq :
    render settings indent args trimBefore trimAfter only =
      keyedHead settings indent trimBefore ++ ':' ::
        ([' ', '{', '\n'] ++ ([',', '\n'].intercalate
          ((fields args).map fun field => indent ++ "    ".toList ++ field) ++
            ('\n' :: (indent ++ [' ', ' ']))) ++ '}' :: keyedTail indent trimAfter only) := by
  simp only [render, renderGroup, keyedHead, keyedTail, dash, List.append_assoc, List.cons_append,
    List.nil_append]

/-- The keyed call does not begin with an old head, as its template is none of the old ones, and no
head begins further on in its beginning. -/
theorem headFree_keyedHead (hindent : '{' ∉ indent) :
    HeadFree "@components".toList (keyedHead {} indent trimBefore) := by
  have hns : ("@components".toList).all isHeadInside = true := by decide
  intro style head u hu hinfix
  rcases List.infix_cons_iff.1 hinfix with ⟨b, hb⟩ | hinfix
  · have hread := callHead?_append hu b
    rw [hb] at hread
    have hnone : callHead? "@components".toList style (keyedHead {} indent trimBefore) = none := by
      cases style <;> cases trimBefore <;> rfl
    rw [keyedHead] at hnone
    rw [hnone] at hread
    cases hread
  rcases List.infix_cons_iff.1 hinfix with ⟨b, hb⟩ | hinfix
  · obtain ⟨mid, rfl, -, -⟩ := hu.exists_eq hns
    have hsecond := (List.cons.inj hb).2
    cases style <;> cases trimBefore <;> exact absurd (List.cons.inj hsecond).1 (by decide)
  · refine HeadFree.of_count_le_one hns ?_ style head u hu hinfix
    have hdash : (dash trimBefore).count '{' = 0 := by cases trimBefore <;> rfl
    rw [List.count_append, hdash, List.count_append, List.count_append, List.count_append,
      List.count_append, List.count_eq_zero.2 hindent]
    decide

theorem headFree_keyedTail (hindent : '{' ∉ indent) :
    HeadFree "@components".toList (keyedTail indent trimAfter only) := by
  refine .of_not_mem (by decide) ?_
  cases only <;> cases trimAfter <;> simp [keyedTail, dash, hindent]

/-- The keyed form of a call holds no head where the arguments of the call held none. -/
theorem headFree_render {body : Text} {n : Nat} (hindent : '{' ∉ indent)
    (hbody : HeadFree "@components".toList body) :
    HeadFree "@components".toList
      (render {} indent (headingArgs (arguments body) n) trimBefore trimAfter only) := by
  have hns : ("@components".toList).all isHeadInside = true := by decide
  rw [render_eq]
  refine (headFree_keyedHead hindent).join hns rfl (.join hns rfl ?_ (headFree_keyedTail hindent))
  refine headFree_intercalate hns ?_ (fun l hl => ?_) (by simp [hindent])
  · intro line hline
    obtain ⟨field, hfield, rfl⟩ := List.mem_map.1 hline
    obtain ⟨label, value, rfl, hlabel, hvalue⟩ := exists_label_of_mem_fields hns hbody hfield
    exact ⟨indent ++ "    ".toList ++ label, value, by simp, by simp [hindent, hlabel], hvalue⟩
  · refine .of_count_le_one hns ?_
    rw [List.count_append, List.count_eq_zero.2 hl]
    decide

/-- A keyed call begins with two braces. -/
theorem exists_render_eq_cons :
    ∃ x, render settings indent args trimBefore trimAfter only = '{' :: '{' :: x := by
  rw [render_eq]
  exact ⟨_, rfl⟩

/-- A keyed call ends with a brace. -/
theorem exists_render_eq_append :
    ∃ y, render settings indent args trimBefore trimAfter only = y ++ ['}'] :=
  ⟨_, (List.append_assoc _ ['}'] ['}']).symm⟩

end Render

end Template
end ThemeRepair
