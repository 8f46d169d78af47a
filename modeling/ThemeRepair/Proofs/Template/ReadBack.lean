import ThemeRepair.Proofs.Line.Key
import ThemeRepair.Proofs.Template.Recognition
import ThemeRepair.Proofs.Template.Settling

/-!
# Reading a keyed call back

A keyed call holds its arguments as source text, so it carries them only if the reader of arguments
gets them back from it.  It does where each of them is a value in the sense of `IsValue`: balanced,
the comma inner to it, and no white space around it.  Then no value merges with its neighbours or
ends the group early.

* `isValue_of_lookup` — the values of a balanced body are such values: its parts between commas are
  balanced, and so is what stands behind the colon of a part.
* `isValue_requote`, `isValue_requoteLevel` — writing a value with single quotes keeps it one.
* `exists_entries` — the lines of a group are entries as a writer puts them down, so
  `arguments_joinEntries` reads them back.
* `keyed_call_carries_arguments` — for every finding: the arguments of the keyed call end right
  before its tail, they are the one group, and the group holds the arguments of the finding.

Only an id need not be a value, as it is cut out of an expression that the reader of arguments has
not cut.
-/

namespace ThemeRepair
namespace Template

/-! ## Values -/

/-- A text that can stand as the value of an argument and is read back as it is. -/
structure IsValue (t : Text) : Prop where
  balanced : Balanced t
  inner : Inner ',' t
  trimmed : Text.trim t = t

theorem isNeutral_of_mem_white {w : Text} (hw : Text.isAllWhite w = true) :
    w.all isNeutral = true :=
  List.all_eq_true.2 fun c hc => isNeutral_of_isWhite (Text.isAllWhite_iff.1 hw c hc)

theorem isWhite_of_isQuote {q : Char} (h : isQuote q = true) : Text.isWhite q = false := by
  simp only [isQuote, Bool.or_eq_true, beq_iff_eq] at h
  rcases h with rfl | rfl <;> decide

/-- White space at the end of a balanced text stands outside all literals and brackets. -/
theorem Balanced.of_append_white {t w : Text} (hw : Text.isAllWhite w = true)
    (h : Balanced (t ++ w)) : Balanced t := by
  unfold Balanced at h ⊢
  rw [walk_append] at h
  obtain ⟨⟨q, depth⟩, hwalk, hlast⟩ := Option.bind_eq_some_iff.1 h
  rw [hwalk]
  cases q with
  | outside =>
    rw [walk_of_neutral (isNeutral_of_mem_white hw)] at hlast
    exact hlast
  | inside q escaped =>
    -- No white space closes a literal.
    have hquote : isQuote q = true := isQuote_of_walk (by simp) hwalk
    rw [walk_inside_eq (Text.not_mem_of_isAllWhite hw (isWhite_of_isQuote hquote))] at hlast
    cases hlast

theorem isValue_trim {t : Text} (hbalanced : Balanced t) (hinner : Inner ',' t) :
    IsValue (Text.trim t) := by
  obtain ⟨lead, trail, ht, hlead, htrail, -⟩ := Text.exists_eq_trim t
  rw [ht] at hbalanced hinner
  have hfront : Balanced lead := balanced_of_white hlead
  exact ⟨(Balanced.of_append hfront hbalanced).of_append_white htrail,
    (hinner.of_append hfront).of_append_left, Text.trim_trim t⟩

/-- What stands behind the colon of an entry is a value. -/
theorem isValue_of_entry {entry : Text} {a : Argument} (hbalanced : Balanced entry)
    (hinner : Inner ',' entry) (h : Argument.ofEntry? entry = some a) : IsValue a.value := by
  rw [Argument.ofEntry?] at h
  split at h
  · next key part parts hparts =>
    have hcolon : isNeutral ':' = true := by decide
    obtain ⟨hkey, -, ⟨-, hnil⟩ | ⟨rest, rfl, hrest, hcut⟩⟩ :=
      splitTop_eq_cons hcolon hbalanced hparts
    · cases hnil
    · dsimp only at h
      split at h
      · cases h
      · cases h
        rw [← hcut, intercalate_splitTop]
        have hfront : Balanced (key ++ [':']) :=
          Balanced.append hkey (balanced_of_neutral (by decide))
        refine isValue_trim hrest (Inner.of_append hfront ?_)
        rwa [List.append_assoc]
  · cases h

/-- The values of the arguments in a balanced body are values. -/
theorem isValue_of_lookup {body key value : Text} (hbody : Balanced body)
    (h : lookup (arguments body) key = some value) : IsValue value := by
  obtain ⟨a, ha, rfl⟩ := Option.map_eq_some_iff.1 h
  obtain ⟨entry, hentry, hof⟩ := List.mem_filterMap.1 (List.mem_of_find?_eq_some ha)
  obtain ⟨hbalanced, hinner⟩ := balanced_of_mem_splitTop (by decide) hbody hentry
  exact isValue_of_entry hbalanced hinner hof

/-! ## Literals and groups -/

/-- A text between two characters that are not white is not trimmed. -/
theorem trim_enclosed {a b : Char} (t : Text) (ha : Text.isWhite a = false)
    (hb : Text.isWhite b = false) : Text.trim (a :: (t ++ [b])) = a :: (t ++ [b]) := by
  have hlast : (a :: (t ++ [b])).getLast? = some b := List.getLast?_eq_some_iff.2 ⟨a :: t, rfl⟩
  have hkept : Text.trim ([] ++ ((a :: (t ++ [b])) ++ [])) = a :: (t ++ [b]) :=
    Text.trim_append_append rfl rfl rfl ha hlast hb
  rwa [List.append_nil, List.nil_append] at hkept

theorem isValue_literal {q : Char} {t : Text} (hquote : isQuote q = true) (hq : q ∉ t)
    (hends : endsEscaped false t = false) : IsValue (q :: (t ++ [q])) := by
  have hcomma : ',' ≠ q := by
    rintro rfl
    exact absurd hquote (by decide)
  exact ⟨(balanced_literal_iff hquote hq).2 hends, inner_literal hquote hq hcomma,
    trim_enclosed t (isWhite_of_isQuote hquote) (isWhite_of_isQuote hquote)⟩

/-- A mapping is a value, whatever separators its body holds. -/
theorem isValue_braces {t : Text} (h : Balanced t) : IsValue ('{' :: (t ++ ['}'])) :=
  ⟨h.braces, inner_braces h (by decide), trim_enclosed t (by decide) (by decide)⟩

theorem endsEscaped_of_not_mem {t : Text} (h : '\\' ∉ t) : endsEscaped false t = false := by
  induction t with
  | nil => rfl
  | cons c t ih =>
    simp only [List.mem_cons, not_or] at h
    have hc : (!false && c == '\\') = false := by simpa using Ne.symm h.1
    rw [endsEscaped, List.foldl_cons, hc]
    exact ih h.2

theorem isValue_singleQuoted {t : Text} (hquote : '\'' ∉ t) (hback : '\\' ∉ t) :
    IsValue (singleQuoted t) :=
  isValue_literal (by decide) hquote (endsEscaped_of_not_mem hback)

theorem eq_of_unquote? {t inner : Text} (h : unquote? t = some inner) :
    ∃ q, isQuote q = true ∧ t = q :: (inner ++ [q]) ∧ q ∉ inner := by
  unfold unquote? at h
  split at h
  · next q rest =>
    split at h
    · next hcond =>
      obtain ⟨hquote, hlast, hinner⟩ := hcond
      obtain ⟨front, rfl⟩ := List.getLast?_eq_some_iff.1 hlast
      cases h
      rw [List.dropLast_concat] at hinner ⊢
      exact ⟨q, hquote, rfl, by simpa using hinner⟩
    · cases h
  · cases h

/-- Only the quotes change, and neither kind stands inside, so the scan sees the same literal. -/
theorem isValue_requote {value : Text} (h : IsValue value) : IsValue (requote value) := by
  unfold requote
  split
  · next inner hunquote =>
    obtain ⟨q, hquote, rfl, hq⟩ := eq_of_unquote? hunquote
    by_cases hsingle : inner.contains '\'' = true
    · rw [if_pos hsingle]
      exact h
    · rw [if_neg hsingle]
      have hends := (balanced_literal_iff hquote hq).1 h.balanced
      exact isValue_literal (by decide) (by simpa using hsingle) hends
  · exact h

theorem isValue_requoteLevel {value : Text} (h : IsValue value) : IsValue (requoteLevel value) := by
  unfold requoteLevel
  split
  · next hdigits =>
    simp only [isDigits, Bool.and_eq_true] at hdigits
    have hnot {c : Char} (hc : c.isDigit = false) : c ∉ value := by
      intro hmem
      have := List.all_eq_true.1 hdigits.2 c hmem
      rw [hc] at this
      cases this
    exact isValue_singleQuoted (hnot (by decide)) (hnot (by decide))
  · exact isValue_requote h

/-! ## The arguments of a heading -/

/-- The arguments of a heading under the keys under which they are written, in order. -/
def fieldArguments (args : HeadingArgs) : List Argument :=
  [⟨"title".toList, args.title⟩, ⟨"as".toList, args.asTag⟩,
    ⟨"visual_level".toList, args.visualLevel⟩]
  ++ (args.additionalClasses.map fun v => (⟨"additional_classes".toList, v⟩ : Argument)).toList
  ++ (args.id.map fun v => (⟨"id".toList, v⟩ : Argument)).toList

/-- An argument as it is written on a line. -/
def Argument.line (a : Argument) : Text := a.key ++ (':' :: ' ' :: a.value)

theorem fields_eq (args : HeadingArgs) : fields args = (fieldArguments args).map Argument.line := by
  simp only [fields, fieldArguments, List.map_append]
  cases args.additionalClasses <;> cases args.id <;> rfl

/-- An argument that is read back from where it is written. -/
structure IsField (a : Argument) : Prop where
  key_ne_nil : a.key ≠ []
  key_isKeyChar : a.key.all isKeyChar = true
  value : IsValue a.value

theorem isDigit_of_mem_toString {n : Nat} {c : Char} (h : c ∈ (toString n).toList) :
    c.isDigit = true := by
  rw [Nat.toString_eq_ofList_toDigits, String.toList_ofList] at h
  exact Nat.isDigit_of_mem_toDigits (b := 10) (by decide) (by decide) h

/-- The arguments of the heading that a balanced body asks for are fields; of an id it has to be
known that it is a value. -/
theorem isField_of_mem_fieldArguments {body : Text} {n : Nat} {a : Argument}
    (hbody : Balanced body)
    (hid : ∀ id, (headingArgs (arguments body) n).id = some id → Balanced id ∧ Inner ',' id)
    (ha : a ∈ fieldArguments (headingArgs (arguments body) n)) : IsField a := by
  have hdigits {c : Char} (hc : c.isDigit = false) : c ∉ (toString n).toList := by
    intro h
    rw [isDigit_of_mem_toString h] at hc
    cases hc
  simp only [fieldArguments, List.mem_append, List.mem_cons, List.not_mem_nil, or_false,
    Option.mem_toList, Option.map_eq_some_iff, or_assoc] at ha
  rcases ha with rfl | rfl | rfl | ⟨classes, hclasses, rfl⟩ | ⟨id, hid', rfl⟩
  · have hkey : "title".toList ≠ [] ∧ "title".toList.all isKeyChar = true := by decide
    refine ⟨hkey.1, hkey.2, ?_⟩
    show IsValue ((lookup (arguments body) "content".toList).getD ['\'', '\''])
    cases hcontent : lookup (arguments body) "content".toList with
    | none => exact isValue_singleQuoted (t := []) (by decide) (by decide)
    | some value => exact isValue_of_lookup hbody hcontent
  · have hkey : "as".toList ≠ [] ∧ "as".toList.all isKeyChar = true := by decide
    refine ⟨hkey.1, hkey.2, ?_⟩
    show IsValue (((lookup (arguments body) "as".toList).map requote).getD _)
    cases has : lookup (arguments body) "as".toList with
    | none =>
      refine isValue_singleQuoted ?_ ?_
      · simpa using hdigits (c := '\'') (by decide)
      · simpa using hdigits (c := '\\') (by decide)
    | some value => exact isValue_requote (isValue_of_lookup hbody has)
  · have hkey : "visual_level".toList ≠ [] ∧ "visual_level".toList.all isKeyChar = true := by decide
    refine ⟨hkey.1, hkey.2, ?_⟩
    show IsValue (((lookup (arguments body) "level".toList).map requoteLevel).getD _)
    cases hlevel : lookup (arguments body) "level".toList with
    | none => exact isValue_singleQuoted (hdigits (by decide)) (hdigits (by decide))
    | some value => exact isValue_requoteLevel (isValue_of_lookup hbody hlevel)
  · have hkey : "additional_classes".toList ≠ [] ∧
        "additional_classes".toList.all isKeyChar = true := by decide
    refine ⟨hkey.1, hkey.2, ?_⟩
    obtain ⟨color, hcolor, rfl⟩ := Option.map_eq_some_iff.1 hclasses
    exact isValue_requote (isValue_of_lookup hbody hcolor)
  · have hkey : "id".toList ≠ [] ∧ "id".toList.all isKeyChar = true := by decide
    refine ⟨hkey.1, hkey.2, ?_⟩
    obtain ⟨hbalanced, hinner⟩ := hid id hid'
    refine ⟨hbalanced, hinner, ?_⟩
    -- What is cut out of the attributes is trimmed.
    obtain ⟨attributes, -, hof⟩ := Option.bind_eq_some_iff.1 hid'
    simp only [idOf?, Option.bind_eq_bind, Option.bind_eq_some_iff, Prod.exists] at hof
    obtain ⟨inner, rest, -, inside, behind, -, hvalue⟩ := hof
    split at hvalue
    · cases hvalue
    · cases hvalue
      exact Text.trim_trim _

/-! ## Lines and groups as entries -/

section Entries

variable {before trail indent : Text}

/-- A field with white space around it is an entry as a writer puts it down. -/
theorem exists_entry {a : Argument} (ha : IsField a) (hbefore : Text.isAllWhite before = true)
    (htrail : Text.isAllWhite trail = true) :
    ∃ e : WrittenEntry, e.text = before ++ (a.line ++ trail) ∧ e.argument = a := by
  have hbalanced : Balanced ([' '] ++ (a.value ++ trail)) :=
    (balanced_of_neutral (by decide)).append
      (ha.value.balanced.append (balanced_of_white htrail))
  have hinner : Inner ',' ([' '] ++ (a.value ++ trail)) :=
    (ha.value.inner.append_right (Text.not_mem_of_isAllWhite htrail (by decide))).append_left
      (by decide) (balanced_of_neutral (by decide))
  refine ⟨⟨before, none, a.key, [], [' '] ++ (a.value ++ trail), hbefore, rfl, ha.key_ne_nil,
    ha.key_isKeyChar, rfl, hbalanced, hinner⟩, ?_, ?_⟩
  · simp [WrittenEntry.text, WrittenEntry.label, WrittenEntry.keyText, Argument.line]
  · have hvalue : Text.trim ([' '] ++ (a.value ++ trail)) = a.value := by
      rw [Text.trim_surround a.value (by decide) htrail, ha.value.trimmed]
    rw [WrittenEntry.argument, hvalue]

/-- The lines of fields, joined by commas at their ends, are entries joined by commas. -/
theorem exists_entries {a : Argument} {as : List Argument} (has : ∀ b ∈ a :: as, IsField b)
    (hindent : Text.isAllWhite indent = true) (htrail : Text.isAllWhite trail = true) :
    ∃ entries : List WrittenEntry, entries.map WrittenEntry.argument = a :: as ∧
      joinEntries entries = '\n' :: ([',', '\n'].intercalate
        ((a :: as).map fun b => indent ++ ("    ".toList ++ b.line)) ++ trail) := by
  have hlead : Text.isAllWhite ('\n' :: (indent ++ "    ".toList)) = true := by
    simp only [Text.isAllWhite, List.all_cons, List.all_append, Bool.and_eq_true] at hindent ⊢
    exact ⟨by decide, hindent, by decide⟩
  induction as generalizing a with
  | nil =>
    obtain ⟨e, htext, hargument⟩ := exists_entry (has a (by simp)) hlead htrail
    refine ⟨[e], by rw [List.map_singleton, hargument], ?_⟩
    simp [joinEntries, List.intercalate, htext]
  | cons a' as ih =>
    have hnil : Text.isAllWhite [] = true := rfl
    obtain ⟨e, htext, hargument⟩ := exists_entry (has a (by simp)) hlead hnil
    obtain ⟨entries, hmap, hjoin⟩ := ih fun b hb => has b (List.mem_cons_of_mem a hb)
    obtain ⟨e', entries, rfl⟩ : ∃ e' es, entries = e' :: es := by
      cases entries with
      | nil => cases hmap
      | cons e' es => exact ⟨e', es, rfl⟩
    refine ⟨e :: e' :: entries, by rw [List.map_cons, hargument, hmap], ?_⟩
    rw [joinEntries_cons, hjoin, htext]
    simp [List.intercalate]

end Entries

/-- What stands between the braces of the group of a keyed call. -/
def groupBody (indent : Text) (args : HeadingArgs) : Text :=
  '\n' :: ([',', '\n'].intercalate ((fields args).map fun field => indent ++ "    ".toList ++ field)
    ++ ('\n' :: (indent ++ [' ', ' '])))

theorem renderGroup_eq (group indent : Text) (args : HeadingArgs) :
    renderGroup group indent args = ('\n' :: (indent ++ [' ', ' '])) ++
      ((⟨group, '{' :: (groupBody indent args ++ ['}'])⟩ : Argument).line ++ ('\n' :: indent)) := by
  simp [renderGroup, groupBody, Argument.line]

section Group

variable {indent group : Text} {args : HeadingArgs}

/-- The body of the group is balanced and read back into the fields. -/
theorem arguments_groupBody (hindent : Text.isAllWhite indent = true)
    (hargs : ∀ a ∈ fieldArguments args, IsField a) :
    Balanced (groupBody indent args) ∧
      arguments (groupBody indent args) = fieldArguments args := by
  have htrail : Text.isAllWhite ('\n' :: (indent ++ [' ', ' '])) = true := by
    simp only [Text.isAllWhite, List.all_cons, List.all_append, Bool.and_eq_true] at hindent ⊢
    exact ⟨by decide, hindent, by decide⟩
  obtain ⟨a, as, hfields⟩ : ∃ a as, fieldArguments args = a :: as := ⟨_, _, rfl⟩
  rw [hfields] at hargs
  obtain ⟨entries, hmap, hjoin⟩ := exists_entries hargs hindent htrail
  have hbody : groupBody indent args = joinEntries entries := by
    rw [hjoin, ← hfields, groupBody, fields_eq]
    simp [Function.comp_def]
  rw [hbody, hfields, arguments_joinEntries, hmap]
  exact ⟨balanced_joinEntries entries, rfl⟩

/-- The arguments of a keyed call are balanced and read back into the one group. -/
theorem arguments_renderGroup (hindent : Text.isAllWhite indent = true) (hne : group ≠ [])
    (hgroup : group.all isKeyChar = true) (hargs : ∀ a ∈ fieldArguments args, IsField a) :
    Balanced (renderGroup group indent args) ∧
      arguments (renderGroup group indent args) =
        [⟨group, '{' :: (groupBody indent args ++ ['}'])⟩] := by
  have hlead : Text.isAllWhite ('\n' :: (indent ++ [' ', ' '])) = true := by
    simp only [Text.isAllWhite, List.all_cons, List.all_append, Bool.and_eq_true] at hindent ⊢
    exact ⟨by decide, hindent, by decide⟩
  have htrail : Text.isAllWhite ('\n' :: indent) = true := by
    simp only [Text.isAllWhite, List.all_cons, Bool.and_eq_true] at hindent ⊢
    exact ⟨by decide, hindent⟩
  have hfield : IsField ⟨group, '{' :: (groupBody indent args ++ ['}'])⟩ :=
    ⟨hne, hgroup, isValue_braces (arguments_groupBody hindent hargs).1⟩
  obtain ⟨e, htext, hargument⟩ := exists_entry hfield hlead htrail
  have hjoin : joinEntries [e] = renderGroup group indent args := by
    rw [renderGroup_eq, ← htext]
    simp [joinEntries, List.intercalate]
  rw [← hjoin, arguments_joinEntries, List.map_singleton, hargument]
  exact ⟨balanced_joinEntries [e], rfl⟩

end Group

/-! ## The keyed call -/

/-- The beginning of a keyed call, before the brace that opens its arguments. -/
def keyedOpening (settings : Settings.Headings) (trimBefore : Bool) : Text :=
  ['{', '{'] ++ (dash trimBefore ++ (" include('".toList ++ (settings.targetTemplate ++
    ['\'', ',', ' '])))

/-- The tail of a keyed call, behind the brace that closes its arguments. -/
def keyedClosing (trimAfter only : Bool) : Text :=
  (if only then ", with_context = false".toList else []) ++ (") ".toList ++ (dash trimAfter ++
    ['}', '}']))

theorem render_eq_opening (settings : Settings.Headings) (indent : Text) (args : HeadingArgs)
    (trimBefore trimAfter only : Bool) :
    render settings indent args trimBefore trimAfter only =
      keyedOpening settings trimBefore ++ '{' ::
        (renderGroup settings.argumentGroup indent args ++ '}' :: keyedClosing trimAfter only) := by
  simp only [render, keyedOpening, keyedClosing, dash, List.append_assoc, List.cons_append,
    List.nil_append]

/-- **A keyed call carries the arguments of its finding.**  The scan from the brace behind the
target template ends at the brace before the tail; what stands between them is one group; and the
group holds the title, the tag and the level, then the classes and the id where there are any. -/
theorem keyed_call_carries_arguments {path : String} {t : Text} {f : Finding}
    (hf : f ∈ findCalls {} path t) :
    ∃ call, f.kind = .legacyCall call ∧
      ((∀ id, call.args.id = some id → Balanced id ∧ Inner ',' id) →
        ∃ trimBefore trimAfter only body inner,
          call.replacement = keyedOpening {} trimBefore ++
            '{' :: (body ++ '}' :: keyedClosing trimAfter only) ∧
          splitAtClose .outside 0 (body ++ '}' :: keyedClosing trimAfter only) =
            some (body, keyedClosing trimAfter only) ∧
          arguments body = [⟨"heading".toList, '{' :: (inner ++ ['}'])⟩] ∧
          arguments inner = fieldArguments call.args) := by
  obtain ⟨w, x, behind, n, -, -, -, rfl⟩ := mem_findCalls_iff.1 hf
  refine ⟨_, rfl, fun hid => ?_⟩
  set indent := Text.indentationAt t (Text.size x) with hindentation
  have hindent : Text.isAllWhite indent = true :=
    Text.isAllWhite_iff.2 fun c hc => Line.isWhite_of_isIndent (mem_indentationAt hc)
  have hargs : ∀ a ∈ fieldArguments (headingArgs (arguments w.body) n), IsField a :=
    fun a ha => isField_of_mem_fieldArguments w.balanced hid ha
  obtain ⟨hbalanced, hgroup⟩ := arguments_renderGroup hindent
    (by decide : "heading".toList ≠ []) (by decide) hargs
  exact ⟨w.head.trim, w.tail.trim, w.tail.only, _, _, render_eq_opening _ _ _ _ _ _,
    splitAtClose_of_balanced hbalanced rfl, hgroup, (arguments_groupBody hindent hargs).2⟩

/-- A call whose title holds commas and whose attributes set an id. -/
def titledCall : Text :=
  "\x7b% include '@components/h3.html.twig' with \x7bcontent: t('a, b', [c, d]),\n".toList ++
    "  color: \"accent\", attributes: a.setAttribute('id', 'top')\x7d %\x7d".toList

/-- The arguments that it asks for. -/
def titledArgs : HeadingArgs :=
  ⟨"t('a, b', [c, d])".toList, "'h3'".toList, "'3'".toList, some "'accent'".toList,
    some "'top'".toList⟩

theorem keyed_call_carries_arguments_titledCall :
    ∃ f ∈ findCalls {} "card.html.twig" titledCall, ∃ call, f.kind = .legacyCall call ∧
      (∀ id, call.args.id = some id → Balanced id ∧ Inner ',' id) ∧
      ∃ trimBefore trimAfter only body inner,
        call.replacement = keyedOpening {} trimBefore ++
          '{' :: (body ++ '}' :: keyedClosing trimAfter only) ∧
        splitAtClose .outside 0 (body ++ '}' :: keyedClosing trimAfter only) =
          some (body, keyedClosing trimAfter only) ∧
        arguments body = [⟨"heading".toList, '{' :: (inner ++ ['}'])⟩] ∧
        arguments inner = fieldArguments titledArgs := by
  have hkinds : (findCalls {} "card.html.twig" titledCall).map Finding.kind =
      [.legacyCall ⟨3, titledArgs, render {} [] titledArgs false false false⟩] := by
    decide +kernel
  have hmem : FindingKind.legacyCall ⟨3, titledArgs, render {} [] titledArgs false false false⟩ ∈
      (findCalls {} "card.html.twig" titledCall).map Finding.kind := by
    rw [hkinds]
    exact List.mem_singleton_self _
  obtain ⟨f, hf, hkind⟩ := List.mem_map.1 hmem
  obtain ⟨call, hcall, hcarried⟩ := keyed_call_carries_arguments hf
  obtain rfl : call = ⟨3, titledArgs, render {} [] titledArgs false false false⟩ :=
    FindingKind.legacyCall.inj (hcall.symm.trans hkind)
  have hid : ∀ id, titledArgs.id = some id → Balanced id ∧ Inner ',' id := by
    intro id h
    obtain rfl : "'top'".toList = id := Option.some.inj h
    exact ⟨by decide, by decide⟩
  exact ⟨f, hf, _, hcall, hid, hcarried hid⟩

end Template
end ThemeRepair
