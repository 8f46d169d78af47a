import Mathlib.Tactic.IntervalCases
import ThemeRepair.Proofs.Template.Replacement

/-!
# Recognising what was written

The arguments of a call are written as entries, each a key and a value with a colon between them,
and joined by commas.  A key is an identifier, bare or between quotes; a value is any balanced
expression to which the comma is inner, so colons, commas, brackets, escapes and quotes may occur in
it at any depth.  The reader of arguments gets back the keys and the trimmed values
(`arguments_joinEntries`), and from an expression that sets an id it gets that id
(`idOf?_setAttribute`).

A call with such arguments, written in any of the ways that `HeadText` and `TailText` allow, is the
first finding of a text that has no opening brace before it, with the level and the arguments that
its entries ask for (`findCalls_recognises`).
-/

namespace ThemeRepair
namespace Template

/-! ## Entries -/

/-- The characters of a key: letters, digits and the underscore are among them, and nothing that
means something to the reader of arguments. -/
def isKeyChar (c : Char) : Bool :=
  isNeutral c && !Text.isWhite c && c != ':' && c != ',' && c != '\\'

theorem isKeyChar_iff {c : Char} :
    isKeyChar c = true ↔ isNeutral c = true ∧ Text.isWhite c = false ∧ c ≠ ':' ∧ c ≠ ',' ∧
      c ≠ '\\' := by
  simp [isKeyChar, and_assoc]

theorem isNeutral_of_isWhite {c : Char} (h : Text.isWhite c = true) : isNeutral c = true := by
  simp only [isNeutral, isQuote, isOpening, isClosing, Bool.and_eq_true, Bool.not_eq_true',
    Bool.or_eq_false_iff, beq_eq_false_iff_ne, ne_eq]
  refine ⟨⟨⟨?_, ?_⟩, ⟨?_, ?_⟩, ?_⟩, ⟨?_, ?_⟩, ?_⟩ <;> rintro rfl <;> exact absurd h (by decide)

theorem balanced_of_white {w : Text} (hw : Text.isAllWhite w = true) : Balanced w :=
  balanced_of_neutral (List.all_eq_true.2 fun c hc =>
    isNeutral_of_isWhite (Text.isAllWhite_iff.1 hw c hc))

/-- An entry as it is written: white space, the key, between quotes or bare, white space, a colon,
and the value with the white space around it. -/
structure WrittenEntry where
  before : Text
  quote : Option Char
  key : Text
  after : Text
  value : Text
  white_before : Text.isAllWhite before = true
  quote_isQuote : quote.all isQuote = true
  key_ne_nil : key ≠ []
  key_isKeyChar : key.all isKeyChar = true
  white_after : Text.isAllWhite after = true
  balanced_value : Balanced value
  inner_value : Inner ',' value

namespace WrittenEntry

/-- The key with its quotes, if it has any. -/
def keyText (e : WrittenEntry) : Text :=
  match e.quote with
  | some q => q :: (e.key ++ [q])
  | none => e.key

/-- What stands before the colon. -/
def label (e : WrittenEntry) : Text := e.before ++ (e.keyText ++ e.after)

/-- All the text of an entry. -/
def text (e : WrittenEntry) : Text := e.label ++ ':' :: e.value

/-- What the reader of arguments is to get from an entry. -/
def argument (e : WrittenEntry) : Argument := ⟨e.key, Text.trim e.value⟩

theorem isKeyChar_of_mem {c : Char} (e : WrittenEntry) (hc : c ∈ e.key) : isKeyChar c = true :=
  List.all_eq_true.1 e.key_isKeyChar c hc

theorem isQuote_of_mem {q : Char} (e : WrittenEntry) (hq : q ∈ e.quote) : isQuote q = true := by
  have h := e.quote_isQuote
  rwa [hq] at h

theorem not_mem_key {c : Char} (e : WrittenEntry) (hc : isKeyChar c = false) : c ∉ e.key := by
  intro hmem
  rw [e.isKeyChar_of_mem hmem] at hc
  cases hc

theorem balanced_keyText (e : WrittenEntry) : Balanced e.keyText := by
  rw [keyText]
  cases hq : e.quote with
  | none =>
    exact balanced_of_neutral (List.all_eq_true.2 fun c hc =>
      (isKeyChar_iff.1 (e.isKeyChar_of_mem hc)).1)
  | some q =>
    have hquote : isQuote q = true := e.isQuote_of_mem hq
    refine balanced_literal hquote (e.not_mem_key ?_) (e.not_mem_key (by decide))
    simp [isKeyChar, isNeutral, hquote]

theorem not_mem_keyText {c : Char} (e : WrittenEntry) (hc : isKeyChar c = false)
    (hquote : isQuote c = false) : c ∉ e.keyText := by
  rw [keyText]
  cases hq : e.quote with
  | none => exact e.not_mem_key hc
  | some q =>
    have hne : c ≠ q := by
      rintro rfl
      rw [e.isQuote_of_mem hq] at hquote
      cases hquote
    simp [e.not_mem_key hc, hne]

theorem balanced_label (e : WrittenEntry) : Balanced e.label :=
  (balanced_of_white e.white_before).append
    (e.balanced_keyText.append (balanced_of_white e.white_after))

theorem not_mem_label {c : Char} (e : WrittenEntry) (hc : isKeyChar c = false)
    (hquote : isQuote c = false) (hwhite : Text.isWhite c = false) : c ∉ e.label := by
  simp only [label, List.mem_append, not_or]
  exact ⟨Text.not_mem_of_isAllWhite e.white_before hwhite, e.not_mem_keyText hc hquote,
    Text.not_mem_of_isAllWhite e.white_after hwhite⟩

theorem balanced_text (e : WrittenEntry) : Balanced e.text := by
  refine e.balanced_label.append ?_
  unfold Balanced
  rw [walk_cons_of_isNeutral (by decide)]
  exact e.balanced_value

/-- No comma of an entry stands outside literals and brackets. -/
theorem inner_text (e : WrittenEntry) : Inner ',' e.text := by
  have hlabel : ',' ∉ e.label ++ [':'] := by
    simpa using e.not_mem_label (c := ',') (by decide) (by decide) (by decide)
  have hbalanced : Balanced (e.label ++ [':']) :=
    e.balanced_label.append (balanced_of_neutral (by decide))
  have := e.inner_value.append_left hlabel hbalanced
  rwa [List.append_assoc] at this

/-- The key without the white space around it. -/
theorem trim_label (e : WrittenEntry) : Text.trim e.label = e.keyText := by
  have hends : ∃ a b, e.keyText.head? = some a ∧ Text.isWhite a = false ∧
      e.keyText.getLast? = some b ∧ Text.isWhite b = false := by
    rw [keyText]
    cases hq : e.quote with
    | none =>
      have hsolid {c : Char} (hc : c ∈ e.key) : Text.isWhite c = false :=
        (isKeyChar_iff.1 (e.isKeyChar_of_mem hc)).2.1
      refine ⟨e.key.head e.key_ne_nil, e.key.getLast e.key_ne_nil, ?_, ?_, ?_, ?_⟩
      · exact List.head?_eq_some_head e.key_ne_nil
      · exact hsolid (List.head_mem e.key_ne_nil)
      · exact List.getLast?_eq_some_getLast e.key_ne_nil
      · exact hsolid (List.getLast_mem e.key_ne_nil)
    | some q =>
      have hsolid : Text.isWhite q = false := by
        have hquote := e.isQuote_of_mem hq
        simp only [isQuote, Bool.or_eq_true, beq_iff_eq] at hquote
        rcases hquote with rfl | rfl <;> decide
      exact ⟨q, q, rfl, hsolid, List.getLast?_eq_some_iff.2 ⟨q :: e.key, rfl⟩, hsolid⟩
  obtain ⟨a, b, hfirst, ha, hlast, hb⟩ := hends
  exact Text.trim_append_append e.white_before e.white_after hfirst ha hlast hb

/-- The key without its quotes. -/
theorem unquote?_keyText (e : WrittenEntry) :
    (unquote? e.keyText).getD e.keyText = e.key := by
  rw [keyText]
  cases hq : e.quote with
  | none =>
    obtain ⟨c, key, hkey⟩ := List.exists_cons_of_ne_nil e.key_ne_nil
    have hc : isQuote c = false :=
      (isNeutral_iff.1 (isKeyChar_iff.1 (e.isKeyChar_of_mem (by rw [hkey]; simp))).1).1
    simp [hkey, unquote?, hc]
  | some q =>
    have hquote := e.isQuote_of_mem hq
    have hnot : q ∉ e.key := e.not_mem_key (by simp [isKeyChar, isNeutral, hquote])
    simp [unquote?, hquote, hnot]

/-- The reader of arguments gets back what was written. -/
theorem ofEntry?_text (e : WrittenEntry) : Argument.ofEntry? e.text = some e.argument := by
  have hcolon : ':' ∉ e.label := e.not_mem_label (by decide) (by decide) (by decide)
  have hsplit : splitTop ':' .outside 0 e.text = e.label :: splitTop ':' .outside 0 e.value :=
    splitTop_append (by decide) e.balanced_label (inner_of_not_mem hcolon) e.value
  obtain ⟨part, parts, hparts⟩ :=
    List.exists_cons_of_ne_nil (splitTop_ne_nil ':' .outside 0 e.value)
  have hjoin : [':'].intercalate (part :: parts) = e.value := by
    rw [← hparts]
    exact intercalate_splitTop ':' .outside 0 e.value
  have hkey : e.key.isEmpty = false := by simpa using e.key_ne_nil
  rw [Argument.ofEntry?, hsplit, hparts]
  simp only [e.trim_label, e.unquote?_keyText, hkey, hjoin]
  rfl

end WrittenEntry

/-- Entries joined by commas. -/
def joinEntries (entries : List WrittenEntry) : Text :=
  [','].intercalate (entries.map WrittenEntry.text)

/-- The value that the entries give to a key: that of the first one with this key. -/
def valueOf (entries : List WrittenEntry) (key : Text) : Option Text :=
  (entries.find? fun e => e.key == key).map fun e => Text.trim e.value

theorem joinEntries_cons (e e' : WrittenEntry) (entries : List WrittenEntry) :
    joinEntries (e :: e' :: entries) = e.text ++ ',' :: joinEntries (e' :: entries) := by
  simp [joinEntries, List.intercalate]

theorem balanced_joinEntries (entries : List WrittenEntry) : Balanced (joinEntries entries) := by
  induction entries with
  | nil => exact Balanced.nil
  | cons e entries ih =>
    cases entries with
    | nil => simpa [joinEntries, List.intercalate] using e.balanced_text
    | cons e' entries =>
      rw [joinEntries_cons]
      refine e.balanced_text.append ?_
      unfold Balanced
      rw [walk_cons_of_isNeutral (by decide)]
      exact ih

theorem splitTop_joinEntries (e : WrittenEntry) (entries : List WrittenEntry) :
    splitTop ',' .outside 0 (joinEntries (e :: entries)) =
      (e :: entries).map WrittenEntry.text := by
  induction entries generalizing e with
  | nil =>
    have hcomma : isNeutral ',' = true := by decide
    have := splitTop_of_inner hcomma e.balanced_text e.inner_text
    simpa [joinEntries, List.intercalate] using this
  | cons e' entries ih =>
    rw [joinEntries_cons, splitTop_append (by decide) e.balanced_text e.inner_text, ih]
    rfl

/-- The entries of a call are read back one by one. -/
theorem arguments_joinEntries (entries : List WrittenEntry) :
    arguments (joinEntries entries) = entries.map WrittenEntry.argument := by
  cases entries with
  | nil => rfl
  | cons e entries =>
    rw [arguments, splitTop_joinEntries, List.filterMap_map]
    simp only [Function.comp_def, WrittenEntry.ofEntry?_text]
    exact congrFun List.filterMap_eq_map' _

theorem lookup_joinEntries (entries : List WrittenEntry) (key : Text) :
    lookup (arguments (joinEntries entries)) key = valueOf entries key := by
  rw [arguments_joinEntries, lookup, valueOf, List.find?_map, Option.map_map]
  rfl

/-! ## The id of an attributes expression -/

/-- The first arguments of a call that sets an id, up to the comma before the value. -/
def idKey (w w' : Text) (q : Char) : Text := w ++ ([q] ++ ("id".toList ++ ([q] ++ (w' ++ [','])))) 

section Id

variable {w w' : Text} {q : Char}

theorem idSetting?_append (hw : Text.isAllWhite w = true) (hq : isQuote q = true)
    (hw' : Text.isAllWhite w' = true) (t : Text) :
    idSetting? ("setAttribute(".toList ++ (idKey w w' q ++ t)) = some (idKey w w' q ++ t, t) := by
  have hsolid (x : Text) : Solid ([q] ++ x) := by
    simp only [isQuote, Bool.or_eq_true, beq_iff_eq] at hq
    rcases hq with rfl | rfl <;> rfl
  have hquote (x : Text) : afterQuote? ([q] ++ x) = some x :=
    afterQuote?_eq_some_iff.2 ⟨q, hq, rfl⟩
  simp only [idSetting?, idKey, List.append_assoc, Text.after?_append, Option.bind_eq_bind,
    Option.bind_some, afterWhite_append hw (hsolid _), hquote,
    afterWhite_append hw' (show Solid ([','] ++ t) from rfl), Option.pure_def]

theorem firstIdSetting?_of_found {t : Text} {found : Text × Text} (h : idSetting? t = some found) :
    firstIdSetting? t = some found := by
  cases t with
  | nil => cases h
  | cons c t => rw [firstIdSetting?, h]

/-- The setting that the scan finds is the first one. -/
theorem firstIdSetting?_append {before t : Text} {found : Text × Text}
    (hfirst : ∀ x y, before ++ "setAttribute(".toList = x ++ ("setAttribute(".toList ++ y) →
      x = before)
    (hfound : idSetting? ("setAttribute(".toList ++ t) = some found) :
    firstIdSetting? (before ++ ("setAttribute(".toList ++ t)) = some found := by
  induction before with
  | nil => exact firstIdSetting?_of_found hfound
  | cons c before ih =>
    have hnone : idSetting? (c :: (before ++ ("setAttribute(".toList ++ t))) = none := by
      cases hsome : idSetting? (c :: (before ++ ("setAttribute(".toList ++ t))) with
      | none => rfl
      | some p =>
        simp only [idSetting?, Option.bind_eq_bind, Option.bind_eq_some_iff] at hsome
        obtain ⟨inner, hinner, -⟩ := hsome
        have heq := Text.eq_append_of_after? hinner
        obtain ⟨y, hy⟩ : "setAttribute(".toList <+: c :: (before ++ "setAttribute(".toList) := by
          refine List.prefix_of_prefix_length_le ⟨inner, heq.symm⟩ ⟨t, by simp⟩ ?_
          simp only [List.length_cons, List.length_append]
          omega
        exact absurd (hfirst [] y (by simpa using hy.symm)) (by simp)
    rw [List.cons_append, firstIdSetting?, hnone]
    refine ih fun x y hxy => ?_
    have := hfirst (c :: x) y (by rw [List.cons_append, hxy]; rfl)
    exact (List.cons.inj this).2

theorem balanced_idKey (hw : Text.isAllWhite w = true) (hq : isQuote q = true)
    (hw' : Text.isAllWhite w' = true) : Balanced (idKey w w' q) := by
  have hliteral : Balanced ([q] ++ ("id".toList ++ [q])) := by
    simp only [isQuote, Bool.or_eq_true, beq_iff_eq] at hq
    rcases hq with rfl | rfl <;> decide
  have := (balanced_of_white hw).append
    (hliteral.append ((balanced_of_white hw').append (balanced_of_neutral (t := [','])
      (by decide))))
  simpa [idKey] using this

/-- The id that the first `setAttribute` of an expression sets is read back, without the white
space around it. -/
theorem idOf?_setAttribute {before value behind : Text}
    (hfirst : ∀ x y, before ++ "setAttribute(".toList = x ++ ("setAttribute(".toList ++ y) →
      x = before)
    (hw : Text.isAllWhite w = true) (hq : isQuote q = true) (hw' : Text.isAllWhite w' = true)
    (hvalue : Balanced value) (hne : Text.trim value ≠ []) :
    idOf? (before ++ ("setAttribute(".toList ++ (idKey w w' q ++ (value ++ ')' :: behind)))) =
      some (Text.trim value) := by
  have hclose : splitAtClose .outside 0 (idKey w w' q ++ (value ++ ')' :: behind)) =
      some (idKey w w' q ++ value, behind) := by
    rw [← List.append_assoc]
    exact splitAtClose_of_balanced ((balanced_idKey hw hq hw').append hvalue) rfl
  have hdrop : (idKey w w' q ++ value).drop ((idKey w w' q ++ (value ++ ')' :: behind)).length -
      (value ++ ')' :: behind).length) = value := by
    rw [List.length_append, Nat.add_sub_cancel, List.drop_left]
  have hempty : (Text.trim value).isEmpty = false := by simpa using hne
  simp only [idOf?, firstIdSetting?_append hfirst (idSetting?_append hw hq hw' _),
    Option.bind_eq_bind, Option.bind_some, hclose, hdrop, hempty]
  rfl

end Id

/-! ## What a call asks for -/

/-- The level that a call of a template with a name and with entries asks for: the one in the name,
or else that of a literal from 1 to 6, bare or between quotes. -/
inductive AskedLevel (entries : List WrittenEntry) : Text → Nat → Prop
  | named {n : Nat} (low : 1 ≤ n) (high : n ≤ 6) : AskedLevel entries ['h', Nat.digitChar n] n
  | bare {name : Text} {n : Nat} (low : 1 ≤ n) (high : n ≤ 6)
      (hname : name = "heading".toList ∨ name = "headline".toList)
      (hlevel : valueOf entries "level".toList = some [Nat.digitChar n]) :
      AskedLevel entries name n
  | quoted {name : Text} {n : Nat} {q : Char} (low : 1 ≤ n) (high : n ≤ 6)
      (hname : name = "heading".toList ∨ name = "headline".toList) (hq : isQuote q = true)
      (hlevel : valueOf entries "level".toList = some [q, Nat.digitChar n, q]) :
      AskedLevel entries name n

theorem AskedLevel.headingLevel?_eq {entries : List WrittenEntry} {name : Text} {n : Nat}
    (h : AskedLevel entries name n) :
    headingLevel? name (valueOf entries "level".toList) = some n := by
  cases h with
  | named low high => interval_cases n <;> rfl
  | bare low high hname hlevel =>
    rw [hlevel]
    rcases hname with rfl | rfl <;> interval_cases n <;> decide
  | quoted low high hname hq hlevel =>
    rw [hlevel]
    simp only [isQuote, Bool.or_eq_true, beq_iff_eq] at hq
    rcases hname with rfl | rfl <;> rcases hq with rfl | rfl <;> interval_cases n <;> decide

/-- The heading that a call with entries asks for, where it has a level. -/
def askedArgs (entries : List WrittenEntry) (n : Nat) : HeadingArgs where
  title := (valueOf entries "content".toList).getD "''".toList
  asTag := ((valueOf entries "as".toList).map requote).getD
    (singleQuoted ('h' :: (toString n).toList))
  visualLevel := ((valueOf entries "level".toList).map requoteLevel).getD
    (singleQuoted (toString n).toList)
  additionalClasses := (valueOf entries "color".toList).map requote
  id := (valueOf entries "attributes".toList).bind idOf?

/-- The text of a call with entries between its head and its tail. -/
def callText (headText : Text) (entries : List WrittenEntry) (tailText : Text) : Text :=
  headText ++ (joinEntries entries ++ '}' :: tailText)

theorem headingArgs_joinEntries (entries : List WrittenEntry) (n : Nat) :
    headingArgs (arguments (joinEntries entries)) n = askedArgs entries n := by
  simp only [headingArgs, lookup_joinEntries]
  rfl

/-! ## The first finding -/

section First

variable {style : CallStyle} {head : CallHead} {tail : CallTail} {headText tailText : Text}

/-- The search finds a call before which there is no brace. -/
theorem WrittenCall.foundHead_mem_headsFrom {ns before : Text} (hns : ns.all isHeadInside = true)
    (w : WrittenCall ns) (hbefore : '{' ∉ before) (behind : Text) :
    w.foundHead (Text.size before) behind ∈
      headsFrom ns w.style 0 0 (before ++ (w.text ++ behind)) := by
  rw [headsFrom_append_of_not_mem hbefore hns, Nat.zero_add, w.text_append]
  have hread := callHead?_append w.isHead (w.rest behind)
  obtain ⟨mid, hmid, -, -⟩ := w.isHead.exists_eq hns
  rw [hmid, List.cons_append] at hread ⊢
  rw [headsFrom, hread]
  exact List.mem_cons_self

/-- A call with a level gives a finding of its own text. -/
theorem WrittenCall.gives_text (settings : Settings.Headings) {n : Nat} (path : String)
    (hns : settings.legacyNamespace.all isHeadInside = true)
    (w : WrittenCall settings.legacyNamespace) (hn : w.level? = some n) :
    w.Gives path w.text (w.finding settings path w.text 0 n) := by
  have hmem := w.foundHead_mem_headsFrom hns (List.not_mem_nil (a := '{')) []
  rw [List.nil_append, List.append_nil] at hmem
  exact ⟨[], [], n, (List.append_nil _).symm, hmem, hn, rfl⟩

/-- A call of the template for headings of the second level. -/
def secondLevelCall (body : Text) (close : Char) (h : Balanced body ∧ isClosing close = true) :
    WrittenCall ({} : Settings.Headings).legacyNamespace where
  style := .expression
  head := ⟨false, "h2".toList⟩
  headText := "\x7b\x7b include('@components/h2.html.twig', \x7b".toList
  body := body
  close := close
  tail := ⟨false, false⟩
  tailText := ") \x7d\x7d".toList
  isHead := headText_of_callHead? (by decide)
  balanced := h.1
  closes := h.2
  isTail := tailText_of_callTail? (by decide)

theorem gives_secondLevelCall (body : Text) (close : Char)
    (h : Balanced body ∧ isClosing close = true) :
    (secondLevelCall body close h).Gives "" (secondLevelCall body close h).text
      ((secondLevelCall body close h).finding {} "" (secondLevelCall body close h).text 0 2) :=
  (secondLevelCall body close h).gives_text {} "" (by decide) rfl

/-- A finding before which no other one begins is the first one. -/
theorem head?_findCalls {settings : Settings.Headings} {path : String} {t : Text} {f : Finding}
    (hf : f ∈ findCalls settings path t)
    (hleast : ∀ g ∈ findCalls settings path t, f.span.start ≤ g.span.start) :
    (findCalls settings path t).head? = some f := by
  have hpair : (findCalls settings path t).Pairwise fun f g => f.span.start < g.span.start :=
    findCalls_pairwise
  cases hfs : findCalls settings path t with
  | nil =>
    rw [hfs] at hf
    cases hf
  | cons g fs =>
    rw [hfs] at hf hleast hpair
    rcases List.mem_cons.1 hf with rfl | hf
    · rfl
    · have hlt := (List.pairwise_cons.1 hpair).1 f hf
      have hle := hleast g List.mem_cons_self
      omega

/-- A call in any of its spellings, with any entries that ask for a level, is the first finding of
a text that has no opening brace before it, whatever follows it. -/
theorem findCalls_recognises {entries : List WrittenEntry} {n : Nat} {before : Text}
    (hhead : HeadText "@components".toList style head headText)
    (htail : TailText style tail tailText) (hlevel : AskedLevel entries head.name n)
    (hbefore : '{' ∉ before) (path : String) (behind : Text) :
    ∃ f, (findCalls {} path (before ++ (callText headText entries tailText ++ behind))).head? =
        some f ∧
      f.span = ⟨Text.size before,
        Text.size before + Text.size (callText headText entries tailText)⟩ ∧
      f.before = callText headText entries tailText ∧
      ∃ replacement, f.kind = .legacyCall ⟨n, askedArgs entries n, replacement⟩ := by
  have hns : ({} : Settings.Headings).legacyNamespace.all isHeadInside = true := by decide
  let w : WrittenCall ({} : Settings.Headings).legacyNamespace :=
    ⟨style, head, headText, joinEntries entries, '}', tail, tailText, hhead,
      balanced_joinEntries entries, by decide, htail⟩
  have hwlevel : w.level? = some n := by
    show headingLevel? head.name (lookup (arguments (joinEntries entries)) "level".toList) = some n
    rw [lookup_joinEntries]
    exact hlevel.headingLevel?_eq
  have hfound := w.foundHead_mem_headsFrom hns hbefore behind
  have hmem : w.finding {} path (before ++ (w.text ++ behind)) (Text.size before) n ∈
      findCalls {} path (before ++ (w.text ++ behind)) :=
    mem_findCalls_iff.2 ⟨w, before, behind, n, rfl, hfound, hwlevel, rfl⟩
  have hkind : ∃ replacement,
      (w.finding {} path (before ++ (w.text ++ behind)) (Text.size before) n).kind =
        .legacyCall ⟨n, askedArgs entries n, replacement⟩ := by
    rw [← headingArgs_joinEntries]
    exact ⟨_, rfl⟩
  refine ⟨_, head?_findCalls hmem ?_, rfl, w.finding_before {} path before behind n, hkind⟩
  -- Every finding begins at the head of a call, and none begins before the first brace.
  intro g hg
  obtain ⟨w', x, behind', m, ht, hfound', -, rfl⟩ := mem_findCalls_iff.1 hg
  rw [headsFrom_append_of_not_mem hbefore hns, Nat.zero_add] at hfound'
  exact le_start_of_mem_headsFrom hfound'

end First

/-- A value with commas, colons and brackets inside brackets and literals. -/
def nestedContent : WrittenEntry where
  before := []
  quote := none
  key := "content".toList
  after := []
  value := " t('a, \x7bb: c', \x7bn: [1, 2]\x7d) ".toList
  white_before := by decide
  quote_isQuote := by decide
  key_ne_nil := by decide
  key_isKeyChar := by decide
  white_after := by decide
  balanced_value := by decide
  inner_value := by decide

/-- A literal level under a quoted key. -/
def literalLevel : WrittenEntry where
  before := "\n".toList
  quote := some '\''
  key := "level".toList
  after := " ".toList
  value := " 3\n".toList
  white_before := by decide
  quote_isQuote := by decide
  key_ne_nil := by decide
  key_isKeyChar := by decide
  white_after := by decide
  balanced_value := by decide
  inner_value := by decide

theorem findCalls_recognises_nestedContent :
    ∃ f, (findCalls {} "card.html.twig" ("<p>".toList ++
        (callText "\x7b%- include\t'@components/headline/heading.html.twig\" with \x7b".toList
          [nestedContent, literalLevel] " only -%\x7d".toList ++ "\x7b\x7b '".toList))).head? =
        some f ∧
      f.span = ⟨3, 122⟩ ∧
      ∃ replacement, f.kind = .legacyCall ⟨3, ⟨"t('a, \x7bb: c', \x7bn: [1, 2]\x7d)".toList,
        "'h3'".toList, "'3'".toList, none, none⟩, replacement⟩ := by
  have hhead : HeadText "@components".toList .statement ⟨true, "heading".toList⟩
      "\x7b%- include\t'@components/headline/heading.html.twig\" with \x7b".toList :=
    headText_of_callHead? (by decide)
  have htail : TailText .statement ⟨true, true⟩ " only -%\x7d".toList :=
    tailText_of_callTail? (by decide)
  have hlevel : AskedLevel [nestedContent, literalLevel] "heading".toList 3 :=
    .bare (by decide) (by decide) (.inl rfl) (by decide)
  have hbefore : '{' ∉ "<p>".toList := by decide
  have hargs : askedArgs [nestedContent, literalLevel] 3 =
      ⟨"t('a, \x7bb: c', \x7bn: [1, 2]\x7d)".toList, "'h3'".toList, "'3'".toList, none, none⟩ := by
    decide
  obtain ⟨f, hf, hspan, -, replacement, hkind⟩ :=
    findCalls_recognises hhead htail hlevel hbefore "card.html.twig" "\x7b\x7b '".toList
  rw [hargs] at hkind
  exact ⟨f, hf, hspan.trans (by decide +kernel), replacement, hkind⟩

end Template
end ThemeRepair
