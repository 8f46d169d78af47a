import ThemeRepair.Proofs.Template.Balance
import ThemeRepair.Proofs.Template.Search
import ThemeRepair.Proofs.Text.Cut
import ThemeRepair.Template.Heading

/-!
# Calls as they are written

A `WrittenCall` is a call as its writer puts it down: a head, a balanced body with the bracket that
closes it, and a tail.  The search gives a finding exactly for the calls that are written in the
text behind a found head and have a level (`mem_findCalls_iff`), and the span of the finding cuts
the text of the call out of the template (`WrittenCall.cuts`).

Of the heads in a text, `FoundHead.level?` tells those that a finding begins with from those that
are left alone.
-/

namespace ThemeRepair
namespace Template

/-- A call as it is written: head, body of the arguments, the bracket that closes them, tail. -/
structure WrittenCall (ns : Text) where
  style : CallStyle
  head : CallHead
  headText : Text
  body : Text
  close : Char
  tail : CallTail
  tailText : Text
  isHead : HeadText ns style head headText
  balanced : Balanced body
  closes : isClosing close = true
  isTail : TailText style tail tailText

namespace WrittenCall

variable {ns : Text}

/-- All the text of a call. -/
def text (w : WrittenCall ns) : Text := w.headText ++ (w.body ++ w.close :: w.tailText)

/-- What follows the head of a call in a text that goes on behind the call. -/
def rest (w : WrittenCall ns) (behind : Text) : Text := w.body ++ w.close :: (w.tailText ++ behind)

theorem text_append (w : WrittenCall ns) (behind : Text) :
    w.text ++ behind = w.headText ++ w.rest behind := by
  simp [text, rest]

/-- The level of the heading that a call asks for. -/
def level? (w : WrittenCall ns) : Option Nat :=
  headingLevel? w.head.name (lookup (arguments w.body) "level".toList)

/-- The head of a call at a place. -/
def foundHead (w : WrittenCall ns) (start : Nat) (behind : Text) : FoundHead :=
  ⟨start, w.head, w.rest behind⟩

/-- The finding of a call with a level at a place of a text. -/
def finding (w : WrittenCall ns) (settings : Settings.Headings) (path : String) (t : Text)
    (start level : Nat) : Finding :=
  let args := headingArgs (arguments w.body) level
  Finding.locatedAt path t ⟨start, start + Text.size w.text⟩ (.legacyCall
    { level := level
      args := args
      replacement := render settings (Text.indentationAt t start) args w.head.trim w.tail.trim
        w.tail.only })

/-- The stretch of a call is its text. -/
theorem cuts (w : WrittenCall ns) (x behind : Text) :
    (⟨Text.size x, Text.size x + Text.size w.text⟩ : Span).Cuts (x ++ (w.text ++ behind)) x w.text
      behind :=
  ⟨rfl, rfl, rfl⟩

theorem finding_before (w : WrittenCall ns) (settings : Settings.Headings) (path : String)
    (x behind : Text) (level : Nat) :
    (w.finding settings path (x ++ (w.text ++ behind)) (Text.size x) level).before = w.text :=
  (w.cuts x behind).slice_eq

theorem splitAtClose_rest (w : WrittenCall ns) (behind : Text) :
    splitAtClose .outside 0 (w.rest behind) = some (w.body, w.tailText ++ behind) :=
  splitAtClose_of_balanced w.balanced w.closes

end WrittenCall

/-! ## Heads that begin a finding -/

/-- The level of the heading that a found head begins, if its arguments close, a tail follows, and
there is a level at all. -/
def FoundHead.level? (style : CallStyle) (h : FoundHead) : Option Nat := do
  let (body, behind) ← splitAtClose .outside 0 h.rest
  let _ ← callTail? style behind
  headingLevel? h.head.name (lookup (arguments body) "level".toList)

section Findings

variable {settings : Settings.Headings} {path : String} {t : Text} {style : CallStyle}

/-- A head with a level is the head of a call that is written there. -/
theorem FoundHead.exists_written {h : FoundHead} {n : Nat}
    (hmem : h ∈ headsFrom settings.legacyNamespace style 0 0 t) (hlevel : h.level? style = some n) :
    ∃ (w : WrittenCall settings.legacyNamespace) (x behind : Text), w.style = style ∧
      t = x ++ (w.text ++ behind) ∧ h = w.foundHead (Text.size x) behind ∧ w.level? = some n := by
  obtain ⟨x, u, ht, hu, hstart⟩ := exists_headText_of_mem_headsFrom hmem
  simp only [FoundHead.level?, Option.bind_eq_bind, Option.bind_eq_some_iff, Prod.exists] at hlevel
  obtain ⟨body, behind, hsplit, tail, rest, htail, hlevel⟩ := hlevel
  obtain ⟨hbal, close, hclose, hrest⟩ := splitAtClose_eq_some_iff.1 hsplit
  obtain ⟨v, hv, rfl⟩ := callTail?_eq_some_iff.1 htail
  refine ⟨⟨style, h.head, u, body, close, tail, v, hu, hbal, hclose, hv⟩, x, rest, rfl, ?_, ?_,
    hlevel⟩
  · rw [WrittenCall.text_append, ht, hrest]
    rfl
  · obtain ⟨start, head, rest'⟩ := h
    simp only [Nat.zero_add] at hstart hrest
    rw [hstart, hrest]
    rfl

theorem WrittenCall.level?_foundHead {ns : Text} (w : WrittenCall ns) (start : Nat)
    (behind : Text) : (w.foundHead start behind).level? w.style = w.level? := by
  simp only [FoundHead.level?, foundHead, w.splitAtClose_rest, Option.bind_eq_bind,
    Option.bind_some, callTail?_append w.isTail]
  rfl

theorem WrittenCall.complete?_foundHead {ns : Text} (w : WrittenCall ns) (x behind : Text) :
    (w.foundHead (Text.size x) behind).complete? w.style (x ++ (w.text ++ behind)) =
      some ⟨⟨Text.size x, Text.size x + Text.size w.text⟩, w.head, w.body, w.tail⟩ := by
  have hstop : Text.size (x ++ (w.text ++ behind)) - Text.size behind =
      Text.size x + Text.size w.text := by
    simp only [Text.size_append]
    omega
  simp only [FoundHead.complete?, foundHead, w.splitAtClose_rest, Option.bind_eq_bind,
    Option.bind_some, callTail?_append w.isTail, hstop, Option.pure_def]

/-- The finding that a call gives rise to, if it has a level. -/
theorem WrittenCall.finding?_eq (w : WrittenCall settings.legacyNamespace) (start : Nat) :
    finding? settings path t ⟨⟨start, start + Text.size w.text⟩, w.head, w.body, w.tail⟩ =
      w.level?.map fun n => w.finding settings path t start n := by
  simp only [finding?, headingCall?, level?, Option.bind_eq_bind]
  cases headingLevel? w.head.name (lookup (arguments w.body) "level".toList) with
  | none => rfl
  | some n => rfl

theorem mem_callsByStyle_iff {ns : Text} {c : FoundCall} :
    c ∈ callsByStyle ns t ↔
      ∃ style, ∃ h ∈ headsFrom ns style 0 0 t, h.complete? style t = some c := by
  simp only [callsByStyle, callsOfStyle, List.mem_append, List.mem_filterMap]
  constructor
  · rintro (⟨h, hmem, hc⟩ | ⟨h, hmem, hc⟩)
    · exact ⟨.expression, h, hmem, hc⟩
    · exact ⟨.statement, h, hmem, hc⟩
  · rintro ⟨style, h, hmem, hc⟩
    cases style with
    | expression => exact .inl ⟨h, hmem, hc⟩
    | statement => exact .inr ⟨h, hmem, hc⟩

theorem mem_byStart_iff {fs : List Finding} {f : Finding} : f ∈ Finding.byStart fs ↔ f ∈ fs :=
  List.mem_mergeSort

/-- The findings of a template are those of the calls that are written behind a found head and
have a level. -/
theorem mem_findCalls_iff {f : Finding} :
    f ∈ findCalls settings path t ↔
      ∃ (w : WrittenCall settings.legacyNamespace) (x behind : Text) (n : Nat),
        t = x ++ (w.text ++ behind) ∧
        w.foundHead (Text.size x) behind ∈
          headsFrom settings.legacyNamespace w.style 0 0 t ∧
        w.level? = some n ∧ f = w.finding settings path t (Text.size x) n := by
  simp only [findCalls, mem_byStart_iff, List.mem_filterMap, mem_callsByStyle_iff]
  constructor
  · rintro ⟨c, ⟨style, h, hmem, hc⟩, hf⟩
    have hlevel : ∃ n, h.level? style = some n := by
      simp only [FoundHead.complete?, Option.bind_eq_bind, Option.bind_eq_some_iff, Prod.exists,
        Option.pure_def, Option.some.injEq] at hc
      obtain ⟨body, behind, hsplit, tail, rest, htail, rfl⟩ := hc
      simp only [finding?, headingCall?, Option.map_eq_some_iff, Option.bind_eq_bind,
        Option.bind_eq_some_iff] at hf
      obtain ⟨-, ⟨n, hn, -⟩, -⟩ := hf
      refine ⟨n, ?_⟩
      simp only [FoundHead.level?, hsplit, htail, Option.bind_eq_bind, Option.bind_some]
      exact hn
    obtain ⟨n, hn⟩ := hlevel
    obtain ⟨w, x, behind, rfl, rfl, rfl, hwn⟩ := FoundHead.exists_written hmem hn
    rw [w.complete?_foundHead] at hc
    obtain rfl := Option.some.inj hc
    rw [w.finding?_eq, hwn] at hf
    exact ⟨w, x, behind, n, rfl, hmem, hwn, (Option.some.inj hf).symm⟩
  · rintro ⟨w, x, behind, n, rfl, hmem, hn, rfl⟩
    refine ⟨_, ⟨w.style, _, hmem, w.complete?_foundHead x behind⟩, ?_⟩
    rw [w.finding?_eq, hn]
    rfl

/-- A call gives a finding of a text: it is written there behind a found head, and it has a
level. -/
def WrittenCall.Gives (path : String) (t : Text) (w : WrittenCall settings.legacyNamespace)
    (f : Finding) : Prop :=
  ∃ (x behind : Text) (n : Nat), t = x ++ (w.text ++ behind) ∧
    w.foundHead (Text.size x) behind ∈ headsFrom settings.legacyNamespace w.style 0 0 t ∧
    w.level? = some n ∧ f = w.finding settings path t (Text.size x) n

/-- The calls that give a finding have one body and one closing bracket. -/
theorem WrittenCall.Gives.unique {w w' : WrittenCall settings.legacyNamespace} {f : Finding}
    (h : w.Gives path t f) (h' : w'.Gives path t f) : w.body = w'.body ∧ w.close = w'.close := by
  obtain ⟨x, behind, n, hx, -, -, hf⟩ := h
  obtain ⟨x', behind', n', hx', -, -, hf'⟩ := h'
  obtain rfl : x = x' := Text.eq_of_size_eq ⟨_, hx.symm⟩ ⟨_, hx'.symm⟩
    (congrArg (fun f => f.span.start) (hf.symm.trans hf'))
  have hrest : w.rest behind = w'.rest behind' := by
    rw [hx, w.text_append, w'.text_append] at hx'
    exact (w.isHead.unique w'.isHead (List.append_cancel_left hx')).2.2
  have hsplit := w.splitAtClose_rest behind
  rw [hrest, w'.splitAtClose_rest] at hsplit
  have hbody : w.body = w'.body := (Prod.mk.inj (Option.some.inj hsplit)).1.symm
  rw [WrittenCall.rest, WrittenCall.rest, hbody] at hrest
  exact ⟨hbody, (List.cons.inj (List.append_cancel_left hrest)).1⟩

theorem mem_findCalls_iff_gives {f : Finding} :
    f ∈ findCalls settings path t ↔
      ∃ w : WrittenCall settings.legacyNamespace, w.Gives path t f :=
  mem_findCalls_iff

/-- The findings of a template begin at the found heads that have a level. -/
theorem exists_mem_findCalls_of_level (settings : Settings.Headings) (path : String) {h : FoundHead}
    {n : Nat}
    (hmem : h ∈ headsFrom settings.legacyNamespace style 0 0 t) (hlevel : h.level? style = some n) :
    ∃ f ∈ findCalls settings path t, f.span.start = h.start := by
  obtain ⟨w, x, behind, rfl, ht, rfl, hn⟩ := FoundHead.exists_written hmem hlevel
  exact ⟨_, mem_findCalls_iff.2 ⟨w, x, behind, n, ht, hmem, hn, rfl⟩, rfl⟩

end Findings

end Template
end ThemeRepair
