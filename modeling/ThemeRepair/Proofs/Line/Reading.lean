import Mathlib.Data.List.Basic
import ThemeRepair.Line

/-!
# Lines and the text they make up

`Line.join_ofText` says that reading a text into lines loses nothing.  Here is the converse: lines
that look as lines of a text do are read back from the text they make up (`Line.ofText_join`).

* `Line.Ended` and `Line.Unended` say how a line with a line feed and a last line without one look;
* `Line.AreRead` says that lines look as the lines of a text: all but the last are ended.  It holds
  of what `Line.ofText` gives (`Line.areRead_ofText`), it survives taking lines away
  (`Line.AreRead.sublist`) and it survives writing another content into a line
  (`Line.AreRead.rewrite`).

So every edit of lines that keeps `AreRead` is an edit of the text, and the lines of the new text
are known without reading it again.
-/

namespace ThemeRepair
namespace Line

theorem join_cons (l : Line) (ls : List Line) : join (l :: ls) = l.toText ++ join ls :=
  List.flatMap_cons

/-! ## The shape of a line -/

/-- A line that a line feed ends. -/
structure Ended (l : Line) : Prop where
  no_feed : '\n' ∉ l.content
  ending : l.ending = ['\r', '\n'] ∨ (l.ending = ['\n'] ∧ l.content.getLast? ≠ some '\r')

/-- A line that the end of the text ends. -/
structure Unended (l : Line) : Prop where
  no_feed : '\n' ∉ l.content
  ending : l.ending = ['\r'] ∨
    (l.ending = [] ∧ l.content ≠ [] ∧ l.content.getLast? ≠ some '\r')

/-- Lines as a text is read into them: each looks as a line does, and only the last one may be
without a line feed. -/
structure AreRead (ls : List Line) : Prop where
  ended : ls.Pairwise fun l _ => l.Ended
  shaped : ∀ l ∈ ls, l.Ended ∨ l.Unended

theorem AreRead.nil : AreRead [] := ⟨List.Pairwise.nil, by simp⟩

theorem AreRead.cons {l : Line} {ls : List Line} (hl : l.Ended) (h : AreRead ls) :
    AreRead (l :: ls) := by
  refine ⟨List.pairwise_cons.2 ⟨fun _ _ => hl, h.ended⟩, ?_⟩
  intro m hm
  rcases List.mem_cons.1 hm with rfl | hm
  · exact Or.inl hl
  · exact h.shaped m hm

theorem AreRead.singleton {l : Line} (hl : l.Ended ∨ l.Unended) : AreRead [l] := by
  refine ⟨List.pairwise_singleton _ l, ?_⟩
  intro m hm
  rw [List.mem_singleton.1 hm]
  exact hl

/-- Lines are still lines of a text when some of them are taken away. -/
theorem AreRead.sublist {ls ms : List Line} (h : AreRead ls) (hs : ms.Sublist ls) : AreRead ms :=
  ⟨h.ended.sublist hs, fun l hl => h.shaped l (hs.subset hl)⟩

theorem AreRead.tail {l : Line} {ls : List Line} (h : AreRead (l :: ls)) : AreRead ls :=
  h.sublist (List.sublist_cons_self l ls)

/-- A line with another one behind it is ended. -/
theorem AreRead.ended_of_append {ls ms : List Line} (h : AreRead (ls ++ ms)) (hm : ms ≠ []) :
    ∀ l ∈ ls, l.Ended := by
  intro l hl
  obtain ⟨m, hm⟩ := List.exists_mem_of_ne_nil ms hm
  exact (List.pairwise_append.1 h.ended).2.2 l hl m hm

/-! ## Reading a text gives lines -/

theorem areRead_consChar {c : Char} {ls : List Line} (hc : c ≠ '\n') (h : AreRead ls) :
    AreRead (consChar c ls) := by
  cases ls with
  | nil =>
    by_cases hr : c = '\r'
    · rw [consChar, if_pos hr]
      exact AreRead.singleton (Or.inr ⟨by simp, Or.inl (by rw [hr])⟩)
    · rw [consChar, if_neg hr]
      refine AreRead.singleton (Or.inr ⟨?_, Or.inr ⟨rfl, by simp, ?_⟩⟩)
      · simpa using fun h => hc h.symm
      · simpa using hr
  | cons l ls =>
    have hne : '\n' ∉ c :: l.content ↔ '\n' ∉ l.content := by
      simp [Ne.symm hc]
    by_cases hr : c = '\r' ∧ l.content = [] ∧ l.ending = ['\n']
    · rw [consChar, if_pos hr]
      have hl : Ended ⟨[], c :: l.ending⟩ := by
        refine ⟨by simp, Or.inl ?_⟩
        rw [hr.1, hr.2.2]
      exact AreRead.cons hl h.tail
    · rw [consChar, if_neg hr]
      -- The new first character matters to the ending only where it is also the last one.
      have hlast : l.ending = ['\n'] ∨ l.ending = [] ∧ l.content ≠ [] →
          l.content.getLast? ≠ some '\r' → (c :: l.content).getLast? ≠ some '\r' := by
        intro he hl
        cases hcontent : l.content with
        | nil =>
          have hfeed : l.ending = ['\n'] := by
            rcases he with he | ⟨_, he⟩
            · exact he
            · exact absurd hcontent he
          intro hlast
          simp only [List.getLast?_singleton, Option.some.injEq] at hlast
          exact hr ⟨hlast, hcontent, hfeed⟩
        | cons d t =>
          rw [hcontent] at hl
          rwa [List.getLast?_cons_cons]
      have hended : l.Ended → Ended ⟨c :: l.content, l.ending⟩ := by
        rintro ⟨hfeed, he | ⟨he, hl⟩⟩
        · exact ⟨hne.2 hfeed, Or.inl he⟩
        · exact ⟨hne.2 hfeed, Or.inr ⟨he, hlast (Or.inl he) hl⟩⟩
      have hunended : l.Unended → Unended ⟨c :: l.content, l.ending⟩ := by
        rintro ⟨hfeed, he | ⟨he, hcontent, hl⟩⟩
        · exact ⟨hne.2 hfeed, Or.inl he⟩
        · exact ⟨hne.2 hfeed, Or.inr ⟨he, by simp, hlast (Or.inr ⟨he, hcontent⟩) hl⟩⟩
      refine ⟨?_, ?_⟩
      · rw [List.pairwise_cons]
        have hp := List.pairwise_cons.1 h.ended
        exact ⟨fun m hm => hended (hp.1 m hm), hp.2⟩
      · intro m hm
        rcases List.mem_cons.1 hm with rfl | hm
        · rcases h.shaped l (by simp) with hl | hl
          · exact Or.inl (hended hl)
          · exact Or.inr (hunended hl)
        · exact h.shaped m (List.mem_cons_of_mem l hm)

/-- The lines that a text is read into look as lines of a text. -/
theorem areRead_ofText (t : Text) : AreRead (ofText t) := by
  induction t with
  | nil => exact AreRead.nil
  | cons c t ih =>
    by_cases hc : c = '\n'
    · rw [ofText, if_pos hc]
      exact AreRead.cons ⟨by simp, Or.inr ⟨by rw [hc], by simp⟩⟩ ih
    · rw [ofText, if_neg hc]
      exact areRead_consChar hc ih

/-! ## Lines are read back -/

/-- A character in front of lines goes to the first of them, unless it is the carriage return of
a bare line feed. -/
theorem consChar_cons {c : Char} {t e : Text} {ls : List Line}
    (h : e = ['\n'] → (c :: t).getLast? ≠ some '\r') :
    consChar c (⟨t, e⟩ :: ls) = ⟨c :: t, e⟩ :: ls := by
  rw [consChar, if_neg]
  rintro ⟨rfl, ht, he⟩
  simp only at ht he
  subst ht
  exact h he rfl

theorem ofText_append_ended {l : Line} (h : l.Ended) (t : Text) :
    ofText (l.toText ++ t) = l :: ofText t := by
  obtain ⟨content, ending⟩ := l
  obtain ⟨hfeed, hend⟩ := h
  simp only at hfeed hend
  unfold toText
  induction content with
  | nil =>
    rcases hend with rfl | ⟨rfl, -⟩
    · simp [ofText, consChar]
    · simp [ofText]
  | cons c content ih =>
    have hc : c ≠ '\n' := fun hc => hfeed (by simp [hc])
    have hfeed' : '\n' ∉ content := fun hm => hfeed (List.mem_cons_of_mem c hm)
    have hend' : ending = ['\r', '\n'] ∨ (ending = ['\n'] ∧ content.getLast? ≠ some '\r') := by
      rcases hend with he | ⟨he, hl⟩
      · exact Or.inl he
      · refine Or.inr ⟨he, fun hl' => hl ?_⟩
        rw [List.getLast?_cons, hl', Option.getD_some]
    rw [List.cons_append, List.cons_append, ofText, if_neg hc]
    simp only at ih ⊢
    rw [ih hfeed' hend']
    -- A carriage return at the end of the content would have gone to the ending.
    apply consChar_cons
    intro he
    rcases hend with he' | ⟨-, hl⟩
    · rw [he] at he'
      exact absurd he' (by decide)
    · exact hl

theorem ofText_unended {l : Line} (h : l.Unended) : ofText l.toText = [l] := by
  obtain ⟨content, ending⟩ := l
  obtain ⟨hfeed, hend⟩ := h
  simp only at hfeed hend
  unfold toText
  induction content with
  | nil =>
    rcases hend with rfl | ⟨-, hne, -⟩
    · simp [ofText, consChar]
    · exact absurd rfl hne
  | cons c content ih =>
    have hc : c ≠ '\n' := fun hc => hfeed (by simp [hc])
    have hfeed' : '\n' ∉ content := fun hm => hfeed (List.mem_cons_of_mem c hm)
    simp only at ih ⊢
    rw [List.cons_append, ofText, if_neg hc]
    rcases hend with rfl | ⟨rfl, -, hl⟩
    · rw [ih hfeed' (Or.inl rfl)]
      exact consChar_cons fun he => absurd he (by decide)
    · cases content with
      | nil =>
        have hr : c ≠ '\r' := by simpa using hl
        simp [ofText, consChar, hr]
      | cons d t =>
        rw [List.getLast?_cons_cons] at hl
        rw [ih hfeed' (Or.inr ⟨rfl, by simp, hl⟩)]
        exact consChar_cons fun he => absurd he (by decide)

/-- Lines that look as lines of a text are read back from the text they make up. -/
theorem ofText_join {ls : List Line} (h : AreRead ls) : ofText (join ls) = ls := by
  induction ls with
  | nil => rfl
  | cons l ls ih =>
    rw [join_cons]
    cases ls with
    | nil =>
      have hnil : join [] = [] := rfl
      rcases h.shaped l (by simp) with hl | hl
      · rw [ofText_append_ended hl, ih h.tail]
      · rw [hnil, List.append_nil, ofText_unended hl]
    | cons m ms =>
      have hl : l.Ended := (List.pairwise_cons.1 h.ended).1 m (by simp)
      rw [ofText_append_ended hl, ih h.tail]

/-! ## Another content for a line -/

/-- A line with another content. -/
def withContent (l : Line) (content : Text) : Line := ⟨content, l.ending⟩

/-- A content that a line can have in place of its own: not empty, without a line feed, and with a
carriage return at its end only where the line has one there. -/
structure Replaces (content : Text) (l : Line) : Prop where
  ne_nil : content ≠ []
  no_feed : '\n' ∉ content
  last : content.getLast? = l.content.getLast? ∨ content.getLast? ≠ some '\r'

/-- Another text in the middle of a content gives a content in place of it, unless it comes to stand
at the end and ends with a carriage return. -/
theorem Replaces.of_middle {l : Line} {front old new behind : Text}
    (hcontent : l.content = front ++ (old ++ behind)) (hfeed : '\n' ∉ l.content)
    (hnew : '\n' ∉ new) (hend : behind ≠ [] ∨ (new ≠ [] ∧ new.getLast? ≠ some '\r')) :
    Replaces (front ++ (new ++ behind)) l := by
  rw [hcontent] at hfeed
  simp only [List.mem_append, not_or] at hfeed
  refine ⟨?_, ?_, ?_⟩
  · rcases hend with h | ⟨h, -⟩ <;> simp [h]
  · simp only [List.mem_append, not_or]
    exact ⟨hfeed.1, hnew, hfeed.2.2⟩
  · rw [hcontent, ← List.append_assoc, ← List.append_assoc]
    by_cases hbehind : behind = []
    · obtain ⟨hne, hlast⟩ := hend.resolve_left (not_not_intro hbehind)
      right
      rw [hbehind, List.append_nil, List.getLast?_append_of_ne_nil _ hne]
      exact hlast
    · left
      rw [List.getLast?_append_of_ne_nil _ hbehind, List.getLast?_append_of_ne_nil _ hbehind]

theorem Ended.withContent {l : Line} {content : Text} (h : l.Ended) (hc : Replaces content l) :
    (l.withContent content).Ended := by
  refine ⟨hc.no_feed, ?_⟩
  rcases h.ending with he | ⟨he, hl⟩
  · exact Or.inl he
  · refine Or.inr ⟨he, ?_⟩
    rcases hc.last with hlast | hlast
    · exact hlast.symm ▸ hl
    · exact hlast

theorem Unended.withContent {l : Line} {content : Text} (h : l.Unended) (hc : Replaces content l) :
    (l.withContent content).Unended := by
  refine ⟨hc.no_feed, ?_⟩
  rcases h.ending with he | ⟨he, -, hl⟩
  · exact Or.inl he
  · refine Or.inr ⟨he, hc.ne_nil, ?_⟩
    rcases hc.last with hlast | hlast
    · exact hlast.symm ▸ hl
    · exact hlast

/-- Lines are still lines of a text when one of them is given another content. -/
theorem AreRead.rewrite {ls ms : List Line} {l : Line} {content : Text}
    (h : AreRead (ls ++ l :: ms)) (hc : Replaces content l) :
    AreRead (ls ++ l.withContent content :: ms) := by
  have hp := List.pairwise_append.1 h.ended
  have hq := List.pairwise_cons.1 hp.2.1
  refine ⟨List.pairwise_append.2 ⟨hp.1, List.pairwise_cons.2 ⟨?_, hq.2⟩, ?_⟩, ?_⟩
  · exact fun m hm => (hq.1 m hm).withContent hc
  · exact fun a ha _ _ => hp.2.2 a ha l (by simp)
  · intro m hm
    rcases List.mem_append.1 hm with hm | hm
    · exact h.shaped m (List.mem_append_left _ hm)
    · rcases List.mem_cons.1 hm with rfl | hm
      · rcases h.shaped l (by simp) with hl | hl
        · exact Or.inl (hl.withContent hc)
        · exact Or.inr (hl.withContent hc)
      · exact h.shaped m (by simp [hm])

end Line
end ThemeRepair
