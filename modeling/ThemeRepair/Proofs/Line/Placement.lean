import ThemeRepair.Proofs.Line.Nesting
import ThemeRepair.Proofs.Line.Reading

/-!
# Where the lines of a text stand

`Line.contentLines` are the lines of a text that say something (`Line.Says`), each with the offset
at which it starts.  Blank lines and comments are not among them, and nothing that is decided about
the structure of a text needs them: what is nested below a depth is, among the content lines, the
run of deeper ones (`Line.takeWhile_contentFrom`), and it ends where the last of these ends
(`Line.endFrom_contentFrom_nested`).

The lines of a text that start before an offset are counted by the line feeds before it
(`Line.lineNumber_total`).
-/

namespace ThemeRepair

namespace Text

theorem lineEndsBefore_append (t u : Text) : lineEndsBefore (t ++ u) (size t) = t.count '\n' := by
  induction t with
  | nil => cases u <;> rfl
  | cons c t ih =>
    have hc := c.utf8Size_pos
    obtain ⟨n, hn⟩ : ∃ n, c.utf8Size + size t = n + 1 := ⟨c.utf8Size + size t - 1, by omega⟩
    rw [List.cons_append, size_cons, hn, lineEndsBefore,
      show n + 1 - c.utf8Size = size t by omega, ih, List.count_cons, Nat.add_comm]
    simp only [beq_iff_eq]

end Text

namespace Line

/-! ## Lines that say something -/

/-- The line says something: without the spaces and tabs in front and the white space behind, it is
not empty and does not start with a number sign. -/
def Says (l : Line) : Prop :=
  Text.trimEnd l.body ≠ [] ∧ (Text.trimEnd l.body).head? ≠ some '#'

instance : DecidablePred Says := fun _ => inferInstanceAs (Decidable (_ ∧ _))

theorem says_iff {l : Line} : l.Says ↔ l.isContent = true := by
  obtain ⟨trail, hbody, hwhite⟩ := Text.exists_eq_dropEndWhile_append Text.isWhite l.body
  rw [← Text.isAllWhite_iff] at hwhite
  have hbody' : l.body = Text.trimEnd l.body ++ trail := hbody
  rw [Says, isContent, Bool.and_eq_true, Bool.not_eq_true', bne_iff_ne]
  cases htrim : Text.trimEnd l.body with
  | nil =>
    rw [htrim, List.nil_append] at hbody'
    simp [hbody', hwhite]
  | cons c u =>
    have hsome : Text.isAllWhite l.body = false := by
      rw [← Bool.not_eq_true]
      intro hall
      have hnil : Text.trimEnd l.body = [] :=
        Text.dropEndWhile_append_of_all (l := []) (Text.isAllWhite_iff.1 hall)
      rw [htrim] at hnil
      cases hnil
    rw [hsome, hbody', htrim]
    simp

theorem content_eq (l : Line) : l.content = l.indentation ++ l.body :=
  List.takeWhile_append_dropWhile.symm

theorem body_ne_nil {l : Line} (h : l.isContent = true) : l.body ≠ [] := by
  intro hbody
  rw [isContent, hbody] at h
  exact absurd h (by decide)

theorem size_pos_of_isContent {l : Line} (h : l.isContent = true) : 0 < l.size := by
  obtain ⟨c, t, hbody⟩ := List.exists_cons_of_ne_nil (body_ne_nil h)
  have hpos := c.utf8Size_pos
  rw [size, toText, content_eq, hbody]
  simp only [Text.size_append, Text.size_cons]
  omega

theorem total_le_of_isPrefix {ls ms : List Line} (h : ls <+: ms) : total ls ≤ total ms := by
  obtain ⟨rest, rfl⟩ := h
  rw [total_append]
  exact Nat.le_add_right _ _

/-! ## Lines and their offsets -/

/-- Lines with the offsets at which they start, the first one at `n`. -/
def placed : (n : Nat) → List Line → List (Nat × Line)
  | _, [] => []
  | n, l :: ls => (n, l) :: placed (n + l.size) ls

/-- The lines of a text that say something, with the offsets at which they start. -/
def contentLines (t : Text) : List (Nat × Line) :=
  (placed 0 (ofText t)).filter fun p => p.2.Says

/-- The offset at which the last one of some lines ends, its ending included; `n` where there is no
line. -/
def endFrom (n : Nat) (block : List (Nat × Line)) : Nat :=
  (block.getLast?.map fun p => p.1 + p.2.size).getD n

theorem placed_append (n : Nat) (ls ms : List Line) :
    placed n (ls ++ ms) = placed n ls ++ placed (n + total ls) ms := by
  induction ls generalizing n with
  | nil => rfl
  | cons l ls ih =>
    rw [List.cons_append, placed, placed, ih, total_cons, Nat.add_assoc, List.cons_append]

/-- The content lines among lines that start at an offset. -/
def contentFrom (n : Nat) (ls : List Line) : List (Nat × Line) :=
  (placed n ls).filter fun p => p.2.isContent

theorem contentLines_eq (t : Text) : contentLines t = contentFrom 0 (ofText t) := by
  apply List.filter_congr
  intro p _
  rw [Bool.eq_iff_iff, decide_eq_true_eq, says_iff]

@[simp] theorem contentFrom_nil (n : Nat) : contentFrom n [] = [] := rfl

theorem contentFrom_cons_of_isContent {l : Line} (h : l.isContent = true) (n : Nat)
    (ls : List Line) : contentFrom n (l :: ls) = (n, l) :: contentFrom (n + l.size) ls :=
  List.filter_cons_of_pos h

theorem contentFrom_cons_of_not_isContent {l : Line} (h : l.isContent = false) (n : Nat)
    (ls : List Line) : contentFrom n (l :: ls) = contentFrom (n + l.size) ls :=
  List.filter_cons_of_neg (by simp [h])

theorem contentFrom_append (n : Nat) (ls ms : List Line) :
    contentFrom n (ls ++ ms) = contentFrom n ls ++ contentFrom (n + total ls) ms := by
  rw [contentFrom, placed_append, List.filter_append, contentFrom, contentFrom]

theorem contentFrom_of_blank {ls : List Line} (h : ∀ l ∈ ls, l.isContent = false) (n : Nat) :
    contentFrom n ls = [] := by
  induction ls generalizing n with
  | nil => rfl
  | cons l ls ih =>
    rw [contentFrom_cons_of_not_isContent (h l List.mem_cons_self),
      ih fun m hm => h m (List.mem_cons_of_mem l hm)]

/-- Without their offsets, they are the content lines. -/
theorem map_snd_contentFrom (n : Nat) (ls : List Line) :
    (contentFrom n ls).map Prod.snd = ls.filter isContent := by
  induction ls generalizing n with
  | nil => rfl
  | cons l ls ih =>
    cases hl : l.isContent with
    | true =>
      rw [contentFrom_cons_of_isContent hl, List.map_cons, ih, List.filter_cons_of_pos hl]
    | false =>
      rw [contentFrom_cons_of_not_isContent hl, ih, List.filter_cons_of_neg (by simp [hl])]

theorem exists_mem_contentFrom (n : Nat) {ls : List Line} {l : Line} (hl : l ∈ ls)
    (hc : l.isContent = true) : ∃ p ∈ contentFrom n ls, p.2 = l := by
  have hmem : l ∈ ls.filter isContent := List.mem_filter.2 ⟨hl, hc⟩
  rw [← map_snd_contentFrom n] at hmem
  exact List.mem_map.1 hmem

theorem marks_eq_contentFrom (n : Nat) (ls : List Line) :
    marks ls = (contentFrom n ls).flatMap fun p => p.2.indentation := by
  rw [marks, ← map_snd_contentFrom n, List.flatMap_map]

/-- A content line cuts the lines in those before it and those behind it. -/
theorem exists_of_contentFrom_eq_append {n start : Nat} {ls : List Line} {l : Line}
    {front behind : List (Nat × Line)} (h : contentFrom n ls = front ++ (start, l) :: behind) :
    ∃ before after, ls = before ++ l :: after ∧ l.isContent = true ∧ start = n + total before ∧
      front = contentFrom n before ∧ behind = contentFrom (start + l.size) after := by
  induction ls generalizing n front with
  | nil => simp at h
  | cons m ls ih =>
    cases hm : m.isContent with
    | false =>
      rw [contentFrom_cons_of_not_isContent hm] at h
      obtain ⟨before, after, rfl, hl, hstart, hfront, hbehind⟩ := ih h
      refine ⟨m :: before, after, rfl, hl, ?_, ?_, hbehind⟩
      · rw [hstart, total_cons, Nat.add_assoc]
      · rw [contentFrom_cons_of_not_isContent hm, hfront]
    | true =>
      rw [contentFrom_cons_of_isContent hm] at h
      cases front with
      | nil =>
        obtain ⟨hfirst, hbehind⟩ := List.cons.inj h
        obtain ⟨rfl, rfl⟩ := Prod.mk.inj hfirst
        exact ⟨[], ls, rfl, hm, rfl, rfl, hbehind.symm⟩
      | cons p front =>
        obtain ⟨rfl, hrest⟩ := List.cons.inj h
        obtain ⟨before, after, rfl, hl, hstart, hfront, hbehind⟩ := ih hrest
        refine ⟨m :: before, after, rfl, hl, ?_, ?_, hbehind⟩
        · rw [hstart, total_cons, Nat.add_assoc]
        · rw [contentFrom_cons_of_isContent hm, hfront]

/-- Content lines stand where the lines do: not in front of them, and not beyond their end. -/
theorem stop_le_of_mem_contentFrom {n : Nat} {ls : List Line} {p : Nat × Line}
    (h : p ∈ contentFrom n ls) : n ≤ p.1 ∧ p.1 + p.2.size ≤ n + total ls := by
  obtain ⟨front, behind, hsplit⟩ := List.append_of_mem h
  obtain ⟨before, after, rfl, -, hstart, -, -⟩ := exists_of_contentFrom_eq_append hsplit
  rw [total_append, total_cons]
  omega

theorem isContent_of_mem_contentFrom {n : Nat} {ls : List Line} {p : Nat × Line}
    (h : p ∈ contentFrom n ls) : p.2.isContent = true :=
  (List.mem_filter.1 h).2

theorem mem_of_mem_contentFrom {n : Nat} {ls : List Line} {p : Nat × Line}
    (h : p ∈ contentFrom n ls) : p.2 ∈ ls := by
  have hmem := List.mem_map_of_mem (f := Prod.snd) h
  rw [map_snd_contentFrom] at hmem
  exact (List.mem_filter.1 hmem).1

/-- Content lines start where they stand: not in front of the lines, and before their end. -/
theorem mem_contentFrom_bounds {n : Nat} {ls : List Line} {p : Nat × Line}
    (h : p ∈ contentFrom n ls) : n ≤ p.1 ∧ p.1 < n + total ls := by
  obtain ⟨hstart, hstop⟩ := stop_le_of_mem_contentFrom h
  have hpos := size_pos_of_isContent (isContent_of_mem_contentFrom h)
  omega

/-- The first content line stands in front of the others. -/
theorem le_of_contentFrom_eq_cons {n : Nat} {ls : List Line} {p q : Nat × Line}
    {more : List (Nat × Line)} (h : contentFrom n ls = p :: more) (hq : q ∈ contentFrom n ls) :
    p.1 ≤ q.1 := by
  obtain ⟨before, after, -, -, -, -, hmore⟩ :=
    exists_of_contentFrom_eq_append (h.trans (List.nil_append (p :: more)).symm)
  rw [h] at hq
  rcases List.mem_cons.1 hq with rfl | hq
  · exact Nat.le_refl _
  · rw [hmore] at hq
    exact Nat.le_trans (Nat.le_add_right _ _) (stop_le_of_mem_contentFrom hq).1

/-- The first content line of lines that close a depth is not deeper. -/
theorem Closes.depth_le {depth n : Nat} {ls : List Line} (h : Closes depth ls) {p : Nat × Line}
    {more : List (Nat × Line)} (hp : contentFrom n ls = p :: more) : p.2.depth ≤ depth := by
  apply h p.2
  rw [← List.head?_filter, ← map_snd_contentFrom n, hp]
  rfl

/-! ## The content lines of a stretch -/

/-- The content lines of a text that start in a stretch of it, with their offsets. -/
def contentIn (t : Text) (s : Span) : List (Nat × Line) :=
  (contentLines t).filter fun p => s.start ≤ p.1 ∧ p.1 < s.stop

theorem mem_contentIn_iff {t : Text} {s : Span} {p : Nat × Line} :
    p ∈ contentIn t s ↔ p ∈ contentLines t ∧ s.start ≤ p.1 ∧ p.1 < s.stop := by
  rw [contentIn, List.mem_filter, decide_eq_true_eq]

/-- In the stretch that some lines of a text take up, the content lines are those among them. -/
theorem contentIn_eq {t : Text} {above among below : List Line}
    (h : ofText t = above ++ (among ++ below)) :
    contentIn t ⟨total above, total above + total among⟩ = contentFrom (total above) among := by
  have habove : (contentFrom 0 above).filter
      (fun p => decide (total above ≤ p.1 ∧ p.1 < total above + total among)) = [] := by
    rw [List.filter_eq_nil_iff]
    intro p hp
    have := (mem_contentFrom_bounds hp).2
    rw [decide_eq_true_eq]
    omega
  have hbelow : (contentFrom (total above + total among) below).filter
      (fun p => decide (total above ≤ p.1 ∧ p.1 < total above + total among)) = [] := by
    rw [List.filter_eq_nil_iff]
    intro p hp
    have := (mem_contentFrom_bounds hp).1
    rw [decide_eq_true_eq]
    omega
  have hamong : (contentFrom (total above) among).filter
      (fun p => decide (total above ≤ p.1 ∧ p.1 < total above + total among)) =
        contentFrom (total above) among := by
    rw [List.filter_eq_self]
    intro p hp
    rw [decide_eq_true_eq]
    exact mem_contentFrom_bounds hp
  rw [contentIn, contentLines_eq, h, contentFrom_append, contentFrom_append, Nat.zero_add,
    List.filter_append, List.filter_append, habove, hbelow, hamong, List.nil_append,
    List.append_nil]

/-! ## What is nested -/

/-- The first content lines that pass a test are those of the lines up to the first that fails. -/
theorem takeWhile_contentFrom_eq (p : Line → Bool) (n : Nat) (ls : List Line) :
    ((contentFrom n ls).takeWhile fun q => p q.2) =
      contentFrom n (ls.takeWhile fun l => !l.isContent || p l) := by
  induction ls generalizing n with
  | nil => rfl
  | cons l ls ih =>
    cases hl : l.isContent with
    | false =>
      rw [contentFrom_cons_of_not_isContent hl, List.takeWhile_cons_of_pos (by simp [hl]),
        contentFrom_cons_of_not_isContent hl, ih]
    | true =>
      cases hp : p l with
      | true =>
        rw [contentFrom_cons_of_isContent hl, List.takeWhile_cons_of_pos (by simp [hp]),
          List.takeWhile_cons_of_pos (by simp [hp]), contentFrom_cons_of_isContent hl, ih]
      | false =>
        rw [contentFrom_cons_of_isContent hl, List.takeWhile_cons_of_neg (by simp [hp]),
          List.takeWhile_cons_of_neg (by simp [hl, hp]), contentFrom_nil]

/-- Among the content lines, what is nested below a depth is the run of deeper ones. -/
theorem takeWhile_contentFrom (depth n : Nat) (ls : List Line) :
    ((contentFrom n ls).takeWhile fun p => depth < p.2.depth) =
      contentFrom n (nested depth ls) := by
  obtain ⟨blanks, hrun, hblanks⟩ := exists_eq_trimmed_append (ls.takeWhile (below depth))
  have hbelow := takeWhile_contentFrom_eq (fun l => decide (depth < l.depth)) n ls
  change _ = contentFrom n (ls.takeWhile (below depth)) at hbelow
  -- The blank and comment lines at the end of the run are no content lines.
  rw [hbelow, nested_eq]
  conv_lhs => rw [hrun, contentFrom_append, contentFrom_of_blank hblanks, List.append_nil]

/-- Lines without blank and comment lines at the end are none, or end with a content line. -/
theorem trimmed_eq_nil_or_concat (ls : List Line) :
    trimmed ls = [] ∨ ∃ init last, trimmed ls = init ++ [last] ∧ last.isContent = true := by
  rcases List.eq_nil_or_concat (trimmed ls) with hnil | ⟨init, last, hconcat⟩
  · exact Or.inl hnil
  · refine Or.inr ⟨init, last, by rw [hconcat, List.concat_eq_append], ?_⟩
    have hkept : ls.rdropWhile (fun l => !l.isContent) = init ++ [last] := by
      rw [← Text.dropEndWhile_eq_rdropWhile, ← List.concat_eq_append, ← hconcat, trimmed]
    have hlast := List.rdropWhile_last_not (fun l : Line => !l.isContent) ls (by simp [hkept])
    simpa only [hkept, List.getLast_append_singleton, Bool.not_eq_true, Bool.not_eq_false'] using
      hlast

/-- What is nested ends where the last of its content lines ends. -/
theorem endFrom_contentFrom_nested (depth n : Nat) (ls : List Line) :
    endFrom n (contentFrom n (nested depth ls)) = n + total (nested depth ls) := by
  rw [nested_eq]
  rcases trimmed_eq_nil_or_concat (ls.takeWhile (below depth)) with hnil | ⟨init, last, hlast, hc⟩
  · rw [hnil]
    rfl
  · rw [hlast, contentFrom_append, contentFrom_cons_of_isContent hc, contentFrom_nil, endFrom,
      List.getLast?_concat, total_append, total_cons, total_nil]
    simp only [Option.map_some, Option.getD_some]
    omega

/-! ## Lines in their text -/

/-- A text is cut where a line of it starts. -/
theorem splitAt?_total {t : Text} {ls ms : List Line} (h : ofText t = ls ++ ms) :
    Text.splitAt? t (total ls) = some (join ls, join ms) := by
  rw [← join_ofText t, h, join_append, total_eq_size_join]
  exact Text.splitAt?_append (join ls) (join ms)


theorem Ended.count_toText {l : Line} (h : l.Ended) : l.toText.count '\n' = 1 := by
  have hcontent : l.content.count '\n' = 0 := List.count_eq_zero.2 h.no_feed
  rw [toText, List.count_append, hcontent]
  rcases h.ending with he | ⟨he, -⟩ <;> rw [he] <;> rfl

theorem count_join_of_ended {ls : List Line} (h : ∀ l ∈ ls, l.Ended) :
    (join ls).count '\n' = ls.length := by
  induction ls with
  | nil => rfl
  | cons l ls ih =>
    rw [join_cons, List.count_append, (h l List.mem_cons_self).count_toText,
      ih fun m hm => h m (List.mem_cons_of_mem l hm), List.length_cons, Nat.add_comm]

/-- The number of a line of a text is that of its offset. -/
theorem lineNumber_total {t : Text} {before after : List Line} {l : Line}
    (h : ofText t = before ++ l :: after) :
    Text.lineNumber t (total before) = before.length + 1 := by
  have hread := areRead_ofText t
  rw [h] at hread
  have hended := hread.ended_of_append (List.cons_ne_nil l after)
  rw [Text.lineNumber, ← join_ofText t, h, join_append, total_eq_size_join,
    Text.lineEndsBefore_append, count_join_of_ended hended]

end Line
end ThemeRepair
