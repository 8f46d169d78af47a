import ThemeRepair.Line
import ThemeRepair.Proofs.Text.White

/-!
# What is nested below a depth

The lines nested below a depth are a run of lines that are blank, comments or deeper, less the
blank and comment lines at its end (`Line.nested_eq`).  Three words carry the arguments about it:

* a line is `Line.below` a depth if it does not end such a run;
* `Line.trimmed` takes the blank and comment lines off the end, which changes nothing that is read
  from content lines (`Line.filter_trimmed`, `Line.find?_trimmed`);
* lines *close* a depth if their first content line, if there is one, is not below it.  What is
  nested below a depth is then decided before them (`Line.nested_append_of_closes`).
-/

namespace ThemeRepair
namespace Line

/-! ## Runs of lines below a depth -/

/-- The line does not end what is nested below the depth. -/
def below (depth : Nat) (l : Line) : Bool := !l.isContent || depth < l.depth

/-- The lines less the blank and comment lines at the end. -/
def trimmed (ls : List Line) : List Line := Text.dropEndWhile (fun l => !l.isContent) ls

/-- The first content line, if there is one, is not below the depth. -/
def Closes (depth : Nat) (ls : List Line) : Prop :=
  ∀ l, ls.find? isContent = some l → l.depth ≤ depth

theorem nested_eq (depth : Nat) (ls : List Line) :
    nested depth ls = trimmed (ls.takeWhile (below depth)) := rfl

theorem below_eq_false_iff {depth : Nat} {l : Line} :
    below depth l = false ↔ l.isContent = true ∧ l.depth ≤ depth := by
  simp [below]

theorem below_of_isContent {depth : Nat} {l : Line} (h : l.isContent = true) :
    below depth l = decide (depth < l.depth) := by
  simp [below, h]

theorem below_of_not_isContent {depth : Nat} {l : Line} (h : l.isContent = false) :
    below depth l = true := by
  simp [below, h]

theorem below_mono {d e : Nat} (hde : d ≤ e) {l : Line} (h : below e l = true) :
    below d l = true := by
  cases hc : l.isContent with
  | false => exact below_of_not_isContent hc
  | true =>
    rw [below_of_isContent hc, decide_eq_true_eq] at h ⊢
    omega

theorem declares_iff {key : Text} {l : Line} :
    l.declares key = true ↔ l.isContent = true ∧ l.key? = some key := by
  rw [declares, Bool.and_eq_true, beq_iff_eq]

theorem isContent_of_declares {key : Text} {l : Line} (h : l.declares key = true) :
    l.isContent = true :=
  (declares_iff.1 h).1

/-! ## Blank and comment lines at the end -/

theorem exists_eq_trimmed_append (ls : List Line) :
    ∃ blanks, ls = trimmed ls ++ blanks ∧ ∀ l ∈ blanks, l.isContent = false := by
  obtain ⟨blanks, hls, hblanks⟩ :=
    Text.exists_eq_dropEndWhile_append (fun l : Line => !l.isContent) ls
  exact ⟨blanks, hls, fun l hl => by simpa using hblanks l hl⟩

theorem isPrefix_trimmed (ls : List Line) : trimmed ls <+: ls := by
  obtain ⟨blanks, hls, -⟩ := exists_eq_trimmed_append ls
  exact ⟨blanks, hls.symm⟩

theorem trimmed_append_of_blank {ls blanks : List Line}
    (h : ∀ l ∈ blanks, l.isContent = false) : trimmed (ls ++ blanks) = trimmed ls :=
  Text.dropEndWhile_append_of_all fun l hl => by rw [h l hl]; rfl

theorem trimmed_append_of_content {ls ms : List Line} (h : ∃ l ∈ ms, l.isContent = true) :
    trimmed (ls ++ ms) = ls ++ trimmed ms := by
  obtain ⟨l, hl, hc⟩ := h
  exact Text.dropEndWhile_append_of_exists ⟨l, hl, by rw [hc]; rfl⟩

theorem trimmed_cons_of_isContent {l : Line} {ls : List Line} (h : l.isContent = true) :
    trimmed (l :: ls) = l :: trimmed ls := by
  cases hls : trimmed ls with
  | nil => simp only [trimmed] at hls; simp [trimmed, Text.dropEndWhile, hls, h]
  | cons m ms => simp only [trimmed] at hls; simp [trimmed, Text.dropEndWhile, hls]

/-- Trimming takes no content line away. -/
@[simp] theorem filter_trimmed (ls : List Line) :
    (trimmed ls).filter isContent = ls.filter isContent := by
  obtain ⟨blanks, hls, hblanks⟩ := exists_eq_trimmed_append ls
  have hnone : blanks.filter isContent = [] := by
    rw [List.filter_eq_nil_iff]
    intro l hl
    rw [hblanks l hl]
    decide
  conv_rhs => rw [hls, List.filter_append, hnone, List.append_nil]

/-- What is found first among the content lines is found among the lines. -/
theorem find?_isContent_eq_head? (ls : List Line) :
    ls.find? isContent = (ls.filter isContent).head? :=
  (List.head?_filter ..).symm

@[simp] theorem find?_trimmed (ls : List Line) :
    (trimmed ls).find? isContent = ls.find? isContent := by
  rw [find?_isContent_eq_head?, find?_isContent_eq_head?, filter_trimmed]

/-! ## Lines that close a depth -/

theorem closes_nil (depth : Nat) : Closes depth [] := by
  intro l hl
  cases hl

theorem closes_cons_of_isContent {depth : Nat} {l : Line} {ls : List Line}
    (hc : l.isContent = true) (hd : l.depth ≤ depth) : Closes depth (l :: ls) := by
  intro m hm
  rw [List.find?_cons_of_pos hc] at hm
  cases hm
  exact hd

theorem Closes.mono {d e : Nat} {ls : List Line} (h : Closes d ls) (hde : d ≤ e) :
    Closes e ls :=
  fun l hl => Nat.le_trans (h l hl) hde

theorem closes_of_blank {depth : Nat} {ls : List Line} (h : ∀ l ∈ ls, l.isContent = false) :
    Closes depth ls := by
  intro l hl
  have := h l (List.mem_of_find?_eq_some hl)
  rw [List.find?_some hl] at this
  exact absurd this (by decide)

theorem find?_isContent_append_of_blank {ls ms : List Line}
    (h : ∀ l ∈ ls, l.isContent = false) :
    (ls ++ ms).find? isContent = ms.find? isContent := by
  rw [List.find?_append, List.find?_eq_none.2 (fun l hl => by rw [h l hl]; decide),
    Option.none_or]

/-- The lines in front of the first content line are those that are passed over. -/
theorem takeWhile_of_blank {blanks rest : List Line} {l : Line}
    (hblanks : ∀ m ∈ blanks, m.isContent = false) (hl : l.isContent = true) :
    (blanks ++ l :: rest).takeWhile (fun m => !m.isContent) = blanks := by
  rw [List.takeWhile_append_of_pos (fun m hm => by rw [hblanks m hm]; rfl),
    List.takeWhile_cons_of_neg (by simp [hl]), List.append_nil]

/-- Lines are split in one way at their first content line. -/
theorem eq_of_append_cons {blanks blanks' rest rest' : List Line} {l l' : Line}
    (h : blanks ++ l :: rest = blanks' ++ l' :: rest')
    (hblanks : ∀ m ∈ blanks, m.isContent = false) (hl : l.isContent = true)
    (hblanks' : ∀ m ∈ blanks', m.isContent = false) (hl' : l'.isContent = true) :
    blanks = blanks' ∧ l = l' ∧ rest = rest' := by
  obtain rfl : blanks = blanks' := by
    rw [← takeWhile_of_blank hblanks hl, h, takeWhile_of_blank hblanks' hl']
  obtain ⟨rfl, rfl⟩ := List.cons.inj (List.append_cancel_left h)
  exact ⟨rfl, rfl, rfl⟩

/-- What closes a depth does so with its first lines. -/
theorem Closes.of_append {depth : Nat} {ls ms : List Line} (h : Closes depth (ls ++ ms)) :
    Closes depth ls := by
  intro l hl
  refine h l ?_
  rw [List.find?_append, hl, Option.some_or]

theorem closes_append_of_blank {depth : Nat} {ls ms : List Line}
    (h : ∀ l ∈ ls, l.isContent = false) : Closes depth (ls ++ ms) ↔ Closes depth ms := by
  rw [Closes, find?_isContent_append_of_blank h]
  rfl

theorem Closes.append {depth : Nat} {ls ms : List Line} (hl : Closes depth ls)
    (hm : Closes depth ms) : Closes depth (ls ++ ms) := by
  intro l h
  rw [List.find?_append] at h
  cases hfind : ls.find? isContent with
  | some m =>
    rw [hfind, Option.some_or] at h
    cases h
    exact hl l hfind
  | none =>
    rw [hfind, Option.none_or] at h
    exact hm l h

theorem Closes.takeWhile {depth : Nat} {ls : List Line} (h : Closes depth ls)
    (p : Line → Bool) : Closes depth (ls.takeWhile p) := by
  intro l hl
  apply h l
  rw [← List.takeWhile_append_dropWhile (p := p) (l := ls), List.find?_append, hl, Option.some_or]

/-- What is left behind the nested lines closes the depth. -/
theorem closes_dropWhile_below (depth : Nat) (ls : List Line) :
    Closes depth (ls.dropWhile (below depth)) := by
  intro l hl
  cases hdrop : ls.dropWhile (below depth) with
  | nil =>
    rw [hdrop] at hl
    cases hl
  | cons m ms =>
    have hm : below depth m = false := by
      have := List.head?_dropWhile_not (below depth) ls
      rw [hdrop] at this
      simpa using this
    obtain ⟨hc, hd⟩ := below_eq_false_iff.1 hm
    rw [hdrop, List.find?_cons_of_pos hc] at hl
    cases hl
    exact hd

/-- Lines that close a depth, seen from the run of lines below the depth before them: of their
lines it goes on with blank and comment lines only. -/
theorem isContent_of_mem_takeWhile_of_closes {depth : Nat} {ls : List Line}
    (h : Closes depth ls) : ∀ l ∈ ls.takeWhile (below depth), l.isContent = false := by
  induction ls with
  | nil => simp
  | cons m ms ih =>
    intro l hl
    cases hm : m.isContent with
    | true =>
      have hbelow : below depth m = false :=
        below_eq_false_iff.2 ⟨hm, h m (List.find?_cons_of_pos hm)⟩
      rw [List.takeWhile_cons_of_neg (by simp [hbelow])] at hl
      cases hl
    | false =>
      rw [List.takeWhile_cons_of_pos (below_of_not_isContent hm)] at hl
      rcases List.mem_cons.1 hl with rfl | hl
      · exact hm
      · refine ih (fun k hk => h k ?_) l hl
        rw [List.find?_cons_of_neg (by simp [hm])]
        exact hk

/-- What is nested below a depth is decided before lines that close the depth. -/
theorem nested_append_of_closes {depth : Nat} {ls ms : List Line} (h : Closes depth ms) :
    nested depth (ls ++ ms) = nested depth ls := by
  rw [nested_eq, nested_eq, List.takeWhile_append]
  split
  · -- The run takes all of the lines, and what it takes of the others is trimmed off again.
    next hall =>
    rw [( List.takeWhile_prefix _).eq_of_length hall]
    exact trimmed_append_of_blank (isContent_of_mem_takeWhile_of_closes h)
  · rfl

/-- Nothing is nested behind a line that is not indented. -/
theorem nested_append_top {top : Line} (htop : below 0 top = false) (depth : Nat)
    (ls ms : List Line) : nested depth (ls ++ top :: ms) = nested depth ls := by
  obtain ⟨hc, hd⟩ := below_eq_false_iff.1 htop
  exact nested_append_of_closes (closes_cons_of_isContent hc (Nat.le_trans hd (Nat.zero_le _)))

/-- Lines all below a depth lie in front of what is nested further on. -/
theorem nested_append_of_forall {depth : Nat} {ls : List Line}
    (h : ∀ l ∈ ls, below depth l = true) (ms : List Line) :
    nested depth (ls ++ ms) = trimmed (ls ++ ms.takeWhile (below depth)) := by
  rw [nested_eq, List.takeWhile_append_of_pos h]

/-- Lines all below a depth, in front of others that close it, are nested but for their end. -/
theorem nested_append_of_below {depth : Nat} {ls ms : List Line}
    (hls : ∀ l ∈ ls, below depth l = true) (hms : Closes depth ms) :
    nested depth (ls ++ ms) = trimmed ls := by
  rw [nested_append_of_closes hms, nested_eq, List.takeWhile_eq_self_iff.2 hls]

theorem nested_of_closes {depth : Nat} {ls : List Line} (h : Closes depth ls) :
    nested depth ls = [] := by
  rw [← List.nil_append ls, nested_append_of_closes h]
  rfl

/-- What is nested from a line below the depth on depends on what is nested behind it. -/
theorem nested_cons_of_below {depth : Nat} {l : Line} (h : below depth l = true)
    (ls : List Line) :
    nested depth (l :: ls) =
      match nested depth ls with
      | [] => if l.isContent then [l] else []
      | kept => l :: kept := by
  rw [nested_eq, nested_eq, List.takeWhile_cons_of_pos h, trimmed, Text.dropEndWhile, ← trimmed]
  cases trimmed (ls.takeWhile (below depth)) with
  | nil => cases l.isContent <;> rfl
  | cons m ms => rfl

@[simp] theorem nested_trimmed (depth : Nat) (ls : List Line) :
    nested depth (trimmed ls) = nested depth ls := by
  obtain ⟨blanks, hls, hblanks⟩ := exists_eq_trimmed_append ls
  conv_rhs => rw [hls]
  exact (nested_append_of_closes (closes_of_blank hblanks)).symm

/-- What is nested below a depth is the same in the lines nested below a smaller one. -/
theorem nested_nested {d e : Nat} (hde : d ≤ e) (ls : List Line) :
    nested e (nested d ls) = nested e ls := by
  rw [nested_eq d, nested_trimmed]
  conv_rhs => rw [← List.takeWhile_append_dropWhile (p := below d) (l := ls)]
  exact (nested_append_of_closes ((closes_dropWhile_below d ls).mono hde)).symm

theorem isPrefix_nested (depth : Nat) (ls : List Line) : nested depth ls <+: ls :=
  (isPrefix_trimmed _).trans ( List.takeWhile_prefix _)

theorem nested_append_drop (depth : Nat) (ls : List Line) :
    nested depth ls ++ ls.drop (nested depth ls).length = ls :=
  List.prefix_iff_eq_append.1 (isPrefix_nested depth ls)

theorem below_of_mem_nested {depth : Nat} {ls : List Line} {l : Line}
    (h : l ∈ nested depth ls) : below depth l = true := by
  have hl := (isPrefix_trimmed _).subset h
  exact List.all_eq_true.1 List.all_takeWhile l hl

/-- The lines behind the nested ones close the depth. -/
theorem closes_drop_nested (depth : Nat) (ls : List Line) :
    Closes depth (ls.drop (nested depth ls).length) := by
  -- Between the nested lines and the line that ends the run, only blank lines and comments stand.
  obtain ⟨blanks, hrun, hblanks⟩ := exists_eq_trimmed_append (ls.takeWhile (below depth))
  have hls : ls = nested depth ls ++ (blanks ++ ls.dropWhile (below depth)) := by
    rw [nested_eq, ← List.append_assoc, ← hrun, List.takeWhile_append_dropWhile]
  have hdrop : ls.drop (nested depth ls).length = blanks ++ ls.dropWhile (below depth) := by
    conv_lhs => rw [hls]
    rw [nested_append_of_closes ((closes_append_of_blank hblanks).2
      (closes_dropWhile_below depth ls)), nested_nested (Nat.le_refl _), List.drop_left]
  rw [hdrop]
  exact (closes_append_of_blank hblanks).2 (closes_dropWhile_below depth ls)

/-! ## Marks of indentation -/

/-- The characters that indent the content lines among these. -/
def marks (ls : List Line) : Text := (ls.filter isContent).flatMap indentation

theorem mixesIndentation_eq (ls : List Line) :
    mixesIndentation ls = ((marks ls).contains ' ' && (marks ls).contains '\t') := rfl

@[simp] theorem marks_append (ls ms : List Line) : marks (ls ++ ms) = marks ls ++ marks ms := by
  simp [marks]

theorem marks_cons (l : Line) (ls : List Line) : marks (l :: ls) = marks [l] ++ marks ls :=
  marks_append [l] ls

@[simp] theorem marks_trimmed (ls : List Line) : marks (trimmed ls) = marks ls := by
  rw [marks, filter_trimmed, marks]

theorem marks_cons_of_isContent {l : Line} (h : l.isContent = true) (ls : List Line) :
    marks (l :: ls) = l.indentation ++ marks ls := by
  simp [marks, h]

theorem marks_subset_of_sublist {ls ms : List Line} (h : ls.Sublist ms) : marks ls ⊆ marks ms := by
  intro c hc
  obtain ⟨l, hl, hcl⟩ := List.mem_flatMap.1 hc
  exact List.mem_flatMap.2 ⟨l, (h.filter isContent).subset hl, hcl⟩

/-- Lines with no other marks than some that do not mix them do not mix them. -/
theorem mixesIndentation_of_subset {ls ms : List Line} (h : marks ls ⊆ marks ms)
    (hms : mixesIndentation ms = false) : mixesIndentation ls = false := by
  rw [mixesIndentation_eq, Bool.and_eq_false_iff] at hms ⊢
  have hnot : ∀ c, (marks ms).contains c = false → (marks ls).contains c = false := by
    intro c hc
    rw [List.contains_eq_mem, decide_eq_false_iff_not] at hc ⊢
    exact fun hm => hc (h hm)
  exact hms.imp (hnot ' ') (hnot '\t')

/-- A block of lines that do not mix their indentation does not mix it. -/
theorem mixesIndentation_nested {l : Line} {ls : List Line}
    (h : mixesIndentation (l :: ls) = false) : mixesIndentation (l :: nested l.depth ls) = false :=
  mixesIndentation_of_subset
    (marks_subset_of_sublist ((isPrefix_nested l.depth ls).sublist.cons_cons l)) h

/-- A block does not mix its indentation when some of its lines give way to others with no other
marks. -/
theorem mixesIndentation_insert {header : Line} {front mid mid' behind : List Line}
    (h : marks mid' ⊆ marks mid)
    (hmix : mixesIndentation (header :: trimmed (front ++ (mid ++ behind))) = false) :
    mixesIndentation (header :: trimmed (front ++ (mid' ++ behind))) = false := by
  refine mixesIndentation_of_subset ?_ hmix
  rw [marks_cons header, marks_cons header (trimmed (front ++ (mid ++ behind)))]
  simp only [marks_trimmed, marks_append]
  intro c hc
  simp only [List.mem_append] at hc ⊢
  rcases hc with hc | hc | hc | hc
  · exact Or.inl hc
  · exact Or.inr (Or.inl hc)
  · exact Or.inr (Or.inr (Or.inl (h hc)))
  · exact Or.inr (Or.inr (Or.inr hc))

end Line
end ThemeRepair
