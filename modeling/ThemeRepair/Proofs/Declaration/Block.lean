import ThemeRepair.Declaration
import ThemeRepair.Proofs.Line.Nesting
import ThemeRepair.Proofs.Line.Reading
import ThemeRepair.Proofs.Text.Cut

/-!
# Declarations and their blocks

`Declaration.blocks` reads the declarations of lines without any offset: each name with the lines
of its block.  They are the declarations that `Declaration.among` gives
(`Declaration.map_slice_among`), and `Declaration.eraseBlock` takes the first block of a name away.

What is left is known exactly: `Declaration.blocks_eraseBlock` says that the blocks of the other
lines are the old ones less the one taken away, with every other block line for line the same.  The
reason is that a block is closed on both sides: the block before it ends where it begins, and what
follows it is not deep enough to go on with the block before it.
-/

namespace ThemeRepair
namespace Line

/-- The line does not end the declarations of a depth. -/
def reaches (depth : Nat) (l : Line) : Bool := !l.isContent || depth ≤ l.depth

/-- The line declares a name at a depth. -/
def declaresAt (depth : Nat) (name : Text) (l : Line) : Bool :=
  l.isContent && l.depth == depth && l.key? == some name

theorem reaches_of_below {depth : Nat} {l : Line} (h : below depth l = true) :
    reaches depth l = true := by
  cases hc : l.isContent with
  | false => simp [reaches, hc]
  | true =>
    rw [below_of_isContent hc, decide_eq_true_eq] at h
    simp only [reaches, hc, Bool.not_true, Bool.false_or, decide_eq_true_eq]
    omega

theorem reaches_eq_false_iff {depth : Nat} {l : Line} :
    reaches depth l = false ↔ l.isContent = true ∧ l.depth < depth := by
  simp [reaches]

theorem closes_dropWhile_reaches (depth : Nat) (ls : List Line) :
    Closes depth (ls.dropWhile (reaches depth)) := by
  cases hdrop : ls.dropWhile (reaches depth) with
  | nil => exact closes_nil depth
  | cons m ms =>
    have hm : reaches depth m = false := by
      have := List.head?_dropWhile_not (reaches depth) ls
      rw [hdrop] at this
      simpa using this
    obtain ⟨hc, hd⟩ := reaches_eq_false_iff.1 hm
    exact closes_cons_of_isContent hc (Nat.le_of_lt hd)

/-- What is nested below a depth reaches it. -/
theorem nested_takeWhile_reaches (depth : Nat) (ls : List Line) :
    nested depth (ls.takeWhile (reaches depth)) = nested depth ls := by
  conv_rhs => rw [← List.takeWhile_append_dropWhile (p := reaches depth) (l := ls)]
  exact (nested_append_of_closes (closes_dropWhile_reaches depth ls)).symm

theorem closes_of_declaresAt {depth : Nat} {name : Text} {l : Line}
    (h : declaresAt depth name l = true) (ls : List Line) : Closes depth (l :: ls) := by
  simp only [declaresAt, Bool.and_eq_true, beq_iff_eq] at h
  exact closes_cons_of_isContent h.1.1 (Nat.le_of_eq h.1.2)

end Line

namespace Declaration

open Line (nested below trimmed reaches declaresAt Closes)

/-! ## Blocks -/

/-- The declarations among lines, each with the lines of its block. -/
def blocks (depth : Nat) : List Line → List (Text × List Line)
  | [] => []
  | l :: ls =>
    if l.isContent && l.depth == depth then
      match l.key? with
      | some name => (name, l :: nested depth ls) :: blocks depth ls
      | none => blocks depth ls
    else blocks depth ls

/-- The lines without the first block of a name. -/
def eraseBlock (depth : Nat) (name : Text) : List Line → List Line
  | [] => []
  | l :: ls =>
    if declaresAt depth name l then ls.drop (nested depth ls).length
    else l :: eraseBlock depth name ls

/-- The name that a line declares at a depth. -/
def nameAt? (depth : Nat) (l : Line) : Option Text :=
  if l.isContent && l.depth == depth then l.key? else none

theorem blocks_cons (depth : Nat) (l : Line) (ls : List Line) :
    blocks depth (l :: ls) =
      ((nameAt? depth l).map fun name => (name, l :: nested depth ls)).toList ++
        blocks depth ls := by
  rw [blocks, nameAt?]
  split
  · cases l.key? <;> rfl
  · rfl

theorem nameAt?_eq_some_iff {depth : Nat} {name : Text} {l : Line} :
    nameAt? depth l = some name ↔ declaresAt depth name l = true := by
  rw [nameAt?, declaresAt]
  cases l.isContent && l.depth == depth <;> simp

theorem map_fst_blocks (depth : Nat) (ls : List Line) :
    (blocks depth ls).map Prod.fst = ls.filterMap (nameAt? depth) := by
  induction ls with
  | nil => rfl
  | cons l ls ih =>
    rw [blocks_cons, List.map_append, ih, List.filterMap_cons]
    cases nameAt? depth l <;> rfl

theorem nameAt?_eq_none_of_below {depth : Nat} {l : Line} (h : below depth l = true) :
    nameAt? depth l = none := by
  unfold nameAt?
  cases hc : l.isContent with
  | false => rfl
  | true =>
    rw [Line.below_of_isContent hc, decide_eq_true_eq] at h
    have hne : (l.depth == depth) = false := by
      rw [beq_eq_false_iff_ne]
      omega
    rw [hne]
    rfl

/-- Lines below the depth declare nothing at it. -/
theorem blocks_append_of_below {depth : Nat} {ls : List Line}
    (h : ∀ l ∈ ls, below depth l = true) (ms : List Line) :
    blocks depth (ls ++ ms) = blocks depth ms := by
  induction ls with
  | nil => rfl
  | cons l ls ih =>
    rw [List.cons_append, blocks_cons, nameAt?_eq_none_of_below (h l (by simp)),
      ih fun m hm => h m (List.mem_cons_of_mem l hm)]
    rfl

theorem blocks_append_of_blank {depth : Nat} (ls : List Line) {blanks : List Line}
    (h : ∀ l ∈ blanks, l.isContent = false) :
    blocks depth (ls ++ blanks) = blocks depth ls := by
  induction ls with
  | nil =>
    have hbelow : ∀ l ∈ blanks, below depth l = true :=
      fun l hl => Line.below_of_not_isContent (h l hl)
    rw [List.nil_append, ← List.append_nil blanks]
    exact blocks_append_of_below hbelow []
  | cons l ls ih =>
    rw [List.cons_append, blocks_cons, blocks_cons, ih,
      Line.nested_append_of_closes (Line.closes_of_blank h)]

/-- Blank and comment lines at the end declare nothing. -/
theorem blocks_takeWhile_trimmed (depth : Nat) (ls : List Line) :
    blocks depth ((trimmed ls).takeWhile (reaches depth)) =
      blocks depth (ls.takeWhile (reaches depth)) := by
  obtain ⟨blanks, hls, hblanks⟩ := Line.exists_eq_trimmed_append ls
  have htake : ls.takeWhile (reaches depth) = (trimmed ls ++ blanks).takeWhile (reaches depth) := by
    rw [← hls]
  rw [htake, List.takeWhile_append]
  split
  · next hall =>
    rw [( List.takeWhile_prefix _).eq_of_length hall]
    exact (blocks_append_of_blank (trimmed ls)
      fun l hl => hblanks l (( List.takeWhile_prefix _).subset hl)).symm
  · rfl

/-! ## Declarations are blocks -/

theorem among_cons (role : Role) (depth offset : Nat) (l : Line) (ls : List Line) :
    among role depth offset (l :: ls) =
      ((nameAt? depth l).map fun name => ⟨name, role,
        ⟨offset, offset + l.size + Line.total (nested depth ls)⟩⟩).toList ++
        among role depth (offset + l.size) ls := by
  rw [among, nameAt?]
  split
  · cases l.key? <;> rfl
  · rfl

theorem map_name_among (role : Role) (depth offset : Nat) (ls : List Line) :
    (among role depth offset ls).map Declaration.name = ls.filterMap (nameAt? depth) := by
  induction ls generalizing offset with
  | nil => rfl
  | cons l ls ih =>
    rw [among_cons, List.map_append, ih, List.filterMap_cons]
    cases nameAt? depth l <;> rfl

/-- The span of a block cuts the text: in front of it stand the lines above it. -/
theorem cuts_block (front : Text) (l : Line) (ls : List Line) (depth : Nat) (behind : Text) :
    Span.Cuts ⟨Text.size front, Text.size front + l.size + Line.total (nested depth ls)⟩
      (front ++ (Line.join (l :: ls) ++ behind)) front (Line.join (l :: nested depth ls))
      (Line.join (ls.drop (nested depth ls).length) ++ behind) := by
  have hls : Line.join ls =
      Line.join (nested depth ls) ++ Line.join (ls.drop (nested depth ls).length) := by
    rw [← Line.join_append, Line.nested_append_drop]
  refine ⟨?_, rfl, ?_⟩
  · rw [Line.join_cons, Line.join_cons, hls]
    simp only [List.append_assoc]
  · simp only [Line.join_cons, Line.total_eq_size_join, Line.size, Text.size_append]
    omega

/-- Each declaration is a name, and its span holds the lines of its block. -/
theorem map_slice_among (role : Role) (depth : Nat) (front : Text) (ls : List Line)
    (behind : Text) :
    (among role depth (Text.size front) ls).map
        (fun d => (d.name, Text.slice (front ++ (Line.join ls ++ behind)) d.span)) =
      (blocks depth ls).map fun b => (b.1, Line.join b.2) := by
  induction ls generalizing front with
  | nil => rfl
  | cons l ls ih =>
    have htext : front ++ (Line.join (l :: ls) ++ behind) =
        (front ++ l.toText) ++ (Line.join ls ++ behind) := by
      rw [Line.join_cons]
      simp only [List.append_assoc]
    have hsize : Text.size front + l.size = Text.size (front ++ l.toText) := by
      rw [Text.size_append, Line.size]
    rw [among_cons, blocks_cons, List.map_append, List.map_append, hsize]
    congr 1
    · cases nameAt? depth l with
      | none => rfl
      | some name =>
        rw [← hsize]
        simp only [Option.map_some, Option.toList_some, List.map_cons, List.map_nil,
          (cuts_block front l ls depth behind).slice_eq]
    · rw [htext]
      exact ih (front ++ l.toText)

/-! ## Taking a block away -/

theorem eraseBlock_append_cons {depth : Nat} {name : Text} {above : List Line} {l : Line}
    (habove : ∀ m ∈ above, declaresAt depth name m = false)
    (hl : declaresAt depth name l = true) (ls : List Line) :
    eraseBlock depth name (above ++ l :: ls) = above ++ ls.drop (nested depth ls).length := by
  induction above with
  | nil => rw [List.nil_append, eraseBlock, if_pos hl, List.nil_append]
  | cons m above ih =>
    have hm : ¬ declaresAt depth name m = true := by rw [habove m (by simp)]; decide
    rw [List.cons_append, eraseBlock, if_neg hm,
      ih fun k hk => habove k (List.mem_cons_of_mem m hk), List.cons_append]

theorem sublist_eraseBlock (depth : Nat) (name : Text) (ls : List Line) :
    (eraseBlock depth name ls).Sublist ls := by
  induction ls with
  | nil => exact List.Sublist.refl []
  | cons l ls ih =>
    rw [eraseBlock]
    split
    · exact (List.drop_sublist _ ls).trans (List.sublist_cons_self l ls)
    · exact ih.cons_cons l

/-- A block is closed on both sides, so taking it away changes nothing that is nested in front of
it. -/
theorem nested_eraseBlock (depth : Nat) (name : Text) (ls : List Line) :
    nested depth (eraseBlock depth name ls) = nested depth ls := by
  induction ls with
  | nil => rfl
  | cons l ls ih =>
    rw [eraseBlock]
    split
    · next hl =>
      rw [Line.nested_of_closes (Line.closes_of_declaresAt hl ls),
        Line.nested_of_closes (Line.closes_drop_nested depth ls)]
    · -- In front of the block, both runs of nested lines grow or end alike.
      cases hb : below depth l with
      | false =>
        obtain ⟨hc, hd⟩ := Line.below_eq_false_iff.1 hb
        rw [Line.nested_of_closes (Line.closes_cons_of_isContent hc hd),
          Line.nested_of_closes (Line.closes_cons_of_isContent hc hd)]
      | true =>
        rw [Line.nested_cons_of_below hb, Line.nested_cons_of_below hb, ih]

/-- The blocks of what is left are the other blocks, line for line. -/
theorem blocks_eraseBlock (depth : Nat) (name : Text) (ls : List Line) :
    blocks depth (eraseBlock depth name ls) =
      (blocks depth ls).eraseP fun b => b.1 == name := by
  induction ls with
  | nil => rfl
  | cons l ls ih =>
    rw [eraseBlock]
    split
    · next hl =>
      -- Nothing is declared at the depth inside the block.
      have hblocks : blocks depth ls = blocks depth (ls.drop (nested depth ls).length) := by
        conv_lhs => rw [← Line.nested_append_drop depth ls]
        exact blocks_append_of_below (fun m hm => Line.below_of_mem_nested hm) _
      rw [blocks_cons, nameAt?_eq_some_iff.2 hl, ← hblocks]
      simp
    · next hl =>
      rw [blocks_cons, blocks_cons, nested_eraseBlock, ih]
      cases hname : nameAt? depth l with
      | none => rfl
      | some other =>
        have hne : other ≠ name := by
          rintro rfl
          exact hl (nameAt?_eq_some_iff.1 hname)
        simp [hne]

/-- Taking a block away does not move the line that ends the declarations. -/
theorem takeWhile_eraseBlock (depth : Nat) (name : Text) (ls : List Line) :
    (eraseBlock depth name ls).takeWhile (reaches depth) =
      eraseBlock depth name (ls.takeWhile (reaches depth)) := by
  induction ls with
  | nil => rfl
  | cons l ls ih =>
    by_cases hl : declaresAt depth name l = true
    · have hreach : reaches depth l = true := by
        simp only [declaresAt, Bool.and_eq_true, beq_iff_eq] at hl
        simp [reaches, hl.1.2]
      have hall : ∀ m ∈ nested depth ls, reaches depth m = true :=
        fun m hm => Line.reaches_of_below (Line.below_of_mem_nested hm)
      have htake : ls.takeWhile (reaches depth) =
          nested depth ls ++
            (ls.drop (nested depth ls).length).takeWhile (reaches depth) := by
        conv_lhs => rw [← Line.nested_append_drop depth ls]
        exact List.takeWhile_append_of_pos hall
      rw [List.takeWhile_cons_of_pos hreach, eraseBlock, if_pos hl, eraseBlock, if_pos hl,
        Line.nested_takeWhile_reaches, htake, List.drop_left]
    · rw [eraseBlock, if_neg hl, List.takeWhile_cons, List.takeWhile_cons]
      split
      · rw [ih, eraseBlock, if_neg hl]
      · rfl

end Declaration

namespace Region

open Line (reaches)

/-- Behind lines at the start of the body, the offset is the size of the text up to there. -/
theorem bodyStart_add_total (r : Region) (ls : List Line) :
    r.bodyStart + Line.total ls = Text.size (Line.join (r.before ++ r.header :: ls)) := by
  rw [bodyStart, start, ← Line.total_eq_size_join, Line.total_append, Line.total_cons,
    Nat.add_assoc]

/-- The names declared at a depth in a region, each with the lines of its block. -/
def blocks (r : Region) (depth : Nat) : List (Text × List Line) :=
  Declaration.blocks depth (r.body.takeWhile (reaches depth))

theorem declarations_eq (r : Region) (role : Role) (depth : Nat) :
    r.declarations role depth =
      Declaration.among role depth r.bodyStart (r.body.takeWhile (reaches depth)) := rfl

theorem map_name_declarations (r : Region) (role : Role) (depth : Nat) :
    (r.declarations role depth).map Declaration.name = (r.blocks depth).map Prod.fst := by
  rw [declarations_eq, Declaration.map_name_among, blocks, Declaration.map_fst_blocks]

theorem length_declarations (r : Region) (role : Role) (depth : Nat) :
    (r.declarations role depth).length = (r.blocks depth).length := by
  have hnames := congrArg List.length (r.map_name_declarations role depth)
  rwa [List.length_map, List.length_map] at hnames

/-- The declarations of a region are its blocks, read from the text. -/
theorem map_slice_declarations (r : Region) (role : Role) (depth : Nat) :
    (r.declarations role depth).map (fun d => (d.name, Text.slice r.text d.span)) =
      (r.blocks depth).map fun b => (b.1, Line.join b.2) := by
  have htext : r.text = Line.join (r.before ++ [r.header]) ++
      (Line.join (r.body.takeWhile (reaches depth)) ++
        Line.join (r.body.dropWhile (reaches depth) ++ r.after)) := by
    have hbody : r.body = r.body.takeWhile (reaches depth) ++ r.body.dropWhile (reaches depth) :=
      List.takeWhile_append_dropWhile.symm
    rw [text, lines]
    conv_lhs => rw [hbody]
    simp only [← Line.join_append, List.append_assoc, List.cons_append, List.nil_append]
  have hstart : r.bodyStart = Text.size (Line.join (r.before ++ [r.header])) :=
    r.bodyStart_add_total []
  rw [htext, declarations_eq, hstart]
  exact Declaration.map_slice_among role depth _ _ _

end Region
end ThemeRepair
