import Mathlib.Data.List.Forall2
import ThemeRepair.Proofs.Declaration.Block
import ThemeRepair.Proofs.Region.Coverage

/-!
# The declared names share out the lines

`Region.scanned` are the content lines of a region up to the first one that is indented less than a
depth.  Those of them that stand at the depth and declare a key are its `Declaration.heads`, and each
is the head of one declaration: `Region.declarations_partition` pairs the two lists, in the order of
the text.  The stretch of a declaration begins with its head, it ends where a content line ends, and
of the content lines of the text it holds the head and deeper ones only — all of those that were
scanned up to the next line at the depth, whether that line declares a name or not.
-/

namespace ThemeRepair

open Line (contentLines contentFrom contentIn nested below reaches)

namespace Declaration

variable {role : Role} {depth offset : Nat}

/-- The content lines at a depth that declare a key. -/
def heads (depth : Nat) (ps : List (Nat × Line)) : List (Nat × Line) :=
  ps.filter fun p => p.2.depth == depth && p.2.key?.isSome

/-- The declaration of a line, which is one of some lines from an offset on. -/
structure IsOf (role : Role) (depth offset : Nat) (ls above : List Line) (d : Declaration)
    (p : Nat × Line) (rest : List Line) : Prop where
  lines_eq : ls = above ++ p.2 :: rest
  offset_eq : p.1 = offset + Line.total above
  isContent : p.2.isContent = true
  depth_eq : p.2.depth = depth
  name_eq : p.2.key? = some d.name
  role_eq : d.role = role
  span_eq : d.span = ⟨p.1, p.1 + p.2.size + Line.total (nested depth rest)⟩

theorem IsOf.cons {ls above rest : List Line} {d : Declaration} {p : Nat × Line} {l : Line}
    (h : IsOf role depth (offset + l.size) ls above d p rest) :
    IsOf role depth offset (l :: ls) (l :: above) d p rest where
  lines_eq := by rw [h.lines_eq, List.cons_append]
  offset_eq := by rw [h.offset_eq, Line.total_cons, Nat.add_assoc]
  isContent := h.isContent
  depth_eq := h.depth_eq
  name_eq := h.name_eq
  role_eq := h.role_eq
  span_eq := h.span_eq

theorem heads_cons (depth offset : Nat) (l : Line) (ls : List Line) :
    heads depth (contentFrom offset (l :: ls)) =
      ((nameAt? depth l).map fun _ => (offset, l)).toList ++
        heads depth (contentFrom (offset + l.size) ls) := by
  rw [nameAt?]
  cases hc : l.isContent with
  | false =>
    rw [Line.contentFrom_cons_of_not_isContent hc]
    rfl
  | true =>
    rw [Line.contentFrom_cons_of_isContent hc, heads, List.filter_cons, Bool.true_and]
    cases l.depth == depth with
    | false => rfl
    | true => cases l.key? <;> rfl

/-- Each line at the depth that declares a key has one declaration, and there are no others. -/
theorem forall₂_among (role : Role) (depth offset : Nat) (ls : List Line) :
    List.Forall₂ (fun d p => ∃ above rest, IsOf role depth offset ls above d p rest)
      (among role depth offset ls) (heads depth (contentFrom offset ls)) := by
  induction ls generalizing offset with
  | nil => exact List.Forall₂.nil
  | cons l ls ih =>
    have hrest : List.Forall₂ (fun d p => ∃ above rest, IsOf role depth offset (l :: ls) above d p
        rest) (among role depth (offset + l.size) ls)
          (heads depth (contentFrom (offset + l.size) ls)) :=
      (ih (offset + l.size)).imp fun d p ⟨above, rest, hd⟩ => ⟨l :: above, rest, hd.cons⟩
    rw [among_cons, heads_cons]
    cases hname : nameAt? depth l with
    | none => exact hrest
    | some name =>
      have hl := nameAt?_eq_some_iff.1 hname
      simp only [Line.declaresAt, Bool.and_eq_true, beq_iff_eq] at hl
      obtain ⟨⟨hc, hdepth⟩, hkey⟩ := hl
      exact List.Forall₂.cons ⟨[], ls, rfl, rfl, hc, hdepth, hkey, rfl, rfl⟩ hrest

/-- The content lines are those above the line of a declaration, the line itself, those of its
block, and those behind the block. -/
theorem IsOf.contentFrom_eq {ls above rest : List Line} {d : Declaration} {p : Nat × Line}
    (h : IsOf role depth offset ls above d p rest) :
    contentFrom offset ls = contentFrom offset above ++ p ::
      (contentFrom (p.1 + p.2.size) (nested depth rest) ++
        contentFrom d.span.stop (rest.drop (nested depth rest).length)) := by
  have hrest : contentFrom (p.1 + p.2.size) rest =
      contentFrom (p.1 + p.2.size) (nested depth rest) ++
        contentFrom d.span.stop (rest.drop (nested depth rest).length) := by
    conv_lhs => rw [← Line.nested_append_drop depth rest]
    rw [Line.contentFrom_append, h.span_eq]
  rw [h.lines_eq, Line.contentFrom_append, Line.contentFrom_cons_of_isContent h.isContent,
    ← h.offset_eq, hrest]

/-- The last content line of a block ends where the block does. -/
theorem IsOf.exists_last {ls above rest : List Line} {d : Declaration} {p : Nat × Line}
    (h : IsOf role depth offset ls above d p rest) :
    ∃ q ∈ contentFrom offset ls, d.span.stop = q.1 + q.2.size := by
  have hend := Line.endFrom_contentFrom_nested depth (p.1 + p.2.size) rest
  rw [h.contentFrom_eq, h.span_eq, ← hend, Line.endFrom]
  cases hlast : (contentFrom (p.1 + p.2.size) (nested depth rest)).getLast? with
  | none => exact ⟨p, by simp, rfl⟩
  | some q => exact ⟨q, by simp [List.mem_of_getLast? hlast], rfl⟩

/-- A content line behind the line of a declaration stands in the block, or the first content line
behind the block, which is not deeper, does not stand behind it. -/
theorem IsOf.stop_le_or_exists {ls above rest : List Line} {d : Declaration} {p q : Nat × Line}
    (h : IsOf role depth offset ls above d p rest) (hq : q ∈ contentFrom offset ls)
    (hbehind : p.1 < q.1) :
    q.1 + q.2.size ≤ d.span.stop ∨
      ∃ m ∈ contentFrom offset ls, p.1 < m.1 ∧ m.1 ≤ q.1 ∧ m.2.depth ≤ depth := by
  rw [h.contentFrom_eq]
  rw [h.contentFrom_eq, List.mem_append, List.mem_cons, List.mem_append] at hq
  rcases hq with hq | rfl | hq | hq
  · have hbound := (Line.mem_contentFrom_bounds hq).2
    rw [← h.offset_eq] at hbound
    omega
  · exact absurd hbehind (Nat.lt_irrefl _)
  · rw [h.span_eq]
    exact Or.inl (Line.stop_le_of_mem_contentFrom hq).2
  · obtain ⟨m, more, hmore⟩ := List.exists_cons_of_ne_nil (List.ne_nil_of_mem hq)
    have hstop := (Line.mem_contentFrom_bounds (hmore ▸ List.mem_cons_self)).1
    have hpos := Line.size_pos_of_isContent h.isContent
    rw [h.span_eq] at hstop
    refine Or.inr ⟨m, by simp [hmore], ?_, Line.le_of_contentFrom_eq_cons hmore hq, ?_⟩
    · simp only at hstop
      omega
    · exact (Line.closes_drop_nested depth rest).depth_le hmore

/-! ## One block behind the other -/

/-- Lines below the depth declare nothing at it. -/
theorem among_append_of_below {ls : List Line} (h : ∀ l ∈ ls, below depth l = true)
    (ms : List Line) :
    among role depth offset (ls ++ ms) = among role depth (offset + Line.total ls) ms := by
  induction ls generalizing offset with
  | nil => rfl
  | cons l ls ih =>
    rw [List.cons_append, among_cons, nameAt?_eq_none_of_below (h l List.mem_cons_self),
      ih fun m hm => h m (List.mem_cons_of_mem l hm), Line.total_cons, ← Nat.add_assoc]
    rfl

theorem among_within {ls : List Line} {d : Declaration} (h : d ∈ among role depth offset ls) :
    d.span.Within ⟨offset, offset + Line.total ls⟩ := by
  induction ls generalizing offset with
  | nil => cases h
  | cons l ls ih =>
    rw [among_cons, List.mem_append, Option.mem_toList, Option.map_eq_some_iff] at h
    rw [Line.total_cons, ← Nat.add_assoc]
    rcases h with ⟨name, -, rfl⟩ | h
    · have hle := Line.total_le_of_isPrefix (Line.isPrefix_nested depth ls)
      exact ⟨Nat.le_refl _, Nat.add_le_add_left hle _⟩
    · exact ⟨Nat.le_trans (Nat.le_add_right _ _) (ih h).1, (ih h).2⟩

/-- Each block begins behind the end of the one before it. -/
theorem pairwise_among (role : Role) (depth offset : Nat) (ls : List Line) :
    (among role depth offset ls).Pairwise fun d e => d.span.stop ≤ e.span.start := by
  induction ls generalizing offset with
  | nil => exact List.Pairwise.nil
  | cons l ls ih =>
    rw [among_cons]
    cases nameAt? depth l with
    | none => exact ih (offset + l.size)
    | some name =>
      refine List.pairwise_cons.2 ⟨fun e he => ?_, ih (offset + l.size)⟩
      -- What is nested below the line declares nothing.
      rw [← Line.nested_append_drop depth ls,
        among_append_of_below fun m hm => Line.below_of_mem_nested hm] at he
      exact (among_within he).1

end Declaration

namespace Region

variable {t keyword : Text} {r : Region} {role : Role} {depth : Nat}

/-- The content lines of a region up to the first one that is indented less than a depth. -/
def scanned (t : Text) (r : Region) (depth : Nat) : List (Nat × Line) :=
  (contentIn t ⟨r.bodyStart, r.stop⟩).takeWhile fun p => depth ≤ p.2.depth

/-- A declaration of a text, seen from its line and the lines that were scanned at its depth. -/
structure DeclaredBy (t : Text) (role : Role) (depth : Nat) (scanned : List (Nat × Line))
    (d : Declaration) (p : Nat × Line) : Prop where
  name : p.2.key? = some d.name
  role : d.role = role
  starts : d.span.start = p.1
  ends : ∃ q ∈ scanned, d.span.stop = q.1 + q.2.size
  deeper : ∀ q ∈ contentIn t d.span, q ≠ p → depth < q.2.depth
  whole : ∀ q ∈ scanned, p.1 < q.1 →
    (∀ m ∈ scanned, p.1 < m.1 → m.1 ≤ q.1 → m.2.depth ≠ depth) → q.1 + q.2.size ≤ d.span.stop

theorem IsIn.scanned_eq (h : r.IsIn keyword (Line.ofText t)) (depth : Nat) :
    scanned t r depth = contentFrom r.bodyStart (r.body.takeWhile (reaches depth)) := by
  rw [scanned, h.contentIn_body]
  exact Line.takeWhile_contentFrom_eq (fun l => decide (depth ≤ l.depth)) _ _

/-- In the stretch of a declaration, the content lines of the text are its line and its block. -/
theorem IsIn.contentIn_block (h : r.IsIn keyword (Line.ofText t)) {above rest : List Line}
    {d : Declaration} {p : Nat × Line}
    (hd : Declaration.IsOf role depth r.bodyStart (r.body.takeWhile (reaches depth)) above d p
      rest) :
    contentIn t d.span = p :: contentFrom (p.1 + p.2.size) (nested depth rest) := by
  have hbody : r.body = above ++ p.2 :: (nested depth rest ++
      (rest.drop (nested depth rest).length ++ r.body.dropWhile (reaches depth))) := by
    rw [← List.append_assoc (nested depth rest), Line.nested_append_drop, ← List.cons_append,
      ← List.append_assoc, ← hd.lines_eq, List.takeWhile_append_dropWhile]
  have hlines : Line.ofText t = (r.before ++ r.header :: above) ++
      ((p.2 :: nested depth rest) ++ (rest.drop (nested depth rest).length ++
        (r.body.dropWhile (reaches depth) ++ r.after))) := by
    rw [← h.lines_eq, lines]
    conv_lhs => rw [hbody]
    simp only [List.append_assoc, List.cons_append]
  have hoffset : Line.total (r.before ++ r.header :: above) = p.1 := by
    rw [hd.offset_eq, bodyStart, start, Line.total_append, Line.total_cons, Nat.add_assoc]
  have hcontent := Line.contentIn_eq hlines
  rw [hoffset, Line.total_cons, ← Nat.add_assoc, ← hd.span_eq,
    Line.contentFrom_cons_of_isContent hd.isContent] at hcontent
  exact hcontent

theorem IsIn.declaredBy (h : r.IsIn keyword (Line.ofText t)) {above rest : List Line}
    {d : Declaration} {p : Nat × Line}
    (hd : Declaration.IsOf role depth r.bodyStart (r.body.takeWhile (reaches depth)) above d p
      rest) : DeclaredBy t role depth (scanned t r depth) d p := by
  have hstart : d.span.start = p.1 := by rw [hd.span_eq]
  rw [h.scanned_eq]
  refine ⟨hd.name_eq, hd.role_eq, hstart, hd.exists_last, ?_, ?_⟩
  · intro q hq hne
    rw [h.contentIn_block hd] at hq
    rcases List.mem_cons.1 hq with rfl | hq
    · exact absurd rfl hne
    · have hbelow := Line.below_of_mem_nested (Line.mem_of_mem_contentFrom hq)
      rwa [Line.below_of_isContent (Line.isContent_of_mem_contentFrom hq), decide_eq_true_eq]
        at hbelow
  · intro q hq hbehind hnone
    rcases hd.stop_le_or_exists hq hbehind with hle | ⟨m, hm, hpm, hmq, hdepth⟩
    · exact hle
    · -- What is scanned is not less indented, so the line behind the block stands at the depth.
      have hreach : depth ≤ m.2.depth := by
        rw [← h.scanned_eq] at hm
        simpa using List.mem_takeWhile_imp hm
      exact absurd (Nat.le_antisymm hdepth hreach) (hnone m hm hpm hmq)

/-- **The declarations of a region share out its lines.**  At every depth there is one for each
scanned line at the depth that declares a key, in the order of the text and with that key's name.
Their stretches stand in the body one behind the other; each begins with its line, ends where a
scanned line ends, holds no other content line that is not deeper, and holds every deeper scanned
line up to the next one at the depth. -/
theorem declarations_partition (h : Obtained t r) (role : Role) (depth : Nat) :
    List.Forall₂ (DeclaredBy t role depth (scanned t r depth)) (r.declarations role depth)
        (Declaration.heads depth (scanned t r depth)) ∧
      (r.declarations role depth).Pairwise (fun d e => d.span.stop ≤ e.span.start) ∧
      ∀ d ∈ r.declarations role depth, d.span.Within ⟨r.bodyStart, r.stop⟩ := by
  obtain ⟨keyword, hin⟩ := h.isIn
  rw [declarations_eq]
  refine ⟨?_, Declaration.pairwise_among role depth _ _, fun d hd => ?_⟩
  · rw [hin.scanned_eq]
    refine (Declaration.forall₂_among role depth _ _).imp fun d p ⟨above, rest, hd⟩ => ?_
    rw [← hin.scanned_eq]
    exact hin.declaredBy hd
  · obtain ⟨hstart, hstop⟩ := Declaration.among_within hd
    have hle := Line.total_le_of_isPrefix (List.takeWhile_prefix (reaches depth) (l := r.body))
    refine ⟨hstart, ?_⟩
    rw [stop]
    simp only at hstop ⊢
    omega

namespace MixedSlots

open SizedVariants (line)

/-- Slots with a declaration that is closed by an item, and one that is closed by a shallower
line. -/
def slots : Region :=
  ⟨[], line "slots:", "slots".toList, [line "    a:", line "      x: y", line "    # of both",
    line "    - item", line "      z: y", line "    b: y", line "  c: z", line "    d: z"],
    [line "name: x"]⟩

def declared : List Declaration :=
  [⟨"a".toList, .slot, ⟨7, 25⟩⟩, ⟨"b".toList, .slot, ⟨61, 70⟩⟩]

end MixedSlots

open MixedSlots SizedVariants in
/-- Neither the item nor what is nested below it belongs to a declaration, and nothing is declared
behind the shallower line. -/
theorem declarations_partition_mixedSlots :
    Obtained slots.text slots ∧ slots.declarations .slot 4 = declared ∧
      Declaration.heads 4 (scanned slots.text slots 4) =
        [(7, line "    a:"), (61, line "    b: y")] ∧
      List.Forall₂ (DeclaredBy slots.text .slot 4 (scanned slots.text slots 4)) declared
        [(7, line "    a:"), (61, line "    b: y")] := by
  have hslots : Obtained slots.text slots :=
    Obtained.findSection (by decide +kernel : findSection "slots".toList _ = _)
  have hdeclared : slots.declarations .slot 4 = declared := by decide +kernel
  have hheads : Declaration.heads 4 (scanned slots.text slots 4) =
      [(7, line "    a:"), (61, line "    b: y")] := by decide +kernel
  have hall := (declarations_partition hslots .slot 4).1
  rw [hdeclared, hheads] at hall
  exact ⟨hslots, hdeclared, hheads, hall⟩

end Region
end ThemeRepair
