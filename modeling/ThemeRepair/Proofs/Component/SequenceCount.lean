import ThemeRepair.Proofs.Component.Variants

/-!
# Counting sequence defaults

How many sequence defaults a scan reports is a count over content lines
(`Component.length_sequenceDefaults`): a walk that remembers the depth of the default it is inside,
if any, and looks one line ahead.  Blank and comment lines play no part in it, so the edits of the
properties become three facts about lists of content lines:

* a key line may give way to another of the same depth (`Component.sequenceCount_replace`);
* a key line below another one may be moved to its depth (`Component.sequenceCount_realign`);
* a block may go, which uncovers no sequence if the line above it opens no default around it
  (`Component.sequenceCount_drop_le`).
-/

namespace ThemeRepair
namespace Component

open Line (below nested trimmed)

/-! ## The walk over content lines -/

/-- The block of a default line holds a sequence, by the content line that follows it. -/
def startsItems (l : Line) (next : Option Line) : Bool :=
  holdsItems (l, (next.filter fun m => l.depth < m.depth).toList)

/-- The sequence defaults among content lines that stand in a default of a depth or in none. -/
def sequenceCount : (inside : Option Nat) → List Line → Nat
  | _, [] => 0
  | inside, l :: ls =>
    if inside.any (· < l.depth) then sequenceCount inside ls
    else if l.declares "default".toList then
      (if startsItems l ls.head? then 1 else 0) + sequenceCount (some l.depth) ls
    else sequenceCount none ls

variable {inside : Option Nat} {l : Line} {ls : List Line}

theorem sequenceCount_of_covered (h : inside.any (· < l.depth) = true) (ls : List Line) :
    sequenceCount inside (l :: ls) = sequenceCount inside ls := by
  rw [sequenceCount, if_pos h]

theorem sequenceCount_of_uncovered (h : inside.any (· < l.depth) = false) (ls : List Line) :
    sequenceCount inside (l :: ls) = sequenceCount none (l :: ls) := by
  rw [sequenceCount, sequenceCount, h]
  rfl

theorem sequenceCount_none_of_declares (h : l.declares "default".toList = true)
    (ls : List Line) : sequenceCount none (l :: ls) =
      (if startsItems l ls.head? then 1 else 0) + sequenceCount (some l.depth) ls := by
  rw [sequenceCount, Option.any_none, if_neg Bool.false_ne_true, if_pos h]

theorem sequenceCount_none_of_not_declares (h : l.declares "default".toList = false)
    (ls : List Line) : sequenceCount none (l :: ls) = sequenceCount none ls := by
  rw [sequenceCount, Option.any_none, if_neg Bool.false_ne_true, h, if_neg Bool.false_ne_true]

theorem covered_of_le {d e : Nat} (h : inside.any (· < d) = true) (hle : d ≤ e) :
    inside.any (· < e) = true := by
  cases inside with
  | none => cases h
  | some depth =>
    rw [Option.any_some, decide_eq_true_eq] at h ⊢
    omega

theorem uncovered_of_le {d e : Nat} (h : inside.any (· < e) = false) (hle : d ≤ e) :
    inside.any (· < d) = false := by
  rw [← Bool.not_eq_true] at h ⊢
  exact fun hd => h (covered_of_le hd hle)

/-! ## The walk counts the defaults -/

/-- The first content line that is nested is the next one, if that is deep enough. -/
theorem find?_nested (depth : Nat) (ls : List Line) :
    (nested depth ls).find? Line.isContent =
      (ls.find? Line.isContent).filter fun m => depth < m.depth := by
  rw [Line.nested_eq, Line.find?_trimmed]
  induction ls with
  | nil => rfl
  | cons l ls ih =>
    cases hc : l.isContent with
    | false =>
      rw [List.takeWhile_cons_of_pos (Line.below_of_not_isContent hc),
        List.find?_cons_of_neg (by simp [hc]), List.find?_cons_of_neg (by simp [hc]), ih]
    | true =>
      rw [List.find?_cons_of_pos hc, List.takeWhile_cons, Line.below_of_isContent hc]
      by_cases hd : depth < l.depth
      · simp [Option.filter_some, hc, hd]
      · simp [Option.filter_some, hd]

theorem holdsItems_nested (l : Line) (ls : List Line) :
    holdsItems (l, nested l.depth ls) = startsItems l (ls.find? Line.isContent) := by
  have hfirst : (⟨[], l, "default".toList, nested l.depth ls, []⟩ : Region).firstContent? =
      (⟨[], l, "default".toList,
        ((ls.find? Line.isContent).filter fun m => l.depth < m.depth).toList, []⟩
          : Region).firstContent? := by
    rw [Region.firstContent?, Region.firstContent?, find?_nested]
    cases hfind : ls.find? Line.isContent with
    | none => rfl
    | some m =>
      have hc := List.find?_some hfind
      by_cases hd : l.depth < m.depth
      · simp [Option.filter_some, hd, hc]
      · simp [Option.filter_some, hd]
  rw [startsItems, holdsItems, holdsItems, holdsSequence, holdsSequence, hfirst]
  rfl

/-- Of the blocks that a walk finds, the sequences are counted; inside a default of a depth the walk
passes over the lines nested below it. -/
theorem length_filter_outermost (ls : List Line) :
    ((Region.outermost "default".toList 0 ls).filter holdsItems).length =
        sequenceCount none (ls.filter Line.isContent) ∧
      ∀ depth, ((Region.outermost "default".toList (nested depth ls).length ls).filter
        holdsItems).length = sequenceCount (some depth) (ls.filter Line.isContent) := by
  induction ls with
  | nil => exact ⟨rfl, fun _ => rfl⟩
  | cons l ls ih =>
    obtain ⟨ihnone, ihsome⟩ := ih
    have hzero : ((Region.outermost "default".toList 0 (l :: ls)).filter holdsItems).length =
        sequenceCount none ((l :: ls).filter Line.isContent) := by
      cases hdeclares : l.declares "default".toList with
      | true =>
        have hc := Line.isContent_of_declares hdeclares
        rw [Region.outermost, if_pos hdeclares, List.filter_cons_of_pos hc,
          sequenceCount_none_of_declares hdeclares, ← ihsome, List.filter_cons, holdsItems_nested,
          Line.find?_isContent_eq_head?]
        split
        · rw [List.length_cons, Nat.add_comm]
        · rw [Nat.zero_add]
      | false =>
        rw [Region.outermost, hdeclares, if_neg Bool.false_ne_true, ihnone, List.filter_cons]
        split
        · rw [sequenceCount_none_of_not_declares hdeclares]
        · rfl
    refine ⟨hzero, fun depth => ?_⟩
    cases hbelow : below depth l with
    | false =>
      -- The line ends the default, and both go on as if there had been none.
      obtain ⟨hc, hd⟩ := Line.below_eq_false_iff.1 hbelow
      have huncovered : (some depth).any (· < l.depth) = false := by
        rw [Option.any_some, decide_eq_false_iff_not]
        omega
      rw [Line.nested_of_closes (Line.closes_cons_of_isContent hc hd), List.length_nil, hzero,
        List.filter_cons_of_pos hc, sequenceCount_of_uncovered huncovered]
    | true =>
      -- The line is passed over, or blank in front of a line that is not nested.
      have hpassed : sequenceCount (some depth) ((l :: ls).filter Line.isContent) =
          sequenceCount (some depth) (ls.filter Line.isContent) := by
        cases hc : l.isContent with
        | false => rw [List.filter_cons_of_neg (by simp [hc])]
        | true =>
          rw [Line.below_of_isContent hc] at hbelow
          have hcovered : (some depth).any (· < l.depth) = true := hbelow
          rw [List.filter_cons_of_pos hc, sequenceCount_of_covered hcovered]
      rw [hpassed, ← ihsome, Line.nested_cons_of_below hbelow]
      cases hnested : nested depth ls with
      | nil =>
        cases hc : l.isContent with
        | true => rfl
        | false =>
          have hdeclares : l.declares "default".toList = false := by
            rw [Line.declares, hc, Bool.false_and]
          rw [if_neg Bool.false_ne_true, List.length_nil, Region.outermost, hdeclares,
            if_neg Bool.false_ne_true]
      | cons m ms => rfl

theorem length_sequenceDefaults (v : Region) :
    (sequenceDefaults v).length =
      if v.isBlock then sequenceCount none (v.body.filter Line.isContent) else 0 := by
  unfold sequenceDefaults
  split
  · exact (length_filter_outermost v.body).1
  · rfl

/-! ## Edits -/

/-- A key is no item of a sequence. -/
theorem isSequenceItem_of_key {key : Text} (h : l.declares key = true) :
    isSequenceItem (Text.trimEnd l.body) = false := by
  have hkey : Line.keyOf? l.body = some key := by
    rw [Line.declares, Bool.and_eq_true, beq_iff_eq] at h
    exact h.2
  obtain ⟨hkey, rest, hbody, -⟩ := Line.keyOf?_eq_some_iff.1 hkey
  obtain ⟨c, t, rfl, hc⟩ := hkey.start
  have hne : c ≠ '-' := by
    rintro rfl
    exact absurd hc (by decide)
  obtain ⟨blanks, hsplit, -⟩ := Text.exists_eq_dropEndWhile_append Text.isWhite l.body
  have htrim : l.body = Text.trimEnd l.body ++ blanks := hsplit
  cases ht : Text.trimEnd l.body with
  | nil => rfl
  | cons d s =>
    rw [ht, hbody] at htrim
    have hd : c = d := (List.cons.inj htrim).1
    rw [← hd]
    rcases s with - | ⟨e, s⟩ <;> simp [isSequenceItem, hne]

theorem startsItems_of_key {next : Line} {key : Text} (h : next.declares key = true) :
    startsItems l (some next) = startsItems l none := by
  have hitem := isSequenceItem_of_key h
  have hc := Line.isContent_of_declares h
  rw [startsItems, startsItems, holdsItems, holdsItems, holdsSequence, holdsSequence]
  by_cases hd : l.depth < next.depth
  · simp only [Option.filter_some, decide_eq_true hd, if_pos, Option.toList_some,
      Region.firstContent?, List.find?_cons_of_pos hc, hitem, Option.filter_none,
      Option.toList_none, List.find?_nil]
    rfl
  · simp only [Option.filter_some, decide_eq_false hd, Bool.false_eq_true, if_false,
      Option.filter_none]

/-- A next line that is not deeper is as none. -/
theorem startsItems_of_le {next : Option Line} (h : ∀ m ∈ next, m.depth ≤ l.depth) :
    startsItems l next = startsItems l none := by
  have hnone : next.filter (fun m => decide (l.depth < m.depth)) = none := by
    cases next with
    | none => rfl
    | some m =>
      have hle := h m rfl
      rw [Option.filter_some, decide_eq_false (by omega)]
      rfl
  rw [startsItems, hnone]
  rfl

/-- Two continuations that count alike, whatever default they stand in, count alike behind the same
lines, if they also look alike to the line in front of them. -/
theorem sequenceCount_append_congr {rest rest' : List Line}
    (hcount : ∀ inside, sequenceCount inside rest = sequenceCount inside rest')
    (hnext : ∀ l, startsItems l rest.head? = startsItems l rest'.head?) (front : List Line) :
    ∀ inside, sequenceCount inside (front ++ rest) = sequenceCount inside (front ++ rest') := by
  induction front with
  | nil => exact hcount
  | cons l front ih =>
    intro inside
    have hhead : startsItems l (front ++ rest).head? = startsItems l (front ++ rest').head? := by
      cases front with
      | nil => exact hnext l
      | cons m front => rfl
    rw [List.cons_append, List.cons_append, sequenceCount, sequenceCount, ih, ih, ih, hhead]

/-- A key line gives way to another one of the same depth. -/
theorem sequenceCount_replace {header header' : Line} {key : Text}
    (hheader : header.declares key = true) (hheader' : header'.declares key = true)
    (hkey : key ≠ "default".toList) (hdepth : header'.depth = header.depth)
    (front rest : List Line) (inside : Option Nat) :
    sequenceCount inside (front ++ header' :: rest) =
      sequenceCount inside (front ++ header :: rest) := by
  refine sequenceCount_append_congr (fun inside => ?_) (fun l => ?_) front inside
  · rw [sequenceCount, sequenceCount, hdepth, Line.declares_eq_false hheader hkey,
      Line.declares_eq_false hheader' hkey]
    rfl
  · rw [List.head?_cons, List.head?_cons, startsItems_of_key hheader, startsItems_of_key hheader']

/-- A key line below a key line is moved to the depth of that one. -/
theorem sequenceCount_realign {header header' line line' : Line} {key : Text}
    (hheader : header.declares key = true) (hheader' : header'.declares key = true)
    (hkey : key ≠ "default".toList) (hdepth : header'.depth = header.depth)
    (hline : line.declares "default".toList = false)
    (hline' : line'.declares "default".toList = false) (hdeeper : header.depth < line.depth)
    (hdepth' : line'.depth = header.depth) (front rest : List Line) (inside : Option Nat) :
    sequenceCount inside (front ++ header' :: line' :: rest) =
      sequenceCount inside (front ++ header :: line :: rest) := by
  refine sequenceCount_append_congr (fun inside => ?_) (fun l => ?_) front inside
  · -- In a default around the header both lines are passed over; else neither of them counts.
    by_cases hcovered : inside.any (· < header.depth) = true
    · rw [sequenceCount_of_covered hcovered,
        sequenceCount_of_covered (covered_of_le hcovered (Nat.le_of_lt hdeeper)),
        sequenceCount_of_covered (by rw [hdepth]; exact hcovered),
        sequenceCount_of_covered (by rw [hdepth']; exact hcovered)]
    · rw [Bool.not_eq_true] at hcovered
      rw [sequenceCount_of_uncovered hcovered,
        sequenceCount_of_uncovered (by rw [hdepth]; exact hcovered),
        sequenceCount_none_of_not_declares (Line.declares_eq_false hheader hkey),
        sequenceCount_none_of_not_declares (Line.declares_eq_false hheader' hkey),
        sequenceCount_none_of_not_declares hline, sequenceCount_none_of_not_declares hline']
  · rw [List.head?_cons, List.head?_cons, startsItems_of_key hheader, startsItems_of_key hheader']

/-- Lines that close a depth are not inside a default of that depth. -/
theorem sequenceCount_of_closes {depth : Nat} (hinside : inside.any (· < depth) = false)
    (hls : ∀ l ∈ ls.head?, l.depth ≤ depth) : sequenceCount inside ls = sequenceCount none ls := by
  cases ls with
  | nil => rfl
  | cons l ls => exact sequenceCount_of_uncovered (uncovered_of_le hinside (hls l rfl)) ls

/-- Behind lines that reach a depth, lines that close it are counted as if in no default. -/
theorem sequenceCount_none_le {depth : Nat} {block rest : List Line}
    (hinside : inside.any (· < depth) = false) (hblock : ∀ l ∈ block, depth ≤ l.depth)
    (hrest : ∀ l ∈ rest.head?, l.depth ≤ depth) :
    sequenceCount none rest ≤ sequenceCount inside (block ++ rest) := by
  induction block generalizing inside with
  | nil => exact Nat.le_of_eq (sequenceCount_of_closes hinside hrest).symm
  | cons l block ih =>
    have hblock' : ∀ m ∈ block, depth ≤ m.depth := fun m hm => hblock m (List.mem_cons_of_mem l hm)
    have hl : (some l.depth).any (· < depth) = false := by
      rw [Option.any_some, decide_eq_false_iff_not, Nat.not_lt]
      exact hblock l (by simp)
    rw [List.cons_append, sequenceCount]
    -- A default that opens in the block is as deep as the block at least, and so ends with it.
    split
    · exact ih hinside hblock'
    · split
      · exact Nat.le_trans (ih hl hblock') (Nat.le_add_left _ _)
      · exact ih rfl hblock'

/-- Inside a default, lines that are deeper are passed over. -/
theorem sequenceCount_append_of_covered {depth : Nat} {block : List Line}
    (hinside : inside.any (· < depth) = true) (hblock : ∀ l ∈ block, depth ≤ l.depth)
    (rest : List Line) : sequenceCount inside (block ++ rest) = sequenceCount inside rest := by
  induction block with
  | nil => rfl
  | cons l block ih =>
    rw [List.cons_append, sequenceCount_of_covered (covered_of_le hinside (hblock l (by simp))),
      ih fun m hm => hblock m (List.mem_cons_of_mem l hm)]

/-- **A block that goes uncovers no sequence.**  The lines behind it close its depth, and the line
above it opens no default that the block is in. -/
theorem sequenceCount_drop_le {depth : Nat} {front block rest : List Line} {first : Line}
    (hfirst : block.head? = some first) (hdepth : first.depth = depth)
    (hblock : ∀ l ∈ block, depth ≤ l.depth) (hrest : ∀ l ∈ rest.head?, l.depth ≤ depth)
    (hlast : ∀ l ∈ front.getLast?, l.declares "default".toList = true → depth ≤ l.depth)
    (inside : Option Nat) :
    sequenceCount inside (front ++ rest) ≤ sequenceCount inside (front ++ (block ++ rest)) := by
  induction front generalizing inside with
  | nil =>
    -- Inside a default around the block both walks pass over it; else both begin anew behind it.
    rw [List.nil_append, List.nil_append]
    by_cases hcovered : inside.any (· < depth) = true
    · rw [sequenceCount_append_of_covered hcovered hblock]
    · rw [Bool.not_eq_true] at hcovered
      rw [sequenceCount_of_closes hcovered hrest]
      exact sequenceCount_none_le hcovered hblock hrest
  | cons l front ih =>
    have hlast' : ∀ m ∈ front.getLast?, m.declares "default".toList = true → depth ≤ m.depth := by
      intro m hm
      apply hlast m
      cases front with
      | nil => cases hm
      | cons k front => rwa [List.getLast?_cons_cons]
    rw [List.cons_append, List.cons_append, sequenceCount, sequenceCount]
    split
    · exact ih hlast' inside
    · split
      · next hdeclares =>
        have hhead : startsItems l (front ++ rest).head? =
            startsItems l (front ++ (block ++ rest)).head? := by
          cases front with
          | cons k front => rfl
          | nil =>
            -- The default is the last line above the block, and the block is not below it.
            have hle := hlast l rfl hdeclares
            have hblockhead : (block ++ rest).head? = some first := by
              rw [List.head?_append, hfirst, Option.some_or]
            have hfirstle : ∀ m ∈ some first, m.depth ≤ l.depth := fun m hm => by
              cases hm
              rw [hdepth]
              exact hle
            rw [List.nil_append, List.nil_append, hblockhead, startsItems_of_le hfirstle,
              startsItems_of_le fun m hm => Nat.le_trans (hrest m hm) hle]
        rw [hhead]
        exact Nat.add_le_add_left (ih hlast' _) _
      · exact ih hlast' none

end Component
end ThemeRepair
