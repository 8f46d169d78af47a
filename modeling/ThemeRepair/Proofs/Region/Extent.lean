import ThemeRepair.Proofs.Line.Placement
import ThemeRepair.Proofs.Region.Apart

/-!
# A search for a region gives the first block

Seen from the text, a region is a block: a content line that opens it, and the run of deeper content
lines behind that one (`Line.FirstBlock`).  A region of the lines of a text stands where such a
block stands (`Region.IsIn.isBlockAt`), and its offsets lie in order between its header and its end.

So a search through a text gives the first block there is, unless spaces and tabs both indent it
(`Region.search_gives_first_block`).
-/

namespace ThemeRepair

/-- Spaces and tabs both occur in an indentation. -/
def Text.Mixed (indentation : Text) : Prop := ' ' ∈ indentation ∧ '\t' ∈ indentation

instance : DecidablePred Text.Mixed := fun _ => inferInstanceAs (Decidable (_ ∧ _))

namespace Line

variable {t : Text} {opens : Line → Prop} {start : Nat} {header : Line}
  {block : List (Nat × Line)}

/-! ## The first block of a text -/

/-- The first content line of a text that opens a block, with its offset, and the run of deeper
content lines behind it. -/
structure FirstBlock (t : Text) (opens : Line → Prop) (start : Nat) (header : Line)
    (block : List (Nat × Line)) : Prop where
  opens_header : opens header
  cut : ∃ passed rest, contentLines t = passed ++ (start, header) :: rest ∧
    (∀ p ∈ passed, ¬ opens p.2) ∧ block = rest.takeWhile fun p => header.depth < p.2.depth

/-- All that indents a block, its header included. -/
def blockIndentation (header : Line) (block : List (Nat × Line)) : Text :=
  header.indentation ++ block.flatMap fun p => p.2.indentation

/-- Where a content line opens a block, there is a first one. -/
theorem exists_firstBlock (h : ∃ p ∈ contentLines t, opens p.2) :
    ∃ start header block, FirstBlock t opens start header block := by
  classical
  obtain ⟨p, hp, hopens⟩ := h
  cases hfind : (contentLines t).find? fun p => decide (opens p.2) with
  | none =>
    have hnot := List.find?_eq_none.1 hfind p hp
    rw [decide_eq_true_eq] at hnot
    exact absurd hopens hnot
  | some first =>
    obtain ⟨hfirst, passed, rest, hcut, hpassed⟩ := List.find?_eq_some_iff_append.1 hfind
    refine ⟨first.1, first.2, _, of_decide_eq_true hfirst, passed, rest, hcut, ?_, rfl⟩
    intro q hq
    simpa using hpassed q hq

/-- The first block, among all lines. -/
theorem FirstBlock.exists_lines (h : FirstBlock t opens start header block) :
    ∃ before after, ofText t = before ++ header :: after ∧ start = total before ∧
      header.isContent = true ∧ (∀ l ∈ before, l.isContent = true → ¬ opens l) ∧
      block = contentFrom (start + header.size) (nested header.depth after) := by
  obtain ⟨passed, rest, hcut, hpassed, hblock⟩ := h.cut
  rw [contentLines_eq] at hcut
  obtain ⟨before, after, hls, hheader, hstart, hfront, hrest⟩ :=
    exists_of_contentFrom_eq_append hcut
  refine ⟨before, after, hls, by rw [hstart, Nat.zero_add], hheader, ?_, ?_⟩
  · intro l hl hc
    obtain ⟨p, hp, rfl⟩ := exists_mem_contentFrom 0 hl hc
    rw [← hfront] at hp
    exact hpassed p hp
  · rw [hblock, hrest, takeWhile_contentFrom]

theorem mixesIndentation_iff (hheader : header.isContent = true) (n depth : Nat)
    (ls : List Line) : mixesIndentation (header :: nested depth ls) = true ↔
      Text.Mixed (blockIndentation header (contentFrom n (nested depth ls))) := by
  rw [mixesIndentation_eq, marks_cons_of_isContent hheader, marks_eq_contentFrom n,
    Bool.and_eq_true, List.contains_iff_mem, List.contains_iff_mem]
  rfl

end Line

namespace Region

open Line (nested contentFrom contentLines endFrom FirstBlock blockIndentation)

variable {r : Region} {t keyword : Text} {start : Nat} {header : Line}
  {block : List (Nat × Line)} {opens : Line → Prop} {admits : Line → Bool}

/-! ## Where a region stands -/

/-- The offsets that a region names. -/
def offsets (r : Region) : List Nat :=
  [r.start, r.valueSpan.start, r.inlineSpan.start, r.inlineSpan.stop, r.valueSpan.stop,
    r.bodyStart, r.stop]

/-- The region is the block of a header that starts at an offset of the text. -/
structure IsBlockAt (r : Region) (t keyword : Text) (start : Nat) (header : Line)
    (block : List (Nat × Line)) : Prop where
  keyword_eq : r.keyword = keyword
  header_eq : r.header = header
  depth_eq : r.depth = header.depth
  lineNumber_eq : r.lineNumber = Text.lineNumber t start
  start_eq : r.start = start
  bodyStart_eq : r.bodyStart = start + header.size
  stop_eq : r.stop = endFrom r.bodyStart block
  raw : Text.slice? t ⟨r.bodyStart, r.stop⟩ = some r.raw
  value : Text.slice? t r.valueSpan = some r.value
  inline : Text.slice? t r.inlineSpan = some r.inline
  inline_eq : r.inline = Text.trim r.value
  ordered : (r.offsets ++ [Text.size t]).Pairwise (· ≤ ·)
  places : ∀ n ∈ r.offsets, (Text.splitAt? t n).isSome = true

section IsIn

variable (h : r.IsIn keyword (Line.ofText t))
include h

theorem IsIn.text_eq : r.text = t := by
  rw [text, h.lines_eq, Line.join_ofText]

theorem IsIn.stop_le_size : r.stop ≤ Text.size t := by
  rw [← h.text_eq, size_text]
  exact Nat.le_add_right _ _

/-- The offsets of a region lie in order. -/
theorem IsIn.ordered : (r.offsets ++ [Text.size t]).Pairwise (· ≤ ·) := by
  obtain ⟨hstart, hvalue⟩ := valueSpan_within_header h.hasKey
  obtain ⟨hinline, hinlineStop⟩ := inlineSpan_within h.hasKey
  have hle : r.inlineSpan.start ≤ r.inlineSpan.stop := Nat.le_add_right _ _
  have hbody : r.bodyStart ≤ r.stop := Nat.le_add_right _ _
  have hstop := h.stop_le_size
  rw [← List.isChain_iff_pairwise]
  simp only [offsets, List.cons_append, List.nil_append, List.isChain_cons_cons]
  exact ⟨hstart, hinline, hle, hinlineStop, hvalue, hbody, hstop, List.IsChain.singleton _⟩

/-- The offsets of a region are places of the text: no character stands across one. -/
theorem IsIn.places : ∀ n ∈ r.offsets, (Text.splitAt? t n).isSome = true := by
  have hlines : Line.ofText t = r.before ++ r.header :: (r.body ++ r.after) := h.lines_eq.symm
  have hstart := Line.splitAt?_total hlines
  have hbody : Text.splitAt? t r.bodyStart =
      some (Line.join (r.before ++ [r.header]), Line.join (r.body ++ r.after)) := by
    rw [← Line.splitAt?_total (by rw [hlines]; simp)]
    simp [bodyStart, start]
  have hstop : Text.splitAt? t r.stop =
      some (Line.join (r.before ++ r.header :: r.body), Line.join r.after) := by
    rw [← Line.splitAt?_total (by rw [hlines]; simp)]
    simp [stop, bodyStart, start, Nat.add_assoc]
  have hvalue := cuts_valueSpan h.hasKey
  have hinline := cuts_inlineSpan h.hasKey
  rw [h.text_eq] at hvalue hinline
  intro n hn
  simp only [offsets, List.mem_cons, List.not_mem_nil, or_false] at hn
  rcases hn with rfl | rfl | rfl | rfl | rfl | rfl | rfl
  · rw [start, hstart]
    rfl
  · rw [hvalue.splitAt?_start]
    rfl
  · rw [hinline.splitAt?_start]
    rfl
  · rw [hinline.splitAt?_stop]
    rfl
  · rw [hvalue.splitAt?_stop]
    rfl
  · rw [hbody]
    rfl
  · rw [hstop]
    rfl

/-- The body cuts the text. -/
theorem IsIn.cuts_body : Span.Cuts ⟨r.bodyStart, r.stop⟩ t (Line.join (r.before ++ [r.header]))
    r.raw (Line.join r.after) := by
  have hstart : r.bodyStart = Text.size (Line.join (r.before ++ [r.header])) := by
    rw [← Line.total_eq_size_join]
    simp [bodyStart, start]
  refine ⟨?_, hstart, ?_⟩
  · rw [← h.text_eq, text, lines, raw, ← Line.join_append, ← Line.join_append]
    simp
  · rw [← hstart, raw, ← Line.total_eq_size_join]
    rfl

/-- A region of the lines of a text is a block of the text. -/
theorem IsIn.isBlockAt :
    r.IsBlockAt t keyword r.start r.header (contentFrom r.bodyStart r.body) where
  keyword_eq := h.keyword_eq
  header_eq := rfl
  depth_eq := rfl
  lineNumber_eq := (Line.lineNumber_total h.lines_eq.symm).symm
  start_eq := rfl
  bodyStart_eq := rfl
  stop_eq := by
    rw [h.body_eq, Line.endFrom_contentFrom_nested, ← h.body_eq]
    rfl
  raw := h.cuts_body.slice?_eq
  value := by
    have hcuts := cuts_valueSpan h.hasKey
    rw [h.text_eq] at hcuts
    exact hcuts.slice?_eq
  inline := by
    have hcuts := cuts_inlineSpan h.hasKey
    rw [h.text_eq] at hcuts
    exact hcuts.slice?_eq
  inline_eq := rfl
  ordered := h.ordered
  places := h.places

end IsIn

/-! ## What a search gives -/

/-- The search gives the first block of the text that a content line opens: none if there is none, a
refusal with the line of its header if its indentation is mixed, and else the region it is. -/
structure GivesFirstBlock (t keyword : Text) (opens : Line → Prop)
    (found : Except RegionError (Option Region)) : Prop where
  none_iff : found = .ok none ↔ ∀ p ∈ contentLines t, ¬ opens p.2
  refused_iff : ∀ start header block, FirstBlock t opens start header block →
    (found = .error (.ambiguous keyword (Text.lineNumber t start)) ↔
      Text.Mixed (blockIndentation header block))
  region : ∀ start header block, FirstBlock t opens start header block →
    ¬ Text.Mixed (blockIndentation header block) →
      ∃ r, found = .ok (some r) ∧ r.IsBlockAt t keyword start header block

/-- What is found where there is a first block. -/
theorem locate_of_firstBlock (hopens : ∀ l, opens l ↔ l.key? = some keyword ∧ admits l = true)
    (h : FirstBlock t opens start header block) :
    (Text.Mixed (blockIndentation header block) ∧ locate keyword admits [] (Line.ofText t) [] =
      .error (.ambiguous keyword (Text.lineNumber t start))) ∨
    (¬ Text.Mixed (blockIndentation header block) ∧ ∃ r,
      locate keyword admits [] (Line.ofText t) [] = .ok (some r) ∧
        r.IsBlockAt t keyword start header block) := by
  obtain ⟨before, after, hlines, rfl, hcontent, hbefore, rfl⟩ := h.exists_lines
  have hdeclares : ∀ l : Line, (l.declares keyword && admits l) = true ↔
      l.isContent = true ∧ opens l := fun l => by
    rw [Bool.and_eq_true, Line.declares_iff, and_assoc, ← hopens]
  have hpassed : ∀ l ∈ before, (l.declares keyword && admits l) = false := by
    intro l hl
    rw [← Bool.not_eq_true, hdeclares]
    exact fun hl' => hbefore l hl hl'.1 hl'.2
  have hheader := (hdeclares header).2 ⟨hcontent, h.opens_header⟩
  have hlocate : locate keyword admits [] (before ++ header :: after) [] =
      (capture keyword ([] ++ before) header after []).map some :=
    locate_append_cons hpassed hheader []
  rw [← hlines, List.nil_append] at hlocate
  have hmix := Line.mixesIndentation_iff hcontent (Line.total before + header.size) header.depth
    after
  rw [hlocate, ← hmix]
  cases hmixes : Line.mixesIndentation (header :: nested header.depth after) with
  | true =>
    left
    rw [capture_of_mixed hmixes, Line.lineNumber_total hlines]
    exact ⟨rfl, rfl⟩
  | false =>
    right
    have hcapture : capture keyword before header after [] = .ok _ := capture_of_unmixed hmixes
    have hlines' : Line.ofText t = before ++ header :: (after ++ []) := by
      rw [List.append_nil, hlines]
    have hin := isIn_of_capture hcapture (Bool.and_eq_true_iff.1 hheader).1 (Line.closes_nil _)
    rw [← hlines'] at hin
    rw [hcapture]
    exact ⟨Bool.false_ne_true, _, rfl, hin.isBlockAt⟩

theorem givesFirstBlock_locate
    (hopens : ∀ l, opens l ↔ l.key? = some keyword ∧ admits l = true) :
    GivesFirstBlock t keyword opens (locate keyword admits [] (Line.ofText t) []) where
  none_iff := by
    constructor
    · intro hnone p hp hopen
      obtain ⟨start, header, block, hfirst⟩ := Line.exists_firstBlock ⟨p, hp, hopen⟩
      rcases locate_of_firstBlock hopens hfirst with ⟨-, hfound⟩ | ⟨-, r, hfound, -⟩
      · rw [hnone] at hfound
        cases hfound
      · rw [hnone] at hfound
        cases hfound
    · intro hnone
      apply locate_eq_none
      intro l hl
      rw [← Bool.not_eq_true, Bool.and_eq_true, Line.declares_iff, and_assoc, ← hopens]
      rintro ⟨hc, hopen⟩
      obtain ⟨p, hp, rfl⟩ := Line.exists_mem_contentFrom 0 hl hc
      rw [← Line.contentLines_eq] at hp
      exact hnone p hp hopen
  refused_iff := by
    intro start header block hfirst
    rcases locate_of_firstBlock hopens hfirst with ⟨hmixed, hfound⟩ | ⟨hmixed, r, hfound, -⟩
    · exact ⟨fun _ => hmixed, fun _ => hfound⟩
    · constructor
      · intro hrefused
        rw [hfound] at hrefused
        cases hrefused
      · exact fun h => absurd h hmixed
  region := by
    intro start header block hfirst hmixed
    exact ((locate_of_firstBlock hopens hfirst).resolve_left fun h => hmixed h.1).2

/-- **A search through a text gives the first block of the key**, at any depth or among the lines
that are not indented. -/
theorem search_gives_first_block (t keyword : Text) :
    GivesFirstBlock t keyword (fun l => l.key? = some keyword) (find keyword (Line.ofText t)) ∧
      GivesFirstBlock t keyword (fun l => l.key? = some keyword ∧ l.depth = 0)
        (findSection keyword (Line.ofText t)) :=
  ⟨givesFirstBlock_locate fun l => (and_iff_left rfl).symm,
    givesFirstBlock_locate fun l => by rw [beq_iff_eq]⟩

/-- Slots with a comment behind their value and lines of every kind below, in text of more than one
byte a character. -/
def commentedSlots : Text :=
  "# Größe\nslots:  {} # none yet\r\n\n  title: ü\n  # more\n\nprops:\n".toList

/-- The block of the slots ends behind the title. -/
theorem search_gives_first_block_commentedSlots :
    ∃ header title : Line,
      FirstBlock commentedSlots (fun l => l.key? = some "slots".toList) 10 header [(34, title)] ∧
      ∃ r, find "slots".toList (Line.ofText commentedSlots) = .ok (some r) ∧
        r.IsBlockAt commentedSlots "slots".toList 10 header [(34, title)] ∧ r.stop = 46 := by
  refine ⟨⟨"slots:  {} # none yet".toList, "\r\n".toList⟩, ⟨"  title: ü".toList, "\n".toList⟩, ?_⟩
  have hfirst : FirstBlock commentedSlots (fun l => l.key? = some "slots".toList) 10
      ⟨"slots:  {} # none yet".toList, "\r\n".toList⟩
      [(34, ⟨"  title: ü".toList, "\n".toList⟩)] := by
    refine ⟨by decide, [], [(34, ⟨"  title: ü".toList, "\n".toList⟩),
      (56, ⟨"props:".toList, "\n".toList⟩)], ?_, nofun, ?_⟩
    · decide +kernel
    · decide +kernel
  obtain ⟨r, hfound, hblock⟩ :=
    (search_gives_first_block commentedSlots "slots".toList).1.region 10 _ _ hfirst
      (by decide +kernel)
  refine ⟨hfirst, r, hfound, hblock, ?_⟩
  rw [hblock.stop_eq, hblock.bodyStart_eq]
  decide +kernel

end Region
end ThemeRepair
