import ThemeRepair.Proofs.Region.Location

/-!
# Regions without their places

`Line.opened` is the first line that opens a block, with the lines nested below it and nothing about
where they stand.  Each search for a region is that, once refused blocks are set apart
(`Region.opened_of_locate`, `Region.exists_of_opened`, `Region.exists_error_iff`).

It is what edits of a text are followed with.  A line that is not indented separates what stands on
its two sides (`Line.opened_append_top`), and indented lines lie in one section or in none
(`Line.opened_insert`).  The converse of `Region.isIn_of_find` and of its two siblings, at the end,
turns a region of a text that is known in full into the result of the search.
-/

namespace ThemeRepair
namespace Line

variable {opens : Line → Bool}

/-- The first line that opens a block, with the lines nested below it. -/
def opened (opens : Line → Bool) : List Line → Option (Line × List Line)
  | [] => none
  | l :: ls => if opens l then some (l, nested l.depth ls) else opened opens ls

/-- A line that opens the section of a key. -/
def opensSection (keyword : Text) (l : Line) : Bool := l.declares keyword && l.depth == 0

theorem declares_of_opensSection {keyword : Text} {l : Line}
    (h : opensSection keyword l = true) : l.declares keyword = true := by
  rw [opensSection, Bool.and_eq_true] at h
  exact h.1

theorem declares_eq_false {keyword other : Text} {l : Line} (h : l.declares keyword = true)
    (hne : keyword ≠ other) : l.declares other = false := by
  rw [Line.declares, Bool.and_eq_true, beq_iff_eq] at h
  have hne' : (some keyword == some other) = false := by
    rw [beq_eq_false_iff_ne]
    exact fun he => hne (Option.some.inj he)
  rw [Line.declares, h.2, hne', Bool.and_false]

theorem below_zero_of_opensSection {keyword : Text} {l : Line}
    (h : opensSection keyword l = true) : below 0 l = false := by
  rw [opensSection, Bool.and_eq_true, beq_iff_eq] at h
  exact below_eq_false_iff.2 ⟨isContent_of_declares h.1, Nat.le_of_eq h.2⟩

theorem opensSection_of_below {keyword : Text} {l : Line} (h : below 0 l = true) :
    opensSection keyword l = false := by
  rw [← Bool.not_eq_true]
  intro hopens
  rw [below_zero_of_opensSection hopens] at h
  cases h

theorem opened_append_of_forall {ls : List Line} (h : ∀ l ∈ ls, opens l = false)
    (ms : List Line) : opened opens (ls ++ ms) = opened opens ms := by
  induction ls with
  | nil => rfl
  | cons l ls ih =>
    rw [List.cons_append, opened, if_neg (by simp [h l (by simp)]),
      ih fun m hm => h m (List.mem_cons_of_mem l hm)]

theorem opened_append_cons {passed : List Line} {header : Line}
    (hpassed : ∀ l ∈ passed, opens l = false) (hheader : opens header = true) (rest : List Line) :
    opened opens (passed ++ header :: rest) = some (header, nested header.depth rest) := by
  rw [opened_append_of_forall hpassed, opened, if_pos hheader]

theorem opened_eq_none_iff {ls : List Line} :
    opened opens ls = none ↔ ∀ l ∈ ls, opens l = false := by
  constructor
  · intro h
    rcases Region.forall_or_exists_first opens ls with hnone | ⟨passed, header, rest, rfl, hp, hh⟩
    · exact hnone
    · rw [opened_append_cons hp hh] at h
      cases h
  · intro h
    rw [← List.append_nil ls, opened_append_of_forall h]
    rfl

/-- A line that is not indented ends every block above it. -/
theorem opened_append_top {top : Line} (htop : below 0 top = false) (hopens : opens top = false)
    (xs ys : List Line) :
    opened opens (xs ++ top :: ys) = (opened opens xs).or (opened opens ys) := by
  induction xs with
  | nil =>
    have hnot : ∀ l ∈ [top], opens l = false := fun l hl => by
      rw [List.mem_singleton.1 hl]
      exact hopens
    exact opened_append_of_forall hnot ys
  | cons x xs ih =>
    rw [List.cons_append, opened, opened]
    by_cases hx : opens x = true
    · rw [if_pos hx, if_pos hx, nested_append_top htop, Option.some_or]
    · rw [if_neg hx, if_neg hx, ih]

/-- Indented lines at one place lie in no section of a key, whatever they are, or in one and the
same. -/
theorem opened_insert (keyword : Text) (xs ys : List Line) :
    (∃ s, ∀ ms, (∀ m ∈ ms, below 0 m = true) →
        opened (opensSection keyword) (xs ++ (ms ++ ys)) = s) ∨
      ∃ header front, ∀ ms, (∀ m ∈ ms, below 0 m = true) →
        opened (opensSection keyword) (xs ++ (ms ++ ys)) =
          some (header, trimmed (front ++ (ms ++ ys.takeWhile (below 0)))) := by
  induction xs with
  | nil =>
    -- Indented lines open no section themselves.
    refine Or.inl ⟨opened (opensSection keyword) ys, fun ms hms => ?_⟩
    exact opened_append_of_forall (fun m hm => opensSection_of_below (hms m hm)) ys
  | cons x xs ih =>
    by_cases hx : opensSection keyword x = true
    · have hd : x.depth = 0 := by
        rw [opensSection, Bool.and_eq_true, beq_iff_eq] at hx
        exact hx.2
      have hopened : ∀ ms, opened (opensSection keyword) (x :: xs ++ (ms ++ ys)) =
          some (x, nested 0 (xs ++ (ms ++ ys))) := fun ms => by
        rw [List.cons_append, opened, if_pos hx, hd]
      rcases Region.forall_or_exists_first (fun l => !below 0 l) xs with
        hall | ⟨run, top, rest, rfl, -, htop⟩
      · -- The section goes on up to the inserted lines and over them.
        refine Or.inr ⟨x, xs, fun ms hms => ?_⟩
        rw [hopened, nested_eq,
          List.takeWhile_append_of_pos fun l hl => by simpa using hall l hl,
          List.takeWhile_append_of_pos hms]
      · -- The section ends above the inserted lines.
        have htop' : below 0 top = false := by simpa using htop
        refine Or.inl ⟨some (x, nested 0 run), fun ms _ => ?_⟩
        rw [hopened, List.append_assoc, List.cons_append, nested_append_top htop']
    · have hopened : ∀ ms, opened (opensSection keyword) (x :: xs ++ (ms ++ ys)) =
          opened (opensSection keyword) (xs ++ (ms ++ ys)) := fun ms => by
        rw [List.cons_append, opened, if_neg hx]
      simp only [hopened]
      exact ih

end Line

namespace Region

open Line (nested opened opensSection)

variable {keyword : Text} {admits : Line → Bool} {before among after ls : List Line} {r : Region}

/-! ## Searches and openings -/

theorem locate_eq_none_iff : locate keyword admits before among after = .ok none ↔
    opened (fun l => l.declares keyword && admits l) among = none := by
  rw [Line.opened_eq_none_iff]
  exact ⟨forall_of_locate_eq_none, fun h => locate_eq_none h before after⟩

theorem opened_of_locate (h : locate keyword admits before among after = .ok (some r)) :
    opened (fun l => l.declares keyword && admits l) among = some (r.header, r.body) ∧
      Line.mixesIndentation (r.header :: r.body) = false := by
  obtain ⟨passed, rest, rfl, hpassed, hheader, hc⟩ := exists_of_locate h
  obtain ⟨hr, hmix⟩ := capture_eq_ok_iff.1 hc
  have hbody : r.body = nested r.header.depth rest := by rw [hr]
  rw [Line.opened_append_cons hpassed hheader, hbody]
  exact ⟨rfl, hmix⟩

/-- A block that is opened and not refused is found. -/
theorem exists_of_opened {header : Line} {body : List Line}
    (h : opened (fun l => l.declares keyword && admits l) among = some (header, body))
    (hmix : Line.mixesIndentation (header :: body) = false) (before after : List Line) :
    ∃ r, locate keyword admits before among after = .ok (some r) ∧ r.header = header ∧
      r.body = body := by
  rcases forall_or_exists_first (fun l => l.declares keyword && admits l) among with
    hnone | ⟨passed, first, rest, rfl, hpassed, hfirst⟩
  · rw [Line.opened_eq_none_iff.2 hnone] at h
    cases h
  · rw [Line.opened_append_cons hpassed hfirst] at h
    cases h
    rw [locate_append_cons hpassed hfirst, capture_of_unmixed hmix]
    exact ⟨_, rfl, rfl, rfl⟩

/-- A search is refused exactly where the block that is opened mixes its indentation. -/
theorem exists_error_iff : (∃ e, locate keyword admits before among after = .error e) ↔
    ∃ header body, opened (fun l => l.declares keyword && admits l) among = some (header, body) ∧
      Line.mixesIndentation (header :: body) = true := by
  rcases forall_or_exists_first (fun l => l.declares keyword && admits l) among with
    hnone | ⟨passed, first, rest, rfl, hpassed, hfirst⟩
  · rw [locate_eq_none hnone, Line.opened_eq_none_iff.2 hnone]
    simp
  · rw [locate_append_cons hpassed hfirst, Line.opened_append_cons hpassed hfirst]
    cases hmix : Line.mixesIndentation (first :: nested first.depth rest) with
    | true =>
      rw [capture_of_mixed hmix]
      exact ⟨fun _ => ⟨_, _, rfl, hmix⟩, fun _ => ⟨_, rfl⟩⟩
    | false =>
      rw [capture_of_unmixed hmix]
      constructor
      · rintro ⟨e, he⟩
        cases he
      · rintro ⟨header, body, heq, hmix'⟩
        cases heq
        rw [hmix] at hmix'
        cases hmix'

/-! ## From a region to the search -/

theorem IsIn.capture_eq (h : r.IsIn keyword ls) {rest after : List Line}
    (hrest : rest ++ after = r.body ++ r.after) (hclose : Line.Closes r.depth after) :
    capture keyword r.before r.header rest after = .ok r := by
  have hbody : nested r.header.depth rest = r.body := by
    rw [h.body_eq, ← hrest]
    exact (Line.nested_append_of_closes hclose).symm
  have hafter : rest.drop r.body.length ++ after = r.after := by
    have hsplit := Line.nested_append_drop r.header.depth rest
    rw [hbody] at hsplit
    rw [← hsplit, List.append_assoc] at hrest
    exact List.append_cancel_left hrest
  rw [capture_eq_ok_iff, hbody, hafter, ← h.keyword_eq]
  exact ⟨rfl, h.unmixed⟩

theorem locate_of_isIn (h : r.IsIn keyword ls) (hadmits : admits r.header = true)
    (hbefore : ∀ l ∈ r.before, (l.declares keyword && admits l) = false) :
    locate keyword admits [] ls [] = .ok (some r) := by
  have hheader : (r.header.declares keyword && admits r.header) = true := by
    rw [h.declares, hadmits]
    rfl
  rw [← h.lines_eq, lines, locate_append_cons hbefore hheader, List.nil_append,
    h.capture_eq (List.append_nil _) (Line.closes_nil _)]
  rfl

theorem findSection_of_isIn (h : r.IsIn keyword ls) (hdepth : r.depth = 0)
    (hbefore : ∀ l ∈ r.before, opensSection keyword l = false) :
    findSection keyword ls = .ok (some r) :=
  locate_of_isIn h (beq_iff_eq.2 hdepth) hbefore

theorem opensSection_header {keyword : Text} {s : Region}
    (h : findSection keyword ls = .ok (some s)) :
    opensSection keyword s.header = true := by
  obtain ⟨hin, hdepth, -⟩ := isIn_of_findSection h
  rw [opensSection, hin.declares]
  exact beq_iff_eq.2 hdepth

theorem find_of_isIn (h : r.IsIn keyword ls)
    (hbefore : ∀ l ∈ r.before, l.declares keyword = false) :
    find keyword ls = .ok (some r) :=
  locate_of_isIn h rfl fun l hl => by rw [hbefore l hl]; rfl

theorem child_of_isIn {parent : Region} {parentKey : Text} {passed rest : List Line}
    (hparent : parent.IsIn parentKey ls) (h : r.IsIn keyword ls)
    (hbefore : r.before = parent.before ++ parent.header :: passed)
    (hbody : parent.body = passed ++ r.header :: rest) (hdepth : parent.childDepth? = some r.depth)
    (hpassed : ∀ l ∈ passed, (l.declares keyword && l.depth == r.depth) = false) :
    parent.child keyword = .ok (some r) := by
  have hheader : (r.header.declares keyword && r.header.depth == r.depth) = true := by
    rw [h.declares]
    exact beq_self_eq_true _
  have hmem : r.header ∈ parent.body := by rw [hbody]; simp
  have hclose : Line.Closes r.depth parent.after :=
    hparent.closes_after_of_mem_body hmem h.isContent_header
  -- Both regions cut the same lines, so behind the header of the child the same lines are left.
  have hrest : rest ++ parent.after = r.body ++ r.after := by
    have hlines := hparent.lines_eq.trans h.lines_eq.symm
    rw [lines, lines, hbefore, hbody, List.append_assoc, List.append_assoc, List.cons_append,
      List.cons_append] at hlines
    have htail := List.append_cancel_left (List.cons.inj (List.append_cancel_left hlines)).2
    exact (List.cons.inj htail).2
  have hplace : parent.before ++ [parent.header] ++ passed = r.before := by
    rw [hbefore, List.append_assoc]
    rfl
  rw [child, hdepth, hbody]
  simp only
  rw [locate_append_cons hpassed hheader, hplace, h.capture_eq hrest hclose]
  rfl

end Region
end ThemeRepair
