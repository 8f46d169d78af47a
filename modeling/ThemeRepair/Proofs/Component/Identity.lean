import ThemeRepair.Proofs.Component.Checks
import ThemeRepair.Proofs.Component.SectionHeader
import ThemeRepair.Proofs.Component.SequenceCount
import Mathlib.Data.List.Perm.Subperm

/-!
# Findings told apart

A finding is recognised in another scan by its short name and, for a conflict, by the name of the
property (`Component.identity`): where it stands may have moved.  Each check of a scan is put here
in terms of these identities, with what it depends on:

* the properties have a finding or none, by their header, their first content line and whether a key
  follows (`Component.propertiesIdentities_eq`);
* the variants have one for an empty sequence, or one for each sequence default
  (`Component.variantsIdentities_eq`);
* the conflicts have one for each name that is in conflict
  (`Component.exists_names_conflictIdentities`).
-/

namespace ThemeRepair
namespace Component

open Line (below nested trimmed opened opensSection)
open Declaration (eraseBlock)

/-- What a finding is recognised by in another scan: its code and, for a conflict, the name. -/
def identity (kind : FindingKind) : String × Option Text :=
  (kind.code, match kind with
    | .nameConflict name _ => some name
    | _ => none)

theorem identity_emptyCollection (realign : Option Span) :
    identity (.emptyCollection realign) = identity (.emptyCollection none) := rfl

theorem identity_nameConflict (name : Text) (collapse : Option Span) :
    identity (.nameConflict name collapse) = identity (.nameConflict name none) := rfl

/-- The identities that the check of the properties finds. -/
def propertiesIdentities (w : Nat) (ls : List Line) : List (String × Option Text) :=
  (propertiesDefects w (Sections.ofLines ls)).map fun d => identity d.2

/-- The identities that the check of the variants finds. -/
def variantsIdentities (ls : List Line) : List (String × Option Text) :=
  (variantsDefects (Sections.ofLines ls)).map fun d => identity d.2

/-- The identities that the check of the conflicts finds. -/
def conflictIdentities (w : Nat) (ls : List Line) : List (String × Option Text) :=
  (conflictDefects w (Sections.ofLines ls)).map fun d => identity d.2

/-- The identities of a scan, in the order of its checks. -/
def identities (w : Nat) (ls : List Line) : List (String × Option Text) :=
  propertiesIdentities w ls ++ variantsIdentities ls ++ conflictIdentities w ls

theorem map_identity_findings (w : Nat) (path : String) (t : Text) :
    (scan w path t).findings.map (fun f => identity f.kind) = identities w (Line.ofText t) := by
  rw [identities, propertiesIdentities, variantsIdentities, conflictIdentities, ← List.map_append,
    ← List.map_append, scan, List.map_map]
  rfl

variable {w : Nat} {ls ls' : List Line} {r : Region} {header : Line} {body : List Line}

/-! ## The check of the properties -/

/-- An empty mapping is due in the header of properties. -/
def isDue (w : Nat) (r : Region) : Bool :=
  Region.isEmptySequence r.inline ||
    r.isBlock && if r.hasContent then (misplacedSibling? w r).isSome else r.isFollowedByKey

theorem propertiesIdentities_eq (hr : (Sections.ofLines ls).properties = .ok (some r)) :
    propertiesIdentities w ls = if isDue w r then [identity (.emptyCollection none)] else [] := by
  have hdefects : propertiesDefects w (Sections.ofLines ls) = emptyProperties w r := by
    simp only [propertiesDefects, found_eq_some_iff.2 hr]
  rw [propertiesIdentities, hdefects, emptyProperties, isDue]
  cases hseq : Region.isEmptySequence r.inline with
  | true => rfl
  | false =>
    cases hblock : r.isBlock with
    | false => rfl
    | true =>
      cases hcontent : r.hasContent with
      | false => cases hfollowed : r.isFollowedByKey <;> simp
      | true =>
        cases hmisplaced : misplacedSibling? w r with
        | none => simp
        | some indentation => simp; rfl

theorem isDue_of_hasContent (h : r.hasContent = true) :
    isDue w r = (Region.isEmptySequence r.inline ||
      r.isBlock && (misplacedSibling? w r).isSome) := by
  rw [isDue, if_pos h]

theorem isDue_congr {r' : Region} (hheader : r'.header = r.header)
    (hkeyword : r'.keyword = r.keyword) (hbody : r'.body = r.body)
    (hfollowed : r'.isFollowedByKey = r.isFollowedByKey) :
    isDue w r' = isDue w r := by
  have hfirst : r'.firstContent? = r.firstContent? := Region.firstContent?_congr hbody
  have hdepth : r'.depth = r.depth := Region.depth_congr hheader
  rw [isDue, isDue, Region.inline_congr hheader hkeyword, Region.isBlock_congr hheader hkeyword,
    Region.hasContent, Region.hasContent, isSome_misplacedSibling?_congr hdepth hfirst, hfirst,
    hfollowed]

theorem propertiesIdentities_of_not_found
    (h : found (Sections.ofLines ls).properties = none) : propertiesIdentities w ls = [] := by
  simp only [propertiesIdentities, propertiesDefects, h, List.map_nil]

/-- The header of the variants has no part in it. -/
theorem propertiesIdentities_of_swap {xs ys : List Line} {a b : Line}
    (ha : opensSection "variants".toList a = true)
    (hb : opensSection "variants".toList b = true) :
    (propertiesIdentities w (xs ++ b :: ys)).Subperm (propertiesIdentities w (xs ++ a :: ys)) := by
  cases hfound : found (Sections.ofLines (xs ++ b :: ys)).properties with
  | none =>
    rw [propertiesIdentities_of_not_found hfound]
    exact List.nil_subperm
  | some r' =>
    have hr' := found_eq_some_iff.1 hfound
    obtain ⟨r, hr, hheader, hbody, hfollowed, -⟩ := exists_properties_of_swap hb ha hr'
    have hkeyword : r.keyword = r'.keyword :=
      (isIn_of_properties hr').keyword_congr (isIn_of_properties hr)
    rw [propertiesIdentities_eq hr', propertiesIdentities_eq hr,
      isDue_congr hheader hkeyword hbody hfollowed]

/-- The check of the properties finds one thing or nothing. -/
theorem propertiesIdentities_cases (w : Nat) (ls : List Line) :
    propertiesIdentities w ls = [] ∨
      propertiesIdentities w ls = [identity (.emptyCollection none)] := by
  cases hfound : found (Sections.ofLines ls).properties with
  | none => exact Or.inl (propertiesIdentities_of_not_found hfound)
  | some r =>
    rw [propertiesIdentities_eq (found_eq_some_iff.1 hfound)]
    split
    · exact Or.inr rfl
    · exact Or.inl rfl

/-- With an empty mapping nothing is due any more. -/
theorem propertiesIdentities_of_mapped (hr : (Sections.ofLines ls).properties = .ok (some r))
    (hm : r.Mappable) (h : Rewrites r r.mapped body) :
    propertiesIdentities w (rewritten r r.mapped body) = [] := by
  have hin := isIn_of_properties hr
  obtain ⟨r', hr', hheader, -, -⟩ := exists_properties_of_rewrites hr h
  have hkeyword : r'.keyword = r.keyword := hin.keyword_congr (isIn_of_properties hr')
  rw [propertiesIdentities_eq hr', isDue,
    Region.isEmptySequence_of_mapped hin.hasKey hm hheader hkeyword,
    Region.isBlock_of_mapped hin.hasKey hm hheader hkeyword]
  rfl

/-! ## The check of the variants -/

theorem variantsIdentities_eq {v : Region} (hv : (Sections.ofLines ls).variants = .ok (some v)) :
    variantsIdentities ls =
      if Region.isEmptySequence v.inline then [identity (.sequenceForMapping .variantsRoot)]
      else List.replicate (sequenceDefaults v).length
        (identity (.sequenceForMapping .variantsDefault)) := by
  unfold variantsIdentities
  rcases variantsDefects_cases hv with ⟨hseq, hdefects⟩ | ⟨hseq, rs, hdefects, hmap, -⟩
  · rw [hdefects, if_pos hseq]
    rfl
  · rw [hdefects, hseq, if_neg Bool.false_ne_true, ← hmap, List.length_map, List.map_map,
      List.eq_replicate_iff, List.length_map]
    refine ⟨rfl, fun d hd => ?_⟩
    obtain ⟨r, -, rfl⟩ := List.mem_map.1 hd
    rfl

theorem variantsIdentities_of_not_found (h : found (Sections.ofLines ls).variants = none) :
    variantsIdentities ls = [] := by
  simp only [variantsIdentities, variantsDefects, h, List.map_nil]

/-- They depend on the section of variants alone. -/
theorem variantsIdentities_congr
    (h : opened (opensSection "variants".toList) ls' = opened (opensSection "variants".toList) ls) :
    (variantsIdentities ls').Subperm (variantsIdentities ls) := by
  cases hfound : found (Sections.ofLines ls').variants with
  | none => rw [variantsIdentities_of_not_found hfound]; exact List.nil_subperm
  | some v' =>
    have hv' := found_eq_some_iff.1 hfound
    obtain ⟨hopened, hmix⟩ := Region.opened_of_locate hv'
    obtain ⟨v, hv, hheader, hbody⟩ := Region.exists_of_opened (h.symm.trans hopened) hmix [] []
    have hv₀ : (Sections.ofLines ls).variants = .ok (some v) := hv
    have hkeyword : v.keyword = v'.keyword :=
      (isIn_of_variants hv').keyword_congr (isIn_of_variants hv₀)
    rw [variantsIdentities_eq hv', variantsIdentities_eq hv₀, Region.inline_congr hheader hkeyword,
      sequenceDefaults_congr hheader hkeyword hbody]

/-- The content lines of a section around the rewritten ones. -/
theorem filter_isContent_around (front mid behind : List Line) :
    (trimmed (front ++ (mid ++ behind))).filter Line.isContent =
      front.filter Line.isContent ++
        (mid.filter Line.isContent ++ behind.filter Line.isContent) := by
  rw [Line.filter_trimmed, List.filter_append, List.filter_append]

/-- A rewriting exposes nothing at the variants if there are no more sequence defaults for it. -/
theorem variantsIdentities_of_rewrites (hin : r.IsIn "properties".toList ls)
    (h : Rewrites r header body) (hbelow : ∀ l ∈ body, below 0 l = true)
    (hcount : 0 < r.depth → ∀ front,
      sequenceCount none (front ++ ((header :: body).filter Line.isContent ++
          (r.after.takeWhile (below 0)).filter Line.isContent)) ≤
        sequenceCount none (front ++ ((r.header :: r.body).filter Line.isContent ++
          (r.after.takeWhile (below 0)).filter Line.isContent))) :
    (variantsIdentities (rewritten r header body)).Subperm (variantsIdentities ls) := by
  cases hfound : found (Sections.ofLines (rewritten r header body)).variants with
  | none => rw [variantsIdentities_of_not_found hfound]; exact List.nil_subperm
  | some v' =>
    have hv' := found_eq_some_iff.1 hfound
    obtain ⟨v, hv, hheader, hbody⟩ := exists_section_before_rewrites hin h
      (by decide : "variants".toList ≠ "properties".toList) hbelow hv'
    have hv₀ : (Sections.ofLines ls).variants = .ok (some v) := hv
    have hkeyword : v'.keyword = v.keyword :=
      (isIn_of_variants hv₀).keyword_congr (isIn_of_variants hv')
    rw [variantsIdentities_eq hv', variantsIdentities_eq hv₀, Region.inline_congr hheader hkeyword]
    split
    · exact List.Subperm.refl _
    · refine (List.replicate_sublist_replicate _).2 ?_ |>.subperm
      rw [length_sequenceDefaults, length_sequenceDefaults, Region.isBlock_congr hheader hkeyword]
      -- The section has the rewritten lines in it, or not: only then is there something to count.
      split
      · rcases hbody with hbody | ⟨hdepth, front, hv, hv'⟩
        · rw [hbody]
        · rw [hv, hv', filter_isContent_around, filter_isContent_around]
          exact hcount hdepth _
      · exact Nat.le_refl 0

/-- The header of properties declares no default. -/
theorem sequenceCount_of_header (hin : r.IsIn "properties".toList ls) (h : Rewrites r header body)
    (front ms behind : List Line) :
    sequenceCount none (front ++ ((header :: ms).filter Line.isContent ++ behind)) =
      sequenceCount none (front ++ ((r.header :: ms).filter Line.isContent ++ behind)) := by
  rw [List.filter_cons_of_pos h.isContent, List.filter_cons_of_pos hin.isContent_header,
    List.cons_append, List.cons_append]
  exact sequenceCount_replace hin.declares h.declares (by decide) h.depth_eq front _ none

/-- A block that goes exposes nothing at the variants. -/
theorem sequenceCount_eraseBlock (hin : r.IsIn "properties".toList ls) {depth : Nat} {name : Text}
    (hname : name ∈ (r.blocks depth).map Prod.fst) (front : List Line) :
    sequenceCount none (front ++
        ((r.header :: eraseBlock depth name r.body).filter Line.isContent ++
          (r.after.takeWhile (below 0)).filter Line.isContent)) ≤
      sequenceCount none (front ++ ((r.header :: r.body).filter Line.isContent ++
        (r.after.takeWhile (below 0)).filter Line.isContent)) := by
  have hdeeper := Region.lt_of_mem_blocks hin hname
  obtain ⟨above, l, tail, hbody, herase, hl, hdepth, habove⟩ :=
    Region.exists_eraseBlock_of_mem_blocks hname
  obtain ⟨rest, hrest⟩ :
      ∃ rest, rest = tail.drop (nested depth tail).length ++ r.after.takeWhile (below 0) := ⟨_, rfl⟩
  -- What follows the block ends at its depth, in the body or behind it.
  have hclose : Line.Closes depth rest := by
    rw [hrest]
    exact (Line.closes_drop_nested depth tail).append
      ((hin.closes_after.takeWhile _).mono (Nat.le_of_lt hdeeper))
  have hhead : ∀ m ∈ (rest.filter Line.isContent).head?, m.depth ≤ depth := fun m hm =>
    hclose m (by rw [Line.find?_isContent_eq_head?]; exact hm)
  have hblock : ∀ m ∈ l :: (nested depth tail).filter Line.isContent, depth ≤ m.depth := by
    rw [List.forall_mem_cons]
    refine ⟨Nat.le_of_eq hdepth.symm, fun m hm => ?_⟩
    obtain ⟨hm, hc⟩ := List.mem_filter.1 hm
    have hbelow := Line.below_of_mem_nested hm
    rw [Line.below_of_isContent hc, decide_eq_true_eq] at hbelow
    exact Nat.le_of_lt hbelow
  -- Above the block stands a line of its depth or a deeper one, or else the header of properties.
  have hlast : ∀ m ∈ (front ++ r.header :: above.filter Line.isContent).getLast?,
      m.declares "default".toList = true → depth ≤ m.depth := by
    intro m hm hdeclares
    have hmem : m ∈ r.header :: above.filter Line.isContent := by
      rw [List.getLast?_append_of_ne_nil _ (List.cons_ne_nil _ _)] at hm
      exact List.mem_of_getLast? hm
    rcases List.mem_cons.1 hmem with rfl | hmem
    · rw [Line.declares_eq_false hin.declares (by decide)] at hdeclares
      cases hdeclares
    · obtain ⟨hm, hc⟩ := List.mem_filter.1 hmem
      have hreaches := habove m hm
      rw [Line.reaches, hc, Bool.not_true, Bool.false_or, decide_eq_true_eq] at hreaches
      exact hreaches
  have hold : (r.body ++ r.after.takeWhile (below 0)).filter Line.isContent =
      above.filter Line.isContent ++
        (l :: (nested depth tail).filter Line.isContent ++ rest.filter Line.isContent) := by
    have hsplit : r.body ++ r.after.takeWhile (below 0) =
        above ++ (l :: nested depth tail ++ rest) := by
      rw [hbody, hrest, List.append_assoc, List.cons_append, List.cons_append,
        ← List.append_assoc (nested depth tail), Line.nested_append_drop]
    rw [hsplit, List.filter_append, List.filter_append, List.filter_cons_of_pos hl]
  have hnew : (eraseBlock depth name r.body ++ r.after.takeWhile (below 0)).filter
      Line.isContent = above.filter Line.isContent ++ rest.filter Line.isContent := by
    rw [herase, List.append_assoc, ← hrest, List.filter_append]
  have hdrop := sequenceCount_drop_le (List.head?_cons ..) hdepth hblock hhead hlast none
  rw [List.append_assoc, List.append_assoc, List.cons_append, List.cons_append] at hdrop
  rw [← List.filter_append, ← List.filter_append, List.cons_append, List.cons_append,
    List.filter_cons_of_pos hin.isContent_header, List.filter_cons_of_pos hin.isContent_header,
    hold, hnew]
  exact hdrop

theorem variantsIdentities_of_header (hin : r.IsIn "properties".toList ls)
    (h : Rewrites r header r.body) :
    (variantsIdentities (rewritten r header r.body)).Subperm (variantsIdentities ls) :=
  variantsIdentities_of_rewrites hin h (below_zero_of_sublist hin (List.Sublist.refl _))
    fun _ front => Nat.le_of_eq (sequenceCount_of_header hin h front _ _)

theorem variantsIdentities_of_erased (hin : r.IsIn "properties".toList ls) {depth : Nat}
    {name : Text} (hname : name ∈ (r.blocks depth).map Prod.fst)
    (h : Rewrites r header (eraseBlock depth name r.body)) :
    (variantsIdentities (rewritten r header (eraseBlock depth name r.body))).Subperm
      (variantsIdentities ls) := by
  refine variantsIdentities_of_rewrites hin h
    (below_zero_of_sublist hin (Declaration.sublist_eraseBlock depth name r.body))
    fun _ front => ?_
  rw [sequenceCount_of_header hin h]
  exact sequenceCount_eraseBlock hin hname front

/-- The misplaced line, if the properties are indented, stays in the section that it is in. -/
theorem variantsIdentities_of_realigned {blanks rest : List Line} {l : Line}
    (hin : r.IsIn "properties".toList ls) (hblock : r.isBlock = true)
    (hbody : r.body = blanks ++ l :: rest) (hblanks : ∀ m ∈ blanks, m.isContent = false)
    (hl : l.isContent = true) (hkey : l.key?.any siblingKeywords.contains = true)
    (hpositive : 0 < r.depth) :
    (variantsIdentities (rewritten r r.mapped
      (blanks ++ l.withIndentation r.header.indentation :: rest))).Subperm
        (variantsIdentities ls) := by
  have h := rewrites_realigned hin hblock hbody hl hkey
  have hindent := Region.isIndent_of_mem_indentation (l := r.header)
  have hcontent := Line.isContent_withIndentation hl hindent
  refine variantsIdentities_of_rewrites hin h (h.below hpositive) fun _ front => Nat.le_of_eq ?_
  -- Content lines are all that counts, so the first one is the misplaced one.
  have hfilter : ∀ m : Line, m.isContent = true →
      (blanks ++ m :: rest).filter Line.isContent = m :: rest.filter Line.isContent := by
    intro m hm
    have hnil : blanks.filter Line.isContent = [] :=
      List.filter_eq_nil_iff.2 fun k hk => by simp [hblanks k hk]
    rw [List.filter_append, hnil, List.filter_cons_of_pos hm, List.nil_append]
  have hdeclares : l.declares "default".toList = false := by
    rw [Line.declares, Bool.and_eq_false_iff, beq_eq_false_iff_ne]
    right
    intro heq
    rw [heq] at hkey
    exact absurd hkey (by decide)
  have hdeclares' : (l.withIndentation r.header.indentation).declares "default".toList = false := by
    rw [Line.declares, Line.key?_withIndentation hl hindent, hcontent, ← hl]
    exact hdeclares
  have hdeeper : r.header.depth < l.depth := hin.depth_lt_of_mem_body (by rw [hbody]; simp) hl
  have hdepth : (l.withIndentation r.header.indentation).depth = r.header.depth := by
    rw [Line.depth, Line.indentation_withIndentation hl hindent]
    rfl
  rw [List.filter_cons_of_pos h.isContent, List.filter_cons_of_pos hin.isContent_header, hbody,
    hfilter _ hcontent, hfilter _ hl]
  exact sequenceCount_realign hin.declares h.declares (by decide) h.depth_eq hdeclares hdeclares'
    hdeeper hdepth front _ none

/-- With an empty mapping the variants have no finding. -/
theorem variantsIdentities_of_mapped {v : Region}
    (hv : (Sections.ofLines ls).variants = .ok (some v))
    (hseq : Region.isEmptySequence v.inline = true) :
    variantsIdentities (v.before ++ v.mapped :: (v.body ++ v.after)) = [] := by
  have hin := isIn_of_variants hv
  have hm : v.Mappable := Or.inr hseq
  cases hfound : found
      (Sections.ofLines (v.before ++ v.mapped :: (v.body ++ v.after))).variants with
  | none => exact variantsIdentities_of_not_found hfound
  | some v' =>
    have hv' := found_eq_some_iff.1 hfound
    have hopened := Line.opened_append_cons (Region.isIn_of_findSection hv).2.2
      (opensSection_mapped hv hm) (v.body ++ v.after)
    have hheader : v'.header = v.mapped :=
      (Prod.mk.inj (Option.some.inj ((Region.opened_of_locate hv').1.symm.trans hopened))).1
    have hkeyword : v'.keyword = v.keyword := hin.keyword_congr (isIn_of_variants hv')
    rw [variantsIdentities_eq hv', Region.isEmptySequence_of_mapped hin.hasKey hm hheader hkeyword,
      sequenceDefaults, Region.isBlock_of_mapped hin.hasKey hm hheader hkeyword]
    rfl

/-! ## The check of the conflicts -/

/-- A declared property has the name of a slot. -/
def Conflicting (w : Nat) (ls : List Line) (name : Text) : Prop :=
  ∃ r slots, (Sections.ofLines ls).properties = .ok (some r) ∧
    (Sections.ofLines ls).slots = .ok (some slots) ∧ name ∈ slotNames w slots ∧
    name ∈ (r.blocks (declaredDepth w ls r)).map Prod.fst

theorem injective_identity_nameConflict :
    Function.Injective fun name : Text => identity (.nameConflict name none) := by
  intro name other h
  exact Option.some.inj (Prod.mk.inj h).2

/-- Each name that is in conflict is reported once. -/
theorem exists_names_conflictIdentities (w : Nat) (ls : List Line) :
    ∃ names : List Text,
      conflictIdentities w ls = names.map (fun name => identity (.nameConflict name none)) ∧
        names.Nodup ∧ ∀ name, name ∈ names ↔ Conflicting w ls name := by
  cases hr : found (Sections.ofLines ls).properties with
  | none =>
    refine ⟨[], ?_, List.nodup_nil, fun name => ?_⟩
    · simp only [conflictIdentities, conflictDefects, hr, List.map_nil]
    · refine iff_of_false List.not_mem_nil ?_
      rintro ⟨r, slots, hr', -, -, -⟩
      rw [found_eq_some_iff.2 hr'] at hr
      cases hr
  | some r =>
    cases hslots : found (Sections.ofLines ls).slots with
    | none =>
      refine ⟨[], ?_, List.nodup_nil, fun name => ?_⟩
      · simp only [conflictIdentities, conflictDefects, hr, hslots, List.map_nil]
      · refine iff_of_false List.not_mem_nil ?_
        rintro ⟨-, slots, -, hslots', -, -⟩
        rw [found_eq_some_iff.2 hslots'] at hslots
        cases hslots
    | some slots =>
      rw [found_eq_some_iff] at hr hslots
      refine ⟨(firstTaken (slotNames w slots) []
        (r.declarations .schemaProperty (declaredDepth w ls r))).map Declaration.name, ?_,
        nodup_names_firstTaken _ _ _, fun name => ?_⟩
      · rw [conflictIdentities, conflictDefects_eq hr hslots, nameConflicts, List.map_map,
          List.map_map]
        rfl
      · rw [mem_names_firstTaken, Region.map_name_declarations]
        constructor
        · rintro ⟨htaken, -, hname⟩
          exact ⟨r, slots, hr, hslots, htaken, hname⟩
        · rintro ⟨r', slots', hr', hslots', htaken, hname⟩
          obtain rfl := Option.some.inj (Except.ok.inj (hr.symm.trans hr'))
          obtain rfl := Option.some.inj (Except.ok.inj (hslots.symm.trans hslots'))
          exact ⟨htaken, List.not_mem_nil, hname⟩

theorem conflictIdentities_eq_nil (h : ∀ name, ¬ Conflicting w ls name) :
    conflictIdentities w ls = [] := by
  obtain ⟨names, heq, -, hmem⟩ := exists_names_conflictIdentities w ls
  have hnames : names = [] :=
    List.eq_nil_iff_forall_not_mem.2 fun name hname => h name ((hmem name).1 hname)
  rw [heq, hnames, List.map_nil]

/-- Where no name comes to be in conflict, no identity is new. -/
theorem conflictIdentities_subperm (h : ∀ name, Conflicting w ls' name → Conflicting w ls name) :
    (conflictIdentities w ls').Subperm (conflictIdentities w ls) := by
  obtain ⟨names, heq, -, hmem⟩ := exists_names_conflictIdentities w ls
  obtain ⟨names', heq', hnodup', hmem'⟩ := exists_names_conflictIdentities w ls'
  have hsub : names'.Subperm names := hnodup'.subperm fun name hname =>
    (hmem name).2 (h name ((hmem' name).1 hname))
  rw [heq, heq']
  exact (List.map_subperm_map_iff injective_identity_nameConflict).2 hsub

/-- Where a name is in conflict no more and no other comes to be, one identity is gone. -/
theorem conflictIdentities_cons_subperm {name : Text}
    (h : ∀ other, Conflicting w ls' other → Conflicting w ls other)
    (hname : Conflicting w ls name) (hgone : ¬ Conflicting w ls' name) :
    (identity (.nameConflict name none) :: conflictIdentities w ls').Subperm
      (conflictIdentities w ls) := by
  obtain ⟨names, heq, -, hmem⟩ := exists_names_conflictIdentities w ls
  obtain ⟨names', heq', hnodup', hmem'⟩ := exists_names_conflictIdentities w ls'
  have hnodup : (name :: names').Nodup :=
    List.nodup_cons.2 ⟨fun hin => hgone ((hmem' name).1 hin), hnodup'⟩
  have hsub : (name :: names').Subperm names := hnodup.subperm <| List.cons_subset.2
    ⟨(hmem name).2 hname, fun other hother => (hmem other).2 (h other ((hmem' other).1 hother))⟩
  rw [heq, heq']
  exact (List.map_subperm_map_iff injective_identity_nameConflict).2 hsub

namespace Conflicting

variable {name : Text}

/-- After a rewriting, a name in conflict is declared among the new lines. -/
theorem blocks_of_rewrites (hr : (Sections.ofLines ls).properties = .ok (some r))
    (h : Rewrites r header body) (hname : Conflicting w (rewritten r header body) name) :
    ∃ r' : Region, r'.body = nested r.depth body ∧
      name ∈ (r'.blocks (declaredDepth w ls r)).map Prod.fst := by
  obtain ⟨r', slots', hr', -, -, hname⟩ := hname
  obtain ⟨r₀, hr₀, hheader, hbody, hprops⟩ := exists_properties_of_rewrites hr h
  obtain rfl := Option.some.inj (Except.ok.inj (hr₀.symm.trans hr'))
  have hdepth : r₀.depth = r.depth := by rw [Region.depth, hheader, h.depth_eq]
  rw [declaredDepth_congr hprops hdepth] at hname
  exact ⟨r₀, hbody, hname⟩

/-- And it is the name of a slot that was there before. -/
theorem slots_of_rewrites (hin : r.IsIn "properties".toList ls) (h : Rewrites r header body)
    (hsub : body.Sublist r.body)
    (hbody : body = r.body ∨
      ∃ deeper other, (0 < r.depth → w < deeper) ∧ body = eraseBlock deeper other r.body)
    (hname : Conflicting w (rewritten r header body) name) :
    ∃ slots, (Sections.ofLines ls).slots = .ok (some slots) ∧ name ∈ slotNames w slots := by
  obtain ⟨-, slots', -, hslots', htaken, -⟩ := hname
  obtain ⟨slots, hslots, hcarries⟩ := exists_section_before_rewrites hin h
    (by decide : "slots".toList ≠ "properties".toList) (below_zero_of_sublist hin hsub) hslots'
  refine ⟨slots, hslots, ?_⟩
  rwa [slotNames_of_carries hcarries (Region.isIn_of_findSection hslots).2.1
    (names_of_rewrites hin h hbody)] at htaken

theorem of_header (hr : (Sections.ofLines ls).properties = .ok (some r))
    (h : Rewrites r header r.body) (hname : Conflicting w (rewritten r header r.body) name) :
    Conflicting w ls name := by
  have hin := isIn_of_properties hr
  obtain ⟨r', hbody, hdeclared⟩ := hname.blocks_of_rewrites hr h
  obtain ⟨slots, hslots, htaken⟩ := hname.slots_of_rewrites hin h (List.Sublist.refl _) (Or.inl rfl)
  rw [hin.nested_body] at hbody
  rw [Region.blocks, hbody] at hdeclared
  exact ⟨r, slots, hr, hslots, htaken, hdeclared⟩

/-- Behind a misplaced section nothing is declared. -/
theorem not_of_realigned {blanks rest : List Line} {l : Line}
    (hr : (Sections.ofLines ls).properties = .ok (some r)) (hblock : r.isBlock = true)
    (hbody : r.body = blanks ++ l :: rest) (hblanks : ∀ m ∈ blanks, m.isContent = false)
    (hl : l.isContent = true) (hkey : l.key?.any siblingKeywords.contains = true) :
    ¬ Conflicting w (rewritten r r.mapped
      (blanks ++ l.withIndentation r.header.indentation :: rest)) name := by
  intro hname
  have h := rewrites_realigned (isIn_of_properties hr) hblock hbody hl hkey
  obtain ⟨r', hbody', hdeclared⟩ := hname.blocks_of_rewrites hr h
  rw [nested_of_realigned hblanks hl] at hbody'
  rw [Region.blocks, hbody'] at hdeclared
  cases hdeclared

/-- Behind a property that goes, the names of the others are still in conflict, and its own name is
if it is declared twice. -/
theorem of_erased {other : Text} (hr : (Sections.ofLines ls).properties = .ok (some r))
    (hother : other ∈ (r.blocks (declaredDepth w ls r)).map Prod.fst)
    (h : Rewrites r header (eraseBlock (declaredDepth w ls r) other r.body))
    (hname : Conflicting w
      (rewritten r header (eraseBlock (declaredDepth w ls r) other r.body)) name) :
    Conflicting w ls name ∧
      name ∈ ((r.blocks (declaredDepth w ls r)).map Prod.fst).erase other := by
  have hin := isIn_of_properties hr
  obtain ⟨r', hbody, hdeclared⟩ := hname.blocks_of_rewrites hr h
  obtain ⟨slots, hslots, htaken⟩ := hname.slots_of_rewrites hin h
    (Declaration.sublist_eraseBlock _ _ _)
    (Or.inr ⟨_, other, lt_declaredDepth hin hother, rfl⟩)
  rw [map_fst_blocks_of_erased hin hbody] at hdeclared
  exact ⟨⟨r, slots, hr, hslots, htaken, List.mem_of_mem_erase hdeclared⟩, hdeclared⟩

/-- The header of the variants has no part in the conflicts. -/
theorem of_swap {xs ys : List Line} {a b : Line}
    (ha : opensSection "variants".toList a = true) (hb : opensSection "variants".toList b = true)
    (hname : Conflicting w (xs ++ a :: ys) name) : Conflicting w (xs ++ b :: ys) name := by
  obtain ⟨r, slots, hr, hslots, htaken, hdeclared⟩ := hname
  obtain ⟨r', hr', hheader, hbody, -, hprops⟩ := exists_properties_of_swap ha hb hr
  obtain ⟨slots', hslots', hsheader, hsbody⟩ := exists_slots_of_swap ha hb hslots
  have hdepth : r'.depth = r.depth := Region.depth_congr hheader
  refine ⟨r', slots', hr', hslots', ?_, ?_⟩
  · rw [slotNames_eq, Region.depth, hsheader, hsbody]
    rwa [slotNames_eq] at htaken
  · rw [declaredDepth_congr hprops hdepth, Region.blocks, hbody]
    exact hdeclared

end Conflicting

/-! ## The identity of a finding at the properties -/

/-- No other check finds anything of the kind. -/
theorem propertiesIdentities_of_mem {realign : Option Span}
    (h : identity (.emptyCollection realign) ∈ identities w ls) :
    propertiesIdentities w ls = [identity (.emptyCollection none)] := by
  rcases propertiesIdentities_cases w ls with hnil | hone
  · rw [identities, hnil, List.nil_append, List.mem_append] at h
    rcases h with h | h
    · obtain ⟨d, hd, heq⟩ := List.mem_map.1 h
      obtain ⟨target, hkind⟩ := kind_of_mem_variantsDefects hd
      have hcode := congrArg Prod.fst heq
      rw [hkind] at hcode
      cases target <;> simp [identity, FindingKind.code, ShapeTarget.tag] at hcode
    · obtain ⟨d, hd, heq⟩ := List.mem_map.1 h
      obtain ⟨name, collapse, hkind⟩ := kind_of_mem_conflictDefects hd
      have hcode := congrArg Prod.fst heq
      rw [hkind] at hcode
      simp [identity, FindingKind.code] at hcode
  · exact hone

end Component
end ThemeRepair
