import ThemeRepair.Proofs.Result
import ThemeRepair.Proofs.Tree.Walk
import ThemeRepair.Run.Basic

/-!
# The files of a run

The queue of a run is made of the names of files below the root (`queue_ofVisits`).  They are
names that the walk visited and that the globs select (`mem_sites`), each of them once
(`nodup_sites`), and none of them is that of a backup (`Selector.isBackup_of_selects`).

The order in which a directory lists its names does not matter: the files are put in the order of
their names (`chosen_congr`).  A run that starts has found its root and its files
(`start_eq_ok_iff`), and what it tells of them are its reports (`Run.events_ofQueue`).
-/

namespace ThemeRepair

variable {t : Tree} {root suffix : String} {selector : Selector} {pass : Pass} {write : Bool}
  {visited : List (List String)} {rel : List String} {kind : DocumentKind} {scan : Settings.Scan}
  {settings : Settings}

/-! ## Selected files -/

namespace Selector

/-- The selector takes a relative path for a document of a kind. -/
def selects (s : Selector) : DocumentKind → String → Bool
  | .component => s.selectsComponent
  | .template => s.selectsTemplate

variable {s : Selector} {path : String} {kind' : DocumentKind}

/-- No path is taken for both kinds of document. -/
theorem selects_unique (h : s.selects kind path = true) (h' : s.selects kind' path = true) :
    kind = kind' := by
  cases kind <;> cases kind'
  · rfl
  · simp only [selects, selectsComponent, selectsTemplate, Bool.and_eq_true] at h h'
    simp [h.2] at h'
  · simp only [selects, selectsComponent, selectsTemplate, Bool.and_eq_true] at h h'
    simp [h'.2] at h
  · rfl

/-- The path of a backup is not selected. -/
theorem isBackup_of_selects (hs : ofSettings scan suffix = .ok s)
    (h : s.selects kind path = true) : isBackup suffix path = false := by
  unfold ofSettings at hs
  obtain ⟨components, -, hs⟩ := exists_ok_of_bind hs
  obtain ⟨templates, -, hs⟩ := exists_ok_of_bind hs
  obtain ⟨excludes, -, hs⟩ := exists_ok_of_bind hs
  cases hs
  cases kind <;> simp_all [selects, selectsComponent, selectsTemplate]

end Selector

/-! ## The order of names -/

namespace Path

variable {a b : String} {as bs cs : List String}

theorem namesLe_cons_iff :
    namesLe (a :: as) (b :: bs) = true ↔ a < b ∨ a = b ∧ namesLe as bs = true := by
  simp [namesLe]

theorem namesLe_trans (h : namesLe as bs = true) (h' : namesLe bs cs = true) :
    namesLe as cs = true := by
  induction as generalizing bs cs with
  | nil => rfl
  | cons a as ih =>
    cases bs with
    | nil => cases h
    | cons b bs =>
      cases cs with
      | nil => cases h'
      | cons c cs =>
        rw [namesLe_cons_iff] at h h' ⊢
        obtain hab | ⟨rfl, h⟩ := h
        · obtain hbc | ⟨rfl, -⟩ := h'
          · exact .inl (String.lt_trans hab hbc)
          · exact .inl hab
        · obtain hbc | ⟨rfl, h'⟩ := h'
          · exact .inl hbc
          · exact .inr ⟨rfl, ih h h'⟩

theorem namesLe_total (as bs : List String) : namesLe as bs = true ∨ namesLe bs as = true := by
  induction as generalizing bs with
  | nil => exact .inl rfl
  | cons a as ih =>
    cases bs with
    | nil => exact .inr rfl
    | cons b bs =>
      rw [namesLe_cons_iff, namesLe_cons_iff]
      by_cases hab : a < b
      · exact .inl (.inl hab)
      · by_cases hba : b < a
        · exact .inr (.inl hba)
        · have heq := String.le_antisymm (String.not_lt.mp hba) (String.not_lt.mp hab)
          exact (ih bs).imp (fun h => .inr ⟨heq, h⟩) fun h => .inr ⟨heq.symm, h⟩

theorem namesLe_antisymm (h : namesLe as bs = true) (h' : namesLe bs as = true) : as = bs := by
  induction as generalizing bs with
  | nil =>
    cases bs with
    | nil => rfl
    | cons b bs => cases h'
  | cons a as ih =>
    cases bs with
    | nil => cases h
    | cons b bs =>
      rw [namesLe_cons_iff] at h h'
      obtain hab | ⟨rfl, h⟩ := h
      · obtain hba | ⟨rfl, -⟩ := h'
        · exact absurd hba (String.lt_asymm hab)
        · exact absurd hab (String.lt_irrefl _)
      · obtain hba | ⟨-, h'⟩ := h'
        · exact absurd hba (String.lt_irrefl _)
        · rw [ih h h']

end Path

/-! ## The queue -/

namespace Pass

/-- A pass deals with documents of a kind. -/
def covers (pass : Pass) : DocumentKind → Bool
  | .component => pass.coversComponents
  | .template => pass.coversTemplates

/-- The visited files that a selector takes for a kind of document, in the order of their names. -/
def chosen (selector : Selector) (kind : DocumentKind) (visited : List (List String)) :
    List (List String) :=
  (visited.filter fun f => selector.selects kind (Path.ofNames f)).mergeSort Path.namesLe

/-- The names of the files that a pass deals with, in the order in which it does. -/
def sites (pass : Pass) (selector : Selector) (visited : List (List String)) :
    List (List String × DocumentKind) :=
  (if pass.coversComponents then
      (chosen selector .component visited).map fun f => (f, .component) else [])
    ++ (if pass.coversTemplates then
      (chosen selector .template visited).map fun f => (f, .template) else [])

theorem queue_ofVisits (visits : List Tree.Visit) :
    pass.queue (Discovery.ofVisits root selector visits) =
      (pass.sites selector (Discovery.files visits)).map fun f => (Path.joinAll root f.1, f.2) := by
  have hselect : ∀ kind', (Discovery.select root (selector.selects kind')
      (Discovery.files visits)).map (fun p => (p, kind')) =
        ((chosen selector kind' (Discovery.files visits)).map fun f => (f, kind')).map
          fun f => (Path.joinAll root f.1, f.2) := by
    intro kind'
    rw [Discovery.select, List.map_map, List.map_map]
    rfl
  rw [queue, sites, List.map_append]
  congr 1
  · split
    · exact hselect .component
    · rfl
  · split
    · exact hselect .template
    · rfl

theorem mem_chosen :
    rel ∈ chosen selector kind visited ↔
      rel ∈ visited ∧ selector.selects kind (Path.ofNames rel) = true := by
  rw [chosen, List.mem_mergeSort, List.mem_filter]

theorem nodup_chosen (h : visited.Nodup) : (chosen selector kind visited).Nodup :=
  (List.mergeSort_perm _ _).nodup_iff.mpr (h.filter _)

theorem sorted_chosen (selector : Selector) (kind : DocumentKind) (visited : List (List String)) :
    (chosen selector kind visited).Pairwise fun as bs => Path.namesLe as bs = true := by
  have htrans : ∀ as bs cs, Path.namesLe as bs = true → Path.namesLe bs cs = true →
      Path.namesLe as cs = true := fun _ _ _ => Path.namesLe_trans
  have htotal : ∀ as bs, (Path.namesLe as bs || Path.namesLe bs as) = true := by
    simpa only [Bool.or_eq_true] using Path.namesLe_total
  exact List.pairwise_mergeSort htrans htotal _

/-- The chosen files are told by which they are: their order is that of their names. -/
theorem chosen_eq_of_perm {visited' : List (List String)}
    (h : (chosen selector kind visited).Perm (chosen selector kind visited')) :
    chosen selector kind visited = chosen selector kind visited' :=
  List.Perm.eq_of_pairwise (fun _ _ _ _ => Path.namesLe_antisymm) (sorted_chosen ..)
    (sorted_chosen ..) h

/-- Two walks that visit the same selected files, each of them once, have the same files chosen in
the same order. -/
theorem chosen_congr {visited' : List (List String)} (h : visited.Nodup) (h' : visited'.Nodup)
    (hmem : ∀ rel, selector.selects kind (Path.ofNames rel) = true →
      (rel ∈ visited ↔ rel ∈ visited')) :
    chosen selector kind visited = chosen selector kind visited' := by
  refine chosen_eq_of_perm ?_
  rw [List.perm_ext_iff_of_nodup (nodup_chosen h) (nodup_chosen h')]
  intro rel
  rw [mem_chosen, mem_chosen]
  exact and_congr_left (hmem rel)

/-- In which order the files are visited does not matter. -/
theorem chosen_of_perm {visited' : List (List String)} (h : visited.Perm visited') :
    chosen selector kind visited = chosen selector kind visited' := by
  refine chosen_eq_of_perm ?_
  exact (List.mergeSort_perm _ _).trans ((h.filter _).trans (List.mergeSort_perm _ _).symm)

/-- The files of a pass are those that were visited and are selected. -/
theorem mem_sites :
    (rel, kind) ∈ pass.sites selector visited ↔
      rel ∈ visited ∧ selector.selects kind (Path.ofNames rel) = true ∧
        pass.covers kind = true := by
  rw [sites, List.mem_append]
  cases kind with
  | component =>
    by_cases hcovers : pass.coversComponents = true
    · simp [hcovers, covers, mem_chosen]
    · simp [hcovers, covers]
  | template =>
    by_cases hcovers : pass.coversTemplates = true
    · simp [hcovers, covers, mem_chosen]
    · simp [hcovers, covers]

theorem sites_nil : pass.sites selector [] = [] := by
  simp [sites, chosen]

/-- No file is dealt with twice. -/
theorem nodup_sites (h : visited.Nodup) :
    ((pass.sites selector visited).map Prod.fst).Nodup := by
  have hmap : ∀ kind', ((chosen selector kind' visited).map fun f => (f, kind')).map Prod.fst =
      chosen selector kind' visited := by
    intro kind'
    rw [List.map_map]
    exact List.map_id _
  rw [sites, List.map_append, List.nodup_append']
  refine ⟨?_, ?_, ?_⟩
  · split
    · rw [hmap]
      exact nodup_chosen h
    · exact List.nodup_nil
  · split
    · rw [hmap]
      exact nodup_chosen h
    · exact List.nodup_nil
  · split
    · split
      · rw [hmap, hmap, List.disjoint_left]
        intro f hcomponent htemplate
        have hkind := Selector.selects_unique (mem_chosen.mp hcomponent).2
          (mem_chosen.mp htemplate).2
        cases hkind
      · exact List.disjoint_nil_right _
    · exact List.disjoint_nil_left _

end Pass

/-! ## The start of a run -/

theorem find_eq_ok_iff {found : Discovery} :
    Discovery.find t root scan suffix = .ok found ↔
      ∃ selector, Selector.ofSettings scan suffix = .ok selector ∧
        found = Discovery.ofVisits root selector (t.walk scan.followLinks root) := by
  constructor
  · intro h
    obtain ⟨selector, hselector, h⟩ := exists_ok_of_bind h
    cases h
    exact ⟨selector, hselector, rfl⟩
  · rintro ⟨selector, hselector, rfl⟩
    unfold Discovery.find
    rw [hselector]
    rfl

theorem existingRoot_eq_ok_iff :
    scan.existingRoot t = .ok root ↔ scan.root = some root ∧ t.isDirectory root = true := by
  unfold Settings.Scan.existingRoot
  cases scan.root with
  | none => simp
  | some name =>
    by_cases hdir : t.isDirectory name = true
    · simp only [hdir, if_true, Except.ok.injEq, Option.some.injEq]
      exact ⟨fun h => ⟨h, h ▸ hdir⟩, fun h => h.1⟩
    · simp only [hdir, Bool.false_eq_true, if_false, Option.some.injEq, reduceCtorEq, false_iff]
      exact fun h => hdir (h.1 ▸ h.2)

/-- A run starts where there are a root, which is a directory, headings that are in order, and
globs that can be read. -/
theorem start_eq_ok_iff {r : Run} :
    Run.start settings pass write t = .ok r ↔
      ∃ root found, settings.scan.root = some root ∧ t.isDirectory root = true ∧
        settings.headings.check = .ok () ∧
        Discovery.find t root settings.scan settings.backup.suffix = .ok found ∧
        r = Run.ofQueue settings write found.errors (pass.queue found) t := by
  constructor
  · intro h
    unfold Run.start at h
    obtain ⟨root, hroot, h⟩ := exists_ok_of_bind h
    obtain ⟨hname, hdir⟩ := existingRoot_eq_ok_iff.mp hroot
    obtain ⟨⟨⟩, hheadings, h⟩ := exists_ok_of_bind h
    obtain ⟨found, hfound, h⟩ := exists_ok_of_bind h
    cases h
    exact ⟨root, found, hname, hdir, hheadings, hfound, rfl⟩
  · rintro ⟨root, found, hname, hdir, hheadings, hfound, rfl⟩
    unfold Run.start
    rw [existingRoot_eq_ok_iff.mpr ⟨hname, hdir⟩, hheadings]
    simp only [bind, Except.bind, hfound]
    rfl

/-! ## Reports and events -/

namespace Run

variable {walkErrors : List String} {queue : List (String × DocumentKind)}

theorem reports_ofQueue :
    (ofQueue settings write walkErrors queue t).summary.reports =
      (t.repairFiles settings write queue).1 := rfl

/-- The events of a run are told by its reports. -/
theorem events_ofQueue :
    (ofQueue settings write walkErrors queue t).events =
      .discovered (countKind .component queue) (countKind .template queue) ::
        Event.ofReports queue.length 1 (t.repairFiles settings write queue).1 := rfl

end Run
end ThemeRepair
