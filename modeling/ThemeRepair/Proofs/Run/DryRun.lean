import ThemeRepair.Proofs.Run.Edits

/-!
# A dry run foretells the run

A run that does not write deals with every file in the tree as it is and leaves it so
(`repairFiles_dry`).  A run that writes changes the tree from file to file; but files do not meet,
so each is found as it was before the run, and what is reported of it differs from what a dry run
reports only where a commit is refused and in the name of the backup (`Ends.dry`).  So where no
commit is refused, the dry run tells beforehand what the run will tell (`dry_run_foretells_run`).
-/

namespace ThemeRepair

variable {settings : Settings} {pass : Pass} {t t' : Tree} {path : String} {kind : DocumentKind}
  {report : Report}

/-- The report without the place of the backup. -/
def Report.withoutBackup (r : Report) : Report := { r with backup := none }

@[simp] theorem Report.path_withoutBackup (r : Report) : r.withoutBackup.path = r.path := rfl

@[simp] theorem Report.status_withoutBackup (r : Report) : r.withoutBackup.status = r.status := rfl

/-- What is told of files does not depend on where their backups are. -/
theorem Event.ofReports_withoutBackup (total first : Nat) (reports : List Report) :
    ofReports total first (reports.map Report.withoutBackup) = ofReports total first reports := by
  induction reports generalizing first with
  | nil => rfl
  | cons r reports ih =>
    rw [List.map_cons, ofReports, ofReports, ih, Report.path_withoutBackup,
      Report.status_withoutBackup]

/-! ## Files of a dry run -/

/-- A run that does not write leaves the tree as it is. -/
theorem Ends.tree_eq (h : Ends settings t path kind false report t') : t' = t := by
  cases h with
  | unreadable => rfl
  | refused => rfl
  | settled => rfl
  | announced => rfl

/-- A file whose commit is not refused is reported by a dry run as it is by the run, but for the
backup. -/
theorem Ends.dry (h : Ends settings t path kind true report t')
    (hcommit : report.commitRefused = false) :
    t.repairFile settings false path kind = (report.withoutBackup, t) := by
  unfold Tree.repairFile
  cases h with
  | unreadable hread =>
    rw [hread]
    rfl
  | refused hread hrepair =>
    rw [hread]
    dsimp only
    rw [hrepair]
    rfl
  | settled hread hrepair hsame =>
    obtain rfl := Document.path_of_read hread
    rw [hread]
    dsimp only
    rw [hrepair]
    dsimp only
    rw [Document.settle, if_pos hsame]
    rfl
  | committed hread hrepair hnew _ =>
    obtain rfl := Document.path_of_read hread
    rw [hread]
    dsimp only
    rw [hrepair]
    dsimp only
    rw [Document.settle, if_neg hnew]
    rfl
  | commitRefused hread hrepair hnew hrefused =>
    have hof := Document.isOfCommit_of_commit hrefused
    rw [Report.commitRefused, Option.any_some, hof] at hcommit
    cases hcommit

/-- A dry run deals with every file in the tree as it is. -/
theorem repairFiles_dry (settings : Settings) (queue : List (String × DocumentKind)) (t : Tree) :
    t.repairFiles settings false queue =
      (queue.map fun f => (t.repairFile settings false f.1 f.2).1, t) := by
  induction queue with
  | nil => rfl
  | cons f queue ih =>
    have hsame := (t.ends_repairFile settings false f.1 f.2).tree_eq
    rw [Tree.repairFiles]
    dsimp only
    rw [hsame, ih]
    rfl

/-- A dry run leaves the tree as it is. -/
theorem tree_of_dry_start {d : Run} (h : Run.start settings pass false t = .ok d) : d.tree = t := by
  obtain ⟨root, found, -, -, -, -, rfl⟩ := start_eq_ok_iff.mp h
  exact congrArg Prod.snd (repairFiles_dry settings (pass.queue found) t)

/-- A run that does not start does not start as a dry run either, and the other way round. -/
theorem start_eq_error_of_start {write write' : Bool} {e : SettingsError}
    (h : Run.start settings pass write t = .error e) :
    Run.start settings pass write' t = .error e := by
  rw [Run.start] at h ⊢
  cases hroot : settings.scan.existingRoot t with
  | error e' =>
    rw [hroot] at h
    exact h
  | ok root =>
    rw [hroot] at h
    cases hheadings : settings.headings.check with
    | error e' =>
      rw [hheadings] at h
      exact h
    | ok _ =>
      rw [hheadings] at h
      cases hfound : Discovery.find t root settings.scan settings.backup.suffix with
      | error e' =>
        simp only [bind, Except.bind, hfound] at h ⊢
        exact h
      | ok found =>
        simp only [bind, Except.bind, hfound] at h
        cases h

/-! ## The run foretold -/

/-- **A dry run foretells the run.**  It leaves the tree as it is, also if it is the program that is
asked for it.  And where a run that writes does not start, the dry run does not start for the same
reason; where it starts and no commit is refused, the dry run starts in the same tree and tells the
same events in the same order, and its reports are those of the run without the backups. -/
theorem dry_run_foretells_run (ht : t.Proper) (htfree : t.LinkFree)
    (hcheck : settings.check = .ok ()) (hslash : '/' ∉ settings.backup.suffix.toList)
    (pass : Pass) :
    (∀ d, Run.start settings pass false t = .ok d → d.tree = t) ∧
    (∀ request : CommandLine.Request, request.write = false → (request.execute t).tree = t) ∧
    (∀ e, Run.start settings pass true t = .error e → Run.start settings pass false t = .error e) ∧
    ∀ r, Run.start settings pass true t = .ok r →
      (∀ report ∈ r.summary.reports, report.commitRefused = false) →
      ∃ d, Run.start settings pass false t = .ok d ∧ d.events = r.events ∧
        d.summary.reports = r.summary.reports.map Report.withoutBackup ∧
        d.summary.walkErrors = r.summary.walkErrors := by
  refine ⟨fun d => tree_of_dry_start, fun request hwrite => ?_, fun e => start_eq_error_of_start,
    fun r hstart hcommits => ?_⟩
  · rw [CommandLine.Request.execute]
    cases hrun : request.run t with
    | error e => rfl
    | ok run =>
      obtain ⟨settings', -, hrun⟩ := exists_ok_of_bind hrun
      rw [hwrite] at hrun
      exact tree_of_dry_start hrun
  · obtain ⟨root, found, hroot, hdir, hheadings, hfound, rfl⟩ := start_eq_ok_iff.mp hstart
    obtain ⟨root', found', hroot', hfound', -, hreports, -⟩ :=
      start_edits ht htfree hcheck hslash hstart
    rw [Run.reports_ofQueue] at hreports hcommits
    obtain rfl : root = root' := Option.some.inj (hroot.symm.trans hroot')
    obtain rfl : found = found' := Except.ok.inj (hfound.symm.trans hfound')
    -- each file was found by the run as the dry run finds it
    have hdry : (t.repairFiles settings false (pass.queue found)).1 =
        (t.repairFiles settings true (pass.queue found)).1.map Report.withoutBackup := by
      rw [repairFiles_dry, hreports, List.map_map]
      apply List.map_congr_left
      intro f hf
      have hends := t.ends_repairFile settings true f.1 f.2
      have hcommit := hcommits (t.repairFile settings true f.1 f.2).1 (by
        rw [hreports]
        exact List.mem_map_of_mem hf)
      rw [hends.dry hcommit, Function.comp_apply]
    refine ⟨Run.ofQueue settings false found.errors (pass.queue found) t,
      start_eq_ok_iff.mpr ⟨root, found, hroot, hdir, hheadings, hfound, rfl⟩, ?_, hdry, rfl⟩
    rw [Run.events_ofQueue, Run.events_ofQueue, hdry, Event.ofReports_withoutBackup]

/-- The settings of a run in the working directory with a suffix of its own for backups. -/
def originalsSettings : Settings where
  scan := { root := some "." }
  backup := { suffix := ".orig" }

/-- Both files are edited by the run, and the dry run in the same tree tells so beforehand. -/
theorem dry_run_foretells_run_originals :
    ∃ r d, Run.start originalsSettings .all true blockedBackup = .ok r ∧
      r.summary.reports.map (fun report => (report.path, report.changed)) =
        [("./a.component.yml", true), ("./b.twig", true)] ∧
      Run.start originalsSettings .all false blockedBackup = .ok d ∧ d.events = r.events ∧
      d.summary.reports = r.summary.reports.map Report.withoutBackup ∧
      d.tree = blockedBackup := by
  have hcheck : originalsSettings.check = .ok () := by decide +kernel
  have hslash : '/' ∉ originalsSettings.backup.suffix.toList := by decide +kernel
  obtain ⟨hdry, -, -, hforetold⟩ := dry_run_foretells_run proper_blockedBackup
    linkFree_blockedBackup hcheck hslash .all
  have hreports : (Run.start originalsSettings .all true blockedBackup).map
      (fun r => (r.summary.reports.map fun report => (report.path, report.changed),
        r.summary.reports.all fun report => !report.commitRefused)) =
        .ok ([("./a.component.yml", true), ("./b.twig", true)], true) := by
    decide +kernel
  obtain ⟨r, hrun, hvalues⟩ := exists_ok_of_map hreports
  obtain ⟨hchanged, hall⟩ := Prod.mk.inj hvalues
  have hcommits : ∀ report ∈ r.summary.reports, report.commitRefused = false := by
    intro report hreport
    simpa using List.all_eq_true.mp hall report hreport
  obtain ⟨d, hstart, hevents, hsame, -⟩ := hforetold r hrun hcommits
  exact ⟨r, d, hrun, hchanged, hstart, hevents, hsame, hdry d hstart⟩

end ThemeRepair
