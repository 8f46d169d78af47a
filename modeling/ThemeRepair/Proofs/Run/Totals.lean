import ThemeRepair.Proofs.Run.Edits

/-!
# What the totals of a run count

A report lists what was fixed where the file is changed, and also where its commit was refused
(`Ends.listsFixes`).  The event of the file tells these fixes in the first case only.  So the number
of fixes in the totals is the number of those that the events tell, and with it the number of those
that refused commits did not make (`totals_count_refused_commits`): the totals agree with the events
exactly in the runs in which no commit is refused.
-/

namespace ThemeRepair

variable {settings : Settings} {pass : Pass} {write : Bool} {t t' : Tree} {path : String}
  {kind : DocumentKind} {report : Report} {reports : List Report}
  {queue : List (String × DocumentKind)}

/-- The codes that a status carries. -/
def Status.codes : Status → List String
  | .unchanged => []
  | .fixed codes => codes
  | .manual _ => []
  | .failed _ => []

/-- The codes that an event carries. -/
def Event.codes : Event → List String
  | .discovered _ _ => []
  | .file _ _ _ status => status.codes

/-! ## One report -/

/-- A report lists fixes where the file is changed or its commit was refused, and is not both. -/
structure Report.ListsFixes (r : Report) : Prop where
  fixed_iff : r.fixed ≠ [] ↔ r.changed = true ∨ r.commitRefused = true
  failure_of_changed : r.changed = true → r.failure = none

theorem Ends.listsFixes (h : Ends settings t path kind write report t') : report.ListsFixes := by
  have hunchanged : ∀ {failure : Option Failure}, false = true → failure = none :=
    fun h => absurd h Bool.false_ne_true
  cases h with
  | unreadable => exact ⟨by simp [Report.commitRefused, Failure.isOfCommit], hunchanged⟩
  | refused => exact ⟨by simp [Report.commitRefused, Failure.isOfCommit], hunchanged⟩
  | settled => exact ⟨by simp [Report.commitRefused], hunchanged⟩
  | announced _ _ hnew =>
    have hfixed := (not_or.mp hnew).1
    exact ⟨by simpa using hfixed, fun _ => rfl⟩
  | committed _ _ hnew _ =>
    have hfixed := (not_or.mp hnew).1
    exact ⟨by simpa using hfixed, fun _ => rfl⟩
  | commitRefused _ _ hnew hcommit =>
    have hfixed := (not_or.mp hnew).1
    have hof := Document.isOfCommit_of_commit hcommit
    exact ⟨by simpa [Report.commitRefused, hof] using hfixed, hunchanged⟩

namespace Report.ListsFixes

variable (h : report.ListsFixes)
include h

theorem codes_eq_nil (hchanged : report.changed = false) (hcommit : report.commitRefused = false) :
    report.codes = [] := by
  have hfixed : report.fixed = [] := by
    by_contra hne
    rcases h.fixed_iff.mp hne with htrue | htrue
    · rw [hchanged] at htrue
      cases htrue
    · rw [hcommit] at htrue
      cases htrue
  rw [codes, hfixed]
  rfl

/-- The status carries the codes of what was fixed, unless the commit was refused. -/
theorem codes_status :
    report.status.codes = if report.commitRefused then [] else report.codes := by
  cases hfailure : report.failure with
  | some failure =>
    have hchanged : report.changed = false := by
      by_contra htrue
      rw [h.failure_of_changed (Bool.eq_true_of_not_eq_false htrue)] at hfailure
      cases hfailure
    have hnone : report.status.codes = [] := by
      rw [status, hfailure]
      rfl
    rw [hnone]
    split
    · rfl
    · next hkept => exact (h.codes_eq_nil hchanged (Bool.eq_false_iff.mpr hkept)).symm
  | none =>
    have hkept : report.commitRefused = false := by
      rw [commitRefused, hfailure]
      rfl
    rw [hkept, if_neg Bool.false_ne_true, status, hfailure]
    dsimp only
    cases hchanged : report.changed with
    | true => rfl
    | false =>
      rw [h.codes_eq_nil hchanged hkept, if_neg Bool.false_ne_true]
      split <;> rfl

theorem codes_ne_nil (hcommit : report.commitRefused = true) : report.codes ≠ [] := by
  have hfixed := h.fixed_iff.mpr (.inr hcommit)
  rw [codes, ne_eq, List.map_eq_nil_iff]
  exact hfixed

end Report.ListsFixes

/-! ## All reports of a run -/

theorem listsFixes_of_mem_repairFiles (h : report ∈ (t.repairFiles settings write queue).1) :
    report.ListsFixes := by
  obtain ⟨s, path, kind, s', hends⟩ := exists_ends_of_mem_repairFiles h
  exact hends.listsFixes

theorem Summary.fixCount_eq (s : Summary) :
    s.fixCount = (s.reports.flatMap Report.codes).length := by
  rw [fixCount, sumOf]
  induction s.reports with
  | nil => rfl
  | cons r reports ih =>
    rw [List.foldr_cons, ih, List.flatMap_cons, List.length_append, Report.codes, List.length_map]

theorem Event.codes_ofReports (total first : Nat) (reports : List Report) :
    (ofReports total first reports).flatMap codes = reports.flatMap fun r => r.status.codes := by
  induction reports generalizing first with
  | nil => rfl
  | cons r reports ih =>
    rw [ofReports, List.flatMap_cons, List.flatMap_cons, ih]
    rfl

/-- The fixes that reports list are those of their statuses and those of refused commits. -/
theorem length_codes_of_listsFixes (h : ∀ r ∈ reports, r.ListsFixes) :
    (reports.flatMap Report.codes).length =
      (reports.flatMap fun r => r.status.codes).length
        + ((reports.filter Report.commitRefused).flatMap Report.codes).length := by
  induction reports with
  | nil => rfl
  | cons r reports ih =>
    have hr := (h r List.mem_cons_self).codes_status
    have hrest := ih fun s hs => h s (List.mem_cons_of_mem r hs)
    rw [List.flatMap_cons, List.flatMap_cons, List.length_append, List.length_append, hrest, hr]
    cases hrefused : r.commitRefused with
    | true =>
      rw [List.filter_cons_of_pos hrefused, List.flatMap_cons, List.length_append, if_pos rfl,
        List.length_nil]
      omega
    | false =>
      rw [List.filter_cons_of_neg (by simp [hrefused]), if_neg Bool.false_ne_true]
      omega

/-- Reports of refused commits list fixes. -/
theorem codes_of_refused_eq_nil_iff (h : ∀ r ∈ reports, r.ListsFixes) :
    (reports.filter Report.commitRefused).flatMap Report.codes = [] ↔
      ∀ r ∈ reports, r.commitRefused = false := by
  rw [List.flatMap_eq_nil_iff]
  constructor
  · intro hnone r hr
    by_contra htrue
    have hrefused := Bool.eq_true_of_not_eq_false htrue
    exact (h r hr).codes_ne_nil hrefused (hnone r (List.mem_filter.mpr ⟨hr, hrefused⟩))
  · intro hnone r hr
    obtain ⟨hmem, hrefused⟩ := List.mem_filter.mp hr
    rw [hnone r hmem] at hrefused
    cases hrefused

/-- **The totals of a run count the fixes of its events, and those of refused commits with them.**
A report lists fixes exactly if the file is changed or its commit was refused, and the totals agree
with the events exactly if no commit was refused. -/
theorem totals_count_refused_commits {r : Run} (h : Run.start settings pass write t = .ok r) :
    (∀ report ∈ r.summary.reports,
      (report.codes ≠ [] ↔ report.changed = true ∨ report.commitRefused = true) ∧
      (report.fixedLines ≠ [] ↔ report.changed = true ∨ report.commitRefused = true)) ∧
    r.summary.fixCount = (r.events.flatMap Event.codes).length +
      ((r.summary.reports.filter Report.commitRefused).flatMap Report.codes).length ∧
    (r.summary.fixCount = (r.events.flatMap Event.codes).length ↔
      ∀ report ∈ r.summary.reports, report.commitRefused = false) := by
  obtain ⟨root, found, -, -, -, -, rfl⟩ := start_eq_ok_iff.mp h
  have hlists : ∀ report ∈ (t.repairFiles settings write (pass.queue found)).1,
      report.ListsFixes := fun report => listsFixes_of_mem_repairFiles
  have hcount : (Run.ofQueue settings write found.errors (pass.queue found) t).summary.fixCount =
      ((Run.ofQueue settings write found.errors (pass.queue found) t).events.flatMap
        Event.codes).length +
      (((t.repairFiles settings write (pass.queue found)).1.filter
        Report.commitRefused).flatMap Report.codes).length := by
    rw [Summary.fixCount_eq, Run.reports_ofQueue, length_codes_of_listsFixes hlists,
      Run.events_ofQueue, List.flatMap_cons, Event.codes_ofReports]
    rfl
  rw [Run.reports_ofQueue]
  refine ⟨fun report hreport => ?_, hcount, ?_⟩
  · rw [Report.codes, Report.fixedLines, ne_eq, ne_eq, List.map_eq_nil_iff, List.map_eq_nil_iff]
    exact ⟨(hlists report hreport).fixed_iff, (hlists report hreport).fixed_iff⟩
  · rw [← codes_of_refused_eq_nil_iff hlists, ← List.length_eq_zero_iff, hcount]
    omega

/-- The component definition is changed, and the template is not since its backup cannot be
written; the totals count two fixes, and the events tell one. -/
theorem totals_count_refused_commits_blockedBackup :
    ∃ r, Run.start hereSettings .all true blockedBackup = .ok r ∧
      r.summary.reports.map (fun report => (report.changed, report.commitRefused)) =
        [(true, false), (false, true)] ∧
      r.summary.fixCount = (r.events.flatMap Event.codes).length +
        ((r.summary.reports.filter Report.commitRefused).flatMap Report.codes).length ∧
      (r.events.flatMap Event.codes).length = 1 := by
  have hevaluated : (Run.start hereSettings .all true blockedBackup).map
      (fun r => (r.summary.reports.map fun report => (report.changed, report.commitRefused),
        (r.events.flatMap Event.codes).length)) =
        .ok ([(true, false), (false, true)], 1) := by
    decide +kernel
  obtain ⟨r, hrun, hvalues⟩ := exists_ok_of_map hevaluated
  obtain ⟨hreports, hcodes⟩ := Prod.mk.inj hvalues
  obtain ⟨-, hcount, -⟩ := totals_count_refused_commits hrun
  exact ⟨r, hrun, hreports, hcount, hcodes⟩

/-- A fix that was not made is counted: the totals do not agree with the events, and a report lists
a fixed finding although its file is not changed. -/
theorem totals_disagree_with_events :
    ∃ r, Run.start hereSettings .all true blockedBackup = .ok r ∧
      r.summary.fixCount ≠ (r.events.flatMap Event.codes).length ∧
      ∃ report ∈ r.summary.reports, report.codes ≠ [] ∧ report.fixedLines ≠ [] ∧
        report.changed = false := by
  have hevaluated : (Run.start hereSettings .all true blockedBackup).map
      (fun r => ((r.summary.fixCount, (r.events.flatMap Event.codes).length),
        r.summary.reports.any fun report =>
          !report.codes.isEmpty && !report.fixedLines.isEmpty && !report.changed)) =
        .ok ((2, 1), true) := by
    decide +kernel
  obtain ⟨r, hrun, hvalues⟩ := exists_ok_of_map hevaluated
  obtain ⟨hcounts, hany⟩ := Prod.mk.inj hvalues
  obtain ⟨hcount, hcodes⟩ := Prod.mk.inj hcounts
  obtain ⟨report, hreport, hlists⟩ := List.any_eq_true.mp hany
  refine ⟨r, hrun, ?_, report, hreport, ?_⟩
  · rw [hcount, hcodes]
    decide
  · simpa [and_assoc] using hlists

end ThemeRepair
