import ThemeRepair.Proofs.Document.Rereading
import ThemeRepair.Proofs.Run.Edits

/-!
# A run over what a run left behind

What a run adds to a tree are backups, and no run looks at these: the next run finds the same files
(`IsRunOf.chosen_eq`).  A component definition that was edited holds the text of its repair, so
there is nothing left to do.  One that was not edited is found as it was, and its backup can be
opened where it could be before; so it is passed over or refused once more, and if its commit is
refused, then over the same backup, which is written as it is (`IsRunOf.idle_again`).  A run that
leaves the tree as it is with every file leaves it so on the whole (`repairFiles_of_idle`), and with
it the backups (`second_run_changes_nothing`).
-/

namespace ThemeRepair

open ThemeRepair.Tree (IsBelow SameDirectories)

variable {s s' t t' : Tree} {top : Location} {root : String} {rel : List String} {mode : Nat}
  {settings : Settings} {kind : DocumentKind} {selector : Selector} {followLinks : Bool}
  {queue : List (List String × DocumentKind)} {f : List String × DocumentKind}

/-! ## The files that are found -/

/-- The order in which the tree lists its entries does not matter. -/
theorem IsRunOf.relist (h : IsRunOf settings root top t queue s s') (hs : s.Proper)
    (hlist : t'.Relists s') : IsRunOf settings root top t queue s t' := by
  have hnode : ∀ l, t'.node? l = s'.node? l := hlist.node? (h.proper hs)
  exact ⟨(Tree.sameDirectories_of_node? hnode).trans h.sameDirectories, h.linkFree.congr hnode,
    fun _ => hlist.proper (h.proper hs), fun f hf l hl => (hnode l).trans (h.alone f hf l hl),
    fun l hl => (hnode l).trans (h.kept l hl)⟩

section Found

variable (h : IsRunOf settings root top t queue t s') (htfree : t.LinkFree)
  (hne : settings.backup.suffix ≠ "") (hslash : '/' ∉ settings.backup.suffix.toList)
  (hsites : ∀ f ∈ queue, IsSite t root top settings.backup.suffix f.1)
include h htfree hne hslash hsites

/-- Files come and go as backups only. -/
theorem IsRunOf.hasFile_iff
    (hrel : Selector.isBackup settings.backup.suffix (Path.ofNames rel) = false) :
    s'.HasFile (top ++ rel) ↔ t.HasFile (top ++ rel) := by
  by_cases htouched : ∃ f ∈ queue, Touches top settings.backup.suffix f.1 (top ++ rel)
  · obtain ⟨f, hf, htouch⟩ := htouched
    have hname : top ++ rel = top ++ f.1 := by
      refine htouch.resolve_right fun hbackup => ?_
      rw [List.append_cancel_left hbackup, isBackup_suffixed] at hrel
      cases hrel
    have htraces := h.traces htfree hne hslash hsites hf
    rw [hname]
    cases hchanged : (reportOf settings root t f).changed with
    | true =>
      -- an edit is where a file was
      obtain ⟨doc, o, hedit⟩ := htraces.edited hchanged
      obtain ⟨mode, hnew⟩ := hedit.file
      obtain ⟨-, mode', hold⟩ :=
        (hsites f hf).below.of_read htfree (Document.encode_text_of_read hedit.read)
      exact ⟨fun _ => ⟨_, mode', hold⟩, fun _ => ⟨_, mode, hnew⟩⟩
    | false => rw [Tree.HasFile, Tree.HasFile, htraces.unchanged hchanged]
  · have hnode := h.kept (top ++ rel) fun f hf htouch => htouched ⟨f, hf, htouch⟩
    rw [Tree.HasFile, Tree.HasFile, hnode]

/-- A run finds the files that the run before it found. -/
theorem IsRunOf.chosen_eq (ht : t.Proper)
    (hres : t.resolve root .read = .ok (.found top (.directory mode)))
    (hselector : Selector.ofSettings settings.scan settings.backup.suffix = .ok selector) :
    Pass.chosen selector kind (Discovery.files (s'.walk followLinks root)) =
      Pass.chosen selector kind (Discovery.files (t.walk followLinks root)) := by
  have hres' := Tree.resolve_directory htfree h.sameDirectories hres
  refine Pass.chosen_congr (Tree.nodup_files_walk (h.proper ht) h.linkFree hres')
    (Tree.nodup_files_walk ht htfree hres) fun rel hselects => ?_
  rw [Tree.mem_files_walk (h.proper ht) h.linkFree hres', Tree.mem_files_walk ht htfree hres,
    h.hasFile_iff htfree hne hslash hsites (Selector.isBackup_of_selects hselector hselects)]

/-! ## What is done to them -/

/-- A component definition is not edited again, and nothing else is changed for it: it was edited,
or it is dealt with as it was.  Where its commit was refused, the system has to refuse it again. -/
theorem IsRunOf.idle_again (hf : f ∈ queue) (hkind : f.2 = .component)
    (hacts : (reportOf settings root t f).commitRefused = true →
      s'.system.ActsLike t.system (Path.joinAll root f.1)) :
    (reportOf settings root s' f).changed = false ∧ leftOf settings root s' f = s' := by
  have hbelow := (hsites f hf).below
  have htraces := h.traces htfree hne hslash hsites hf
  cases hchanged : (reportOf settings root t f).changed with
  | true =>
    -- what the file holds now is the text of its repair, which has nothing left to fix
    obtain ⟨doc, o, hedit⟩ := htraces.edited hchanged
    obtain ⟨hnew, -⟩ := hedit.reads hbelow htfree hslash h.sameDirectories h.linkFree
    have hrepair := hedit.repair
    have hkind' : (reportOf settings root t f).kind = .component :=
      ((t.ends_repairFile settings true (Path.joinAll root f.1) f.2).path_and_kind.2).trans hkind
    rw [hkind'] at hrepair
    rw [reportOf, leftOf, hkind, Tree.repairFile_of_repaired hedit.read hrepair hnew]
    exact ⟨rfl, rfl⟩
  | false =>
    have htried : (reportOf settings root t f).tried = true →
        (reportOf settings root t f).commitRefused = true := by
      rw [Report.tried, hchanged, Bool.false_or]
      exact id
    obtain ⟨report, puts, hnodup, htouches, hagain, hbefore⟩ :=
      repairFile_congr f.2 (hbelow.transfer htfree h.sameDirectories) h.linkFree hbelow htfree hne
        hslash (htraces.unchanged hchanged) htraces.reopened fun hacted => hacts (htried hacted)
    have hreport : reportOf settings root t f = report := congrArg Prod.fst hbefore
    have hleft : leftOf settings root t f = t.putAll puts := congrArg Prod.snd hbefore
    rw [hreport] at hchanged
    rw [reportOf, leftOf, hagain]
    refine ⟨hchanged, Tree.putAll_eq_self fun p hp => ?_⟩
    -- what was put in the tree is there
    have hplace : p.1 ≠ [] := by
      intro hnil
      obtain heq | heq := htouches p hp
      · rw [hnil] at heq
        exact hbelow.ne_nil (List.append_eq_nil_iff.mp heq.symm).2
      · rw [hnil] at heq
        exact Path.suffixed_ne_nil _ _ (List.append_eq_nil_iff.mp heq.symm).2
    rw [h.alone f hf p.1 (htouches p hp), hleft]
    exact ⟨hplace, Tree.node?_putAll_of_mem hnodup hp hplace⟩

end Found

/-- Where every file leaves the tree as it is, each is looked at in the tree as it is. -/
theorem repairFiles_of_idle (h : ∀ f ∈ queue, leftOf settings root s f = s) :
    s.repairFiles settings true (queue.map fun f => (Path.joinAll root f.1, f.2)) =
      (queue.map (reportOf settings root s), s) := by
  induction queue with
  | nil => rfl
  | cons f queue ih =>
    have hsame : (s.repairFile settings true (Path.joinAll root f.1) f.2).2 = s :=
      h f List.mem_cons_self
    have hrest := ih fun g hg => h g (List.mem_cons_of_mem f hg)
    rw [List.map_cons, Tree.repairFiles]
    dsimp only
    rw [hsame, hrest]
    rfl

/-! ## A second run -/

/-- The tree that a run leaves is kept by the same system. -/
theorem system_of_start {pass : Pass} {write : Bool} {r : Run}
    (h : Run.start settings pass write t = .ok r) : r.tree.system = t.system := by
  obtain ⟨root, found, -, -, -, -, rfl⟩ := start_eq_ok_iff.mp h
  exact Tree.system_repairFiles ..

/-- A pass over the component definitions of the tree `t'` has the files of such a pass over the
tree `t`, and none of them is to be edited; the edits of that pass are there. -/
structure IsSettled (settings : Settings) (root : String) (selector : Selector)
    (queue : List (String × DocumentKind)) (t t' : Tree) : Prop where
  isDirectory : t'.isDirectory root = true
  chosen : ∀ kind,
    Pass.chosen selector kind (Discovery.files (t'.walk settings.scan.followLinks root)) =
      Pass.chosen selector kind (Discovery.files (t.walk settings.scan.followLinks root))
  unchanged : ∀ report ∈ (t'.repairFiles settings true queue).1, report.changed = false
  tree : (t'.repairFiles settings true queue).2 = t'
  edits : HasEdits settings t (t.repairFiles settings true queue).1 t'

/-- A pass over the component definitions settles a tree. -/
theorem isSettled_of_pass (ht : t.Proper) (htfree : t.LinkFree) (hcheck : settings.check = .ok ())
    (hslash : '/' ∉ settings.backup.suffix.toList) (hdir : t.isDirectory root = true)
    (hselector : Selector.ofSettings settings.scan settings.backup.suffix = .ok selector)
    {paths : List (String × DocumentKind)}
    (hpaths : paths = Pass.schema.queue
      (Discovery.ofVisits root selector (t.walk settings.scan.followLinks root)))
    (hlist : t'.Relists (t.repairFiles settings true paths).2)
    (hacts : ∀ report ∈ (t.repairFiles settings true paths).1, report.commitRefused = true →
      t'.system.ActsLike t.system report.path) :
    IsSettled settings root selector paths t t' := by
  rw [Pass.queue_ofVisits] at hpaths
  have hne := suffix_ne_empty_of_check hcheck
  obtain ⟨top, mode, hres⟩ | hout := Tree.isDirectory_cases hdir
  · obtain ⟨hsites, -, hreports, hrun⟩ :=
      isRunOf_sites .schema ht htfree hcheck hslash hres hselector rfl
    rw [← hpaths] at hreports hrun
    rw [hreports] at hacts
    have hrun' := hrun.relist ht hlist
    have hidle : ∀ f ∈ Pass.schema.sites selector
        (Discovery.files (t.walk settings.scan.followLinks root)),
        (reportOf settings root t' f).changed = false ∧ leftOf settings root t' f = t' := by
      rintro ⟨rel, kind⟩ hf
      obtain ⟨-, -, hcovers⟩ := Pass.mem_sites.mp hf
      have hpath : (reportOf settings root t (rel, kind)).path = Path.joinAll root rel :=
        (t.ends_repairFile settings true (Path.joinAll root rel) kind).path_and_kind.1
      refine hrun'.idle_again htfree hne hslash hsites hf ?_ fun hrefused =>
        hpath ▸ hacts _ (List.mem_map_of_mem hf) hrefused
      cases kind with
      | component => rfl
      | template => cases hcovers
    have hagain := repairFiles_of_idle fun f hf => (hidle f hf).2
    rw [← hpaths] at hagain
    refine ⟨?_, fun kind => hrun'.chosen_eq htfree hne hslash hsites ht hres hselector, ?_, ?_, ?_⟩
    · exact Tree.isDirectory_of_found (Tree.resolve_directory htfree hrun'.sameDirectories hres)
    · rw [hagain]
      intro report hreport
      obtain ⟨f, hf, rfl⟩ := List.mem_map.mp hreport
      exact (hidle f hf).1
    · rw [hagain]
    · rw [hreports]
      exact hrun'.hasEdits htfree hne hslash hsites
  · -- outside the tree nothing is visited, in one tree as in the other
    have hwalk : t.walk settings.scan.followLinks root = [] := Tree.walk_of_outside htfree hout
    have hnone : Pass.schema.sites selector (Discovery.files []) = [] := Pass.sites_nil
    rw [hwalk, hnone] at hpaths
    obtain rfl : paths = [] := hpaths
    have hnode : ∀ l, t'.node? l = t.node? l := hlist.node? ht
    have hout' := Tree.resolve_outside htfree (Tree.sameDirectories_of_node? hnode) hout
    refine ⟨Tree.isDirectory_of_outside hout', fun kind => ?_, ?_, rfl, .nil hnode⟩
    · rw [hwalk, Tree.walk_of_outside (htfree.congr hnode) hout']
    · exact fun _ hreport => absurd hreport List.not_mem_nil

/-- **A second run over the component definitions changes nothing.**  Over the tree that the first
run left, a run starts, finds the same files, edits none of them and leaves the tree as it is.  It
does not matter in which order the tree lists its entries, and another system may keep it, if it
acts alike on the files whose commit was refused: these are refused again, and a backup that was
written on the way is written again as it is.  The backups that the first run made still hold what
the files held before it. -/
theorem second_run_changes_nothing {r : Run} (ht : t.Proper) (htfree : t.LinkFree)
    (hcheck : settings.check = .ok ()) (hslash : '/' ∉ settings.backup.suffix.toList)
    (hrun : Run.start settings .schema true t = .ok r) (hlist : t'.Relists r.tree)
    (hacts : ∀ report ∈ r.summary.reports, report.commitRefused = true →
      t'.system.ActsLike r.tree.system report.path) :
    ∃ root found found' r', settings.scan.root = some root ∧
      Discovery.find t root settings.scan settings.backup.suffix = .ok found ∧
      Discovery.find t' root settings.scan settings.backup.suffix = .ok found' ∧
      found'.components = found.components ∧ found'.templates = found.templates ∧
      Run.start settings .schema true t' = .ok r' ∧
      r'.summary.reports.map Report.path = r.summary.reports.map Report.path ∧
      (∀ report ∈ r'.summary.reports, report.changed = false) ∧ r'.tree = t' ∧
      (∀ report ∈ r.summary.reports, report.changed = true →
        r'.tree.read (backupPath report.path settings.backup.suffix) = t.read report.path) ∧
      ∀ report ∈ r.summary.reports, ∀ path fault,
        report.failure = some (.file (.write path fault)) →
        r'.tree.read (backupPath report.path settings.backup.suffix) = t.read report.path := by
  rw [system_of_start hrun] at hacts
  obtain ⟨root, found, hroot, hdir, hheadings, hfound, rfl⟩ := start_eq_ok_iff.mp hrun
  obtain ⟨selector, hselector, rfl⟩ := find_eq_ok_iff.mp hfound
  have hsettled := isSettled_of_pass ht htfree hcheck hslash hdir hselector rfl hlist hacts
  have hfound' : Discovery.find t' root settings.scan settings.backup.suffix =
      .ok (Discovery.ofVisits root selector (t'.walk settings.scan.followLinks root)) :=
    find_eq_ok_iff.mpr ⟨selector, hselector, rfl⟩
  have hcomponents := congrArg (List.map (Path.joinAll root)) (hsettled.chosen .component)
  have htemplates := congrArg (List.map (Path.joinAll root)) (hsettled.chosen .template)
  have hqueue : Pass.schema.queue
      (Discovery.ofVisits root selector (t'.walk settings.scan.followLinks root)) =
        Pass.schema.queue
          (Discovery.ofVisits root selector (t.walk settings.scan.followLinks root)) := by
    rw [Pass.queue_ofVisits, Pass.queue_ofVisits, Pass.sites, Pass.sites,
      hsettled.chosen .component, hsettled.chosen .template]
  refine ⟨root, _, _, _, hroot, hfound, hfound', hcomponents, htemplates,
    start_eq_ok_iff.mpr ⟨root, _, hroot, hsettled.isDirectory, hheadings, hfound', rfl⟩, ?_⟩
  rw [hqueue]
  have hread : ∀ path, (t'.repairFiles settings true _).2.read path = t'.read path :=
    fun path => congrArg (fun s : Tree => s.read path) hsettled.tree
  refine ⟨?_, hsettled.unchanged, hsettled.tree, fun report hreport hchanged => ?_,
    fun report hreport path fault hfailure => ?_⟩
  · exact (map_path_repairFiles ..).trans (map_path_repairFiles ..).symm
  · obtain ⟨doc, o, -, -, -, hbackup⟩ := hsettled.edits.edited report hreport hchanged
    exact (hread _).trans hbackup
  · obtain ⟨bytes, hbytes, hbackup⟩ :=
      hsettled.edits.writeRefused report hreport path fault hfailure
    exact (hread _).trans (hbackup.trans hbytes.symm)

/-- The component definition and the template on a disk that has no space left for the new text of
the component definition. -/
def fullDisk : Tree :=
  { blockedBackup with
    system := { refusals := [{ path := "./a.component.yml", step := .fillTemporary,
                               error := .other "No space left on device (os error 28)" }] } }

theorem relists_fullDisk : fullDisk.Relists blockedBackup := ⟨rfl, .refl _⟩

/-- The first run has the commit of the component definition refused, after its backup was written;
the second run changes neither, although the tree is listed backwards: the disk is still full. -/
theorem second_run_changes_nothing_fullDisk :
    ∃ r r', Run.start hereSettings .schema true fullDisk = .ok r ∧
      r.summary.reports.map (fun report => (report.changed, report.commitRefused)) =
        [(false, true)] ∧
      Run.start hereSettings .schema true
        { r.tree with entries := r.tree.entries.reverse } = .ok r' ∧
      (∀ report ∈ r'.summary.reports, report.changed = false) ∧
      r'.tree = { r.tree with entries := r.tree.entries.reverse } := by
  have hcheck : hereSettings.check = .ok () := by decide +kernel
  have hslash : '/' ∉ hereSettings.backup.suffix.toList := by decide +kernel
  have hproper : fullDisk.Proper := relists_fullDisk.proper proper_blockedBackup
  have hfree : fullDisk.LinkFree :=
    linkFree_blockedBackup.congr (relists_fullDisk.node? proper_blockedBackup)
  have hreports : (Run.start hereSettings .schema true fullDisk).map
      (fun r => r.summary.reports.map fun report => (report.changed, report.commitRefused)) =
        .ok [(false, true)] := by
    decide +kernel
  obtain ⟨r, hrun, hchanged⟩ := exists_ok_of_map hreports
  have hlist : Tree.Relists { r.tree with entries := r.tree.entries.reverse } r.tree :=
    ⟨rfl, List.reverse_perm r.tree.entries⟩
  obtain ⟨root, found, found', r', -, -, -, -, -, hagain, -, hunchanged, htree, -⟩ :=
    second_run_changes_nothing hproper hfree hcheck hslash hrun hlist
      fun report _ _ => System.actsLike_self ..
  exact ⟨r, r', hrun, hchanged, hagain, hunchanged, htree⟩

end ThemeRepair
