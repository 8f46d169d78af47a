import Mathlib.Tactic.FinCases
import ThemeRepair.CommandLine.Execution
import ThemeRepair.Proofs.Run.Isolation

/-!
# A run edits what it reports

The tree at the end of a run is the one at the start with the reported edits
(`run_edits_what_it_reports`).  A file that is reported as changed has its new text, and its backup
the bytes it had; a file that is not is as it was.  What a report does not tell is the backup that
was written before a commit was refused: it stays behind (`run_leaves_backups_of_refused_commits`).
-/

namespace ThemeRepair

open ThemeRepair.Tree (IsBelow SameDirectories refusal?)

variable {s s' t : Tree} {top : Location} {root suffix : String} {rel : List String}
  {settings : Settings} {kind : DocumentKind} {doc : Document} {o : Outcome}
  {queue : List (List String × DocumentKind)}

/-! ## A run -/

theorem suffix_ne_empty_of_check (h : settings.check = .ok ()) : settings.backup.suffix ≠ "" := by
  intro hempty
  unfold Settings.check at h
  obtain ⟨-, -, h⟩ := exists_ok_of_bind h
  obtain ⟨_, hsuffix, -⟩ := exists_ok_of_bind h
  rw [hempty] at hsuffix
  cases hsuffix

/-- The files that a run deals with are sites below its root. -/
theorem isSite_of_mem_sites {selector : Selector} {pass : Pass} {mode : Nat} (ht : t.Proper)
    (htfree : t.LinkFree) (hroot : t.resolve root .read = .ok (.found top (.directory mode)))
    (hselector : Selector.ofSettings settings.scan settings.backup.suffix = .ok selector)
    {f : List String × DocumentKind}
    (hf : f ∈ pass.sites selector (Discovery.files (t.walk settings.scan.followLinks root))) :
    IsSite t root top settings.backup.suffix f.1 := by
  obtain ⟨hvisited, hselects, -⟩ := Pass.mem_sites.mp hf
  obtain ⟨hne, ⟨content, m, hnode⟩, -⟩ := (Tree.mem_files_walk ht htfree hroot).mp hvisited
  refine ⟨⟨⟨mode, hroot⟩, fun k hk hproper => ?_, ht.isName_of_node? hnode, hne⟩,
    Selector.isBackup_of_selects hselector hselects⟩
  obtain ⟨rest, hrest⟩ := hk
  rw [← hrest, ← List.append_assoc] at hnode
  refine ht.directory_above hnode fun hnil => hproper ?_
  rw [← hrest, hnil, List.append_nil]

/-- A path leads to a location. -/
def Tree.LeadsTo (t : Tree) (path : String) (l : Location) : Prop :=
  ∃ node, t.resolve path .read = .ok (.found l node)

/-- Below a root, a path leads to the one location that its names spell. -/
theorem Tree.IsBelow.eq_of_leadsTo (h : t.IsBelow root top rel) (hfree : t.LinkFree) {l : Location}
    (hleads : t.LeadsTo (Path.joinAll root rel) l) : l = top ++ rel := by
  obtain ⟨node, hres⟩ := hleads
  rw [h.resolve_joinAll hfree] at hres
  split at hres
  · cases hres
  · rw [Tree.entryPlace] at hres
    split at hres
    · cases hres
      rfl
    · cases hres

/-- The tree `t'` is the tree `t` with the edits that are reported.  A changed file has the text of
its repair, and its backup the bytes it had.  Every other file is as it was.  Where the new text
was refused, the backup that was written before has the bytes of the file; where the backup was
refused, its place is as it was, or it has the first of these bytes.  Nothing else is changed. -/
structure HasEdits (settings : Settings) (t : Tree) (reports : List Report) (t' : Tree) :
    Prop where
  edited : ∀ report ∈ reports, report.changed = true → ∃ doc o,
    Document.read t report.path = .ok doc ∧ doc.repair settings report.kind = .ok o ∧
    t'.read report.path = .ok (doc.encode o.text) ∧
    t'.read (backupPath report.path settings.backup.suffix) = t.read report.path
  unchanged : ∀ report ∈ reports, report.changed = false →
    t'.read report.path = t.read report.path
  writeRefused : ∀ report ∈ reports, ∀ path fault,
    report.failure = some (.file (.write path fault)) → ∃ bytes,
    t.read report.path = .ok bytes ∧
    t'.read (backupPath report.path settings.backup.suffix) = .ok bytes
  backupRefused : ∀ report ∈ reports, ∀ path fault,
    report.failure = some (.file (.backup path fault)) →
    (t'.read (backupPath report.path settings.backup.suffix) =
        t.read (backupPath report.path settings.backup.suffix) ∧
      ∀ l, t'.LeadsTo (backupPath report.path settings.backup.suffix) l →
        t'.node? l = t.node? l) ∨
    ∃ bytes n, t.read report.path = .ok bytes ∧
      t'.read (backupPath report.path settings.backup.suffix) = .ok (bytes.extract 0 n)
  kept : ∀ l, (∀ report ∈ reports, (report.changed = true → ¬ t'.LeadsTo report.path l) ∧
    (report.tried = true → ¬ t'.LeadsTo (backupPath report.path settings.backup.suffix) l)) →
    t'.node? l = t.node? l

/-- Where there are no files, nothing is changed. -/
theorem HasEdits.nil (h : ∀ l, s.node? l = t.node? l) : HasEdits settings t [] s where
  edited _ hreport := absurd hreport List.not_mem_nil
  unchanged _ hreport := absurd hreport List.not_mem_nil
  writeRefused _ hreport := absurd hreport List.not_mem_nil
  backupRefused _ hreport := absurd hreport List.not_mem_nil
  kept l _ := h l

section Reads

variable (hbelow : t.IsBelow root top rel) (htfree : t.LinkFree)
  (hslash : '/' ∉ settings.backup.suffix.toList) (hsame : SameDirectories s' t)
  (hfree : s'.LinkFree)
include hbelow htfree hslash hsame hfree

/-- The path of a file's backup leads to what was saved. -/
theorem IsSaved.reads {bytes : ByteArray}
    (h : IsSaved root top settings.backup.suffix rel s' bytes) :
    s'.read (backupPath (Path.joinAll root rel) settings.backup.suffix) = .ok bytes ∧
      s'.LeadsTo (backupPath (Path.joinAll root rel) settings.backup.suffix)
        (top ++ Path.suffixed settings.backup.suffix rel) := by
  obtain ⟨mode, hnode⟩ := h.node
  have hsuffixed := (hbelow.transfer htfree hsame).suffixed hslash
  have hpath : backupPath (Path.joinAll root rel) settings.backup.suffix =
      Path.joinAll root (Path.suffixed settings.backup.suffix rel) :=
    (Path.joinAll_suffixed hbelow.ne_nil).symm
  rw [hpath]
  exact ⟨hsuffixed.read_file hfree h.taken hnode, _, hsuffixed.resolve_file hfree h.taken hnode⟩

/-- What is told of a file that was edited. -/
theorem IsEdit.reads (h : IsEdit settings kind root top rel t doc o s') :
    s'.read (Path.joinAll root rel) = .ok (doc.encode o.text) ∧
      s'.LeadsTo (Path.joinAll root rel) (top ++ rel) ∧
      s'.read (backupPath (Path.joinAll root rel) settings.backup.suffix) =
        t.read (Path.joinAll root rel) ∧
      s'.LeadsTo (backupPath (Path.joinAll root rel) settings.backup.suffix)
        (top ++ Path.suffixed settings.backup.suffix rel) := by
  have hbytes := Document.encode_text_of_read h.read
  obtain ⟨hrefusal, -⟩ := hbelow.of_read htfree hbytes
  obtain ⟨mode, hfile⟩ := h.file
  have hbelow' := hbelow.transfer htfree hsame
  obtain ⟨hbackup, hleads⟩ := h.saved.reads hbelow htfree hslash hsame hfree
  rw [hbytes]
  exact ⟨hbelow'.read_file hfree hrefusal hfile, ⟨_, hbelow'.resolve_file hfree hrefusal hfile⟩,
    hbackup, hleads⟩

end Reads

theorem IsRunOf.hasEdits (htfree : t.LinkFree) (hne : settings.backup.suffix ≠ "")
    (hslash : '/' ∉ settings.backup.suffix.toList)
    (hsites : ∀ f ∈ queue, IsSite t root top settings.backup.suffix f.1)
    (h : IsRunOf settings root top t queue t s') :
    HasEdits settings t (queue.map (reportOf settings root t)) s' := by
  have habout : ∀ f, (reportOf settings root t f).path = Path.joinAll root f.1 ∧
      (reportOf settings root t f).kind = f.2 :=
    fun f => (t.ends_repairFile settings true (Path.joinAll root f.1) f.2).path_and_kind
  have htraces : ∀ f ∈ queue, Traces settings root top f.1 t (reportOf settings root t f) s' :=
    fun f hf => h.traces htfree hne hslash hsites hf
  have hreads : ∀ f ∈ queue, ∀ {bytes}, IsSaved root top settings.backup.suffix f.1 s' bytes →
      s'.read (backupPath (Path.joinAll root f.1) settings.backup.suffix) = .ok bytes ∧
        s'.LeadsTo (backupPath (Path.joinAll root f.1) settings.backup.suffix)
          (top ++ Path.suffixed settings.backup.suffix f.1) :=
    fun f hf _ hsaved => hsaved.reads (hsites f hf).below htfree hslash h.sameDirectories h.linkFree
  constructor
  · rintro _ hreport hchanged
    obtain ⟨f, hf, rfl⟩ := List.mem_map.mp hreport
    obtain ⟨doc, o, hedit⟩ := (htraces f hf).edited hchanged
    obtain ⟨hnew, -, hold, -⟩ := hedit.reads (hsites f hf).below htfree hslash h.sameDirectories
      h.linkFree
    rw [(habout f).1]
    exact ⟨doc, o, hedit.read, hedit.repair, hnew, hold⟩
  · rintro _ hreport hchanged
    obtain ⟨f, hf, rfl⟩ := List.mem_map.mp hreport
    have hbelow := (hsites f hf).below
    rw [(habout f).1]
    exact Tree.read_congr ((hbelow.transfer htfree h.sameDirectories).resolve_congr h.linkFree
      hbelow htfree ((htraces f hf).unchanged hchanged))
  · rintro _ hreport path fault hfailure
    obtain ⟨f, hf, rfl⟩ := List.mem_map.mp hreport
    obtain ⟨bytes, hread, hsaved⟩ := (htraces f hf).writeRefused path fault hfailure
    rw [(habout f).1]
    exact ⟨bytes, hread, (hreads f hf hsaved).1⟩
  · rintro _ hreport path fault hfailure
    obtain ⟨f, hf, rfl⟩ := List.mem_map.mp hreport
    have hbelow := (hsites f hf).below.suffixed hslash
    have hbelow' := hbelow.transfer htfree h.sameDirectories
    rw [(habout f).1]
    obtain hsame | ⟨bytes, n, hread, hsaved⟩ := (htraces f hf).backupRefused path fault hfailure
    · left
      rw [backupPath, ← Path.joinAll_suffixed (hsites f hf).below.ne_nil]
      refine ⟨Tree.read_congr (hbelow'.resolve_congr h.linkFree hbelow htfree hsame),
        fun l hleads => ?_⟩
      rw [hbelow'.eq_of_leadsTo h.linkFree hleads]
      exact hsame
    · exact .inr ⟨bytes, n, hread, (hreads f hf hsaved).1⟩
  · intro l hl
    by_cases htouched : ∃ f ∈ queue, Touches top settings.backup.suffix f.1 l
    · obtain ⟨f, hf, htouch⟩ := htouched
      obtain ⟨hnotFile, hnotBackup⟩ := hl _ (List.mem_map_of_mem hf)
      rw [(habout f).1] at hnotFile hnotBackup
      obtain rfl | rfl := htouch
      · -- the file itself: it was not changed
        refine (htraces f hf).unchanged (Bool.eq_false_iff.mpr fun hchanged => ?_)
        obtain ⟨doc, o, hedit⟩ := (htraces f hf).edited hchanged
        obtain ⟨-, hfile, -⟩ := hedit.reads (hsites f hf).below htfree hslash h.sameDirectories
          h.linkFree
        exact hnotFile hchanged hfile
      · by_contra hother
        obtain ⟨bytes, hsaved, htried⟩ := (htraces f hf).exists_isSaved hother
        exact hnotBackup htried (hreads f hf hsaved).2
    · refine h.kept l fun f hf htouch => htouched ⟨f, hf, htouch⟩

theorem nodup_paths (hsites : ∀ f ∈ queue, IsSite t root top suffix f.1)
    (hnodup : (queue.map Prod.fst).Nodup) :
    ((queue.map fun f => (Path.joinAll root f.1, f.2)).map Prod.fst).Nodup := by
  rw [List.map_map]
  refine List.Nodup.map_on (fun f hf g hg heq => ?_) hnodup.of_map
  have hrel := Path.joinAll_injective (hsites f hf).below.names (hsites g hg).below.names heq
  exact List.inj_on_of_nodup_map hnodup hf hg hrel

/-- Dealing with the files that are found below a directory of the tree. -/
theorem isRunOf_sites (pass : Pass) {selector : Selector} {mode : Nat} (ht : t.Proper)
    (htfree : t.LinkFree) (hcheck : settings.check = .ok ())
    (hslash : '/' ∉ settings.backup.suffix.toList)
    (hres : t.resolve root .read = .ok (.found top (.directory mode)))
    (hselector : Selector.ofSettings settings.scan settings.backup.suffix = .ok selector)
    (hqueue : queue =
      pass.sites selector (Discovery.files (t.walk settings.scan.followLinks root))) :
    (∀ f ∈ queue, IsSite t root top settings.backup.suffix f.1) ∧
      (queue.map Prod.fst).Nodup ∧
      (t.repairFiles settings true (queue.map fun f => (Path.joinAll root f.1, f.2))).1 =
        queue.map (reportOf settings root t) ∧
      IsRunOf settings root top t queue t
        (t.repairFiles settings true (queue.map fun f => (Path.joinAll root f.1, f.2))).2 := by
  subst hqueue
  have hsites : ∀ f ∈ pass.sites selector
      (Discovery.files (t.walk settings.scan.followLinks root)),
      IsSite t root top settings.backup.suffix f.1 :=
    fun f hf => isSite_of_mem_sites ht htfree hres hselector hf
  have hnodup : ((pass.sites selector
      (Discovery.files (t.walk settings.scan.followLinks root))).map Prod.fst).Nodup :=
    Pass.nodup_sites (Tree.nodup_files_walk ht htfree hres)
  exact ⟨hsites, hnodup, isRunOf_repairFiles htfree (suffix_ne_empty_of_check hcheck) hslash hsites
    hnodup rfl (fun _ _ => Iff.rfl) htfree fun _ _ _ _ => rfl⟩

/-- What a run that starts reports, file by file, and the edits it makes. -/
theorem start_edits {pass : Pass} {r : Run} (ht : t.Proper) (htfree : t.LinkFree)
    (hcheck : settings.check = .ok ()) (hslash : '/' ∉ settings.backup.suffix.toList)
    (h : Run.start settings pass true t = .ok r) :
    ∃ root found, settings.scan.root = some root ∧
      Discovery.find t root settings.scan settings.backup.suffix = .ok found ∧
      ((pass.queue found).map Prod.fst).Nodup ∧
      r.summary.reports =
        (pass.queue found).map (fun f => (t.repairFile settings true f.1 f.2).1) ∧
      HasEdits settings t r.summary.reports r.tree := by
  obtain ⟨root, found, hroot, hdir, -, hfound, rfl⟩ := start_eq_ok_iff.mp h
  obtain ⟨selector, hselector, rfl⟩ := find_eq_ok_iff.mp hfound
  refine ⟨root, _, hroot, hfound, ?_⟩
  rw [Pass.queue_ofVisits]
  obtain ⟨top, mode, hres⟩ | hout := Tree.isDirectory_cases hdir
  · obtain ⟨hsites, hnodup, hreports, hrun⟩ :=
      isRunOf_sites pass ht htfree hcheck hslash hres hselector rfl
    have hedits := hrun.hasEdits htfree (suffix_ne_empty_of_check hcheck) hslash hsites
    refine ⟨nodup_paths hsites hnodup, ?_, ?_⟩
    · rw [List.map_map]
      exact hreports
    · rw [← hreports] at hedits
      exact hedits
  · -- outside the tree nothing is visited
    have hnone : pass.sites selector
        (Discovery.files (t.walk settings.scan.followLinks root)) = [] := by
      rw [Tree.walk_of_outside htfree hout]
      exact Pass.sites_nil
    rw [hnone]
    exact ⟨List.nodup_nil, rfl, .nil fun _ => rfl⟩

/-- A run in a tree without links.  If it starts, there is one report for each file that was found,
the one that the file would have alone, and the tree at the end is the tree at the start with the
reported edits, whatever became of the other files.  If it does not start, the program leaves the
tree as it is and tells of no file. -/
theorem run_edits_what_it_reports (ht : t.Proper) (htfree : t.LinkFree)
    (hcheck : settings.check = .ok ()) (hslash : '/' ∉ settings.backup.suffix.toList)
    (pass : Pass) :
    (∀ r, Run.start settings pass true t = .ok r →
      ∃ root found, settings.scan.root = some root ∧
        Discovery.find t root settings.scan settings.backup.suffix = .ok found ∧
        ((pass.queue found).map Prod.fst).Nodup ∧
        r.summary.reports =
          (pass.queue found).map (fun f => (t.repairFile settings true f.1 f.2).1) ∧
        HasEdits settings t r.summary.reports r.tree) ∧
    (∀ e, Run.start settings pass true t = .error e →
      ∀ request : CommandLine.Request, request.settings t = .ok settings →
        request.pass = pass → request.write = true →
        request.execute t = ⟨1, "", "Error: " ++ e.message ++ "\n", t⟩) := by
  refine ⟨fun r hstart => start_edits ht htfree hcheck hslash hstart, fun e hstart => ?_⟩
  rintro request hsettings rfl hwrite
  have hrun : request.run t = .error e := by
    rw [CommandLine.Request.run, hsettings, hwrite]
    exact hstart
  rw [CommandLine.Request.execute, hrun]

/-- A component definition and a template to repair, and a directory where the template's backup
would be. -/
def blockedBackup : Tree where
  entries := [(["a.component.yml"], .file (Text.encode "variants: []\n".toList) Node.fileMode),
    (["b.twig"], .file (Text.encode
      "\x7b\x7b include('@components/h1.html.twig', \x7bcontent: a\x7d) \x7d\x7d".toList)
      Node.fileMode),
    (["b.twig.bak"], .directory Node.directoryMode)]

theorem proper_blockedBackup : blockedBackup.Proper := by
  refine ⟨by decide, fun e he => ?_⟩
  have hname : ∀ name ∈ ["a.component.yml", "b.twig", "b.twig.bak"], Path.IsName name := by
    intro name hname
    fin_cases hname <;> exact ⟨by decide, by decide, by decide, by decide⟩
  fin_cases he
  · exact ⟨[], _, rfl, hname _ (by simp), _, rfl⟩
  · exact ⟨[], _, rfl, hname _ (by simp), _, rfl⟩
  · exact ⟨[], _, rfl, hname _ (by simp), _, rfl⟩

theorem linkFree_blockedBackup : blockedBackup.LinkFree := by
  refine Tree.linkFree_of_entries proper_blockedBackup fun e he target => ?_
  fin_cases he <;> exact Node.noConfusion

/-- The settings of a run in the working directory. -/
def hereSettings : Settings where
  scan := { root := some "." }

/-- The component definition is edited and the template is not, since its backup cannot be
written. -/
theorem run_edits_what_it_reports_blockedBackup :
    ∃ r, Run.start hereSettings .all true blockedBackup = .ok r ∧
      r.summary.reports.map (fun report => (report.path, report.changed)) =
        [("./a.component.yml", true), ("./b.twig", false)] ∧
      HasEdits hereSettings blockedBackup r.summary.reports r.tree := by
  have hcheck : hereSettings.check = .ok () := by decide +kernel
  have hslash : '/' ∉ hereSettings.backup.suffix.toList := by decide +kernel
  obtain ⟨hedits, -⟩ := run_edits_what_it_reports proper_blockedBackup linkFree_blockedBackup
    hcheck hslash .all
  have hreports : (Run.start hereSettings .all true blockedBackup).map
      (fun r => r.summary.reports.map fun report => (report.path, report.changed)) =
        .ok [("./a.component.yml", true), ("./b.twig", false)] := by
    decide +kernel
  generalize Run.start hereSettings .all true blockedBackup = result at hedits hreports ⊢
  cases result with
  | error e => cases hreports
  | ok r =>
    obtain ⟨-, -, -, -, -, -, hdone⟩ := hedits r rfl
    exact ⟨r, rfl, Except.ok.inj hreports, hdone⟩

/-! ## A refused commit -/

theorem Path.le_utf8ByteSize_join (base name : String) :
    base.utf8ByteSize + name.utf8ByteSize ≤ (Path.join base name).utf8ByteSize := by
  unfold Path.join
  split
  · rw [String.utf8ByteSize_append]
  · rw [String.utf8ByteSize_append, String.utf8ByteSize_append]
    omega

/-- The path of a directory below `n` others. -/
def deepPath (n : Nat) : String := String.ofList (List.replicate n ['/', 'd']).flatten

theorem utf8ByteSize_deepPath (n : Nat) : (deepPath n).utf8ByteSize = 2 * n := by
  induction n with
  | zero => rfl
  | succ n ih =>
    have hstep : deepPath (n + 1) = "/d" ++ deepPath n := by
      rw [deepPath, List.replicate_succ, List.flatten_cons, String.ofList_append]
      rfl
    have htwo : "/d".utf8ByteSize = 2 := by decide
    rw [hstep, String.utf8ByteSize_append, ih, htwo]
    omega

/-- A template to repair. -/
def deepTemplate : Document :=
  .ofText "./b.twig"
    "\x7b\x7b include('@components/h1.html.twig', \x7bcontent: a\x7d) \x7d\x7d".toList

/-- The template in a directory whose path leaves no room for the name of a temporary file. -/
def deepTheme : Tree where
  entries := [(["b.twig"], .file (deepTemplate.encode deepTemplate.text) Node.fileMode)]
  system := { rootPath := deepPath 2043 }

theorem proper_deepTheme : deepTheme.Proper := by
  refine ⟨by decide, fun e he => ?_⟩
  fin_cases he
  exact ⟨[], _, rfl, ⟨by decide, by decide, by decide, by decide⟩, _, rfl⟩

theorem linkFree_deepTheme : deepTheme.LinkFree := by
  refine Tree.linkFree_of_entries proper_deepTheme fun e he target => ?_
  fin_cases he
  exact Node.noConfusion

/-- No temporary file can be made beside the template. -/
theorem isTooLong_deepTheme :
    Path.isTooLong (deepTheme.system.temporaryPath deepTemplate.path) = true := by
  have hdirectory : Path.directory deepTemplate.path = "." := by decide +kernel
  have habsolute : Path.isAbsolute "." = false := by decide +kernel
  have hpath : deepTheme.system.temporaryPath deepTemplate.path =
      Path.join (Path.join (deepPath 2043) ".") deepTheme.system.temporaryName := by
    rw [System.temporaryPath, hdirectory, if_neg (by simp [habsolute])]
    rfl
  have hone : ".".utf8ByteSize = 1 := by decide
  have hten : deepTheme.system.temporaryName.utf8ByteSize = 10 := by decide +kernel
  have hroot := Path.le_utf8ByteSize_join (deepPath 2043) "."
  have hname := Path.le_utf8ByteSize_join (Path.join (deepPath 2043) ".")
    deepTheme.system.temporaryName
  rw [utf8ByteSize_deepPath, hone] at hroot
  rw [hten] at hname
  rw [hpath, Path.isTooLong, decide_eq_true_eq]
  omega

theorem isBelow_deepTheme : deepTheme.IsBelow "." [] ["b.twig"] := by
  refine ⟨⟨Node.directoryMode, by decide +kernel⟩, fun k hk hne => ?_, fun x hx => ?_, by decide⟩
  · obtain rfl : k = [] := by
      have hnil : k <+: [] := (List.prefix_concat_iff.mp hk).resolve_left hne
      exact List.prefix_nil.mp hnil
    exact ⟨_, rfl⟩
  · rw [List.mem_singleton.mp hx]
    exact ⟨by decide, by decide, by decide, by decide⟩

/-- The commit of a new text for the template leaves its backup behind. -/
theorem commit_deepTheme (text : Text) :
    ∃ fault, deepTemplate.commit text hereSettings.backup.suffix deepTheme =
      (.error (.write deepTemplate.path fault), deepTheme.put ["b.twig.bak"]
        (.file (deepTemplate.encode deepTemplate.text) Node.fileMode)) := by
  have hread : Document.read deepTheme (Path.joinAll "." ["b.twig"]) = .ok deepTemplate := by
    decide +kernel
  have hnode : deepTheme.node? ([] ++ ["b.twig"]) =
      some (.file (deepTemplate.encode deepTemplate.text) Node.fileMode) := by decide +kernel
  have hsuffixed : Path.suffixed ".bak" ["b.twig"] = ["b.twig.bak"] := by decide +kernel
  have hopen : deepTheme.openMode "." [] ["b.twig.bak"] = .ok Node.fileMode := by decide +kernel
  have hnone : deepTheme.system.refusals = [] := by decide +kernel
  have hsuffix : hereSettings.backup.suffix = ".bak" := rfl
  have hcommit := Document.commit_below isBelow_deepTheme linkFree_deepTheme
    (by decide : ".bak" ≠ "") (by decide) hread hnode text
  rw [hsuffix]
  rw [hsuffixed, hopen, Document.footprint_of_refusals_nil _ _ hnone, if_pos isTooLong_deepTheme]
    at hcommit
  exact ⟨_, hcommit⟩

/-- A run that finds one file deals with that file. -/
theorem start_of_single (pass : Pass) {found : Discovery} {path : String} {report : Report}
    (hroot : settings.scan.root = some root) (hdir : t.isDirectory root = true)
    (hheadings : settings.headings.check = .ok ())
    (hfound : Discovery.find t root settings.scan settings.backup.suffix = .ok found)
    (hqueue : pass.queue found = [(path, kind)])
    (hfile : t.repairFile settings true path kind = (report, s)) :
    ∃ r, Run.start settings pass true t = .ok r ∧ r.summary.reports = [report] ∧ r.tree = s := by
  have hfiles : t.repairFiles settings true [(path, kind)] = ([report], s) := by
    rw [Tree.repairFiles, hfile]
    rfl
  refine ⟨Run.ofQueue settings true found.errors (pass.queue found) t,
    start_eq_ok_iff.mpr ⟨root, found, hroot, hdir, hheadings, hfound, rfl⟩, ?_, ?_⟩
  · rw [Run.reports_ofQueue, hqueue, hfiles]
  · rw [Run.ofQueue, hqueue, hfiles]

/-- The run reports the template as unchanged. -/
theorem start_deepTheme :
    ∃ r report, Run.start hereSettings .all true deepTheme = .ok r ∧
      r.summary.reports = [report] ∧ report.changed = false ∧
      r.tree = deepTheme.put ["b.twig.bak"]
        (.file (deepTemplate.encode deepTemplate.text) Node.fileMode) := by
  have hfound : Discovery.find deepTheme "." hereSettings.scan hereSettings.backup.suffix =
      .ok ⟨[], ["./b.twig"], []⟩ := by decide +kernel
  have hread : Document.read deepTheme "./b.twig" = .ok deepTemplate := by decide +kernel
  obtain ⟨o, hrepair, hnew⟩ := exists_ok_of_map (by decide +kernel :
    (deepTemplate.repair hereSettings .template).map
      (fun o => decide (o.fixed.isEmpty = true ∨ o.text = deepTemplate.text)) = .ok false)
  obtain ⟨fault, hcommit⟩ := commit_deepTheme o.text
  have hfile : deepTheme.repairFile hereSettings true "./b.twig" .template =
      (deepTemplate.reportOf hereSettings .template o (.error (.write deepTemplate.path fault)),
        deepTheme.put ["b.twig.bak"]
          (.file (deepTemplate.encode deepTemplate.text) Node.fileMode)) := by
    rw [Tree.repairFile, hread]
    dsimp only
    rw [hrepair]
    dsimp only
    rw [Document.settle_of_commit (of_decide_eq_false hnew) hcommit]
  have hqueue : Pass.all.queue ⟨[], ["./b.twig"], []⟩ = [("./b.twig", .template)] := rfl
  have hdir : deepTheme.isDirectory "." = true := by decide +kernel
  have hheadings : hereSettings.headings.check = .ok () := by decide +kernel
  obtain ⟨r, hstart, hreports, htree⟩ :=
    start_of_single .all rfl hdir hheadings hfound hqueue hfile
  exact ⟨r, _, hstart, hreports, rfl, htree⟩

/-- A run may leave the backup of a file behind that it does not report as changed. -/
theorem run_leaves_backups_of_refused_commits :
    ¬ ∀ (settings : Settings) (t : Tree) (pass : Pass) (r : Run), t.Proper → t.LinkFree →
      settings.check = .ok () → '/' ∉ settings.backup.suffix.toList →
      Run.start settings pass true t = .ok r →
      ∀ l, (∀ report ∈ r.summary.reports, report.changed = true →
        ¬ r.tree.LeadsTo report.path l ∧
        ¬ r.tree.LeadsTo (backupPath report.path settings.backup.suffix) l) →
      r.tree.node? l = t.node? l := by
  intro h
  obtain ⟨r, report, hstart, hreports, hchanged, htree⟩ := start_deepTheme
  have hkept := h hereSettings deepTheme .all r proper_deepTheme linkFree_deepTheme
    (by decide +kernel) (by decide +kernel) hstart ["b.twig.bak"]
  have hleft := hkept fun other hother hother' => by
    rw [hreports, List.mem_singleton] at hother
    rw [hother, hchanged] at hother'
    cases hother'
  have hnone : deepTheme.node? ["b.twig.bak"] = none := by decide +kernel
  rw [hnone, htree, Tree.node?_put_self (List.cons_ne_nil _ _)] at hleft
  cases hleft

end ThemeRepair
