import ThemeRepair.Proofs.Document.Below

/-!
# What dealing with one file leaves behind

In a tree without links, a commit of a file below a root leaves one of four things behind
(`CommitLeaves`): the tree as it is, a backup that may be cut off, a whole backup beside the file as
it was, or a whole backup beside the new text.  Every step leaves the directories, and whatever is
neither the file nor its backup, as they were (`IsStep`).

So the report on a file tells what has become of the two places (`Traces`): a file that is reported
as changed has its new text and its backup; one that is not is as it was, but a refused commit may
have written its backup.
-/

namespace ThemeRepair

open ThemeRepair.Tree (IsBelow SameDirectories refusal?)

variable {s t t' : Tree} {top : Location} {root suffix : String} {rel : List String}
  {settings : Settings} {kind : DocumentKind} {doc : Document} {text : Text} {o : Outcome}
  {report : Report} {bytes : ByteArray}

/-! ## A commit -/

/-- What a commit of the file at `rel` answers, and the tree that it leaves. -/
inductive CommitLeaves (root : String) (top : Location) (rel : List String) (suffix : String)
    (t : Tree) (doc : Document) (text : Text) : Except FileError Unit → Tree → Prop
  | unopened {e : OsError} :
      CommitLeaves root top rel suffix t doc text
        (.error (.backup (backupPath doc.path suffix) (.os e))) t
  | unsaved {fault : BackupFault} {n mode : Nat}
      (hopen : t.openMode root top (Path.suffixed suffix rel) = .ok mode) :
      CommitLeaves root top rel suffix t doc text
        (.error (.backup (backupPath doc.path suffix) fault))
        (t.put (top ++ Path.suffixed suffix rel)
          (.file ((doc.encode doc.text).extract 0 n) mode))
  | unreplaced {fault : WriteFault} {mode : Nat}
      (hopen : t.openMode root top (Path.suffixed suffix rel) = .ok mode) :
      CommitLeaves root top rel suffix t doc text (.error (.write doc.path fault))
        (t.put (top ++ Path.suffixed suffix rel) (.file (doc.encode doc.text) mode))
  | done {backup mode : Nat}
      (hopen : t.openMode root top (Path.suffixed suffix rel) = .ok backup) :
      CommitLeaves root top rel suffix t doc text (.ok ())
        ((t.put (top ++ Path.suffixed suffix rel) (.file (doc.encode doc.text) backup)).put
          (top ++ rel) (.file (doc.encode text) mode))

theorem System.exists_written (s : System) (path : String) (step : CommitStep)
    (content : ByteArray) : ∃ n, s.written path step content = content.extract 0 n := by
  obtain ⟨r, -, -, hcut⟩ | ⟨-, -, hwhole⟩ := s.refused_or_taken path step
  · exact ⟨r.written, hcut content⟩
  · exact ⟨content.size, (hwhole content).trans ByteArray.extract_zero_size.symm⟩

/-- A commit of a file below a root leaves one of the four things behind. -/
theorem Document.leaves_commit (h : t.IsBelow root top rel) (hfree : t.LinkFree)
    (hne : suffix ≠ "") (hslash : '/' ∉ suffix.toList)
    (hread : read t (Path.joinAll root rel) = .ok doc) (text : Text) :
    CommitLeaves root top rel suffix t doc text (doc.commit text suffix t).1
      (doc.commit text suffix t).2 := by
  obtain ⟨-, mode, hnode⟩ := h.of_read hfree (encode_text_of_read hread)
  rw [commit_below h hfree hne hslash hread hnode text, footprint]
  cases hopened : t.system.allow doc.path .openBackup >>= fun _ =>
      t.openMode root top (Path.suffixed suffix rel) with
  | error e => exact .unopened
  | ok backup =>
    obtain ⟨_, -, hopen⟩ := exists_ok_of_bind hopened
    dsimp only
    cases hanswer : t.system.answerBackup doc.path with
    | error fault =>
      obtain ⟨n, hcut⟩ := t.system.exists_written doc.path .fillBackup (doc.encode doc.text)
      rw [hcut]
      exact .unsaved hopen
    | ok _ =>
      rw [System.written_of_answerBackup hanswer]
      dsimp only
      cases t.system.answerText doc.path with
      | error fault => exact .unreplaced hopen
      | ok _ => exact .done hopen

/-! ## A step -/

/-- A step of a run: a tree that has the same directories, in which everything but one file and its
backup is as it was. -/
structure IsStep (top : Location) (suffix : String) (rel : List String) (t t' : Tree) :
    Prop where
  sameDirectories : SameDirectories t' t
  linkFree : t'.LinkFree
  proper : t.Proper → t'.Proper
  kept : ∀ l, ¬ Touches top suffix rel l → t'.node? l = t.node? l

namespace IsStep

theorem refl (hfree : t.LinkFree) : IsStep top suffix rel t t :=
  ⟨fun _ _ => Iff.rfl, hfree, id, fun _ _ => rfl⟩

theorem trans (h : IsStep top suffix rel s t) (h' : IsStep top suffix rel t t') :
    IsStep top suffix rel s t' :=
  ⟨h'.sameDirectories.trans h.sameDirectories, h'.linkFree,
    fun hproper => h'.proper (h.proper hproper),
    fun l hl => (h'.kept l hl).trans (h.kept l hl)⟩

theorem put {place : List String} (h : t.IsBelow root top place) (hfree : t.LinkFree)
    (hplace : t.IsFree (top ++ place)) (htouches : Touches top suffix rel (top ++ place))
    (content : ByteArray) (mode : Nat) :
    IsStep top suffix rel t (t.put (top ++ place) (.file content mode)) := by
  refine ⟨Tree.sameDirectories_put hplace content mode,
    hfree.put hplace.ne_nil content mode,
    fun hproper => h.proper_put hproper hplace content mode, fun l hl => ?_⟩
  exact Tree.node?_put_of_ne fun heq => hl (heq ▸ htouches)

end IsStep

/-- What a commit leaves behind is a step. -/
theorem CommitLeaves.isStep {answer : Except FileError Unit} (hbelow : t.IsBelow root top rel)
    (hfree : t.LinkFree) (hne : suffix ≠ "") (hslash : '/' ∉ suffix.toList)
    (hread : Document.read t (Path.joinAll root rel) = .ok doc)
    (h : CommitLeaves root top rel suffix t doc text answer t') :
    IsStep top suffix rel t t' := by
  have hsaved : ∀ bytes {mode}, t.openMode root top (Path.suffixed suffix rel) = .ok mode →
      IsStep top suffix rel t
        (t.put (top ++ Path.suffixed suffix rel) (.file bytes mode)) :=
    fun _ _ hopen =>
      .put (hbelow.suffixed hslash) hfree (Tree.isFree_of_openMode hopen) (.inr rfl) _ _
  cases h with
  | unopened => exact .refl hfree
  | unsaved hopen => exact hsaved _ hopen
  | unreplaced hopen => exact hsaved _ hopen
  | @done backup mode hopen =>
    have hstep := hsaved (doc.encode doc.text) hopen
    refine hstep.trans (.put (hbelow.transfer hfree hstep.sameDirectories) hstep.linkFree ?_
      (.inl rfl) _ _)
    -- the file is where it was
    obtain ⟨-, m, hnode⟩ := hbelow.of_read hfree (Document.encode_text_of_read hread)
    have hother : top ++ rel ≠ top ++ Path.suffixed suffix rel :=
      fun heq => Path.ne_suffixed hbelow.ne_nil hne (List.append_cancel_left heq)
    exact .inr ⟨_, m, (Tree.node?_put_of_ne hother).trans hnode⟩

/-- Dealing with a file is a step. -/
theorem Ends.isStep (hbelow : t.IsBelow root top rel) (hfree : t.LinkFree)
    (hne : settings.backup.suffix ≠ "") (hslash : '/' ∉ settings.backup.suffix.toList)
    (h : Ends settings t (Path.joinAll root rel) kind true report t') :
    IsStep top settings.backup.suffix rel t t' := by
  have hstep : ∀ {doc o answer}, Document.read t (Path.joinAll root rel) = .ok doc →
      doc.commit o settings.backup.suffix t = (answer, t') →
      IsStep top settings.backup.suffix rel t t' := by
    intro doc text answer hread hcommit
    have hleaves := Document.leaves_commit hbelow hfree hne hslash hread text
    rw [hcommit] at hleaves
    exact hleaves.isStep hbelow hfree hne hslash hread
  cases h with
  | unreadable _ => exact .refl hfree
  | refused _ _ => exact .refl hfree
  | settled _ _ _ => exact .refl hfree
  | committed hread _ _ hcommit => exact hstep hread hcommit
  | commitRefused hread _ _ hcommit => exact hstep hread hcommit

/-! ## What the report tells -/

/-- The backup of the file at `rel` is a file that holds `bytes`, and the system takes its path. -/
structure IsSaved (root : String) (top : Location) (suffix : String) (rel : List String) (t : Tree)
    (bytes : ByteArray) : Prop where
  node : ∃ mode, t.node? (top ++ Path.suffixed suffix rel) = some (.file bytes mode)
  taken : refusal? (Path.joinAll root (Path.suffixed suffix rel)) (Path.suffixed suffix rel) = none

/-- The file at `rel` has the text of `o`, the outcome of repairing `doc`, and the bytes it had are
in its backup. -/
structure IsEdit (settings : Settings) (kind : DocumentKind) (root : String) (top : Location)
    (rel : List String) (t : Tree) (doc : Document) (o : Outcome) (t' : Tree) : Prop where
  read : Document.read t (Path.joinAll root rel) = .ok doc
  repair : doc.repair settings kind = .ok o
  file : ∃ mode, t'.node? (top ++ rel) = some (.file (doc.encode o.text) mode)
  saved : IsSaved root top settings.backup.suffix rel t' (doc.encode doc.text)

/-- What has become of the file at `rel` and of its backup, as the report on the file tells. -/
structure Traces (settings : Settings) (root : String) (top : Location) (rel : List String)
    (t : Tree) (report : Report) (t' : Tree) : Prop where
  edited : report.changed = true → ∃ doc o, IsEdit settings report.kind root top rel t doc o t'
  unchanged : report.changed = false → t'.node? (top ++ rel) = t.node? (top ++ rel)
  untried : report.tried = false →
    t'.node? (top ++ Path.suffixed settings.backup.suffix rel) =
      t.node? (top ++ Path.suffixed settings.backup.suffix rel)
  writeRefused : ∀ path fault, report.failure = some (.file (.write path fault)) →
    ∃ bytes, t.read (Path.joinAll root rel) = .ok bytes ∧
      IsSaved root top settings.backup.suffix rel t' bytes
  backupRefused : ∀ path fault, report.failure = some (.file (.backup path fault)) →
    t'.node? (top ++ Path.suffixed settings.backup.suffix rel) =
      t.node? (top ++ Path.suffixed settings.backup.suffix rel) ∨
    ∃ bytes n, t.read (Path.joinAll root rel) = .ok bytes ∧
      IsSaved root top settings.backup.suffix rel t' (bytes.extract 0 n)
  /-- A backup can be opened where it could be opened before, with the same mode. -/
  reopened : t'.openMode root top (Path.suffixed settings.backup.suffix rel) =
    t.openMode root top (Path.suffixed settings.backup.suffix rel)

/-- A file that no commit is tried for leaves no traces. -/
theorem Traces.of_untried (hchanged : report.changed = false)
    (hfailure : report.failure.any Failure.isOfCommit = false) :
    Traces settings root top rel t report t where
  edited h := by
    rw [hchanged] at h
    cases h
  unchanged _ := rfl
  untried _ := rfl
  writeRefused path fault h := by
    rw [h] at hfailure
    cases hfailure
  backupRefused path fault _ := .inl rfl
  reopened := rfl

/-- What stands in the two places afterwards is what stood there before it. -/
theorem Traces.of_kept {s : Tree} (h : Traces settings root top rel t report t')
    (hkept : ∀ l, Touches top settings.backup.suffix rel l → s.node? l = t'.node? l) :
    Traces settings root top rel t report s := by
  have hsaved : ∀ {bytes}, IsSaved root top settings.backup.suffix rel t' bytes →
      IsSaved root top settings.backup.suffix rel s bytes := by
    rintro bytes ⟨⟨mode, hnode⟩, htaken⟩
    exact ⟨⟨mode, (hkept _ (.inr rfl)).trans hnode⟩, htaken⟩
  refine ⟨fun hchanged => ?_, fun hchanged => (hkept _ (.inl rfl)).trans (h.unchanged hchanged),
    fun htried => (hkept _ (.inr rfl)).trans (h.untried htried),
    fun path fault hfailure => ?_, fun path fault hfailure => ?_,
    (Tree.openMode_congr (hkept _ (.inr rfl))).trans h.reopened⟩
  · obtain ⟨doc, o, hread, hrepair, ⟨mode, hfile⟩, hbackup⟩ := h.edited hchanged
    exact ⟨doc, o, hread, hrepair, ⟨mode, (hkept _ (.inl rfl)).trans hfile⟩, hsaved hbackup⟩
  · obtain ⟨bytes, hread, hbackup⟩ := h.writeRefused path fault hfailure
    exact ⟨bytes, hread, hsaved hbackup⟩
  · obtain hsame | ⟨bytes, n, hread, hbackup⟩ := h.backupRefused path fault hfailure
    · exact .inl ((hkept _ (.inr rfl)).trans hsame)
    · exact .inr ⟨bytes, n, hread, hsaved hbackup⟩

/-- Something else stands where the backup of a file is only if it was written. -/
theorem Traces.exists_isSaved (h : Traces settings root top rel t report t')
    (hother : t'.node? (top ++ Path.suffixed settings.backup.suffix rel) ≠
      t.node? (top ++ Path.suffixed settings.backup.suffix rel)) :
    ∃ bytes, IsSaved root top settings.backup.suffix rel t' bytes ∧ report.tried = true := by
  have htried : report.tried = true := by
    by_contra htried
    exact hother (h.untried (Bool.eq_false_iff.mpr htried))
  suffices hsaved : ∃ bytes, IsSaved root top settings.backup.suffix rel t' bytes by
    obtain ⟨bytes, hsaved⟩ := hsaved
    exact ⟨bytes, hsaved, htried⟩
  cases hchanged : report.changed with
  | true =>
    obtain ⟨doc, o, hedit⟩ := h.edited hchanged
    exact ⟨_, hedit.saved⟩
  | false =>
    rw [Report.tried, hchanged, Bool.false_or] at htried
    obtain ⟨path, fault, hfailure⟩ | ⟨path, fault, hfailure⟩ :=
      Report.exists_of_commitRefused htried
    · obtain ⟨bytes, n, -, hsaved⟩ := (h.backupRefused path fault hfailure).resolve_left hother
      exact ⟨_, hsaved⟩
    · obtain ⟨bytes, -, hsaved⟩ := h.writeRefused path fault hfailure
      exact ⟨bytes, hsaved⟩

/-- The traces that a commit leaves. -/
theorem CommitLeaves.traces {answer : Except FileError Unit} (hrel : rel ≠ [])
    (hne : settings.backup.suffix ≠ "")
    (hread : Document.read t (Path.joinAll root rel) = .ok doc)
    (hrepair : doc.repair settings kind = .ok o)
    (h : CommitLeaves root top rel settings.backup.suffix t doc o.text answer t') :
    Traces settings root top rel t (doc.reportOf settings kind o answer) t' := by
  have hbytes := Document.encode_text_of_read hread
  have hother : top ++ rel ≠ top ++ Path.suffixed settings.backup.suffix rel :=
    fun heq => Path.ne_suffixed hrel hne (List.append_cancel_left heq)
  have hself : ∀ {bytes mode},
      t.openMode root top (Path.suffixed settings.backup.suffix rel) = .ok mode →
      (t.put (top ++ Path.suffixed settings.backup.suffix rel) (.file bytes mode)).node?
        (top ++ Path.suffixed settings.backup.suffix rel) = some (.file bytes mode) :=
    fun hopen => Tree.node?_put_self (Tree.isFree_of_openMode hopen).ne_nil
  have hreopened : ∀ {s : Tree} {bytes mode},
      t.openMode root top (Path.suffixed settings.backup.suffix rel) = .ok mode →
      s.node? (top ++ Path.suffixed settings.backup.suffix rel) = some (.file bytes mode) →
      s.openMode root top (Path.suffixed settings.backup.suffix rel) =
        t.openMode root top (Path.suffixed settings.backup.suffix rel) :=
    fun hopen hnode =>
      (Tree.openMode_of_file (Tree.refusal_of_openMode hopen) hnode).trans hopen.symm
  cases h with
  | unopened =>
    exact ⟨nofun, fun _ => rfl, fun _ => rfl, nofun, fun _ _ _ => .inl rfl, rfl⟩
  | unsaved hopen =>
    exact ⟨nofun, fun _ => Tree.node?_put_of_ne hother, nofun, nofun,
      fun _ _ _ => .inr ⟨_, _, hbytes, ⟨_, hself hopen⟩, Tree.refusal_of_openMode hopen⟩,
      hreopened hopen (hself hopen)⟩
  | unreplaced hopen =>
    exact ⟨nofun, fun _ => Tree.node?_put_of_ne hother, nofun,
      fun _ _ _ => ⟨_, hbytes, ⟨_, hself hopen⟩, Tree.refusal_of_openMode hopen⟩, nofun,
      hreopened hopen (hself hopen)⟩
  | done hopen =>
    have hfile : top ++ rel ≠ [] := fun hnil => hrel (List.append_eq_nil_iff.mp hnil).2
    have hkept : ∀ {node}, ((t.put _ (.file (doc.encode doc.text) _)).put (top ++ rel) node).node?
        (top ++ Path.suffixed settings.backup.suffix rel) = some (.file (doc.encode doc.text) _) :=
      (Tree.node?_put_of_ne hother.symm).trans (hself hopen)
    exact ⟨fun _ => ⟨doc, o, hread, hrepair, ⟨_, Tree.node?_put_self hfile⟩, ⟨_, hkept⟩,
      Tree.refusal_of_openMode hopen⟩, nofun, nofun, nofun, nofun, hreopened hopen hkept⟩

/-- The traces that dealing with a file leaves. -/
theorem Ends.traces (hbelow : t.IsBelow root top rel) (hfree : t.LinkFree)
    (hne : settings.backup.suffix ≠ "") (hslash : '/' ∉ settings.backup.suffix.toList)
    (h : Ends settings t (Path.joinAll root rel) kind true report t') :
    Traces settings root top rel t report t' := by
  have htraces : ∀ {doc o answer}, Document.read t (Path.joinAll root rel) = .ok doc →
      doc.repair settings kind = .ok o →
      doc.commit o.text settings.backup.suffix t = (answer, t') →
      Traces settings root top rel t (doc.reportOf settings kind o answer) t' := by
    intro doc o answer hread hrepair hcommit
    have hleaves := Document.leaves_commit hbelow hfree hne hslash hread o.text
    rw [hcommit] at hleaves
    exact hleaves.traces hbelow.ne_nil hne hread hrepair
  cases h with
  | unreadable _ => exact .of_untried rfl rfl
  | refused _ _ => exact .of_untried rfl rfl
  | settled _ _ _ => exact .of_untried rfl rfl
  | committed hread hrepair _ hcommit =>
    have hdone := htraces hread hrepair hcommit
    rwa [Document.reportOf, Document.path_of_read hread] at hdone
  | commitRefused hread hrepair _ hcommit =>
    have hdone := htraces hread hrepair hcommit
    rwa [Document.reportOf, Document.path_of_read hread] at hdone

end ThemeRepair
