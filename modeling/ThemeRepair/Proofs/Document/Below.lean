import ThemeRepair.Proofs.Document.Ending
import ThemeRepair.Proofs.Tree.Plain

/-!
# Dealing with one file below a root

In a tree without links, what a commit of a file below a root puts in the tree can be told
beforehand (`Document.commit_below`): nothing, if the backup is not opened; the backup, or what was
written of it, if the commit is refused later; the backup and the new text, if it is not refused.
Which of them it is, is up to the place of the backup and to the system.

So what is done to a file is up to two locations, that of the file and that of its backup: in trees
that have the same there, the same is reported and the same is put (`repairFile_congr`).
-/

namespace ThemeRepair

open ThemeRepair.Tree (IsBelow SameDirectories refusal?)

variable {s t : Tree} {top : Location} {root suffix : String} {rel : List String}
  {doc : Document} {content : ByteArray} {mode : Nat}

/-! ## The system -/

namespace System

/-- What a system answers to a backup that was opened. -/
def answerBackup (s : System) (path : String) : Except BackupFault Unit := do
  (s.allow path .fillBackup).mapError .os
  (s.allow path .readBackup).mapError .os

/-- What a system answers to a new text for a file. -/
def answerText (s : System) (path : String) : Except WriteFault Unit := do
  let temporary := s.temporaryPath path
  (if Path.isTooLong temporary then .error .nameTooLong
    else s.allow path .makeTemporary).mapError (.temporary temporary)
  (s.allow path .fillTemporary).mapError (.temporary temporary)
  (s.allow path .syncTemporary).mapError .os
  (s.allow path .rename).mapError .os

/-- The mode that a new file gets in the place of one with the mode `mode`. -/
def newMode (s : System) (path : String) (mode : Nat) : Nat :=
  match s.allow path .setMode with
  | .ok () => mode
  | .error _ => privateFileMode

/-- The systems act alike on the file at a path. -/
structure ActsLike (s s' : System) (path : String) : Prop where
  temporaryPath : s.temporaryPath path = s'.temporaryPath path
  refusal? : ∀ step, s.refusal? path step = s'.refusal? path step

theorem actsLike_self (s : System) (path : String) : s.ActsLike s path := ⟨rfl, fun _ => rfl⟩

theorem written_of_answerBackup {s : System} {path : String} (h : s.answerBackup path = .ok ())
    (content : ByteArray) : s.written path .fillBackup content = content := by
  obtain ⟨_, hfill, -⟩ := exists_ok_of_bind h
  obtain ⟨r, -, hrefused, -⟩ | ⟨-, -, hwhole⟩ := s.refused_or_taken path .fillBackup
  · rw [hrefused] at hfill
    cases hfill
  · exact hwhole content

end System

/-! ## The file and its backup -/

namespace Tree

theorem read_congr {path : String} (h : s.resolve path .read = t.resolve path .read) :
    s.read path = t.read path := by
  rw [read, read, h]

/-- The mode of the file that is opened to be written at a path below a root, made if need be; or
why none is opened. -/
def openMode (t : Tree) (root : String) (top : Location) (rel : List String) : Except OsError Nat :=
  match refusal? (Path.joinAll root rel) rel, t.node? (top ++ rel) with
  | some e, _ => .error e
  | none, none => .ok Node.fileMode
  | none, some (.file _ mode) => .ok mode
  | none, some _ => .error .isDirectory

theorem isFree_of_openMode (h : t.openMode root top rel = .ok mode) : t.IsFree (top ++ rel) := by
  unfold openMode at h
  split at h
  · cases h
  · next hnode => exact .inl hnode
  · next c m _ hnode => exact .inr ⟨c, m, hnode⟩
  · cases h

theorem refusal_of_openMode (h : t.openMode root top rel = .ok mode) :
    refusal? (Path.joinAll root rel) rel = none := by
  unfold openMode at h
  split at h
  · cases h
  · assumption
  · assumption
  · cases h

theorem openMode_congr (h : s.node? (top ++ rel) = t.node? (top ++ rel)) :
    s.openMode root top rel = t.openMode root top rel := by
  rw [openMode, openMode, h]

theorem openMode_of_file (hrefusal : refusal? (Path.joinAll root rel) rel = none)
    (hnode : t.node? (top ++ rel) = some (.file content mode)) :
    t.openMode root top rel = .ok mode := by
  rw [openMode, hrefusal, hnode]

namespace IsBelow

theorem resolve_congr {use : Use} (hs : s.IsBelow root top rel) (hsfree : s.LinkFree)
    (ht : t.IsBelow root top rel) (htfree : t.LinkFree)
    (hnode : s.node? (top ++ rel) = t.node? (top ++ rel)) :
    s.resolve (Path.joinAll root rel) use = t.resolve (Path.joinAll root rel) use := by
  rw [hs.resolve_joinAll hsfree, ht.resolve_joinAll htfree, entryPlace, entryPlace, hnode]

variable (h : t.IsBelow root top rel) (hfree : t.LinkFree)
include h hfree

/-- A file that can be read stands where its path says, and the system takes the path. -/
theorem of_read {bytes : ByteArray} (hread : t.read (Path.joinAll root rel) = .ok bytes) :
    refusal? (Path.joinAll root rel) rel = none ∧
      ∃ mode, t.node? (top ++ rel) = some (.file bytes mode) := by
  have hres : t.resolve (Path.joinAll root rel) .read = _ := h.resolve_joinAll hfree
  unfold Tree.read at hread
  cases hrefusal : refusal? (Path.joinAll root rel) rel with
  | some e =>
    rw [hres, hrefusal] at hread
    cases hread
  | none =>
    rw [hres, hrefusal, entryPlace] at hread
    refine ⟨rfl, ?_⟩
    cases hnode : t.node? (top ++ rel) with
    | none =>
      rw [hnode] at hread
      cases hread
    | some node =>
      rw [hnode] at hread
      cases node with
      | file c mode =>
        cases hread
        exact ⟨mode, rfl⟩
      | directory mode => cases hread
      | link target => cases hread

section File

variable {mode : Nat} (hrefusal : refusal? (Path.joinAll root rel) rel = none)
  (hnode : t.node? (top ++ rel) = some (.file content mode))
include hrefusal hnode

theorem resolve_file {use : Use} :
    t.resolve (Path.joinAll root rel) use = .ok (.found (top ++ rel) (.file content mode)) := by
  rw [h.resolve_joinAll hfree, hrefusal, entryPlace, hnode]

theorem read_file : t.read (Path.joinAll root rel) = .ok content := by
  rw [read, h.resolve_file hfree hrefusal hnode]

theorem mode?_file : t.mode? (Path.joinAll root rel) = some mode := by
  rw [mode?, h.resolve_file hfree hrefusal hnode]

end File

theorem write_joinAll (content : ByteArray) :
    t.write (Path.joinAll root rel) content =
      (t.openMode root top rel).map fun mode => t.put (top ++ rel) (.file content mode) := by
  rw [write, h.resolve_joinAll hfree, openMode]
  cases refusal? (Path.joinAll root rel) rel with
  | some e => rfl
  | none =>
    obtain ⟨init, name, rfl⟩ := (List.eq_nil_or_concat' rel).resolve_left h.ne_nil
    rw [← List.append_assoc]
    dsimp only
    rw [entryPlace_concat]
    cases hnode : t.node? (top ++ init ++ [name]) with
    | none => rfl
    | some node => cases node <;> rfl

end IsBelow
end Tree

/-! ## A commit -/

namespace Document

/-- What a commit of the file at `file` answers, and what it puts in the tree.  The file has the
mode `mode`; the one that its backup is written to, at `backup`, has the mode in `opened`, if it can
be opened. -/
def footprint (doc : Document) (text : Text) (suffix : String) (s : System)
    (file backup : Location) (mode : Nat) (opened : Except OsError Nat) :
    Except FileError Unit × List (Location × Node) :=
  match s.allow doc.path .openBackup >>= fun _ => opened with
  | .error e => (.error (.backup (backupPath doc.path suffix) (.os e)), [])
  | .ok backupMode =>
    let saved := (backup,
      Node.file (s.written doc.path .fillBackup (doc.encode doc.text)) backupMode)
    match s.answerBackup doc.path with
    | .error fault => (.error (.backup (backupPath doc.path suffix) fault), [saved])
    | .ok () =>
      match s.answerText doc.path with
      | .error fault => (.error (.write doc.path fault), [saved])
      | .ok () => (.ok (), [saved, (file, .file (doc.encode text) (s.newMode doc.path mode))])

theorem footprint_congr {text : Text} {s s' : System} {file backup : Location}
    {opened : Except OsError Nat} (h : s.ActsLike s' doc.path) :
    doc.footprint text suffix s file backup mode opened =
      doc.footprint text suffix s' file backup mode opened := by
  simp only [footprint, System.answerBackup, System.answerText, System.newMode, System.allow,
    System.written, h.temporaryPath, h.refusal?]

/-- Where a system refuses nothing, a commit whose backup can be opened is refused for one reason:
the path of the temporary file is too long. -/
theorem footprint_of_refusals_nil (text : Text) (suffix : String) {s : System}
    (h : s.refusals = []) (file backup : Location) (mode backupMode : Nat) :
    doc.footprint text suffix s file backup mode (.ok backupMode) =
      if Path.isTooLong (s.temporaryPath doc.path) then
        (.error (.write doc.path (.temporary (s.temporaryPath doc.path) .nameTooLong)),
          [(backup, .file (doc.encode doc.text) backupMode)])
      else
        (.ok (), [(backup, .file (doc.encode doc.text) backupMode),
          (file, .file (doc.encode text) mode)]) := by
  have hallow : ∀ step, s.allow doc.path step = .ok () := by
    intro step
    rw [System.allow, System.refusal?, h]
    rfl
  have hbackup : s.answerBackup doc.path = .ok () := by
    rw [System.answerBackup, hallow, hallow]
    rfl
  have hmode : s.newMode doc.path mode = mode := by rw [System.newMode, hallow]
  have htext : s.answerText doc.path =
      if Path.isTooLong (s.temporaryPath doc.path) then
        .error (.temporary (s.temporaryPath doc.path) .nameTooLong)
      else .ok () := by
    simp only [System.answerText, hallow]
    by_cases hlong : Path.isTooLong (s.temporaryPath doc.path) = true
    · rw [if_pos hlong, if_pos hlong]
      rfl
    · rw [if_neg hlong, if_neg hlong]
      rfl
  rw [footprint, hallow, hbackup, System.written_of_answerBackup hbackup, hmode, htext]
  by_cases hlong : Path.isTooLong (s.temporaryPath doc.path) = true
  · rw [if_pos hlong, if_pos hlong]
    rfl
  · rw [if_neg hlong, if_neg hlong]
    rfl

/-- The backup that was written is relied on, unless the system refuses. -/
theorem checkBackup_eq
    (hread : t.read (backupPath doc.path suffix) =
      .ok (t.system.written doc.path .fillBackup (doc.encode doc.text))) :
    doc.checkBackup suffix t = t.system.answerBackup doc.path := by
  obtain ⟨r, -, hrefused, -⟩ | ⟨-, htaken, hwhole⟩ :=
    t.system.refused_or_taken doc.path .fillBackup
  · rw [checkBackup_of_refused hrefused, System.answerBackup, hrefused]
    rfl
  · rw [hwhole] at hread
    rw [checkBackup, System.answerBackup, htaken, hread]
    cases t.system.allow doc.path .readBackup with
    | error e => rfl
    | ok _ => exact if_pos rfl

/-- A new text is put in the place of a file, unless the system refuses. -/
theorem replace_below (h : t.IsBelow root top rel) (hfree : t.LinkFree)
    (hpath : doc.path = Path.joinAll root rel)
    (hrefusal : refusal? (Path.joinAll root rel) rel = none)
    (hnode : t.node? (top ++ rel) = some (.file content mode)) (text : Text) :
    doc.replace text t = (t.system.answerText doc.path).map fun _ =>
      t.put (top ++ rel) (.file (doc.encode text) (t.system.newMode doc.path mode)) := by
  have hmake := h.makeTemporary_joinAll hfree hrefusal
  have hmode : t.newMode doc.path = t.system.newMode doc.path mode := by
    rw [Tree.newMode, System.newMode, hpath, h.mode?_file hfree hrefusal hnode]
    rfl
  have hput : t.replace doc.path (doc.encode text) (t.newMode doc.path) =
      .ok (t.put (top ++ rel) (.file (doc.encode text) (t.system.newMode doc.path mode))) := by
    rw [hmode, hpath]
    refine h.replace_joinAll hfree hrefusal fun m hdir => ?_
    cases hnode.symm.trans hdir
  rw [← hpath] at hmake
  rw [replace, System.answerText, hmake, hput]
  generalize (if Path.isTooLong (t.system.temporaryPath doc.path) = true then
    (.error .nameTooLong : Except OsError Unit)
    else t.system.allow doc.path .makeTemporary) = made
  cases made with
  | error e => rfl
  | ok _ =>
    cases t.system.allow doc.path .fillTemporary with
    | error e => rfl
    | ok _ =>
      cases t.system.allow doc.path .syncTemporary with
      | error e => rfl
      | ok _ => cases t.system.allow doc.path .rename <;> rfl

/-- A commit of a file below a root puts in the tree what its footprint tells. -/
theorem commit_below (h : t.IsBelow root top rel) (hfree : t.LinkFree) (hne : suffix ≠ "")
    (hslash : '/' ∉ suffix.toList) (hread : read t (Path.joinAll root rel) = .ok doc)
    (hnode : t.node? (top ++ rel) = some (.file (doc.encode doc.text) mode)) (text : Text) :
    let places := doc.footprint text suffix t.system (top ++ rel)
      (top ++ Path.suffixed suffix rel) mode (t.openMode root top (Path.suffixed suffix rel))
    doc.commit text suffix t = (places.1, t.putAll places.2) := by
  have hpath := path_of_read hread
  have hbackupPath : backupPath doc.path suffix = Path.joinAll root (Path.suffixed suffix rel) := by
    rw [Path.joinAll_suffixed h.ne_nil, hpath]
    rfl
  obtain ⟨hrefusal, -⟩ := h.of_read hfree (encode_text_of_read hread)
  have hbelow := h.suffixed hslash
  have hwrite := hbelow.write_joinAll hfree
    (t.system.written doc.path .fillBackup (doc.encode doc.text))
  rw [← hbackupPath] at hwrite
  dsimp only
  rw [footprint, commit, writeBackup]
  dsimp only
  cases t.system.allow doc.path .openBackup with
  | error e => rfl
  | ok _ =>
    rw [hwrite]
    cases hopened : t.openMode root top (Path.suffixed suffix rel) with
    | error e => rfl
    | ok backup =>
      have hplace := Tree.isFree_of_openMode hopened
      have hbrefusal := Tree.refusal_of_openMode hopened
      -- in the tree with the backup, the file is where it was
      set bytes := t.system.written doc.path .fillBackup (doc.encode doc.text) with hbytes
      set t₁ := t.put (top ++ Path.suffixed suffix rel) (.file bytes backup) with ht₁
      have hsystem : t₁.system = t.system := Tree.system_put ..
      have hsame := Tree.sameDirectories_put hplace bytes backup
      have hfree₁ := hfree.put hplace.ne_nil bytes backup
      have hself : t₁.node? (top ++ Path.suffixed suffix rel) = some (.file bytes backup) :=
        Tree.node?_put_self hplace.ne_nil
      have hother : top ++ rel ≠ top ++ Path.suffixed suffix rel :=
        fun heq => Path.ne_suffixed h.ne_nil hne (List.append_cancel_left heq)
      have hnode₁ : t₁.node? (top ++ rel) = some (.file (doc.encode doc.text) mode) := by
        rw [ht₁, Tree.node?_put_of_ne hother, hnode]
      have hheld : t₁.read (backupPath doc.path suffix) =
          .ok (t₁.system.written doc.path .fillBackup (doc.encode doc.text)) := by
        rw [hbackupPath, hsystem]
        exact (hbelow.transfer hfree hsame).read_file hfree₁ hbrefusal hself
      have hreplace := replace_below (h.transfer hfree hsame) hfree₁ hpath hrefusal hnode₁ text
      dsimp only [Except.map]
      rw [checkBackup_eq hheld, hsystem]
      cases t.system.answerBackup doc.path with
      | error fault => rfl
      | ok _ =>
        rw [hsystem] at hreplace
        dsimp only
        rw [hreplace]
        cases t.system.answerText doc.path <;> rfl

theorem read_congr {path : String} (h : s.resolve path .read = t.resolve path .read) :
    read s path = read t path := by
  rw [read, read, Tree.read_congr h]

end Document

/-! ## What is done to a file -/

/-- The location is that of a file, or of its backup. -/
def Touches (top : Location) (suffix : String) (rel : List String) (l : Location) : Prop :=
  l = top ++ rel ∨ l = top ++ Path.suffixed suffix rel

/-- A commit puts nothing elsewhere, and nothing twice. -/
theorem Document.puts_footprint (text : Text) {s : System} {opened : Except OsError Nat}
    (hne : suffix ≠ "") (hrel : rel ≠ []) :
    let puts := (doc.footprint text suffix s (top ++ rel) (top ++ Path.suffixed suffix rel) mode
      opened).2
    (puts.map Prod.fst).Nodup ∧ ∀ p ∈ puts, Touches top suffix rel p.1 := by
  have hother : top ++ Path.suffixed suffix rel ≠ top ++ rel :=
    fun heq => Path.ne_suffixed hrel hne (List.append_cancel_left heq).symm
  unfold footprint
  split
  · simp
  dsimp only
  split
  · simp [Touches]
  split
  · simp [Touches]
  · simp [Touches, hother]

section Repair

variable {settings : Settings} {kind : DocumentKind} {path : String} {o : Outcome}

/-- The report on a document whose commit was answered. -/
def Document.reportOf (settings : Settings) (doc : Document) (kind : DocumentKind) (o : Outcome) :
    Except FileError Unit → Report
  | .ok () =>
    { path := doc.path, kind := kind, fixed := o.fixed, manual := o.manual,
      skipped := o.regionErrors, changed := true,
      backup := some (backupPath doc.path settings.backup.suffix) }
  | .error e =>
    { path := doc.path, kind := kind, fixed := o.fixed, manual := o.manual,
      skipped := o.regionErrors, failure := some (.file e) }

theorem Document.settle_of_commit {answer : Except FileError Unit} {t' : Tree}
    (hnew : ¬ (o.fixed.isEmpty = true ∨ o.text = doc.text))
    (hcommit : doc.commit o.text settings.backup.suffix t = (answer, t')) :
    doc.settle settings true kind o t = (doc.reportOf settings kind o answer, t') := by
  rw [settle, if_neg hnew, if_pos rfl, hcommit]
  cases answer <;> rfl

/-- The report on a file tells that a commit was tried. -/
def Report.tried (r : Report) : Bool := r.changed || r.commitRefused

theorem Document.tried_reportOf {answer : Except FileError Unit} {t' : Tree} {text : Text}
    (hcommit : doc.commit text suffix t = (answer, t')) :
    (doc.reportOf settings kind o answer).tried = true := by
  cases answer with
  | ok _ => rfl
  | error e => exact isOfCommit_of_commit hcommit

/-- What is done to a file is up to the file and the place of its backup, and to the system where a
commit is tried: trees that have the same there get the same report, and the same is put in
them. -/
theorem repairFile_congr (kind : DocumentKind) (hs : s.IsBelow root top rel) (hsfree : s.LinkFree)
    (ht : t.IsBelow root top rel) (htfree : t.LinkFree) (hne : settings.backup.suffix ≠ "")
    (hslash : '/' ∉ settings.backup.suffix.toList)
    (hnode : s.node? (top ++ rel) = t.node? (top ++ rel))
    (hopen : s.openMode root top (Path.suffixed settings.backup.suffix rel) =
      t.openMode root top (Path.suffixed settings.backup.suffix rel))
    (hacts : (t.repairFile settings true (Path.joinAll root rel) kind).1.tried = true →
      s.system.ActsLike t.system (Path.joinAll root rel)) :
    ∃ report puts, (puts.map Prod.fst).Nodup ∧
      (∀ p ∈ puts, Touches top settings.backup.suffix rel p.1) ∧
      s.repairFile settings true (Path.joinAll root rel) kind = (report, s.putAll puts) ∧
      t.repairFile settings true (Path.joinAll root rel) kind = (report, t.putAll puts) := by
  have hread := Document.read_congr (hs.resolve_congr hsfree ht htfree hnode)
  unfold Tree.repairFile at hacts ⊢
  rw [hread]
  cases hdoc : Document.read t (Path.joinAll root rel) with
  | error e => exact ⟨_, [], List.nodup_nil, nofun, rfl, rfl⟩
  | ok doc =>
    rw [hdoc] at hacts
    dsimp only at hacts ⊢
    cases hrepair : doc.repair settings kind with
    | error e => exact ⟨_, [], List.nodup_nil, nofun, rfl, rfl⟩
    | ok o =>
      rw [hrepair] at hacts
      dsimp only at hacts ⊢
      by_cases hsame : o.fixed.isEmpty = true ∨ o.text = doc.text
      · rw [Document.settle, if_pos hsame, Document.settle, if_pos hsame]
        exact ⟨_, [], List.nodup_nil, nofun, rfl, rfl⟩
      · -- the footprints of the commit are the same
        obtain ⟨-, mode, hfile⟩ := ht.of_read htfree (Document.encode_text_of_read hdoc)
        have hscommit := Document.commit_below hs hsfree hne hslash (hread.trans hdoc)
          (hnode.trans hfile) o.text
        have htcommit := Document.commit_below ht htfree hne hslash hdoc hfile o.text
        rw [Document.settle_of_commit hsame htcommit] at hacts ⊢
        have halike := hacts (Document.tried_reportOf htcommit)
        rw [← Document.path_of_read hdoc] at halike
        rw [hopen, Document.footprint_congr halike] at hscommit
        rw [Document.settle_of_commit hsame hscommit]
        obtain ⟨hnodup, htouches⟩ := Document.puts_footprint o.text hne ht.ne_nil
        exact ⟨_, _, hnodup, htouches, rfl, rfl⟩

end Repair

end ThemeRepair
