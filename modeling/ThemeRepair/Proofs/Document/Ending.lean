import ThemeRepair.Proofs.Document.Commit
import ThemeRepair.Run.Report

/-!
# How dealing with one file ends

Dealing with a file ends in one of six ways, and `Ends` lists them: with each, the report that is
made and the tree that is left.  The file cannot be read, its repair is refused, there is nothing to
do, the new text is only announced, it is committed, or its commit is refused.

* `Tree.ends_repairFile`: there is no other way.
* `exists_ends_of_mem_repairFiles`: every report of a run comes from one of them.

What is told of a run on the whole follows from these six cases, not from the code again.
-/

namespace ThemeRepair

variable {settings : Settings} {write : Bool} {t t' : Tree} {path suffix : String}
  {kind : DocumentKind} {report : Report} {queue : List (String × DocumentKind)}

/-- The failure is that of a commit: the backup or the new text could not be put in its place. -/
def Failure.isOfCommit : Failure → Bool
  | .file (.unreadable _ _) => false
  | .file (.backup _ _) => true
  | .file (.write _ _) => true
  | .fix _ => false

/-- The file had a new text, and its commit was refused. -/
def Report.commitRefused (r : Report) : Bool := r.failure.any Failure.isOfCommit

/-- A commit is refused over the backup or over the new text. -/
theorem Report.exists_of_commitRefused (h : report.commitRefused = true) :
    (∃ path fault, report.failure = some (.file (.backup path fault))) ∨
      ∃ path fault, report.failure = some (.file (.write path fault)) := by
  unfold commitRefused at h
  cases hfailure : report.failure with
  | none =>
    rw [hfailure] at h
    cases h
  | some failure =>
    rw [hfailure] at h
    cases failure with
    | fix e => cases h
    | file e =>
      cases e with
      | unreadable path reason => cases h
      | backup path fault => exact .inl ⟨path, fault, rfl⟩
      | write path fault => exact .inr ⟨path, fault, rfl⟩

/-- A commit that is refused is refused over the backup or over the new text. -/
theorem Document.isOfCommit_of_commit {doc : Document} {text : Text} {e : FileError}
    (h : doc.commit text suffix t = (.error e, t')) : (Failure.file e).isOfCommit = true := by
  unfold commit at h
  split at h
  · cases h
    rfl
  · split at h
    · cases h
      rfl
    · cases h

/-- The ways in which dealing with a file of the tree `t` ends: whether the run writes, the report
on the file, and the tree that then is. -/
inductive Ends (settings : Settings) (t : Tree) (path : String) (kind : DocumentKind) :
    (write : Bool) → Report → Tree → Prop
  | unreadable {write : Bool} {e : ReadError} (hread : Document.read t path = .error e) :
      Ends settings t path kind write
        { path := path, kind := kind, failure := some (.file (.unreadable path e)) } t
  | refused {write : Bool} {doc : Document} {e : FixError} (hread : Document.read t path = .ok doc)
      (hrepair : doc.repair settings kind = .error e) :
      Ends settings t path kind write
        { path := path, kind := kind, failure := some (.fix e) } t
  | settled {write : Bool} {doc : Document} {o : Outcome} (hread : Document.read t path = .ok doc)
      (hrepair : doc.repair settings kind = .ok o)
      (hsame : o.fixed.isEmpty = true ∨ o.text = doc.text) :
      Ends settings t path kind write
        { path := path, kind := kind, manual := o.manual, skipped := o.regionErrors } t
  | announced {doc : Document} {o : Outcome} (hread : Document.read t path = .ok doc)
      (hrepair : doc.repair settings kind = .ok o)
      (hnew : ¬ (o.fixed.isEmpty = true ∨ o.text = doc.text)) :
      Ends settings t path kind false
        { path := path, kind := kind, fixed := o.fixed, manual := o.manual,
          skipped := o.regionErrors, changed := true } t
  | committed {doc : Document} {o : Outcome} {t' : Tree} (hread : Document.read t path = .ok doc)
      (hrepair : doc.repair settings kind = .ok o)
      (hnew : ¬ (o.fixed.isEmpty = true ∨ o.text = doc.text))
      (hcommit : doc.commit o.text settings.backup.suffix t = (.ok (), t')) :
      Ends settings t path kind true
        { path := path, kind := kind, fixed := o.fixed, manual := o.manual,
          skipped := o.regionErrors, changed := true,
          backup := some (backupPath path settings.backup.suffix) } t'
  | commitRefused {doc : Document} {o : Outcome} {e : FileError} {t' : Tree}
      (hread : Document.read t path = .ok doc) (hrepair : doc.repair settings kind = .ok o)
      (hnew : ¬ (o.fixed.isEmpty = true ∨ o.text = doc.text))
      (hcommit : doc.commit o.text settings.backup.suffix t = (.error e, t')) :
      Ends settings t path kind true
        { path := path, kind := kind, fixed := o.fixed, manual := o.manual,
          skipped := o.regionErrors, failure := some (.file e) } t'

/-- Dealing with a file ends in one of the six ways. -/
theorem Tree.ends_repairFile (settings : Settings) (write : Bool) (t : Tree) (path : String)
    (kind : DocumentKind) :
    Ends settings t path kind write (t.repairFile settings write path kind).1
      (t.repairFile settings write path kind).2 := by
  unfold Tree.repairFile
  cases hread : Document.read t path with
  | error e => exact .unreadable hread
  | ok doc =>
    obtain rfl := Document.path_of_read hread
    dsimp only
    cases hrepair : doc.repair settings kind with
    | error e => exact .refused hread hrepair
    | ok o =>
      dsimp only
      unfold Document.settle
      dsimp only
      split
      · next hsame => exact .settled hread hrepair hsame
      · next hnew =>
        cases write with
        | false => exact .announced hread hrepair hnew
        | true =>
          rw [if_pos rfl]
          split
          · next t' hcommit => exact .committed hread hrepair hnew hcommit
          · next e t' hcommit => exact .commitRefused hread hrepair hnew hcommit

/-- Whatever is done to a file, the tree is kept by the same system. -/
theorem Ends.system_eq (h : Ends settings t path kind write report t') :
    t'.system = t.system := by
  cases h with
  | unreadable _ => rfl
  | refused _ _ => rfl
  | settled _ _ _ => rfl
  | announced _ _ _ => rfl
  | committed _ _ _ hcommit => exact Document.system_of_commit hcommit
  | commitRefused _ _ _ hcommit => exact Document.system_of_commit hcommit

/-- The tree that a run leaves is kept by the same system. -/
theorem Tree.system_repairFiles (settings : Settings) (write : Bool)
    (queue : List (String × DocumentKind)) (t : Tree) :
    (t.repairFiles settings write queue).2.system = t.system := by
  induction queue generalizing t with
  | nil => rfl
  | cons f queue ih =>
    rw [Tree.repairFiles]
    dsimp only
    rw [ih, (t.ends_repairFile settings write f.1 f.2).system_eq]

/-- Every report on the files of a run tells how dealing with one of them ended, in the tree that
the files in front of it left. -/
theorem exists_ends_of_mem_repairFiles
    (h : report ∈ (t.repairFiles settings write queue).1) :
    ∃ s path kind s', Ends settings s path kind write report s' := by
  induction queue generalizing t with
  | nil => cases h
  | cons f queue ih =>
    rw [Tree.repairFiles] at h
    rcases List.mem_cons.mp h with rfl | h
    · exact ⟨t, f.1, f.2, _, t.ends_repairFile settings write f.1 f.2⟩
    · exact ih h

theorem Ends.path_and_kind (h : Ends settings t path kind write report t') :
    report.path = path ∧ report.kind = kind := by
  cases h <;> exact ⟨rfl, rfl⟩

/-- There is a report for each file, in the order of the files. -/
theorem map_path_repairFiles (settings : Settings) (write : Bool)
    (queue : List (String × DocumentKind)) (t : Tree) :
    (t.repairFiles settings write queue).1.map Report.path = queue.map Prod.fst := by
  induction queue generalizing t with
  | nil => rfl
  | cons f queue ih =>
    rw [Tree.repairFiles]
    dsimp only
    rw [List.map_cons, List.map_cons, ih,
      (t.ends_repairFile settings write f.1 f.2).path_and_kind.1]

end ThemeRepair
