import ThemeRepair.Document.Commit
import ThemeRepair.Proofs.Result
import ThemeRepair.Proofs.Tree.Access

/-!
# What a commit leaves behind

A commit ends in one of five ways (`Document.ends_commit`): the backup is not opened, not filled or
not relied on, the new text is not put in its place, or it is.  Each of the first four may be due
to the system as well as to the tree.

A commit that is refused leaves the file as it was, whatever step refused it, and one that is
refused after the backup was checked leaves the backup, too.  After a commit the file has its new
text and the backup holds the old bytes (`commit_fails_closed`).  Both fail where the backup leads
to the file itself.  A backup that is a link to the file is written through the link: with what the
file has already, so that it leads to the new text afterwards (`commit_loses_bytes_behind_link`),
or with the beginning of it, if the system refuses the rest.
-/

namespace ThemeRepair

theorem Tree.system_of_write {t t' : Tree} {path : String} {content : ByteArray}
    (h : t.write path content = .ok t') : t'.system = t.system := by
  obtain rfl | ⟨d, name, mode, -, -, rfl⟩ := Tree.write_ok h
  · rfl
  · rfl

theorem Tree.system_of_replace {t t' : Tree} {path : String} {content : ByteArray} {mode : Nat}
    (h : t.replace path content mode = .ok t') : t'.system = t.system := by
  obtain ⟨d, name, -, -, -, rfl⟩ := Tree.replace_ok h
  rfl

/-- A step is refused, and what is written in it is cut off, or it is taken. -/
theorem System.refused_or_taken (s : System) (path : String) (step : CommitStep) :
    (∃ r, s.refusal? path step = some r ∧ s.allow path step = .error r.error ∧
      ∀ content, s.written path step content = content.extract 0 r.written) ∨
    s.refusal? path step = none ∧ s.allow path step = .ok () ∧
      ∀ content, s.written path step content = content := by
  unfold allow written
  cases s.refusal? path step with
  | some r => exact .inl ⟨r, rfl, rfl, fun _ => rfl⟩
  | none => exact .inr ⟨rfl, rfl, fun _ => rfl⟩

/-- The ways in which the commit of a document of the tree `t` ends: what it answers, and the tree
that then is. -/
inductive CommitEnds (t : Tree) (doc : Document) (text : Text) (suffix : String) :
    Except FileError Unit → Tree → Prop
  | unopened {e : OsError} :
      CommitEnds t doc text suffix (.error (.backup (backupPath doc.path suffix) (.os e))) t
  | unfilled {r : Refusal} {t' : Tree}
      (hrefused : t.system.refusal? doc.path .fillBackup = some r)
      (hwrite : t.write (backupPath doc.path suffix)
        ((doc.encode doc.text).extract 0 r.written) = .ok t') :
      CommitEnds t doc text suffix
        (.error (.backup (backupPath doc.path suffix) (.os r.error))) t'
  | unchecked {fault : BackupFault} {t' : Tree}
      (hwrite : t.write (backupPath doc.path suffix) (doc.encode doc.text) = .ok t') :
      CommitEnds t doc text suffix (.error (.backup (backupPath doc.path suffix) fault)) t'
  | unreplaced {fault : WriteFault} {t' : Tree}
      (hwrite : t.write (backupPath doc.path suffix) (doc.encode doc.text) = .ok t')
      (hheld : t'.read (backupPath doc.path suffix) = .ok (doc.encode doc.text)) :
      CommitEnds t doc text suffix (.error (.write doc.path fault)) t'
  | done {t₁ t' : Tree} {mode : Nat}
      (hwrite : t.write (backupPath doc.path suffix) (doc.encode doc.text) = .ok t₁)
      (hheld : t₁.read (backupPath doc.path suffix) = .ok (doc.encode doc.text))
      (hreplace : t₁.replace doc.path (doc.encode text) mode = .ok t') :
      CommitEnds t doc text suffix (.ok ()) t'

namespace Document

variable {t t' : Tree} {path suffix : String} {doc : Document} {text : Text}

theorem path_of_read (h : read t path = .ok doc) : doc.path = path := by
  unfold read at h
  split at h
  · next bytes hbytes =>
    unfold ofBytes at h
    split at h
    · cases h
      rfl
    · cases h
  · cases h

/-- A backup that is relied on was read back and holds the document. -/
theorem checkBackup_ok (h : doc.checkBackup suffix t = .ok ()) :
    t.read (backupPath doc.path suffix) = .ok (doc.encode doc.text) := by
  unfold checkBackup at h
  obtain ⟨-, -, h⟩ := exists_ok_of_bind h
  obtain ⟨-, -, h⟩ := exists_ok_of_bind h
  obtain ⟨written, hread, h⟩ := exists_ok_of_bind h
  split at h
  · next heq => rw [ok_of_mapError hread, heq]
  · cases h

/-- A backup whose filling is refused is not relied on for that reason. -/
theorem checkBackup_of_refused {e : OsError}
    (h : t.system.allow doc.path .fillBackup = .error e) :
    doc.checkBackup suffix t = .error (.os e) := by
  rw [checkBackup, h]
  rfl

/-- A new text is put in the place of a document as a file is put in another one's. -/
theorem replace_ok (h : doc.replace text t = .ok t') :
    ∃ mode, t.replace doc.path (doc.encode text) mode = .ok t' := by
  unfold replace at h
  obtain ⟨-, -, h⟩ := exists_ok_of_bind h
  obtain ⟨-, -, h⟩ := exists_ok_of_bind h
  obtain ⟨-, -, h⟩ := exists_ok_of_bind h
  obtain ⟨-, -, h⟩ := exists_ok_of_bind h
  exact ⟨_, ok_of_mapError h⟩

/-- A commit ends in one of the five ways. -/
theorem ends_commit (doc : Document) (text : Text) (suffix : String) (t : Tree) :
    CommitEnds t doc text suffix (doc.commit text suffix t).1 (doc.commit text suffix t).2 := by
  unfold commit writeBackup
  dsimp only
  cases t.system.allow doc.path .openBackup with
  | error e => exact .unopened
  | ok _ =>
    cases hwrite : t.write (backupPath doc.path suffix)
        (t.system.written doc.path .fillBackup (doc.encode doc.text)) with
    | error e => exact .unopened
    | ok t₁ =>
      dsimp only
      obtain ⟨r, hrefused, hstopped, hcut⟩ | ⟨-, -, hwhole⟩ :=
        t.system.refused_or_taken doc.path .fillBackup
      · rw [← Tree.system_of_write hwrite] at hstopped
        rw [hcut] at hwrite
        rw [checkBackup_of_refused hstopped]
        exact .unfilled hrefused hwrite
      · rw [hwhole] at hwrite
        cases hcheck : doc.checkBackup suffix t₁ with
        | error fault => exact .unchecked hwrite
        | ok _ =>
          have hheld := checkBackup_ok hcheck
          dsimp only
          cases hreplace : doc.replace text t₁ with
          | error fault => exact .unreplaced hwrite hheld
          | ok t₂ =>
            obtain ⟨mode, hput⟩ := replace_ok hreplace
            exact .done hwrite hheld hput

/-- The tree that a commit leaves is kept by the same system. -/
theorem system_of_commit {answer : Except FileError Unit}
    (h : doc.commit text suffix t = (answer, t')) : t'.system = t.system := by
  have hends := doc.ends_commit text suffix t
  rw [h] at hends
  cases hends with
  | unopened => rfl
  | unfilled _ hwrite => exact Tree.system_of_write hwrite
  | unchecked hwrite => exact Tree.system_of_write hwrite
  | unreplaced hwrite _ => exact Tree.system_of_write hwrite
  | done hwrite _ hreplace =>
    exact (Tree.system_of_replace hreplace).trans (Tree.system_of_write hwrite)

/-- A file keeps its bytes when they are written to a backup. -/
theorem read_of_write (h : read t path = .ok doc) {other : String}
    (hwrite : t.write other (doc.encode doc.text) = .ok t') :
    t'.read path = .ok (doc.encode doc.text) := by
  obtain hkept | ⟨-, hsame⟩ := Tree.read_write (encode_text_of_read h) hwrite
  · exact hkept
  · exact hsame

/-- A commit of a document that was read.  Done, it leaves the new text and the backup, or the new
text twice if the way to the backup passes the file's entry.  Refused over the new text, it leaves
the file as it was, and the backup; refused over the backup, it leaves the file as it was, unless
the backup is written to the file itself and the system refuses that halfway. -/
theorem commit_fails_closed (h : read t path = .ok doc) (text : Text) (suffix : String) :
    match doc.commit text suffix t with
    | (.ok (), t') =>
      t'.read path = .ok (doc.encode text) ∧
      (¬ t.PassesEntryOf path (backupPath path suffix) →
        t'.read (backupPath path suffix) = t.read path) ∧
      (t.PassesEntryOf path (backupPath path suffix) →
        t'.read (backupPath path suffix) = .ok (doc.encode text))
    | (.error (.backup _ _), t') => t'.read path = t.read path ∨
      t.SharesFile path (backupPath path suffix) ∧
        ∃ r, t.system.refusal? path .fillBackup = some r ∧
          t'.read path = .ok ((doc.encode doc.text).extract 0 r.written)
    | (.error (.write _ _), t') =>
      t'.read path = t.read path ∧ t'.read (backupPath path suffix) = t.read path
    | (.error (.unreadable _ _), _) => False := by
  obtain rfl := path_of_read h
  have hbytes := encode_text_of_read h
  have hends := doc.ends_commit text suffix t
  cases hcommit : doc.commit text suffix t with
  | mk result t' =>
    rw [hcommit] at hends
    cases hends with
    | unopened => exact .inl rfl
    | unfilled hrefused hwrite =>
      obtain hkept | ⟨hshared, hcut⟩ := Tree.read_write hbytes hwrite
      · exact .inl (hkept.trans hbytes.symm)
      · exact .inr ⟨hshared, _, hrefused, hcut⟩
    | unchecked hwrite => exact .inl ((read_of_write h hwrite).trans hbytes.symm)
    | unreplaced hwrite hheld =>
      exact ⟨(read_of_write h hwrite).trans hbytes.symm, hheld.trans hbytes.symm⟩
    | done hwrite hheld hreplace =>
      have hkept := read_of_write h hwrite
      refine ⟨Tree.read_replace hkept hreplace, fun hnot => ?_, fun hpass => ?_⟩
      · rw [← Tree.passesEntryOf_write_iff hwrite] at hnot
        rw [hbytes]
        exact Tree.read_replace_of_not_passes hreplace hheld hnot
      · rw [← Tree.passesEntryOf_write_iff hwrite] at hpass
        exact Tree.read_replace_of_passes hkept hreplace hheld hpass

/-- A template that is a link, and whose backup is a link to the same file. -/
def sharedTarget : Tree where
  entries := [(["a.twig"], .link "b"), (["a.twig.bak"], .link "b"),
    (["b"], .file (Text.encode "old".toList) Node.fileMode)]

/-- The way to the backup goes through a link of its own, to a file that is no entry of the
template's path. -/
theorem not_passesEntryOf_sharedTarget : ¬ sharedTarget.PassesEntryOf "a.twig" "a.twig.bak" := by
  rintro ⟨d, name, hentry, hlook⟩
  have hpath : sharedTarget.IsEntryOf "a.twig" [] "a.twig" :=
    ⟨[], by decide +kernel, by decide +kernel⟩
  obtain ⟨rfl, rfl⟩ := hentry.unique hpath
  have hnames : Path.names "a.twig.bak" = ["a.twig.bak"] := by decide +kernel
  have hstart : Tree.origin (.inside []) "a.twig.bak" = .inside [] := by decide +kernel
  have hlink : sharedTarget.node? ([] ++ ["a.twig.bak"]) = some (.link "b") := by decide +kernel
  have htarget : Path.names "b" ++ [] = ["b"] := by decide +kernel
  have horigin : Tree.origin (.inside []) "b" = .inside [] := by decide +kernel
  have hfile : sharedTarget.node? ([] ++ ["b"]) =
      some (.file (Text.encode "old".toList) Node.fileMode) := by decide +kernel
  have hlookup : ∀ name, name = "a.twig.bak" ∨ name = "b" → Tree.IsLookup .read name [] := by
    rintro name (rfl | rfl)
    · exact ⟨by decide, by decide, by decide, by decide⟩
    · exact ⟨by decide, by decide, by decide, by decide⟩
  rw [hstart, hnames, Tree.looksUp_lookup_iff (hlookup _ (.inl rfl))] at hlook
  obtain hself | ⟨mode, hdir, -⟩ | ⟨target, hnode, -, hlook⟩ := hlook
  · simp at hself
  · cases hlink.symm.trans hdir
  · cases hlink.symm.trans hnode
    rw [htarget, horigin, Tree.looksUp_lookup_iff (hlookup _ (.inr rfl))] at hlook
    obtain hself | ⟨mode, hdir, -⟩ | ⟨target, hnode, -, -⟩ := hlook
    · simp at hself
    · cases hfile.symm.trans hdir
    · cases hfile.symm.trans hnode

/-- The same files on a disk that has no space left for the new text. -/
def fullTarget : Tree :=
  { sharedTarget with
    system := { refusals := [{ path := "a.twig", step := .fillTemporary,
                               error := .other "No space left on device (os error 28)" }] } }

/-- The template gets its new text, and its backup leads to the old one; where there is no space
for the new text, both lead to the old one. -/
theorem commit_fails_closed_sharedTarget :
    read sharedTarget "a.twig" = .ok ⟨"a.twig", "old".toList, .utf8⟩ ∧
    (match commit ⟨"a.twig", "old".toList, .utf8⟩ "new".toList ".bak" sharedTarget with
    | (.ok (), t') =>
      t'.read "a.twig" = .ok (Text.encode "new".toList) ∧
      t'.read "a.twig.bak" = .ok (Text.encode "old".toList)
    | (.error _, _) => False) ∧
    read fullTarget "a.twig" = .ok ⟨"a.twig", "old".toList, .utf8⟩ ∧
    match commit ⟨"a.twig", "old".toList, .utf8⟩ "new".toList ".bak" fullTarget with
    | (.error (.write _ _), t') =>
      t'.read "a.twig" = .ok (Text.encode "old".toList) ∧
      t'.read "a.twig.bak" = .ok (Text.encode "old".toList)
    | _ => False := by
  have hread : read sharedTarget "a.twig" = .ok ⟨"a.twig", "old".toList, .utf8⟩ := by
    decide +kernel
  have hfull : read fullTarget "a.twig" = .ok ⟨"a.twig", "old".toList, .utf8⟩ := by
    decide +kernel
  refine ⟨hread, ?_, hfull, ?_⟩
  · have hkept := commit_fails_closed hread "new".toList ".bak"
    have hdone : (commit ⟨"a.twig", "old".toList, .utf8⟩ "new".toList ".bak" sharedTarget).1 =
        .ok () := by decide +kernel
    cases hcommit : commit ⟨"a.twig", "old".toList, .utf8⟩ "new".toList ".bak" sharedTarget with
    | mk result t' =>
      rw [hcommit] at hkept hdone
      cases hdone
      obtain ⟨hnew, hold, -⟩ := hkept
      exact ⟨hnew, (hold not_passesEntryOf_sharedTarget).trans (by decide +kernel)⟩
  · have hkept := commit_fails_closed hfull "new".toList ".bak"
    have hrefused : (commit ⟨"a.twig", "old".toList, .utf8⟩ "new".toList ".bak" fullTarget).1 =
        .error (.write "a.twig" (.temporary "/./.tmp000000"
          (.other "No space left on device (os error 28)"))) := by decide +kernel
    cases hcommit : commit ⟨"a.twig", "old".toList, .utf8⟩ "new".toList ".bak" fullTarget with
    | mk result t' =>
      rw [hcommit] at hkept hrefused
      cases hrefused
      obtain ⟨hfile, hbackup⟩ := hkept
      have hold : fullTarget.read "a.twig" = .ok (Text.encode "old".toList) := by decide +kernel
      exact ⟨hfile.trans hold, hbackup.trans hold⟩

/-- A component definition whose backup is a link to the definition itself. -/
def linkedBackup : Tree where
  entries := [(["a.yml"], .file (Text.encode "old".toList) Node.fileMode),
    (["a.yml.bak"], .link "a.yml")]

/-- The commit is done, and the backup it relied on leads to the new text. -/
theorem commit_loses_bytes_behind_link :
    read linkedBackup "a.yml" = .ok ⟨"a.yml", "old".toList, .utf8⟩ ∧
    (commit ⟨"a.yml", "old".toList, .utf8⟩ "new".toList ".bak" linkedBackup).1 = .ok () ∧
    (commit ⟨"a.yml", "old".toList, .utf8⟩ "new".toList ".bak" linkedBackup).2.read "a.yml.bak" ≠
      linkedBackup.read "a.yml" := by
  refine ⟨?_, ?_, ?_⟩
  · decide +kernel
  · decide +kernel
  · decide +kernel

end Document
end ThemeRepair
