import ThemeRepair.Proofs.Document.Traces
import ThemeRepair.Proofs.Run.Queue

/-!
# Files that do not meet

The files of a run do not meet: no file's backup is another file, or another file's backup
(`IsSite.apart`).  So each file is found as it was before the run, whatever was done to the others:
what is reported of it is what would be reported of it alone, and what is left of it is what would
be left of it alone (`isRunOf_repairFiles`, by induction on the queue).
-/

namespace ThemeRepair

open ThemeRepair.Tree (IsBelow SameDirectories refusal?)

variable {s s' t : Tree} {top : Location} {root suffix : String} {rel rel' : List String}
  {settings : Settings} {kind : DocumentKind} {doc : Document} {o : Outcome}
  {queue : List (List String × DocumentKind)}

/-! ## Files that a run deals with -/

/-- Names below a root that are not those of a backup. -/
structure IsSite (t : Tree) (root : String) (top : Location) (suffix : String)
    (rel : List String) : Prop where
  below : t.IsBelow root top rel
  notBackup : Selector.isBackup suffix (Path.ofNames rel) = false

/-- Joined pieces end in the last one. -/
theorem suffix_intercalate {α : Type} (sep : List α) (pieces : List (List α)) (last : List α) :
    last <:+ sep.intercalate (pieces ++ [last]) := by
  induction pieces with
  | nil => simp [List.intercalate]
  | cons piece pieces ih =>
    refine ih.trans ?_
    obtain ⟨next, rest, hrest⟩ := List.exists_cons_of_ne_nil
      (show pieces ++ [last] ≠ [] by simp)
    rw [List.cons_append, hrest, List.intercalate_cons_cons]
    exact List.suffix_append _ _

theorem isBackup_suffixed (suffix : String) (rel : List String) :
    Selector.isBackup suffix (Path.ofNames (Path.suffixed suffix rel)) = true := by
  rw [Selector.isBackup, List.isSuffixOf_iff_suffix, Path.ofNames, String.toList_intercalate,
    Path.suffixed, List.map_append, List.map_singleton, String.toList_append]
  exact (List.suffix_append _ _).trans (suffix_intercalate _ _ _)

theorem IsSite.ne_suffixed (h : IsSite t root top suffix rel) :
    rel ≠ Path.suffixed suffix rel' := by
  intro heq
  have hbackup := isBackup_suffixed suffix rel'
  rw [← heq, h.notBackup] at hbackup
  cases hbackup

/-- Two files do not meet. -/
theorem IsSite.apart (h : IsSite t root top suffix rel) (h' : IsSite t root top suffix rel')
    (hne : rel ≠ rel') {l : Location} (hl : Touches top suffix rel l) :
    ¬ Touches top suffix rel' l := by
  rintro (heq | heq)
  · obtain rfl | rfl := hl
    · exact hne (List.append_cancel_left heq)
    · exact h'.ne_suffixed (List.append_cancel_left heq).symm
  · obtain rfl | rfl := hl
    · exact h.ne_suffixed (List.append_cancel_left heq)
    · exact hne (Path.suffixed_injective h.below.ne_nil h'.below.ne_nil
        (List.append_cancel_left heq))

/-! ## The edits of a run -/

/-- What is reported of one file of a tree, with nothing done to the others. -/
def reportOf (settings : Settings) (root : String) (t : Tree) (f : List String × DocumentKind) :
    Report :=
  (t.repairFile settings true (Path.joinAll root f.1) f.2).1

/-- The tree that is left when one file of a tree is dealt with, and nothing is done to the
others. -/
def leftOf (settings : Settings) (root : String) (t : Tree) (f : List String × DocumentKind) :
    Tree :=
  (t.repairFile settings true (Path.joinAll root f.1) f.2).2

/-- The tree `s'` is the tree `s` after the files of the queue were dealt with, each of them as it
would be alone in the tree `t`. -/
structure IsRunOf (settings : Settings) (root : String) (top : Location) (t : Tree)
    (queue : List (List String × DocumentKind)) (s s' : Tree) : Prop where
  sameDirectories : SameDirectories s' t
  linkFree : s'.LinkFree
  proper : s.Proper → s'.Proper
  alone : ∀ f ∈ queue, ∀ l, Touches top settings.backup.suffix f.1 l →
    s'.node? l = (leftOf settings root t f).node? l
  kept : ∀ l, (∀ f ∈ queue, ¬ Touches top settings.backup.suffix f.1 l) → s'.node? l = s.node? l

/-- Files that do not meet are dealt with as if each were the only one. -/
theorem isRunOf_repairFiles (htfree : t.LinkFree) (hne : settings.backup.suffix ≠ "")
    (hslash : '/' ∉ settings.backup.suffix.toList)
    (hsites : ∀ f ∈ queue, IsSite t root top settings.backup.suffix f.1)
    (hnodup : (queue.map Prod.fst).Nodup) (hsystem : s.system = t.system)
    (hsame : SameDirectories s t) (hsfree : s.LinkFree)
    (hagree : ∀ f ∈ queue, ∀ l, Touches top settings.backup.suffix f.1 l →
      s.node? l = t.node? l) :
    (s.repairFiles settings true (queue.map fun f => (Path.joinAll root f.1, f.2))).1 =
        queue.map (reportOf settings root t) ∧
      IsRunOf settings root top t queue s
        (s.repairFiles settings true (queue.map fun f => (Path.joinAll root f.1, f.2))).2 := by
  induction queue generalizing s with
  | nil =>
    exact ⟨rfl, hsame, hsfree, id, fun _ h => absurd h List.not_mem_nil, fun _ _ => rfl⟩
  | cons f queue ih =>
    obtain ⟨rel, kind⟩ := f
    rw [List.map_cons, List.nodup_cons] at hnodup
    have hsite : IsSite t root top settings.backup.suffix rel := hsites _ List.mem_cons_self
    have hsiteRest : ∀ f ∈ queue, IsSite t root top settings.backup.suffix f.1 :=
      fun f hf => hsites f (List.mem_cons_of_mem _ hf)
    have hbelow := hsite.below.transfer htfree hsame
    have hhere := hagree (rel, kind) List.mem_cons_self
    -- the first file and the place of its backup are as they were, so what is done is what is done
    -- to it alone
    obtain ⟨report, puts, -, -, hdone, halone⟩ := repairFile_congr kind hbelow hsfree
      hsite.below htfree hne hslash (hhere _ (.inl rfl)) (Tree.openMode_congr (hhere _ (.inr rfl)))
      fun _ => hsystem ▸ System.actsLike_self ..
    have hends := s.ends_repairFile settings true (Path.joinAll root rel) kind
    have hstep : IsStep top settings.backup.suffix rel s _ :=
      hends.isStep hbelow hsfree hne hslash
    have hkeeps := hends.system_eq
    have hreport : reportOf settings root t (rel, kind) = report := congrArg Prod.fst halone
    have hleft : leftOf settings root t (rel, kind) = t.putAll puts := congrArg Prod.snd halone
    rw [hdone] at hstep hkeeps
    have hapart : ∀ f ∈ queue, ∀ l, Touches top settings.backup.suffix f.1 l →
        ¬ Touches top settings.backup.suffix rel l := by
      intro f hf l hl
      refine (hsiteRest f hf).apart hsite (fun heq => hnodup.1 ?_) hl
      exact List.mem_map.mpr ⟨f, hf, heq⟩
    have hagree₁ : ∀ f ∈ queue, ∀ l, Touches top settings.backup.suffix f.1 l →
        (s.putAll puts).node? l = t.node? l := by
      intro f hf l hl
      rw [hstep.kept l (hapart f hf l hl)]
      exact hagree f (List.mem_cons_of_mem _ hf) l hl
    obtain ⟨hreports, hrest⟩ := ih hsiteRest hnodup.2 (hkeeps.trans hsystem)
      (hstep.sameDirectories.trans hsame) hstep.linkFree hagree₁
    rw [List.map_cons, List.map_cons, Tree.repairFiles, hdone, hreport]
    dsimp only
    refine ⟨congrArg (List.cons report) hreports, hrest.sameDirectories, hrest.linkFree,
      fun hproper => hrest.proper (hstep.proper hproper), ?_, ?_⟩
    · intro f hf l hl
      obtain rfl | hf := List.mem_cons.mp hf
      · -- what was done to the first file stands, since the others do not touch it
        rw [hrest.kept l fun f hf hl' => hapart f hf l hl' hl, hleft]
        exact Tree.node?_putAll_congr (hhere l hl)
      · exact hrest.alone f hf l hl
    · intro l hl
      rw [hrest.kept l fun f hf => hl f (List.mem_cons_of_mem _ hf)]
      exact hstep.kept l (hl _ List.mem_cons_self)

/-- A run leaves the traces of each file. -/
theorem IsRunOf.traces (htfree : t.LinkFree) (hne : settings.backup.suffix ≠ "")
    (hslash : '/' ∉ settings.backup.suffix.toList)
    (hsites : ∀ f ∈ queue, IsSite t root top settings.backup.suffix f.1)
    (h : IsRunOf settings root top t queue s s') {f : List String × DocumentKind} (hf : f ∈ queue) :
    Traces settings root top f.1 t (reportOf settings root t f) s' :=
  ((t.ends_repairFile settings true (Path.joinAll root f.1) f.2).traces (hsites f hf).below htfree
    hne hslash).of_kept (h.alone f hf)

end ThemeRepair
