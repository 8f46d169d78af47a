import ThemeRepair.Proofs.Component.Passes
import ThemeRepair.Proofs.Component.Rewriting
import ThemeRepair.Proofs.Document.Commit
import ThemeRepair.Run.Report

/-!
# Reading a repaired document again

A text that was written is read again as it was, unless it begins with a byte order mark and is
stored without one in front (`Document.ofBytes_encode`).  A repaired component definition never
does, since a repair keeps the first character of a text (`Component.head?_of_repair`): every
change begins behind the key of a header.  So the document that is read is the repaired one, it has
nothing left to fix, and dealing with it again leaves it as it is
(`Tree.repairFile_of_repaired`).
-/

namespace ThemeRepair

/-! ## The first character of a repaired text -/

namespace Component

variable {w : Nat} {path : String} {t : Text} {o : Outcome} {kind : FindingKind}
  {ls ls' before rest rest' : List Line} {l m : Line} {key : Text}

/-- A line that declares a key begins with its indentation and the key. -/
theorem exists_content_of_declares (h : l.declares key = true) :
    Line.IsKey key ∧ ∃ behind, l.content = l.indentation ++ (key ++ behind) := by
  rw [Line.declares, Bool.and_eq_true, beq_iff_eq] at h
  obtain ⟨hkey, behind, hbody, -⟩ := Line.keyOf?_eq_some_iff.1 h.2
  exact ⟨hkey, ':' :: behind, by rw [Line.content_eq l, hbody]⟩

/-- Lines with another header of the same key in their middle begin with the same character. -/
theorem head?_join_of_declares (hl : l.declares key = true) (hm : m.declares key = true)
    (hindentation : m.indentation = l.indentation) :
    (Line.join (before ++ m :: rest')).head? = (Line.join (before ++ l :: rest)).head? := by
  obtain ⟨hkey, behind, hcontent⟩ := exists_content_of_declares hl
  obtain ⟨-, behind', hcontent'⟩ := exists_content_of_declares hm
  obtain ⟨c, cs, rfl, -⟩ := hkey.start
  rw [Line.join_append, Line.join_append, Line.join_cons, Line.join_cons, Line.toText,
    Line.toText, hcontent, hcontent', hindentation]
  -- the character is one of the lines in front, of the indentation, or the first of the key
  cases Line.join before <;> cases l.indentation <;> rfl

theorem Change.head?_join (h : Change w ls kind ls') :
    (Line.join ls').head? = (Line.join ls).head? := by
  obtain ⟨v, hv, hseq, rfl⟩ | ⟨r, header, body, hr, hrewrites, rfl⟩ := h.rewrites
  · have hin := isIn_of_variants hv
    rw [← hin.lines_eq, Region.lines]
    exact head?_join_of_declares hin.hasKey (Region.declares_mapped hin.hasKey (.inr hseq))
      (Region.indentation_mapped hin.hasKey)
  · have hin := isIn_of_properties hr
    rw [← hin.lines_eq, Region.lines, rewritten]
    exact head?_join_of_declares hin.declares hrewrites.declares hrewrites.indentation

/-- A repair keeps the first character of a text. -/
theorem head?_of_repair (h : repair w path t = .ok o) : o.text.head? = t.head? := by
  obtain ⟨hpasses, -⟩ := passes_of_repair h
  have hkept := hpasses.preserves (fun _ _ _ hls hchange => hchange.head?_join.trans hls)
    (show (Line.join (Line.ofText t)).head? = t.head? by rw [Line.join_ofText])
  rwa [Line.join_ofText] at hkept

/-- A repaired text is its own repair. -/
theorem repair_of_repair (h : repair w path t = .ok o) :
    repair w path o.text = .ok { o with fixed := [] } := by
  obtain ⟨-, hsettled, hmanual, hrefused⟩ := passes_of_repair h
  rw [repair_of_settled hsettled, hmanual, hrefused]

end Component

/-! ## The document that is read again -/

namespace Document

variable {doc : Document} {text : Text} {path : String} {bytes : ByteArray} {settings : Settings}
  {o : Outcome}

theorem splitMark_addMark {encoding : Encoding}
    (h : encoding = .utf8 → text.head? ≠ some byteOrderMark) :
    splitMark (addMark encoding text) = (encoding, text) := by
  cases encoding with
  | utf8 =>
    cases text with
    | nil => rfl
    | cons c text =>
      have hne : c ≠ byteOrderMark := by simpa using h rfl
      rw [addMark, splitMark, if_neg hne]
  | utf8Bom => rw [addMark, splitMark, if_pos rfl]

/-- What was written is read again, where no mark is taken for that of the encoding. -/
theorem ofBytes_encode (path : String)
    (h : doc.encoding = .utf8 → text.head? ≠ some byteOrderMark) :
    ofBytes path (doc.encode text) = .ok ⟨path, text, doc.encoding⟩ := by
  rw [ofBytes, encode, Text.decode_encode]
  simp only [splitMark_addMark h]

/-- A document that was stored without a byte order mark does not begin with one. -/
theorem head?_text_of_ofBytes (h : ofBytes path bytes = .ok doc) (hutf8 : doc.encoding = .utf8) :
    doc.text.head? ≠ some byteOrderMark := by
  unfold ofBytes at h
  split at h
  · next stored hstored =>
    cases h
    cases stored with
    | nil => exact nofun
    | cons c stored =>
      rw [splitMark] at hutf8 ⊢
      split at hutf8
      · cases hutf8
      · next hne =>
        rw [if_neg hne]
        simpa using hne
  · cases h

theorem head?_text_of_read {t : Tree} (h : read t path = .ok doc) (hutf8 : doc.encoding = .utf8) :
    doc.text.head? ≠ some byteOrderMark := by
  unfold read at h
  split at h
  · exact head?_text_of_ofBytes h hutf8
  · cases h

/-- The repaired document is read where its text was written. -/
theorem read_repaired {s t : Tree} (hread : read t path = .ok doc)
    (hrepair : doc.repair settings .component = .ok o)
    (hnew : s.read path = .ok (doc.encode o.text)) :
    read s path = .ok { doc with text := o.text } := by
  obtain rfl := path_of_read hread
  have hhead : o.text.head? = doc.text.head? := Component.head?_of_repair hrepair
  rw [read, hnew]
  exact ofBytes_encode doc.path fun hutf8 => hhead ▸ head?_text_of_read hread hutf8

end Document

/-- A component definition that holds the text of its repair is left as it is. -/
theorem Tree.repairFile_of_repaired {s t : Tree} {path : String} {doc : Document}
    {settings : Settings} {o : Outcome} (hread : Document.read t path = .ok doc)
    (hrepair : doc.repair settings .component = .ok o)
    (hnew : s.read path = .ok (doc.encode o.text)) :
    s.repairFile settings true path .component =
      ({ path := doc.path, kind := .component, manual := o.manual, skipped := o.regionErrors },
        s) := by
  have hagain : ({ doc with text := o.text } : Document).repair settings .component =
      .ok { o with fixed := [] } := Component.repair_of_repair hrepair
  rw [Tree.repairFile, Document.read_repaired hread hrepair hnew]
  dsimp only
  rw [hagain]
  dsimp only
  rw [Document.settle, if_pos (.inl rfl)]

end ThemeRepair
