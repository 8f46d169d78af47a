import ThemeRepair.Proofs.Document.Rereading
import ThemeRepair.Proofs.Finding.Batch
import ThemeRepair.Proofs.Template.Settling

/-!
# The encoding of a repaired document

A byte order mark at the start of a file is taken for its encoding, so a text that begins with one
and is stored without a mark in front would be read as another text in another encoding.  No repair
makes such a text of a document that was read: the first character of a component definition stays
(`Component.head?_of_repair`), and the first character of a template stays or is the brace of a
keyed call (`Template.head?_of_repair`).  So what is written after a repair is read again with its
text and its encoding (`Document.repair_keeps_encoding`).
-/

namespace ThemeRepair

/-! ## The first character of a repaired template -/

namespace Template

variable {settings : Settings.Headings} {path : String} {t : Text} {o : Outcome}

/-- What takes the place of a call begins with a brace. -/
theorem exists_replacement_of_mem_findCalls {f : Finding} (h : f ∈ findCalls settings path t) :
    ∃ call x, f.kind = .legacyCall call ∧ call.replacement = '{' :: x := by
  obtain ⟨w, x, behind, n, -, -, -, rfl⟩ := mem_findCalls_iff.1 h
  obtain ⟨y, hy⟩ : ∃ y, render settings (Text.indentationAt t (Text.size x))
      (headingArgs (arguments w.body) n) w.head.trim w.tail.trim w.tail.only = '{' :: '{' :: y :=
    exists_render_eq_cons
  exact ⟨_, '{' :: y, rfl, hy⟩

/-- A text with calls replaced begins as it did, or with what stands for the first call. -/
theorem Replaced.head?_cases {off : Nat} {new : Text} {fs : List Finding}
    (h : Replaced off t fs new)
    (hfs : ∀ f ∈ fs, ∃ call x, f.kind = .legacyCall call ∧ call.replacement = '{' :: x) :
    new.head? = t.head? ∨ new.head? = some '{' := by
  cases h with
  | done => exact .inl rfl
  | @call _ u old t new f fs call hspan hbefore hkind hrest =>
    cases u with
    | cons c u => exact .inl rfl
    | nil =>
      obtain ⟨call', x, hkind', hbrace⟩ := hfs f List.mem_cons_self
      obtain rfl : call = call' := FindingKind.legacyCall.inj (hkind.symm.trans hkind')
      rw [hbrace]
      exact .inr rfl

/-- A repair keeps the first character of a template or writes a brace there. -/
theorem head?_of_repair (h : repair settings path t = .ok o) :
    o.text.head? = t.head? ∨ o.text.head? = some '{' := by
  have hfound := @exists_replacement_of_mem_findCalls settings path t
  have hcalls : ∀ f ∈ findCalls settings path t, ∃ call, f.kind = .legacyCall call := by
    intro f hf
    obtain ⟨call, -, hkind, -⟩ := hfound hf
    exact ⟨call, hkind⟩
  rw [repair] at h
  rcases Finding.fixAll_cases t hcalls with ⟨-, -, out, hout, hok⟩ | ⟨-, f, -, herror⟩
  · rw [hok] at h
    cases h
    exact hout.head?_cases fun f hf => hfound (mem_byStart_iff.1 hf)
  · rw [herror] at h
    cases h

end Template

/-! ## Reading the document again -/

namespace Document

variable {tree : Tree} {path : String} {bytes : ByteArray} {doc : Document} {settings : Settings}
  {kind : DocumentKind} {o : Outcome}

theorem head?_of_repair (h : doc.repair settings kind = .ok o) :
    o.text.head? = doc.text.head? ∨ o.text.head? = some '{' := by
  cases kind with
  | component => exact .inl (Component.head?_of_repair h)
  | template => exact Template.head?_of_repair h

/-- A repaired text has no mark that would be taken for that of the encoding. -/
theorem head?_ne_of_repair (hread : read tree path = .ok doc)
    (hrepair : doc.repair settings kind = .ok o) (hutf8 : doc.encoding = .utf8) :
    o.text.head? ≠ some byteOrderMark := by
  rcases head?_of_repair hrepair with hkept | hbrace
  · rw [hkept]
    exact head?_text_of_read hread hutf8
  · rw [hbrace]
    decide

/-- **The encoding outlives a repair.**  The text of a document that was read is stored in the bytes
that it was read from.  And whatever a repair makes of it: where its new text is stored, a document
with this text and the old encoding is read. -/
theorem repair_keeps_encoding (hbytes : tree.read path = .ok bytes)
    (hread : read tree path = .ok doc) :
    doc.encode doc.text = bytes ∧
      ∀ (settings : Settings) (kind : DocumentKind) (o : Outcome),
        doc.repair settings kind = .ok o → ∀ (tree' : Tree) (path' : String),
          tree'.read path' = .ok (doc.encode o.text) →
            read tree' path' = .ok ⟨path', o.text, doc.encoding⟩ := by
  refine ⟨?_, fun settings kind o hrepair tree' path' hnew => ?_⟩
  · exact Except.ok.inj ((encode_text_of_read hread).symm.trans hbytes)
  · rw [read, hnew]
    exact ofBytes_encode path' (head?_ne_of_repair hread hrepair)

namespace TwoMarks

/-- A template with a mark of its own behind that of the encoding, and a call behind both. -/
def original : Text :=
  "\ufeff\x7b\x7b include('@components/h1.html.twig', \x7b\x7d) \x7d\x7d".toList

def repaired : Text :=
  ("\ufeff\x7b\x7b include('@adesso_cms_theme/heading/heading.twig', \x7b\n  heading: \x7b\n" ++
    "    title: '',\n    as: 'h1',\n    visual_level: '1'\n  \x7d\n\x7d) \x7d\x7d").toList

def holding (bytes : ByteArray) : Tree where
  entries := [(["a.twig"], .file bytes Node.fileMode)]

theorem read_holding (bytes : ByteArray) : (holding bytes).read "a.twig" = .ok bytes := rfl

def document : Document := ⟨"a.twig", original, .utf8Bom⟩

def outcome : Outcome := ⟨repaired, Template.findCalls {} "a.twig" original, [], []⟩

end TwoMarks

open TwoMarks in
theorem repair_keeps_encoding_twoMarks :
    read (holding (Text.encode (byteOrderMark :: original))) "a.twig" = .ok document ∧
      document.encode document.text = Text.encode (byteOrderMark :: original) ∧
      document.repair {} .template = .ok outcome ∧
      read (holding (document.encode outcome.text)) "a.twig" =
        .ok ⟨"a.twig", outcome.text, document.encoding⟩ := by
  have hread : read (holding (Text.encode (byteOrderMark :: original))) "a.twig" =
      .ok document := by
    rw [read, read_holding]
    show ofBytes "a.twig" (document.encode original) = _
    exact ofBytes_encode "a.twig" fun hutf8 => absurd hutf8 (by decide)
  have hmodern : Template.modernise {} original = .ok repaired :=
    Template.modernise_of_inOrder (by decide +kernel)
  have hfixed := (Template.fixAll_findCalls_path "a.twig" "").trans hmodern
  have hrepair : document.repair {} .template = .ok outcome := by
    show Template.repair {} "a.twig" original = _
    rw [Template.repair, hfixed]
    rfl
  have hkept := repair_keeps_encoding (read_holding _) hread
  have hagain := hkept.2 {} .template outcome hrepair _ "a.twig" (read_holding _)
  exact ⟨hread, hkept.1, hrepair, hagain⟩

end Document
end ThemeRepair
