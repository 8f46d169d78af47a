import ThemeRepair.Text.Utf8
import ThemeRepair.Tree.Access

/-!
# Documents

A document is the text of one file together with the file's path and the way the text was stored.
A byte order mark at the start of a file is no part of the text; it is put back when the file is
written.

* `Document.encode_text_of_read`: what was read is written back byte for byte.
-/

namespace ThemeRepair

/-- How a text was stored. -/
inductive Encoding where
  | utf8
  /-- With a byte order mark in front. -/
  | utf8Bom
deriving DecidableEq, Repr

/-- The byte order mark. -/
def byteOrderMark : Char := '\ufeff'

/-- The number of bytes that the byte order mark takes up. -/
def byteOrderMarkSize : Nat := byteOrderMark.utf8Size

/-- Why a file cannot be read as a document. -/
inductive ReadError where
  | os (e : OsError)
  | notUtf8 (fault : Utf8Fault)
deriving DecidableEq, Repr

/-- The wording of a refusal. -/
def ReadError.message : ReadError → String
  | os e => e.message
  | notUtf8 fault => "not valid UTF-8: " ++ fault.message

/-- The text of one file. -/
structure Document where
  path : String
  text : Text
  encoding : Encoding
deriving DecidableEq, Repr

namespace Document

/-- A document with a text that comes from no file. -/
def ofText (path : String) (text : Text) : Document := ⟨path, text, .utf8⟩

/-- Takes the byte order mark off a stored text. -/
def splitMark : Text → Encoding × Text
  | [] => (.utf8, [])
  | c :: t => if c = byteOrderMark then (.utf8Bom, t) else (.utf8, c :: t)

/-- A text as it is stored. -/
def addMark : Encoding → Text → Text
  | .utf8, t => t
  | .utf8Bom, t => byteOrderMark :: t

/-- The bytes begin with a byte order mark. -/
def beginsWithMark (bytes : ByteArray) : Bool :=
  (bytes.extract 0 byteOrderMarkSize).data.toList == String.utf8EncodeChar byteOrderMark

/-- A fault with its place counted from behind the byte order mark. -/
def faultBehindMark (bytes : ByteArray) (fault : Utf8Fault) : Utf8Fault :=
  if beginsWithMark bytes then { fault with index := fault.index - byteOrderMarkSize } else fault

/-- The document that bytes hold. -/
def ofBytes (path : String) (bytes : ByteArray) : Except ReadError Document :=
  match Text.decode bytes with
  | .ok stored => .ok ⟨path, (splitMark stored).2, (splitMark stored).1⟩
  | .error fault => .error (.notUtf8 (faultBehindMark bytes fault))

/-- The document that a path leads to. -/
def read (tree : Tree) (path : String) : Except ReadError Document :=
  match tree.read path with
  | .ok bytes => ofBytes path bytes
  | .error e => .error (.os e)

/-- A text in the bytes in which the document was stored. -/
def encode (doc : Document) (text : Text) : ByteArray := Text.encode (addMark doc.encoding text)

theorem addMark_splitMark (t : Text) : addMark (splitMark t).1 (splitMark t).2 = t := by
  cases t with
  | nil => rfl
  | cons c t =>
    by_cases h : c = byteOrderMark
    · simp [splitMark, addMark, h]
    · simp [splitMark, addMark, h]

/-- What was read is written back byte for byte. -/
theorem encode_text_of_ofBytes {path : String} {bytes : ByteArray} {doc : Document}
    (h : ofBytes path bytes = .ok doc) : doc.encode doc.text = bytes := by
  unfold ofBytes at h
  split at h
  · next stored hs =>
    cases h
    rw [encode, addMark_splitMark]
    exact Text.encode_of_decode hs
  · cases h

/-- What was read is written back byte for byte. -/
theorem encode_text_of_read {tree : Tree} {path : String} {doc : Document}
    (h : read tree path = .ok doc) : tree.read path = .ok (doc.encode doc.text) := by
  unfold read at h
  split at h
  · next bytes hb => rw [hb, encode_text_of_ofBytes h]
  · cases h

end Document
end ThemeRepair
