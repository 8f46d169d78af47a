import ThemeRepair.Text.Basic

/-!
# Text as bytes

`Text.encode` writes a text in UTF-8 and `Text.decode` reads it back.  Bytes that are not UTF-8
are refused with a `Utf8Fault`: where the first ill-formed sequence begins, and how many of its
bytes could still begin a character, or that the bytes end inside such a beginning.

* `Text.decode_encode`: reading what was written gives the text back;
* `Text.encode_of_decode`: what was read is written back byte for byte.
-/

namespace ThemeRepair

/-- Why bytes are not UTF-8: the place of the first ill-formed sequence and the length of the
beginning that rules it out, or `none` where the bytes end before it is complete. -/
structure Utf8Fault where
  index : Nat
  length : Option Nat
deriving DecidableEq, Repr

namespace Utf8Fault

/-- The wording of a fault. -/
def message (f : Utf8Fault) : String :=
  match f.length with
  | some n => "invalid utf-8 sequence of " ++ toString n ++ " bytes from index " ++ toString f.index
  | none => "incomplete utf-8 byte sequence from index " ++ toString f.index

/-- For a byte that begins a character of several bytes: the range its second byte has to lie
in, and the number of bytes after that one. -/
def continuation? (lead : UInt8) : Option ((UInt8 × UInt8) × Nat) :=
  if 0xc2 ≤ lead && lead ≤ 0xdf then some ((0x80, 0xbf), 0)
  else if lead == 0xe0 then some ((0xa0, 0xbf), 1)
  else if lead == 0xed then some ((0x80, 0x9f), 1)
  else if 0xe1 ≤ lead && lead ≤ 0xef then some ((0x80, 0xbf), 1)
  else if lead == 0xf0 then some ((0x90, 0xbf), 2)
  else if 0xf1 ≤ lead && lead ≤ 0xf3 then some ((0x80, 0xbf), 2)
  else if lead == 0xf4 then some ((0x80, 0x8f), 2)
  else none

/-- A scan of bytes either stands before a character, or inside one that began `seen` bytes
earlier and wants its next byte in a range and `more` bytes after it. -/
inductive Progress where
  | between
  | inside (seen : Nat) (range : UInt8 × UInt8) (more : Nat)

/-- The first fault of the bytes from an index on; `none` if they are well formed. -/
def find? (index : Nat) : Progress → List UInt8 → Option Utf8Fault
  | .between, [] => none
  | .inside _ _ _, [] => some ⟨index, none⟩
  | .between, b :: bytes =>
    if b < 0x80 then find? (index + 1) .between bytes
    else
      match continuation? b with
      | some (range, more) => find? index (.inside 1 range more) bytes
      | none => some ⟨index, some 1⟩
  | .inside seen range more, b :: bytes =>
    if range.1 ≤ b && b ≤ range.2 then
      match more with
      | 0 => find? (index + seen + 1) .between bytes
      | more + 1 => find? index (.inside (seen + 1) (0x80, 0xbf) more) bytes
    else some ⟨index, some seen⟩

/-- The first fault of bytes that are not UTF-8. -/
def first (bytes : ByteArray) : Utf8Fault :=
  (find? 0 .between bytes.data.toList).getD ⟨bytes.size, none⟩

end Utf8Fault

namespace Text

/-- The UTF-8 form. -/
def encode (t : Text) : ByteArray := (String.ofList t).toByteArray

/-- Reads UTF-8. -/
def decode (bytes : ByteArray) : Except Utf8Fault Text :=
  match bytes.utf8Decode? with
  | some chars => .ok chars.toList
  | none => .error (Utf8Fault.first bytes)

/-- Reading what was written gives the text back. -/
theorem decode_encode (t : Text) : decode (encode t) = .ok t := by
  simp [decode, encode]

/-- What was read is written back byte for byte. -/
theorem encode_of_decode {bytes : ByteArray} {t : Text} (h : decode bytes = .ok t) :
    encode t = bytes := by
  unfold decode at h
  split at h
  · next chars hc =>
    cases h
    have := ByteArray.utf8Encode_get_utf8Decode? (b := bytes) (h := by simp [hc])
    simpa [encode, hc] using this
  · cases h

end Text
end ThemeRepair
