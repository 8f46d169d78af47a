import ThemeRepair.Text.Basic

/-!
# Values of a settings file

A settings file holds a table: keys, each with a value.  A table remembers how it came into being,
because that decides what may still be added to it:

* one opened by a header of its own takes the keys below that header and no others;
* one that a longer header only implied may still get a header of its own;
* one made by a dotted key takes further dotted keys;
* one written out between braces is complete.

Reading a file needs the text of floats and dates to be well formed, and nothing here needs their
value, so they are kept as they are written.
-/

namespace ThemeRepair
namespace Toml

/-- How a table came into being. -/
inductive Origin where
  | header
  | implied
  | dotted
  | braces
deriving DecidableEq, Repr

/-- A value. -/
inductive Value where
  | string (t : Text)
  | integer (n : Int)
  | float (written : Text)
  | boolean (b : Bool)
  | date (written : Text)
  | array (vs : List Value)
  | table (origin : Origin) (entries : List (Text × Value))
  /-- Tables opened one after the other by headers in double brackets, the last one still open. -/
  | tables (ts : List (List (Text × Value)))

/-- The keys of a table with their values, in the order in which they came. -/
abbrev Entries := List (Text × Value)

namespace Entries

/-- The value of a key. -/
def get? (key : Text) (es : Entries) : Option Value := es.lookup key

/-- Gives a key a value, in place of the one it has. -/
def put (key : Text) (v : Value) : Entries → Entries
  | [] => [(key, v)]
  | e :: es => if e.1 = key then (key, v) :: es else e :: put key v es

/-- Gives a new key a value; `none` if the key has one. -/
def define (key : Text) (v : Value) (es : Entries) : Option Entries :=
  match es.get? key with
  | none => some (es.put key v)
  | some _ => none

theorem get?_put_self (key : Text) (v : Value) (es : Entries) :
    (es.put key v).get? key = some v := by
  induction es with
  | nil => simp [put, get?]
  | cons e es ih =>
    obtain ⟨k, w⟩ := e
    by_cases h : k = key
    · simp [put, h, get?]
    · have h' : (key == k) = false := by simpa using Ne.symm h
      simp only [put, if_neg h, get?, List.lookup_cons, h']
      exact ih

theorem get?_put_of_ne {key other : Text} (v : Value) (es : Entries) (h : other ≠ key) :
    (es.put key v).get? other = es.get? other := by
  induction es with
  | nil =>
    have h' : (other == key) = false := by simpa using h
    simp [put, get?, List.lookup_cons, h']
  | cons e es ih =>
    obtain ⟨k, w⟩ := e
    by_cases he : k = key
    · have h' : (other == k) = false := by simpa [he] using h
      have h'' : (other == key) = false := by simpa using h
      simp only [put, if_pos he, get?, List.lookup_cons, h', h'']
    · simp only [put, if_neg he, get?, List.lookup_cons]
      cases other == k with
      | true => rfl
      | false => exact ih

end Entries
end Toml
end ThemeRepair
