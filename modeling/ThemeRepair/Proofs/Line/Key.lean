import ThemeRepair.Line
import ThemeRepair.Proofs.Text.White

/-!
# Keys and the values behind them

What a line that declares a key is made of: its indentation, the key, a colon, a value and a
comment.  `Line.keyOf?_eq_some_iff` takes a key off the front of a text, `Line.uncommented_append`
the comment off its end.

The comment is found by a scan that carries two facts from character to character: inside which
quotes it stands, and whether it follows a space or tab.  Over a *plain* text, one without quotes
and number signs, only the second one changes, and only by the last character
(`Line.uncommentedFrom_append`).  So a plain text in a value can be replaced by another one that
ends alike, and the comment behind it stays where it is.
-/

namespace ThemeRepair
namespace Line

/-! ## Characters of keys -/

theorem isKeyPart_of_isKeyStart {c : Char} (h : isKeyStart c = true) : isKeyPart c = true := by
  simp only [isKeyStart, isKeyPart, Char.isAlphanum, Bool.or_eq_true] at h ⊢
  rcases h with h | h
  · exact Or.inl (Or.inl (Or.inl h))
  · exact Or.inl (Or.inr h)

theorem isWhite_of_isIndent {c : Char} (h : Text.isIndent c = true) : Text.isWhite c = true := by
  simp only [Text.isIndent, Bool.or_eq_true, beq_iff_eq] at h
  rcases h with rfl | rfl <;> decide

/-- A key starts with a character that is not white. -/
theorem isWhite_of_isKeyStart {c : Char} (h : isKeyStart c = true) : Text.isWhite c = false := by
  have hrange : (65 ≤ c.toNat ∧ c.toNat ≤ 90) ∨ (97 ≤ c.toNat ∧ c.toNat ≤ 122) ∨ c.toNat = 95 := by
    have h : (decide (c.val ≥ 'A'.val ∧ c.val ≤ 'Z'.val)
        || (c.val ≥ 'a'.val && c.val ≤ 'z'.val) || c == '_') = true := h
    simp only [Bool.or_eq_true, Bool.and_eq_true, decide_eq_true_eq, beq_iff_eq] at h
    rcases h with (h | h) | rfl
    · exact Or.inl ⟨h.1, h.2⟩
    · exact Or.inr (Or.inl ⟨h.1, h.2⟩)
    · exact Or.inr (Or.inr rfl)
  simp only [Text.isWhite, Bool.or_eq_false_iff, Bool.and_eq_false_iff, decide_eq_false_iff_not,
    beq_eq_false_iff_ne, ne_eq]
  omega

theorem isIndent_of_isKeyStart {c : Char} (h : isKeyStart c = true) :
    Text.isIndent c = false := by
  cases hi : Text.isIndent c with
  | false => rfl
  | true =>
    have := isWhite_of_isIndent hi
    rw [isWhite_of_isKeyStart h] at this
    exact absurd this (by decide)

/-! ## Keys -/

/-- An identifier: it starts as a key does and goes on as one. -/
structure IsKey (key : Text) : Prop where
  start : ∃ c t, key = c :: t ∧ isKeyStart c = true
  part : ∀ c ∈ key, isKeyPart c = true

/-- A text declares a key exactly if it is the key, a colon, and nothing more or a space or tab. -/
theorem keyOf?_eq_some_iff {t key : Text} :
    keyOf? t = some key ↔
      IsKey key ∧ ∃ rest, t = key ++ ':' :: rest ∧ rest.head?.all Text.isIndent = true := by
  constructor
  · intro h
    unfold keyOf? at h
    split at h
    · next hstart =>
      split at h
      · next rest hrest =>
        split at h
        · next hspace =>
          cases h
          refine ⟨⟨?_, fun c hc => List.all_eq_true.1 List.all_takeWhile c hc⟩, rest, ?_, hspace⟩
          · cases t with
            | nil => simp at hstart
            | cons c u =>
              simp only [List.head?_cons, Option.any_some] at hstart
              exact ⟨c, u.takeWhile isKeyPart,
                List.takeWhile_cons_of_pos (isKeyPart_of_isKeyStart hstart), hstart⟩
          · rw [← hrest]
            exact List.takeWhile_append_dropWhile.symm
        · cases h
      · cases h
    · cases h
  · rintro ⟨hkey, rest, rfl, hspace⟩
    have hcolon : isKeyPart ':' = false := by decide
    have hdrop : (key ++ ':' :: rest).dropWhile isKeyPart = ':' :: rest := by
      rw [List.dropWhile_append_of_pos hkey.part, List.dropWhile_cons_of_neg (by simp [hcolon])]
    have htake : (key ++ ':' :: rest).takeWhile isKeyPart = key := by
      rw [List.takeWhile_append_of_pos hkey.part, List.takeWhile_cons_of_neg (by simp [hcolon]),
        List.append_nil]
    have hstart : (key ++ ':' :: rest).head?.any isKeyStart = true := by
      obtain ⟨c, u, rfl, hc⟩ := hkey.start
      exact hc
    rw [keyOf?, if_pos hstart, hdrop, htake]
    simp only [hspace, if_true]

/-! ## Comments -/

/-- A text in which no comment and no quotes begin. -/
def Plain (t : Text) : Prop := ∀ c ∈ t, c ≠ '#' ∧ c ≠ '\'' ∧ c ≠ '"'

instance (t : Text) : Decidable (Plain t) :=
  List.decidableBAll (fun c => c ≠ '#' ∧ c ≠ '\'' ∧ c ≠ '"') t

/-- What stands before a comment stands at the front, and a comment begins with a number sign. -/
theorem exists_comment (value : Text) :
    ∃ comment, value = uncommented value ++ comment ∧
      (comment = [] ∨ comment.head? = some '#') := by
  have hfrom : ∀ quote space, ∃ comment, value = uncommentedFrom quote space value ++ comment ∧
      (comment = [] ∨ comment.head? = some '#') := by
    induction value with
    | nil => exact fun quote space => ⟨[], by cases quote <;> rfl, Or.inl rfl⟩
    | cons c t ih =>
      intro quote space
      cases quote with
      | some q =>
        obtain ⟨comment, ht, hc⟩ := ih (if c = q then none else some q) (Text.isIndent c)
        exact ⟨comment, congrArg (c :: ·) ht, hc⟩
      | none =>
        rw [uncommentedFrom]
        by_cases hcomment : c = '#' ∧ space = true
        · rw [if_pos hcomment]
          exact ⟨c :: t, rfl, Or.inr (by rw [hcomment.1]; rfl)⟩
        · rw [if_neg hcomment]
          obtain ⟨comment, ht, hc⟩ :=
            ih (if c = '\'' ∨ c = '"' then some c else none) (Text.isIndent c)
          exact ⟨comment, congrArg (c :: ·) ht, hc⟩
  exact hfrom none true

/-- Over a plain text the scan for a comment only learns whether it follows a space. -/
theorem uncommentedFrom_append {t : Text} (h : Plain t) (space : Bool) (u : Text) :
    uncommentedFrom none space (t ++ u) =
      t ++ uncommentedFrom none ((t.getLast?.map Text.isIndent).getD space) u := by
  induction t generalizing space with
  | nil => rfl
  | cons c t ih =>
    obtain ⟨hcomment, hsingle, hdouble⟩ := h c (by simp)
    have hlast : ((t.getLast?.map Text.isIndent).getD (Text.isIndent c)) =
        (((c :: t).getLast?.map Text.isIndent).getD space) := by
      cases t with
      | nil => rfl
      | cons d t => simp [List.getLast?_cons]
    rw [List.cons_append, uncommentedFrom, if_neg (by simp [hcomment]),
      if_neg (by simp [hsingle, hdouble]), ih (fun d hd => h d (List.mem_cons_of_mem c hd)), hlast]
    rfl

/-- A comment after a plain text that ends in a space or tab is taken off. -/
theorem uncommented_append_comment {t comment : Text} (h : Plain t)
    (hcomment : comment = [] ∨
      (comment.head? = some '#' ∧ t.getLast?.any Text.isIndent = true)) :
    uncommented (t ++ comment) = t := by
  rw [uncommented, uncommentedFrom_append h]
  rcases hcomment with rfl | ⟨hhead, hspace⟩
  · rw [uncommentedFrom, List.append_nil]
  · obtain ⟨rest, rfl⟩ := List.head?_eq_some_iff.1 hhead
    have hmap : (t.getLast?.map Text.isIndent).getD true = true := by
      cases hl : t.getLast? with
      | none => rfl
      | some c => rw [hl] at hspace; exact hspace
    rw [hmap, uncommentedFrom, if_pos ⟨rfl, rfl⟩, List.append_nil]

/-- A plain text in a value can be replaced by one that ends alike. -/
theorem uncommented_replace {t t' u : Text} {c d : Char} (h : Plain t) (h' : Plain t')
    (hc : t.getLast? = some c) (hd : t'.getLast? = some d)
    (hspace : Text.isIndent c = Text.isIndent d) (v : Text)
    (huncommented : uncommented (t ++ u) = t ++ v) :
    uncommented (t' ++ u) = t' ++ v := by
  rw [uncommented, uncommentedFrom_append h, hc] at huncommented
  rw [uncommented, uncommentedFrom_append h', hd]
  have hv := List.append_cancel_left huncommented
  simp only [Option.map_some, Option.getD_some] at hv ⊢
  rw [← hspace, hv]

end Line
end ThemeRepair
