import ThemeRepair.Tree.Basic

/-!
# What a tree has at a location

Putting a node at a location changes what is there and nothing else (`node?_put_self`,
`node?_put_of_ne`), and nothing at all if it is there already (`put_eq_self`).  The root is the one
location where nothing can be put.  Several nodes that are put one after the other (`putAll`) are
told from the locations in the same way.

A location is `IsFree` for a file if nothing stands there, or another file.  A file that is put
there leaves every directory and every link where it was (`node?_put_iff_of_isFree`).
-/

namespace ThemeRepair
namespace Tree

variable {s t : Tree} {k l : Location} {n : Node} {puts : List (Location × Node)}

/-! ## Putting a node -/

theorem find?_putEntry_self (l : Location) (n : Node) (es : List (Location × Node)) :
    (putEntry l n es).find? (fun e => e.1 == l) = some (l, n) := by
  induction es with
  | nil => simp [putEntry]
  | cons e es ih =>
    rw [putEntry]
    split
    · simp
    · next hne => rw [List.find?_cons_of_neg (by simpa using hne), ih]

theorem find?_putEntry_of_ne (h : k ≠ l) (n : Node) (es : List (Location × Node)) :
    (putEntry l n es).find? (fun e => e.1 == k) = es.find? (fun e => e.1 == k) := by
  induction es with
  | nil => simp [putEntry, h.symm]
  | cons e es ih =>
    rw [putEntry]
    split
    · next heq =>
      have hek : e.1 ≠ k := heq ▸ h.symm
      rw [List.find?_cons_of_neg (by simpa using h.symm),
        List.find?_cons_of_neg (by simpa using hek)]
    · rw [List.find?_cons, List.find?_cons, ih]

theorem node?_nil (t : Tree) : t.node? [] = some (.directory t.rootMode) := rfl

theorem node?_of_ne_nil (h : l ≠ []) :
    t.node? l = (t.entries.find? fun e => e.1 == l).map Prod.snd := by
  cases l with
  | nil => exact absurd rfl h
  | cons name names => rfl

theorem node?_put_self (h : l ≠ []) : (t.put l n).node? l = some n := by
  rw [node?_of_ne_nil h, put, find?_putEntry_self]
  rfl

theorem node?_put_of_ne (h : k ≠ l) : (t.put l n).node? k = t.node? k := by
  cases k with
  | nil => rfl
  | cons name names =>
    rw [node?_of_ne_nil (List.cons_ne_nil _ _), node?_of_ne_nil (List.cons_ne_nil _ _), put,
      find?_putEntry_of_ne h]

@[simp] theorem system_put (t : Tree) (l : Location) (n : Node) : (t.put l n).system = t.system :=
  rfl

/-- Nothing is changed where a location gets what it has. -/
theorem put_eq_self (hl : l ≠ []) (h : t.node? l = some n) : t.put l n = t := by
  have hentries : ∀ es : List (Location × Node),
      (es.find? fun e => e.1 == l).map Prod.snd = some n → putEntry l n es = es := by
    intro es hes
    induction es with
    | nil => cases hes
    | cons e es ih =>
      rw [putEntry]
      by_cases hel : e.1 = l
      · rw [List.find?_cons_of_pos (by simpa using hel), Option.map_some, Option.some.injEq] at hes
        rw [if_pos hel, ← hel, ← hes]
      · rw [List.find?_cons_of_neg (by simpa using hel)] at hes
        rw [if_neg hel, ih hes]
  rw [node?_of_ne_nil hl] at h
  rw [put, hentries t.entries h]

/-! ## Putting several nodes -/

/-- The tree with nodes at several locations, put there one after the other. -/
def putAll (t : Tree) (puts : List (Location × Node)) : Tree :=
  puts.foldl (fun t p => t.put p.1 p.2) t

theorem node?_putAll_of_ne (h : ∀ p ∈ puts, k ≠ p.1) : (t.putAll puts).node? k = t.node? k := by
  induction puts generalizing t with
  | nil => rfl
  | cons p puts ih =>
    have hrest : ∀ q ∈ puts, k ≠ q.1 := fun q hq => h q (List.mem_cons_of_mem p hq)
    exact (ih hrest).trans (node?_put_of_ne (h p List.mem_cons_self))

/-- Where two trees have the same, they have the same after the same nodes were put. -/
theorem node?_putAll_congr (h : s.node? k = t.node? k) :
    (s.putAll puts).node? k = (t.putAll puts).node? k := by
  induction puts generalizing s t with
  | nil => exact h
  | cons p puts ih =>
    refine ih ?_
    by_cases hk : k = p.1
    · by_cases hnil : k = []
      · rw [hnil] at h ⊢
        exact h
      · rw [hk] at hnil ⊢
        rw [node?_put_self hnil, node?_put_self hnil]
    · rw [node?_put_of_ne hk, node?_put_of_ne hk, h]

/-- What was put is there, if nothing else was put there later. -/
theorem node?_putAll_of_mem {p : Location × Node} (hnodup : (puts.map Prod.fst).Nodup)
    (hp : p ∈ puts) (hne : p.1 ≠ []) : (t.putAll puts).node? p.1 = some p.2 := by
  induction puts generalizing t with
  | nil => cases hp
  | cons q puts ih =>
    rw [List.map_cons, List.nodup_cons] at hnodup
    obtain rfl | hp := List.mem_cons.mp hp
    · have hlater : ∀ q ∈ puts, p.1 ≠ q.1 :=
        fun q hq heq => hnodup.1 (List.mem_map.mpr ⟨q, hq, heq.symm⟩)
      exact (node?_putAll_of_ne hlater).trans (node?_put_self hne)
    · exact ih hnodup.2 hp

/-- Nothing is changed where every location gets what it has. -/
theorem putAll_eq_self (h : ∀ p ∈ puts, p.1 ≠ [] ∧ t.node? p.1 = some p.2) :
    t.putAll puts = t := by
  induction puts with
  | nil => rfl
  | cons p puts ih =>
    obtain ⟨hne, hnode⟩ := h p List.mem_cons_self
    have hput : (t.put p.1 p.2).putAll puts = t.putAll puts := by rw [put_eq_self hne hnode]
    exact hput.trans (ih fun q hq => h q (List.mem_cons_of_mem p hq))

/-! ## Locations that are free for a file -/

/-- A file can be put at the location: nothing is there, or another file. -/
def IsFree (t : Tree) (l : Location) : Prop :=
  t.node? l = none ∨ ∃ content mode, t.node? l = some (.file content mode)

theorem IsFree.ne_nil (h : t.IsFree l) : l ≠ [] := by
  rintro rfl
  obtain hnone | ⟨c, m, hfile⟩ := h
  · cases hnone
  · cases hfile

theorem IsFree.node?_ne_directory (h : t.IsFree l) (mode : Nat) :
    t.node? l ≠ some (.directory mode) := by
  obtain hnone | ⟨c, m, hfile⟩ := h
  · simp [hnone]
  · simp [hfile]

theorem IsFree.node?_ne_link (h : t.IsFree l) (target : String) :
    t.node? l ≠ some (.link target) := by
  obtain hnone | ⟨c, m, hfile⟩ := h
  · simp [hnone]
  · simp [hfile]

/-- A node that is no file stands where it stood before a file was put in a free location. -/
theorem node?_put_iff_of_isFree (h : t.IsFree l) {content : ByteArray} {mode : Nat}
    (hn : ∀ c m, n ≠ .file c m) :
    (t.put l (.file content mode)).node? k = some n ↔ t.node? k = some n := by
  by_cases hkl : k = l
  · subst hkl
    rw [node?_put_self h.ne_nil]
    constructor
    · intro hfile
      exact absurd (Option.some.inj hfile).symm (hn content mode)
    · intro hk
      obtain hnone | ⟨c, m, hfile⟩ := h
      · rw [hnone] at hk
        cases hk
      · rw [hfile] at hk
        exact absurd (Option.some.inj hk).symm (hn c m)
  · rw [node?_put_of_ne hkl]

end Tree
end ThemeRepair
