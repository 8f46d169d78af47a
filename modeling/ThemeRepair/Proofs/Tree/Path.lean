import Mathlib.Data.List.Basic
import Mathlib.Data.List.Induction
import ThemeRepair.Discovery

/-!
# The names of a joined path

A path that is joined from a base and names goes through the names of the base and then through
those (`names_joinAll`), and a suffix of it is one of its last name (`joinAll_suffixed`).  The
names have to be such as a directory has, `IsName`: a slash in one of them would cut it.  The
directory of the path goes through the names of the base, but for those that stand for no step
(`names_directory_join`).
-/

namespace ThemeRepair
namespace Path

variable {base name suffix : String} {relative : List String}

/-- A name that something in a directory can have. -/
structure IsName (name : String) : Prop where
  ne_empty : name ≠ ""
  ne_dot : name ≠ "."
  ne_up : name ≠ ".."
  no_slash : '/' ∉ name.toList

/-- A name stays one with a suffix that has no slash. -/
theorem IsName.append (h : IsName name) (hsuffix : '/' ∉ suffix.toList) :
    IsName (name ++ suffix) := by
  have hne : name.toList ≠ [] := by simpa using h.ne_empty
  have hdot : name.toList ≠ ['.'] := fun heq => h.ne_dot (String.toList_inj.mp heq)
  have hup : name.toList ≠ ['.', '.'] := fun heq => h.ne_up (String.toList_inj.mp heq)
  refine ⟨fun heq => ?_, fun heq => ?_, fun heq => ?_, ?_⟩
  · have hnil := congrArg String.toList heq
    rw [String.toList_append] at hnil
    exact hne (List.append_eq_nil_iff.mp hnil).1
  · have hchars := congrArg String.toList heq
    rw [String.toList_append] at hchars
    obtain ⟨hnil, -⟩ | ⟨hone, -⟩ := List.append_eq_singleton_iff.mp hchars
    · exact hne hnil
    · exact hdot hone
  · have hchars := congrArg String.toList heq
    rw [String.toList_append] at hchars
    obtain ⟨c, cs, hcs⟩ := List.exists_cons_of_ne_nil hne
    rw [hcs, List.cons_append] at hchars
    obtain ⟨rfl, hrest⟩ := List.cons.inj hchars
    obtain ⟨rfl, -⟩ | ⟨rfl, -⟩ := List.append_eq_singleton_iff.mp hrest
    · exact hdot hcs
    · exact hup hcs
  · rw [String.toList_append, List.mem_append]
    exact fun hmem => hmem.elim h.no_slash hsuffix

/-- The names between the slashes of a path. -/
def pieces (path : String) : List String :=
  ((path.toList.splitOn '/').filter (!·.isEmpty)).map String.ofList

theorem names_eq (path : String) :
    names path = pieces path ++ (if endsInSlash path then [""] else []) := rfl

theorem pieces_of_isName (h : IsName name) : pieces name = [name] := by
  have hsplit : name.toList.splitOn '/' = [name.toList] := by
    rw [List.splitOn_eq_splitOnP]
    refine List.splitOnP_eq_singleton fun c hc => ?_
    have hne : c ≠ '/' := fun heq => h.no_slash (heq ▸ hc)
    simpa using hne
  have hne : name.toList ≠ [] := by simpa using h.ne_empty
  rw [pieces, hsplit]
  simp [h.ne_empty]

theorem pieces_slash (front back : List Char) :
    pieces (String.ofList (front ++ '/' :: back)) =
      pieces (String.ofList front) ++ pieces (String.ofList back) := by
  simp only [pieces, String.toList_ofList, List.splitOn_eq_splitOnP]
  rw [List.splitOnP_append_cons front back (by simp), List.filter_append, List.map_append]

theorem endsInSlash_iff {path : String} :
    endsInSlash path = true ↔ ∃ front, path.toList = front ++ ['/'] := by
  rw [endsInSlash, beq_iff_eq, List.getLast?_eq_some_iff]

/-- A name is joined to a base directly, if the base is empty or ends in a slash, or else behind a
slash. -/
theorem toList_join (base name : String) :
    (base = "" ∧ join base name = name) ∨
    (∃ front, base.toList = front ++ ['/'] ∧
      (join base name).toList = front ++ '/' :: name.toList) ∨
    (endsInSlash base = false ∧ (join base name).toList = base.toList ++ '/' :: name.toList) := by
  unfold join
  by_cases hempty : base = ""
  · subst hempty
    exact .inl ⟨rfl, String.empty_append⟩
  · by_cases hslash : endsInSlash base = true
    · obtain ⟨front, hfront⟩ := endsInSlash_iff.mp hslash
      refine .inr (.inl ⟨front, hfront, ?_⟩)
      rw [if_pos (by simp [hslash]), String.toList_append, hfront, List.append_assoc]
      rfl
    · refine .inr (.inr ⟨by simpa using hslash, ?_⟩)
      rw [if_neg (by simpa [hempty] using hslash), String.toList_append, String.toList_append,
        List.append_assoc]
      rfl

theorem endsInSlash_join (h : IsName name) : endsInSlash (join base name) = false := by
  have hlast : ∃ front, (join base name).toList = front ++ name.toList := by
    obtain ⟨-, hjoin⟩ | ⟨front, -, hjoin⟩ | ⟨-, hjoin⟩ := toList_join base name
    · exact ⟨[], by rw [hjoin, List.nil_append]⟩
    · exact ⟨front ++ ['/'], by simp [hjoin]⟩
    · exact ⟨base.toList ++ ['/'], by simp [hjoin]⟩
  obtain ⟨front, hjoin⟩ := hlast
  have hne : name.toList ≠ [] := by simpa using h.ne_empty
  rw [endsInSlash, hjoin, List.getLast?_append_of_ne_nil _ hne, beq_eq_false_iff_ne]
  exact fun heq => h.no_slash (List.mem_of_getLast? heq)

theorem pieces_join (h : IsName name) : pieces (join base name) = pieces base ++ [name] := by
  have hslash (front : List Char) : pieces (String.ofList (front ++ '/' :: name.toList)) =
      pieces (String.ofList front) ++ [name] := by
    rw [pieces_slash, String.ofList_toList, pieces_of_isName h]
  obtain ⟨rfl, hjoin⟩ | ⟨front, hbase, hjoin⟩ | ⟨-, hjoin⟩ := toList_join base name
  · rw [hjoin, pieces_of_isName h]
    rfl
  · have hfront : pieces base = pieces (String.ofList front) := by
      rw [← String.ofList_toList (s := base), hbase, pieces_slash]
      exact List.append_nil _
    rw [← String.ofList_toList (s := join base name), hjoin, hslash, hfront]
  · rw [← String.ofList_toList (s := join base name), hjoin, hslash, String.ofList_toList]

theorem isAbsolute_join (hbase : base ≠ "") : isAbsolute (join base name) = isAbsolute base := by
  have hne : base.toList ≠ [] := by simpa using hbase
  obtain ⟨rfl, -⟩ | ⟨front, hfront, hjoin⟩ | ⟨-, hjoin⟩ := toList_join base name
  · exact absurd rfl hbase
  · rw [isAbsolute, isAbsolute, hjoin, hfront]
    cases front <;> rfl
  · rw [isAbsolute, isAbsolute, hjoin]
    obtain ⟨c, cs, hcs⟩ := List.exists_cons_of_ne_nil hne
    rw [hcs]
    rfl

theorem join_ne_empty (h : name ≠ "") : join base name ≠ "" := by
  have hne : name.toList ≠ [] := by simpa using h
  intro heq
  have hnil := congrArg String.toList heq
  obtain ⟨-, hjoin⟩ | ⟨front, -, hjoin⟩ | ⟨-, hjoin⟩ := toList_join base name
  · exact h (hjoin ▸ heq)
  · rw [hjoin] at hnil
    simp at hnil
  · rw [hjoin] at hnil
    simp at hnil

theorem join_append : join base (name ++ suffix) = join base name ++ suffix := by
  unfold join
  split
  · exact String.append_assoc.symm
  · rw [String.append_assoc, String.append_assoc, String.append_assoc]

/-! ## Several names -/

theorem joinAll_concat : joinAll base (relative ++ [name]) = join (joinAll base relative) name := by
  rw [joinAll, List.foldl_append]
  rfl

theorem joinAll_append :
    joinAll base (relative ++ [name ++ suffix]) = joinAll base (relative ++ [name]) ++ suffix := by
  rw [joinAll_concat, joinAll_concat, join_append]

theorem joinAll_ne_empty (hbase : base ≠ "") (h : ∀ name ∈ relative, IsName name) :
    joinAll base relative ≠ "" := by
  induction relative using List.reverseRecOn with
  | nil => exact hbase
  | append_singleton init last ih =>
    rw [joinAll_concat]
    exact join_ne_empty (h last (by simp)).ne_empty

theorem isAbsolute_joinAll (hbase : base ≠ "") (h : ∀ name ∈ relative, IsName name) :
    isAbsolute (joinAll base relative) = isAbsolute base := by
  induction relative using List.reverseRecOn with
  | nil => rfl
  | append_singleton init last ih =>
    have hinit : ∀ name ∈ init, IsName name := fun name hname => h name (by simp [hname])
    rw [joinAll_concat, isAbsolute_join (joinAll_ne_empty hbase hinit), ih hinit]

theorem pieces_joinAll (h : ∀ name ∈ relative, IsName name) :
    pieces (joinAll base relative) = pieces base ++ relative := by
  induction relative using List.reverseRecOn with
  | nil => simp [joinAll]
  | append_singleton init last ih =>
    have hinit : ∀ name ∈ init, IsName name := fun name hname => h name (by simp [hname])
    rw [joinAll_concat, pieces_join (h last (by simp)), ih hinit, List.append_assoc]

/-- A joined path goes through the names of the base and the names it was joined with. -/
theorem names_joinAll (h : ∀ name ∈ relative, IsName name) (hne : relative ≠ []) :
    names (joinAll base relative) = pieces base ++ relative := by
  obtain ⟨init, last, rfl⟩ := (List.eq_nil_or_concat' relative).resolve_left hne
  have hslash : endsInSlash (joinAll base (init ++ [last])) = false := by
    rw [joinAll_concat]
    exact endsInSlash_join (h last (by simp))
  rw [names_eq, pieces_joinAll h, hslash]
  simp

theorem endsInSlash_joinAll (h : ∀ name ∈ relative, IsName name) (hne : relative ≠ []) :
    endsInSlash (joinAll base relative) = false := by
  obtain ⟨init, last, rfl⟩ := (List.eq_nil_or_concat' relative).resolve_left hne
  rw [joinAll_concat]
  exact endsInSlash_join (h last (by simp))

/-- Different names below a base make different paths. -/
theorem joinAll_injective {relative' : List String} (h : ∀ name ∈ relative, IsName name)
    (h' : ∀ name ∈ relative', IsName name)
    (heq : joinAll base relative = joinAll base relative') : relative = relative' := by
  have hpieces := congrArg pieces heq
  rw [pieces_joinAll h, pieces_joinAll h'] at hpieces
  exact List.append_cancel_left hpieces

/-! ## A suffix of the last name -/

/-- Names with a suffix behind the last one. -/
def suffixed (suffix : String) (relative : List String) : List String :=
  relative.dropLast ++ [(relative.getLast?.getD "") ++ suffix]

theorem suffixed_concat (suffix : String) (init : List String) (name : String) :
    suffixed suffix (init ++ [name]) = init ++ [name ++ suffix] := by
  rw [suffixed, List.dropLast_concat, List.getLast?_concat]
  rfl

theorem suffixed_ne_nil (suffix : String) (relative : List String) :
    suffixed suffix relative ≠ [] := by
  simp [suffixed]

/-- The suffix of a path is that of its last name. -/
theorem joinAll_suffixed (hne : relative ≠ []) :
    joinAll base (suffixed suffix relative) = joinAll base relative ++ suffix := by
  obtain ⟨init, name, rfl⟩ := (List.eq_nil_or_concat' relative).resolve_left hne
  rw [suffixed_concat, joinAll_append]

theorem isName_suffixed (h : ∀ name ∈ relative, IsName name) (hne : relative ≠ [])
    (hsuffix : '/' ∉ suffix.toList) : ∀ name ∈ suffixed suffix relative, IsName name := by
  obtain ⟨init, last, rfl⟩ := (List.eq_nil_or_concat' relative).resolve_left hne
  rw [suffixed_concat]
  intro name hname
  obtain hname | hname := List.mem_append.mp hname
  · exact h name (List.mem_append_left _ hname)
  · rw [List.mem_singleton.mp hname]
    exact (h last (by simp)).append hsuffix

theorem name_ne_append (hsuffix : suffix ≠ "") : name ≠ name ++ suffix := by
  intro heq
  have hlist := congrArg String.toList heq
  rw [String.toList_append, List.self_eq_append_right] at hlist
  exact hsuffix (String.toList_inj.mp hlist)

theorem ne_suffixed (hne : relative ≠ []) (hsuffix : suffix ≠ "") :
    relative ≠ suffixed suffix relative := by
  obtain ⟨init, name, rfl⟩ := (List.eq_nil_or_concat' relative).resolve_left hne
  rw [suffixed_concat]
  simpa using name_ne_append hsuffix

/-- Different names take different ones with a suffix. -/
theorem suffixed_injective {relative' : List String} (hne : relative ≠ []) (hne' : relative' ≠ [])
    (h : suffixed suffix relative = suffixed suffix relative') : relative = relative' := by
  obtain ⟨init, name, rfl⟩ := (List.eq_nil_or_concat' relative).resolve_left hne
  obtain ⟨init', name', rfl⟩ := (List.eq_nil_or_concat' relative').resolve_left hne'
  rw [suffixed_concat, suffixed_concat] at h
  obtain ⟨rfl, hlast⟩ := List.append_inj' h rfl
  have hname : name ++ suffix = name' ++ suffix := by simpa using hlast
  have hlist := congrArg String.toList hname
  rw [String.toList_append, String.toList_append] at hlist
  rw [String.toList_inj.mp (List.append_cancel_right hlist)]

/-! ## The directory of a path -/

/-- A name that stands for no step. -/
def IsNoStep (name : String) : Prop := name = "" ∨ name = "."

theorem trimBackwards_suffix (cs : List Char) : trimBackwards cs <:+ cs := by
  induction cs using trimBackwards.induct with
  | case1 rest ih =>
    rw [trimBackwards]
    exact ih.trans (List.suffix_cons '/' rest)
  | case2 rest ih =>
    rw [trimBackwards]
    exact ih.trans ((List.suffix_cons '/' rest).trans (List.suffix_cons '.' _))
  | case3 cs hslash hdot => exact ⟨[], by rw [trimBackwards.eq_3 cs hslash hdot, List.nil_append]⟩

/-- What is trimmed from the end of a path stands for no step. -/
theorem pieces_trimBackwards (cs : List Char) :
    ∃ dots, (∀ x ∈ dots, IsNoStep x) ∧
      pieces (String.ofList cs.reverse) =
        pieces (String.ofList (trimBackwards cs).reverse) ++ dots := by
  induction cs using trimBackwards.induct with
  | case1 rest ih =>
    obtain ⟨dots, hdots, hpieces⟩ := ih
    refine ⟨dots, hdots, ?_⟩
    rw [List.reverse_cons, pieces_slash, hpieces, trimBackwards]
    exact List.append_nil _
  | case2 rest ih =>
    obtain ⟨dots, hdots, hpieces⟩ := ih
    refine ⟨dots ++ ["."], fun x hx => ?_, ?_⟩
    · obtain hx | hx := List.mem_append.mp hx
      · exact hdots x hx
      · exact .inr (List.mem_singleton.mp hx)
    · have hdot : pieces (String.ofList ['.']) = ["."] := by decide
      rw [List.reverse_cons, List.reverse_cons, List.append_assoc, List.singleton_append,
        pieces_slash, hpieces, hdot, trimBackwards, List.append_assoc]
  | case3 cs hslash hdot =>
    refine ⟨[], fun x hx => absurd hx List.not_mem_nil, ?_⟩
    rw [trimBackwards.eq_3 cs hslash hdot, List.append_nil]

/-- The end of a name is not trimmed. -/
theorem trimBackwards_of_isName (h : IsName name) (rest : List Char) :
    trimBackwards (name.toList.reverse ++ rest) = name.toList.reverse ++ rest := by
  have hslash : ∀ c ∈ name.toList.reverse, c ≠ '/' :=
    fun c hc heq => h.no_slash (heq ▸ List.mem_reverse.mp hc)
  have hne : name.toList.reverse ≠ [] := by simpa using h.ne_empty
  have hdot : name.toList.reverse ≠ ['.'] := by
    intro heq
    refine h.ne_dot (String.toList_inj.mp ?_)
    rw [← List.reverse_reverse name.toList, heq]
    rfl
  generalize name.toList.reverse = cs at hslash hne hdot
  refine trimBackwards.eq_3 _ (fun rest' heq => ?_) fun rest' heq => ?_
  · cases cs with
    | nil => exact hne rfl
    | cons c cs =>
      obtain ⟨rfl, -⟩ := List.cons.inj heq
      exact hslash '/' List.mem_cons_self rfl
  · match cs with
    | [] => exact hne rfl
    | [c] =>
      obtain ⟨rfl, -⟩ := List.cons.inj heq
      exact hdot rfl
    | c :: c' :: cs =>
      obtain ⟨-, heq⟩ := List.cons.inj heq
      obtain ⟨rfl, -⟩ := List.cons.inj heq
      exact hslash '/' (by simp) rfl

/-- The directory of a joined path, trimmed. -/
theorem directory_join (h : IsName name) (hbase : base ≠ "") :
    directory (join base name) =
      if (trimBackwards base.toList.reverse).isEmpty then
        if isAbsolute base then "/" else "."
      else String.ofList (trimBackwards base.toList.reverse).reverse := by
  have hname : ∀ c ∈ name.toList.reverse, (c != '/') = true := by
    intro c hc
    have hne : c ≠ '/' := fun heq => h.no_slash (heq ▸ List.mem_reverse.mp hc)
    simpa using hne
  have hne : name.toList.reverse ≠ [] := by simpa using h.ne_empty
  have hdirectory : ∀ rest, (join base name).toList.reverse = name.toList.reverse ++ '/' :: rest →
      directory (join base name) =
        if (trimBackwards rest).isEmpty then if isAbsolute base then "/" else "."
        else String.ofList (trimBackwards rest).reverse := by
    intro rest hrest
    have hdrop : (name.toList.reverse ++ '/' :: rest).dropWhile (· != '/') = '/' :: rest := by
      rw [List.dropWhile_append_of_pos hname]
      rfl
    unfold directory
    dsimp only
    rw [hrest, trimBackwards_of_isName h, hdrop, isAbsolute_join hbase]
    cases hcs : name.toList.reverse with
    | nil => exact absurd hcs hne
    | cons c cs => simp [trimBackwards]
  obtain ⟨rfl, -⟩ | ⟨front, hfront, hjoin⟩ | ⟨-, hjoin⟩ := toList_join base name
  · exact absurd rfl hbase
  · rw [hdirectory front.reverse (by simp [hjoin]), hfront, List.reverse_append]
    rfl
  · exact hdirectory base.toList.reverse (by simp [hjoin])

/-- The directory of a joined path begins where its base does, and goes through the names of the
base but for those that stand for no step. -/
theorem names_directory_join (h : IsName name) (hbase : base ≠ "") :
    isAbsolute (directory (join base name)) = isAbsolute base ∧
      ∃ steps dots dots', (∀ x ∈ dots, IsNoStep x) ∧ (∀ x ∈ dots', IsNoStep x) ∧
        pieces base = steps ++ dots ∧ names (directory (join base name)) = steps ++ dots' := by
  obtain ⟨dots, hdots, hpieces⟩ := pieces_trimBackwards base.toList.reverse
  rw [List.reverse_reverse, String.ofList_toList] at hpieces
  rw [directory_join h hbase]
  by_cases hempty : trimBackwards base.toList.reverse = []
  · rw [hempty] at hpieces
    simp only [hempty, List.isEmpty_nil, if_true]
    cases habsolute : isAbsolute base with
    | true =>
      have hnames : names "/" = [""] := by decide
      exact ⟨rfl, [], dots, [""], hdots, fun x hx => .inl (List.mem_singleton.mp hx), hpieces,
        hnames⟩
    | false =>
      have hnames : names "." = ["."] := by decide
      exact ⟨rfl, [], dots, ["."], hdots, fun x hx => .inr (List.mem_singleton.mp hx), hpieces,
        hnames⟩
  · obtain ⟨front, hfront⟩ := trimBackwards_suffix base.toList.reverse
    rw [if_neg (by simpa using hempty)]
    refine ⟨?_, _, dots, if endsInSlash (String.ofList _) then [""] else [], hdots, ?_, hpieces,
      names_eq _⟩
    · -- what is left of the base begins as the base does
      have hbegin : base.toList =
          (trimBackwards base.toList.reverse).reverse ++ front.reverse := by
        rw [← List.reverse_append, hfront, List.reverse_reverse]
      rw [isAbsolute, isAbsolute, String.toList_ofList]
      conv_rhs => rw [hbegin]
      rw [List.head?_append_of_ne_nil _ (by simpa using hempty)]
    · intro x hx
      split at hx
      · exact .inl (List.mem_singleton.mp hx)
      · cases hx

end Path
end ThemeRepair
