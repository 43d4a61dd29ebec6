import OberonImports.Path
import OberonImports.Proofs.Text.Cut

/-!
# Paths below a root

The names of entries are not empty and hold no slash. So a path that goes on from a root with such
names tells the names: they are what stands between its slashes behind the root.
-/

namespace OberonImports.Path

open Text

variable {root base : Path} {name : FileName} {names others first second : List FileName}

def IsUtf8 (path : Path) : Prop := ∃ text, ofText text = path

theorem isUtf8_iff {path : Path} : IsUtf8 path ↔ ∃ text, path.text? = some text := by
  simp only [IsUtf8, text?_eq_some]

/-- A name that an entry of a directory can have. -/
def IsEntryName (name : FileName) : Prop := name ≠ [] ∧ slash ∉ name

/-- The path that goes on from a root with names, one after the other. -/
def below (root : Path) (names : List FileName) : Path := names.foldl join root

theorem IsEntryName.not_isAbsolute (hname : IsEntryName name) : isAbsolute name = false := by
  rw [isAbsolute, decide_eq_false_iff_not]
  exact fun hhead => hname.2 (List.mem_of_head? hhead)

theorem IsEntryName.getLast?_append_ne (hname : IsEntryName name) (front : Path) :
    (front ++ name).getLast? ≠ some slash := by
  rw [List.getLast?_append_of_ne_nil front hname.1]
  exact fun hlast => hname.2 (List.mem_of_getLast? hlast)

theorem join_of_isEntryName (hbase : base ≠ []) (hname : IsEntryName name) :
    base.join name = if base.getLast? = some slash then base ++ name
      else base ++ slash :: name := by
  rw [join, hname.not_isAbsolute, List.isEmpty_eq_false_iff.mpr hbase]
  rfl

/-- Behind a first name, each further one follows a slash. -/
theorem below_eq {front : Path} (hbase : base = front ++ slash :: name)
    (hnames : ∀ other ∈ name :: names, IsEntryName other) :
    below base names = front ++ slash :: joinFields slash (name :: names) := by
  induction names generalizing base front name with
  | nil => exact hbase
  | cons next names ih =>
      obtain ⟨hname, hrest⟩ := List.forall_mem_cons.mp hnames
      have hne : base ≠ [] := by
        rintro rfl
        simp at hbase
      have hslash : base.getLast? ≠ some slash := by
        rw [hbase, List.append_cons]
        exact hname.getLast?_append_ne _
      have hjoin : base.join next = base ++ slash :: next := by
        rw [join_of_isEntryName hne (hrest next List.mem_cons_self), if_neg hslash]
      calc below base (next :: names)
          = base ++ slash :: joinFields slash (next :: names) := ih hjoin hrest
        _ = front ++ slash :: joinFields slash (name :: next :: names) := by
            simp [hbase, joinFields]

/-- Behind some front of a root, which lacks at most a slash, a slash leads to the names. -/
theorem exists_front (hroot : root ≠ []) : ∃ front : Path, root.length ≤ front.length + 1 ∧
    ∀ name names, (∀ other ∈ name :: names, IsEntryName other) →
      below root (name :: names) = front ++ slash :: joinFields slash (name :: names) := by
  by_cases hslash : root.getLast? = some slash
  · obtain ⟨front, hfront⟩ := List.getLast?_eq_some_iff.mp hslash
    refine ⟨front, by simp [hfront], fun name names hnames => below_eq ?_ hnames⟩
    rw [join_of_isEntryName hroot (hnames name List.mem_cons_self), if_pos hslash, hfront]
    simp
  · refine ⟨root, by omega, fun name names hnames => below_eq ?_ hnames⟩
    rw [join_of_isEntryName hroot (hnames name List.mem_cons_self), if_neg hslash]

theorem below_ne_root (hroot : root ≠ []) (hnames : ∀ other ∈ name :: names, IsEntryName other) :
    below root (name :: names) ≠ root := by
  obtain ⟨front, hlength, hfront⟩ := exists_front hroot
  obtain ⟨rest, hrest⟩ : ∃ rest, joinFields slash (name :: names) = name ++ rest :=
    exists_joinFields_cons _
  intro heq
  have hlong := congrArg List.length heq
  have hname := List.length_pos_of_ne_nil (hnames name List.mem_cons_self).1
  simp only [hfront name names hnames, hrest, List.length_append, List.length_cons] at hlong
  omega

/-- A path below a root determines the names on the way. -/
theorem below_injective (hroot : root ≠ []) (hfirst : ∀ name ∈ first, IsEntryName name)
    (hsecond : ∀ name ∈ second, IsEntryName name) (heq : below root first = below root second) :
    first = second := by
  obtain ⟨front, -, hfront⟩ := exists_front hroot
  match first, second with
  | [], [] => rfl
  | [], name :: names => exact absurd heq.symm (below_ne_root hroot hsecond)
  | name :: names, [] => exact absurd heq (below_ne_root hroot hfirst)
  | name :: names, other :: others =>
      have hfields : ∀ first rest, (∀ name ∈ first :: rest, IsEntryName name) →
          fields slash (joinFields slash (first :: rest)) = first :: rest :=
        fun first rest hproper => fields_joinFields fun piece hpiece => (hproper piece hpiece).2
      rw [hfront name names hfirst, hfront other others hsecond, List.append_cancel_left_eq,
        List.cons.injEq] at heq
      have hpieces := congrArg (fields slash) heq.2
      rwa [hfields name names hfirst, hfields other others hsecond] at hpieces

end OberonImports.Path
