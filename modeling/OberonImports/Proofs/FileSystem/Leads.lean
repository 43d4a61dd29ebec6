import OberonImports.Proofs.FileSystem.Entries
import OberonImports.Proofs.Path

/-!
# Where names lead

That names lead from one location to another is told step by step: each step starts in a directory
and stays there, goes up, goes down or follows a link. Names that lead somewhere are followed first
if further names stand behind them. So a path that goes on from an open directory with the name of
something in it leads there, unless it grew too long.
-/

namespace OberonImports.FileSystem

/-- A name that is looked up in the directory. -/
def IsStep (name : FileName) : Prop := ¬ Path.IsIdle name ∧ name ≠ Path.upward

instance (name : FileName) : Decidable (IsStep name) := inferInstanceAs (Decidable (_ ∧ _))

/-- Names lead from one location to another, with at most so many links followed. -/
inductive Leads (fs : FileSystem) : Nat → Location → List FileName → Location → Prop
  | here {links base} : Leads fs links base [] base
  | stay {links base location name names} (hdirectory : fs.entry? base = some .directory)
      (hname : Path.IsIdle name) (hrest : Leads fs links base names location) :
      Leads fs links base (name :: names) location
  | up {links base location names} (hdirectory : fs.entry? base = some .directory)
      (hrest : Leads fs links base.dropLast names location) :
      Leads fs links base (Path.upward :: names) location
  | down {links base location name names entry} (hdirectory : fs.entry? base = some .directory)
      (hname : IsStep name) (hsize : name.length ≤ maxNameSize)
      (hentry : fs.entry? (base ++ [name]) = some entry) (hplain : ∀ target, entry ≠ .link target)
      (hrest : Leads fs links (base ++ [name]) names location) :
      Leads fs links base (name :: names) location
  | link {links base location name target names} (hdirectory : fs.entry? base = some .directory)
      (hname : IsStep name) (hsize : name.length ≤ maxNameSize)
      (hentry : fs.entry? (base ++ [name]) = some (.link target))
      (hrest : Leads fs links (if target.isAbsolute then [] else base)
        (pathNames target ++ names) location) :
      Leads fs (links + 1) base (name :: names) location

variable {fs : FileSystem} {links : Nat} {base location : Location} {name : FileName} {path : Path}
  {names front : List FileName} {entry : Entry}

/-! ### Steps -/

theorem followNames_nil {purpose : Purpose} : fs.followNames purpose links base [] = .ok base := by
  rw [followNames]

theorem followNames_stay {purpose : Purpose} (hdirectory : fs.entry? base = some .directory)
    (hname : Path.IsIdle name) : fs.followNames purpose links base (name :: names) =
      fs.followNames purpose links base names := by
  rw [followNames, if_neg (not_not.mpr hdirectory), if_pos hname]

theorem followNames_up {purpose : Purpose} (hdirectory : fs.entry? base = some .directory) :
    fs.followNames purpose links base (Path.upward :: names) =
      fs.followNames purpose links base.dropLast names := by
  rw [followNames, if_neg (not_not.mpr hdirectory), if_neg (by decide), if_pos rfl]

/-- Any other name is looked up, unless it is too long. -/
theorem followNames_step (hdirectory : fs.entry? base = some .directory) (hname : IsStep name) :
    fs.followNames .find links base (name :: names) =
      if maxNameSize < name.length then .error .nameTooLong
      else
        match fs.entry? (base ++ [name]) with
        | none => .error .notFound
        | some (.link target) =>
            match links with
            | 0 => .error .tooManyLinks
            | links + 1 =>
                fs.followNames .find links (if target.isAbsolute then [] else base)
                  (pathNames target ++ names)
        | some _ => fs.followNames .find links (base ++ [name]) names := by
  rw [followNames, if_neg (not_not.mpr hdirectory), if_neg hname.1, if_neg hname.2,
    if_neg (by simp)]
  cases fs.entry? (base ++ [name]) with
  | none => simp
  | some entry => rfl

theorem followNames_tooLong (hdirectory : fs.entry? base = some .directory) (hname : IsStep name)
    (hsize : maxNameSize < name.length) :
    fs.followNames .find links base (name :: names) = .error .nameTooLong := by
  rw [followNames_step hdirectory hname, if_pos hsize]

theorem followNames_down (hdirectory : fs.entry? base = some .directory) (hname : IsStep name)
    (hsize : name.length ≤ maxNameSize) (hentry : fs.entry? (base ++ [name]) = some entry)
    (hplain : ∀ target, entry ≠ .link target) : fs.followNames .find links base (name :: names) =
      fs.followNames .find links (base ++ [name]) names := by
  rw [followNames_step hdirectory hname, if_neg (Nat.not_lt.mpr hsize), hentry]
  cases entry with
  | link target => exact absurd rfl (hplain target)
  | directory | file bytes => rfl

theorem followNames_link {target : Path} (hdirectory : fs.entry? base = some .directory)
    (hname : IsStep name) (hsize : name.length ≤ maxNameSize)
    (hentry : fs.entry? (base ++ [name]) = some (.link target)) :
    fs.followNames .find (links + 1) base (name :: names) =
      fs.followNames .find links (if target.isAbsolute then [] else base)
        (pathNames target ++ names) := by
  rw [followNames_step hdirectory hname, if_neg (Nat.not_lt.mpr hsize), hentry]

namespace Leads

/-- Further names are followed from where the first ones lead, with the links that are left. -/
theorem followNames_append (hleads : Leads fs links base front location) :
    ∃ left, ∀ names, fs.followNames .find links base (front ++ names) =
      fs.followNames .find left location names := by
  induction hleads with
  | here => exact ⟨_, fun _ => rfl⟩
  | stay hdirectory hname _ ih =>
      obtain ⟨left, hleft⟩ := ih
      exact ⟨left, fun names => (followNames_stay hdirectory hname).trans (hleft names)⟩
  | up hdirectory _ ih =>
      obtain ⟨left, hleft⟩ := ih
      exact ⟨left, fun names => (followNames_up hdirectory).trans (hleft names)⟩
  | down hdirectory hname hsize hentry hplain _ ih =>
      obtain ⟨left, hleft⟩ := ih
      exact ⟨left, fun names =>
        (followNames_down hdirectory hname hsize hentry hplain).trans (hleft names)⟩
  | link hdirectory hname hsize hentry _ ih =>
      obtain ⟨left, hleft⟩ := ih
      refine ⟨left, fun names => ?_⟩
      rw [List.cons_append, followNames_link hdirectory hname hsize hentry, ← List.append_assoc]
      exact hleft names

/-- Names that lead somewhere lead there in two parts. By induction on the way; if the first part is
empty, the second one leads all the way. -/
theorem of_append (hleads : Leads fs links base (front ++ names) location) :
    ∃ left middle, Leads fs links base front middle ∧ Leads fs left middle names location := by
  generalize hall : front ++ names = all at hleads
  induction hleads generalizing front with
  | @here links base =>
      obtain ⟨rfl, rfl⟩ := List.append_eq_nil_iff.mp hall
      exact ⟨links, base, .here, .here⟩
  | stay hdirectory hname hrest ih =>
      cases front with
      | nil =>
          obtain rfl : names = _ := hall
          exact ⟨_, _, .here, .stay hdirectory hname hrest⟩
      | cons head front =>
          obtain ⟨rfl, hbehind⟩ := List.cons.inj hall
          obtain ⟨left, middle, hfront, hnames⟩ := ih hbehind
          exact ⟨left, middle, .stay hdirectory hname hfront, hnames⟩
  | up hdirectory hrest ih =>
      cases front with
      | nil =>
          obtain rfl : names = _ := hall
          exact ⟨_, _, .here, .up hdirectory hrest⟩
      | cons head front =>
          obtain ⟨rfl, hbehind⟩ := List.cons.inj hall
          obtain ⟨left, middle, hfront, hnames⟩ := ih hbehind
          exact ⟨left, middle, .up hdirectory hfront, hnames⟩
  | down hdirectory hname hsize hentry hplain hrest ih =>
      cases front with
      | nil =>
          obtain rfl : names = _ := hall
          exact ⟨_, _, .here, .down hdirectory hname hsize hentry hplain hrest⟩
      | cons head front =>
          obtain ⟨rfl, hbehind⟩ := List.cons.inj hall
          obtain ⟨left, middle, hfront, hnames⟩ := ih hbehind
          exact ⟨left, middle, .down hdirectory hname hsize hentry hplain hfront, hnames⟩
  | link hdirectory hname hsize hentry hrest ih =>
      cases front with
      | nil =>
          obtain rfl : names = _ := hall
          exact ⟨_, _, .here, .link hdirectory hname hsize hentry hrest⟩
      | cons head front =>
          obtain ⟨rfl, rfl⟩ := List.cons.inj hall
          obtain ⟨left, middle, hfront, hnames⟩ := ih (List.append_assoc _ front names)
          exact ⟨left, middle, .link hdirectory hname hsize hentry hfront, hnames⟩

/-- Names lead to where they start or start in a directory. -/
theorem eq_or_directory (hleads : Leads fs links base names location) :
    base = location ∨ fs.entry? base = some .directory := by
  cases hleads with
  | here => exact .inl rfl
  | stay hdirectory | up hdirectory | down hdirectory | link hdirectory => exact .inr hdirectory

/-- A single empty name stays where it is. -/
theorem eq_of_idle (hleads : Leads fs links base [[]] location) : base = location := by
  generalize hidle : [[]] = idle at hleads
  cases hleads with
  | here => rfl
  | stay _ _ hrest =>
      obtain ⟨rfl, rfl⟩ := List.cons.inj hidle
      cases hrest
      rfl
  | up => cases (List.cons.inj hidle).1
  | down _ hname | link _ hname => exact absurd (.inl (List.cons.inj hidle).1.symm) hname.1

end Leads

/-- Names lead where following them ends. -/
theorem followNames_eq_ok :
    fs.followNames .find links base names = .ok location ↔ Leads fs links base names location := by
  constructor
  · intro hfollow
    fun_induction fs.followNames .find links base names with
    | case1 =>
        cases hfollow
        exact .here
    | case3 links base name names hdirectory hname ih =>
        exact .stay (not_not.mp hdirectory) hname (ih hfollow)
    | case4 links base names hdirectory _ ih =>
        exact .up (not_not.mp hdirectory) (ih hfollow)
    | case10 base name names hdirectory hname hup _ hsize target hentry links ih =>
        exact .link (not_not.mp hdirectory) ⟨hname, hup⟩ (Nat.not_lt.mp hsize) hentry (ih hfollow)
    | case11 links base name names hdirectory hname hup _ hsize entry hplain hentry ih =>
        exact .down (not_not.mp hdirectory) ⟨hname, hup⟩ (Nat.not_lt.mp hsize) hentry
          (fun target heq => hplain target heq) (ih hfollow)
    | case7 _ _ _ _ _ _ _ _ _ _ hwrite => cases hwrite.1
    | case2 | case5 | case6 | case8 | case9 => cases hfollow
  · intro hleads
    obtain ⟨left, hleft⟩ := hleads.followNames_append
    rw [← List.append_nil names, hleft, followNames_nil]

/-! ### Paths -/

theorem resolve_eq_ok : fs.resolve path = .ok location ↔
    path.contains 0 = false ∧ path ≠ [] ∧ path.length ≤ maxPathSize ∧
    Leads fs maxLinks (if path.isAbsolute then [] else fs.cwd) (pathNames path) location := by
  rw [resolve, resolveFor_eq_ok, followNames_eq_ok]

/-- A name joined to a path is its last name, behind those of the path without an idle slash. -/
theorem exists_pathNames_join (hpath : path ≠ []) (hname : Path.IsEntryName name) :
    ∃ front, pathNames (path.join name) = front ++ [name] ∧
      (pathNames path = front ∨ pathNames path = front ++ [[]]) := by
  have hfields := Text.fields_of_not_mem hname.2
  by_cases hslash : path.getLast? = some Path.slash
  · -- The slash at the end leaves an idle name, which the joined name replaces.
    obtain ⟨front, hfront⟩ := List.getLast?_eq_some_iff.mp hslash
    refine ⟨Text.fields Path.slash front, ?_, .inr ?_⟩
    · rw [pathNames, Path.join_of_isEntryName hpath hname, if_pos hslash, hfront, List.append_assoc,
        List.singleton_append, Text.fields_append, hfields]
    · rw [pathNames, hfront, Text.fields_append]
      rfl
  · refine ⟨pathNames path, ?_, .inl rfl⟩
    rw [pathNames, Path.join_of_isEntryName hpath hname, if_neg hslash, Text.fields_append, hfields]
    rfl

theorem isAbsolute_join (hpath : path ≠ []) (hname : Path.IsEntryName name) :
    (path.join name).isAbsolute = path.isAbsolute := by
  obtain ⟨first, rest, rfl⟩ := List.exists_cons_of_ne_nil hpath
  rw [Path.isAbsolute, Path.isAbsolute, Path.join_of_isEntryName hpath hname]
  split <;> rfl

/-- A name that an entry of a directory can have and that is looked up there. -/
def IsFileName (name : FileName) : Prop := Path.IsEntryName name ∧ IsStep name

/-- Where the path of something in an open directory leads. -/
def openBelow (path : Path) (name : FileName) (directory : Location) : Except OsError Location :=
  if (path.join name).contains 0 then .error .nulByte
  else if maxPathSize < (path.join name).length ∨ maxNameSize < name.length then
    .error .nameTooLong
  else .ok (directory ++ [name])

/-- The names of a joined path are followed from where the path leads. -/
theorem followNames_join (hopen : fs.resolve path = .ok location) (hname : Path.IsEntryName name) :
    ∃ left, fs.followNames .find maxLinks (if path.isAbsolute then [] else fs.cwd)
      (pathNames (path.join name)) = fs.followNames .find left location [name] := by
  obtain ⟨-, hne, -, hleads⟩ := resolve_eq_ok.mp hopen
  obtain ⟨front, hjoin, hpath | hpath⟩ := exists_pathNames_join hne hname
  · rw [hpath] at hleads
    obtain ⟨left, hleft⟩ := hleads.followNames_append
    exact ⟨left, hjoin ▸ hleft [name]⟩
  · rw [hpath] at hleads
    obtain ⟨_, middle, hfront, hidle⟩ := hleads.of_append
    obtain ⟨left, hleft⟩ := hfront.followNames_append
    -- The idle name behind the last slash stays in the directory.
    obtain rfl := hidle.eq_of_idle
    exact ⟨left, hjoin ▸ hleft [name]⟩

theorem eq_of_openBelow {found : Location} (hfound : openBelow path name location = .ok found) :
    found = location ++ [name] := by
  unfold openBelow at hfound
  split at hfound
  next => cases hfound
  next =>
    split at hfound
    next => cases hfound
    next => exact (Except.ok.inj hfound).symm

/-- What is joined to the path of an open directory is found right there, unless the path or the
name is too long. -/
theorem resolve_join (hopen : fs.resolve path = .ok location)
    (hdirectory : fs.entry? location = some .directory) (hname : IsFileName name)
    (hentry : fs.entry? (location ++ [name]) = some entry)
    (hplain : ∀ target, entry ≠ .link target) :
    fs.resolve (path.join name) = openBelow path name location := by
  obtain ⟨-, hne, -, -⟩ := resolve_eq_ok.mp hopen
  have hjoined : path.join name ≠ [] := by
    rw [Path.join_of_isEntryName hne hname.1]
    split <;> simp [hname.1.1]
  unfold openBelow
  split
  next hnul => rw [resolve, resolveFor, if_pos hnul]
  next hnul =>
    by_cases hsize : maxPathSize < (path.join name).length
    · rw [resolve, resolveFor, if_neg hnul, if_neg hjoined, if_pos hsize, if_pos (.inl hsize)]
    · obtain ⟨left, hleft⟩ := followNames_join hopen hname.1
      rw [resolve_eq_followNames (Bool.eq_false_of_not_eq_true hnul) hjoined (Nat.not_lt.mp hsize),
        isAbsolute_join hne hname.1, hleft]
      by_cases hlong : maxNameSize < name.length
      · rw [followNames_tooLong hdirectory hname.2 hlong, if_pos (.inr hlong)]
      · rw [followNames_down hdirectory hname.2 (Nat.not_lt.mp hlong) hentry hplain, followNames,
          if_neg (not_or.mpr ⟨hsize, hlong⟩)]

end OberonImports.FileSystem
