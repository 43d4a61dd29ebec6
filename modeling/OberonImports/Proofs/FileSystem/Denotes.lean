import OberonImports.Proofs.FileSystem.Leads

/-!
# What paths denote

A path denotes a location from a directory, whether or not something stands there: names go down,
`..` goes up, and a link is replaced by its target. Where a path leads, it denotes. A joined path
denotes what its second part denotes from where the first one points, and the parent of a path
denotes the directory in which its last name stands.
-/

namespace OberonImports.FileSystem

/-- Names point from one location to another. Neither has to be there, and nothing is too long. -/
inductive Points (fs : FileSystem) : Location → List FileName → Location → Prop
  | here {base} : Points fs base [] base
  | stay {base location name names} (hname : Path.IsIdle name)
      (hrest : Points fs base names location) : Points fs base (name :: names) location
  | up {base location names} (hrest : Points fs base.dropLast names location) :
      Points fs base (Path.upward :: names) location
  | down {base location name names} (hname : IsStep name)
      (hplain : ∀ target, fs.entry? (base ++ [name]) ≠ some (.link target))
      (hrest : Points fs (base ++ [name]) names location) :
      Points fs base (name :: names) location
  | link {base location name target names} (hname : IsStep name)
      (hentry : fs.entry? (base ++ [name]) = some (.link target))
      (hrest : Points fs (if target.isAbsolute then [] else base)
        (pathNames target ++ names) location) :
      Points fs base (name :: names) location

/-- Where the names of a path start that is taken from a directory. -/
def startOf (path : Path) (directory : Location) : Location :=
  if path.isAbsolute then [] else directory

/-- A path denotes a location from a directory. -/
def Denotes (fs : FileSystem) (directory : Location) (path : Path) (location : Location) : Prop :=
  fs.Points (startOf path directory) (pathNames path) location

variable {fs : FileSystem} {links : Nat} {base directory location found : Location}
  {name : FileName} {path first second : Path} {names front idle : List FileName}

theorem not_isIdle_upward : ¬ Path.IsIdle Path.upward := by decide

/-! ### Names in order -/

namespace Points

/-- Names point to at most one location. By induction on the way; the next name tells its step. -/
theorem unique (hpoints : fs.Points base names location) (hother : fs.Points base names found) :
    location = found := by
  induction hpoints with
  | here =>
      cases hother
      rfl
  | stay hname _ ih =>
      cases hother with
      | stay _ hrest => exact ih hrest
      | up => exact absurd hname not_isIdle_upward
      | down hstep | link hstep => exact absurd hname hstep.1
  | up _ ih =>
      cases hother with
      | stay hname => exact absurd hname not_isIdle_upward
      | up hrest => exact ih hrest
      | down hstep | link hstep => exact absurd rfl hstep.2
  | down hname hplain _ ih =>
      cases hother with
      | stay hidle => exact absurd hidle hname.1
      | up => exact absurd rfl hname.2
      | down _ _ hrest => exact ih hrest
      | link _ hentry => exact absurd hentry (hplain _)
  | link hname hentry _ ih =>
      cases hother with
      | stay hidle => exact absurd hidle hname.1
      | up => exact absurd rfl hname.2
      | down _ hplain => exact absurd hentry (hplain _)
      | link _ hentry' hrest =>
          obtain rfl := Entry.link.inj (Option.some.inj (hentry.symm.trans hentry'))
          exact ih hrest

theorem append (hfront : fs.Points base front directory)
    (hnames : fs.Points directory names location) : fs.Points base (front ++ names) location := by
  induction hfront with
  | here => exact hnames
  | stay hname _ ih => exact .stay hname (ih hnames)
  | up _ ih => exact .up (ih hnames)
  | down hname hplain _ ih => exact .down hname hplain (ih hnames)
  | link hname hentry _ ih =>
      have hrest := ih hnames
      rw [List.append_assoc] at hrest
      exact .link hname hentry hrest

/-- Names that point somewhere point there in two parts. By induction on the way, as for names that
lead somewhere. -/
theorem of_append (hpoints : fs.Points base (front ++ names) location) :
    ∃ middle, fs.Points base front middle ∧ fs.Points middle names location := by
  generalize hall : front ++ names = all at hpoints
  induction hpoints generalizing front with
  | @here base =>
      obtain ⟨rfl, rfl⟩ := List.append_eq_nil_iff.mp hall
      exact ⟨base, .here, .here⟩
  | stay hname hrest ih =>
      cases front with
      | nil =>
          obtain rfl : names = _ := hall
          exact ⟨_, .here, .stay hname hrest⟩
      | cons head front =>
          obtain ⟨rfl, hbehind⟩ := List.cons.inj hall
          obtain ⟨middle, hfront, hnames⟩ := ih hbehind
          exact ⟨middle, .stay hname hfront, hnames⟩
  | up hrest ih =>
      cases front with
      | nil =>
          obtain rfl : names = _ := hall
          exact ⟨_, .here, .up hrest⟩
      | cons head front =>
          obtain ⟨rfl, hbehind⟩ := List.cons.inj hall
          obtain ⟨middle, hfront, hnames⟩ := ih hbehind
          exact ⟨middle, .up hfront, hnames⟩
  | down hname hplain hrest ih =>
      cases front with
      | nil =>
          obtain rfl : names = _ := hall
          exact ⟨_, .here, .down hname hplain hrest⟩
      | cons head front =>
          obtain ⟨rfl, hbehind⟩ := List.cons.inj hall
          obtain ⟨middle, hfront, hnames⟩ := ih hbehind
          exact ⟨middle, .down hname hplain hfront, hnames⟩
  | link hname hentry hrest ih =>
      cases front with
      | nil =>
          obtain rfl : names = _ := hall
          exact ⟨_, .here, .link hname hentry hrest⟩
      | cons head front =>
          obtain ⟨rfl, rfl⟩ := List.cons.inj hall
          obtain ⟨middle, hfront, hnames⟩ := ih (List.append_assoc _ front names)
          exact ⟨middle, .link hname hentry hfront, hnames⟩

end Points

theorem points_append : fs.Points base (front ++ names) location ↔
    ∃ middle, fs.Points base front middle ∧ fs.Points middle names location :=
  ⟨Points.of_append, fun ⟨_, hfront, hnames⟩ => hfront.append hnames⟩

theorem points_of_idle (hidle : ∀ name ∈ idle, Path.IsIdle name) :
    fs.Points base idle location ↔ base = location := by
  induction idle with
  | nil =>
      constructor
      · intro hpoints
        cases hpoints
        rfl
      · rintro rfl
        exact .here
  | cons name idle ih =>
      obtain ⟨hname, hrest⟩ := List.forall_mem_cons.mp hidle
      rw [← ih hrest]
      constructor
      · intro hpoints
        cases hpoints with
        | stay _ hpoints => exact hpoints
        | up => exact absurd hname not_isIdle_upward
        | down hstep | link hstep => exact absurd hname hstep.1
      · exact .stay hname

theorem points_append_idle (hidle : ∀ name ∈ idle, Path.IsIdle name) :
    fs.Points base (front ++ idle) location ↔ fs.Points base front location := by
  rw [points_append]
  constructor
  · rintro ⟨middle, hfront, hmiddle⟩
    exact (points_of_idle hidle).mp hmiddle ▸ hfront
  · exact fun hfront => ⟨location, hfront, (points_of_idle hidle).mpr rfl⟩

/-! ### Where paths lead -/

/-- Names point to where they are followed, also to write there. -/
theorem points_of_followNames {purpose : Purpose}
    (hfollow : fs.followNames purpose links base names = .ok location) :
    fs.Points base names location := by
  fun_induction fs.followNames purpose links base names with
  | case1 =>
      cases hfollow
      exact .here
  | case3 links base name names _ hname ih => exact .stay hname (ih hfollow)
  | case4 links base names _ _ ih => exact .up (ih hfollow)
  | case7 links base name names _ hname hup _ _ hentry hwrite =>
      obtain ⟨-, rfl⟩ := hwrite
      cases hfollow
      exact .down ⟨hname, hup⟩ (by simp [hentry]) .here
  | case10 base name names _ hname hup _ _ target hentry links ih =>
      exact .link ⟨hname, hup⟩ hentry (ih hfollow)
  | case11 links base name names _ hname hup _ _ entry hplain hentry ih =>
      refine .down ⟨hname, hup⟩ (fun target hlink => ?_) (ih hfollow)
      exact hplain target (Option.some.inj (hentry.symm.trans hlink))
  | case2 | case5 | case6 | case8 | case9 => cases hfollow

theorem Denotes.unique (hdenotes : fs.Denotes directory path location)
    (hother : fs.Denotes directory path found) : location = found :=
  Points.unique hdenotes hother

/-! ### Joined paths -/

/-- The names of a joined path, up to an idle one. -/
theorem exists_pathNames_join_relative (hfirst : first ≠ []) (hsecond : second.isAbsolute = false) :
    ∃ front idle, pathNames first = front ++ idle ∧ (∀ name ∈ idle, Path.IsIdle name) ∧
      pathNames (first.join second) = front ++ pathNames second := by
  rw [Path.join, hsecond, List.isEmpty_eq_false_iff.mpr hfirst]
  by_cases hslash : first.getLast? = some Path.slash
  · obtain ⟨front, hfront⟩ := List.getLast?_eq_some_iff.mp hslash
    refine ⟨Text.fields Path.slash front, [[]], ?_, by simp [Path.IsIdle], ?_⟩
    · rw [pathNames, hfront, Text.fields_append]
      rfl
    · rw [if_neg (by decide), if_pos hslash, pathNames, hfront, List.append_assoc,
        List.singleton_append, Text.fields_append, pathNames]
  · refine ⟨pathNames first, [], (List.append_nil _).symm, by simp, ?_⟩
    rw [if_neg (by decide), if_neg hslash, pathNames, Text.fields_append, pathNames, pathNames]

theorem isAbsolute_join_relative (hfirst : first ≠ []) (hsecond : second.isAbsolute = false) :
    (first.join second).isAbsolute = first.isAbsolute := by
  obtain ⟨c, rest, rfl⟩ := List.exists_cons_of_ne_nil hfirst
  rw [Path.join, hsecond, List.isEmpty_cons, if_neg (by decide), Path.isAbsolute, Path.isAbsolute]
  split <;> rfl

theorem join_of_isAbsolute (hsecond : second.isAbsolute = true) : first.join second = second := by
  rw [Path.join, hsecond]
  rfl

/-- A joined path denotes what its second part denotes from where the first one does. -/
theorem denotes_join (hmiddle : fs.Denotes base first directory) :
    fs.Denotes base (first.join second) location ↔ fs.Denotes directory second location := by
  by_cases hfirst : first = []
  · subst hfirst
    obtain rfl : base = directory :=
      (points_of_idle (by simp [pathNames, Text.fields, Path.IsIdle])).mp hmiddle
    simp [Path.join]
  cases hsecond : second.isAbsolute with
  | true =>
      rw [join_of_isAbsolute hsecond, Denotes, Denotes, startOf, startOf, hsecond]
      rfl
  | false =>
      obtain ⟨front, idle, hnames, hidle, hjoin⟩ := exists_pathNames_join_relative hfirst hsecond
      rw [Denotes, hnames, points_append_idle hidle] at hmiddle
      have hstart : startOf (first.join second) base = startOf first base := by
        rw [startOf, isAbsolute_join_relative hfirst hsecond, startOf]
      have hrelative : startOf second directory = directory := by
        rw [startOf, hsecond]
        rfl
      rw [Denotes, hstart, hjoin, points_append, Denotes, hrelative]
      constructor
      · rintro ⟨middle, hfront, hrest⟩
        exact hfront.unique hmiddle ▸ hrest
      · exact fun hrest => ⟨directory, hmiddle, hrest⟩

end OberonImports.FileSystem
