import OberonImports.Proofs.FileSystem.Denotes

/-!
# The directory that holds a path

The parent of a path has the names before the last one, up to names that name nothing. So it denotes
the directory in which the last name stands, unless the path is a mere name: then the parent is the
empty path.
-/

namespace OberonImports

namespace Path

open Text

variable {path : Path} {last : FileName} {names front : List FileName}

/-- Names are what is left of them without those at their end that name nothing, and those. -/
theorem exists_append_dropIdle (names : List FileName) :
    ∃ idle, names = (dropIdle names.reverse).reverse ++ idle ∧ ∀ name ∈ idle, IsIdle name := by
  refine ⟨(names.reverse.takeWhile fun name => IsIdle name).reverse, ?_, ?_⟩
  · rw [dropIdle, ← List.reverse_append, List.takeWhile_append_dropWhile, List.reverse_reverse]
  · intro name hname
    have htaken := List.all_eq_true.mp List.all_takeWhile name (List.mem_reverse.mp hname)
    exact of_decide_eq_true htaken

theorem dropIdle_concat (hlast : ¬ IsIdle last) :
    dropIdle (names ++ [last]).reverse = last :: names.reverse := by
  rw [List.reverse_append, List.reverse_singleton, List.singleton_append, dropIdle,
    List.dropWhile_cons_of_neg]
  simpa using hlast

/-- A text that does not start with a separator starts with its first field, which is all of it or
is followed by a separator. -/
theorem exists_fields_cons {c : UInt8} (hc : c ≠ slash) (text : Path) :
    ∃ piece pieces, fields slash (c :: text) = (c :: piece) :: pieces ∧
      (piece = [] → text = [] ∨ text.head? = some slash) := by
  obtain ⟨piece, pieces, hpieces⟩ := List.exists_cons_of_ne_nil (fields_ne_nil slash text)
  refine ⟨piece, pieces, by simp [fields, hc, hpieces], ?_⟩
  rintro rfl
  cases text with
  | nil => exact .inl rfl
  | cons d text =>
      right
      by_contra hd
      have hd : d ≠ slash := fun heq => hd (congrArg some heq)
      obtain ⟨next, others, hothers⟩ := List.exists_cons_of_ne_nil (fields_ne_nil slash text)
      simp [fields, hd, hothers] at hpieces

/-- How paths start: with a slash, with a lone dot and a slash, or with a name. -/
theorem anchor_cases (hfields : fields slash path = front ++ [last]) (hlast : ¬ IsIdle last) :
    (∃ body, path = slash :: body ∧ anchorAndBody path = ([slash], body)) ∨
    (∃ body, path = dot :: slash :: body ∧
      anchorAndBody path = ([dot], slash :: body)) ∨
    (∃ first rest, fields slash path = first :: rest ∧ ¬ IsIdle first ∧ path.head? ≠ some slash ∧
      anchorAndBody path = ([], path)) := by
  -- A path that is a single idle name has no last name.
  have hproper : ¬ IsIdle path ∨ slash ∈ path := by
    by_contra hnot
    rw [not_or, not_not] at hnot
    rw [fields_of_not_mem hnot.2] at hfields
    have hends := congrArg List.getLast? hfields
    rw [List.getLast?_singleton, List.getLast?_concat, Option.some.injEq] at hends
    exact hlast (hends ▸ hnot.1)
  match path, hproper with
  | [], hproper => exact absurd (Or.inl rfl) (hproper.resolve_right List.not_mem_nil)
  | c :: body, hproper =>
      by_cases hslash : c = slash
      · subst hslash
        exact .inl ⟨body, rfl, by simp [anchorAndBody]⟩
      right
      by_cases hdot : c = dot ∧ (body = [] ∨ body.head? = some slash)
      · obtain ⟨rfl, hbody⟩ := hdot
        rcases hbody with rfl | hhead
        · exact absurd (Or.inr rfl) (hproper.resolve_right (by decide))
        · obtain ⟨rest, rfl⟩ := List.head?_eq_some_iff.mp hhead
          exact .inl ⟨rest, rfl, by simp [anchorAndBody]⟩
      · right
        obtain ⟨piece, pieces, hpieces, hshort⟩ := exists_fields_cons hslash body
        refine ⟨_, _, hpieces, ?_, by simpa using hslash, ?_⟩
        · rintro (hnil | heq)
          · cases hnil
          · obtain ⟨rfl, rfl⟩ := List.cons.inj heq
            exact hdot ⟨rfl, hshort rfl⟩
        · rw [anchorAndBody, if_neg (by simp [hslash, hdot])]

/-- What the fields of the parent are, given the names that are left before the last one. -/
theorem fields_joinFields_of_append {kept idle : List FileName} {body : Path} {piece : FileName}
    (hbody : fields slash body = names ++ [last]) (hnames : names = piece :: kept ++ idle) :
    fields slash (joinFields slash (piece :: kept)) = piece :: kept := by
  refine fields_joinFields fun name hname hslash => ?_
  have hmem : name ∈ fields slash body :=
    hbody ▸ List.mem_append_left _ (hnames ▸ List.mem_append_left idle hname)
  exact (mem_of_mem_fields hmem hslash).2 rfl

/-- A first name is the first of those before the last one if there are more. -/
theorem exists_front_of_cons {first : FileName} {others : List FileName} (hne : others ≠ [])
    (heq : first :: others = front ++ [last]) :
    ∃ names, front = first :: names ∧ others = names ++ [last] := by
  cases front with
  | nil => exact absurd (List.cons.inj heq).2 hne
  | cons head names =>
      obtain ⟨rfl, hothers⟩ := List.cons.inj heq
      exact ⟨names, rfl, hothers⟩

/-- A parent of a path with names before the last one. It is empty if there are none, and has these
names otherwise, but for some that name nothing. -/
def IsParent (path : Path) (front : List FileName) (parent : Path) : Prop :=
  (parent = [] ∧ front = [] ∧ path.head? ≠ some slash) ∨
    (parent ≠ [] ∧ (parent.head? = some slash ↔ path.head? = some slash) ∧
      ((∀ name ∈ fields slash parent, IsIdle name) ∧ (∀ name ∈ front, IsIdle name) ∨
        ∃ idle, front = fields slash parent ++ idle ∧ ∀ name ∈ idle, IsIdle name))

/-- An empty name stands before a slash at the front. -/
theorem isParent_slash {body : Path} (hfields : fields slash body = names ++ [last]) :
    IsParent (slash :: body) ([] :: names)
      (slash :: joinFields slash (dropIdle names.reverse).reverse) := by
  obtain ⟨idle, hnames, hidle⟩ := exists_append_dropIdle names
  generalize (dropIdle names.reverse).reverse = kept at hnames
  refine .inr ⟨List.cons_ne_nil _ _, by simp, ?_⟩
  cases kept with
  | nil =>
      obtain rfl : names = idle := hnames
      exact .inl ⟨by simp [fields, joinFields, IsIdle], by simpa [IsIdle] using hidle⟩
  | cons piece kept =>
      have hkept := fields_joinFields_of_append hfields hnames
      exact .inr ⟨idle, by simp [fields, hkept, hnames], hidle⟩

/-- The empty name behind a lone dot at the front goes with it. -/
theorem isParent_dot {body : Path} (hfields : fields slash body = names ++ [last]) :
    IsParent (dot :: slash :: body) ([dot] :: names)
      (dot :: joinFields slash (dropIdle ([] :: names).reverse).reverse) := by
  obtain ⟨idle, hnames, hidle⟩ := exists_append_dropIdle ([] :: names)
  generalize (dropIdle ([] :: names).reverse).reverse = kept at hnames
  have hdot : ∀ name ∈ fields slash [dot], IsIdle name := by simp [fields, IsIdle]
  refine .inr ⟨List.cons_ne_nil _ _, by simp, ?_⟩
  rcases kept with _ | ⟨empty, _ | ⟨next, kept⟩⟩
  · obtain rfl : [] :: names = idle := hnames
    exact .inl ⟨hdot, List.forall_mem_cons.mpr ⟨.inr rfl, (List.forall_mem_cons.mp hidle).2⟩⟩
  · obtain rfl : names = idle := (List.cons.inj hnames).2
    obtain rfl : [] = empty := (List.cons.inj hnames).1
    exact .inl ⟨hdot, List.forall_mem_cons.mpr ⟨.inr rfl, hidle⟩⟩
  · have hbehind : names = next :: kept ++ idle := (List.cons.inj hnames).2
    obtain rfl : [] = empty := (List.cons.inj hnames).1
    have hkept := fields_joinFields_of_append hfields hbehind
    exact .inr ⟨idle, by simp [fields, joinFields, hkept, hbehind], hidle⟩

theorem isParent_name {first : FileName} {rest : List FileName}
    (hfields : fields slash path = names ++ [last]) (hfirst : fields slash path = first :: rest)
    (hproper : ¬ IsIdle first) (hhead : path.head? ≠ some slash) :
    IsParent path names (joinFields slash (dropIdle names.reverse).reverse) := by
  obtain ⟨idle, hnames, hidle⟩ := exists_append_dropIdle names
  generalize (dropIdle names.reverse).reverse = kept at hnames
  cases kept with
  | nil =>
      obtain rfl : names = idle := hnames
      cases names with
      | nil => exact .inl ⟨rfl, rfl, hhead⟩
      | cons name names =>
          obtain ⟨rfl, -⟩ := List.cons.inj (hfirst.symm.trans hfields)
          exact absurd (hidle first List.mem_cons_self) hproper
  | cons piece kept =>
      have hkept := fields_joinFields_of_append hfields hnames
      obtain ⟨rfl, -⟩ := List.cons.inj (hfirst.symm.trans (hnames ▸ hfields))
      obtain ⟨c, behind, rfl⟩ := List.exists_cons_of_ne_nil fun hnil => hproper (.inl hnil)
      have hc : c ≠ slash := (mem_of_mem_fields (hfirst ▸ List.mem_cons_self) List.mem_cons_self).2
      obtain ⟨others, hjoin⟩ : ∃ others, joinFields slash ((c :: behind) :: kept) =
          (c :: behind) ++ others := exists_joinFields_cons kept
      refine .inr ⟨by simp [hjoin], by simp [hjoin, hc, hhead], .inr ⟨idle, ?_, hidle⟩⟩
      rw [hkept, hnames]

/-- A path whose last name names something has a parent. -/
theorem exists_isParent (hfields : fields slash path = front ++ [last]) (hlast : ¬ IsIdle last) :
    ∃ parent, path.parent? = some parent ∧ IsParent path front parent := by
  have hparent : ∀ anchor body names, anchorAndBody path = (anchor, body) →
      fields slash body = names ++ [last] →
      path.parent? = some (anchor ++ joinFields slash (dropIdle names.reverse).reverse) := by
    intro anchor body names hanchor hbody
    simp only [parent?, hanchor, hbody, dropIdle_concat hlast]
  rcases anchor_cases hfields hlast with ⟨body, rfl, hanchor⟩ | ⟨body, rfl, hanchor⟩ |
    ⟨first, rest, hfirst, hproper, hhead, hanchor⟩
  · obtain ⟨names, rfl, hbody⟩ := exists_front_of_cons (fields_ne_nil slash body)
      (by simpa [fields] using hfields)
    exact ⟨_, hparent _ _ _ hanchor hbody, isParent_slash hbody⟩
  · obtain ⟨names, rfl, hbody⟩ := exists_front_of_cons (fields_ne_nil slash body)
      (by simpa [fields] using hfields)
    exact ⟨_, hparent _ _ ([] :: names) hanchor (by simp [fields, hbody]), isParent_dot hbody⟩
  · exact ⟨_, hparent _ _ _ hanchor hfields, isParent_name hfields hfirst hproper hhead⟩

end Path

namespace FileSystem

variable {fs : FileSystem} {holder : Location} {path : Path}

/-- A path whose last name names something is held by a directory if the names before the last one
point to it. -/
def HeldBy (fs : FileSystem) (path : Path) (holder : Location) : Prop :=
  ∃ front name, pathNames path = front ++ [name] ∧ ¬ Path.IsIdle name ∧
    fs.Points (startOf path fs.cwd) front holder

theorem HeldBy.unique {other : Location} (hheld : fs.HeldBy path holder)
    (hother : fs.HeldBy path other) : holder = other := by
  obtain ⟨front, name, hnames, -, hpoints⟩ := hheld
  obtain ⟨before, last, hsame, -, hpoints'⟩ := hother
  obtain rfl := List.append_inj_left' (hnames.symm.trans hsame) rfl
  exact hpoints.unique hpoints'

/-- The parent of a path that is held by a directory denotes this directory, unless it is empty: then
the path is a mere name, which is held by the directory where paths start. -/
theorem HeldBy.exists_parent (hheld : fs.HeldBy path holder) :
    ∃ parent, path.parent? = some parent ∧
      (parent = [] ∧ holder = fs.cwd ∨ parent ≠ [] ∧ fs.Denotes fs.cwd parent holder) := by
  obtain ⟨front, name, hnames, hname, hpoints⟩ := hheld
  obtain ⟨parent, hparent, hshape⟩ := Path.exists_isParent hnames hname
  refine ⟨parent, hparent, ?_⟩
  rcases hshape with ⟨rfl, rfl, hhead⟩ | ⟨hne, hhead, hsame⟩
  · left
    rw [startOf, Path.isAbsolute, decide_eq_false hhead] at hpoints
    cases hpoints
    exact ⟨rfl, rfl⟩
  · right
    refine ⟨hne, ?_⟩
    have hstart : startOf parent fs.cwd = startOf path fs.cwd := by
      rw [startOf, startOf, Path.isAbsolute, Path.isAbsolute]
      simp only [hhead]
    rw [Denotes, hstart, pathNames]
    rcases hsame with ⟨hidle, hfront⟩ | ⟨idle, rfl, hidle⟩
    · rw [points_of_idle hidle]
      exact (points_of_idle hfront).mp hpoints
    · exact (points_append_idle hidle).mp hpoints

/-- The path of a file is held by a directory. -/
theorem exists_heldBy_of_isFile (hfile : fs.isFile path = true) :
    ∃ holder, fs.HeldBy path holder ∧ fs.entry? holder = some .directory := by
  unfold isFile at hfile
  split at hfile
  next => cases hfile
  next location hresolve =>
    split at hfile
    next bytes hentry =>
      obtain ⟨-, -, -, hleads⟩ := resolve_eq_ok.mp hresolve
      obtain ⟨front, last, hnames⟩ : ∃ front last, pathNames path = front ++ [last] :=
        ⟨_, _, (List.dropLast_concat_getLast (by simp [pathNames, Text.fields_ne_nil])).symm⟩
      rw [hnames] at hleads
      obtain ⟨left, holder, hfront, hlast⟩ := hleads.of_append
      have hpoints := points_of_followNames (followNames_eq_ok.mpr hfront)
      have hheld : ¬ Path.IsIdle last → fs.HeldBy path holder := fun hproper =>
        ⟨front, last, hnames, hproper, hpoints⟩
      cases hlast with
      | stay hdirectory _ hrest =>
          -- An idle last name would stay in a directory.
          cases hrest
          cases hdirectory.symm.trans hentry
      | up hdirectory => exact ⟨holder, hheld not_isIdle_upward, hdirectory⟩
      | down hdirectory hstep | link hdirectory hstep =>
          exact ⟨holder, hheld hstep.1, hdirectory⟩
    next => cases hfile

end FileSystem

end OberonImports
