import OberonImports.FileSystem.Write
import OberonImports.Proofs.FileSystem.Removal

/-!
# Writing files

A path to write to leads to a place for a file: to a file, or to a place where nothing stands, in an
open directory. Where a file is put, everything else stays where it stands, and paths to write to
lead where they led before. So a file can be read back by the path by which it was written, also
after other files have been written.
-/

namespace OberonImports.FileSystem

open Lookup

variable {fs : FileSystem} {medium : Medium} {purpose : Purpose} {links : Nat}
  {base location other place : Location} {names : List FileName} {path otherPath : Path}
  {bytes content otherContent : List UInt8} {entry : Entry}

theorem entry?_set (hne : location ≠ []) (entry : Entry) (other : Location) :
    FileSystem.entry? (fs.set location entry) other =
      if other = location then some entry else fs.entry? other := by
  have herase := fs.entry?_erase hne other
  cases other with
  | nil => rw [if_neg hne.symm]; rfl
  | cons name names =>
      have hset : FileSystem.entry? (fs.set location entry) (name :: names) =
          (FileSystem.entry? (fs.erase location) (name :: names)).or
            (List.lookup (name :: names) [(location, entry)]) := List.lookup_append
      rw [hset, herase]
      by_cases heq : name :: names = location
      · simp [heq]
      · have hother : ((name :: names) == location) = false := beq_false_of_ne heq
        simp [heq, hother, List.lookup_cons]

/-! ### Where a path leads -/

/-- Directories lead down to the location, and no link stands there. -/
structure Stands (fs : FileSystem) (location : Location) : Prop where
  above : ∀ upper, upper <+: location → upper ≠ location → fs.entry? upper = some .directory
  not_link : ∀ target, fs.entry? location ≠ some (.link target)

namespace Stands

theorem root (fs : FileSystem) : fs.Stands [] where
  above := fun _ hupper hne => absurd (List.prefix_nil.mp hupper) hne
  not_link := nofun

theorem up (hbase : fs.Stands base) : fs.Stands base.dropLast := by
  rcases List.eq_nil_or_concat' base with rfl | ⟨front, name, rfl⟩
  · exact hbase
  · rw [List.dropLast_concat]
    have hfront : fs.entry? front = some .directory :=
      hbase.above front (List.prefix_append _ _) (by simp)
    refine ⟨fun upper hupper _ => ?_, by simp [hfront]⟩
    apply hbase.above upper (hupper.trans (List.prefix_append _ _))
    rintro rfl
    simpa using hupper.length_le

theorem down {name : FileName} (hbase : fs.Stands base)
    (hdirectory : fs.entry? base = some .directory)
    (hplain : ∀ target, fs.entry? (base ++ [name]) ≠ some (.link target)) :
    fs.Stands (base ++ [name]) where
  above := by
    intro upper hupper hne
    rcases List.prefix_concat_iff.mp hupper with heq | hbefore
    · exact absurd heq hne
    · by_cases heq : upper = base
      · rw [heq, hdirectory]
      · exact hbase.above upper hbefore heq
  not_link := hplain

/-- Wherever names lead, directories lead down to it. -/
theorem followNames (hbase : fs.Stands base)
    (hfollow : fs.followNames purpose links base names = .ok location) : fs.Stands location := by
  fun_induction fs.followNames purpose links base names with
  | case1 =>
      cases hfollow
      exact hbase
  | case3 links base name names _ _ ih => exact ih hbase hfollow
  | case4 links base names _ _ ih => exact ih hbase.up hfollow
  | case7 links base name names hdirectory _ _ _ _ hnone =>
      cases hfollow
      exact hbase.down (not_not.mp hdirectory) (by simp [hnone])
  | case10 base name names _ _ _ _ _ target _ links ih =>
      apply ih _ hfollow
      split
      next => exact root fs
      next => exact hbase
  | case11 links base name names hdirectory _ _ _ _ entry hplain hentry ih =>
      apply ih (hbase.down (not_not.mp hdirectory) _) hfollow
      intro target htarget
      exact hplain target (Option.some.inj (hentry.symm.trans htarget))
  | case2 | case5 | case6 | case8 | case9 => cases hfollow

end Stands

/-- The working directory is one, and so is every location above it. -/
def CwdExists (fs : FileSystem) : Prop :=
  ∀ location, location <+: fs.cwd → fs.entry? location = some .directory

theorem CwdExists.stands (hcwd : fs.CwdExists) : fs.Stands fs.cwd where
  above := fun upper hupper _ => hcwd upper hupper
  not_link := by simp [hcwd fs.cwd List.prefix_rfl]

theorem stands_of_resolveFor (hcwd : fs.CwdExists)
    (hresolve : fs.resolveFor purpose path = .ok location) : fs.Stands location := by
  obtain ⟨-, -, -, hfollow⟩ := resolveFor_eq_ok.mp hresolve
  apply Stands.followNames _ hfollow
  split
  next => exact .root fs
  next => exact hcwd.stands

/-- What exists where a path to write to leads is found by this path. -/
theorem followNames_find_of_write (hentry : fs.entry? location = some entry)
    (hfollow : fs.followNames .write links base names = .ok location) :
    fs.followNames .find links base names = .ok location := by
  fun_induction fs.followNames .write links base names with
  | case1 => rw [followNames, ← hfollow]
  | case3 links base name names hdirectory hname ih =>
      rw [followNames_stay (not_not.mp hdirectory) hname, ih hfollow]
  | case4 links base names hdirectory _ ih =>
      rw [followNames_up (not_not.mp hdirectory), ih hfollow]
  | case7 links base name names _ _ _ _ _ hnone =>
      cases hfollow
      rw [hnone] at hentry
      cases hentry
  | case10 base name names hdirectory hname hup _ hsize target hlink links ih =>
      rw [followNames_link (not_not.mp hdirectory) ⟨hname, hup⟩
        (Nat.not_lt.mp hsize) hlink]
      exact ih hfollow
  | case11 links base name names hdirectory hname hup _ hsize entry hplain hfound ih =>
      rw [followNames_down (not_not.mp hdirectory) ⟨hname, hup⟩
        (Nat.not_lt.mp hsize) hfound fun target heq => hplain target heq, ih hfollow]
  | case2 | case5 | case6 | case8 | case9 => cases hfollow

/-- A name that is looked up to write to what is behind it. -/
theorem followNames_write_step {name : FileName} (hdirectory : fs.entry? base = some .directory)
    (hname : IsStep name) (hsize : name.length ≤ maxNameSize)
    (hslash : ¬ (names ≠ [] ∧ names.all (· = []))) :
    fs.followNames .write links base (name :: names) =
      match fs.entry? (base ++ [name]) with
      | none => if names = [] then .ok (base ++ [name]) else .error .notFound
      | some (.link target) =>
          match links with
          | 0 => .error .tooManyLinks
          | links + 1 =>
              fs.followNames .write links (if Path.isAbsolute target then [] else base)
                (pathNames target ++ names)
      | some _ => fs.followNames .write links (base ++ [name]) names := by
  rw [followNames, if_neg (not_not.mpr hdirectory), if_neg hname.1, if_neg hname.2,
    if_neg (by simpa using hslash), if_neg (Nat.not_lt.mpr hsize)]
  cases fs.entry? (base ++ [name]) with
  | none => simp
  | some entry => cases entry <;> rfl

theorem read_of_resolveFor_write (hfile : fs.entry? location = some (.file bytes))
    (hresolve : fs.resolveFor .write path = .ok location) : fs.read path = .ok bytes := by
  obtain ⟨hnul, hne, hsize, hfollow⟩ := resolveFor_eq_ok.mp hresolve
  have hfound : fs.resolve path = .ok location :=
    resolveFor_eq_ok.mpr ⟨hnul, hne, hsize, followNames_find_of_write hfile hfollow⟩
  rw [read, hfound]
  simp only [hfile]

/-! ### A file that is put -/

/-- A file can be put at the location: neither a directory nor a link stands there. -/
structure IsFilePlace (fs : FileSystem) (place : Location) : Prop where
  not_directory : fs.entry? place ≠ some .directory
  not_link : ∀ target, fs.entry? place ≠ some (.link target)

namespace IsFilePlace

theorem ne_root (hplace : fs.IsFilePlace place) : place ≠ [] := by
  rintro rfl
  exact hplace.not_directory rfl

theorem entry?_set_self (hplace : fs.IsFilePlace place) :
    FileSystem.entry? (fs.set place entry) place = some entry := by
  rw [entry?_set hplace.ne_root, if_pos rfl]

theorem directory_set (hplace : fs.IsFilePlace place) :
    FileSystem.entry? (fs.set place (.file bytes)) location = some .directory ↔
      fs.entry? location = some .directory := by
  rw [entry?_set hplace.ne_root]
  split
  next heq => simp [heq, hplace.not_directory]
  next => exact Iff.rfl

/-- What is followed behind a file leads nowhere. -/
theorem followNames_of_file (hfile : fs.entry? base = some (.file bytes)) (hne : names ≠ []) :
    fs.followNames purpose links base names = .error .notDirectory := by
  cases names with
  | nil => exact absurd rfl hne
  | cons name names => rw [followNames, if_pos (by simp [hfile])]

/-- Names to write to lead where they led before. A name of the file that is put either is the last
one, so that nothing more is asked of what stands there, or leads nowhere, be there a file or
not. -/
theorem followNames_write_set (hplace : fs.IsFilePlace place) :
    (fs.set place (.file bytes)).followNames .write links base names = .ok location ↔
      fs.followNames .write links base names = .ok location := by
  have hstill : ∀ {base}, ¬ fs.entry? base ≠ some .directory →
      FileSystem.entry? (fs.set place (.file bytes)) base = some .directory := fun hopen =>
    hplace.directory_set.mpr (not_not.mp hopen)
  have hself : FileSystem.entry? (fs.set place (.file bytes)) place = some (.file bytes) :=
    hplace.entry?_set_self
  have hother : ∀ other, other ≠ place →
      FileSystem.entry? (fs.set place (.file bytes)) other = fs.entry? other := by
    intro other hne
    rw [entry?_set hplace.ne_root, if_neg hne]
  fun_induction fs.followNames .write links base names with
  | case1 => rw [followNames]
  | case2 links base name names hclosed =>
      rw [followNames, if_pos (mt hplace.directory_set.mp hclosed)]
  | case3 links base name names hopen hname ih =>
      rw [followNames_stay (hstill hopen) hname]
      exact ih
  | case4 links base names hopen _ ih =>
      rw [followNames_up (hstill hopen)]
      exact ih
  | case5 links base name names hopen hname hup hslash =>
      rw [followNames, if_neg (not_not.mpr (hstill hopen)),
        if_neg hname, if_neg hup, if_pos hslash]
  | case6 links base name names hopen hname hup hslash hsize =>
      rw [followNames, if_neg (not_not.mpr (hstill hopen)),
        if_neg hname, if_neg hup, if_neg hslash, if_pos hsize]
  | case7 links base name names hopen hname hup hslash hsize hnone hlast =>
      rw [followNames_write_step (hstill hopen)
        ⟨hname, hup⟩ (Nat.not_lt.mp hsize) (by simpa using hslash)]
      by_cases heq : base ++ [name] = place
      · rw [heq, hself, hlast.2, followNames]
      · simp [hother _ heq, hnone, hlast.2]
  | case8 links base name names hopen hname hup hslash hsize hnone hlast =>
      rw [followNames_write_step (hstill hopen)
        ⟨hname, hup⟩ (Nat.not_lt.mp hsize) (by simpa using hslash)]
      have hmore : names ≠ [] := by simpa using hlast
      by_cases heq : base ++ [name] = place
      · simp [heq, hself, followNames_of_file hself hmore]
      · simp [hother _ heq, hnone, hmore]
  | case9 base name names hopen hname hup hslash hsize target hlink =>
      rw [followNames_write_step (hstill hopen)
        ⟨hname, hup⟩ (Nat.not_lt.mp hsize) (by simpa using hslash),
        hother _ fun heq => hplace.not_link target (heq ▸ hlink), hlink]
  | case10 base name names hopen hname hup hslash hsize target hlink links ih =>
      rw [followNames_write_step (hstill hopen)
        ⟨hname, hup⟩ (Nat.not_lt.mp hsize) (by simpa using hslash),
        hother _ fun heq => hplace.not_link target (heq ▸ hlink), hlink]
      exact ih
  | case11 links base name names hopen hname hup hslash hsize entry hplain hentry ih =>
      rw [followNames_write_step (hstill hopen)
        ⟨hname, hup⟩ (Nat.not_lt.mp hsize) (by simpa using hslash)]
      by_cases heq : base ++ [name] = place
      · rw [heq, hself]
        exact heq ▸ ih
      · rw [hother _ heq, hentry]
        cases entry with
        | link target => exact absurd rfl (hplain target)
        | directory | file bytes => exact ih

/-- A path to write to leads where it led before the file was put. -/
theorem resolveFor_write_set (hplace : fs.IsFilePlace place) :
    (fs.set place (.file bytes)).resolveFor .write path = .ok location ↔
      fs.resolveFor .write path = .ok location := by
  rw [resolveFor_eq_ok, resolveFor_eq_ok, hplace.followNames_write_set]
  rfl

theorem cwdExists_set (hplace : fs.IsFilePlace place) (hcwd : fs.CwdExists) :
    (fs.set place (.file bytes)).CwdExists :=
  fun location hlocation => hplace.directory_set.mpr (hcwd location hlocation)

end IsFilePlace

/-- What has been put where a path leads is read by this path. -/
theorem IsFilePlace.read_set (hplace : fs.IsFilePlace place)
    (hresolve : fs.resolveFor .write path = .ok place) :
    (fs.set place (.file bytes)).read path = .ok bytes :=
  read_of_resolveFor_write hplace.entry?_set_self (hplace.resolveFor_write_set.mpr hresolve)

/-! ### Writing -/

/-- The file that a path leads to cannot be opened to write a content to it: the path leads nowhere
or to a directory, or the medium refuses. -/
inductive Unopened (fs : FileSystem) (medium : Medium) (path : Path) (content : List UInt8) : Prop
  | nowhere (error : OsError) (hresolve : fs.resolveFor .write path = .error error)
  | directory (place : Location) (hresolve : fs.resolveFor .write path = .ok place)
      (hdirectory : fs.entry? place = some .directory)
  | refused (place : Location) (error : OsError) (hresolve : fs.resolveFor .write path = .ok place)
      (hfault : medium.fault? fs place content = some (.unopened error))

/-- The file that a path leads to is opened, and takes no more than the given number of bytes. -/
def BreaksOff (fs : FileSystem) (medium : Medium) (path : Path) (content : List UInt8)
    (taken : Fin content.length) : Prop :=
  ∃ place error, fs.resolveFor .write path = .ok place ∧ fs.entry? place ≠ some .directory ∧
    medium.fault? fs place content = some (.brokenOff taken error)

/-- What writing can leave behind. Where a file has been opened, it is put at a place for a file. -/
inductive Writes (fs : FileSystem) (medium : Medium) (path : Path) (content : List UInt8) :
    Written → Prop
  | unopened (error : OsError) (hunopened : fs.Unopened medium path content) :
      Writes fs medium path content ⟨fs, some error⟩
  | brokenOff (place : Location) (taken : Fin content.length) (error : OsError)
      (hresolve : fs.resolveFor .write path = .ok place) (hplace : fs.IsFilePlace place)
      (hbreaks : fs.BreaksOff medium path content taken) :
      Writes fs medium path content ⟨fs.set place (.file (content.take taken)), some error⟩
  | whole (place : Location) (hresolve : fs.resolveFor .write path = .ok place)
      (hplace : fs.IsFilePlace place) :
      Writes fs medium path content ⟨fs.set place (.file content), none⟩

theorem writes_write (hcwd : fs.CwdExists) (medium : Medium) (path : Path) (content : List UInt8) :
    fs.Writes medium path content (fs.write medium path content) := by
  unfold write
  split
  next error hresolve => exact .unopened error (.nowhere error hresolve)
  next place hresolve =>
    split
    next hdirectory => exact .unopened _ (.directory place hresolve hdirectory)
    next hdirectory =>
      have hplace : fs.IsFilePlace place :=
        ⟨hdirectory, (stands_of_resolveFor hcwd hresolve).not_link⟩
      split
      next error hfault => exact .unopened error (.refused place error hresolve hfault)
      next taken error hfault =>
        exact .brokenOff place taken error hresolve hplace
          ⟨place, error, hresolve, hdirectory, hfault⟩
      next => exact .whole place hresolve hplace

/-- Either nothing has changed, or a file has been put where the path leads. -/
theorem Writes.fs_eq {written : Written} (hwrites : fs.Writes medium path content written) :
    written.fs = fs ∨ ∃ place bytes, fs.resolveFor .write path = .ok place ∧
      fs.IsFilePlace place ∧ written.fs = fs.set place (.file bytes) := by
  cases hwrites with
  | unopened => exact .inl rfl
  | brokenOff place taken error hresolve hplace => exact .inr ⟨place, _, hresolve, hplace, rfl⟩
  | whole place hresolve hplace => exact .inr ⟨place, _, hresolve, hplace, rfl⟩

/-- Nothing changes but what stands where the path leads. -/
theorem entry?_write (hcwd : fs.CwdExists) (hother : fs.resolveFor .write path ≠ .ok location) :
    FileSystem.entry? (fs.write medium path content).fs location = fs.entry? location := by
  obtain heq | ⟨place, bytes, hresolve, hplace, heq⟩ := (writes_write hcwd medium path content).fs_eq
  · rw [heq]
  · rw [heq, entry?_set hplace.ne_root, if_neg]
    rintro rfl
    exact hother hresolve

/-- A path to write to leads where it led before something else was written. -/
theorem resolveFor_write_write (hcwd : fs.CwdExists) :
    (fs.write medium path content).fs.resolveFor .write otherPath = .ok location ↔
      fs.resolveFor .write otherPath = .ok location := by
  obtain heq | ⟨place, bytes, -, hplace, heq⟩ := (writes_write hcwd medium path content).fs_eq
  · rw [heq]
  · rw [heq]
    exact hplace.resolveFor_write_set

theorem cwdExists_write (hcwd : fs.CwdExists) : (fs.write medium path content).fs.CwdExists := by
  obtain heq | ⟨place, bytes, -, hplace, heq⟩ := (writes_write hcwd medium path content).fs_eq
  · rwa [heq]
  · rw [heq]
    exact hplace.cwdExists_set hcwd

/-- If the file is not opened, nothing changes. -/
theorem write_of_unopened (hunopened : fs.Unopened medium path content) :
    (fs.write medium path content).fs = fs ∧ (fs.write medium path content).error? ≠ none := by
  unfold write
  cases hunopened with
  | nowhere error hresolve => simp [hresolve]
  | directory place hresolve hdirectory => simp [hresolve, hdirectory]
  | refused place error hresolve hfault =>
      simp only [hresolve, hfault]
      split <;> simp

theorem write_of_brokenOff {taken : Fin content.length} {error : OsError}
    (hresolve : fs.resolveFor .write path = .ok place)
    (hdirectory : fs.entry? place ≠ some .directory)
    (hfault : medium.fault? fs place content = some (.brokenOff taken error)) :
    fs.write medium path content = ⟨fs.set place (.file (content.take taken)), some error⟩ := by
  simp only [write, hresolve, if_neg hdirectory, hfault]

theorem write_of_faultless (hresolve : fs.resolveFor .write path = .ok place)
    (hdirectory : fs.entry? place ≠ some .directory)
    (hfault : medium.fault? fs place content = none) :
    fs.write medium path content = ⟨fs.set place (.file content), none⟩ := by
  simp only [write, hresolve, if_neg hdirectory, hfault]

/-- If writing breaks off, the file holds what it has taken. -/
theorem write_of_breaksOff {taken : Fin content.length} (hcwd : fs.CwdExists)
    (hbreaks : fs.BreaksOff medium path content taken) :
    (fs.write medium path content).fs.read path = .ok (content.take taken) ∧
    (fs.write medium path content).error? ≠ none := by
  obtain ⟨place, error, hresolve, hdirectory, hfault⟩ := hbreaks
  have hplace : fs.IsFilePlace place := ⟨hdirectory, (stands_of_resolveFor hcwd hresolve).not_link⟩
  rw [write_of_brokenOff hresolve hdirectory hfault]
  exact ⟨hplace.read_set hresolve, Option.some_ne_none _⟩

/-- Nothing else makes writing fail. -/
theorem write_failed (hcwd : fs.CwdExists)
    (hfailed : (fs.write medium path content).error? ≠ none) :
    fs.Unopened medium path content ∨ ∃ taken, fs.BreaksOff medium path content taken := by
  have hwrites := writes_write hcwd medium path content
  generalize fs.write medium path content = written at hfailed hwrites
  cases hwrites with
  | unopened error hunopened => exact .inl hunopened
  | brokenOff place taken error _ _ hbreaks => exact .inr ⟨taken, hbreaks⟩
  | whole => exact absurd rfl hfailed

/-- What has been written is read back. -/
theorem read_write (hcwd : fs.CwdExists) (hdone : (fs.write medium path content).error? = none) :
    (fs.write medium path content).fs.read path = .ok content := by
  have hwrites := writes_write hcwd medium path content
  generalize fs.write medium path content = written at hdone hwrites ⊢
  cases hwrites with
  | whole place hresolve hplace => exact hplace.read_set hresolve
  | unopened | brokenOff => cases hdone

/-- What has been written is read back after a file at another place has been written, or not been
written. -/
theorem read_write_write (hcwd : fs.CwdExists)
    (hdone : (fs.write medium path content).error? = none)
    (hother : fs.resolveFor .write otherPath ≠ fs.resolveFor .write path) :
    ((fs.write medium path content).fs.write medium otherPath otherContent).fs.read path =
      .ok content := by
  have hwrites := writes_write hcwd medium path content
  have hnext : (fs.write medium path content).fs.CwdExists := cwdExists_write hcwd
  generalize fs.write medium path content = written at hdone hwrites hnext ⊢
  cases hwrites with
  | unopened | brokenOff => cases hdone
  | whole place hresolve hplace =>
      have hkept : FileSystem.entry?
          ((fs.set place (.file content)).write medium otherPath otherContent).fs place =
            some (.file content) := by
        rw [← hplace.entry?_set_self]
        apply entry?_write hnext
        rw [ne_eq, hplace.resolveFor_write_set, ← hresolve]
        exact hother
      apply read_of_resolveFor_write hkept
      rw [resolveFor_write_write hnext, hplace.resolveFor_write_set, hresolve]

end OberonImports.FileSystem
