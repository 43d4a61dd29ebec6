import Mathlib.Data.List.Induction
import OberonImports.Proofs.FileSystem.Leads

/-!
# Removing files

Where files are removed, everything else stays where it stands. A path that leads to something else
leads there still, since nothing on its way is a file, and a directory holds what is left in the
same order.
-/

namespace OberonImports.FileSystem

open Lookup

variable {fs rest : FileSystem} {gone : List Location} {location base : Location}
  {path : Path} {names : List FileName} {links : Nat}

/-- One file system is another without the files at some locations. -/
structure Without (fs : FileSystem) (gone : List Location) (rest : FileSystem) : Prop where
  cwd : rest.cwd = fs.cwd
  file : ∀ location ∈ gone, ∃ bytes, fs.entry? location = some (.file bytes)
  entry : ∀ location, rest.entry? location = if location ∈ gone then none else fs.entry? location

/-- The file system without what stands at some locations. -/
def eraseAll (fs : FileSystem) (gone : List Location) : FileSystem := gone.foldl erase fs

theorem entry?_erase (hne : location ≠ []) (other : Location) :
    entry? (fs.erase location) other = if other = location then none else fs.entry? other := by
  cases other with
  | nil => rw [if_neg hne.symm]; rfl
  | cons name names =>
      change (fs.erase location).entries.lookup (name :: names) = _
      apply Option.ext
      intro entry
      rw [lookup_eq_some (fs.erase location).distinct, erase, List.mem_filter,
        ← lookup_eq_some fs.distinct]
      by_cases heq : name :: names = location
      · simp [heq]
      · simp only [heq, if_false, ne_eq, not_false_eq_true, decide_true, and_true]
        rfl

namespace Without

theorem refl (fs : FileSystem) : Without fs [] fs := ⟨rfl, by simp, by simp⟩

/-- One more file is removed. -/
theorem erase {bytes : List UInt8} (hwithout : Without fs gone rest)
    (hfile : fs.entry? location = some (.file bytes)) :
    Without fs (gone ++ [location]) (rest.erase location) where
  cwd := hwithout.cwd
  file := by
    intro other hother
    rcases List.mem_append.mp hother with hgone | hlast
    · exact hwithout.file other hgone
    · exact ⟨bytes, List.mem_singleton.mp hlast ▸ hfile⟩
  entry := by
    intro other
    have hne : location ≠ [] := by
      rintro rfl
      cases hfile
    rw [entry?_erase hne, hwithout.entry]
    by_cases hlast : other = location <;> simp [hlast]

/-- By induction from the last file removed. -/
theorem eraseAll (hfile : ∀ location ∈ gone, ∃ bytes, fs.entry? location = some (.file bytes)) :
    Without fs gone (fs.eraseAll gone) := by
  induction gone using List.reverseRecOn with
  | nil => exact refl fs
  | append_singleton gone location ih =>
      rw [FileSystem.eraseAll, List.foldl_append]
      obtain ⟨bytes, hlast⟩ := hfile location (by simp)
      exact (ih fun other hother => hfile other (by simp [hother])).erase hlast

theorem entry_of_kept (hwithout : Without fs gone rest) (hkept : location ∉ gone) :
    rest.entry? location = fs.entry? location := by
  rw [hwithout.entry, if_neg hkept]

/-- Nothing but files is removed. -/
theorem not_gone (hwithout : Without fs gone rest)
    (hother : ∀ bytes, fs.entry? location ≠ some (.file bytes)) : location ∉ gone := by
  intro hgone
  obtain ⟨bytes, hfile⟩ := hwithout.file location hgone
  exact hother bytes hfile

theorem not_gone_of_directory (hwithout : Without fs gone rest)
    (hdirectory : fs.entry? location = some .directory) : location ∉ gone :=
  hwithout.not_gone (by simp [hdirectory])

theorem directory (hwithout : Without fs gone rest)
    (hdirectory : fs.entry? location = some .directory) :
    rest.entry? location = some .directory := by
  rw [hwithout.entry_of_kept (hwithout.not_gone_of_directory hdirectory), hdirectory]

/-- Names that lead to something kept lead there still: on the way there are only directories and
links. -/
theorem leads (hwithout : Without fs gone rest) (hkept : location ∉ gone)
    (hleads : Leads fs links base names location) : Leads rest links base names location := by
  induction hleads with
  | here => exact .here
  | stay hdirectory hname _ ih => exact .stay (hwithout.directory hdirectory) hname (ih hkept)
  | up hdirectory _ ih => exact .up (hwithout.directory hdirectory) (ih hkept)
  | @down links base location name names entry hdirectory hname hsize hentry hplain hrest ih =>
      have hbelow : base ++ [name] ∉ gone := by
        -- A file can only be the end of the way, and the end is kept.
        rcases hrest.eq_or_directory with rfl | hnext
        · exact hkept
        · exact hwithout.not_gone_of_directory hnext
      exact .down (hwithout.directory hdirectory) hname hsize
        ((hwithout.entry_of_kept hbelow).trans hentry) hplain (ih hkept)
  | @link links base location name target names hdirectory hname hsize hentry _ ih =>
      have hbelow : base ++ [name] ∉ gone := hwithout.not_gone (by simp [hentry])
      exact .link (hwithout.directory hdirectory) hname hsize
        ((hwithout.entry_of_kept hbelow).trans hentry) (ih hkept)

theorem resolve (hwithout : Without fs gone rest) (hkept : location ∉ gone)
    (hresolve : fs.resolve path = .ok location) : rest.resolve path = .ok location := by
  obtain ⟨hnul, hne, hsize, hleads⟩ := resolve_eq_ok.mp hresolve
  exact resolve_eq_ok.mpr ⟨hnul, hne, hsize, hwithout.cwd ▸ hwithout.leads hkept hleads⟩

/-- A directory holds what is left in the same order. -/
theorem children (hwithout : Without fs gone rest) (directory : Location) :
    rest.children directory = (fs.children directory).filter (directory ++ [·] ∉ gone) := by
  apply (rest.pairwise_children directory).eq_of_mem_iff ((fs.pairwise_children directory).filter _)
  intro name
  simp only [List.mem_filter, mem_children, hwithout.entry, decide_eq_true_eq]
  split
  next hgone => simp [hgone]
  next hkept => simp [hkept]

end Without

end OberonImports.FileSystem
