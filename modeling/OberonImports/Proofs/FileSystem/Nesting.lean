import Mathlib.Algebra.Order.BigOperators.Group.List
import OberonImports.Proofs.FileSystem.Leads
import OberonImports.Proofs.FileSystem.Obstacle

/-!
# Directories below themselves

A walk compares what a link leads to with the directories in which it stands, but not what it finds
without a link. So it can enter a directory below itself, through a link to a directory further up.
But it does not come to its end then: what leads from a directory back to it can be gone again and
again, while a walk that comes to its end has visited all that can be reached.
-/

namespace OberonImports.FileSystem

variable {fs : FileSystem} {links more : Nat} {base location found : Location}
  {root path : Path} {name : FileName}
  {names front rest place upper elsewhere : List FileName}
  {directory next visit ancestor first second last : Visit}

/-- All names in locations are names that files can have: they are not empty, hold no slash and are
neither `.` nor `..`. -/
def WellNamed (fs : FileSystem) : Prop :=
  ∀ entry ∈ fs.entries, ∀ name ∈ entry.1, IsFileName name

theorem WellNamed.isFileName {entry : Entry} (hnamed : fs.WellNamed)
    (hentry : fs.entry? (location ++ [name]) = some entry) : IsFileName name := by
  rw [entry?_concat] at hentry
  obtain ⟨pair, hpair, hlocation⟩ := List.mem_map.mp (Lookup.mem_keys_of_lookup hentry)
  apply hnamed pair hpair name
  rw [hlocation]
  simp

/-! ### Links that may be followed -/

/-- What names lead to they lead to with more links that may be followed. -/
theorem Leads.mono (hleads : Leads fs links base names location) (hle : links ≤ more) :
    Leads fs more base names location := by
  induction hleads generalizing more with
  | here => exact .here
  | stay hdirectory hname _ ih => exact .stay hdirectory hname (ih hle)
  | up hdirectory _ ih => exact .up hdirectory (ih hle)
  | down hdirectory hname hsize hentry hplain _ ih =>
      exact .down hdirectory hname hsize hentry hplain (ih hle)
  | link hdirectory hname hsize hentry _ ih =>
      obtain ⟨left, rfl⟩ := Nat.exists_eq_succ_of_ne_zero (Nat.ne_zero_of_lt hle)
      exact .link hdirectory hname hsize hentry (ih (Nat.le_of_succ_le_succ hle))

/-- Names lead to one location at most, however many links may be followed. -/
theorem Leads.unique (hleads : Leads fs links base names location)
    (hother : Leads fs more base names found) : location = found := by
  have hmax := followNames_eq_ok.mpr (hleads.mono (Nat.le_max_left links more))
  have hmax' := followNames_eq_ok.mpr (hother.mono (Nat.le_max_right links more))
  exact Except.ok.inj (hmax.symm.trans hmax')

/-- What a path joined to that of an open directory leads to is where the name leads from there. -/
theorem exists_leads_of_resolve_join (hopen : fs.resolve path = .ok location)
    (hname : Path.IsEntryName name) (hresolve : fs.resolve (Path.join path name) = .ok found) :
    ∃ left, Leads fs left location [name] found := by
  obtain ⟨-, hne, -, -⟩ := resolve_eq_ok.mp hopen
  obtain ⟨-, -, -, hleads⟩ := resolve_eq_ok.mp hresolve
  rw [isAbsolute_join hne hname] at hleads
  obtain ⟨left, hleft⟩ := followNames_join hopen hname
  exact ⟨left, followNames_eq_ok.mp (hleft ▸ followNames_eq_ok.mpr hleads)⟩

/-! ### What is reached from a place -/

/-- What is reached through a last name is held by what is reached before. -/
theorem held_of_reachedFrom (hreached : fs.reachedFrom? root (place ++ [name]) = some visit) :
    ∃ directory, fs.reachedFrom? root place = some directory ∧
      fs.entry? directory.location = some .directory ∧
      fs.held? directory name = some visit := by
  obtain ⟨location, hresolve, hreached⟩ := exists_reached_of_reachedFrom hreached
  rw [reached?_append, Option.bind_eq_some_iff] at hreached
  obtain ⟨directory, hdirectory, hlast⟩ := hreached
  obtain ⟨next, hheld, hnext⟩ := held_of_reached hlast
  cases hnext
  refine ⟨directory, ?_, directory_of_reached_cons hlast, hheld⟩
  rw [reachedFrom?_of_resolve hresolve, hdirectory]

/-! ### Walks that come to their ends -/

/-- In a directory that is reached nothing is in the way of a walk that comes to its end. -/
theorem exists_obstacle?_eq_none (hstop : (fs.walk root).stop = none)
    (hreached : fs.reachedFrom? root place = some directory)
    (hdirectory : fs.entry? directory.location = some .directory) (name : FileName) :
    ∃ trail, fs.obstacle? directory trail name = none := by
  obtain ⟨trail, -, hobstacle⟩ := exists_trail_from hreached hdirectory
  exact ⟨trail, (hobstacle name).symm.trans (obstacleFrom?_eq_none hstop _)⟩

/-- So every directory that is reached is found by its path. By induction on the way from its
end. -/
theorem resolve_of_reachedFrom (hnamed : fs.WellNamed) (hstop : (fs.walk root).stop = none)
    (hreached : fs.reachedFrom? root place = some visit)
    (hvisit : fs.entry? visit.location = some .directory) :
    fs.resolve visit.path = .ok visit.location := by
  induction place using List.reverseRecOn generalizing visit with
  | nil =>
      obtain ⟨location, hresolve, hroot⟩ := exists_reached_of_reachedFrom hreached
      cases hroot
      exact hresolve
  | append_singleton place name ih =>
      obtain ⟨directory, hplace, hdirectory, hheld⟩ := held_of_reachedFrom hreached
      have hopen := ih hplace hdirectory
      obtain ⟨trail, hclear⟩ := exists_obstacle?_eq_none hstop hplace hdirectory name
      obtain ⟨entry, hentry⟩ := entry_of_held hheld
      have hname := hnamed.isFileName hentry
      cases entry with
      | file bytes =>
          rw [held?_of_file hentry] at hheld
          cases hheld
          rw [hentry] at hvisit
          cases hvisit
      | directory =>
          rw [held?_of_directory hentry] at hheld
          cases hheld
          cases hresolve : fs.resolve (Path.join directory.path name) with
          | error cause =>
              rw [obstacle?_of_closed hentry hresolve] at hclear
              cases hclear
          | ok found =>
              have hfound := resolve_join hopen hdirectory hname hentry (by simp)
              rw [hresolve] at hfound
              rw [eq_of_openBelow hfound.symm]
      | link target =>
          rw [path_of_held hheld]
          exact resolve_of_held hentry hheld

/-- What is held by a directory under a name is held by it wherever else it is reached. -/
theorem exists_held_of_same (hnamed : fs.WellNamed) (hstop : (fs.walk root).stop = none)
    (hfirst : fs.reachedFrom? root place = some first)
    (hsecond : fs.reachedFrom? root elsewhere = some second)
    (hsame : second.location = first.location)
    (hdirectory : fs.entry? first.location = some .directory)
    (hheld : fs.held? first name = some next) :
    ∃ other, fs.held? second name = some other ∧ other.location = next.location := by
  have hopen := resolve_of_reachedFrom hnamed hstop hfirst hdirectory
  have hdirectory' : fs.entry? second.location = some .directory := hsame ▸ hdirectory
  have hopen' := resolve_of_reachedFrom hnamed hstop hsecond hdirectory'
  obtain ⟨entry, hentry⟩ := entry_of_held hheld
  have hname := hnamed.isFileName hentry
  have hentry' : fs.entry? (second.location ++ [name]) = some entry := hsame ▸ hentry
  cases entry with
  | file bytes =>
      rw [held?_of_file hentry] at hheld
      cases hheld
      exact ⟨_, held?_of_file hentry', by rw [hsame]⟩
  | directory =>
      rw [held?_of_directory hentry] at hheld
      cases hheld
      exact ⟨_, held?_of_directory hentry', by rw [hsame]⟩
  | link target =>
      obtain ⟨trail, hclear⟩ := exists_obstacle?_eq_none hstop hsecond hdirectory' name
      have hresolve := resolve_of_held hentry hheld
      cases hother : fs.resolve (Path.join second.path name) with
      | error cause =>
          rw [obstacle?_of_lost hentry' hother] at hclear
          cases hclear
      | ok found =>
          refine ⟨_, held?_of_link hentry' hother, ?_⟩
          obtain ⟨left, hleads⟩ := exists_leads_of_resolve_join hopen hname.1 hresolve
          obtain ⟨more, hmore⟩ := exists_leads_of_resolve_join hopen' hname.1 hother
          exact (hsame ▸ hmore).unique hleads

/-- What is reached from a directory is reached from it wherever else it is reached itself. -/
theorem exists_reachedFrom_of_same (hnamed : fs.WellNamed) (hstop : (fs.walk root).stop = none)
    (hfirst : fs.reachedFrom? root place = some first)
    (hsecond : fs.reachedFrom? root elsewhere = some second)
    (hsame : second.location = first.location)
    (hlast : fs.reached? first rest = some last) :
    ∃ other, fs.reachedFrom? root (elsewhere ++ rest) = some other ∧
      other.location = last.location := by
  induction rest generalizing first second place elsewhere with
  | nil =>
      cases hlast
      exact ⟨second, by simpa using hsecond, hsame⟩
  | cons name rest ih =>
      have hdirectory := directory_of_reached_cons hlast
      obtain ⟨next, hheld, hrest⟩ := held_of_reached hlast
      obtain ⟨other, hother, hlocation⟩ :=
        exists_held_of_same hnamed hstop hfirst hsecond hsame hdirectory hheld
      have hnext : fs.reachedFrom? root (place ++ [name]) = some next :=
        (reachedFrom?_append hfirst [name]).trans (reached?_cons hdirectory hheld)
      have hotherNext : fs.reachedFrom? root (elsewhere ++ [name]) = some other :=
        (reachedFrom?_append hsecond [name]).trans (reached?_cons (hsame ▸ hdirectory) hother)
      rw [List.append_cons]
      exact ih hnext hotherNext hlocation hrest

/-- What leads from a directory back to it can be gone again and again. -/
theorem exists_reachedFrom_again (hnamed : fs.WellNamed) (hstop : (fs.walk root).stop = none)
    (hancestor : fs.reachedFrom? root upper = some ancestor)
    (hback : fs.reached? ancestor rest = some visit) (hsame : visit.location = ancestor.location)
    (count : Nat) :
    ∃ other, fs.reachedFrom? root (upper ++ (List.replicate count rest).flatten) = some other ∧
      other.location = ancestor.location := by
  induction count with
  | zero => exact ⟨ancestor, by simpa using hancestor, rfl⟩
  | succ count ih =>
      obtain ⟨other, hother, hlocation⟩ := ih
      obtain ⟨again, hagain, hlast⟩ :=
        exists_reachedFrom_of_same hnamed hstop hancestor hother hlocation hback
      refine ⟨again, ?_, hlast.trans hsame⟩
      rwa [List.replicate_succ', List.flatten_concat, ← List.append_assoc]

/-- A walk that comes to its end has entered no directory below itself. -/
theorem location_ne_of_prefix (hnamed : fs.WellNamed) (hstop : (fs.walk root).stop = none)
    (hupper : upper <+: place) (hne : upper ≠ place)
    (hancestor : fs.reachedFrom? root upper = some ancestor)
    (hvisit : fs.reachedFrom? root place = some visit) :
    visit.location ≠ ancestor.location := by
  intro hsame
  obtain ⟨rest, rfl⟩ := hupper
  rw [reachedFrom?_append hancestor] at hvisit
  have hrest : 0 < rest.length := by
    apply List.length_pos_of_ne_nil
    rintro rfl
    exact hne (List.append_nil upper).symm
  -- A place as deep as this one is reached, but no place of a walk that ends is.
  obtain ⟨places, -, -, hcomplete⟩ := exists_places_walk hstop
  let depth := (places.map List.length).sum + 1
  obtain ⟨other, hother, -⟩ := exists_reachedFrom_again hnamed hstop hancestor hvisit hsame depth
  have hplace := (hcomplete _).mpr ⟨other, hother⟩
  have hle := List.le_sum_of_mem (List.mem_map_of_mem (f := List.length) hplace)
  have hdepth : depth ≤ depth * rest.length := Nat.le_mul_of_pos_right depth hrest
  simp only [List.length_append, List.length_flatten, List.map_replicate,
    List.sum_replicate_nat] at hle
  omega

end OberonImports.FileSystem
