import OberonImports.Graph.Component
import OberonImports.Proofs.Graph.Reachability
import OberonImports.Proofs.Lookup

/-!
# The search for components

While the search follows the edges of a node, everything on its stack leads to that node, and what
was put on the stack since then is reached from it. An edge from there leads to a node whose class
is known or to one on the stack whose number is not below the lowest number found. So if no number
below the node's own was found, the node and what lies above it on the stack reach each other, and
no edge leaves them but to classes that are known.
-/

namespace OberonImports.Graph.Search

open Lookup

variable {graph : Graph} {fresh targets : List String} {source target name : String}
  {low lower number reached : Nat} {search later inner : Search}

/-- The nodes that have a number, newest first. -/
def discovered (search : Search) : List String := keys search.numbers

/-- The number of a node. -/
def numberOf (search : Search) (name : String) : Nat := (search.numbers.lookup name).getD 0

/-- The nodes whose class is known. -/
def classified (search : Search) : List String := search.classes.flatten

/-- The class of a node is known, or the node is on the stack and its number is not below `low`. -/
def Seen (search : Search) (low : Nat) (name : String) : Prop :=
  name ∈ search.classified ∨ name ∈ search.stack ∧ low ≤ search.numberOf name

/-- What holds between any two steps of the search. -/
structure Sound (graph : Graph) (search : Search) : Prop where
  nodup : search.discovered.Nodup
  perm : (search.classified ++ search.stack).Perm search.discovered
  number_lt : ∀ name ∈ search.discovered, search.numberOf name < search.next
  descending : search.stack.Pairwise fun upper lower =>
    search.numberOf lower < search.numberOf upper
  closed : ∀ name ∈ search.classified, ∀ target, graph.Edge name target →
    target ∈ search.classified
  mem_class : ∀ members ∈ search.classes, ∀ name ∈ members, ∀ other,
    other ∈ members ↔ graph.Reaches name other ∧ graph.Reaches other name
  class_ne_nil : ∀ members ∈ search.classes, members ≠ []

/-- The names outside `fresh` are on a path that ends at `source`. They are on the stack, and all
that is on the stack leads to `source`. -/
structure PathTo (graph : Graph) (fresh : List String) (source : String) (search : Search) :
    Prop where
  on_stack : ∀ name ∈ graph.names, name ∉ fresh → name ∈ search.stack
  reaches : ∀ name ∈ search.stack, graph.Reaches name source

/-- Nothing that was found is lost. -/
structure Grown (search later : Search) : Prop where
  numbers : search.numbers <:+ later.numbers
  stack : search.stack <:+ later.stack
  classified : search.classified ⊆ later.classified

/-- A node on the stack that `source` leads to has the number `low`. -/
def LowReached (graph : Graph) (source : String) (low : Nat) (search : Search) : Prop :=
  ∃ name ∈ search.stack, search.numberOf name = low ∧ graph.Reaches source name

/-- What following the edges of `source` to the `targets` has done to a search. -/
structure Followed (graph : Graph) (fresh : List String) (source : String) (targets : List String)
    (low : Nat) (search : Search) (result : Nat × Search) : Prop where
  sound : Sound graph result.2
  path : PathTo graph fresh source result.2
  grown : Grown search result.2
  low_le : result.1 ≤ low
  low_reached : LowReached graph source result.1 result.2
  target_seen : ∀ target ∈ targets, result.2.Seen result.1 target
  above_reached : ∀ name ∈ result.2.stack, name ∉ search.stack → graph.Reaches source name
  above_seen : ∀ name ∈ result.2.stack, name ∉ search.stack → ∀ target, graph.Edge name target →
    result.2.Seen result.1 target

namespace Sound

theorem mem_discovered (hsound : Sound graph search) :
    name ∈ search.discovered ↔ name ∈ search.classified ∨ name ∈ search.stack := by
  rw [← hsound.perm.mem_iff, List.mem_append]

theorem nodup_append (hsound : Sound graph search) :
    (search.classified ++ search.stack).Nodup :=
  hsound.perm.nodup_iff.mpr hsound.nodup

theorem not_mem_stack (hsound : Sound graph search) (hname : name ∈ search.classified) :
    name ∉ search.stack :=
  fun hstack => (List.nodup_append.mp hsound.nodup_append).2.2 name hname name hstack rfl

theorem numberOf_eq (hsound : Sound graph later) (hgrown : Grown search later)
    (hname : name ∈ search.discovered) : later.numberOf name = search.numberOf name :=
  getD_lookup_of_suffix hsound.nodup hgrown.numbers hname 0

theorem start : Sound graph start where
  nodup := List.nodup_nil
  perm := List.Perm.refl _
  number_lt := by simp [discovered, Search.start]
  descending := List.Pairwise.nil
  closed := by simp [classified, Search.start]
  mem_class := by simp [Search.start]
  class_ne_nil := by simp [Search.start]

end Sound

theorem Grown.refl : Grown search search :=
  ⟨List.suffix_refl _, List.suffix_refl _, List.Subset.refl _⟩

theorem Grown.trans {middle : Search} (hfirst : Grown search middle)
    (hsecond : Grown middle later) : Grown search later :=
  ⟨hfirst.numbers.trans hsecond.numbers, hfirst.stack.trans hsecond.stack,
    List.Subset.trans hfirst.classified hsecond.classified⟩

/-- What was seen stays seen when the search goes on and the bound falls. -/
theorem Seen.grown (hsearch : Sound graph search) (hlater : Sound graph later)
    (hgrown : Grown search later) (hle : lower ≤ low) (hseen : search.Seen low name) :
    later.Seen lower name := by
  rcases hseen with hclassified | ⟨hstack, hlow⟩
  · exact .inl (hgrown.classified hclassified)
  · have hnumber := hlater.numberOf_eq hgrown (hsearch.mem_discovered.mpr (.inr hstack))
    exact .inr ⟨hgrown.stack.subset hstack, by omega⟩

theorem numberOf_discover_self : (search.discover target).numberOf target = search.next := by
  simp [numberOf, discover]

theorem numberOf_discover_of_ne (hne : name ≠ target) :
    (search.discover target).numberOf name = search.numberOf name := by
  simp [numberOf, discover, List.lookup_cons, beq_false_of_ne hne]

theorem LowReached.discover :
    LowReached graph target search.next (search.discover target) :=
  ⟨target, List.mem_cons_self, numberOf_discover_self, Reaches.refl⟩

theorem Grown.discover : Grown search (search.discover target) :=
  ⟨List.suffix_cons _ _, List.suffix_cons _ _, List.Subset.refl _⟩

/-- Discovering a node gives it the highest number and puts it on the stack. -/
theorem Sound.discover (hsound : Sound graph search) (hnew : target ∉ search.discovered) :
    Sound graph (search.discover target) := by
  have hsame : ∀ name ∈ search.discovered,
      (search.discover target).numberOf name = search.numberOf name :=
    fun name hname => numberOf_discover_of_ne fun heq => hnew (heq ▸ hname)
  have hstack : ∀ name ∈ search.stack, name ∈ search.discovered :=
    fun name hname => hsound.mem_discovered.mpr (.inr hname)
  exact {
    nodup := List.nodup_cons.mpr ⟨hnew, hsound.nodup⟩
    perm := List.perm_middle.trans (hsound.perm.cons target)
    number_lt := by
      have hnext : (search.discover target).next = search.next + 1 := by
        simp [next, Search.discover]
      rw [hnext]
      refine List.forall_mem_cons.mpr ⟨?_, fun name hname => ?_⟩
      · rw [numberOf_discover_self]
        exact Nat.lt_succ_self _
      · rw [hsame name hname]
        exact (hsound.number_lt name hname).trans (Nat.lt_succ_self _)
    descending := by
      refine List.pairwise_cons.mpr ⟨fun name hname => ?_, ?_⟩
      · rw [numberOf_discover_self, hsame name (hstack name hname)]
        exact hsound.number_lt name (hstack name hname)
      · apply hsound.descending.imp_of_mem
        intro upper lower hupper hlower hlt
        rwa [hsame _ (hstack _ hupper), hsame _ (hstack _ hlower)]
    closed := hsound.closed
    mem_class := hsound.mem_class
    class_ne_nil := hsound.class_ne_nil }

theorem PathTo.discover (hpath : PathTo graph fresh source search)
    (hedge : graph.Edge source target) :
    PathTo graph (fresh.erase target) target (search.discover target) where
  on_stack := by
    intro name hname hnot
    by_cases heq : name = target
    · exact heq ▸ List.mem_cons_self
    · have hopen : name ∉ fresh := fun hmem => hnot ((List.mem_erase_of_ne heq).mpr hmem)
      exact List.mem_cons_of_mem _ (hpath.on_stack name hname hopen)
  reaches := by
    refine List.forall_mem_cons.mpr ⟨Reaches.refl, fun name hname => ?_⟩
    exact (hpath.reaches name hname).trans hedge.reaches

/-- Closing a node takes it and what lies above it from the stack. -/
theorem close_eq {upper below : List String} (hstack : search.stack = upper ++ target :: below)
    (hnot : target ∉ upper) :
    search.close target =
      { search with stack := below, classes := (upper ++ [target]) :: search.classes } := by
  have hupper : ∀ name ∈ upper, decide (name ≠ target) = true :=
    fun name hname => decide_eq_true fun heq => hnot (heq ▸ hname)
  unfold close
  rw [hstack, List.dropWhile_append_of_pos hupper, List.takeWhile_append_of_pos hupper]
  simp

/-! ## The return from a node -/

/-- The search comes back from a node that it discovered, with all edges of the node followed. -/
structure Returned (graph : Graph) (fresh : List String) (target : String) (search : Search)
    (result : Nat × Search) : Prop where
  before : Sound graph search
  new : target ∉ search.discovered
  followed : Followed graph fresh target (graph.successors target) search.next
    (search.discover target) result

namespace Returned

/-- What lies on the stack now lies above what was there before the node. -/
theorem exists_upper (hreturned : Returned graph fresh target search (reached, inner)) :
    ∃ upper, inner.stack = upper ++ target :: search.stack := by
  obtain ⟨upper, hupper⟩ := hreturned.followed.grown.stack
  exact ⟨upper, hupper.symm⟩

theorem grown (hreturned : Returned graph fresh target search (reached, inner)) :
    Grown search inner :=
  Grown.discover.trans hreturned.followed.grown

theorem target_mem (hreturned : Returned graph fresh target search (reached, inner)) :
    target ∈ inner.stack :=
  hreturned.followed.grown.stack.subset List.mem_cons_self

theorem target_not_mem (hreturned : Returned graph fresh target search (reached, inner)) :
    target ∉ search.stack :=
  fun hstack => hreturned.new (hreturned.before.mem_discovered.mpr (.inr hstack))

theorem numberOf_target (hreturned : Returned graph fresh target search (reached, inner)) :
    inner.numberOf target = search.next := by
  rw [hreturned.followed.sound.numberOf_eq hreturned.followed.grown List.mem_cons_self,
    numberOf_discover_self]

theorem numberOf_old (hreturned : Returned graph fresh target search (reached, inner))
    (hname : name ∈ search.stack) :
    inner.numberOf name = search.numberOf name :=
  hreturned.followed.sound.numberOf_eq hreturned.grown
    (hreturned.before.mem_discovered.mpr (.inr hname))

/-- Nodes on the stack are old or have no lower number than the node returned from. -/
theorem mem_stack_iff (hreturned : Returned graph fresh target search (reached, inner))
    (hname : name ∈ inner.stack) : name ∈ search.stack ↔ inner.numberOf name < search.next := by
  constructor
  · intro hold
    rw [hreturned.numberOf_old hold]
    exact hreturned.before.number_lt name (hreturned.before.mem_discovered.mpr (.inr hold))
  · intro hlt
    obtain ⟨upper, hstack⟩ := hreturned.exists_upper
    -- Numbers fall from the top of the stack, so what is above the node has a higher one.
    have hdescending := hreturned.followed.sound.descending
    rw [hstack] at hname hdescending
    rw [← hreturned.numberOf_target] at hlt
    rcases List.mem_append.mp hname with hupper | hlower
    · have hgt := (List.pairwise_append.mp hdescending).2.2 name hupper target List.mem_cons_self
      exact absurd hlt hgt.asymm
    · rcases List.mem_cons.mp hlower with rfl | hold
      · exact absurd hlt (lt_irrefl _)
      · exact hold

theorem reaches (hreturned : Returned graph fresh target search (reached, inner))
    (hname : name ∈ inner.stack) (hnew : name ∉ search.stack) : graph.Reaches target name := by
  by_cases heq : name = target
  · exact heq ▸ Reaches.refl
  · apply hreturned.followed.above_reached name hname
    intro hmem
    exact (List.mem_cons.mp hmem).elim heq hnew

theorem seen (hreturned : Returned graph fresh target search (reached, inner))
    (hname : name ∈ inner.stack) (hnew : name ∉ search.stack) {next : String}
    (hedge : graph.Edge name next) : inner.Seen reached next := by
  by_cases heq : name = target
  · subst heq
    exact hreturned.followed.target_seen next (mem_successors.mpr hedge)
  · refine hreturned.followed.above_seen name hname (fun hmem => ?_) next hedge
    exact (List.mem_cons.mp hmem).elim heq hnew

/-- If a lower number was found, the node stays on the stack, and it leads to the path. -/
theorem keep (hreturned : Returned graph (fresh.erase target) target search (reached, inner))
    (hpath : PathTo graph fresh source search) (hedge : graph.Edge source target)
    (hlow : LowReached graph source low search)
    (hkept : reached < search.next) :
    Followed graph fresh source [target] low search (min low reached, inner) := by
  have hgrown := hreturned.grown
  have hfollowed := hreturned.followed
  obtain ⟨base, hbase, hnumber, hreach⟩ := hfollowed.low_reached
  have hbelow : base ∈ search.stack := (hreturned.mem_stack_iff hbase).mpr (hnumber.trans_lt hkept)
  exact {
    sound := hfollowed.sound
    path := {
      on_stack := fun name hname hopen => hgrown.stack.subset (hpath.on_stack name hname hopen)
      reaches := fun name hname =>
        (hfollowed.path.reaches name hname).trans (hreach.trans (hpath.reaches base hbelow)) }
    grown := hgrown
    low_le := min_le_left _ _
    low_reached := by
      -- Either number is that of a node that `source` leads to.
      rcases le_total low reached with hle | hle
      · obtain ⟨name, hname, heq, hname'⟩ := hlow
        refine ⟨name, hgrown.stack.subset hname, ?_, hname'⟩
        rw [hreturned.numberOf_old hname, heq, min_eq_left hle]
      · exact ⟨base, hbase, by rw [hnumber, min_eq_right hle], hedge.reaches.trans hreach⟩
    target_seen := by
      refine List.forall_mem_singleton.mpr (.inr ⟨hreturned.target_mem, ?_⟩)
      rw [hreturned.numberOf_target]
      exact (min_le_right _ _).trans hkept.le
    above_reached := fun name hname hnew =>
      hedge.reaches.trans (hreturned.reaches hname hnew)
    above_seen := fun name hname hnew next hnext =>
      (hreturned.seen hname hnew hnext).grown hfollowed.sound hfollowed.sound Grown.refl
        (min_le_right _ _) }

/-- The class that is closed with a node holds what the stack has above the old nodes. -/
theorem exists_close (hreturned : Returned graph fresh target search (reached, inner)) :
    ∃ members, inner.close target =
        { inner with stack := search.stack, classes := members :: inner.classes } ∧
      inner.stack.Perm (members ++ search.stack) ∧
      ∀ name, name ∈ members ↔ name ∈ inner.stack ∧ name ∉ search.stack := by
  obtain ⟨upper, hstack⟩ := hreturned.exists_upper
  have hnodup := (List.nodup_append.mp hreturned.followed.sound.nodup_append).2.1
  have hperm : inner.stack.Perm ((upper ++ [target]) ++ search.stack) := by simp [hstack]
  have hdisjoint := (List.nodup_append.mp (hperm.nodup_iff.mp hnodup)).2.2
  have hnot : target ∉ upper := by
    rw [hstack] at hnodup
    exact fun hmem => (List.nodup_append.mp hnodup).2.2 target hmem target List.mem_cons_self rfl
  refine ⟨upper ++ [target], close_eq hstack hnot, hperm, fun name => ?_⟩
  have hmem : name ∈ inner.stack ↔ name ∈ upper ++ [target] ∨ name ∈ search.stack :=
    hperm.mem_iff.trans List.mem_append
  rw [hmem]
  constructor
  · exact fun hname => ⟨.inl hname, fun hold => hdisjoint name hname name hold rfl⟩
  · exact fun ⟨hname, hnew⟩ => hname.resolve_right hnew

/-- If no lower number was found, the edges of the class lead to the class or to known classes. -/
theorem edge_closed (hreturned : Returned graph fresh target search (reached, inner))
    (hclosed : search.next ≤ reached) (hname : name ∈ inner.stack) (hnew : name ∉ search.stack)
    {next : String} (hedge : graph.Edge name next) :
    next ∈ inner.classified ∨ next ∈ inner.stack ∧ next ∉ search.stack := by
  refine (hreturned.seen hname hnew hedge).imp_right fun ⟨hstack, hle⟩ => ⟨hstack, fun hold => ?_⟩
  have hlt := (hreturned.mem_stack_iff hstack).mp hold
  omega

/-- If no lower number was found, the nodes above the old ones are a class. -/
theorem mem_class_iff (hreturned : Returned graph fresh target search (reached, inner))
    (hclosed : search.next ≤ reached) {other : String} (hname : name ∈ inner.stack)
    (hnew : name ∉ search.stack) :
    other ∈ inner.stack ∧ other ∉ search.stack ↔
      graph.Reaches name other ∧ graph.Reaches other name := by
  have hsound := hreturned.followed.sound
  constructor
  · rintro ⟨hother, hotherNew⟩
    have hpath := hreturned.followed.path
    exact ⟨(hpath.reaches name hname).trans (hreturned.reaches hother hotherNew),
      (hpath.reaches other hother).trans (hreturned.reaches hname hnew)⟩
  · rintro ⟨hforth, hback⟩
    have hinside : other ∈ inner.classified ∨ other ∈ inner.stack ∧ other ∉ search.stack := by
      induction hforth with
      | refl => exact .inr ⟨hname, hnew⟩
      | tail hwalk hedge ih =>
          rcases ih (hedge.reaches.trans hback) with hclassified | ⟨hstack, hold⟩
          · exact .inl (hsound.closed _ hclassified _ hedge)
          · exact hreturned.edge_closed hclosed hstack hold hedge
    -- No edge leads out of the known classes, so none of them leads back to the node.
    apply hinside.resolve_left
    intro hclassified
    have hsame := hback.mem_of_closed hsound.closed hclassified
    exact hsound.not_mem_stack hsame hname

/-- If no lower number was found, closing the node completes a class. -/
theorem sound_close (hreturned : Returned graph fresh target search (reached, inner))
    (hclosed : search.next ≤ reached) : Sound graph (inner.close target) := by
  have hsound := hreturned.followed.sound
  obtain ⟨members, hclose, hperm, hmembers⟩ := hreturned.exists_close
  rw [hclose]
  exact {
    nodup := hsound.nodup
    perm := by
      have hmove : ((members ++ inner.classified) ++ search.stack).Perm
          (inner.classified ++ (members ++ search.stack)) := by
        rw [← List.append_assoc]
        exact List.perm_append_comm.append_right _
      exact hmove.trans ((hperm.symm.append_left _).trans hsound.perm)
    number_lt := hsound.number_lt
    descending := hsound.descending.sublist (hreturned.grown.stack.sublist)
    closed := by
      intro name hname next hedge
      simp only [classified, List.flatten_cons, List.mem_append] at hname ⊢
      rcases hname with hname | hname
      · obtain ⟨hstack, hnew⟩ := (hmembers name).mp hname
        refine (hreturned.edge_closed hclosed hstack hnew hedge).symm.imp_left ?_
        exact (hmembers next).mpr
      · exact .inr (hsound.closed name hname next hedge)
    mem_class := by
      refine List.forall_mem_cons.mpr ⟨fun name hname other => ?_, hsound.mem_class⟩
      obtain ⟨hstack, hnew⟩ := (hmembers name).mp hname
      rw [hmembers, hreturned.mem_class_iff hclosed hstack hnew]
    class_ne_nil := by
      refine List.forall_mem_cons.mpr ⟨?_, hsound.class_ne_nil⟩
      have htarget := (hmembers target).mpr ⟨hreturned.target_mem, hreturned.target_not_mem⟩
      exact List.ne_nil_of_mem htarget }

theorem stack_close (hreturned : Returned graph fresh target search (reached, inner)) :
    (inner.close target).stack = search.stack := by
  obtain ⟨members, hclose, _⟩ := hreturned.exists_close
  rw [hclose]

theorem target_mem_close (hreturned : Returned graph fresh target search (reached, inner)) :
    target ∈ (inner.close target).classified := by
  obtain ⟨members, hclose, _, hmembers⟩ := hreturned.exists_close
  have htarget := (hmembers target).mpr ⟨hreturned.target_mem, hreturned.target_not_mem⟩
  rw [hclose]
  exact List.mem_append_left _ htarget

theorem grown_close (hreturned : Returned graph fresh target search (reached, inner)) :
    Grown search (inner.close target) where
  numbers := hreturned.grown.numbers
  stack := hreturned.stack_close ▸ List.suffix_refl _
  classified := by
    obtain ⟨members, hclose, _⟩ := hreturned.exists_close
    rw [hclose]
    exact List.Subset.trans hreturned.grown.classified (List.subset_append_right _ _)

/-- If no lower number was found, the edge to the node changes nothing on the path. -/
theorem complete (hreturned : Returned graph (fresh.erase target) target search (reached, inner))
    (hpath : PathTo graph fresh source search)
    (hlow : LowReached graph source low search)
    (hclosed : search.next ≤ reached) :
    Followed graph fresh source [target] low search (low, inner.close target) where
  sound := hreturned.sound_close hclosed
  path := by
    refine ⟨?_, ?_⟩ <;> rw [hreturned.stack_close]
    · exact hpath.on_stack
    · exact hpath.reaches
  grown := hreturned.grown_close
  low_le := le_rfl
  low_reached := by
    obtain ⟨name, hname, heq, hreach⟩ := hlow
    have hsame := (hreturned.sound_close hclosed).numberOf_eq hreturned.grown_close
      (hreturned.before.mem_discovered.mpr (.inr hname))
    refine ⟨name, ?_, hsame.trans heq, hreach⟩
    rwa [hreturned.stack_close]
  target_seen := List.forall_mem_singleton.mpr (.inl hreturned.target_mem_close)
  above_reached := fun name hname hnew => absurd (hreturned.stack_close ▸ hname) hnew
  above_seen := fun name hname hnew => absurd (hreturned.stack_close ▸ hname) hnew

end Returned

/-! ## Following edges -/

theorem Followed.nil (hsound : Sound graph search) (hpath : PathTo graph fresh source search)
    (hlow : LowReached graph source low search) :
    Followed graph fresh source [] low search (low, search) where
  sound := hsound
  path := hpath
  grown := Grown.refl
  low_le := le_rfl
  low_reached := hlow
  target_seen := by simp
  above_reached := fun _ hname hnew => absurd hname hnew
  above_seen := fun _ hname hnew => absurd hname hnew

/-- An edge to a numbered node lowers the bound if the node is on the stack. -/
theorem Followed.of_numbered (hsound : Sound graph search)
    (hpath : PathTo graph fresh source search) (hlow : LowReached graph source low search)
    (hedge : graph.Edge source target) (hlookup : search.numbers.lookup target = some number) :
    Followed graph fresh source [target] low search
      (if target ∈ search.stack then min low number else low, search) := by
  have hnumber : search.numberOf target = number := by simp [numberOf, hlookup]
  have hdiscovered : target ∈ search.discovered := mem_keys_of_lookup hlookup
  exact {
    sound := hsound
    path := hpath
    grown := Grown.refl
    low_le := by
      split
      next => exact min_le_left _ _
      next => exact le_rfl
    low_reached := by
      split
      next hstack =>
        rcases le_total low number with hle | hle
        · simpa only [min_eq_left hle] using hlow
        · exact ⟨target, hstack, by rw [hnumber, min_eq_right hle], hedge.reaches⟩
      next => exact hlow
    target_seen := by
      refine List.forall_mem_singleton.mpr ?_
      rcases hsound.mem_discovered.mp hdiscovered with hclassified | hstack
      · exact .inl hclassified
      · rw [if_pos hstack]
        exact .inr ⟨hstack, hnumber ▸ min_le_right _ _⟩
    above_reached := fun _ hname hnew => absurd hname hnew
    above_seen := fun _ hname hnew => absurd hname hnew }

/-- An edge to a new node: what the return from the node leaves behind. -/
theorem Followed.of_new (hpath : PathTo graph fresh source search)
    (hlow : LowReached graph source low search)
    (hedge : graph.Edge source target)
    (hreturned : Returned graph (fresh.erase target) target search (reached, inner)) :
    Followed graph fresh source [target] low search
      (if reached < search.next then min low reached else low,
        inner.finish target search.next reached) := by
  unfold finish
  split
  next hkept => exact hreturned.keep hpath hedge hlow hkept
  next hclosed => exact hreturned.complete hpath hlow (Nat.le_of_not_lt hclosed)

/-- Following one edge and then the others. -/
theorem Followed.cons {middle result : Nat × Search}
    (hfirst : Followed graph fresh source [target] low search middle)
    (hrest : Followed graph fresh source targets middle.1 middle.2 result) :
    Followed graph fresh source (target :: targets) low search result where
  sound := hrest.sound
  path := hrest.path
  grown := hfirst.grown.trans hrest.grown
  low_le := hrest.low_le.trans hfirst.low_le
  low_reached := hrest.low_reached
  target_seen := by
    refine List.forall_mem_cons.mpr ⟨?_, hrest.target_seen⟩
    exact (hfirst.target_seen target List.mem_cons_self).grown hfirst.sound hrest.sound hrest.grown
      hrest.low_le
  above_reached := by
    intro name hname hnew
    by_cases hmiddle : name ∈ middle.2.stack
    · exact hfirst.above_reached name hmiddle hnew
    · exact hrest.above_reached name hname hmiddle
  above_seen := by
    intro name hname hnew next hedge
    by_cases hmiddle : name ∈ middle.2.stack
    · exact (hfirst.above_seen name hmiddle hnew next hedge).grown hfirst.sound hrest.sound
        hrest.grown hrest.low_le
    · exact hrest.above_seen name hname hmiddle next hedge

/-- Following edges keeps the search sound and accounts for each of the edges. -/
theorem followed_follow (hgraph : graph.WellFormed) (hsound : Sound graph search)
    (hpath : PathTo graph fresh source search)
    (hlow : LowReached graph source low search)
    (htargets : ∀ target ∈ targets, graph.Edge source target) :
    Followed graph fresh source targets low search (follow graph fresh targets low search) := by
  fun_induction follow graph fresh targets low search generalizing source with
  | case1 => exact Followed.nil hsound hpath hlow
  | case2 fresh target targets low search number hlookup ih =>
      obtain ⟨hedge, hrest⟩ := List.forall_mem_cons.mp htargets
      have hfirst := Followed.of_numbered hsound hpath hlow hedge hlookup
      exact hfirst.cons (ih hfirst.sound hfirst.path hfirst.low_reached hrest)
  | case3 fresh target targets low search hlookup hfresh number reached inner hfollow ihInner =>
      rename_i ihRest
      obtain ⟨hedge, hrest⟩ := List.forall_mem_cons.mp htargets
      have hnew : target ∉ search.discovered := lookup_eq_none.mp hlookup
      have hinner := ihInner (hsound.discover hnew) (hpath.discover hedge) LowReached.discover
        fun name hname => mem_successors.mp hname
      rw [hfollow] at hinner
      have hfirst := Followed.of_new hpath hlow hedge ⟨hsound, hnew, hinner⟩
      exact hfirst.cons (ihRest hfirst.sound hfirst.path hfirst.low_reached hrest)
  | case4 fresh target targets low search hlookup hopen ih =>
      -- A node that is neither numbered nor fresh would be on the path, and so numbered.
      obtain ⟨hedge, -⟩ := List.forall_mem_cons.mp htargets
      have hstack := hpath.on_stack target (hgraph.target_mem _ hedge) hopen
      exact absurd (hsound.mem_discovered.mpr (.inr hstack)) (lookup_eq_none.mp hlookup)

/-! ## Roots -/

theorem PathTo.root (hstack : search.stack = []) :
    PathTo graph (graph.names.erase source) source (search.discover source) where
  on_stack := by
    intro name hname hnot
    by_cases heq : name = source
    · exact heq ▸ List.mem_cons_self
    · exact absurd ((List.mem_erase_of_ne heq).mpr hname) hnot
  reaches := by
    intro name hname
    simp only [Search.discover, hstack, List.mem_singleton] at hname
    exact hname ▸ Reaches.refl

/-- The search comes back from a root with an empty stack: the class of each node that it found is
known. -/
theorem sound_visit (hgraph : graph.WellFormed) (hsound : Sound graph search)
    (hstack : search.stack = []) (name : String) :
    Sound graph (visit graph search name) ∧ (visit graph search name).stack = [] ∧
      name ∈ (visit graph search name).classified ∧
      search.classified ⊆ (visit graph search name).classified := by
  unfold visit
  split
  next number hlookup =>
    have hdiscovered : name ∈ search.discovered := mem_keys_of_lookup hlookup
    have hclassified := (hsound.mem_discovered.mp hdiscovered).resolve_right (by simp [hstack])
    exact ⟨hsound, hstack, hclassified, List.Subset.refl _⟩
  next hlookup =>
    have hnew : name ∉ search.discovered := lookup_eq_none.mp hlookup
    have hfollowed := followed_follow hgraph (hsound.discover hnew) (PathTo.root hstack)
      LowReached.discover fun target htarget => mem_successors.mp htarget
    have hreturned : Returned graph (graph.names.erase name) name search _ :=
      ⟨hsound, hnew, hfollowed⟩
    obtain ⟨base, hbase, hnumber, -⟩ := hfollowed.low_reached
    have hclosed : ¬ (follow graph (graph.names.erase name) (graph.successors name) search.next
        (search.discover name)).1 < search.next := by
      -- A lower number would be that of a node that was on the stack before.
      intro hlt
      have hold := (hreturned.mem_stack_iff hbase).mpr (hnumber.trans_lt hlt)
      simp [hstack] at hold
    simp only [finish, if_neg hclosed]
    exact ⟨hreturned.sound_close (Nat.le_of_not_lt hclosed), hreturned.stack_close.trans hstack,
      hreturned.target_mem_close, hreturned.grown_close.classified⟩

theorem sound_foldl_visit (hgraph : graph.WellFormed) (roots : List String)
    (hsound : Sound graph search) (hstack : search.stack = []) :
    Sound graph (roots.foldl (visit graph) search) ∧
      (roots.foldl (visit graph) search).stack = [] ∧
      (∀ root ∈ roots, root ∈ (roots.foldl (visit graph) search).classified) ∧
      search.classified ⊆ (roots.foldl (visit graph) search).classified := by
  induction roots generalizing search with
  | nil => exact ⟨hsound, hstack, by simp, List.Subset.refl _⟩
  | cons root roots ih =>
      obtain ⟨hvisit, hempty, hroot, hkept⟩ := sound_visit hgraph hsound hstack root
      obtain ⟨hlast, hlastEmpty, hall, hgrown⟩ := ih hvisit hempty
      exact ⟨hlast, hlastEmpty, List.forall_mem_cons.mpr ⟨hgrown hroot, hall⟩,
        List.Subset.trans hkept hgrown⟩

end OberonImports.Graph.Search
