import SeviriImagery.FileTree.Search
import SeviriImagery.Proofs.FileTree
import SeviriImagery.Proofs.Path.Order

/-!
# The order of entries

A file tree has its entries in some order, as they were made or as a file system lists them.  The
same entries in another order are the same tree to whoever follows a path
(`FileTree.Rearranges.resolve_eq`).  To whoever lists directories they are the same once they are
put in the order of their places, since no two entries have one place
(`FileTree.Rearranges.inOrder_eq`).
-/

namespace SeviriImagery.FileTree

/-- A tree with the entries of another, perhaps in another order. -/
structure Rearranges (t s : FileTree) : Prop where
  workingDirectory : t.workingDirectory = s.workingDirectory
  entries : t.entries.Perm s.entries

variable {t s : FileTree} {place : Place} {directory : String}

/-- Places that come before each other are the same. -/
theorem placeLe_antisymm {a b : Place} (hab : placeLe a b = true) (hba : placeLe b a = true) :
    a = b := by
  have hinj : Function.Injective Path.Step.down := fun _ _ hsame => Path.Step.down.inj hsame
  exact List.map_injective_iff.mpr hinj (Path.stepsLe_antisymm hab hba)

/-- The entries of a tree in the order of their places are entries of the tree. -/
theorem rearranges_inOrder (t : FileTree) : t.inOrder.Rearranges t :=
  ⟨rfl, List.mergeSort_perm t.entries _⟩

/-- In the tree that was put in order each entry comes before those behind it. -/
theorem pairwise_inOrder (t : FileTree) :
    t.inOrder.entries.Pairwise fun a b => placeLe a.1 b.1 = true := by
  refine List.pairwise_mergeSort (fun a b c hab hbc => ?_) (fun a b => ?_) t.entries
  · exact Path.stepsLe_trans hab hbc
  · rw [Bool.or_eq_true]
    exact Path.stepsLe_total _ _

/-- A tree that has its entries in order stays as it is. -/
theorem inOrder_of_pairwise (hsorted : t.entries.Pairwise fun a b => placeLe a.1 b.1 = true) :
    t.inOrder = t := by
  rw [inOrder, List.mergeSort_of_pairwise hsorted]

namespace Rearranges

/-- No two entries have one place, in whatever order they are. -/
theorem wellFormed (hsame : t.Rearranges s) (hwf : s.WellFormed) : t.WellFormed :=
  (hsame.entries.map Prod.fst).nodup_iff.mpr hwf

/-- What stands at a place does not depend on the order of the entries. -/
theorem entryAt?_eq (hsame : t.Rearranges s) (hwf : s.WellFormed) : t.entryAt? = s.entryAt? := by
  funext p
  have hlookup : t.entries.lookup p = s.entries.lookup p := by
    refine Option.ext fun entry => ?_
    rw [lookup_eq_some_iff_mem (hsame.wellFormed hwf), lookup_eq_some_iff_mem hwf,
      hsame.entries.mem_iff]
  rw [entryAt?, entryAt?, hlookup]

theorem follow_eq (hsame : t.Rearranges s) (hwf : s.WellFormed) : t.follow = s.follow := by
  funext p name
  rw [follow, follow, hsame.entryAt?_eq hwf]

theorem start_eq (hsame : t.Rearranges s) (path : String) : t.start path = s.start path := by
  rw [start, start, hsame.workingDirectory]

/-- Where a path leads does not depend on the order of the entries. -/
theorem resolve_eq (hsame : t.Rearranges s) (hwf : s.WellFormed) (path : String) :
    t.resolve path = s.resolve path := by
  rw [resolve, resolve, hsame.follow_eq hwf, hsame.start_eq]

/-- What is found on a path does not depend on the order of the entries. -/
theorem find_eq (hsame : t.Rearranges s) (hwf : s.WellFormed) (path : String) :
    t.find path = s.find path := by
  rw [find, find, hsame.resolve_eq hwf, hsame.entryAt?_eq hwf]

/-- Nor does where a folder is. -/
theorem isFolder_iff (hsame : t.Rearranges s) (hwf : s.WellFormed) :
    t.IsFolder directory place ↔ s.IsFolder directory place := by
  rw [IsFolder, IsFolder, hsame.follow_eq hwf, hsame.start_eq, hsame.entryAt?_eq hwf]

/-- **Trees with the same entries are one when these are put in order.** -/
theorem inOrder_eq (hsame : t.Rearranges s) (hwf : s.WellFormed) : t.inOrder = s.inOrder := by
  have hperm : t.inOrder.entries.Perm s.inOrder.entries :=
    (rearranges_inOrder t).entries.trans (hsame.entries.trans (rearranges_inOrder s).entries.symm)
  -- Two entries are in order both ways only if they have one place, and then they are one.
  have hentries : t.inOrder.entries = s.inOrder.entries := by
    refine List.Perm.eq_of_pairwise ?_ (pairwise_inOrder t) (pairwise_inOrder s) hperm
    intro a b ha hb hab hba
    have ha := hsame.entries.mem_iff.mp ((rearranges_inOrder t).entries.mem_iff.mp ha)
    have hb := (rearranges_inOrder s).entries.mem_iff.mp hb
    exact List.inj_on_of_nodup_map hwf ha hb (placeLe_antisymm hab hba)
  exact congrArg₂ FileTree.mk hentries hsame.workingDirectory

end Rearranges

end SeviriImagery.FileTree
