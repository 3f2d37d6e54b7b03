import Aether.TreePages

/-!
`Redistribute` and `Merge`: two neighbours under one parent are cut at another
place, or joined into the left one, and the parent's separators follow.
-/
namespace Aether.TreeRebalance
open Aether.Programs Aether.Types Aether.PageStore Aether.LeafPage Aether.InternalPage Aether.BPlusTree
open Aether.Cells Aether.SortedLists Aether.Separators Aether.TreeModel Aether.TreePages

section
variable {h : Nat}

/-- The neighbours `a` and `b` with the separator `k` cut elsewhere. -/
structure Recut (a : Tree h) (k : Key) (b a' : Tree h) (k' : Key) (b' : Tree h) : Prop where
  leftId : a'.id = a.id
  rightId : b'.id = b.id
  carries : Carries (a.leaves ++ b.leaves) (a'.leaves ++ b'.leaves)
  ordered : ∀ lo hi, a.Ordered lo (some k) → b.Ordered (some k) hi → a'.Ordered lo (some k') ∧ b'.Ordered (some k') hi
  filled : a.Filled → b.Filled → a'.Filled ∧ b'.Filled

/-- The neighbours `a` and `b` with the separator `k` joined. -/
structure Joined (a : Tree h) (k : Key) (b t : Tree h) : Prop where
  id : t.id = a.id
  size : t.size = a.size + b.size
  carries : Carries (a.leaves ++ b.leaves) t.leaves
  ordered : ∀ lo hi, a.Ordered lo (some k) → b.Ordered (some k) hi → t.Ordered lo hi
  filled : a.Filled → b.Filled → t.Filled

theorem recut_leaf {ia na ib nb : PageId} {A B A' B' : List Entry} {k : Key} {e : Entry} (same : A' ++ e :: B' = A ++ B)
    (inhabited : A' ≠ []) :
    Recut (mkLeaf ia na A) k (mkLeaf ib nb B) (mkLeaf ia na A') e.1 (mkLeaf ib nb (e :: B')) := by
  refine ⟨rfl,rfl,carries_of_links (by simpa using same) rfl,fun lo hi left right => ?_,fun _ _ => ⟨trivial,trivial⟩⟩
  have all := ordered_joinLeaf (i := ia) (n := na) left right
  rw [← same] at all
  exact ordered_cutLeaf inhabited all

theorem recut_branch {ia ib : PageId} {A B A' B' : List (Key × Tree h)} {k k' j j' : Key} {y c : Tree h}
    (same : A' ++ (k',c) :: B' = A ++ (k,y) :: B) (inhabited : A' ≠ []) :
    Recut (mkBranch ia A) k (mkBranch ib ((j,y) :: B)) (mkBranch ia A') k' (mkBranch ib ((j',c) :: B')) := by
  have leaves : leavesOf A' ++ (c.leaves ++ leavesOf B') = leavesOf A ++ (y.leaves ++ leavesOf B) := by
    simpa using congrArg leavesOf same
  refine ⟨rfl,rfl,?_,fun lo hi left right => ?_,fun left right => ?_⟩
  · simp only [leaves_branch,leavesOf_cons,leaves]
    exact Carries.refl _
  · have all := ordered_joinBranch (i := ia) left right
    rw [← same] at all
    exact ordered_cutBranch inhabited all
  · have full : ∀ d ∈ A' ++ (k',c) :: B', Full d.2 := by
      rw [same]
      intro d member
      simp only [List.mem_append,List.mem_cons] at member
      rcases member with inA | rfl | inB
      · exact filled_branch.mp left d inA
      · exact filled_branch.mp right (j,y) (by simp)
      · exact filled_branch.mp right d (by simp [inB])
    refine ⟨filled_branch.mpr fun d member => full d (by simp [member]),filled_branch.mpr fun d member => ?_⟩
    rcases List.mem_cons.mp member with rfl | later
    · exact full (k',c) (by simp)
    · exact full d (by simp [later])

theorem joined_leaf {ia na ib nb : PageId} {A B : List Entry} {k : Key} :
    Joined (mkLeaf ia na A) k (mkLeaf ib nb B) (mkLeaf ia nb (A ++ B)) :=
  ⟨rfl,by simp,carries_join,fun _ _ left right => ordered_joinLeaf left right,fun _ _ => trivial⟩

theorem joined_branch {ia ib : PageId} {A B : List (Key × Tree h)} {k j : Key} {y : Tree h} :
    Joined (mkBranch ia A) k (mkBranch ib ((j,y) :: B)) (mkBranch ia (A ++ (k,y) :: B)) := by
  refine ⟨rfl,by simp,?_,fun _ _ left right => ordered_joinBranch left right,fun left right => ?_⟩
  · simp only [leaves_branch,leavesOf_append,leavesOf_cons]
    exact Carries.refl _
  · refine filled_branch.mpr fun d member => ?_
    simp only [List.mem_append,List.mem_cons] at member
    rcases member with inA | rfl | inB
    · exact filled_branch.mp left d inA
    · exact filled_branch.mp right (j,y) (by simp)
    · exact filled_branch.mp right d (by simp [inB])

end

/-! ### Redistribution -/

section
variable {s : Store BPlusTreePage} {pins : Multiset PageId} {F : Cells} {h : Nat}
variable {id par : PageId} {L R : List Slot} {j k : Key} {i : Int}

/-- The page of a parent in which `k` separates two neighbours. -/
def parentCell (id par : PageId) (L : List Slot) (j : Key) (a : PageId) (k : Key) (b : PageId) (R : List Slot) : Cells :=
  {(id,internalView id par (L ++ (j,a) :: (k,b) :: R))}

variable {ia ib : PageId}

/-- Setting the separator of two neighbours. -/
theorem does_setSeparator {Q : Unit → Store BPlusTreePage → Prop} (own : Owns s (parentCell id par L j ia k ib R + F) pins)
    (pinned : id ∈ pins) (index : i = L.length + 1) (k' : Key)
    (goal : ∀ s', Owns s' (parentCell id par L j ia k' ib R + F) pins → Q () s') : Does (setKeyAt id i k') Q s := by
  simp only [setKeyAt,Does,Prog.wp_bind]
  refine does_readInternal own mem_here pinned (fun page shows => ?_)
  have holds : page.Holds ((L ++ [(j,ia)]) ++ (k,ib) :: R) := by simpa using shows.holds
  obtain ⟨keys,set,after⟩ := BPlusTreeInternalPage.setKeyAt_spec holds k'
  have position : i.toNat = (L ++ [(j,ia)]).length := by simp; omega
  rw [position]
  refine does_inBounds set ?_
  exact does_writeInternal own pinned (shows.update after) (fun s₁ own => goal s₁ (own.reorder (by simp [parentCell])))

/-- The key that separates two neighbours. -/
theorem separator {page : BPlusTreeInternalPage} (shows : InternalShows id par (L ++ (j,ia) :: (k,ib) :: R) page)
    (index : i = L.length + 1) : page.keyAt i.toNat = some k := by
  have holds : page.Holds ((L ++ [(j,ia)]) ++ (k,ib) :: R) := by simpa using shows.holds
  have position : i.toNat = (L ++ [(j,ia)]).length := by simp; omega
  rw [position]
  exact BPlusTreeInternalPage.keyAt_spec holds

variable {na nb : PageId} {A B : List Entry} {e f : Entry}

theorem redistribute_leafLeft {Q : Unit → Store BPlusTreePage → Prop}
    (own : Owns s (parentCell id par L j ia k ib R +
      (cells id (mkLeaf ia na (A ++ [e])) + (cells id (mkLeaf ib nb B) + F))) pins)
    (pinned : id ∈ pins) (pinnedA : ia ∈ pins) (pinnedB : ib ∈ pins) (index : i = L.length + 1)
    (above : ∀ b ∈ B, e.1 < b.1) (room : B.length < 254)
    (goal : ∀ s', Owns s' (parentCell id par L j ia e.1 ib R +
      (cells id (mkLeaf ia na A) + (cells id (mkLeaf ib nb (e :: B)) + F))) pins → Q () s') :
    Does (redistribute ib ia id i true) Q s := by
  simp only [cells_leaf] at own goal
  simp only [redistribute,Does,Prog.wp_bind]
  have own₀ := own.reorder (add_left_comm _ _ _)
  refine wp_getData own (v := leafView ib id nb B) (by simp) pinnedB (fun page shown => ?_)
  cases page with
  | internal page => exact shown.elim
  | leaf leaf =>
    simp only [if_true,Prog.wp_bind]
    refine does_readLeaf own₀ mem_here pinnedA (fun sib shows => ?_)
    obtain ⟨keys,values,keys',values',moved,holdsA,holdsB⟩ :=
      BPlusTreeLeafPage.moveLastToFrontOf_spec shows.holds shown.holds above room
    refine does_inBounds moved ?_
    simp only
    refine does_writeLeaf own₀ pinnedA (shows.update holdsA) (fun s₁ own => ?_)
    have own₁ : Owns s₁ ({(ib,leafView ib id nb B)} + (parentCell id par L j ia k ib R + ({(ia,leafView ia id na A)} + F)))
        pins := own.reorder (by abel)
    refine does_writeLeaf own₁ pinnedB (LeafShows.update shown holdsB) (fun s₂ own => ?_)
    refine does_inBounds (BPlusTreeLeafPage.keyAt (A := []) holdsB) ?_
    exact does_setSeparator (own.reorder (add_left_comm _ _ _)) pinned index e.1 (fun s₃ own => goal s₃ (own.reorder (by abel)))

theorem redistribute_leafRight {Q : Unit → Store BPlusTreePage → Prop}
    (own : Owns s (parentCell id par L j ia k ib R +
      (cells id (mkLeaf ia na A) + (cells id (mkLeaf ib nb (e :: f :: B)) + F))) pins)
    (pinned : id ∈ pins) (pinnedA : ia ∈ pins) (pinnedB : ib ∈ pins) (index : i = L.length)
    (below : ∀ a ∈ A, a.1 < e.1) (room : A.length < 254)
    (goal : ∀ s', Owns s' (parentCell id par L j ia f.1 ib R +
      (cells id (mkLeaf ia na (A ++ [e])) + (cells id (mkLeaf ib nb (f :: B)) + F))) pins → Q () s') :
    Does (redistribute ia ib id i false) Q s := by
  simp only [cells_leaf] at own goal
  simp only [redistribute,Does,Prog.wp_bind]
  have own₀ : Owns s ({(ib,leafView ib id nb (e :: f :: B))} + (parentCell id par L j ia k ib R +
      ({(ia,leafView ia id na A)} + F))) pins := own.reorder (by abel)
  refine wp_getData own (v := leafView ia id na A) (by simp) pinnedA (fun page shown => ?_)
  cases page with
  | internal page => exact shown.elim
  | leaf leaf =>
    simp only [Bool.false_eq_true,if_false,Prog.wp_bind]
    refine does_readLeaf own₀ mem_here pinnedB (fun sib shows => ?_)
    obtain ⟨keys,values,keys',values',moved,holdsB,holdsA⟩ :=
      BPlusTreeLeafPage.moveFirstToEndOf_spec shows.holds shown.holds below room
    refine does_inBounds moved ?_
    simp only
    refine does_writeLeaf own₀ pinnedB (shows.update holdsB) (fun s₁ own => ?_)
    have own₁ : Owns s₁ ({(ia,leafView ia id na A)} + (parentCell id par L j ia k ib R +
        ({(ib,leafView ib id nb (f :: B))} + F))) pins := own.reorder (by abel)
    refine does_writeLeaf own₁ pinnedA (LeafShows.update shown holdsA) (fun s₂ own => ?_)
    refine does_inBounds (BPlusTreeLeafPage.keyAt (A := []) holdsB) ?_
    exact does_setSeparator (own.reorder (add_left_comm _ _ _)) pinned (by omega) f.1
      (fun s₃ own => goal s₃ (own.reorder (by abel)))

variable {C D : List (Key × Tree h)} {kc k0 : Key} {c y : Tree h}

theorem redistribute_branchLeft {Q : Unit → Store BPlusTreePage → Prop}
    (own : Owns s (parentCell id par L j ia k ib R +
      (cells id (mkBranch ia (C ++ [(kc,c)])) + (cells id (mkBranch ib ((k0,y) :: D)) + F))) pins)
    (pinned : id ∈ pins) (pinnedA : ia ∈ pins) (pinnedB : ib ∈ pins) (index : i = L.length + 1)
    (room : D.length + 1 < 339)
    (goal : ∀ s', Owns s' (parentCell id par L j ia kc ib R +
      (cells id (mkBranch ia C) + (cells id (mkBranch ib ((k0,c) :: (k,y) :: D)) + F))) pins → Q () s') :
    Does (redistribute ib ia id i true) Q s := by
  simp only [cells_branch,slotsOf_append,slotsOf_cons,slotsOf_nil] at own goal
  simp only [redistribute,Does,Prog.wp_bind]
  have own₀ : Owns s ({(ia,internalView ia id (slotsOf C ++ [(kc,c.id)]))} + (parentCell id par L j ia k ib R +
      (cellsOf ia (C ++ [(kc,c)]) + {(ib,internalView ib id ((k0,y.id) :: slotsOf D))} + cellsOf ib ((k0,y) :: D) + F)))
      pins := own.reorder (by abel)
  refine wp_getData own (v := internalView ib id ((k0,y.id) :: slotsOf D)) (by simp) pinnedB (fun page shown => ?_)
  cases page with
  | leaf page => exact shown.elim
  | internal internal =>
    simp only [if_true,Prog.wp_bind]
    refine does_readInternal own₀ mem_here pinnedA (fun sib shows => ?_)
    refine does_readInternal own mem_here pinned (fun page parentShows => ?_)
    refine does_inBounds (separator parentShows index) ?_
    have source := shows.holds
    have last : sib.keyAt (sib.size - 1) = some kc := by
      have size : sib.size - 1 = (slotsOf C).length := by rw [source.size]; simp
      rw [size]
      exact BPlusTreeInternalPage.keyAt_spec source
    refine does_inBounds last ?_
    obtain ⟨keys,values,moved,holdsA,holdsB⟩ := BPlusTreeInternalPage.moveLastToFrontOf_spec source shown.holds
      (by simpa using room) k
    refine does_inBounds moved ?_
    refine does_writeInternal own₀ pinnedA (shows.update holdsA) (fun s₁ own => ?_)
    have own₁ : Owns s₁ ({(ib,internalView ib id ((k0,y.id) :: slotsOf D))} + (parentCell id par L j ia k ib R +
        ({(ia,internalView ia id (slotsOf C))} + cellsOf ia (C ++ [(kc,c)]) + cellsOf ib ((k0,y) :: D) + F))) pins :=
      own.reorder (by abel)
    refine does_writeInternal own₁ pinnedB (InternalShows.update shown holdsB) (fun s₂ own => ?_)
    refine does_setSeparator (own.reorder (add_left_comm _ _ _)) pinned index kc (fun s₃ own => ?_)
    refine does_inBounds (BPlusTreeInternalPage.valueAt_spec (L := []) holdsB) ?_
    have header : internal.pageId = ib := shown.pageId
    simp only [header]
    have own₃ : Owns s₃ (cells ia c + (parentCell id par L j ia kc ib R + ({(ia,internalView ia id (slotsOf C))} +
        {(ib,internalView ib id ((k0,c.id) :: (k,y.id) :: slotsOf D))} + cellsOf ia C + cellsOf ib ((k0,y) :: D) + F)))
        pins := own.reorder (by rw [cellsOf_append,cellsOf_cons,cellsOf_nil]; abel)
    refine does_adopt own₃ (fun s₄ own => goal s₄ (own.reorder ?_))
    simp only [cellsOf_cons]
    abel

theorem redistribute_branchRight {Q : Unit → Store BPlusTreePage → Prop}
    (own : Owns s (parentCell id par L j ia k ib R +
      (cells id (mkBranch ia C) + (cells id (mkBranch ib ((k0,y) :: (kc,c) :: D)) + F))) pins)
    (pinned : id ∈ pins) (pinnedA : ia ∈ pins) (pinnedB : ib ∈ pins) (index : i = L.length) (room : C.length < 339)
    (goal : ∀ s', Owns s' (parentCell id par L j ia kc ib R +
      (cells id (mkBranch ia (C ++ [(k,y)])) + (cells id (mkBranch ib ((kc,c) :: D)) + F))) pins → Q () s') :
    Does (redistribute ia ib id i false) Q s := by
  simp only [cells_branch,slotsOf_append,slotsOf_cons,slotsOf_nil] at own goal
  simp only [redistribute,Does,Prog.wp_bind]
  have own₀ : Owns s ({(ib,internalView ib id ((k0,y.id) :: (kc,c.id) :: slotsOf D))} + (parentCell id par L j ia k ib R +
      ({(ia,internalView ia id (slotsOf C))} + cellsOf ia C + cellsOf ib ((k0,y) :: (kc,c) :: D) + F))) pins :=
    own.reorder (by abel)
  refine wp_getData own (v := internalView ia id (slotsOf C)) (by simp) pinnedA (fun page shown => ?_)
  cases page with
  | leaf page => exact shown.elim
  | internal internal =>
    simp only [Bool.false_eq_true,if_false,Prog.wp_bind]
    refine does_readInternal own₀ mem_here pinnedB (fun sib shows => ?_)
    refine does_readInternal own mem_here pinned (fun page parentShows => ?_)
    refine does_inBounds (separator parentShows (by omega)) ?_
    have source := shows.holds
    have second : sib.keyAt 1 = some kc := BPlusTreeInternalPage.keyAt_spec (L := [(k0,y.id)]) source
    refine does_inBounds second ?_
    obtain ⟨keys,values,keys',values',moved,holdsB,holdsA⟩ :=
      BPlusTreeInternalPage.moveFirstToEndOf_spec source shown.holds (by simpa using room) k
    refine does_inBounds moved ?_
    refine does_writeInternal own₀ pinnedB (shows.update holdsB) (fun s₁ own => ?_)
    have own₁ : Owns s₁ ({(ia,internalView ia id (slotsOf C))} + (parentCell id par L j ia k ib R +
        ({(ib,internalView ib id ((kc,c.id) :: slotsOf D))} + cellsOf ia C + cellsOf ib ((k0,y) :: (kc,c) :: D) + F)))
        pins := own.reorder (by abel)
    refine does_writeInternal own₁ pinnedA (InternalShows.update shown holdsA) (fun s₂ own => ?_)
    refine does_setSeparator (own.reorder (add_left_comm _ _ _)) pinned (by omega) kc (fun s₃ own => ?_)
    have last : ({ internal with size := (slotsOf C).length + 1, keys := keys', values := values' } :
        BPlusTreeInternalPage).valueAt ((slotsOf C).length + 1 - 1) = some y.id :=
      BPlusTreeInternalPage.valueAt_spec holdsA
    refine does_inBounds last ?_
    have header : internal.pageId = ia := shown.pageId
    simp only [header]
    have own₃ : Owns s₃ (cells ib y + (parentCell id par L j ia kc ib R + ({(ib,internalView ib id ((kc,c.id) :: slotsOf D))} +
        {(ia,internalView ia id (slotsOf C ++ [(k,y.id)]))} + cellsOf ia C + cellsOf ib ((kc,c) :: D) + F))) pins :=
      own.reorder (by simp only [cellsOf_cons]; abel)
    refine does_adopt own₃ (fun s₄ own => goal s₄ (own.reorder ?_))
    simp only [cellsOf_append,cellsOf_cons,cellsOf_nil]
    abel

/-- The node takes the last entry or child of its left neighbour. -/
theorem does_redistributeLeft {Q : Unit → Store BPlusTreePage → Prop} {a b : Tree h} {lo hi : Option Key}
    (own : Owns s (parentCell id par L j a.id k b.id R + (cells id a + (cells id b + F))) pins)
    (pinned : id ∈ pins) (pinnedA : a.id ∈ pins) (pinnedB : b.id ∈ pins) (index : i = L.length + 1)
    (left : a.Ordered lo (some k)) (right : b.Ordered (some k) hi) (spare : 2 ≤ a.size) (room : b.size < capacity h)
    (goal : ∀ s' a' k' b', Recut a k b a' k' b' → a'.size + 1 = a.size → b'.size = b.size + 1 →
      Owns s' (parentCell id par L j a.id k' b.id R + (cells id a' + (cells id b' + F))) pins → Q () s') :
    Does (redistribute b.id a.id id i true) Q s := by
  cases h with
  | zero =>
    obtain ⟨ia,na,A,rfl⟩ := tree_leaf a
    obtain ⟨ib,nb,B,rfl⟩ := tree_leaf b
    rcases List.eq_nil_or_concat A with rfl | ⟨A,e,rfl⟩
    · simp at spare
    · simp only [List.concat_eq_append] at left own spare goal ⊢
      have above : ∀ x ∈ B, e.1 < x.1 := fun x member =>
        lt_of_lt_of_le ((ordered_leaf.mp left).2.2 e (by simp)).2 ((ordered_leaf.mp right).2.2 x member).1
      have inhabited : A ≠ [] := by rintro rfl; simp at spare
      have recut : Recut (mkLeaf ia na (A ++ [e])) k (mkLeaf ib nb B) (mkLeaf ia na A) e.1 (mkLeaf ib nb (e :: B)) :=
        recut_leaf (by simp) inhabited
      exact redistribute_leafLeft own pinned pinnedA pinnedB index above (by simp at room; omega)
        (fun s' own => goal s' _ _ _ recut (by simp) (by simp) own)
  | succ h =>
    obtain ⟨ia,C,rfl⟩ := tree_branch a
    obtain ⟨ib,D,rfl⟩ := tree_branch b
    rcases List.eq_nil_or_concat C with rfl | ⟨C,⟨kc,c⟩,rfl⟩
    · simp at spare
    · cases D with
      | nil => exact absurd rfl (ordered_branch.mp right).1
      | cons d D =>
        simp only [List.concat_eq_append] at left own spare goal ⊢
        have inhabited : C ≠ [] := by rintro rfl; simp at spare
        have recut : Recut (mkBranch ia (C ++ [(kc,c)])) k (mkBranch ib ((d.1,d.2) :: D)) (mkBranch ia C) kc
            (mkBranch ib ((d.1,c) :: (k,d.2) :: D)) := recut_branch (by simp) inhabited
        exact redistribute_branchLeft own pinned pinnedA pinnedB index (by simp at room; omega)
          (fun s' own => goal s' _ _ _ recut (by simp) (by simp) own)

/-- The node takes the first entry or child of its right neighbour. -/
theorem does_redistributeRight {Q : Unit → Store BPlusTreePage → Prop} {a b : Tree h} {lo hi : Option Key}
    (own : Owns s (parentCell id par L j a.id k b.id R + (cells id a + (cells id b + F))) pins)
    (pinned : id ∈ pins) (pinnedA : a.id ∈ pins) (pinnedB : b.id ∈ pins) (index : i = L.length)
    (left : a.Ordered lo (some k)) (right : b.Ordered (some k) hi) (spare : 2 ≤ b.size) (room : a.size < capacity h)
    (goal : ∀ s' a' k' b', Recut a k b a' k' b' → a'.size = a.size + 1 → b'.size + 1 = b.size →
      Owns s' (parentCell id par L j a.id k' b.id R + (cells id a' + (cells id b' + F))) pins → Q () s') :
    Does (redistribute a.id b.id id i false) Q s := by
  cases h with
  | zero =>
    obtain ⟨ia,na,A,rfl⟩ := tree_leaf a
    obtain ⟨ib,nb,B,rfl⟩ := tree_leaf b
    match B with
    | [] => simp at spare
    | [e] => simp at spare
    | e :: f :: B =>
      have below : ∀ x ∈ A, x.1 < e.1 := fun x member =>
        lt_of_lt_of_le ((ordered_leaf.mp left).2.2 x member).2 ((ordered_leaf.mp right).2.2 e (by simp)).1
      have recut : Recut (mkLeaf ia na A) k (mkLeaf ib nb (e :: f :: B)) (mkLeaf ia na (A ++ [e])) f.1
          (mkLeaf ib nb (f :: B)) := recut_leaf (by simp) (by simp)
      exact redistribute_leafRight own pinned pinnedA pinnedB index below (by simp at room; omega)
        (fun s' own => goal s' _ _ _ recut (by simp) (by simp) own)
  | succ h =>
    obtain ⟨ia,C,rfl⟩ := tree_branch a
    obtain ⟨ib,D,rfl⟩ := tree_branch b
    match D with
    | [] => simp at spare
    | [d] => simp at spare
    | (k0,y) :: (kc,c) :: D =>
      have recut : Recut (mkBranch ia C) k (mkBranch ib ((k0,y) :: (kc,c) :: D)) (mkBranch ia (C ++ [(k,y)])) kc
          (mkBranch ib ((kc,c) :: D)) := recut_branch (by simp) (by simp)
      exact redistribute_branchRight own pinned pinnedA pinnedB index (by simp at room; omega)
        (fun s' own => goal s' _ _ _ recut (by simp) (by simp) own)

/-! ### Merging -/

/-- Removing the right one of two neighbours from the parent. -/
theorem does_removeSeparator {Q : Unit → Store BPlusTreePage → Prop} {n : Nat}
    (own : Owns s (parentCell id par L j ia k ib R + F) pins) (pinned : id ∈ pins) (index : n = L.length + 1)
    (goal : ∀ s', Owns s' ({(id,internalView id par (L ++ (j,ia) :: R))} + F) pins → Q () s') :
    Does (removeChild id n) Q s := by
  simp only [removeChild,Does,Prog.wp_bind]
  refine does_readInternal own mem_here pinned (fun page shows => ?_)
  have holds : page.Holds ((L ++ [(j,ia)]) ++ (k,ib) :: R) := by simpa using shows.holds
  obtain ⟨keys,values,removed,after⟩ := BPlusTreeInternalPage.remove_spec holds
  have position : n = (L ++ [(j,ia)]).length := by simp; omega
  rw [position]
  refine does_inBounds removed ?_
  exact does_writeInternal own pinned (shows.update after) (fun s₁ own => goal s₁ (own.reorder (by simp)))

theorem merge_leaf {Q : Unit → Store BPlusTreePage → Prop} {n : Nat}
    (own : Owns s (parentCell id par L j ia k ib R +
      (cells id (mkLeaf ia na A) + (cells id (mkLeaf ib nb B) + F))) pins)
    (pinned : id ∈ pins) (pinnedA : ia ∈ pins) (pinnedB : ib ∈ pins) (index : n = L.length + 1)
    (room : A.length + B.length ≤ 254)
    (goal : ∀ s', Owns s' ({(id,internalView id par (L ++ (j,ia) :: R))} +
      (cells id (mkLeaf ia nb (A ++ B)) + ({(ib,leafView ib id nb [])} + F))) pins → Q () s') :
    Does (merge ia ib id n) Q s := by
  simp only [cells_leaf] at own goal
  simp only [merge,Does,Prog.wp_bind]
  have own₀ : Owns s ({(ib,leafView ib id nb B)} + (parentCell id par L j ia k ib R + ({(ia,leafView ia id na A)} + F)))
      pins := own.reorder (by abel)
  refine wp_getData own (v := leafView ia id na A) (by simp) pinnedA (fun page shown => ?_)
  cases page with
  | internal page => exact shown.elim
  | leaf left =>
    simp only [Prog.wp_bind]
    refine does_readLeaf own₀ mem_here pinnedB (fun right shows => ?_)
    obtain ⟨keys,values,moved,holds⟩ := BPlusTreeLeafPage.moveAllTo_spec shows.holds shown.holds room
    refine does_inBounds moved ?_
    have emptied : LeafShows ib id nb [] { right with size := 0 } := shows.update ⟨rfl,begins_nil _,begins_nil _⟩
    refine does_writeLeaf own₀ pinnedB emptied (fun s₁ own => ?_)
    have own₁ : Owns s₁ ({(ia,leafView ia id na A)} + (parentCell id par L j ia k ib R + ({(ib,leafView ib id nb [])} + F)))
        pins := own.reorder (by abel)
    have showsAll : LeafShows ia id nb (A ++ B)
        { left with size := A.length + B.length, nextPageId := right.nextPageId, keys, values } :=
      ⟨shown.pageId,shown.parentPageId,shows.nextPageId,shown.maxSize,holds⟩
    refine does_writeLeaf own₁ pinnedA showsAll (fun s₂ own => ?_)
    exact does_removeSeparator (own.reorder (add_left_comm _ _ _)) pinned index goal

theorem merge_branch {Q : Unit → Store BPlusTreePage → Prop} {n : Nat}
    (own : Owns s (parentCell id par L j ia k ib R +
      (cells id (mkBranch ia C) + (cells id (mkBranch ib ((k0,y) :: D)) + F))) pins)
    (pinned : id ∈ pins) (pinnedA : ia ∈ pins) (pinnedB : ib ∈ pins) (index : n = L.length + 1)
    (room : C.length + D.length + 1 ≤ 339)
    (goal : ∀ s', Owns s' ({(id,internalView id par (L ++ (j,ia) :: R))} +
      (cells id (mkBranch ia (C ++ (k,y) :: D)) + ({(ib,internalView ib id [])} + F))) pins → Q () s') :
    Does (merge ia ib id n) Q s := by
  simp only [cells_branch,slotsOf_cons] at own
  simp only [merge,Does,Prog.wp_bind]
  have own₀ : Owns s ({(ib,internalView ib id ((k0,y.id) :: slotsOf D))} + (parentCell id par L j ia k ib R +
      ({(ia,internalView ia id (slotsOf C))} + cellsOf ia C + cellsOf ib ((k0,y) :: D) + F))) pins :=
    own.reorder (by abel)
  refine wp_getData own (v := internalView ia id (slotsOf C)) (by simp) pinnedA (fun page shown => ?_)
  cases page with
  | leaf page => exact shown.elim
  | internal left =>
    simp only [Prog.wp_bind]
    refine does_readInternal own mem_here pinned (fun page parentShows => ?_)
    have key : page.keyAt n = some k := separator (i := n) parentShows (by omega)
    refine does_inBounds key ?_
    refine does_readInternal own₀ mem_here pinnedB (fun right shows => ?_)
    obtain ⟨keys,values,moved,holds⟩ := BPlusTreeInternalPage.moveAllTo_spec shows.holds shown.holds
      (by simpa using room) k
    refine does_inBounds moved ?_
    have emptied : InternalShows ib id [] { right with size := 0 } := shows.update ⟨rfl,begins_nil _,begins_nil _⟩
    refine does_writeInternal own₀ pinnedB emptied (fun s₁ own => ?_)
    have own₁ : Owns s₁ ({(ia,internalView ia id (slotsOf C))} + (parentCell id par L j ia k ib R +
        ({(ib,internalView ib id [])} + cellsOf ia C + cellsOf ib ((k0,y) :: D) + F))) pins := own.reorder (by abel)
    refine does_writeInternal own₁ pinnedA (InternalShows.update shown holds) (fun s₂ own => ?_)
    have own₂ : Owns s₂ (cellsOf ia C + cellsOf ib ((k,y) :: D) + ({(ia,internalView ia id (slotsOf (C ++ (k,y) :: D)))} +
        (parentCell id par L j ia k ib R + ({(ib,internalView ib id [])} + F)))) pins :=
      own.reorder (by simp only [slotsOf_append,slotsOf_cons,cellsOf_cons]; abel)
    have count : (slotsOf C).length + (slotsOf D).length + 1 = (C ++ (k,y) :: D).length := by simp; omega
    have header : left.pageId = ia := shown.pageId
    simp only [count,header]
    refine does_adoptAll own₂ mem_here pinnedA (fun s₃ own => ?_)
    have own₃ : Owns s₃ (parentCell id par L j ia k ib R + (cells id (mkBranch ia (C ++ (k,y) :: D)) +
        ({(ib,internalView ib id [])} + F))) pins := own.reorder (by rw [cells_branch]; abel)
    exact does_removeSeparator own₃ pinned index goal

/-- The right neighbour's page is left empty, outside the tree. -/
theorem does_merge {Q : Unit → Store BPlusTreePage → Prop} {a b : Tree h} {lo hi : Option Key} {n : Nat}
    (own : Owns s (parentCell id par L j a.id k b.id R + (cells id a + (cells id b + F))) pins)
    (pinned : id ∈ pins) (pinnedA : a.id ∈ pins) (pinnedB : b.id ∈ pins) (index : n = L.length + 1)
    (right : b.Ordered lo hi) (room : a.size + b.size ≤ capacity h + 1)
    (goal : ∀ s' t dead, Joined a k b t → (∀ page, dead page → page.getPageId = b.id) →
      Owns s' ({(id,internalView id par (L ++ (j,a.id) :: R))} + (cells id t + ({(b.id,dead)} + F))) pins → Q () s') :
    Does (merge a.id b.id id n) Q s := by
  cases h with
  | zero =>
    obtain ⟨ia,na,A,rfl⟩ := tree_leaf a
    obtain ⟨ib,nb,B,rfl⟩ := tree_leaf b
    refine merge_leaf own pinned pinnedA pinnedB index (by simpa using room)
      (fun s' own => goal s' _ _ joined_leaf (fun page shown => ?_) own)
    cases page with
    | leaf page => exact shown.pageId
    | internal page => exact shown.elim
  | succ h =>
    obtain ⟨ia,C,rfl⟩ := tree_branch a
    obtain ⟨ib,D,rfl⟩ := tree_branch b
    cases D with
    | nil => exact absurd rfl (ordered_branch.mp right).1
    | cons d D =>
      refine merge_branch own pinned pinnedA pinnedB index (by simp at room; omega)
        (fun s' own => goal s' _ _ (joined_branch (k := k) (j := d.1) (y := d.2)) (fun page shown => ?_) own)
      cases page with
      | leaf page => exact shown.elim
      | internal page => exact shown.pageId

end
end Aether.TreeRebalance
