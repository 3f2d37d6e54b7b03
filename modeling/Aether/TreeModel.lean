import Aether.BPlusTree
import Aether.Separators
import Mathlib.Algebra.BigOperators.Group.Multiset.Basic
import Mathlib.Tactic.Abel

/-!
The trees that the pages of a `BPlusTree` are meant to form. A tree has a
height, so that all its leaves are at the same depth; `Ordered`, `Filled` and
`Linked` are the parts of the representation invariant, `cells` lists the pages
of a tree with what each of them shows, and a `Path` is the part of a tree
around one of its subtrees.
-/
namespace Aether.TreeModel
open Aether.Types Aether.PageStore Aether.LeafPage Aether.InternalPage Aether.BPlusTree
open Aether.SortedLists Aether.Separators

structure LeafNode where
  id : PageId
  next : PageId
  entries : List Entry

structure BranchNode (Child : Type) where
  id : PageId
  children : List (Key × Child)

/-- The trees of a height. -/
def Tree : Nat → Type
  | 0 => LeafNode
  | h + 1 => BranchNode (Tree h)

def mkLeaf (id next : PageId) (entries : List Entry) : Tree 0 := LeafNode.mk id next entries
def mkBranch {h : Nat} (id : PageId) (children : List (Key × Tree h)) : Tree (h + 1) := BranchNode.mk id children

namespace Tree

def id : {h : Nat} → Tree h → PageId
  | 0, t => LeafNode.id t
  | _ + 1, t => BranchNode.id t

/-- The entries of a leaf, the children of a branch. -/
def size : {h : Nat} → Tree h → Nat
  | 0, t => (LeafNode.entries t).length
  | _ + 1, t => (BranchNode.children t).length

/-- The leaves, from left to right. -/
def leaves : {h : Nat} → Tree h → List LeafNode
  | 0, t => [t]
  | _ + 1, t => (BranchNode.children t).flatMap (fun c => c.2.leaves)

end Tree

/-- The entries of leaves. -/
def entriesOf (leaves : List LeafNode) : List Entry := leaves.flatMap LeafNode.entries

/-- The leaves of a list of children. -/
def leavesOf {h : Nat} (children : List (Key × Tree h)) : List LeafNode := children.flatMap (fun c => c.2.leaves)

/-- What an internal page holds of a list of children. -/
def slotsOf {h : Nat} (children : List (Key × Tree h)) : List Slot := children.map (fun c => (c.1,c.2.id))

/-- The `max_size_` of the pages at a height. -/
def capacity : Nat → Nat
  | 0 => 253
  | _ + 1 => 338

/-- The least size of a page at a height, the root apart. -/
def minimum (h : Nat) : Nat := capacity h / 2

/-- The least size of a root. -/
def rootMinimum : Nat → Nat
  | 0 => 1
  | _ + 1 => 2

namespace Tree

/-- All keys are within the bounds, sorted in the leaves and separated in the
    branches. -/
def Ordered : {h : Nat} → Option Key → Option Key → Tree h → Prop
  | 0, lo, hi, t => Gap lo hi ∧ Sorted (LeafNode.entries t) ∧
      ∀ e ∈ LeafNode.entries t, AtLeast lo e.1 ∧ Under hi e.1
  | _ + 1, lo, hi, t => BranchNode.children t ≠ [] ∧ Within Ordered lo hi (BranchNode.children t)

/-- Every page below the root is at least half full and not too large. -/
def Filled : {h : Nat} → Tree h → Prop
  | 0, _ => True
  | h + 1, t => ∀ c ∈ BranchNode.children t, minimum h ≤ c.2.size ∧ c.2.size ≤ capacity h ∧ c.2.Filled

end Tree

/-- The tree may stand below the root. -/
def Full {h : Nat} (t : Tree h) : Prop := minimum h ≤ t.size ∧ t.size ≤ capacity h ∧ t.Filled

/-- The page id that the leaf before a list of leaves links to. -/
def headId (last : PageId) : List LeafNode → PageId
  | [] => last
  | l :: _ => l.id

/-- Each leaf links to the next one, and the last to `last`. -/
def Linked (last : PageId) : List LeafNode → Prop
  | [] => True
  | l :: rest => l.next = headId last rest ∧ Linked last rest

/-- The representation invariant of a tree. -/
structure Valid {h : Nat} (t : Tree h) : Prop where
  ordered : t.Ordered none none
  filled : t.Filled
  least : rootMinimum h ≤ t.size
  most : t.size ≤ capacity h
  linked : Linked INVALID_PAGE_ID t.leaves

/-! ### Equations -/

section
variable {h : Nat} {id next : PageId} {entries : List Entry} {children A B : List (Key × Tree h)}
variable {lo hi : Option Key} {c : Key × Tree h} {ls ls' : List LeafNode}

@[simp] theorem id_leaf : (mkLeaf id next entries).id = id := rfl
@[simp] theorem id_branch : (mkBranch id children).id = id := rfl
@[simp] theorem size_leaf : (mkLeaf id next entries).size = entries.length := rfl
@[simp] theorem size_branch : (mkBranch id children).size = children.length := rfl
@[simp] theorem leaves_leaf : (mkLeaf id next entries).leaves = [⟨id,next,entries⟩] := rfl
@[simp] theorem leaves_branch : (mkBranch id children).leaves = leavesOf children := rfl
@[simp] theorem filled_leaf : (mkLeaf id next entries).Filled := trivial
theorem filled_branch : (mkBranch id children).Filled ↔ ∀ c ∈ children, Full c.2 := Iff.rfl
theorem ordered_leaf : (mkLeaf id next entries).Ordered lo hi ↔
    Gap lo hi ∧ Sorted entries ∧ ∀ e ∈ entries, AtLeast lo e.1 ∧ Under hi e.1 := Iff.rfl
theorem ordered_branch : (mkBranch id children).Ordered lo hi ↔
    children ≠ [] ∧ Within Tree.Ordered lo hi children := Iff.rfl

theorem tree_leaf (t : Tree 0) : ∃ id next entries, t = mkLeaf id next entries := ⟨t.id,LeafNode.next t,LeafNode.entries t,rfl⟩
theorem tree_branch (t : Tree (h + 1)) : ∃ id children, t = mkBranch id children := ⟨t.id,BranchNode.children t,rfl⟩

@[simp] theorem leavesOf_nil : leavesOf ([] : List (Key × Tree h)) = [] := rfl
@[simp] theorem leavesOf_cons : leavesOf (c :: A) = c.2.leaves ++ leavesOf A := rfl
@[simp] theorem leavesOf_append : leavesOf (A ++ B) = leavesOf A ++ leavesOf B := by simp [leavesOf]
@[simp] theorem slotsOf_nil : slotsOf ([] : List (Key × Tree h)) = [] := rfl
@[simp] theorem slotsOf_cons : slotsOf (c :: A) = (c.1,c.2.id) :: slotsOf A := rfl
@[simp] theorem slotsOf_append : slotsOf (A ++ B) = slotsOf A ++ slotsOf B := by simp [slotsOf]
@[simp] theorem slotsOf_length : (slotsOf A).length = A.length := by simp [slotsOf]
@[simp] theorem entriesOf_nil : entriesOf [] = [] := rfl
@[simp] theorem entriesOf_cons {l : LeafNode} : entriesOf (l :: ls) = l.entries ++ entriesOf ls := rfl
@[simp] theorem entriesOf_append : entriesOf (ls ++ ls') = entriesOf ls ++ entriesOf ls' := by simp [entriesOf]

@[simp] theorem capacity_leaf : capacity 0 = 253 := rfl
@[simp] theorem capacity_branch : capacity (h + 1) = 338 := rfl
@[simp] theorem minimum_leaf : minimum 0 = 126 := by simp [minimum]
@[simp] theorem minimum_branch : minimum (h + 1) = 169 := by simp [minimum]

/-! ### Order -/

theorem ordered_gap : ∀ {h : Nat} (lo hi : Option Key) (t : Tree h), t.Ordered lo hi → Gap lo hi
  | 0, _, _, _, ordered => ordered.1
  | _ + 1, _, _, _, ordered => Within.gap ordered_gap ordered.1 ordered.2

theorem ordered_bounds : ∀ {h : Nat} (lo hi : Option Key) (t : Tree h), t.Ordered lo hi →
    ∀ e ∈ entriesOf t.leaves, AtLeast lo e.1 ∧ Under hi e.1
  | 0, lo, hi, t, ordered, e, member => by
    obtain ⟨id,next,entries,rfl⟩ := tree_leaf t
    exact (ordered_leaf.mp ordered).2.2 e (by simpa using member)
  | h + 1, lo, hi, t, ordered, e, member => by
    obtain ⟨id,children,rfl⟩ := tree_branch t
    obtain ⟨l,inLeaves,inEntries⟩ := List.mem_flatMap.mp member
    obtain ⟨c,inChildren,inLeaf⟩ := List.mem_flatMap.mp inLeaves
    exact Within.bounds Prod.fst (fun t : Tree h => entriesOf t.leaves) ordered_gap ordered_bounds
      (ordered_branch.mp ordered).2 c inChildren e (List.mem_flatMap.mpr ⟨l,inLeaf,inEntries⟩)

/-- The keys of children in a list are within the bounds of the list. -/
theorem within_bounds (within : Within Tree.Ordered lo hi A) :
    ∀ e ∈ entriesOf (leavesOf A), AtLeast lo e.1 ∧ Under hi e.1 := by
  intro e member
  obtain ⟨l,inLeaves,inEntries⟩ := List.mem_flatMap.mp member
  obtain ⟨c,inChildren,inLeaf⟩ := List.mem_flatMap.mp inLeaves
  exact Within.bounds Prod.fst (fun t : Tree h => entriesOf t.leaves) ordered_gap ordered_bounds
    within c inChildren e (List.mem_flatMap.mpr ⟨l,inLeaf,inEntries⟩)

theorem ordered_sorted : ∀ {h : Nat} (lo hi : Option Key) (t : Tree h), t.Ordered lo hi → Sorted (entriesOf t.leaves)
  | 0, lo, hi, t, ordered => by
    obtain ⟨id,next,entries,rfl⟩ := tree_leaf t
    simpa using (ordered_leaf.mp ordered).2.1
  | h + 1, lo, hi, t, ordered => by
    obtain ⟨id,children,rfl⟩ := tree_branch t
    have within := (ordered_branch.mp ordered).2
    clear ordered
    rw [leaves_branch]
    induction children generalizing lo with
    | nil => exact sorted_nil
    | cons c rest ih =>
      rw [leavesOf_cons,entriesOf_append]
      refine sorted_append.mpr ⟨ordered_sorted _ _ _ within.1,ih _ within.2,?_⟩
      intro a inFirst b inRest
      cases rest with
      | nil => simp at inRest
      | cons d rest =>
        have below := (ordered_bounds _ _ _ within.1 a inFirst).2
        have above := (within_bounds within.2 b inRest).1
        exact lt_of_lt_of_le below above

/-! ### Cutting and joining nodes -/

theorem ordered_joinLeaf {id' next' i n : PageId} {A B : List Entry} {k : Key}
    (left : (mkLeaf id next A).Ordered lo (some k)) (right : (mkLeaf id' next' B).Ordered (some k) hi) :
    (mkLeaf i n (A ++ B)).Ordered lo hi := by
  obtain ⟨gapA,sortedA,boundsA⟩ := ordered_leaf.mp left
  obtain ⟨gapB,sortedB,boundsB⟩ := ordered_leaf.mp right
  refine ordered_leaf.mpr ⟨gapA.trans gapB,sorted_append.mpr ⟨sortedA,sortedB,?_⟩,?_⟩
  · intro a inA b inB
    exact lt_of_lt_of_le (boundsA a inA).2 (boundsB b inB).1
  · intro e member
    rcases List.mem_append.mp member with inA | inB
    · exact ⟨(boundsA e inA).1,gapB.under.trans (le_of_lt (boundsA e inA).2)⟩
    · exact ⟨gapA.atLeast.trans (boundsB e inB).1,(boundsB e inB).2⟩

theorem ordered_cutLeaf {id' next' id'' next'' : PageId} {A B : List Entry} {b : Entry} (inhabited : A ≠ [])
    (ordered : (mkLeaf id next (A ++ b :: B)).Ordered lo hi) :
    (mkLeaf id' next' A).Ordered lo (some b.1) ∧ (mkLeaf id'' next'' (b :: B)).Ordered (some b.1) hi := by
  obtain ⟨gap,sorted,bounds⟩ := ordered_leaf.mp ordered
  obtain ⟨sortedA,sortedB,cross⟩ := sorted_append.mp sorted
  have left : ∀ e ∈ A, AtLeast lo e.1 ∧ e.1 < b.1 := fun e member =>
    ⟨(bounds e (by simp [member])).1,cross e member b (by simp)⟩
  have gapLeft : Gap lo (some b.1) := by
    cases A with
    | nil => exact absurd rfl inhabited
    | cons a A => exact gap_of_lt (left a (by simp)).1 (left a (by simp)).2
  have least : ∀ e ∈ b :: B, b.1 ≤ e.1 := by
    intro e member
    rcases List.mem_cons.mp member with rfl | later
    · exact le_refl _
    · exact ((sorted_cons.mp sortedB).1 e later).le
  refine ⟨ordered_leaf.mpr ⟨gapLeft,sortedA,left⟩,ordered_leaf.mpr ⟨?_,sortedB,fun e member => ?_⟩⟩
  · exact AtLeast.gap (le_refl b.1 : AtLeast (some b.1) b.1) (bounds b (by simp)).2
  · exact ⟨least e member,(bounds e (by simp [List.mem_cons.mp member])).2⟩

theorem ordered_joinBranch {id' i : PageId} {k j : Key} {y : Tree h} (left : (mkBranch id A).Ordered lo (some k))
    (right : (mkBranch id' ((j,y) :: B)).Ordered (some k) hi) : (mkBranch i (A ++ (k,y) :: B)).Ordered lo hi := by
  obtain ⟨inhabited,withinA⟩ := ordered_branch.mp left
  refine ordered_branch.mpr ⟨by simp,within_append.mpr ⟨withinA,?_⟩⟩
  cases A with
  | nil => exact absurd rfl inhabited
  | cons a A => exact (ordered_branch.mp right).2

theorem ordered_cutBranch {id' id'' : PageId} {k j : Key} {y : Tree h} (inhabited : A ≠ [])
    (ordered : (mkBranch id (A ++ (k,y) :: B)).Ordered lo hi) :
    (mkBranch id' A).Ordered lo (some k) ∧ (mkBranch id'' ((j,y) :: B)).Ordered (some k) hi := by
  obtain ⟨withinA,withinB⟩ := within_append.mp (ordered_branch.mp ordered).2
  refine ⟨ordered_branch.mpr ⟨inhabited,withinA⟩,ordered_branch.mpr ⟨by simp,?_⟩⟩
  cases A with
  | nil => exact absurd rfl inhabited
  | cons a A => exact withinB

/-! ### Leaf chains -/

@[simp] theorem headId_append {last : PageId} : headId last (ls ++ ls') = headId (headId last ls') ls := by
  cases ls <;> rfl

theorem linked_append {last : PageId} :
    Linked last (ls ++ ls') ↔ Linked (headId last ls') ls ∧ Linked last ls' := by
  induction ls with
  | nil => simp [Linked]
  | cons l ls ih => simp only [List.cons_append,Linked,ih,headId_append,and_assoc]

end

/-- In any context the leaves `ls'` hold the same entries as `ls` and continue
    the chain as they do. -/
structure Carries (ls ls' : List LeafNode) : Prop where
  entries : entriesOf ls' = entriesOf ls
  linked : ∀ last A B, Linked last (A ++ ls ++ B) → Linked last (A ++ ls' ++ B)

section
variable {ls ls' ls'' A B : List LeafNode}

theorem Carries.refl (ls : List LeafNode) : Carries ls ls := ⟨rfl,fun _ _ _ linked => linked⟩

/-- The chain depends on the ids and links of its leaves alone. -/
theorem linked_of_links (links : ls'.map (fun l => (l.id,l.next)) = ls.map (fun l => (l.id,l.next))) {last : PageId}
    (linked : Linked last (A ++ ls ++ B)) : Linked last (A ++ ls' ++ B) := by
  have same : ∀ (xs ys : List LeafNode), xs.map (fun l => (l.id,l.next)) = ys.map (fun l => (l.id,l.next)) →
      headId last (xs ++ B) = headId last (ys ++ B) ∧ (Linked last (ys ++ B) → Linked last (xs ++ B)) := by
    intro xs
    induction xs with
    | nil =>
      intro ys equal
      rw [List.map_nil,eq_comm,List.map_eq_nil_iff] at equal
      subst equal
      exact ⟨rfl,id⟩
    | cons x xs ih =>
      intro ys equal
      cases ys with
      | nil => simp at equal
      | cons y ys =>
        simp only [List.map_cons,List.cons.injEq,Prod.mk.injEq] at equal
        obtain ⟨heads,links⟩ := ih ys equal.2
        refine ⟨equal.1.1,fun linked => ?_⟩
        exact ⟨equal.1.2.trans (linked.1.trans heads.symm),links linked.2⟩
  rw [List.append_assoc] at linked ⊢
  rw [linked_append] at linked ⊢
  obtain ⟨heads,continued⟩ := same ls' ls links
  exact ⟨by rw [heads]; exact linked.1,continued linked.2⟩

/-- Replacing leaves by others with the same ids and links in a row. -/
theorem carries_of_links (entries : entriesOf ls' = entriesOf ls)
    (links : ls'.map (fun l => (l.id,l.next)) = ls.map (fun l => (l.id,l.next))) : Carries ls ls' :=
  ⟨entries,fun _ _ _ linked => linked_of_links links linked⟩

/-- A leaf divided into two, the new one linked in between. -/
theorem carries_split {id next new : PageId} {A B : List Entry} :
    Carries [⟨id,next,A ++ B⟩] [⟨id,new,A⟩,⟨new,next,B⟩] := by
  refine ⟨by simp,fun last C D linked => ?_⟩
  simp only [List.append_assoc,List.cons_append,List.nil_append,linked_append,headId,Linked,true_and] at linked ⊢
  exact linked

/-- Two neighbours joined into the left one. -/
theorem carries_join {id id' next next' : PageId} {A B : List Entry} :
    Carries [⟨id,next,A⟩,⟨id',next',B⟩] [⟨id,next',A ++ B⟩] := by
  refine ⟨by simp,fun last C D linked => ?_⟩
  simp only [List.append_assoc,List.cons_append,List.nil_append,linked_append,headId,Linked] at linked ⊢
  exact ⟨linked.1,linked.2.2⟩

end

/-! ### Pages -/

/-- What a page shows. -/
abbrev View := BPlusTreePage → Prop

/-- A leaf page with its header. -/
structure LeafShows (id parent next : PageId) (entries : List Entry) (page : BPlusTreeLeafPage) : Prop where
  pageId : page.pageId = id
  parentPageId : page.parentPageId = parent
  nextPageId : page.nextPageId = next
  maxSize : page.maxSize = 253
  holds : page.Holds entries

/-- An internal page with its header. -/
structure InternalShows (id parent : PageId) (slots : List Slot) (page : BPlusTreeInternalPage) : Prop where
  pageId : page.pageId = id
  parentPageId : page.parentPageId = parent
  maxSize : page.maxSize = 338
  holds : page.Holds slots

/-- Methods that change the arrays keep the header. -/
theorem LeafShows.update {id parent next : PageId} {entries entries' : List Entry} {page : BPlusTreeLeafPage}
    (shows : LeafShows id parent next entries page) {size : Nat} {keys : Vector Key 254} {values : Vector RID 254}
    (holds : ({ page with size, keys, values } : BPlusTreeLeafPage).Holds entries') :
    LeafShows id parent next entries' { page with size, keys, values } :=
  ⟨shows.pageId,shows.parentPageId,shows.nextPageId,shows.maxSize,holds⟩

theorem InternalShows.update {id parent : PageId} {slots slots' : List Slot} {page : BPlusTreeInternalPage}
    (shows : InternalShows id parent slots page) {size : Nat} {keys : Vector Key 339} {values : Vector PageId 339}
    (holds : ({ page with size, keys, values } : BPlusTreeInternalPage).Holds slots') :
    InternalShows id parent slots' { page with size, keys, values } :=
  ⟨shows.pageId,shows.parentPageId,shows.maxSize,holds⟩

def leafView (id parent next : PageId) (entries : List Entry) : View
  | .leaf page => LeafShows id parent next entries page
  | .internal _ => False

def internalView (id parent : PageId) (slots : List Slot) : View
  | .leaf _ => False
  | .internal page => InternalShows id parent slots page

/-- The root page of a tree under a parent. -/
def view : {h : Nat} → PageId → Tree h → View
  | 0, parent, t => leafView (LeafNode.id t) parent (LeafNode.next t) (LeafNode.entries t)
  | _ + 1, parent, t => internalView (BranchNode.id t) parent (slotsOf (BranchNode.children t))

abbrev Cells := Multiset (PageId × View)

/-- The pages below the root of a tree. -/
def beneath : {h : Nat} → Tree h → Cells
  | 0, _ => 0
  | _ + 1, t => ((BranchNode.children t).map
      (fun c => {(c.2.id,view (BranchNode.id t) c.2)} + beneath c.2)).sum

/-- The pages of a tree under a parent. -/
def cells {h : Nat} (parent : PageId) (t : Tree h) : Cells := {(t.id,view parent t)} + beneath t

/-- The pages of a list of children under a parent. -/
def cellsOf {h : Nat} (parent : PageId) (children : List (Key × Tree h)) : Cells :=
  (children.map (fun c => cells parent c.2)).sum

section
variable {h : Nat} {id next parent : PageId} {entries : List Entry} {children A B : List (Key × Tree h)}
variable {c : Key × Tree h}

theorem cells_eq (t : Tree h) : cells parent t = {(t.id,view parent t)} + beneath t := rfl

@[simp] theorem view_leaf : view parent (mkLeaf id next entries) = leafView id parent next entries := rfl
@[simp] theorem view_branch : view parent (mkBranch id children) = internalView id parent (slotsOf children) := rfl
@[simp] theorem beneath_leaf : beneath (mkLeaf id next entries) = 0 := rfl
@[simp] theorem beneath_branch : beneath (mkBranch id children) = cellsOf id children := rfl

theorem cells_leaf : cells parent (mkLeaf id next entries) = {(id,leafView id parent next entries)} := by
  simp [cells_eq]

theorem cells_branch : cells parent (mkBranch id children) =
    {(id,internalView id parent (slotsOf children))} + cellsOf id children := by
  simp [cells_eq]

@[simp] theorem cellsOf_nil : cellsOf parent ([] : List (Key × Tree h)) = 0 := rfl
@[simp] theorem cellsOf_cons : cellsOf parent (c :: A) = cells parent c.2 + cellsOf parent A := by simp [cellsOf]
@[simp] theorem cellsOf_append : cellsOf parent (A ++ B) = cellsOf parent A + cellsOf parent B := by simp [cellsOf]

end

/-! ### Paths -/

/-- One branch on the way to a subtree: its other children. -/
structure Frame (h : Nat) where
  id : PageId
  left : List (Key × Tree h)
  key : Key
  right : List (Key × Tree h)

/-- The way from a subtree of height `h` up to the root. -/
inductive Path : Nat → Type
  | top {h : Nat} : Path h
  | step {h : Nat} (frame : Frame h) (above : Path (h + 1)) : Path h

/-- The branch with a subtree in the place left open. -/
def Frame.fill {h : Nat} (f : Frame h) (t : Tree h) : Tree (h + 1) := mkBranch f.id (f.left ++ (f.key,t) :: f.right)

namespace Path
variable {h : Nat}

/-- The parent of the subtree. -/
def parentId : Path h → PageId
  | top => INVALID_PAGE_ID
  | step f _ => f.id

/-- The height of the whole tree. -/
def height : {h : Nat} → Path h → Nat
  | h, top => h
  | _, step _ above => above.height

/-- The root, when the subtree has the given id. -/
def rootId : {h : Nat} → Path h → PageId → PageId
  | _, top, id => id
  | _, step f above, _ => above.rootId f.id

/-- The bounds on the keys of the subtree. -/
def lo : {h : Nat} → Path h → Option Key
  | _, top => none
  | _, step f above => lower above.lo f.key f.left

def hi : {h : Nat} → Path h → Option Key
  | _, top => none
  | _, step f above => upper above.hi f.right

/-- The leaves to the left and to the right of the subtree. -/
def before : {h : Nat} → Path h → List LeafNode
  | _, top => []
  | _, step f above => above.before ++ leavesOf f.left

def after : {h : Nat} → Path h → List LeafNode
  | _, top => []
  | _, step f above => leavesOf f.right ++ above.after

/-- The least size of the subtree. -/
def least : {h : Nat} → Path h → Nat
  | h, top => rootMinimum h
  | h, step _ _ => minimum h

/-- The other subtrees on the way are in order and filled. -/
def Sound : {h : Nat} → Path h → Prop
  | _, top => True
  | h, step f above =>
    Within Tree.Ordered above.lo (some f.key) f.left ∧ Within Tree.Ordered (upper above.hi f.right) above.hi f.right ∧
    (∀ c ∈ f.left, Full c.2) ∧ (∀ c ∈ f.right, Full c.2) ∧
    above.least ≤ f.left.length + f.right.length + 1 ∧ f.left.length + f.right.length + 1 ≤ capacity (h + 1) ∧
    above.Sound

/-- The pages around the subtree, when it has the given id. -/
def cells : {h : Nat} → Path h → PageId → Cells
  | _, top, _ => 0
  | _, step f above, id =>
    {(f.id,internalView f.id above.parentId (slotsOf f.left ++ (f.key,id) :: slotsOf f.right))} +
      cellsOf f.id f.left + cellsOf f.id f.right + above.cells f.id

end Path

/-- A subtree in its place, its own size apart. -/
structure Framed {h : Nat} (path : Path h) (t : Tree h) : Prop where
  sound : path.Sound
  ordered : t.Ordered path.lo path.hi
  filled : t.Filled
  linked : Linked INVALID_PAGE_ID (path.before ++ t.leaves ++ path.after)

/-- All the leaves of the tree around a subtree. -/
def Path.leaves {h : Nat} (path : Path h) (t : Tree h) : List LeafNode := path.before ++ t.leaves ++ path.after

/-- All the pages of the tree around a subtree. -/
def Path.pages {h : Nat} (path : Path h) (t : Tree h) : Cells := path.cells t.id + TreeModel.cells path.parentId t

section
variable {h : Nat} {f : Frame h} {above : Path (h + 1)} {path : Path h} {t : Tree h}

@[simp] theorem top_leaves : Path.top.leaves t = t.leaves := by simp [Path.leaves,Path.before,Path.after]
@[simp] theorem top_pages : Path.top.pages t = cells INVALID_PAGE_ID t := by simp [Path.pages,Path.cells,Path.parentId]

theorem pages_eq : path.pages t = path.cells t.id + cells path.parentId t := rfl

theorem mem_pages : (t.id,view path.parentId t) ∈ path.pages t := by simp [pages_eq,cells_eq]

theorem step_pages (f : Frame h) (above : Path (h + 1)) (t : Tree h) :
    (Path.step f above).pages t = above.pages (f.fill t) := by
  simp only [pages_eq,Path.parentId,Path.cells,Frame.fill,cells_branch,slotsOf_append,slotsOf_cons,cellsOf_append,
    cellsOf_cons,id_branch]
  abel

/-- The page of the parent, its other children and the pages above. -/
theorem step_cells (f : Frame h) (above : Path (h + 1)) (id : PageId) : (Path.step f above).cells id =
    {(f.id,internalView f.id above.parentId (slotsOf f.left ++ (f.key,id) :: slotsOf f.right))} +
      cellsOf f.id f.left + cellsOf f.id f.right + above.cells f.id := rfl

/-- Going up: the subtree and its siblings form the parent's subtree. -/
theorem Framed.up (framed : Framed (.step f above) t) (least : minimum h ≤ t.size) (most : t.size ≤ capacity h) :
    Framed above (f.fill t) := by
  obtain ⟨leftOrdered,rightOrdered,leftFull,rightFull,_,_,sound⟩ := framed.sound
  refine ⟨sound,ordered_branch.mpr ⟨by simp,?_⟩,filled_branch.mpr ?_,?_⟩
  · exact within_append.mpr ⟨leftOrdered,framed.ordered,rightOrdered⟩
  · intro c member
    simp only [List.mem_append,List.mem_cons] at member
    rcases member with left | rfl | right
    · exact leftFull c left
    · exact ⟨least,most,framed.filled⟩
    · exact rightFull c right
  · have linked := framed.linked
    simp only [Path.before,Path.after] at linked
    simpa [Frame.fill] using linked

/-- Going down into a child of a branch. -/
theorem Framed.down {id : PageId} {L R : List (Key × Tree h)} {c : Key × Tree h}
    (framed : Framed above (mkBranch id (L ++ c :: R))) (least : above.least ≤ (L ++ c :: R).length)
    (most : (L ++ c :: R).length ≤ 338) :
    Framed (.step ⟨id,L,c.1,R⟩ above) c.2 ∧ minimum h ≤ c.2.size ∧ c.2.size ≤ capacity h := by
  have full := filled_branch.mp framed.filled
  obtain ⟨leftOrdered,ordered,rightOrdered⟩ := within_append.mp (ordered_branch.mp framed.ordered).2
  have sizes : (L ++ c :: R).length = L.length + R.length + 1 := by simp; omega
  have here := full c (by simp)
  refine ⟨⟨⟨leftOrdered,rightOrdered,fun c member => full c (by simp [member]),fun c member => full c (by simp [member]),
    by simp only; omega,by simp only [capacity_branch]; omega,framed.sound⟩,ordered,here.2.2,?_⟩,here.1,here.2.1⟩
  have linked := framed.linked
  rw [leaves_branch,leavesOf_append,leavesOf_cons] at linked
  simpa [Path.before,Path.after] using linked

theorem step_leaves (f : Frame h) (above : Path (h + 1)) (t : Tree h) :
    (Path.step f above).leaves t = above.leaves (f.fill t) := by
  simp [Path.leaves,Path.before,Path.after,Frame.fill]

end

theorem height_le {h : Nat} (path : Path h) : h ≤ path.height := by
  induction path with
  | top => exact le_refl _
  | step f above ih => exact Nat.le_of_succ_le ih

/-- A subtree in its place is a part of a tree. -/
theorem Framed.plug {h : Nat} (path : Path h) (t : Tree h) (framed : Framed path t)
    (least : path.least ≤ t.size) (most : t.size ≤ capacity h) :
    ∃ (H : Nat) (T : Tree H), H = path.height ∧ Valid T ∧ T.id = path.rootId t.id ∧ T.leaves = path.leaves t ∧
      cells INVALID_PAGE_ID T = path.pages t := by
  induction path with
  | @top h =>
    refine ⟨h,t,rfl,⟨framed.ordered,framed.filled,least,most,?_⟩,rfl,by simp,by simp⟩
    simpa [Path.before,Path.after] using framed.linked
  | @step h f above ih =>
    obtain ⟨_,_,_,_,fits,room,_⟩ := framed.sound
    have size : (f.fill t).size = f.left.length + f.right.length + 1 := by simp [Frame.fill]; omega
    obtain ⟨H,T,height,valid,id,leaves,same⟩ := ih (f.fill t) (framed.up least most) (by omega) (by omega)
    refine ⟨H,T,height,valid,id,leaves.trans (step_leaves f above t).symm,?_⟩
    exact same.trans (step_pages f above t).symm

/-- The leaves before a subtree hold smaller keys, those after it larger ones. -/
theorem Framed.around {h : Nat} {path : Path h} {t : Tree h} (framed : Framed path t) {key : Key}
    (above : AtLeast path.lo key) (below : Under path.hi key) :
    (∀ e ∈ entriesOf path.before, e.1 < key) ∧ ∀ e ∈ entriesOf path.after, key < e.1 := by
  have sound := framed.sound
  clear framed t
  induction path with
  | top => simp [Path.before,Path.after]
  | @step h f path ih =>
    obtain ⟨leftOrdered,rightOrdered,_,_,_,_,pathSound⟩ := sound
    have left : AtLeast path.lo key ∧ ∀ e ∈ entriesOf (leavesOf f.left), e.1 < key := by
      simp only [Path.lo] at above
      cases children : f.left with
      | nil => rw [children] at above; exact ⟨above,by simp⟩
      | cons c rest =>
        rw [children] at above leftOrdered
        have gap : Gap path.lo (some f.key) := Within.gap ordered_gap (by simp) leftOrdered
        exact ⟨gap.atLeast.trans above,fun e member => lt_of_lt_of_le (within_bounds leftOrdered e member).2 above⟩
    have right : Under path.hi key ∧ ∀ e ∈ entriesOf (leavesOf f.right), key < e.1 := by
      simp only [Path.hi] at below
      cases children : f.right with
      | nil => rw [children] at below; exact ⟨below,by simp⟩
      | cons c rest =>
        rw [children] at below rightOrdered
        have gap : Gap (some c.1) path.hi := Within.gap ordered_gap (by simp) rightOrdered
        exact ⟨gap.under.trans (le_of_lt below),fun e member => lt_of_lt_of_le below (within_bounds rightOrdered e member).1⟩
    obtain ⟨before,after⟩ := ih left.1 right.1 pathSound
    constructor
    · intro e member
      simp only [Path.before,entriesOf_append,List.mem_append] at member
      exact member.elim (before e) (left.2 e)
    · intro e member
      simp only [Path.after,entriesOf_append,List.mem_append] at member
      exact member.elim (right.2 e) (after e)

end Aether.TreeModel
