import Aether.TreePages

/-!
Searching the tree: `FindLeafPage` ends at the one leaf whose bounds contain the
key, pinned, and `GetValue` reads the tree's entries as a map. The iterators
`Begin` and `End` fetch one leaf and release it.
-/
namespace Aether.TreeSearch
open Aether.Programs Aether.Types Aether.PageStore Aether.LeafPage Aether.InternalPage Aether.BPlusTree
open Aether.SortedLists Aether.Separators Aether.TreeModel Aether.TreePages

/-- The leaf for a key in its place in a tree with the given root, height,
    leaves and pages. -/
structure Reaches (root : PageId) (height : Nat) (all : List LeafNode) (cs : Cells) (key : Key)
    (path : Path 0) (leaf : Tree 0) : Prop where
  framed : Framed path leaf
  least : path.least ≤ leaf.size
  most : leaf.size ≤ 253
  above : AtLeast path.lo key
  below : Under path.hi key
  rootId : path.rootId leaf.id = root
  height : path.height = height
  leaves : path.leaves leaf = all
  pages : path.pages leaf = cs

section
variable {s : Store BPlusTreePage} {pins : Multiset PageId} {key : Key} {F : Cells} {h : Nat}

/-- The internal page finds the child whose bounds contain the key. -/
theorem lookup_child {id parent : PageId} {page : BPlusTreeInternalPage} {L R : List (Key × Tree h)} {k : Key} {child : Tree h}
    (shows : InternalShows id parent (slotsOf (L ++ (k,child) :: R)) page)
    (left : ∀ c ∈ (L ++ [(k,child)]).drop 1, c.1 ≤ key) (right : ∀ c ∈ R, key < c.1) : page.lookup key = some child.id := by
  have holds := shows.holds
  rw [slotsOf_append,slotsOf_cons] at holds
  refine BPlusTreeInternalPage.lookup_spec holds ?_ ?_
  · have keys : (slotsOf L ++ [(k,child.id)]).drop 1 = slotsOf ((L ++ [(k,child)]).drop 1) := by
      simp [slotsOf]
    rw [keys]
    intro e member
    obtain ⟨c,inLeft,rfl⟩ := List.mem_map.mp member
    exact left c inLeft
  · intro e member
    obtain ⟨c,inRight,rfl⟩ := List.mem_map.mp member
    exact right c inRight

/-- A node that fits into its place is unpinned, and the pages are those of a tree. -/
theorem wp_unpinNode {Q : Bool → Store BPlusTreePage → Prop} {path : Path h} {t : Tree h} {isDirty : Bool} (framed : Framed path t)
    (least : path.least ≤ t.size) (most : t.size ≤ capacity h) (own : Owns s (path.pages t + F) (t.id ::ₘ pins))
    (goal : ∀ s' (H : Nat) (T : Tree H), H = path.height → Valid T → T.id = path.rootId t.id → T.leaves = path.leaves t →
      Owns s' (cells INVALID_PAGE_ID T + F) pins → Q true s') :
    Prog.wp (exec .zeros) Granted (unpinPage t.id isDirty) Q s := by
  obtain ⟨H,T,height,valid,rootId,leaves,pages⟩ := framed.plug path t least most
  refine wp_unpinPage own (fun s' own => ?_)
  exact goal s' H T height valid rootId leaves (own.reorder (by rw [pages]))

theorem does_descend {Q : PageId → Store BPlusTreePage → Prop} : ∀ {h : Nat} (path : Path h) (t : Tree h) (fuel : Nat)
    (s : Store BPlusTreePage), Framed path t → path.least ≤ t.size → t.size ≤ capacity h →
    AtLeast path.lo key → Under path.hi key → h < fuel →
    Owns s (path.pages t + F) (t.id ::ₘ pins) →
    (∀ s' path' leaf, Reaches (path.rootId t.id) path.height (path.leaves t) (path.pages t) key path' leaf →
      Owns s' (path.pages t + F) (leaf.id ::ₘ pins) → Q leaf.id s') →
    Does (descend key fuel (some t.id)) Q s
  | 0, path, t, fuel + 1, s, framed, least, most, above, below, _, own, goal => by
    simp only [descend,deref,Prog.ofOption,Does,Prog.wp_bind,Prog.wp_ret]
    refine wp_getData own (Multiset.mem_add.mpr (.inl mem_pages)) (by simp) (fun page shown => ?_)
    cases page with
    | leaf page =>
      exact goal s path t ⟨framed,least,most,above,below,rfl,rfl,rfl,rfl⟩ own
    | internal page => exact shown.elim
  | h + 1, path, t, fuel + 1, s, framed, least, most, above, below, enough, own, goal => by
    obtain ⟨id,children,rfl⟩ := tree_branch t
    obtain ⟨inhabited,within⟩ := ordered_branch.mp framed.ordered
    obtain ⟨L,⟨k,child⟩,R,rfl,left,right,childAbove,childBelow⟩ := exists_child ordered_gap inhabited within above below
    obtain ⟨childFramed,childLeast,childMost⟩ := framed.down least most
    have up : (Path.step ⟨id,L,k,R⟩ path).pages child = path.pages (mkBranch id (L ++ (k,child) :: R)) :=
      step_pages ⟨id,L,k,R⟩ path child
    have upLeaves : (Path.step ⟨id,L,k,R⟩ path).leaves child = path.leaves (mkBranch id (L ++ (k,child) :: R)) :=
      step_leaves ⟨id,L,k,R⟩ path child
    simp only [descend,deref,Prog.ofOption,Does,Prog.wp_bind,Prog.wp_ret]
    refine wp_getData own (Multiset.mem_add.mpr (.inl mem_pages)) (by simp) (fun page shown => ?_)
    cases page with
    | leaf page => exact shown.elim
    | internal page =>
      rw [view_branch] at shown
      simp only [Prog.wp_bind]
      refine does_inBounds (lookup_child shown left right) ?_
      refine wp_unpinPage own (fun s₁ own => ?_)
      rw [← up] at own goal
      rw [← upLeaves] at goal
      refine wp_fetchPage own (Multiset.mem_add.mpr (.inl mem_pages)) (fun s₂ own => ?_)
      exact does_descend (Path.step ⟨id,L,k,R⟩ path) child fuel s₂ childFramed childLeast childMost childAbove childBelow
        (by omega) own goal

/-- A tree is its own context. -/
theorem valid_framed {T : Tree h} (valid : Valid T) : Framed Path.top T :=
  ⟨trivial,valid.ordered,valid.filled,by simpa [Path.before,Path.after] using valid.linked⟩

theorem does_findLeafPage {Q : Option PageId → Store BPlusTreePage → Prop} {T : Tree h} (valid : Valid T) {fuel : Nat}
    (enough : h < fuel) (own : Owns s (cells INVALID_PAGE_ID T + F) pins)
    (goal : ∀ s' path leaf, Reaches T.id h T.leaves (cells INVALID_PAGE_ID T) key path leaf →
      Owns s' (path.pages leaf + F) (leaf.id ::ₘ pins) → Q (some leaf.id) s') :
    Does (findLeafPage fuel T.id key) Q s := by
  have held : (T.id,view INVALID_PAGE_ID T) ∈ cells INVALID_PAGE_ID T + F := Multiset.mem_add.mpr (.inl mem_cells)
  have inFile : T.id ≠ INVALID_PAGE_ID := own.ne_invalid (Multiset.mem_map_of_mem Prod.fst held)
  rw [findLeafPage,if_neg inFile]
  simp only [Does,Prog.wp_bind]
  refine wp_fetchPage own held (fun s₁ own => ?_)
  rw [← top_pages] at own goal
  rw [← top_leaves] at goal
  refine does_descend Path.top T fuel s₁ (valid_framed valid) valid.least valid.most trivial trivial enough own
    (fun s₂ path leaf reaches own => ?_)
  exact goal s₂ path leaf reaches (by rw [reaches.pages]; exact own)

/-- Cutting all the entries at the leaf for the key. -/
theorem Reaches.entries {root : PageId} {height : Nat} {all : List LeafNode} {cs : Cells} {path : Path 0}
    {id next : PageId} {es : List Entry} (reaches : Reaches root height all cs key path (mkLeaf id next es)) :
    entriesOf all = entriesOf path.before ++ es ++ entriesOf path.after ∧ Sorted es ∧
      (∀ e ∈ entriesOf path.before, e.1 < key) ∧ ∀ e ∈ entriesOf path.after, key < e.1 := by
  obtain ⟨before,after⟩ := reaches.framed.around reaches.above reaches.below
  refine ⟨?_,(ordered_leaf.mp reaches.framed.ordered).2.1,before,after⟩
  rw [← reaches.leaves]
  simp [Path.leaves]

/-- The leaf for a key, cut at the key. -/
theorem does_findLeafPage_cut {Q : Option PageId → Store BPlusTreePage → Prop} {T : Tree h} (valid : Valid T) {fuel : Nat}
    (enough : h < fuel) (own : Owns s (cells INVALID_PAGE_ID T + F) pins)
    (goal : ∀ s' path id next A B, Reaches T.id h T.leaves (cells INVALID_PAGE_ID T) key path (mkLeaf id next (A ++ B)) →
      Sorted (A ++ B) → (∀ e ∈ A, e.1 < key) → (∀ e ∈ B, key ≤ e.1) →
      Owns s' ({(id,leafView id path.parentId next (A ++ B))} + (path.cells id + F)) (id ::ₘ pins) → Q (some id) s') :
    Does (findLeafPage fuel T.id key) Q s := by
  refine does_findLeafPage valid enough own (fun s₁ path leaf reaches own => ?_)
  obtain ⟨id,next,es,rfl⟩ := tree_leaf leaf
  obtain ⟨_,sorted,_,_⟩ := reaches.entries
  obtain ⟨A,B,rfl,left,right⟩ := exists_cut sorted key
  refine goal s₁ path id next A B reaches sorted left right (own.reorder ?_)
  rw [pages_eq,cells_leaf,id_leaf]
  abel

theorem get_around {A B es : List Entry} (before : ∀ e ∈ A, e.1 < key) (after : ∀ e ∈ B, key < e.1) :
    get (A ++ es ++ B) key = get es key := by
  rw [List.append_assoc,get_append_left (fun e member => (before e member).ne),
    get_append_right (fun e member => (after e member).ne')]

/-- The entries around a cut are not those of the key. -/
theorem apart_around {A B L R : List Entry} (before : ∀ e ∈ L, e.1 < key) (after : ∀ e ∈ R, key < e.1)
    (left : ∀ e ∈ A, e.1 < key) (right : ∀ e ∈ B, key < e.1) : (∀ e ∈ L ++ A, e.1 ≠ key) ∧ ∀ e ∈ B ++ R, e.1 ≠ key := by
  constructor
  · intro e member
    exact ((List.mem_append.mp member).elim (before e) (left e)).ne
  · intro e member
    exact ((List.mem_append.mp member).elim (right e) (after e)).ne'

theorem does_getValue {Q : Option RID → Store BPlusTreePage → Prop} {T : Tree h} (valid : Valid T) {fuel : Nat}
    (enough : h < fuel) (own : Owns s (cells INVALID_PAGE_ID T + F) pins)
    (goal : ∀ s', Owns s' (cells INVALID_PAGE_ID T + F) pins → Q (get (entriesOf T.leaves) key) s') :
    Does (getValue fuel T.id key) Q s := by
  have inFile : T.id ≠ INVALID_PAGE_ID :=
    own.ne_invalid (Multiset.mem_map_of_mem Prod.fst (Multiset.mem_add.mpr (.inl mem_cells)))
  rw [getValue,if_neg inFile,Does,Prog.wp_bind]
  refine does_findLeafPage valid enough own (fun s₁ path leaf reaches own => ?_)
  obtain ⟨id,next,es,rfl⟩ := tree_leaf leaf
  obtain ⟨entries,sorted,before,after⟩ := reaches.entries
  simp only [Prog.wp_bind]
  refine does_readLeaf own (Multiset.mem_add.mpr (.inl mem_pages)) (by simp) (fun page shows => ?_)
  refine does_inBounds (BPlusTreeLeafPage.lookup_spec shows.holds sorted key) ?_
  refine wp_unpinPage own (fun s₂ own => ?_)
  rw [reaches.pages] at own
  have found := goal s₂ own
  rw [entries,get_around before after] at found
  exact found

/-- `Begin` at a key makes its iterator on a leaf of the tree. -/
theorem does_beginAt_leaf {Q : BPlusTreeIterator → Store BPlusTreePage → Prop} {T : Tree h} (valid : Valid T) {fuel : Nat}
    (enough : h < fuel) (own : Owns s (cells INVALID_PAGE_ID T + F) pins)
    (goal : ∀ s' l index, l ∈ T.leaves → Owns s' (cells INVALID_PAGE_ID T + F) pins →
      Does (BPlusTreeIterator.create l.id index) Q s') : Does (beginAt fuel T.id key) Q s := by
  have inFile : T.id ≠ INVALID_PAGE_ID :=
    own.ne_invalid (Multiset.mem_map_of_mem Prod.fst (Multiset.mem_add.mpr (.inl mem_cells)))
  rw [beginAt,if_neg inFile,Does,Prog.wp_bind]
  refine does_findLeafPage_cut valid enough own (fun s₁ path id next A B reaches _ left right own => ?_)
  simp only [Prog.wp_bind]
  refine does_readLeaf own mem_here (by simp) (fun page shows => ?_)
  refine does_inBounds (BPlusTreeLeafPage.keyIndex_spec shows.holds left right) ?_
  refine wp_unpinPage own (fun s₂ own => ?_)
  have isLeaf : (⟨id,next,A ++ B⟩ : LeafNode) ∈ T.leaves := by
    rw [← reaches.leaves]
    simp [Path.leaves]
  refine goal s₂ _ A.length isLeaf (own.reorder ?_)
  rw [← reaches.pages,pages_eq,cells_leaf,id_leaf]
  abel

end
end Aether.TreeSearch
