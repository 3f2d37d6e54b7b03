import Aether.TreeSearch

/-!
Insertion: `InsertIntoParent` links the two halves of a split node into a valid
tree, splitting the ancestors that overflow, and `Insert` adds the entry to the
tree's leaves or leaves the tree as it is.
-/
namespace Aether.TreeInsert
open Aether.Programs Aether.Types Aether.PageStore Aether.LeafPage Aether.InternalPage Aether.BPlusTree
open Aether.SortedLists Aether.Separators Aether.TreeModel Aether.TreePages Aether.TreeSearch

section
variable {s : Store BPlusTreePage} {pins : Multiset PageId} {key : Key} {F : Cells} {h : Nat}

/-- Two neighbours in the place of a subtree: the halves of a node that was
    split, separated by a key. -/
structure Halves (path : Path h) (key : Key) (t u : Tree h) : Prop where
  sound : path.Sound
  left : t.Ordered path.lo (some key)
  right : u.Ordered (some key) path.hi
  fullLeft : Full t
  fullRight : Full u
  linked : Linked INVALID_PAGE_ID (path.before ++ t.leaves ++ (u.leaves ++ path.after))

variable {t u : Tree h}

/-- The halves of a root become the children of a new one. -/
theorem Halves.newRoot {q : PageId} {junk : Key} (halves : Halves Path.top key t u) :
    Valid (mkBranch q [(junk,t),(key,u)]) := by
  refine ⟨ordered_branch.mpr ⟨by simp,halves.left,halves.right,trivial⟩,filled_branch.mpr ?_,?_,by simp,?_⟩
  · intro c member
    simp only [List.mem_cons,List.not_mem_nil,or_false] at member
    rcases member with rfl | rfl
    · exact halves.fullLeft
    · exact halves.fullRight
  · simp [rootMinimum]
  · have linked := halves.linked
    simpa [Path.before,Path.after] using linked

/-- The parent of the halves. -/
theorem Halves.parent {f : Frame h} {above : Path (h + 1)} (halves : Halves (.step f above) key t u) :
    Framed above (mkBranch f.id (f.left ++ (f.key,t) :: (key,u) :: f.right)) := by
  obtain ⟨leftOrdered,rightOrdered,leftFull,rightFull,_,_,sound⟩ := halves.sound
  refine ⟨sound,ordered_branch.mpr ⟨by simp,?_⟩,filled_branch.mpr ?_,?_⟩
  · exact within_append.mpr ⟨leftOrdered,halves.left,halves.right,rightOrdered⟩
  · intro c member
    simp only [List.mem_append,List.mem_cons] at member
    rcases member with left | rfl | rfl | right
    · exact leftFull c left
    · exact halves.fullLeft
    · exact halves.fullRight
    · exact rightFull c right
  · have linked := halves.linked
    simp only [Path.before,Path.after] at linked
    simpa using linked

/-- A branch with too many children divided into two halves. -/
theorem halves_split {above : Path (h + 1)} {id q : PageId} {A B : List (Key × Tree h)} {b : Key × Tree h}
    (framed : Framed above (mkBranch id (A ++ b :: B))) (left : A.length = 170) (right : B.length = 168) :
    Halves above b.1 (mkBranch id A) (mkBranch q (b :: B)) := by
  have notEmpty : A ≠ [] := by rintro rfl; simp at left
  obtain ⟨orderedA,orderedB⟩ := ordered_cutBranch (j := b.1) notEmpty framed.ordered
  have full := filled_branch.mp framed.filled
  refine ⟨framed.sound,orderedA,orderedB,⟨by simp [left],by simp [left],filled_branch.mpr fun c member => ?_⟩,
    ⟨by simp [right],by simp [right],filled_branch.mpr fun c member => ?_⟩,?_⟩
  · exact full c (List.mem_append.mpr (.inl member))
  · exact full c (List.mem_append.mpr (.inr member))
  · have linked := framed.linked
    simpa using linked

theorem exists_cut_length {α : Type} {C : List α} {m n : Nat} (length : C.length = m + (n + 1)) :
    ∃ A b B, C = A ++ b :: B ∧ A.length = m ∧ B.length = n := by
  have drop : (C.drop m).length = n + 1 := by simp; omega
  cases rest : C.drop m with
  | nil => rw [rest] at drop; simp at drop
  | cons b B =>
    rw [rest] at drop
    exact ⟨C.take m,b,B,by rw [← rest,List.take_append_drop],by simp; omega,by simpa using drop⟩

theorem does_splitInternal {Q : Key → Store BPlusTreePage → Prop} {id par q : PageId} {C : List (Key × Tree h)}
    {shown : View} (length : C.length = 339) (pinnedId : id ∈ pins) (pinnedQ : q ∈ pins)
    (own : Owns s ({(q,shown)} + (cells par (mkBranch id C) + F)) pins)
    (goal : ∀ s' A b B, C = A ++ b :: B → A.length = 170 → B.length = 168 →
      Owns s' (cells par (mkBranch id A) + cells par (mkBranch q (b :: B)) + F) pins → Q b.1 s') :
    Does (splitInternal id q) Q s := by
  obtain ⟨A,b,B,split,lengthA,lengthB⟩ := exists_cut_length (m := 170) (n := 168) length
  have own₀ : Owns s ({(id,internalView id par (slotsOf C))} + ({(q,shown)} + (cellsOf id C + F))) pins :=
    own.reorder (by rw [cells_branch]; abel)
  simp only [splitInternal,Does,Prog.wp_bind]
  refine does_readInternal own₀ mem_here pinnedId (fun page shows => ?_)
  have holdsAll := shows.holds
  rw [split,slotsOf_append] at holdsAll
  obtain ⟨keys,values,moved,holdsA,holdsB⟩ := BPlusTreeInternalPage.moveHalfTo_spec holdsAll
    (BPlusTreeInternalPage.init_holds q page.parentPageId) (by simp [lengthA,lengthB])
  refine does_inBounds moved ?_
  refine does_writeInternal own₀ pinnedId (shows.update holdsA) (fun s₁ own => ?_)
  have own₁ := own.reorder (add_left_comm _ _ _)
  refine does_writeInternal own₁ pinnedQ (⟨rfl,by exact shows.parentPageId,rfl,holdsB⟩ : InternalShows q par _ _)
    (fun s₂ own => ?_)
  have own₂ : Owns s₂ (cellsOf id ([] : List (Key × Tree h)) + cellsOf id (b :: B) +
      ({(q,internalView q par (slotsOf (b :: B)))} + ({(id,internalView id par (slotsOf A))} + cellsOf id A + F))) pins :=
    own.reorder (by rw [split,cellsOf_append,cellsOf_nil]; abel)
  have count : (slotsOf (b :: B)).length = ([] ++ b :: B).length := by simp
  simp only [count]
  refine does_adoptAll own₂ mem_here pinnedQ (fun s₃ own => ?_)
  have own₃ := own.reorder (add_left_comm _ _ _)
  refine does_readInternal own₃ mem_here pinnedQ (fun new shows => ?_)
  have key : new.keyAt 0 = some b.1 :=
    BPlusTreeInternalPage.keyAt_spec (L := []) (by simpa using shows.holds)
  refine does_inBounds key ?_
  refine goal s₃ A b B split lengthA lengthB (own₃.reorder ?_)
  rw [cells_branch,cells_branch,List.nil_append]
  abel

/-- The halves of a split root become the children of a new root. -/
theorem does_newRoot {Q : PageId → Store BPlusTreePage → Prop} {t u : Tree h} (key : Key) (fuel : Nat) (root : PageId)
    (pinnedT : t.id ∈ pins) (pinnedU : u.id ∈ pins) (own : Owns s (cells INVALID_PAGE_ID t + cells INVALID_PAGE_ID u + F) pins)
    (goal : ∀ s' q, Owns s' (cells INVALID_PAGE_ID (mkBranch q [(0,t),(key,u)]) + F) pins → Q q s') :
    Does (insertIntoParent (fuel + 1) root t.id key u.id) Q s := by
  simp only [insertIntoParent,Does,Prog.wp_bind]
  refine wp_getData own (v := view INVALID_PAGE_ID t) (by simp [cells_eq]) pinnedT (fun old shownOld => ?_)
  obtain ⟨oldId,oldParent,_,_⟩ := view_header shownOld
  have isRoot : old.isRootPage = true := by simp [BPlusTreePage.isRootPage,oldParent]
  rw [if_pos isRoot,Prog.wp_bind]
  refine wp_newPage own (v := fun _ => True) trivial (fun q s₁ fresh own => ?_)
  simp only [Prog.wp_bind]
  refine wp_getData own (v := view INVALID_PAGE_ID u) (by simp [cells_eq]) (by simp [pinnedU]) (fun new shownNew => ?_)
  obtain ⟨newId,_,_,_⟩ := view_header shownNew
  have zero : (BPlusTreeInternalPage.init q INVALID_PAGE_ID).keys[0]? = some 0 := by simp [BPlusTreeInternalPage.init]
  obtain ⟨keys,values,populated,holds⟩ := BPlusTreeInternalPage.populate_spec
    (BPlusTreeInternalPage.init_holds q INVALID_PAGE_ID) zero t.id key u.id
  rw [oldId,newId]
  refine does_inBounds populated ?_
  refine does_writeInternal own (by simp) ⟨rfl,rfl,rfl,holds⟩ (fun s₂ own => ?_)
  have own₂ : Owns s₂ (cells INVALID_PAGE_ID t +
      ({(q,internalView q INVALID_PAGE_ID [(0,t.id),(key,u.id)])} + cells INVALID_PAGE_ID u + F)) (q ::ₘ pins) :=
    own.reorder (by simp only [BPlusTreeInternalPage.init]; abel)
  refine does_setParent own₂ (by simp [pinnedT]) (fun s₃ own => ?_)
  have own₃ : Owns s₃ (cells INVALID_PAGE_ID u +
      ({(q,internalView q INVALID_PAGE_ID [(0,t.id),(key,u.id)])} + cells q t + F)) (q ::ₘ pins) :=
    own.reorder (by abel)
  refine does_setParent own₃ (by simp [pinnedU]) (fun s₄ own => ?_)
  refine wp_unpinPage own (fun s₅ own => ?_)
  refine goal s₅ q (own.reorder ?_)
  simp only [cells_branch,cellsOf_cons,cellsOf_nil,slotsOf_cons,slotsOf_nil]
  abel

/-- What `InsertIntoParent` does with the halves of a node at the end of a path. -/
def Links (fuel : Nat) {h : Nat} (path : Path h) : Prop :=
  ∀ (t u : Tree h) (key : Key) (F : Cells) (pins : Multiset PageId) (s : Store BPlusTreePage)
    (Q : PageId → Store BPlusTreePage → Prop), Halves path key t u → t.id ∈ pins → u.id ∈ pins →
    Owns s (path.cells t.id + cells path.parentId t + cells path.parentId u + F) pins →
    (∀ s' (H : Nat) (T : Tree H), Valid T → H ≤ path.height + 1 →
      T.leaves = path.before ++ t.leaves ++ (u.leaves ++ path.after) →
      Owns s' (cells INVALID_PAGE_ID T + F) pins → Q T.id s') →
    Does (insertIntoParent fuel (path.rootId t.id) t.id key u.id) Q s

theorem links_top (fuel : Nat) : Links (fuel + 1) (.top : Path h) := by
  intro t u key F pins s Q halves pinnedT pinnedU own goal
  simp only [Path.cells,Path.parentId,zero_add] at own
  refine does_newRoot key fuel (Path.top.rootId t.id) pinnedT pinnedU own (fun s₁ q own => ?_)
  refine goal s₁ (h + 1) (mkBranch q [(0,t),(key,u)]) halves.newRoot (le_refl _) ?_ own
  simp [Path.before,Path.after]

/-- Once the parent has got one more child: it stays as it is, or it is split and its halves
    go under its own parent. -/
theorem does_divideParent {Q : PageId → Store BPlusTreePage → Prop} {above : Path (h + 1)} {id : PageId} {C : List (Key × Tree h)}
    {fuel size : Nat} {page : BPlusTreeInternalPage} (recur : Links fuel above) (framed : Framed above (mkBranch id C))
    (length : C.length = size) (least : above.least ≤ size) (most : size ≤ 339)
    (shows : InternalShows id above.parentId (slotsOf C) page) (own : Owns s (above.pages (mkBranch id C) + F) (id ::ₘ pins))
    (goal : ∀ s' (H : Nat) (T : Tree H), Valid T → H ≤ above.height + 1 → T.leaves = above.before ++ leavesOf C ++ above.after →
      Owns s' (cells INVALID_PAGE_ID T + F) pins → Q T.id s') :
    Does (if size ≤ page.maxSize then do
        let _ ← unpinPage id true
        pure (above.rootId id)
      else do
        match ← newPage with
        | none => do
          let _ ← unpinPage id true
          pure (above.rootId id)
        | some newParent => do
          let pushUpKey ← splitInternal id newParent
          let root ← insertIntoParent fuel (above.rootId id) id pushUpKey newParent
          let _ ← unpinPage id true
          let _ ← unpinPage newParent true
          pure root) Q s := by
  rw [shows.maxSize]
  split_ifs with fits
  · rw [Does,Prog.wp_bind]
    have large : above.least ≤ (mkBranch id C).size := by rw [size_branch,length]; exact least
    have small : (mkBranch id C).size ≤ capacity (h + 1) := by rw [size_branch,length]; exact fits
    refine wp_unpinNode framed large small own (fun s₁ H T height valid rootId leaves own => ?_)
    have root : T.id = above.rootId id := rootId
    rw [← root]
    exact goal s₁ H T valid (by rw [height]; exact Nat.le_succ _) leaves own
  · rw [Does,Prog.wp_bind]
    refine wp_newPage own (v := fun _ => True) trivial (fun q s₁ fresh own => ?_)
    have own₁ : Owns s₁ ({(q,fun _ => True)} + (cells above.parentId (mkBranch id C) + (above.cells id + F)))
        (q ::ₘ id ::ₘ pins) := own.reorder (by rw [pages_eq,id_branch]; abel)
    simp only [Prog.wp_bind]
    refine does_splitInternal (by omega) (by simp) (by simp) own₁ (fun s₂ A b B split lengthA lengthB own => ?_)
    have halves : Halves above b.1 (mkBranch id A) (mkBranch q (b :: B)) := by
      rw [split] at framed
      exact halves_split framed lengthA lengthB
    have own₂ : Owns s₂ (above.cells id + cells above.parentId (mkBranch id A) +
        cells above.parentId (mkBranch q (b :: B)) + F) (q ::ₘ id ::ₘ pins) := own.reorder (by abel)
    refine recur (mkBranch id A) (mkBranch q (b :: B)) b.1 F _ s₂ _ halves (by simp) (by simp) own₂
      (fun s₃ H T valid height leaves own => ?_)
    refine wp_unpinPage (own.repin (Multiset.cons_swap _ _ _)) (fun s₄ own => ?_)
    refine wp_unpinPage own (fun s₅ own => ?_)
    refine goal s₅ H T valid height ?_ own
    rw [leaves,split]
    simp

theorem links_step {fuel : Nat} (f : Frame h) (above : Path (h + 1)) (recur : Links fuel above) : Links (fuel + 1) (.step f above) := by
  intro t u key F pins s Q halves pinnedT pinnedU own goal
  obtain ⟨_,_,_,_,least,most,_⟩ := halves.sound
  rw [capacity_branch] at most
  have framed := halves.parent
  obtain ⟨G,isG⟩ : ∃ G, G = cells f.id t + cellsOf f.id f.left + cellsOf f.id f.right + above.cells f.id + F := ⟨_,rfl⟩
  have own₀ : Owns s ({(f.id,internalView f.id above.parentId (slotsOf f.left ++ (f.key,t.id) :: slotsOf f.right))} +
      (cells f.id u + G)) pins :=
    own.reorder (by simp only [isG,step_cells,Path.parentId]; abel)
  have siblings : Owns s (cellsOf f.id f.left + cells f.id t + ({(f.id,internalView f.id above.parentId
      (slotsOf f.left ++ (f.key,t.id) :: slotsOf f.right))} + cellsOf f.id f.right + above.cells f.id + cells f.id u + F))
      pins := own₀.reorder (by rw [isG]; abel)
  have valid : f.id ≠ INVALID_PAGE_ID := own₀.ne_invalid (Multiset.mem_map_of_mem Prod.fst mem_here)
  simp only [insertIntoParent,Does,Prog.wp_bind]
  refine wp_getData own₀ (v := view f.id t) (by simp [isG,cells_eq]) pinnedT (fun old shownOld => ?_)
  obtain ⟨oldId,oldParent,_,_⟩ := view_header shownOld
  have notRoot : ¬ old.isRootPage = true := by simp [BPlusTreePage.isRootPage,oldParent,valid]
  rw [if_neg notRoot,Prog.wp_bind,oldParent,oldId]
  refine wp_fetchPage own₀ mem_here (fun s₁ own => ?_)
  simp only [Prog.wp_bind]
  refine wp_getData own (v := view f.id u) (by simp [cells_eq]) (by simp [pinnedU]) (fun new shownNew => ?_)
  obtain ⟨newId,_,_,_⟩ := view_header shownNew
  rw [newId]
  refine does_readInternal own mem_here (by simp) (fun page shows => ?_)
  obtain ⟨keys,values,inserted,holds⟩ := BPlusTreeInternalPage.insertNodeAfter_spec shows.holds (sibling_absent siblings)
    (by simp; omega) key u.id
  refine does_inBounds inserted ?_
  refine does_writeInternal own (by simp) (shows.update holds) (fun s₂ own => ?_)
  have own₂ := own.reorder (add_left_comm _ _ _)
  refine does_setParent own₂ (by simp [pinnedU]) (fun s₃ own => ?_)
  -- the parent with the children it has now
  obtain ⟨C,isC⟩ : ∃ C, C = f.left ++ (f.key,t) :: (key,u) :: f.right := ⟨_,rfl⟩
  have slots : slotsOf f.left ++ (f.key,t.id) :: (key,u.id) :: slotsOf f.right = slotsOf C := by simp [isC]
  have own₃ : Owns s₃ (above.pages (mkBranch f.id C) + F) (f.id ::ₘ pins) := by
    refine own.reorder ?_
    simp only [slots,isC,isG,pages_eq,cells_branch,id_branch,cellsOf_append,cellsOf_cons]
    abel
  have length : C.length = f.left.length + f.right.length + 2 := by simp [isC]; omega
  have shows' := shows.update holds
  rw [slots] at shows'
  rw [← isC] at framed
  have leaves : (Path.step f above).before ++ t.leaves ++ (u.leaves ++ (Path.step f above).after) =
      above.before ++ leavesOf C ++ above.after := by simp [isC,Path.before,Path.after]
  rw [leaves] at goal
  exact does_divideParent recur framed (by rw [length]; simp) (by simp; omega) (by simp; omega) shows' own₃ goal

/-- The halves of a node are linked on every path, by induction on the path. -/
theorem links (path : Path h) : ∀ {fuel : Nat}, path.height < fuel + h → Links fuel path := by
  induction path with
  | @top h =>
    intro fuel enough
    cases fuel with
    | zero => simp [Path.height] at enough
    | succ fuel => exact links_top fuel
  | @step h f above ih =>
    intro fuel enough
    have deeper : h + 1 ≤ above.height := height_le above
    have same : (Path.step f above).height = above.height := rfl
    cases fuel with
    | zero => omega
    | succ fuel => exact links_step f above (ih (by omega))

/-! ### Leaves -/

variable {path : Path 0} {id next : PageId} {value : RID} {A B E : List Entry}

theorem framed_insert (framed : Framed path (mkLeaf id next (A ++ B))) (above : AtLeast path.lo key)
    (below : Under path.hi key) (left : ∀ e ∈ A, e.1 < key) (right : ∀ e ∈ B, key < e.1) (value : RID) :
    Framed path (mkLeaf id next (A ++ (key,value) :: B)) := by
  obtain ⟨gap,sorted,bounds⟩ := ordered_leaf.mp framed.ordered
  refine ⟨framed.sound,ordered_leaf.mpr ⟨gap,sorted_insert sorted left right,?_⟩,trivial,
    linked_of_links (by simp) framed.linked⟩
  intro e member
  simp only [List.mem_append,List.mem_cons] at member
  rcases member with inA | rfl | inB
  · exact bounds e (by simp [inA])
  · exact ⟨above,below⟩
  · exact bounds e (by simp [inB])

/-- A leaf with too many entries divided into two halves. -/
theorem halves_splitLeaf {q : PageId} {b : Entry} (framed : Framed path (mkLeaf id next (A ++ b :: B)))
    (left : A.length = 127) (right : B.length = 126) :
    Halves path b.1 (mkLeaf id q A) (mkLeaf q next (b :: B)) := by
  have notEmpty : A ≠ [] := by rintro rfl; simp at left
  obtain ⟨orderedA,orderedB⟩ := ordered_cutLeaf notEmpty framed.ordered
  refine ⟨framed.sound,orderedA,orderedB,⟨by simp [left],by simp [left],trivial⟩,
    ⟨by simp [right],by simp [right],trivial⟩,?_⟩
  have split : Carries [⟨id,next,A ++ b :: B⟩] [⟨id,q,A⟩,⟨q,next,b :: B⟩] := carries_split
  simpa using split.linked INVALID_PAGE_ID path.before path.after framed.linked

theorem does_splitLeaf {Q : Key → Store BPlusTreePage → Prop} {par q : PageId} {shown : View} (length : E.length = 254)
    (pinnedId : id ∈ pins) (pinnedQ : q ∈ pins) (own : Owns s ({(q,shown)} + (cells par (mkLeaf id next E) + F)) pins)
    (goal : ∀ s' A b B, E = A ++ b :: B → A.length = 127 → B.length = 126 →
      Owns s' (cells par (mkLeaf id q A) + cells par (mkLeaf q next (b :: B)) + F) pins → Q b.1 s') :
    Does (splitLeaf id q) Q s := by
  obtain ⟨A,b,B,split,lengthA,lengthB⟩ := exists_cut_length (m := 127) (n := 126) length
  have own₀ : Owns s ({(id,leafView id par next E)} + ({(q,shown)} + F)) pins :=
    own.reorder (by rw [cells_leaf]; abel)
  simp only [splitLeaf,Does,Prog.wp_bind]
  refine does_readLeaf own₀ mem_here pinnedId (fun page shows => ?_)
  have holds : ({ page with nextPageId := q } : BPlusTreeLeafPage).Holds (A ++ b :: B) :=
    split ▸ ⟨shows.holds.size,shows.holds.keys,shows.holds.values⟩
  have empty : ({ BPlusTreeLeafPage.init q page.parentPageId with nextPageId := page.nextPageId } :
      BPlusTreeLeafPage).Holds [] :=
    have fresh := BPlusTreeLeafPage.init_holds q page.parentPageId
    ⟨fresh.size,fresh.keys,fresh.values⟩
  obtain ⟨keys,values,moved,holdsA,holdsB⟩ := BPlusTreeLeafPage.moveHalfTo_spec holds empty (by simp [lengthA,lengthB])
  refine does_inBounds moved ?_
  refine does_writeLeaf own₀ pinnedId ⟨shows.pageId,shows.parentPageId,rfl,shows.maxSize,holdsA⟩ (fun s₁ own => ?_)
  have own₁ := own.reorder (add_left_comm _ _ _)
  refine does_writeLeaf own₁ pinnedQ
    (⟨rfl,by exact shows.parentPageId,by exact shows.nextPageId,rfl,holdsB⟩ : LeafShows q par next _ _) (fun s₂ own => ?_)
  have key : keys[0]? = some b.1 := BPlusTreeLeafPage.keyAt (A := []) (by simpa using holdsB)
  refine does_inBounds key ?_
  refine goal s₂ A b B split lengthA lengthB (own.reorder ?_)
  rw [cells_leaf,cells_leaf]
  abel

/-! ### The operation -/

variable {T : Tree h} {fuel : Nat}

/-- What an insertion adds to the entries of a tree. -/
structure Added (entries : List Entry) (key : Key) (value : RID) (entries' : List Entry) : Prop where
  absent : get entries key = none
  entries : ∀ k, get entries' k = if k = key then some value else get entries k

theorem added_around {A B L R : List Entry} (before : ∀ e ∈ L, e.1 < key) (after : ∀ e ∈ R, key < e.1)
    (left : ∀ e ∈ A, e.1 < key) (right : ∀ e ∈ B, key < e.1) :
    Added (L ++ (A ++ B) ++ R) key value (L ++ (A ++ (key,value) :: B) ++ R) := by
  obtain ⟨smaller,larger⟩ := apart_around before after left right
  have old : L ++ (A ++ B) ++ R = (L ++ A) ++ (B ++ R) := by simp
  have new : L ++ (A ++ (key,value) :: B) ++ R = (L ++ A) ++ (key,value) :: (B ++ R) := by simp
  rw [old,new]
  refine ⟨?_,fun k => get_insert smaller value k⟩
  rw [get_append_left smaller]
  exact get_none larger

/-- Once the leaf has got one more entry: it stays as it is, or it is split and its halves
    go under its parent. -/
theorem does_divide {Q : Bool × PageId → Store BPlusTreePage → Prop} {root : PageId} {size : Nat} {page : BPlusTreeLeafPage}
    (framed : Framed path (mkLeaf id next E)) (rootId : path.rootId id = root) (enough : path.height < fuel) (length : E.length = size)
    (least : path.least ≤ size) (most : size ≤ 254) (shows : LeafShows id path.parentId next E page)
    (own : Owns s (path.pages (mkLeaf id next E) + F) (id ::ₘ pins))
    (goal : ∀ s' (H : Nat) (T' : Tree H), Valid T' → H ≤ path.height + 1 →
      entriesOf T'.leaves = entriesOf (path.leaves (mkLeaf id next E)) → Owns s' (cells INVALID_PAGE_ID T' + F) pins → Q (true,T'.id) s') :
    Does (if size ≤ page.maxSize then do
        let _ ← unpinPage id true
        pure (true,root)
      else do
        match ← newPage with
        | none => do
          let _ ← unpinPage id true
          pure (false,root)
        | some newPage => do
          let splitKey ← splitLeaf id newPage
          let root ← insertIntoParent fuel root id splitKey newPage
          let _ ← unpinPage id true
          let _ ← unpinPage newPage true
          pure (true,root)) Q s := by
  rw [shows.maxSize]
  split_ifs with fits
  · rw [Does,Prog.wp_bind]
    have large : path.least ≤ (mkLeaf id next E).size := by rw [size_leaf,length]; exact least
    have small : (mkLeaf id next E).size ≤ capacity 0 := by rw [size_leaf,length]; exact fits
    refine wp_unpinNode framed large small own (fun s₁ H T' height valid' rootId' leaves own => ?_)
    have same : T'.id = root := rootId'.trans rootId
    rw [← same]
    exact goal s₁ H T' valid' (by rw [height]; exact Nat.le_succ _) (congrArg entriesOf leaves) own
  · rw [Does,Prog.wp_bind]
    refine wp_newPage own (v := fun _ => True) trivial (fun q s₁ unused own => ?_)
    have own₁ : Owns s₁ ({(q,fun _ => True)} + (cells path.parentId (mkLeaf id next E) + (path.cells id + F))) (q ::ₘ id ::ₘ pins) :=
      own.reorder (by rw [pages_eq,id_leaf]; abel)
    simp only [Prog.wp_bind]
    refine does_splitLeaf (by omega) (by simp) (by simp) own₁ (fun s₂ L b R split lengthL lengthR own => ?_)
    have halves : Halves path b.1 (mkLeaf id q L) (mkLeaf q next (b :: R)) := by
      rw [split] at framed
      exact halves_splitLeaf framed lengthL lengthR
    have own₂ : Owns s₂ (path.cells id + cells path.parentId (mkLeaf id q L) +
        cells path.parentId (mkLeaf q next (b :: R)) + F) (q ::ₘ id ::ₘ pins) := own.reorder (by abel)
    rw [← rootId]
    refine links path enough (mkLeaf id q L) (mkLeaf q next (b :: R)) b.1 F _ s₂ _ halves (by simp) (by simp) own₂
      (fun s₃ H T' valid' height leaves own => ?_)
    refine wp_unpinPage (own.repin (Multiset.cons_swap _ _ _)) (fun s₄ own => ?_)
    refine wp_unpinPage own (fun s₅ own => ?_)
    refine goal s₅ H T' valid' height ?_ own
    rw [leaves]
    simp [Path.leaves,split]

/-- Insertion of a new key extends the tree's map, of a present one changes
    nothing. -/
theorem does_insert {Q : Bool × PageId → Store BPlusTreePage → Prop} (valid : Valid T) (enough : h < fuel)
    (own : Owns s (cells INVALID_PAGE_ID T + F) pins)
    (present : ∀ s', get (entriesOf T.leaves) key ≠ none → Owns s' (cells INVALID_PAGE_ID T + F) pins → Q (false,T.id) s')
    (absent : ∀ s' (H : Nat) (T' : Tree H), Valid T' → H ≤ h + 1 →
      Added (entriesOf T.leaves) key value (entriesOf T'.leaves) →
      Owns s' (cells INVALID_PAGE_ID T' + F) pins → Q (true,T'.id) s') :
    Does (BPlusTree.insert fuel T.id key value) Q s := by
  have inFile : T.id ≠ INVALID_PAGE_ID :=
    own.ne_invalid (Multiset.mem_map_of_mem Prod.fst (Multiset.mem_add.mpr (.inl mem_cells)))
  rw [BPlusTree.insert,if_neg inFile,Does,Prog.wp_bind]
  refine does_findLeafPage_cut valid enough own (fun s₁ path id next A B reaches sorted left right own₁ => ?_)
  obtain ⟨entries,_,before,after⟩ := reaches.entries
  simp only [Prog.wp_bind]
  refine does_readLeaf own₁ mem_here (by simp) (fun page shows => ?_)
  rcases cut_cases sorted right with fresh | ⟨other,C,rfl,fresh⟩
  · obtain ⟨keys,values,inserted,holds⟩ := BPlusTreeLeafPage.insert_spec shows.holds left fresh
      (by have := reaches.most; simp at this; omega) value
    refine does_inBounds inserted ?_
    refine does_writeLeaf own₁ (by simp) (shows.update holds) (fun s₂ own => ?_)
    have size : page.size = A.length + B.length := by simpa using shows.holds.size
    rw [if_neg (by omega)]
    have added : Added (entriesOf T.leaves) key value (entriesOf (path.leaves (mkLeaf id next (A ++ (key,value) :: B)))) := by
      rw [entries]
      simpa [Path.leaves] using added_around before after left fresh
    have own₂ : Owns s₂ (path.pages (mkLeaf id next (A ++ (key,value) :: B)) + F) (id ::ₘ pins) :=
      own.reorder (by rw [pages_eq,cells_leaf,id_leaf]; abel)
    have deep : path.height < fuel := by rw [reaches.height]; exact enough
    have least := reaches.least
    have most := reaches.most
    simp only [size_leaf,List.length_append] at least most
    refine does_divide (framed_insert reaches.framed reaches.above reaches.below left fresh value) reaches.rootId deep
      (by rw [List.length_append,List.length_cons]; omega) (by omega) (by omega) (shows.update holds) own₂
      (fun s₃ H T' valid' height entries' own₃ => ?_)
    exact absent s₃ H T' valid' (by rw [← reaches.height]; exact height) (entries' ▸ added) own₃
  · refine does_inBounds (BPlusTreeLeafPage.insert_present shows.holds left fresh value) ?_
    simp only
    refine does_writeLeaf own₁ (by simp) shows (fun s₂ own => ?_)
    simp only [if_true,Prog.wp_bind]
    refine wp_unpinPage own (fun s₃ own => ?_)
    refine present s₃ ?_ (own.reorder ?_)
    · rw [entries,get_around before after,get_append_left (fun e member => (left e member).ne),get_cons_self]
      simp
    · rw [← reaches.pages,pages_eq,cells_leaf,id_leaf]
      abel

end
end Aether.TreeInsert
