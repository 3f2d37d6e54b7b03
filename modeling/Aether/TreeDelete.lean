import Aether.TreeRebalance
import Aether.TreeSearch

/-!
Deletion: `HandleUnderflow` repairs a node that lost an entry or a child and the
ancestors that lose one in turn, and `Delete` removes the entry from the tree's
leaves. Pages that become empty leave the tree; they are freed unless somebody
has them pinned.
-/
namespace Aether.TreeDelete
open Aether.Programs Aether.Types Aether.PageStore Aether.LeafPage Aether.InternalPage Aether.BPlusTree
open Aether.SortedLists Aether.Separators Aether.TreeModel Aether.TreePages Aether.TreeSearch Aether.TreeRebalance

section
variable {h : Nat}

/-- Two neighbours under a parent, one of which may be too small. -/
structure Pair (above : Path (h + 1)) (L : List (Key × Tree h)) (j : Key) (a : Tree h) (k : Key) (b : Tree h)
    (R : List (Key × Tree h)) : Prop where
  sound : above.Sound
  within : Within Tree.Ordered above.lo above.hi (L ++ (j,a) :: (k,b) :: R)
  fullLeft : ∀ c ∈ L, Full c.2
  fullRight : ∀ c ∈ R, Full c.2
  filledA : a.Filled
  filledB : b.Filled
  least : above.least ≤ L.length + R.length + 2
  most : L.length + R.length + 2 ≤ 338
  linked : Linked INVALID_PAGE_ID (above.before ++ leavesOf (L ++ (j,a) :: (k,b) :: R) ++ above.after)

variable {above : Path (h + 1)} {L R : List (Key × Tree h)} {j k k' : Key} {a b a' b' t : Tree h} {id : PageId}
variable {lo hi : Option Key}

theorem within_pair : Within Tree.Ordered lo hi (L ++ (j,a) :: (k,b) :: R) ↔
    Within Tree.Ordered lo (some j) L ∧ a.Ordered (lower lo j L) (some k) ∧ b.Ordered (some k) (upper hi R) ∧
      Within Tree.Ordered (upper hi R) hi R := by
  rw [within_append,within_cons,within_cons,upper_cons]

theorem pair_left (framed : Framed (.step ⟨id,L ++ [(j,a)],k,R⟩ above) b) : Pair above L j a k b R ∧ Full a := by
  obtain ⟨leftOrdered,rightOrdered,leftFull,rightFull,least,most,sound⟩ := framed.sound
  have full := leftFull (j,a) (by simp)
  have sizes : (L ++ [(j,a)]).length = L.length + 1 := by simp
  have children : L ++ (j,a) :: (k,b) :: R = (L ++ [(j,a)]) ++ (k,b) :: R := by simp
  simp only [sizes,capacity_branch] at least most
  refine ⟨⟨sound,?_,fun c member => leftFull c (by simp [member]),rightFull,full.2.2,framed.filled,by omega,by omega,?_⟩,full⟩
  · rw [children]
    exact within_append.mpr ⟨leftOrdered,framed.ordered,rightOrdered⟩
  · have linked := framed.linked
    simp only [Path.before,Path.after] at linked
    simpa using linked

theorem pair_right (framed : Framed (.step ⟨id,L,j,(k,b) :: R⟩ above) a) : Pair above L j a k b R ∧ Full b := by
  obtain ⟨leftOrdered,rightOrdered,leftFull,rightFull,least,most,sound⟩ := framed.sound
  have full := rightFull (k,b) (by simp)
  simp only [List.length_cons,capacity_branch] at least most
  refine ⟨⟨sound,?_,leftFull,fun c member => rightFull c (by simp [member]),framed.filled,full.2.2,by omega,by omega,?_⟩,full⟩
  · exact within_append.mpr ⟨leftOrdered,framed.ordered,rightOrdered⟩
  · have linked := framed.linked
    simp only [Path.before,Path.after] at linked
    simpa using linked

/-- The parent after its two children have been cut elsewhere. -/
theorem Pair.recut (pair : Pair above L j a k b R) (recut : Recut a k b a' k' b')
    (sizeA : minimum h ≤ a'.size ∧ a'.size ≤ capacity h) (sizeB : minimum h ≤ b'.size ∧ b'.size ≤ capacity h) :
    Framed above (mkBranch id (L ++ (j,a') :: (k',b') :: R)) := by
  obtain ⟨left,orderedA,orderedB,right⟩ := within_pair.mp pair.within
  obtain ⟨orderedA',orderedB'⟩ := recut.ordered _ _ orderedA orderedB
  obtain ⟨filledA,filledB⟩ := recut.filled pair.filledA pair.filledB
  refine ⟨pair.sound,ordered_branch.mpr ⟨by simp,within_pair.mpr ⟨left,orderedA',orderedB',right⟩⟩,
    filled_branch.mpr fun c member => ?_,?_⟩
  · simp only [List.mem_append,List.mem_cons] at member
    rcases member with inL | rfl | rfl | inR
    · exact pair.fullLeft c inL
    · exact ⟨sizeA.1,sizeA.2,filledA⟩
    · exact ⟨sizeB.1,sizeB.2,filledB⟩
    · exact pair.fullRight c inR
  · have linked := recut.carries.linked INVALID_PAGE_ID (above.before ++ leavesOf L) (leavesOf R ++ above.after)
    have before := pair.linked
    simp only [leavesOf_append,leavesOf_cons,List.append_assoc] at linked before
    simpa using linked before

/-- The parent after its two children have been joined. -/
theorem Pair.joined (pair : Pair above L j a k b R) (joined : Joined a k b t)
    (size : minimum h ≤ t.size ∧ t.size ≤ capacity h) : Framed above (mkBranch id (L ++ (j,t) :: R)) := by
  obtain ⟨left,orderedA,orderedB,right⟩ := within_pair.mp pair.within
  have orderedT := joined.ordered _ _ orderedA orderedB
  refine ⟨pair.sound,ordered_branch.mpr ⟨by simp,within_append.mpr ⟨left,orderedT,right⟩⟩,
    filled_branch.mpr fun c member => ?_,?_⟩
  · simp only [List.mem_append,List.mem_cons] at member
    rcases member with inL | rfl | inR
    · exact pair.fullLeft c inL
    · exact ⟨size.1,size.2,joined.filled pair.filledA pair.filledB⟩
    · exact pair.fullRight c inR
  · have linked := joined.carries.linked INVALID_PAGE_ID (above.before ++ leavesOf L) (leavesOf R ++ above.after)
    have before := pair.linked
    simp only [leavesOf_append,leavesOf_cons,List.append_assoc] at linked before
    simpa using linked before

end

/-! ### Siblings -/

section
variable {s : Store BPlusTreePage} {pins : Multiset PageId} {F : Cells} {h : Nat}
variable {id par : PageId} {L R : List Slot} {j k : Key} {i : Int} {a b : Tree h} {lo hi : Option Key}

theorem two_le_minimum : 2 ≤ minimum h := by
  cases h <;> simp

theorem capacity_eq : capacity h = minimum h * 2 + 1 ∨ capacity h = minimum h * 2 := by
  cases h <;> simp

/-- The left neighbour gives its last entry or child if it can spare it. -/
theorem does_borrowLeft {Q : Bool → Store BPlusTreePage → Prop}
    (own : Owns s (parentCell id par L j a.id k b.id R + (cells id a + (cells id b + F))) pins)
    (pinned : id ∈ pins) (pinnedB : b.id ∈ pins) (index : i = L.length + 1)
    (left : a.Ordered lo (some k)) (right : b.Ordered (some k) hi) (room : b.size < minimum h)
    (spare : ∀ s' a' k' b', minimum h < a.size → Recut a k b a' k' b' → a'.size + 1 = a.size → b'.size = b.size + 1 →
      Owns s' (parentCell id par L j a.id k' b.id R + (cells id a' + (cells id b' + F))) pins → Q true s')
    (tight : ∀ s', a.size ≤ minimum h →
      Owns s' (parentCell id par L j a.id k b.id R + (cells id a + (cells id b + F))) pins → Q false s') :
    Does (borrow b.id id i true) Q s := by
  simp only [borrow,if_true,Does,Prog.wp_bind]
  refine does_readInternal own mem_here pinned (fun page shows => ?_)
  have position : (i - 1).toNat = L.length := by omega
  rw [position]
  refine does_inBounds (BPlusTreeInternalPage.valueAt_spec shows.holds) ?_
  have held : (a.id,view id a) ∈ parentCell id par L j a.id k b.id R + (cells id a + (cells id b + F)) := by simp [cells_eq]
  refine wp_fetchPage own held (fun s₁ own => ?_)
  simp only [Prog.wp_bind]
  refine wp_getData own held (by simp) (fun content shown => ?_)
  obtain ⟨_,_,size,maxSize⟩ := view_header shown
  have half : content.getMaxSize / 2 = minimum h := by rw [maxSize]; rfl
  have atLeastTwo := two_le_minimum (h := h)
  rw [half,size]
  by_cases more : minimum h < a.size
  · rw [if_pos more]
    simp only [Prog.wp_bind]
    refine does_redistributeLeft own (by simp [pinned]) (by simp) (by simp [pinnedB]) index left right (by omega)
      (by rcases capacity_eq (h := h) with c | c <;> omega) (fun s₂ a' k' b' recut sizeA sizeB own => ?_)
    exact wp_unpinPage own (fun s₃ own => spare s₃ a' k' b' more recut sizeA sizeB own)
  · rw [if_neg more]
    simp only [Prog.wp_bind]
    exact wp_unpinPage own (fun s₂ own => tight s₂ (by omega) own)

/-- The right neighbour gives its first entry or child if it can spare it. -/
theorem does_borrowRight {Q : Bool → Store BPlusTreePage → Prop}
    (own : Owns s (parentCell id par L j a.id k b.id R + (cells id a + (cells id b + F))) pins)
    (pinned : id ∈ pins) (pinnedA : a.id ∈ pins) (index : i = L.length)
    (left : a.Ordered lo (some k)) (right : b.Ordered (some k) hi) (room : a.size < minimum h)
    (spare : ∀ s' a' k' b', minimum h < b.size → Recut a k b a' k' b' → a'.size = a.size + 1 → b'.size + 1 = b.size →
      Owns s' (parentCell id par L j a.id k' b.id R + (cells id a' + (cells id b' + F))) pins → Q true s')
    (tight : ∀ s', b.size ≤ minimum h →
      Owns s' (parentCell id par L j a.id k b.id R + (cells id a + (cells id b + F))) pins → Q false s') :
    Does (borrow a.id id i false) Q s := by
  simp only [borrow,Bool.false_eq_true,if_false,Does,Prog.wp_bind]
  refine does_readInternal own mem_here pinned (fun page shows => ?_)
  have holds : page.Holds ((L ++ [(j,a.id)]) ++ (k,b.id) :: R) := by simpa using shows.holds
  have position : (i + 1).toNat = (L ++ [(j,a.id)]).length := by simp; omega
  rw [position]
  refine does_inBounds (BPlusTreeInternalPage.valueAt_spec holds) ?_
  have held : (b.id,view id b) ∈ parentCell id par L j a.id k b.id R + (cells id a + (cells id b + F)) := by simp [cells_eq]
  refine wp_fetchPage own held (fun s₁ own => ?_)
  simp only [Prog.wp_bind]
  refine wp_getData own held (by simp) (fun content shown => ?_)
  obtain ⟨_,_,size,maxSize⟩ := view_header shown
  have half : content.getMaxSize / 2 = minimum h := by rw [maxSize]; rfl
  have atLeastTwo := two_le_minimum (h := h)
  rw [half,size]
  by_cases more : minimum h < b.size
  · rw [if_pos more]
    simp only [Prog.wp_bind]
    refine does_redistributeRight own (by simp [pinned]) (by simp [pinnedA]) (by simp) index left right (by omega)
      (by rcases capacity_eq (h := h) with c | c <;> omega) (fun s₂ a' k' b' recut sizeA sizeB own => ?_)
    exact wp_unpinPage own (fun s₃ own => spare s₃ a' k' b' more recut sizeA sizeB own)
  · rw [if_neg more]
    simp only [Prog.wp_bind]
    exact wp_unpinPage own (fun s₂ own => tight s₂ (by omega) own)

/-- A node merged into its left neighbour: its page, which is pinned, stays
    allocated outside the tree. -/
theorem does_mergeLeft {Q : Unit → Store BPlusTreePage → Prop}
    (own : Owns s (parentCell id par L j a.id k b.id R + (cells id a + (cells id b + F))) pins)
    (pinned : id ∈ pins) (pinnedB : b.id ∈ pins) (index : i = L.length + 1)
    (right : b.Ordered lo hi) (room : a.size + b.size ≤ capacity h)
    (goal : ∀ s' t dead, Joined a k b t →
      Owns s' ({(id,internalView id par (L ++ (j,a.id) :: R))} + (cells id t + ({(b.id,dead)} + F))) pins → Q () s') :
    Does (mergeSibling b.id id i) Q s := by
  have positive : 0 < i := by omega
  simp only [mergeSibling,if_pos positive,Does,Prog.wp_bind]
  refine does_readInternal own mem_here pinned (fun page shows => ?_)
  have position : (i - 1).toNat = L.length := by omega
  rw [position]
  refine does_inBounds (BPlusTreeInternalPage.valueAt_spec shows.holds) ?_
  have held : (a.id,view id a) ∈ parentCell id par L j a.id k b.id R + (cells id a + (cells id b + F)) := by simp [cells_eq]
  refine wp_fetchPage own held (fun s₁ own => ?_)
  simp only [Prog.wp_bind]
  refine does_merge own (by simp [pinned]) (by simp) (by simp [pinnedB]) (by omega) right (by omega)
    (fun s₂ t dead joined named own => ?_)
  refine wp_unpinPage own (fun s₃ own => ?_)
  refine wp_getData own (v := dead) (by simp) pinnedB (fun content shown => ?_)
  rw [named content shown]
  exact wp_deletePage_pinned own pinnedB (goal s₃ t dead joined own)

/-- The right neighbour merged into a node: its page is freed unless somebody
    else has it pinned. -/
theorem does_mergeRight {Q : Unit → Store BPlusTreePage → Prop}
    (own : Owns s (parentCell id par L j a.id k b.id R + (cells id a + (cells id b + F))) pins)
    (pinned : id ∈ pins) (pinnedA : a.id ∈ pins) (index : i = 0) (first : L.length = 0)
    (right : b.Ordered lo hi) (room : a.size + b.size ≤ capacity h)
    (goal : ∀ s' t leaked, Joined a k b t → (b.id ∉ pins → leaked = 0) →
      Owns s' ({(id,internalView id par (L ++ (j,a.id) :: R))} + (cells id t + (leaked + F))) pins → Q () s') :
    Does (mergeSibling a.id id i) Q s := by
  have notPositive : ¬ 0 < i := by omega
  simp only [mergeSibling,if_neg notPositive,Does,Prog.wp_bind]
  refine does_readInternal own mem_here pinned (fun page shows => ?_)
  have holds : page.Holds ((L ++ [(j,a.id)]) ++ (k,b.id) :: R) := by simpa using shows.holds
  have position : (i + 1).toNat = (L ++ [(j,a.id)]).length := by simp; omega
  rw [position]
  refine does_inBounds (BPlusTreeInternalPage.valueAt_spec holds) ?_
  have held : (b.id,view id b) ∈ parentCell id par L j a.id k b.id R + (cells id a + (cells id b + F)) := by simp [cells_eq]
  refine wp_fetchPage own held (fun s₁ own => ?_)
  simp only [Prog.wp_bind]
  refine does_merge own (by simp [pinned]) (by simp [pinnedA]) (by simp) (by simp) right (by omega)
    (fun s₂ t dead joined _ own => ?_)
  refine wp_unpinPage own (fun s₃ own => ?_)
  by_cases others : b.id ∈ pins
  · exact wp_deletePage_pinned own others (goal s₃ t {(b.id,dead)} joined (fun absent => absurd others absent) own)
  · have own₃ : Owns s₃ ({(b.id,dead)} + ({(id,internalView id par (L ++ (j,a.id) :: R))} + (cells id t + F))) pins :=
      own.reorder (by abel)
    exact wp_deletePage own₃ others (fun s₄ own =>
      goal s₄ t 0 joined (fun _ => rfl) (own.reorder (by abel)))

end

/-! ### Underflow -/

section
variable {s : Store BPlusTreePage} {pins : Multiset PageId} {F : Cells} {h : Nat}

/-- The size of a node that lost an entry or a child. -/
def Underfull : {h : Nat} → Path h → Nat → Prop
  | h, .top, n => 1 ≤ n ∧ n ≤ capacity h
  | h, .step _ _, n => n + 1 = minimum h

/-- Repairing an underfull node of the given size frees every page it empties:
    it neither merges into a left sibling nor replaces the root. -/
def Frees : {h : Nat} → Path h → Nat → Prop
  | _, .top, n => n ≠ 1
  | h, .step f above, _ =>
    (∃ c ∈ f.left.getLast?, minimum h < c.2.size) ∨ (∃ c ∈ f.right.head?, minimum h < c.2.size) ∨
      f.left = [] ∧ (f.right.length < 169 → Frees above f.right.length)

/-- No subtree to the right of the path has its page pinned. -/
def Unpinned (pins : Multiset PageId) : {h : Nat} → Path h → Prop
  | _, .top => True
  | _, .step f above => (∀ c ∈ f.right, c.2.id ∉ pins) ∧ Unpinned pins above

/-- What `HandleUnderflow` does to an underfull node at the end of a path. -/
def Repairs (fuel : Nat) {h : Nat} (path : Path h) : Prop :=
  ∀ (t : Tree h) (F : Cells) (pins : Multiset PageId) (s : Store BPlusTreePage)
    (Q : PageId → Store BPlusTreePage → Prop), Framed path t → Underfull path t.size → t.id ∈ pins →
    Owns s (path.pages t + F) pins →
    (∀ s' (H : Nat) (T : Tree H) (leaked : Cells), Valid T → H ≤ path.height →
      entriesOf T.leaves = entriesOf (path.leaves t) → (Frees path t.size → Unpinned pins path → leaked = 0) →
      Owns s' (cells INVALID_PAGE_ID T + (leaked + F)) pins → Q T.id s') →
    Does (handleUnderflow fuel (path.rootId t.id) t.id) Q s

theorem two_le_least : ∀ path : Path (h + 1), 2 ≤ path.least
  | .top => le_refl 2
  | .step _ _ => by simp [Path.least]

theorem rootMinimum_le : rootMinimum h ≤ minimum h := by
  cases h <;> simp [rootMinimum]

theorem least_le (path : Path h) : path.least ≤ minimum h := by
  cases path with
  | top => exact rootMinimum_le
  | step f above => exact le_refl _

/-- The single child of a root takes its place. -/
theorem valid_child {id : PageId} {c : Key × Tree h} (framed : Framed .top (mkBranch id [c])) : Valid c.2 := by
  obtain ⟨least,most,filled⟩ := filled_branch.mp framed.filled c (by simp)
  have linked := framed.linked
  simp only [Path.before,Path.after,leaves_branch,leavesOf_cons,leavesOf_nil,List.append_nil,List.nil_append] at linked
  exact ⟨(ordered_branch.mp framed.ordered).2.1,filled,rootMinimum_le.trans least,most,linked⟩

theorem repairs_top (fuel : Nat) : ∀ {h : Nat}, Repairs (fuel + 1) (.top : Path h)
  | 0, t, F, pins, s, Q, framed, underfull, pinned, own, goal => by
    rw [top_pages] at own
    rw [top_leaves] at goal
    simp only [handleUnderflow,Does,Prog.wp_bind]
    refine wp_getData own (Multiset.mem_add.mpr (.inl mem_cells)) pinned (fun content shown => ?_)
    have root : content.isRootPage = true := by simp [BPlusTreePage.isRootPage,(view_header shown).2.1]
    rw [if_pos root]
    have valid : Valid t := ⟨framed.ordered,framed.filled,underfull.1,underfull.2,by
      simpa [Path.before,Path.after] using framed.linked⟩
    cases content with
    | leaf page => exact goal s 0 t 0 valid (le_refl _) rfl (fun _ _ => rfl) (own.reorder (by simp))
    | internal page => exact shown.elim
  | h + 1, t, F, pins, s, Q, framed, underfull, pinned, own, goal => by
    rw [top_pages] at own
    rw [top_leaves] at goal
    obtain ⟨id,children,rfl⟩ := tree_branch t
    simp only [handleUnderflow,Does,Prog.wp_bind]
    refine wp_getData own (Multiset.mem_add.mpr (.inl mem_cells)) pinned (fun content shown => ?_)
    have root : content.isRootPage = true := by simp [BPlusTreePage.isRootPage,(view_header shown).2.1]
    rw [if_pos root]
    cases content with
    | leaf page => exact shown.elim
    | internal page =>
      rw [view_branch] at shown
      have size : page.size = children.length := shown.holds.size.trans slotsOf_length
      simp only [collapseRoot,size]
      by_cases single : children.length = 1
      · obtain ⟨c,rfl⟩ := List.length_eq_one_iff.mp single
        simp only [List.length_singleton,if_true,Prog.wp_bind]
        refine does_inBounds (BPlusTreeInternalPage.valueAt_spec (L := []) shown.holds) ?_
        have own₁ : Owns s (cells id c.2 + ({(id,internalView id INVALID_PAGE_ID (slotsOf [c]))} + F)) pins :=
          own.reorder (by rw [cells_branch,cellsOf_cons,cellsOf_nil]; abel)
        refine does_adopt own₁ (fun s₁ own => ?_)
        refine wp_deletePage_pinned own pinned ?_
        refine goal s₁ h c.2 _ (valid_child framed) (Nat.le_succ h) (by simp) (fun frees => ?_) own
        exact absurd (by simp) frees
      · rw [if_neg single]
        have valid : Valid (mkBranch id children) := by
          refine ⟨framed.ordered,framed.filled,?_,underfull.2,by simpa [Path.before,Path.after] using framed.linked⟩
          have := underfull.1
          simp only [size_branch,rootMinimum] at this ⊢
          omega
        exact goal s (h + 1) _ 0 valid (le_refl _) rfl (fun _ _ => rfl) (own.reorder (by simp))

theorem unpinned_fresh {id : PageId} {path : Path h} {x : PageId} (fresh : id ∉ (path.cells x).map Prod.fst)
    (unpinned : Unpinned pins path) : Unpinned (id ::ₘ pins) path := by
  induction path generalizing x with
  | top => trivial
  | @step h f above ih =>
    simp only [Path.cells,Multiset.map_add,Multiset.mem_add,not_or] at fresh
    refine ⟨fun c member => ?_,ih fresh.2 unpinned.2⟩
    rw [Multiset.mem_cons,not_or]
    refine ⟨?_,unpinned.1 c member⟩
    rintro rfl
    apply fresh.1.2
    obtain ⟨L,R,split⟩ := List.append_of_mem member
    rw [split]
    simp [cells_eq]

/-- The pages of a tree are distinct: no sibling on a path has the id of the
    subtree at its end. -/
theorem unpinned_cons {path : Path h} {t : Tree h} {pins' : Multiset PageId} (own : Owns s (path.pages t + F) pins)
    (unpinned : Unpinned pins' path) : Unpinned (t.id ::ₘ pins') path := by
  have own₁ : Owns s ({(t.id,view path.parentId t)} + (path.cells t.id + (beneath t + F))) pins :=
    own.reorder (by rw [pages_eq,cells_eq]; abel)
  have fresh := own₁.fresh
  rw [Multiset.map_add,Multiset.mem_add,not_or] at fresh
  exact unpinned_fresh fresh.1 unpinned

variable {above : Path (h + 1)} {id : PageId} {fuel n : Nat} {es : List Entry} {free : Prop}

/-- After a merge the parent is repaired in turn if it has become too small. -/
theorem does_mergeAndRepair {Q : PageId → Store BPlusTreePage → Prop} (recur : Repairs fuel above)
    {node : PageId} {i : Int} (least : above.least ≤ n + 1) (inhabited : 1 ≤ n) (most : n ≤ 338)
    (merges : ∀ P : Store BPlusTreePage → Prop,
      (∀ s' C leaked, C.length = n → Framed above (mkBranch id C) →
        entriesOf (above.leaves (mkBranch id C)) = es → (free → leaked = 0) →
        Owns s' (above.pages (mkBranch id C) + (leaked + F)) (id ::ₘ pins) → P s') →
      Does (mergeSibling node id i) (fun _ => P) s)
    (goal : ∀ s' (H : Nat) (T : Tree H) (more : Cells), Valid T → H ≤ above.height →
      entriesOf T.leaves = es → (free → (n < 169 → Frees above n) → Unpinned pins above → more = 0) →
      Owns s' (cells INVALID_PAGE_ID T + (more + F)) pins → Q T.id s') :
    Does (mergeAndRepair (handleUnderflow fuel (above.rootId id) id) (above.rootId id) node id i) Q s := by
  rw [mergeAndRepair,Does,Prog.wp_bind]
  refine merges _ (fun s C leaked length framed entriesC released own => ?_)
  subst length
  have held : (id,internalView id above.parentId (slotsOf C)) ∈ above.pages (mkBranch id C) + (leaked + F) :=
    Multiset.mem_add.mpr (.inl (@mem_pages _ above (mkBranch id C)))
  rw [Prog.wp_bind]
  refine does_readInternal own held (by simp) (fun page shows => ?_)
  have size : page.size = C.length := shows.holds.size.trans slotsOf_length
  have half : page.maxSize / 2 = 169 := by rw [shows.maxSize]
  rw [size,half]
  by_cases small : C.length < 169
  · have underfull : Underfull above (mkBranch id C).size := by
      cases above with
      | top => exact ⟨inhabited,most⟩
      | step f above =>
        simp only [Path.least,minimum_branch] at least
        simp only [Underfull,size_branch,minimum_branch]
        omega
    rw [if_pos small,Prog.wp_bind]
    refine recur (mkBranch id C) _ _ s _ framed underfull (by simp) own (fun s₁ H T more valid height entries none own₁ => ?_)
    rw [Prog.wp_bind]
    refine wp_unpinPage own₁ (fun s₂ own₂ => goal s₂ H T (more + leaked) valid height (entries.trans entriesC)
      (fun freed frees unpinned => ?_) (own₂.reorder (by abel)))
    rw [released freed,none (frees small) (unpinned_cons own unpinned),add_zero]
  · have enough : above.least ≤ (mkBranch id C).size := by
      have := least_le above
      simp only [minimum_branch,size_branch] at this ⊢
      omega
    rw [if_neg small,Prog.wp_bind,Prog.wp_pure,Prog.wp_bind]
    refine wp_unpinNode framed enough most own (fun s₁ H T height valid rootId leaves own => ?_)
    have root : T.id = above.rootId id := rootId
    rw [← root]
    exact goal s₁ H T leaked valid height.le ((congrArg entriesOf leaves).trans entriesC) (fun freed _ _ => released freed) own

section
variable {L R : List (Key × Tree h)} {j k : Key} {a b : Tree h} {i : Int} {P : Store BPlusTreePage → Prop}

/-- The pages of a parent, with two neighbours in front. -/
def pairCells (above : Path (h + 1)) (id : PageId) (L : List (Key × Tree h)) (j : Key) (a : Tree h) (k : Key) (b : Tree h)
    (R : List (Key × Tree h)) (F : Cells) : Cells :=
  parentCell id above.parentId (slotsOf L) j a.id k b.id (slotsOf R) +
    (cells id a + (cells id b + (cellsOf id L + cellsOf id R + above.cells id + F)))

theorem pairCells_eq : pairCells above id L j a k b R F =
    above.pages (mkBranch id (L ++ (j,a) :: (k,b) :: R)) + F := by
  simp only [pairCells,parentCell,pages_eq,cells_branch,id_branch,slotsOf_append,slotsOf_cons,cellsOf_append,cellsOf_cons]
  abel

/-- A valid tree once the children of a parent have been cut elsewhere. -/
theorem Pair.plug {k' : Key} {a' b' : Tree h} (pair : Pair above L j a k b R) (recut : Recut a k b a' k' b')
    (sizeA : minimum h ≤ a'.size ∧ a'.size ≤ capacity h) (sizeB : minimum h ≤ b'.size ∧ b'.size ≤ capacity h) :
    ∃ (H : Nat) (T : Tree H), H = above.height ∧ Valid T ∧ T.id = above.rootId id ∧
      entriesOf T.leaves = entriesOf (above.leaves (mkBranch id (L ++ (j,a) :: (k,b) :: R))) ∧
      cells INVALID_PAGE_ID T + F = parentCell id above.parentId (slotsOf L) j a.id k' b.id (slotsOf R) +
        (cells id a' + (cells id b' + (cellsOf id L + cellsOf id R + above.cells id + F))) := by
  have framed : Framed above (mkBranch id (L ++ (j,a') :: (k',b') :: R)) := pair.recut recut sizeA sizeB
  have sizes := pair.least
  have room := pair.most
  have length : (mkBranch id (L ++ (j,a') :: (k',b') :: R)).size = L.length + R.length + 2 := by simp; omega
  obtain ⟨H,T,height,valid,rootId,leaves,pages⟩ := framed.plug above _ (by omega) (by rw [length]; exact room)
  refine ⟨H,T,height,valid,rootId,?_,?_⟩
  · have entries := recut.carries.entries
    simp only [entriesOf_append] at entries
    rw [leaves]
    simp only [Path.leaves,leaves_branch,leavesOf_append,leavesOf_cons,entriesOf_append,List.append_assoc]
    rw [← List.append_assoc (entriesOf a'.leaves),entries]
    simp
  · rw [pages,pages_eq,cells_branch,id_branch]
    simp only [slotsOf_append,slotsOf_cons,cellsOf_append,cellsOf_cons,recut.leftId,recut.rightId,parentCell]
    abel

/-- The entries around two neighbours after they have been joined. -/
theorem Pair.entries {t : Tree h} (joined : Joined a k b t) : entriesOf (above.leaves (mkBranch id (L ++ (j,t) :: R))) =
    entriesOf (above.leaves (mkBranch id (L ++ (j,a) :: (k,b) :: R))) := by
  have entries := joined.carries.entries
  simp only [entriesOf_append] at entries
  simp only [Path.leaves,leaves_branch,leavesOf_append,leavesOf_cons,entriesOf_append,List.append_assoc,entries]

theorem merges_left (pair : Pair above L j a k b R) (full : Full a) (tight : a.size ≤ minimum h)
    (few : b.size + 1 = minimum h) (own : Owns s (pairCells above id L j a k b R F) (id ::ₘ pins)) (pinned : b.id ∈ pins)
    (index : i = L.length + 1)
    (goal : ∀ s' C leaked, C.length = L.length + R.length + 1 → Framed above (mkBranch id C) →
      entriesOf (above.leaves (mkBranch id C)) = entriesOf (above.leaves (mkBranch id (L ++ (j,a) :: (k,b) :: R))) →
      (False → leaked = 0) → Owns s' (above.pages (mkBranch id C) + (leaked + F)) (id ::ₘ pins) → P s') :
    Does (mergeSibling b.id id i) (fun _ => P) s := by
  have orderedB := (within_pair.mp pair.within).2.2.1
  have room : a.size + b.size ≤ capacity h := by rcases capacity_eq (h := h) with c | c <;> omega
  refine does_mergeLeft own (by simp) (by simp [pinned]) (by simpa using index) orderedB room
    (fun s₁ t dead joined own => ?_)
  have size := joined.size
  have least := full.1
  refine goal s₁ (L ++ (j,t) :: R) {(b.id,dead)} (by simp; omega) (pair.joined joined ⟨by omega,by omega⟩)
    (Pair.entries joined) False.elim (own.reorder ?_)
  simp only [pages_eq,cells_branch,id_branch,slotsOf_append,slotsOf_cons,cellsOf_append,cellsOf_cons,joined.id]
  abel

theorem merges_right (pair : Pair above [] j a k b R) (full : Full b) (tight : b.size ≤ minimum h)
    (few : a.size + 1 = minimum h) (own : Owns s (pairCells above id [] j a k b R F) (id ::ₘ pins)) (pinned : a.id ∈ pins)
    (index : i = 0)
    (goal : ∀ s' C leaked, C.length = R.length + 1 → Framed above (mkBranch id C) →
      entriesOf (above.leaves (mkBranch id C)) = entriesOf (above.leaves (mkBranch id ([] ++ (j,a) :: (k,b) :: R))) →
      (b.id ∉ pins → leaked = 0) → Owns s' (above.pages (mkBranch id C) + (leaked + F)) (id ::ₘ pins) → P s') :
    Does (mergeSibling a.id id i) (fun _ => P) s := by
  have orderedB := (within_pair.mp pair.within).2.2.1
  have room : a.size + b.size ≤ capacity h := by rcases capacity_eq (h := h) with c | c <;> omega
  have distinct : b.id ≠ id := by
    have own₁ : Owns s ({(id,internalView id above.parentId ([] ++ (j,a.id) :: (k,b.id) :: slotsOf R))} + (cells id a +
        (cells id b + (cellsOf id [] + cellsOf id R + above.cells id + F)))) (id ::ₘ pins) := own
    intro same
    apply own₁.fresh
    rw [← same]
    simp [cells_eq]
  refine does_mergeRight own (by simp) (by simp [pinned]) index (by simp) orderedB room
    (fun s₁ t leaked joined freed own => ?_)
  have size := joined.size
  have least := full.1
  refine goal s₁ ([] ++ (j,t) :: R) leaked (by simp) (pair.joined joined ⟨by omega,by omega⟩) (Pair.entries joined)
    (fun free => freed (by simp [free,distinct])) (own.reorder ?_)
  simp only [pages_eq,cells_branch,id_branch,slotsOf_append,slotsOf_cons,slotsOf_nil,cellsOf_append,cellsOf_cons,
    cellsOf_nil,joined.id]
  abel

end

section
variable {left right : List (Key × Tree h)} {key : Key} {t : Tree h}

/-- The left sibling is asked first. -/
theorem does_tryLeft {Q : PageId → Store BPlusTreePage → Prop} {next : Action PageId}
    (framed : Framed (.step ⟨id,left,key,right⟩ above) t) (few : t.size + 1 = minimum h) (pinned : t.id ∈ pins)
    (own : Owns s (above.pages (mkBranch id (left ++ (key,t) :: right)) + F) (id ::ₘ pins))
    (done : ∀ s' (H : Nat) (T : Tree H), Valid T → H = above.height → T.id = above.rootId id →
      entriesOf T.leaves = entriesOf (above.leaves (mkBranch id (left ++ (key,t) :: right))) →
      Owns s' (cells INVALID_PAGE_ID T + F) pins → Q (above.rootId id) s')
    (rest : ∀ s', (∀ c ∈ left.getLast?, c.2.size ≤ minimum h) →
      Owns s' (above.pages (mkBranch id (left ++ (key,t) :: right)) + F) (id ::ₘ pins) → Does next Q s') :
    Does (do
      if ← (if (0 : Int) < (left.length : Int) then borrow t.id id left.length true else pure false) then do
        let _ ← unpinPage id true
        pure (above.rootId id)
      else next) Q s := by
  have most : minimum h ≤ capacity h := by rcases capacity_eq (h := h) with c | c <;> omega
  rw [Does,Prog.wp_bind]
  rcases List.eq_nil_or_concat left with rfl | ⟨L,⟨j,a⟩,rfl⟩
  · exact rest s (by simp) own
  · simp only [List.concat_eq_append] at framed own done rest ⊢
    obtain ⟨pair,full⟩ := pair_left framed
    obtain ⟨_,orderedA,orderedB,_⟩ := within_pair.mp pair.within
    have children : (L ++ [(j,a)]) ++ (key,t) :: right = L ++ (j,a) :: (key,t) :: right := by simp
    rw [children,← pairCells_eq] at own rest
    rw [children] at done
    rw [if_pos (by simp)]
    refine does_borrowLeft own (by simp) (by simp [pinned]) (by simp) orderedA orderedB (by omega)
      (fun s₁ a' k' b' spare recut sizeA sizeB own => ?_) (fun s₁ tight own => ?_)
    · have fullA := full.2.1
      obtain ⟨H,T,height,valid,rootId,entries,pages⟩ := pair.plug (F := F) recut ⟨by omega,by omega⟩ ⟨by omega,by omega⟩
      rw [if_pos rfl,Prog.wp_bind]
      exact wp_unpinPage own (fun s₂ own => done s₂ H T valid height rootId entries (own.reorder pages.symm))
    · exact rest s₁ (by simpa using tight) own

/-- Then the right one. -/
theorem does_tryRight {Q : PageId → Store BPlusTreePage → Prop} {next : Action PageId}
    (framed : Framed (.step ⟨id,left,key,right⟩ above) t) (few : t.size + 1 = minimum h) (pinned : t.id ∈ pins)
    (own : Owns s (above.pages (mkBranch id (left ++ (key,t) :: right)) + F) (id ::ₘ pins))
    (done : ∀ s' (H : Nat) (T : Tree H), Valid T → H = above.height → T.id = above.rootId id →
      entriesOf T.leaves = entriesOf (above.leaves (mkBranch id (left ++ (key,t) :: right))) →
      Owns s' (cells INVALID_PAGE_ID T + F) pins → Q (above.rootId id) s')
    (rest : ∀ s', (∀ c ∈ right.head?, c.2.size ≤ minimum h) →
      Owns s' (above.pages (mkBranch id (left ++ (key,t) :: right)) + F) (id ::ₘ pins) → Does next Q s') :
    Does (do
      if ← (if (left.length : Int) < ((left.length + right.length + 1 : Nat) : Int) - 1 then
          borrow t.id id left.length false else pure false) then do
        let _ ← unpinPage id true
        pure (above.rootId id)
      else next) Q s := by
  have most : minimum h ≤ capacity h := by rcases capacity_eq (h := h) with c | c <;> omega
  rw [Does,Prog.wp_bind]
  cases right with
  | nil =>
    rw [if_neg (by simp)]
    exact rest s (by simp) own
  | cons c R =>
    obtain ⟨k,b⟩ := c
    obtain ⟨pair,full⟩ := pair_right framed
    obtain ⟨_,orderedA,orderedB,_⟩ := within_pair.mp pair.within
    rw [← pairCells_eq] at own rest
    rw [if_pos (by simp)]
    refine does_borrowRight own (by simp) (by simp [pinned]) (by simp) orderedA orderedB (by omega)
      (fun s₁ a' k' b' spare recut sizeA sizeB own => ?_) (fun s₁ tight own => ?_)
    · have fullB := full.2.1
      obtain ⟨H,T,height,valid,rootId,entries,pages⟩ := pair.plug (F := F) recut ⟨by omega,by omega⟩ ⟨by omega,by omega⟩
      rw [if_pos rfl,Prog.wp_bind]
      exact wp_unpinPage own (fun s₂ own => done s₂ H T valid height rootId entries (own.reorder pages.symm))
    · exact rest s₁ (by simpa using tight) own

end

theorem repairs_step (f : Frame h) (above : Path (h + 1)) (recur : Repairs fuel above) :
    Repairs (fuel + 1) (.step f above) := by
  intro t F pins s Q framed underfull pinned own goal
  rw [step_pages] at own
  rw [step_leaves] at goal
  have few : t.size + 1 = minimum h := underfull
  have most : minimum h ≤ capacity h := by rcases capacity_eq (h := h) with c | c <;> omega
  obtain ⟨id,left,key,right⟩ := f
  have held : (id,internalView id above.parentId (slotsOf left ++ (key,t.id) :: slotsOf right)) ∈
      above.pages (Frame.fill ⟨id,left,key,right⟩ t) + F := by simp [pages_eq,Frame.fill,cells_branch]
  have valid : id ≠ INVALID_PAGE_ID := own.ne_invalid (Multiset.mem_map_of_mem Prod.fst held)
  have siblings : Owns s (cellsOf id left + cells id t + ({(id,internalView id above.parentId
      (slotsOf left ++ (key,t.id) :: slotsOf right))} + cellsOf id right + above.cells id + F)) pins := by
    refine own.reorder ?_
    simp only [pages_eq,Frame.fill,cells_branch,id_branch,slotsOf_append,slotsOf_cons,cellsOf_append,cellsOf_cons]
    abel
  simp only [handleUnderflow,Does,Prog.wp_bind]
  refine wp_getData siblings (v := view id t) (by simp [cells_eq]) pinned (fun content shown => ?_)
  obtain ⟨ownId,parentId,_,_⟩ := view_header shown
  have notRoot : ¬ content.isRootPage = true := by simp [BPlusTreePage.isRootPage,parentId,valid]
  rw [if_neg notRoot,Prog.wp_bind,parentId,ownId]
  refine wp_fetchPage own held (fun s₁ own => ?_)
  simp only [Prog.wp_bind]
  refine does_readInternal own held (by simp) (fun page shows => ?_)
  refine does_inBounds (BPlusTreeInternalPage.indexOf_spec shows.holds (sibling_absent siblings)) ?_
  have size : page.size = left.length + right.length + 1 := by
    rw [shows.holds.size]
    simp
    omega
  rw [slotsOf_length,size]
  refine (Prog.wp_bind _ _ _ _).mp ?_
  refine does_tryLeft framed few pinned own (fun s₂ H T valid height rootId entries own => ?_) (fun s₂ tightLeft own => ?_)
  · have finished := goal s₂ H T 0 valid height.le entries (fun _ _ => rfl) (own.reorder (by simp))
    rwa [rootId] at finished
  refine does_tryRight framed few pinned own (fun s₃ H T valid height rootId entries own => ?_) (fun s₃ tightRight own => ?_)
  · have finished := goal s₃ H T 0 valid height.le entries (fun _ _ => rfl) (own.reorder (by simp))
    rwa [rootId] at finished
  rcases List.eq_nil_or_concat left with rfl | ⟨L,⟨j,a⟩,rfl⟩
  · cases right with
    | nil =>
      obtain ⟨_,_,_,_,least,_,_⟩ := framed.sound
      have := two_le_least above
      simp at least
      omega
    | cons c R =>
      obtain ⟨k,b⟩ := c
      obtain ⟨pair,full⟩ := pair_right framed
      have tight : b.size ≤ minimum h := by simpa using tightRight
      have least := pair.least
      have room := pair.most
      simp only [List.length_nil,Nat.zero_add] at least room
      rw [← pairCells_eq] at own
      refine does_mergeAndRepair recur (n := R.length + 1) least (by omega) (by omega)
        (fun P goal => merges_right pair full tight few own pinned (by simp) goal)
        (fun s₄ H T leaked valid height entries freed own => goal s₄ H T leaked valid height entries ?_ own)
      rintro (⟨c,last,_⟩ | ⟨c,first,spare⟩ | ⟨_,frees⟩) unpinned
      · simp at last
      · simp only [List.head?_cons,Option.mem_def,Option.some.injEq] at first
        subst first
        exact absurd spare (by simpa using tight)
      · exact freed (unpinned.1 (k,b) (by simp)) frees unpinned.2
  · simp only [List.concat_eq_append] at framed own goal tightLeft ⊢
    obtain ⟨pair,full⟩ := pair_left framed
    have tight : a.size ≤ minimum h := by simpa using tightLeft
    have least := pair.least
    have room := pair.most
    have children : (L ++ [(j,a)]) ++ (key,t) :: right = L ++ (j,a) :: (key,t) :: right := by simp
    simp only [Frame.fill,children] at own goal
    rw [← pairCells_eq] at own
    refine does_mergeAndRepair recur (n := L.length + right.length + 1) (by omega) (by omega) (by omega)
      (fun P goal => merges_left pair full tight few own pinned (by simp) goal)
      (fun s₄ H T leaked valid height entries freed own => goal s₄ H T leaked valid height entries ?_ own)
    rintro (⟨c,last,spare⟩ | ⟨c,first,spare⟩ | ⟨none,_⟩)
    · exact absurd spare (not_lt.mpr (tightLeft c last))
    · exact absurd spare (not_lt.mpr (tightRight c first))
    · simp at none

/-- An underfull node is repaired on every path, by induction on the path. -/
theorem repairs (path : Path h) : ∀ {fuel : Nat}, path.height < fuel + h → Repairs fuel path := by
  induction path with
  | top =>
    intro fuel enough
    cases fuel with
    | zero => simp [Path.height] at enough
    | succ fuel => exact repairs_top fuel
  | @step h f above ih =>
    intro fuel enough
    have deeper : h + 1 ≤ above.height := height_le above
    have same : (Path.step f above).height = above.height := rfl
    cases fuel with
    | zero => omega
    | succ fuel => exact repairs_step f above (ih (by omega))

end

/-! ### The operation -/

section
variable {s : Store BPlusTreePage} {pins : Multiset PageId} {F : Cells} {h fuel : Nat} {key : Key} {T : Tree h}

/-- What a deletion takes from the entries of a tree. -/
structure Removed (entries : List Entry) (key : Key) (entries' : List Entry) : Prop where
  present : get entries key ≠ none
  entries : ∀ k, get entries' k = if k = key then none else get entries k

theorem removed_around {A B L R : List Entry} {value : RID} (before : ∀ e ∈ L, e.1 < key) (after : ∀ e ∈ R, key < e.1)
    (left : ∀ e ∈ A, e.1 < key) (right : ∀ e ∈ B, key < e.1) :
    Removed (L ++ (A ++ (key,value) :: B) ++ R) key (L ++ (A ++ B) ++ R) := by
  obtain ⟨smaller,larger⟩ := apart_around before after left right
  have old : L ++ (A ++ (key,value) :: B) ++ R = (L ++ A) ++ (key,value) :: (B ++ R) := by simp
  have new : L ++ (A ++ B) ++ R = (L ++ A) ++ (B ++ R) := by simp
  rw [old,new]
  refine ⟨by rw [get_insert smaller,if_pos rfl]; simp,fun k => ?_⟩
  by_cases same : k = key
  · subst same
    rw [if_pos rfl,get_append_left smaller]
    exact get_none larger
  · rw [if_neg same,get_insert smaller,if_neg same]

/-- Deleting an entry of the leaf at the end of a path frees every page it
    empties. -/
def Spares : Path 0 → Tree 0 → Prop
  | .top, _ => True
  | .step f above, leaf => leaf.size ≤ 126 → Frees (.step f above) (leaf.size - 1)

theorem framed_remove {path : Path 0} {id next : PageId} {value : RID} {A B : List Entry}
    (framed : Framed path (mkLeaf id next (A ++ (key,value) :: B))) : Framed path (mkLeaf id next (A ++ B)) := by
  obtain ⟨gap,sorted,bounds⟩ := ordered_leaf.mp framed.ordered
  refine ⟨framed.sound,ordered_leaf.mpr ⟨gap,sorted_remove sorted,fun e member => bounds e ?_⟩,trivial,
    linked_of_links (by simp) framed.linked⟩
  simp only [List.mem_append,List.mem_cons] at member ⊢
  tauto

/-- Once the leaf has lost an entry: one that is still large enough stays, the root goes
    when it is empty, and any other leaf is repaired. -/
theorem does_settle {Q : Bool × PageId → Store BPlusTreePage → Prop} {path : Path 0} {leaf : Tree 0} {id next root : PageId}
    {E : List Entry} {page : BPlusTreeLeafPage} (framed : Framed path (mkLeaf id next E)) (rootId : path.rootId id = root)
    (enough : path.height < fuel) (size : leaf.size = E.length + 1) (least : path.least ≤ leaf.size) (most : leaf.size ≤ 253)
    (shows : LeafShows id path.parentId next E page) (own : Owns s (path.pages (mkLeaf id next E) + F) (id ::ₘ pins))
    (last : ∀ s' leaked, E = [] → path.before = [] → path.after = [] → path.height = 0 → Owns s' ({(root,leaked)} + F) (root ::ₘ pins) →
      Q (true,INVALID_PAGE_ID) s')
    (present : ∀ s' (H : Nat) (T' : Tree H) (leaked : Cells), Valid T' → H ≤ path.height →
      entriesOf T'.leaves = entriesOf (path.leaves (mkLeaf id next E)) → (Spares path leaf → Unpinned pins path → leaked = 0) →
      Owns s' (cells INVALID_PAGE_ID T' + (leaked + F)) pins → Q (true,T'.id) s') :
    Does (if (BPlusTreePage.leaf page).isRootPage then
        if page.size = 0 then do
          let _ ← deletePage root
          pure (true,INVALID_PAGE_ID)
        else do
          let _ ← unpinPage id true
          pure (true,root)
      else if page.maxSize / 2 ≤ page.size then do
        let _ ← unpinPage id true
        pure (true,root)
      else do
        let root ← handleUnderflow fuel root id
        let _ ← unpinPage id true
        pure (true,root)) Q s := by
  have kept : path.least ≤ (mkLeaf id next E).size → Does (do let _ ← unpinPage id true; pure (true,root)) Q s := by
    intro large
    have fits : (mkLeaf id next E).size ≤ capacity 0 := by simp; omega
    rw [Does,Prog.wp_bind]
    refine wp_unpinNode framed large fits own (fun s₁ H T' height valid' rootId' leaves own => ?_)
    have same : T'.id = root := rootId'.trans rootId
    rw [← same]
    exact present s₁ H T' 0 valid' height.le (congrArg entriesOf leaves) (fun _ _ => rfl) (own.reorder (by rw [zero_add]))
  have count : page.size = E.length := shows.holds.size
  have isRoot : (BPlusTreePage.leaf page).isRootPage = (path.parentId == INVALID_PAGE_ID) := by
    simp [BPlusTreePage.isRootPage,BPlusTreePage.getParentPageId,shows.parentPageId]
  rw [isRoot,count]
  cases path with
  | top =>
    have root : id = root := rootId
    subst root
    rw [if_pos (by simp [Path.parentId])]
    by_cases emptied : E.length = 0
    · obtain rfl := List.length_eq_zero_iff.mp emptied
      rw [if_pos emptied,Does,Prog.wp_bind]
      refine wp_deletePage_pinned own (by simp) ?_
      have own₁ : Owns s ({(id,leafView id INVALID_PAGE_ID next [])} + F) (id ::ₘ pins) :=
        own.reorder (by simp [pages_eq,cells_leaf,Path.cells,Path.parentId])
      exact last s _ rfl rfl rfl rfl own₁
    · rw [if_neg emptied]
      exact kept (by simp [Path.least,rootMinimum]; omega)
  | step f above =>
    have held : (f.id,internalView f.id above.parentId (slotsOf f.left ++ (f.key,id) :: slotsOf f.right)) ∈
        (Path.step f above).pages (mkLeaf id next E) + F := by simp [pages_eq,step_cells]
    have notRoot : f.id ≠ INVALID_PAGE_ID := own.ne_invalid (Multiset.mem_map_of_mem Prod.fst held)
    rw [if_neg (by simpa [Path.parentId] using notRoot),shows.maxSize]
    simp only [Path.least,minimum_leaf] at least
    split_ifs with large
    · exact kept (by simpa [Path.least] using large)
    · have underfull : Underfull (.step f above) (mkLeaf id next E).size := by
        simp only [Underfull,size_leaf,minimum_leaf]
        omega
      rw [← rootId,Does,Prog.wp_bind]
      refine repairs (.step f above) (by omega) (mkLeaf id next E) F _ s _ framed underfull (by simp) own
        (fun s₁ H T' leaked valid' height entries freed own₁ => ?_)
      rw [Prog.wp_bind]
      refine wp_unpinPage own₁ (fun s₂ own₂ => present s₂ H T' leaked valid' height entries (fun spares unpinned => ?_) own₂)
      have frees := spares (by omega)
      refine freed ?_ (unpinned_cons (t := mkLeaf id next E) own unpinned)
      rwa [size] at frees

/-- Deletion of a present key takes it from the tree's map, of an absent one
    changes nothing. The last key of a tree takes the tree with it, whose page
    stays allocated and pinned. -/
theorem does_delete {Q : Bool × PageId → Store BPlusTreePage → Prop} (valid : Valid T) (enough : h < fuel)
    (own : Owns s (cells INVALID_PAGE_ID T + F) pins)
    (absent : ∀ s', get (entriesOf T.leaves) key = none → Owns s' (cells INVALID_PAGE_ID T + F) pins → Q (false,T.id) s')
    (last : ∀ s' leaked value, entriesOf T.leaves = [(key,value)] → h = 0 → Owns s' ({(T.id,leaked)} + F) (T.id ::ₘ pins) →
      Q (true,INVALID_PAGE_ID) s')
    (present : ∀ s' (H : Nat) (T' : Tree H) (leaked : Cells), Valid T' → H ≤ h →
      Removed (entriesOf T.leaves) key (entriesOf T'.leaves) →
      ((∀ path leaf, Reaches T.id h T.leaves (cells INVALID_PAGE_ID T) key path leaf →
        Spares path leaf ∧ Unpinned pins path) → leaked = 0) →
      Owns s' (cells INVALID_PAGE_ID T' + (leaked + F)) pins → Q (true,T'.id) s') :
    Does (delete fuel T.id key) Q s := by
  have inFile : T.id ≠ INVALID_PAGE_ID :=
    own.ne_invalid (Multiset.mem_map_of_mem Prod.fst (Multiset.mem_add.mpr (.inl mem_cells)))
  rw [delete,if_neg inFile,Does,Prog.wp_bind]
  refine does_findLeafPage_cut valid enough own (fun s₁ path id next A B reaches sorted left right own₁ => ?_)
  obtain ⟨entries,_,before,after⟩ := reaches.entries
  simp only [Prog.wp_bind]
  refine does_readLeaf own₁ mem_here (by simp) (fun page shows => ?_)
  rcases cut_cases sorted right with fresh | ⟨value,C,rfl,fresh⟩
  · refine does_inBounds (BPlusTreeLeafPage.remove_absent shows.holds left fresh) ?_
    refine does_writeLeaf own₁ (by simp) shows (fun s₂ own => ?_)
    simp only [Bool.not_false,if_true,Prog.wp_bind]
    refine wp_unpinPage own (fun s₃ own => absent s₃ ?_ (own.reorder ?_))
    · rw [entries,get_around before after,get_append_left (fun e member => (left e member).ne)]
      exact get_none (fun e member => (fresh e member).ne')
    · rw [← reaches.pages,pages_eq,cells_leaf,id_leaf]
      abel
  · obtain ⟨keys,values,removed,holds⟩ := BPlusTreeLeafPage.remove_present shows.holds left fresh
    refine does_inBounds removed ?_
    refine does_writeLeaf own₁ (by simp) (shows.update holds) (fun s₂ own => ?_)
    simp only [Bool.not_true,Bool.false_eq_true,if_false]
    have taken : Removed (entriesOf T.leaves) key (entriesOf (path.leaves (mkLeaf id next (A ++ C)))) := by
      rw [entries]
      simpa [Path.leaves] using removed_around before after left fresh
    have own₂ : Owns s₂ (path.pages (mkLeaf id next (A ++ C)) + F) (id ::ₘ pins) :=
      own.reorder (by rw [pages_eq,cells_leaf,id_leaf]; abel)
    have size : (mkLeaf id next (A ++ (key,value) :: C)).size = (A ++ C).length + 1 := by
      simp only [size_leaf,List.length_append,List.length_cons]
      omega
    have deep : path.height < fuel := by rw [reaches.height]; exact enough
    refine does_settle (framed_remove reaches.framed) reaches.rootId deep size reaches.least reaches.most
      (shows.update holds) own₂ (fun s₃ leaked none first final height own₃ => ?_)
      (fun s₃ H T' leaked valid' height entries' freed own₃ => ?_)
    · obtain ⟨rfl,rfl⟩ := List.append_eq_nil_iff.mp none
      refine last s₃ leaked value ?_ (reaches.height.symm.trans height) own₃
      rw [entries,first,final]
      rfl
    · refine present s₃ H T' leaked valid' (by rw [← reaches.height]; exact height) (entries' ▸ taken) (fun tidy => ?_) own₃
      obtain ⟨spares,unpinned⟩ := tidy _ _ reaches
      exact freed spares unpinned

end
end Aether.TreeDelete
