import Aether.TreeModel

/-!
The rules for the page accesses of the tree: what reading, writing, creating
and adopting pages do to the pages a store is known to hold.
-/
namespace Aether.TreePages
open Aether.Programs Aether.Types Aether.PageStore Aether.LeafPage Aether.InternalPage Aether.BPlusTree
open Aether.TreeModel

/-- The store holds exactly these pages and pins. -/
abbrev Owns (s : Store BPlusTreePage) (cells : Cells) (pins : Multiset PageId) : Prop :=
  Own (fun page (shown : View) => shown page) s cells pins

/-- An action whose fetches and new pages are all granted runs without a fault
    and establishes the postcondition. -/
abbrev Does {α : Type} (action : Action α) (post : α → Store BPlusTreePage → Prop) (s : Store BPlusTreePage) : Prop :=
  Prog.wp (exec .zeros) Granted action post s

section
variable {α : Type} {s : Store BPlusTreePage} {cs : Cells} {pins : Multiset PageId} {h : Nat}
variable {p id parent parent' next : PageId} {entries : List Entry} {slots : List Slot} {t : Tree h}

/-- The page named first is one of the pages. -/
theorem mem_here {c : PageId × View} : c ∈ {c} + cs := by simp

theorem does_inBounds {result : Option α} {a : α} {Q : α → Store BPlusTreePage → Prop} (computed : result = some a)
    (next : Q a s) : Does (inBounds result) Q s :=
  (Prog.wp_ofOption Fault.outOfBounds result Q s).mpr ⟨a,computed,next⟩

theorem does_readLeaf {Q : BPlusTreeLeafPage → Store BPlusTreePage → Prop} (own : Owns s cs pins)
    (held : (p,leafView id parent next entries) ∈ cs) (pinned : p ∈ pins)
    (goal : ∀ leaf, LeafShows id parent next entries leaf → Q leaf s) : Does (readLeaf p) Q s := by
  rw [readLeaf,Does,Prog.wp_bind]
  refine wp_getData own held pinned (fun d shown => ?_)
  cases d with
  | leaf leaf => exact goal leaf shown
  | internal internal => exact shown.elim

theorem does_readInternal {Q : BPlusTreeInternalPage → Store BPlusTreePage → Prop} (own : Owns s cs pins)
    (held : (p,internalView id parent slots) ∈ cs) (pinned : p ∈ pins)
    (goal : ∀ internal, InternalShows id parent slots internal → Q internal s) : Does (readInternal p) Q s := by
  rw [readInternal,Does,Prog.wp_bind]
  refine wp_getData own held pinned (fun d shown => ?_)
  cases d with
  | leaf leaf => exact shown.elim
  | internal internal => exact goal internal shown

theorem does_writeLeaf {Q : Unit → Store BPlusTreePage → Prop} {shown : View} {leaf : BPlusTreeLeafPage}
    (own : Owns s ({(p,shown)} + cs) pins) (pinned : p ∈ pins) (shows : LeafShows id parent next entries leaf)
    (goal : ∀ s', Owns s' ({(p,leafView id parent next entries)} + cs) pins → Q () s') :
    Does (writeLeaf p leaf) Q s :=
  wp_setData own pinned shows goal

theorem does_writeInternal {Q : Unit → Store BPlusTreePage → Prop} {shown : View} {internal : BPlusTreeInternalPage}
    (own : Owns s ({(p,shown)} + cs) pins) (pinned : p ∈ pins) (shows : InternalShows id parent slots internal)
    (goal : ∀ s', Owns s' ({(p,internalView id parent slots)} + cs) pins → Q () s') :
    Does (writeInternal p internal) Q s :=
  wp_setData own pinned shows goal

/-! ### Headers -/

/-- What the header of a page says about the subtree it is the root of. -/
theorem view_header {page : BPlusTreePage} (shown : view parent t page) :
    page.getPageId = t.id ∧ page.getParentPageId = parent ∧ page.getSize = t.size ∧ page.getMaxSize = capacity h := by
  cases h with
  | zero =>
    cases page with
    | leaf page => exact ⟨shown.pageId,shown.parentPageId,shown.holds.size,shown.maxSize⟩
    | internal page => exact shown.elim
  | succ h =>
    cases page with
    | leaf page => exact shown.elim
    | internal page => exact ⟨shown.pageId,shown.parentPageId,shown.holds.size.trans slotsOf_length,shown.maxSize⟩

theorem view_setParent {page : BPlusTreePage} (shown : view parent t page) :
    view parent' t (page.setParentPageId parent') := by
  cases h with
  | zero =>
    cases page with
    | leaf page => exact ⟨shown.pageId,rfl,shown.nextPageId,shown.maxSize,shown.holds.size,shown.holds.keys,shown.holds.values⟩
    | internal page => exact shown.elim
  | succ h =>
    cases page with
    | leaf page => exact shown.elim
    | internal page => exact ⟨shown.pageId,rfl,shown.maxSize,shown.holds.size,shown.holds.keys,shown.holds.values⟩

theorem mem_cells : (t.id,view parent t) ∈ cells parent t := by simp [cells_eq]

theorem does_setParent {Q : Unit → Store BPlusTreePage → Prop} (own : Owns s (cells parent t + cs) pins)
    (pinned : t.id ∈ pins) (goal : ∀ s', Owns s' (cells parent' t + cs) pins → Q () s') :
    Does (setParent t.id parent') Q s := by
  rw [setParent,Does,Prog.wp_bind]
  refine wp_getData own (Multiset.mem_add.mpr (.inl mem_cells)) pinned (fun d shown => ?_)
  simp only [cells_eq,add_assoc] at own goal
  exact wp_setData own pinned (view_setParent shown) goal

theorem does_adopt {Q : Unit → Store BPlusTreePage → Prop} (own : Owns s (cells parent t + cs) pins)
    (goal : ∀ s', Owns s' (cells parent' t + cs) pins → Q () s') : Does (adopt t.id parent') Q s := by
  rw [adopt,Does,Prog.wp_bind]
  refine wp_fetchPage own (Multiset.mem_add.mpr (.inl mem_cells)) (fun s₁ own => ?_)
  simp only [Prog.wp_bind]
  refine does_setParent own (by simp) (fun s₂ own => ?_)
  exact wp_unpinPage own (fun s₃ own => goal s₃ own)

/-- The loop gives all the children of a page, whose parent pointers may
    differ, to one parent. -/
theorem does_adoptChildren {Q : Unit → Store BPlusTreePage → Prop} {parentId : PageId} :
    ∀ (rest : List (PageId × (Key × Tree h))) (done : List Slot) (cs : Cells) (s : Store BPlusTreePage),
      Owns s ((rest.map (fun c => cells c.1 c.2.2)).sum + cs) pins →
      (p,internalView id parent (done ++ slotsOf (rest.map Prod.snd))) ∈ cs → p ∈ pins →
      (∀ s', Owns s' (cellsOf parentId (rest.map Prod.snd) + cs) pins → Q () s') →
      Does (adoptChildren p parentId done.length rest.length) Q s
  | [], done, cs, s, own, held, pinned, goal => by
    exact goal s (by simpa using own)
  | (old,key,child) :: rest, done, cs, s, own, held, pinned, goal => by
    simp only [List.length_cons,adoptChildren,Does,Prog.wp_bind]
    refine does_readInternal own (Multiset.mem_add.mpr (.inr held)) pinned (fun internal shows => ?_)
    have value : internal.valueAt done.length = some child.id :=
      BPlusTreeInternalPage.valueAt_spec (by simpa using shows.holds)
    refine does_inBounds value ?_
    simp only [List.map_cons,List.sum_cons,add_assoc] at own
    refine does_adopt own (fun s₁ own => ?_)
    have remaining := own.reorder (add_left_comm _ _ _)
    have index : done.length + 1 = (done ++ [(key,child.id)]).length := by simp
    rw [index]
    refine does_adoptChildren rest (done ++ [(key,child.id)]) _ s₁ remaining ?_ pinned (fun s₂ own => ?_)
    · exact Multiset.mem_add.mpr (.inr (by simpa using held))
    · refine goal s₂ (own.reorder ?_)
      simp only [List.map_cons,cellsOf_cons]
      abel

/-- The loop over a page whose first children and other children come from two
    parents. -/
theorem does_adoptAll {Q : Unit → Store BPlusTreePage → Prop} {old old' parentId : PageId} {A B : List (Key × Tree h)}
    (own : Owns s (cellsOf old A + cellsOf old' B + cs) pins) (held : (p,internalView id parent (slotsOf (A ++ B))) ∈ cs)
    (pinned : p ∈ pins) (goal : ∀ s', Owns s' (cellsOf parentId (A ++ B) + cs) pins → Q () s') :
    Does (adoptChildren p parentId 0 (A ++ B).length) Q s := by
  have children : (A.map (fun c => (old,c)) ++ B.map (fun c => (old',c))).map Prod.snd = A ++ B := by simp
  have count : (A ++ B).length = (A.map (fun c => (old,c)) ++ B.map (fun c => (old',c))).length := by simp
  rw [count]
  refine does_adoptChildren _ [] cs s (own.reorder ?_) (by rw [children]; exact held) pinned (by rw [children]; exact goal)
  simp [cellsOf,Function.comp_def]

/-- The pages of a store are distinct, so no sibling has the id of a subtree. -/
theorem sibling_absent {A : List (Key × Tree h)} (own : Owns s (cellsOf parent A + cells parent t + cs) pins) :
    t.id ∉ (slotsOf A).map Prod.snd := by
  intro member
  simp only [slotsOf,List.map_map,List.mem_map,Function.comp_apply] at member
  obtain ⟨c,inA,same⟩ := member
  obtain ⟨L,R,rfl⟩ := List.append_of_mem inA
  have distinct := own.distinct
  rw [cellsOf_append,cellsOf_cons,cells_eq,cells_eq t] at distinct
  have order : cellsOf parent L + ({(c.2.id,view parent c.2)} + beneath c.2 + cellsOf parent R) +
      ({(t.id,view parent t)} + beneath t) + cs =
      {(c.2.id,view parent c.2)} + ({(t.id,view parent t)} +
        (cellsOf parent L + beneath c.2 + cellsOf parent R + beneath t + cs)) := by abel
  rw [order,same,Multiset.singleton_add,Multiset.singleton_add,Multiset.map_cons,Multiset.map_cons,Multiset.nodup_cons]
    at distinct
  exact distinct.1 (Multiset.mem_cons_self _ _)

end
end Aether.TreePages
