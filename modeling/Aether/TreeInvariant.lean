import Aether.TreeMap

/-!
The representation invariant of the tree, read off the pages of the store: every
page reached from the root has the right type, size, keys and parent pointer for
its place, and the leaves are chained in key order.
-/
namespace Aether.TreeInvariant
open Aether.Programs Aether.Types Aether.PageStore Aether.LeafPage Aether.InternalPage Aether.BPlusTree
open Aether.Cells Aether.SortedLists Aether.Separators Aether.TreeModel Aether.TreePages Aether.TreeMap

/-- The page `p` is the root of a subtree with leaves `h` levels below it: at
    least `least` entries or children and at most as many as the page may have,
    keys in order within the bounds, and parent pointers that name the parent. -/
def Subtree (s : Store BPlusTreePage) : Nat → Nat → PageId → Option Key → Option Key → PageId → Prop
  | 0, least, parent, lo, hi, p => ∃ page entries, s.data p = some (.leaf page) ∧ page.Holds entries ∧
      page.pageId = p ∧ page.parentPageId = parent ∧ least ≤ page.size ∧ page.size ≤ 253 ∧
      Sorted entries ∧ ∀ e ∈ entries, AtLeast lo e.1 ∧ Under hi e.1
  | h + 1, least, parent, lo, hi, p => ∃ page slots, s.data p = some (.internal page) ∧ page.Holds slots ∧
      page.pageId = p ∧ page.parentPageId = parent ∧ least ≤ page.size ∧ page.size ≤ 338 ∧
      Within (Subtree s h (minimum h) p) lo hi slots

/-- The leaves below a page, from left to right. -/
def leafIds (s : Store BPlusTreePage) : Nat → PageId → List PageId
  | 0, p => [p]
  | h + 1, p =>
    match s.data p with
    | some (.internal page) => (page.values.toList.take page.size).flatMap (leafIds s h)
    | _ => []

/-- `next_page_id_` leads from each page of the list to the next one, and from
    the last to `INVALID_PAGE_ID`. -/
def Chain (s : Store BPlusTreePage) : List PageId → Prop
  | [] => True
  | p :: rest => ∃ page, s.data p = some (.leaf page) ∧ page.nextPageId = rest.headD INVALID_PAGE_ID ∧ Chain s rest

/-- The pages that the root leads to. -/
inductive Reachable (s : Store BPlusTreePage) (root : PageId) : PageId → Prop
  | root : Reachable s root root
  | child {p c : PageId} {page : BPlusTreeInternalPage} {i : Nat} : Reachable s root p →
      s.data p = some (.internal page) → i < page.size → page.valueAt i = some c → Reachable s root c

/-- The representation invariant of a tree with a root. -/
structure Sound (s : Store BPlusTreePage) (root : PageId) : Prop where
  shape : ∃ h, Subtree s h (rootMinimum h) INVALID_PAGE_ID none none root ∧ Chain s (leafIds s h root)
  parents : ∀ p page, Reachable s root p → s.data p = some page → (page.getParentPageId = INVALID_PAGE_ID ↔ p = root)

section
variable {s : Store BPlusTreePage} {pins : Multiset PageId} {F : Cells} {h : Nat}

theorem stored {p : PageId} {v : View} (own : Owns s F pins) (held : (p,v) ∈ F) : ∃ page, s.data p = some page ∧ v page :=
  own.shown (p,v) held

theorem stored_leaf {p id parent next : PageId} {es : List Entry} (own : Owns s F pins)
    (held : (p,leafView id parent next es) ∈ F) :
    ∃ page, s.data p = some (.leaf page) ∧ LeafShows id parent next es page := by
  obtain ⟨page,data,shown⟩ := stored own held
  cases page with
  | leaf page => exact ⟨page,data,shown⟩
  | internal page => exact shown.elim

theorem stored_internal {p id parent : PageId} {slots : List Slot} (own : Owns s F pins)
    (held : (p,internalView id parent slots) ∈ F) :
    ∃ page, s.data p = some (.internal page) ∧ InternalShows id parent slots page := by
  obtain ⟨page,data,shown⟩ := stored own held
  cases page with
  | leaf page => exact shown.elim
  | internal page => exact ⟨page,data,shown⟩

/-- The pages of the children are among those of a branch. -/
theorem cells_child {id parent : PageId} {children : List (Key × Tree h)} {c : Key × Tree h} (member : c ∈ children) :
    ∃ G, cells parent (mkBranch id children) = cells id c.2 + G := by
  obtain ⟨L,R,rfl⟩ := List.append_of_mem member
  refine ⟨{(id,internalView id parent (slotsOf (L ++ c :: R)))} + cellsOf id L + cellsOf id R,?_⟩
  rw [cells_branch,cellsOf_append,cellsOf_cons]
  abel

theorem subtree_of_owns : ∀ {h : Nat} (t : Tree h) {least : Nat} {parent : PageId} {lo hi : Option Key} {F : Cells},
    Owns s (cells parent t + F) pins → t.Ordered lo hi → t.Filled → least ≤ t.size → t.size ≤ capacity h →
    Subtree s h least parent lo hi t.id
  | 0, t, least, parent, lo, hi, F, own, ordered, filled, enough, most => by
    obtain ⟨id,next,es,rfl⟩ := tree_leaf t
    obtain ⟨_,sorted,bounds⟩ := ordered_leaf.mp ordered
    rw [cells_leaf] at own
    obtain ⟨page,data,shows⟩ := stored_leaf own mem_here
    have size : page.size = es.length := shows.holds.size
    exact ⟨page,es,data,shows.holds,shows.pageId,shows.parentPageId,by rw [size]; exact enough,by rw [size]; exact most,
      sorted,bounds⟩
  | h + 1, t, least, parent, lo, hi, F, own, ordered, filled, enough, most => by
    obtain ⟨id,children,rfl⟩ := tree_branch t
    obtain ⟨_,within⟩ := ordered_branch.mp ordered
    have own₁ := own
    rw [cells_branch,add_assoc] at own₁
    obtain ⟨page,data,shows⟩ := stored_internal own₁ mem_here
    have size : page.size = children.length := shows.holds.size.trans slotsOf_length
    refine ⟨page,slotsOf children,data,shows.holds,shows.pageId,shows.parentPageId,by rw [size]; exact enough,
      by rw [size]; exact most,?_⟩
    refine within_map Tree.id (fun c member lo hi ordered => ?_) within
    obtain ⟨leastC,mostC,filledC⟩ := filled_branch.mp filled c member
    obtain ⟨G,parts⟩ : ∃ G, cells parent (mkBranch id children) = cells id c.2 + G := cells_child member
    exact subtree_of_owns c.2 (own.reorder (by rw [parts]; exact add_assoc _ _ _)) ordered filledC leastC mostC

theorem leafIds_of_owns : ∀ {h : Nat} (t : Tree h) {parent : PageId} {F : Cells}, Owns s (cells parent t + F) pins →
    leafIds s h t.id = t.leaves.map LeafNode.id
  | 0, t, parent, F, own => rfl
  | h + 1, t, parent, F, own => by
    obtain ⟨id,children,rfl⟩ := tree_branch t
    have own₁ := own
    rw [cells_branch,add_assoc] at own₁
    obtain ⟨page,data,shows⟩ := stored_internal own₁ mem_here
    have values : page.values.toList.take page.size = (slotsOf children).map Prod.snd := by
      have taken := begins_take shows.holds.values
      rwa [List.length_map,← shows.holds.size] at taken
    rw [id_branch,leafIds,data]
    simp only [values,leaves_branch,slotsOf,List.map_map,leavesOf,List.flatMap_map,List.map_flatMap]
    refine List.flatMap_congr (fun c member => ?_)
    obtain ⟨G,parts⟩ : ∃ G, cells parent (mkBranch id children) = cells id c.2 + G := cells_child member
    exact leafIds_of_owns c.2 (own.reorder (by rw [parts]; exact add_assoc _ _ _))

/-- The page of every leaf of a tree. -/
theorem mem_leaves : ∀ {h : Nat} (t : Tree h) (parent : PageId), ∀ l ∈ t.leaves,
    ∃ par, (l.id,leafView l.id par l.next l.entries) ∈ cells parent t
  | 0, t, parent, l, member => by
    obtain ⟨id,next,es,rfl⟩ := tree_leaf t
    obtain rfl : l = ⟨id,next,es⟩ := by simpa using member
    exact ⟨parent,by simp [cells_leaf]⟩
  | h + 1, t, parent, l, member => by
    obtain ⟨id,children,rfl⟩ := tree_branch t
    obtain ⟨c,inChildren,inLeaves⟩ := List.mem_flatMap.mp member
    obtain ⟨par,held⟩ := mem_leaves c.2 id l inLeaves
    obtain ⟨G,parts⟩ : ∃ G, cells parent (mkBranch id children) = cells id c.2 + G := cells_child inChildren
    exact ⟨par,by rw [parts]; exact Multiset.mem_add.mpr (.inl held)⟩

theorem chain_of_linked {ls : List LeafNode} (own : Owns s F pins)
    (held : ∀ l ∈ ls, ∃ par, (l.id,leafView l.id par l.next l.entries) ∈ F) (linked : Linked INVALID_PAGE_ID ls) :
    Chain s (ls.map LeafNode.id) := by
  induction ls with
  | nil => trivial
  | cons l ls ih =>
    obtain ⟨par,here⟩ := held l (by simp)
    obtain ⟨page,data,shows⟩ := stored_leaf own here
    refine ⟨page,data,?_,ih (fun l member => held l (by simp [member])) linked.2⟩
    rw [shows.nextPageId,linked.1]
    cases ls <;> rfl

/-- The child in a slot of a branch's page. -/
theorem child_of_owns {id parent c : PageId} {children : List (Key × Tree h)} {page : BPlusTreeInternalPage} {i : Nat} {G : Cells}
    (own : Owns s (cells parent (mkBranch id children) + G) pins) (data : s.data id = some (.internal page)) (inside : i < page.size)
    (value : page.valueAt i = some c) : ∃ d ∈ children, d.2.id = c ∧ ∃ G', Owns s (cells id d.2 + G') pins := by
  have own₁ := own
  rw [cells_branch,add_assoc] at own₁
  obtain ⟨page',data',shown⟩ := stored_internal own₁ mem_here
  obtain rfl : page' = page := by
    rw [data] at data'
    cases data'
    rfl
  have size : page'.size = children.length := shown.holds.size.trans slotsOf_length
  rw [size] at inside
  have found := shown.holds.values i (by simpa using inside)
  have here : page'.values[i]? = some c := value
  rw [here,slotsOf,List.map_map,List.getElem?_map,List.getElem?_eq_getElem inside] at found
  obtain ⟨G',parts⟩ : ∃ G', cells parent (mkBranch id children) = cells id children[i].2 + G' :=
    cells_child (List.getElem_mem inside)
  refine ⟨children[i],List.getElem_mem inside,by simpa using found.symm,G' + G,own.reorder ?_⟩
  rw [parts,add_assoc]

/-- Every page reached from the root is the root of a subtree; only the root
    itself has no parent. -/
theorem reachable_subtree {T : Tree h} (own : Owns s (cells INVALID_PAGE_ID T + F) pins) {p : PageId}
    (reachable : Reachable s T.id p) : ∃ (h' : Nat) (t : Tree h') (par : PageId) (G : Cells), t.id = p ∧
      Owns s (cells par t + G) pins ∧ (p = T.id ∨ par ≠ INVALID_PAGE_ID) := by
  induction reachable with
  | root => exact ⟨h,T,INVALID_PAGE_ID,F,rfl,own,.inl rfl⟩
  | @child p c page i _ data inside value ih =>
    obtain ⟨h',t,par,G,rfl,own,_⟩ := ih
    obtain ⟨page',data',shown⟩ := stored own (Multiset.mem_add.mpr (.inl mem_cells))
    obtain rfl : page' = .internal page := by rw [data] at data'; exact (Option.some.inj data').symm
    cases h' with
    | zero => exact shown.elim
    | succ h' =>
      obtain ⟨id,children,rfl⟩ := tree_branch t
      obtain ⟨d,_,rfl,G',own'⟩ := child_of_owns own data inside value
      refine ⟨h',d.2,id,G',rfl,own',.inr ?_⟩
      exact own.ne_invalid (Multiset.mem_map_of_mem Prod.fst (Multiset.mem_add.mpr (.inl (mem_cells (t := mkBranch id children)))))

theorem sound_of_owns {T : Tree h} (valid : Valid T) (own : Owns s (cells INVALID_PAGE_ID T + F) pins) : Sound s T.id := by
  refine ⟨⟨h,subtree_of_owns T own valid.ordered valid.filled valid.least valid.most,?_⟩,fun p page reachable data => ?_⟩
  · rw [leafIds_of_owns T own]
    refine chain_of_linked own (fun l member => ?_) valid.linked
    obtain ⟨par,held⟩ := mem_leaves T INVALID_PAGE_ID l member
    exact ⟨par,Multiset.mem_add.mpr (.inl held)⟩
  · obtain ⟨root,rootData,rootShown⟩ := stored own (Multiset.mem_add.mpr (.inl mem_cells))
    obtain ⟨h',t,par,G,rfl,own',place⟩ := reachable_subtree own reachable
    obtain ⟨page',data',shown⟩ := stored own' (Multiset.mem_add.mpr (.inl mem_cells))
    obtain rfl : page' = page := by rw [data] at data'; exact (Option.some.inj data').symm
    have parent := (view_header shown).2.1
    constructor
    · intro none
      exact place.resolve_right (fun some => some (parent.symm.trans none))
    · intro same
      rw [same,rootData] at data
      obtain rfl := Option.some.inj data
      exact (view_header rootShown).2.1

end
end Aether.TreeInvariant
