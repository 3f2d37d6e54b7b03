import Aether.TreePins

/-!
Disk pages of the tree. A page leaves the tree in four ways. The right sibling
merged into a first child is unpinned when it is deleted and goes back to the
free list; a node merged into its left sibling, a root that a single child
replaces and the root of the last key are pinned by the operation that deletes
them, so they stay allocated.
-/
namespace Aether.TreeLeaks
open Aether.Programs Aether.Types Aether.PageStore Aether.LeafPage Aether.InternalPage Aether.BPlusTree
open Aether.SortedLists Aether.TreeModel Aether.TreePages Aether.TreeSearch Aether.TreeInsert
open Aether.TreeDelete Aether.TreeMap Aether.TreeInvariant Aether.TreePins

/-- Nobody but the tree has pages of the database, and nobody has pins. -/
structure Fresh (s : Store BPlusTreePage) : Prop where
  wellFormed : WellFormed s
  unused : ∀ p, s.data p = none
  unpinned : s.pins = 0

/-- Every page ever taken from the database is either a page of the tree or
    free, and not both. -/
def NoLeak (s : Store BPlusTreePage) (root : PageId) : Prop :=
  ∀ p, 0 < p → p < s.numPages → ((root ≠ INVALID_PAGE_ID ∧ Reachable s root p) ↔ p ∉ s.free)

/-- The pages from the root are those of a valid tree. -/
def Holds {h : Nat} (s : Store BPlusTreePage) (T : Tree h) : Prop :=
  Valid T ∧ ∃ F pins, Owns s (cells INVALID_PAGE_ID T + F) pins

/-- A call that deletes no key, or one whose deletion neither empties the tree,
    nor merges a node into its left sibling, nor replaces the root. -/
def Tidy (s : Store BPlusTreePage) (root : PageId) (call : Call) : Prop :=
  ¬ Empties s root call ∧ ∀ (key : Key) (h : Nat) (T : Tree h) (path : Path 0) (leaf : Tree 0),
    call = .request (.delete key) → Holds s T → T.id = root →
    Reaches root h T.leaves (cells INVALID_PAGE_ID T) key path leaf → get (entriesOf T.leaves) key ≠ none →
    Spares path leaf

section
variable {s s' : Store BPlusTreePage} {pins : Multiset PageId} {F : Cells} {h fuel n : Nat} {T : Tree h} {root : PageId}
variable {call : Call} {m : Entries}

theorem mem_cellsOf {parent : PageId} {children : List (Key × Tree h)} {x : PageId × View} :
    x ∈ cellsOf parent children ↔ ∃ c ∈ children, x ∈ cells parent c.2 := by
  induction children with
  | nil => simp
  | cons c rest ih => simp [ih]

/-- The root leads to every page of the tree. -/
theorem reachable_cells : ∀ {h : Nat} (t : Tree h) {parent : PageId} {F : Cells}, Owns s (cells parent t + F) pins →
    Reachable s root t.id → ∀ p ∈ (cells parent t).map Prod.fst, Reachable s root p
  | 0, t, parent, F, own, here, p, member => by
    obtain ⟨id,next,es,rfl⟩ := tree_leaf t
    obtain rfl : p = id := by simpa [cells_leaf] using member
    exact here
  | h + 1, t, parent, F, own, here, p, member => by
    obtain ⟨id,children,rfl⟩ := tree_branch t
    have own₁ := own
    rw [cells_branch,add_assoc] at own₁
    obtain ⟨page,data,shows⟩ := stored_internal own₁ mem_here
    rw [cells_branch,Multiset.map_add,Multiset.mem_add] at member
    rcases member with same | below
    · obtain rfl : p = id := by simpa using same
      exact here
    · obtain ⟨x,inCells,rfl⟩ := Multiset.mem_map.mp below
      obtain ⟨c,inChildren,inChild⟩ := mem_cellsOf.mp inCells
      obtain ⟨L,R,rfl⟩ := List.append_of_mem inChildren
      have holds : page.Holds (slotsOf L ++ (c.1,c.2.id) :: slotsOf R) := by simpa using shows.holds
      have inside : (slotsOf L).length < page.size := by rw [holds.size]; simp
      have reached : Reachable s root c.2.id := .child here data inside (BPlusTreeInternalPage.valueAt_spec holds)
      obtain ⟨G,parts⟩ : ∃ G, cells parent (mkBranch id (L ++ c :: R)) = cells id c.2 + G := cells_child inChildren
      exact reachable_cells c.2 (own.reorder (by rw [parts]; exact add_assoc _ _ _)) reached x.1
        (Multiset.mem_map_of_mem Prod.fst inChild)

/-- Where the tree has all the pages of a store there is no leak. -/
theorem noLeak_of_owns (own : Owns s (cells INVALID_PAGE_ID T) pins) : NoLeak s T.id := by
  have own₀ : Owns s (cells INVALID_PAGE_ID T + 0) pins := own.reorder (add_zero _).symm
  intro p positive below
  have member : p ∈ s.free ∨ s.data p ≠ none := (own.wellFormed.partition p).mp ⟨positive,below⟩
  constructor
  · rintro ⟨_,reachable⟩ free
    obtain ⟨h',t,par,G,rfl,own',_⟩ := reachable_subtree own₀ reachable
    exact own'.allocated (Multiset.mem_map_of_mem Prod.fst (Multiset.mem_add.mpr (.inl mem_cells)))
      (own.wellFormed.exclusive _ free)
  · intro used
    have inTree := own.covered p (member.resolve_left used)
    refine ⟨own.ne_invalid (Multiset.mem_map_of_mem Prod.fst mem_cells),reachable_cells T own₀ .root p inTree⟩

theorem noLeak_empty (own : Owns s 0 pins) : NoLeak s INVALID_PAGE_ID := by
  intro p positive below
  have member : p ∈ s.free ∨ s.data p ≠ none := (own.wellFormed.partition p).mp ⟨positive,below⟩
  refine ⟨fun reachable => absurd rfl reachable.1,fun used => ?_⟩
  have inTree := own.covered p (member.resolve_left used)
  simp at inTree

/-- The tree has all the allocated pages, and no page is pinned. -/
def Owned (n : Nat) (s : Store BPlusTreePage) (root : PageId) : Prop :=
  root = INVALID_PAGE_ID ∧ Owns s 0 0 ∨
    ∃ (h : Nat) (T : Tree h), h < n ∧ Valid T ∧ root = T.id ∧ Owns s (cells INVALID_PAGE_ID T) 0

theorem Owned.noLeak (owned : Owned n s root) : NoLeak s root := by
  obtain ⟨rfl,own⟩ | ⟨h,T,_,_,rfl,own⟩ := owned
  · exact noLeak_empty own
  · exact noLeak_of_owns own

/-- Without pins no sibling is pinned. -/
theorem unpinned_zero {h : Nat} (path : Path h) : Unpinned 0 path := by
  induction path with
  | top => trivial
  | step f above ih => exact ⟨fun c _ => Multiset.notMem_zero _,ih⟩

/-- A tidy call keeps the pages of the tree together. -/
theorem does_tidy (owned : Owned n s root) (enough : n ≤ fuel) (tidy : Tidy s root call) :
    Does (execute fuel root call) (fun root' s' => Owned (n + 1) s' root') s := by
  obtain ⟨rfl,own⟩ | ⟨h,T,lower,valid,rfl,own⟩ := owned
  · have still : Owned (n + 1) s INVALID_PAGE_ID := .inl ⟨rfl,own⟩
    cases call with
    | begin =>
      simp only [execute,beginIterator,if_true,Does,Prog.wp_bind]
      exact does_endIterator still
    | beginAt key =>
      simp only [execute,BPlusTree.beginAt,if_true,Does,Prog.wp_bind]
      exact does_endIterator still
    | endIterator =>
      rw [execute,Does,Prog.wp_bind]
      exact does_endIterator still
    | request request =>
      cases request with
      | insert key value =>
        simp only [execute,serve,Does,Prog.wp_bind]
        exact does_insert_empty own (fun s₁ q valid own₁ =>
          .inr ⟨0,_,Nat.succ_pos _,valid,rfl,own₁.reorder (add_zero _)⟩)
      | getValue key => simpa [execute,serve,getValue] using still
      | delete key => simpa [execute,serve,delete] using still
  · have own₀ : Owns s (cells INVALID_PAGE_ID T + 0) 0 := own.reorder (add_zero _).symm
    have still : ∀ s', Owns s' (cells INVALID_PAGE_ID T + 0) 0 → Owned (n + 1) s' T.id := fun s' own' =>
      .inr ⟨h,T,by omega,valid,rfl,own'.reorder (add_zero _)⟩
    cases call with
    | begin =>
      rw [execute,Does,Prog.wp_bind]
      exact does_begin valid (by omega) own₀ (fun s₁ own₁ => still s₁ own₁)
    | beginAt key =>
      rw [execute,Does,Prog.wp_bind]
      exact does_beginAt valid (by omega) own₀ (fun s₁ own₁ => still s₁ own₁)
    | endIterator =>
      rw [execute,Does,Prog.wp_bind]
      exact does_endIterator (still s own₀)
    | request request =>
      cases request with
      | insert key value =>
        simp only [execute,serve,Does,Prog.wp_bind]
        exact does_insert valid (by omega) own₀ (fun s₁ _ own₁ => still s₁ own₁)
          (fun s₁ H T' valid' taller _ own₁ => .inr ⟨H,T',by omega,valid',rfl,own₁.reorder (add_zero _)⟩)
      | getValue key =>
        simp only [execute,serve,Does,Prog.wp_bind]
        exact does_getValue valid (by omega) own₀ (fun s₁ own₁ => still s₁ own₁)
      | delete key =>
        simp only [execute,serve,Does,Prog.wp_bind]
        refine does_delete valid (by omega) own₀ (fun s₁ _ own₁ => still s₁ own₁) (fun s₁ leaked value only leaf own₁ => ?_)
          (fun s₁ H T' leaked valid' lower' removed freed own₁ => ?_)
        · exact absurd ⟨key,rfl,(lastKey_iff own₀).mpr ⟨leaf,value,only⟩⟩ tidy.1
        · have none : leaked = 0 := freed (fun path leaf reaches =>
            ⟨tidy.2 key h T path leaf rfl ⟨valid,0,0,own₀⟩ rfl reaches removed.present,unpinned_zero path⟩)
          exact .inr ⟨H,T',by omega,valid',rfl,own₁.reorder (by rw [none]; simp)⟩

/-- Calls in a row, by induction on the list. -/
theorem tidy_executeAll : ∀ (calls : List Call) {n : Nat} {s : Store BPlusTreePage} {root : PageId},
    Owned n s root → n + calls.length ≤ fuel + 1 → Prog.Served (exec .zeros) Granted (executeAll fuel root calls) s →
    Throughout (fun s root call _ _ => Tidy s root call) fuel s root calls →
    Throughout (fun _ _ _ s' root' => NoLeak s' root') fuel s root calls
  | [], _, _, _, _, _, _, _ => trivial
  | call :: rest, n, s, root, owned, enough, served, tidy => by
    rw [List.length_cons] at enough
    rw [executeAll] at served
    intro s' root' ran
    obtain ⟨here,later⟩ := tidy s' root' ran
    obtain ⟨_,_,same,owned'⟩ := Prog.run_of_wp (does_tidy owned (by omega) here) (Prog.served_bind served)
    rw [ran] at same
    cases same
    have remaining := Prog.served_next served ran
    exact ⟨owned'.noLeak,tidy_executeAll rest owned' (by omega) remaining later⟩

/-- Over a database of its own a tree whose deletions are tidy leaks no page:
    after every call each page is a page of the tree or free. -/
theorem tidy_calls_leak_nothing (fresh : Fresh s) (calls : List Call) (enough : calls.length ≤ fuel)
    (served : Prog.Served (exec .zeros) Granted (executeAll fuel INVALID_PAGE_ID calls) s)
    (tidy : Throughout (fun s root call _ _ => Tidy s root call) fuel s INVALID_PAGE_ID calls) :
    (∃ root' s', Prog.run (exec .zeros) (executeAll fuel INVALID_PAGE_ID calls) s = .ok (root',s')) ∧
      Throughout (fun _ _ _ s' root' => NoLeak s' root') fuel s INVALID_PAGE_ID calls := by
  have own : Owns s 0 0 := ⟨by simp,by simp,fun p held => absurd (fresh.unused p) held,fresh.unpinned,fresh.wellFormed⟩
  have represents : Represents 0 s INVALID_PAGE_ID (fun _ => none) := ⟨0,0,.inl ⟨rfl,fun _ => rfl,own⟩⟩
  obtain ⟨root',s',ran,_⟩ := does_executeAll calls represents (by omega) served
  exact ⟨⟨root',s',ran⟩,tidy_executeAll calls (.inl ⟨rfl,own⟩ : Owned 0 s INVALID_PAGE_ID) (by omega) served tidy⟩

theorem fresh_empty : Fresh (Store.empty BPlusTreePage) := ⟨empty_wellFormed _,fun _ => rfl,rfl⟩

/-- Deletions from a root that is a leaf are tidy but for the last key. -/
theorem tidy_leaf {page : BPlusTreeLeafPage} (data : s.data root = some (.leaf page)) (more : page.size ≠ 1) :
    Tidy s root call := by
  constructor
  · rintro ⟨key,_,page',data',single,_⟩
    rw [data] at data'
    cases data'
    exact more single
  · rintro key h T path leaf _ ⟨_,F,pins,own⟩ rfl reaches _
    obtain ⟨content,data',shown⟩ := stored own (Multiset.mem_add.mpr (.inl mem_cells))
    rw [data] at data'
    cases data'
    cases h with
    | succ h => exact shown.elim
    | zero =>
      cases path with
      | top => trivial
      | step f above =>
        have tall := height_le above
        have low : above.height = 0 := reaches.height
        omega

end

/-- The state that calls lead to from a new database. -/
def stateAfter (calls : List Call) : Store BPlusTreePage :=
  match Prog.run (exec .zeros) (executeAll 3 INVALID_PAGE_ID calls) (Store.empty BPlusTreePage) with
  | .ok (_,s') => s'
  | .error _ => Store.empty BPlusTreePage

/-- Two keys inserted, and one of them deleted. -/
def twoKeys : List Call := [.request (.insert 7 ⟨1,2⟩),.request (.insert 8 ⟨1,3⟩)]

theorem tidy_calls_leak_nothing_twoKeys :
    (∃ root' s', Prog.run (exec .zeros) (executeAll 3 INVALID_PAGE_ID (twoKeys ++ [.request (.delete 7)]))
      (Store.empty BPlusTreePage) = .ok (root',s')) ∧
    Throughout (fun _ _ _ s' root' => NoLeak s' root') 3 (Store.empty BPlusTreePage) INVALID_PAGE_ID
      (twoKeys ++ [.request (.delete 7)]) := by
  refine tidy_calls_leak_nothing fresh_empty _ (by decide) (by decide +kernel) ?_
  intro s₁ root₁ ran₁
  refine ⟨⟨by simp [Empties],by simp⟩,fun s₂ root₂ ran₂ => ⟨⟨by simp [Empties],by simp⟩,fun s₃ root₃ ran₃ => ⟨?_,trivial⟩⟩⟩
  obtain ⟨rfl,rfl⟩ : root₁ = 1 ∧ s₁ = stateAfter [.request (.insert 7 ⟨1,2⟩)] := by
    have first : Prog.run (exec .zeros) (execute 3 INVALID_PAGE_ID (.request (.insert 7 ⟨1,2⟩))) (Store.empty BPlusTreePage) =
        .ok (1,stateAfter [.request (.insert 7 ⟨1,2⟩)]) := rfl
    rw [first] at ran₁
    cases ran₁
    exact ⟨rfl,rfl⟩
  obtain ⟨rfl,rfl⟩ : root₂ = 1 ∧ s₂ = stateAfter twoKeys := by
    have second : Prog.run (exec .zeros) (execute 3 1 (.request (.insert 8 ⟨1,3⟩)))
        (stateAfter [.request (.insert 7 ⟨1,2⟩)]) = .ok (1,stateAfter twoKeys) := rfl
    rw [second] at ran₂
    cases ran₂
    exact ⟨rfl,rfl⟩
  obtain ⟨page,data,more⟩ : ∃ page, (stateAfter twoKeys).data 1 = some (.leaf page) ∧ page.size ≠ 1 :=
    ⟨_,rfl,by decide +kernel⟩
  exact tidy_leaf data more

/-- The page of a deleted last key is neither free nor a page of the tree. -/
theorem last_page_leaks : ¬ ∀ (fuel : Nat) (s : Store BPlusTreePage) (calls : List Call), Fresh s → calls.length ≤ fuel →
    Prog.Served (exec .zeros) Granted (executeAll fuel INVALID_PAGE_ID calls) s →
    Throughout (fun _ _ _ s' root' => NoLeak s' root') fuel s INVALID_PAGE_ID calls := by
  intro tight
  have claimed := tight 2 (Store.empty BPlusTreePage) [.request (.insert 7 ⟨1,2⟩),.request (.delete 7)] fresh_empty
    (by decide) (by decide +kernel)
  obtain ⟨s',deleted,inFile,notFree⟩ : ∃ s', Prog.run (exec .zeros) (execute 2 1 (.request (.delete 7))) single =
      .ok (INVALID_PAGE_ID,s') ∧ 1 < s'.numPages ∧ 1 ∉ s'.free := ⟨_,rfl,by decide +kernel,by decide +kernel⟩
  have leak := ((claimed single 1 rfl).2 s' INVALID_PAGE_ID deleted).1
  exact ((leak 1 (by decide) inFile).mpr notFree).1 rfl

end Aether.TreeLeaks
