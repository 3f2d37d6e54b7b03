import Aether.PoolAccounting
import Aether.TreeUses

/-!
Trees and the frames they need. The height of a tree is read off its pages, and ranks
its pages; an operation on a tree of height `h` therefore never has more than
`2 * h + 1` pages pinned, and a pool with so many frames to spare never refuses one.
-/
namespace Aether.TreeFrames
open Aether.Programs Aether.Types Aether.PageStore Aether.LeafPage Aether.InternalPage Aether.BPlusTree
open Aether.TreeModel Aether.TreePages Aether.TreeDelete Aether.TreeMap Aether.TreeInvariant Aether.TreePins Aether.TreeRanks Aether.TreeUses
open Aether.Replacers Aether.Replacers.Replacer Aether.BufferPool Aether.BufferPoolFrames BPlusTreeInternalPage

/-! ### Heights -/

/-- The tree under a page, a leaf of height 1 or one level higher than its first child. -/
inductive Tall (s : Store BPlusTreePage) : PageId → Nat → Prop
  | leaf {p : PageId} {leaf : BPlusTreeLeafPage} : s.data p = some (.leaf leaf) → Tall s p 1
  | internal {p c : PageId} {page : BPlusTreeInternalPage} {h : Nat} : s.data p = some (.internal page) →
      page.valueAt 0 = some c → Tall s c h → Tall s p (h + 1)

/-- The height of a tree with a root; the empty tree has none. -/
def Height (s : Store BPlusTreePage) (root : PageId) (h : Nat) : Prop :=
  if root = INVALID_PAGE_ID then h = 0 else Tall s root h

open Classical in
/-- The ranks of the pages that the root leads to. -/
noncomputable def ranks (s : Store BPlusTreePage) (root : PageId) : Rank := fun p =>
  if there : ∃ k, Reachable s root p ∧ Tall s p (k + 1) then some there.choose else none

section
variable {s : Store BPlusTreePage} {base pins : Multiset PageId} {F : Cells} {h k fuel n limit : Nat} {root p : PageId} {T : Tree h}

theorem tall_unique (tall : Tall s p k) : ∀ {n : Nat}, Tall s p n → k = n := by
  induction tall with
  | leaf data =>
    intro n other
    cases other with
    | leaf => rfl
    | internal data' =>
      rw [data] at data'
      cases data'
  | internal data first _ ih =>
    intro n other
    cases other with
    | leaf data' =>
      rw [data] at data'
      cases data'
    | internal data' first' below =>
      rw [data] at data'
      cases data'
      rw [first] at first'
      cases first'
      rw [ih below]

theorem ranks_eq (reachable : Reachable s root p) (tall : Tall s p (k + 1)) : ranks s root p = some k := by
  have there : ∃ k, Reachable s root p ∧ Tall s p (k + 1) := ⟨k,reachable,tall⟩
  have same := tall_unique there.choose_spec.2 tall
  rw [ranks,dif_pos there]
  exact congrArg some (by omega)

theorem ranks_some (ranked : ranks s root p = some k) : Reachable s root p ∧ Tall s p (k + 1) := by
  rw [ranks] at ranked
  split_ifs at ranked with there
  obtain rfl := Option.some.inj ranked
  exact there.choose_spec

/-! ### The pages of a tree -/

theorem tall_of_owns : ∀ {h : Nat} (t : Tree h) {parent : PageId} {G : Cells}, Owns s (cells parent t + G) pins → t.Filled →
    rootMinimum h ≤ t.size → Tall s t.id (h + 1)
  | 0, t, parent, G, own, _, _ => by
    obtain ⟨id,next,es,rfl⟩ := tree_leaf t
    rw [cells_leaf] at own
    obtain ⟨page,data,_⟩ := stored_leaf own mem_here
    exact .leaf data
  | h + 1, t, parent, G, own, filled, least => by
    obtain ⟨id,children,rfl⟩ := tree_branch t
    cases children with
    | nil => simp [rootMinimum] at least
    | cons c rest =>
      have own₁ := own
      rw [cells_branch,add_assoc] at own₁
      obtain ⟨page,data,shows⟩ := stored_internal own₁ mem_here
      have first : page.valueAt 0 = some c.2.id := valueAt_spec (L := []) shows.holds
      obtain ⟨G',parts⟩ : ∃ G', cells parent (mkBranch id (c :: rest)) = cells id c.2 + G' := cells_child (by simp)
      obtain ⟨enough,_,below⟩ := filled_branch.mp filled c (by simp)
      exact .internal data first
        (tall_of_owns c.2 (own.reorder (by rw [parts,add_assoc])) below (le_trans rootMinimum_le enough))

/-- A page that the root leads to is the root of a subtree in the tree. -/
structure Placed (s : Store BPlusTreePage) (root : PageId) (height : Nat) (pins : Multiset PageId) {k : Nat} (t : Tree k)
    (parent : PageId) : Prop where
  owns : ∃ G, Owns s (cells parent t + G) pins
  filled : t.Filled
  least : rootMinimum k ≤ t.size
  low : k ≤ height
  above : parent = INVALID_PAGE_ID ∨ Reachable s root parent ∧ Tall s parent (k + 2)

theorem Placed.tall {t : Tree k} {parent : PageId} (placed : Placed s root h pins t parent) : Tall s t.id (k + 1) := by
  obtain ⟨G,own⟩ := placed.owns
  exact tall_of_owns t own placed.filled placed.least

/-- The pages of the children of a branch. -/
theorem Placed.child {id parent c : PageId} {children : List (Key × Tree k)} {page : BPlusTreeInternalPage} {i : Nat}
    (placed : Placed s root h pins (mkBranch id children) parent) (reachable : Reachable s root id)
    (data : s.data id = some (.internal page)) (inside : i < page.size) (value : page.valueAt i = some c) :
    ∃ t : Tree k, t.id = c ∧ Placed s root h pins t id := by
  obtain ⟨G,own⟩ := placed.owns
  obtain ⟨d,member,rfl,own'⟩ := child_of_owns own data inside value
  obtain ⟨enough,_,below⟩ := filled_branch.mp placed.filled d member
  exact ⟨d.2,rfl,own',below,le_trans rootMinimum_le enough,Nat.le_of_succ_le placed.low,.inr ⟨reachable,placed.tall⟩⟩

theorem reachable_placed (valid : Valid T) (own : Owns s (cells INVALID_PAGE_ID T + F) pins) (reachable : Reachable s T.id p) :
    ∃ (k : Nat) (t : Tree k) (parent : PageId), t.id = p ∧ Placed s T.id h pins t parent := by
  induction reachable with
  | root => exact ⟨h,T,INVALID_PAGE_ID,rfl,⟨F,own⟩,valid.filled,valid.least,le_refl h,.inl rfl⟩
  | @child p c page i reachable data inside value ih =>
    obtain ⟨k,t,parent,rfl,placed⟩ := ih
    obtain ⟨G,own'⟩ := placed.owns
    obtain ⟨page',data',shown⟩ := stored own' (Multiset.mem_add.mpr (.inl mem_cells))
    obtain rfl : page' = .internal page := by rw [data] at data'; exact (Option.some.inj data').symm
    cases k with
    | zero => exact shown.elim
    | succ k =>
      obtain ⟨id,children,rfl⟩ := tree_branch t
      obtain ⟨t',named,placed'⟩ := placed.child reachable data inside value
      exact ⟨k,t',id,named,placed'⟩

/-- The pages of a tree are at their levels. -/
theorem ranked_of_owns (valid : Valid T) (own : Owns s (cells INVALID_PAGE_ID T + F) pins) :
    Ranked (ranks s T.id) (h + 1) 1 0 pins s := by
  have place : ∀ p k, ranks s T.id p = some k → ∃ (t : Tree k) (parent : PageId), t.id = p ∧ Placed s T.id h pins t parent := by
    intro p k ranked
    obtain ⟨reachable,tall⟩ := ranks_some ranked
    obtain ⟨j,t,parent,rfl,placed⟩ := reachable_placed valid own reachable
    obtain rfl : j = k := Nat.succ.inj (tall_unique placed.tall tall)
    exact ⟨t,parent,rfl,placed⟩
  refine ⟨own.wellFormed,own.pinsEq,?_,fun p k ranked => ?_,fun p k ranked _ => ?_,fun p k page ranked data => ?_⟩
  · cases ranked : ranks s T.id INVALID_PAGE_ID with
    | none => rfl
    | some k =>
      obtain ⟨t,parent,named,placed⟩ := place _ k ranked
      obtain ⟨G,own'⟩ := placed.owns
      exact absurd named (own'.ne_invalid (Multiset.mem_map_of_mem Prod.fst (Multiset.mem_add.mpr (.inl mem_cells))))
  · obtain ⟨t,parent,_,placed⟩ := place p k ranked
    exact Nat.lt_succ_of_le placed.low
  · obtain ⟨t,parent,rfl,placed⟩ := place p k ranked
    obtain ⟨G,own'⟩ := placed.owns
    exact own'.allocated (Multiset.mem_map_of_mem Prod.fst (Multiset.mem_add.mpr (.inl mem_cells)))
  · obtain ⟨t,parent,rfl,placed⟩ := place p k ranked
    obtain ⟨G,own'⟩ := placed.owns
    obtain ⟨page',data',shown⟩ := stored own' (Multiset.mem_add.mpr (.inl mem_cells))
    obtain rfl : page' = page := by rw [data] at data'; exact (Option.some.inj data').symm
    obtain ⟨named,parented,sized,_⟩ := view_header shown
    refine ⟨named,?_,fun internal same => ?_⟩
    · rw [parented]
      exact placed.above.imp_right (fun there => ranks_eq there.1 there.2)
    · subst same
      cases k with
      | zero => exact shown.elim
      | succ k =>
        obtain ⟨id,children,rfl⟩ := tree_branch t
        have reachable := (ranks_some ranked).1
        refine ⟨k,rfl,fun c child => ?_,fun _ => ?_⟩
        · obtain ⟨i,inside,value⟩ := child
          obtain ⟨t',rfl,placed'⟩ := placed.child reachable data inside value
          exact ranks_eq (.child reachable data inside value) placed'.tall
        · have size : internal.size = (mkBranch id children).size := sized
          rw [size]
          exact placed.least

/-! ### Pools -/

/-- A pool of so many frames with these pins, in which every frame is free or has a page. -/
structure Serves (frames : Nat) (pins : Multiset PageId) (pool : BufferPoolManager) : Prop where
  accounts : Accounts pool pins
  covered : Covered pool
  idle : Idle pool
  poolSize : pool.poolSize = frames

/-- A null page is one that such a pool has answered with. -/
def FromPool (frames : Nat) : {β : Type} → PoolOp BPlusTreePage β → Store BPlusTreePage → β → Prop
  | _, .fetchPage p, s, page => page = none → ∃ pool, Serves frames s.pins pool ∧ (pool.fetchPage p).1 = .ok none
  | _, .newPage, s, page => page = none → ∃ pool, Serves frames s.pins pool ∧ pool.newPage.1 = .ok none
  | _, .unpinPage _ _, _, _ => True
  | _, .deletePage _, _, _ => True
  | _, .getData _, _, _ => True
  | _, .setData _ _, _, _ => True

variable {frames : Nat} {pool : BufferPoolManager} {f : FrameId}

/-- A frame without pins is free or can be evicted. -/
theorem Serves.spare (serves : Serves frames pins pool) (frame : IsFrame frames f) (unpinned : (pool.pages f).pinCount = 0) :
    f ∈ pool.freeList ∨ Has pool.replacer f := by
  rcases serves.covered f (serves.poolSize.symm ▸ frame) with free | ⟨p,here⟩
  · exact .inl free
  · refine .inr ((serves.accounts.evictable f).mpr ⟨p,here,?_⟩)
    rw [serves.accounts.pinned p f here] at unpinned
    exact Multiset.count_eq_zero.mp (by exact_mod_cast unpinned)

/-- Without a frame to spare, each frame has a page of its own that is pinned. -/
theorem Serves.full (serves : Serves frames pins pool) (refused : pool.replacement = none) : frames ≤ pins.toFinset.card := by
  have accounts := serves.accounts
  have all := (replacement_none accounts serves.covered serves.idle).mp refused
  rw [serves.poolSize] at all
  have into : (Finset.range frames).image Int.ofNat ⊆ pins.toFinset.image (fun p => (pool.pageTable p).getD 0) := by
    intro f member
    obtain ⟨i,inRange,rfl⟩ := Finset.mem_image.mp member
    have positive := all i ⟨Int.natCast_nonneg i,by exact_mod_cast Finset.mem_range.mp inRange⟩
    by_cases mapped : ∃ p, pool.pageTable p = some (i : Int)
    · obtain ⟨p,here⟩ := mapped
      rw [accounts.pinned p i here] at positive
      have pinned : p ∈ pins := Multiset.count_pos.mp (by exact_mod_cast positive)
      exact Finset.mem_image.mpr ⟨p,Multiset.mem_toFinset.mpr pinned,by rw [here]; rfl⟩
    · have idle := serves.idle i (fun p here => mapped ⟨p,here⟩)
      omega
  have count := Finset.card_le_card into
  rw [Finset.card_image_of_injective _ (fun _ _ => Int.ofNat.inj),Finset.card_range] at count
  exact le_trans count Finset.card_image_le

theorem selectFrame_refused (refused : pool.selectFrame.1 = .ok none) : pool.replacement = none := by
  unfold BufferPoolManager.selectFrame at refused
  unfold BufferPoolManager.replacement
  split at refused
  · cases refused
  · split at refused
    · rename_i victim
      simp only [victim]
    · dsimp only at refused
      split_ifs at refused
      · split at refused <;> cases refused
      · cases refused

theorem fetchPage_refused (valid : p ≠ INVALID_PAGE_ID) (refused : (pool.fetchPage p).1 = .ok none) : pool.replacement = none := by
  unfold BufferPoolManager.fetchPage at refused
  rw [if_neg valid] at refused
  split at refused
  · cases refused
  · split at refused
    · cases refused
    · rename_i selected
      exact selectFrame_refused (by rw [selected])
    · split at refused <;> cases refused

theorem newPage_refused (refused : pool.newPage.1 = .ok none) : pool.replacement = none := by
  unfold BufferPoolManager.newPage at refused
  split at refused
  · cases refused
  · rename_i selected
    exact selectFrame_refused (by rw [selected])
  · split at refused <;> cases refused

/-! ### The operations -/

/-- The state in which an operation has so many pages pinned, beside those that are pinned
    anyway. -/
def Holds (base : Multiset PageId) (limit : Nat) (s : Store BPlusTreePage) : Prop :=
  ∃ own, s.pins = base + own ∧ own.toFinset.card ≤ limit

theorem thrifty_keeps {β : Type} (op : PoolOp BPlusTreePage β) (s : Store BPlusTreePage) (answer : β) (s' : Store BPlusTreePage)
    (thrifty : Thrifty base limit op s) (holds : Holds base limit s) (handled : exec .zeros op s = .ok (answer,s')) :
    Holds base limit s' := by
  have few : ∀ own : Multiset PageId, own.card ≤ limit → own.toFinset.card ≤ limit :=
    fun own low => le_trans (Multiset.toFinset_card_le own) low
  cases op with
  | fetchPage p =>
    obtain ⟨valid,own,pins,low⟩ := thrifty
    rcases exec_fetchPage handled with ⟨_,script,rfl⟩ | ⟨_,_,rfl⟩
    · exact ⟨own,pins,few own low.le⟩
    · exact ⟨p ::ₘ own,by rw [Multiset.add_cons,← pins],few _ (by rw [Multiset.card_cons]; omega)⟩
  | newPage =>
    obtain ⟨own,pins,low⟩ := thrifty
    have added : ∀ q, Holds base limit (s.created .zeros q) :=
      fun q => ⟨q ::ₘ own,by rw [Multiset.add_cons,← pins]; rfl,few _ (by rw [Multiset.card_cons]; omega)⟩
    simp only [exec] at handled
    split at handled
    · cases handled
      exact ⟨own,pins,few own low.le⟩
    · split at handled
      · cases handled
        exact added _
      · split at handled
        · cases handled
          exact ⟨own,pins,few own low.le⟩
        · cases handled
          exact added _
  | unpinPage p isDirty =>
    obtain ⟨own,pins,member⟩ := thrifty
    obtain ⟨own',pins',low⟩ := holds
    obtain rfl : own = own' := add_left_cancel (pins.symm.trans pins')
    obtain ⟨dirty,rfl⟩ := exec_unpinPage handled
    refine ⟨own.erase p,?_,le_trans (Finset.card_le_card ?_) low⟩
    · show s.pins.erase p = base + own.erase p
      rw [pins,Multiset.erase_add_right_pos _ member]
    · exact Multiset.toFinset_subset.mpr (Multiset.erase_subset p own)
  | deletePage p =>
    rcases exec_deletePage handled with ⟨_,_,rfl⟩ | ⟨_,_,_,rfl⟩
    · exact holds
    · exact holds
  | getData p =>
    obtain ⟨_,rfl⟩ := exec_getData handled
    exact holds
  | setData p page =>
    obtain ⟨_,rfl⟩ := exec_setData handled
    exact holds

/-- With frames to spare for all that an operation may pin, no call is refused. -/
theorem thrifty_granted (enough : base.toFinset.card + limit ≤ frames) {β : Type} (op : PoolOp BPlusTreePage β)
    (s : Store BPlusTreePage) (answer : β) (s' : Store BPlusTreePage) (thrifty : Thrifty base limit op s)
    (_ : exec .zeros op s = .ok (answer,s')) (told : FromPool frames op s answer) : Granted op answer := by
  have spare : ∀ own : Multiset PageId, s.pins = base + own → own.card < limit → ∀ pool, Serves frames s.pins pool →
      pool.replacement ≠ none := by
    intro own pins low pool serves refused
    have full := serves.full refused
    rw [pins,Multiset.toFinset_add] at full
    have union := Finset.card_union_le base.toFinset own.toFinset
    have few := Multiset.toFinset_card_le own
    omega
  cases op with
  | fetchPage p =>
    intro null
    obtain ⟨valid,own,pins,low⟩ := thrifty
    obtain ⟨pool,serves,refused⟩ := told null
    exact spare own pins low pool serves (fetchPage_refused valid refused)
  | newPage =>
    intro null
    obtain ⟨own,pins,low⟩ := thrifty
    obtain ⟨pool,serves,refused⟩ := told null
    exact spare own pins low pool serves (newPage_refused refused)
  | unpinPage p isDirty => trivial
  | deletePage p => trivial
  | getData p => trivial
  | setData p page => trivial

/-- The pages of a tree have ranks, unless there are none. -/
theorem ranked_of_represents {n : Nat} {m : Entries} (represents : Represents n s root m) (height : Height s root h) (script : List Bool) :
    root = INVALID_PAGE_ID ∧ h = 0 ∧ WellFormed { s with script } ∨
    ∃ j, h = j + 1 ∧ ranks s root root = some j ∧ Ranked (ranks s root) h 1 0 (s.pins + 0) { s with script } := by
  obtain ⟨F,pins,⟨rfl,_,own⟩ | ⟨j,T,_,valid,rfl,_,own⟩⟩ := represents
  · rw [Height,if_pos rfl] at height
    exact .inl ⟨rfl,height,(own.rescript script).wellFormed⟩
  · have valid' := own.ne_invalid (Multiset.mem_map_of_mem Prod.fst (Multiset.mem_add.mpr (.inl (mem_cells (t := T)))))
    have tall := tall_of_owns T own valid.filled valid.least
    rw [Height,if_neg valid'] at height
    obtain rfl : j + 1 = h := tall_unique tall height
    exact .inr ⟨j,rfl,ranks_eq .root tall,(ranked_of_owns valid own).same (own.rescript script).wellFormed rfl (by rw [add_zero])⟩

theorem uses_of_represents {n fuel : Nat} {m : Entries} (represents : Represents n s root m) (height : Height s root h)
    (request : Request) (script : List Bool) :
    Uses s.pins (2 * h + 1) (serve fuel root request) (fun _ _ => True) { s with script } := by
  rcases ranked_of_represents represents height script with ⟨rfl,rfl,wellFormed⟩ | ⟨j,rfl,there,ranked⟩
  · cases request with
    | insert key value =>
      simp only [serve,Uses,Prog.guards_bind]
      exact Prog.Guards.mono (fun _ _ _ => trivial) (uses_insert_empty wellFormed (by omega))
    | delete key => trivial
    | getValue key => trivial
  · cases request with
    | insert key value =>
      simp only [serve,Uses,Prog.guards_bind]
      exact Prog.Guards.mono (fun _ _ _ => trivial) (uses_insert ranked there (le_refl _))
    | delete key =>
      simp only [serve,Uses,Prog.guards_bind]
      exact Prog.Guards.mono (fun _ _ _ => trivial) (uses_delete ranked there (le_refl _))
    | getValue key =>
      simp only [serve,Uses,Prog.guards_bind]
      exact Prog.Guards.mono (fun _ _ _ => trivial) (uses_getValue ranked there (by omega))

/-- A scan never has more than one page pinned. -/
theorem uses_scan_of_represents {n fuel steps : Nat} {m : Entries} (represents : Represents n s root m) (height : Height s root h)
    (script : List Bool) : Uses s.pins 1 (TreeScan.scanAll fuel root steps) (fun _ _ => True) { s with script } := by
  rcases ranked_of_represents represents height script with ⟨rfl,_,wellFormed⟩ | ⟨j,rfl,there,ranked⟩
  · have start : Ranked (fun _ => none) 0 0 0 (s.pins + 0) { s with script } := ranked_none wellFormed (add_zero _).symm
    rw [TreeScan.scanAll,Uses,Prog.guards_bind,beginIterator,if_pos rfl]
    exact uses_create start (by omega) (fun it own s₁ holding ranked => uses_scan (by omega) steps holding ranked)
  · exact uses_scanAll ranked there (by omega)

theorem uses_serve {n m : Nat} (reached : Reached fuel n s root) (height : Height s root h) (request : Request) (script : List Bool) :
    Uses s.pins (2 * h + 1) (serve m root request) (fun _ _ => True) { s with script } := by
  obtain ⟨_,represents⟩ := reached.represents
  exact uses_of_represents represents height request script

end
end Aether.TreeFrames
