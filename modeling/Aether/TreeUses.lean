import Aether.TreeRanks
import Aether.TreeScan

/-!
The pins of the operations on a tree. An insertion holds two pages on every level
that it divides, and one more for a new root or for a child that gets another parent.
A deletion holds one page on every level that it repairs, a sibling and a child.
-/
namespace Aether.TreeUses
open Aether.Programs Aether.Types Aether.PageStore Aether.LeafPage Aether.InternalPage Aether.BPlusTree
open Aether.TreeRanks BPlusTreeInternalPage

section
variable {α : Type} {s s' : Store BPlusTreePage} {base own pins pins' : Multiset PageId} {rank : Rank}
variable {height wide kept limit k : Nat} {p q root parentId newChild : PageId} {key : Key} {value : RID} {isDirty : Bool}

/-! ### Pages in place after a change -/

/-- A leaf with the same header. -/
theorem fits_leaf {leaf leaf' : BPlusTreeLeafPage} (fits : Fits rank wide k p (.leaf leaf))
    (same : BPlusTreeLeafPage.SameHeader leaf leaf') : Fits rank wide k p (.leaf leaf') := by
  have parent : (BPlusTreePage.leaf leaf').getParentPageId = (BPlusTreePage.leaf leaf).getParentPageId := same.parentPageId
  exact ⟨same.pageId.trans fits.pageId,by rw [parent]; exact fits.parent,fun internal other => by cases other⟩

/-- An internal page with the same header, and with children of the rank below. -/
theorem fits_internal {page page' : BPlusTreeInternalPage} {wide' : Nat} (fits : Fits rank wide (k + 1) p (.internal page))
    (same : SameHeader page page') (children : ∀ c, Child page' c → rank c = some k) (size : wide' ≤ k + 1 → 2 ≤ page'.size) :
    Fits rank wide' (k + 1) p (.internal page') := by
  have parent : (BPlusTreePage.internal page').getParentPageId = (BPlusTreePage.internal page).getParentPageId := same.parentPageId
  refine ⟨same.pageId.trans fits.pageId,by rw [parent]; exact fits.parent,fun internal equal => ?_⟩
  cases equal
  exact ⟨k,rfl,children,size⟩

/-- What is known of an internal page with a rank. -/
theorem ranked_internal {page : BPlusTreeInternalPage} (ranked : Ranked rank height wide kept pins s) (there : rank p = some k)
    (stored : s.data p = some (.internal page)) : ∃ j, k = j + 1 ∧ Fits rank wide (j + 1) p (.internal page) ∧
      (∀ c, Child page c → rank c = some j) ∧ (wide ≤ k → 2 ≤ page.size) := by
  have fits := ranked.fits p k _ there stored
  obtain ⟨j,rfl,children,size⟩ := fits.children page rfl
  exact ⟨j,rfl,fits,children,size⟩

/-! ### Insertion -/

theorem uses_splitInternal {Q : Key → Store BPlusTreePage → Prop} (ranked : Ranked rank height height 0 (base + own) s)
    (there : rank p = some k) (fresh : rank q = none) (room : own.card < limit)
    (next : ∀ key s', Ranked (Function.update rank q (some k)) height height 0 (base + own) s' → Q key s') :
    Uses base limit (splitInternal p q) Q s := by
  have low := ranked.below p k there
  simp only [splitInternal,Uses,Prog.guards_bind]
  refine uses_readInternal (fun page stored => ?_)
  obtain ⟨j,rfl,fits,children,_⟩ := ranked_internal ranked there stored
  refine uses_inBounds (fun halves moved => ?_)
  obtain ⟨page',new⟩ := halves
  obtain ⟨same,sameNew⟩ := moveHalfTo_header moved
  have fits' : Fits rank height (j + 1) p (.internal page') :=
    fits_internal fits same (fun c child => children c (moveHalfTo_child moved (.inl child))) (fun high => by omega)
  refine uses_setRanked ranked there fits' (fun s₁ ranked₁ data₁ => ?_)
  refine uses_setUnranked ranked₁ fresh (fun s₂ ranked₂ data₂ => ?_)
  have stored₂ : s₂.data q = some (.internal new) := by rw [data₂,Function.update_self]
  have childrenNew : ∀ c, Child new c → Function.update rank q (some (j + 1)) c = some j :=
    fun c child => rank_extend fresh (children c (moveHalfTo_child moved (.inr child)))
  have ranked₃ := ranked₂.extend fresh low stored₂ (by
    refine ⟨sameNew.pageId,?_,fun internal equal => ?_⟩
    · have parent : (BPlusTreePage.internal new).getParentPageId = (BPlusTreePage.internal page).getParentPageId :=
        sameNew.parentPageId
      rw [parent]
      exact fits.parent.imp_right (rank_extend fresh)
    · cases equal
      exact ⟨j,rfl,childrenNew,fun high => by omega⟩)
  refine uses_adoptChildren (Function.update_self q _ rank) childrenNew (Function.update_self q _ rank) room
    (fun s₃ ranked₄ => ?_) new.size 0 s₂ ranked₃ stored₂ (by omega)
  refine uses_readInternal (fun internal _ => ?_)
  exact uses_inBounds (fun key _ => next key s₃ ranked₄)

/-- Two pins on every level that is divided, and one for the new root. -/
theorem uses_insertIntoParent : ∀ (fuel : Nat) {Q : PageId → Store BPlusTreePage → Prop} (rank : Rank) (k : Nat) (own : Multiset PageId)
    (s : Store BPlusTreePage) (root p q : PageId) (key : Key), Ranked rank height height 0 (base + own) s → rank p = some k →
    rank q = some k → own.card + 2 * (height - 1 - k) < limit →
    (∀ root' s', Ranked (fun _ => none) 0 0 0 (base + own) s' → Q root' s') → Uses base limit (insertIntoParent fuel root p key q) Q s
  | 0, _, _, _, _, _, _, _, _, _, _, _, _, _, _ => trivial
  | fuel + 1, Q, rank, k, own, s, root, p, q, key, ranked, here, new, room, next => by
    have low := ranked.below p k here
    simp only [insertIntoParent,Uses,Prog.guards_bind]
    refine uses_getData (fun old stored => ?_)
    have fits := ranked.fits p k old here stored
    split_ifs with isRoot
    · -- the root: its new parent has no other level above
      rw [Prog.guards_bind]
      refine uses_newPage ranked (by omega) (fun s₁ ranked₁ _ => next root s₁ ranked₁.forget) (fun r s₁ _ ranked₁ => ?_)
      simp only [Prog.guards_bind]
      refine uses_getData (fun newContent _ => ?_)
      refine uses_inBounds (fun page _ => ?_)
      have pins := ranked₁.forget
      refine uses_setUnranked pins rfl (fun s₂ pins₂ _ => ?_)
      refine uses_setParent pins₂ (fun _ ranks => by cases ranks) (fun s₃ pins₃ _ => ?_)
      refine uses_setParent pins₃ (fun _ ranks => by cases ranks) (fun s₄ pins₄ _ => ?_)
      exact uses_unpinPage pins₄ (fun _ s₅ pins₅ _ => next r s₅ pins₅)
    · have above : rank old.getParentPageId = some (k + 1) := by
        refine fits.parent.resolve_left (fun none => ?_)
        simp [BPlusTreePage.isRootPage,none] at isRoot
      have lower := ranked.below _ _ above
      rw [Prog.guards_bind]
      refine uses_fetchPage ranked (ranked.valid above) (by omega) (fun s₁ ranked₁ _ => next root s₁ ranked₁.forget)
        (fun s₁ ranked₁ _ => ?_)
      simp only [Prog.guards_bind]
      refine uses_getData (fun newContent newStored => ?_)
      refine uses_readInternal (fun parent parentStored => ?_)
      obtain ⟨j,same,parentFits,children,_⟩ := ranked_internal ranked₁ above parentStored
      obtain rfl : k = j := by omega
      refine uses_inBounds (fun page inserted => ?_)
      have newId : newContent.getPageId = q := (ranked₁.fits q k newContent new newStored).pageId
      have parentFits' : Fits rank height (k + 1) old.getParentPageId (.internal page) := by
        refine fits_internal parentFits (insertNodeAfter_header inserted) (fun c child => ?_) (fun high => by omega)
        rcases insertNodeAfter_child inserted child with old | rfl
        · exact children c old
        · rw [newId,new]
      refine uses_setRanked ranked₁ above parentFits' (fun s₂ ranked₂ _ => ?_)
      refine uses_setParent ranked₂ (fun i ranks => ?_) (fun s₃ ranked₃ _ => ?_)
      · rw [new] at ranks
        cases ranks
        exact .inr above
      · split_ifs with fitsInto
        · rw [Prog.guards_bind]
          exact uses_unpinPage ranked₃ (fun _ s₄ ranked₄ _ => next root s₄ ranked₄.forget)
        · rw [Prog.guards_bind]
          refine uses_newPage ranked₃ (by rw [Multiset.card_cons]; omega) (fun s₄ ranked₄ _ => ?_) (fun r s₄ fresh ranked₄ => ?_)
          · simp only [Prog.guards_bind]
            exact uses_unpinPage ranked₄ (fun _ s₅ ranked₅ _ => next root s₅ ranked₅.forget)
          · simp only [Prog.guards_bind]
            refine uses_splitInternal ranked₄ above fresh (by simp only [Multiset.card_cons]; omega) (fun pushUpKey s₅ ranked₅ => ?_)
            refine uses_insertIntoParent fuel _ (k + 1) _ s₅ root _ r pushUpKey ranked₅ (rank_extend fresh above)
              (Function.update_self r _ rank) ?_ (fun root' s₆ pins₆ => ?_)
            · simp only [Multiset.card_cons]
              omega
            · refine uses_unpinPage (pins₆.repin (by rw [Multiset.cons_swap])) (fun _ s₇ pins₇ _ => ?_)
              exact uses_unpinPage pins₇ (fun _ s₈ pins₈ _ => next root' s₈ pins₈)

/-! ### The descent -/

theorem uses_descend_null {Q : PageId → Store BPlusTreePage → Prop} (fuel : Nat) : Uses base limit (descend key fuel none) Q s := by
  cases fuel with
  | zero => trivial
  | succ fuel => trivial

/-- One pin on the way down. -/
theorem uses_descend {Q : PageId → Store BPlusTreePage → Prop} (room : 0 < limit) (next : ∀ p k s', rank p = some k →
    Ranked rank height 1 0 (base + p ::ₘ 0) s' → Q p s') : ∀ (fuel k : Nat) (p : PageId) (s : Store BPlusTreePage), rank p = some k →
    Ranked rank height 1 0 (base + p ::ₘ 0) s → Uses base limit (descend key fuel (some p)) Q s := by
  intro fuel
  induction fuel with
  | zero =>
    intro k p s _ _
    trivial
  | succ fuel ih =>
    intro k p s there ranked
    simp only [descend,deref,Uses,Prog.guards_bind,Prog.guards_ofOption]
    intro page same
    obtain rfl := Option.some.inj same
    refine uses_getData (fun content stored => ?_)
    cases content with
    | leaf leaf => exact next p k s there ranked
    | internal internal =>
      obtain ⟨j,rfl,_,children,size⟩ := ranked_internal ranked there stored
      have inhabited := size (by omega)
      simp only [Prog.guards_bind]
      refine uses_inBounds (fun nextId looked => ?_)
      have child := children nextId (lookup_child (by omega) looked)
      refine uses_unpinPage ranked (fun _ s₁ ranked₁ _ => ?_)
      refine uses_fetchPage ranked₁ (ranked.valid child) (by simpa using room) (fun s₂ _ _ => uses_descend_null fuel) (fun s₂ ranked₂ _ => ?_)
      exact ih j nextId s₂ child ranked₂

theorem uses_findLeafPage {Q : Option PageId → Store BPlusTreePage → Prop} {fuel : Nat} (ranked : Ranked rank height 1 0 (base + 0) s)
    (there : rank root = some k) (room : 0 < limit)
    (next : ∀ p k s', rank p = some k → Ranked rank height 1 0 (base + p ::ₘ 0) s' → Q (some p) s') :
    Uses base limit (findLeafPage fuel root key) Q s := by
  have valid := ranked.valid there
  rw [findLeafPage,if_neg valid,Uses,Prog.guards_bind]
  refine uses_fetchPage ranked valid (by simpa using room) (fun s₁ _ _ => ?_) (fun s₁ ranked₁ _ => ?_)
  · rw [Prog.guards_bind]
    exact uses_descend_null fuel
  · rw [Prog.guards_bind]
    exact uses_descend room (fun p j s₂ leaf ranked₂ => next p j s₂ leaf ranked₂) fuel k root s₁ there ranked₁

theorem uses_getValue {fuel : Nat} (ranked : Ranked rank height 1 0 (base + 0) s) (there : rank root = some k) (room : 0 < limit) :
    Uses base limit (getValue fuel root key) (fun _ _ => True) s := by
  rw [getValue,if_neg (ranked.valid there),Uses,Prog.guards_bind]
  refine uses_findLeafPage ranked there room (fun p j s₁ _ ranked₁ => ?_)
  simp only [Prog.guards_bind]
  refine uses_readLeaf (fun leaf _ => ?_)
  refine uses_inBounds (fun status _ => ?_)
  exact uses_unpinPage ranked₁ (fun _ s₂ _ _ => trivial)

/-! ### The insertion -/

/-- The new leaf is under the parent of the old one. -/
theorem uses_splitLeaf {Q : Key → Store BPlusTreePage → Prop} (ranked : Ranked rank height height 0 pins s) (there : rank p = some k)
    (fresh : rank q = none) (next : ∀ key s', Ranked (Function.update rank q (some k)) height height 0 pins s' → Q key s') :
    Uses base limit (splitLeaf p q) Q s := by
  simp only [splitLeaf,Uses,Prog.guards_bind]
  refine uses_readLeaf (fun leaf stored => ?_)
  have fits := ranked.fits p k _ there stored
  refine uses_inBounds (fun halves moved => ?_)
  obtain ⟨leaf',new⟩ := halves
  obtain ⟨same,sameNew⟩ := BPlusTreeLeafPage.moveHalfTo_header moved
  have fits' : Fits rank height k p (.leaf leaf') := fits_leaf fits ⟨same.pageId,same.parentPageId⟩
  refine uses_setRanked ranked there fits' (fun s₁ ranked₁ _ => ?_)
  refine uses_setUnranked ranked₁ fresh (fun s₂ ranked₂ data₂ => ?_)
  have stored₂ : s₂.data q = some (.leaf new) := by rw [data₂,Function.update_self]
  have ranked₃ := ranked₂.extend fresh (ranked.below p k there) stored₂ (by
    have parent : (BPlusTreePage.leaf new).getParentPageId = (BPlusTreePage.leaf leaf).getParentPageId := sameNew.parentPageId
    refine ⟨sameNew.pageId,?_,fun internal other => by cases other⟩
    rw [parent]
    exact fits.parent.imp_right (rank_extend fresh))
  exact uses_inBounds (fun key _ => next key s₂ ranked₃)

theorem uses_insert {fuel : Nat} (ranked : Ranked rank height 1 0 (base + 0) s) (there : rank root = some k)
    (room : 2 * height + 1 ≤ limit) : Uses base limit (BPlusTree.insert fuel root key value) (fun _ _ => True) s := by
  rw [BPlusTree.insert,if_neg (ranked.valid there),Uses,Prog.guards_bind]
  refine uses_findLeafPage ranked there (by omega) (fun p j s₁ leafRank ranked₁ => ?_)
  have low := ranked₁.below p j leafRank
  have ranked₁ := ranked₁.widen (show 1 ≤ height by omega) (le_refl 0)
  simp only [Prog.guards_bind]
  refine uses_readLeaf (fun leaf stored => ?_)
  refine uses_inBounds (fun done inserted => ?_)
  obtain ⟨newSize,leaf'⟩ := done
  have fits' := fits_leaf (ranked₁.fits p j _ leafRank stored) (BPlusTreeLeafPage.insert_header inserted)
  refine uses_setRanked ranked₁ leafRank fits' (fun s₂ ranked₂ _ => ?_)
  split_ifs
  · rw [Prog.guards_bind]
    exact uses_unpinPage ranked₂ (fun _ s₃ _ _ => trivial)
  · rw [Prog.guards_bind]
    exact uses_unpinPage ranked₂ (fun _ s₃ _ _ => trivial)
  · rw [Prog.guards_bind]
    refine uses_newPage ranked₂ (by simp only [Multiset.card_cons,Multiset.card_zero]; omega) (fun s₃ ranked₃ _ => ?_)
      (fun q s₃ fresh ranked₃ => ?_)
    · simp only [Prog.guards_bind]
      exact uses_unpinPage ranked₃ (fun _ s₄ _ _ => trivial)
    · simp only [Prog.guards_bind]
      refine uses_splitLeaf ranked₃ leafRank fresh (fun splitKey s₄ ranked₄ => ?_)
      refine uses_insertIntoParent fuel _ j _ s₄ root p q splitKey ranked₄ (rank_extend fresh leafRank) (Function.update_self q _ rank) ?_
        (fun root' s₅ pins₅ => ?_)
      · simp only [Multiset.card_cons,Multiset.card_zero]
        omega
      · refine uses_unpinPage (pins₅.repin (by rw [Multiset.cons_swap])) (fun _ s₆ pins₆ _ => ?_)
        exact uses_unpinPage pins₆ (fun _ s₇ _ _ => trivial)

/-- Into an empty tree: the page of the first leaf. -/
theorem uses_insert_empty {fuel : Nat} (wellFormed : WellFormed s) (room : 0 < limit) :
    Uses s.pins limit (BPlusTree.insert fuel INVALID_PAGE_ID key value) (fun _ _ => True) s := by
  have start : Ranked (fun _ => none) 0 0 0 (s.pins + 0) s := ranked_none wellFormed (add_zero _).symm
  rw [BPlusTree.insert,if_pos rfl,Uses,Prog.guards_bind]
  refine uses_newPage start (by simpa using room) (fun s₁ _ _ => trivial) (fun q s₁ _ pins₁ => ?_)
  simp only [Prog.guards_bind]
  refine uses_inBounds (fun inserted _ => ?_)
  refine uses_setUnranked pins₁ rfl (fun s₂ pins₂ _ => ?_)
  exact uses_unpinPage pins₂ (fun _ s₃ _ _ => trivial)

/-! ### Deletion -/

theorem uses_setKeyAt {Q : Unit → Store BPlusTreePage → Prop} {index : Int} (unranked : Ranked (fun _ => none) 0 0 0 pins s)
    (next : ∀ s', Ranked (fun _ => none) 0 0 0 pins s' → Q () s') : Uses base limit (BPlusTree.setKeyAt p index key) Q s := by
  simp only [BPlusTree.setKeyAt,Uses,Prog.guards_bind]
  refine uses_readInternal (fun page _ => ?_)
  refine uses_inBounds (fun page' _ => ?_)
  exact uses_setUnranked unranked rfl (fun s₁ pins₁ _ => next s₁ pins₁)

/-- The parent of pages of a rank loses a child, and need not have two any more. -/
theorem uses_removeChild {Q : Unit → Store BPlusTreePage → Prop} {index : Nat} (ranked : Ranked rank height wide kept pins s)
    (there : rank p = some (k + 1)) (next : ∀ s', Ranked rank height (k + 2) kept pins s' → Q () s') (narrow : wide ≤ k + 2) :
    Uses base limit (removeChild p index) Q s := by
  simp only [removeChild,Uses,Prog.guards_bind]
  refine uses_readInternal (fun page stored => ?_)
  obtain ⟨j,same,fits,children,_⟩ := ranked_internal ranked there stored
  obtain rfl : k = j := by omega
  refine uses_inBounds (fun page' removed => ?_)
  have fits' : Fits rank (k + 2) (k + 1) p (.internal page') :=
    fits_internal fits (remove_header removed) (fun c child => children c (remove_child removed child)) (fun high => by omega)
  exact uses_setRanked (ranked.widen narrow (le_refl kept)) there fits' (fun s₁ ranked₁ _ => next s₁ ranked₁)

/-- A child that moves along is pinned for a moment. -/
theorem uses_redistribute {Q : Unit → Store BPlusTreePage → Prop} {childIdx : Int} {fromLeft : Bool}
    (ranked : Ranked rank height wide kept (base + own) s) (sibling : rank q = some k) (room : own.card < limit)
    (next : ∀ s', Ranked (fun _ => none) 0 0 0 (base + own) s' → Q () s') :
    Uses base limit (redistribute p q parentId childIdx fromLeft) Q s := by
  have write : ∀ {r : PageId} {content : BPlusTreePage} {s : Store BPlusTreePage} {Q : Unit → Store BPlusTreePage → Prop},
      Ranked (fun _ => none) 0 0 0 (base + own) s → (∀ s', Ranked (fun _ => none) 0 0 0 (base + own) s' → Q () s') →
      Uses base limit (setData r content) Q s :=
    fun pins next => uses_setUnranked pins rfl (fun s₁ pins₁ _ => next s₁ pins₁)
  rw [redistribute,Uses,Prog.guards_bind]
  refine uses_getData (fun content stored => ?_)
  cases content with
  | leaf leaf =>
    simp only [Prog.guards_bind]
    refine uses_readLeaf (fun sib _ => ?_)
    cases fromLeft with
    | true =>
      simp only [if_true,Prog.guards_bind]
      refine uses_inBounds (fun moved _ => ?_)
      refine write ranked.forget (fun s₁ pins₁ => ?_)
      refine write pins₁ (fun s₂ pins₂ => ?_)
      exact uses_inBounds (fun key _ => uses_setKeyAt pins₂ next)
    | false =>
      simp only [Bool.false_eq_true,if_false,Prog.guards_bind]
      refine uses_inBounds (fun moved _ => ?_)
      refine write ranked.forget (fun s₁ pins₁ => ?_)
      refine write pins₁ (fun s₂ pins₂ => ?_)
      exact uses_inBounds (fun key _ => uses_setKeyAt pins₂ next)
  | internal internal =>
    simp only [Prog.guards_bind]
    refine uses_readInternal (fun sib sibStored => ?_)
    obtain ⟨j,_,_,children,_⟩ := ranked_internal ranked sibling sibStored
    refine uses_readInternal (fun page _ => ?_)
    have valid : ∀ c, Child sib c → c ≠ INVALID_PAGE_ID := fun c child => ranked.valid (children c child)
    cases fromLeft with
    | true =>
      simp only [if_true,Prog.guards_bind]
      refine uses_inBounds (fun parentKey _ => ?_)
      refine uses_inBounds (fun newParentKey _ => ?_)
      refine uses_inBounds (fun moved did => ?_)
      refine write ranked.forget (fun s₁ pins₁ => ?_)
      refine write pins₁ (fun s₂ pins₂ => ?_)
      refine uses_setKeyAt pins₂ (fun s₃ pins₃ => ?_)
      refine uses_inBounds (fun c first => ?_)
      exact uses_adopt pins₃ (valid c (moveLastToFrontOf_child did first)) room (fun _ ranks => by cases ranks)
        (fun s₄ pins₄ _ => next s₄ pins₄)
    | false =>
      simp only [Bool.false_eq_true,if_false,Prog.guards_bind]
      refine uses_inBounds (fun parentKey _ => ?_)
      refine uses_inBounds (fun newParentKey _ => ?_)
      refine uses_inBounds (fun moved did => ?_)
      refine write ranked.forget (fun s₁ pins₁ => ?_)
      refine write pins₁ (fun s₂ pins₂ => ?_)
      refine uses_setKeyAt pins₂ (fun s₃ pins₃ => ?_)
      refine uses_inBounds (fun c last => ?_)
      exact uses_adopt pins₃ (valid c (moveFirstToEndOf_child did last)) room (fun _ ranks => by cases ranks)
        (fun s₄ pins₄ _ => next s₄ pins₄)

/-- A sibling that has nothing to spare is left alone. -/
theorem uses_borrow {Q : Bool → Store BPlusTreePage → Prop} {childIdx : Int} {fromLeft : Bool} {page : BPlusTreeInternalPage}
    (ranked : Ranked rank height wide kept (base + own) s) (stored : s.data parentId = some (.internal page))
    (children : ∀ c, Child page c → rank c = some k) (room : own.card + 1 < limit)
    (inside : (if fromLeft then childIdx - 1 else childIdx + 1).toNat < page.size)
    (moved : ∀ s', Ranked (fun _ => none) 0 0 0 (base + own) s' → Q true s')
    (kept' : ∀ s', Ranked rank height wide kept (base + own) s' → s'.data = s.data → Q false s') :
    Uses base limit (borrow p parentId childIdx fromLeft) Q s := by
  simp only [borrow,Uses,Prog.guards_bind]
  refine uses_readInternal (fun found same => ?_)
  obtain rfl : found = page := by
    rw [stored] at same
    cases same
    rfl
  refine uses_inBounds (fun siblingId value => ?_)
  have sibling := children siblingId ⟨_,inside,value⟩
  refine uses_fetchPage ranked (ranked.valid sibling) (by omega) (fun s₁ ranked₁ data₁ => kept' s₁ ranked₁ data₁) (fun s₁ ranked₁ data₁ => ?_)
  simp only [Prog.guards_bind]
  refine uses_getData (fun content _ => ?_)
  split_ifs
  · rw [Prog.guards_bind]
    refine uses_redistribute ranked₁ sibling (by simpa using room) (fun s₂ pins₂ => ?_)
    rw [Prog.guards_bind]
    exact uses_unpinPage pins₂ (fun _ s₃ pins₃ _ => moved s₃ pins₃)
  · rw [Prog.guards_bind]
    exact uses_unpinPage ranked₁ (fun _ s₂ ranked₂ data₂ => kept' s₂ ranked₂ (data₂.trans data₁))

theorem uses_tryBorrow {Q : Bool → Store BPlusTreePage → Prop} {childIdx : Int} {fromLeft : Bool} {page : BPlusTreeInternalPage}
    {condition : Prop} [Decidable condition] (ranked : Ranked rank height wide kept (base + own) s)
    (stored : s.data parentId = some (.internal page)) (children : ∀ c, Child page c → rank c = some k) (room : own.card + 1 < limit)
    (inside : condition → (if fromLeft then childIdx - 1 else childIdx + 1).toNat < page.size)
    (moved : ∀ s', Ranked (fun _ => none) 0 0 0 (base + own) s' → Q true s')
    (kept' : ∀ s', Ranked rank height wide kept (base + own) s' → s'.data = s.data → Q false s') :
    Uses base limit (if condition then borrow p parentId childIdx fromLeft else pure false) Q s := by
  split_ifs with there
  · exact uses_borrow ranked stored children room (inside there) moved kept'
  · exact kept' s ranked rfl

/-- The children of the right page become those of the left one, each pinned for a
    moment. -/
theorem uses_merge {Q : Unit → Store BPlusTreePage → Prop} {index : Nat} (ranked : Ranked rank height (k + 1) kept (base + own) s)
    (left : rank p = some k) (right : rank q = some k) (above : rank parentId = some (k + 1)) (room : own.card < limit)
    (next : ∀ s', Ranked rank height (k + 2) kept (base + own) s' → Q () s') : Uses base limit (merge p q parentId index) Q s := by
  rw [merge,Uses,Prog.guards_bind]
  refine uses_getData (fun content stored => ?_)
  cases content with
  | leaf leaf =>
    simp only [Prog.guards_bind]
    refine uses_readLeaf (fun sib sibStored => ?_)
    refine uses_inBounds (fun both moved => ?_)
    obtain ⟨right',left'⟩ := both
    obtain ⟨sameRight,sameLeft⟩ := BPlusTreeLeafPage.moveAllTo_header moved
    have fitsRight := fits_leaf (ranked.fits q k _ right sibStored) sameRight
    have fitsLeft := fits_leaf (ranked.fits p k _ left stored) sameLeft
    refine uses_setRanked ranked right fitsRight (fun s₁ ranked₁ _ => ?_)
    refine uses_setRanked ranked₁ left fitsLeft (fun s₂ ranked₂ _ => ?_)
    exact uses_removeChild ranked₂ above next (by omega)
  | internal internal =>
    obtain ⟨j,rfl,fits,children,_⟩ := ranked_internal ranked left stored
    simp only [Prog.guards_bind]
    refine uses_readInternal (fun parent _ => ?_)
    refine uses_inBounds (fun parentKey _ => ?_)
    refine uses_readInternal (fun sib sibStored => ?_)
    obtain ⟨i,same,sibFits,sibChildren,_⟩ := ranked_internal ranked right sibStored
    obtain rfl : j = i := by omega
    refine uses_inBounds (fun both moved => ?_)
    obtain ⟨right',left'⟩ := both
    obtain ⟨sameRight,sameLeft,empty⟩ := moveAllTo_header moved
    have childrenLeft : ∀ c, Child left' c → rank c = some j := by
      intro c child
      rcases moveAllTo_child moved child with there | there
      · exact sibChildren c there
      · exact children c there
    have fitsRight : Fits rank (j + 1 + 1) (j + 1) q (.internal right') := by
      refine fits_internal sibFits sameRight (fun c child => ?_) (fun high => by omega)
      obtain ⟨i,inside,_⟩ := child
      omega
    have fitsLeft : Fits rank (j + 1 + 1) (j + 1) p (.internal left') :=
      fits_internal fits sameLeft childrenLeft (fun high => by omega)
    refine uses_setRanked ranked right fitsRight (fun s₁ ranked₁ _ => ?_)
    refine uses_setRanked ranked₁ left fitsLeft (fun s₂ ranked₂ data₂ => ?_)
    have named : left'.pageId = p := fitsLeft.pageId
    have stored₂ : s₂.data p = some (.internal left') := by rw [data₂,Function.update_self]
    rw [named]
    refine uses_adoptChildren left childrenLeft left room (fun s₃ ranked₃ => ?_) left'.size 0 s₂ ranked₂ stored₂ (by omega)
    exact uses_removeChild ranked₃ above next (by omega)

theorem uses_mergeSibling {Q : Unit → Store BPlusTreePage → Prop} {childIdx : Int} {page : BPlusTreeInternalPage}
    (ranked : Ranked rank height (k + 1) (k + 1) (base + own) s) (here : rank p = some k) (above : rank parentId = some (k + 1))
    (stored : s.data parentId = some (.internal page)) (low : childIdx < page.size) (room : own.card + 1 < limit)
    (next : ∀ s', Ranked rank height (k + 2) (k + 1) (base + own) s' → Q () s') :
    Uses base limit (mergeSibling p parentId childIdx) Q s := by
  obtain ⟨j,same,_,children,size⟩ := ranked_internal ranked above stored
  obtain rfl : k = j := by omega
  have two := size (by omega)
  have skip : ∀ s', Ranked rank height (k + 1) (k + 1) (base + own) s' → Q () s' :=
    fun s' ranked' => next s' (ranked'.widen (by omega) (le_refl _))
  have found : ∀ other, s.data parentId = some (.internal other) → other = page := by
    intro other same
    rw [stored] at same
    cases same
    rfl
  rw [mergeSibling]
  split_ifs with first
  · simp only [Uses,Prog.guards_bind]
    refine uses_readInternal (fun other same => ?_)
    obtain rfl := found other same
    refine uses_inBounds (fun leftId value => ?_)
    have left := children leftId ⟨_,by omega,value⟩
    refine uses_fetchPage ranked (ranked.valid left) (by omega) (fun s₁ ranked₁ _ => skip s₁ ranked₁) (fun s₁ ranked₁ _ => ?_)
    simp only [Prog.guards_bind]
    refine uses_merge ranked₁ left here above (by simpa using room) (fun s₂ ranked₂ => ?_)
    refine uses_unpinPage ranked₂ (fun _ s₃ ranked₃ _ => ?_)
    refine uses_getData (fun content kept => ?_)
    have named : content.getPageId = p := (ranked₃.fits p k content here kept).pageId
    refine uses_deletePage ranked₃ (fun i ranks => ?_) (fun _ s₄ ranked₄ => next s₄ ranked₄)
    rw [named,here] at ranks
    cases ranks
    exact Nat.lt_succ_self k
  · simp only [Uses,Prog.guards_bind]
    refine uses_readInternal (fun other same => ?_)
    obtain rfl := found other same
    refine uses_inBounds (fun rightId value => ?_)
    have right := children rightId ⟨_,by omega,value⟩
    refine uses_fetchPage ranked (ranked.valid right) (by omega) (fun s₁ ranked₁ _ => skip s₁ ranked₁) (fun s₁ ranked₁ _ => ?_)
    simp only [Prog.guards_bind]
    refine uses_merge ranked₁ here right above (by simpa using room) (fun s₂ ranked₂ => ?_)
    refine uses_unpinPage ranked₂ (fun _ s₃ ranked₃ _ => ?_)
    refine uses_deletePage ranked₃ (fun i ranks => ?_) (fun _ s₄ ranked₄ => next s₄ ranked₄)
    rw [right] at ranks
    cases ranks
    exact Nat.lt_succ_self k

theorem uses_mergeAndRepair {Q : PageId → Store BPlusTreePage → Prop} {again : Action PageId} {childIdx : Int}
    {page : BPlusTreeInternalPage} (ranked : Ranked rank height (k + 1) (k + 1) (base + parentId ::ₘ own) s) (here : rank p = some k)
    (above : rank parentId = some (k + 1)) (stored : s.data parentId = some (.internal page)) (low : childIdx < page.size)
    (room : (parentId ::ₘ own).card + 1 < limit)
    (repaired : ∀ s', Ranked rank height (k + 2) (k + 1) (base + parentId ::ₘ own) s' → Uses base limit again
      (fun root' s'' => Uses base limit (do let _ ← unpinPage parentId true; pure root') Q s'') s')
    (next : ∀ root' s', Ranked (fun _ => none) 0 0 0 (base + own) s' → Q root' s') :
    Uses base limit (mergeAndRepair again root p parentId childIdx) Q s := by
  simp only [mergeAndRepair,Uses,Prog.guards_bind]
  refine uses_mergeSibling ranked here above stored low room (fun s₁ ranked₁ => ?_)
  refine uses_readInternal (fun after _ => ?_)
  split_ifs
  · rw [Prog.guards_bind]
    exact repaired s₁ ranked₁
  · rw [Prog.guards_bind,Prog.guards_pure,Prog.guards_bind]
    exact uses_unpinPage ranked₁ (fun _ s₂ ranked₂ _ => next root s₂ ranked₂.forget)

theorem uses_collapseRoot {Q : PageId → Store BPlusTreePage → Prop} {content : BPlusTreePage}
    (ranked : Ranked rank height wide kept (base + own) s) (here : rank p = some k) (stored : s.data p = some content)
    (room : own.card < limit) (next : ∀ root' s', Ranked (fun _ => none) 0 0 0 (base + own) s' → Q root' s') :
    Uses base limit (collapseRoot root content) Q s := by
  cases content with
  | leaf leaf => exact next root s ranked.forget
  | internal internal =>
    rw [collapseRoot]
    split_ifs with single
    · obtain ⟨j,_,_,children,_⟩ := ranked_internal ranked here stored
      simp only [Uses,Prog.guards_bind]
      refine uses_inBounds (fun newRoot value => ?_)
      have child := children newRoot ⟨0,by omega,value⟩
      refine uses_adopt ranked (ranked.valid child) room (fun _ _ => .inl rfl) (fun s₁ ranked₁ _ => ?_)
      exact uses_deletePage ranked₁.forget (fun _ ranks => by cases ranks) (fun _ s₂ pins₂ => next newRoot s₂ pins₂)
    · exact next root s ranked.forget

/-- One pin on every level that is repaired, one for the sibling and one for a child. -/
theorem uses_handleUnderflow : ∀ (fuel : Nat) {Q : PageId → Store BPlusTreePage → Prop} (k : Nat) (own : Multiset PageId)
    (s : Store BPlusTreePage) (root p : PageId), Ranked rank height (k + 1) (k + 1) (base + own) s → rank p = some k →
    own.card + (height - k) < limit → (∀ root' s', Ranked (fun _ => none) 0 0 0 (base + own) s' → Q root' s') →
    Uses base limit (handleUnderflow fuel root p) Q s
  | 0, _, _, _, _, _, _, _, _, _, _ => trivial
  | fuel + 1, Q, k, own, s, root, p, ranked, here, room, next => by
    have low := ranked.below p k here
    simp only [handleUnderflow,Uses,Prog.guards_bind]
    refine uses_getData (fun content stored => ?_)
    split_ifs with isRoot
    · exact uses_collapseRoot ranked here stored (by omega) next
    · have above : rank content.getParentPageId = some (k + 1) := by
        refine (ranked.fits p k content here stored).parent.resolve_left (fun none => ?_)
        simp [BPlusTreePage.isRootPage,none] at isRoot
      have lower := ranked.below _ _ above
      rw [Prog.guards_bind]
      refine uses_fetchPage ranked (ranked.valid above) (by omega) (fun s₁ ranked₁ _ => next root s₁ ranked₁.forget)
        (fun s₁ ranked₁ _ => ?_)
      simp only [Prog.guards_bind]
      refine uses_readInternal (fun page pageStored => ?_)
      obtain ⟨j,same,_,children,size⟩ := ranked_internal ranked₁ above pageStored
      obtain rfl : k = j := by omega
      have two := size (by omega)
      refine uses_inBounds (fun childIdx looked => ?_)
      have bounds := indexOf_bounds looked
      have paid : ∀ root' s', Ranked (fun _ => none) 0 0 0 (base + content.getParentPageId ::ₘ own) s' →
          Uses base limit (do let _ ← unpinPage content.getParentPageId true; pure root') Q s' := by
        intro root' s' pins'
        rw [Uses,Prog.guards_bind]
        exact uses_unpinPage pins' (fun _ s'' pins'' _ => next root' s'' pins'')
      have room' : (content.getParentPageId ::ₘ own).card + 1 < limit := by
        rw [Multiset.card_cons]
        omega
      refine uses_tryBorrow ranked₁ pageStored children room' (fun first => ?_) (fun s₂ pins₂ => ?_) (fun s₂ ranked₂ data₂ => ?_)
      · simp only [if_true]
        omega
      · rw [if_pos rfl]
        exact paid root s₂ pins₂
      rw [if_neg Bool.false_ne_true,Prog.guards_bind]
      rw [← data₂] at pageStored
      refine uses_tryBorrow ranked₂ pageStored children room' (fun last => ?_) (fun s₃ pins₃ => ?_) (fun s₃ ranked₃ data₃ => ?_)
      · simp only [Bool.false_eq_true,if_false]
        omega
      · rw [if_pos rfl]
        exact paid root s₃ pins₃
      rw [if_neg Bool.false_ne_true]
      rw [← data₃] at pageStored
      refine uses_mergeAndRepair ranked₃ here above pageStored bounds.2 room' (fun s₄ ranked₄ => ?_) next
      -- the parent is the next node
      refine uses_handleUnderflow fuel (k + 1) _ s₄ root content.getParentPageId (ranked₄.widen (le_refl _) (by omega)) above ?_ paid
      rw [Multiset.card_cons]
      omega

theorem uses_delete {fuel : Nat} (ranked : Ranked rank height 1 0 (base + 0) s) (there : rank root = some k)
    (room : 2 * height + 1 ≤ limit) : Uses base limit (delete fuel root key) (fun _ _ => True) s := by
  rw [delete,if_neg (ranked.valid there),Uses,Prog.guards_bind]
  refine uses_findLeafPage ranked there (by omega) (fun p j s₁ leafRank ranked₁ => ?_)
  have low := ranked₁.below p j leafRank
  simp only [Prog.guards_bind]
  refine uses_readLeaf (fun leaf stored => ?_)
  refine uses_inBounds (fun done removed => ?_)
  obtain ⟨deleted,leaf'⟩ := done
  have fits' := fits_leaf (ranked₁.fits p j _ leafRank stored) (BPlusTreeLeafPage.remove_header removed)
  refine uses_setRanked ranked₁ leafRank fits' (fun s₂ ranked₂ _ => ?_)
  split_ifs
  · rw [Prog.guards_bind]
    exact uses_unpinPage ranked₂ (fun _ s₃ _ _ => trivial)
  · rw [Prog.guards_bind]
    exact uses_deletePage ranked₂.forget (fun _ ranks => by cases ranks) (fun _ s₃ _ => trivial)
  · rw [Prog.guards_bind]
    exact uses_unpinPage ranked₂ (fun _ s₃ _ _ => trivial)
  · rw [Prog.guards_bind]
    exact uses_unpinPage ranked₂ (fun _ s₃ _ _ => trivial)
  · rw [Prog.guards_bind]
    refine uses_handleUnderflow fuel j _ s₂ root p (ranked₂.widen (by omega) (Nat.zero_le _)) leafRank ?_ (fun root' s₃ pins₃ => ?_)
    · simp only [Multiset.card_cons,Multiset.card_zero]
      omega
    · rw [Prog.guards_bind]
      exact uses_unpinPage pins₃ (fun _ s₄ _ _ => trivial)

/-! ### Iterators -/

/-- The pins that an iterator may hold. -/
inductive Holding : BPlusTreeIterator → Multiset PageId → Prop
  | none {p : PageId} {index : Nat} : Holding { currPageId := p, currIndex := index, currPage := .none } 0
  | page {p : PageId} {index : Nat} : p ≠ INVALID_PAGE_ID → Holding { currPageId := p, currIndex := index, currPage := some p } {p}

theorem uses_create {Q : BPlusTreeIterator → Store BPlusTreePage → Prop} {index : Nat}
    (ranked : Ranked rank height wide kept (base + 0) s) (room : 0 < limit)
    (next : ∀ it own s', Holding it own → Ranked rank height wide kept (base + own) s' → Q it s') :
    Uses base limit (BPlusTreeIterator.create p index) Q s := by
  rw [BPlusTreeIterator.create]
  split_ifs with invalid
  · exact next _ 0 s .none ranked
  · rw [Uses,Prog.guards_bind]
    exact uses_fetchPage ranked invalid (by simpa using room) (fun s₁ ranked₁ _ => next _ 0 s₁ .none ranked₁)
      (fun s₁ ranked₁ _ => next _ _ s₁ (.page invalid) ranked₁)

/-- An iterator gives up its page before it fetches the next one. -/
theorem uses_next {Q : BPlusTreeIterator → Store BPlusTreePage → Prop} {it : BPlusTreeIterator} (holding : Holding it own)
    (ranked : Ranked rank height wide kept (base + own) s) (room : 0 < limit)
    (next : ∀ it own s', Holding it own → Ranked rank height wide kept (base + own) s' → Q it s') : Uses base limit it.next Q s := by
  rw [BPlusTreeIterator.next]
  split_ifs with invalid
  · exact next it own s holding ranked
  · cases holding with
    | none => trivial
    | page valid =>
      simp only [deref,Prog.ofOption,Uses,Prog.guards_bind]
      refine uses_readLeaf (fun leaf _ => ?_)
      split_ifs
      · rw [Prog.guards_bind]
        exact uses_unpinPage ranked (fun _ s₁ ranked₁ _ => uses_create ranked₁ room next)
      · exact next _ _ s (.page valid) ranked

theorem uses_value {Q : Entry → Store BPlusTreePage → Prop} {it : BPlusTreeIterator} (next : ∀ entry, Q entry s) :
    Uses base limit it.value Q s := by
  obtain ⟨p,index,page⟩ := it
  cases page with
  | none => trivial
  | some page =>
    simp only [BPlusTreeIterator.value,deref,Prog.ofOption,Uses,Prog.guards_bind]
    refine uses_readLeaf (fun leaf _ => ?_)
    exact uses_inBounds (fun key _ => uses_inBounds (fun value _ => next (key,value)))

theorem uses_scan (room : 0 < limit) : ∀ (steps : Nat) {it : BPlusTreeIterator} {own : Multiset PageId} {s : Store BPlusTreePage},
    Holding it own → Ranked rank height wide kept (base + own) s → Uses base limit (TreeScan.scan steps it) (fun _ _ => True) s
  | 0, _, _, _, _, _ => trivial
  | steps + 1, it, own, s, holding, ranked => by
    simp only [TreeScan.scan,endIterator,BPlusTreeIterator.create,if_true,Uses,Prog.guards_bind,Prog.guards_pure]
    split_ifs with ended
    · rw [Prog.guards_bind,BPlusTreeIterator.destroy]
      cases holding with
      | none =>
        rw [if_neg (by simp)]
        trivial
      | page valid =>
        rw [if_pos ⟨valid,by simp⟩,Prog.guards_bind]
        exact uses_unpinPage ranked (fun _ _ _ _ => trivial)
    · simp only [Prog.guards_bind]
      refine uses_value (fun entry => ?_)
      refine uses_next holding ranked room (fun it' own' s₁ holding ranked₁ => ?_)
      exact (uses_scan room steps holding ranked₁).mono (fun _ _ => id)

/-- One pin on the way to the first leaf. -/
theorem uses_descendLeft {Q : PageId → Store BPlusTreePage → Prop} (room : 0 < limit)
    (next : ∀ p s', Ranked rank height 1 0 (base + 0) s' → Q p s') : ∀ (fuel k : Nat) {p : PageId} {s : Store BPlusTreePage},
    rank p = some k → Ranked rank height 1 0 (base + p ::ₘ 0) s → Uses base limit (descendLeft fuel (some p)) Q s
  | 0, _, _, _, _, _ => trivial
  | fuel + 1, k, p, s, there, ranked => by
    simp only [descendLeft,deref,Prog.ofOption,Uses,Prog.guards_bind]
    refine uses_getData (fun content stored => ?_)
    cases content with
    | leaf leaf =>
      rw [Prog.guards_bind]
      exact uses_unpinPage ranked (fun _ s₁ ranked₁ _ => next p s₁ ranked₁)
    | internal internal =>
      obtain ⟨j,rfl,_,children,size⟩ := ranked_internal ranked there stored
      have inhabited := size (by omega)
      simp only [Prog.guards_bind]
      refine uses_inBounds (fun c first => ?_)
      have child := children c ⟨0,by omega,first⟩
      refine uses_unpinPage ranked (fun _ s₁ ranked₁ _ => ?_)
      refine uses_fetchPage ranked₁ (ranked.valid child) (by simpa using room) (fun s₂ _ _ => ?_)
        (fun s₂ ranked₂ _ => uses_descendLeft room next fuel j child ranked₂)
      cases fuel with
      | zero => trivial
      | succ fuel => trivial

theorem uses_scanAll {fuel steps : Nat} (ranked : Ranked rank height 1 0 (base + 0) s) (there : rank root = some k) (room : 0 < limit) :
    Uses base limit (TreeScan.scanAll fuel root steps) (fun _ _ => True) s := by
  have valid := ranked.valid there
  rw [TreeScan.scanAll,Uses,Prog.guards_bind,beginIterator,if_neg valid,Prog.guards_bind]
  refine uses_fetchPage ranked valid (by simpa using room) (fun s₁ _ _ => ?_) (fun s₁ ranked₁ _ => ?_)
  · rw [Prog.guards_bind]
    cases fuel with
    | zero => trivial
    | succ fuel => trivial
  · rw [Prog.guards_bind]
    refine uses_descendLeft room (fun p s₂ ranked₂ => ?_) fuel k there ranked₁
    exact uses_create ranked₂ room (fun it own s₃ holding ranked₃ => uses_scan room steps holding ranked₃)

end
end Aether.TreeUses
