import Aether.ClientRules
import Aether.TreeBytes
import Aether.TreeUses

/-!
What the tree's operations owe. Every page that an operation changes is marked dirty
before its last pin is given back, whatever null pages it meets on the way; only the
page of the last key stays pinned, and it stays owed.
-/
namespace Aether.TreeDebts
open Aether.Programs Aether.Types Aether.PageStore Aether.Codecs.Codec Aether.Cells Aether.LeafPage Aether.InternalPage
open Aether.BPlusTree Aether.PoolClients Aether.ClientRules Aether.TreeBytes
open Aether.TreeMap (Request Response serve)
open Aether.TreeScan (scanAll)
open Aether.TreeUses (Holding)

/-- Every call of the client is careful. -/
abbrev Pays {α : Type} (client : Action α) (post : α → Ledger BPlusTreePage → Prop) (t : Ledger BPlusTreePage) : Prop :=
  Prog.Guards (monitor treeFormat.blank) (Mindful treeFormat .unlimited) client post t

/-- The pins are these, and nothing else is owed. -/
abbrev Accounted (pins : Multiset PageId) (owes : PageId → Prop) (ids : Nat) (t : Ledger BPlusTreePage) : Prop :=
  Tidy treeFormat pins owes ids t

section
variable {α : Type} {pins : Multiset PageId} {owes : PageId → Prop} {ids : Nat} {t : Ledger BPlusTreePage}
variable {p q root node sibling parent : PageId} {key : Key} {childIdx : Int} {fromLeft : Bool}

/-! ### Accesses to pages -/

theorem pays_inBounds {result : Option α} {Q : α → Ledger BPlusTreePage → Prop} (next : ∀ a, result = some a → Q a t) :
    Pays (inBounds result) Q t := minds_ofOption next

theorem pays_readLeaf {Q : BPlusTreeLeafPage → Ledger BPlusTreePage → Prop} (accounted : Accounted pins owes ids t)
    (next : ∀ leaf, t.store.data p = some (.leaf leaf) → Fits (.leaf leaf) → Q leaf t) : Pays (readLeaf p) Q t := by
  rw [readLeaf,Pays,Prog.guards_bind]
  refine minds_getData accounted (fun content stored fits => ?_)
  cases content with
  | leaf leaf => exact next leaf stored fits
  | internal internal => trivial

theorem pays_readInternal {Q : BPlusTreeInternalPage → Ledger BPlusTreePage → Prop} (accounted : Accounted pins owes ids t)
    (next : ∀ page, Fits (.internal page) → Q page t) : Pays (readInternal p) Q t := by
  rw [readInternal,Pays,Prog.guards_bind]
  refine minds_getData accounted (fun content stored fits => ?_)
  cases content with
  | leaf leaf => trivial
  | internal internal => exact next internal fits

/-- A page that is changed where it is owed already. -/
theorem pays_setData {content : BPlusTreePage} {Q : Unit → Ledger BPlusTreePage → Prop} (accounted : Accounted pins owes ids t)
    (due : owes p) (fits : Fits content) (next : ∀ t', Accounted pins owes ids t' → Q () t') : Pays (setData p content) Q t := by
  refine minds_setData accounted fits (fun t₁ accounted _ => next t₁ (accounted.mono ?_))
  rintro r (rfl | old)
  · exact due
  · exact old

theorem pays_setParent {Q : Unit → Ledger BPlusTreePage → Prop} (accounted : Accounted pins owes ids t) (due : owes p)
    (next : ∀ t', Accounted pins owes ids t' → Q () t') : Pays (setParent p parent) Q t := by
  rw [setParent,Pays,Prog.guards_bind]
  refine minds_getData accounted (fun content _ fits => ?_)
  exact pays_setData accounted due (fits_setParentPageId fits parent) next

/-- A page that is given back with the mark. -/
theorem pays_unpinPage {Q : Bool → Ledger BPlusTreePage → Prop} (accounted : Accounted (p ::ₘ pins) (fun r => r = p ∨ owes r) ids t)
    (next : ∀ done t', Accounted pins owes ids t' → Q done t') : Pays (unpinPage p true) Q t := by
  refine minds_unpinPage accounted (fun done t₁ accounted _ => next done t₁ (accounted.mono ?_))
  rintro r ⟨other,rfl | old⟩
  · exact absurd rfl other
  · exact old

theorem pays_unpinPage_clean {Q : Bool → Ledger BPlusTreePage → Prop} (accounted : Accounted (p ::ₘ pins) owes ids t)
    (kept : ∀ r, owes r → r ∈ pins) (next : ∀ done t', Accounted pins owes ids t' → Q done t') : Pays (unpinPage p false) Q t :=
  minds_unpinPage_clean accounted (kept p) (fun done t₁ accounted _ => next done t₁ accounted)

/-- A page that is fetched and owed from now on. -/
theorem pays_fetchPage {Q : Option PageId → Ledger BPlusTreePage → Prop} (accounted : Accounted pins owes ids t)
    (null : ∀ t', Accounted pins owes ids t' → Q none t')
    (next : ∀ t', Accounted (p ::ₘ pins) owes ids t' → Q (some p) t') : Pays (fetchPage p) Q t :=
  minds_fetchPage accounted trivial (fun t₁ accounted _ => null t₁ accounted) (fun t₁ accounted _ => next t₁ accounted)

theorem pays_newPage {Q : Option PageId → Ledger BPlusTreePage → Prop} (accounted : Accounted pins owes (ids + 1) t)
    (null : ∀ t', Accounted pins owes ids t' → Q none t')
    (next : ∀ q t', Accounted (q ::ₘ pins) (fun r => r = q ∨ owes r) ids t' → Q (some q) t') : Pays newPage Q t :=
  minds_newPage accounted trivial (fun t₁ accounted _ => null t₁ accounted)
    (fun q t₁ accounted _ => next q t₁ accounted)

theorem kept_cons (kept : ∀ r, owes r → r ∈ pins) : ∀ r, r = p ∨ owes r → r ∈ p ::ₘ pins := by
  rintro r (rfl | old)
  · exact Multiset.mem_cons_self r pins
  · exact Multiset.mem_cons_of_mem (kept r old)

theorem pays_adopt {Q : Unit → Ledger BPlusTreePage → Prop} (accounted : Accounted pins owes ids t)
    (next : ∀ t', Accounted pins owes ids t' → Q () t') : Pays (adopt p parent) Q t := by
  rw [adopt,Pays,Prog.guards_bind]
  refine pays_fetchPage accounted (fun t₁ accounted => next t₁ accounted) (fun t₁ accounted => ?_)
  simp only [Prog.guards_bind]
  refine pays_setParent (accounted.owing p) (.inl rfl) (fun t₂ accounted => ?_)
  exact pays_unpinPage accounted (fun _ t₃ accounted => next t₃ accounted)

theorem pays_adoptChildren {Q : Unit → Ledger BPlusTreePage → Prop} (next : ∀ t', Accounted pins owes ids t' → Q () t') :
    ∀ (count i : Nat) {t : Ledger BPlusTreePage}, Accounted pins owes ids t → Pays (adoptChildren p parent i count) Q t
  | 0, _, t, accounted => next t accounted
  | count + 1, i, t, accounted => by
    simp only [adoptChildren,Pays,Prog.guards_bind]
    refine pays_readInternal accounted (fun page _ => ?_)
    refine pays_inBounds (fun childId _ => ?_)
    exact pays_adopt accounted (fun t₁ accounted => pays_adoptChildren next count (i + 1) accounted)

/-! ### Search -/

theorem pays_descend_null {Q : PageId → Ledger BPlusTreePage → Prop} (fuel : Nat) : Pays (descend key fuel none) Q t := by
  cases fuel with
  | zero => trivial
  | succ fuel => trivial

theorem pays_descend {Q : PageId → Ledger BPlusTreePage → Prop} (kept : ∀ r, owes r → r ∈ pins)
    (next : ∀ p t', Accounted (p ::ₘ pins) owes ids t' → Q p t') : ∀ (fuel : Nat) {p : PageId} {t : Ledger BPlusTreePage},
    Accounted (p ::ₘ pins) owes ids t → Pays (descend key fuel (some p)) Q t
  | 0, _, _, _ => trivial
  | fuel + 1, p, t, accounted => by
    simp only [descend,deref,Pays,Prog.guards_bind,Prog.guards_ofOption]
    intro page same
    obtain rfl := Option.some.inj same
    refine minds_getData accounted (fun content _ _ => ?_)
    cases content with
    | leaf leaf => exact next p t accounted
    | internal internal =>
      simp only [Prog.guards_bind]
      refine pays_inBounds (fun nextId _ => ?_)
      refine pays_unpinPage_clean accounted kept (fun _ t₁ accounted => ?_)
      refine pays_fetchPage accounted (fun t₂ _ => pays_descend_null fuel) (fun t₂ accounted => ?_)
      exact pays_descend kept next fuel accounted

theorem pays_findLeafPage {Q : Option PageId → Ledger BPlusTreePage → Prop} {fuel : Nat} (kept : ∀ r, owes r → r ∈ pins)
    (accounted : Accounted pins owes ids t) (null : Q none t) (next : ∀ p t', Accounted (p ::ₘ pins) owes ids t' → Q (some p) t') :
    Pays (findLeafPage fuel root key) Q t := by
  rw [findLeafPage]
  split_ifs with invalid
  · exact null
  · rw [Pays,Prog.guards_bind]
    refine pays_fetchPage accounted (fun t₁ _ => ?_) (fun t₁ accounted => ?_)
    · rw [Prog.guards_bind]
      exact pays_descend_null fuel
    · rw [Prog.guards_bind]
      exact pays_descend kept (fun p t₂ accounted => next p t₂ accounted) fuel accounted

theorem pays_getValue {fuel : Nat} (kept : ∀ r, owes r → r ∈ pins) (accounted : Accounted pins owes ids t) :
    Pays (getValue fuel root key) (fun _ t' => Accounted pins owes ids t') t := by
  rw [getValue]
  split_ifs with invalid
  · exact accounted
  · rw [Pays,Prog.guards_bind]
    refine pays_findLeafPage kept accounted accounted (fun p t₁ accounted => ?_)
    simp only [Prog.guards_bind]
    refine pays_readLeaf accounted (fun leaf _ _ => ?_)
    refine pays_inBounds (fun status _ => ?_)
    exact pays_unpinPage_clean accounted kept (fun _ t₂ accounted => accounted)

/-! ### Insertion -/

theorem pays_splitLeaf {Q : Key → Ledger BPlusTreePage → Prop} (accounted : Accounted pins owes ids t) (old : owes p) (new : owes q)
    (next : ∀ key t', Int64Range key → Accounted pins owes ids t' → Q key t') : Pays (splitLeaf p q) Q t := by
  simp only [splitLeaf,Pays,Prog.guards_bind]
  refine pays_readLeaf accounted (fun leaf _ fits => ?_)
  refine pays_inBounds (fun halves moved => ?_)
  obtain ⟨leaf',newLeaf⟩ := halves
  have source : Fits (.leaf { leaf with nextPageId := q }) := fits
  have target : Fits (.leaf { BPlusTreeLeafPage.init q leaf.parentPageId with nextPageId := leaf.nextPageId }) :=
    fits_initLeaf q leaf.parentPageId
  obtain ⟨fits',fitsNew⟩ := fits_moveHalfTo source target moved
  refine pays_setData accounted old fits' (fun t₁ accounted => ?_)
  refine pays_setData accounted new fitsNew (fun t₂ accounted => ?_)
  exact pays_inBounds (fun key here => next key t₂ (within_get fitsNew.2 here) accounted)

theorem pays_splitInternal {Q : Key → Ledger BPlusTreePage → Prop} (accounted : Accounted pins owes ids t) (old : owes p) (new : owes q)
    (next : ∀ key t', Int64Range key → Accounted pins owes ids t' → Q key t') : Pays (splitInternal p q) Q t := by
  simp only [splitInternal,Pays,Prog.guards_bind]
  refine pays_readInternal accounted (fun page fits => ?_)
  refine pays_inBounds (fun halves moved => ?_)
  obtain ⟨page',newPage⟩ := halves
  obtain ⟨fits',fitsNew⟩ := fits_moveHalfToInternal fits (fits_initInternal q page.parentPageId) moved
  refine pays_setData accounted old fits' (fun t₁ accounted => ?_)
  refine pays_setData accounted new fitsNew (fun t₂ accounted => ?_)
  refine pays_adoptChildren (fun t₃ accounted => ?_) newPage.size 0 accounted
  refine pays_readInternal accounted (fun after fitsAfter => ?_)
  exact pays_inBounds (fun key here => next key t₃ (within_get fitsAfter.2 here) accounted)

/-- The pages on both sides are owed by the caller, by induction on the levels; each level
    may take a new page. -/
theorem pays_insertIntoParent : ∀ (fuel : Nat) {Q : PageId → Ledger BPlusTreePage → Prop} {pins : Multiset PageId}
    {owes : PageId → Prop} {t : Ledger BPlusTreePage} {root p q : PageId} {key : Key}, Accounted pins owes fuel t → Int64Range key →
    owes p → owes q → (∀ root' t', Accounted pins owes 0 t' → Q root' t') → Pays (insertIntoParent fuel root p key q) Q t
  | 0, _, _, _, _, _, _, _, _, _, _, _, _, _ => trivial
  | fuel + 1, Q, pins, owes, t, root, p, q, key, accounted, range, old, new, next => by
    have done : ∀ (root' : PageId) {ids : Nat} {t : Ledger BPlusTreePage}, Accounted pins owes ids t → Q root' t :=
      fun root' _ _ accounted => next root' _ (accounted.fewer (Nat.zero_le _))
    simp only [insertIntoParent,Pays,Prog.guards_bind]
    refine minds_getData accounted (fun content _ _ => ?_)
    split_ifs with isRoot
    · rw [Prog.guards_bind]
      refine pays_newPage accounted (fun t₁ accounted => done root accounted) (fun r t₁ accounted => ?_)
      simp only [Prog.guards_bind]
      refine minds_getData accounted (fun newContent _ _ => ?_)
      refine pays_inBounds (fun page populated => ?_)
      have fits := fits_populate (fits_initInternal r INVALID_PAGE_ID) range populated
      refine pays_setData accounted (.inl rfl) fits (fun t₂ accounted => ?_)
      refine pays_setParent accounted (.inr old) (fun t₃ accounted => ?_)
      refine pays_setParent accounted (.inr new) (fun t₄ accounted => ?_)
      exact pays_unpinPage accounted (fun _ t₅ accounted => done r accounted)
    · rw [Prog.guards_bind]
      refine pays_fetchPage accounted (fun t₁ accounted => done root accounted) (fun t₁ accounted => ?_)
      have accounted := accounted.owing content.getParentPageId
      simp only [Prog.guards_bind]
      refine minds_getData accounted (fun newContent _ _ => ?_)
      refine pays_readInternal accounted (fun page fits => ?_)
      refine pays_inBounds (fun page' inserted => ?_)
      refine pays_setData accounted (.inl rfl) (fits_insertNodeAfter fits range inserted) (fun t₂ accounted => ?_)
      refine pays_setParent accounted (.inr new) (fun t₃ accounted => ?_)
      split_ifs with fitsInto
      · rw [Prog.guards_bind]
        exact pays_unpinPage accounted (fun _ t₄ accounted => done root accounted)
      · rw [Prog.guards_bind]
        refine pays_newPage accounted (fun t₄ accounted => ?_) (fun r t₄ accounted => ?_)
        · simp only [Prog.guards_bind]
          exact pays_unpinPage accounted (fun _ t₅ accounted => done root accounted)
        · simp only [Prog.guards_bind]
          refine pays_splitInternal accounted (.inr (.inl rfl)) (.inl rfl) (fun pushUpKey t₅ range' accounted => ?_)
          refine pays_insertIntoParent fuel accounted range' (.inr (.inl rfl)) (.inl rfl) (fun root' t₆ accounted => ?_)
          refine pays_unpinPage accounted.swap (fun _ t₇ accounted => ?_)
          exact pays_unpinPage accounted (fun _ t₈ accounted => done root' accounted)

/-- An insertion takes at most one new page a level, and one for the leaf or a new root. -/
theorem pays_insert {fuel : Nat} {value : RID} (kept : ∀ r, owes r → r ∈ pins) (range : Int64Range key)
    (accounted : Accounted pins owes (fuel + 1) t) :
    Pays (BPlusTree.insert fuel root key value) (fun _ t' => Accounted pins owes 0 t') t := by
  rw [BPlusTree.insert]
  split_ifs with empty
  · rw [Pays,Prog.guards_bind]
    refine pays_newPage accounted (fun t₁ accounted => accounted.fewer (Nat.zero_le _)) (fun r t₁ accounted => ?_)
    simp only [Prog.guards_bind]
    refine pays_inBounds (fun inserted done => ?_)
    obtain ⟨size,leaf⟩ := inserted
    refine pays_setData accounted (.inl rfl) (fits_insert (fits_initLeaf r INVALID_PAGE_ID) range done) (fun t₂ accounted => ?_)
    exact pays_unpinPage accounted (fun _ t₃ accounted => accounted.fewer (Nat.zero_le _))
  · rw [Pays,Prog.guards_bind]
    refine pays_findLeafPage kept accounted (accounted.fewer (Nat.zero_le _)) (fun p t₁ accounted => ?_)
    simp only [Prog.guards_bind]
    refine pays_readLeaf accounted (fun leaf stored fits => ?_)
    refine pays_inBounds (fun inserted done => ?_)
    obtain ⟨newSize,leaf'⟩ := inserted
    split_ifs with present fitsInto
    · -- the key is there, so the page is written as it is
      obtain rfl : newSize = leaf.size := present
      obtain rfl := BPlusTreeLeafPage.insert_unchanged done
      refine minds_setData_same accounted stored (fun t₂ accounted _ => ?_)
      rw [Prog.guards_bind]
      exact pays_unpinPage_clean accounted kept (fun _ t₃ accounted => accounted.fewer (Nat.zero_le _))
    all_goals
      have accounted := accounted.owing p
      refine pays_setData accounted (.inl rfl) (fits_insert fits range done) (fun t₂ accounted => ?_)
      rw [Prog.guards_bind]
    · exact pays_unpinPage accounted (fun _ t₃ accounted => accounted.fewer (Nat.zero_le _))
    · refine pays_newPage accounted (fun t₃ accounted => ?_) (fun q t₃ accounted => ?_)
      · simp only [Prog.guards_bind]
        exact pays_unpinPage accounted (fun _ t₄ accounted => accounted.fewer (Nat.zero_le _))
      · simp only [Prog.guards_bind]
        refine pays_splitLeaf accounted (.inr (.inl rfl)) (.inl rfl) (fun splitKey t₄ range' accounted => ?_)
        refine pays_insertIntoParent fuel accounted range' (.inr (.inl rfl)) (.inl rfl) (fun root' t₅ accounted => ?_)
        refine pays_unpinPage accounted.swap (fun _ t₆ accounted => ?_)
        exact pays_unpinPage accounted (fun _ t₇ accounted => accounted)

/-! ### Deletion -/

theorem pays_setKeyAt {Q : Unit → Ledger BPlusTreePage → Prop} {index : Int} (accounted : Accounted pins owes ids t) (due : owes p)
    (range : Int64Range key) (next : ∀ t', Accounted pins owes ids t' → Q () t') : Pays (BPlusTree.setKeyAt p index key) Q t := by
  simp only [BPlusTree.setKeyAt,Pays,Prog.guards_bind]
  refine pays_readInternal accounted (fun page fits => ?_)
  refine pays_inBounds (fun page' set => ?_)
  exact pays_setData accounted due (fits_setKeyAt fits range set) next

theorem pays_removeChild {Q : Unit → Ledger BPlusTreePage → Prop} {index : Nat} (accounted : Accounted pins owes ids t) (due : owes p)
    (next : ∀ t', Accounted pins owes ids t' → Q () t') : Pays (removeChild p index) Q t := by
  simp only [removeChild,Pays,Prog.guards_bind]
  refine pays_readInternal accounted (fun page fits => ?_)
  refine pays_inBounds (fun page' removed => ?_)
  exact pays_setData accounted due (fits_removeInternal fits removed) next

/-- The node, its sibling and their parent are changed. -/
theorem pays_redistribute {Q : Unit → Ledger BPlusTreePage → Prop} (accounted : Accounted pins owes ids t) (here : owes node)
    (beside : owes sibling) (above : owes parent) (next : ∀ t', Accounted pins owes ids t' → Q () t') :
    Pays (redistribute node sibling parent childIdx fromLeft) Q t := by
  rw [redistribute,Pays,Prog.guards_bind]
  refine minds_getData accounted (fun content _ fits => ?_)
  cases content with
  | leaf leaf =>
    simp only [Prog.guards_bind]
    refine pays_readLeaf accounted (fun sib _ sibFits => ?_)
    cases fromLeft with
    | true =>
      simp only [if_true,Prog.guards_bind]
      refine pays_inBounds (fun both moved => ?_)
      obtain ⟨sibFits',fits'⟩ := fits_moveLastToFrontOf sibFits fits moved
      refine pays_setData accounted beside sibFits' (fun t₁ accounted => ?_)
      refine pays_setData accounted here fits' (fun t₂ accounted => ?_)
      exact pays_inBounds (fun key first => pays_setKeyAt accounted above (within_get fits'.2 first) next)
    | false =>
      simp only [Bool.false_eq_true,if_false,Prog.guards_bind]
      refine pays_inBounds (fun both moved => ?_)
      obtain ⟨sibFits',fits'⟩ := fits_moveFirstToEndOf sibFits fits moved
      refine pays_setData accounted beside sibFits' (fun t₁ accounted => ?_)
      refine pays_setData accounted here fits' (fun t₂ accounted => ?_)
      exact pays_inBounds (fun key first => pays_setKeyAt accounted above (within_get sibFits'.2 first) next)
  | internal internal =>
    simp only [Prog.guards_bind]
    refine pays_readInternal accounted (fun sib sibFits => ?_)
    refine pays_readInternal accounted (fun page pageFits => ?_)
    cases fromLeft with
    | true =>
      simp only [if_true,Prog.guards_bind]
      refine pays_inBounds (fun parentKey foundKey => ?_)
      refine pays_inBounds (fun newParentKey foundNew => ?_)
      refine pays_inBounds (fun both moved => ?_)
      obtain ⟨sibFits',fits'⟩ := fits_moveLastToFrontOfInternal sibFits fits (within_get pageFits.2 foundKey) moved
      refine pays_setData accounted beside sibFits' (fun t₁ accounted => ?_)
      refine pays_setData accounted here fits' (fun t₂ accounted => ?_)
      refine pays_setKeyAt accounted above (within_get sibFits.2 foundNew) (fun t₃ accounted => ?_)
      exact pays_inBounds (fun child _ => pays_adopt accounted next)
    | false =>
      simp only [Bool.false_eq_true,if_false,Prog.guards_bind]
      refine pays_inBounds (fun parentKey foundKey => ?_)
      refine pays_inBounds (fun newParentKey foundNew => ?_)
      refine pays_inBounds (fun both moved => ?_)
      obtain ⟨sibFits',fits'⟩ := fits_moveFirstToEndOfInternal sibFits fits (within_get pageFits.2 foundKey) moved
      refine pays_setData accounted beside sibFits' (fun t₁ accounted => ?_)
      refine pays_setData accounted here fits' (fun t₂ accounted => ?_)
      refine pays_setKeyAt accounted above (within_get sibFits.2 foundNew) (fun t₃ accounted => ?_)
      exact pays_inBounds (fun child _ => pays_adopt accounted next)

/-- The sibling is marked when it lost an entry, and otherwise it is as it was. -/
theorem pays_borrow {Q : Bool → Ledger BPlusTreePage → Prop} (accounted : Accounted pins owes ids t) (kept : ∀ r, owes r → r ∈ pins)
    (here : owes node) (above : owes parent) (next : ∀ done t', Accounted pins owes ids t' → Q done t') :
    Pays (borrow node parent childIdx fromLeft) Q t := by
  simp only [borrow,Pays,Prog.guards_bind]
  refine pays_readInternal accounted (fun page _ => ?_)
  refine pays_inBounds (fun siblingId _ => ?_)
  refine pays_fetchPage accounted (fun t₁ accounted => next false t₁ accounted) (fun t₁ accounted => ?_)
  simp only [Prog.guards_bind]
  refine minds_getData accounted (fun content _ _ => ?_)
  split_ifs
  · have accounted := accounted.owing siblingId
    rw [Prog.guards_bind]
    refine pays_redistribute accounted (.inr here) (.inl rfl) (.inr above) (fun t₂ accounted => ?_)
    rw [Prog.guards_bind]
    exact pays_unpinPage accounted (fun _ t₃ accounted => next true t₃ accounted)
  · rw [Prog.guards_bind]
    exact pays_unpinPage_clean accounted kept (fun _ t₂ accounted => next false t₂ accounted)

theorem pays_tryBorrow {Q : Bool → Ledger BPlusTreePage → Prop} {condition : Prop} [Decidable condition]
    (accounted : Accounted pins owes ids t) (kept : ∀ r, owes r → r ∈ pins) (here : owes node) (above : owes parent)
    (next : ∀ done t', Accounted pins owes ids t' → Q done t') :
    Pays (if condition then borrow node parent childIdx fromLeft else pure false) Q t := by
  split_ifs
  · exact pays_borrow accounted kept here above next
  · exact next false t accounted

theorem pays_merge {Q : Unit → Ledger BPlusTreePage → Prop} {index : Nat} (accounted : Accounted pins owes ids t) (here : owes node)
    (beside : owes sibling) (above : owes parent) (next : ∀ t', Accounted pins owes ids t' → Q () t') :
    Pays (merge node sibling parent index) Q t := by
  rw [merge,Pays,Prog.guards_bind]
  refine minds_getData accounted (fun content _ fits => ?_)
  cases content with
  | leaf left =>
    simp only [Prog.guards_bind]
    refine pays_readLeaf accounted (fun right _ rightFits => ?_)
    refine pays_inBounds (fun both moved => ?_)
    obtain ⟨rightFits',fits'⟩ := fits_moveAllTo rightFits fits moved
    refine pays_setData accounted beside rightFits' (fun t₁ accounted => ?_)
    refine pays_setData accounted here fits' (fun t₂ accounted => ?_)
    exact pays_removeChild accounted above next
  | internal left =>
    simp only [Prog.guards_bind]
    refine pays_readInternal accounted (fun page pageFits => ?_)
    refine pays_inBounds (fun parentKey foundKey => ?_)
    refine pays_readInternal accounted (fun right rightFits => ?_)
    refine pays_inBounds (fun both moved => ?_)
    obtain ⟨rightFits',fits'⟩ := fits_moveAllToInternal rightFits fits (within_get pageFits.2 foundKey) moved
    refine pays_setData accounted beside rightFits' (fun t₁ accounted => ?_)
    refine pays_setData accounted here fits' (fun t₂ accounted => ?_)
    exact pays_adoptChildren (fun t₃ accounted => pays_removeChild accounted above next) _ 0 accounted

theorem pays_mergeSibling {Q : Unit → Ledger BPlusTreePage → Prop} (accounted : Accounted pins owes ids t) (here : owes node)
    (above : owes parent) (next : ∀ t', Accounted pins owes ids t' → Q () t') : Pays (mergeSibling node parent childIdx) Q t := by
  rw [mergeSibling]
  split_ifs with first
  all_goals
    simp only [Pays,Prog.guards_bind]
    refine pays_readInternal accounted (fun page _ => ?_)
    refine pays_inBounds (fun siblingId _ => ?_)
    refine pays_fetchPage accounted (fun t₁ accounted => next t₁ accounted) (fun t₁ accounted => ?_)
    have accounted := accounted.owing siblingId
    simp only [Prog.guards_bind]
  · refine pays_merge accounted (.inl rfl) (.inr here) (.inr above) (fun t₂ accounted => ?_)
    refine pays_unpinPage accounted (fun _ t₃ accounted => ?_)
    refine minds_getData accounted (fun content _ _ => ?_)
    exact minds_deletePage accounted (fun _ t₄ accounted => next t₄ accounted)
  · refine pays_merge accounted (.inr here) (.inl rfl) (.inr above) (fun t₂ accounted => ?_)
    refine pays_unpinPage accounted (fun _ t₃ accounted => ?_)
    exact minds_deletePage accounted (fun _ t₄ accounted => next t₄ accounted)

theorem pays_collapseRoot {Q : PageId → Ledger BPlusTreePage → Prop} {content : BPlusTreePage} (accounted : Accounted pins owes ids t)
    (next : ∀ root' t', Accounted pins owes ids t' → Q root' t') : Pays (collapseRoot root content) Q t := by
  cases content with
  | leaf leaf => exact next root t accounted
  | internal internal =>
    rw [collapseRoot]
    split_ifs
    · simp only [Pays,Prog.guards_bind]
      refine pays_inBounds (fun newRoot _ => ?_)
      refine pays_adopt accounted (fun t₁ accounted => ?_)
      exact minds_deletePage accounted (fun _ t₂ accounted => next newRoot t₂ accounted)
    · exact next root t accounted

/-- The parent is owed while its level is repaired, by induction on the levels. -/
theorem pays_handleUnderflow : ∀ (fuel : Nat) {Q : PageId → Ledger BPlusTreePage → Prop} {pins : Multiset PageId}
    {owes : PageId → Prop} {t : Ledger BPlusTreePage} {root node : PageId}, Accounted pins owes ids t → (∀ r, owes r → r ∈ pins) →
    owes node → (∀ root' t', Accounted pins owes ids t' → Q root' t') → Pays (handleUnderflow fuel root node) Q t
  | 0, _, _, _, _, _, _, _, _, _, _ => trivial
  | fuel + 1, Q, pins, owes, t, root, node, accounted, kept, here, next => by
    simp only [handleUnderflow,Pays,Prog.guards_bind]
    refine minds_getData accounted (fun content _ _ => ?_)
    split_ifs with isRoot
    · exact pays_collapseRoot accounted next
    · rw [Prog.guards_bind]
      refine pays_fetchPage accounted (fun t₁ accounted => next root t₁ accounted) (fun t₁ accounted => ?_)
      have accounted := accounted.owing content.getParentPageId
      have kept' := kept_cons (p := content.getParentPageId) kept
      have paid : ∀ root' t', Accounted (content.getParentPageId ::ₘ pins) (fun r => r = content.getParentPageId ∨ owes r) ids t' →
          Pays (do let _ ← unpinPage content.getParentPageId true; pure root') Q t' := by
        intro root' t' accounted
        rw [Pays,Prog.guards_bind]
        exact pays_unpinPage accounted (fun _ t'' accounted => next root' t'' accounted)
      simp only [Prog.guards_bind]
      refine pays_readInternal accounted (fun page _ => ?_)
      refine pays_inBounds (fun childIdx _ => ?_)
      refine pays_tryBorrow accounted kept' (.inr here) (.inl rfl) (fun done t₂ accounted => ?_)
      cases done with
      | true =>
        rw [if_pos rfl]
        exact paid root t₂ accounted
      | false =>
        rw [if_neg Bool.false_ne_true,Prog.guards_bind]
        refine pays_tryBorrow accounted kept' (.inr here) (.inl rfl) (fun done t₃ accounted => ?_)
        cases done with
        | true =>
          rw [if_pos rfl]
          exact paid root t₃ accounted
        | false =>
          rw [if_neg Bool.false_ne_true]
          simp only [mergeAndRepair,Prog.guards_bind]
          refine pays_mergeSibling accounted (.inr here) (.inl rfl) (fun t₄ accounted => ?_)
          refine pays_readInternal accounted (fun after _ => ?_)
          split_ifs
          · rw [Prog.guards_bind]
            exact pays_handleUnderflow fuel accounted kept' (.inl rfl) paid
          · rw [Prog.guards_bind,Prog.guards_pure]
            exact paid root t₄ accounted

theorem pays_delete {fuel : Nat} (kept : ∀ r, owes r → r ∈ pins) (accounted : Accounted pins owes 0 t) :
    Pays (delete fuel root key) (fun out t' => Accounted pins owes 0 t' ∨
      out.2 = INVALID_PAGE_ID ∧ ∃ p, Accounted (p ::ₘ pins) (fun r => r = p ∨ owes r) 0 t') t := by
  rw [delete]
  split_ifs with empty
  · exact .inl accounted
  · rw [Pays,Prog.guards_bind]
    refine pays_findLeafPage kept accounted (.inl accounted) (fun p t₁ accounted => ?_)
    simp only [Prog.guards_bind]
    refine pays_readLeaf accounted (fun leaf stored fits => ?_)
    refine pays_inBounds (fun result removed => ?_)
    obtain ⟨deleted,leaf'⟩ := result
    cases deleted with
    | false =>
      obtain rfl := BPlusTreeLeafPage.remove_unchanged removed
      refine minds_setData_same accounted stored (fun t₂ accounted _ => ?_)
      simp only [Bool.not_false,if_true,Prog.guards_bind]
      exact pays_unpinPage_clean accounted kept (fun _ t₃ accounted => .inl accounted)
    | true =>
      have accounted := accounted.owing p
      refine pays_setData accounted (.inl rfl) (fits_remove fits removed) (fun t₂ accounted => ?_)
      simp only [Bool.not_true,Bool.false_eq_true,if_false]
      split_ifs
      · rw [Prog.guards_bind]
        exact minds_deletePage accounted (fun _ t₃ accounted => .inr ⟨rfl,p,accounted⟩)
      · rw [Prog.guards_bind]
        exact pays_unpinPage accounted (fun _ t₃ accounted => .inl accounted)
      · rw [Prog.guards_bind]
        exact pays_unpinPage accounted (fun _ t₃ accounted => .inl accounted)
      · rw [Prog.guards_bind]
        refine pays_handleUnderflow fuel accounted (kept_cons kept) (.inl rfl) (fun root' t₃ accounted => ?_)
        rw [Prog.guards_bind]
        exact pays_unpinPage accounted (fun _ t₄ accounted => .inl accounted)

/-! ### Iterators -/

theorem pays_create {Q : BPlusTreeIterator → Ledger BPlusTreePage → Prop} {index : Nat} (accounted : Accounted pins owes ids t)
    (next : ∀ it own t', Holding it own → Accounted (own + pins) owes ids t' → Q it t') : Pays (BPlusTreeIterator.create p index) Q t := by
  rw [BPlusTreeIterator.create]
  split_ifs with invalid
  · exact next _ 0 t .none (accounted.repin (zero_add pins).symm)
  · rw [Pays,Prog.guards_bind]
    refine pays_fetchPage accounted (fun t₁ accounted => next _ 0 t₁ .none (accounted.repin (zero_add pins).symm)) (fun t₁ accounted => ?_)
    exact next _ _ t₁ (.page invalid) accounted

theorem pays_next {Q : BPlusTreeIterator → Ledger BPlusTreePage → Prop} {it : BPlusTreeIterator} {own : Multiset PageId}
    (kept : ∀ r, owes r → r ∈ pins) (holding : Holding it own) (accounted : Accounted (own + pins) owes ids t)
    (next : ∀ it own t', Holding it own → Accounted (own + pins) owes ids t' → Q it t') : Pays it.next Q t := by
  rw [BPlusTreeIterator.next]
  split_ifs with invalid
  · exact next it own t holding accounted
  · cases holding with
    | none => trivial
    | page valid =>
      simp only [deref,Prog.ofOption,Pays,Prog.guards_bind]
      refine pays_readLeaf accounted (fun leaf _ _ => ?_)
      split_ifs
      · rw [Prog.guards_bind]
        refine pays_unpinPage_clean accounted kept (fun _ t₁ accounted => ?_)
        exact pays_create accounted next
      · exact next _ _ t (.page valid) accounted

theorem pays_value {Q : Entry → Ledger BPlusTreePage → Prop} {it : BPlusTreeIterator} (accounted : Accounted pins owes ids t)
    (next : ∀ entry, Q entry t) : Pays it.value Q t := by
  obtain ⟨p,index,page⟩ := it
  cases page with
  | none => trivial
  | some page =>
    simp only [BPlusTreeIterator.value,deref,Prog.ofOption,Pays,Prog.guards_bind]
    refine pays_readLeaf accounted (fun leaf _ _ => ?_)
    exact pays_inBounds (fun key _ => pays_inBounds (fun value _ => next (key,value)))

/-- A scan gives back the pin of its iterator at the end. -/
theorem pays_scan (kept : ∀ r, owes r → r ∈ pins) : ∀ (steps : Nat) {it : BPlusTreeIterator} {own : Multiset PageId}
    {t : Ledger BPlusTreePage}, Holding it own → Accounted (own + pins) owes ids t →
    Pays (TreeScan.scan steps it) (fun _ t' => Accounted pins owes ids t') t
  | 0, _, _, _, _, _ => trivial
  | steps + 1, it, own, t, holding, accounted => by
    simp only [TreeScan.scan,endIterator,BPlusTreeIterator.create,if_true,Pays,Prog.guards_bind,Prog.guards_pure]
    split_ifs with ended
    · rw [Prog.guards_bind,BPlusTreeIterator.destroy]
      cases holding with
      | none =>
        rw [if_neg (by simp)]
        exact accounted.repin (zero_add pins)
      | page valid =>
        rw [if_pos ⟨valid,by simp⟩,Prog.guards_bind]
        exact pays_unpinPage_clean accounted kept (fun _ t₁ accounted => accounted)
    · simp only [Prog.guards_bind]
      refine pays_value accounted (fun entry => ?_)
      refine pays_next kept holding accounted (fun it' own' t₁ holding accounted => ?_)
      exact (pays_scan kept steps holding accounted).mono (fun _ _ => id)

theorem pays_descendLeft {Q : PageId → Ledger BPlusTreePage → Prop} (kept : ∀ r, owes r → r ∈ pins)
    (next : ∀ p t', Accounted pins owes ids t' → Q p t') : ∀ (fuel : Nat) {p : PageId} {t : Ledger BPlusTreePage},
    Accounted (p ::ₘ pins) owes ids t → Pays (descendLeft fuel (some p)) Q t
  | 0, _, _, _ => trivial
  | fuel + 1, p, t, accounted => by
    simp only [descendLeft,deref,Prog.ofOption,Pays,Prog.guards_bind]
    refine minds_getData accounted (fun content _ _ => ?_)
    cases content with
    | leaf leaf =>
      rw [Prog.guards_bind]
      exact pays_unpinPage_clean accounted kept (fun _ t₁ accounted => next p t₁ accounted)
    | internal internal =>
      simp only [Prog.guards_bind]
      refine pays_inBounds (fun child _ => ?_)
      refine pays_unpinPage_clean accounted kept (fun _ t₁ accounted => ?_)
      refine pays_fetchPage accounted (fun t₂ _ => ?_) (fun t₂ accounted => pays_descendLeft kept next fuel accounted)
      cases fuel with
      | zero => trivial
      | succ fuel => trivial

theorem pays_scanAll {fuel steps : Nat} (kept : ∀ r, owes r → r ∈ pins) (accounted : Accounted pins owes ids t) :
    Pays (scanAll fuel root steps) (fun _ t' => Accounted pins owes ids t') t := by
  rw [scanAll,Pays,Prog.guards_bind,beginIterator]
  split_ifs with empty
  · exact pays_create accounted (fun it own t₁ holding accounted => pays_scan kept steps holding accounted)
  · rw [Prog.guards_bind]
    refine pays_fetchPage accounted (fun t₁ _ => ?_) (fun t₁ accounted => ?_)
    · rw [Prog.guards_bind]
      cases fuel with
      | zero => trivial
      | succ fuel => trivial
    · rw [Prog.guards_bind]
      refine pays_descendLeft kept (fun p t₂ accounted => ?_) fuel accounted
      exact pays_create accounted (fun it own t₃ holding accounted => pays_scan kept steps holding accounted)

/-! ### Requests -/

/-- The key of a request is a 64-bit integer. -/
def KeyFits : Request → Prop
  | .insert key _ | .delete key | .getValue key => Int64Range key

/-- A request gives back what it takes and marks what it changes; after the deletion of the
    last key one page more is pinned and owed. -/
theorem pays_serve {fuel : Nat} {request : Request} (kept : ∀ r, owes r → r ∈ pins) (fits : KeyFits request)
    (accounted : Accounted pins owes (fuel + 1) t) : Pays (serve fuel root request) (fun out t' => Accounted pins owes 0 t' ∨
      out.2 = INVALID_PAGE_ID ∧ ∃ p, Accounted (p ::ₘ pins) (fun r => r = p ∨ owes r) 0 t') t := by
  cases request with
  | insert key value =>
    simp only [serve,Pays,Prog.guards_bind]
    exact (pays_insert kept fits accounted).mono (fun _ _ accounted => .inl accounted)
  | delete key =>
    simp only [serve,Pays,Prog.guards_bind]
    exact (pays_delete kept (accounted.fewer (Nat.zero_le _))).mono (fun _ _ => id)
  | getValue key =>
    simp only [serve,Pays,Prog.guards_bind]
    exact (pays_getValue kept (accounted.fewer (Nat.zero_le _))).mono (fun _ _ accounted => .inl accounted)

end
end Aether.TreeDebts
