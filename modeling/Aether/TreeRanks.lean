import Aether.TreePins

/-!
Pages of a tree at their levels. A page that is `k` levels over the leaves has rank
`k`, its children have the rank below and its parent has the rank above; this
survives every step of an insertion and of a deletion, also where the pool returns
null and steps are skipped. `Uses` bounds the pins that an action holds, and the
rules say what each access needs and keeps.
-/
namespace Aether.TreeRanks
open Aether.Programs Aether.Types Aether.PageStore Aether.LeafPage Aether.InternalPage Aether.BPlusTree
open BPlusTreeInternalPage

/-- Which pages have a rank. -/
abbrev Rank := PageId → Option Nat

/-- A page of rank `k` is in place: its parent and children have the ranks next to its
    own, and from the rank `wide` on, it has two children. -/
structure Fits (rank : Rank) (wide k : Nat) (p : PageId) (page : BPlusTreePage) : Prop where
  pageId : page.getPageId = p
  parent : page.getParentPageId = INVALID_PAGE_ID ∨ rank page.getParentPageId = some (k + 1)
  children : ∀ internal, page = .internal internal →
    ∃ j, k = j + 1 ∧ (∀ c, Child internal c → rank c = some j) ∧ (wide ≤ k → 2 ≤ internal.size)

/-- The pages with a rank are in place, those from the rank `kept` on are allocated, and
    the pins are the given ones. -/
structure Ranked (rank : Rank) (height wide kept : Nat) (pins : Multiset PageId) (s : Store BPlusTreePage) : Prop where
  wellFormed : WellFormed s
  pinsEq : s.pins = pins
  invalid : rank INVALID_PAGE_ID = none
  below : ∀ p k, rank p = some k → k < height
  allocated : ∀ p k, rank p = some k → kept ≤ k → s.data p ≠ none
  fits : ∀ p k page, rank p = some k → s.data p = some page → Fits rank wide k p page

/-- The pins that an action may take beside those of `base`: fewer than `limit` when it
    asks for a page, which is not `INVALID_PAGE_ID`. It releases only its own pins. -/
def Thrifty (base : Multiset PageId) (limit : Nat) : {β : Type} → PoolOp BPlusTreePage β → Store BPlusTreePage → Prop
  | _, .fetchPage p, s => p ≠ INVALID_PAGE_ID ∧ ∃ own, s.pins = base + own ∧ own.card < limit
  | _, .newPage, s => ∃ own, s.pins = base + own ∧ own.card < limit
  | _, .unpinPage p _, s => ∃ own, s.pins = base + own ∧ p ∈ own
  | _, .deletePage _, _ => True
  | _, .getData _, _ => True
  | _, .setData _ _, _ => True

/-- An action that keeps to its pins, whatever is answered, and establishes the
    postcondition if it returns. -/
abbrev Uses {α : Type} (base : Multiset PageId) (limit : Nat) (action : Action α) (post : α → Store BPlusTreePage → Prop)
    (s : Store BPlusTreePage) : Prop :=
  Prog.Guards (exec .zeros) (Thrifty base limit) action post s

section
variable {α : Type} {s s' : Store BPlusTreePage} {base own pins pins' : Multiset PageId} {rank : Rank}
variable {height wide kept limit k : Nat} {p q parentId : PageId} {page : BPlusTreePage} {isDirty : Bool}

/-! ### Pages in place -/

theorem Fits.widen {wide' : Nat} (fits : Fits rank wide k p page) (more : wide ≤ wide') : Fits rank wide' k p page := by
  refine ⟨fits.pageId,fits.parent,fun internal same => ?_⟩
  obtain ⟨j,below,children,size⟩ := fits.children internal same
  exact ⟨j,below,children,fun high => size (le_trans more high)⟩

theorem Fits.setParent (fits : Fits rank wide k p page) (parent : parentId = INVALID_PAGE_ID ∨ rank parentId = some (k + 1)) :
    Fits rank wide k p (page.setParentPageId parentId) := by
  cases page with
  | leaf leaf => exact ⟨fits.pageId,parent,fun internal same => by cases same⟩
  | internal internal =>
    refine ⟨fits.pageId,parent,fun changed same => ?_⟩
    obtain ⟨j,below,children,size⟩ := fits.children internal rfl
    cases same
    exact ⟨j,below,children,size⟩

/-- Another page gets a rank. -/
theorem rank_extend {j : Nat} (fresh : rank q = none) (there : rank p = some k) : Function.update rank q (some j) p = some k := by
  have other : p ≠ q := by
    rintro rfl
    rw [fresh] at there
    cases there
  rw [Function.update_of_ne other,there]

theorem Fits.extend {j : Nat} (fits : Fits rank wide k p page) (fresh : rank q = none) :
    Fits (Function.update rank q (some j)) wide k p page := by
  refine ⟨fits.pageId,fits.parent.imp_right (rank_extend fresh),fun internal same => ?_⟩
  obtain ⟨i,below,children,size⟩ := fits.children internal same
  exact ⟨i,below,fun c child => rank_extend fresh (children c child),size⟩

/-! ### Stores in order -/

theorem Ranked.same (ranked : Ranked rank height wide kept pins s) (wellFormed : WellFormed s') (data : s'.data = s.data)
    (pinsEq : s'.pins = pins') : Ranked rank height wide kept pins' s' :=
  ⟨wellFormed,pinsEq,ranked.invalid,ranked.below,by rw [data]; exact ranked.allocated,by rw [data]; exact ranked.fits⟩

theorem Ranked.repin (ranked : Ranked rank height wide kept pins s) (same : pins = pins') : Ranked rank height wide kept pins' s :=
  same ▸ ranked

/-- Without ranks, only the pins are known. -/
theorem ranked_none (wellFormed : WellFormed s) (pinsEq : s.pins = pins) : Ranked (fun _ => none) 0 0 0 pins s where
  wellFormed := wellFormed
  pinsEq := pinsEq
  invalid := rfl
  below := fun _ _ there => by cases there
  allocated := fun _ _ there => by cases there
  fits := fun _ _ _ there => by cases there

theorem Ranked.forget (ranked : Ranked rank height wide kept pins s) : Ranked (fun _ => none) 0 0 0 pins s :=
  ranked_none ranked.wellFormed ranked.pinsEq

theorem Ranked.widen {wide' kept' : Nat} (ranked : Ranked rank height wide kept pins s) (more : wide ≤ wide') (fewer : kept ≤ kept') :
    Ranked rank height wide' kept' pins s :=
  ⟨ranked.wellFormed,ranked.pinsEq,ranked.invalid,ranked.below,
    fun p k there high => ranked.allocated p k there (le_trans fewer high),
    fun p k page there stored => (ranked.fits p k page there stored).widen more⟩

theorem Ranked.valid (ranked : Ranked rank height wide kept pins s) (there : rank p = some k) : p ≠ INVALID_PAGE_ID := by
  rintro rfl
  rw [ranked.invalid] at there
  cases there

/-- An allocated page without a rank gets one. -/
theorem Ranked.extend (ranked : Ranked rank height wide kept pins s) (fresh : rank q = none) (low : k < height)
    (stored : s.data q = some page) (fits : Fits (Function.update rank q (some k)) wide k q page) :
    Ranked (Function.update rank q (some k)) height wide kept pins s := by
  have valid : INVALID_PAGE_ID ≠ q := by
    rintro rfl
    rw [invalid_unused ranked.wellFormed] at stored
    cases stored
  refine ⟨ranked.wellFormed,ranked.pinsEq,by rw [Function.update_of_ne valid,ranked.invalid],fun p j there => ?_,
    fun p j there high => ?_,fun p j other there held => ?_⟩
  · by_cases same : p = q
    · subst same
      rw [Function.update_self] at there
      cases there
      exact low
    · rw [Function.update_of_ne same] at there
      exact ranked.below p j there
  · by_cases same : p = q
    · subst same
      rw [stored]
      simp
    · rw [Function.update_of_ne same] at there
      exact ranked.allocated p j there high
  · by_cases same : p = q
    · subst same
      rw [Function.update_self] at there
      cases there
      rw [stored] at held
      cases held
      exact fits
    · rw [Function.update_of_ne same] at there
      exact (ranked.fits p j other there held).extend fresh

/-- A page is written that is in place. -/
theorem Ranked.write (ranked : Ranked rank height wide kept pins s) (wellFormed : WellFormed s') (pinsEq : s'.pins = pins)
    (data : s'.data = Function.update s.data p (some page)) (fits : ∀ k, rank p = some k → Fits rank wide k p page) :
    Ranked rank height wide kept pins s' := by
  refine ⟨wellFormed,pinsEq,ranked.invalid,ranked.below,fun q k there high => ?_,fun q k other there stored => ?_⟩
  · rw [data]
    by_cases same : q = p
    · subst same; simp
    · rw [Function.update_of_ne same]
      exact ranked.allocated q k there high
  · rw [data] at stored
    by_cases same : q = p
    · subst same
      rw [Function.update_self] at stored
      cases stored
      exact fits k there
    · rw [Function.update_of_ne same] at stored
      exact ranked.fits q k other there stored

/-! ### Accesses -/

theorem uses_inBounds {result : Option α} {Q : α → Store BPlusTreePage → Prop} (next : ∀ a, result = some a → Q a s) :
    Uses base limit (inBounds result) Q s :=
  (Prog.guards_ofOption Fault.outOfBounds result Q s).mpr next

theorem uses_getData {Q : BPlusTreePage → Store BPlusTreePage → Prop} (next : ∀ page, s.data p = some page → Q page s) :
    Uses base limit (getData p) Q s := by
  refine Prog.guards_perform trivial (fun answer s' handled => ?_)
  obtain ⟨stored,rfl⟩ := exec_getData handled
  exact next answer stored

theorem uses_readLeaf {Q : BPlusTreeLeafPage → Store BPlusTreePage → Prop} (next : ∀ leaf, s.data p = some (.leaf leaf) → Q leaf s) :
    Uses base limit (readLeaf p) Q s := by
  rw [readLeaf,Uses,Prog.guards_bind]
  refine uses_getData (fun page stored => ?_)
  cases page with
  | leaf leaf => exact next leaf stored
  | internal internal => trivial

theorem uses_readInternal {Q : BPlusTreeInternalPage → Store BPlusTreePage → Prop}
    (next : ∀ internal, s.data p = some (.internal internal) → Q internal s) : Uses base limit (readInternal p) Q s := by
  rw [readInternal,Uses,Prog.guards_bind]
  refine uses_getData (fun page stored => ?_)
  cases page with
  | leaf leaf => trivial
  | internal internal => exact next internal stored

theorem uses_setData {Q : Unit → Store BPlusTreePage → Prop} (ranked : Ranked rank height wide kept pins s)
    (fits : ∀ k, rank p = some k → Fits rank wide k p page)
    (next : ∀ s', Ranked rank height wide kept pins s' → s'.data = Function.update s.data p (some page) → Q () s') :
    Uses base limit (setData p page) Q s := by
  refine Prog.guards_perform trivial (fun answer s' handled => ?_)
  obtain ⟨pinned,rfl⟩ := exec_setData handled
  exact next _ (ranked.write (ranked.wellFormed.update (ranked.wellFormed.pinned p pinned) page) ranked.pinsEq rfl fits) rfl

/-- A page with a rank is written. -/
theorem uses_setRanked {Q : Unit → Store BPlusTreePage → Prop} (ranked : Ranked rank height wide kept pins s) (there : rank p = some k)
    (fits : Fits rank wide k p page)
    (next : ∀ s', Ranked rank height wide kept pins s' → s'.data = Function.update s.data p (some page) → Q () s') :
    Uses base limit (setData p page) Q s := by
  refine uses_setData ranked (fun i ranks => ?_) next
  rw [there] at ranks
  cases ranks
  exact fits

/-- A page without a rank is written. -/
theorem uses_setUnranked {Q : Unit → Store BPlusTreePage → Prop} (ranked : Ranked rank height wide kept pins s) (none : rank p = none)
    (next : ∀ s', Ranked rank height wide kept pins s' → s'.data = Function.update s.data p (some page) → Q () s') :
    Uses base limit (setData p page) Q s := by
  refine uses_setData ranked (fun i ranks => ?_) next
  rw [none] at ranks
  cases ranks

theorem uses_fetchPage {Q : Option PageId → Store BPlusTreePage → Prop} (ranked : Ranked rank height wide kept (base + own) s)
    (valid : p ≠ INVALID_PAGE_ID) (room : own.card < limit)
    (null : ∀ s', Ranked rank height wide kept (base + own) s' → s'.data = s.data → Q none s')
    (found : ∀ s', Ranked rank height wide kept (base + p ::ₘ own) s' → s'.data = s.data → Q (some p) s') :
    Uses base limit (fetchPage p) Q s := by
  have wf := ranked.wellFormed
  refine Prog.guards_perform ⟨valid,own,ranked.pinsEq,room⟩ (fun answer s' handled => ?_)
  rcases exec_fetchPage handled with ⟨rfl,script,rfl⟩ | ⟨rfl,live,rfl⟩
  · exact null _ (ranked.same ⟨wf.first,wf.distinct,wf.partition,wf.exclusive,wf.pinned⟩ rfl ranked.pinsEq) rfl
  · refine found _ (ranked.same (wf.pin live _) rfl ?_) rfl
    rw [ranked.pinsEq,Multiset.add_cons]

theorem uses_unpinPage {Q : Bool → Store BPlusTreePage → Prop} (ranked : Ranked rank height wide kept (base + p ::ₘ own) s)
    (next : ∀ done s', Ranked rank height wide kept (base + own) s' → s'.data = s.data → Q done s') :
    Uses base limit (unpinPage p isDirty) Q s := by
  have wf := ranked.wellFormed
  refine Prog.guards_perform ⟨p ::ₘ own,ranked.pinsEq,by simp⟩ (fun answer s' handled => ?_)
  obtain ⟨dirty,rfl⟩ := exec_unpinPage handled
  refine next _ _ (ranked.same ⟨wf.first,wf.distinct,wf.partition,wf.exclusive,fun q pinned => ?_⟩ rfl ?_) rfl
  · exact wf.pinned q (Multiset.mem_of_mem_erase pinned)
  · rw [ranked.pinsEq,Multiset.add_cons,Multiset.erase_cons_head]

/-- A new page has no rank, when every page that has one is allocated. -/
theorem uses_newPage {Q : Option PageId → Store BPlusTreePage → Prop} (ranked : Ranked rank height wide 0 (base + own) s)
    (room : own.card < limit) (null : ∀ s', Ranked rank height wide 0 (base + own) s' → s'.data = s.data → Q none s')
    (made : ∀ q s', rank q = none → Ranked rank height wide 0 (base + q ::ₘ own) s' → Q (some q) s') :
    Uses base limit newPage Q s := by
  have wf := ranked.wellFormed
  refine Prog.guards_perform ⟨own,ranked.pinsEq,room⟩ (fun answer s' handled => ?_)
  rcases exec_newPage .zeros wf with ⟨refused,_⟩ | ⟨q,rest,count,granted,unused,_,_,wf'⟩
  · rw [refused] at handled
    cases handled
    exact null _ (ranked.same ⟨wf.first,wf.distinct,wf.partition,wf.exclusive,wf.pinned⟩ rfl ranked.pinsEq) rfl
  · rw [granted] at handled
    cases handled
    have fresh : rank q = none := by
      cases there : rank q with
      | none => rfl
      | some k => exact absurd unused (ranked.allocated q k there (Nat.zero_le k))
    have others : ∀ p k, rank p = some k → p ≠ q := by
      rintro p k there rfl
      rw [fresh] at there
      cases there
    refine made q _ fresh ⟨wf',?_,ranked.invalid,ranked.below,fun p k there high => ?_,fun p k page there stored => ?_⟩
    · show q ::ₘ s.pins = _
      rw [ranked.pinsEq,Multiset.add_cons]
    · show Function.update s.data q (some .zeros) p ≠ none
      rw [Function.update_of_ne (others p k there)]
      exact ranked.allocated p k there high
    · have held : Function.update s.data q (some .zeros) p = some page := stored
      rw [Function.update_of_ne (others p k there)] at held
      exact ranked.fits p k page there held

/-- A page of a low rank, or of none, is deleted. -/
theorem uses_deletePage {Q : Bool → Store BPlusTreePage → Prop} (ranked : Ranked rank height wide kept pins s)
    (low : ∀ k, rank p = some k → k < kept) (next : ∀ done s', Ranked rank height wide kept pins s' → Q done s') :
    Uses base limit (deletePage p) Q s := by
  refine Prog.guards_perform trivial (fun answer s' handled => ?_)
  rcases exec_deletePage handled with ⟨rfl,_,rfl⟩ | ⟨rfl,pinned,live,rfl⟩
  · exact next _ _ ranked
  · refine next _ _ ⟨ranked.wellFormed.delete live pinned,ranked.pinsEq,ranked.invalid,ranked.below,
      fun q k there high => ?_,fun q k other there held => ?_⟩
    · have notDeleted : q ≠ p := by
        rintro rfl
        exact absurd (low k there) (Nat.not_lt.mpr high)
      show Function.update s.data p none q ≠ none
      rw [Function.update_of_ne notDeleted]
      exact ranked.allocated q k there high
    · have before : Function.update s.data p none q = some other := held
      by_cases same : q = p
      · subst same
        rw [Function.update_self] at before
        cases before
      · rw [Function.update_of_ne same] at before
        exact ranked.fits q k other there before

/-! ### Parent pointers -/

/-- The page gets a parent of the next rank, or none. -/
theorem uses_setParent {Q : Unit → Store BPlusTreePage → Prop} (ranked : Ranked rank height wide kept pins s)
    (parent : ∀ k, rank p = some k → parentId = INVALID_PAGE_ID ∨ rank parentId = some (k + 1))
    (next : ∀ s', Ranked rank height wide kept pins s' → (∀ q, q ≠ p → s'.data q = s.data q) → Q () s') :
    Uses base limit (setParent p parentId) Q s := by
  rw [setParent,Uses,Prog.guards_bind]
  refine uses_getData (fun page stored => ?_)
  refine uses_setData ranked (fun k there => (ranked.fits p k page there stored).setParent (parent k there)) (fun s' ranked' data => ?_)
  exact next s' ranked' (fun q other => by rw [data,Function.update_of_ne other])

theorem uses_adopt {Q : Unit → Store BPlusTreePage → Prop} (ranked : Ranked rank height wide kept (base + own) s)
    (valid : p ≠ INVALID_PAGE_ID) (room : own.card < limit)
    (parent : ∀ k, rank p = some k → parentId = INVALID_PAGE_ID ∨ rank parentId = some (k + 1))
    (next : ∀ s', Ranked rank height wide kept (base + own) s' → (∀ q, q ≠ p → s'.data q = s.data q) → Q () s') :
    Uses base limit (adopt p parentId) Q s := by
  rw [adopt,Uses,Prog.guards_bind]
  refine uses_fetchPage ranked valid room (fun s₁ ranked₁ data₁ => ?_) (fun s₁ ranked₁ data₁ => ?_)
  · exact next s₁ ranked₁ (fun q _ => by rw [data₁])
  · simp only [Prog.guards_bind]
    refine uses_setParent ranked₁ parent (fun s₂ ranked₂ others => ?_)
    refine uses_unpinPage ranked₂ (fun _ s₃ ranked₃ data₃ => ?_)
    exact next s₃ ranked₃ (fun q other => by rw [data₃,others q other,data₁])

/-- The children of a page become those of a page of the same rank. -/
theorem uses_adoptChildren {Q : Unit → Store BPlusTreePage → Prop} {internal : BPlusTreeInternalPage} (there : rank p = some (k + 1))
    (children : ∀ c, Child internal c → rank c = some k) (parent : rank parentId = some (k + 1)) (room : own.card < limit)
    (next : ∀ s', Ranked rank height wide kept (base + own) s' → Q () s') : ∀ (count i : Nat) (s : Store BPlusTreePage),
    Ranked rank height wide kept (base + own) s → s.data p = some (.internal internal) → i + count ≤ internal.size →
    Uses base limit (adoptChildren p parentId i count) Q s := by
  intro count
  induction count with
  | zero =>
    intro i s ranked _ _
    exact next s ranked
  | succ count ih =>
    intro i s ranked stored inside
    simp only [adoptChildren,Uses,Prog.guards_bind]
    refine uses_readInternal (fun found same => ?_)
    obtain rfl : found = internal := by
      rw [stored] at same
      cases same
      rfl
    refine uses_inBounds (fun childId value => ?_)
    have child := children childId ⟨i,by omega,value⟩
    refine uses_adopt ranked (ranked.valid child) room (fun j ranks => ?_) (fun s' ranked' others => ?_)
    · rw [child] at ranks
      cases ranks
      exact .inr parent
    · have other : p ≠ childId := by
        rintro rfl
        rw [there] at child
        exact absurd (Option.some.inj child) (by omega)
      exact ih (i + 1) s' ranked' (by rw [others p other,stored]) (by omega)

end
end Aether.TreeRanks
