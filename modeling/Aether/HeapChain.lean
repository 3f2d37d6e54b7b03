import Aether.TableHeap
import Aether.PageUpdates

/-!
The pages of a heap form a chain, linked both ways, of pages that have the
layout of a slotted page; what an operation of the heap does to the chain and to
the bytes stored under each record identifier.
-/
namespace Aether.HeapChain
open Aether.Bytes Aether.Programs Aether.Types Aether.PageStore Aether.StoreRules
open Aether.Tuples Aether.TablePages Aether.PageLayout Aether.PageUpdates Aether.TableHeap

/-- The contents of the pages of a file. -/
abbrev Contents := PageId → Option TablePage

/-- Each page of the list names the page before it and the page after it; `prev`
    is before the first. -/
def Linked (data : Contents) : PageId → List PageId → Prop
  | _, [] => True
  | prev, p :: rest => (∃ page, data p = some page ∧ Layout page ∧ page.getPageId = p ∧ page.getPrevPageId = prev ∧
      page.getNextPageId = rest.headD INVALID_PAGE_ID) ∧ Linked data p rest

/-- The chain of pages from `first` on: no page occurs twice. -/
structure Chain (data : Contents) (first : PageId) (ids : List PageId) : Prop where
  head : ids.head? = some first
  distinct : ids.Nodup
  linked : Linked data INVALID_PAGE_ID ids

/-- The bytes stored under a record identifier. -/
def contentAt (data : Contents) (rid : RID) : Option (List UInt8) :=
  (data rid.pageId).bind (fun page => content page rid.slotNum.toNat)

section
variable {data : Contents} {p q prev first : PageId} {ids rest before : List PageId} {page page' : TablePage} {rid : RID}

theorem contentAt_of {data : Contents} (stored : data rid.pageId = some page) :
    contentAt data rid = content page rid.slotNum.toNat := by
  unfold contentAt
  rw [stored,Option.bind_some]

/-- The page at a place of the chain. -/
theorem linked_at (linked : Linked data prev (before ++ p :: rest)) : ∃ page, data p = some page ∧ Layout page ∧
    page.getPageId = p ∧ page.getNextPageId = rest.headD INVALID_PAGE_ID := by
  induction before generalizing prev with
  | nil =>
    obtain ⟨⟨page,stored,layout,pageId,_,next⟩,_⟩ := linked
    exact ⟨page,stored,layout,pageId,next⟩
  | cons q before ih => exact ih linked.2

theorem linked_mem (linked : Linked data prev ids) (member : p ∈ ids) : ∃ page, data p = some page ∧ Layout page := by
  obtain ⟨before,rest,rfl⟩ := List.append_of_mem member
  obtain ⟨page,stored,layout,_⟩ := linked_at linked
  exact ⟨page,stored,layout⟩

/-- A page of the chain changed, but not its links. -/
theorem linked_update (stored : data p = some page) (layout : Layout page') (pageId : page'.getPageId = page.getPageId)
    (previous : page'.getPrevPageId = page.getPrevPageId) (next : page'.getNextPageId = page.getNextPageId) :
    ∀ {ids : List PageId} {prev : PageId}, Linked data prev ids → Linked (Function.update data p (some page')) prev ids
  | [], _, _ => trivial
  | q :: rest, prev, linked => by
    obtain ⟨⟨old,here,layout',pageId',prev',next'⟩,later⟩ := linked
    refine ⟨?_,linked_update stored layout pageId previous next later⟩
    by_cases same : q = p
    · subst same
      rw [stored] at here
      cases here
      exact ⟨page',by simp,layout,pageId.trans pageId',previous.trans prev',next.trans next'⟩
    · exact ⟨old,by simpa [same] using here,layout',pageId',prev',next'⟩

/-- A page added behind the last one, by induction on the pages before it. -/
theorem linked_append {last fresh : TablePage} (apart : q ∉ before ++ [p]) (distinct : (before ++ [p]).Nodup)
    (stored : data p = some page) (layout : Layout last) (pageId : last.getPageId = page.getPageId)
    (previous : last.getPrevPageId = page.getPrevPageId) (next : last.getNextPageId = q)
    (layout' : Layout fresh) (pageId' : fresh.getPageId = q) (previous' : fresh.getPrevPageId = p)
    (next' : fresh.getNextPageId = INVALID_PAGE_ID) (linked : Linked data prev (before ++ [p])) :
    Linked (Function.update (Function.update data p (some last)) q (some fresh)) prev (before ++ [p,q]) := by
  have new : Function.update (Function.update data p (some last)) q (some fresh) q = some fresh := by simp
  induction before generalizing prev with
  | nil =>
    obtain ⟨⟨old,here,_,pageIdP,prevP,_⟩,_⟩ := linked
    rw [stored] at here
    cases here
    have other : p ≠ q := fun same => apart (by simp [same])
    refine ⟨⟨last,by simp [other],layout,pageId.trans pageIdP,previous.trans prevP,next⟩,?_,trivial⟩
    exact ⟨fresh,new,layout',pageId',previous',next'⟩
  | cons r before ih =>
    obtain ⟨⟨old,here,layoutR,pageIdR,prevR,nextR⟩,later⟩ := linked
    rw [List.cons_append,List.nodup_cons] at distinct
    have otherP : r ≠ p := fun same => distinct.1 (by simp [same])
    have otherQ : r ≠ q := fun same => apart (by simp [same])
    refine ⟨⟨old,by simpa [otherP,otherQ] using here,layoutR,pageIdR,prevR,?_⟩,?_⟩
    · rw [nextR]
      cases before <;> rfl
    · exact ih (fun member => apart (by simp [List.cons_append,member])) distinct.2 later

/-! ### Contents of pages -/

/-- Linking a page to a next one changes only that word. -/
theorem setNextPageId_facts (q : PageId) (layout : Layout page) : Layout (page.setNextPageId q) ∧
    (page.setNextPageId q).getPageId = page.getPageId ∧ (page.setNextPageId q).getPrevPageId = page.getPrevPageId ∧
    (page.setNextPageId q).getNextPageId = q ∧ ∀ i, content (page.setNextPageId q) i = content page i := by
  have count : (page.setNextPageId q).getNumSlots = page.getNumSlots := Block.get32_put32_outside (by omega)
  have fsp : (page.setNextPageId q).getFreeSpacePointer = page.getFreeSpacePointer :=
    Block.get32_put32_outside (by omega)
  have slots : ∀ i, (page.setNextPageId q).slots i = page.slots i := by
    intro i
    unfold TablePage.slots TablePage.setNextPageId
    rw [Block.get32_put32_outside (by omega),Block.get32_put32_outside (by omega)]
  have live : ∀ i, Live (page.setNextPageId q) i ↔ Live page i := by
    intro i
    unfold Live
    rw [count,slots]
  have offsets : ∀ i, offset (page.setNextPageId q) i = offset page i := fun i => by rw [offset,offset,slots]
  have lengths : ∀ i, length (page.setNextPageId q) i = length page i := fun i => by rw [length,length,slots]
  refine ⟨?_,Block.get32_put32_outside (by omega),Block.get32_put32_outside (by omega),Block.get32_put32 (by decide),?_⟩
  · constructor
    case directory => rw [count,fsp]; exact layout.directory
    case inPage => rw [fsp]; exact layout.inPage
    case few => rw [count]; exact layout.few
    case inside =>
      intro i here
      rw [fsp,offsets,lengths]
      exact layout.inside i ((live i).mp here)
    case disjoint =>
      intro i j here there
      rw [offsets,lengths,offsets,lengths]
      exact layout.disjoint i j ((live i).mp here) ((live j).mp there)
  · intro i
    unfold content
    by_cases here : Live page i
    · have inside := layout.inside i here
      have directory := layout.directory
      rw [if_pos here,if_pos ((live i).mpr here)]
      unfold tupleBytes
      rw [offsets,lengths]
      exact congrArg some (Block.slice_put32_outside (by omega))
    · rw [if_neg here,if_neg (fun there => here ((live i).mp there))]

/-- A page just initialized. -/
theorem init_facts (fresh : TablePage) (q p : PageId) : (fresh.init q p).getPageId = q ∧ (fresh.init q p).getPrevPageId = p ∧
    (fresh.init q p).getNextPageId = INVALID_PAGE_ID ∧ ∀ i, content (fresh.init q p) i = none := by
  refine ⟨?_,?_,Block.get32_put32 (by decide),?_⟩
  · unfold TablePage.init TablePage.getPageId TablePage.setNextPageId TablePage.setPrevPageId
      TablePage.setFreeSpacePointer TablePage.setNumSlots TablePage.setPageId
    rw [Block.get32_put32_outside (by omega),Block.get32_put32_outside (by omega),Block.get32_put32_outside (by omega),
      Block.get32_put32_outside (by omega),Block.get32_put32 (by decide)]
  · unfold TablePage.init TablePage.getPrevPageId TablePage.setNextPageId TablePage.setPrevPageId
    rw [Block.get32_put32_outside (by omega),Block.get32_put32 (by decide)]
  · exact fun i => if_neg (init_not_live i)

/-- One page changed: what is stored under one record identifier changes. -/
theorem contentAt_update {slotNum : UInt32} {bytes : List UInt8} (stored : data p = some page)
    (write : Stored page page' slotNum.toNat bytes) : contentAt (Function.update data p (some page')) =
      Function.update (contentAt data) ⟨p,slotNum⟩ (if bytes = [] then none else some bytes) := by
  funext rid
  by_cases same : rid.pageId = p
  · subst same
    have new : Function.update data rid.pageId (some page') rid.pageId = some page' := by simp
    rw [contentAt_of new,write.contents]
    by_cases slot : rid.slotNum = slotNum
    · subst slot
      simp
    · have other : rid ≠ ⟨rid.pageId,slotNum⟩ := fun equal => slot (congrArg RID.slotNum equal)
      rw [if_neg (fun equal => slot (UInt32.toNat_inj.mp equal)),Function.update_of_ne other,contentAt_of stored]
  · have other : rid ≠ ⟨p,slotNum⟩ := fun equal => same (congrArg RID.pageId equal)
    rw [Function.update_of_ne other]
    unfold contentAt
    rw [Function.update_of_ne same]

/-- A page linked and a page added. -/
theorem contentAt_append {fresh : TablePage} {slotNum : UInt32} {new : Option (List UInt8)} (stored : data p = some page)
    (layout : Layout page) (unused : data q = none)
    (contents : ∀ i, content fresh i = if i = slotNum.toNat then new else none) :
    contentAt (Function.update (Function.update data p (some (page.setNextPageId q))) q (some fresh)) =
      Function.update (contentAt data) ⟨q,slotNum⟩ new := by
  funext rid
  by_cases same : rid.pageId = q
  · subst same
    have new : Function.update (Function.update data p (some (page.setNextPageId rid.pageId))) rid.pageId (some fresh)
        rid.pageId = some fresh := by simp
    rw [contentAt_of new,contents]
    by_cases slot : rid.slotNum = slotNum
    · subst slot
      simp
    · have other : rid ≠ ⟨rid.pageId,slotNum⟩ := fun equal => slot (congrArg RID.slotNum equal)
      rw [if_neg (fun equal => slot (UInt32.toNat_inj.mp equal)),Function.update_of_ne other]
      unfold contentAt
      rw [unused,Option.bind_none]
  · have other : rid ≠ ⟨q,slotNum⟩ := fun equal => same (congrArg RID.pageId equal)
    rw [Function.update_of_ne other]
    by_cases last : rid.pageId = p
    · subst last
      have linked : Function.update (Function.update data rid.pageId (some (page.setNextPageId q))) q (some fresh)
          rid.pageId = some (page.setNextPageId q) := by simp [same]
      rw [contentAt_of linked,contentAt_of stored]
      exact (setNextPageId_facts q layout).2.2.2.2 _
    · unfold contentAt
      rw [Function.update_of_ne same,Function.update_of_ne last]

end
end Aether.HeapChain
