import Aether.HeapChain

/-!
What each operation of a heap does, whatever the pool answers: `InsertTuple`
stores the tuple under a record identifier that was free, or it returns false
with every page as it was because the pool refused a page; the others change one
record at most.
-/
namespace Aether.HeapOperations
open Aether.Bytes Aether.Programs Aether.Types Aether.PageStore Aether.StoreRules
open Aether.Tuples Aether.TablePages Aether.PageLayout Aether.PageUpdates Aether.TableHeap Aether.HeapChain

/-- The pool refuses a page to `InsertTuple` on a chain: every page before has no
    room for the tuple. -/
def Refused (data : Contents) (tuple : Tuple) (spare : Prop) : List PageId → List Bool → Prop
  | [], script => script.headD false = true ∨ ¬spare
  | p :: rest, script => script.headD false = true ∨
      (∃ page, data p = some page ∧ Full page tuple.getSerializedLength) ∧ Refused data tuple spare rest script.tail

/-- What a page holds of a tuple that was put there: nothing, if it is empty or
    longer than a page can hold. -/
def kept (tuple : Tuple) : Option (List UInt8) :=
  if tuple.bytes = [] ∨ 4068 < tuple.bytes.length then none else some tuple.bytes

/-- A tuple was put under a record identifier that was free. -/
structure Grew (data data' : Contents) (first : PageId) (ids : List PageId) (rid : RID) (tuple : Tuple) : Prop where
  chain : ∃ ids', Chain data' first ids' ∧ ids <+: ids' ∧ rid.pageId ∈ ids'
  fresh : contentAt data rid = none
  contents : contentAt data' = Function.update (contentAt data) rid (kept tuple)

section
variable {allowed : Answers (PoolOp TablePage)} {tolerated : Fault → Prop} {s : Store TablePage}
variable {data : Contents} {pins : Multiset PageId} {script : List Bool} {spare : Prop}
variable {first p : PageId} {ids before rest : List PageId} {tuple : Tuple} {slotNum : UInt32}

/-- The outcome of `InsertTuple`, by whether the pool refuses it a page. -/
def Outcome (allowed : Answers (PoolOp TablePage)) (data : Contents) (pins : Multiset PageId) (first : PageId)
    (ids : List PageId) (tuple : Tuple) (refused : Prop) (out : Option RID) (s' : Store TablePage) : Prop :=
  ∃ data' script' spare', Sees s' data' pins script' spare' ∧
    match out with
    | none => data' = data ∧ refused ∧ ((∃ p, allowed (.fetchPage p) none) ∨ allowed .newPage none)
    | some rid => ¬refused ∧ Grew data data' first ids rid tuple

/-- A page that took the tuple. -/
theorem inserted_some {page page' : TablePage} {i : UInt32} (layout : Layout page)
    (inserted : page.insertTuple tuple = some (some i,page')) :
    ¬Live page i.toNat ∧ Stored page page' i.toNat tuple.bytes ∧
      kept tuple = if tuple.bytes = [] then none else some tuple.bytes := by
  have fits := (insertTuple_done layout inserted).2 (by simp)
  have short : tuple.bytes.length ≤ 4294967287 := by omega
  obtain ⟨slot,after,ran,effect⟩ := insertTuple_spec layout short
  rw [inserted] at ran
  cases ran
  cases effect with
  | stored free stored =>
    have fits := stored_short stored
    have same : (tuple.bytes = [] ∨ 4068 < tuple.bytes.length) ↔ tuple.bytes = [] := or_iff_left (by omega)
    exact ⟨free,stored,by simp only [kept,same]⟩

/-- A page without tuples that did not take the tuple. -/
theorem inserted_none {q : PageId} {fresh page' : TablePage}
    (inserted : (fresh.init q p).insertTuple tuple = some (none,page')) : page' = fresh.init q p ∧ kept tuple = none := by
  have layout := layout_init fresh q p
  refine ⟨(insertTuple_done layout inserted).1 rfl,if_pos (.inr ?_)⟩
  by_cases short : tuple.bytes.length ≤ 4294967287
  · obtain ⟨slot,after,ran,effect⟩ := insertTuple_spec layout short
    rw [inserted] at ran
    cases ran
    cases effect with
    | refused full =>
      have count : (fresh.init q p).getNumSlots.toNat = 0 := by rw [init_getNumSlots,UInt32.toNat_zero]
      have fsp : (fresh.init q p).getFreeSpacePointer.toNat = 4096 := by rw [init_getFreeSpacePointer]; rfl
      omega
  · omega

/-- The new page holds the tuple or nothing. -/
theorem inserted_fresh (slotNum : UInt32) {q : PageId} {fresh page' : TablePage} {slot : Option UInt32}
    (inserted : (fresh.init q p).insertTuple tuple = some (slot,page')) : Layout page' ∧ page'.getPageId = q ∧
      page'.getPrevPageId = p ∧ page'.getNextPageId = INVALID_PAGE_ID ∧
      ∀ i, content page' i = if i = (slot.getD slotNum).toNat then kept tuple else none := by
  have layout := layout_init fresh q p
  obtain ⟨pageId,prev,next,nothing⟩ := init_facts fresh q p
  cases slot with
  | none =>
    obtain ⟨rfl,lost⟩ := inserted_none inserted
    refine ⟨layout,pageId,prev,next,?_⟩
    intro i
    rw [nothing,lost,ite_self]
  | some i =>
    obtain ⟨_,stored,same⟩ := inserted_some layout inserted
    refine ⟨stored.layout,stored.pageId.trans pageId,stored.prev.trans prev,stored.next.trans next,?_⟩
    intro j
    rw [stored.contents,same,nothing,Option.getD_some]

theorem outside_of_unused {q : PageId} {prev : PageId} (linked : Linked data prev ids) (unused : data q = none) :
    q ∉ ids := by
  intro member
  obtain ⟨page,stored,_⟩ := linked_mem linked member
  rw [unused] at stored
  cases stored

/-- The chain with a page linked behind the last one. -/
theorem chain_append {page : TablePage} {q : PageId} {fresh page' : TablePage} {slot : Option UInt32}
    (chain : Chain data first (before ++ [p])) (stored : data p = some page) (layout : Layout page)
    (unused : data q = none) (inserted : (fresh.init q p).insertTuple tuple = some (slot,page')) :
    Chain (Function.update (Function.update data p (some (page.setNextPageId q))) q (some page')) first (before ++ [p] ++ [q]) := by
  obtain ⟨layoutP,pageIdP,prevP,nextP,_⟩ := setNextPageId_facts q layout
  obtain ⟨layoutQ,pageIdQ,prevQ,nextQ,_⟩ := inserted_fresh 0 inserted
  have outside := outside_of_unused chain.linked unused
  refine ⟨?_,?_,?_⟩
  · rw [List.head?_append_of_ne_nil _ (by simp)]
    exact chain.head
  · exact List.nodup_append.mpr ⟨chain.distinct,by simp,fun r member q' new same =>
      outside (by rw [← List.mem_singleton.mp new,← same]; exact member)⟩
  · rw [List.append_assoc]
    exact linked_append outside chain.distinct stored layoutP pageIdP prevP nextP layoutQ pageIdQ prevQ nextQ chain.linked

/-- A page linked behind the last one, with the tuple or without. -/
theorem grew_append {page : TablePage} {q : PageId} {fresh page' : TablePage} {slot : Option UInt32}
    (chain : Chain data first (before ++ [p])) (stored : data p = some page) (layout : Layout page)
    (unused : data q = none) (inserted : (fresh.init q p).insertTuple tuple = some (slot,page')) :
    Grew data (Function.update (Function.update data p (some (page.setNextPageId q))) q (some page')) first
      (before ++ [p]) ⟨q,slot.getD slotNum⟩ tuple := by
  constructor
  case chain => exact ⟨_,chain_append chain stored layout unused inserted,List.prefix_append _ _,by simp⟩
  case fresh =>
    unfold contentAt
    rw [unused,Option.bind_none]
  case contents =>
    obtain ⟨_,_,_,_,contents⟩ := inserted_fresh slotNum inserted
    exact contentAt_append stored layout unused contents

/-- The chain with a page whose records have changed. -/
theorem chain_stored {page page' : TablePage} {i : Nat} {bytes : List UInt8} (chain : Chain data first ids)
    (stored : data p = some page) (write : Stored page page' i bytes) : Chain (Function.update data p (some page')) first ids :=
  ⟨chain.head,chain.distinct,linked_update stored write.layout write.pageId write.prev write.next chain.linked⟩

/-- A tuple stored in a page of the chain. -/
theorem grew_stored {page page' : TablePage} {i : UInt32} (chain : Chain data first ids) (member : p ∈ ids)
    (stored : data p = some page) (layout : Layout page) (inserted : page.insertTuple tuple = some (some i,page')) :
    Grew data (Function.update data p (some page')) first ids ⟨p,i⟩ tuple := by
  obtain ⟨free,write,same⟩ := inserted_some layout inserted
  constructor
  case chain => exact ⟨ids,chain_stored chain stored write,List.prefix_rfl,member⟩
  case fresh =>
    have here : data (RID.mk p i).pageId = some page := stored
    rw [contentAt_of here]
    exact if_neg free
  case contents =>
    rw [contentAt_update stored write,same]

/-- A tuple too long for the length words may fault; the pool has served the call
    then. -/
def Harmless (tolerated : Fault → Prop) (tuple : Tuple) (refused : Prop) : Prop :=
  tuple.bytes.length ≤ 4294967287 ∨ (¬refused → tolerated .outOfBounds)

theorem harmless_none {page : TablePage} {refused : Prop} (harmless : Harmless tolerated tuple refused) (served : ¬refused)
    (layout : Layout page) (fault : page.insertTuple tuple = none) : tolerated .outOfBounds := by
  rcases harmless with short | allowed
  · obtain ⟨slot,page',ran,_⟩ := insertTuple_spec layout short
    rw [fault] at ran
    cases ran
  · exact allowed served

theorem wlp_appendPage {page : TablePage} (sees : Sees s data (p ::ₘ pins) script spare)
    (chain : Chain data first (before ++ [p])) (stored : data p = some page) (layout : Layout page)
    (harmless : Harmless tolerated tuple (Refused data tuple spare [] script)) :
    Prog.wlp (exec (Block.zeros PAGE_SIZE)) allowed tolerated (appendPage tuple slotNum p)
      (Outcome allowed data pins first (before ++ [p]) tuple (Refused data tuple spare [] script)) s := by
  rw [appendPage,Prog.wlp_bind]
  refine wlp_newPage sees ?_ ?_
  · intro fine refused s₁ sees
    simp only [Prog.wlp_bind]
    refine wlp_unpinPage sees (fun s₂ sees => ?_)
    exact ⟨data,_,_,sees,rfl,refused,.inr fine⟩
  · intro q s₁ spare' served left unused sees
    have other : p ≠ q := by
      rintro rfl
      rw [unused] at stored
      cases stored
    have here : Function.update data q (some (Block.zeros PAGE_SIZE)) q = some (Block.zeros PAGE_SIZE) := by simp
    simp only [Prog.wlp_bind]
    refine wlp_getData sees here (by simp) ?_
    refine wlp_setData sees here (by simp) (fun s₂ sees => ?_)
    rw [Function.update_idem] at sees
    have old : Function.update data q (some (TablePage.init (Block.zeros PAGE_SIZE) q p)) p = some page := by
      simpa [other] using stored
    refine wlp_getData sees old (by simp) ?_
    refine wlp_setData sees old (by simp) (fun s₃ sees => ?_)
    rw [Function.update_comm (Ne.symm other)] at sees
    have new : Function.update (Function.update data p (some (page.setNextPageId q))) q
        (some (TablePage.init (Block.zeros PAGE_SIZE) q p)) q = some (TablePage.init (Block.zeros PAGE_SIZE) q p) := by simp
    refine wlp_getData sees new (by simp) ?_
    rw [inBounds,Prog.wlp_ofOption]
    constructor
    · intro fault
      have refused : ¬Refused data tuple spare [] script := by
        rintro (null | spent)
        · rw [served] at null
          cases null
        · exact spent left
      exact harmless_none harmless refused (layout_init _ q p) fault
    · rintro ⟨slot,page'⟩ inserted
      refine wlp_setData sees new (by simp) (fun s₄ sees => ?_)
      rw [Function.update_idem] at sees
      have reorder : q ::ₘ p ::ₘ pins = p ::ₘ q ::ₘ pins := Multiset.cons_swap q p pins
      rw [reorder] at sees
      refine wlp_unpinPage sees (fun s₅ sees => ?_)
      refine wlp_unpinPage sees (fun s₆ sees => ?_)
      refine ⟨_,_,_,sees,?_,grew_append chain stored layout unused inserted⟩
      rintro (null | spent)
      · rw [served] at null
        cases null
      · exact spent left

/-- The walk along the chain, by induction on the pages that are left. -/
theorem wlp_insertFrom : ∀ (rest : List PageId) (before : List PageId) {p : PageId} {fuel : Nat} {s : Store TablePage}
    {script : List Bool}, Sees s data pins script spare → Chain data first (before ++ p :: rest) → rest.length < fuel →
    Harmless tolerated tuple (Refused data tuple spare (p :: rest) script) →
    Prog.wlp (exec (Block.zeros PAGE_SIZE)) allowed tolerated (insertFrom tuple slotNum fuel p)
      (Outcome allowed data pins first (before ++ p :: rest) tuple (Refused data tuple spare (p :: rest) script)) s
  | rest, before, p, 0, s, script, _, _, enough, _ => by omega
  | rest, before, p, fuel + 1, s, script, sees, chain, enough, harmless => by
    obtain ⟨page,stored,layout,_,nextId⟩ := linked_at chain.linked
    have valid : p ≠ INVALID_PAGE_ID := sees.ne_invalid (by simp [stored])
    rw [insertFrom,if_neg valid,Prog.wlp_bind]
    refine wlp_fetchPage sees stored ?_ ?_
    · intro fine null s₁ sees
      exact ⟨data,_,_,sees,rfl,.inl null,.inl ⟨p,fine⟩⟩
    · intro served s₁ sees
      have answered : ¬script.headD false = true := by rw [served]; decide
      simp only [Prog.wlp_bind]
      refine wlp_getData sees stored (by simp) ?_
      rw [inBounds,Prog.wlp_ofOption]
      constructor
      · intro fault
        refine harmless_none harmless ?_ layout fault
        rintro (null | ⟨⟨old,here,full⟩,_⟩)
        · exact answered null
        · rw [stored] at here
          cases here
          rw [(insertTuple_none_iff layout).mpr ⟨full,rfl⟩] at fault
          cases fault
      · rintro ⟨slot,page'⟩ inserted
        refine wlp_setData sees stored (by simp) (fun s₂ sees => ?_)
        cases slot with
        | some i =>
          simp only [Prog.wlp_bind]
          refine wlp_unpinPage sees (fun s₃ sees => ?_)
          refine ⟨_,_,_,sees,?_,grew_stored chain (by simp) stored layout inserted⟩
          rintro (null | ⟨⟨old,here,full⟩,_⟩)
          · exact answered null
          · rw [stored] at here
            cases here
            rw [(insertTuple_none_iff layout).mpr ⟨full,rfl⟩] at inserted
            cases inserted
        | none =>
          obtain ⟨full,same⟩ := (insertTuple_none_iff layout).mp inserted
          rw [same,← stored,Function.update_eq_self] at sees
          have onward : Refused data tuple spare (p :: rest) script ↔ Refused data tuple spare rest script.tail := by
            rw [Refused,or_iff_right answered]
            exact and_iff_right ⟨page,stored,full⟩
          rw [onward] at harmless ⊢
          simp only [Prog.wlp_bind]
          refine wlp_getData sees stored (by simp) ?_
          cases rest with
          | nil =>
            rw [nextId,List.headD_nil,if_pos rfl]
            exact wlp_appendPage sees chain stored layout harmless
          | cons q rest =>
            have longer : before ++ p :: q :: rest = before ++ [p] ++ q :: rest := by simp
            rw [longer] at chain ⊢
            obtain ⟨_,storedQ,_⟩ := linked_at chain.linked
            have validQ : q ≠ INVALID_PAGE_ID := sees.ne_invalid (by simp [storedQ])
            rw [nextId,List.headD_cons,if_neg validQ,Prog.wlp_bind]
            refine wlp_unpinPage sees (fun s₃ sees => ?_)
            exact wlp_insertFrom rest (before ++ [p]) sees chain (by simpa using enough) harmless

/-- The change of one record. -/
theorem wlp_modifyTuple {rid : RID} {page : TablePage} {change : TablePage → Option (Bool × TablePage)}
    (sees : Sees s data pins script spare) (stored : data rid.pageId = some page)
    (harmless : change page = none → tolerated .outOfBounds)
    (unchanged : ∀ page', change page = some (false,page') → page' = page) :
    Prog.wlp (exec (Block.zeros PAGE_SIZE)) allowed tolerated (modifyTuple rid change) (fun done s' =>
      ∃ data' script', Sees s' data' pins script' spare ∧
        (done = false ∧ data' = data ∧ (allowed (.fetchPage rid.pageId) none ∨ change page = some (false,page)) ∨
          done = true ∧ ∃ page', change page = some (true,page') ∧
            data' = Function.update data rid.pageId (some page'))) s := by
  rw [modifyTuple,Prog.wlp_bind]
  refine wlp_fetchPage sees stored ?_ ?_
  · intro fine null s₁ sees
    exact ⟨data,_,sees,.inl ⟨rfl,rfl,.inl fine⟩⟩
  · intro served s₁ sees
    simp only [Prog.wlp_bind]
    refine wlp_getData sees stored (by simp) ?_
    rw [inBounds,Prog.wlp_ofOption]
    constructor
    · exact harmless
    · rintro ⟨done,page'⟩ changed
      refine wlp_setData sees stored (by simp) (fun s₂ sees => ?_)
      refine wlp_unpinPage sees (fun s₃ sees => ?_)
      cases done with
      | false =>
        have same := unchanged page' changed
        rw [same,← stored,Function.update_eq_self] at sees
        rw [same] at changed
        exact ⟨data,_,sees,.inl ⟨rfl,rfl,.inr changed⟩⟩
      | true => exact ⟨_,_,sees,.inr ⟨rfl,page',changed,rfl⟩⟩

theorem wlp_getTuple {rid : RID} {page : TablePage} {schema : Schema} (sees : Sees s data pins script spare)
    (stored : data rid.pageId = some page) (harmless : page.getTuple rid.slotNum schema = none → tolerated .outOfBounds) :
    Prog.wlp (exec (Block.zeros PAGE_SIZE)) allowed tolerated (getTuple rid schema) (fun out s' =>
      ∃ script', Sees s' data pins script' spare ∧
        (out = none ∧ allowed (.fetchPage rid.pageId) none ∧ script.headD false = true ∨
          page.getTuple rid.slotNum schema = some out)) s := by
  rw [getTuple,Prog.wlp_bind]
  refine wlp_fetchPage sees stored ?_ ?_
  · intro fine null s₁ sees
    exact ⟨_,sees,.inl ⟨rfl,fine,null⟩⟩
  · intro served s₁ sees
    simp only [Prog.wlp_bind]
    refine wlp_getData sees stored (by simp) ?_
    rw [inBounds,Prog.wlp_ofOption]
    constructor
    · exact harmless
    · intro out read
      refine wlp_unpinPage sees (fun s₂ sees => ?_)
      exact ⟨_,sees,.inr read⟩

end
end Aether.HeapOperations
