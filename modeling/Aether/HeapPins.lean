import Aether.HeapInsert
import Aether.TupleReads

/-!
What a heap leaves behind. Whatever the pool answers and through whichever exit an
operation returns, the pins are as before, the pages it has changed are dirty, and if
it returns false it has changed none.
-/
namespace Aether.HeapPins
open Aether.Bytes Aether.Programs Aether.Types Aether.PageStore Aether.Tuples Aether.TablePages Aether.PageLayout
open Aether.PageUpdates Aether.TupleReads Aether.TableHeap Aether.HeapChain Aether.HeapOperations Aether.HeapMap Aether.HeapInsert

/-! ### Rules with the dirty bits -/

/-- The store holds these contents, these pins and these dirty bits. -/
structure Tracks (s : Store TablePage) (data : Contents) (pins : Multiset PageId) (dirty : PageId → Bool) : Prop where
  data : s.data = data
  pins : s.pins = pins
  dirty : s.dirty = dirty
  wellFormed : WellFormed s

/-- The action runs without a fault, whatever the pool answers, and establishes the
    postcondition. -/
abbrev Does {α : Type} (action : Action α) (post : α → Store TablePage → Prop) (s : Store TablePage) : Prop :=
  Prog.wp (exec (Block.zeros PAGE_SIZE)) (fun _ _ => True) action post s

section
variable {s : Store TablePage} {data : Contents} {pins : Multiset PageId} {dirty : PageId → Bool} {p : PageId}
variable {page page' : TablePage}

theorem Tracks.ne_invalid (tracks : Tracks s data pins dirty) (stored : data p ≠ none) : p ≠ INVALID_PAGE_ID := by
  have inFile := (tracks.wellFormed.partition p).mpr (.inr (by rw [tracks.data]; exact stored))
  exact lt_invalid inFile.2

theorem does_inBounds {α : Type} {result : Option α} {a : α} {Q : α → Store TablePage → Prop} (computed : result = some a)
    (next : Q a s) : Does (inBounds result) Q s :=
  (Prog.wp_ofOption Fault.outOfBounds result Q s).mpr ⟨a,computed,next⟩

theorem does_fetchPage {Q : Option PageId → Store TablePage → Prop} (tracks : Tracks s data pins dirty) (stored : data p = some page)
    (null : ∀ s', Tracks s' data pins dirty → Q none s')
    (next : ∀ s', Tracks s' data (p ::ₘ pins) dirty → Q (some p) s') : Does (fetchPage p) Q s := by
  have live : s.data p = some page := by rw [tracks.data,stored]
  have valid := tracks.ne_invalid (p := p) (by simp [stored])
  have wf := tracks.wellFormed
  rw [fetchPage,Does,Prog.wp_perform]
  simp only [exec,if_neg valid]
  split_ifs
  · exact ⟨none,_,rfl,fun _ => null _ ⟨tracks.data,tracks.pins,tracks.dirty,wf.first,wf.distinct,wf.partition,wf.exclusive,wf.pinned⟩⟩
  · rw [live]
    exact ⟨some p,_,rfl,fun _ => next _ ⟨tracks.data,by rw [← tracks.pins],tracks.dirty,wf.pin (by simp [live]) _⟩⟩

theorem does_getData {Q : TablePage → Store TablePage → Prop} (tracks : Tracks s data pins dirty) (stored : data p = some page)
    (pinned : p ∈ pins) (next : Q page s) : Does (getData p) Q s := by
  rw [getData,Does,Prog.wp_perform]
  exact ⟨page,s,by simp only [exec,tracks.pins,if_pos pinned,tracks.data,stored],fun _ => next⟩

theorem does_setData {Q : Unit → Store TablePage → Prop} (tracks : Tracks s data pins dirty) (stored : data p = some page)
    (pinned : p ∈ pins) (next : ∀ s', Tracks s' (Function.update data p (some page')) pins dirty → Q () s') :
    Does (setData p page') Q s := by
  rw [setData,Does,Prog.wp_perform]
  refine ⟨(),{ s with data := Function.update s.data p (some page') },by simp only [exec,tracks.pins,if_pos pinned],fun _ => next _ ?_⟩
  exact ⟨by rw [← tracks.data],tracks.pins,tracks.dirty,tracks.wellFormed.update (by simp [tracks.data,stored]) page'⟩

theorem does_unpinPage {Q : Bool → Store TablePage → Prop} {isDirty : Bool} (tracks : Tracks s data (p ::ₘ pins) dirty)
    (next : ∀ s', Tracks s' data pins (if isDirty then Function.update dirty p true else dirty) → Q true s') :
    Does (unpinPage p isDirty) Q s := by
  have pinned : p ∈ s.pins := by rw [tracks.pins]; simp
  have wf := tracks.wellFormed
  rw [unpinPage,Does,Prog.wp_perform]
  simp only [exec,if_pos pinned]
  refine ⟨true,_,rfl,fun _ => next _ ⟨tracks.data,by simp [tracks.pins],by simp only [tracks.dirty],?_⟩⟩
  exact ⟨wf.first,wf.distinct,wf.partition,wf.exclusive,fun q member => wf.pinned q (Multiset.mem_of_mem_erase member)⟩

theorem does_newPage {Q : Option PageId → Store TablePage → Prop} (tracks : Tracks s data pins dirty)
    (null : ∀ s', Tracks s' data pins dirty → Q none s')
    (next : ∀ q s', data q = none → Tracks s' (Function.update data q (some (Block.zeros PAGE_SIZE))) (q ::ₘ pins)
      (Function.update dirty q false) → Q (some q) s') : Does newPage Q s := by
  have wf := tracks.wellFormed
  rw [newPage,Does,Prog.wp_perform]
  rcases exec_newPage (Block.zeros PAGE_SIZE) wf with ⟨handled,_⟩ | ⟨q,rest,count,handled,unused,_,_,wf'⟩
  · exact ⟨none,_,handled,fun _ => null _ ⟨tracks.data,tracks.pins,tracks.dirty,wf.first,wf.distinct,wf.partition,wf.exclusive,wf.pinned⟩⟩
  · refine ⟨some q,_,handled,fun _ => next q _ (by rw [← tracks.data]; exact unused) ?_⟩
    exact ⟨by rw [← tracks.data]; rfl,by rw [← tracks.pins]; rfl,by rw [← tracks.dirty]; rfl,wf'⟩

end

/-! ### Heaps -/

/-- The pages of a heap: a chain, and every tuple on it can be read by the schema. -/
structure Pages (schema : Schema) (data : Contents) (first : PageId) (ids : List PageId) : Prop where
  chain : Chain data first ids
  contained : ∀ p ∈ ids, ∀ page, data p = some page → Contained page schema

/-- A heap in a store; it has no page if its constructor was given none. -/
structure IsHeap (schema : Schema) (s : Store TablePage) (first : PageId) : Prop where
  wellFormed : WellFormed s
  pages : first = INVALID_PAGE_ID ∨ ∃ ids, Pages schema s.data first ids

/-- The request comes with tuples of the schema, which are not too long for the length
    words, and with record identifiers on the pages of the heap. -/
def Conforming (schema : Schema) (s : Store TablePage) (first : PageId) : Request → Prop
  | .insertTuple tuple => tuple.Matches schema ∧ tuple.size < 2 ^ 32 - 8
  | .getTuple rid schema' => schema' = schema ∧ ∃ ids, Chain s.data first ids ∧ rid.pageId ∈ ids
  | .updateTuple rid newTuple =>
    newTuple.Matches schema ∧ newTuple.size < 2 ^ 32 - 8 ∧ ∃ ids, Chain s.data first ids ∧ rid.pageId ∈ ids
  | .deleteTuple rid => ∃ ids, Chain s.data first ids ∧ rid.pageId ∈ ids

/-- The call has returned false. -/
def Failed : Response → Prop
  | .inserted rid => rid = none
  | .got tuple => tuple = none
  | .updated status => status = false
  | .deleted status => status = false

/-- What a call leaves behind: the pins are as before, and a new page has none; what was
    changed is dirty, and nothing was if the call has returned false. -/
structure Neutral (s s' : Store TablePage) (failed : Prop) : Prop where
  pins : ∀ p, s'.pins.count p = if s.data p = none then 0 else s.pins.count p
  dirty : ∀ p, s'.data p ≠ s.data p → s'.dirty p = true
  unchanged : failed → s'.data = s.data

/-- The same, from the contents and the pins before. -/
def Leaves (schema : Schema) (data : Contents) (pins : Multiset PageId) (first : PageId) (failed : Prop)
    (s' : Store TablePage) : Prop :=
  ∃ data' dirty' ids, Tracks s' data' pins dirty' ∧ Pages schema data' first ids ∧ (∀ p, data' p ≠ data p → dirty' p = true) ∧
    (failed → data' = data)

section
variable {s s' : Store TablePage} {data : Contents} {pins : Multiset PageId} {dirty : PageId → Bool} {schema : Schema}
variable {first p q : PageId} {ids before : List PageId} {page page' : TablePage} {tuple : Tuple} {slotNum : UInt32}

theorem contained_init (fresh : TablePage) (q p : PageId) : Contained (fresh.init q p) schema :=
  fun i live => (init_not_live i live).elim

theorem contained_setNextPageId (layout : Layout page) (contained : Contained page schema) : Contained (page.setNextPageId q) schema := by
  obtain ⟨layout',_,_,_,same⟩ := setNextPageId_facts q layout
  rw [contained_iff layout']
  intro i bytes stored
  rw [same] at stored
  exact (contained_iff layout).mp contained i bytes stored

/-- Storing a tuple of the schema keeps the page readable. -/
theorem contained_inserted {slot : Option UInt32} (layout : Layout page) (contained : Contained page schema)
    (types : tuple.Matches schema) (short : tuple.bytes.length ≤ 4294967287) (inserted : page.insertTuple tuple = some (slot,page')) :
    Contained page' schema := by
  have ran : perform page (.insertTuple tuple) = some (slot,page') := inserted
  exact (contained_step layout contained ran).mpr (.inr (.inr (decodes_of_matches (by omega) types)))

/-- A call that leaves the pages and the dirty bits. -/
theorem leaves_same {failed : Prop} (tracks : Tracks s data pins dirty) (pages : Pages schema data first ids) :
    Leaves schema data pins first failed s :=
  ⟨data,dirty,ids,tracks,pages,fun _ changed => absurd rfl changed,fun _ => rfl⟩

/-- The exits at the end of the chain: without a new page, or with one. -/
theorem does_appendPage (tracks : Tracks s data (p ::ₘ pins) dirty) (pages : Pages schema data first (before ++ [p]))
    (stored : data p = some page) (layout : Layout page) (types : tuple.Matches schema) (short : tuple.bytes.length ≤ 4294967287) :
    Does (appendPage tuple slotNum p) (fun out s' => Leaves schema data pins first (out = none) s') s := by
  rw [appendPage,Does,Prog.wp_bind]
  refine does_newPage tracks (fun s₁ tracks => ?_) (fun q s₁ unused tracks => ?_)
  · simp only [Prog.wp_bind]
    exact does_unpinPage tracks (fun s₂ tracks => leaves_same tracks pages)
  · have other : p ≠ q := by
      rintro rfl
      rw [unused] at stored
      cases stored
    have layoutQ : Layout (TablePage.init (Block.zeros PAGE_SIZE) q p) := layout_init _ q p
    obtain ⟨slot,page',inserted,_⟩ := insertTuple_spec layoutQ short
    have here : Function.update data q (some (Block.zeros PAGE_SIZE)) q = some (Block.zeros PAGE_SIZE) := by simp
    simp only [Prog.wp_bind]
    refine does_getData tracks here (by simp) ?_
    refine does_setData tracks here (by simp) (fun s₂ tracks => ?_)
    rw [Function.update_idem] at tracks
    have old : Function.update data q (some (TablePage.init (Block.zeros PAGE_SIZE) q p)) p = some page := by
      simpa [other] using stored
    refine does_getData tracks old (by simp) ?_
    refine does_setData tracks old (by simp) (fun s₃ tracks => ?_)
    rw [Function.update_comm (Ne.symm other)] at tracks
    have new : Function.update (Function.update data p (some (page.setNextPageId q))) q
        (some (TablePage.init (Block.zeros PAGE_SIZE) q p)) q = some (TablePage.init (Block.zeros PAGE_SIZE) q p) := by simp
    refine does_getData tracks new (by simp) ?_
    rw [inserted]
    refine does_inBounds rfl ?_
    refine does_setData tracks new (by simp) (fun s₄ tracks => ?_)
    rw [Function.update_idem,Multiset.cons_swap q p pins] at tracks
    refine does_unpinPage tracks (fun s₅ tracks => ?_)
    refine does_unpinPage tracks (fun s₆ tracks => ?_)
    refine ⟨_,_,_,tracks,⟨chain_append pages.chain stored layout unused inserted,fun r member page'' here => ?_⟩,
      fun r changed => ?_,fun none => by cases none⟩
    · by_cases added : r = q
      · subst added
        obtain rfl : page' = page'' := by simpa using here
        exact contained_inserted layoutQ (contained_init _ _ _) types short inserted
      · have old : r ∈ before ++ [p] := by simpa [added] using member
        by_cases last : r = p
        · subst last
          rw [Function.update_of_ne added,Function.update_self] at here
          cases here
          exact contained_setNextPageId layout (pages.contained r old page stored)
        · exact pages.contained r old page'' (by simpa [added,last] using here)
    · by_cases added : r = q
      · simp [added]
      · by_cases last : r = p
        · simp [last,other]
        · simp [added,last] at changed

/-- The page of the chain that took a tuple, or whose record has changed. -/
theorem leaves_stored {failed : Prop} {i : Nat} {bytes : List UInt8} (tracks : Tracks s (Function.update data p (some page')) pins dirty)
    (marked : dirty p = true) (pages : Pages schema data first ids) (stored : data p = some page)
    (write : Stored page page' i bytes) (contained : Contained page' schema) (done : ¬failed) :
    Leaves schema data pins first failed s := by
  refine ⟨_,_,ids,tracks,⟨chain_stored pages.chain stored write,fun r member page'' here => ?_⟩,fun r changed => ?_,
    fun failed => absurd failed done⟩
  · by_cases same : r = p
    · subst same
      obtain rfl : page' = page'' := by simpa using here
      exact contained
    · exact pages.contained r member page'' (by simpa [same] using here)
  · by_cases same : r = p
    · rw [same]
      exact marked
    · simp [same] at changed

/-- The walk along the chain, by induction on the pages that are left. -/
theorem does_insertFrom (types : tuple.Matches schema) (short : tuple.bytes.length ≤ 4294967287) :
    ∀ (rest before : List PageId) {p : PageId} {fuel : Nat} {s : Store TablePage},
      Tracks s data pins dirty → Pages schema data first (before ++ p :: rest) → rest.length < fuel →
      Does (insertFrom tuple slotNum fuel p) (fun out s' => Leaves schema data pins first (out = none) s') s
  | rest, before, p, 0, s, _, _, enough => by omega
  | rest, before, p, fuel + 1, s, tracks, pages, enough => by
    obtain ⟨page,stored,layout,_,nextId⟩ := linked_at pages.chain.linked
    have valid : p ≠ INVALID_PAGE_ID := tracks.ne_invalid (by simp [stored])
    obtain ⟨slot,page',inserted,_⟩ := insertTuple_spec layout short
    rw [insertFrom,if_neg valid,Does,Prog.wp_bind]
    refine does_fetchPage tracks stored (fun s₁ tracks => leaves_same tracks pages) (fun s₁ tracks => ?_)
    simp only [Prog.wp_bind]
    refine does_getData tracks stored (by simp) ?_
    rw [inserted]
    refine does_inBounds rfl ?_
    refine does_setData tracks stored (by simp) (fun s₂ tracks => ?_)
    cases slot with
    | some i =>
      obtain ⟨_,write,_⟩ := inserted_some layout inserted
      simp only [Prog.wp_bind]
      refine does_unpinPage tracks (fun s₃ tracks => ?_)
      refine leaves_stored tracks (by simp) pages stored write ?_ (by simp)
      exact contained_inserted layout (pages.contained p (by simp) page stored) types short inserted
    | none =>
      obtain rfl := (insertTuple_done layout inserted).1 rfl
      rw [← stored,Function.update_eq_self] at tracks
      simp only [Prog.wp_bind]
      refine does_getData tracks stored (by simp) ?_
      cases rest with
      | nil =>
        rw [nextId,List.headD_nil,if_pos rfl]
        exact does_appendPage tracks pages stored layout types short
      | cons q rest =>
        have longer : before ++ p :: q :: rest = before ++ [p] ++ q :: rest := by simp
        rw [longer] at pages
        obtain ⟨_,storedQ,_⟩ := linked_at pages.chain.linked
        have validQ : q ≠ INVALID_PAGE_ID := tracks.ne_invalid (by simp [storedQ])
        rw [nextId,List.headD_cons,if_neg validQ,Prog.wp_bind]
        refine does_unpinPage tracks (fun s₃ tracks => ?_)
        exact does_insertFrom types short rest (before ++ [p]) tracks pages (by simpa using enough)

/-- Reading a record. -/
theorem does_getTuple {rid : RID} (tracks : Tracks s data pins dirty) (pages : Pages schema data first ids) (member : rid.pageId ∈ ids) :
    Does (getTuple rid schema) (fun out s' => Leaves schema data pins first (out = none) s') s := by
  obtain ⟨page,stored,layout⟩ := linked_mem pages.chain.linked member
  obtain ⟨found,read⟩ := getTuple_contained layout (pages.contained _ member page stored) rid.slotNum
  rw [getTuple,Does,Prog.wp_bind]
  refine does_fetchPage tracks stored (fun s₁ tracks => leaves_same tracks pages) (fun s₁ tracks => ?_)
  simp only [Prog.wp_bind]
  refine does_getData tracks stored (by simp) ?_
  refine does_inBounds read ?_
  exact does_unpinPage tracks (fun s₂ tracks => leaves_same tracks pages)

/-- A page operation that reports whether it has changed a record. -/
def Reports (schema : Schema) (page : TablePage) (change : TablePage → Option (Bool × TablePage)) : Prop :=
  ∃ done page', change page = some (done,page') ∧ (done = false → page' = page) ∧
    (done = true → ∃ i bytes, Stored page page' i bytes ∧ Contained page' schema)

/-- The change of one record. -/
theorem does_modifyTuple {rid : RID} {change : TablePage → Option (Bool × TablePage)} (tracks : Tracks s data pins dirty)
    (pages : Pages schema data first ids) (member : rid.pageId ∈ ids)
    (reports : ∀ page, Layout page → Contained page schema → Reports schema page change) :
    Does (modifyTuple rid change) (fun done s' => Leaves schema data pins first (done = false) s') s := by
  obtain ⟨page,stored,layout⟩ := linked_mem pages.chain.linked member
  obtain ⟨done,page',changed,unchanged,written⟩ := reports page layout (pages.contained _ member page stored)
  rw [modifyTuple,Does,Prog.wp_bind]
  refine does_fetchPage tracks stored (fun s₁ tracks => leaves_same tracks pages) (fun s₁ tracks => ?_)
  simp only [Prog.wp_bind]
  refine does_getData tracks stored (by simp) ?_
  rw [changed]
  refine does_inBounds rfl ?_
  refine does_setData tracks stored (by simp) (fun s₂ tracks => ?_)
  refine does_unpinPage tracks (fun s₃ tracks => ?_)
  cases done with
  | false =>
    rw [unchanged rfl,← stored,Function.update_eq_self] at tracks
    exact leaves_same tracks pages
  | true =>
    obtain ⟨i,bytes,write,contained⟩ := written rfl
    exact leaves_stored tracks (by simp) pages stored write contained (by simp)

theorem reports_updateTuple {slotNum : UInt32} (layout : Layout page) (contained : Contained page schema)
    (types : tuple.Matches schema) (short : tuple.bytes.length ≤ 4294967287) :
    Reports schema page (fun page => page.updateTuple slotNum tuple) := by
  obtain ⟨done,page',ran,changed⟩ := updateTuple_spec layout slotNum (show tuple.bytes.length < 4294967296 by omega)
  refine ⟨done,page',ran,(updateTuple_done ran).1,?_⟩
  rintro rfl
  have performed : perform page (.updateTuple slotNum tuple) = some (some slotNum,page') := by simp [perform,ran]
  obtain ⟨_,write⟩ := updateTuple_true layout ran
  exact ⟨_,_,write,(contained_step layout contained performed).mpr (.inr (.inr (decodes_of_matches (by omega) types)))⟩

theorem reports_deleteTuple {slotNum : UInt32} (layout : Layout page) (contained : Contained page schema) :
    Reports schema page (fun page => page.deleteTuple slotNum) := by
  obtain ⟨done,page',ran,changed,_⟩ := deleteTuple_spec layout slotNum
  refine ⟨done,page',ran,?_,?_⟩
  · rintro rfl
    cases changed
    rfl
  · rintro rfl
    have performed : perform page (.deleteTuple slotNum) = some (some slotNum,page') := by simp [perform,ran]
    cases changed with
    | stored live write => exact ⟨_,_,write,(contained_step layout contained performed).mpr (.inr (.inl rfl))⟩

end

/-! ### The calls -/

section
variable {s : Store TablePage} {schema : Schema} {first : PageId} {data : Contents} {ids ids' : List PageId}

/-- The next-page links lead to one list of pages only. -/
theorem linked_unique (absent : data INVALID_PAGE_ID = none) : ∀ {ids ids' : List PageId} {prev prev' : PageId},
    Linked data prev ids → Linked data prev' ids' → ids.headD INVALID_PAGE_ID = ids'.headD INVALID_PAGE_ID → ids = ids'
  | [], [], _, _, _, _, _ => rfl
  | [], q :: rest', _, _, _, linked', same => by
    obtain ⟨⟨page,stored,_⟩,_⟩ := linked'
    obtain rfl : INVALID_PAGE_ID = q := same
    rw [absent] at stored
    cases stored
  | p :: rest, [], _, _, linked, _, same => by
    obtain ⟨⟨page,stored,_⟩,_⟩ := linked
    obtain rfl : p = INVALID_PAGE_ID := same
    rw [absent] at stored
    cases stored
  | p :: rest, q :: rest', _, _, linked, linked', same => by
    obtain ⟨⟨page,stored,_,_,_,next⟩,later⟩ := linked
    obtain ⟨⟨page',stored',_,_,_,next'⟩,later'⟩ := linked'
    obtain rfl : p = q := same
    rw [stored] at stored'
    cases stored'
    rw [linked_unique absent later later' (next.symm.trans next')]

theorem chain_unique (wf : WellFormed s) (chain : Chain s.data first ids) (chain' : Chain s.data first ids') : ids = ids' := by
  refine linked_unique (invalid_unused wf) chain.linked chain'.linked ?_
  rw [List.headD_eq_head?_getD,List.headD_eq_head?_getD,chain.head,chain'.head]

/-- The pages of a heap on which there is a record identifier. -/
theorem IsHeap.home {rid : RID} (heap : IsHeap schema s first) (onHeap : ∃ ids, Chain s.data first ids ∧ rid.pageId ∈ ids) :
    ∃ ids, Pages schema s.data first ids ∧ rid.pageId ∈ ids := by
  obtain ⟨ids,chain,member⟩ := onHeap
  rcases heap.pages with nowhere | ⟨ids',pages⟩
  · obtain ⟨page,stored,_⟩ := linked_mem chain.linked (List.mem_of_mem_head? chain.head)
    rw [nowhere,invalid_unused heap.wellFormed] at stored
    cases stored
  · obtain rfl := chain_unique heap.wellFormed chain pages.chain
    exact ⟨ids,pages,member⟩

/-- The constructor makes a heap. -/
theorem heap_created {s' : Store TablePage} (wf : WellFormed s)
    (ran : Prog.run (exec (Block.zeros PAGE_SIZE)) create s = .ok (first,s')) : IsHeap schema s' first := by
  have does : Does create (fun first s' => IsHeap schema s' first) s := by
    rw [create,Does,Prog.wp_bind]
    refine does_newPage ⟨rfl,rfl,rfl,wf⟩ (fun s₁ tracks => ⟨tracks.wellFormed,.inl rfl⟩) (fun q s₁ unused tracks => ?_)
    have here : Function.update s.data q (some (Block.zeros PAGE_SIZE)) q = some (Block.zeros PAGE_SIZE) := by simp
    simp only [Prog.wp_bind]
    refine does_getData tracks here (by simp) ?_
    refine does_setData tracks here (by simp) (fun s₂ tracks => ?_)
    refine does_unpinPage tracks (fun s₃ tracks => ⟨tracks.wellFormed,.inr ⟨[q],⟨rfl,by simp,?_⟩,?_⟩⟩)
    · obtain ⟨pageId,prev,next,_⟩ := init_facts (Block.zeros PAGE_SIZE) q INVALID_PAGE_ID
      exact ⟨⟨_,by rw [tracks.data,Function.update_self],layout_init _ _ _,pageId,prev,next⟩,trivial⟩
    · intro p member page stored
      obtain rfl := List.mem_singleton.mp member
      rw [tracks.data,Function.update_self] at stored
      cases stored
      exact contained_init _ _ _
  obtain ⟨first',s'',ran',heap⟩ := Prog.run_of_wp does Prog.served_any
  rw [ran] at ran'
  cases ran'
  exact heap

theorem Leaves.neutral {failed : Prop} {s' : Store TablePage} (wf : WellFormed s) (leaves : Leaves schema s.data s.pins first failed s') :
    Neutral s s' failed ∧ IsHeap schema s' first := by
  obtain ⟨data',dirty',ids,tracks,pages,marked,unchanged⟩ := leaves
  refine ⟨⟨fun p => ?_,fun p changed => ?_,fun failed => tracks.data.trans (unchanged failed)⟩,tracks.wellFormed,.inr ⟨ids,?_⟩⟩
  · rw [tracks.pins]
    split_ifs with unused
    · exact Multiset.count_eq_zero_of_notMem (fun pinned => wf.pinned p pinned unused)
    · rfl
  · rw [tracks.data] at changed
    rw [tracks.dirty]
    exact marked p changed
  · rw [tracks.data]
    exact pages

theorem neutral_same {failed : Prop} {script : List Bool} (wf : WellFormed s) : Neutral s { s with script } failed := by
  refine ⟨fun p => ?_,fun p changed => absurd rfl changed,fun _ => rfl⟩
  split_ifs with unused
  · exact Multiset.count_eq_zero_of_notMem (fun pinned => wf.pinned p pinned unused)
  · rfl

/-- A call on a heap, whatever the pool answers. -/
theorem does_serve {request : Request} {slotNum : UInt32} {fuel : Nat} (heap : IsHeap schema s first)
    (conforming : Conforming schema s first request) (enough : s.numPages.toNat ≤ fuel) (script : List Bool) :
    Does (serve fuel first slotNum request) (fun response s' => Neutral s s' (Failed response) ∧ IsHeap schema s' first)
      { s with script } := by
  have wf := heap.wellFormed
  have tracks : Tracks { s with script } s.data s.pins s.dirty := ⟨rfl,rfl,rfl,wf.first,wf.distinct,wf.partition,wf.exclusive,wf.pinned⟩
  have wf' : WellFormed { s with script } := tracks.wellFormed
  cases request with
  | insertTuple tuple =>
    obtain ⟨types,short⟩ := conforming
    have bytes : tuple.bytes.length ≤ 4294967287 := by
      have less := tuple.bytes_length_le
      omega
    rw [serve,Does,Prog.wp_bind]
    rcases heap.pages with nowhere | ⟨ids,pages⟩
    · have positive := wf.first
      rw [UInt32.lt_iff_toNat_lt,UInt32.toNat_zero] at positive
      obtain ⟨rounds,rfl⟩ : ∃ rounds, fuel = rounds + 1 := Nat.exists_eq_succ_of_ne_zero (by omega)
      rw [nowhere,insertTuple,insertFrom,if_pos rfl,Prog.wp_pure]
      exact ⟨neutral_same wf,wf',.inl rfl⟩
    · have longer := chain_length wf pages.chain
      cases ids with
      | nil => exact absurd pages.chain.head (by simp)
      | cons p rest =>
        obtain rfl : p = first := by simpa using pages.chain.head
        rw [List.length_cons] at longer
        refine Prog.wp_mono (fun out s' leaves => ?_) (does_insertFrom types bytes rest [] tracks pages (by omega))
        exact leaves.neutral wf
  | getTuple rid schema' =>
    obtain ⟨rfl,onHeap⟩ := conforming
    obtain ⟨ids,pages,member⟩ := heap.home onHeap
    rw [serve,Does,Prog.wp_bind]
    exact Prog.wp_mono (fun out s' leaves => leaves.neutral wf) (does_getTuple tracks pages member)
  | updateTuple rid newTuple =>
    obtain ⟨types,short,onHeap⟩ := conforming
    obtain ⟨ids,pages,member⟩ := heap.home onHeap
    have bytes : newTuple.bytes.length ≤ 4294967287 := by
      have less := newTuple.bytes_length_le
      omega
    rw [serve,Does,Prog.wp_bind]
    refine Prog.wp_mono (fun out s' leaves => leaves.neutral wf) (does_modifyTuple tracks pages member ?_)
    exact fun page layout contained => reports_updateTuple layout contained types bytes
  | deleteTuple rid =>
    obtain ⟨ids,pages,member⟩ := heap.home conforming
    rw [serve,Does,Prog.wp_bind]
    refine Prog.wp_mono (fun out s' leaves => leaves.neutral wf) (does_modifyTuple tracks pages member ?_)
    exact fun page layout contained => reports_deleteTuple layout contained

/-- On every heap and whatever the pool answers, a call returns with the pins as they were,
    what it has changed marked dirty, and nothing changed if it returns false; and it leaves a
    heap. -/
theorem calls_are_neutral {request : Request} {slotNum : UInt32} {fuel : Nat} (heap : IsHeap schema s first)
    (conforming : Conforming schema s first request) (enough : s.numPages.toNat ≤ fuel) (script : List Bool) :
    ∃ response s', Prog.run (exec (Block.zeros PAGE_SIZE)) (serve fuel first slotNum request) { s with script } = .ok (response,s') ∧
      Neutral s s' (Failed response) ∧ IsHeap schema s' first :=
  Prog.run_of_wp (does_serve heap conforming enough script) Prog.served_any

/-- A tuple on a page that has no room for it, and a pool without another page. -/
theorem calls_are_neutral_refused : ∃ s response s', Prog.run (exec (Block.zeros PAGE_SIZE))
    (serve 2 1 0 (.insertTuple oversized)) { s with script := [false,true] } = .ok (response,s') ∧
      Neutral s s' (Failed response) ∧ IsHeap notes s' 1 := by
  obtain ⟨s,made,few⟩ : ∃ s, Prog.run (exec (Block.zeros PAGE_SIZE)) create (Store.empty TablePage) = .ok (1,s) ∧
      s.numPages.toNat ≤ 2 := ⟨_,rfl,by decide +kernel⟩
  have conforming : Conforming notes s 1 (.insertTuple oversized) :=
    (by decide +kernel : oversized.Matches notes ∧ oversized.size < 2 ^ 32 - 8)
  exact ⟨s,calls_are_neutral (heap_created (empty_wellFormed _) made) conforming few [false,true]⟩

end
end Aether.HeapPins
