import Aether.HeapMap

/-!
When `InsertTuple` of a heap tells the truth: the tuples that it loses are the
empty ones and those that no page can hold, which it puts on a new page without
a look at whether they were stored.
-/
namespace Aether.HeapInsert
open Aether.Bytes Aether.Programs Aether.Types Aether.PageStore Aether.StoreRules Aether.Runs
open Aether.Tuples Aether.TablePages Aether.PageLayout Aether.PageUpdates Aether.TableHeap Aether.HeapChain
open Aether.HeapOperations Aether.HeapMap

/-- What `InsertTuple` returned is the truth: if it was true, the record identifier
    was not in use and `GetTuple` returns the tuple; if it was false, every page is
    as it was. -/
def Told (heap : Heap) (tuple : Tuple) (schema : Schema) (store : Store TablePage) : Option RID → Prop
  | some rid => contentAt heap.store.data rid = none ∧ ∃ store',
      Prog.run (exec (Block.zeros PAGE_SIZE)) (getTuple rid schema) { store with script := [] } = .ok (some tuple,store')
  | none => store.data = heap.store.data

/-- `InsertTuple` returns and tells the truth. -/
def Truthful (heap : Heap) (tuple : Tuple) (schema : Schema) (script : List Bool) (slotNum : UInt32) : Prop :=
  ∃ out store, Prog.run (exec (Block.zeros PAGE_SIZE))
      (insertTuple heap.store.numPages.toNat heap.firstPageId tuple slotNum) { heap.store with script := script } =
        .ok (out,store) ∧ Told heap tuple schema store out

/-- The pool refuses a page to the walk along the chain. -/
def RefusedPage (heap : Heap) (tuple : Tuple) (script : List Bool) : Prop :=
  ∃ ids, Chain heap.store.data heap.firstPageId ids ∧
    Refused heap.store.data tuple (¬(heap.store.free = [] ∧ heap.store.numPages = INVALID_PAGE_ID)) ids script

/-- The pages of a heap form a chain, or it has none. -/
structure Sound (heap : Heap) : Prop where
  wellFormed : WellFormed heap.store
  chain : heap.firstPageId = INVALID_PAGE_ID ∧ returned heap = [] ∨
    ∃ ids, Chain heap.store.data heap.firstPageId ids ∧ ∀ rid ∈ returned heap, rid.pageId ∈ ids

section
variable {heap heap' : Heap} {tuple : Tuple} {schema : Schema} {script : List Bool} {slotNum : UInt32} {rid : RID}

/-- Any answer of the pool. -/
def anyAnswer : Answers (PoolOp TablePage) := fun _ _ => True

/-- A heap without pages stores nothing. -/
theorem insertTuple_nowhere {fuel : Nat} {s : Store TablePage} (some : 0 < fuel) :
    Prog.run (exec (Block.zeros PAGE_SIZE)) (insertTuple fuel INVALID_PAGE_ID tuple slotNum) s = .ok (none,s) := by
  obtain ⟨fuel,rfl⟩ := Nat.exists_eq_succ_of_ne_zero (Nat.pos_iff_ne_zero.mp some)
  rfl

theorem positive (wf : WellFormed heap.store) : 0 < heap.store.numPages.toNat := by
  have first := wf.first
  rwa [UInt32.lt_iff_toNat_lt,UInt32.toNat_zero] at first

theorem sound_start {s : Store TablePage} (wf : WellFormed s) (made : start s = some heap) : Sound heap := by
  have holds : Prog.wlp (exec (Block.zeros PAGE_SIZE)) anyAnswer (fun _ => False) create _ s := wlp_create wf
  unfold start at made
  rcases Prog.run_of_wlp holds Prog.served_any with ⟨first,store,ran,wf',outcome⟩ | ⟨reason,ran,fault⟩
  · rw [ran] at made
    cases made
    refine ⟨wf',?_⟩
    rcases outcome with ⟨none,_⟩ | chain
    · exact .inl ⟨none,rfl⟩
    · exact .inr ⟨[first],chain,by simp [returned]⟩
  · exact fault.elim

/-- A call that changes no page. -/
theorem Sound.keep {store : Store TablePage} {request : Request} {response : Response} (sound : Sound heap)
    (data : store.data = heap.store.data) (wf : WellFormed store) (quiet : ∀ rid, response ≠ .inserted (some rid)) :
    Sound { heap with store, log := (request,response) :: heap.log } := by
  have still : returned { heap with store, log := (request,response) :: heap.log } = returned heap := by
    cases response with
    | inserted rid =>
      cases rid with
      | none => rfl
      | some rid => exact (quiet rid rfl).elim
    | got tuple => rfl
    | updated status => rfl
    | deleted status => rfl
  refine ⟨wf,?_⟩
  rw [still]
  show _ ∨ ∃ ids, Chain store.data _ ids ∧ _
  rw [data]
  exact sound.chain

/-- One record changed. -/
theorem Sound.change {page page' : TablePage} {store : Store TablePage} {bytes : List UInt8} {request : Request}
    {response : Response} (sound : Sound heap) (stored : heap.store.data rid.pageId = some page)
    (write : Stored page page' rid.slotNum.toNat bytes)
    (data : store.data = Function.update heap.store.data rid.pageId (some page')) (wf : WellFormed store)
    (quiet : ∀ rid, response ≠ .inserted rid) : Sound { heap with store, log := (request,response) :: heap.log } := by
  have still := returned_quiet heap store request quiet
  refine ⟨wf,?_⟩
  rw [still]
  rcases sound.chain with nowhere | ⟨ids,chain,inChain⟩
  · exact .inl nowhere
  · refine .inr ⟨ids,⟨chain.head,chain.distinct,?_⟩,inChain⟩
    show Linked store.data _ _
    rw [data]
    exact linked_update stored write.layout write.pageId write.prev write.next chain.linked

/-- The page of a record that the heap has returned. -/
theorem Sound.page (sound : Sound heap) (known : rid ∈ returned heap) :
    ∃ page, heap.store.data rid.pageId = some page ∧ Layout page := by
  rcases sound.chain with ⟨_,none⟩ | ⟨ids,chain,inChain⟩
  · rw [none] at known
    cases known
  · exact linked_mem chain.linked (inChain rid known)

/-- Every call keeps the chain, whatever the tuple and whatever the pool answers. -/
theorem wlp_sound {call : Call} (sound : Sound heap) (known : Known heap call.request) :
    Prog.wlp (exec (Block.zeros PAGE_SIZE)) anyAnswer (fun _ => True) (heap.program call)
      (fun response store => Sound { heap with store, log := (call.request,response) :: heap.log }) (heap.poised call) := by
  obtain ⟨request,script,slotNum⟩ := call
  unfold Heap.program
  cases request with
  | insertTuple tuple =>
    rw [serve,Prog.wlp_bind]
    rcases sound.chain with ⟨nowhere,nothing⟩ | ⟨ids,chain,inChain⟩
    · obtain ⟨fuel,same⟩ := Nat.exists_eq_succ_of_ne_zero (Nat.pos_iff_ne_zero.mp (positive sound.wellFormed))
      have stays : insertTuple heap.store.numPages.toNat heap.firstPageId tuple slotNum = pure none := by
        rw [nowhere,same,insertTuple,insertFrom,if_pos rfl]
      rw [stays,Prog.wlp_pure,Prog.wlp_pure]
      have sees := sees_poised ⟨.insertTuple tuple,script,slotNum⟩ sound.wellFormed
      refine sound.keep sees.data sees.wellFormed ?_
      intro rid same
      cases same
    · refine Prog.wlp_mono ?_ (wlp_insertTuple _ sound.wellFormed chain (.inr (fun _ => trivial)))
      rintro out store ⟨data',script',spare',sees,outcome⟩
      rw [Prog.wlp_pure]
      cases out with
      | none =>
        refine sound.keep (sees.data.trans outcome.1) sees.wellFormed ?_
        intro rid same
        cases same
      | some rid =>
        obtain ⟨ids',chain',longer,home⟩ := outcome.2.chain
        refine ⟨sees.wellFormed,.inr ⟨ids',?_,?_⟩⟩
        · show Chain store.data _ _
          rw [sees.data]
          exact chain'
        · intro other member
          have more : returned { heap with store, log := (.insertTuple tuple,.inserted (some rid)) :: heap.log } =
              rid :: returned heap := rfl
          rw [more] at member
          rcases List.mem_cons.mp member with rfl | member
          · exact home
          · exact longer.subset (inChain other member)
  | getTuple rid schema =>
    obtain ⟨page,stored,layout⟩ := sound.page known
    rw [serve,Prog.wlp_bind]
    refine Prog.wlp_mono ?_ (wlp_getTuple (sees_poised _ sound.wellFormed) stored (fun _ => trivial))
    rintro out store ⟨script',sees,_⟩
    exact sound.keep sees.data sees.wellFormed (fun _ same => by cases same)
  | updateTuple rid newTuple =>
    obtain ⟨page,stored,layout⟩ := sound.page known
    rw [serve,Prog.wlp_bind]
    refine Prog.wlp_mono ?_ (wlp_modifyTuple (sees_poised _ sound.wellFormed) stored (fun _ => trivial)
      (fun page' ran => (updateTuple_done ran).1 rfl))
    rintro out store ⟨data',script',sees,⟨rfl,rfl,_⟩ | ⟨rfl,page',ran,rfl⟩⟩
    · exact sound.keep sees.data sees.wellFormed (fun _ same => by cases same)
    · exact sound.change stored (updateTuple_true layout ran).2 sees.data sees.wellFormed (fun _ same => by cases same)
  | deleteTuple rid =>
    obtain ⟨page,stored,layout⟩ := sound.page known
    obtain ⟨done,page₁,ran₁,changed,_⟩ := deleteTuple_spec layout rid.slotNum
    rw [serve,Prog.wlp_bind]
    refine Prog.wlp_mono ?_ (wlp_modifyTuple (sees_poised _ sound.wellFormed) stored (fun _ => trivial) ?_)
    · rintro out store ⟨data',script',sees,⟨rfl,rfl,_⟩ | ⟨rfl,page',ran,rfl⟩⟩
      · exact sound.keep sees.data sees.wellFormed (fun _ same => by cases same)
      · rw [ran₁] at ran
        cases ran
        cases changed with
        | stored live write => exact sound.change stored write sees.data sees.wellFormed (fun _ same => by cases same)
    · intro page' ran
      rw [ran₁] at ran
      cases ran
      cases changed
      rfl

theorem sound_next {call : Call} (sound : Sound heap) (known : Known heap call.request)
    (moved : next heap call = some heap') : Sound heap' := by
  rcases next_of_wlp Prog.served_any (wlp_sound sound known) with ⟨response,store,ran,sound'⟩ | ⟨ran,_⟩
  · rw [moved] at ran
    cases ran
    exact sound'
  · rw [moved] at ran
    cases ran

/-! ### The truth of `InsertTuple` -/

/-- What `GetTuple` reads when the pool does not fail. -/
theorem run_getTuple {store : Store TablePage} {page : TablePage} {out : Option Tuple} (wf : WellFormed store)
    (stored : store.data rid.pageId = some page) (read : page.getTuple rid.slotNum schema = some out) :
    ∃ store', Prog.run (exec (Block.zeros PAGE_SIZE)) (getTuple rid schema) { store with script := [] } =
      .ok (out,store') := by
  have sees : Sees { store with script := [] } store.data store.pins [] _ := sees_self (s := { store with script := [] }) ⟨wf.first,wf.distinct,wf.partition,wf.exclusive,wf.pinned⟩
  have holds : Prog.wlp (exec (Block.zeros PAGE_SIZE)) anyAnswer (fun _ => False) (getTuple rid schema) _ _ :=
    wlp_getTuple sees stored (by rw [read]; intro none; cases none)
  rcases Prog.run_of_wlp holds Prog.served_any with ⟨got,store',ran,_,_,⟨_,_,null⟩ | same⟩ | ⟨_,_,fault⟩
  · cases null
  · rw [read] at same
    cases same
    exact ⟨store',ran⟩
  · exact fault.elim

/-- What is read of a tuple that was put on a page: the tuple, if it has a size
    from 1 to 4068. -/
theorem kept_read {page : TablePage} (layout : Layout page) (types : tuple.Matches schema)
    (here : content page slotNum.toNat = kept tuple) :
    ∃ out, page.getTuple slotNum schema = some out ∧ (out = some tuple ↔ 1 ≤ tuple.size ∧ tuple.size ≤ 4068) := by
  have less := tuple.bytes_length_le
  unfold kept at here
  split_ifs at here with lost
  · refine ⟨none,getTuple_missing layout here,iff_of_false (by simp) ?_⟩
    rintro ⟨least,most⟩
    have length : tuple.bytes.length = tuple.size := Tuple.bytes_length_eq (by omega)
    rcases lost with empty | long
    · rw [empty,List.length_nil] at length
      omega
    · omega
  · refine ⟨_,getTuple_stored layout types here,?_⟩
    have some : 0 < tuple.bytes.length := List.length_pos_iff.mpr (fun empty => lost (.inl empty))
    have short : tuple.bytes.length ≤ 4068 := not_lt.mp (fun long => lost (.inr long))
    rw [Option.some.injEq,Tuple.map_stored_iff]
    constructor
    · intro same
      omega
    · rintro ⟨_,most⟩
      exact Tuple.bytes_length_eq (by omega)

/-- What is told of an outcome. -/
theorem told_iff {ids : List PageId} {refused : Prop} {out : Option RID} {store : Store TablePage}
    (outcome : Outcome anyAnswer heap.store.data heap.store.pins heap.firstPageId ids tuple refused out store)
    (types : tuple.Matches schema) :
    Told heap tuple schema store out ↔ refused ∨ 1 ≤ tuple.size ∧ tuple.size ≤ 4068 := by
  obtain ⟨data',script',spare',sees,outcome⟩ := outcome
  cases out with
  | none => exact iff_of_true (sees.data.trans outcome.1) (.inl outcome.2.1)
  | some rid =>
    obtain ⟨served,grew⟩ := outcome
    obtain ⟨ids',chain,_,home⟩ := grew.chain
    obtain ⟨page,stored,layout⟩ := linked_mem chain.linked home
    have here : content page rid.slotNum.toNat = kept tuple := by
      rw [← contentAt_of stored,grew.contents,Function.update_self]
    obtain ⟨got,read,same⟩ := kept_read layout types here
    obtain ⟨store',ran⟩ := run_getTuple sees.wellFormed (by rw [sees.data]; exact stored) read
    rw [or_iff_right served,← same]
    constructor
    · rintro ⟨_,store'',ran'⟩
      rw [ran] at ran'
      cases ran'
      rfl
    · rintro rfl
      exact ⟨grew.fresh,store',ran⟩

/-- `InsertTuple` on a chain tells the truth when the pool refuses a page, and
    otherwise for the tuples of size from 1 to 4068. -/
theorem truthful_iff {ids : List PageId} (wf : WellFormed heap.store) (chain : Chain heap.store.data heap.firstPageId ids)
    (types : tuple.Matches schema) : Truthful heap tuple schema script slotNum ↔
      Refused heap.store.data tuple (¬(heap.store.free = [] ∧ heap.store.numPages = INVALID_PAGE_ID)) ids script ∨
        1 ≤ tuple.size ∧ tuple.size ≤ 4068 := by
  have less := tuple.bytes_length_le
  have run : ∀ tolerated : Fault → Prop, Harmless tolerated tuple _ → _ := fun tolerated harmless =>
    Prog.run_of_wlp (wlp_insertTuple ⟨.insertTuple tuple,script,slotNum⟩ wf chain harmless) Prog.served_any
  constructor
  · rintro ⟨out,store,ran,told⟩
    rcases run (fun _ => True) (.inr (fun _ => trivial)) with ⟨out',store',ran',outcome⟩ | ⟨reason,ran',_⟩
    · cases ran.symm.trans ran'
      exact (told_iff outcome types).mp told
    · cases ran.symm.trans ran'
  · intro holds
    have harmless : Harmless (fun _ => False) tuple
        (Refused heap.store.data tuple (¬(heap.store.free = [] ∧ heap.store.numPages = INVALID_PAGE_ID)) ids script) := by
      rcases holds with refused | ⟨_,most⟩
      · exact .inr (fun served => served refused)
      · exact .inl (by omega)
    rcases run _ harmless with ⟨out,store,ran,outcome⟩ | ⟨reason,_,fault⟩
    · exact ⟨out,store,ran,(told_iff outcome types).mpr holds⟩
    · exact fault.elim

/-- A string of 4065 bytes: with its length it is one byte longer than what fits on
    a page. -/
def oversized : Tuple := [.varchar (List.replicate 4065 65)]

/-- `InsertTuple` returns true, and `GetTuple` then finds nothing. -/
def unread (tuple : Tuple) (schema : Schema) (heap : Heap) : Bool :=
  match Prog.run (exec (Block.zeros PAGE_SIZE)) (insertTuple heap.store.numPages.toNat heap.firstPageId tuple 0)
    { heap.store with script := [] } with
  | .ok (some rid,store) =>
    match Prog.run (exec (Block.zeros PAGE_SIZE)) (getTuple rid schema) { store with script := [] } with
    | .ok (none,_) => true
    | _ => false
  | _ => false

end
end Aether.HeapInsert
