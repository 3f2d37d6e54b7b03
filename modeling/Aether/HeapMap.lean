import Aether.HeapOperations
import Aether.Runs

/-!
A table heap is a finite map from record identifiers to tuples: whatever is
inserted, read, updated and deleted on the record identifiers that it returned,
every call is answered as the map answers.
-/
namespace Aether.HeapMap
open Aether.Bytes Aether.Programs Aether.Types Aether.PageStore Aether.StoreRules Aether.Runs
open Aether.Tuples Aether.TablePages Aether.PageLayout Aether.PageUpdates Aether.TableHeap Aether.HeapChain
open Aether.HeapOperations

/-! ### The map -/

abbrev Records := RID → Option Tuple

/-- How a map answers a request: an insertion takes a record identifier that is
    not in use, and an update may leave the old tuple. -/
inductive Answered (m : Records) : Request → Response → Records → Prop
  | inserted {rid : RID} {tuple : Tuple} (fresh : m rid = none) :
      Answered m (.insertTuple tuple) (.inserted (some rid)) (Function.update m rid (some tuple))
  | got {rid : RID} {schema : Schema} : Answered m (.getTuple rid schema) (.got (m rid)) m
  | updated {rid : RID} {tuple : Tuple} (live : m rid ≠ none) :
      Answered m (.updateTuple rid tuple) (.updated true) (Function.update m rid (some tuple))
  | kept {rid : RID} {tuple : Tuple} : Answered m (.updateTuple rid tuple) (.updated false) m
  | deleted {rid : RID} (live : m rid ≠ none) :
      Answered m (.deleteTuple rid) (.deleted true) (Function.update m rid none)
  | missing {rid : RID} (gone : m rid = none) : Answered m (.deleteTuple rid) (.deleted false) m

/-- The calls so far, the last one first, are answered as by a map that starts
    empty, and is now `m`. -/
inductive Explains : List (Request × Response) → Records → Prop
  | start : Explains [] (fun _ => none)
  | call {log : List (Request × Response)} {m m' : Records} {request : Request} {response : Response}
      (before : Explains log m) (answered : Answered m request response m') : Explains ((request,response) :: log) m'

/-! ### Calls that the map stands for -/

/-- The tuple matches the schema, is not empty and fits an empty page. -/
def Fits (schema : Schema) (tuple : Tuple) : Prop := tuple.Matches schema ∧ 1 ≤ tuple.size ∧ tuple.size ≤ 4068

def Fitting (schema : Schema) : Request → Prop
  | .insertTuple tuple => Fits schema tuple
  | .getTuple _ schema' => schema' = schema
  | .updateTuple _ newTuple => Fits schema newTuple
  | .deleteTuple _ => True

/-- A call on a record identifier that the heap has returned, with a tuple that
    fits, to a pool that does not fail. -/
def Allowed (schema : Schema) (heap : Heap) (call : Call) : Prop :=
  Known heap call.request ∧ Fitting schema call.request ∧
    Prog.Served (exec (Block.zeros PAGE_SIZE)) Granted (heap.program call) (heap.poised call)

instance (schema : Schema) (tuple : Tuple) : Decidable (Fits schema tuple) := inferInstanceAs (Decidable (_ ∧ _ ∧ _))

instance (schema : Schema) : ∀ request, Decidable (Fitting schema request)
  | .insertTuple _ => inferInstanceAs (Decidable (Fits _ _))
  | .getTuple _ _ => inferInstanceAs (Decidable (_ = _))
  | .updateTuple _ _ => inferInstanceAs (Decidable (Fits _ _))
  | .deleteTuple _ => isTrue trivial

instance (schema : Schema) (heap : Heap) (call : Call) : Decidable (Allowed schema heap call) :=
  inferInstanceAs (Decidable (_ ∧ _ ∧ _))

/-! ### The heap stands for a map -/

structure Represents (schema : Schema) (heap : Heap) (m : Records) : Prop where
  wellFormed : WellFormed heap.store
  chain : ∃ ids, Chain heap.store.data heap.firstPageId ids ∧ ∀ rid ∈ returned heap, rid.pageId ∈ ids
  known : ∀ rid, m rid ≠ none → rid ∈ returned heap
  stored : ∀ rid ∈ returned heap, contentAt heap.store.data rid = (m rid).map Tuple.bytes
  fits : ∀ rid tuple, m rid = some tuple → Fits schema tuple

section
variable {schema : Schema} {heap : Heap} {call : Call} {m : Records} {rid : RID} {tuple : Tuple}

theorem bytes_of_fits (fits : Fits schema tuple) : tuple.bytes.length = tuple.size ∧ tuple.bytes ≠ [] ∧
    kept tuple = some tuple.bytes := by
  obtain ⟨_,least,most⟩ := fits
  have length : tuple.bytes.length = tuple.size := Tuple.bytes_length_eq (by omega)
  have some : tuple.bytes ≠ [] := by
    intro empty
    rw [empty,List.length_nil] at length
    omega
  refine ⟨length,some,if_neg ?_⟩
  rintro (empty | long)
  · exact some empty
  · omega

/-- A page reads back the tuple whose bytes are in a slot. -/
theorem getTuple_stored {page : TablePage} {slotNum : UInt32} (layout : Layout page) (types : tuple.Matches schema)
    (here : content page slotNum.toNat = some tuple.bytes) :
    page.getTuple slotNum schema = some (some (tuple.map Value.stored)) := by
  obtain ⟨live,same⟩ := content_eq_some.mp here
  have inside := layout.inside _ live
  have size : length page slotNum.toNat = tuple.bytes.length := by rw [← same,tupleBytes_length]
  rw [getTuple_eq layout,if_pos live,Tuple.deserialize_stored (by omega) types]
  · rfl
  · unfold PAGE_SIZE
    omega
  · unfold tupleBytes at same
    rwa [size] at same

theorem getTuple_missing {page : TablePage} {slotNum : UInt32} (layout : Layout page)
    (here : content page slotNum.toNat = none) : page.getTuple slotNum schema = some none := by
  have dead : ¬Live page slotNum.toNat := by
    intro live
    rw [content,if_pos live] at here
    cases here
  rw [getTuple_eq layout,if_neg dead]

/-- A chain has fewer pages than the file. -/
theorem chain_length {s : Store TablePage} {first : PageId} {ids : List PageId} (wf : WellFormed s)
    (chain : Chain s.data first ids) : ids.length < s.numPages.toNat := by
  refine wf.count chain.distinct ?_
  intro p member
  obtain ⟨page,stored,_⟩ := linked_mem chain.linked member
  simp [stored]

theorem sees_poised (call : Call) (wf : WellFormed heap.store) : Sees (heap.poised call) heap.store.data heap.store.pins call.script
    (¬(heap.store.free = [] ∧ heap.store.numPages = INVALID_PAGE_ID)) :=
  ⟨rfl,rfl,rfl,Iff.rfl,wf.first,wf.distinct,wf.partition,wf.exclusive,wf.pinned⟩

/-- `InsertTuple` on a chain: the file has enough pages for the walk. -/
theorem wlp_insertTuple {allowed : Answers (PoolOp TablePage)} {tolerated : Fault → Prop} {ids : List PageId}
    (call : Call) (wf : WellFormed heap.store) (chain : Chain heap.store.data heap.firstPageId ids)
    (harmless : Harmless tolerated tuple (Refused heap.store.data tuple
      (¬(heap.store.free = [] ∧ heap.store.numPages = INVALID_PAGE_ID)) ids call.script)) :
    Prog.wlp (exec (Block.zeros PAGE_SIZE)) allowed tolerated
      (insertTuple heap.store.numPages.toNat heap.firstPageId tuple call.slotNum)
      (Outcome allowed heap.store.data heap.store.pins heap.firstPageId ids tuple (Refused heap.store.data tuple
        (¬(heap.store.free = [] ∧ heap.store.numPages = INVALID_PAGE_ID)) ids call.script)) (heap.poised call) := by
  have enough := chain_length wf chain
  cases ids with
  | nil => exact absurd chain.head (by simp)
  | cons p rest =>
    have head : p = heap.firstPageId := by simpa using chain.head
    subst head
    rw [List.length_cons] at enough
    exact wlp_insertFrom rest [] (sees_poised call wf) chain (by omega) harmless

/-- The next heap, from the weakest precondition of the call. -/
theorem next_of_wlp {allowed : Answers (PoolOp TablePage)} {tolerated : Fault → Prop} {Q : Response → Store TablePage → Prop}
    (served : Prog.Served (exec (Block.zeros PAGE_SIZE)) allowed (heap.program call) (heap.poised call))
    (holds : Prog.wlp (exec (Block.zeros PAGE_SIZE)) allowed tolerated (heap.program call) Q (heap.poised call)) :
    (∃ response store, next heap call = some { heap with store, log := (call.request,response) :: heap.log } ∧
      Q response store) ∨ next heap call = none ∧ ∃ reason, tolerated reason := by
  unfold next
  rcases Prog.run_of_wlp holds served with ⟨response,store,ran,holds⟩ | ⟨reason,ran,fine⟩
  · exact .inl ⟨response,store,by rw [ran],holds⟩
  · exact .inr ⟨by rw [ran],reason,fine⟩

/-- The page of a record that the heap has returned. -/
theorem Represents.page (represents : Represents schema heap m) (known : rid ∈ returned heap) :
    ∃ page, heap.store.data rid.pageId = some page ∧ Layout page ∧
      content page rid.slotNum.toNat = (m rid).map Tuple.bytes := by
  obtain ⟨ids,chain,inChain⟩ := represents.chain
  obtain ⟨page,stored,layout⟩ := linked_mem chain.linked (inChain rid known)
  exact ⟨page,stored,layout,by rw [← contentAt_of stored,represents.stored rid known]⟩

theorem returned_quiet (heap : Heap) (store : Store TablePage) (request : Request) {response : Response}
    (quiet : ∀ rid, response ≠ .inserted rid) :
    returned { heap with store, log := (request,response) :: heap.log } = returned heap := by
  cases response with
  | inserted rid => exact (quiet rid rfl).elim
  | got tuple => rfl
  | updated status => rfl
  | deleted status => rfl

/-- One record changed in the heap and in the map. -/
theorem Represents.change {page page' : TablePage} {store : Store TablePage} {bytes : List UInt8} {new : Option Tuple}
    {request : Request} {response : Response} (represents : Represents schema heap m) (known : rid ∈ returned heap)
    (stored : heap.store.data rid.pageId = some page) (write : Stored page page' rid.slotNum.toNat bytes)
    (same : (if bytes = [] then none else some bytes) = new.map Tuple.bytes)
    (fits : ∀ tuple, new = some tuple → Fits schema tuple) (data : store.data = Function.update heap.store.data rid.pageId (some page'))
    (wf : WellFormed store) (quiet : ∀ rid, response ≠ .inserted rid) :
    Represents schema { heap with store, log := (request,response) :: heap.log } (Function.update m rid new) := by
  obtain ⟨ids,chain,inChain⟩ := represents.chain
  have still := returned_quiet heap store request quiet
  refine ⟨wf,⟨ids,⟨chain.head,chain.distinct,?_⟩,?_⟩,?_,?_,?_⟩
  · show Linked store.data _ _
    rw [data]
    exact linked_update stored write.layout write.pageId write.prev write.next chain.linked
  · rw [still]
    exact inChain
  · intro other live
    rw [still]
    by_cases here : other = rid
    · rw [here]
      exact known
    · rw [Function.update_of_ne here] at live
      exact represents.known other live
  · intro other member
    rw [still] at member
    show contentAt store.data other = _
    rw [data,contentAt_update stored write]
    by_cases here : other = rid
    · rw [here]
      simpa using same
    · rw [Function.update_of_ne here,Function.update_of_ne here]
      exact represents.stored other member
  · intro other tuple held
    by_cases here : other = rid
    · rw [here,Function.update_self] at held
      exact fits tuple held
    · rw [Function.update_of_ne here] at held
      exact represents.fits other tuple held

/-- A call that changes no page. -/
theorem Represents.keep {store : Store TablePage} {request : Request} {response : Response}
    (represents : Represents schema heap m) (data : store.data = heap.store.data) (wf : WellFormed store)
    (quiet : ∀ rid, response ≠ .inserted rid) :
    Represents schema { heap with store, log := (request,response) :: heap.log } m := by
  have still := returned_quiet heap store request quiet
  refine ⟨wf,?_,?_,?_,represents.fits⟩
  · rw [still]
    show ∃ ids, Chain store.data _ ids ∧ _
    rw [data]
    exact represents.chain
  · rw [still]
    exact represents.known
  · rw [still]
    show ∀ rid ∈ _, contentAt store.data rid = _
    rw [data]
    exact represents.stored

/-- The call is answered as by the map, and the heap stands for the map after it. -/
def Step (schema : Schema) (heap : Heap) (m : Records) (call : Call) : Prop :=
  ∃ heap' response m', next heap call = some heap' ∧ heap'.log = (call.request,response) :: heap.log ∧
    heap'.firstPageId = heap.firstPageId ∧ Answered m call.request response m' ∧ Represents schema heap' m'

variable {script : List Bool} {slotNum : UInt32}

theorem not_granted {D : Type} : ¬((∃ p, Granted (PoolOp.fetchPage p : PoolOp D (Option PageId)) none) ∨
    Granted (PoolOp.newPage : PoolOp D (Option PageId)) none) := by
  rintro (⟨p,fine⟩ | fine)
  · exact fine rfl
  · exact fine rfl

theorem step_insertTuple (represents : Represents schema heap m) (fits : Fits schema tuple)
    (served : Prog.Served (exec (Block.zeros PAGE_SIZE)) Granted (heap.program ⟨.insertTuple tuple,script,slotNum⟩)
      (heap.poised ⟨.insertTuple tuple,script,slotNum⟩)) : Step schema heap m ⟨.insertTuple tuple,script,slotNum⟩ := by
  obtain ⟨ids,chain,inChain⟩ := represents.chain
  obtain ⟨length,_,new⟩ := bytes_of_fits fits
  have most := fits.2.2
  have short : tuple.bytes.length ≤ 4294967287 := by omega
  have holds : Prog.wlp (exec (Block.zeros PAGE_SIZE)) Granted (fun _ => False)
      (heap.program ⟨.insertTuple tuple,script,slotNum⟩) (fun response store => ∃ rid data',
        response = .inserted (some rid) ∧ WellFormed store ∧ store.data = data' ∧
          Grew heap.store.data data' heap.firstPageId ids rid tuple)
      (heap.poised ⟨.insertTuple tuple,script,slotNum⟩) := by
    unfold Heap.program
    rw [serve,Prog.wlp_bind]
    refine Prog.wlp_mono ?_ (wlp_insertTuple _ represents.wellFormed chain (.inl short))
    rintro out store ⟨data',script',spare',sees,outcome⟩
    cases out with
    | none => exact (not_granted outcome.2.2).elim
    | some rid => exact ⟨rid,data',rfl,sees.wellFormed,sees.data,outcome.2⟩
  rcases next_of_wlp served holds with ⟨response,store,moved,rid,data',rfl,wf,data,grew⟩ | ⟨_,_,fault⟩
  · have fresh : m rid = none := by
      by_contra live
      have here := represents.stored rid (represents.known rid live)
      rw [grew.fresh] at here
      exact live (Option.map_eq_none_iff.mp here.symm)
    refine ⟨_,_,_,moved,rfl,rfl,.inserted fresh,?_⟩
    obtain ⟨ids',chain',longer,home⟩ := grew.chain
    have more : returned { heap with store, log := (.insertTuple tuple,.inserted (some rid)) :: heap.log } =
        rid :: returned heap := rfl
    refine ⟨wf,⟨ids',?_,?_⟩,?_,?_,?_⟩
    · show Chain store.data _ _
      rw [data]
      exact chain'
    · rw [more]
      intro other member
      rcases List.mem_cons.mp member with rfl | member
      · exact home
      · exact longer.subset (inChain other member)
    · rw [more]
      intro other live
      by_cases here : other = rid
      · simp [here]
      · rw [Function.update_of_ne here] at live
        exact List.mem_cons_of_mem _ (represents.known other live)
    · rw [more]
      intro other member
      show contentAt store.data other = _
      rw [data,grew.contents,new]
      by_cases here : other = rid
      · rw [here,Function.update_self,Function.update_self]
        rfl
      · rw [Function.update_of_ne here,Function.update_of_ne here]
        exact represents.stored other ((List.mem_cons.mp member).resolve_left here)
    · intro other tuple' held
      by_cases here : other = rid
      · rw [here,Function.update_self] at held
        cases held
        exact fits
      · rw [Function.update_of_ne here] at held
        exact represents.fits other tuple' held
  · exact fault.elim

theorem step_getTuple (represents : Represents schema heap m) (known : rid ∈ returned heap)
    (served : Prog.Served (exec (Block.zeros PAGE_SIZE)) Granted (heap.program ⟨.getTuple rid schema,script,slotNum⟩)
      (heap.poised ⟨.getTuple rid schema,script,slotNum⟩)) : Step schema heap m ⟨.getTuple rid schema,script,slotNum⟩ := by
  obtain ⟨page,stored,layout,here⟩ := represents.page known
  have read : page.getTuple rid.slotNum schema = some (m rid) := by
    cases held : m rid with
    | none =>
      rw [held] at here
      exact getTuple_missing layout here
    | some tuple =>
      rw [held] at here
      obtain ⟨types,least,most⟩ := represents.fits rid tuple held
      have whole : tuple.map Value.stored = tuple := Tuple.map_stored_iff.mpr (Tuple.bytes_length_eq (by omega))
      rw [getTuple_stored layout types here,whole]
  have holds : Prog.wlp (exec (Block.zeros PAGE_SIZE)) Granted (fun _ => False)
      (heap.program ⟨.getTuple rid schema,script,slotNum⟩) (fun response store => ∃ script', response = .got (m rid) ∧
        Sees store heap.store.data heap.store.pins script' (¬(heap.store.free = [] ∧ heap.store.numPages = INVALID_PAGE_ID)))
      (heap.poised ⟨.getTuple rid schema,script,slotNum⟩) := by
    unfold Heap.program
    rw [serve,Prog.wlp_bind]
    refine Prog.wlp_mono ?_ (wlp_getTuple (sees_poised _ represents.wellFormed) stored (by rw [read]; exact nofun))
    rintro out store ⟨script',sees,⟨_,fine,_⟩ | done⟩
    · exact (fine rfl).elim
    · rw [read] at done
      cases done
      exact ⟨script',rfl,sees⟩
  rcases next_of_wlp served holds with ⟨response,store,moved,script',rfl,sees⟩ | ⟨_,_,fault⟩
  · exact ⟨_,_,_,moved,rfl,rfl,.got,represents.keep sees.data sees.wellFormed nofun⟩
  · exact fault.elim

/-- A slot that is live belongs to a record of the map, and one that is not to none. -/
theorem record_of_live {page : TablePage} (here : content page slotNum.toNat = (m rid).map Tuple.bytes) :
    Live page slotNum.toNat ↔ m rid ≠ none := by
  unfold content at here
  split_ifs at here with live
  · refine iff_of_true live ?_
    intro gone
    rw [gone] at here
    cases here
  · refine iff_of_false live ?_
    intro held
    exact held (Option.map_eq_none_iff.mp here.symm)

/-- The next heap after a change of one record. -/
theorem next_modifyTuple {page page' : TablePage} {request : Request} {respond : Bool → Response}
    {change : TablePage → Option (Bool × TablePage)} {done : Bool} (wf : WellFormed heap.store)
    (program : heap.program ⟨request,script,slotNum⟩ = do return respond (← modifyTuple rid change))
    (served : Prog.Served (exec (Block.zeros PAGE_SIZE)) Granted (heap.program ⟨request,script,slotNum⟩)
      (heap.poised ⟨request,script,slotNum⟩))
    (stored : heap.store.data rid.pageId = some page) (ran : change page = some (done,page'))
    (unchanged : done = false → page' = page) :
    ∃ store, next heap ⟨request,script,slotNum⟩ =
        some { heap with store, log := (request,respond done) :: heap.log } ∧ WellFormed store ∧
      store.data = if done then Function.update heap.store.data rid.pageId (some page') else heap.store.data := by
  have holds : Prog.wlp (exec (Block.zeros PAGE_SIZE)) Granted (fun _ => False) (heap.program ⟨request,script,slotNum⟩)
      (fun response store => response = respond done ∧ WellFormed store ∧
        store.data = if done then Function.update heap.store.data rid.pageId (some page') else heap.store.data)
      (heap.poised ⟨request,script,slotNum⟩) := by
    rw [program,Prog.wlp_bind]
    refine Prog.wlp_mono ?_ (wlp_modifyTuple (sees_poised _ wf) stored (by rw [ran]; exact nofun) ?_)
    · rintro out store ⟨data',script',sees,⟨rfl,rfl,fine | same⟩ | ⟨rfl,after,same,rfl⟩⟩
      · exact (fine rfl).elim
      · rw [ran] at same
        cases same
        exact ⟨rfl,sees.wellFormed,sees.data⟩
      · rw [ran] at same
        cases same
        exact ⟨rfl,sees.wellFormed,sees.data⟩
    · intro after same
      rw [ran] at same
      cases same
      exact unchanged rfl
  rcases next_of_wlp served holds with ⟨response,store,moved,rfl,wf',data⟩ | ⟨_,_,fault⟩
  · exact ⟨store,moved,wf',data⟩
  · exact fault.elim

theorem step_updateTuple (represents : Represents schema heap m) (known : rid ∈ returned heap) (fits : Fits schema tuple)
    (served : Prog.Served (exec (Block.zeros PAGE_SIZE)) Granted (heap.program ⟨.updateTuple rid tuple,script,slotNum⟩)
      (heap.poised ⟨.updateTuple rid tuple,script,slotNum⟩)) : Step schema heap m ⟨.updateTuple rid tuple,script,slotNum⟩ := by
  obtain ⟨page,stored,layout,here⟩ := represents.page known
  obtain ⟨length,full,_⟩ := bytes_of_fits fits
  have most := fits.2.2
  have short : tuple.bytes.length < 4294967296 := by omega
  obtain ⟨done,page',ran,changed⟩ := updateTuple_spec layout rid.slotNum short
  have unchanged : done = false → page' = page := by
    rintro rfl
    exact (updateTuple_done ran).1 rfl
  obtain ⟨store,moved,wf,data⟩ := next_modifyTuple represents.wellFormed rfl served stored ran unchanged
  cases changed with
  | refused => exact ⟨_,_,_,moved,rfl,rfl,.kept,represents.keep data wf nofun⟩
  | stored live write =>
    refine ⟨_,_,_,moved,rfl,rfl,.updated ((record_of_live here).mp live),?_⟩
    exact represents.change known stored write (by rw [if_neg full]; rfl) (fun tuple' same => by cases same; exact fits)
      data wf nofun

theorem step_deleteTuple (represents : Represents schema heap m) (known : rid ∈ returned heap)
    (served : Prog.Served (exec (Block.zeros PAGE_SIZE)) Granted (heap.program ⟨.deleteTuple rid,script,slotNum⟩)
      (heap.poised ⟨.deleteTuple rid,script,slotNum⟩)) : Step schema heap m ⟨.deleteTuple rid,script,slotNum⟩ := by
  obtain ⟨page,stored,layout,here⟩ := represents.page known
  obtain ⟨done,page',ran,changed,missing⟩ := deleteTuple_spec layout rid.slotNum
  have unchanged : done = false → page' = page := by
    rintro rfl
    cases changed
    rfl
  obtain ⟨store,moved,wf,data⟩ := next_modifyTuple represents.wellFormed rfl served stored ran unchanged
  cases changed with
  | refused =>
    have gone : m rid = none := by
      by_contra held
      exact missing rfl ((record_of_live here).mpr held)
    exact ⟨_,_,_,moved,rfl,rfl,.missing gone,represents.keep data wf nofun⟩
  | stored live write =>
    refine ⟨_,_,_,moved,rfl,rfl,.deleted ((record_of_live here).mp live),?_⟩
    exact represents.change known stored write rfl nofun data wf nofun

/-- One call, whatever it is. -/
theorem step_of_allowed (represents : Represents schema heap m) (allowed : Allowed schema heap call) :
    Step schema heap m call := by
  obtain ⟨known,fitting,served⟩ := allowed
  obtain ⟨request,script,slotNum⟩ := call
  cases request with
  | insertTuple tuple => exact step_insertTuple represents fitting served
  | getTuple rid schema' =>
    have same : schema' = schema := fitting
    subst same
    exact step_getTuple represents known served
  | updateTuple rid newTuple => exact step_updateTuple represents known fitting served
  | deleteTuple rid => exact step_deleteTuple represents known served

/-! ### Runs -/

/-- The heap that the constructor makes. -/
def start (s : Store TablePage) : Option Heap :=
  match Prog.run (exec (Block.zeros PAGE_SIZE)) create s with
  | .error _ => none
  | .ok (firstPageId,store) => some { store, firstPageId, log := [] }

/-- The constructor makes a heap of one page, or none for want of a page. -/
theorem wlp_create {allowed : Answers (PoolOp TablePage)} {tolerated : Fault → Prop} {s : Store TablePage} (wf : WellFormed s) :
    Prog.wlp (exec (Block.zeros PAGE_SIZE)) allowed tolerated create (fun first s' => WellFormed s' ∧
      (first = INVALID_PAGE_ID ∧ allowed .newPage none ∨ Chain s'.data first [first])) s := by
  rw [create,Prog.wlp_bind]
  refine wlp_newPage (sees_self wf) ?_ ?_
  · intro fine _ s₁ sees
    exact ⟨sees.wellFormed,.inl ⟨rfl,fine⟩⟩
  · intro q s₁ spare' served left unused sees
    have here : Function.update s.data q (some (Block.zeros PAGE_SIZE)) q = some (Block.zeros PAGE_SIZE) := by simp
    simp only [Prog.wlp_bind]
    refine wlp_getData sees here (by simp) ?_
    refine wlp_setData sees here (by simp) (fun s₂ sees => ?_)
    refine wlp_unpinPage sees (fun s₃ sees => ?_)
    refine ⟨sees.wellFormed,.inr ⟨rfl,by simp,?_⟩⟩
    obtain ⟨pageId,prev,next,_⟩ := init_facts (Block.zeros PAGE_SIZE) q INVALID_PAGE_ID
    refine ⟨⟨_,by rw [sees.data,Function.update_self],layout_init _ _ _,pageId,prev,next⟩,trivial⟩

theorem represents_start {s : Store TablePage} (wf : WellFormed s) (made : start s = some heap)
    (served : Prog.Served (exec (Block.zeros PAGE_SIZE)) Granted create s) :
    heap.log = [] ∧ Represents schema heap (fun _ => none) := by
  have holds : Prog.wlp (exec (Block.zeros PAGE_SIZE)) Granted (fun _ => False) create _ s := wlp_create wf
  unfold start at made
  rcases Prog.run_of_wlp holds served with ⟨first,store,ran,wf',outcome⟩ | ⟨reason,ran,fault⟩
  · rw [ran] at made
    cases made
    rcases outcome with ⟨_,fine⟩ | chain
    · exact (fine rfl).elim
    · exact ⟨rfl,wf',⟨[first],chain,by simp [returned]⟩,by simp,by simp [returned],nofun⟩
  · exact fault.elim

/-- Whatever calls are made, the heap stands for a finite map that explains all
    their answers, its pages form a chain, and the next call returns and is
    answered as by that map. -/
theorem tableHeap_refines_map {s : Store TablePage} {heap₀ : Heap} (wellFormed : WellFormed s) (made : start s = some heap₀)
    (served : Prog.Served (exec (Block.zeros PAGE_SIZE)) Granted create s)
    (runs : Runs next (Allowed schema) heap₀ heap) :
    ∃ m, Explains heap.log m ∧ {rid | m rid ≠ none}.Finite ∧
      (∃ ids, Chain heap.store.data heap.firstPageId ids) ∧
      ∀ call, Allowed schema heap call → ∃ heap' response m', next heap call = some heap' ∧
        heap'.log = (call.request,response) :: heap.log ∧ Answered m call.request response m' := by
  have explained : ∃ m, Explains heap.log m ∧ Represents schema heap m := by
    refine runs.served (fun heap => ∃ m, Explains heap.log m ∧ Represents schema heap m) ?_ ?_
    · obtain ⟨empty,represents⟩ := represents_start wellFormed made served
      exact ⟨_,by rw [empty]; exact .start,represents⟩
    · rintro heap call ⟨m,explains,represents⟩ allowed
      obtain ⟨after,response,m',ran,log,_,answered,represents'⟩ := step_of_allowed represents allowed
      exact ⟨after,ran,m',by rw [log]; exact .call explains answered,represents'⟩
  obtain ⟨m,explains,represents⟩ := explained
  refine ⟨m,explains,?_,?_,?_⟩
  · exact (returned heap).toFinset.finite_toSet.subset (fun rid live => by simpa using represents.known rid live)
  · obtain ⟨ids,chain,_⟩ := represents.chain
    exact ⟨ids,chain⟩
  · intro call allowed
    obtain ⟨heap',response,m',moved,log,_,answered,_⟩ := step_of_allowed represents allowed
    exact ⟨heap',response,m',moved,log,answered⟩

/-- One column of strings, and calls that store, move, read and free a record and
    use its slot again. -/
def notes : Schema := ⟨[⟨.VARCHAR⟩]⟩

def errands : List Call :=
  [⟨.insertTuple [.varchar [65]],[],0⟩,⟨.updateTuple ⟨1,0⟩ [.varchar [66,66]],[],0⟩,⟨.getTuple ⟨1,0⟩ notes,[],0⟩,
    ⟨.deleteTuple ⟨1,0⟩,[],0⟩,⟨.insertTuple [.varchar []],[],0⟩,⟨.getTuple ⟨1,0⟩ notes,[],0⟩]

theorem refines_map_errands : ∃ heap₀ heap, start (Store.empty TablePage) = some heap₀ ∧
    follow next (Allowed notes) heap₀ errands = some heap ∧
    ∃ m, Explains heap.log m ∧ {rid | m rid ≠ none}.Finite ∧ (∃ ids, Chain heap.store.data heap.firstPageId ids) ∧
      ∀ call, Allowed notes heap call → ∃ heap' response m', next heap call = some heap' ∧
        heap'.log = (call.request,response) :: heap.log ∧ Answered m call.request response m' := by
  obtain ⟨heap,ran⟩ : ∃ heap, (start (Store.empty TablePage)).bind
      (fun heap₀ => follow next (Allowed notes) heap₀ errands) = some heap :=
    Option.isSome_iff_exists.mp (by decide +kernel)
  obtain ⟨heap₀,made,followed⟩ := Option.bind_eq_some_iff.mp ran
  exact ⟨heap₀,heap,made,followed,
    tableHeap_refines_map (empty_wellFormed _) made (by decide +kernel) (runs_of_follow followed)⟩

end
end Aether.HeapMap
