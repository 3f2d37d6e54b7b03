import Aether.StoreRules
import Aether.TablePages

/-!
`TableHeap`: a chain of slotted pages as a client of the buffer pool. A heap is
the id of its first page. The walk along the chain is cut off by a bound,
`fuel`.
-/
namespace Aether.TableHeap
open Aether.Bytes Aether.Programs Aether.Types Aether.PageStore Aether.Tuples Aether.TablePages

/-- An operation of the heap. -/
abbrev Action := Client TablePage

/-- A method of a page, which faults where it would leave the page or the array
    of slots. -/
def inBounds {α : Type} (result : Option α) : Action α := Prog.ofOption .outOfBounds result

/-- A new heap: its first page. -/
def create : Action PageId := do
  match ← newPage with
  | none => pure INVALID_PAGE_ID
  | some firstPageId => do
    let tablePage ← getData firstPageId
    setData firstPageId (tablePage.init firstPageId INVALID_PAGE_ID)
    let _ ← unpinPage firstPageId true
    pure firstPageId

/-- Link a new page behind the last one and insert there, whether or not the
    tuple fits: `slot_num` is what `InsertTuple` stored, or what was there before. -/
def appendPage (tuple : Tuple) (slotNum : UInt32) (currId : PageId) : Action (Option RID) := do
  match ← newPage with
  | none => do
    let _ ← unpinPage currId false
    pure none
  | some newPageId => do
    let newTablePage ← getData newPageId
    setData newPageId (newTablePage.init newPageId currId)
    let tablePage ← getData currId
    setData currId (tablePage.setNextPageId newPageId)
    let newTablePage ← getData newPageId
    let (slot,newTablePage) ← inBounds (newTablePage.insertTuple tuple)
    setData newPageId newTablePage
    let _ ← unpinPage currId true
    let _ ← unpinPage newPageId true
    pure (some ⟨newPageId,slot.getD slotNum⟩)

/-- The loop of `InsertTuple` from the page `currId` on; `slotNum` is the value of
    the uninitialised `slot_num`. -/
def insertFrom (tuple : Tuple) (slotNum : UInt32) : Nat → PageId → Action (Option RID)
  | 0, _ => Prog.fault .outOfFuel
  | fuel + 1, currId => do
    if currId = INVALID_PAGE_ID then pure none
    else
      match ← fetchPage currId with
      | none => pure none
      | some page => do
        let tablePage ← getData page
        let (slot,tablePage) ← inBounds (tablePage.insertTuple tuple)
        setData page tablePage
        match slot with
        | some slotNum => do
          let _ ← unpinPage currId true
          pure (some ⟨currId,slotNum⟩)
        | none => do
          let tablePage ← getData page
          let nextId := tablePage.getNextPageId
          if nextId = INVALID_PAGE_ID then appendPage tuple slotNum currId
          else do
            let _ ← unpinPage currId false
            insertFrom tuple slotNum fuel nextId

/-- The record identifier of the tuple, if `InsertTuple` returns true. -/
def insertTuple (fuel : Nat) (firstPageId : PageId) (tuple : Tuple) (slotNum : UInt32) : Action (Option RID) :=
  insertFrom tuple slotNum fuel firstPageId

/-- The tuple, if `GetTuple` returns true. -/
def getTuple (rid : RID) (schema : Schema) : Action (Option Tuple) := do
  match ← fetchPage rid.pageId with
  | none => pure none
  | some page => do
    let tablePage ← getData page
    let tuple ← inBounds (tablePage.getTuple rid.slotNum schema)
    let _ ← unpinPage rid.pageId false
    pure tuple

/-- Fetch the page of a record, change the record, and mark the page dirty if that
    was done. -/
def modifyTuple (rid : RID) (change : TablePage → Option (Bool × TablePage)) : Action Bool := do
  match ← fetchPage rid.pageId with
  | none => pure false
  | some page => do
    let tablePage ← getData page
    let (status,tablePage) ← inBounds (change tablePage)
    setData page tablePage
    let _ ← unpinPage rid.pageId status
    pure status

def updateTuple (rid : RID) (newTuple : Tuple) : Action Bool :=
  modifyTuple rid (fun tablePage => tablePage.updateTuple rid.slotNum newTuple)

def deleteTuple (rid : RID) : Action Bool := modifyTuple rid (fun tablePage => tablePage.deleteTuple rid.slotNum)

/-! ### Runs of calls -/

inductive Request
  | insertTuple (tuple : Tuple)
  | getTuple (rid : RID) (schema : Schema)
  | updateTuple (rid : RID) (newTuple : Tuple)
  | deleteTuple (rid : RID)

/-- What a call returns. -/
inductive Response
  | inserted (rid : Option RID)
  | got (tuple : Option Tuple)
  | updated (status : Bool)
  | deleted (status : Bool)

def serve (fuel : Nat) (firstPageId : PageId) (slotNum : UInt32) : Request → Action Response
  | .insertTuple tuple => do return .inserted (← insertTuple fuel firstPageId tuple slotNum)
  | .getTuple rid schema => do return .got (← getTuple rid schema)
  | .updateTuple rid newTuple => do return .updated (← updateTuple rid newTuple)
  | .deleteTuple rid => do return .deleted (← deleteTuple rid)

/-- A call: the request, what the pool will answer, and what was in the memory of
    `slot_num`. -/
structure Call where
  request : Request
  script : List Bool
  slotNum : UInt32

/-- A heap in use, with the calls so far and their answers, the last one first. -/
structure Heap where
  store : Store TablePage
  firstPageId : PageId
  log : List (Request × Response)

/-- The program of a call. The walk along the chain is given as many rounds as the
    file has pages. -/
def Heap.program (heap : Heap) (call : Call) : Action Response :=
  serve heap.store.numPages.toNat heap.firstPageId call.slotNum call.request

/-- The store with the pool as it will answer. -/
def Heap.poised (heap : Heap) (call : Call) : Store TablePage := { heap.store with script := call.script }

/-- A call after another; there is no next state after a fault. -/
def next (heap : Heap) (call : Call) : Option Heap :=
  match Prog.run (exec (Block.zeros PAGE_SIZE)) (heap.program call) (heap.poised call) with
  | .error _ => none
  | .ok (response,store) => some { heap with store, log := (call.request,response) :: heap.log }

/-- The record identifiers that the heap has returned. -/
def returned (heap : Heap) : List RID :=
  heap.log.filterMap fun entry =>
    match entry.2 with
    | .inserted rid => rid
    | _ => none

/-- The request names a record identifier that the heap has returned, if it names
    one. -/
def Known (heap : Heap) : Request → Prop
  | .insertTuple _ => True
  | .getTuple rid _ => rid ∈ returned heap
  | .updateTuple rid _ => rid ∈ returned heap
  | .deleteTuple rid => rid ∈ returned heap

instance (heap : Heap) : ∀ request, Decidable (Known heap request)
  | .insertTuple _ => isTrue trivial
  | .getTuple rid _ => inferInstanceAs (Decidable (rid ∈ returned heap))
  | .updateTuple rid _ => inferInstanceAs (Decidable (rid ∈ returned heap))
  | .deleteTuple rid => inferInstanceAs (Decidable (rid ∈ returned heap))

end Aether.TableHeap
