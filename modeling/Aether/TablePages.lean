import Aether.Tuples
import Aether.Types

/-!
The slotted page: header, slot directory and tuples in the same bytes. The
header is five words, slot `i` is the two words from byte `20 + 8 * i`, and the
tuples grow down from the end of the page.
-/
namespace Aether.TablePages
open Aether.Bytes Aether.Types Aether.Tuples

abbrev TablePage := Block PAGE_SIZE

structure Slot where
  offset : UInt32
  length : UInt32
  deriving DecidableEq, Repr

namespace TablePage

def getPageId (page : TablePage) : PageId := page.get32 0
def getNumSlots (page : TablePage) : UInt32 := page.get32 4
def getFreeSpacePointer (page : TablePage) : UInt32 := page.get32 8
def getPrevPageId (page : TablePage) : PageId := page.get32 12
def getNextPageId (page : TablePage) : PageId := page.get32 16

def setPageId (page : TablePage) (pageId : PageId) : TablePage := page.put32 0 pageId
def setNumSlots (page : TablePage) (numSlots : UInt32) : TablePage := page.put32 4 numSlots
def setFreeSpacePointer (page : TablePage) (freeSpacePointer : UInt32) : TablePage := page.put32 8 freeSpacePointer
def setPrevPageId (page : TablePage) (prevPageId : PageId) : TablePage := page.put32 12 prevPageId
def setNextPageId (page : TablePage) (nextPageId : PageId) : TablePage := page.put32 16 nextPageId

/-- The bytes of `slots_[i]`. -/
def slots (page : TablePage) (i : Nat) : Slot := ⟨page.get32 (20 + 8 * i),page.get32 (24 + 8 * i)⟩

/-- `slots_[i]`, inside the array of 500. -/
def slotAt (page : TablePage) (i : Nat) : Option Slot := if i < 500 then some (page.slots i) else none

def setSlotOffset (page : TablePage) (i : Nat) (offset : UInt32) : Option TablePage :=
  if i < 500 then some (page.put32 (20 + 8 * i) offset) else none

def setSlotLength (page : TablePage) (i : Nat) (length : UInt32) : Option TablePage :=
  if i < 500 then some (page.put32 (24 + 8 * i) length) else none

def init (page : TablePage) (pageId prevPageId : PageId) : TablePage :=
  ((((page.setPageId pageId).setNumSlots 0).setFreeSpacePointer (UInt32.ofNat PAGE_SIZE)).setPrevPageId
    prevPageId).setNextPageId INVALID_PAGE_ID

/-- The loop of `InsertTuple` for the first free slot, from slot `i` on with `left`
    slots to look at. -/
def targetSlot (page : TablePage) : Nat → Nat → Option (Option Nat)
  | 0, _ => some none
  | left + 1, i => do
    let slot ← page.slotAt i
    if slot.length = 0 then return some i
    targetSlot page left (i + 1)

/-- The end of the slot directory. -/
def currentFreeBoundary (page : TablePage) : UInt32 := 20 + page.getNumSlots * 8

/-- The slot taken, if the page has room for the tuple. -/
def insertTuple (page : TablePage) (tuple : Tuple) : Option (Option UInt32 × TablePage) := do
  let tupleLen := tuple.getSerializedLength
  let target ← page.targetSlot page.getNumSlots.toNat 0
  let neededSpace := if target = none then tupleLen + 8 else tupleLen
  if page.getFreeSpacePointer < page.currentFreeBoundary ∨
      page.getFreeSpacePointer - page.currentFreeBoundary < neededSpace then
    return (none,page)
  let page := page.setFreeSpacePointer (page.getFreeSpacePointer - tupleLen)
  let page : TablePage ← tuple.serialize page page.getFreeSpacePointer.toNat
  match target with
  | some i =>
    let page ← page.setSlotOffset i page.getFreeSpacePointer
    let page ← page.setSlotLength i tupleLen
    return (some (UInt32.ofNat i),page)
  | none =>
    let page ← page.setSlotOffset page.getNumSlots.toNat page.getFreeSpacePointer
    let page ← page.setSlotLength page.getNumSlots.toNat tupleLen
    return (some page.getNumSlots,page.setNumSlots (page.getNumSlots + 1))

/-- The tuple in a slot, if there is one. -/
def getTuple (page : TablePage) (slotNum : UInt32) (schema : Schema) : Option (Option Tuple) := do
  if page.getNumSlots ≤ slotNum then return none
  let slot ← page.slotAt slotNum.toNat
  if slot.length = 0 then return none
  let tuple ← Tuple.deserialize page slot.offset.toNat schema
  return some tuple

def deleteTuple (page : TablePage) (slotNum : UInt32) : Option (Bool × TablePage) := do
  if page.getNumSlots ≤ slotNum then return (false,page)
  let slot ← page.slotAt slotNum.toNat
  if slot.length = 0 then return (false,page)
  let page ← page.setSlotOffset slotNum.toNat 0
  let page ← page.setSlotLength slotNum.toNat 0
  return (true,page)

def updateTuple (page : TablePage) (slotNum : UInt32) (newTuple : Tuple) : Option (Bool × TablePage) := do
  if page.getNumSlots ≤ slotNum then return (false,page)
  let slot ← page.slotAt slotNum.toNat
  if slot.length = 0 then return (false,page)
  let newLen := newTuple.getSerializedLength
  if newLen ≤ slot.length then
    let page : TablePage ← newTuple.serialize page slot.offset.toNat
    let page ← page.setSlotLength slotNum.toNat newLen
    return (true,page)
  if page.getFreeSpacePointer < page.currentFreeBoundary ∨
      page.getFreeSpacePointer - page.currentFreeBoundary < newLen then
    return (false,page)
  let page := page.setFreeSpacePointer (page.getFreeSpacePointer - newLen)
  let page : TablePage ← newTuple.serialize page page.getFreeSpacePointer.toNat
  let page ← page.setSlotOffset slotNum.toNat page.getFreeSpacePointer
  let page ← page.setSlotLength slotNum.toNat newLen
  return (true,page)

end TablePage
end Aether.TablePages
