import Aether.DiskManager
import Aether.Replacers

/-!
`BufferPoolManager`. A method that throws leaves the state it has reached behind,
so every method that can throw returns its result and the state. A page pointer
is the number of its frame.
-/
namespace Aether.BufferPool
open Aether.Bytes Aether.Types Aether.DiskManager Aether.Replacers

/-- `Page`: a frame and what it is used for. -/
structure Page where
  data : PageData
  pageId : PageId
  pinCount : Int
  isDirty : Bool

/-- `ResetMemory`. -/
def Page.reset : Page := { data := Block.zeros _, pageId := INVALID_PAGE_ID, pinCount := 0, isDirty := false }

structure BufferPoolManager where
  poolSize : Nat
  disk : DiskManager
  replacer : Replacer
  pages : FrameId → Page
  pageTable : PageId → Option FrameId
  freeList : List FrameId

/-- What a method returns or throws, and the state after it. -/
abbrev Outcome (α : Type) := Except Error α × BufferPoolManager

namespace BufferPoolManager

def create (poolSize : Nat) (disk : DiskManager) (replacer : Replacer) : BufferPoolManager :=
  { poolSize, disk, replacer, pages := fun _ => Page.reset, pageTable := fun _ => none,
    freeList := (List.range poolSize).map Int.ofNat }

def setPage (b : BufferPoolManager) (frameId : FrameId) (page : Page) : BufferPoolManager :=
  { b with pages := Function.update b.pages frameId page }

/-- The frame that a page not in the pool would be loaded into. -/
def replacement (b : BufferPoolManager) : Option FrameId :=
  match b.freeList with
  | frameId :: _ => some frameId
  | [] => b.replacer.victim.1

/-- Select a replacement frame: the first free one, or a victim, which is written
    to disk if it is dirty and taken out of the page table. -/
def selectFrame (b : BufferPoolManager) : Outcome (Option FrameId) :=
  match b.freeList with
  | frameId :: rest => (.ok (some frameId),{ b with freeList := rest })
  | [] =>
    match b.replacer.victim with
    | (none,replacer) => (.ok none,{ b with replacer })
    | (some frameId,replacer) =>
      let victim := b.pages frameId
      let evicted := { b with replacer, pageTable := Function.update b.pageTable victim.pageId none }
      if victim.isDirty then
        match b.disk.writePage victim.pageId victim.data with
        | .error e => (.error e,{ b with replacer })
        | .ok disk => (.ok (some frameId),{ evicted.setPage frameId { victim with isDirty := false } with disk })
      else (.ok (some frameId),evicted)

def fetchPage (b : BufferPoolManager) (pageId : PageId) : Outcome (Option FrameId) :=
  if pageId = INVALID_PAGE_ID then (.ok none,b)
  else
    match b.pageTable pageId with
    | some frameId =>
      let page := b.pages frameId
      (.ok (some frameId),
        { b.setPage frameId { page with pinCount := page.pinCount + 1 } with replacer := b.replacer.pin frameId })
    | none =>
      match b.selectFrame with
      | (.error e,b) => (.error e,b)
      | (.ok none,b) => (.ok none,b)
      | (.ok (some frameId),b) =>
        let page := { Page.reset with pageId, pinCount := 1 }
        match b.disk.readPage pageId with
        | .error e => (.error e,b.setPage frameId page)
        | .ok data =>
          (.ok (some frameId),
            { b.setPage frameId { page with data } with
              pageTable := Function.update b.pageTable pageId (some frameId), replacer := b.replacer.pin frameId })

def unpinPage (b : BufferPoolManager) (pageId : PageId) (isDirty : Bool) : Bool × BufferPoolManager :=
  match b.pageTable pageId with
  | none => (false,b)
  | some frameId =>
    let page := b.pages frameId
    if page.pinCount ≤ 0 then (false,b)
    else
      let b := b.setPage frameId { page with isDirty := isDirty || page.isDirty, pinCount := page.pinCount - 1 }
      if page.pinCount - 1 = 0 then (true,{ b with replacer := b.replacer.unpin frameId })
      else (true,b)

/-- Write a frame to disk if it is dirty. -/
def flushFrame (b : BufferPoolManager) (frameId : FrameId) : Outcome Unit :=
  let page := b.pages frameId
  if page.isDirty then
    match b.disk.writePage page.pageId page.data with
    | .error e => (.error e,b)
    | .ok disk => (.ok (),{ b.setPage frameId { page with isDirty := false } with disk })
  else (.ok (),b)

def flushPage (b : BufferPoolManager) (pageId : PageId) : Outcome Bool :=
  match b.pageTable pageId with
  | none => (.ok false,b)
  | some frameId =>
    match b.flushFrame frameId with
    | (.error e,b) => (.error e,b)
    | (.ok _,b) => (.ok true,b)

/-- The new page's id and its frame. -/
def newPage (b : BufferPoolManager) : Outcome (Option (PageId × FrameId)) :=
  match b.selectFrame with
  | (.error e,b) => (.error e,b)
  | (.ok none,b) => (.ok none,b)
  | (.ok (some frameId),b) =>
    match b.disk.allocatePage with
    | .error e => (.error e,b)
    | .ok (pageId,disk) =>
      (.ok (some (pageId,frameId)),
        { b.setPage frameId { Page.reset with pageId, pinCount := 1 } with
          disk, pageTable := Function.update b.pageTable pageId (some frameId), replacer := b.replacer.pin frameId })

def deletePage (b : BufferPoolManager) (pageId : PageId) : Bool × BufferPoolManager :=
  match b.pageTable pageId with
  | none => (true,{ b with disk := b.disk.deallocatePage pageId })
  | some frameId =>
    if 0 < (b.pages frameId).pinCount then (false,b)
    else
      (true,{ b.setPage frameId Page.reset with
              replacer := b.replacer.pin frameId, pageTable := Function.update b.pageTable pageId none,
              freeList := b.freeList ++ [frameId], disk := b.disk.deallocatePage pageId })

/-- The iteration over `page_table_`, whose order is not specified. -/
def flushAllPages (b : BufferPoolManager) : List PageId → Outcome Unit
  | [] => (.ok (),b)
  | pageId :: rest =>
    match b.pageTable pageId with
    | none => flushAllPages b rest
    | some frameId =>
      match b.flushFrame frameId with
      | (.error e,b) => (.error e,b)
      | (.ok _,b) => flushAllPages b rest

/-- The bytes of a frame are changed through its page pointer. -/
def write (b : BufferPoolManager) (frameId : FrameId) (data : PageData) : BufferPoolManager :=
  b.setPage frameId { b.pages frameId with data }

end BufferPoolManager
end Aether.BufferPool
