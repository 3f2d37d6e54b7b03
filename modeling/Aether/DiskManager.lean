import Aether.Bytes
import Aether.Types
import Mathlib.Logic.Function.Basic

/-!
`DiskManager`: the database file, page by page, and the free list, a chain of
pages each of which holds the id of the next one in its first four bytes. The
head of the list and the number of pages are kept in memory and at the start of
page 0.
-/
namespace Aether.DiskManager
open Aether.Bytes Aether.Types

/-- The bytes of a page. -/
abbrev PageData := Block PAGE_SIZE

/-- The exceptions that the methods throw. -/
inductive Error
  /-- `std::out_of_range`. -/
  | outOfRange
  /-- "Corrupted database free list". -/
  | corruptedFreeList
  /-- "Failed to read database metadata". -/
  | noMetadata
  deriving DecidableEq, Repr

/-- A file of whole pages; past its end there are zeros. -/
structure DbFile where
  length : Nat
  page : PageId → PageData

namespace DbFile

/-- A file with nothing in it. -/
def empty : DbFile := { length := 0, page := fun _ => Block.zeros _ }

/-- Reading fails at the end of the file. -/
def read (file : DbFile) (pageId : PageId) : Option PageData :=
  if pageId.toNat < file.length then some (file.page pageId) else none

/-- Writing extends the file where needed. -/
def write (file : DbFile) (pageId : PageId) (data : PageData) : DbFile :=
  { length := max file.length (pageId.toNat + 1), page := Function.update file.page pageId data }

end DbFile

structure DiskManager where
  dbIo : DbFile
  freeListHead : PageId
  numPages : UInt32

namespace DiskManager

/-- Page 0 with the metadata written over its first eight bytes. -/
def metadata (data : PageData) (freeListHead numPages : UInt32) : PageData :=
  (data.put32 0 freeListHead).put32 4 numPages

/-- A new database file. -/
def create : DiskManager :=
  { dbIo := DbFile.empty.write 0 (metadata (Block.zeros _) INVALID_PAGE_ID 1), freeListHead := INVALID_PAGE_ID, numPages := 1 }

/-- Load an existing database file. -/
def openFile (dbIo : DbFile) : Except Error DiskManager :=
  match dbIo.read 0 with
  | none => .error .noMetadata
  | some data => .ok { dbIo, freeListHead := data.get32 0, numPages := data.get32 4 }

def writeMetadata (d : DiskManager) : DiskManager :=
  { d with dbIo := d.dbIo.write 0 (metadata (d.dbIo.page 0) d.freeListHead d.numPages) }

def readPage (d : DiskManager) (pageId : PageId) : Except Error PageData :=
  if d.numPages ≤ pageId then .error .outOfRange
  else .ok ((d.dbIo.read pageId).getD (Block.zeros _))

def writePage (d : DiskManager) (pageId : PageId) (data : PageData) : Except Error DiskManager :=
  if d.numPages ≤ pageId then .error .outOfRange
  else .ok { d with dbIo := d.dbIo.write pageId data }

/-- A page off the free list, or a new page at the end of the file. -/
def allocatePage (d : DiskManager) : Except Error (PageId × DiskManager) :=
  if d.freeListHead ≠ INVALID_PAGE_ID then
    match d.dbIo.read d.freeListHead with
    | none => .error .corruptedFreeList
    | some data => .ok (d.freeListHead,{ d with freeListHead := data.get32 0 }.writeMetadata)
  else
    let grown := { d with numPages := d.numPages + 1 }.writeMetadata
    .ok (d.numPages,{ grown with dbIo := grown.dbIo.write d.numPages (Block.zeros _) })

/-- Page 0 and pages past the end are left alone. -/
def deallocatePage (d : DiskManager) (pageId : PageId) : DiskManager :=
  if d.numPages ≤ pageId ∨ pageId = 0 then d
  else
    { d with dbIo := d.dbIo.write pageId ((Block.zeros _).put32 0 d.freeListHead), freeListHead := pageId }.writeMetadata

/-- The page that `allocatePage` hands out next. -/
def nextPageId (d : DiskManager) : PageId :=
  if d.freeListHead ≠ INVALID_PAGE_ID then d.freeListHead else d.numPages

end DiskManager
end Aether.DiskManager
