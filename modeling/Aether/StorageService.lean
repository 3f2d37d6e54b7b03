import Aether.BufferPool
import Aether.Runs

/-!
`StorageService`: the threads that handle the connections, each one request at a
time, over one buffer pool. A call of the pool and a copy of a page are one step
each, and the steps of different connections interleave in any order.
-/
namespace Aether.StorageService
open Aether.Types Aether.DiskManager Aether.Replacers Aether.BufferPool Aether.Runs

/-- What a client asks for, by `op_type`. -/
inductive Request
  | readPage (pageId : PageId)
  | writePage (pageId : PageId) (data : PageData)
  | allocatePage
  | deallocatePage (pageId : PageId)
  | unknown

/-- `ResponseHeader` and the payload that follows it. -/
structure Response where
  success : Bool
  pageId : PageId
  data : Option PageData := none

def Response.ok (pageId : PageId) : Response := { success := true, pageId }
def Response.error (pageId : PageId) : Response := { success := false, pageId }

/-- Where a connection stands in `HandleClient`. -/
inductive Handler
  /-- Waits for a header. -/
  | idle
  | received (request : Request)
  /-- Is about to send the bytes of a page it has fetched. -/
  | reading (pageId : PageId) (page : FrameId)
  | sent (pageId : PageId) (data : PageData)
  /-- Is about to copy its buffer to a page it has fetched. -/
  | writing (pageId : PageId) (data : PageData) (page : FrameId)
  | written (pageId : PageId) (data : PageData)
  /-- Has been given a new page. -/
  | allocated (pageId : PageId)
  /-- Has handled the request. -/
  | answering (request : Request) (response : Response)

namespace Handler

/-- The next step of a thread that handles a request. A null page and an exception
    are both answered `ERROR`. -/
def advance : Handler → BufferPoolManager → Handler × BufferPoolManager
  | idle, b => (idle,b)
  | received (.readPage pageId), b =>
    match b.fetchPage pageId with
    | (.ok (some page),b) => (reading pageId page,b)
    | (_,b) => (answering (.readPage pageId) (.error pageId),b)
  | received (.writePage pageId data), b =>
    match b.fetchPage pageId with
    | (.ok (some page),b) => (writing pageId data page,b)
    | (_,b) => (answering (.writePage pageId data) (.error pageId),b)
  | received .allocatePage, b =>
    match b.newPage with
    | (.ok (some (pageId,_)),b) => (allocated pageId,b)
    | (_,b) => (answering .allocatePage (.error INVALID_PAGE_ID),b)
  | received (.deallocatePage pageId), b =>
    match b.deletePage pageId with
    | (true,b) => (answering (.deallocatePage pageId) (.ok pageId),b)
    | (false,b) => (answering (.deallocatePage pageId) (.error pageId),b)
  | received .unknown, b => (answering .unknown (.error INVALID_PAGE_ID),b)
  | reading pageId page, b => (sent pageId (b.pages page).data,b)
  | sent pageId data, b => (answering (.readPage pageId) { Response.ok pageId with data := some data },(b.unpinPage pageId false).2)
  | writing pageId data page, b => (written pageId data,b.write page data)
  | written pageId data, b => (answering (.writePage pageId data) (.ok pageId),(b.unpinPage pageId true).2)
  | allocated pageId, b => (answering .allocatePage (.ok pageId),(b.unpinPage pageId true).2)
  | answering request response, b => (answering request response,b)

/-- The pin that the thread holds. -/
def pins : Handler → Multiset PageId
  | reading pageId _ => {pageId}
  | sent pageId _ => {pageId}
  | writing pageId _ _ => {pageId}
  | written pageId _ => {pageId}
  | allocated pageId => {pageId}
  | _ => 0

end Handler

/-- The pool, the connections, and the ids that have been handed out and not
    been deallocated since. -/
structure Service where
  pool : BufferPoolManager
  clients : List Handler
  handedOut : List PageId

/-- A connection is opened, a request arrives on one, or its thread takes a step. -/
inductive Move
  | connect
  | receive (client : Nat) (request : Request)
  | advance (client : Nat)
  | answer (client : Nat)

namespace Service

/-- A new service over a pool. -/
def start (pool : BufferPoolManager) : Service := { pool, clients := [], handedOut := [] }

/-- The ids handed out after a step of a thread. -/
def account (handedOut : List PageId) : Handler → Handler → List PageId
  | .received .allocatePage, .allocated pageId => pageId :: handedOut
  | .received (.deallocatePage pageId), .answering _ response =>
    if response.success then handedOut.filter (fun q => decide (q ≠ pageId)) else handedOut
  | _, _ => handedOut

def next (s : Service) : Move → Option Service
  | .connect => some { s with clients := s.clients ++ [.idle] }
  | .receive client request =>
    match s.clients[client]? with
    | some .idle => some { s with clients := s.clients.set client (.received request) }
    | _ => none
  | .advance client =>
    match s.clients[client]? with
    | some handler =>
      some { pool := (handler.advance s.pool).2, clients := s.clients.set client (handler.advance s.pool).1,
             handedOut := account s.handedOut handler (handler.advance s.pool).1 }
    | none => none
  | .answer client =>
    match s.clients[client]? with
    | some (.answering _ _) => some { s with clients := s.clients.set client .idle }
    | _ => none

/-- All the pins that threads hold. -/
def pins (s : Service) : Multiset PageId := (s.clients.map Handler.pins).sum

end Service

end Aether.StorageService
