import Aether.Simulations
import Aether.StorageService

/-!
A page store that does each request at one moment. It says what clients of the
`StorageService` can rely on: a request takes effect between its arrival and its
answer, all at once, and fails only where others are busy; a restart changes no page. A
read is answered while its page is still pinned, so that the page stays in use for a
while after the answer.
-/
namespace Aether.AtomicService
open Aether.Bytes Aether.Types Aether.DiskManager Aether.BufferPool Aether.StorageService Aether.Simulations

/-- What can be seen at the connections, and restarts of the service. -/
inductive Event
  | restart
  | connect
  | receive (client : Nat) (request : Request)
  | answer (client : Nat) (request : Request) (response : Response)

/-- Where a client is with its request. -/
inductive Phase
  | idle
  | received (request : Request)
  | answering (request : Request) (response : Response)
  /-- The bytes of the page have been sent. -/
  | leaving (pageId : PageId)

namespace Phase

def busy : Phase → Bool
  | idle => false
  | _ => true

/-- The request is about the page. -/
def uses (p : PageId) : Phase → Prop
  | received (.readPage q) => q = p
  | received (.writePage q _) => q = p
  | answering (.readPage q) _ => q = p
  | answering (.writePage q _) _ => q = p
  | answering .allocatePage response => response.pageId = p
  | leaving q => q = p
  | _ => False

/-- Where a client is when its answer has been sent. -/
def after : Request → Response → Phase
  | .readPage p, response => if response.success then leaving p else idle
  | _, _ => idle

end Phase

/-- The pages that have been handed out, with their bytes. -/
abbrev Contents := PageId → Option PageData

/-- The request needs a frame, and an error that answers it names the page. -/
inductive NeedsFrame : Request → PageId → Prop
  | readPage {p} : NeedsFrame (.readPage p) p
  | writePage {p data} : NeedsFrame (.writePage p data) p
  | allocatePage : NeedsFrame .allocatePage INVALID_PAGE_ID

/-- What a request is answered while other clients are at theirs, and what becomes of the pages. -/
inductive Answers (frames : Nat) (contents : Contents) (others : List Phase) : Request → Response → Contents → Prop
  | reads {p data} : contents p = some data → Answers frames contents others (.readPage p) { Response.ok p with data := some data } contents
  | writes {p old data} : contents p = some old →
      Answers frames contents others (.writePage p data) (.ok p) (Function.update contents p (some data))
  | allocates {p} : contents p = none → 0 < p → p ≠ INVALID_PAGE_ID →
      Answers frames contents others .allocatePage (.ok p) (Function.update contents p (some (Block.zeros _)))
  | deallocates {p old} : contents p = some old →
      Answers frames contents others (.deallocatePage p) (.ok p) (Function.update contents p none)
  | unknown : Answers frames contents others .unknown (.error INVALID_PAGE_ID) contents
  /-- Every frame may be in use by another request. -/
  | full {request p} : NeedsFrame request p → frames ≤ others.countP Phase.busy →
      Answers frames contents others request (.error p) contents
  /-- Another request is about the page. -/
  | inUse {p} : (∃ phase ∈ others, phase.uses p) → Answers frames contents others (.deallocatePage p) (.error p) contents

structure Atomic where
  contents : Contents
  clients : List Phase

/-- Between its arrival and its answer a request is done in one step. -/
inductive Step (frames : Nat) (a : Atomic) : Option Event → Atomic → Prop
  | restart : (∀ phase ∈ a.clients, phase = .idle) → Step frames a (some .restart) { a with clients := [] }
  | connect : Step frames a (some .connect) { a with clients := a.clients ++ [.idle] }
  | receive {i request} : a.clients[i]? = some .idle →
      Step frames a (some (.receive i request)) { a with clients := a.clients.set i (.received request) }
  | done {i request response contents} : a.clients[i]? = some (.received request) →
      Answers frames a.contents (a.clients.eraseIdx i) request response contents →
      Step frames a none { contents, clients := a.clients.set i (.answering request response) }
  | answer {i request response} : a.clients[i]? = some (.answering request response) →
      Step frames a (some (.answer i request response)) { a with clients := a.clients.set i (.after request response) }
  | leave {i p} : a.clients[i]? = some (.leaving p) → Step frames a none { a with clients := a.clients.set i .idle }

/-- The store with some contents, before the first connection. -/
def atomic (frames : Nat) (contents : Contents) : System Event where
  State := Atomic
  start a := a = { contents, clients := [] }
  step := Step frames

/-- A request may be answered as soon as it is done. -/
theorem shows_answer {frames : Nat} {c contents : Contents} {a : Atomic} {i : Nat} {request : Request} {response : Response}
    (asked : a.clients[i]? = some (.received request)) (answers : Answers frames a.contents (a.clients.eraseIdx i) request response contents) :
    (atomic frames c).Shows a [.answer i request response] { contents, clients := a.clients.set i (.after request response) } := by
  have inside := (List.getElem?_eq_some_iff.mp asked).1
  have there : (a.clients.set i (.answering request response))[i]? = some (.answering request response) := List.getElem?_set_self inside
  have answer := @Step.answer frames { contents, clients := a.clients.set i (.answering request response) } i request response there
  simp only [List.set_set] at answer
  exact .visible (.silent .refl (Step.done asked answers)) answer

end Aether.AtomicService
