import Aether.StorageService

/-!
The wire protocol. `HandleClient` takes requests off a stream of bytes, whose headers
say how many bytes of payload follow, and answers each of them. The stream stays
aligned exactly when all lengths are those that the operations have.
-/
namespace Aether.ServiceFraming
open Aether.Bytes Aether.Types Aether.DiskManager Aether.BufferPool Aether.StorageService

/-! ### The protocol -/

/-- `OpType`. -/
def READ_PAGE : UInt8 := 0
def WRITE_PAGE : UInt8 := 1
def ALLOCATE_PAGE : UInt8 := 2
def DEALLOCATE_PAGE : UInt8 := 3

/-- `StatusCode`. -/
def SUCCESS : UInt8 := 0
def ERROR : UInt8 := 1

/-- `RequestHeader` and `ResponseHeader`, nine bytes each. -/
structure Header where
  code : UInt8
  pageId : PageId
  dataLen : UInt32
  deriving DecidableEq

namespace Header

def size : Nat := 9

def bytes (header : Header) : List UInt8 := header.code :: (bytesOf header.pageId ++ bytesOf header.dataLen)

/-- The header in the first nine bytes. -/
def parse : List UInt8 → Option Header
  | code :: p₀ :: p₁ :: p₂ :: p₃ :: n₀ :: n₁ :: n₂ :: n₃ :: _ =>
    some { code, pageId := wordOf p₀ p₁ p₂ p₃, dataLen := wordOf n₀ n₁ n₂ n₃ }
  | _ => none

end Header

/-- The bytes of a page as they are sent. -/
def payload (data : PageData) : List UInt8 := List.ofFn data

/-- The bytes received for a page. -/
def pageOf (bytes : List UInt8) : PageData := fun i => (bytes[i.val]?).getD 0

/-- The header of a response. -/
def header (response : Response) : Header where
  code := if response.success then SUCCESS else ERROR
  pageId := response.pageId
  dataLen := if response.data.isSome then UInt32.ofNat PAGE_SIZE else 0

/-- What is sent for a response. -/
def sends (response : Response) : List UInt8 := (header response).bytes ++ (response.data.map payload).getD []

/-! ### `HandleClient` -/

/-- `Recv`, which waits until all the bytes have arrived. -/
def recv (n : Nat) (stream : List UInt8) : Option (List UInt8 × List UInt8) :=
  if n ≤ stream.length then some (stream.take n,stream.drop n) else none

/-- Other threads change the pool between the steps on a request. -/
abbrev Others := Nat → BufferPoolManager → BufferPoolManager

/-- The thread handles a request. -/
def serve (others : Others) (b : BufferPoolManager) (request : Request) : Handler × BufferPoolManager :=
  let first := (Handler.received request).advance (others 0 b)
  let second := first.1.advance (others 1 first.2)
  second.1.advance (others 2 second.2)

/-- What was taken off the stream as a header, all that was taken for the request, and
    what was sent. -/
structure Exchange where
  header : Header
  taken : List UInt8
  sent : List UInt8

/-- The request of a header, once its payload has been received: only `WRITE_PAGE` has
    one, of the size of a page. -/
def receive (header : Header) (stream : List UInt8) : Option (Request × List UInt8 × List UInt8) :=
  if header.code = READ_PAGE then some (.readPage header.pageId,[],stream)
  else if header.code = WRITE_PAGE then
    (recv PAGE_SIZE stream).map (fun (buffer,stream) => (.writePage header.pageId (pageOf buffer),buffer,stream))
  else if header.code = ALLOCATE_PAGE then some (.allocatePage,[],stream)
  else if header.code = DEALLOCATE_PAGE then some (.deallocatePage header.pageId,[],stream)
  else some (.unknown,[],stream)

/-- One round of the loop, unless it waits for bytes. -/
def exchange (others : Others) (b : BufferPoolManager) (stream : List UInt8) :
    Option (Exchange × BufferPoolManager × List UInt8) :=
  match recv Header.size stream with
  | none => none
  | some (bytes,stream) =>
    match Header.parse bytes with
    | none => none
    | some header =>
      match receive header stream with
      | none => none
      | some (request,buffer,stream) =>
        match serve others b request with
        | (.answering _ response,b) => some ({ header, taken := bytes ++ buffer, sent := sends response },b,stream)
        | _ => none

section
variable {others : Others} {b b' : BufferPoolManager} {stream rest bytes taken : List UInt8} {n : Nat} {done : Exchange}
variable {header : Header} {request : Request} {response : Response}

theorem recv_append (length : bytes.length = n) : recv n (bytes ++ rest) = some (bytes,rest) := by
  subst length
  simp [recv]

theorem recv_length (received : recv n stream = some (bytes,rest)) : bytes.length = n ∧ stream = bytes ++ rest := by
  rw [recv] at received
  split_ifs at received with enough
  obtain ⟨rfl,rfl⟩ := Prod.mk.inj (Option.some.inj received)
  exact ⟨by simpa using enough,(List.take_append_drop n stream).symm⟩

theorem receive_stream (received : receive header stream = some (request,taken,rest)) : stream = taken ++ rest := by
  rw [receive] at received
  split_ifs at received
  · cases received; rfl
  · obtain ⟨⟨buffer,after⟩,found,same⟩ := Option.map_eq_some_iff.mp received
    cases same
    exact (recv_length found).2
  all_goals
    cases received
    rfl

/-- A round takes what it takes off the front of the stream, nine bytes at least. -/
theorem exchange_stream (served : exchange others b stream = some (done,b',rest)) :
    stream = done.taken ++ rest ∧ Header.size ≤ done.taken.length := by
  rw [exchange] at served
  cases first : recv Header.size stream with
  | none => simp [first] at served
  | some front =>
    obtain ⟨bytes,after⟩ := front
    obtain ⟨length,split⟩ := recv_length first
    cases parsed : Header.parse bytes with
    | none => simp [first,parsed] at served
    | some header =>
      cases received : receive header after with
      | none => simp [first,parsed,received] at served
      | some out =>
        obtain ⟨request,buffer,rest'⟩ := out
        simp only [first,parsed,received] at served
        split at served
        · cases served
          refine ⟨?_,?_⟩
          · rw [split,receive_stream received,List.append_assoc]
          · simp only [List.length_append]
            omega
        · cases served

theorem exchange_shorter (served : exchange others b stream = some (done,b',rest)) : rest.length < stream.length := by
  obtain ⟨split,long⟩ := exchange_stream served
  rw [split,List.length_append]
  have : 0 < Header.size := by decide
  omega

end

/-- The rounds of the loop until it waits for bytes. -/
def handleClient (others : Nat → Others) (round : Nat) (b : BufferPoolManager) (stream : List UInt8) : List Exchange :=
  match _served : exchange (others round) b stream with
  | none => []
  | some (done,b,rest) => done :: handleClient others (round + 1) b rest
termination_by stream.length
decreasing_by exact exchange_shorter _served

/-! ### What clients send -/

/-- A request on the wire: its header and as many bytes as it says. -/
structure Frame where
  header : Header
  payload : List UInt8
  sized : payload.length = header.dataLen.toNat

def Frame.bytes (frame : Frame) : List UInt8 := frame.header.bytes ++ frame.payload

/-- A page follows `WRITE_PAGE`, and nothing follows any other request. -/
def Frame.Fits (frame : Frame) : Prop :=
  frame.header.dataLen = if frame.header.code = WRITE_PAGE then UInt32.ofNat PAGE_SIZE else 0

/-- A response header and as many bytes as it says. -/
def Responds (sent : List UInt8) : Prop :=
  ∃ (header : Header) (rest : List UInt8), sent = header.bytes ++ rest ∧ rest.length = header.dataLen.toNat

/-- Every request is taken off the stream as it was sent, and answered once, in order. -/
def Framed (others : Nat → Others) (round : Nat) (b : BufferPoolManager) (frames : List Frame) : Prop :=
  let done := handleClient others round b (frames.flatMap Frame.bytes)
  done.map Exchange.header = frames.map Frame.header ∧ done.map (·.taken.length) = frames.map (Header.size + ·.header.dataLen.toNat) ∧
    done.map Exchange.taken = frames.map Frame.bytes ∧ ∀ e ∈ done, Responds e.sent

section
variable {others : Others} {b b' : BufferPoolManager} {stream rest : List UInt8} {n : Nat} {done : Exchange}
variable {request : Request} {frame : Frame}

theorem page_length : (UInt32.ofNat PAGE_SIZE).toNat = PAGE_SIZE := by simp [PAGE_SIZE]

@[simp] theorem header_bytes_length (header : Header) : header.bytes.length = Header.size := rfl

theorem parse_bytes (header : Header) : Header.parse header.bytes = some header := by
  simp only [Header.bytes,bytesOf,List.cons_append,List.nil_append,Header.parse,wordOf_bytesOf]

/-- Three steps are enough for every request. -/
theorem serve_answers (others : Others) (b : BufferPoolManager) (request : Request) :
    ∃ response b', serve others b request = (.answering request response,b') := by
  cases request with
  | unknown => exact ⟨_,_,rfl⟩
  | readPage p =>
    rcases step : (others 0 b).fetchPage p with ⟨e | _ | f,b₁⟩
    all_goals
      simp only [serve,Handler.advance,step]
      exact ⟨_,_,rfl⟩
  | writePage p data =>
    rcases step : (others 0 b).fetchPage p with ⟨e | _ | f,b₁⟩
    all_goals
      simp only [serve,Handler.advance,step]
      exact ⟨_,_,rfl⟩
  | allocatePage =>
    rcases step : (others 0 b).newPage with ⟨e | _ | ⟨p,f⟩,b₁⟩
    all_goals
      simp only [serve,Handler.advance,step]
      exact ⟨_,_,rfl⟩
  | deallocatePage p =>
    rcases step : (others 0 b).deletePage p with ⟨_ | _,b₁⟩
    all_goals
      simp only [serve,Handler.advance,step]
      exact ⟨_,_,rfl⟩

theorem payload_length (data : PageData) : (payload data).length = PAGE_SIZE := List.length_ofFn

theorem sends_responds (response : Response) : Responds (sends response) := by
  obtain ⟨success,pageId,data⟩ := response
  cases data with
  | none => exact ⟨_,[],rfl,rfl⟩
  | some data =>
    have length : (header { success, pageId, data := some data }).dataLen = UInt32.ofNat PAGE_SIZE := rfl
    refine ⟨_,payload data,by rw [sends,Option.map_some,Option.getD_some],?_⟩
    rw [length,page_length,payload_length]

/-- A round on a stream that begins with a request, where what follows is taken for its
    payload as its operation has it. -/
theorem exchange_request (others : Others) (b : BufferPoolManager) {header : Header} {taken : List UInt8} (received : receive header stream = some (request,taken,rest)) :
    ∃ done b', exchange others b (header.bytes ++ stream) = some (done,b',rest) ∧ done.header = header ∧
      done.taken = header.bytes ++ taken ∧ Responds done.sent := by
  obtain ⟨response,b',answered⟩ := serve_answers others b request
  refine ⟨{ header, taken := header.bytes ++ taken, sent := sends response },b',?_,rfl,rfl,sends_responds response⟩
  rw [exchange,recv_append (header_bytes_length header)]
  simp only [parse_bytes,received,answered]

/-- What an operation that is no `WRITE_PAGE` takes. -/
theorem receive_header {header : Header} (other : header.code ≠ WRITE_PAGE) (stream : List UInt8) :
    ∃ request, receive header stream = some (request,[],stream) := by
  rw [receive]
  split_ifs <;> exact ⟨_,rfl⟩

theorem receive_write {header : Header} (write : header.code = WRITE_PAGE) (stream : List UInt8) :
    receive header stream = (recv PAGE_SIZE stream).map
      (fun (buffer,stream) => (.writePage header.pageId (pageOf buffer),buffer,stream)) := by
  rw [receive,if_neg (by rw [write]; decide),if_pos write]

theorem receive_fits (fits : frame.Fits) (rest : List UInt8) :
    ∃ request, receive frame.header (frame.payload ++ rest) = some (request,frame.payload,rest) := by
  have sized := frame.sized
  rw [fits] at sized
  by_cases write : frame.header.code = WRITE_PAGE
  · rw [if_pos write,page_length] at sized
    rw [receive_write write,recv_append sized]
    exact ⟨_,rfl⟩
  · rw [if_neg write] at sized
    obtain ⟨request,received⟩ := receive_header write rest
    have empty : frame.payload = [] := List.length_eq_zero_iff.mp sized
    rw [empty]
    exact ⟨request,received⟩

/-- Where a whole request has been received, what was taken is what follows its header
    only if the length fits. -/
theorem fits_of_receive {taken : List UInt8} (received : receive frame.header stream = some (request,taken,rest))
    (length : taken.length = frame.header.dataLen.toNat) : frame.Fits := by
  rw [Frame.Fits]
  by_cases write : frame.header.code = WRITE_PAGE
  · rw [receive_write write] at received
    obtain ⟨⟨buffer,after⟩,found,same⟩ := Option.map_eq_some_iff.mp received
    cases same
    rw [if_pos write,← UInt32.toNat_inj,← length,(recv_length found).1,page_length]
  · obtain ⟨request',received'⟩ := receive_header write stream
    rw [received'] at received
    cases received
    rw [if_neg write,← UInt32.toNat_inj,← length]
    rfl

theorem handleClient_round {others : Nat → Others} {round : Nat} (served : exchange (others round) b stream = some (done,b',rest)) :
    handleClient others round b stream = done :: handleClient others (round + 1) b' rest := by
  rw [handleClient]
  split
  · next waits => rw [served] at waits; cases waits
  · next served' =>
    rw [served] at served'
    cases served'
    rfl

theorem handleClient_waits {others : Nat → Others} {round : Nat} (waits : exchange (others round) b stream = none) :
    handleClient others round b stream = [] := by
  rw [handleClient]
  split
  · rfl
  · next served => rw [waits] at served; cases served

end

/-- `HandleClient` stays in step with a client exactly when the lengths of all requests
    are those of their operations, whatever they ask for and whatever other clients do. -/
theorem requests_are_framed (others : Nat → Others) (round : Nat) (b : BufferPoolManager) (frames : List Frame) :
    Framed others round b frames ↔ ∀ frame ∈ frames, frame.Fits := by
  induction frames generalizing round b with
  | nil =>
    have waits : exchange (others round) b [] = none := rfl
    simp [Framed,handleClient_waits waits]
  | cons frame frames ih =>
    let stream := frame.payload ++ frames.flatMap Frame.bytes
    have split : (frame :: frames).flatMap Frame.bytes = frame.header.bytes ++ stream := by
      simp [stream,Frame.bytes]
    rw [Framed,split]
    cases received : receive frame.header stream with
    | none =>
      have waits : exchange (others round) b (frame.header.bytes ++ stream) = none := by
        rw [exchange,recv_append (header_bytes_length frame.header)]
        simp only [parse_bytes,received]
      rw [handleClient_waits waits]
      refine ⟨fun ⟨headers,_⟩ => (by cases headers),fun fits => ?_⟩
      obtain ⟨request,complete⟩ := receive_fits (fits frame List.mem_cons_self) (frames.flatMap Frame.bytes)
      rw [complete] at received
      cases received
    | some out =>
      obtain ⟨request,taken,rest⟩ := out
      obtain ⟨done,b',served,header,took,responds⟩ := exchange_request (others round) b received
      rw [handleClient_round served]
      have complete : frame.Fits → taken = frame.payload ∧ rest = frames.flatMap Frame.bytes := by
        intro fits
        obtain ⟨request',received'⟩ := receive_fits fits (frames.flatMap Frame.bytes)
        rw [received'] at received
        cases received
        exact ⟨rfl,rfl⟩
      constructor
      · rintro ⟨headers,lengths,all,sent⟩
        have length : taken.length = frame.header.dataLen.toNat := by
          have first := (List.cons.inj lengths).1
          simp only [took,List.length_append,header_bytes_length] at first
          exact Nat.add_left_cancel first
        have fits := fits_of_receive received length
        obtain ⟨_,rfl⟩ := complete fits
        have later : Framed others (round + 1) b' frames :=
          ⟨(List.cons.inj headers).2,(List.cons.inj lengths).2,(List.cons.inj all).2,fun e member => sent e (List.mem_cons_of_mem _ member)⟩
        exact List.forall_mem_cons.mpr ⟨fits,(ih (round + 1) b').mp later⟩
      · intro fits
        obtain ⟨fits,later⟩ := List.forall_mem_cons.mp fits
        obtain ⟨rfl,rfl⟩ := complete fits
        obtain ⟨headers,lengths,all,sent⟩ := (ih (round + 1) b').mpr later
        have length : done.taken.length = Header.size + frame.header.dataLen.toNat := by
          rw [took,List.length_append,header_bytes_length,frame.sized]
        exact ⟨congrArg₂ List.cons header headers,congrArg₂ List.cons length lengths,congrArg₂ List.cons took all,
          List.forall_mem_cons.mpr ⟨responds,sent⟩⟩

/-! ### A payload that is not skipped -/

/-- The header of a request to deallocate page 1. -/
def deallocation : Header := { code := DEALLOCATE_PAGE, pageId := 1, dataLen := 0 }

/-- A request to read page 0 that has those nine bytes as its payload. -/
def disguised : Frame := { header := { code := READ_PAGE, pageId := 0, dataLen := 9 }, payload := deallocation.bytes, sized := rfl }

/-- The payload is taken for a request of its own, and the page is deallocated. -/
theorem payload_is_executed :
    let pool : BufferPoolManager := .create 128 .create (.lru (.create 128))
    let done := handleClient (fun _ _ b => b) 0 pool ([disguised].flatMap Frame.bytes)
    done.map Exchange.header = [disguised.header,deallocation] ∧ ¬ Framed (fun _ _ b => b) 0 pool [disguised] := by
  intro pool done
  have headers : done.map Exchange.header = [disguised.header,deallocation] := by
    obtain ⟨e₁,b₁,first,header₁,_⟩ := exchange_request (fun _ b => b) pool
      (show receive disguised.header deallocation.bytes = some (.readPage 0,[],deallocation.bytes) from rfl)
    obtain ⟨e₂,b₂,second,header₂,_⟩ := exchange_request (fun _ b => b) b₁
      (show receive deallocation [] = some (.deallocatePage 1,[],[]) from rfl)
    have waits : exchange (fun _ b => b) b₂ [] = none := rfl
    have all : done = [e₁,e₂] := by
      show handleClient _ 0 pool (disguised.header.bytes ++ deallocation.bytes) = _
      rw [handleClient_round first,← List.append_nil deallocation.bytes,handleClient_round second,handleClient_waits waits]
    rw [all,List.map_cons,List.map_cons,header₁,header₂]
    rfl
  refine ⟨headers,fun ⟨same,_⟩ => ?_⟩
  have length := congrArg List.length (headers.symm.trans same)
  cases length

end Aether.ServiceFraming
