import Aether.Agreement
import Aether.ServiceFraming

/-!
The sockets under the protocol. The system calls `recv` and `send` transfer pieces of
any size, and `Socket::Recv` and `Socket::Send` call them until all bytes have been
transferred. `HandleClient` is written over these loops here, step by step, and what
it does depends on the bytes of the stream alone.
-/
namespace Aether.ServiceSockets
open Aether.Types Aether.DiskManager Aether.Replacers Aether.BufferPool Aether.StorageService Aether.ServiceFraming Aether.Agreement

/-! ### System calls -/

/-- The size of the piece that a system call transfers when it is asked for some bytes. -/
structure Chunking where
  size : (call : Nat) → (len : Nat) → Nat
  positive : ∀ call len, 0 < len → 0 < size call len
  within : ∀ call len, size call len ≤ len

/-- How the network cuts what is received, and what is sent. -/
structure Network where
  receives : Chunking
  sends : Chunking

/-- `INVALID_SOCKET`. -/
def INVALID_SOCKET : Int := -1

/-- A call of the buffer pool, or of `memcpy` into one of its pages. -/
inductive PoolCall
  | fetchPage (pageId : PageId)
  | unpinPage (pageId : PageId) (isDirty : Bool)
  | newPage
  | deletePage (pageId : PageId)
  | memcpy (page : FrameId) (buffer : PageData)

/-- A connection and the service behind it: the bytes that are still to be received,
    those that have been sent, and the calls of the pool so far. -/
structure Connection where
  fd : Int
  incoming : List UInt8
  outgoing : List UInt8
  recvCalls : Nat
  sendCalls : Nat
  rounds : Nat
  pool : BufferPoolManager
  calls : List PoolCall

/-- A connection that has been accepted, on which a client sends the stream. -/
def Connection.accept (fd : Int) (pool : BufferPoolManager) (stream : List UInt8) : Connection :=
  { fd, incoming := stream, outgoing := [], recvCalls := 0, sendCalls := 0, rounds := 0, pool, calls := [] }

namespace Network

/-- `recv`: the next bytes of the stream, and none after its end. -/
def recv (network : Network) (len : Nat) : StateM Connection (List UInt8) := fun c =>
  let size := network.receives.size c.recvCalls len
  (c.incoming.take size,{ c with incoming := c.incoming.drop size, recvCalls := c.recvCalls + 1 })

/-- `send`: how many of the bytes have been accepted. -/
def send (network : Network) (bytes : List UInt8) : StateM Connection Nat := fun c =>
  let size := network.sends.size c.sendCalls bytes.length
  (size,{ c with outgoing := c.outgoing ++ bytes.take size, sendCalls := c.sendCalls + 1 })

end Network

/-! ### `Socket` -/

namespace Socket

def isValid (c : Connection) : Bool := decide (c.fd ≠ INVALID_SOCKET)

/-- The loop of `Recv`, with what has been received. -/
def recvLoop (network : Network) (len : Nat) (received : List UInt8) (c : Connection) : Option (List UInt8) × Connection :=
  if received.length < len then
    match network.recv (len - received.length) c with
    | (bytes,c) => if _over : bytes = [] then (none,c) else recvLoop network len (received ++ bytes) c
  else (some received,c)
termination_by len - received.length
decreasing_by
  have some : 0 < bytes.length := List.length_pos_iff.mpr _over
  rw [List.length_append]
  omega

/-- `Recv`: the bytes of the buffer, unless it fails. -/
def recv (network : Network) (len : Nat) : StateM Connection (Option (List UInt8)) := fun c =>
  if isValid c then recvLoop network len [] c else (none,c)

/-- The loop of `Send`, with how much has been sent. -/
def sendLoop (network : Network) (buf : List UInt8) (sent : Nat) (c : Connection) : Bool × Connection :=
  if sent < buf.length then
    match network.send (buf.drop sent) c with
    | (bytes,c) => if bytes = 0 then (false,c) else sendLoop network buf (sent + bytes) c
  else (true,c)
termination_by buf.length - sent

/-- `Send`. -/
def send (network : Network) (buf : List UInt8) : StateM Connection Bool := fun c =>
  if isValid c then sendLoop network buf 0 c else (false,c)

def close (c : Connection) : Connection := { c with fd := INVALID_SOCKET }

end Socket

/-! ### What the loops of `Socket` transfer -/

section
variable {network network' : Network} {len : Nat} {received bytes rest buf stream extra : List UInt8} {c c' : Connection} {sent : Nat}

/-- The system call takes a piece of what is asked for, at least a byte of it. -/
theorem recv_piece (network : Network) (some : 0 < len) (c : Connection) : ∃ size calls, 0 < size ∧ size ≤ len ∧
    network.recv len c = (c.incoming.take size,{ c with incoming := c.incoming.drop size, recvCalls := calls }) :=
  ⟨network.receives.size c.recvCalls len,c.recvCalls + 1,network.receives.positive _ _ some,network.receives.within _ _,rfl⟩

theorem send_piece (network : Network) (some : 0 < buf.length) (c : Connection) : ∃ size calls, 0 < size ∧ size ≤ buf.length ∧
    network.send buf c = (size,{ c with outgoing := c.outgoing ++ buf.take size, sendCalls := calls }) :=
  ⟨network.sends.size c.sendCalls buf.length,c.sendCalls + 1,network.sends.positive _ _ some,network.sends.within _ _,rfl⟩

/-- Where enough bytes follow, the loop ends with exactly those that are missing. -/
theorem recvLoop_whole (network : Network) (received : List UInt8) (c : Connection) (coming : c.incoming = bytes ++ rest)
    (length : received.length + bytes.length = len) :
    ∃ calls, Socket.recvLoop network len received c = (some (received ++ bytes),{ c with incoming := rest, recvCalls := calls }) := by
  induction missing : bytes.length using Nat.strongRecOn generalizing received bytes c with
  | ind n ih =>
    rw [Socket.recvLoop]
    by_cases more : received.length < len
    · obtain ⟨size,calls,positive,within,piece⟩ := recv_piece network (Nat.sub_pos_of_lt more) c
      have inside : size ≤ bytes.length := by omega
      have taken : c.incoming.take size = bytes.take size := by rw [coming,List.take_append_of_le_length inside]
      have left : c.incoming.drop size = bytes.drop size ++ rest := by rw [coming,List.drop_append_of_le_length inside]
      have nonempty : bytes.take size ≠ [] := by
        intro empty
        have := congrArg List.length empty
        rw [List.length_take,List.length_nil] at this
        omega
      rw [if_pos more,piece,taken,left]
      simp only [dif_neg nonempty]
      obtain ⟨calls',later⟩ := ih (bytes.drop size).length (by rw [List.length_drop]; omega) (received ++ bytes.take size)
        { c with incoming := bytes.drop size ++ rest, recvCalls := calls } rfl
        (by rw [List.length_append,List.length_take,List.length_drop]; omega) rfl
      rw [later]
      exact ⟨calls',by rw [List.append_assoc,List.take_append_drop]⟩
    · have empty : bytes = [] := List.length_eq_zero_iff.mp (by omega)
      subst empty
      rw [if_neg more]
      refine ⟨c.recvCalls,?_⟩
      rw [List.append_nil,← show c.incoming = rest from coming]

/-- At the end of the stream the loop fails, and the stream is used up. -/
theorem recvLoop_short (network : Network) (received : List UInt8) (c : Connection) (short : received.length + c.incoming.length < len) :
    ∃ calls, Socket.recvLoop network len received c = (none,{ c with incoming := [], recvCalls := calls }) := by
  induction missing : c.incoming.length using Nat.strongRecOn generalizing received c with
  | ind n ih =>
    have more : received.length < len := by omega
    obtain ⟨size,calls,positive,within,piece⟩ := recv_piece network (Nat.sub_pos_of_lt more) c
    rw [Socket.recvLoop,if_pos more,piece]
    by_cases atEnd : c.incoming.take size = []
    · have empty : c.incoming = [] := by
        rcases List.take_eq_nil_iff.mp atEnd with none | empty
        · omega
        · exact empty
      simp only [dif_pos atEnd]
      exact ⟨calls,by rw [empty,List.drop_nil]⟩
    · have some : 0 < c.incoming.length := by
        rw [List.length_pos_iff]
        rintro empty
        exact atEnd (by rw [empty,List.take_nil])
      simp only [dif_neg atEnd]
      exact ih (c.incoming.drop size).length (by rw [List.length_drop]; omega) (received ++ c.incoming.take size)
        { c with incoming := c.incoming.drop size, recvCalls := calls }
        (by rw [List.length_append,List.length_take,List.length_drop]; omega) rfl

theorem sendLoop_all (network : Network) (sent : Nat) (c : Connection) (inside : sent ≤ buf.length) :
    ∃ calls, Socket.sendLoop network buf sent c = (true,{ c with outgoing := c.outgoing ++ buf.drop sent, sendCalls := calls }) := by
  induction missing : buf.length - sent using Nat.strongRecOn generalizing sent c with
  | ind n ih =>
    rw [Socket.sendLoop]
    by_cases more : sent < buf.length
    · have length : (buf.drop sent).length = buf.length - sent := List.length_drop
      obtain ⟨size,calls,positive,within,piece⟩ := send_piece network (show 0 < (buf.drop sent).length by omega) c
      have nonzero : size ≠ 0 := by omega
      rw [if_pos more,piece]
      simp only [if_neg nonzero]
      obtain ⟨calls',later⟩ := ih (buf.length - (sent + size)) (by omega) (sent + size)
        { c with outgoing := c.outgoing ++ (buf.drop sent).take size, sendCalls := calls } (by omega) rfl
      rw [later]
      refine ⟨calls',?_⟩
      rw [List.append_assoc,← List.drop_drop,List.take_append_drop]
    · rw [if_neg more]
      refine ⟨c.sendCalls,?_⟩
      rw [List.drop_of_length_le (by omega),List.append_nil]

end

/-! ### `HandleClient` -/

namespace Client

/-- A call of the pool. -/
def onPool {α : Type} (call : PoolCall) (operation : BufferPoolManager → α × BufferPoolManager) : StateM Connection α := fun c =>
  ((operation c.pool).1,{ c with pool := (operation c.pool).2, calls := c.calls ++ [call] })

def fetchPage (pageId : PageId) : StateM Connection (Except DiskManager.Error (Option FrameId)) := onPool (.fetchPage pageId) (·.fetchPage pageId)

def unpinPage (pageId : PageId) (isDirty : Bool) : StateM Connection Bool := onPool (.unpinPage pageId isDirty) (·.unpinPage pageId isDirty)

def newPage : StateM Connection (Except DiskManager.Error (Option (PageId × FrameId))) := onPool .newPage (·.newPage)

def deletePage (pageId : PageId) : StateM Connection Bool := onPool (.deletePage pageId) (·.deletePage pageId)

def memcpy (page : FrameId) (buffer : PageData) : StateM Connection Unit := onPool (.memcpy page buffer) (fun b => ((),b.write page buffer))

/-- `GetData`. -/
def getData (page : FrameId) : StateM Connection PageData := fun c => ((c.pool.pages page).data,c)

variable (network : Network)

/-- A response header is sent. -/
def respond (response : Response) : StateM Connection Bool := Socket.send network (header response).bytes

/-- What the handlers of exceptions do: whether the response is sent is not looked at. -/
def refuse (pageId : PageId) : StateM Connection Bool := do
  let _ ← respond network (.error pageId)
  pure true

/-- `READ_PAGE`; like the others, it says whether the loop goes on. -/
def readPage (pageId : PageId) : StateM Connection Bool := do
  match ← fetchPage pageId with
  | .ok (some page) =>
    let data ← getData page
    let headerSent ← respond network { Response.ok pageId with data := some data }
    let sendSuccess ← if headerSent then Socket.send network (payload data) else pure false
    let _ ← unpinPage pageId false
    pure sendSuccess
  | _ => refuse network pageId

/-- `WRITE_PAGE`. -/
def writePage (pageId : PageId) : StateM Connection Bool := do
  match ← Socket.recv network PAGE_SIZE with
  | none => pure false
  | some buffer =>
    match ← fetchPage pageId with
    | .ok (some page) =>
      memcpy page (pageOf buffer)
      let _ ← unpinPage pageId true
      respond network (.ok pageId)
    | _ => refuse network pageId

/-- `ALLOCATE_PAGE`. -/
def allocatePage : StateM Connection Bool := do
  match ← newPage with
  | .ok (some (newPageId,_)) =>
    let _ ← unpinPage newPageId true
    respond network (.ok newPageId)
  | _ => refuse network INVALID_PAGE_ID

/-- `DEALLOCATE_PAGE`. -/
def deallocatePage (pageId : PageId) : StateM Connection Bool := do
  match ← deletePage pageId with
  | true => respond network (.ok pageId)
  | false => refuse network pageId

/-- The operation of a header. -/
def dispatch (header : Header) : StateM Connection Bool :=
  if header.code = READ_PAGE then readPage network header.pageId
  else if header.code = WRITE_PAGE then writePage network header.pageId
  else if header.code = ALLOCATE_PAGE then allocatePage network
  else if header.code = DEALLOCATE_PAGE then deallocatePage network header.pageId
  else refuse network INVALID_PAGE_ID

/-- One round of the loop. Nine bytes are always a header. -/
def round : StateM Connection Bool := do
  match ← Socket.recv network Header.size with
  | none => pure false
  | some bytes =>
    match Header.parse bytes with
    | none => pure false
    | some header => dispatch network header

end Client

/-! ### Two connections side by side -/

/-- The second connection has what the first has, but for the number of system calls,
    and some more bytes at the end of its stream. -/
structure Follows (extra : List UInt8) (left : List UInt8 → Prop) (c c' : Connection) : Prop where
  opened : c.fd ≠ INVALID_SOCKET
  fd : c'.fd = c.fd
  incoming : c'.incoming = c.incoming ++ extra
  outgoing : c'.outgoing = c.outgoing
  rounds : c'.rounds = c.rounds
  pool : c'.pool = c.pool
  calls : c'.calls = c.calls
  left : left c.incoming

section
variable {network network' : Network} {len : Nat} {bytes rest buf extra : List UInt8} {c c' : Connection} {α : Type}
variable {left before after : List UInt8 → Prop} {header : Header} {response : Response} {pageId : PageId}

theorem recv_whole (network : Network) (opened : c.fd ≠ INVALID_SOCKET) (coming : c.incoming = bytes ++ rest) (length : bytes.length = len) :
    ∃ calls, Socket.recv network len c = (some bytes,{ c with incoming := rest, recvCalls := calls }) := by
  rw [Socket.recv,if_pos (by simpa [Socket.isValid] using opened)]
  exact recvLoop_whole network [] c coming (by simpa using length)

theorem recv_short (network : Network) (opened : c.fd ≠ INVALID_SOCKET) (short : c.incoming.length < len) :
    ∃ calls, Socket.recv network len c = (none,{ c with incoming := [], recvCalls := calls }) := by
  rw [Socket.recv,if_pos (by simpa [Socket.isValid] using opened)]
  exact recvLoop_short network [] c (by simpa using short)

theorem send_all (network : Network) (opened : c.fd ≠ INVALID_SOCKET) (buf : List UInt8) :
    ∃ calls, Socket.send network buf c = (true,{ c with outgoing := c.outgoing ++ buf, sendCalls := calls }) := by
  rw [Socket.send,if_pos (by simpa [Socket.isValid] using opened)]
  exact sendLoop_all network 0 c (Nat.zero_le _)

/-- Both receive the same bytes where the first has them all. -/
theorem recv_agrees (length : bytes.length = len) :
    Agree (Follows extra (fun l => l = bytes ++ rest)) (Socket.recv network len) (Socket.recv network' len)
      (fun value c c' => value = some bytes ∧ Follows extra (fun l => l = rest) c c') := by
  intro c c' follows
  have coming' : c'.incoming = bytes ++ (rest ++ extra) := by rw [follows.incoming,follows.left,List.append_assoc]
  obtain ⟨calls,received⟩ := recv_whole network follows.opened follows.left length
  obtain ⟨calls',received'⟩ := recv_whole network' (follows.fd ▸ follows.opened) coming' length
  rw [received,received']
  exact ⟨rfl,rfl,{ follows with incoming := rfl, left := rfl }⟩

/-- Both receive the same where they have the same stream. -/
theorem recv_same (shorter : ∀ l k, left l → left (l.drop k)) :
    Agree (Follows [] left) (Socket.recv network len) (Socket.recv network' len) (fun _ => Follows [] left) := by
  intro c c' follows
  have coming' : c'.incoming = c.incoming := by rw [follows.incoming,List.append_nil]
  by_cases enough : len ≤ c.incoming.length
  · have length : (c.incoming.take len).length = len := by rw [List.length_take,Nat.min_eq_left enough]
    have split := (List.take_append_drop len c.incoming).symm
    obtain ⟨calls,received⟩ := recv_whole network follows.opened split length
    obtain ⟨calls',received'⟩ := recv_whole network' (follows.fd ▸ follows.opened) (coming'.trans split) length
    rw [received,received']
    exact ⟨rfl,{ follows with incoming := (List.append_nil _).symm, left := shorter _ len follows.left }⟩
  · have short := Nat.lt_of_not_le enough
    obtain ⟨calls,received⟩ := recv_short network follows.opened short
    obtain ⟨calls',received'⟩ := recv_short network' (follows.fd ▸ follows.opened) (coming' ▸ short)
    rw [received,received']
    refine ⟨rfl,{ follows with incoming := rfl, left := ?_ }⟩
    have none := shorter _ c.incoming.length follows.left
    rwa [List.drop_length] at none

theorem send_agrees (buf : List UInt8) :
    Agree (Follows extra left) (Socket.send network buf) (Socket.send network' buf) (fun _ => Follows extra left) := by
  intro c c' follows
  obtain ⟨calls,sent⟩ := send_all network follows.opened buf
  obtain ⟨calls',sent'⟩ := send_all network' (follows.fd ▸ follows.opened) buf
  rw [sent,sent']
  exact ⟨rfl,{ follows with outgoing := congrArg (· ++ buf) follows.outgoing }⟩

theorem onPool_agrees (call : PoolCall) (operation : BufferPoolManager → α × BufferPoolManager) :
    Agree (Follows extra left) (Client.onPool call operation) (Client.onPool call operation) (fun _ => Follows extra left) := by
  intro c c' follows
  constructor
  · exact congrArg (fun b => (operation b).1) follows.pool.symm
  · exact { follows with pool := congrArg (fun b => (operation b).2) follows.pool, calls := congrArg (· ++ [call]) follows.calls }

theorem getData_agrees (page : FrameId) :
    Agree (Follows extra left) (Client.getData page) (Client.getData page) (fun _ => Follows extra left) := by
  intro c c' follows
  constructor
  · exact congrArg (fun b : BufferPoolManager => (b.pages page).data) follows.pool.symm
  · exact follows

theorem refuse_agrees (pageId : PageId) :
    Agree (Follows extra left) (Client.refuse network pageId) (Client.refuse network' pageId) (fun _ => Follows extra left) :=
  (send_agrees _).bind (fun _ => agree_pure (fun _ _ follows => follows))

theorem readPage_agrees (pageId : PageId) :
    Agree (Follows extra left) (Client.readPage network pageId) (Client.readPage network' pageId) (fun _ => Follows extra left) := by
  refine (onPool_agrees _ _).bind (fun fetched => ?_)
  rcases fetched with e | _ | page
  · exact refuse_agrees pageId
  · exact refuse_agrees pageId
  · refine (getData_agrees page).bind (fun data => ?_)
    refine (send_agrees _).bind (fun headerSent => ?_)
    have unpins : ∀ sendSuccess : Bool, Agree (Follows extra left) (do let _ ← Client.unpinPage pageId false; pure sendSuccess)
        (do let _ ← Client.unpinPage pageId false; pure sendSuccess) (fun _ => Follows extra left) := by
      intro sendSuccess
      exact (onPool_agrees _ _).bind (fun _ => agree_pure (fun _ _ follows => follows))
    cases headerSent with
    | false => exact (agree_pure (fun _ _ follows => follows)).bind unpins
    | true => exact (send_agrees _).bind unpins

/-- A page is written in step where its bytes are received in step. -/
theorem writePage_agrees (pageId : PageId) (receives : Agree (Follows extra before) (Socket.recv network PAGE_SIZE)
      (Socket.recv network' PAGE_SIZE) (fun _ => Follows extra after)) :
    Agree (Follows extra before) (Client.writePage network pageId) (Client.writePage network' pageId) (fun _ => Follows extra after) := by
  refine receives.bind (fun received => ?_)
  cases received with
  | none => exact agree_pure (fun _ _ follows => follows)
  | some buffer =>
    refine (onPool_agrees _ _).bind (fun fetched => ?_)
    rcases fetched with e | _ | page
    · exact refuse_agrees pageId
    · exact refuse_agrees pageId
    · refine (onPool_agrees _ _).bind (fun _ => ?_)
      exact (onPool_agrees _ _).bind (fun _ => send_agrees _)

theorem allocatePage_agrees :
    Agree (Follows extra left) (Client.allocatePage network) (Client.allocatePage network') (fun _ => Follows extra left) := by
  refine (onPool_agrees _ _).bind (fun allocated => ?_)
  rcases allocated with e | _ | ⟨newPageId,_⟩
  · exact refuse_agrees _
  · exact refuse_agrees _
  · exact (onPool_agrees _ _).bind (fun _ => send_agrees _)

theorem deallocatePage_agrees (pageId : PageId) :
    Agree (Follows extra left) (Client.deallocatePage network pageId) (Client.deallocatePage network' pageId) (fun _ => Follows extra left) := by
  refine (onPool_agrees _ _).bind (fun success => ?_)
  cases success
  · exact refuse_agrees pageId
  · exact send_agrees _

/-- Every operation is handled in step; only `WRITE_PAGE` receives more bytes. -/
theorem dispatch_agrees (other : header.code ≠ WRITE_PAGE → ∀ l, before l → after l)
    (write : header.code = WRITE_PAGE →
      Agree (Follows extra before) (Socket.recv network PAGE_SIZE) (Socket.recv network' PAGE_SIZE) (fun _ => Follows extra after)) :
    Agree (Follows extra before) (Client.dispatch network header) (Client.dispatch network' header) (fun _ => Follows extra after) := by
  rw [Client.dispatch,Client.dispatch]
  by_cases isWrite : header.code = WRITE_PAGE
  · have notRead : ¬ header.code = READ_PAGE := by rw [isWrite]; decide
    rw [if_neg notRead,if_neg notRead,if_pos isWrite,if_pos isWrite]
    exact writePage_agrees _ (write isWrite)
  · have weaker : ∀ c c' : Connection, Follows extra before c c' → Follows extra after c c' :=
      fun c c' follows => { follows with left := other isWrite _ follows.left }
    rw [if_neg isWrite,if_neg isWrite]
    split_ifs
    · exact (readPage_agrees _).mono weaker (fun _ _ _ follows => follows)
    · exact allocatePage_agrees.mono weaker (fun _ _ _ follows => follows)
    · exact (deallocatePage_agrees _).mono weaker (fun _ _ _ follows => follows)
    · exact (refuse_agrees _).mono weaker (fun _ _ _ follows => follows)

theorem Follows.refl (opened : c.fd ≠ INVALID_SOCKET) (here : left c.incoming) : Follows [] left c c :=
  ⟨opened,rfl,(List.append_nil _).symm,rfl,rfl,rfl,rfl,here⟩

theorem dispatch_same (shorter : ∀ l k, left l → left (l.drop k)) (header : Header) :
    Agree (Follows [] left) (Client.dispatch network header) (Client.dispatch network' header) (fun _ => Follows [] left) :=
  dispatch_agrees (fun _ _ here => here) (fun _ => recv_same shorter)

/-- A round on the same stream. -/
theorem round_same (shorter : ∀ l k, left l → left (l.drop k)) :
    Agree (Follows [] left) (Client.round network) (Client.round network') (fun _ => Follows [] left) := by
  refine (recv_same shorter).bind (fun received => ?_)
  cases received with
  | none => exact agree_pure (fun _ _ follows => follows)
  | some bytes =>
    show Agree _ (match Header.parse bytes with | none => pure false | some header => Client.dispatch network header)
      (match Header.parse bytes with | none => pure false | some header => Client.dispatch network' header) _
    cases Header.parse bytes with
    | none => exact agree_pure (fun _ _ follows => follows)
    | some header => exact dispatch_same shorter header

/-- A socket that is not valid receives nothing. -/
theorem round_closed (closed : c.fd = INVALID_SOCKET) : Client.round network c = (false,c) := by
  have received : Socket.recv network Header.size c = (none,c) := by
    rw [Socket.recv,if_neg (by simp [Socket.isValid,closed])]
  exact (bind_of received).trans rfl

/-- What a round leaves of the stream, if it goes on, is shorter. -/
theorem round_shorter (goes : Client.round network c = (true,c')) : c'.incoming.length < c.incoming.length := by
  have opened : c.fd ≠ INVALID_SOCKET := by
    intro closed
    rw [round_closed closed] at goes
    cases goes
  by_cases enough : Header.size ≤ c.incoming.length
  · have length : (c.incoming.take Header.size).length = Header.size := by rw [List.length_take,Nat.min_eq_left enough]
    obtain ⟨calls,received⟩ := recv_whole network opened (List.take_append_drop Header.size c.incoming).symm length
    let c₁ := { c with incoming := c.incoming.drop Header.size, recvCalls := calls }
    let left : List UInt8 → Prop := fun l => l.length ≤ c₁.incoming.length
    have shorter : ∀ l k, left l → left (l.drop k) := by
      intro l k here
      exact le_trans (by rw [List.length_drop]; omega) here
    have fewer : c₁.incoming.length < c.incoming.length := by
      show (c.incoming.drop Header.size).length < _
      have : 0 < Header.size := by decide
      rw [List.length_drop]
      omega
    cases parsed : Header.parse (c.incoming.take Header.size) with
    | none =>
      have stops : Client.round network c = (false,c₁) := (bind_of received).trans (by simp only [parsed]; rfl)
      rw [stops] at goes
      cases goes
    | some header =>
      have goes' : Client.dispatch network header c₁ = (true,c') :=
        ((bind_of received).trans (by simp only [parsed]; rfl)).symm.trans goes
      have inStep : Agree (Follows [] left) (Client.dispatch network header) (Client.dispatch network header) (fun _ => Follows [] left) :=
        dispatch_same shorter header
      have here : Follows [] left c₁ c₁ := Follows.refl (show c₁.fd ≠ INVALID_SOCKET from opened) (show left c₁.incoming from Nat.le_refl _)
      obtain ⟨_,follows⟩ := inStep c₁ c₁ here
      rw [goes'] at follows
      exact lt_of_le_of_lt follows.left fewer
  · obtain ⟨calls,received⟩ := recv_short network opened (Nat.lt_of_not_le enough)
    have stops : Client.round network c = (false,_) := (bind_of received).trans rfl
    rw [stops] at goes
    cases goes

end

/-! ### The loop -/

/-- `HandleClient`; `isRunning` says what is read from `is_running_` before each round. -/
def handleClient (network : Network) (isRunning : Nat → Bool) (c : Connection) : Connection :=
  if isRunning c.rounds then
    match _served : Client.round network { c with rounds := c.rounds + 1 } with
    | (true,c') => handleClient network isRunning c'
    | (false,c') => Socket.close c'
  else Socket.close c
termination_by c.incoming.length
decreasing_by
  have shorter := round_shorter _served
  exact shorter

/-- A request that has been sent as a whole: a page follows `WRITE_PAGE`, and nothing any
    other request, whatever the header says of its length. -/
structure Whole where
  header : Header
  payload : List UInt8
  sized : payload.length = if header.code = WRITE_PAGE then PAGE_SIZE else 0

def Whole.bytes (request : Whole) : List UInt8 := request.header.bytes ++ request.payload

/-- The beginning of a request, in its header or in the page that is to be written. -/
def Partial (bytes : List UInt8) : Prop :=
  bytes.length < Header.size ∨
    ∃ (header : Header) (payload : List UInt8), bytes = header.bytes ++ payload ∧ header.code = WRITE_PAGE ∧ payload.length < PAGE_SIZE

/-- The same calls of the pool with the same effect, and the same bytes sent. -/
structure SameWork (c c' : Connection) : Prop where
  calls : c.calls = c'.calls
  pool : c.pool = c'.pool
  outgoing : c.outgoing = c'.outgoing

section
variable {network network' : Network} {isRunning : Nat → Bool} {c c' c₁ : Connection} {extra : List UInt8}

theorem handleClient_stopped (stopped : isRunning c.rounds = false) : handleClient network isRunning c = Socket.close c := by
  rw [handleClient,if_neg (by rw [stopped]; decide)]

theorem handleClient_round {goes : Bool} (running : isRunning c.rounds = true)
    (served : Client.round network { c with rounds := c.rounds + 1 } = (goes,c₁)) :
    handleClient network isRunning c = if goes then handleClient network isRunning c₁ else Socket.close c₁ := by
  rw [handleClient,if_pos running]
  split
  · next served' =>
    rw [served] at served'
    cases served'
    rfl
  · next served' =>
    rw [served] at served'
    cases served'
    rfl

/-- On a socket that is not valid nothing happens, whatever the network. -/
theorem handleClient_closed (closed : c.fd = INVALID_SOCKET) :
    handleClient network isRunning c = { c with rounds := if isRunning c.rounds then c.rounds + 1 else c.rounds } := by
  cases running : isRunning c.rounds with
  | false =>
    rw [handleClient_stopped running,Socket.close,← closed]
    rfl
  | true =>
    rw [handleClient_round running (round_closed (show Connection.fd { c with rounds := c.rounds + 1 } = _ from closed)),Socket.close,← closed]
    rfl

/-- Connections that make a round in step go on, or stop, together. -/
theorem handleClient_inStep {before after : Connection → Connection → Prop}
    (inStep : Agree before (Client.round network) (Client.round network') (fun _ => after))
    (running : isRunning c.rounds = true) (running' : isRunning c'.rounds = true)
    (here : before { c with rounds := c.rounds + 1 } { c' with rounds := c'.rounds + 1 }) :
    ∃ goes d d', after d d' ∧ (goes = true → d.incoming.length < c.incoming.length) ∧
      handleClient network isRunning c = (if goes then handleClient network isRunning d else Socket.close d) ∧
      handleClient network' isRunning c' = (if goes then handleClient network' isRunning d' else Socket.close d') := by
  obtain ⟨same,there⟩ := inStep _ _ here
  rcases served : Client.round network { c with rounds := c.rounds + 1 } with ⟨goes,d⟩
  rcases served' : Client.round network' { c' with rounds := c'.rounds + 1 } with ⟨goes',d'⟩
  rw [served,served'] at same there
  obtain rfl : goes = goes' := same
  refine ⟨goes,d,d',there,?_,handleClient_round running served,handleClient_round running' served'⟩
  rintro rfl
  have shorter := round_shorter served
  exact shorter

/-- Sockets that are closed in step have done the same work. -/
theorem Follows.close {left : List UInt8 → Prop} (follows : Follows extra left c c') : SameWork (Socket.close c') (Socket.close c) :=
  ⟨follows.calls,follows.pool,follows.outgoing⟩

theorem SameWork.symm (work : SameWork c c') : SameWork c' c := ⟨work.calls.symm,work.pool.symm,work.outgoing.symm⟩

theorem SameWork.trans {c'' : Connection} (work : SameWork c c') (later : SameWork c' c'') : SameWork c c'' :=
  ⟨work.calls.trans later.calls,work.pool.trans later.pool,work.outgoing.trans later.outgoing⟩

/-- The run lemma for two networks. -/
theorem handleClient_same (follows : Follows [] (fun _ => True) c c') :
    let done := handleClient network isRunning c
    let done' := handleClient network' isRunning c'
    SameWork done done' ∧ done.incoming = done'.incoming ∧ done.rounds = done'.rounds := by
  induction length : c.incoming.length using Nat.strongRecOn generalizing c c' with
  | ind n ih =>
    have ends : ∀ {d d' : Connection}, Follows [] (fun _ => True) d d' → SameWork (Socket.close d) (Socket.close d') ∧
        (Socket.close d).incoming = (Socket.close d').incoming ∧ (Socket.close d).rounds = (Socket.close d').rounds := by
      intro d d' follows
      refine ⟨follows.close.symm,?_,follows.rounds.symm⟩
      rw [Socket.close,Socket.close,follows.incoming,List.append_nil]
    cases running : isRunning c.rounds with
    | false =>
      rw [handleClient_stopped running,handleClient_stopped (by rw [follows.rounds,running])]
      exact ends follows
    | true =>
      have inStep : Agree (Follows [] (fun _ => True)) (Client.round network) (Client.round network') (fun _ => Follows [] (fun _ => True)) :=
        round_same (fun _ _ _ => trivial)
      obtain ⟨goes,d,d',follows₁,shorter,ran,ran'⟩ := handleClient_inStep inStep running (by rw [follows.rounds,running])
        { follows with rounds := congrArg (· + 1) follows.rounds }
      rw [ran,ran']
      cases goes with
      | false => exact ends follows₁
      | true => exact ih _ (length ▸ shorter rfl) follows₁ rfl

/-! ### Requests that are whole, and the beginning of one -/

/-- A round takes a whole request in step, whatever follows it. -/
theorem round_agrees (request : Whole) (rest : List UInt8) :
    Agree (Follows extra (fun l => l = request.bytes ++ rest)) (Client.round network) (Client.round network')
      (fun _ => Follows extra (fun l => l = rest)) := by
  obtain ⟨header,payload,sized⟩ := request
  have receives : Agree (Follows extra (fun l => l = header.bytes ++ (payload ++ rest))) (Socket.recv network Header.size)
      (Socket.recv network' Header.size) _ := recv_agrees (header_bytes_length header)
  have serves : Agree (Follows extra (fun l => l = payload ++ rest)) (Client.dispatch network header) (Client.dispatch network' header)
      (fun _ => Follows extra (fun l => l = rest)) := by
    refine dispatch_agrees (fun other l here => ?_) (fun write => ?_)
    · rw [if_neg other] at sized
      rw [here,List.length_eq_zero_iff.mp sized,List.nil_append]
    · rw [if_pos write] at sized
      exact (recv_agrees sized).mono (fun _ _ follows => follows) (fun _ _ _ received => received.2)
  have whole : (⟨header,payload,sized⟩ : Whole).bytes ++ rest = header.bytes ++ (payload ++ rest) := by rw [Whole.bytes,List.append_assoc]
  rw [whole]
  refine receives.bind (fun value => ?_)
  rintro c c' ⟨rfl,follows⟩
  simp only [parse_bytes]
  exact serves c c' follows

/-- The beginning of a request is received, and nothing else is done. -/
theorem round_partial (network : Network) (unfinished : Partial c.incoming) : ∃ c₁, Client.round network c = (false,c₁) ∧ SameWork c₁ c := by
  by_cases opened : c.fd = INVALID_SOCKET
  · exact ⟨c,round_closed opened,rfl,rfl,rfl⟩
  · rcases unfinished with short | ⟨header,payload,coming,write,short⟩
    · obtain ⟨calls,received⟩ := recv_short network opened short
      exact ⟨_,(bind_of received).trans rfl,rfl,rfl,rfl⟩
    · obtain ⟨calls,received⟩ := recv_whole network opened coming (header_bytes_length header)
      have notRead : ¬ header.code = READ_PAGE := by rw [write]; decide
      obtain ⟨calls',missing⟩ := recv_short network
        (show Connection.fd { c with incoming := payload, recvCalls := calls } ≠ INVALID_SOCKET from opened) short
      refine ⟨{ c with incoming := [], recvCalls := calls' },(bind_of received).trans ?_,rfl,rfl,rfl⟩
      simp only [parse_bytes,Client.dispatch,if_neg notRead,if_pos write]
      exact (bind_of missing).trans rfl

/-- The run lemma for a stream that ends inside a request. -/
theorem handleClient_partial (unfinished : Partial extra) (requests : List Whole)
    (follows : Follows extra (fun l => l = requests.flatMap Whole.bytes) c c') :
    SameWork (handleClient network isRunning c') (handleClient network' isRunning c) := by
  induction requests generalizing c c' with
  | nil =>
    have none : c.incoming = [] := follows.left
    cases running : isRunning c.rounds with
    | false =>
      rw [handleClient_stopped running,handleClient_stopped (by rw [follows.rounds,running])]
      exact follows.close
    | true =>
      have atEnd : Partial ({ c with rounds := c.rounds + 1 } : Connection).incoming := by
        show Partial c.incoming
        rw [none]
        exact .inl (by decide)
      have atRest : Partial ({ c' with rounds := c'.rounds + 1 } : Connection).incoming := by
        show Partial c'.incoming
        rw [follows.incoming,none,List.nil_append]
        exact unfinished
      obtain ⟨c₁,served,work⟩ := round_partial network' atEnd
      obtain ⟨c₁',served',work'⟩ := round_partial network atRest
      rw [handleClient_round running served,handleClient_round (by rw [follows.rounds,running]) served']
      have between : SameWork { c' with rounds := c'.rounds + 1 } { c with rounds := c.rounds + 1 } :=
        ⟨follows.calls,follows.pool,follows.outgoing⟩
      have same : SameWork c₁' c₁ := work'.trans (between.trans work.symm)
      exact ⟨same.calls,same.pool,same.outgoing⟩
  | cons request requests ih =>
    cases running : isRunning c.rounds with
    | false =>
      rw [handleClient_stopped running,handleClient_stopped (by rw [follows.rounds,running])]
      exact follows.close
    | true =>
      have inStep : Agree (Follows extra (fun l => l = request.bytes ++ requests.flatMap Whole.bytes)) (Client.round network')
          (Client.round network) (fun _ => Follows extra (fun l => l = requests.flatMap Whole.bytes)) := round_agrees request _
      obtain ⟨goes,d,d',follows₁,_,ran,ran'⟩ := handleClient_inStep inStep running (by rw [follows.rounds,running])
        { follows with rounds := congrArg (· + 1) follows.rounds, left := by rw [follows.left,List.flatMap_cons] }
      rw [ran,ran']
      cases goes with
      | false => exact follows₁.close
      | true => exact ih follows₁

/-- Every stream consists of whole requests and the beginning of one. -/
theorem exists_requests (stream : List UInt8) :
    ∃ (requests : List Whole) (rest : List UInt8), stream = requests.flatMap Whole.bytes ++ rest ∧ Partial rest := by
  induction length : stream.length using Nat.strongRecOn generalizing stream with
  | ind n ih =>
    match stream with
    | code :: p₀ :: p₁ :: p₂ :: p₃ :: n₀ :: n₁ :: n₂ :: n₃ :: after =>
      let header : Header := { code, pageId := Bytes.wordOf p₀ p₁ p₂ p₃, dataLen := Bytes.wordOf n₀ n₁ n₂ n₃ }
      have front : code :: p₀ :: p₁ :: p₂ :: p₃ :: n₀ :: n₁ :: n₂ :: n₃ :: after = header.bytes ++ after := by
        simp only [header,Header.bytes,Bytes.bytesOf_wordOf,List.cons_append,List.nil_append]
      rw [front] at length ⊢
      have shorter : after.length < n := by
        rw [← length,List.length_append,header_bytes_length]
        simp [Header.size]
      by_cases write : header.code = WRITE_PAGE
      · by_cases enough : PAGE_SIZE ≤ after.length
        · obtain ⟨requests,rest,split,unfinished⟩ := ih (after.drop PAGE_SIZE).length (by rw [List.length_drop]; omega) _ rfl
          have sized : (after.take PAGE_SIZE).length = if header.code = WRITE_PAGE then PAGE_SIZE else 0 := by
            rw [if_pos write,List.length_take,Nat.min_eq_left enough]
          refine ⟨⟨header,after.take PAGE_SIZE,sized⟩ :: requests,rest,?_,unfinished⟩
          rw [List.flatMap_cons,List.append_assoc,← split,Whole.bytes,List.append_assoc,List.take_append_drop]
        · exact ⟨[],_,rfl,.inr ⟨header,after,rfl,write,Nat.lt_of_not_le enough⟩⟩
      · obtain ⟨requests,rest,split,unfinished⟩ := ih after.length shorter _ rfl
        refine ⟨⟨header,[],by rw [if_neg write]; rfl⟩ :: requests,rest,?_,unfinished⟩
        rw [List.flatMap_cons,List.append_assoc,← split,Whole.bytes,List.append_nil]
    | [] | [_] | [_,_] | [_,_,_] | [_,_,_,_] | [_,_,_,_,_] | [_,_,_,_,_,_] | [_,_,_,_,_,_,_] | [_,_,_,_,_,_,_,_] =>
      exact ⟨[],_,rfl,.inl (by simp [Header.size])⟩

/-- However the network cuts the stream and the responses, `HandleClient` makes the same
    calls of the pool, sends the same bytes and stops at the same point. What follows the
    whole requests of a stream, if it is only the beginning of a request, changes nothing. -/
theorem fragments_are_invisible (network network' : Network) (isRunning : Nat → Bool) (fd : Int) (pool : BufferPoolManager) (stream : List UInt8) :
    let handle (network : Network) (stream : List UInt8) := handleClient network isRunning (.accept fd pool stream)
    (SameWork (handle network stream) (handle network' stream) ∧ (handle network stream).incoming = (handle network' stream).incoming ∧
      (handle network stream).rounds = (handle network' stream).rounds) ∧
    (∃ (requests : List Whole) (rest : List UInt8), stream = requests.flatMap Whole.bytes ++ rest ∧ Partial rest) ∧
    ∀ (requests : List Whole) (rest : List UInt8), stream = requests.flatMap Whole.bytes ++ rest → Partial rest →
      SameWork (handle network stream) (handle network' (requests.flatMap Whole.bytes)) := by
  intro handle
  by_cases closed : fd = INVALID_SOCKET
  · have nothing (network : Network) (stream : List UInt8) : handle network stream =
        { Connection.accept fd pool stream with rounds := if isRunning 0 then 1 else 0 } :=
      handleClient_closed (show (Connection.accept fd pool stream).fd = _ from closed)
    refine ⟨?_,exists_requests stream,fun requests rest split unfinished => ?_⟩
    · rw [nothing network,nothing network']
      exact ⟨⟨rfl,rfl,rfl⟩,rfl,rfl⟩
    · rw [nothing network,nothing network']
      exact ⟨rfl,rfl,rfl⟩
  · refine ⟨handleClient_same (Follows.refl closed trivial),exists_requests stream,fun requests rest split unfinished => ?_⟩
    exact handleClient_partial unfinished requests ⟨closed,rfl,split,rfl,rfl,rfl,rfl,rfl⟩

end

/-! ### The protocol over the sockets -/

/-- What a request leaves of the stream, what it makes of the pool and what it sends. -/
structure Answered (c c₁ : Connection) (rest : List UInt8) (b : BufferPoolManager) (sent : List UInt8) : Prop where
  fd : c₁.fd = c.fd
  incoming : c₁.incoming = rest
  pool : c₁.pool = b
  outgoing : c₁.outgoing = c.outgoing ++ sent
  rounds : c₁.rounds = c.rounds

section
variable {network : Network} {c c₁ : Connection} {header : Header} {rest buffer bytes : List UInt8} {b b' : BufferPoolManager} {request : Request}
variable {response : Response} {done : Exchange} {call : PoolCall}
variable {α : Type} {value : α} {operation : BufferPoolManager → α × BufferPoolManager}

theorem onPool_of (ran : operation c.pool = (value,b)) :
    Client.onPool call operation c = (value,{ c with pool := b, calls := c.calls ++ [call] }) := by
  rw [Client.onPool,ran]

theorem respond_answers (network : Network) (opened : c.fd ≠ INVALID_SOCKET) (plain : response.data = none) :
    ∃ c₁, Client.respond network response c = (true,c₁) ∧ Answered c c₁ c.incoming c.pool (sends response) := by
  obtain ⟨calls,sent⟩ := send_all network opened (ServiceFraming.header response).bytes
  refine ⟨_,sent,rfl,rfl,rfl,?_,rfl⟩
  rw [sends,plain,Option.map_none,Option.getD_none,List.append_nil]

theorem refuse_answers (network : Network) (opened : c.fd ≠ INVALID_SOCKET) (pageId : PageId) :
    ∃ c₁, Client.refuse network pageId c = (true,c₁) ∧ Answered c c₁ c.incoming c.pool (sends (.error pageId)) := by
  obtain ⟨c₁,responded,answered⟩ := respond_answers network opened (show (Response.error pageId).data = none from rfl)
  exact ⟨c₁,bind_of responded,answered⟩

theorem readPage_answers (network : Network) (opened : c.fd ≠ INVALID_SOCKET) (pageId : PageId)
    (served : serve (fun _ b => b) c.pool (.readPage pageId) = (.answering request response,b')) :
    ∃ c₁, Client.readPage network pageId c = (true,c₁) ∧ Answered c c₁ c.incoming b' (sends response) := by
  rcases fetched : c.pool.fetchPage pageId with ⟨result,b₁⟩
  let c₁ : Connection := { c with pool := b₁, calls := c.calls ++ [.fetchPage pageId] }
  have fetches : Client.fetchPage pageId c = (result,c₁) := onPool_of fetched
  rcases result with e | _ | page
  case ok.some =>
    simp only [serve,Handler.advance,fetched] at served
    cases served
    let response := { Response.ok pageId with data := some (b₁.pages page).data }
    obtain ⟨calls₂,first⟩ := send_all network (show c₁.fd ≠ INVALID_SOCKET from opened) (ServiceFraming.header response).bytes
    let c₂ : Connection := { c₁ with outgoing := c₁.outgoing ++ (ServiceFraming.header response).bytes, sendCalls := calls₂ }
    obtain ⟨calls₃,second⟩ := send_all network (show c₂.fd ≠ INVALID_SOCKET from opened) (payload (b₁.pages page).data)
    have reads : Client.getData page c₁ = ((b₁.pages page).data,c₁) := rfl
    have responds : Client.respond network response c₁ = (true,c₂) := first
    refine ⟨_,(bind_of fetches).trans ((bind_of reads).trans ((bind_of responds).trans ((bind_of second).trans rfl))),rfl,rfl,rfl,?_,rfl⟩
    rw [sends,Option.map_some,Option.getD_some]
    exact List.append_assoc ..
  -- an exception and a null pointer are refused alike
  all_goals
    simp only [serve,Handler.advance,fetched] at served
    cases served
    obtain ⟨c₂,refused,answered⟩ := refuse_answers network (show c₁.fd ≠ INVALID_SOCKET from opened) pageId
    exact ⟨c₂,(bind_of fetches).trans refused,{ answered with }⟩

theorem writePage_answers (network : Network) (opened : c.fd ≠ INVALID_SOCKET) (pageId : PageId)
    (received : ServiceFraming.recv PAGE_SIZE c.incoming = some (buffer,rest))
    (served : serve (fun _ b => b) c.pool (.writePage pageId (pageOf buffer)) = (.answering request response,b')) :
    ∃ c₁, Client.writePage network pageId c = (true,c₁) ∧ Answered c c₁ rest b' (sends response) := by
  obtain ⟨length,coming⟩ := recv_length received
  obtain ⟨calls,receives⟩ := recv_whole network opened coming length
  rcases fetched : c.pool.fetchPage pageId with ⟨result,b₁⟩
  let c₁ : Connection := { c with incoming := rest, recvCalls := calls, pool := b₁, calls := c.calls ++ [.fetchPage pageId] }
  have fetches : Client.fetchPage pageId { c with incoming := rest, recvCalls := calls } = (result,c₁) := onPool_of fetched
  rcases result with e | _ | page
  case ok.some =>
    simp only [serve,Handler.advance,fetched] at served
    cases served
    let b₂ := b₁.write page (pageOf buffer)
    let c₂ : Connection := { c₁ with pool := b₂, calls := c₁.calls ++ [.memcpy page (pageOf buffer)] }
    let c₃ : Connection := { c₂ with pool := (b₂.unpinPage pageId true).2, calls := c₂.calls ++ [.unpinPage pageId true] }
    have copies : Client.memcpy page (pageOf buffer) c₁ = ((),c₂) := rfl
    have unpins : Client.unpinPage pageId true c₂ = ((b₂.unpinPage pageId true).1,c₃) := rfl
    obtain ⟨c₄,responds,answered⟩ := respond_answers network (show c₃.fd ≠ INVALID_SOCKET from opened)
      (show (Response.ok pageId).data = none from rfl)
    exact ⟨c₄,(bind_of receives).trans ((bind_of fetches).trans ((bind_of copies).trans ((bind_of unpins).trans responds))),{ answered with }⟩
  all_goals
    simp only [serve,Handler.advance,fetched] at served
    cases served
    obtain ⟨c₂,refused,answered⟩ := refuse_answers network (show c₁.fd ≠ INVALID_SOCKET from opened) pageId
    exact ⟨c₂,(bind_of receives).trans ((bind_of fetches).trans refused),{ answered with }⟩

theorem allocatePage_answers (network : Network) (opened : c.fd ≠ INVALID_SOCKET)
    (served : serve (fun _ b => b) c.pool .allocatePage = (.answering request response,b')) :
    ∃ c₁, Client.allocatePage network c = (true,c₁) ∧ Answered c c₁ c.incoming b' (sends response) := by
  rcases allocated : c.pool.newPage with ⟨result,b₁⟩
  let c₁ : Connection := { c with pool := b₁, calls := c.calls ++ [.newPage] }
  have allocates : Client.newPage c = (result,c₁) := onPool_of allocated
  rcases result with e | _ | ⟨newPageId,page⟩
  case ok.some =>
    simp only [serve,Handler.advance,allocated] at served
    cases served
    let c₂ : Connection := { c₁ with pool := (b₁.unpinPage newPageId true).2, calls := c₁.calls ++ [.unpinPage newPageId true] }
    have unpins : Client.unpinPage newPageId true c₁ = ((b₁.unpinPage newPageId true).1,c₂) := rfl
    obtain ⟨c₃,responds,answered⟩ := respond_answers network (show c₂.fd ≠ INVALID_SOCKET from opened)
      (show (Response.ok newPageId).data = none from rfl)
    exact ⟨c₃,(bind_of allocates).trans ((bind_of unpins).trans responds),{ answered with }⟩
  all_goals
    simp only [serve,Handler.advance,allocated] at served
    cases served
    obtain ⟨c₂,refused,answered⟩ := refuse_answers network (show c₁.fd ≠ INVALID_SOCKET from opened) INVALID_PAGE_ID
    exact ⟨c₂,(bind_of allocates).trans refused,{ answered with }⟩

theorem deallocatePage_answers (network : Network) (opened : c.fd ≠ INVALID_SOCKET) (pageId : PageId)
    (served : serve (fun _ b => b) c.pool (.deallocatePage pageId) = (.answering request response,b')) :
    ∃ c₁, Client.deallocatePage network pageId c = (true,c₁) ∧ Answered c c₁ c.incoming b' (sends response) := by
  rcases deleted : c.pool.deletePage pageId with ⟨success,b₁⟩
  let c₁ : Connection := { c with pool := b₁, calls := c.calls ++ [.deletePage pageId] }
  have deletes : Client.deletePage pageId c = (success,c₁) := onPool_of deleted
  cases success with
  | false =>
    simp only [serve,Handler.advance,deleted] at served
    cases served
    obtain ⟨c₂,refused,answered⟩ := refuse_answers network (show c₁.fd ≠ INVALID_SOCKET from opened) pageId
    exact ⟨c₂,(bind_of deletes).trans refused,{ answered with }⟩
  | true =>
    simp only [serve,Handler.advance,deleted] at served
    cases served
    obtain ⟨c₂,responds,answered⟩ := respond_answers network (show c₁.fd ≠ INVALID_SOCKET from opened)
      (show (Response.ok pageId).data = none from rfl)
    exact ⟨c₂,(bind_of deletes).trans responds,{ answered with }⟩

/-- Every operation is served as in the protocol. -/
theorem dispatch_answers (network : Network) (opened : c.fd ≠ INVALID_SOCKET) (received : receive header c.incoming = some (request,buffer,rest))
    (served : serve (fun _ b => b) c.pool request = (.answering request response,b')) :
    ∃ c₁, Client.dispatch network header c = (true,c₁) ∧ Answered c c₁ rest b' (sends response) := by
  rw [Client.dispatch]
  rw [receive] at received
  split_ifs at received ⊢
  · cases received
    exact readPage_answers network opened _ served
  · obtain ⟨⟨page,after⟩,found,same⟩ := Option.map_eq_some_iff.mp received
    cases same
    exact writePage_answers network opened _ found served
  · cases received
    exact allocatePage_answers network opened served
  · cases received
    exact deallocatePage_answers network opened _ served
  · cases received
    simp only [serve,Handler.advance] at served
    cases served
    exact refuse_answers network opened _

/-- A round does what the protocol does in one. -/
theorem round_answers (network : Network) (opened : c.fd ≠ INVALID_SOCKET)
    (exchanged : exchange (fun _ b => b) c.pool c.incoming = some (done,b',rest)) :
    ∃ c₁, Client.round network c = (true,c₁) ∧ Answered c c₁ rest b' done.sent := by
  rw [exchange] at exchanged
  rcases first : ServiceFraming.recv Header.size c.incoming with _ | ⟨bytes,after⟩
  · simp [first] at exchanged
  · obtain ⟨length,coming⟩ := recv_length first
    obtain ⟨calls,receives⟩ := recv_whole network opened coming length
    cases parsed : Header.parse bytes with
    | none => simp [first,parsed] at exchanged
    | some header =>
      rcases received : receive header after with _ | ⟨request,buffer,rest'⟩
      · simp [first,parsed,received] at exchanged
      · obtain ⟨response,b₁,served⟩ := serve_answers (fun _ b => b) c.pool request
        simp only [first,parsed,received,served] at exchanged
        cases exchanged
        let c₁ : Connection := { c with incoming := after, recvCalls := calls }
        obtain ⟨c₂,dispatched,answered⟩ := dispatch_answers network (show c₁.fd ≠ INVALID_SOCKET from opened) received served
        refine ⟨c₂,(bind_of receives).trans ?_,{ answered with }⟩
        simp only [parsed]
        exact dispatched

/-- The protocol waits where only the beginning of a request has arrived. -/
theorem partial_of_waits {others : Others} {stream : List UInt8} (waits : exchange others b stream = none) : Partial stream := by
  obtain ⟨requests,rest,split,unfinished⟩ := exists_requests stream
  cases requests with
  | nil => rwa [split]
  | cons request requests =>
    have whole : stream = request.header.bytes ++ (request.payload ++ (requests.flatMap Whole.bytes ++ rest)) := by
      rw [split,List.flatMap_cons,Whole.bytes,List.append_assoc,List.append_assoc]
    have sized := request.sized
    obtain ⟨asked,taken,left,received⟩ : ∃ asked taken left,
        receive request.header (request.payload ++ (requests.flatMap Whole.bytes ++ rest)) = some (asked,taken,left) := by
      by_cases write : request.header.code = WRITE_PAGE
      · rw [if_pos write] at sized
        rw [receive_write write,recv_append sized]
        exact ⟨_,_,_,rfl⟩
      · obtain ⟨asked,received⟩ := receive_header write (request.payload ++ (requests.flatMap Whole.bytes ++ rest))
        exact ⟨asked,_,_,received⟩
    obtain ⟨done,b₁,exchanged,_⟩ := exchange_request others b received
    rw [whole,exchanged] at waits
    cases waits

/-- The bytes sent are the responses of the protocol. -/
theorem handleClient_answers (network : Network) (opened : c.fd ≠ INVALID_SOCKET) (round : Nat) :
    (handleClient network (fun _ => true) c).outgoing =
      c.outgoing ++ (ServiceFraming.handleClient (fun _ _ b => b) round c.pool c.incoming).flatMap Exchange.sent := by
  induction length : c.incoming.length using Nat.strongRecOn generalizing c round with
  | ind n ih =>
    let c₁ : Connection := { c with rounds := c.rounds + 1 }
    rcases exchanged : exchange (fun _ b => b) c.pool c.incoming with _ | ⟨done,b',rest⟩
    · obtain ⟨c₂,served,work⟩ := round_partial network (show Partial c₁.incoming from partial_of_waits exchanged)
      rw [handleClient_round rfl served,handleClient_waits exchanged,List.flatMap_nil,List.append_nil]
      exact work.outgoing
    · obtain ⟨c₂,served,answered⟩ := round_answers network (show c₁.fd ≠ INVALID_SOCKET from opened) exchanged
      have shorter : rest.length < n := length ▸ exchange_shorter exchanged
      rw [handleClient_round rfl served,ServiceFraming.handleClient_round exchanged,List.flatMap_cons,← List.append_assoc]
      have later := ih rest.length shorter (c := c₂) (by rw [answered.fd]; exact opened) (round + 1) (by rw [answered.incoming])
      rw [answered.incoming,answered.pool,answered.outgoing] at later
      exact later

end
end Aether.ServiceSockets
