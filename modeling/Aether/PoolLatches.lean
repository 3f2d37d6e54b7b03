import Aether.BufferPool
import Aether.Monitors

/-!
The latches of the storage engine. Here the methods of `BufferPoolManager`, and those of
the replacer and of `DiskManager` that they call, are written step by step, with the
scopes of their `LockGuard`s. Between any two steps other threads may run, and still every
method is as one step, which is how `BufferPool` has it, and no call waits forever.
-/
namespace Aether.PoolLatches
open Aether.Bytes Aether.Types Aether.DiskManager Aether.Replacers Aether.BufferPool Aether.Latches Aether.Latches.Code Aether.Monitors

inductive Lock
  /-- `latch_` of `BufferPoolManager`. -/
  | latch
  /-- `latch_` of the replacer. -/
  | replacerLatch
  | dbIoLck
  /-- `GetLogMutex`. -/
  | logMutex
  deriving DecidableEq

abbrev PoolCode (α : Type) := Code Lock BufferPoolManager α

/-- A line is written to the log. -/
def log : PoolCode Unit := guarded .logMutex (pure ())

/-! ### The replacer -/

def victim : PoolCode (Option FrameId) :=
  guarded .replacerLatch (.act (fun b => (b.replacer.victim.1,{ b with replacer := b.replacer.victim.2 })) .ret)

def pin (frameId : FrameId) : PoolCode Unit :=
  guarded .replacerLatch (modify (fun b => { b with replacer := b.replacer.pin frameId }))

def unpin (frameId : FrameId) : PoolCode Unit :=
  guarded .replacerLatch (modify (fun b => { b with replacer := b.replacer.unpin frameId }))

/-! ### `DiskManager` -/

def onDisk (f : DiskManager → DiskManager) : PoolCode Unit := modify (fun b => { b with disk := f b.disk })

def readPage (pageId : PageId) : PoolCode (Except Error PageData) := guarded .dbIoLck do
  if (← get (fun b => b.disk.numPages)) ≤ pageId then
    log
    pure (.error .outOfRange)
  else
    match ← get (fun b => b.disk.dbIo.read pageId) with
    | some data => pure (.ok data)
    | none =>
      log
      pure (.ok (Block.zeros _))

def writePage (pageId : PageId) (data : PageData) : PoolCode (Except Error Unit) := guarded .dbIoLck do
  if (← get (fun b => b.disk.numPages)) ≤ pageId then
    log
    pure (.error .outOfRange)
  else
    onDisk (fun d => { d with dbIo := d.dbIo.write pageId data })
    pure (.ok ())

def allocatePage : PoolCode (Except Error PageId) := guarded .dbIoLck do
  let head ← get (fun b => b.disk.freeListHead)
  if head ≠ INVALID_PAGE_ID then
    match ← get (fun b => b.disk.dbIo.read head) with
    | none =>
      log
      pure (.error .corruptedFreeList)
    | some data =>
      onDisk (fun d => { d with freeListHead := data.get32 0 })
      onDisk DiskManager.writeMetadata
      log
      pure (.ok head)
  else
    let allocated ← get (fun b => b.disk.numPages)
    onDisk (fun d => { d with numPages := d.numPages + 1 })
    onDisk DiskManager.writeMetadata
    onDisk (fun d => { d with dbIo := d.dbIo.write allocated (Block.zeros _) })
    log
    pure (.ok allocated)

def deallocatePage (pageId : PageId) : PoolCode Unit := guarded .dbIoLck do
  if (← get (fun b => b.disk.numPages)) ≤ pageId ∨ pageId = 0 then log
  else
    let head ← get (fun b => b.disk.freeListHead)
    onDisk (fun d => { d with dbIo := d.dbIo.write pageId ((Block.zeros _).put32 0 head) })
    onDisk (fun d => { d with freeListHead := pageId })
    onDisk DiskManager.writeMetadata
    log

/-! ### `BufferPoolManager` -/

def onPage (frameId : FrameId) (f : Page → Page) : PoolCode Unit := modify (fun b => b.setPage frameId (f (b.pages frameId)))

def setTable (pageId : PageId) (frameId : Option FrameId) : PoolCode Unit :=
  modify (fun b => { b with pageTable := Function.update b.pageTable pageId frameId })

/-- The part that `FetchPage` and `NewPage` have in common. -/
def selectFrame : PoolCode (Except Error (Option FrameId)) := do
  match ← get (fun b => b.freeList) with
  | frameId :: _ =>
    modify (fun b => { b with freeList := b.freeList.tail })
    log
    pure (.ok (some frameId))
  | [] =>
    match ← victim with
    | none =>
      log
      pure (.ok none)
    | some frameId =>
      let page ← get (fun b => b.pages frameId)
      log
      if page.isDirty then
        match ← writePage page.pageId page.data with
        | .error e => pure (.error e)
        | .ok () =>
          onPage frameId (fun page => { page with isDirty := false })
          log
          setTable page.pageId none
          pure (.ok (some frameId))
      else
        setTable page.pageId none
        pure (.ok (some frameId))

def fetchPage (pageId : PageId) : PoolCode (Except Error (Option FrameId)) := do
  if pageId = INVALID_PAGE_ID then pure (.ok none)
  else
    match ← get (fun b => b.pageTable pageId) with
    | some frameId =>
      onPage frameId (fun page => { page with pinCount := page.pinCount + 1 })
      pin frameId
      log
      pure (.ok (some frameId))
    | none =>
      match ← selectFrame with
      | .error e => pure (.error e)
      | .ok none => pure (.ok none)
      | .ok (some frameId) =>
        onPage frameId (fun _ => Page.reset)
        onPage frameId (fun page => { page with pageId })
        onPage frameId (fun page => { page with pinCount := 1 })
        match ← readPage pageId with
        | .error e => pure (.error e)
        | .ok data =>
          onPage frameId (fun page => { page with data })
          setTable pageId (some frameId)
          pin frameId
          pure (.ok (some frameId))

def unpinPage (pageId : PageId) (isDirty : Bool) : PoolCode Bool := do
  match ← get (fun b => b.pageTable pageId) with
  | none => pure false
  | some frameId =>
    if (← get (fun b => (b.pages frameId).pinCount)) ≤ 0 then pure false
    else
      onPage frameId (fun page => { page with isDirty := isDirty || page.isDirty })
      onPage frameId (fun page => { page with pinCount := page.pinCount - 1 })
      if (← get (fun b => (b.pages frameId).pinCount)) = 0 then
        unpin frameId
        log
        pure true
      else pure true

/-- A frame is written to disk if it is dirty. -/
def flushFrame (frameId : FrameId) : PoolCode (Except Error Unit) := do
  let page ← get (fun b => b.pages frameId)
  if page.isDirty then
    match ← writePage page.pageId page.data with
    | .error e => pure (.error e)
    | .ok () =>
      onPage frameId (fun page => { page with isDirty := false })
      log
      pure (.ok ())
  else pure (.ok ())

def flushPage (pageId : PageId) : PoolCode (Except Error Bool) := do
  match ← get (fun b => b.pageTable pageId) with
  | none => pure (.ok false)
  | some frameId =>
    match ← flushFrame frameId with
    | .error e => pure (.error e)
    | .ok () => pure (.ok true)

def newPage : PoolCode (Except Error (Option (PageId × FrameId))) := do
  match ← selectFrame with
  | .error e => pure (.error e)
  | .ok none => pure (.ok none)
  | .ok (some frameId) =>
    match ← allocatePage with
    | .error e => pure (.error e)
    | .ok pageId =>
      log
      onPage frameId (fun _ => Page.reset)
      onPage frameId (fun page => { page with pageId })
      onPage frameId (fun page => { page with pinCount := 1 })
      setTable pageId (some frameId)
      pin frameId
      pure (.ok (some (pageId,frameId)))

def deletePage (pageId : PageId) : PoolCode Bool := do
  match ← get (fun b => b.pageTable pageId) with
  | none =>
    deallocatePage pageId
    log
    pure true
  | some frameId =>
    if 0 < (← get (fun b => (b.pages frameId).pinCount)) then
      log
      pure false
    else
      pin frameId
      setTable pageId none
      onPage frameId (fun _ => Page.reset)
      modify (fun b => { b with freeList := b.freeList ++ [frameId] })
      deallocatePage pageId
      log
      pure true

/-- The iteration over `page_table_`, in some order. -/
def flushPages : List PageId → PoolCode (Except Error Unit)
  | [] => pure (.ok ())
  | pageId :: rest => do
    match ← get (fun b => b.pageTable pageId) with
    | none => flushPages rest
    | some frameId =>
      match ← flushFrame frameId with
      | .error e => pure (.error e)
      | .ok () => flushPages rest

def flushAllPages (order : List PageId) : PoolCode (Except Error Unit) := do
  log
  flushPages order

def getPinCount (pageId : PageId) : PoolCode Int := do
  match ← get (fun b => b.pageTable pageId) with
  | none => pure (-1)
  | some frameId => get (fun b => (b.pages frameId).pinCount)

def isCached (pageId : PageId) : PoolCode Bool := get (fun b => (b.pageTable pageId).isSome)

/-! ### What the code does when no other thread runs -/

section
variable {b : BufferPoolManager} {pageId : PageId} {frameId : FrameId} {data : PageData} {isDirty : Bool}

@[simp] theorem run_log : log.run b = ((),b) := rfl
@[simp] theorem run_victim : victim.run b = (b.replacer.victim.1,{ b with replacer := b.replacer.victim.2 }) := rfl
@[simp] theorem run_pin : (pin frameId).run b = ((),{ b with replacer := b.replacer.pin frameId }) := rfl
@[simp] theorem run_unpin : (unpin frameId).run b = ((),{ b with replacer := b.replacer.unpin frameId }) := rfl
@[simp] theorem run_onDisk (f : DiskManager → DiskManager) : (onDisk f).run b = ((),{ b with disk := f b.disk }) := rfl
@[simp] theorem run_onPage (f : Page → Page) : (onPage frameId f).run b = ((),b.setPage frameId (f (b.pages frameId))) := rfl
@[simp] theorem run_setTable (found : Option FrameId) :
    (setTable pageId found).run b = ((),{ b with pageTable := Function.update b.pageTable pageId found }) := rfl

@[simp] theorem run_readPage : (readPage pageId).run b = (b.disk.readPage pageId,b) := by
  by_cases low : b.disk.numPages ≤ pageId
  · simp [readPage,DiskManager.readPage,low]
  · cases found : b.disk.dbIo.read pageId <;> simp [readPage,DiskManager.readPage,low,found]

theorem run_writePage : (writePage pageId data).run b = match b.disk.writePage pageId data with
    | .error e => (.error e,b)
    | .ok disk => (.ok (),{ b with disk }) := by
  by_cases low : b.disk.numPages ≤ pageId <;> simp [writePage,DiskManager.writePage,low]

theorem run_allocatePage : allocatePage.run b = match b.disk.allocatePage with
    | .error e => (.error e,b)
    | .ok (pageId,disk) => (.ok pageId,{ b with disk }) := by
  by_cases head : b.disk.freeListHead = INVALID_PAGE_ID
  · simp [allocatePage,DiskManager.allocatePage,head]
  · cases found : b.disk.dbIo.read b.disk.freeListHead <;> simp [allocatePage,DiskManager.allocatePage,head,found]

@[simp] theorem run_deallocatePage : (deallocatePage pageId).run b = ((),{ b with disk := b.disk.deallocatePage pageId }) := by
  by_cases outside : b.disk.numPages ≤ pageId ∨ pageId = 0 <;> simp [deallocatePage,DiskManager.deallocatePage,outside]

@[simp] theorem setPage_setPage (page page' : Page) : (b.setPage frameId page).setPage frameId page' = b.setPage frameId page' := by
  simp [BufferPoolManager.setPage]

@[simp] theorem pages_setPage (page : Page) : (b.setPage frameId page).pages frameId = page := Function.update_self ..

@[simp] theorem disk_setPage (page : Page) : (b.setPage frameId page).disk = b.disk := rfl
@[simp] theorem replacer_setPage (page : Page) : (b.setPage frameId page).replacer = b.replacer := rfl
@[simp] theorem pageTable_setPage (page : Page) : (b.setPage frameId page).pageTable = b.pageTable := rfl

theorem run_selectFrame : selectFrame.run b = b.selectFrame := by
  cases free : b.freeList with
  | cons frameId rest => simp [selectFrame,BufferPoolManager.selectFrame,free]
  | nil =>
    rcases found : b.replacer.victim with ⟨_ | frameId,replacer⟩
    · simp [selectFrame,BufferPoolManager.selectFrame,free,found]
    · by_cases dirty : (b.pages frameId).isDirty
      · cases written : b.disk.writePage (b.pages frameId).pageId (b.pages frameId).data <;>
          simp [selectFrame,BufferPoolManager.selectFrame,BufferPoolManager.setPage,free,found,dirty,run_writePage,written]
      · simp [selectFrame,BufferPoolManager.selectFrame,free,found,dirty]

theorem run_fetchPage : (fetchPage pageId).run b = b.fetchPage pageId := by
  by_cases invalid : pageId = INVALID_PAGE_ID
  · simp [fetchPage,BufferPoolManager.fetchPage,invalid]
  · cases here : b.pageTable pageId with
    | some frameId => simp [fetchPage,BufferPoolManager.fetchPage,invalid,here]
    | none =>
      rcases selected : b.selectFrame with ⟨_ | (_ | frameId),b'⟩
      · simp [fetchPage,BufferPoolManager.fetchPage,invalid,here,run_selectFrame,selected]
      · simp [fetchPage,BufferPoolManager.fetchPage,invalid,here,run_selectFrame,selected]
      · cases read : b'.disk.readPage pageId <;>
          simp [fetchPage,BufferPoolManager.fetchPage,invalid,here,run_selectFrame,selected,read]

theorem run_unpinPage : (unpinPage pageId isDirty).run b = b.unpinPage pageId isDirty := by
  cases here : b.pageTable pageId with
  | none => simp [unpinPage,BufferPoolManager.unpinPage,here]
  | some frameId =>
    by_cases free : (b.pages frameId).pinCount ≤ 0
    · simp [unpinPage,BufferPoolManager.unpinPage,here,free]
    · by_cases last : (b.pages frameId).pinCount - 1 = 0 <;>
        simp [unpinPage,BufferPoolManager.unpinPage,here,free,last]

theorem run_flushFrame : (flushFrame frameId).run b = b.flushFrame frameId := by
  by_cases dirty : (b.pages frameId).isDirty
  · cases written : b.disk.writePage (b.pages frameId).pageId (b.pages frameId).data <;>
      simp [flushFrame,BufferPoolManager.flushFrame,BufferPoolManager.setPage,dirty,run_writePage,written]
  · simp [flushFrame,BufferPoolManager.flushFrame,dirty]

theorem run_flushPage : (flushPage pageId).run b = b.flushPage pageId := by
  cases here : b.pageTable pageId with
  | none => simp [flushPage,BufferPoolManager.flushPage,here]
  | some frameId =>
    rcases flushed : b.flushFrame frameId with ⟨_ | _,b'⟩ <;>
      simp [flushPage,BufferPoolManager.flushPage,here,run_flushFrame,flushed]

theorem run_newPage : newPage.run b = b.newPage := by
  rcases selected : b.selectFrame with ⟨_ | (_ | frameId),b'⟩
  · simp [newPage,BufferPoolManager.newPage,run_selectFrame,selected]
  · simp [newPage,BufferPoolManager.newPage,run_selectFrame,selected]
  · rcases allocated : b'.disk.allocatePage with _ | ⟨pageId,disk⟩ <;>
      simp [newPage,BufferPoolManager.newPage,BufferPoolManager.setPage,run_selectFrame,selected,run_allocatePage,allocated]

theorem run_deletePage : (deletePage pageId).run b = b.deletePage pageId := by
  cases here : b.pageTable pageId with
  | none => simp [deletePage,BufferPoolManager.deletePage,here]
  | some frameId =>
    by_cases pinned : 0 < (b.pages frameId).pinCount
    · simp [deletePage,BufferPoolManager.deletePage,here,pinned]
    · simp [deletePage,BufferPoolManager.deletePage,BufferPoolManager.setPage,here,pinned]

theorem run_flushPages : ∀ (order : List PageId) (b : BufferPoolManager), (flushPages order).run b = b.flushAllPages order
  | [], b => rfl
  | pageId :: rest, b => by
    cases here : b.pageTable pageId with
    | none => simp [flushPages,BufferPoolManager.flushAllPages,here,run_flushPages rest]
    | some frameId =>
      rcases flushed : b.flushFrame frameId with ⟨_ | _,b'⟩ <;>
        simp [flushPages,BufferPoolManager.flushAllPages,here,run_flushFrame,flushed,run_flushPages rest]

/-! ### The order of the latches -/

/-- A latch is taken only by threads that hold none but those above it. -/
def rank : Lock → Nat
  | .latch => 0
  | .replacerLatch => 1
  | .dbIoLck => 1
  | .logMutex => 2

variable {A : Type} {least : Nat}

theorem nested_pure (value : A) : (pure value : PoolCode A).Nested rank least [] := rfl
theorem nested_get (f : BufferPoolManager → A) : (get f : PoolCode A).Nested rank least [] := fun _ => rfl
theorem nested_modify (f : BufferPoolManager → BufferPoolManager) : (modify f : PoolCode Unit).Nested rank least [] := fun _ => rfl

theorem nested_log (low : least ≤ 2) : log.Nested rank least [] := nested_guarded low (nested_pure ())

theorem nested_victim (low : least ≤ 1) : victim.Nested rank least [] := nested_guarded low (fun _ => rfl)
theorem nested_pin (low : least ≤ 1) : (pin frameId).Nested rank least [] := nested_guarded low (nested_modify _)
theorem nested_unpin (low : least ≤ 1) : (unpin frameId).Nested rank least [] := nested_guarded low (nested_modify _)

/-- A line in the log, and then the rest. -/
theorem nested_logged {rest : PoolCode A} (low : least ≤ 2) (nested : rest.Nested rank least []) :
    (log >>= fun _ => rest).Nested rank least [] := nested_then (nested_log low) (fun _ => nested)

/-- A change of the pool, and then the rest. -/
theorem nested_modified {f : BufferPoolManager → BufferPoolManager} {rest : PoolCode A} (nested : rest.Nested rank least []) :
    ((modify f : PoolCode Unit) >>= fun _ => rest).Nested rank least [] := nested_then (nested_modify f) (fun _ => nested)

theorem nested_readPage (low : least ≤ 1) : (readPage pageId).Nested rank least [] := by
  refine nested_guarded low (nested_then (nested_get _) (fun numPages => ?_))
  split
  · exact nested_logged (le_refl 2) (nested_pure _)
  · refine nested_then (nested_get _) (fun found => ?_)
    cases found with
    | some data => exact nested_pure _
    | none => exact nested_logged (le_refl 2) (nested_pure _)

theorem nested_writePage (low : least ≤ 1) : (writePage pageId data).Nested rank least [] := by
  refine nested_guarded low (nested_then (nested_get _) (fun numPages => ?_))
  split
  · exact nested_logged (le_refl 2) (nested_pure _)
  · exact nested_modified (nested_pure _)

theorem nested_allocatePage (low : least ≤ 1) : allocatePage.Nested rank least [] := by
  refine nested_guarded low (nested_then (nested_get _) (fun head => ?_))
  split
  · refine nested_then (nested_get _) (fun found => ?_)
    cases found with
    | none => exact nested_logged (le_refl 2) (nested_pure _)
    | some data => exact nested_modified (nested_modified (nested_logged (le_refl 2) (nested_pure _)))
  · refine nested_then (nested_get _) (fun allocated => ?_)
    exact nested_modified (nested_modified (nested_modified (nested_logged (le_refl 2) (nested_pure _))))

theorem nested_deallocatePage (low : least ≤ 1) : (deallocatePage pageId).Nested rank least [] := by
  refine nested_guarded low (nested_then (nested_get _) (fun numPages => ?_))
  split
  · exact nested_log (le_refl 2)
  · refine nested_then (nested_get _) (fun head => ?_)
    exact nested_modified (nested_modified (nested_modified (nested_log (le_refl 2))))

theorem nested_selectFrame : selectFrame.Nested rank 1 [] := by
  refine nested_then (nested_get _) (fun freeList => ?_)
  cases freeList with
  | cons frameId rest => exact nested_modified (nested_logged (by decide) (nested_pure _))
  | nil =>
    refine nested_then (nested_victim (le_refl 1)) (fun found => ?_)
    cases found with
    | none => exact nested_logged (by decide) (nested_pure _)
    | some frameId =>
      refine nested_then (nested_get _) (fun page => nested_logged (by decide) ?_)
      split
      · refine nested_then (nested_writePage (le_refl 1)) (fun written => ?_)
        cases written with
        | error e => exact nested_pure _
        | ok _ => exact nested_modified (nested_logged (by decide) (nested_modified (nested_pure _)))
      · exact nested_modified (nested_pure _)

theorem nested_fetchPage : (fetchPage pageId).Nested rank 1 [] := by
  rw [fetchPage]
  split
  · exact nested_pure _
  · refine nested_then (nested_get _) (fun found => ?_)
    cases found with
    | some frameId =>
      exact nested_modified (nested_then (nested_pin (le_refl 1)) (fun _ => nested_logged (by decide) (nested_pure _)))
    | none =>
      refine nested_then nested_selectFrame (fun selected => ?_)
      rcases selected with e | (_ | frameId)
      · exact nested_pure _
      · exact nested_pure _
      · refine nested_modified (nested_modified (nested_modified (nested_then (nested_readPage (le_refl 1)) (fun read => ?_))))
        cases read with
        | error e => exact nested_pure _
        | ok data => exact nested_modified (nested_modified (nested_then (nested_pin (le_refl 1)) (fun _ => nested_pure _)))

theorem nested_unpinPage : (unpinPage pageId isDirty).Nested rank 1 [] := by
  refine nested_then (nested_get _) (fun found => ?_)
  cases found with
  | none => exact nested_pure _
  | some frameId =>
    refine nested_then (nested_get _) (fun count => ?_)
    split
    · exact nested_pure _
    · refine nested_modified (nested_modified (nested_then (nested_get _) (fun count => ?_)))
      split
      · exact nested_then (nested_unpin (le_refl 1)) (fun _ => nested_logged (by decide) (nested_pure _))
      · exact nested_pure _

theorem nested_flushFrame : (flushFrame frameId).Nested rank 1 [] := by
  refine nested_then (nested_get _) (fun page => ?_)
  split
  · refine nested_then (nested_writePage (le_refl 1)) (fun written => ?_)
    cases written with
    | error e => exact nested_pure _
    | ok _ => exact nested_modified (nested_logged (by decide) (nested_pure _))
  · exact nested_pure _

theorem nested_flushPage : (flushPage pageId).Nested rank 1 [] := by
  refine nested_then (nested_get _) (fun found => ?_)
  cases found with
  | none => exact nested_pure _
  | some frameId =>
    refine nested_then nested_flushFrame (fun flushed => ?_)
    cases flushed <;> exact nested_pure _

theorem nested_newPage : newPage.Nested rank 1 [] := by
  refine nested_then nested_selectFrame (fun selected => ?_)
  rcases selected with e | (_ | frameId)
  · exact nested_pure _
  · exact nested_pure _
  · refine nested_then (nested_allocatePage (le_refl 1)) (fun allocated => ?_)
    cases allocated with
    | error e => exact nested_pure _
    | ok pageId =>
      refine nested_logged (by decide) (nested_modified (nested_modified (nested_modified (nested_modified ?_))))
      exact nested_then (nested_pin (le_refl 1)) (fun _ => nested_pure _)

theorem nested_deletePage : (deletePage pageId).Nested rank 1 [] := by
  refine nested_then (nested_get _) (fun found => ?_)
  cases found with
  | none => exact nested_then (nested_deallocatePage (le_refl 1)) (fun _ => nested_logged (by decide) (nested_pure _))
  | some frameId =>
    refine nested_then (nested_get _) (fun count => ?_)
    split
    · exact nested_logged (by decide) (nested_pure _)
    · refine nested_then (nested_pin (le_refl 1)) (fun _ => nested_modified (nested_modified (nested_modified ?_)))
      exact nested_then (nested_deallocatePage (le_refl 1)) (fun _ => nested_logged (by decide) (nested_pure _))

theorem nested_flushPages : ∀ order, (flushPages order).Nested rank 1 []
  | [] => nested_pure _
  | pageId :: rest => by
    refine nested_then (nested_get _) (fun found => ?_)
    cases found with
    | none => exact nested_flushPages rest
    | some frameId =>
      refine nested_then nested_flushFrame (fun flushed => ?_)
      cases flushed with
      | error e => exact nested_pure _
      | ok _ => exact nested_flushPages rest

theorem nested_getPinCount : (getPinCount pageId).Nested rank 1 [] := by
  refine nested_then (nested_get _) (fun found => ?_)
  cases found with
  | none => exact nested_pure _
  | some frameId => exact nested_get _

/-! ### The methods -/

/-- The public methods. -/
inductive Call
  | fetchPage (pageId : PageId)
  | unpinPage (pageId : PageId) (isDirty : Bool)
  | flushPage (pageId : PageId)
  | newPage
  | deletePage (pageId : PageId)
  | flushAllPages (order : List PageId)
  | getPinCount (pageId : PageId)
  | isCached (pageId : PageId)

/-- What they return or throw. -/
inductive Answer
  | fetched (result : Except Error (Option FrameId))
  | unpinned (result : Bool)
  | flushed (result : Except Error Bool)
  | created (result : Except Error (Option (PageId × FrameId)))
  | deleted (result : Bool)
  | flushedAll (result : Except Error Unit)
  | pinCount (result : Int)
  | cached (result : Bool)

/-- The scope of the latch. -/
def body : Call → PoolCode Answer
  | .fetchPage pageId => do pure (.fetched (← fetchPage pageId))
  | .unpinPage pageId isDirty => do pure (.unpinned (← unpinPage pageId isDirty))
  | .flushPage pageId => do pure (.flushed (← flushPage pageId))
  | .newPage => do pure (.created (← newPage))
  | .deletePage pageId => do pure (.deleted (← deletePage pageId))
  | .flushAllPages order => do pure (.flushedAll (← flushAllPages order))
  | .getPinCount pageId => do pure (.pinCount (← getPinCount pageId))
  | .isCached pageId => do pure (.cached (← isCached pageId))

def method (call : Call) : PoolCode Answer := guarded .latch (body call)

/-- A method in one step. -/
def perform : Call → BufferPoolManager → Answer × BufferPoolManager
  | .fetchPage pageId, b => (.fetched (b.fetchPage pageId).1,(b.fetchPage pageId).2)
  | .unpinPage pageId isDirty, b => (.unpinned (b.unpinPage pageId isDirty).1,(b.unpinPage pageId isDirty).2)
  | .flushPage pageId, b => (.flushed (b.flushPage pageId).1,(b.flushPage pageId).2)
  | .newPage, b => (.created b.newPage.1,b.newPage.2)
  | .deletePage pageId, b => (.deleted (b.deletePage pageId).1,(b.deletePage pageId).2)
  | .flushAllPages order, b => (.flushedAll (b.flushAllPages order).1,(b.flushAllPages order).2)
  | .getPinCount pageId, b => (.pinCount (((b.pageTable pageId).map (fun frameId => (b.pages frameId).pinCount)).getD (-1)),b)
  | .isCached pageId, b => (.cached (b.pageTable pageId).isSome,b)

theorem run_body (call : Call) (b : BufferPoolManager) : (body call).run b = perform call b := by
  cases call with
  | fetchPage pageId => simp [body,perform,run_fetchPage]
  | unpinPage pageId isDirty => simp [body,perform,run_unpinPage]
  | flushPage pageId => simp [body,perform,run_flushPage]
  | newPage => simp [body,perform,run_newPage]
  | deletePage pageId => simp [body,perform,run_deletePage]
  | flushAllPages order => simp [body,perform,flushAllPages,run_flushPages]
  | getPinCount pageId => cases here : b.pageTable pageId <;> simp [body,perform,getPinCount,here]
  | isCached pageId => simp [body,perform,isCached]

theorem nested_body (call : Call) : (body call).Nested rank 1 [] := by
  have ends : ∀ {B : Type} {code : PoolCode B} (f : B → Answer), code.Nested rank 1 [] → (code >>= fun value => pure (f value)).Nested rank 1 [] :=
    fun f nested => nested_then nested (fun _ => nested_pure _)
  cases call with
  | fetchPage pageId => exact ends _ nested_fetchPage
  | unpinPage pageId isDirty => exact ends _ nested_unpinPage
  | flushPage pageId => exact ends _ nested_flushPage
  | newPage => exact ends _ nested_newPage
  | deletePage pageId => exact ends _ nested_deletePage
  | flushAllPages order => exact ends _ (nested_logged (by decide) (nested_flushPages order))
  | getPinCount pageId => exact ends _ nested_getPinCount
  | isCached pageId => exact ends _ (nested_get _)

variable {n : Nat} {events : List (Event Call Answer)} {m : Machine Lock BufferPoolManager Call Answer}

/-- Whatever any number of threads see of the pool while their steps interleave, they could
    see of a pool that does each method at one moment between its call and its return. -/
theorem methods_are_atomic (history : (threads method n b).History events) : (object perform n b).History events :=
  monitor_is_atomic (fun _ => rfl) nested_body run_body history

/-- Two threads ask at the same time. -/
theorem methods_are_atomic_two : (object perform 2 (.create 1 .create (.lru (.create 1)))).History
    [.call 0 (.isCached 0),.call 1 (.getPinCount 0),.answer 1 (.getPinCount 0) (.pinCount (-1)),.answer 0 (.isCached 0) (.cached false)] := by
  obtain ⟨m,shows⟩ : ∃ m, (threads method 2 (.create 1 .create (.lru (.create 1)))).Shows
      { shared := .create 1 .create (.lru (.create 1)), owner := fun _ => none, threads := [.idle,.idle] }
      ([] ++ [.call 0 (.isCached 0)] ++ [.call 1 (.getPinCount 0)] ++ [.answer 1 (.getPinCount 0) (.pinCount (-1))] ++
        [.answer 0 (.isCached 0) (.cached false)]) m := by
    refine ⟨_,.visible (.silent (.silent (.silent (.visible (.silent (.silent (.silent (.visible (.visible .refl (.call rfl)) (.call rfl))
      (.lock (i := 1) rfl rfl)) (.act (i := 1) rfl)) (.unlock (i := 1) rfl rfl)) (.answer rfl)) (.lock (i := 0) rfl rfl)) (.act (i := 0) rfl))
      (.unlock (i := 0) rfl rfl)) (.answer rfl)⟩
  exact methods_are_atomic ⟨_,m,rfl,shows⟩

end
end Aether.PoolLatches
