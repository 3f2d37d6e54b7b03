import Aether.DiskStore
import Mathlib.Data.Set.Insert

/-!
Stops of the disk manager. A call is a few writes to the file, and the process may
stop after any of them. Whatever runs of calls and stops came before, reopening
the file gives a free list that no page in use is on, and pages in use keep their
bytes, as long as the number of pages does not wrap.
-/
namespace Aether.DiskCrash
open Aether.Bytes Aether.Types Aether.DiskManager Aether.FreeList Aether.Runs Aether.DiskStore

/-! ### The writes of a call -/

/-- One write to the file. -/
inductive FileWrite
  /-- The head of the free list, at the start of page 0. -/
  | freeListHead (value : PageId)
  /-- The number of pages, behind it. -/
  | numPages (value : UInt32)
  | page (pageId : PageId) (data : PageData)

def FileWrite.apply (file : DbFile) : FileWrite → DbFile
  | .freeListHead value => file.write 0 ((file.page 0).put32 0 value)
  | .numPages value => file.write 0 ((file.page 0).put32 4 value)
  | .page pageId data => file.write pageId data

/-- The writes that a call issues, in order. -/
def writes (d : DiskManager) : Call → List FileWrite
  | .allocatePage =>
    if d.freeListHead ≠ INVALID_PAGE_ID then
      match d.dbIo.read d.freeListHead with
      | none => []
      | some data => [.freeListHead (data.get32 0),.numPages d.numPages]
    else [.freeListHead d.freeListHead,.numPages (d.numPages + 1),.page d.numPages (Block.zeros _)]
  | .deallocatePage p =>
    if d.numPages ≤ p ∨ p = 0 then []
    else [.page p ((Block.zeros _).put32 0 d.freeListHead),.freeListHead p,.numPages d.numPages]
  | .writePage p data => if d.numPages ≤ p then [] else [.page p data]
  | _ => []

/-- The file after the first writes of a call. -/
def stopped (d : DiskManager) (call : Call) (count : Nat) : DbFile := ((writes d call).take count).foldl FileWrite.apply d.dbIo

/-! ### Runs with stops -/

/-- The manager, the pages that callers have been given and not deallocated, and what
    they read where that is known. -/
structure World where
  disk : DiskManager
  live : Set PageId
  bytes : PageId → Option PageData

/-- A call, or a stop inside a call after some of its writes and reopening the file. -/
inductive Move
  | call (call : Call)
  | stop (call : Call) (count : Nat)

namespace World

/-- A new file. -/
def create : World := { disk := DiskManager.create, live := ∅, bytes := fun _ => none }

/-- A new page at the end of the file holds zeros; a reused one may hold anything. -/
def completed (w : World) (disk : DiskManager) : Call → Answer → World
  | .allocatePage, .pageId p =>
    { disk, live := insert p w.live,
            bytes := Function.update w.bytes p (if w.disk.freeListHead = INVALID_PAGE_ID then some (Block.zeros _) else none) }
  | .deallocatePage p, _ => { w with disk, live := w.live \ {p} }
  | .writePage p data, _ => { w with disk, bytes := Function.update w.bytes p (some data) }
  | _, _ => { w with disk }

/-- A page that is being allocated is not in use yet, and one that is being deallocated
    is so no longer. -/
def interrupted (w : World) (disk : DiskManager) (count : Nat) : Call → World
  | .deallocatePage p => { w with disk, live := w.live \ {p} }
  | .writePage p data => { w with disk, bytes := if (writes w.disk (.writePage p data)).take count = [] then w.bytes
                                                 else Function.update w.bytes p (some data) }
  | _ => { w with disk }

/-- A call that throws changes nothing; there is no move where the file cannot be opened. -/
def next (w : World) : Move → Option World
  | .call call =>
    match perform w.disk call with
    | .ok (answer,disk) => some (w.completed disk call answer)
    | .error _ => some w
  | .stop call count =>
    match DiskManager.openFile (stopped w.disk call count) with
    | .ok disk => some (w.interrupted disk count call)
    | .error _ => none

/-- Callers deallocate no free page and write neither page 0 nor a free page. -/
def Careful (w : World) : Call → Prop
  | .deallocatePage p => ¬ OnFreeList w.disk p
  | .writePage p _ => p ≠ 0 ∧ ¬ OnFreeList w.disk p
  | _ => True

/-- The file has room for one more page where the call adds one. -/
def Fits (w : World) : Call → Prop
  | .allocatePage => w.disk.freeListHead = INVALID_PAGE_ID → w.disk.numPages ≠ 0xFFFFFFFF
  | _ => True

end World

/-- The call that is made. -/
def Move.made : Move → Call
  | .call c => c
  | .stop c _ => c

/-- The free list is sound, no page in use is on it, and every page in use reads back. -/
def Sound (w : World) : Prop :=
  ∃ l, Chain INVALID_PAGE_ID (link w.disk) w.disk.freeListHead l ∧ l.Nodup ∧ (∀ p ∈ l, 0 < p ∧ p < w.disk.numPages) ∧
    ∀ p ∈ w.live, p ∉ l ∧ ∃ data, w.disk.readPage p = .ok data ∧ ∀ written, w.bytes p = some written → data = written

/-! ### What every write keeps -/

/-- The pages of the free list of a file, as reopening finds it, are sound. -/
structure Recoverable (file : DbFile) (live : Set PageId) (bytes : PageId → Option PageData) (l : List PageId) : Prop where
  chain : Chain INVALID_PAGE_ID (fun p => (file.page p).get32 0) ((file.page 0).get32 0) l
  distinct : l.Nodup
  inside : ∀ p ∈ l, 0 < p ∧ p < (file.page 0).get32 4
  apart : ∀ p ∈ live, p ∉ l
  used : ∀ p ∈ live, 0 < p ∧ p < (file.page 0).get32 4
  stored : ∀ p, p ∈ l ∨ p ∈ live → p.toNat < file.length
  bytes : ∀ p ∈ live, ∀ data, bytes p = some data → file.page p = data
  opens : 0 < file.length
  positive : 0 < (file.page 0).get32 4

section
variable {file : DbFile} {live live' : Set PageId} {bytes bytes' : PageId → Option PageData} {l l' : List PageId}
variable {d d' : DiskManager} {w w' : World} {call : Call} {answer : Answer} {p head : PageId} {data : PageData} {count : UInt32} {n : Nat}

theorem create_recoverable : Recoverable DiskManager.create.dbIo ∅ (fun _ => none) [] := by
  obtain ⟨head,count⟩ := create_header
  refine ⟨head,List.nodup_nil,nofun,nofun,nofun,nofun,nofun,by decide,?_⟩
  rw [count]
  exact create_freeList.positive

/-- Callers that know and own less. -/
theorem Recoverable.weaken (sound : Recoverable file live bytes l) (fewer : ∀ p ∈ live', p ∈ live)
    (known : ∀ p ∈ live', ∀ data, bytes' p = some data → bytes p = some data) : Recoverable file live' bytes' l where
  chain := sound.chain
  distinct := sound.distinct
  inside := sound.inside
  apart p own := sound.apart p (fewer p own)
  used p own := sound.used p (fewer p own)
  stored p which := sound.stored p (which.imp id (fewer p))
  bytes p own data here := sound.bytes p (fewer p own) data (known p own data here)
  opens := sound.opens
  positive := sound.positive

/-- A page that is not free is written. -/
theorem Recoverable.writePage (sound : Recoverable file live bytes l) (other : p ≠ 0) (notFree : p ∉ l)
    (known : ∀ q ∈ live, ∀ found, bytes' q = some found → q = p ∧ data = found ∨ q ≠ p ∧ bytes q = some found) :
    Recoverable (FileWrite.apply file (.page p data)) live bytes' l := by
  have metadata : (FileWrite.apply file (.page p data)).page 0 = file.page 0 := Function.update_of_ne other.symm ..
  have longer : file.length ≤ (FileWrite.apply file (.page p data)).length := le_max_left ..
  refine ⟨?_,sound.distinct,?_,sound.apart,?_,fun q which => lt_of_lt_of_le (sound.stored q which) longer,
    fun q own found here => ?_,lt_of_lt_of_le sound.opens longer,?_⟩
  · rw [metadata]
    refine sound.chain.congr (fun q member => ?_)
    have apart : q ≠ p := by
      rintro rfl
      exact notFree member
    exact congrArg (fun data : PageData => data.get32 0) (Function.update_of_ne apart ..)
  · rw [metadata]
    exact sound.inside
  · rw [metadata]
    exact sound.used
  · show Function.update file.page p data q = found
    rcases known q own found here with ⟨rfl,rfl⟩ | ⟨apart,before⟩
    · rw [Function.update_self]
    · rw [Function.update_of_ne apart]
      exact sound.bytes q own found before
  · rw [metadata]
    exact sound.positive

theorem page_apart (apart : p ≠ 0) : (file.write 0 data).page p = file.page p := Function.update_of_ne apart ..

theorem write_metadata_length (opens : 0 < file.length) : (file.write 0 data).length = file.length := by
  show max file.length (UInt32.toNat 0 + 1) = file.length
  simp
  omega

/-- The list starts elsewhere. -/
theorem Recoverable.writeHead (sound : Recoverable file live bytes l)
    (chain : Chain INVALID_PAGE_ID (fun p => (file.page p).get32 0) head l') (distinct : l'.Nodup)
    (free : ∀ p ∈ l', p ∉ live ∧ 0 < p ∧ p < (file.page 0).get32 4 ∧ p.toNat < file.length) :
    Recoverable (FileWrite.apply file (.freeListHead head)) live bytes l' := by
  have here : (FileWrite.apply file (.freeListHead head)).page 0 = (file.page 0).put32 0 head := by
    simp only [FileWrite.apply,DbFile.write,Function.update_self]
  have first : ((file.page 0).put32 0 head).get32 0 = head := Block.get32_put32 (by simp [PAGE_SIZE])
  have second : ((file.page 0).put32 0 head).get32 4 = (file.page 0).get32 4 := Block.get32_put32_outside (by omega)
  have length : (FileWrite.apply file (.freeListHead head)).length = file.length := write_metadata_length sound.opens
  refine ⟨?_,distinct,?_,fun q own member => (free q member).1 own,?_,fun q which => ?_,fun q own found known => ?_,?_,?_⟩
  · rw [here,first]
    refine chain.congr (fun q member => ?_)
    exact congrArg (fun data : PageData => data.get32 0) (page_apart (pos_ne (free q member).2.1))
  · rw [here,second]
    exact fun q member => ⟨(free q member).2.1,(free q member).2.2.1⟩
  · rw [here,second]
    exact sound.used
  · rw [length]
    exact which.elim (fun member => (free q member).2.2.2) (fun own => sound.stored q (.inr own))
  · rw [← sound.bytes q own found known]
    exact page_apart (pos_ne (sound.used q own).1)
  · rw [length]
    exact sound.opens
  · rw [here,second]
    exact sound.positive

/-- The number of pages does not fall. -/
theorem Recoverable.writeCount (sound : Recoverable file live bytes l) (more : (file.page 0).get32 4 ≤ count) :
    Recoverable (FileWrite.apply file (.numPages count)) live bytes l := by
  have here : (FileWrite.apply file (.numPages count)).page 0 = (file.page 0).put32 4 count := by
    simp only [FileWrite.apply,DbFile.write,Function.update_self]
  have first : ((file.page 0).put32 4 count).get32 0 = (file.page 0).get32 0 := Block.get32_put32_outside (by omega)
  have second : ((file.page 0).put32 4 count).get32 4 = count := Block.get32_put32 (by simp [PAGE_SIZE])
  have length : (FileWrite.apply file (.numPages count)).length = file.length := write_metadata_length sound.opens
  refine ⟨?_,sound.distinct,?_,sound.apart,?_,fun q which => ?_,fun q own found known => ?_,?_,?_⟩
  · rw [here,first]
    refine sound.chain.congr (fun q member => ?_)
    exact congrArg (fun data : PageData => data.get32 0) (page_apart (pos_ne (sound.inside q member).1))
  · rw [here,second]
    exact fun q member => ⟨(sound.inside q member).1,UInt32.lt_of_lt_of_le (sound.inside q member).2 more⟩
  · rw [here,second]
    exact fun q own => ⟨(sound.used q own).1,UInt32.lt_of_lt_of_le (sound.used q own).2 more⟩
  · rw [length]
    exact sound.stored q which
  · rw [← sound.bytes q own found known]
    exact page_apart (pos_ne (sound.used q own).1)
  · rw [length]
    exact sound.opens
  · rw [here,second]
    exact UInt32.lt_of_lt_of_le sound.positive more

/-- The file is so wherever a list of writes is cut. -/
def AtEveryStop (P : DbFile → Prop) (file : DbFile) (writes : List FileWrite) : Prop :=
  ∀ n, P ((writes.take n).foldl FileWrite.apply file)

theorem stop_nil {P : DbFile → Prop} (here : P file) : AtEveryStop P file [] := by
  intro n
  rw [List.take_nil]
  exact here

theorem stop_cons {P : DbFile → Prop} {write : FileWrite} {rest : List FileWrite} (here : P file)
    (later : AtEveryStop P (write.apply file) rest) : AtEveryStop P file (write :: rest) := by
  intro n
  cases n with
  | zero => exact here
  | succ n => exact later n

/-! ### A call as its writes -/

theorem writeMetadata_writes (d : DiskManager) :
    d.writeMetadata.dbIo = [FileWrite.freeListHead d.freeListHead,.numPages d.numPages].foldl FileWrite.apply d.dbIo := by
  simp only [DiskManager.writeMetadata,DiskManager.metadata,List.foldl_cons,List.foldl_nil,FileWrite.apply,DbFile.write,
    Function.update_self,Function.update_idem,max_assoc,max_self]

/-- A call leaves the file as its writes do. -/
theorem perform_writes (done : perform d call = .ok (answer,d')) :
    d'.dbIo = (writes d call).foldl FileWrite.apply d.dbIo := by
  cases call with
  | allocatePage =>
    rw [perform,DiskManager.allocatePage] at done
    rw [writes]
    split_ifs at done ⊢ with reuse
    · cases found : d.dbIo.read d.freeListHead with
      | none =>
        rw [found] at done
        cases done
      | some data =>
        rw [found] at done
        cases done
        exact writeMetadata_writes _
    · cases done
      show DbFile.write (DiskManager.writeMetadata _).dbIo _ _ = _
      rw [writeMetadata_writes]
      rfl
  | deallocatePage p =>
    cases done
    rw [writes,DiskManager.deallocatePage]
    split_ifs
    · rfl
    · exact writeMetadata_writes _
  | writePage p data =>
    rw [perform,DiskManager.writePage] at done
    rw [writes]
    split_ifs at done ⊢
    · cases done
    · cases done
      rfl
  | readPage p =>
    rw [perform,DiskManager.readPage] at done
    split_ifs at done
    · cases done
    · cases done
      rfl
  | reopen =>
    rw [perform,DiskManager.openFile] at done
    split at done
    · cases done
    · cases done
      rfl

/-- Page 0 keeps the metadata. -/
theorem perform_header (header : Header d) (positive : 0 < d.numPages) (elsewhere : ∀ p data, call = .writePage p data → p ≠ 0)
    (done : perform d call = .ok (answer,d')) : Header d' := by
  cases call with
  | allocatePage =>
    rw [perform] at done
    cases allocated : d.allocatePage with
    | error e =>
      rw [allocated] at done
      cases done
    | ok out =>
      rw [allocated] at done
      cases done
      exact allocatePage_header allocated (pos_ne positive)
  | deallocatePage p =>
    cases done
    exact deallocatePage_header header p
  | writePage p data =>
    rw [perform,DiskManager.writePage] at done
    split_ifs at done
    · cases done
    · cases done
      exact header.write (elsewhere p data rfl)
  | readPage p =>
    rw [perform,DiskManager.readPage] at done
    split_ifs at done
    · cases done
    · cases done
      exact header
  | reopen =>
    rw [perform,DiskManager.openFile] at done
    split at done
    · cases done
    · cases done
      rename_i data read
      rw [DbFile.read] at read
      split_ifs at read
      cases read
      exact ⟨rfl,rfl⟩

/-! ### Allocation and deallocation, write by write -/

/-- A page that is not free is given to a caller. -/
theorem Recoverable.give (sound : Recoverable file live bytes l) (notFree : p ∉ l) (inside : 0 < p ∧ p < (file.page 0).get32 4)
    (stored : p.toNat < file.length) {known : Option PageData} (reads : ∀ data, known = some data → file.page p = data) :
    Recoverable file (insert p live) (Function.update bytes p known) l where
  chain := sound.chain
  distinct := sound.distinct
  inside := sound.inside
  apart q own := by
    rcases own with rfl | own
    · exact notFree
    · exact sound.apart q own
  used q own := by
    rcases own with rfl | own
    · exact inside
    · exact sound.used q own
  stored q which := by
    rcases which with free | rfl | own
    · exact sound.stored q (.inl free)
    · exact stored
    · exact sound.stored q (.inr own)
  bytes q own data here := by
    by_cases same : q = p
    · subst same
      rw [Function.update_self] at here
      exact reads data here
    · rw [Function.update_of_ne same] at here
      exact sound.bytes q (own.resolve_left same) data here
  opens := sound.opens
  positive := sound.positive

/-- The first free page leaves the list with the first write. -/
theorem pop_writes (sound : Recoverable d.dbIo live bytes (p :: l)) (header : Header d) :
    let taken := FileWrite.apply d.dbIo (.freeListHead (link d p))
    let done := FileWrite.apply taken (.numPages d.numPages)
    writes d .allocatePage = [.freeListHead (link d p),.numPages d.numPages] ∧
      (∃ d', perform d .allocatePage = .ok (.pageId p,d')) ∧ Recoverable taken live bytes l ∧ Recoverable done live bytes l ∧
      Recoverable done (insert p live) (Function.update bytes p none) l := by
  intro taken done
  obtain ⟨first,valid,chain⟩ := sound.chain
  rw [header.1] at first
  obtain ⟨notInRest,distinct⟩ := List.nodup_cons.mp sound.distinct
  have stored : p.toNat < d.dbIo.length := sound.stored p (.inl List.mem_cons_self)
  have read : d.dbIo.read d.freeListHead = some (d.dbIo.page p) := by rw [first,DbFile.read,if_pos stored]
  have reuse : d.freeListHead ≠ INVALID_PAGE_ID := by rw [first]; exact valid
  have popped : Recoverable taken live bytes l := sound.writeHead chain distinct (fun q member =>
    have before : q ∈ p :: l := List.mem_cons_of_mem p member
    ⟨fun own => sound.apart q own before,(sound.inside q before).1,(sound.inside q before).2,sound.stored q (.inl before)⟩)
  have count : (taken.page 0).get32 4 = d.numPages := by
    simp only [taken,FileWrite.apply,DbFile.write,Function.update_self]
    rw [Block.get32_put32_outside (by omega),header.2]
  have finished : Recoverable done live bytes l := popped.writeCount (by rw [count]; exact UInt32.le_refl _)
  have recount : (done.page 0).get32 4 = d.numPages := by
    simp only [done,FileWrite.apply,DbFile.write,Function.update_self]
    exact Block.get32_put32 (by simp [PAGE_SIZE])
  have longer : d.dbIo.length ≤ done.length := le_trans (le_max_left ..) (le_max_left ..)
  have answered : perform d .allocatePage = .ok (.pageId p,{ d with freeListHead := link d p }.writeMetadata) := by
    simp only [perform,DiskManager.allocatePage,if_pos reuse,read]
    rw [first]
    rfl
  refine ⟨?_,⟨_,answered⟩,popped,finished,finished.give notInRest ?_ (lt_of_lt_of_le stored longer) ?_⟩
  · simp only [writes,if_pos reuse,read]
    rfl
  · rw [recount,← header.2]
    exact sound.inside p List.mem_cons_self
  · intro data known
    cases known

/-- A new page is counted first and written last. -/
theorem grow_writes (sound : Recoverable d.dbIo live bytes []) (header : Header d) (fits : d.numPages ≠ 0xFFFFFFFF) :
    let marked := FileWrite.apply d.dbIo (.freeListHead d.freeListHead)
    let counted := FileWrite.apply marked (.numPages (d.numPages + 1))
    let done := FileWrite.apply counted (.page d.numPages (Block.zeros _))
    writes d .allocatePage = [.freeListHead d.freeListHead,.numPages (d.numPages + 1),.page d.numPages (Block.zeros _)] ∧
      (∃ d', perform d .allocatePage = .ok (.pageId d.numPages,d')) ∧ Recoverable marked live bytes [] ∧
      Recoverable counted live bytes [] ∧ Recoverable done live bytes [] ∧
      Recoverable done (insert d.numPages live) (Function.update bytes d.numPages (some (Block.zeros _))) [] := by
  intro marked counted done
  have full : d.freeListHead = INVALID_PAGE_ID := header.1 ▸ sound.chain
  have fresh : ¬ d.freeListHead ≠ INVALID_PAGE_ID := by rw [full]; simp
  have more : d.numPages < d.numPages + 1 := (lt_succ_iff fits).mpr (.inr rfl)
  have positive : 0 < d.numPages := header.2 ▸ sound.positive
  have first : Recoverable marked live bytes [] :=
    sound.writeHead (show Chain _ _ d.freeListHead [] from full) List.nodup_nil nofun
  have count : (marked.page 0).get32 4 = d.numPages := by
    simp only [marked,FileWrite.apply,DbFile.write,Function.update_self]
    rw [Block.get32_put32_outside (by omega),header.2]
  have second : Recoverable counted live bytes [] := first.writeCount (by rw [count]; exact UInt32.le_of_lt more)
  have third : Recoverable done live bytes [] := by
    refine second.writePage (pos_ne positive) (by simp) (fun q own found known => .inr ⟨?_,known⟩)
    rintro rfl
    exact UInt32.lt_irrefl _ (header.2 ▸ (sound.used _ own).2)
  have recount : (counted.page 0).get32 4 = d.numPages + 1 := by
    simp only [counted,FileWrite.apply,DbFile.write,Function.update_self]
    exact Block.get32_put32 (by simp [PAGE_SIZE])
  have metadata : done.page 0 = counted.page 0 := Function.update_of_ne (pos_ne positive).symm ..
  refine ⟨by rw [writes,if_neg fresh],⟨_,by rw [perform,DiskManager.allocatePage,if_neg fresh]; rfl⟩,first,second,third,
    third.give (by simp) ⟨positive,?_⟩ ?_ (fun data known => ?_)⟩
  · rw [metadata,recount]
    exact more
  · exact lt_of_lt_of_le (Nat.lt_succ_self _) (le_max_right ..)
  · cases known
    simp only [done,FileWrite.apply,DbFile.write,Function.update_self]

/-- Wherever allocation stops the list is sound, and when it is done its page is no
    longer on it. -/
theorem allocate_writes (sound : Recoverable d.dbIo live bytes l) (header : Header d)
    (fits : d.freeListHead = INVALID_PAGE_ID → d.numPages ≠ 0xFFFFFFFF) :
    AtEveryStop (fun file => ∃ l', Recoverable file live bytes l') d.dbIo (writes d .allocatePage) ∧
      ∃ p d' l', perform d .allocatePage = .ok (.pageId p,d') ∧
        Recoverable d'.dbIo (insert p live)
          (Function.update bytes p (if d.freeListHead = INVALID_PAGE_ID then some (Block.zeros _) else none)) l' := by
  cases l with
  | nil =>
    have full : d.freeListHead = INVALID_PAGE_ID := header.1 ▸ sound.chain
    obtain ⟨issued,⟨d',done⟩,first,second,third,given⟩ := grow_writes sound header (fits full)
    have file := perform_writes done
    rw [issued] at file ⊢
    refine ⟨?_,d.numPages,d',[],done,by rw [file,if_pos full]; exact given⟩
    exact stop_cons ⟨_,sound⟩ (stop_cons ⟨_,first⟩ (stop_cons ⟨_,second⟩ (stop_nil ⟨_,third⟩)))
  | cons p rest =>
    obtain ⟨issued,⟨d',done⟩,first,second,given⟩ := pop_writes sound header
    have file := perform_writes done
    have reuse : d.freeListHead ≠ INVALID_PAGE_ID := by
      rw [← header.1,sound.chain.1]
      exact sound.chain.2.1
    rw [issued] at file ⊢
    refine ⟨?_,p,d',rest,done,by rw [file,if_neg reuse]; exact given⟩
    exact stop_cons ⟨_,sound⟩ (stop_cons ⟨_,first⟩ (stop_nil ⟨_,second⟩))

/-- A page gets its link before it becomes the head. -/
theorem deallocate_writes (sound : Recoverable d.dbIo live bytes l) (header : Header d) (notFree : p ∉ l) :
    AtEveryStop (fun file => ∃ l', Recoverable file (live \ {p}) bytes l') d.dbIo (writes d (.deallocatePage p)) := by
  have less : Recoverable d.dbIo (live \ {p}) bytes l := sound.weaken (fun q own => own.1) (fun q own data known => known)
  rw [writes]
  split_ifs with outside
  · exact stop_nil ⟨_,less⟩
  obtain ⟨low,nonzero⟩ := not_or.mp outside
  let linked := FileWrite.apply d.dbIo (.page p ((Block.zeros _).put32 0 d.freeListHead))
  have first : Recoverable linked (live \ {p}) bytes l :=
    less.writePage nonzero notFree (fun q own found known => .inr ⟨own.2,known⟩)
  have metadata : linked.page 0 = d.dbIo.page 0 := Function.update_of_ne (Ne.symm nonzero) ..
  have next : (linked.page p).get32 0 = d.freeListHead := by
    simp only [linked,FileWrite.apply,DbFile.write,Function.update_self]
    exact Block.get32_put32 (by simp [PAGE_SIZE])
  have chain : Chain INVALID_PAGE_ID (fun q => (linked.page q).get32 0) p (p :: l) := by
    refine ⟨rfl,lt_invalid (UInt32.not_le.mp low),?_⟩
    have before := first.chain
    rw [metadata,header.1] at before
    show Chain _ _ ((linked.page p).get32 0) l
    rw [next]
    exact before
  have second : Recoverable (FileWrite.apply linked (.freeListHead p)) (live \ {p}) bytes (p :: l) := by
    refine first.writeHead chain (List.nodup_cons.mpr ⟨notFree,first.distinct⟩) (fun q member => ?_)
    rcases List.mem_cons.mp member with rfl | before
    · refine ⟨fun own => own.2 rfl,pos_of_ne nonzero,by rw [metadata,header.2]; exact UInt32.not_le.mp low,?_⟩
      exact lt_of_lt_of_le (Nat.lt_succ_self _) (le_max_right ..)
    · exact ⟨fun own => first.apart q own before,(first.inside q before).1,(first.inside q before).2,first.stored q (.inl before)⟩
  have count : ((FileWrite.apply linked (.freeListHead p)).page 0).get32 4 = d.numPages := by
    simp only [FileWrite.apply,DbFile.write,Function.update_self]
    rw [Block.get32_put32_outside (by omega),metadata,header.2]
  have more : ((FileWrite.apply linked (.freeListHead p)).page 0).get32 4 ≤ d.numPages := by rw [count]; exact UInt32.le_refl _
  have third := second.writeCount more
  exact stop_cons ⟨_,less⟩ (stop_cons ⟨_,first⟩ (stop_cons ⟨_,second⟩ (stop_nil ⟨_,third⟩)))

/-! ### Calls and stops -/

/-- The list on disk and in memory. -/
structure InOrder (w : World) (l : List PageId) : Prop where
  sound : Recoverable w.disk.dbIo w.live w.bytes l
  header : Header w.disk

theorem InOrder.onFreeList (inOrder : InOrder w l) : OnFreeList w.disk p ↔ p ∈ l := by
  have chain := inOrder.sound.chain
  rw [inOrder.header.1] at chain
  constructor
  · rintro ⟨l',chain',member⟩
    rwa [chain_unique chain chain']
  · exact fun member => ⟨l,chain,member⟩

theorem InOrder.result (inOrder : InOrder w l) : Sound w := by
  obtain ⟨sound,head,count⟩ := inOrder
  refine ⟨l,head ▸ sound.chain,sound.distinct,fun p member => count ▸ sound.inside p member,fun p own => ?_⟩
  have low : p < w.disk.numPages := count ▸ (sound.used p own).2
  have stored := sound.stored p (.inr own)
  refine ⟨sound.apart p own,w.disk.dbIo.page p,?_,sound.bytes p own⟩
  rw [DiskManager.readPage,if_neg (UInt32.not_le.mpr low),DbFile.read,if_pos stored]
  rfl

/-- Reopening a sound file. -/
theorem open_inOrder (sound : Recoverable file live bytes l) :
    ∃ d, DiskManager.openFile file = .ok d ∧ d.dbIo = file ∧ Header d := by
  refine ⟨_,by rw [DiskManager.openFile,DbFile.read,UInt32.toNat_zero,if_pos sound.opens],rfl,rfl,rfl⟩

theorem create_inOrder : InOrder World.create [] := ⟨create_recoverable,create_header⟩

theorem Recoverable.wrote (sound : Recoverable file live bytes l) (other : p ≠ 0) (notFree : p ∉ l) (data : PageData) :
    Recoverable (FileWrite.apply file (.page p data)) live (Function.update bytes p (some data)) l := by
  refine sound.writePage other notFree (fun q own found known => ?_)
  by_cases same : q = p
  · subst same
    rw [Function.update_self] at known
    exact .inl ⟨rfl,Option.some.inj known⟩
  · rw [Function.update_of_ne same] at known
    exact .inr ⟨same,known⟩

/-- A careful call keeps the list sound wherever it stops. -/
theorem stop_inOrder (inOrder : InOrder w l) (careful : w.Careful call) (fits : w.Fits call) (n : Nat) :
    ∃ w' l', w.next (.stop call n) = some w' ∧ InOrder w' l' := by
  have finish : ∀ {live bytes}, (∃ l', Recoverable (stopped w.disk call n) live bytes l') →
      (∀ d, (w.interrupted d n call).disk = d ∧ (w.interrupted d n call).live = live ∧ (w.interrupted d n call).bytes = bytes) →
      ∃ w' l', w.next (.stop call n) = some w' ∧ InOrder w' l' := by
    rintro live bytes ⟨l',sound⟩ ghost
    obtain ⟨d,opened,file,header⟩ := open_inOrder sound
    obtain ⟨disk,own,known⟩ := ghost d
    exact ⟨w.interrupted d n call,l',by rw [World.next,opened],⟨by rw [disk,own,known,file]; exact sound,by rw [disk]; exact header⟩⟩
  cases call with
  | allocatePage =>
    obtain ⟨everywhere,_⟩ := allocate_writes inOrder.sound inOrder.header fits
    exact finish (everywhere n) (fun d => ⟨rfl,rfl,rfl⟩)
  | deallocatePage p =>
    have notFree : p ∉ l := fun member => careful (inOrder.onFreeList.mpr member)
    exact finish (deallocate_writes inOrder.sound inOrder.header notFree n) (fun d => ⟨rfl,rfl,rfl⟩)
  | writePage p data =>
    have notFree : p ∉ l := fun member => careful.2 (inOrder.onFreeList.mpr member)
    by_cases none : (writes w.disk (.writePage p data)).take n = []
    · have same : stopped w.disk (.writePage p data) n = w.disk.dbIo := by rw [stopped,none]; rfl
      exact finish ⟨l,same ▸ inOrder.sound⟩ (fun d => ⟨rfl,rfl,if_pos none⟩)
    · have all : (writes w.disk (.writePage p data)).take n = [.page p data] := by
        rw [writes] at none ⊢
        split_ifs at none ⊢
        · exact absurd (List.take_nil ..) none
        · cases n with
          | zero => exact absurd rfl none
          | succ n => simp
      have file : stopped w.disk (.writePage p data) n = FileWrite.apply w.disk.dbIo (.page p data) := by rw [stopped,all]; rfl
      exact finish ⟨l,file ▸ inOrder.sound.wrote careful.1 notFree data⟩ (fun d => ⟨rfl,rfl,if_neg none⟩)
  | readPage p =>
    have same : stopped w.disk (.readPage p) n = w.disk.dbIo := by simp [stopped,writes]
    exact finish ⟨l,same ▸ inOrder.sound⟩ (fun d => ⟨rfl,rfl,rfl⟩)
  | reopen =>
    have same : stopped w.disk .reopen n = w.disk.dbIo := by simp [stopped,writes]
    exact finish ⟨l,same ▸ inOrder.sound⟩ (fun d => ⟨rfl,rfl,rfl⟩)

/-- A careful call keeps the list sound. -/
theorem call_inOrder (inOrder : InOrder w l) (careful : w.Careful call) (fits : w.Fits call) :
    ∃ w' l', w.next (.call call) = some w' ∧ InOrder w' l' := by
  have positive : 0 < w.disk.numPages := inOrder.header.2 ▸ inOrder.sound.positive
  cases done : perform w.disk call with
  | error e => exact ⟨w,l,by rw [World.next,done],inOrder⟩
  | ok out =>
    obtain ⟨answer,d⟩ := out
    have file := perform_writes done
    have header : Header d := perform_header inOrder.header positive (fun p data same => by subst same; exact careful.1) done
    suffices finish : ∃ l', Recoverable d.dbIo (w.completed d call answer).live (w.completed d call answer).bytes l' by
      obtain ⟨l',sound⟩ := finish
      have same : (w.completed d call answer).disk = d := by
        rw [World.completed.eq_def]
        split <;> rfl
      exact ⟨w.completed d call answer,l',by rw [World.next,done],⟨by rw [same]; exact sound,by rw [same]; exact header⟩⟩
    cases call with
    | allocatePage =>
      obtain ⟨_,p,d',l',done',sound⟩ := allocate_writes inOrder.sound inOrder.header fits
      obtain ⟨rfl,rfl⟩ := Prod.mk.inj (Except.ok.inj (done.symm.trans done'))
      exact ⟨l',sound⟩
    | deallocatePage p =>
      have notFree : p ∉ l := fun member => careful (inOrder.onFreeList.mpr member)
      obtain ⟨l',sound⟩ := deallocate_writes inOrder.sound inOrder.header notFree (writes w.disk (.deallocatePage p)).length
      rw [List.take_length,← file] at sound
      exact ⟨l',sound⟩
    | writePage p data =>
      have notFree : p ∉ l := fun member => careful.2 (inOrder.onFreeList.mpr member)
      have low : ¬ w.disk.numPages ≤ p := by
        intro outside
        rw [perform,DiskManager.writePage,if_pos outside] at done
        cases done
      rw [writes,if_neg low] at file
      exact ⟨l,file ▸ inOrder.sound.wrote careful.1 notFree data⟩
    | readPage p => exact ⟨l,file ▸ inOrder.sound⟩
    | reopen => exact ⟨l,file ▸ inOrder.sound⟩

/-! ### Runs -/

/-- A careful move, and one that does not add a page past the last possible one. -/
def Allowed (w : World) (m : Move) : Prop := w.Careful m.made ∧ w.Fits m.made

/-- Careful callers can stop the manager anywhere. As long as the number of pages does
    not wrap, reopening gives a sound file, now and after every further run. -/
theorem stops_are_sound (runs : Runs World.next Allowed World.create w) (allowed : Allowed w (.stop call n)) :
    Sound w ∧ ∃ w', w.next (.stop call n) = some w' ∧ Sound w' := by
  obtain ⟨l,inOrder⟩ : ∃ l, InOrder w l := by
    refine runs.invariant (fun w => ∃ l, InOrder w l) ⟨[],create_inOrder⟩ ?_
    rintro w m w' ⟨l,inOrder⟩ ⟨careful,fits⟩ moved
    cases m with
    | call c =>
      obtain ⟨w₁,l',step,inOrder'⟩ := call_inOrder inOrder careful fits
      obtain rfl := Option.some.inj (moved.symm.trans step)
      exact ⟨l',inOrder'⟩
    | stop c n =>
      obtain ⟨w₁,l',step,inOrder'⟩ := stop_inOrder inOrder careful fits n
      obtain rfl := Option.some.inj (moved.symm.trans step)
      exact ⟨l',inOrder'⟩
  obtain ⟨w',l',step,inOrder'⟩ := stop_inOrder inOrder allowed.1 allowed.2 n
  exact ⟨inOrder.result,w',step,inOrder'.result⟩

theorem notFree_of_full (full : d.freeListHead = INVALID_PAGE_ID) (p : PageId) : ¬ OnFreeList d p := by
  rintro ⟨l,chain,member⟩
  obtain rfl := chain_unique (show Chain _ _ _ [] from full) chain
  cases member

/-- Two pages are allocated, the second is written, and the first is deallocated up to
    the write that would make it the head of the list. -/
theorem stops_are_sound_halfway : ∃ w w' : World, w.bytes 2 = some (fun _ => 7) ∧ w.next (.stop (.deallocatePage 1) 1) = some w' ∧ Sound w' := by
  obtain ⟨w,along,full,known⟩ : ∃ w, Along World.next Allowed World.create
      [.call .allocatePage,.call .allocatePage,.call (.writePage 2 (fun _ => 7))] w ∧
      w.disk.freeListHead = INVALID_PAGE_ID ∧ w.bytes 2 = some (fun _ => 7) :=
    ⟨_,⟨⟨trivial,fun _ => by decide⟩,_,rfl,⟨trivial,fun _ => by decide⟩,_,rfl,⟨⟨by decide,notFree_of_full rfl 2⟩,trivial⟩,_,rfl,rfl⟩,
      rfl,rfl⟩
  have allowed : Allowed w (.stop (.deallocatePage 1) 1) := ⟨notFree_of_full full 1,trivial⟩
  obtain ⟨_,w',step,sound⟩ := stops_are_sound (runs_of_along along) allowed
  exact ⟨w,w',known,step,sound⟩

/-- A careful move. -/
def CarefulMove (w : World) (m : Move) : Prop := w.Careful m.made

/-- Allocation at the end of the file. -/
theorem perform_grow (full : d.freeListHead = INVALID_PAGE_ID) : ∃ d', perform d .allocatePage = .ok (.pageId d.numPages,d') ∧
    d'.freeListHead = INVALID_PAGE_ID ∧ d'.numPages = d.numPages + 1 ∧ 0 < d'.dbIo.length := by
  have fresh : ¬ d.freeListHead ≠ INVALID_PAGE_ID := by rw [full]; simp
  let grown := { d with numPages := d.numPages + 1 }.writeMetadata
  refine ⟨{ grown with dbIo := grown.dbIo.write d.numPages (Block.zeros _) },?_,full,rfl,?_⟩
  · rw [perform,DiskManager.allocatePage,if_neg fresh]
    rfl
  · exact lt_of_lt_of_le (Nat.succ_pos _) (le_max_right ..)

/-- A file can grow to the last possible number of pages. -/
theorem grown_file : ∀ n, n < 4294967295 → ∃ w, Runs World.next CarefulMove World.create w ∧
    w.disk.freeListHead = INVALID_PAGE_ID ∧ w.disk.numPages.toNat = n + 1 ∧ Header w.disk ∧ (n ≠ 0 → 1 ∈ w.live) := by
  intro n
  induction n with
  | zero => exact fun _ => ⟨World.create,.refl,rfl,rfl,create_header,nofun⟩
  | succ n ih =>
    intro small
    obtain ⟨w,runs,full,count,header,first⟩ := ih (by omega)
    obtain ⟨d',done,full',count',_⟩ := perform_grow full
    have positive : 0 < w.disk.numPages := lt_toNat.mpr (by rw [count]; simp)
    have careful : CarefulMove w (.call .allocatePage) := trivial
    refine ⟨w.completed d' .allocatePage (.pageId w.disk.numPages),.step runs careful (by rw [World.next,done]),full',?_,
      perform_header header positive (fun _ _ same => by cases same) done,fun _ => ?_⟩
    · show d'.numPages.toNat = _
      rw [count',UInt32.toNat_add,UInt32.toNat_one,count,Nat.mod_eq_of_lt (by omega)]
    · by_cases zero : n = 0
      · refine .inl (UInt32.toNat_inj.mp ?_)
        rw [count,zero]
        rfl
      · exact .inr (first zero)

/-- With one more page than can be counted, no page can be read after reopening. -/
theorem wrapped_file_is_lost : ∃ w w' : World, Runs World.next CarefulMove World.create w ∧ CarefulMove w (.stop .reopen 0) ∧
    w.next (.stop .reopen 0) = some w' ∧ 1 ∈ w'.live ∧ w'.disk.readPage 1 = .error .outOfRange ∧ ¬ Sound w' := by
  obtain ⟨w,runs,full,count,header,first⟩ := grown_file 4294967294 (by omega)
  obtain ⟨d',done,full',count',opens⟩ := perform_grow full
  have positive : 0 < w.disk.numPages := lt_toNat.mpr (by rw [count]; simp)
  have careful : CarefulMove w (.call .allocatePage) := trivial
  have none : d'.numPages = 0 := by
    refine UInt32.toNat_inj.mp ?_
    rw [count',UInt32.toNat_add,UInt32.toNat_one,count]
    rfl
  have lost : d'.readPage 1 = .error .outOfRange := by
    rw [DiskManager.readPage,if_pos (by rw [none]; decide)]
  let after := w.completed d' .allocatePage (.pageId w.disk.numPages)
  have live : 1 ∈ after.live := .inr (first (by omega))
  refine ⟨after,after,.step runs careful (by rw [World.next,done]),trivial,?_,live,lost,?_⟩
  · have same : DiskManager.openFile (stopped after.disk .reopen 0) = .ok d' :=
      reopen_same (perform_header header positive (fun _ _ same => by cases same) done) opens
    rw [World.next,same]
    rfl
  · rintro ⟨_,_,_,_,reads⟩
    obtain ⟨_,_,read,_⟩ := reads 1 live
    rw [show after.disk = d' from rfl,lost] at read
    cases read

end
end Aether.DiskCrash
