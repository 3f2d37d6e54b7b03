import Aether.FreeList
import Aether.Runs

/-!
What the disk manager is for: a store of pages with a stack of free ones. The
stack lives in the freed pages and in the metadata, and the manager does what the
store does, also when the file is closed and opened again.
-/
namespace Aether.DiskStore
open Aether.Bytes Aether.Types Aether.DiskManager Aether.FreeList Aether.Runs

/-- A call of the manager, or closing and reopening the file. -/
inductive Call
  | allocatePage
  | deallocatePage (pageId : PageId)
  | writePage (pageId : PageId) (data : PageData)
  | readPage (pageId : PageId)
  | reopen

/-- What a call returns. -/
inductive Answer
  | pageId (pageId : PageId)
  | data (data : PageData)
  | nothing

/-- A call, if it does not throw. -/
def perform (d : DiskManager) : Call → Except Error (Answer × DiskManager)
  | .allocatePage => d.allocatePage.map (fun (pageId,d) => (.pageId pageId,d))
  | .deallocatePage pageId => .ok (.nothing,d.deallocatePage pageId)
  | .writePage pageId data => (d.writePage pageId data).map (fun d => (.nothing,d))
  | .readPage pageId => (d.readPage pageId).map (fun data => (.data data,d))
  | .reopen => (DiskManager.openFile d.dbIo).map (fun d => (.nothing,d))

/-! ### The store -/

/-- The number of pages, the free ones, the last one deallocated first, and for
    allocated pages the bytes written last. -/
structure Store where
  numPages : UInt32
  free : List PageId
  bytes : PageId → Option PageData

namespace Store

/-- A store with nothing but page 0. -/
def empty : Store := { numPages := 1, free := [], bytes := fun _ => none }

def Allocated (s : Store) (p : PageId) : Prop := p ≠ 0 ∧ p < s.numPages ∧ p ∉ s.free

/-- The page that is allocated next: the top of the stack, or a new one. -/
def top (s : Store) : PageId := s.free.headD s.numPages

def after (s : Store) : Call → Store
  | .allocatePage =>
    match s.free with
    | p :: rest => { s with free := rest, bytes := Function.update s.bytes p none }
    | [] => { s with numPages := s.numPages + 1, bytes := Function.update s.bytes s.numPages none }
  | .deallocatePage p =>
    if s.numPages ≤ p ∨ p = 0 then s else { s with free := p :: s.free, bytes := Function.update s.bytes p none }
  | .writePage p data => { s with bytes := Function.update s.bytes p (some data) }
  | _ => s

/-- What the store answers; a page that has not been written may hold anything. -/
def Answers (s : Store) : Call → Answer → Prop
  | .allocatePage, answer => answer = .pageId s.top
  | .readPage p, answer => ∃ read, answer = .data read ∧ ∀ data, s.bytes p = some data → read = data
  | _, answer => answer = .nothing

/-- What callers may ask: no page is deallocated twice, only allocated pages are read
    and written, and there is room for one more page. -/
def Proper (s : Store) : Call → Prop
  | .allocatePage => s.numPages < 0xFFFFFFFF
  | .deallocatePage p => p ∉ s.free
  | .writePage p _ => s.Allocated p
  | .readPage p => s.Allocated p
  | .reopen => True

end Store

/-! ### The refinement -/

/-- Page 0 holds the metadata. -/
def Header (d : DiskManager) : Prop := (d.dbIo.page 0).get32 0 = d.freeListHead ∧ (d.dbIo.page 0).get32 4 = d.numPages

/-- The manager holds the store. -/
structure Refines (d : DiskManager) (s : Store) : Prop where
  free : FreeList d s.free
  numPages : d.numPages = s.numPages
  header : Header d
  bytes : ∀ p data, s.bytes p = some data → s.Allocated p ∧ d.dbIo.page p = data

section
variable {d d' : DiskManager} {s : Store} {call : Call} {p q : PageId} {data : PageData} {l : List PageId}

theorem metadata_header (head count : UInt32) : (DiskManager.metadata data head count).get32 0 = head ∧
    (DiskManager.metadata data head count).get32 4 = count := by
  refine ⟨?_,Block.get32_put32 (by simp [PAGE_SIZE])⟩
  rw [DiskManager.metadata,Block.get32_put32_outside (by omega),Block.get32_put32 (by simp [PAGE_SIZE])]

theorem writeMetadata_header : Header d.writeMetadata := by
  show (Function.update d.dbIo.page 0 _ 0).get32 0 = _ ∧ (Function.update d.dbIo.page 0 _ 0).get32 4 = _
  rw [Function.update_self]
  exact metadata_header d.freeListHead d.numPages

theorem create_header : Header DiskManager.create := by
  have here : DiskManager.create.dbIo.page 0 = DiskManager.metadata (Block.zeros _) INVALID_PAGE_ID 1 := by
    simp only [DiskManager.create,DbFile.write,Function.update_self]
  rw [Header,here]
  exact metadata_header INVALID_PAGE_ID 1

/-- Writing another page than page 0 keeps the metadata. -/
theorem Header.write {n : Nat} (header : Header d) (other : p ≠ 0) :
    Header { d with dbIo := { length := n, page := Function.update d.dbIo.page p data } } := by
  show (Function.update d.dbIo.page p data 0).get32 0 = _ ∧ (Function.update d.dbIo.page p data 0).get32 4 = _
  rw [Function.update_of_ne other.symm]
  exact header

theorem allocatePage_header (allocated : d.allocatePage = .ok (p,d')) (positive : d.numPages ≠ 0) : Header d' := by
  rw [DiskManager.allocatePage] at allocated
  split_ifs at allocated
  · split at allocated
    · cases allocated
    · cases allocated
      exact writeMetadata_header
  · cases allocated
    exact writeMetadata_header.write positive

theorem deallocatePage_header (header : Header d) (p : PageId) : Header (d.deallocatePage p) := by
  rw [DiskManager.deallocatePage]
  split_ifs
  · exact header
  · exact writeMetadata_header

theorem create_refines : Refines DiskManager.create Store.empty :=
  ⟨create_freeList,rfl,create_header,by simp [Store.empty]⟩

/-- Reopening the file gives the manager back. -/
theorem reopen_same (header : Header d) (stored : 0 < d.dbIo.length) : DiskManager.openFile d.dbIo = .ok d := by
  rw [DiskManager.openFile,DbFile.read,UInt32.toNat_zero,if_pos stored]
  simp only [header.1,header.2]

theorem readPage_ok (refines : Refines d s) (low : p < s.numPages) : d.readPage p = .ok (d.dbIo.page p) := by
  have low' : p < d.numPages := refines.numPages ▸ low
  have inside : p.toNat < d.dbIo.length := by
    rw [refines.free.length]
    exact lt_toNat.mp low'
  rw [DiskManager.readPage,if_neg (UInt32.not_le.mpr low'),DbFile.read,if_pos inside]
  rfl

theorem allocatePage_refines (refines : Refines d s) (room : s.numPages < 0xFFFFFFFF) :
    ∃ d', d.allocatePage = .ok (s.top,d') ∧ Refines d' (s.after .allocatePage) := by
  have space : s.free = [] → d.numPages ≠ INVALID_PAGE_ID := by
    rw [refines.numPages]
    rintro - last
    rw [last] at room
    exact absurd room (by decide)
  obtain ⟨p,d',l',allocated,spec⟩ := allocatePage_spec refines.free space
  have header := allocatePage_header allocated (pos_ne refines.free.positive)
  have kept : ∀ q data, s.bytes q = some data → q ≠ p ∧ d'.dbIo.page q = data := by
    intro q data written
    obtain ⟨⟨positive,low,notFree⟩,bytes⟩ := refines.bytes q data written
    have other : q ≠ p := by
      rintro rfl
      rcases spec.source with ⟨same,_⟩ | ⟨_,_,same,_⟩
      · exact notFree (same ▸ List.mem_cons_self)
      · exact UInt32.lt_irrefl _ (refines.numPages ▸ same ▸ low)
    exact ⟨other,by rw [spec.pages q positive,if_neg (fun ⟨same,_⟩ => other same),bytes]⟩
  rcases spec.source with ⟨list,count⟩ | ⟨list,rfl,rfl,count⟩
  · have top : s.top = p := by simp [Store.top,list]
    have after : s.after .allocatePage = { s with free := l', bytes := Function.update s.bytes p none } := by
      simp only [Store.after,list]
    rw [top,after]
    refine ⟨d',allocated,spec.free,count.trans refines.numPages,header,fun q data written => ?_⟩
    by_cases same : q = p
    · subst same
      simp at written
    · have written : s.bytes q = some data := by simpa [Function.update_of_ne same] using written
      obtain ⟨⟨positive,low,notFree⟩,_⟩ := refines.bytes q data written
      rw [list] at notFree
      exact ⟨⟨positive,low,fun member => notFree (List.mem_cons_of_mem p member)⟩,(kept q data written).2⟩
  · have top : s.top = d.numPages := by simp [Store.top,list,refines.numPages]
    have after : s.after .allocatePage =
        { s with numPages := s.numPages + 1, bytes := Function.update s.bytes s.numPages none } := by
      simp only [Store.after,list]
    rw [top,after]
    refine ⟨d',allocated,by rw [list]; exact spec.free,by rw [count,refines.numPages],header,fun q data written => ?_⟩
    by_cases same : q = s.numPages
    · subst same
      simp at written
    · have written : s.bytes q = some data := by simpa [Function.update_of_ne same] using written
      obtain ⟨⟨positive,low,notFree⟩,_⟩ := refines.bytes q data written
      have grown : q < s.numPages + 1 := (lt_succ_iff (refines.numPages ▸ space list)).mpr (.inl low)
      exact ⟨⟨positive,grown,notFree⟩,(kept q data written).2⟩

theorem deallocatePage_refines (refines : Refines d s) (fresh : p ∉ s.free) :
    Refines (d.deallocatePage p) (s.after (.deallocatePage p)) := by
  have header := deallocatePage_header refines.header p
  by_cases outside : s.numPages ≤ p ∨ p = 0
  · rw [deallocatePage_outside (refines.numPages ▸ outside.symm),Store.after,if_pos outside]
    exact refines
  · obtain ⟨low,nonzero⟩ := not_or.mp outside
    obtain ⟨free,count,pages⟩ := deallocatePage_spec refines.free (pos_of_ne nonzero) (refines.numPages ▸ UInt32.not_le.mp low) fresh
    rw [Store.after,if_neg outside]
    refine ⟨free,count.trans refines.numPages,header,fun q data written => ?_⟩
    by_cases same : q = p
    · subst same
      simp at written
    · have written : s.bytes q = some data := by simpa [Function.update_of_ne same] using written
      obtain ⟨⟨positive,inside,notFree⟩,bytes⟩ := refines.bytes q data written
      exact ⟨⟨positive,inside,by simpa using ⟨same,notFree⟩⟩,by rw [pages q positive same,bytes]⟩

theorem writePage_ok (low : p < d.numPages) :
    d.writePage p data = .ok { d with dbIo := d.dbIo.write p data } := by
  rw [DiskManager.writePage,if_neg (UInt32.not_le.mpr low)]

theorem writePage_refines (refines : Refines d s) (allocated : s.Allocated p) (data : PageData) :
    Refines { d with dbIo := d.dbIo.write p data } (s.after (.writePage p data)) := by
  obtain ⟨positive,low,notFree⟩ := allocated
  have low' : p < d.numPages := refines.numPages ▸ low
  refine ⟨writePage_spec refines.free low' notFree data,refines.numPages,refines.header.write positive,fun q data' written => ?_⟩
  show _ ∧ Function.update d.dbIo.page p data q = data'
  by_cases same : q = p
  · subst same
    have here : data = data' := by simpa [Store.after] using written
    exact ⟨⟨positive,low,notFree⟩,by rw [Function.update_self,here]⟩
  · have written : s.bytes q = some data' := by simpa [Store.after,Function.update_of_ne same] using written
    obtain ⟨allocated',bytes⟩ := refines.bytes q data' written
    exact ⟨allocated',by rw [Function.update_of_ne same,bytes]⟩

/-- Every proper call does what the store does. -/
theorem perform_refines (refines : Refines d s) (proper : s.Proper call) :
    ∃ answer d', perform d call = .ok (answer,d') ∧ s.Answers call answer ∧ Refines d' (s.after call) := by
  cases call with
  | allocatePage =>
    obtain ⟨d',allocated,refines'⟩ := allocatePage_refines refines proper
    exact ⟨.pageId s.top,d',by rw [perform,allocated]; rfl,rfl,refines'⟩
  | deallocatePage p => exact ⟨.nothing,_,rfl,rfl,deallocatePage_refines refines proper⟩
  | writePage p data =>
    have low : p < d.numPages := refines.numPages ▸ proper.2.1
    exact ⟨.nothing,_,by rw [perform,writePage_ok low]; rfl,rfl,writePage_refines refines proper data⟩
  | readPage p =>
    refine ⟨.data (d.dbIo.page p),d,by rw [perform,readPage_ok refines proper.2.1]; rfl,⟨_,rfl,fun data written => ?_⟩,refines⟩
    exact (refines.bytes p data written).2
  | reopen =>
    have stored : 0 < d.dbIo.length := by
      rw [refines.free.length]
      exact lt_toNat.mp refines.free.positive
    exact ⟨.nothing,d,by rw [perform,reopen_same refines.header stored]; rfl,rfl,refines⟩

/-! ### Runs -/

/-- The manager and the store side by side. -/
def next (c : DiskManager × Store) (call : Call) : Option (DiskManager × Store) :=
  match perform c.1 call with
  | .ok (_,d) => some (d,c.2.after call)
  | .error _ => none

/-- Over every run of proper calls from a new file, the manager holds the store; it
    answers the next proper call as the store does and does not throw, and leaves
    page 0 and pages past the end alone. -/
theorem manager_refines_store (runs : Runs next (fun c call => c.2.Proper call) (DiskManager.create,Store.empty) (d,s)) :
    Refines d s ∧
      (∀ call, s.Proper call → ∃ answer d', perform d call = .ok (answer,d') ∧ s.Answers call answer ∧ Refines d' (s.after call)) ∧
      ∀ p, p = 0 ∨ d.numPages ≤ p → d.deallocatePage p = d := by
  have refines : Refines d s := by
    refine runs.invariant (fun c => Refines c.1 c.2) create_refines ?_
    rintro ⟨d,s⟩ call c' refines proper moved
    obtain ⟨answer,d',step,_,refines'⟩ := perform_refines refines proper
    simp only [next,step] at moved
    obtain rfl := Option.some.inj moved
    exact refines'
  exact ⟨refines,fun call proper => perform_refines refines proper,fun p outside => deallocatePage_outside outside⟩

/-- A page is allocated, written, and read after the file has been opened again. -/
theorem manager_refines_store_reopened : ∃ d s, s.bytes 1 = some (fun _ => 7) ∧ Refines d s ∧ d.readPage 1 = .ok (fun _ => 7) := by
  obtain ⟨d,s,along,written,low⟩ : ∃ d s, Along next (fun c call => c.2.Proper call) (DiskManager.create,Store.empty)
      [.allocatePage,.writePage 1 (fun _ => 7),.reopen] (d,s) ∧ s.bytes 1 = some (fun _ => 7) ∧ 1 < s.numPages :=
    ⟨_,_,⟨show (1 : UInt32) < 0xFFFFFFFF by decide,_,rfl,show Store.Allocated _ _ from ⟨by decide,by decide,by decide⟩,_,rfl,trivial,_,rfl,rfl⟩,
      rfl,by decide⟩
  obtain ⟨refines,_⟩ := manager_refines_store (runs_of_along along)
  exact ⟨d,s,written,refines,by rw [readPage_ok refines low,(refines.bytes 1 _ written).2]⟩

end
end Aether.DiskStore
