import Aether.BufferPoolFrames
import Aether.FreeList
import Aether.StorageService

/-!
What the answer to `DEALLOCATE_PAGE` says. `DeletePage` reports a page in use, and
`ERROR` means that nothing has changed. It does not report that the disk refuses page
0 or a page past the end, and `SUCCESS` means that the page is on the free list for
the other pages only.
-/
namespace Aether.ServiceDeallocation
open Aether.Bytes Aether.Types Aether.DiskManager Aether.BufferPool Aether.BufferPoolFrames Aether.FreeList
open Aether.StorageService Aether.Runs

/-- The page has been put in front of the free list, and is allocated next. -/
structure Pushed (d : DiskManager) (p : PageId) (d' : DiskManager) : Prop where
  head : d'.freeListHead = p
  valid : p ≠ INVALID_PAGE_ID
  link : link d' p = d.freeListHead
  next : ∃ d'', d'.allocatePage = .ok (p,d'')

/-- `SUCCESS` is answered when the page has been pushed, `ERROR` when nothing has
    changed. -/
def TellsTruth (s : Service) (client : Nat) (p : PageId) (s' : Service) : Prop :=
  ∃ response, s'.clients[client]? = some (.answering (.deallocatePage p) response) ∧
    if response.success = true then Pushed s.pool.disk p s'.pool.disk else s'.pool = s.pool

/-- The page is cached and a pin is held on it. -/
def InUse (b : BufferPoolManager) (p : PageId) : Prop := ∃ f, b.pageTable p = some f ∧ 0 < (b.pages f).pinCount

/-- The page is in use, or the disk can free it. -/
def Deallocatable (b : BufferPoolManager) (p : PageId) : Prop := InUse b p ∨ p ≠ 0 ∧ p < b.disk.numPages

section
variable {s s' : Service} {b : BufferPoolManager} {d : DiskManager} {client : Nat} {p : PageId}

/-- The disk frees a page of the file other than page 0. -/
theorem deallocatePage_pushed (other : p ≠ 0) (low : p < d.numPages) : Pushed d p (d.deallocatePage p) := by
  have inside : ¬(d.numPages ≤ p ∨ p = 0) := by
    rintro (outside | zero)
    · exact UInt32.not_le.mpr low outside
    · exact other zero
  have freed : d.deallocatePage p =
      { d with dbIo := d.dbIo.write p ((Block.zeros _).put32 0 d.freeListHead), freeListHead := p }.writeMetadata := if_neg inside
  have head : (d.deallocatePage p).freeListHead = p := by
    rw [freed]
    rfl
  have stored : p.toNat < (d.deallocatePage p).dbIo.length := by
    rw [freed]
    simp only [DiskManager.writeMetadata,DbFile.write]
    omega
  constructor
  case head => exact head
  case valid => exact lt_invalid low
  case link =>
    rw [FreeList.link,freed,writeMetadata_page other]
    simp only [DbFile.write,Function.update_self]
    exact Block.get32_put32 (by decide)
  case next =>
    refine ⟨{ d.deallocatePage p with freeListHead := link (d.deallocatePage p) p }.writeMetadata,?_⟩
    rw [DiskManager.allocatePage,head,if_pos (lt_invalid low),DbFile.read,if_pos stored]
    rfl

/-- A page that the disk refuses is not on the free list after that. -/
theorem not_pushed {l : List PageId} (free : FreeList d l) (outside : ¬(p ≠ 0 ∧ p < d.numPages)) : ¬Pushed d p d := by
  intro pushed
  have chain := free.chain
  rw [pushed.head] at chain
  cases l with
  | nil => exact pushed.valid chain
  | cons a rest =>
    obtain ⟨rfl,_⟩ := chain
    have inside := free.inside p List.mem_cons_self
    exact outside ⟨pos_ne inside.1,inside.2⟩

/-- `DeletePage` refuses a page in use and nothing else. -/
theorem deletePage_answers (b : BufferPoolManager) (p : PageId) :
    InUse b p ∧ b.deletePage p = (false,b) ∨
      ¬InUse b p ∧ (b.deletePage p).1 = true ∧ (b.deletePage p).2.disk = b.disk.deallocatePage p := by
  cases here : b.pageTable p with
  | none =>
    rw [deletePage_uncached here]
    refine .inr ⟨?_,rfl,rfl⟩
    rintro ⟨f,there,_⟩
    rw [here] at there
    cases there
  | some f =>
    by_cases pinned : 0 < (b.pages f).pinCount
    · refine .inl ⟨⟨f,here,pinned⟩,?_⟩
      rw [BufferPoolManager.deletePage,here]
      exact if_pos pinned
    · rw [deletePage_cached here pinned]
      refine .inr ⟨?_,rfl,rfl⟩
      rintro ⟨g,there,held⟩
      rw [here] at there
      cases there
      exact pinned held

/-- The answer and the state after it. -/
theorem advance_deallocates (received : s.clients[client]? = some (.received (.deallocatePage p)))
    (moved : s.next (.advance client) = some s') :
    InUse s.pool p ∧ s'.pool = s.pool ∧ s'.clients[client]? = some (.answering (.deallocatePage p) (.error p)) ∨
      ¬InUse s.pool p ∧ s'.pool.disk = s.pool.disk.deallocatePage p ∧
        s'.clients[client]? = some (.answering (.deallocatePage p) (.ok p)) := by
  obtain ⟨present,_⟩ := List.getElem?_eq_some_iff.mp received
  simp only [Service.next,received,Option.some.injEq] at moved
  subst moved
  have answered : ∀ h : Handler, (s.clients.set client h)[client]? = some h := fun h => List.getElem?_set_self present
  rcases deletePage_answers s.pool p with ⟨inUse,refused⟩ | ⟨free,done,disk⟩
  · have advanced : (Handler.received (.deallocatePage p)).advance s.pool =
        (.answering (.deallocatePage p) (.error p),s.pool) := by rw [Handler.advance,refused]
    rw [advanced]
    exact .inl ⟨inUse,rfl,answered _⟩
  · cases deleted : s.pool.deletePage p with
    | mk out b' =>
      rw [deleted] at done disk
      cases done
      have advanced : (Handler.received (.deallocatePage p)).advance s.pool =
          (.answering (.deallocatePage p) (.ok p),b') := by rw [Handler.advance,deleted]
      rw [advanced]
      exact .inr ⟨free,disk,answered _⟩

/-- In any state of the service, the answer to a deallocation tells the truth for a
    page that is in use or that the disk can free; where the free list is in order,
    for no other page. -/
theorem deallocation_acknowledged (received : s.clients[client]? = some (.received (.deallocatePage p)))
    (moved : s.next (.advance client) = some s') :
    (Deallocatable s.pool p → TellsTruth s client p s') ∧
      ∀ l, FreeList s.pool.disk l → (TellsTruth s client p s' ↔ Deallocatable s.pool p) := by
  have told : Deallocatable s.pool p → TellsTruth s client p s' := by
    rintro deallocatable
    rcases advance_deallocates received moved with ⟨_,same,answered⟩ | ⟨free,disk,answered⟩
    · exact ⟨_,answered,same⟩
    · obtain ⟨other,low⟩ := deallocatable.resolve_left free
      refine ⟨_,answered,?_⟩
      rw [disk]
      exact deallocatePage_pushed other low
  refine ⟨told,?_⟩
  intro l free
  refine ⟨?_,told⟩
  rintro ⟨response,answered,truth⟩
  by_contra refused
  obtain ⟨unused,outside⟩ := not_or.mp refused
  rcases advance_deallocates received moved with ⟨inUse,_⟩ | ⟨_,disk,answered'⟩
  · exact unused inUse
  · rw [answered'] at answered
    cases answered
    have same : s.pool.disk.deallocatePage p = s.pool.disk := by
      refine deallocatePage_outside ?_
      by_cases zero : p = 0
      · exact .inl zero
      · exact .inr (UInt32.not_lt.mp (fun low => outside ⟨zero,low⟩))
    have pushed : Pushed s.pool.disk p s'.pool.disk := truth
    rw [disk,same] at pushed
    exact not_pushed free outside pushed

end

/-- The service with its pool of 128 frames over a new database. -/
def fresh : Service := .start (.create 128 .create (.lru (.create 128)))

/-- A client allocates a page and deallocates it. -/
theorem deallocation_acknowledged_allocated : ∃ s s', Runs Service.next (fun _ _ => True) fresh s ∧
    s.clients[0]? = some (.received (.deallocatePage 1)) ∧ s.next (.advance 0) = some s' ∧
      (Deallocatable s.pool 1 → TellsTruth s 0 1 s') ∧
        ∀ l, FreeList s.pool.disk l → (TellsTruth s 0 1 s' ↔ Deallocatable s.pool 1) := by
  obtain ⟨s,s',along,received,moved⟩ : ∃ s s', Along Service.next (fun _ _ => True) fresh
      [.connect,.receive 0 .allocatePage,.advance 0,.advance 0,.answer 0,.receive 0 (.deallocatePage 1)] s ∧
      s.clients[0]? = some (.received (.deallocatePage 1)) ∧ s.next (.advance 0) = some s' :=
    ⟨_,_,⟨trivial,_,rfl,trivial,_,rfl,trivial,_,rfl,trivial,_,rfl,trivial,_,rfl,trivial,_,rfl,rfl⟩,rfl,rfl⟩
  exact ⟨s,s',runs_of_along along,received,moved,deallocation_acknowledged received moved⟩

/-- A client of a new service writes page 0 and deallocates it. Both are answered
    `SUCCESS`; the bytes are gone from the pool, the disk is as it was, and the next
    page allocated is page 1. -/
theorem deallocation_of_page_0 : ∃ s s', Runs Service.next (fun _ _ => True) fresh s ∧
    s.clients[0]? = some (.received (.deallocatePage 0)) ∧ s.next (.advance 0) = some s' ∧
      s'.clients[0]? = some (.answering (.deallocatePage 0) (.ok 0)) ∧ s'.pool.disk = s.pool.disk ∧
        (∃ f, s.pool.pageTable 0 = some f ∧ (s.pool.pages f).isDirty = true) ∧ s'.pool.pageTable 0 = none ∧
          (s'.pool.disk.allocatePage.toOption.map Prod.fst = some 1) ∧ ¬TellsTruth s 0 0 s' := by
  obtain ⟨s,s',along,received,moved,answered,disk,cached,dropped,next,same⟩ : ∃ s s', Along Service.next (fun _ _ => True) fresh
      [.connect,.receive 0 (.writePage 0 (fun _ => 7)),.advance 0,.advance 0,.advance 0,.answer 0,.receive 0 (.deallocatePage 0)] s ∧
      s.clients[0]? = some (.received (.deallocatePage 0)) ∧ s.next (.advance 0) = some s' ∧
      s'.clients[0]? = some (.answering (.deallocatePage 0) (.ok 0)) ∧ s'.pool.disk = s.pool.disk ∧
      (∃ f, s.pool.pageTable 0 = some f ∧ (s.pool.pages f).isDirty = true) ∧ s'.pool.pageTable 0 = none ∧
      (s'.pool.disk.allocatePage.toOption.map Prod.fst = some 1) ∧ s'.pool.disk.freeListHead = INVALID_PAGE_ID :=
    ⟨_,_,⟨trivial,_,rfl,trivial,_,rfl,trivial,_,rfl,trivial,_,rfl,trivial,_,rfl,trivial,_,rfl,trivial,_,rfl,rfl⟩,rfl,rfl,rfl,rfl,
      ⟨0,rfl,rfl⟩,rfl,rfl,rfl⟩
  refine ⟨s,s',runs_of_along along,received,moved,answered,disk,cached,dropped,next,?_⟩
  rintro ⟨response,answered',truth⟩
  rw [answered] at answered'
  cases answered'
  have pushed : Pushed s.pool.disk 0 s'.pool.disk := truth
  have head := pushed.head
  rw [same] at head
  cases head

end Aether.ServiceDeallocation
