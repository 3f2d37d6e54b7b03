import Aether.PoolContents
import Aether.Runs

/-!
The accounts of the pool over whole runs. Callers fetch and delete only pages that
they have been given and have not deleted, and may unpin and flush any; then every
frame is in one place, and a page is refused only when all frames have pins.
-/
namespace Aether.PoolAccounting
open Aether.Bytes Aether.Types Aether.DiskManager Aether.FreeList Aether.Replacers Aether.Replacers.Replacer
open Aether.BufferPool Aether.BufferPoolFrames Aether.PoolContents Aether.Runs

/-- A call of the pool, or a write through a page pointer. -/
inductive Call
  | newPage
  | fetchPage (pageId : PageId)
  | unpinPage (pageId : PageId) (isDirty : Bool)
  | flushPage (pageId : PageId)
  /-- With the order in which the page table is gone through. -/
  | flushAllPages (order : List PageId)
  | deletePage (pageId : PageId)
  | write (frameId : FrameId) (data : PageData)

/-- A pool, and the ids that `NewPage` has returned and that have not been deleted since. -/
structure Use where
  pool : BufferPoolManager
  live : List PageId

/-- The state after a call, whatever it returns or throws. -/
def Use.next (s : Use) : Call → Option Use
  | .newPage =>
    match s.pool.newPage with
    | (.ok (some (pageId,_)),pool) => some { pool, live := pageId :: s.live }
    | (_,pool) => some { s with pool }
  | .fetchPage pageId => some { s with pool := (s.pool.fetchPage pageId).2 }
  | .unpinPage pageId isDirty => some { s with pool := (s.pool.unpinPage pageId isDirty).2 }
  | .flushPage pageId => some { s with pool := (s.pool.flushPage pageId).2 }
  | .flushAllPages order => some { s with pool := (s.pool.flushAllPages order).2 }
  | .deletePage pageId =>
    match s.pool.deletePage pageId with
    | (true,pool) => some { pool, live := s.live.filter (fun q => decide (q ≠ pageId)) }
    | (false,pool) => some { s with pool }
  | .write frameId data => some { s with pool := s.pool.write frameId data }

/-- Fetched and deleted pages are live, and the file is below its largest size. -/
def Proper (s : Use) (call : Call) : Prop :=
  s.pool.disk.numPages < 0xFFFFFFFF ∧
    match call with
    | .fetchPage pageId => pageId ∈ s.live
    | .deletePage pageId => pageId ∈ s.live
    | _ => True

/-- Every frame of the pool of `n` has pins. -/
def AllPinned (b : BufferPoolManager) (n : Nat) : Prop := ∀ f, IsFrame n f → 0 < (b.pages f).pinCount

/-- The accounts of a pool of `n` frames. -/
structure Accounted (n : Nat) (s : Use) : Prop where
  /-- Every frame is free or has a page, and not both. -/
  once : ∀ f, IsFrame n f → (f ∈ s.pool.freeList ↔ ∀ p, s.pool.pageTable p ≠ some f)
  distinct : s.pool.freeList.Nodup
  frames : ∀ f, f ∈ s.pool.freeList ∨ (∃ p, s.pool.pageTable p = some f) → IsFrame n f
  injective : ∀ p q f, s.pool.pageTable p = some f → s.pool.pageTable q = some f → p = q
  pageId : ∀ p f, s.pool.pageTable p = some f → (s.pool.pages f).pageId = p
  evictable : ∀ f, Has s.pool.replacer f ↔ (∃ p, s.pool.pageTable p = some f) ∧ (s.pool.pages f).pinCount = 0
  counts : ∀ f, IsFrame n f → 0 ≤ (s.pool.pages f).pinCount
  /-- A page that is not in the pool, and a new one, is refused exactly when all
      frames have pins, and then nothing changes. -/
  refusesFetch : ∀ p ∈ s.live, s.pool.pageTable p = none → ((s.pool.fetchPage p).1 = .ok none ↔ AllPinned s.pool n)
  refusesNew : s.pool.newPage.1 = .ok none ↔ AllPinned s.pool n
  unchanged : AllPinned s.pool n →
    s.pool.newPage = (.ok none,s.pool) ∧ ∀ p ∈ s.live, s.pool.pageTable p = none → s.pool.fetchPage p = (.ok none,s.pool)

/-! ### The invariant -/

section
variable {s s' : Use} {b b' : BufferPoolManager} {call : Call} {pins : Multiset PageId} {l : List PageId} {n : Nat} {p : PageId}
variable {live : List PageId} {f : FrameId} {isDirty : Bool} {data : PageData}

/-- A pool in order, none of whose frames is lost or has a free page. -/
structure InOrder (n : Nat) (b : BufferPoolManager) (live : List PageId) (pins : Multiset PageId) (l : List PageId) : Prop where
  consistent : Consistent b pins (fun _ => True) l
  covered : Covered b
  idle : Idle b
  poolSize : b.poolSize = n
  uncached : ∀ p ∈ l, b.pageTable p = none
  owned : ∀ p ∈ live, Owned b.disk l p

theorem create_inOrder {disk : DiskManager} {replacer : Replacer} (fresh : Fresh n replacer) (free : FreeList disk l) :
    InOrder n (.create n disk replacer) [] 0 l := by
  refine ⟨create_consistent fresh free,fun f frame => .inl (List.mem_map.mpr ⟨f.toNat,?_,Int.toNat_of_nonneg frame.1⟩),
    fun _ _ => rfl,rfl,fun _ _ => rfl,by simp⟩
  have low : f < n := frame.2
  have natural := frame.1
  exact List.mem_range.mpr (by omega)

theorem fetchPage_inOrder (inOrder : InOrder n b live pins l) (member : p ∈ live) :
    ∃ pins', InOrder n (b.fetchPage p).2 live pins' l := by
  have own := inOrder.owned p member
  rcases fetchPage_cases inOrder.consistent.accounts p with ⟨f,b',fetch,fetched,accounts',low⟩ | ⟨_,fetch⟩ |
    ⟨_,_,_,_,_,outside,_⟩ | ⟨_,_,_,_,_,stuck⟩
  · rw [fetch]
    refine ⟨p ::ₘ pins,fetched_consistent inOrder.consistent fetched accounts' low,fetched.covered inOrder.covered,
      fetched.idle inOrder.idle,fetched.poolSize.trans inOrder.poolSize,fun q free => ?_,fun q there => ?_⟩
    · have other : q ≠ p := by rintro rfl; exact own.notFree free
      cases there : b'.pageTable q with
      | none => rfl
      | some g =>
        have before := (fetched_kept fetched other there).1
        rw [inOrder.uncached q free] at before
        cases before
    · obtain ⟨positive,inFile,notFree⟩ := inOrder.owned q there
      exact ⟨positive,fetched.numPages.symm ▸ inFile,notFree⟩
  · rw [fetch]
    exact ⟨pins,inOrder⟩
  · exact absurd own.inFile (UInt32.not_lt.mpr outside)
  · exact absurd stuck inOrder.consistent.notStuck

theorem unpinPage_inOrder (inOrder : InOrder n b live pins l) (p : PageId) (isDirty : Bool) :
    ∃ pins', InOrder n (b.unpinPage p isDirty).2 live pins' l := by
  by_cases pinned : p ∈ pins
  · obtain ⟨rest,rfl⟩ := Multiset.exists_cons_of_mem pinned
    obtain ⟨f,b',step,unpinned,accounts'⟩ := unpinPage_held inOrder.consistent.accounts isDirty
    rw [step]
    refine ⟨rest,unpinned_consistent inOrder.consistent unpinned accounts' (fun _ _ _ => trivial) (fun _ _ => trivial),
      unpinned.covered inOrder.covered,unpinned.idle inOrder.idle,unpinned.poolSize.trans inOrder.poolSize,fun q free => ?_,
      fun q there => ?_⟩
    · rw [unpinned.pageTable]
      exact inOrder.uncached q free
    · rw [unpinned.disk]
      exact inOrder.owned q there
  · rw [unpinPage_unheld inOrder.consistent.accounts pinned]
    exact ⟨pins,inOrder⟩

theorem flushFrame_inOrder (inOrder : InOrder n b live pins l) (here : b.pageTable p = some f) :
    ∃ b', b.flushFrame f = (.ok (),b') ∧ InOrder n b' live pins l := by
  obtain ⟨b',step,flushed,accounts'⟩ := flushFrame_spec inOrder.consistent.accounts here (inOrder.consistent.low p f here)
  refine ⟨b',step,flushed_consistent inOrder.consistent flushed accounts',flushed.covered inOrder.covered,
    flushed.idle inOrder.idle,flushed.poolSize.trans inOrder.poolSize,fun q free => ?_,fun q there => ?_⟩
  · rw [flushed.pageTable]
    exact inOrder.uncached q free
  · obtain ⟨positive,inFile,notFree⟩ := inOrder.owned q there
    exact ⟨positive,flushed.numPages.symm ▸ inFile,notFree⟩

theorem flushPage_inOrder (inOrder : InOrder n b live pins l) (p : PageId) : InOrder n (b.flushPage p).2 live pins l := by
  cases here : b.pageTable p with
  | none =>
    simp only [BufferPoolManager.flushPage,here]
    exact inOrder
  | some f =>
    obtain ⟨b',step,inOrder'⟩ := flushFrame_inOrder inOrder here
    simp only [BufferPoolManager.flushPage,here,step]
    exact inOrder'

theorem flushAllPages_inOrder : ∀ {b : BufferPoolManager} (order : List PageId), InOrder n b live pins l →
    InOrder n (b.flushAllPages order).2 live pins l
  | _, [], inOrder => inOrder
  | b, p :: rest, inOrder => by
    cases here : b.pageTable p with
    | none =>
      simp only [BufferPoolManager.flushAllPages,here]
      exact flushAllPages_inOrder rest inOrder
    | some f =>
      obtain ⟨b',step,inOrder'⟩ := flushFrame_inOrder inOrder here
      simp only [BufferPoolManager.flushAllPages,here,step]
      exact flushAllPages_inOrder rest inOrder'

theorem write_inOrder (inOrder : InOrder n b live pins l) (f : FrameId) (data : PageData) :
    InOrder n (b.write f data) live pins l := by
  have counts : ∀ g, ((b.write f data).pages g).pinCount = (b.pages g).pinCount := by
    intro g
    by_cases same : g = f
    · subst same; simp [BufferPoolManager.write,BufferPoolManager.setPage]
    · simp [BufferPoolManager.write,BufferPoolManager.setPage,Function.update_of_ne same]
  have consistent := inOrder.consistent
  refine ⟨⟨accounts_write consistent.accounts,consistent.free,consistent.low,fun q g free there => ?_,
    fun _ _ _ _ _ fixed => absurd trivial fixed⟩,inOrder.covered,fun g unmapped => ?_,inOrder.poolSize,inOrder.uncached,inOrder.owned⟩
  · exact absurd there (by rw [show (b.write f data).pageTable q = b.pageTable q from rfl,inOrder.uncached q free]; simp)
  · rw [counts]
    exact inOrder.idle g unmapped

theorem deletePage_inOrder (inOrder : InOrder n b live pins l) (member : p ∈ live) :
    b.deletePage p = (false,b) ∨
    ∃ b', b.deletePage p = (true,b') ∧ InOrder n b' (live.filter (fun q => decide (q ≠ p))) pins (p :: l) := by
  have own := inOrder.owned p member
  rcases deletePage_cases inOrder.consistent.accounts p with ⟨_,step⟩ | ⟨free,b',step,deleted,accounts'⟩
  · exact .inl step
  · obtain ⟨consistent',count⟩ := deleted_inside inOrder.consistent deleted accounts' own.positive own.inFile own.notFree
    have gone : ∀ q, q ∈ p :: l → b'.pageTable q = none := by
      intro q free
      cases there : b'.pageTable q with
      | none => rfl
      | some g =>
        obtain ⟨before,other⟩ := (deleted.table q g).mp there
        rw [inOrder.uncached q ((List.mem_cons.mp free).resolve_left other)] at before
        cases before
    refine .inr ⟨b',step,consistent',deleted.covered inOrder.covered,deleted.idle inOrder.idle,
      deleted.poolSize.trans inOrder.poolSize,gone,fun q there => ?_⟩
    obtain ⟨old,other⟩ := List.mem_filter.mp there
    obtain ⟨positive,inFile,notFree⟩ := inOrder.owned q old
    exact ⟨positive,count ▸ inFile,by simpa using ⟨of_decide_eq_true other,notFree⟩⟩

theorem newPage_inOrder (inOrder : InOrder n b live pins l) (room : b.disk.numPages ≠ INVALID_PAGE_ID) :
    b.replacement = none ∧ b.newPage = (.ok none,b) ∨
    ∃ p f b' l', b.newPage = (.ok (some (p,f)),b') ∧ b.replacement = some f ∧ InOrder n b' (p :: live) (p ::ₘ pins) l' := by
  have consistent := inOrder.consistent
  have uncached := consistent.handsOut inOrder.uncached
  rcases newPage_cases consistent.accounts uncached with ⟨p,f,b',step,created,accounts'⟩ | none |
    ⟨f,b',e,_,failed,selected,_⟩ | ⟨_,_,_,_,stuck⟩
  · obtain ⟨l',consistent',granted⟩ := created_consistent (fun _ => True) consistent created accounts' (fun _ => room)
      (fun _ _ => trivial)
    obtain ⟨b₁,selected,_⟩ := created.allocated
    refine .inr ⟨p,f,b',l',step,selected.replacement,consistent',created.covered inOrder.covered,created.idle uncached inOrder.idle,
      created.poolSize.trans inOrder.poolSize,fun q free => ?_,fun q there => ?_⟩
    · have other : q ≠ p := by rintro rfl; exact granted.fresh free
      have old : q ∈ l := by
        by_contra notFree
        exact granted.notFree notFree free
      cases there : b'.pageTable q with
      | none => rfl
      | some g =>
        have before := (created_kept created other there).1
        rw [inOrder.uncached q old] at before
        cases before
    · rcases List.mem_cons.mp there with rfl | old
      · exact ⟨pos_of_ne granted.positive,granted.inside,granted.fresh⟩
      · obtain ⟨positive,inFile,notFree⟩ := inOrder.owned q old
        exact ⟨positive,granted.grows inFile,granted.notFree notFree⟩
  · exact .inl none
  · obtain ⟨p,d,l',allocated,_⟩ := allocatePage_spec (selected_free consistent selected) (fun _ => by rw [selected.numPages]; exact room)
    rw [failed] at allocated
    cases allocated
  · exact absurd stuck consistent.notStuck

/-- Every proper call keeps the pool in order. -/
theorem next_inOrder (inOrder : InOrder n s.pool s.live pins l) (proper : Proper s call) (moved : s.next call = some s') :
    ∃ pins' l', InOrder n s'.pool s'.live pins' l' := by
  obtain ⟨below,proper⟩ := proper
  cases call with
  | newPage =>
    rcases newPage_inOrder inOrder (by rintro last; rw [last] at below; exact absurd below (by decide)) with
      ⟨_,step⟩ | ⟨p,f,b',l',step,_,inOrder'⟩
    · simp only [Use.next,step] at moved
      obtain rfl := Option.some.inj moved
      exact ⟨pins,l,inOrder⟩
    · simp only [Use.next,step] at moved
      obtain rfl := Option.some.inj moved
      exact ⟨_,l',inOrder'⟩
  | fetchPage p =>
    obtain rfl := Option.some.inj moved
    obtain ⟨pins',inOrder'⟩ := fetchPage_inOrder inOrder proper
    exact ⟨pins',l,inOrder'⟩
  | unpinPage p isDirty =>
    obtain rfl := Option.some.inj moved
    obtain ⟨pins',inOrder'⟩ := unpinPage_inOrder inOrder p isDirty
    exact ⟨pins',l,inOrder'⟩
  | flushPage p =>
    obtain rfl := Option.some.inj moved
    exact ⟨pins,l,flushPage_inOrder inOrder p⟩
  | flushAllPages order =>
    obtain rfl := Option.some.inj moved
    exact ⟨pins,l,flushAllPages_inOrder order inOrder⟩
  | deletePage p =>
    rcases deletePage_inOrder inOrder proper with step | ⟨b',step,inOrder'⟩
    · simp only [Use.next,step] at moved
      obtain rfl := Option.some.inj moved
      exact ⟨pins,l,inOrder⟩
    · simp only [Use.next,step] at moved
      obtain rfl := Option.some.inj moved
      exact ⟨pins,_,inOrder'⟩
  | write f data =>
    obtain rfl := Option.some.inj moved
    exact ⟨pins,l,write_inOrder inOrder f data⟩

/-- A pool in order has its accounts in order. -/
theorem InOrder.accounted (inOrder : InOrder n s.pool s.live pins l) (below : s.pool.disk.numPages < 0xFFFFFFFF) : Accounted n s := by
  have consistent := inOrder.consistent
  have accounts := consistent.accounts
  have refused : s.pool.replacement = none ↔ AllPinned s.pool n := by
    rw [replacement_none accounts inOrder.covered inOrder.idle,inOrder.poolSize]
    rfl
  have valid : ∀ p ∈ s.live, p ≠ INVALID_PAGE_ID := fun p member => lt_invalid (inOrder.owned p member).inFile
  have room : s.pool.disk.numPages ≠ INVALID_PAGE_ID := by
    intro last
    rw [last] at below
    exact absurd below (by decide)
  refine ⟨fun f frame => ⟨fun free p => (accounts.free f free).2 p,fun unmapped => ?_⟩,accounts.distinct,?_,?_,
    fun p f here => (accounts.mapped p f here).2,fun f => ?_,fun f frame => ?_,fun p member absent => ?_,?_,fun all => ⟨?_,?_⟩⟩
  · rcases inOrder.covered f (inOrder.poolSize.symm ▸ frame) with free | ⟨p,here⟩
    · exact free
    · exact absurd here (unmapped p)
  · rintro f (free | ⟨p,here⟩)
    · exact inOrder.poolSize ▸ (accounts.free f free).1
    · exact inOrder.poolSize ▸ (accounts.mapped p f here).1
  · exact fun p q f first second => accounts.injective first second
  · rw [accounts.evictable]
    constructor
    · rintro ⟨p,here,free⟩
      exact ⟨⟨p,here⟩,by rw [accounts.pinned p f here,Multiset.count_eq_zero.mpr free]; rfl⟩
    · rintro ⟨⟨p,here⟩,zero⟩
      rw [accounts.pinned p f here] at zero
      exact ⟨p,here,Multiset.count_eq_zero.mp (by exact_mod_cast zero)⟩
  · by_cases mapped : ∃ p, s.pool.pageTable p = some f
    · obtain ⟨p,here⟩ := mapped
      rw [accounts.pinned p f here]
      exact Int.natCast_nonneg _
    · exact (inOrder.idle f (fun p here => mapped ⟨p,here⟩)).ge
  · rw [← refused]
    refine ⟨fun none => ?_,fun full => by rw [fetchPage_full accounts absent full]⟩
    rcases fetchPage_cases accounts p with ⟨f,b',step,_⟩ | ⟨invalid | ⟨_,full⟩,_⟩ | ⟨_,_,_,_,_,outside,_⟩ | ⟨_,_,_,_,_,stuck⟩
    · rw [step] at none
      cases none
    · exact absurd invalid (lt_invalid (inOrder.owned p member).inFile)
    · exact full
    · exact absurd (inOrder.owned p member).inFile (UInt32.not_lt.mpr outside)
    · exact absurd stuck consistent.notStuck
  · rw [← refused]
    rcases newPage_inOrder inOrder room with ⟨full,step⟩ | ⟨p,f,b',l',step,found,_⟩
    · simp [full,step]
    · simp [found,step]
  · rcases newPage_inOrder inOrder room with ⟨_,step⟩ | ⟨p,f,b',l',_,found,_⟩
    · exact step
    · rw [refused.mpr all] at found
      cases found
  · exact fun p member absent => fetchPage_full accounts absent (refused.mpr all)

/-- Over every run of proper calls, the accounts of the pool are in order. -/
theorem calls_keep_accounts {disk : DiskManager} {replacer : Replacer} (fresh : Fresh n replacer) (free : FreeList disk l)
    (runs : Runs Use.next Proper { pool := .create n disk replacer, live := [] } s) (below : s.pool.disk.numPages < 0xFFFFFFFF) :
    Accounted n s := by
  obtain ⟨pins,l',inOrder⟩ : ∃ pins l, InOrder n s.pool s.live pins l := by
    refine runs.invariant (fun s => ∃ pins l, InOrder n s.pool s.live pins l) ⟨0,l,create_inOrder fresh free⟩ ?_
    rintro s call s' ⟨pins,l,inOrder⟩ proper moved
    exact next_inOrder inOrder proper moved
  exact inOrder.accounted below

/-- A page is created, unpinned and fetched again in a pool of one frame. -/
theorem calls_keep_accounts_one : ∃ s : Use, s.live = [1] ∧ Accounted 1 s := by
  obtain ⟨s,along,live,below⟩ : ∃ s, Along Use.next Proper { pool := .create 1 .create (.clock (.create 1)), live := [] }
      [.newPage,.unpinPage 1 false,.fetchPage 1] s ∧ s.live = [1] ∧ s.pool.disk.numPages = 2 :=
    ⟨_,⟨⟨by decide,trivial⟩,_,rfl,⟨by decide,trivial⟩,_,rfl,⟨by decide,List.mem_singleton_self 1⟩,_,rfl,rfl⟩,rfl,rfl⟩
  exact ⟨s,live,calls_keep_accounts (.inr rfl) create_freeList (runs_of_along along) (by rw [below]; decide)⟩

end
end Aether.PoolAccounting
