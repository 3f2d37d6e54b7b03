import Aether.PoolContents
import Aether.DiskStore
import Aether.PageStore

/-!
Clients of the page store on the pool itself. `drive` runs a client on a
`BufferPoolManager`: a page pointer is a frame, and contents are read and written
in its bytes. A client that marks what it changes as dirty before it lets go of it
cannot tell the pool from the page store: what it does on the one, it does on the
other, for some script of null pages.
-/
namespace Aether.PoolClients
open Aether.Bytes Aether.Programs Aether.Types Aether.DiskManager Aether.FreeList Aether.Replacers Aether.BufferPool
open Aether.BufferPoolFrames Aether.PageStore BufferPoolManager
open Aether.DiskStore (Header allocatePage_header deallocatePage_header)
open Aether.PoolContents hiding Granted

/-! ### Contents in bytes -/

/-- How a content lies in the bytes of a page: it is read and written in place. -/
structure Format (D : Type) where
  view : PageData → D
  store : PageData → D → PageData
  /-- The content has a representation. -/
  Fits : D → Prop
  fits_view : ∀ bytes : PageData, Fits (view bytes)
  view_store : ∀ {bytes : PageData} {d : D}, Fits d → view (store bytes d) = d
  store_view : ∀ bytes : PageData, store bytes (view bytes) = bytes

/-- The bytes themselves. -/
def rawFormat : Format PageData :=
  { view := id, store := fun _ d => d, Fits := fun _ => True, fits_view := fun _ => trivial, view_store := fun _ => rfl,
    store_view := fun _ => rfl }

/-- The content of a new page. -/
def Format.blank {D : Type} (format : Format D) : D := format.view (Block.zeros _)

/-- A pool and the frame that the client's pointer to each page points to. -/
structure Machine where
  pool : BufferPoolManager
  pointer : PageId → FrameId

/-- The calls on the pool. An exception ends the client. -/
def drive {D : Type} (format : Format D) {β : Type} : PoolOp D β → Machine → Except Fault (β × Machine)
  | .fetchPage p, m =>
    match m.pool.fetchPage p with
    | (.error _,_) => .error .noSuchPage
    | (.ok none,pool) => .ok (none,{ m with pool })
    | (.ok (some f),pool) => .ok (some p,{ pool, pointer := Function.update m.pointer p f })
  | .newPage, m =>
    match m.pool.newPage with
    | (.error _,_) => .error .noSuchPage
    | (.ok none,pool) => .ok (none,{ m with pool })
    | (.ok (some (p,f)),pool) => .ok (some p,{ pool, pointer := Function.update m.pointer p f })
  | .unpinPage p isDirty, m => .ok ((m.pool.unpinPage p isDirty).1,{ m with pool := (m.pool.unpinPage p isDirty).2 })
  | .deletePage p, m => .ok ((m.pool.deletePage p).1,{ m with pool := (m.pool.deletePage p).2 })
  | .getData p, m => .ok (format.view (m.pool.pages (m.pointer p)).data,m)
  | .setData p d, m =>
    .ok ((),{ m with pool := m.pool.write (m.pointer p) (format.store (m.pool.pages (m.pointer p)).data d) })

/-! ### What a client owes -/

/-- The page store, the pages that were changed and not marked dirty since, and how many new
    pages may still be asked for. -/
structure Ledger (D : Type) where
  store : Store D
  owed : PageId → Prop
  ids : Nat

/-- The pages owed after a call. -/
def owedAfter {D : Type} {β : Type} : PoolOp D β → β → Ledger D → PageId → Prop
  | .newPage, some p, t => fun q => q = p ∨ t.owed q
  | .unpinPage p true, _, t => fun q => q ≠ p ∧ t.owed q
  | .setData p d, _, t => fun q => q = p ∧ t.store.data p ≠ some d ∨ t.owed q
  | _, _, t => t.owed

/-- A call of `NewPage` counts, whatever is answered. -/
def idsAfter {D : Type} {β : Type} : PoolOp D β → Ledger D → Nat
  | .newPage, t => t.ids - 1
  | _, t => t.ids

/-- The account after a call. -/
def Ledger.after {D : Type} {β : Type} (t : Ledger D) (op : PoolOp D β) (answer : β) (store : Store D) : Ledger D :=
  { store, owed := owedAfter op answer t, ids := idsAfter op t }

/-- The page store with the account kept. -/
def monitor {D : Type} (blank : D) {β : Type} (op : PoolOp D β) (t : Ledger D) : Except Fault (β × Ledger D) :=
  match exec blank op t.store with
  | .error reason => .error reason
  | .ok (answer,store) => .ok (answer,t.after op answer store)

/-- The client writes what has a representation, gives back pins that it has, but not its
    last pin on a page that it owes, and asks for no more new pages than it may. -/
def Careful {D : Type} (format : Format D) : {β : Type} → PoolOp D β → Ledger D → Prop
  | _, .unpinPage p isDirty, t => p ∈ t.store.pins ∧ (isDirty = false → t.owed p → p ∈ t.store.pins.erase p)
  | _, .setData _ d, _ => format.Fits d
  | _, .newPage, t => 0 < t.ids
  | _, _, _ => True

/-- The number of pages that can still be handed out. -/
def idsLeft {D : Type} (s : Store D) : Nat := s.free.length + (4294967295 - s.numPages.toNat)

theorem idsLeft_pos {D : Type} {s : Store D} (left : 0 < idsLeft s) : ¬(s.free = [] ∧ s.numPages = INVALID_PAGE_ID) := by
  rintro ⟨empty,full⟩
  have last : INVALID_PAGE_ID.toNat = 4294967295 := rfl
  rw [idsLeft,empty,full,last] at left
  simp at left

/-! ### The pool behind a store -/

/-- The machine holds the store: each page's content is in the pool or in the file, and
    only what is owed may differ from the file under a clean frame. -/
structure Backs {D : Type} (format : Format D) (frames : Nat) (m : Machine) (s : Store D) (owed : PageId → Prop) : Prop where
  consistent : Consistent m.pool s.pins owed s.free
  covered : Covered m.pool
  idle : Idle m.pool
  poolSize : m.pool.poolSize = frames
  wellFormed : WellFormed s
  numPages : m.pool.disk.numPages = s.numPages
  header : Header m.pool.disk
  shown : ∀ p d, s.data p = some d → format.view (current m.pool p) = d
  cached : ∀ p f, m.pool.pageTable p = some f → s.data p ≠ none
  bound : ∀ p ∈ s.pins, m.pool.pageTable p = some (m.pointer p)
  held : ∀ p, owed p → p ∈ s.pins

section
variable {D : Type} {format : Format D} {frames : Nat} {m m' : Machine} {s : Store D} {owed : PageId → Prop}
variable {p q : PageId} {f : FrameId} {b' : BufferPoolManager}

theorem Backs.rescript (backs : Backs format frames m s owed) (script : List Bool) : Backs format frames m { s with script } owed :=
  have wf := backs.wellFormed
  ⟨backs.consistent,backs.covered,backs.idle,backs.poolSize,⟨wf.first,wf.distinct,wf.partition,wf.exclusive,wf.pinned⟩,
    backs.numPages,backs.header,backs.shown,backs.cached,backs.bound,backs.held⟩

theorem Backs.fits (backs : Backs format frames m s owed) {d : D} (stored : s.data p = some d) : format.Fits d :=
  backs.shown p d stored ▸ format.fits_view _

/-- An allocated page is a page of the file that is not free and not page 0. -/
theorem Backs.owned (backs : Backs format frames m s owed) (stored : s.data p ≠ none) : Owned m.pool.disk s.free p := by
  obtain ⟨positive,inFile⟩ := (backs.wellFormed.partition p).mpr (.inr stored)
  exact ⟨positive,backs.numPages ▸ inFile,fun member => stored (backs.wellFormed.exclusive p member)⟩

theorem Backs.uncached (backs : Backs format frames m s owed) : ∀ p ∈ s.free, m.pool.pageTable p = none := by
  intro p member
  cases there : m.pool.pageTable p with
  | none => rfl
  | some f => exact absurd (backs.wellFormed.exclusive p member) (backs.cached p f there)

/-- Page 0 is never in the pool. -/
theorem Backs.zero (backs : Backs format frames m s owed) : m.pool.pageTable 0 = none := by
  cases there : m.pool.pageTable 0 with
  | none => rfl
  | some f => exact absurd rfl (pos_ne (backs.owned (backs.cached 0 f there)).positive)

/-- A call that leaves page 0 and the metadata in memory alone. -/
theorem Backs.keepsHeader (backs : Backs format frames m s owed) (head : b'.disk.freeListHead = m.pool.disk.freeListHead)
    (count : b'.disk.numPages = m.pool.disk.numPages) (stored : b'.disk.dbIo.page 0 = m.pool.disk.dbIo.page 0) : Header b'.disk := by
  unfold Header
  rw [stored,head,count]
  exact backs.header

/-- A new pool holds what is in its file. -/
theorem create_backs {n : Nat} {disk : DiskManager} {replacer : Replacer} (fresh : Fresh n replacer) (free : FreeList disk s.free)
    (header : Header disk) (numPages : disk.numPages = s.numPages) (wellFormed : WellFormed s) (unpinned : s.pins = 0)
    (stored : ∀ p d, s.data p = some d → format.view (disk.dbIo.page p) = d) (pointer : PageId → FrameId) :
    Backs format n { pool := .create n disk replacer, pointer } s (fun _ => False) := by
  have consistent : Consistent (.create n disk replacer) s.pins (fun _ => False) s.free := by
    rw [unpinned]
    exact create_consistent fresh free
  refine ⟨consistent,fun f frame => .inl (List.mem_map.mpr ⟨f.toNat,?_,Int.toNat_of_nonneg frame.1⟩),fun _ _ => rfl,rfl,wellFormed,
    numPages,header,stored,fun p f here => (by cases here),fun p pinned => ?_,fun p old => old.elim⟩
  · have low : f < n := frame.2
    have natural := frame.1
    exact List.mem_range.mpr (by omega)
  · rw [unpinned] at pinned
    exact absurd pinned (Multiset.notMem_zero p)

/-! ### The calls -/

/-- The page is found or loaded. -/
theorem Backs.fetched (backs : Backs format frames m s owed) (fetched : Fetched m.pool p f b') (accounts' : Accounts b' (p ::ₘ s.pins))
    (inFile : m.pool.pageTable p = none → p < m.pool.disk.numPages) (stored : s.data p ≠ none) (script : List Bool) :
    Backs format frames { pool := b', pointer := Function.update m.pointer p f } { s with pins := p ::ₘ s.pins, script } owed := by
  have consistent := backs.consistent
  have kept : ∀ q, owed q → b'.pageTable q ≠ none := fun q old => accounts'.held q (Multiset.mem_cons_of_mem (backs.held q old))
  refine ⟨fetched_consistent consistent fetched accounts' inFile,fetched.covered backs.covered,fetched.idle backs.idle,
    fetched.poolSize.trans backs.poolSize,backs.wellFormed.pin stored script,fetched.numPages.trans backs.numPages,?_,?_,?_,?_,?_⟩
  · refine backs.keepsHeader fetched.freeListHead fetched.numPages ?_
    rw [fetched.stored,backs.zero,if_neg (by simp)]
  · intro q d there
    rw [fetched_current consistent fetched (pos_ne (backs.owned (by rw [there]; simp)).positive) (kept q)]
    exact backs.shown q d there
  · intro q g there
    by_cases same : q = p
    · rw [same]
      exact stored
    · exact backs.cached q g ((fetched.table q g same).mp there).1
  · intro q pinned
    show b'.pageTable q = some (Function.update m.pointer p f q)
    by_cases same : q = p
    · rw [same,Function.update_self]
      exact fetched.here
    · rw [Function.update_of_ne same]
      exact fetched.bound accounts' pinned same (backs.bound q ((Multiset.mem_cons.mp pinned).resolve_left same))
  · intro q old
    exact Multiset.mem_cons_of_mem (backs.held q old)

/-- The page is new. -/
theorem Backs.created (backs : Backs format frames m s owed) (created : Created m.pool p f b') (accounts' : Accounts b' (p ::ₘ s.pins))
    (room : ¬(s.free = [] ∧ s.numPages = INVALID_PAGE_ID)) :
    ∃ s', (∀ rest, exec format.blank .newPage { s with script := false :: rest } = .ok (some p,{ s' with script := rest })) ∧
      Backs format frames { pool := b', pointer := Function.update m.pointer p f } s' (fun q => q = p ∨ owed q) := by
  have consistent := backs.consistent
  have room' : s.free = [] → m.pool.disk.numPages ≠ INVALID_PAGE_ID := fun empty full => room ⟨empty,backs.numPages ▸ full⟩
  obtain ⟨l',consistent',granted⟩ := created_consistent (fun q => q = p ∨ owed q) consistent created accounts' room'
    (fun q which => which.imp And.left And.right)
  have handled : ∀ rest, exec format.blank .newPage { s with script := false :: rest } =
      .ok (some p,{ s.created format.blank p with free := l', numPages := b'.disk.numPages, script := rest }) := by
    intro rest
    rcases granted.source with ⟨free,same⟩ | ⟨free,rfl,rfl,more⟩
    · simp only [exec,free,same,backs.numPages]
      rfl
    · have spare : s.numPages ≠ INVALID_PAGE_ID := fun full => room ⟨free,full⟩
      simp only [exec,free,more,backs.numPages,if_neg spare]
      simp [Store.created,free]
  refine ⟨{ s.created format.blank p with free := l', numPages := b'.disk.numPages },handled,?_⟩
  have unused : s.data p = none := by
    by_contra stored
    exact granted.apart (backs.owned stored) rfl
  have wellFormed : WellFormed { s.created format.blank p with free := l', numPages := b'.disk.numPages } := by
    rcases exec_newPage format.blank (backs.rescript [false]).wellFormed with ⟨null,_⟩ | ⟨q,rest,count,made,_,_,_,wf⟩
    · rw [handled] at null
      cases null
    · rw [handled] at made
      obtain ⟨_,states⟩ := Prod.mk.inj (Except.ok.inj made)
      rw [← states] at wf
      exact ⟨wf.first,wf.distinct,wf.partition,wf.exclusive,wf.pinned⟩
  have apart : ∀ q, s.data q ≠ none → q ≠ p := fun q stored same => stored (same ▸ unused)
  refine ⟨consistent',created.covered backs.covered,created.idle (consistent.handsOut backs.uncached) backs.idle,
    created.poolSize.trans backs.poolSize,wellFormed,rfl,?_,?_,?_,?_,?_⟩
  · obtain ⟨b₁,selected,allocated⟩ := created.allocated
    refine allocatePage_header allocated ?_
    rw [selected.numPages]
    exact pos_ne consistent.free.positive
  · intro q d there
    by_cases same : q = p
    · rw [same] at there ⊢
      rw [created_zeros created]
      simpa [Store.created,Format.blank] using there
    · have there : s.data q = some d := by simpa [Store.created,Function.update_of_ne same] using there
      rw [created_current consistent created room' (pos_ne (backs.owned (by rw [there]; simp)).positive) same
        (fun old => accounts'.held q (Multiset.mem_cons_of_mem (backs.held q old)))]
      exact backs.shown q d there
  · intro q g there
    show Function.update s.data p (some format.blank) q ≠ none
    by_cases same : q = p
    · rw [same,Function.update_self]
      simp
    · rw [Function.update_of_ne same]
      exact backs.cached q g (created_kept created same there).1
  · intro q pinned
    show b'.pageTable q = some (Function.update m.pointer p f q)
    by_cases same : q = p
    · rw [same,Function.update_self]
      exact created.here
    · rw [Function.update_of_ne same]
      exact created.bound accounts' pinned same (backs.bound q ((Multiset.mem_cons.mp pinned).resolve_left same))
  · rintro q (rfl | old)
    · exact Multiset.mem_cons_self q s.pins
    · exact Multiset.mem_cons_of_mem (backs.held q old)

/-- A pin is let go. -/
theorem Backs.unpinned {isDirty : Bool} (backs : Backs format frames m s owed) (pinned : p ∈ s.pins)
    (unpinned : Unpinned m.pool p f isDirty b') (accounts' : Accounts b' (s.pins.erase p)) (owed' : PageId → Prop)
    (others : ∀ q, q ≠ p → (owed' q ↔ owed q)) (marked : isDirty = false → owed p → owed' p)
    (kept : owed' p → p ∈ s.pins.erase p) (dirty : PageId → Bool) :
    Backs format frames { m with pool := b' } { s with pins := s.pins.erase p, dirty } owed' := by
  have consistent : Consistent m.pool (p ::ₘ s.pins.erase p) owed s.free := by
    rw [Multiset.cons_erase pinned]
    exact backs.consistent
  have wf := backs.wellFormed
  refine ⟨unpinned_consistent consistent unpinned accounts' (fun q other => (others q other).mpr) marked,
    unpinned.covered backs.covered,unpinned.idle backs.idle,unpinned.poolSize.trans backs.poolSize,
    ⟨wf.first,wf.distinct,wf.partition,wf.exclusive,fun q member => wf.pinned q (Multiset.mem_of_mem_erase member)⟩,?_,?_,?_,?_,?_,?_⟩
  · rw [unpinned.disk]
    exact backs.numPages
  · rw [unpinned.disk]
    exact backs.header
  · rw [unpinned_current unpinned]
    exact backs.shown
  · rw [unpinned.pageTable]
    exact backs.cached
  · rw [unpinned.pageTable]
    exact fun q member => backs.bound q (Multiset.mem_of_mem_erase member)
  · intro q old
    by_cases same : q = p
    · rw [same] at old ⊢
      exact kept old
    · exact (Multiset.mem_erase_of_ne same).mpr (backs.held q ((others q same).mp old))

/-- A page is deleted. -/
theorem Backs.deleted (backs : Backs format frames m s owed) (stored : s.data p ≠ none) (free : p ∉ s.pins)
    (deleted : Deleted m.pool p b') (accounts' : Accounts b' s.pins) :
    Backs format frames { m with pool := b' }
      { s with data := Function.update s.data p none, dirty := Function.update s.dirty p false, free := p :: s.free } owed := by
  have own := backs.owned stored
  obtain ⟨consistent',count⟩ := deleted_inside backs.consistent deleted accounts' own.positive own.inFile own.notFree
  have live : ∀ q d, Function.update s.data p none q = some d → q ≠ p ∧ s.data q = some d := by
    intro q d there
    by_cases same : q = p
    · rw [same,Function.update_self] at there
      cases there
    · exact ⟨same,by rwa [Function.update_of_ne same] at there⟩
  refine ⟨consistent',deleted.covered backs.covered,deleted.idle backs.idle,deleted.poolSize.trans backs.poolSize,
    backs.wellFormed.delete stored free,count.trans backs.numPages,?_,?_,?_,?_,backs.held⟩
  · rw [deleted.disk]
    exact deallocatePage_header backs.header p
  · intro q d there
    obtain ⟨other,there⟩ := live q d there
    rw [deleted_current deleted (pos_ne (backs.owned (by rw [there]; simp)).positive) other]
    exact backs.shown q d there
  · intro q g there
    obtain ⟨before,other⟩ := (deleted.table q g).mp there
    show Function.update s.data p none q ≠ none
    rw [Function.update_of_ne other]
    exact backs.cached q g before
  · intro q pinned
    exact deleted.bound (fun same => free (same ▸ pinned)) (backs.bound q pinned)

theorem write_data (b : BufferPoolManager) (f : FrameId) : b.write f (b.pages f).data = b := by
  have pages : Function.update b.pages f (b.pages f) = b.pages := Function.update_eq_self ..
  simp only [write,setPage,pages]

theorem covered_write {b : BufferPoolManager} {data : PageData} (covered : Covered b) : Covered (b.write f data) := covered

theorem idle_write {b : BufferPoolManager} {data : PageData} (idle : Idle b) : Idle (b.write f data) := by
  intro g unmapped
  have count : ((b.write f data).pages g).pinCount = (b.pages g).pinCount := by
    by_cases same : g = f
    · rw [same]
      simp [write,setPage]
    · simp [write,setPage,Function.update_of_ne same]
  rw [count]
  exact idle g unmapped

/-- The content of a page is changed through the pointer to it. -/
theorem Backs.written {d : D} (backs : Backs format frames m s owed) (pinned : p ∈ s.pins) (fits : format.Fits d) :
    Backs format frames { m with pool := m.pool.write (m.pointer p) (format.store (m.pool.pages (m.pointer p)).data d) }
      { s with data := Function.update s.data p (some d) } (fun q => q = p ∧ s.data p ≠ some d ∨ owed q) := by
  have here := backs.bound p pinned
  have stored := backs.wellFormed.pinned p pinned
  have own := backs.owned stored
  by_cases same : s.data p = some d
  · -- nothing is changed, so nothing becomes owed
    have bytes : format.store (m.pool.pages (m.pointer p)).data d = (m.pool.pages (m.pointer p)).data := by
      rw [← backs.shown p d same,current_cached here]
      exact format.store_view _
    have data : Function.update s.data p (some d) = s.data := by
      rw [← same]
      exact Function.update_eq_self ..
    have nothing : (fun q => q = p ∧ s.data p ≠ some d ∨ owed q) = owed := by
      funext q
      simp [same]
    rw [bytes,write_data,data,nothing]
    exact backs
  · have consistent' : Consistent (m.pool.write (m.pointer p) (format.store (m.pool.pages (m.pointer p)).data d)) s.pins
        (fun q => q = p ∧ s.data p ≠ some d ∨ owed q) s.free :=
      write_consistent backs.consistent here (fun member => absurd member own.notFree)
        (fun q which => which.imp_left (fun here => ⟨here,same⟩))
    refine ⟨consistent',covered_write backs.covered,idle_write backs.idle,backs.poolSize,backs.wellFormed.update stored d,
      backs.numPages,backs.header,?_,?_,backs.bound,?_⟩
    · intro q e there
      change Function.update s.data p (some d) q = some e at there
      rw [write_current backs.consistent.accounts here]
      by_cases equal : q = p
      · rw [equal,Function.update_self] at there ⊢
        rw [format.view_store fits]
        exact Option.some.inj there
      · rw [Function.update_of_ne equal] at there ⊢
        exact backs.shown q e there
    · intro q g there
      show Function.update s.data p (some d) q ≠ none
      by_cases equal : q = p
      · rw [equal,Function.update_self]
        simp
      · rw [Function.update_of_ne equal]
        exact backs.cached q g there
    · rintro q (⟨rfl,_⟩ | old)
      · exact pinned
      · exact backs.held q old

/-! ### Calls -/

/-- The store cannot do the call. -/
def Refused (reason : Fault) : Prop := reason = .noSuchPage ∨ reason = .notPinned

/-- A relation between machines and the accounts of a client. -/
abbrev Relation (D : Type) := Machine → Ledger D → Prop

/-- What the pool answers to a call the store answers too, with a null page where the
    pool has no frame, or else the store refuses the call. -/
def Matched (format : Format D) (related : Relation D) {β : Type} (op : PoolOp D β) (m : Machine) (t : Ledger D)
    (script : List Bool) : Prop :=
  (∀ rest, ∃ reason, exec format.blank op { t.store with script := script ++ rest } = .error reason ∧ Refused reason) ∨
  ∃ answer m' s', drive format op m = .ok (answer,m') ∧ related m' (t.after op answer s') ∧
    ∀ rest, exec format.blank op { t.store with script := script ++ rest } = .ok (answer,{ s' with script := rest })

/-- The machine holds the store of the account. -/
def Holding (format : Format D) (frames : Nat) : Relation D := fun m t => Backs format frames m t.store t.owed

variable {ids : Nat}

theorem matched_fetchPage (backs : Backs format frames m s owed) (p : PageId) :
    ∃ script, Matched format (Holding format frames) (.fetchPage p) m ⟨s,owed,ids⟩ script := by
  have missing : s.data p = none → p ≠ INVALID_PAGE_ID → Matched format (Holding format frames) (.fetchPage p) m ⟨s,owed,ids⟩ [false] := by
    intro none valid
    exact .inl (fun rest => ⟨.noSuchPage,by simp only [exec,if_neg valid,none]; rfl,.inl rfl⟩)
  rcases fetchPage_cases backs.consistent.accounts p with ⟨f,b',step,fetched,accounts',inFile⟩ | ⟨none,step⟩ |
    ⟨f,b',b'',step,absent,outside,_⟩ | ⟨_,_,_,_,_,stuck⟩
  · have valid : p ≠ INVALID_PAGE_ID := by
      rintro rfl
      rw [BufferPoolManager.fetchPage,if_pos rfl] at step
      cases step
    cases stored : s.data p with
    | none => exact ⟨_,missing stored valid⟩
    | some d =>
      refine ⟨[false],.inr ⟨some p,_,_,by simp only [drive,step],backs.fetched fetched accounts' inFile (by simp [stored]) [],?_⟩⟩
      intro rest
      simp only [exec,if_neg valid,stored]
      rfl
  · have stays : drive format (.fetchPage p) m = .ok (Option.none,m) := by simp only [drive,step]
    by_cases invalid : p = INVALID_PAGE_ID
    · refine ⟨[],.inr ⟨Option.none,m,s,stays,backs,fun rest => ?_⟩⟩
      simp only [exec,if_pos invalid,List.nil_append]
    · refine ⟨[true],.inr ⟨Option.none,m,s,stays,backs,fun rest => ?_⟩⟩
      simp only [exec,if_neg invalid]
      rfl
  · have gone : s.data p = none := by
      by_contra stored
      exact UInt32.not_lt.mpr outside (backs.owned stored).inFile
    have valid : p ≠ INVALID_PAGE_ID := by
      rintro rfl
      rw [BufferPoolManager.fetchPage,if_pos rfl] at step
      cases step
    exact ⟨_,missing gone valid⟩
  · exact absurd stuck backs.consistent.notStuck

theorem matched_newPage (backs : Backs format frames m s owed) (room : ¬(s.free = [] ∧ s.numPages = INVALID_PAGE_ID)) :
    ∃ script, Matched format (Holding format frames) .newPage m ⟨s,owed,ids⟩ script := by
  have consistent := backs.consistent
  rcases newPage_cases consistent.accounts (consistent.handsOut backs.uncached) with ⟨p,f,b',step,created,accounts'⟩ | ⟨_,step⟩ |
    ⟨f,b',e,_,failed,selected,_⟩ | ⟨_,_,_,_,stuck⟩
  · obtain ⟨s',handled,backs'⟩ := backs.created created accounts' room
    exact ⟨[false],.inr ⟨some p,_,s',by simp only [drive,step],backs',handled⟩⟩
  · refine ⟨[true],.inr ⟨none,m,s,by simp only [drive,step],backs,fun rest => ?_⟩⟩
    simp only [exec]
    rfl
  · obtain ⟨q,d,l,allocated,_⟩ := allocatePage_spec (selected_free consistent selected)
      (fun empty full => room ⟨empty,backs.numPages ▸ selected.numPages ▸ full⟩)
    rw [allocated] at failed
    cases failed
  · exact absurd stuck consistent.notStuck

theorem matched_unpinPage {isDirty : Bool} (backs : Backs format frames m s owed) (pinned : p ∈ s.pins)
    (careful : isDirty = false → owed p → p ∈ s.pins.erase p) :
    Matched format (Holding format frames) (.unpinPage p isDirty) m ⟨s,owed,ids⟩ [] := by
  have accounts : Accounts m.pool (p ::ₘ s.pins.erase p) := by
    rw [Multiset.cons_erase pinned]
    exact backs.consistent.accounts
  obtain ⟨f,b',step,unpinned,accounts'⟩ := unpinPage_held accounts isDirty
  refine .inr ⟨true,{ m with pool := b' },{ s with pins := s.pins.erase p, dirty := if isDirty then Function.update s.dirty p true else s.dirty },
    by simp only [drive,step],?_,fun rest => by simp only [exec,if_pos pinned,List.nil_append]⟩
  cases isDirty with
  | true =>
    exact backs.unpinned pinned unpinned accounts' _ (fun q other => ⟨And.right,fun old => ⟨other,old⟩⟩)
      (fun clean => Bool.noConfusion clean) (fun old => absurd rfl old.1) _
  | false => exact backs.unpinned pinned unpinned accounts' owed (fun _ _ => Iff.rfl) (fun _ => id) (careful rfl) _

theorem matched_deletePage (backs : Backs format frames m s owed) (p : PageId) :
    Matched format (Holding format frames) (.deletePage p) m ⟨s,owed,ids⟩ [] := by
  rcases deletePage_cases backs.consistent.accounts p with ⟨pinned,step⟩ | ⟨free,b',step,deleted,accounts'⟩
  · exact .inr ⟨false,m,s,by simp only [drive,step],backs,fun rest => by simp only [exec,if_pos pinned,List.nil_append]⟩
  · cases stored : s.data p with
    | none => exact .inl (fun rest => ⟨.noSuchPage,by simp only [exec,if_neg free,stored],.inl rfl⟩)
    | some d =>
      exact .inr ⟨true,_,_,by simp only [drive,step],backs.deleted (by simp [stored]) free deleted accounts',
        fun rest => by simp only [exec,if_neg free,stored,List.nil_append]⟩

theorem matched_getData (backs : Backs format frames m s owed) (p : PageId) :
    Matched format (Holding format frames) (.getData p) m ⟨s,owed,ids⟩ [] := by
  by_cases pinned : p ∈ s.pins
  · obtain ⟨d,stored⟩ := Option.ne_none_iff_exists'.mp (backs.wellFormed.pinned p pinned)
    have read : format.view (m.pool.pages (m.pointer p)).data = d := by
      rw [← current_cached (backs.bound p pinned)]
      exact backs.shown p d stored
    exact .inr ⟨d,m,s,by simp only [drive,read],backs,fun rest => by simp only [exec,if_pos pinned,stored,List.nil_append]⟩
  · exact .inl (fun rest => ⟨.notPinned,by simp only [exec,if_neg pinned],.inr rfl⟩)

theorem matched_setData {d : D} (backs : Backs format frames m s owed) (fits : format.Fits d) :
    Matched format (Holding format frames) (.setData p d) m ⟨s,owed,ids⟩ [] := by
  by_cases pinned : p ∈ s.pins
  · exact .inr ⟨(),_,_,by simp only [drive],backs.written pinned fits,
      fun rest => by simp only [exec,if_pos pinned,List.nil_append]⟩
  · exact .inl (fun rest => ⟨.notPinned,by simp only [exec,if_neg pinned],.inr rfl⟩)

theorem newPage_made {s s' : Store D} {blank : D} {page : Option PageId} (made : exec blank .newPage s = .ok (page,s')) :
    (page = none ∧ ∃ script, s' = { s with script }) ∨
      ∃ q free numPages, page = some q ∧ s' = { s.created blank q with free, numPages } := by
  rw [exec] at made
  split at made
  · cases made
    exact .inl ⟨rfl,_,rfl⟩
  · split at made
    · cases made
      exact .inr ⟨_,_,_,rfl,rfl⟩
    · split at made <;> cases made
      · exact .inl ⟨rfl,_,rfl⟩
      · exact .inr ⟨_,s.free,_,rfl,rfl⟩

/-- A new page takes an id. -/
theorem newPage_left {s s' : Store D} {blank : D} {page : Option PageId} (made : exec blank .newPage s = .ok (page,s')) :
    idsLeft s ≤ idsLeft s' + 1 := by
  rw [exec] at made
  split at made
  · cases made
    exact Nat.le_succ _
  · split at made
    · rename_i q rest free
      cases made
      simp only [idsLeft,free,List.length_cons,Store.created]
      omega
    · split at made <;> cases made
      · exact Nat.le_succ _
      · have count : (s.numPages + 1).toNat ≤ s.numPages.toNat + 1 := by
          rw [UInt32.toNat_add,UInt32.toNat_one]
          exact Nat.mod_le ..
        simp only [idsLeft,Store.created]
        omega

/-- Only a new page takes an id. -/
theorem idsAfter_le {β : Type} {op : PoolOp D β} {t : Ledger D} {s' : Store D} {answer : β} (enough : t.ids ≤ idsLeft t.store)
    (handled : exec format.blank op t.store = .ok (answer,s')) : idsAfter op t ≤ idsLeft s' := by
  cases op with
  | fetchPage p =>
    rcases exec_fetchPage handled with ⟨_,script,rfl⟩ | ⟨_,_,rfl⟩
    · exact enough
    · exact enough
  | newPage =>
    have left := newPage_left handled
    show t.ids - 1 ≤ idsLeft s'
    omega
  | unpinPage p isDirty =>
    obtain ⟨dirty,rfl⟩ := exec_unpinPage handled
    exact enough
  | deletePage p =>
    rcases exec_deletePage handled with ⟨_,_,rfl⟩ | ⟨_,_,_,rfl⟩
    · exact enough
    · refine le_trans enough ?_
      simp only [idsLeft,List.length_cons]
      omega
  | getData p =>
    obtain ⟨_,rfl⟩ := exec_getData handled
    exact enough
  | setData p d =>
    obtain ⟨_,rfl⟩ := exec_setData handled
    exact enough

/-- The machine holds the store, and has an id for every page that may be asked for. -/
def Backing (format : Format D) (frames : Nat) : Relation D := fun m t => Holding format frames m t ∧ t.ids ≤ idsLeft t.store

/-- Every call of a careful client is answered as by the store. -/
theorem call_matched {β : Type} (op : PoolOp D β) {t : Ledger D} (backing : Backing format frames m t) (careful : Careful format op t) :
    ∃ script, Matched format (Backing format frames) op m t script := by
  obtain ⟨backs,enough⟩ := backing
  have found : ∃ script, Matched format (Holding format frames) op m t script := by
    cases op with
    | fetchPage p => exact matched_fetchPage backs p
    | newPage => exact matched_newPage backs (idsLeft_pos (lt_of_lt_of_le careful enough))
    | unpinPage p isDirty => exact ⟨[],matched_unpinPage backs careful.1 careful.2⟩
    | deletePage p => exact ⟨[],matched_deletePage backs p⟩
    | getData p => exact ⟨[],matched_getData backs p⟩
    | setData p d => exact ⟨[],matched_setData backs careful⟩
  obtain ⟨script,refused | ⟨answer,m',s',driven,backs',handled⟩⟩ := found
  · exact ⟨script,.inl refused⟩
  · refine ⟨script,.inr ⟨answer,m',s',driven,⟨backs',?_⟩,handled⟩⟩
    have left := idsAfter_le (t := { t with store := { t.store with script := script ++ [] } }) enough (handled [])
    cases op <;> exact left

end

/-! ### Hosts -/

/-- The same account before another script of null pages. -/
def Ledger.rescript {D : Type} (t : Ledger D) (script : List Bool) : Ledger D := { t with store := { t.store with script } }

theorem Ledger.after_rescript {D β : Type} (t : Ledger D) (op : PoolOp D β) (answer : β) (s : Store D) (first script : List Bool) :
    (t.rescript first).after op answer { s with script } = (t.after op answer s).rescript script := by
  cases op with
  | fetchPage p => rfl
  | newPage => cases answer <;> rfl
  | unpinPage p isDirty => cases isDirty <;> rfl
  | deletePage p => rfl
  | getData p => rfl
  | setData p d => rfl

/-- A null page is an answer only where these pins, and others beside them, take all the frames. -/
def Told {D : Type} (frames : Nat) (others : Multiset PageId) : {β : Type} → PoolOp D β → Store D → β → Prop
  | _, .fetchPage p, s, page => page = none → p = INVALID_PAGE_ID ∨ frames ≤ (s.pins + others).toFinset.card
  | _, .newPage, s, page => page = none → frames ≤ (s.pins + others).toFinset.card
  | _, _, _, _ => True

/-- Machines that careful clients cannot tell from a store: one of so many frames, where
    others have these pins. -/
structure Host {D : Type} (format : Format D) (frames : Nat) (others : Multiset PageId) (related : Relation D) : Prop where
  rescript : ∀ {m t}, related m t → ∀ script, related m (t.rescript script)
  matched : ∀ {β : Type} (op : PoolOp D β) {m t}, related m t → Careful format op t → ∃ script, Matched format related op m t script
  told : ∀ {β : Type} (op : PoolOp D β) {m t answer m'}, related m t → drive format op m = .ok (answer,m') →
    Told frames others op t.store answer

section
variable {D : Type} {format : Format D} {frames : Nat} {others : Multiset PageId} {related : Relation D}

/-- The client does to the machine what it does to the store for some script, unless the
    store refuses a call. -/
structure Refines (format : Format D) (frames : Nat) (others : Multiset PageId) (related : Relation D) {α : Type} (client : Client D α)
    (post : α → Ledger D → Prop) (m : Machine) (s : Store D) : Prop where
  heard : Prog.Heard (exec format.blank) (Told frames others) client s
  returns : ∀ value s', Prog.run (exec format.blank) client s = .ok (value,s') →
    ∃ m' t', Prog.run (drive format) client m = .ok (value,m') ∧ t'.store = s' ∧ related m' t' ∧ post value t'

/-- Careful clients cannot tell the host from the store, by induction on the client. -/
theorem Host.refines {α : Type} (host : Host format frames others related) {check : Prog.Check (PoolOp D) (Ledger D)}
    {post : α → Ledger D → Prop} (careful : ∀ {β : Type} (op : PoolOp D β) (t : Ledger D), check op t → Careful format op t) :
    ∀ (client : Client D α) {m : Machine} {t : Ledger D}, related m t →
      (∀ script, Prog.Guards (monitor format.blank) check client post (t.rescript script)) →
      ∃ script, Refines format frames others related client post m { t.store with script }
  | .ret value, m, t, here, guards => by
    refine ⟨[],trivial,?_⟩
    rintro value s' ran
    cases ran
    exact ⟨m,t.rescript [],rfl,rfl,host.rescript here [],guards []⟩
  | .fault reason, m, t, here, guards => ⟨[],trivial,nofun⟩
  | .call op next, m, t, here, guards => by
    have passes : check op t := by
      have first := guards t.store.script
      rw [Prog.Guards] at first
      exact first.1
    obtain ⟨pre,refused | ⟨answer,m',s',driven,here',handled⟩⟩ := host.matched op here (careful op _ passes)
    · obtain ⟨reason,stopped,which⟩ := refused []
      refine ⟨pre ++ [],?_,?_⟩
      · simp only [Prog.Heard,stopped]
      · intro value s' ran
        simp only [Prog.run,stopped] at ran
        cases ran
    · have later : ∀ script, Prog.Guards (monitor format.blank) check (next answer) post ((t.after op answer s').rescript script) := by
        intro script
        have rest := guards (pre ++ script)
        rw [Prog.Guards] at rest
        have stepped := rest.2
        simp only [monitor,Ledger.rescript,handled] at stepped
        exact t.after_rescript op answer s' (pre ++ script) script ▸ stepped
      obtain ⟨script,heard,returns⟩ := host.refines careful (next answer) here' later
      refine ⟨pre ++ script,?_,?_⟩
      · simp only [Prog.Heard,handled]
        exact ⟨host.told op (host.rescript here _) driven,heard⟩
      · intro value s₁ ran
        simp only [Prog.run,handled] at ran
        simp only [Prog.run,driven]
        exact returns value s₁ ran

end
end Aether.PoolClients
