import Aether.BufferPool
import Mathlib.Data.Multiset.Count

/-!
The frames of the pool. `Accounts` is the invariant that the page table, the
free list, the pin counts and the replacer agree on what every frame is used
for; every method keeps it, and `Selected` says how a frame is found for a page.
-/
namespace Aether.BufferPoolFrames
open Aether.Bytes Aether.Types Aether.DiskManager Aether.Replacers Aether.BufferPool Aether.Replacers.Replacer
open BufferPoolManager

/-- The frames of a pool, with the pins on its pages. -/
structure Accounts (b : BufferPoolManager) (pins : Multiset PageId) : Prop where
  mapped : ∀ p f, b.pageTable p = some f → IsFrame b.poolSize f ∧ (b.pages f).pageId = p
  distinct : b.freeList.Nodup
  free : ∀ f ∈ b.freeList, IsFrame b.poolSize f ∧ ∀ p, b.pageTable p ≠ some f
  replacer : Sound b.poolSize b.replacer
  evictable : ∀ f, Has b.replacer f ↔ ∃ p, b.pageTable p = some f ∧ p ∉ pins
  pinned : ∀ p f, b.pageTable p = some f → (b.pages f).pinCount = pins.count p
  held : ∀ p ∈ pins, b.pageTable p ≠ none

/-- No frame is lost: each one is free or has a page. -/
def Covered (b : BufferPoolManager) : Prop :=
  ∀ f, IsFrame b.poolSize f → f ∈ b.freeList ∨ ∃ p, b.pageTable p = some f

/-- Frames without a page have no pins. -/
def Idle (b : BufferPoolManager) : Prop := ∀ f, (∀ p, b.pageTable p ≠ some f) → (b.pages f).pinCount = 0

/-- The frame is used for nothing. -/
structure Loose (b : BufferPoolManager) (f : FrameId) : Prop where
  frame : IsFrame b.poolSize f
  notFree : f ∉ b.freeList
  unmapped : ∀ p, b.pageTable p ≠ some f

/-- A replacer for `n` frames in which nothing is. -/
def Fresh (n : Nat) (replacer : Replacer) : Prop :=
  replacer = .lru (LRUReplacer.create n) ∨ replacer = .clock (ClockReplacer.create n)

section
variable {b b' : BufferPoolManager} {pins : Multiset PageId} {p q : PageId} {f g : FrameId} {isDirty : Bool}

theorem create_accounts {n : Nat} {disk : DiskManager} {replacer : Replacer} (fresh : Fresh n replacer) :
    Accounts (BufferPoolManager.create n disk replacer) 0 := by
  have sound : Sound n replacer := by
    rcases fresh with rfl | rfl
    · exact create_lru_sound
    · exact create_clock_sound
  have empty : ∀ f, ¬ Has replacer f := by
    intro f has
    rcases fresh with rfl | rfl
    · exact absurd has List.not_mem_nil
    · exact absurd has.2 (by simp [ClockReplacer.create])
  refine ⟨by simp [BufferPoolManager.create],?_,fun f member => ?_,sound,fun f => ⟨fun has => absurd has (empty f),by simp [BufferPoolManager.create]⟩,
    by simp [BufferPoolManager.create],by simp⟩
  · exact List.nodup_range.map (fun _ _ same => Int.ofNat.inj same)
  · obtain ⟨k,ranged,rfl⟩ := List.mem_map.mp member
    have low := List.mem_range.mp ranged
    exact ⟨⟨Int.natCast_nonneg k,Int.ofNat_lt.mpr low⟩,by simp [BufferPoolManager.create]⟩

theorem Accounts.injective (accounts : Accounts b pins) (first : b.pageTable p = some f) (second : b.pageTable q = some f) :
    p = q := (accounts.mapped p f first).2.symm.trans (accounts.mapped q f second).2

/-- A free frame is taken off the free list. -/
theorem accounts_takeFree {rest : List FrameId} (accounts : Accounts b pins) (list : b.freeList = f :: rest) :
    Accounts { b with freeList := rest } pins ∧ Loose { b with freeList := rest } f := by
  have distinct := accounts.distinct
  rw [list,List.nodup_cons] at distinct
  obtain ⟨frame,unmapped⟩ := accounts.free f (by simp [list])
  exact ⟨⟨accounts.mapped,distinct.2,fun g member => accounts.free g (by simp [list,member]),accounts.replacer,
    accounts.evictable,accounts.pinned,accounts.held⟩,frame,distinct.1,unmapped⟩

theorem update_none {table : PageId → Option FrameId} : Function.update table p none q = some g ↔ table q = some g ∧ q ≠ p := by
  by_cases same : q = p
  · subst same; simp
  · simp [same]

/-- The page of a frame leaves the page table, and no other one. -/
theorem Accounts.update_none (accounts : Accounts b pins) (here : b.pageTable p = some f) :
    Function.update b.pageTable p none q = some g ↔ b.pageTable q = some g ∧ g ≠ f := by
  rw [BufferPoolFrames.update_none]
  constructor
  · rintro ⟨there,other⟩
    exact ⟨there,fun same => other (accounts.injective (same ▸ there) here)⟩
  · rintro ⟨there,other⟩
    exact ⟨there,fun same => other (Option.some.inj (there.symm.trans (same ▸ here)))⟩

/-- The page of a victim leaves the pool. -/
theorem accounts_evict (pages : FrameId → Page) (disk : DiskManager) (accounts : Accounts b pins)
    (some : b.replacer.victim.1 = some f) (ids : ∀ g, (pages g).pageId = (b.pages g).pageId)
    (counts : ∀ g, (pages g).pinCount = (b.pages g).pinCount) :
    let b' := { b with replacer := b.replacer.victim.2, pages, disk,
                       pageTable := Function.update b.pageTable (b.pages f).pageId none }
    Accounts b' pins ∧ Loose b' f := by
  obtain ⟨has,sound,others⟩ := victim_some accounts.replacer some
  obtain ⟨p,here,unpinned⟩ := (accounts.evictable f).mp has
  obtain ⟨frame,rfl⟩ := accounts.mapped p f here
  have kept : ∀ q g, Function.update b.pageTable (b.pages f).pageId none q = Option.some g ↔
      b.pageTable q = Option.some g ∧ q ≠ (b.pages f).pageId := fun q g => BufferPoolFrames.update_none
  have unmapped : ∀ q, Function.update b.pageTable (b.pages f).pageId none q ≠ Option.some f := by
    intro q mapped
    obtain ⟨before,other⟩ := (kept q f).mp mapped
    exact other (accounts.injective before here)
  refine ⟨⟨fun q g mapped => ?_,accounts.distinct,fun g member => ?_,sound,fun g => ?_,fun q g mapped => ?_,
    fun q pinned => ?_⟩,frame,fun member => (accounts.free f member).2 _ here,unmapped⟩
  · obtain ⟨before,_⟩ := (kept q g).mp mapped
    exact ⟨(accounts.mapped q g before).1,(ids g).trans (accounts.mapped q g before).2⟩
  · refine ⟨(accounts.free g member).1,fun q mapped => ?_⟩
    exact (accounts.free g member).2 q ((kept q g).mp mapped).1
  · rw [others g,accounts.evictable g]
    simp only [kept]
    constructor
    · rintro ⟨⟨q,mapped,free⟩,other⟩
      refine ⟨q,⟨mapped,?_⟩,free⟩
      rintro rfl
      exact other (Option.some.inj (mapped.symm.trans here))
    · rintro ⟨q,⟨mapped,other⟩,free⟩
      refine ⟨⟨q,mapped,free⟩,?_⟩
      rintro rfl
      exact other (accounts.injective mapped here)
  · obtain ⟨before,_⟩ := (kept q g).mp mapped
    exact (counts g).trans (accounts.pinned q g before)
  · show Function.update b.pageTable (b.pages f).pageId none q ≠ none
    have other : q ≠ (b.pages f).pageId := by rintro rfl; exact unpinned pinned
    rw [Function.update_of_ne other]
    exact accounts.held q pinned

/-- Changing the bytes and dirty flags of frames and the disk. -/
theorem accounts_pages {pages : FrameId → Page} {disk : DiskManager} (accounts : Accounts b pins)
    (ids : ∀ g, (pages g).pageId = (b.pages g).pageId) (counts : ∀ g, (pages g).pinCount = (b.pages g).pinCount) :
    Accounts { b with pages, disk } pins :=
  ⟨fun p f here => ⟨(accounts.mapped p f here).1,(ids f).trans (accounts.mapped p f here).2⟩,accounts.distinct,
    accounts.free,accounts.replacer,accounts.evictable,fun p f here => (counts f).trans (accounts.pinned p f here),
    accounts.held⟩

theorem accounts_write {data : PageData} (accounts : Accounts b pins) : Accounts (b.write f data) pins := by
  have same : ∀ {A : Type} (field : Page → A) g, field { b.pages f with data } = field (b.pages f) →
      field ((b.write f data).pages g) = field (b.pages g) := by
    intro A field g kept
    by_cases here : g = f
    · subst here; simpa [write,setPage] using kept
    · simp [write,setPage,Function.update_of_ne here]
  exact accounts_pages accounts (fun g => same Page.pageId g rfl) (fun g => same Page.pinCount g rfl)

/-- A page is put into a frame, pinned. -/
theorem accounts_install {page : Page} {disk : DiskManager} (accounts : Accounts b pins) (loose : Loose b f)
    (absent : b.pageTable p = none) (id : page.pageId = p) (count : page.pinCount = 1) :
    Accounts { b.setPage f page with disk, pageTable := Function.update b.pageTable p (some f),
                                     replacer := b.replacer.pin f } (p ::ₘ pins) := by
  obtain ⟨sound,others⟩ := pin_spec (f := f) accounts.replacer
  have fresh : p ∉ pins := fun pinned => accounts.held p pinned absent
  have kept : ∀ q g, Function.update b.pageTable p (some f) q = some g ↔ q = p ∧ g = f ∨ q ≠ p ∧ b.pageTable q = some g := by
    intro q g
    by_cases same : q = p
    · subst same; simp [eq_comm]
    · simp [same]
  refine ⟨fun q g here => ?_,accounts.distinct,fun g member => ⟨(accounts.free g member).1,fun q here => ?_⟩,sound,
    fun g => ?_,fun q g here => ?_,fun q pinned => ?_⟩
  · rcases (kept q g).mp here with ⟨rfl,rfl⟩ | ⟨_,before⟩
    · exact ⟨loose.frame,by simpa [setPage] using id⟩
    · have other : g ≠ f := by rintro rfl; exact loose.unmapped q before
      simpa [setPage,Function.update_of_ne other] using accounts.mapped q g before
  · rcases (kept q g).mp here with ⟨rfl,rfl⟩ | ⟨_,before⟩
    · exact loose.notFree member
    · exact (accounts.free g member).2 q before
  · rw [others g,accounts.evictable g]
    simp only [kept,Multiset.mem_cons,not_or]
    constructor
    · rintro ⟨⟨q,before,free⟩,_⟩
      have other : q ≠ p := by rintro rfl; rw [absent] at before; cases before
      exact ⟨q,.inr ⟨other,before⟩,other,free⟩
    · rintro ⟨q,⟨rfl,rfl⟩ | ⟨_,before⟩,other,free⟩
      · exact absurd rfl other
      · refine ⟨⟨q,before,free⟩,?_⟩
        rintro rfl
        exact loose.unmapped q before
  · rcases (kept q g).mp here with ⟨rfl,rfl⟩ | ⟨different,before⟩
    · simp [setPage,count,Multiset.count_eq_zero.mpr fresh]
    · have other : g ≠ f := by rintro rfl; exact loose.unmapped q before
      rw [Multiset.count_cons_of_ne different]
      simpa [setPage,Function.update_of_ne other] using accounts.pinned q g before
  · show Function.update b.pageTable p (some f) q ≠ none
    by_cases same : q = p
    · subst same; simp
    · rw [Function.update_of_ne same]
      exact accounts.held q ((Multiset.mem_cons.mp pinned).resolve_left same)

/-- What is in a loose frame does not matter. -/
theorem Loose.accounts {page : Page} (loose : Loose b f) (accounts : Accounts b pins) : Accounts (b.setPage f page) pins := by
  have kept : ∀ p g, b.pageTable p = some g → (b.setPage f page).pages g = b.pages g := by
    intro p g here
    exact Function.update_of_ne (by rintro rfl; exact loose.unmapped p here) ..
  refine ⟨fun p g here => ?_,accounts.distinct,accounts.free,accounts.replacer,accounts.evictable,fun p g here => ?_,accounts.held⟩
  · rw [kept p g here]
    exact accounts.mapped p g here
  · rw [kept p g here]
    exact accounts.pinned p g here

/-- A page of the pool is pinned once more. -/
theorem accounts_pin (accounts : Accounts b pins) (here : b.pageTable p = some f) :
    Accounts { b.setPage f { b.pages f with pinCount := (b.pages f).pinCount + 1 } with
      replacer := b.replacer.pin f } (p ::ₘ pins) := by
  obtain ⟨sound,others⟩ := pin_spec (f := f) accounts.replacer
  refine ⟨fun q g mapped => ?_,accounts.distinct,accounts.free,sound,fun g => ?_,fun q g mapped => ?_,fun q pinned => ?_⟩
  · obtain ⟨frame,id⟩ := accounts.mapped q g mapped
    refine ⟨frame,?_⟩
    by_cases same : g = f
    · subst same; simpa [setPage] using id
    · simpa [setPage,Function.update_of_ne same] using id
  · rw [others g,accounts.evictable g]
    simp only [Multiset.mem_cons,not_or]
    constructor
    · rintro ⟨⟨q,mapped,free⟩,other⟩
      refine ⟨q,mapped,?_,free⟩
      rintro rfl
      exact other (Option.some.inj (mapped.symm.trans here))
    · rintro ⟨q,mapped,other,free⟩
      refine ⟨⟨q,mapped,free⟩,?_⟩
      rintro rfl
      exact other (accounts.injective mapped here)
  · by_cases same : g = f
    · subst same
      obtain rfl := accounts.injective mapped here
      simp [setPage,accounts.pinned q g here]
    · have other : q ≠ p := by rintro rfl; exact same (Option.some.inj (mapped.symm.trans here))
      rw [Multiset.count_cons_of_ne other]
      simpa [setPage,Function.update_of_ne same] using accounts.pinned q g mapped
  · show b.pageTable q ≠ none
    rcases Multiset.mem_cons.mp pinned with rfl | before
    · simp [here]
    · exact accounts.held q before

/-- The pool after a pin on the page `p` in the frame `f` has been taken away. -/
structure Unpinned (b : BufferPoolManager) (p : PageId) (f : FrameId) (isDirty : Bool) (b' : BufferPoolManager) : Prop where
  here : b.pageTable p = some f
  pages : b'.pages = Function.update b.pages f
    { b.pages f with isDirty := isDirty || (b.pages f).isDirty, pinCount := (b.pages f).pinCount - 1 }
  pageTable : b'.pageTable = b.pageTable
  disk : b'.disk = b.disk
  freeList : b'.freeList = b.freeList
  poolSize : b'.poolSize = b.poolSize

theorem Unpinned.covered (unpinned : Unpinned b p f isDirty b') (covered : Covered b) : Covered b' := by
  intro g frame
  rw [unpinned.freeList,unpinned.pageTable]
  exact covered g (unpinned.poolSize ▸ frame)

theorem Unpinned.idle (unpinned : Unpinned b p f isDirty b') (idle : Idle b) : Idle b' := by
  intro g unmapped
  rw [unpinned.pageTable] at unmapped
  have apart : g ≠ f := by
    rintro rfl
    exact unmapped p unpinned.here
  rw [unpinned.pages,Function.update_of_ne apart]
  exact idle g unmapped

theorem unpinPage_last (here : b.pageTable p = some f) (positive : ¬ (b.pages f).pinCount ≤ 0)
    (last : (b.pages f).pinCount - 1 = 0) :
    b.unpinPage p isDirty = (true,
      { b.setPage f { b.pages f with isDirty := isDirty || (b.pages f).isDirty, pinCount := (b.pages f).pinCount - 1 } with
        replacer := b.replacer.unpin f }) := by
  simp only [unpinPage,here,if_neg positive,if_pos last,setPage]

theorem unpinPage_more (here : b.pageTable p = some f) (positive : ¬ (b.pages f).pinCount ≤ 0)
    (more : (b.pages f).pinCount - 1 ≠ 0) :
    b.unpinPage p isDirty = (true,
      b.setPage f { b.pages f with isDirty := isDirty || (b.pages f).isDirty, pinCount := (b.pages f).pinCount - 1 }) := by
  simp only [unpinPage,here,if_neg positive,if_neg more]

/-- A pin is taken away that is there. -/
theorem unpinPage_held (accounts : Accounts b (p ::ₘ pins)) (isDirty : Bool) :
    ∃ f b', b.unpinPage p isDirty = (true,b') ∧ Unpinned b p f isDirty b' ∧ Accounts b' pins := by
  obtain ⟨f,here⟩ := Option.ne_none_iff_exists'.mp (accounts.held p (Multiset.mem_cons_self p pins))
  have count := accounts.pinned p f here
  rw [Multiset.count_cons_self] at count
  have positive : ¬ (b.pages f).pinCount ≤ 0 := by omega
  obtain ⟨frame,id⟩ := accounts.mapped p f here
  have mapped : ∀ q g, b.pageTable q = some g → IsFrame b.poolSize g ∧ (Function.update b.pages f { b.pages f with
      isDirty := isDirty || (b.pages f).isDirty, pinCount := (b.pages f).pinCount - 1 } g).pageId = q := by
    intro q g there
    by_cases same : g = f
    · subst same; simpa using accounts.mapped q g there
    · simpa [Function.update_of_ne same] using accounts.mapped q g there
  have pinned : ∀ q g, b.pageTable q = some g → (Function.update b.pages f { b.pages f with
      isDirty := isDirty || (b.pages f).isDirty, pinCount := (b.pages f).pinCount - 1 } g).pinCount = pins.count q := by
    intro q g there
    by_cases same : g = f
    · subst same
      obtain rfl := accounts.injective there here
      simp [count]
    · have other : q ≠ p := by rintro rfl; exact same (Option.some.inj (there.symm.trans here))
      have before := accounts.pinned q g there
      rw [Multiset.count_cons_of_ne other] at before
      simpa [Function.update_of_ne same] using before
  have held : ∀ q ∈ pins, b.pageTable q ≠ none := fun q member => accounts.held q (Multiset.mem_cons_of_mem member)
  by_cases last : (b.pages f).pinCount - 1 = 0
  · have gone : p ∉ pins := Multiset.count_eq_zero.mp (by omega)
    obtain ⟨sound,others⟩ := unpin_spec accounts.replacer frame
    refine ⟨f,_,unpinPage_last here positive last,⟨here,rfl,rfl,rfl,rfl,rfl⟩,mapped,accounts.distinct,accounts.free,sound,fun g => ?_,pinned,held⟩
    show Has (b.replacer.unpin f) g ↔ ∃ q, b.pageTable q = some g ∧ q ∉ pins
    rw [others g,accounts.evictable g]
    constructor
    · rintro (⟨q,there,free⟩ | rfl)
      · exact ⟨q,there,fun member => free (Multiset.mem_cons_of_mem member)⟩
      · exact ⟨p,here,gone⟩
    · rintro ⟨q,there,free⟩
      by_cases same : q = p
      · subst same
        exact .inr (Option.some.inj (there.symm.trans here))
      · exact .inl ⟨q,there,by simp [same,free]⟩
  · have still : p ∈ pins := Multiset.count_pos.mp (by omega)
    refine ⟨f,_,unpinPage_more here positive last,⟨here,rfl,rfl,rfl,rfl,rfl⟩,mapped,accounts.distinct,accounts.free,
      accounts.replacer,fun g => ?_,pinned,held⟩
    show Has b.replacer g ↔ ∃ q, b.pageTable q = some g ∧ q ∉ pins
    rw [accounts.evictable g]
    refine exists_congr (fun q => and_congr_right (fun there => not_congr ?_))
    rw [Multiset.mem_cons]
    constructor
    · rintro (rfl | member)
      · exact still
      · exact member
    · exact .inr

/-- Where a page has no pin, nothing changes. -/
theorem unpinPage_unheld (accounts : Accounts b pins) (free : p ∉ pins) : b.unpinPage p isDirty = (false,b) := by
  rw [unpinPage]
  cases here : b.pageTable p with
  | none => rfl
  | some f =>
    have count := accounts.pinned p f here
    rw [Multiset.count_eq_zero.mpr free] at count
    simp [count]

/-- A page without pins leaves the pool and its frame is free. -/
theorem accounts_delete {disk : DiskManager} (accounts : Accounts b pins) (here : b.pageTable p = some f) (free : p ∉ pins) :
    Accounts { b.setPage f Page.reset with
      replacer := b.replacer.pin f, pageTable := Function.update b.pageTable p none,
      freeList := b.freeList ++ [f], disk } pins := by
  obtain ⟨sound,others⟩ := pin_spec (f := f) accounts.replacer
  have notFree : f ∉ b.freeList := fun member => (accounts.free f member).2 p here
  have kept : ∀ q g, Function.update b.pageTable p none q = some g ↔ b.pageTable q = some g ∧ g ≠ f :=
    fun q g => accounts.update_none here
  refine ⟨fun q g there => ?_,?_,fun g member => ?_,sound,fun g => ?_,fun q g there => ?_,fun q pinned => ?_⟩
  · obtain ⟨before,other⟩ := (kept q g).mp there
    simpa [setPage,Function.update_of_ne other] using accounts.mapped q g before
  · rw [List.nodup_append]
    refine ⟨accounts.distinct,List.nodup_singleton f,fun g member g' single => ?_⟩
    rw [List.mem_singleton.mp single]
    exact fun same => notFree (same ▸ member)
  · rcases List.mem_append.mp member with before | new
    · refine ⟨(accounts.free g before).1,fun q there => (accounts.free g before).2 q ((kept q g).mp there).1⟩
    · obtain rfl := List.mem_singleton.mp new
      exact ⟨(accounts.mapped p g here).1,fun q there => ((kept q g).mp there).2 rfl⟩
  · rw [others g,accounts.evictable g]
    simp only [kept]
    constructor
    · rintro ⟨⟨q,there,unpinned⟩,other⟩
      exact ⟨q,⟨there,other⟩,unpinned⟩
    · rintro ⟨q,⟨there,other⟩,unpinned⟩
      exact ⟨⟨q,there,unpinned⟩,other⟩
  · obtain ⟨before,other⟩ := (kept q g).mp there
    simpa [setPage,Function.update_of_ne other] using accounts.pinned q g before
  · show Function.update b.pageTable p none q ≠ none
    have other : q ≠ p := by rintro rfl; exact free pinned
    rw [Function.update_of_ne other]
    exact accounts.held q pinned

/-- The pool after the page `p` has been deleted. -/
structure Deleted (b : BufferPoolManager) (p : PageId) (b' : BufferPoolManager) : Prop where
  poolSize : b'.poolSize = b.poolSize
  table : ∀ q g, b'.pageTable q = some g ↔ b.pageTable q = some g ∧ q ≠ p
  pages : ∀ q g, b.pageTable q = some g → q ≠ p → b'.pages g = b.pages g
  disk : b'.disk = b.disk.deallocatePage p
  covered : Covered b → Covered b'
  idle : Idle b → Idle b'

theorem deletePage_uncached (absent : b.pageTable p = none) :
    b.deletePage p = (true,{ b with disk := b.disk.deallocatePage p }) := by
  simp only [deletePage,absent]

theorem deletePage_cached (here : b.pageTable p = some f) (free : ¬ 0 < (b.pages f).pinCount) :
    b.deletePage p = (true,
      { b.setPage f Page.reset with
        replacer := b.replacer.pin f, pageTable := Function.update b.pageTable p none,
        freeList := b.freeList ++ [f], disk := b.disk.deallocatePage p }) := by
  simp only [deletePage,here,if_neg free]

theorem Deleted.bound (deleted : Deleted b p b') (other : q ≠ p) (here : b.pageTable q = some g) : b'.pageTable q = some g :=
  (deleted.table q g).mpr ⟨here,other⟩

/-- A page with a pin is not deleted, and a page without one is. -/
theorem deletePage_cases (accounts : Accounts b pins) (p : PageId) :
    p ∈ pins ∧ b.deletePage p = (false,b) ∨
    p ∉ pins ∧ ∃ b', b.deletePage p = (true,b') ∧ Deleted b p b' ∧ Accounts b' pins := by
  cases here : b.pageTable p with
  | none =>
    have free : p ∉ pins := fun pinned => accounts.held p pinned here
    refine .inr ⟨free,_,deletePage_uncached here,⟨rfl,fun q g => ⟨fun there => ⟨there,?_⟩,And.left⟩,
      fun _ _ _ _ => rfl,rfl,fun covered => covered,fun idle => idle⟩,accounts_pages accounts (fun _ => rfl) (fun _ => rfl)⟩
    rintro rfl
    rw [here] at there
    cases there
  | some f =>
    have count := accounts.pinned p f here
    by_cases pinned : p ∈ pins
    · have positive : 0 < (b.pages f).pinCount := by rw [count]; exact_mod_cast Multiset.count_pos.mpr pinned
      exact .inl ⟨pinned,by simp only [deletePage,here,if_pos positive]⟩
    · have zero : ¬ 0 < (b.pages f).pinCount := by rw [count,Multiset.count_eq_zero.mpr pinned]; simp
      have kept : ∀ q g, Function.update b.pageTable p none q = some g ↔ b.pageTable q = some g ∧ q ≠ p :=
        fun q g => BufferPoolFrames.update_none
      refine .inr ⟨pinned,_,deletePage_cached here zero,⟨rfl,kept,fun q g there other => ?_,rfl,?_,?_⟩,
        accounts_delete accounts here pinned⟩
      · have apart : g ≠ f := by rintro rfl; exact other (accounts.injective there here)
        exact Function.update_of_ne apart ..
      · intro covered g frame
        by_cases same : g = f
        · exact .inl (List.mem_append.mpr (.inr (List.mem_singleton.mpr same)))
        · refine (covered g frame).imp (fun free => List.mem_append.mpr (.inl free)) ?_
          rintro ⟨q,there⟩
          refine ⟨q,(kept q g).mpr ⟨there,?_⟩⟩
          rintro rfl
          exact same (Option.some.inj (there.symm.trans here))
      · intro idle g unmapped
        show (Function.update b.pages f Page.reset g).pinCount = 0
        by_cases same : g = f
        · rw [same,Function.update_self]
          rfl
        · rw [Function.update_of_ne same]
          refine idle g (fun q there => unmapped q ((kept q g).mpr ⟨there,?_⟩))
          rintro rfl
          exact same (Option.some.inj (there.symm.trans here))

/-- The pool after the page `p` in the frame `f` has been written to the file. -/
structure Flushed (b : BufferPoolManager) (p : PageId) (f : FrameId) (b' : BufferPoolManager) : Prop where
  here : b.pageTable p = some f
  poolSize : b'.poolSize = b.poolSize
  pageTable : b'.pageTable = b.pageTable
  freeList : b'.freeList = b.freeList
  pages : b'.pages = Function.update b.pages f { b.pages f with isDirty := false }
  freeListHead : b'.disk.freeListHead = b.disk.freeListHead
  numPages : b'.disk.numPages = b.disk.numPages
  length : b.disk.numPages.toNat ≤ b.disk.dbIo.length → b'.disk.dbIo.length = b.disk.dbIo.length
  stored : ∀ q, b'.disk.dbIo.page q = if q = p ∧ (b.pages f).isDirty then (b.pages f).data else b.disk.dbIo.page q

theorem Flushed.covered (flushed : Flushed b p f b') (covered : Covered b) : Covered b' := by
  intro g frame
  rw [flushed.freeList,flushed.pageTable]
  exact covered g (flushed.poolSize ▸ frame)

theorem Flushed.idle (flushed : Flushed b p f b') (idle : Idle b) : Idle b' := by
  intro g unmapped
  rw [flushed.pageTable] at unmapped
  have apart : g ≠ f := by
    rintro rfl
    exact unmapped p flushed.here
  rw [flushed.pages,Function.update_of_ne apart]
  exact idle g unmapped

theorem flushFrame_written (dirty : (b.pages f).isDirty = true) (id : (b.pages f).pageId = p)
    (low : p < b.disk.numPages) : b.flushFrame f = (.ok (),
      { b with pages := Function.update b.pages f { b.pages f with isDirty := false },
               disk := { b.disk with dbIo := b.disk.dbIo.write p (b.pages f).data } }) := by
  have written : b.disk.writePage (b.pages f).pageId (b.pages f).data =
      .ok { b.disk with dbIo := b.disk.dbIo.write p (b.pages f).data } := by
    rw [DiskManager.writePage,id,if_neg (UInt32.not_le.mpr low)]
  simp only [flushFrame,dirty,if_true,written,setPage]

/-- A page of the file that is in the pool is written to the file where needed. -/
theorem flushFrame_spec (accounts : Accounts b pins) (here : b.pageTable p = some f) (low : p < b.disk.numPages) :
    ∃ b', b.flushFrame f = (.ok (),b') ∧ Flushed b p f b' ∧ Accounts b' pins := by
  obtain ⟨_,id⟩ := accounts.mapped p f here
  cases dirty : (b.pages f).isDirty with
  | false =>
    refine ⟨b,by simp only [flushFrame,dirty,Bool.false_eq_true,if_false],⟨here,rfl,rfl,rfl,?_,rfl,rfl,fun _ => rfl,fun q => by simp [dirty]⟩,accounts⟩
    have same : { b.pages f with isDirty := false } = b.pages f := by rw [← dirty]
    rw [same,Function.update_eq_self]
  | true =>
    refine ⟨_,flushFrame_written dirty id low,⟨here,rfl,rfl,rfl,rfl,rfl,rfl,fun long => ?_,fun q => ?_⟩,accounts_pages accounts ?_ ?_⟩
    · rw [UInt32.lt_iff_toNat_lt] at low
      simp only [DbFile.write]
      omega
    · simp only [DbFile.write,dirty,and_true]
      by_cases same : q = p
      · subst same; simp
      · simp [same]
    · intro g
      by_cases same : g = f <;> simp [same,Function.update_of_ne]
    · intro g
      by_cases same : g = f <;> simp [same,Function.update_of_ne]

/-! ### Selection -/

/-- The pool after the frame `f` has been found. -/
structure Selected (b : BufferPoolManager) (f : FrameId) (b' : BufferPoolManager) : Prop where
  replacement : b.replacement = some f
  poolSize : b'.poolSize = b.poolSize
  table : ∀ p g, b'.pageTable p = some g ↔ b.pageTable p = some g ∧ g ≠ f
  pages : ∀ g, g ≠ f → b'.pages g = b.pages g
  freeList : ∀ g, g ∈ b'.freeList ↔ g ∈ b.freeList ∧ g ≠ f
  freeListHead : b'.disk.freeListHead = b.disk.freeListHead
  numPages : b'.disk.numPages = b.disk.numPages
  longer : b.disk.dbIo.length ≤ b'.disk.dbIo.length
  length : b.disk.numPages.toNat ≤ b.disk.dbIo.length → b'.disk.dbIo.length = b.disk.dbIo.length
  stored : ∀ q, b'.disk.dbIo.page q =
    if b.pageTable q = some f ∧ (b.pages f).isDirty then (b.pages f).data else b.disk.dbIo.page q

/-- The dirty victim that cannot be written to disk. -/
structure Stuck (b : BufferPoolManager) (f : FrameId) (p : PageId) : Prop where
  replacement : b.replacement = some f
  mapped : b.pageTable p = some f
  dirty : (b.pages f).isDirty = true
  outside : b.disk.numPages ≤ p

/-- A page that is pinned stays where it is. -/
theorem Selected.bound (selected : Selected b f b') (accounts' : Accounts b' pins) (pinned : q ∈ pins)
    (here : b.pageTable q = some g) : b'.pageTable q = some g := by
  obtain ⟨g',there⟩ := Option.ne_none_iff_exists'.mp (accounts'.held q pinned)
  rw [there]
  exact ((selected.table q g').mp there).1.symm.trans here

/-- Only frames whose pages have no pins are found. -/
theorem replacement_unpinned (accounts : Accounts b pins) (found : b.replacement = some f) (here : b.pageTable p = some f) :
    p ∉ pins := by
  cases list : b.freeList with
  | cons g rest =>
    obtain rfl : g = f := by simpa [replacement,list] using found
    exact absurd here ((accounts.free g (by simp [list])).2 p)
  | nil =>
    rw [replacement,list] at found
    obtain ⟨q,there,free⟩ := (accounts.evictable f).mp (victim_some accounts.replacer found).1
    exact accounts.injective here there ▸ free

theorem selectFrame_free {rest : List FrameId} (list : b.freeList = f :: rest) :
    b.selectFrame = (.ok (some f),{ b with freeList := rest }) := by
  simp only [selectFrame,list]

theorem selectFrame_none (accounts : Accounts b pins) (list : b.freeList = []) (found : b.replacer.victim.1 = none) :
    b.selectFrame = (.ok none,b) := by
  have shape : b.replacer.victim = (none,b.replacer) := Prod.ext found (victim_none accounts.replacer found).1
  rw [selectFrame]
  split
  · next cons => simp [list] at cons
  · rw [shape]

theorem selectFrame_clean (list : b.freeList = []) (found : b.replacer.victim.1 = some f) (clean : (b.pages f).isDirty = false) :
    b.selectFrame = (.ok (some f),
      { b with replacer := b.replacer.victim.2, pages := b.pages, disk := b.disk,
               pageTable := Function.update b.pageTable (b.pages f).pageId none }) := by
  have shape : b.replacer.victim = (some f,b.replacer.victim.2) := Prod.ext found rfl
  rw [selectFrame]
  split
  · next cons => simp [list] at cons
  · rw [shape]
    simp [clean]

theorem selectFrame_dirty (list : b.freeList = []) (found : b.replacer.victim.1 = some f) (dirty : (b.pages f).isDirty = true) :
    b.selectFrame = match b.disk.writePage (b.pages f).pageId (b.pages f).data with
      | .error e => (.error e,{ b with replacer := b.replacer.victim.2 })
      | .ok disk => (.ok (some f),
          { b with replacer := b.replacer.victim.2, pages := Function.update b.pages f { b.pages f with isDirty := false },
                   disk, pageTable := Function.update b.pageTable (b.pages f).pageId none }) := by
  have shape : b.replacer.victim = (some f,b.replacer.victim.2) := Prod.ext found rfl
  rw [selectFrame]
  split
  · next cons => simp [list] at cons
  · rw [shape]
    simp only [dirty,if_true]
    rfl

/-- A frame of the free list. -/
theorem selectFrame_listed {rest : List FrameId} (accounts : Accounts b pins) (list : b.freeList = f :: rest) :
    ∃ b', b.selectFrame = (.ok (some f),b') ∧ Selected b f b' ∧ Accounts b' pins ∧ Loose b' f := by
  obtain ⟨accounts',loose⟩ := accounts_takeFree accounts list
  have unmapped := (accounts.free f (by simp [list])).2
  have found : b.replacement = some f := by simp [replacement,list]
  refine ⟨_,selectFrame_free list,⟨found,rfl,fun p g => ?_,fun _ _ => rfl,fun g => ?_,rfl,rfl,le_refl _,fun _ => rfl,
    fun q => by simp [unmapped q]⟩,accounts',loose⟩
  · refine ⟨fun there => ⟨there,?_⟩,And.left⟩
    rintro rfl
    exact unmapped p there
  · have distinct := accounts.distinct
    rw [list,List.nodup_cons] at distinct
    show g ∈ rest ↔ g ∈ b.freeList ∧ g ≠ f
    rw [list,List.mem_cons]
    constructor
    · intro member
      exact ⟨.inr member,fun same => distinct.1 (same ▸ member)⟩
    · rintro ⟨here | member,other⟩
      · exact absurd here other
      · exact member

/-- How a frame is found: there is none, or it leaves its page and the free list,
    or the victim cannot be written to disk. -/
theorem selectFrame_cases (accounts : Accounts b pins) :
    b.replacement = none ∧ b.selectFrame = (.ok none,b) ∨
    (∃ f b', b.selectFrame = (.ok (some f),b') ∧ Selected b f b' ∧ Accounts b' pins ∧ Loose b' f) ∨
    ∃ f p b', b.selectFrame = (.error .outOfRange,b') ∧ Stuck b f p := by
  cases list : b.freeList with
  | cons f rest =>
    obtain ⟨b',ran,selected,accounts',loose⟩ := selectFrame_listed accounts list
    exact .inr (.inl ⟨f,b',ran,selected,accounts',loose⟩)
  | nil =>
    cases found : b.replacer.victim.1 with
    | none => exact .inl ⟨by simp [replacement,list,found],selectFrame_none accounts list found⟩
    | some f =>
      have chosen : b.replacement = some f := by simp [replacement,list,found]
      obtain ⟨has,_,_⟩ := victim_some accounts.replacer found
      obtain ⟨p,here,unpinned⟩ := (accounts.evictable f).mp has
      have id := (accounts.mapped p f here).2
      have only : ∀ q, b.pageTable q = some f ↔ q = p := fun q =>
        ⟨fun there => accounts.injective there here,fun same => same ▸ here⟩
      have kept : ∀ q g, Function.update b.pageTable (b.pages f).pageId none q = some g ↔ b.pageTable q = some g ∧ g ≠ f :=
        fun q g => id ▸ accounts.update_none here
      cases dirty : (b.pages f).isDirty with
      | false =>
        obtain ⟨accounts',loose⟩ := accounts_evict b.pages b.disk accounts found (fun _ => rfl) (fun _ => rfl)
        exact .inr (.inl ⟨f,_,selectFrame_clean list found dirty,
          ⟨chosen,rfl,kept,fun _ _ => rfl,by simp [list],rfl,rfl,le_refl _,fun _ => rfl,by simp [dirty]⟩,accounts',loose⟩)
      | true =>
        have after := selectFrame_dirty list found dirty
        by_cases outside : b.disk.numPages ≤ p
        · have written : b.disk.writePage (b.pages f).pageId (b.pages f).data = .error .outOfRange := by
            rw [DiskManager.writePage,id,if_pos outside]
          rw [written] at after
          exact .inr (.inr ⟨f,p,_,after,chosen,here,dirty,outside⟩)
        · have written : b.disk.writePage (b.pages f).pageId (b.pages f).data =
              .ok { b.disk with dbIo := b.disk.dbIo.write p (b.pages f).data } := by
            rw [DiskManager.writePage,id,if_neg outside]
          rw [written] at after
          obtain ⟨accounts',loose⟩ := accounts_evict
            (Function.update b.pages f { b.pages f with isDirty := false })
            { b.disk with dbIo := b.disk.dbIo.write p (b.pages f).data } accounts found
            (fun g => by by_cases same : g = f <;> simp [same,Function.update_of_ne])
            (fun g => by by_cases same : g = f <;> simp [same,Function.update_of_ne])
          refine .inr (.inl ⟨f,_,after,⟨chosen,rfl,kept,fun g other => ?_,by simp [list],rfl,rfl,le_max_left ..,
            fun long => ?_,fun q => ?_⟩,accounts',loose⟩)
          · exact Function.update_of_ne other ..
          · have low : p < b.disk.numPages := UInt32.not_le.mp outside
            rw [UInt32.lt_iff_toNat_lt] at low
            simp only [DbFile.write]
            omega
          · simp only [DbFile.write,only,and_true,dirty]
            by_cases same : q = p
            · subst same; simp
            · simp [same]

/-- There is no frame to be found exactly when all have pins. -/
theorem replacement_none (accounts : Accounts b pins) (covered : Covered b) (idle : Idle b) :
    b.replacement = none ↔ ∀ f, IsFrame b.poolSize f → 0 < (b.pages f).pinCount := by
  have unpinned : ∀ f, b.replacement = some f → IsFrame b.poolSize f ∧ (b.pages f).pinCount = 0 := by
    intro f found
    rcases selectFrame_cases accounts with ⟨full,_⟩ | ⟨g,_,_,selected,_,loose⟩ | ⟨g,p,_,_,stuck⟩
    · rw [full] at found
      cases found
    · obtain rfl : g = f := Option.some.inj (selected.replacement.symm.trans found)
      refine ⟨selected.poolSize ▸ loose.frame,?_⟩
      by_cases mapped : ∃ p, b.pageTable p = some g
      · obtain ⟨p,here⟩ := mapped
        rw [accounts.pinned p g here,Multiset.count_eq_zero.mpr (replacement_unpinned accounts found here)]
        rfl
      · exact idle g (fun p here => mapped ⟨p,here⟩)
    · obtain rfl : g = f := Option.some.inj (stuck.replacement.symm.trans found)
      refine ⟨(accounts.mapped p g stuck.mapped).1,?_⟩
      rw [accounts.pinned p g stuck.mapped,Multiset.count_eq_zero.mpr (replacement_unpinned accounts found stuck.mapped)]
      rfl
  constructor
  · intro full f frame
    have list : b.freeList = [] := by
      cases list : b.freeList with
      | nil => rfl
      | cons g rest => simp [replacement,list] at full
    rw [replacement,list] at full
    rcases covered f frame with free | ⟨p,here⟩
    · rw [list] at free
      cases free
    · have pinned : p ∈ pins := by
        by_contra free
        exact (victim_none accounts.replacer full).2 f ((accounts.evictable f).mpr ⟨p,here,free⟩)
      rw [accounts.pinned p f here]
      exact_mod_cast Multiset.count_pos.mpr pinned
  · intro all
    cases found : b.replacement with
    | none => rfl
    | some f =>
      obtain ⟨frame,zero⟩ := unpinned f found
      have positive := all f frame
      omega

/-! ### Fetching and creating pages -/

/-- The bytes of a page: those in the pool, or else those on disk. -/
def current (b : BufferPoolManager) (p : PageId) : PageData :=
  match b.pageTable p with
  | some f => (b.pages f).data
  | none => b.disk.dbIo.page p

theorem current_cached (here : b.pageTable p = some f) : current b p = (b.pages f).data := by rw [current,here]

theorem current_uncached (absent : b.pageTable p = none) : current b p = b.disk.dbIo.page p := by rw [current,absent]

/-- The pool after the page `p` has been found in the frame `f` or loaded there. -/
structure Fetched (b : BufferPoolManager) (p : PageId) (f : FrameId) (b' : BufferPoolManager) : Prop where
  poolSize : b'.poolSize = b.poolSize
  here : b'.pageTable p = some f
  found : ∀ g, b.pageTable p = some g → g = f
  table : ∀ q g, q ≠ p → (b'.pageTable q = some g ↔ b.pageTable q = some g ∧ g ≠ f)
  pages : ∀ g, g ≠ f → b'.pages g = b.pages g
  bytes : b.disk.numPages.toNat ≤ b.disk.dbIo.length → (b'.pages f).data = current b p
  dirty : (b'.pages f).isDirty = (decide (b.pageTable p = some f) && (b.pages f).isDirty)
  covered : Covered b → Covered b'
  freeListHead : b'.disk.freeListHead = b.disk.freeListHead
  numPages : b'.disk.numPages = b.disk.numPages
  length : b.disk.numPages.toNat ≤ b.disk.dbIo.length → b'.disk.dbIo.length = b.disk.dbIo.length
  stored : ∀ q, b'.disk.dbIo.page q =
    if b.pageTable q = some f ∧ q ≠ p ∧ (b.pages f).isDirty then (b.pages f).data else b.disk.dbIo.page q

theorem Fetched.bound (fetched : Fetched b p f b') (accounts' : Accounts b' (p ::ₘ pins)) (pinned : q ∈ p ::ₘ pins)
    (other : q ≠ p) (here : b.pageTable q = some g) : b'.pageTable q = some g := by
  obtain ⟨g',there⟩ := Option.ne_none_iff_exists'.mp (accounts'.held q pinned)
  rw [there]
  exact ((fetched.table q g' other).mp there).1.symm.trans here

theorem Fetched.idle (fetched : Fetched b p f b') (idle : Idle b) : Idle b' := by
  intro g unmapped
  have apart : g ≠ f := by
    rintro rfl
    exact unmapped p fetched.here
  rw [fetched.pages g apart]
  refine idle g (fun q there => ?_)
  by_cases same : q = p
  · subst same
    exact apart (fetched.found g there)
  · exact unmapped q ((fetched.table q g same).mpr ⟨there,apart⟩)

theorem fetchPage_hit (valid : p ≠ INVALID_PAGE_ID) (here : b.pageTable p = some f) :
    b.fetchPage p = (.ok (some f),
      { b.setPage f { b.pages f with pinCount := (b.pages f).pinCount + 1 } with replacer := b.replacer.pin f }) := by
  simp only [fetchPage,if_neg valid,here]

theorem fetchPage_load {data : PageData} (valid : p ≠ INVALID_PAGE_ID) (absent : b.pageTable p = none)
    (after : b.selectFrame = (.ok (some f),b')) (read : b'.disk.readPage p = .ok data) :
    b.fetchPage p = (.ok (some f),
      { b'.setPage f { Page.reset with pageId := p, pinCount := 1, data } with
        pageTable := Function.update b'.pageTable p (some f), replacer := b'.replacer.pin f }) := by
  simp only [fetchPage,if_neg valid,absent,after,read]

/-- A page that is not in the pool is refused where there is no frame for it. -/
theorem fetchPage_full (accounts : Accounts b pins) (absent : b.pageTable p = none) (full : b.replacement = none) :
    b.fetchPage p = (.ok none,b) := by
  by_cases invalid : p = INVALID_PAGE_ID
  · rw [fetchPage,if_pos invalid]
  · rcases selectFrame_cases accounts with ⟨_,after⟩ | ⟨f,_,_,selected,_⟩ | ⟨f,_,_,_,stuck⟩
    · simp only [fetchPage,if_neg invalid,absent,after]
    · rw [selected.replacement] at full
      cases full
    · rw [stuck.replacement] at full
      cases full

/-- The frame that has been found gets a page, and the others keep what they have. -/
theorem covered_install {b'' : BufferPoolManager} (selected : Selected b f b') (absent : b'.pageTable p = none)
    (poolSize : b''.poolSize = b'.poolSize) (freeList : b''.freeList = b'.freeList)
    (table : b''.pageTable = Function.update b'.pageTable p (some f)) (covered : Covered b) : Covered b'' := by
  intro g frame
  rw [poolSize,selected.poolSize] at frame
  rw [freeList,table]
  by_cases same : g = f
  · subst same
    exact .inr ⟨p,Function.update_self ..⟩
  · refine (covered g frame).imp (fun free => (selected.freeList g).mpr ⟨free,same⟩) ?_
    rintro ⟨q,there⟩
    have kept : b'.pageTable q = some g := (selected.table q g).mpr ⟨there,same⟩
    have other : q ≠ p := by
      rintro rfl
      rw [absent] at kept
      cases kept
    exact ⟨q,(Function.update_of_ne other ..).trans kept⟩

/-- The page is in the pool. -/
theorem fetched_hit (accounts : Accounts b pins) (here : b.pageTable p = some f) : Fetched b p f
    { b.setPage f { b.pages f with pinCount := (b.pages f).pinCount + 1 } with replacer := b.replacer.pin f } := by
  have only : ∀ q, b.pageTable q = some f → q = p := fun q there => accounts.injective there here
  refine ⟨rfl,here,fun g there => Option.some.inj (there.symm.trans here),fun q g other => ⟨fun there => ⟨there,?_⟩,And.left⟩,
    fun g other => ?_,fun _ => ?_,?_,fun covered g frame => covered g frame,rfl,rfl,fun _ => rfl,fun q => ?_⟩
  · rintro rfl
    exact other (only q there)
  · exact Function.update_of_ne other ..
  · simp [setPage,current_cached here]
  · simp [setPage,here]
  · have never : ¬ (b.pageTable q = some f ∧ q ≠ p ∧ (b.pages f).isDirty = true) := fun ⟨there,other,_⟩ => other (only q there)
    rw [if_neg never]
    rfl

/-- The page is loaded into the frame that has been found. -/
theorem fetched_load (selected : Selected b f b') (here : b.pageTable p = none) (absent : b'.pageTable p = none) (low : p < b.disk.numPages) :
    Fetched b p f { b'.setPage f { Page.reset with pageId := p, pinCount := 1, data := (b'.disk.dbIo.read p).getD (Block.zeros _) } with
      pageTable := Function.update b'.pageTable p (some f), replacer := b'.replacer.pin f } := by
  refine ⟨selected.poolSize,Function.update_self ..,by simp [here],fun q g other => ?_,fun g other => ?_,fun long => ?_,?_,
    covered_install selected absent rfl rfl rfl,selected.freeListHead,selected.numPages,selected.length,fun q => ?_⟩
  · show Function.update b'.pageTable p (some f) q = some g ↔ _
    rw [Function.update_of_ne other,selected.table]
  · show Function.update b'.pages f _ g = b.pages g
    rw [Function.update_of_ne other,selected.pages g other]
  · rw [UInt32.lt_iff_toNat_lt] at low
    have inside : p.toNat < b'.disk.dbIo.length := by rw [selected.length long]; omega
    rw [current_uncached here]
    simp [setPage,DbFile.read,inside,selected.stored,here]
  · simp [setPage,Page.reset,here]
  · show b'.disk.dbIo.page q = _
    rw [selected.stored]
    by_cases same : q = p
    · subst same
      simp [here]
    · simp [same]

/-- A fetch finds the page, or there is no page of that id to find, or all frames
    are in use; where a frame is found in vain it stays loose. -/
theorem fetchPage_cases (accounts : Accounts b pins) (p : PageId) :
    (∃ f b', b.fetchPage p = (.ok (some f),b') ∧ Fetched b p f b' ∧ Accounts b' (p ::ₘ pins) ∧
      (b.pageTable p = none → p < b.disk.numPages)) ∨
    (p = INVALID_PAGE_ID ∨ b.pageTable p = none ∧ b.replacement = none) ∧ b.fetchPage p = (.ok none,b) ∨
    (∃ f b' b'', b.fetchPage p = (.error .outOfRange,b'') ∧ b.pageTable p = none ∧ b.disk.numPages ≤ p ∧
      Selected b f b' ∧ Accounts b' pins ∧ Loose b' f ∧
      b'' = b'.setPage f { Page.reset with pageId := p, pinCount := 1 }) ∨
    ∃ f q b', b.fetchPage p = (.error .outOfRange,b') ∧ b.pageTable p = none ∧ Stuck b f q := by
  by_cases invalid : p = INVALID_PAGE_ID
  · exact .inr (.inl ⟨.inl invalid,by rw [fetchPage,if_pos invalid]⟩)
  · cases here : b.pageTable p with
    | some f =>
      exact .inl ⟨f,_,fetchPage_hit invalid here,fetched_hit accounts here,accounts_pin accounts here,by simp⟩
    | none =>
      rcases selectFrame_cases accounts with ⟨full,after⟩ | ⟨f,b',after,selected,accounts',loose⟩ | ⟨f,q,b',after,stuck⟩
      · exact .inr (.inl ⟨.inr ⟨rfl,full⟩,by simp only [fetchPage,if_neg invalid,here,after]⟩)
      · have absent : b'.pageTable p = none := by
          cases there : b'.pageTable p with
          | none => rfl
          | some g =>
            rw [((selected.table p g).mp there).1] at here
            cases here
        by_cases outside : b.disk.numPages ≤ p
        · have read : b'.disk.readPage p = .error .outOfRange := by
            rw [DiskManager.readPage,selected.numPages,if_pos outside]
          exact .inr (.inr (.inl ⟨f,b',b'.setPage f { Page.reset with pageId := p, pinCount := 1 },
            by simp only [fetchPage,if_neg invalid,here,after,read],rfl,outside,selected,accounts',loose,rfl⟩))
        · have read : b'.disk.readPage p = .ok ((b'.disk.dbIo.read p).getD (Block.zeros _)) := by
            rw [DiskManager.readPage,selected.numPages,if_neg outside]
          have low : p < b.disk.numPages := UInt32.not_le.mp outside
          exact .inl ⟨f,_,fetchPage_load invalid here after read,fetched_load selected here absent low,
            accounts_install accounts' loose absent rfl rfl,fun _ => low⟩
      · exact .inr (.inr (.inr ⟨f,q,b',by simp only [fetchPage,if_neg invalid,here,after],rfl,stuck⟩))

/-- The id that a new page will get is in no other frame than the one it will get. -/
def HandsOutUncached (b : BufferPoolManager) : Prop :=
  ∀ f g, b.pageTable b.disk.nextPageId = some f → b.replacement = some g → f = g

/-- The pool after the page `p` has been created in the frame `f`. -/
structure Created (b : BufferPoolManager) (p : PageId) (f : FrameId) (b' : BufferPoolManager) : Prop where
  poolSize : b'.poolSize = b.poolSize
  id : p = b.disk.nextPageId
  here : b'.pageTable p = some f
  table : ∀ q g, q ≠ p → (b'.pageTable q = some g ↔ b.pageTable q = some g ∧ g ≠ f)
  pages : ∀ g, g ≠ f → b'.pages g = b.pages g
  page : b'.pages f = { Page.reset with pageId := p, pinCount := 1 }
  covered : Covered b → Covered b'
  allocated : ∃ b₁, Selected b f b₁ ∧ b₁.disk.allocatePage = .ok (p,b'.disk)

theorem Created.bound (created : Created b p f b') (accounts' : Accounts b' (p ::ₘ pins)) (pinned : q ∈ p ::ₘ pins)
    (other : q ≠ p) (here : b.pageTable q = some g) : b'.pageTable q = some g := by
  obtain ⟨g',there⟩ := Option.ne_none_iff_exists'.mp (accounts'.held q pinned)
  rw [there]
  exact ((created.table q g' other).mp there).1.symm.trans here

theorem Created.idle (created : Created b p f b') (uncached : HandsOutUncached b) (idle : Idle b) : Idle b' := by
  obtain ⟨b₁,selected,_⟩ := created.allocated
  intro g unmapped
  have apart : g ≠ f := by
    rintro rfl
    exact unmapped p created.here
  rw [created.pages g apart]
  refine idle g (fun q there => ?_)
  by_cases same : q = p
  · subst same
    exact apart (uncached g f (created.id ▸ there) selected.replacement)
  · exact unmapped q ((created.table q g same).mpr ⟨there,apart⟩)

theorem nextPageId_selected (selected : Selected b f b') : b'.disk.nextPageId = b.disk.nextPageId := by
  rw [DiskManager.nextPageId,DiskManager.nextPageId,selected.freeListHead,selected.numPages]

theorem allocatePage_id {d d' : DiskManager} (allocated : d.allocatePage = .ok (p,d')) : p = d.nextPageId := by
  rw [DiskManager.allocatePage] at allocated
  rw [DiskManager.nextPageId]
  split_ifs at allocated ⊢
  · split at allocated
    · cases allocated
    · cases allocated; rfl
  · cases allocated; rfl

theorem newPage_made {disk : DiskManager} (after : b.selectFrame = (.ok (some f),b'))
    (allocated : b'.disk.allocatePage = .ok (p,disk)) :
    b.newPage = (.ok (some (p,f)),
      { b'.setPage f { Page.reset with pageId := p, pinCount := 1 } with
        disk, pageTable := Function.update b'.pageTable p (some f), replacer := b'.replacer.pin f }) := by
  simp only [newPage,after,allocated]

/-- A page is created in a frame that has been found, or there is none, or the
    frame is found in vain and stays loose. -/
theorem newPage_cases (accounts : Accounts b pins) (uncached : HandsOutUncached b) :
    (∃ p f b', b.newPage = (.ok (some (p,f)),b') ∧ Created b p f b' ∧ Accounts b' (p ::ₘ pins)) ∨
    b.replacement = none ∧ b.newPage = (.ok none,b) ∨
    (∃ f b' e, b.newPage = (.error e,b') ∧ b'.disk.allocatePage = .error e ∧ Selected b f b' ∧ Accounts b' pins ∧ Loose b' f) ∨
    ∃ f q b', b.newPage = (.error .outOfRange,b') ∧ Stuck b f q := by
  rcases selectFrame_cases accounts with ⟨full,after⟩ | ⟨f,b',after,selected,accounts',loose⟩ | ⟨f,q,b',after,stuck⟩
  · exact .inr (.inl ⟨full,by simp only [newPage,after]⟩)
  · cases allocated : b'.disk.allocatePage with
    | error e => exact .inr (.inr (.inl ⟨f,b',e,by simp only [newPage,after,allocated],allocated,selected,accounts',loose⟩))
    | ok made =>
      obtain ⟨p,disk⟩ := made
      have id : p = b.disk.nextPageId := (allocatePage_id allocated).trans (nextPageId_selected selected)
      have absent : b'.pageTable p = none := by
        cases there : b'.pageTable p with
        | none => rfl
        | some g =>
          obtain ⟨before,other⟩ := (selected.table p g).mp there
          rw [id] at before
          exact absurd (uncached g f before selected.replacement) other
      refine .inl ⟨p,f,_,newPage_made after allocated,⟨selected.poolSize,id,Function.update_self ..,fun q g other => ?_,fun g other => ?_,
        Function.update_self ..,covered_install selected absent rfl rfl rfl,b',selected,allocated⟩,?_⟩
      · show Function.update b'.pageTable p (some f) q = some g ↔ _
        rw [Function.update_of_ne other,selected.table]
      · show Function.update b'.pages f _ g = b.pages g
        rw [Function.update_of_ne other,selected.pages g other]
      · exact accounts_install accounts' loose absent rfl rfl
  · exact .inr (.inr (.inr ⟨f,q,b',by simp only [newPage,after],stuck⟩))

end
end Aether.BufferPoolFrames
