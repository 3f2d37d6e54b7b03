import Aether.BufferPoolFrames
import Aether.FreeList

/-!
What the pool holds. `current` is the page store that the pool and the file
together stand for, and `Consistent` says that the frames, their dirty flags and
the file agree on it and that cached copies of free pages do not break the free
list. Every method keeps `Consistent` and changes `current` in one page at most.
-/
namespace Aether.PoolContents
open Aether.Bytes Aether.Types Aether.DiskManager Aether.FreeList Aether.Replacers Aether.BufferPool Aether.BufferPoolFrames
open BufferPoolManager

/-- A pool whose clean frames hold what is in the file, except for the pages that
    are exempt, over a file with the free pages `l`. -/
structure Consistent (b : BufferPoolManager) (pins : Multiset PageId) (exempt : PageId → Prop) (l : List PageId) : Prop where
  accounts : Accounts b pins
  free : FreeList b.disk l
  low : ∀ p f, b.pageTable p = some f → p < b.disk.numPages
  links : ∀ p f, p ∈ l → b.pageTable p = some f → (b.pages f).data.get32 0 = link b.disk p
  synced : ∀ p f, b.pageTable p = some f → p ≠ 0 → (b.pages f).isDirty = false → ¬ exempt p →
    (b.pages f).data = b.disk.dbIo.page p

/-- A page of the file that is neither free nor page 0. -/
structure Owned (d : DiskManager) (l : List PageId) (p : PageId) : Prop where
  positive : 0 < p
  inFile : p < d.numPages
  notFree : p ∉ l

section
variable {b b' : BufferPoolManager} {pins : Multiset PageId} {exempt exempt' : PageId → Prop} {l : List PageId}
variable {p q : PageId} {f g : FrameId} {isDirty : Bool} {n : Nat}

theorem create_consistent {disk : DiskManager} {replacer : Replacer} (fresh : Fresh n replacer) (free : FreeList disk l) :
    Consistent (.create n disk replacer) 0 exempt l :=
  ⟨create_accounts fresh,free,by simp [BufferPoolManager.create],by simp [BufferPoolManager.create],by simp [BufferPoolManager.create]⟩

theorem Consistent.long (consistent : Consistent b pins exempt l) : b.disk.numPages.toNat ≤ b.disk.dbIo.length :=
  consistent.free.length.ge

/-- More pages are exempt. -/
theorem Consistent.exempting (consistent : Consistent b pins exempt l) (more : ∀ q, exempt q → exempt' q) :
    Consistent b pins exempt' l :=
  ⟨consistent.accounts,consistent.free,consistent.low,consistent.links,
    fun p f here positive clean fixed => consistent.synced p f here positive clean (fun old => fixed (more p old))⟩

theorem Consistent.notStuck (consistent : Consistent b pins exempt l) : ¬ Stuck b f p :=
  fun stuck => UInt32.not_le.mpr (consistent.low p f stuck.mapped) stuck.outside

/-- Where no free page is in the pool, the page that is handed out next is not. -/
theorem Consistent.nextUncached (consistent : Consistent b pins exempt l) (uncached : ∀ p ∈ l, b.pageTable p = none) :
    b.pageTable b.disk.nextPageId = none := by
  cases mapped : b.pageTable b.disk.nextPageId with
  | none => rfl
  | some f =>
    rw [DiskManager.nextPageId] at mapped
    split_ifs at mapped with head
    · cases l with
      | nil => exact absurd consistent.free.chain head
      | cons p rest =>
        obtain ⟨same,_⟩ := consistent.free.chain
        rw [same,uncached p List.mem_cons_self] at mapped
        cases mapped
    · exact absurd (consistent.low _ f mapped) (UInt32.lt_irrefl _)

theorem Consistent.handsOut (consistent : Consistent b pins exempt l) (uncached : ∀ p ∈ l, b.pageTable p = none) :
    HandsOutUncached b := by
  intro f g mapped _
  rw [consistent.nextUncached uncached] at mapped
  cases mapped

/-! ### Finding a frame -/

/-- The file after a victim has left: its page is what it was in the pool. -/
theorem Consistent.stored (consistent : Consistent b pins exempt l) (positive : q ≠ 0) (fixed : ¬ exempt q)
    (here : b.pageTable q = some f) :
    (if b.pageTable q = some f ∧ (b.pages f).isDirty then (b.pages f).data else b.disk.dbIo.page q) = (b.pages f).data := by
  split_ifs with dirty
  · rfl
  · have clean : (b.pages f).isDirty = false := by
      by_contra flagged
      exact dirty ⟨here,by simpa using flagged⟩
    exact (consistent.synced q f here positive clean fixed).symm

/-- The link of a free page is not changed when its frame is written to the file. -/
theorem Consistent.stored_link (consistent : Consistent b pins exempt l) (member : q ∈ l) {condition : Prop} [Decidable condition]
    (here : condition → b.pageTable q = some f) :
    (if condition then (b.pages f).data else b.disk.dbIo.page q).get32 0 = link b.disk q := by
  split_ifs with chosen
  · exact consistent.links q f member (here chosen)
  · rfl

theorem selected_free (consistent : Consistent b pins exempt l) (selected : Selected b f b') : FreeList b'.disk l := by
  refine consistent.free.congr selected.freeListHead selected.numPages (selected.length consistent.long) (fun q member => ?_)
  rw [link,selected.stored]
  exact consistent.stored_link member And.left

theorem selected_consistent (consistent : Consistent b pins exempt l) (selected : Selected b f b') (accounts' : Accounts b' pins) :
    Consistent b' pins exempt l := by
  have kept : ∀ q g, b'.pageTable q = some g → b'.pages g = b.pages g ∧ b'.disk.dbIo.page q = b.disk.dbIo.page q := by
    intro q g there
    obtain ⟨before,other⟩ := (selected.table q g).mp there
    have apart : ¬ (b.pageTable q = some f ∧ (b.pages f).isDirty = true) := by
      rintro ⟨same,_⟩
      exact other (Option.some.inj (before.symm.trans same))
    rw [selected.stored,if_neg apart]
    exact ⟨selected.pages g other,rfl⟩
  refine ⟨accounts',selected_free consistent selected,fun q g there => ?_,fun q g member there => ?_,
    fun q g there positive clean fixed => ?_⟩
  · rw [selected.numPages]
    exact consistent.low q g ((selected.table q g).mp there).1
  · obtain ⟨page,stored⟩ := kept q g there
    rw [page,link,stored]
    exact consistent.links q g member ((selected.table q g).mp there).1
  · obtain ⟨page,stored⟩ := kept q g there
    rw [page] at clean ⊢
    rw [stored]
    exact consistent.synced q g ((selected.table q g).mp there).1 positive clean fixed

/-- A page that was not in the frame that is given up keeps its bytes, and so does the
    page that was, if it is written back. -/
theorem evicted_current (consistent : Consistent b pins exempt l) (positive : q ≠ 0) (fixed : exempt q → b'.pageTable q ≠ none)
    (table : ∀ g, b'.pageTable q = some g ↔ b.pageTable q = some g ∧ g ≠ f) (pages : ∀ g, g ≠ f → b'.pages g = b.pages g)
    (stored : b'.disk.dbIo.page q =
      if b.pageTable q = some f ∧ (b.pages f).isDirty then (b.pages f).data else b.disk.dbIo.page q) :
    current b' q = current b q := by
  have absent : (∀ g, b.pageTable q = some g → g = f) → b'.pageTable q = none := by
    intro only
    cases there : b'.pageTable q with
    | none => rfl
    | some g =>
      obtain ⟨before,other⟩ := (table g).mp there
      exact absurd (only g before) other
  cases here : b.pageTable q with
  | none =>
    have gone := absent (fun g before => by rw [here] at before; cases before)
    rw [current_uncached gone,current_uncached here,stored,if_neg (by simp [here])]
  | some g =>
    by_cases chosen : g = f
    · subst chosen
      have gone := absent (fun g' before => Option.some.inj (before.symm.trans here))
      rw [current_uncached gone,current_cached here,stored]
      exact consistent.stored positive (fun old => fixed old gone) here
    · rw [current_cached ((table g).mpr ⟨here,chosen⟩),current_cached here,pages g chosen]

/-- Finding a frame changes no page's bytes, unless an exempt page leaves the pool. -/
theorem selected_current (consistent : Consistent b pins exempt l) (selected : Selected b f b')
    (positive : q ≠ 0) (fixed : exempt q → b'.pageTable q ≠ none) : current b' q = current b q :=
  evicted_current consistent positive fixed (selected.table q) selected.pages (selected.stored q)

/-- A frame that was found in vain. -/
theorem loose_consistent {page : Page} (loose : Loose b f) (consistent : Consistent b pins exempt l) :
    Consistent (b.setPage f page) pins exempt l := by
  have kept : ∀ q g, b.pageTable q = some g → (b.setPage f page).pages g = b.pages g := by
    intro q g here
    exact Function.update_of_ne (by rintro rfl; exact loose.unmapped q here) ..
  refine ⟨loose.accounts consistent.accounts,consistent.free,consistent.low,fun q g member here => ?_,
    fun q g here positive clean fixed => ?_⟩
  · rw [kept q g here]
    exact consistent.links q g member here
  · rw [kept q g here] at clean ⊢
    exact consistent.synced q g here positive clean fixed

theorem loose_current {page : Page} (loose : Loose b f) : current (b.setPage f page) = current b := by
  funext q
  have table : (b.setPage f page).pageTable = b.pageTable := rfl
  rw [current,current,table]
  cases here : b.pageTable q with
  | none => rfl
  | some g =>
    have apart : g ≠ f := by
      rintro rfl
      exact loose.unmapped q here
    simp [setPage,Function.update_of_ne apart]

/-! ### Fetching -/

/-- A page other than the one fetched that is in a frame afterwards was there before. -/
theorem fetched_kept (fetched : Fetched b p f b') (other : q ≠ p) (there : b'.pageTable q = some g) :
    b.pageTable q = some g ∧ b'.pages g = b.pages g ∧ b'.disk.dbIo.page q = b.disk.dbIo.page q := by
  obtain ⟨before,apart⟩ := (fetched.table q g other).mp there
  have notVictim : ¬ (b.pageTable q = some f ∧ q ≠ p ∧ (b.pages f).isDirty = true) := by
    rintro ⟨same,_⟩
    exact apart (Option.some.inj (before.symm.trans same))
  rw [fetched.stored,if_neg notVictim]
  exact ⟨before,fetched.pages g apart,rfl⟩

theorem fetched_stored (fetched : Fetched b p f b') : b'.disk.dbIo.page p = b.disk.dbIo.page p := by
  rw [fetched.stored,if_neg (fun ⟨_,other,_⟩ => other rfl)]

theorem fetched_free (consistent : Consistent b pins exempt l) (fetched : Fetched b p f b') : FreeList b'.disk l := by
  refine consistent.free.congr fetched.freeListHead fetched.numPages (fetched.length consistent.long) (fun q member => ?_)
  rw [link,fetched.stored]
  exact consistent.stored_link member And.left

theorem fetched_consistent (consistent : Consistent b pins exempt l) (fetched : Fetched b p f b')
    (accounts' : Accounts b' (p ::ₘ pins)) (inFile : b.pageTable p = none → p < b.disk.numPages) :
    Consistent b' (p ::ₘ pins) exempt l := by
  have bytes := fetched.bytes consistent.long
  refine ⟨accounts',fetched_free consistent fetched,fun q g there => ?_,fun q g member there => ?_,
    fun q g there positive clean fixed => ?_⟩
  · rw [fetched.numPages]
    by_cases same : q = p
    · subst same
      cases here : b.pageTable q with
      | none => exact inFile here
      | some g' => exact consistent.low q g' here
    · exact consistent.low q g (fetched_kept fetched same there).1
  · by_cases same : q = p
    · subst same
      obtain rfl : f = g := Option.some.inj (fetched.here.symm.trans there)
      rw [bytes,link,fetched_stored fetched]
      cases here : b.pageTable q with
      | none => rw [current_uncached here]
      | some g' =>
        rw [current_cached here]
        exact consistent.links q g' member here
    · obtain ⟨before,page,stored⟩ := fetched_kept fetched same there
      rw [page,link,stored]
      exact consistent.links q g member before
  · by_cases same : q = p
    · subst same
      obtain rfl : f = g := Option.some.inj (fetched.here.symm.trans there)
      rw [bytes,fetched_stored fetched]
      cases here : b.pageTable q with
      | none => rw [current_uncached here]
      | some g' =>
        rw [current_cached here]
        obtain rfl := fetched.found g' here
        have clean' : (b.pages g').isDirty = false := by simpa [fetched.dirty,here] using clean
        exact consistent.synced q g' here positive clean' fixed
    · obtain ⟨before,page,stored⟩ := fetched_kept fetched same there
      rw [page] at clean ⊢
      rw [stored]
      exact consistent.synced q g before positive clean fixed

/-- Fetching changes no page's bytes, unless an exempt page leaves the pool. -/
theorem fetched_current (consistent : Consistent b pins exempt l) (fetched : Fetched b p f b')
    (positive : q ≠ 0) (fixed : exempt q → b'.pageTable q ≠ none) : current b' q = current b q := by
  by_cases same : q = p
  · subst same
    rw [current_cached fetched.here,fetched.bytes consistent.long]
  · refine evicted_current consistent positive fixed (fun g => fetched.table q g same) fetched.pages ?_
    rw [fetched.stored]
    simp only [same,ne_eq,not_false_eq_true,true_and]

/-! ### Unpinning and writing -/

theorem unpinned_current (unpinned : Unpinned b p f isDirty b') : current b' = current b := by
  funext q
  rw [current,current,unpinned.pageTable]
  cases here : b.pageTable q with
  | none => rw [unpinned.disk]
  | some g =>
    rw [unpinned.pages]
    by_cases same : g = f
    · subst same; simp
    · simp [Function.update_of_ne same]

/-- A pin is taken away. A page may only stop being exempt when it is marked dirty. -/
theorem unpinned_consistent (consistent : Consistent b (p ::ₘ pins) exempt l) (unpinned : Unpinned b p f isDirty b')
    (accounts' : Accounts b' pins) (others : ∀ q, q ≠ p → exempt q → exempt' q) (marked : isDirty = false → exempt p → exempt' p) :
    Consistent b' pins exempt' l := by
  have same : ∀ g, (b'.pages g).data = (b.pages g).data := by
    intro g
    rw [unpinned.pages]
    by_cases here : g = f
    · subst here; simp
    · simp [Function.update_of_ne here]
  refine ⟨accounts',unpinned.disk.symm ▸ consistent.free,fun q g there => ?_,fun q g member there => ?_,
    fun q g there positive clean fixed => ?_⟩
  · rw [unpinned.disk]
    exact consistent.low q g (unpinned.pageTable ▸ there)
  · rw [same,link,unpinned.disk]
    exact consistent.links q g member (unpinned.pageTable ▸ there)
  · rw [unpinned.pageTable] at there
    rw [same,unpinned.disk]
    by_cases here : q = p
    · subst here
      obtain rfl := Option.some.inj (unpinned.here.symm.trans there)
      rw [unpinned.pages,Function.update_self] at clean
      obtain ⟨unmarked,before⟩ := Bool.or_eq_false_iff.mp clean
      exact consistent.synced q f there positive before (fun old => fixed (marked unmarked old))
    · have apart : g ≠ f := by
        rintro rfl
        exact here (consistent.accounts.injective there unpinned.here)
      rw [unpinned.pages,Function.update_of_ne apart] at clean
      exact consistent.synced q g there positive clean (fun old => fixed (others q here old))

theorem write_current (accounts : Accounts b pins) (here : b.pageTable p = some f) (data : PageData) :
    current (b.write f data) = Function.update (current b) p data := by
  funext q
  have table : (b.write f data).pageTable = b.pageTable := rfl
  by_cases same : q = p
  · subst same
    rw [current_cached (table ▸ here),Function.update_self]
    simp [write,setPage]
  · rw [Function.update_of_ne same,current,current,table]
    cases there : b.pageTable q with
    | none => rfl
    | some g =>
      have apart : g ≠ f := by
        rintro rfl
        exact same (accounts.injective there here)
      simp [write,setPage,Function.update_of_ne apart]

/-- The bytes of a page are changed; a free page keeps its link. -/
theorem write_consistent {data : PageData} (consistent : Consistent b pins exempt l) (here : b.pageTable p = some f)
    (linked : p ∈ l → data.get32 0 = link b.disk p) (more : ∀ q, q = p ∨ exempt q → exempt' q) :
    Consistent (b.write f data) pins exempt' l := by
  have pages : ∀ q g, q ≠ p → b.pageTable q = some g → (b.write f data).pages g = b.pages g := by
    intro q g other there
    refine Function.update_of_ne ?_ ..
    rintro rfl
    exact other (consistent.accounts.injective there here)
  refine ⟨accounts_write consistent.accounts,consistent.free,consistent.low,fun q g member there => ?_,
    fun q g there positive clean fixed => ?_⟩
  · by_cases same : q = p
    · subst same
      obtain rfl := Option.some.inj (here.symm.trans there)
      simpa [write,setPage] using linked member
    · rw [pages q g same there]
      exact consistent.links q g member there
  · have other : q ≠ p := fun same => fixed (more q (.inl same))
    rw [pages q g other there] at clean ⊢
    exact consistent.synced q g there positive clean (fun old => fixed (more q (.inr old)))

/-! ### Flushing -/

theorem flushed_data (flushed : Flushed b p f b') (g : FrameId) : (b'.pages g).data = (b.pages g).data := by
  rw [flushed.pages]
  by_cases same : g = f
  · subst same; simp
  · simp [Function.update_of_ne same]

/-- Writing a page to the file changes no page's bytes. -/
theorem flushed_current (flushed : Flushed b p f b') : current b' = current b := by
  funext q
  rw [current,current,flushed.pageTable]
  cases here : b.pageTable q with
  | none =>
    have other : q ≠ p := by
      rintro rfl
      rw [flushed.here] at here
      cases here
    simp only [flushed.stored,other,false_and,if_false]
  | some g => exact flushed_data flushed g

theorem flushed_consistent (consistent : Consistent b pins exempt l) (flushed : Flushed b p f b') (accounts' : Accounts b' pins) :
    Consistent b' pins exempt l := by
  have links : ∀ q ∈ l, link b'.disk q = link b.disk q := by
    intro q member
    rw [link,flushed.stored]
    exact consistent.stored_link member (fun lost => lost.1 ▸ flushed.here)
  refine ⟨accounts',consistent.free.congr flushed.freeListHead flushed.numPages (flushed.length consistent.long) links,
    fun q g there => ?_,fun q g member there => ?_,fun q g there positive clean fixed => ?_⟩
  · rw [flushed.numPages]
    exact consistent.low q g (flushed.pageTable ▸ there)
  · rw [flushed_data flushed,links q member]
    exact consistent.links q g member (flushed.pageTable ▸ there)
  · rw [flushed.pageTable] at there
    rw [flushed_data flushed,flushed.stored]
    by_cases same : q = p
    · subst same
      obtain rfl := Option.some.inj (flushed.here.symm.trans there)
      simp only [true_and]
      split_ifs with dirty
      · rfl
      · exact consistent.synced q f there positive (by simpa using dirty) fixed
    · have apart : g ≠ f := by
        rintro rfl
        exact same (consistent.accounts.injective there flushed.here)
      rw [flushed.pages,Function.update_of_ne apart] at clean
      rw [if_neg (fun lost => same lost.1)]
      exact consistent.synced q g there positive clean fixed

/-! ### New and deleted pages -/

/-- Where the id of a new page comes from: the free list, or else the end of the file. -/
structure Granted (d : DiskManager) (l : List PageId) (p : PageId) (d' : DiskManager) (l' : List PageId) : Prop where
  fresh : p ∉ l'
  positive : p ≠ 0
  inside : p < d'.numPages
  source : l = p :: l' ∧ d'.numPages = d.numPages ∨ l = [] ∧ l' = [] ∧ p = d.numPages ∧ d'.numPages = d.numPages + 1

/-- A page of the file is still one after an allocation. -/
theorem Granted.grows {d d' : DiskManager} {l' : List PageId} (granted : Granted d l p d' l') (low : q < d.numPages) :
    q < d'.numPages := by
  have inside := granted.inside
  rcases granted.source with ⟨_,same⟩ | ⟨_,_,rfl,more⟩
  · rw [same]
    exact low
  · rw [more] at inside ⊢
    have room : d.numPages ≠ INVALID_PAGE_ID := by
      intro last
      rw [last] at inside
      exact absurd inside (by decide)
    exact (lt_succ_iff room).mpr (.inl low)

theorem Granted.notFree {d d' : DiskManager} {l' : List PageId} (granted : Granted d l p d' l') (notFree : q ∉ l) : q ∉ l' := by
  rcases granted.source with ⟨rfl,_⟩ | ⟨_,rfl,_⟩
  · exact fun member => notFree (List.mem_cons_of_mem p member)
  · exact List.not_mem_nil

/-- A page that somebody owns is not handed out. -/
theorem Granted.apart {d d' : DiskManager} {l' : List PageId} (granted : Granted d l p d' l') (own : Owned d l q) : q ≠ p := by
  rintro rfl
  rcases granted.source with ⟨rfl,_⟩ | ⟨_,_,rfl,_⟩
  · exact own.notFree List.mem_cons_self
  · exact UInt32.lt_irrefl _ own.inFile

/-- What creating a page leaves of another one. -/
theorem created_kept (created : Created b p f b') (other : q ≠ p) (there : b'.pageTable q = some g) :
    b.pageTable q = some g ∧ g ≠ f ∧ b'.pages g = b.pages g := by
  obtain ⟨before,apart⟩ := (created.table q g other).mp there
  exact ⟨before,apart,created.pages g apart⟩

theorem created_consistent (exempt' : PageId → Prop) (consistent : Consistent b pins exempt l) (created : Created b p f b')
    (accounts' : Accounts b' (p ::ₘ pins)) (room : l = [] → b.disk.numPages ≠ INVALID_PAGE_ID)
    (more : ∀ q, q = p ∧ l ≠ [] ∨ q ≠ p ∧ exempt q → exempt' q) :
    ∃ l', Consistent b' (p ::ₘ pins) exempt' l' ∧ Granted b.disk l p b'.disk l' := by
  obtain ⟨b₁,selected,allocated⟩ := created.allocated
  obtain ⟨p',d',l',allocated',spec⟩ := allocatePage_spec (selected_free consistent selected)
    (fun empty => by rw [selected.numPages]; exact room empty)
  rw [allocated] at allocated'
  obtain ⟨rfl,rfl⟩ := Prod.mk.inj (Except.ok.inj allocated')
  have granted : Granted b.disk l p b'.disk l' :=
    ⟨spec.fresh,spec.other,spec.inside,by rw [← selected.numPages]; exact spec.source⟩
  have stored : ∀ q g, q ≠ 0 → q ≠ p → b.pageTable q = some g → g ≠ f → b'.disk.dbIo.page q = b.disk.dbIo.page q := by
    intro q g positive other before apart
    have notVictim : ¬ (b.pageTable q = some f ∧ (b.pages f).isDirty = true) := by
      rintro ⟨same,_⟩
      exact apart (Option.some.inj (before.symm.trans same))
    rw [spec.pages q positive,if_neg (fun ⟨same,_⟩ => other same),selected.stored,if_neg notVictim]
  refine ⟨l',⟨accounts',spec.free,fun q g there => ?_,fun q g member there => ?_,fun q g there positive clean fixed => ?_⟩,granted⟩
  · by_cases same : q = p
    · subst same
      exact spec.inside
    · exact granted.grows (consistent.low q g (created_kept created same there).1)
  · have other : q ≠ p := by rintro rfl; exact spec.fresh member
    obtain ⟨before,apart,page⟩ := created_kept created other there
    have old : q ∈ l := by
      rcases spec.source with ⟨rfl,_⟩ | ⟨_,rfl,_⟩
      · exact List.mem_cons_of_mem p member
      · cases member
    rw [page,link,stored q g (pos_ne (spec.free.inside q member).1) other before apart]
    exact consistent.links q g old before
  · by_cases same : q = p
    · subst same
      obtain rfl := Option.some.inj (created.here.symm.trans there)
      have empty : l = [] := by
        by_contra some
        exact fixed (more q (.inl ⟨rfl,some⟩))
      rw [created.page,spec.pages q positive,if_pos ⟨rfl,empty⟩]
      rfl
    · obtain ⟨before,apart,page⟩ := created_kept created same there
      rw [page] at clean ⊢
      rw [stored q g positive same before apart]
      exact consistent.synced q g before positive clean (fun old => fixed (more q (.inr ⟨same,old⟩)))

/-- A new page is all zeros. -/
theorem created_zeros (created : Created b p f b') : current b' p = Block.zeros _ := by
  rw [current_cached created.here,created.page]
  rfl

/-- Creating a page changes no other page's bytes, unless an exempt page leaves the pool. -/
theorem created_current (consistent : Consistent b pins exempt l) (created : Created b p f b')
    (room : l = [] → b.disk.numPages ≠ INVALID_PAGE_ID)
    (positive : q ≠ 0) (other : q ≠ p) (fixed : exempt q → b'.pageTable q ≠ none) : current b' q = current b q := by
  obtain ⟨b₁,selected,allocated⟩ := created.allocated
  obtain ⟨p',d',l',allocated',spec⟩ := allocatePage_spec (selected_free consistent selected)
    (fun empty => by rw [selected.numPages]; exact room empty)
  rw [allocated] at allocated'
  obtain ⟨rfl,rfl⟩ := Prod.mk.inj (Except.ok.inj allocated')
  have stored : b'.disk.dbIo.page q = b₁.disk.dbIo.page q := by
    rw [spec.pages q positive,if_neg (fun ⟨same,_⟩ => other same)]
  exact evicted_current consistent positive fixed (fun g => created.table q g other) created.pages (stored.trans (selected.stored q))

/-- Deleting page 0 or a page past the end. -/
theorem deleted_outside (consistent : Consistent b pins exempt l) (deleted : Deleted b p b') (accounts' : Accounts b' pins)
    (outside : p = 0 ∨ b.disk.numPages ≤ p) : Consistent b' pins exempt l := by
  have disk : b'.disk = b.disk := deleted.disk.trans (deallocatePage_outside outside)
  refine ⟨accounts',disk.symm ▸ consistent.free,fun q g there => ?_,fun q g member there => ?_,fun q g there positive clean fixed => ?_⟩
  · rw [disk]
    exact consistent.low q g ((deleted.table q g).mp there).1
  · obtain ⟨before,other⟩ := (deleted.table q g).mp there
    rw [deleted.pages q g before other,link,disk]
    exact consistent.links q g member before
  · obtain ⟨before,other⟩ := (deleted.table q g).mp there
    rw [deleted.pages q g before other] at clean ⊢
    rw [disk]
    exact consistent.synced q g before positive clean fixed

/-- A page that is not free becomes the first free one. -/
theorem deleted_inside (consistent : Consistent b pins exempt l) (deleted : Deleted b p b') (accounts' : Accounts b' pins)
    (positive : 0 < p) (low : p < b.disk.numPages) (fresh : p ∉ l) :
    Consistent b' pins exempt (p :: l) ∧ b'.disk.numPages = b.disk.numPages := by
  obtain ⟨free,count,stored⟩ := deallocatePage_spec consistent.free positive low fresh
  rw [← deleted.disk] at free count stored
  refine ⟨⟨accounts',free,fun q g there => ?_,fun q g member there => ?_,fun q g there nonzero clean fixed => ?_⟩,count⟩
  · rw [count]
    exact consistent.low q g ((deleted.table q g).mp there).1
  · obtain ⟨before,other⟩ := (deleted.table q g).mp there
    have old : q ∈ l := (List.mem_cons.mp member).resolve_left other
    rw [deleted.pages q g before other,link,stored q (pos_ne (consistent.free.inside q old).1) other]
    exact consistent.links q g old before
  · obtain ⟨before,other⟩ := (deleted.table q g).mp there
    rw [deleted.pages q g before other] at clean ⊢
    rw [stored q nonzero other]
    exact consistent.synced q g before nonzero clean fixed

theorem deallocatePage_page {d : DiskManager} (positive : q ≠ 0) (other : q ≠ p) :
    (d.deallocatePage p).dbIo.page q = d.dbIo.page q := by
  rw [DiskManager.deallocatePage]
  split_ifs
  · rfl
  · rw [writeMetadata_page positive]
    exact Function.update_of_ne other ..

/-- Deleting a page changes no other page's bytes. -/
theorem deleted_current (deleted : Deleted b p b') (positive : q ≠ 0) (other : q ≠ p) : current b' q = current b q := by
  cases here : b.pageTable q with
  | none =>
    have absent : b'.pageTable q = none := by
      cases there : b'.pageTable q with
      | none => rfl
      | some g =>
        rw [((deleted.table q g).mp there).1] at here
        cases here
    rw [current_uncached absent,current_uncached here,deleted.disk,deallocatePage_page positive other]
  | some g => rw [current_cached ((deleted.table q g).mpr ⟨here,other⟩),current_cached here,deleted.pages q g here other]

end
end Aether.PoolContents
