import Aether.DiskStore
import Aether.ServiceSteps

/-!
The metadata page. The disk manager writes the head of the free list and the number
of pages to page 0, and the pool caches page 0 like any other page. As long as no
client's bytes are copied to page 0 and page 0 is not handed out, its frame never
becomes dirty, and the file keeps the metadata that the manager has in memory.
-/
namespace Aether.ServiceMetadata
open Aether.Bytes Aether.Types Aether.DiskManager Aether.Replacers Aether.BufferPool Aether.StorageService Aether.Runs
open Aether.FreeList Aether.DiskStore Aether.BufferPoolFrames Aether.ServiceSteps

/-- The file that `Stop` leaves behind. The cached pages are flushed in the order of the
    page table, whatever it is. -/
def stop (s : Service) (order : List PageId) : DbFile := (s.pool.flushAllPages order).2.disk.dbIo

/-- A manager just constructed, over a new file or an existing one. -/
def Constructed (d : DiskManager) : Prop := d = DiskManager.create ∨ ∃ file, DiskManager.openFile file = .ok d

/-- No bytes are copied to page 0, and page 0 is not the page handed out next. -/
def SparesMetadata (s : Service) : Move → Prop
  | .advance client =>
    match s.clients[client]? with
    | some (.writing p _ _) => p ≠ 0
    | some (.received .allocatePage) => s.pool.replacement ≠ none → s.pool.disk.nextPageId ≠ 0
    | _ => True
  | _ => True

/-! ### The pool -/

/-- Page 0 of the file holds the metadata. -/
structure Kept (d : DiskManager) : Prop where
  header : Header d
  opens : 0 < d.dbIo.length

/-- Frames that hold page 0 are clean; the page table names frames by what they hold,
    and no free frame. -/
structure Guarded (b : BufferPoolManager) : Prop where
  kept : Kept b.disk
  clean : ∀ f, (b.pages f).pageId = 0 → (b.pages f).isDirty = false
  mapped : ∀ p f, b.pageTable p = some f → (b.pages f).pageId = p
  free : ∀ p f, b.pageTable p = some f → f ∉ b.freeList
  distinct : b.freeList.Nodup

/-- A frame that no page is in and that is not free. -/
def Unused (b : BufferPoolManager) (f : FrameId) : Prop := (∀ p, b.pageTable p ≠ some f) ∧ f ∉ b.freeList

/-- The thread is not about to mark page 0 dirty. -/
def Spares : Handler → Prop
  | .written p _ => p ≠ 0
  | .allocated p => p ≠ 0
  | _ => True

section
variable {b b' : BufferPoolManager} {d d' : DiskManager} {p q : PageId} {f g : FrameId} {data : PageData} {n i : Nat}
variable {s s' : Service} {h : Handler} {m : Move}

theorem constructed_kept (constructed : Constructed d) : Kept d := by
  rcases constructed with rfl | ⟨file,opened⟩
  · exact ⟨create_header,by decide⟩
  · rw [DiskManager.openFile,DbFile.read] at opened
    split_ifs at opened with stored
    cases opened
    exact ⟨⟨rfl,rfl⟩,stored⟩

theorem Kept.write (kept : Kept d) (other : p ≠ 0) (data : PageData) : Kept { d with dbIo := d.dbIo.write p data } :=
  ⟨kept.header.write other,lt_of_lt_of_le kept.opens (le_max_left ..)⟩

theorem Kept.writePage (kept : Kept d) (other : p ≠ 0) (written : d.writePage p data = .ok d') :
    Kept d' ∧ d'.nextPageId = d.nextPageId := by
  rw [DiskManager.writePage] at written
  split_ifs at written
  cases written
  exact ⟨kept.write other data,rfl⟩

theorem writeMetadata_kept (d : DiskManager) : Kept d.writeMetadata :=
  ⟨writeMetadata_header,lt_of_lt_of_le (Nat.succ_pos _) (le_max_right ..)⟩

/-- Allocation hands out the next page, and keeps the metadata unless that is page 0. -/
theorem Kept.allocatePage (other : d.nextPageId ≠ 0) (allocated : d.allocatePage = .ok (p,d')) : Kept d' ∧ p ≠ 0 := by
  rw [DiskManager.nextPageId] at other
  rw [DiskManager.allocatePage] at allocated
  split_ifs at allocated other with reuse
  · split at allocated
    · cases allocated
    · cases allocated
      exact ⟨writeMetadata_kept _,other⟩
  · cases allocated
    exact ⟨(writeMetadata_kept _).write other _,other⟩

theorem Kept.deallocatePage (kept : Kept d) (p : PageId) : Kept (d.deallocatePage p) := by
  rw [DiskManager.deallocatePage]
  split_ifs
  · exact kept
  · exact writeMetadata_kept _

theorem create_guarded {replacer : Replacer} (kept : Kept d) : Guarded (.create n d replacer) where
  kept := kept
  clean f zero := rfl
  mapped p f here := by cases here
  free p f here := by cases here
  distinct := List.nodup_range.map (fun _ _ same => Int.ofNat.inj same)

theorem Guarded.replacer (guarded : Guarded b) (replacer : Replacer) : Guarded { b with replacer } :=
  ⟨guarded.kept,guarded.clean,guarded.mapped,guarded.free,guarded.distinct⟩

theorem Guarded.disk (guarded : Guarded b) (kept : Kept d) : Guarded { b with disk := d } :=
  ⟨kept,guarded.clean,guarded.mapped,guarded.free,guarded.distinct⟩

theorem Guarded.unmap (guarded : Guarded b) (p : PageId) :
    Guarded { b with pageTable := Function.update b.pageTable p none } := by
  have before : ∀ q g, Function.update b.pageTable p none q = some g → b.pageTable q = some g := by
    intro q g there
    by_cases same : q = p
    · subst same
      simp at there
    · rwa [Function.update_of_ne same] at there
  exact ⟨guarded.kept,guarded.clean,fun q g there => guarded.mapped q g (before q g there),
    fun q g there => guarded.free q g (before q g there),guarded.distinct⟩

/-- A frame that holds the page becomes its frame. -/
theorem Guarded.map (guarded : Guarded b) (holds : (b.pages f).pageId = p) (notFree : f ∉ b.freeList) :
    Guarded { b with pageTable := Function.update b.pageTable p (some f) } := by
  have source : ∀ q g, Function.update b.pageTable p (some f) q = some g → q = p ∧ g = f ∨ b.pageTable q = some g := by
    intro q g there
    by_cases same : q = p
    · subst same
      rw [Function.update_self] at there
      exact .inl ⟨rfl,(Option.some.inj there).symm⟩
    · rw [Function.update_of_ne same] at there
      exact .inr there
  refine ⟨guarded.kept,guarded.clean,fun q g there => ?_,fun q g there => ?_,guarded.distinct⟩
  · rcases source q g there with ⟨rfl,rfl⟩ | before
    · exact holds
    · exact guarded.mapped q g before
  · rcases source q g there with ⟨rfl,rfl⟩ | before
    · exact notFree
    · exact guarded.free q g before

/-- A frame changes what it holds only while no page is in it, and gets dirty only where
    it does not hold page 0. -/
theorem Guarded.setPage {page : Page} (guarded : Guarded b)
    (holds : page.pageId = (b.pages f).pageId ∨ ∀ p, b.pageTable p ≠ some f)
    (clean : page.pageId = 0 → page.isDirty = false) : Guarded (b.setPage f page) := by
  refine ⟨guarded.kept,fun g zero => ?_,fun q g there => ?_,guarded.free,guarded.distinct⟩
  · by_cases same : g = f
    · subst same
      simp only [BufferPoolManager.setPage,Function.update_self] at zero ⊢
      exact clean zero
    · simp only [BufferPoolManager.setPage,Function.update_of_ne same] at zero ⊢
      exact guarded.clean g zero
  · by_cases same : g = f
    · subst same
      simp only [BufferPoolManager.setPage,Function.update_self]
      rcases holds with kept | unmapped
      · rw [kept]
        exact guarded.mapped q g there
      · exact absurd there (unmapped q)
    · simp only [BufferPoolManager.setPage,Function.update_of_ne same]
      exact guarded.mapped q g there

/-- Selecting a frame frees it of its page, and never writes page 0. -/
theorem Guarded.selectFrame (guarded : Guarded b) : Guarded b.selectFrame.2 ∧
    b.selectFrame.2.disk.nextPageId = b.disk.nextPageId ∧
    ∀ f, b.selectFrame.1 = .ok (some f) → Unused b.selectFrame.2 f ∧ b.replacement ≠ none := by
  cases list : b.freeList with
  | cons f rest =>
    have distinct := guarded.distinct
    rw [list,List.nodup_cons] at distinct
    rw [selectFrame_free list]
    refine ⟨⟨guarded.kept,guarded.clean,guarded.mapped,fun q g there member => ?_,distinct.2⟩,rfl,fun g found => ?_⟩
    · exact guarded.free q g there (list ▸ List.mem_cons_of_mem f member)
    · obtain rfl := Option.some.inj (Except.ok.inj found)
      refine ⟨⟨fun q there => guarded.free q f there (list ▸ List.mem_cons_self),distinct.1⟩,?_⟩
      simp [BufferPoolManager.replacement,list]
  | nil =>
    cases found : b.replacer.victim.1 with
    | none =>
      have none : b.selectFrame = (.ok none,{ b with replacer := b.replacer.victim.2 }) := by
        have shape : b.replacer.victim = (none,b.replacer.victim.2) := Prod.ext found rfl
        rw [BufferPoolManager.selectFrame]
        split
        · next cons => simp [list] at cons
        · rw [shape]
      rw [none]
      exact ⟨guarded.replacer _,rfl,fun f found => by cases found⟩
    | some f =>
      have chosen : b.replacement ≠ none := by simp [BufferPoolManager.replacement,list,found]
      have erased : ∀ q, Function.update b.pageTable (b.pages f).pageId none q ≠ some f := by
        intro q there
        by_cases same : q = (b.pages f).pageId
        · subst same
          simp at there
        · rw [Function.update_of_ne same] at there
          exact same (guarded.mapped q f there).symm
      have apart : f ∉ b.freeList := by rw [list]; simp
      cases dirty : (b.pages f).isDirty with
      | false =>
        rw [selectFrame_clean list found dirty]
        refine ⟨(guarded.unmap _).replacer _,rfl,fun g same => ?_⟩
        obtain rfl := Option.some.inj (Except.ok.inj same)
        exact ⟨⟨erased,apart⟩,chosen⟩
      | true =>
        have other : (b.pages f).pageId ≠ 0 := fun zero => by simp [guarded.clean f zero] at dirty
        rw [selectFrame_dirty list found dirty]
        cases written : b.disk.writePage (b.pages f).pageId (b.pages f).data with
        | error e => exact ⟨guarded.replacer _,rfl,fun g same => by cases same⟩
        | ok d =>
          obtain ⟨kept,next⟩ := guarded.kept.writePage other written
          have cleaned : Guarded (b.setPage f { b.pages f with isDirty := false }) := guarded.setPage (.inl rfl) (fun _ => rfl)
          refine ⟨((cleaned.unmap _).disk kept).replacer _,next,fun g same => ?_⟩
          obtain rfl := Option.some.inj (Except.ok.inj same)
          exact ⟨⟨erased,apart⟩,chosen⟩

/-- A page is put into an unused frame. -/
theorem Guarded.install {page : Page} (guarded : Guarded b) (unused : Unused b f) (clean : page.isDirty = false) :
    Guarded { b.setPage f page with pageTable := Function.update b.pageTable page.pageId (some f) } :=
  (guarded.setPage (.inr unused.1) (fun _ => clean)).map (by simp [BufferPoolManager.setPage]) unused.2

theorem Guarded.fetchPage (guarded : Guarded b) (p : PageId) : Guarded (b.fetchPage p).2 := by
  obtain ⟨selected,_,found⟩ := guarded.selectFrame
  rw [BufferPoolManager.fetchPage]
  split_ifs
  · exact guarded
  split
  · next f here =>
    have hit : Guarded (b.setPage f { b.pages f with pinCount := (b.pages f).pinCount + 1 }) :=
      guarded.setPage (.inl rfl) (guarded.clean f)
    exact hit.replacer _
  · cases select : b.selectFrame with
    | mk out b₁ =>
      rw [select] at selected found
      cases out with
      | error e => exact selected
      | ok frame =>
        cases frame with
        | none => exact selected
        | some f =>
          obtain ⟨unused,_⟩ := found f rfl
          cases read : b₁.disk.readPage p with
          | error e =>
            simp only [read]
            exact selected.setPage (.inr unused.1) (fun _ => rfl)
          | ok data =>
            simp only [read]
            exact (selected.install unused rfl).replacer _

/-- The new page is not page 0 unless that is next. -/
theorem Guarded.newPage (guarded : Guarded b) (other : b.replacement ≠ none → b.disk.nextPageId ≠ 0) :
    Guarded b.newPage.2 ∧ ∀ p f, b.newPage.1 = .ok (some (p,f)) → p ≠ 0 := by
  obtain ⟨selected,next,found⟩ := guarded.selectFrame
  rw [BufferPoolManager.newPage]
  cases select : b.selectFrame with
  | mk out b₁ =>
    rw [select] at selected next found
    cases out with
    | error e => exact ⟨selected,fun p f same => by cases same⟩
    | ok frame =>
      cases frame with
      | none => exact ⟨selected,fun p f same => by cases same⟩
      | some f =>
        obtain ⟨unused,chosen⟩ := found f rfl
        cases allocated : b₁.disk.allocatePage with
        | error e =>
          simp only [allocated]
          exact ⟨selected,fun p f same => by cases same⟩
        | ok out =>
          obtain ⟨p,d⟩ := out
          obtain ⟨kept,nonzero⟩ := Kept.allocatePage (by rw [next]; exact other chosen) allocated
          simp only [allocated]
          refine ⟨((selected.install unused rfl).disk kept).replacer _,fun q g same => ?_⟩
          obtain ⟨rfl,_⟩ := Prod.mk.inj (Option.some.inj (Except.ok.inj same))
          exact nonzero

theorem Guarded.unpinPage {isDirty : Bool} (guarded : Guarded b) (other : isDirty = true → p ≠ 0) :
    Guarded (b.unpinPage p isDirty).2 := by
  cases here : b.pageTable p with
  | none =>
    rw [BufferPoolManager.unpinPage,here]
    exact guarded
  | some f =>
    have holds := guarded.mapped p f here
    have lowered : Guarded (b.setPage f { b.pages f with isDirty := isDirty || (b.pages f).isDirty,
                                                         pinCount := (b.pages f).pinCount - 1 }) := by
      refine guarded.setPage (.inl rfl) (fun zero => ?_)
      have spared : isDirty = false := by
        cases isDirty with
        | false => rfl
        | true => exact absurd (holds ▸ zero) (other rfl)
      rw [spared,guarded.clean f zero]
      rfl
    by_cases low : (b.pages f).pinCount ≤ 0
    · simp only [BufferPoolManager.unpinPage,here,if_pos low]
      exact guarded
    by_cases last : (b.pages f).pinCount - 1 = 0
    · rw [unpinPage_last here low last]
      exact lowered.replacer _
    · rw [unpinPage_more here low last]
      exact lowered

theorem Guarded.release (guarded : Guarded b) (unused : Unused b f) : Guarded { b with freeList := b.freeList ++ [f] } := by
  refine ⟨guarded.kept,guarded.clean,guarded.mapped,fun q g there member => ?_,
    List.nodup_append.mpr ⟨guarded.distinct,by simp,fun a inList c last => ?_⟩⟩
  · rcases List.mem_append.mp member with before | last
    · exact guarded.free q g there before
    · obtain rfl := List.mem_singleton.mp last
      exact unused.1 q there
  · obtain rfl := List.mem_singleton.mp last
    rintro rfl
    exact unused.2 inList

theorem Guarded.deletePage (guarded : Guarded b) (p : PageId) : Guarded (b.deletePage p).2 := by
  have kept := guarded.kept.deallocatePage p
  cases here : b.pageTable p with
  | none =>
    rw [deletePage_uncached here]
    exact guarded.disk kept
  | some f =>
    by_cases pinned : 0 < (b.pages f).pinCount
    · simp only [BufferPoolManager.deletePage,here,if_pos pinned]
      exact guarded
    have erased : ∀ q, Function.update b.pageTable p none q ≠ some f := by
      intro q there
      by_cases same : q = p
      · subst same
        simp at there
      · rw [Function.update_of_ne same] at there
        exact same ((guarded.mapped q f there).symm.trans (guarded.mapped p f here))
    have reset : Guarded ({ b with pageTable := Function.update b.pageTable p none }.setPage f Page.reset) :=
      (guarded.unmap p).setPage (.inr erased) (fun _ => rfl)
    rw [deletePage_cached here pinned]
    exact ((reset.release ⟨erased,guarded.free p f here⟩).replacer _).disk kept

theorem Guarded.write (guarded : Guarded b) (f : FrameId) (data : PageData) : Guarded (b.write f data) :=
  guarded.setPage (.inl rfl) (guarded.clean f)

theorem Guarded.flushFrame (guarded : Guarded b) (f : FrameId) : Guarded (b.flushFrame f).2 ∧
    (b.flushFrame f).2.disk.freeListHead = b.disk.freeListHead ∧ (b.flushFrame f).2.disk.numPages = b.disk.numPages := by
  cases dirty : (b.pages f).isDirty with
  | false =>
    have same : b.flushFrame f = (.ok (),b) := by simp [BufferPoolManager.flushFrame,dirty]
    rw [same]
    exact ⟨guarded,rfl,rfl⟩
  | true =>
    have other : (b.pages f).pageId ≠ 0 := fun zero => by simp [guarded.clean f zero] at dirty
    by_cases outside : b.disk.numPages ≤ (b.pages f).pageId
    · have same : b.flushFrame f = (.error .outOfRange,b) := by
        simp [BufferPoolManager.flushFrame,dirty,DiskManager.writePage,if_pos outside]
      rw [same]
      exact ⟨guarded,rfl,rfl⟩
    · rw [flushFrame_written dirty rfl (UInt32.not_le.mp outside)]
      have cleaned : Guarded (b.setPage f { b.pages f with isDirty := false }) := guarded.setPage (.inl rfl) (fun _ => rfl)
      exact ⟨cleaned.disk (guarded.kept.write other _),rfl,rfl⟩

/-- Flushing leaves the metadata alone, also where it stops at a page that cannot be
    written. -/
theorem Guarded.flushAllPages (order : List PageId) (guarded : Guarded b) : Guarded (b.flushAllPages order).2 ∧
    (b.flushAllPages order).2.disk.freeListHead = b.disk.freeListHead ∧
    (b.flushAllPages order).2.disk.numPages = b.disk.numPages := by
  induction order generalizing b with
  | nil => exact ⟨guarded,rfl,rfl⟩
  | cons p rest ih =>
    cases here : b.pageTable p with
    | none =>
      simp only [BufferPoolManager.flushAllPages,here]
      exact ih guarded
    | some f =>
      obtain ⟨flushed,head,count⟩ := guarded.flushFrame f
      cases step : b.flushFrame f with
      | mk out b₁ =>
        rw [step] at flushed head count
        cases out with
        | error e =>
          simp only [BufferPoolManager.flushAllPages,here,step]
          exact ⟨flushed,head,count⟩
        | ok _ =>
          simp only [BufferPoolManager.flushAllPages,here,step]
          obtain ⟨guarded',head',count'⟩ := ih flushed
          exact ⟨guarded',head'.trans head,count'.trans count⟩

/-! ### The service -/

/-- A step of a thread that spares page 0. -/
theorem Guarded.advance (guarded : Guarded b) (spares : Spares h)
    (copies : ∀ p data f, h = .writing p data f → p ≠ 0)
    (allocates : h = .received .allocatePage → b.replacement ≠ none → b.disk.nextPageId ≠ 0) :
    Guarded (h.advance b).2 ∧ Spares (h.advance b).1 := by
  cases h with
  | idle => exact ⟨guarded,trivial⟩
  | answering request response => exact ⟨guarded,trivial⟩
  | reading p f => exact ⟨guarded,trivial⟩
  | writing p data f => exact ⟨guarded.write f data,copies p data f rfl⟩
  | sent p data => exact ⟨guarded.unpinPage nofun,trivial⟩
  | written p data => exact ⟨guarded.unpinPage (fun _ => spares),trivial⟩
  | allocated p => exact ⟨guarded.unpinPage (fun _ => spares),trivial⟩
  | received request =>
    cases request with
    | unknown => exact ⟨guarded,trivial⟩
    | readPage p =>
      have fetched := guarded.fetchPage p
      rw [Handler.advance]
      split
      all_goals
        next step =>
          rw [step] at fetched
          exact ⟨fetched,trivial⟩
    | writePage p data =>
      have fetched := guarded.fetchPage p
      rw [Handler.advance]
      split
      all_goals
        next step =>
          rw [step] at fetched
          exact ⟨fetched,trivial⟩
    | deallocatePage p =>
      have deleted := guarded.deletePage p
      rw [Handler.advance]
      split
      all_goals
        next step =>
          rw [step] at deleted
          exact ⟨deleted,trivial⟩
    | allocatePage =>
      obtain ⟨created,fresh⟩ := guarded.newPage (allocates rfl)
      rw [Handler.advance]
      split
      · next p f b₁ step =>
        rw [step] at created fresh
        exact ⟨created,fresh p f rfl⟩
      · next step =>
        rw [step] at created
        exact ⟨created,trivial⟩

/-- The pool spares page 0 and so does every thread. -/
def Safe (s : Service) : Prop := Guarded s.pool ∧ ∀ h ∈ s.clients, Spares h

theorem next_safe (safe : Safe s) (allowed : SparesMetadata s m) (moved : s.next m = some s') : Safe s' := by
  obtain ⟨guarded,spares⟩ := safe
  rcases next_cases moved with ⟨pool,_,_,clients,_⟩ | ⟨i,h,rfl,here,rfl⟩
  · refine ⟨pool ▸ guarded,fun h member => ?_⟩
    rcases clients h member with before | rfl | ⟨request,rfl⟩
    · exact spares h before
    · trivial
    · trivial
  · simp only [SparesMetadata,here] at allowed
    obtain ⟨guarded',spares'⟩ := guarded.advance (spares h (List.mem_of_getElem? here))
      (fun p data f same => by subst same; exact allowed) (fun same => by subst same; exact allowed)
    refine ⟨guarded',fun h' member => ?_⟩
    rcases List.mem_or_eq_of_mem_set member with before | rfl
    · exact spares h' before
    · exact spares'

/-- Whatever else clients ask for, in whatever order their threads run and the pages are
    flushed in the end, the file that `Stop` leaves has the metadata of the manager. -/
theorem metadata_survives {disk : DiskManager} {replacer : Replacer} (constructed : Constructed disk)
    (runs : Runs Service.next SparesMetadata (.start (.create n disk replacer)) s) (order : List PageId) :
    ∃ d, DiskManager.openFile (stop s order) = .ok d ∧ d.freeListHead = s.pool.disk.freeListHead ∧
      d.numPages = s.pool.disk.numPages := by
  have safe : Safe s := by
    refine runs.invariant Safe ⟨create_guarded (constructed_kept constructed),fun h member => by cases member⟩ ?_
    exact fun _ _ _ => next_safe
  obtain ⟨guarded,head,count⟩ := safe.1.flushAllPages order
  exact ⟨_,reopen_same guarded.kept.header guarded.kept.opens,head,count⟩

end

/-- The service with its pool of 128 frames over a new database. -/
def served : Service := .start (.create 128 .create (.lru (.create 128)))

/-- A client allocates a page and writes it. -/
theorem metadata_survives_writes : ∃ s, s.clients = [.answering (.writePage 1 (fun _ => 7)) (.ok 1)] ∧
    ∃ d, DiskManager.openFile (stop s [1]) = .ok d ∧ d.freeListHead = s.pool.disk.freeListHead ∧ d.numPages = s.pool.disk.numPages := by
  obtain ⟨s,along,answered⟩ : ∃ s, Along Service.next SparesMetadata served
      [.connect,.receive 0 .allocatePage,.advance 0,.advance 0,.answer 0,.receive 0 (.writePage 1 (fun _ => 7)),.advance 0,.advance 0,
        .advance 0] s ∧ s.clients = [.answering (.writePage 1 (fun _ => 7)) (.ok 1)] :=
    ⟨_,⟨trivial,_,rfl,trivial,_,rfl,fun _ => by decide,_,rfl,trivial,_,rfl,trivial,_,rfl,trivial,_,rfl,trivial,_,rfl,
      show (1 : PageId) ≠ 0 by decide,_,rfl,trivial,_,rfl,rfl⟩,rfl⟩
  exact ⟨s,answered,metadata_survives (.inl rfl) (runs_of_along along) [1]⟩

/-- A client writes page 0, which is flushed over the metadata. -/
theorem metadata_is_overwritten : ∃ (s : Service) (d : DiskManager), Runs Service.next (fun _ _ => True) served s ∧
    s.clients = [.answering (.writePage 0 (fun _ => 7)) (.ok 0)] ∧ (∀ p, s.pool.pageTable p ≠ none → p ∈ [0]) ∧
    DiskManager.openFile (stop s [0]) = .ok d ∧ s.pool.disk.freeListHead = INVALID_PAGE_ID ∧ s.pool.disk.numPages = 1 ∧
    d.freeListHead = 0x07070707 ∧ d.numPages = 0x07070707 := by
  obtain ⟨s,along,answered,table,head,count,reopened⟩ : ∃ s, Along Service.next (fun _ _ => True) served
      [.connect,.receive 0 (.writePage 0 (fun _ => 7)),.advance 0,.advance 0,.advance 0] s ∧
      s.clients = [.answering (.writePage 0 (fun _ => 7)) (.ok 0)] ∧
      s.pool.pageTable = Function.update (fun _ => none) 0 (some 0) ∧ s.pool.disk.freeListHead = INVALID_PAGE_ID ∧
      s.pool.disk.numPages = 1 ∧ (DiskManager.openFile (stop s [0])).toOption.map (fun d => (d.freeListHead,d.numPages)) =
        some (0x07070707,0x07070707) :=
    ⟨_,⟨trivial,_,rfl,trivial,_,rfl,trivial,_,rfl,trivial,_,rfl,trivial,_,rfl,rfl⟩,rfl,rfl,rfl,rfl,by decide +kernel⟩
  cases file : DiskManager.openFile (stop s [0]) with
  | error e =>
    rw [file] at reopened
    cases reopened
  | ok d =>
    rw [file] at reopened
    obtain ⟨first,second⟩ := Prod.mk.inj (Option.some.inj reopened)
    refine ⟨s,d,runs_of_along along,answered,fun p cached => ?_,file,head,count,first,second⟩
    rw [table,Function.update_apply] at cached
    split_ifs at cached with zero
    · simp [zero]
    · exact absurd rfl cached

end Aether.ServiceMetadata
