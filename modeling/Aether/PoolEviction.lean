import Aether.PoolAccounting

/-!
Which page the pool evicts. The queue of the replacer holds frames, and frames go
from page to page; `dropped` is a clock of the pages instead: when the pin count of
each one has last dropped to zero. Over every run the queue is in the order of this
clock, so that the victim is the page that was released first.
-/
namespace Aether.PoolEviction
open Aether.Types Aether.DiskManager Aether.FreeList Aether.Replacers Aether.Replacers.Replacer
open Aether.BufferPool Aether.BufferPoolFrames Aether.PoolContents Aether.PoolAccounting Aether.Runs

/-! ### The queue of the replacer -/

/-- The frames of an LRU replacer, the next victim first. -/
def queue : Replacer → List FrameId
  | .lru r => r.lruList
  | .clock _ => []

def IsLru : Replacer → Prop
  | .lru _ => True
  | .clock _ => False

section
variable {r : Replacer} {n : Nat} {f g : FrameId}

theorem has_iff (lru : IsLru r) : Has r f ↔ f ∈ queue r := by
  cases r with
  | lru r => exact Iff.rfl
  | clock r => exact lru.elim

theorem victim_head (lru : IsLru r) : r.victim.1 = (queue r).head? := by
  cases r with
  | lru r =>
    obtain ⟨numFrames,lruList⟩ := r
    cases lruList <;> rfl
  | clock r => exact lru.elim

/-- The victim's or a pinned frame leaves the queue, and no frame moves in it. -/
structure Shrinks (r r' : Replacer) : Prop where
  lru : IsLru r → IsLru r'
  queue : (queue r').Sublist (queue r)

theorem Shrinks.refl (r : Replacer) : Shrinks r r := ⟨id,List.Sublist.refl _⟩

theorem Shrinks.trans {r' r'' : Replacer} (first : Shrinks r r') (second : Shrinks r' r'') : Shrinks r r'' :=
  ⟨fun lru => second.lru (first.lru lru),second.queue.trans first.queue⟩

theorem shrinks_pin (r : Replacer) (f : FrameId) : Shrinks r (r.pin f) := by
  cases r with
  | lru r => exact ⟨id,List.erase_sublist⟩
  | clock r => exact ⟨id,List.Sublist.refl _⟩

theorem shrinks_victim (r : Replacer) : Shrinks r r.victim.2 := by
  cases r with
  | lru r =>
    obtain ⟨numFrames,lruList⟩ := r
    cases lruList with
    | nil => exact .refl _
    | cons f rest => exact ⟨id,List.sublist_cons_self f rest⟩
  | clock r => exact ⟨id,List.Sublist.refl _⟩

/-- A frame is put at the end of the queue. -/
theorem queue_unpin (lru : IsLru r) (sound : Sound n r) (frame : IsFrame n f) (absent : ¬Has r f) :
    IsLru (r.unpin f) ∧ queue (r.unpin f) = queue r ++ [f] := by
  cases r with
  | lru r =>
    obtain ⟨natural,low⟩ := frame
    have frames : r.numFrames = n := sound.1
    have fresh : f ∉ r.lruList := absent
    have after : r.unpin f = { r with lruList := r.lruList ++ [f] } := by
      rw [LRUReplacer.unpin,if_neg (by omega),if_neg fresh]
    rw [unpin,after]
    exact ⟨trivial,rfl⟩
  | clock r => exact lru.elim

end

/-! ### What the calls do to the queue -/

section
variable {b b' : BufferPoolManager} {p : PageId} {f : FrameId}

theorem selectFrame_shrinks (b : BufferPoolManager) : Shrinks b.replacer b.selectFrame.2.replacer := by
  have shrinks := shrinks_victim b.replacer
  cases list : b.freeList with
  | cons f rest =>
    rw [selectFrame_free list]
    exact .refl _
  | nil =>
    unfold BufferPoolManager.selectFrame
    rw [list]
    cases step : b.replacer.victim with
    | mk found replacer =>
      rw [step] at shrinks
      cases found with
      | none => exact shrinks
      | some f =>
        dsimp only
        split_ifs
        · split
          · exact shrinks
          · exact shrinks
        · exact shrinks

theorem fetchPage_shrinks (b : BufferPoolManager) (p : PageId) : Shrinks b.replacer (b.fetchPage p).2.replacer := by
  unfold BufferPoolManager.fetchPage
  split_ifs
  · exact .refl _
  · split
    · exact shrinks_pin _ _
    · have selected := selectFrame_shrinks b
      cases select : b.selectFrame with
      | mk out b₁ =>
        rw [select] at selected
        cases out with
        | error e => exact selected
        | ok frame =>
          cases frame with
          | none => exact selected
          | some f =>
            dsimp only
            split
            · exact selected
            · exact selected.trans (shrinks_pin _ _)

theorem newPage_shrinks (b : BufferPoolManager) : Shrinks b.replacer b.newPage.2.replacer := by
  have selected := selectFrame_shrinks b
  unfold BufferPoolManager.newPage
  cases select : b.selectFrame with
  | mk out b₁ =>
    rw [select] at selected
    cases out with
    | error e => exact selected
    | ok frame =>
      cases frame with
      | none => exact selected
      | some f =>
        dsimp only
        split
        · exact selected
        · exact selected.trans (shrinks_pin _ _)

theorem deletePage_shrinks (b : BufferPoolManager) (p : PageId) : Shrinks b.replacer (b.deletePage p).2.replacer := by
  unfold BufferPoolManager.deletePage
  split
  · exact .refl _
  · split_ifs
    · exact .refl _
    · exact shrinks_pin _ _

/-- A call that leaves the pages where they are, with their pins. -/
structure Untouched (b b' : BufferPoolManager) : Prop where
  pageTable : b'.pageTable = b.pageTable
  pinCount : ∀ g, (b'.pages g).pinCount = (b.pages g).pinCount
  replacer : b'.replacer = b.replacer

theorem Untouched.refl (b : BufferPoolManager) : Untouched b b := ⟨rfl,fun _ => rfl,rfl⟩

theorem Untouched.trans {b'' : BufferPoolManager} (first : Untouched b b') (second : Untouched b' b'') : Untouched b b'' :=
  ⟨second.pageTable.trans first.pageTable,fun g => (second.pinCount g).trans (first.pinCount g),
    second.replacer.trans first.replacer⟩

theorem untouched_setPage {page : Page} (count : page.pinCount = (b.pages f).pinCount) : Untouched b (b.setPage f page) := by
  refine ⟨rfl,?_,rfl⟩
  intro g
  by_cases same : g = f
  · subst same
    simp [BufferPoolManager.setPage,count]
  · simp [BufferPoolManager.setPage,Function.update_of_ne same]

theorem flushFrame_untouched (b : BufferPoolManager) (f : FrameId) : Untouched b (b.flushFrame f).2 := by
  unfold BufferPoolManager.flushFrame
  dsimp only
  split_ifs
  · split
    · exact .refl b
    · have cleaned : Untouched b (b.setPage f { b.pages f with isDirty := false }) := untouched_setPage rfl
      exact ⟨cleaned.1,cleaned.2,cleaned.3⟩
  · exact .refl b

theorem flushPage_untouched (b : BufferPoolManager) (p : PageId) : Untouched b (b.flushPage p).2 := by
  unfold BufferPoolManager.flushPage
  split
  · exact .refl b
  · next f _ =>
    have flushed := flushFrame_untouched b f
    split
    all_goals next step => rw [step] at flushed; exact flushed

theorem flushAllPages_untouched : ∀ (order : List PageId) (b : BufferPoolManager), Untouched b (b.flushAllPages order).2
  | [], b => .refl b
  | p :: rest, b => by
    unfold BufferPoolManager.flushAllPages
    split
    · exact flushAllPages_untouched rest b
    · next f _ =>
      have flushed := flushFrame_untouched b f
      split
      · next step => rw [step] at flushed; exact flushed
      · next step =>
        rw [step] at flushed
        exact flushed.trans (flushAllPages_untouched rest _)

end

/-! ### The clock of the pages -/

/-- A pool in use, and when the pin count of each page last dropped to zero. -/
structure Watch where
  use : Use
  clock : Nat
  dropped : PageId → Nat

/-- The pin count of a cached page. -/
def pinCount (b : BufferPoolManager) (p : PageId) : Option Int := (b.pageTable p).map (fun f => (b.pages f).pinCount)

/-- The page is cached and has no pin. -/
def Released (b : BufferPoolManager) (p : PageId) : Prop := pinCount b p = some 0

/-- The times after a step: now for the pages whose count has dropped to zero. -/
def Watch.after (w : Watch) (b' : BufferPoolManager) (p : PageId) : Nat :=
  if pinCount b' p = some 0 ∧ pinCount w.use.pool p ≠ some 0 then w.clock + 1 else w.dropped p

def Watch.next (w : Watch) (call : Call) : Option Watch :=
  (w.use.next call).map fun use => { use, clock := w.clock + 1, dropped := w.after use.pool }

/-- The released page whose latest drop to zero is the oldest. -/
def Oldest (w : Watch) (v : PageId) : Prop :=
  Released w.use.pool v ∧ ∀ q, Released w.use.pool q → q ≠ v → w.dropped v < w.dropped q

/-- The call has to find a frame for a page. -/
def NeedsFrame (b : BufferPoolManager) : Call → Prop
  | .newPage => True
  | .fetchPage p => b.pageTable p = none
  | _ => False

/-- The page leaves the cache. -/
def Leaves (b b' : BufferPoolManager) (q : PageId) : Prop := b.pageTable q ≠ none ∧ b'.pageTable q = none

/-- A page leaves the cache when it is deleted, or when a frame is needed, none is
    free and its release is the oldest; its bytes are on disk then if it was dirty. -/
structure Policy (w : Watch) (call : Call) (w' : Watch) : Prop where
  leaves : ∀ q, Leaves w.use.pool w'.use.pool q ↔
    call = .deletePage q ∧ Released w.use.pool q ∨ NeedsFrame w.use.pool call ∧ w.use.pool.freeList = [] ∧ Oldest w q
  saved : ∀ q f, NeedsFrame w.use.pool call → Leaves w.use.pool w'.use.pool q → w.use.pool.pageTable q = some f →
    (w.use.pool.pages f).isDirty = true → w'.use.pool.disk.readPage q = .ok (w.use.pool.pages f).data

/-- The frames in the queue are in the order in which their pages were released. -/
def Sorted (b : BufferPoolManager) (dropped : PageId → Nat) : Prop :=
  (queue b.replacer).Pairwise (fun f g => dropped (b.pages f).pageId < dropped (b.pages g).pageId)

structure Watched (n : Nat) (w : Watch) (pins : Multiset PageId) (l : List PageId) : Prop where
  inOrder : InOrder n w.use.pool w.use.live pins l
  lru : IsLru w.use.pool.replacer
  sorted : Sorted w.use.pool w.dropped
  past : ∀ p, w.dropped p ≤ w.clock
  resident : ∀ p, w.use.pool.pageTable p ≠ none → p ∈ w.use.live

section
variable {b b' : BufferPoolManager} {p q v : PageId} {f g : FrameId} {pins pins' : Multiset PageId} {n : Nat} {l : List PageId}
variable {w w' : Watch} {call : Call}

theorem released_iff (here : b.pageTable p = some f) : Released b p ↔ (b.pages f).pinCount = 0 := by
  unfold Released pinCount
  rw [here]
  simp

theorem Released.cached (released : Released b p) : ∃ f, b.pageTable p = some f := by
  cases here : b.pageTable p with
  | none =>
    rw [Released,pinCount,here] at released
    cases released
  | some f => exact ⟨f,rfl⟩

theorem released_of (accounts : Accounts b pins) (here : b.pageTable p = some f) : Released b p ↔ p ∉ pins := by
  rw [released_iff here,accounts.pinned p f here]
  norm_cast
  exact Multiset.count_eq_zero

/-- The queue holds the frames of the released pages. -/
theorem mem_queue (accounts : Accounts b pins) (lru : IsLru b.replacer) :
    f ∈ queue b.replacer ↔ ∃ p, b.pageTable p = some f ∧ Released b p := by
  rw [← has_iff lru,accounts.evictable]
  constructor
  · rintro ⟨p,here,free⟩
    exact ⟨p,here,(released_of accounts here).mpr free⟩
  · rintro ⟨p,here,released⟩
    exact ⟨p,here,(released_of accounts here).mp released⟩

theorem oldest_unique (first : Oldest w v) (second : Oldest w q) : v = q := by
  by_contra other
  have before := first.2 q second.1 (Ne.symm other)
  have after := second.2 v first.1 other
  omega

/-- The page of the frame that is found for another one, if it has a page. -/
theorem victim_oldest (watched : Watched n w pins l) (found : w.use.pool.replacement = some f) :
    w.use.pool.pageTable v = some f ↔ w.use.pool.freeList = [] ∧ Oldest w v := by
  have accounts := watched.inOrder.consistent.accounts
  cases list : w.use.pool.freeList with
  | cons g rest =>
    rw [BufferPoolManager.replacement,list] at found
    cases found
    have unmapped := (accounts.free f (by simp [list])).2 v
    exact iff_of_false unmapped (fun empty => by cases empty.1)
  | nil =>
    rw [BufferPoolManager.replacement,list,victim_head watched.lru] at found
    have sorted := watched.sorted
    unfold Sorted at sorted
    obtain ⟨rest,whole⟩ : ∃ rest, queue w.use.pool.replacer = f :: rest := List.head?_eq_some_iff.mp found
    have first : ∀ {v}, w.use.pool.pageTable v = some f → Oldest w v := by
      intro v here
      obtain ⟨v',here',released⟩ := (mem_queue accounts watched.lru).mp (by rw [whole]; exact List.mem_cons_self)
      cases accounts.injective here' here
      refine ⟨released,?_⟩
      intro q later other
      obtain ⟨g,there⟩ := later.cached
      have member : g ∈ f :: rest := by
        rw [← whole]
        exact (mem_queue accounts watched.lru).mpr ⟨q,there,later⟩
      have apart : g ≠ f := fun same => other (accounts.injective (same ▸ there) here)
      rw [whole] at sorted
      have before := (List.pairwise_cons.mp sorted).1 g (List.mem_of_ne_of_mem apart member)
      rwa [(accounts.mapped v f here).2,(accounts.mapped q g there).2] at before
    refine ⟨fun here => ⟨rfl,first here⟩,?_⟩
    rintro ⟨_,oldest⟩
    obtain ⟨v',here',_⟩ := (mem_queue accounts watched.lru).mp (by rw [whole]; exact List.mem_cons_self)
    rw [oldest_unique oldest (first here')]
    exact here'

/-- Where a page may be evicted, a frame is found. -/
theorem oldest_found (watched : Watched n w pins l) (empty : w.use.pool.freeList = []) (oldest : Oldest w v) :
    w.use.pool.replacement ≠ none := by
  have accounts := watched.inOrder.consistent.accounts
  obtain ⟨g,there⟩ := oldest.1.cached
  have member := (mem_queue accounts watched.lru).mpr ⟨v,there,oldest.1⟩
  rw [BufferPoolManager.replacement,empty,victim_head watched.lru]
  intro none
  rw [List.head?_eq_none_iff.mp none] at member
  cases member

/-! ### One step -/

/-- No page is released. -/
structure Quiet (b b' : BufferPoolManager) : Prop where
  shrinks : Shrinks b.replacer b'.replacer
  back : ∀ q g, b'.pageTable q = some g → (b'.pages g).pinCount = 0 → b.pageTable q = some g ∧ (b.pages g).pinCount = 0

theorem Untouched.quiet (untouched : Untouched b b') : Quiet b b' := by
  refine ⟨by rw [untouched.replacer]; exact .refl _,?_⟩
  intro q g there zero
  rw [untouched.pageTable] at there
  rw [untouched.pinCount] at zero
  exact ⟨there,zero⟩

/-- The queue stays in order: the times of its pages are what they were. -/
theorem Quiet.sorted (quiet : Quiet w.use.pool b') (watched : Watched n w pins l) (accounts' : Accounts b' pins') :
    Sorted b' (w.after b') := by
  have accounts := watched.inOrder.consistent.accounts
  have lru' := quiet.shrinks.lru watched.lru
  have kept : ∀ f ∈ queue b'.replacer, w.after b' (b'.pages f).pageId = w.dropped (w.use.pool.pages f).pageId := by
    intro f member
    obtain ⟨q,there,released⟩ := (mem_queue accounts' lru').mp member
    obtain ⟨before,zero⟩ := quiet.back q f there ((released_iff there).mp released)
    rw [(accounts'.mapped q f there).2,(accounts.mapped q f before).2]
    exact if_neg (fun dropped => dropped.2 ((released_iff before).mpr zero))
  unfold Sorted
  have earlier : (queue b'.replacer).Pairwise (fun f g =>
      w.dropped (w.use.pool.pages f).pageId < w.dropped (w.use.pool.pages g).pageId) := watched.sorted.sublist quiet.shrinks.queue
  refine earlier.imp_of_mem ?_
  intro f g first second before
  rw [kept f first,kept g second]
  exact before

theorem fetched_quiet (fetched : Fetched b p f b') (accounts' : Accounts b' (p ::ₘ pins))
    (step : b.fetchPage p = (.ok (some f),b')) : Quiet b b' := by
  have shrinks := fetchPage_shrinks b p
  rw [step] at shrinks
  refine ⟨shrinks,?_⟩
  intro q g there zero
  by_cases same : q = p
  · subst same
    rw [accounts'.pinned q g there,Multiset.count_cons_self] at zero
    omega
  · obtain ⟨before,page,_⟩ := fetched_kept fetched same there
    rw [page] at zero
    exact ⟨before,zero⟩

theorem created_quiet (created : Created b p f b') (accounts' : Accounts b' (p ::ₘ pins))
    (step : b.newPage = (.ok (some (p,f)),b')) : Quiet b b' := by
  have shrinks := newPage_shrinks b
  rw [step] at shrinks
  refine ⟨shrinks,?_⟩
  intro q g there zero
  by_cases same : q = p
  · subst same
    rw [accounts'.pinned q g there,Multiset.count_cons_self] at zero
    omega
  · obtain ⟨before,_,page⟩ := created_kept created same there
    rw [page] at zero
    exact ⟨before,zero⟩

theorem deleted_quiet (deleted : Deleted b p b') (step : b.deletePage p = (true,b')) : Quiet b b' := by
  have shrinks := deletePage_shrinks b p
  rw [step] at shrinks
  refine ⟨shrinks,?_⟩
  intro q g there zero
  obtain ⟨before,other⟩ := (deleted.table q g).mp there
  rw [deleted.pages q g before other] at zero
  exact ⟨before,zero⟩

/-- Unpinning releases a page, or none. -/
theorem unpinPage_quiet (b : BufferPoolManager) (p : PageId) (isDirty : Bool) :
    Quiet b (b.unpinPage p isDirty).2 ∨ ∃ f b', b.unpinPage p isDirty = (true,b') ∧ Unpinned b p f isDirty b' ∧
      0 < (b.pages f).pinCount ∧ (b'.pages f).pinCount = 0 ∧ b'.replacer = b.replacer.unpin f := by
  cases here : b.pageTable p with
  | none =>
    refine .inl (Untouched.quiet ?_)
    rw [BufferPoolManager.unpinPage,here]
    exact .refl b
  | some f =>
    by_cases low : (b.pages f).pinCount ≤ 0
    · refine .inl (Untouched.quiet ?_)
      simp only [BufferPoolManager.unpinPage,here,if_pos low]
      exact .refl b
    · by_cases last : (b.pages f).pinCount - 1 = 0
      · refine .inr ⟨f,_,unpinPage_last here low last,⟨here,rfl,rfl,rfl,rfl,rfl⟩,by omega,?_,rfl⟩
        simp only [BufferPoolManager.setPage,Function.update_self]
        exact last
      · rw [unpinPage_more here low last]
        refine .inl ⟨.refl _,?_⟩
        intro q g there zero
        by_cases same : g = f
        · subst same
          simp only [BufferPoolManager.setPage,Function.update_self] at zero
          exact absurd zero last
        · simp only [BufferPoolManager.setPage,Function.update_of_ne same] at zero
          exact ⟨there,zero⟩

/-- The frame of a page that is released goes to the end of the queue, and its time
    is later than all the others. -/
theorem unpinned_sorted {isDirty : Bool} (watched : Watched n w pins l) (accounts' : Accounts b' pins')
    (unpinned : Unpinned w.use.pool p f isDirty b') (pinned : 0 < (w.use.pool.pages f).pinCount)
    (zero : (b'.pages f).pinCount = 0) (replacer : b'.replacer = w.use.pool.replacer.unpin f) :
    IsLru b'.replacer ∧ Sorted b' (w.after b') := by
  have accounts := watched.inOrder.consistent.accounts
  have here := unpinned.here
  have here' : b'.pageTable p = some f := by rw [unpinned.pageTable,here]
  have absent : ¬Has w.use.pool.replacer f := by
    rw [has_iff watched.lru,mem_queue accounts watched.lru]
    rintro ⟨q,there,released⟩
    have low := (released_iff there).mp released
    omega
  obtain ⟨lru',whole⟩ := queue_unpin watched.lru accounts.replacer (accounts.mapped p f here).1 absent
  rw [← replacer] at lru' whole
  have others : ∀ g, g ≠ f → b'.pages g = w.use.pool.pages g := by
    intro g other
    rw [unpinned.pages,Function.update_of_ne other]
  have now : w.after b' (b'.pages f).pageId = w.clock + 1 := by
    rw [(accounts'.mapped p f here').2]
    refine if_pos ⟨(released_iff here').mpr zero,?_⟩
    intro released
    have low := (released_iff here).mp released
    omega
  have kept : ∀ g ∈ queue w.use.pool.replacer, w.after b' (b'.pages g).pageId = w.dropped (w.use.pool.pages g).pageId := by
    intro g member
    obtain ⟨q,there,released⟩ := (mem_queue accounts watched.lru).mp member
    have other : g ≠ f := by
      rintro rfl
      exact absent ((has_iff watched.lru).mpr member)
    rw [others g other,(accounts.mapped q g there).2]
    exact if_neg (fun dropped => dropped.2 released)
  refine ⟨lru',?_⟩
  unfold Sorted
  rw [whole]
  refine List.pairwise_append.mpr ⟨?_,List.pairwise_singleton _ f,?_⟩
  · refine List.Pairwise.imp_of_mem ?_ watched.sorted
    intro g k first second before
    rw [kept g first,kept k second]
    exact before
  · intro g member k last
    cases List.mem_singleton.mp last
    rw [kept g member,now]
    have past := watched.past (w.use.pool.pages g).pageId
    omega

theorem after_past (watched : Watched n w pins l) (b' : BufferPoolManager) (p : PageId) : w.after b' p ≤ w.clock + 1 := by
  have past := watched.past p
  unfold Watch.after
  split_ifs <;> omega

/-- The watch after a step to another pool. -/
def Watch.step (w : Watch) (use : Use) : Watch := { use, clock := w.clock + 1, dropped := w.after use.pool }

theorem Quiet.watched {use : Use} (quiet : Quiet w.use.pool use.pool) (watched : Watched n w pins l)
    {l' : List PageId} (inOrder : InOrder n use.pool use.live pins' l')
    (resident : ∀ p, use.pool.pageTable p ≠ none → p ∈ use.live) : Watched n (w.step use) pins' l' where
  inOrder := inOrder
  lru := quiet.shrinks.lru watched.lru
  sorted := quiet.sorted watched inOrder.consistent.accounts
  past := after_past watched _
  resident := resident

/-- A call that no page leaves by. -/
theorem policy_stays {use : Use} (stays : ∀ q, ¬Leaves w.use.pool use.pool q)
    (kept : ∀ q, call = .deletePage q → ¬Released w.use.pool q)
    (spared : NeedsFrame w.use.pool call → w.use.pool.freeList = [] → ∀ v, ¬Oldest w v) : Policy w call (w.step use) := by
  constructor
  · intro q
    refine iff_of_false (stays q) ?_
    rintro (⟨deletes,released⟩ | ⟨needs,empty,oldest⟩)
    · exact kept q deletes released
    · exact spared needs empty q oldest
  · intro q f _ leaves
    exact absurd leaves (stays q)

theorem not_leaves (same : b'.pageTable = b.pageTable) (q : PageId) : ¬Leaves b b' q := by
  rintro ⟨cached,absent⟩
  rw [same] at absent
  exact cached absent

/-- The page that leaves the cache when another one takes its frame. -/
theorem leaves_iff (here : b'.pageTable p = some f)
    (table : ∀ q g, q ≠ p → (b'.pageTable q = some g ↔ b.pageTable q = some g ∧ g ≠ f)) :
    Leaves b b' q ↔ b.pageTable q = some f ∧ q ≠ p := by
  constructor
  · rintro ⟨cached,absent⟩
    have other : q ≠ p := by
      rintro rfl
      rw [here] at absent
      cases absent
    obtain ⟨g,before⟩ := Option.ne_none_iff_exists'.mp cached
    have same : g = f := by
      by_contra apart
      rw [(table q g other).mpr ⟨before,apart⟩] at absent
      cases absent
    exact ⟨same ▸ before,other⟩
  · rintro ⟨before,other⟩
    refine ⟨by rw [before]; simp,?_⟩
    cases there : b'.pageTable q with
    | none => rfl
    | some g =>
      obtain ⟨before',apart⟩ := (table q g other).mp there
      exact absurd (Option.some.inj (before'.symm.trans before)) apart

/-- A page of the file is read back. -/
theorem readPage_page {live : List PageId} (inOrder : InOrder n b live pins l) (member : p ∈ live) :
    b.disk.readPage p = .ok (b.disk.dbIo.page p) := by
  have own := inOrder.owned p member
  have low := lt_toNat.mp own.inFile
  rw [DiskManager.readPage,if_neg (UInt32.not_le.mpr own.inFile),DbFile.read,
    if_pos (by rw [inOrder.consistent.free.length]; exact low)]
  rfl

theorem fetchPage_replacement (accounts : Accounts b pins) (valid : p ≠ INVALID_PAGE_ID) (absent : b.pageTable p = none)
    (step : b.fetchPage p = (.ok (some f),b')) : b.replacement = some f := by
  rcases selectFrame_cases accounts with ⟨full,_⟩ | ⟨g,b₁,after,selected,_,_⟩ | ⟨g,q,b₁,after,_⟩
  · rw [fetchPage_full accounts absent full] at step
    cases step
  · simp only [BufferPoolManager.fetchPage,if_neg valid,absent,after] at step
    split at step
    · cases step
    · cases step
      exact selected.replacement
  · simp only [BufferPoolManager.fetchPage,if_neg valid,absent,after] at step
    cases step

/-- When a page takes a frame, the page that leaves is the one whose release is the oldest. -/
theorem leaves_oldest (watched : Watched n w pins l) (found : w.use.pool.replacement = some f) (absent : w.use.pool.pageTable p = none)
    (here : b'.pageTable p = some f) (table : ∀ q g, q ≠ p → (b'.pageTable q = some g ↔ w.use.pool.pageTable q = some g ∧ g ≠ f))
    (needs : NeedsFrame w.use.pool call) (kept : call ≠ .deletePage q) : Leaves w.use.pool b' q ↔
      call = .deletePage q ∧ Released w.use.pool q ∨ NeedsFrame w.use.pool call ∧ w.use.pool.freeList = [] ∧ Oldest w q := by
  rw [leaves_iff here table,victim_oldest watched found]
  constructor
  · rintro ⟨oldest,_⟩
    exact .inr ⟨needs,oldest⟩
  · rintro (⟨deletes,_⟩ | ⟨_,oldest⟩)
    · exact absurd deletes kept
    · refine ⟨oldest,?_⟩
      rintro rfl
      obtain ⟨g,there⟩ := oldest.2.1.cached
      rw [absent] at there
      cases there

/-- The other pages in the cache were there before. -/
theorem resident_before (watched : Watched n w pins l)
    (table : ∀ q g, q ≠ p → (b'.pageTable q = some g ↔ w.use.pool.pageTable q = some g ∧ g ≠ f)) (other : q ≠ p)
    (there : b'.pageTable q ≠ none) : q ∈ w.use.live := by
  obtain ⟨g,here⟩ := Option.ne_none_iff_exists'.mp there
  refine watched.resident q ?_
  rw [((table q g other).mp here).1]
  exact Option.some_ne_none g

/-! ### The calls -/

theorem fetchPage_policy (watched : Watched n w pins l) (member : p ∈ w.use.live) :
    (∃ pins' l', Watched n (w.step { w.use with pool := (w.use.pool.fetchPage p).2 }) pins' l') ∧
      Policy w (.fetchPage p) (w.step { w.use with pool := (w.use.pool.fetchPage p).2 }) := by
  have inOrder := watched.inOrder
  have accounts := inOrder.consistent.accounts
  have own := inOrder.owned p member
  have valid := lt_invalid own.inFile
  obtain ⟨pins',inOrder'⟩ := fetchPage_inOrder inOrder member
  rcases fetchPage_cases accounts p with ⟨f,b',step,fetched,accounts',_⟩ | ⟨invalid | ⟨absent,full⟩,step⟩ |
    ⟨_,_,_,_,_,outside,_⟩ | ⟨_,_,_,_,_,stuck⟩
  · rw [step] at inOrder' ⊢
    refine ⟨⟨pins',l,(fetched_quiet fetched accounts' step).watched watched inOrder' ?_⟩,?_⟩
    · intro q there
      by_cases same : q = p
      · exact same ▸ member
      · exact resident_before watched fetched.table same there
    · have leaves : ∀ q, Leaves w.use.pool b' q ↔ w.use.pool.pageTable q = some f ∧ q ≠ p := fun q => leaves_iff fetched.here fetched.table
      constructor
      · intro q
        cases cached : w.use.pool.pageTable p with
        | none =>
          have found := fetchPage_replacement accounts valid cached step
          exact leaves_oldest watched found cached fetched.here fetched.table cached (fun deletes => by cases deletes)
        | some g =>
          have same := fetched.found g cached
          refine iff_of_false ?_ ?_
          · intro left
            obtain ⟨there,other⟩ := (leaves q).mp left
            exact other (accounts.injective there (same ▸ cached))
          · rintro (⟨deletes,_⟩ | ⟨absent,_⟩)
            · cases deletes
            · rw [NeedsFrame,cached] at absent
              cases absent
      · intro q g _ left there dirty
        obtain ⟨before,other⟩ := (leaves q).mp left
        cases Option.some.inj (before.symm.trans there)
        have live : q ∈ w.use.live := watched.resident q left.1
        have stored := (fetched.stored q).trans (if_pos ⟨before,other,dirty⟩)
        exact (readPage_page inOrder' live).trans (congrArg _ stored)
  · exact absurd invalid valid
  · rw [step] at inOrder' ⊢
    refine ⟨⟨pins',l,(Untouched.refl _).quiet.watched watched inOrder' watched.resident⟩,?_⟩
    refine policy_stays (not_leaves rfl) (fun q deletes => by cases deletes) ?_
    intro _ empty v oldest
    exact oldest_found watched empty oldest full
  · exact absurd own.inFile (UInt32.not_lt.mpr outside)
  · exact absurd stuck inOrder.consistent.notStuck

theorem newPage_policy (watched : Watched n w pins l) (room : w.use.pool.disk.numPages ≠ INVALID_PAGE_ID) {use : Use}
    (moved : w.use.next .newPage = some use) :
    (∃ pins' l', Watched n (w.step use) pins' l') ∧ Policy w .newPage (w.step use) := by
  have inOrder := watched.inOrder
  have consistent := inOrder.consistent
  have accounts := consistent.accounts
  rcases newPage_inOrder inOrder room with ⟨full,step⟩ | ⟨p,f,b',l',step,found,inOrder'⟩
  · simp only [Use.next,step,Option.some.injEq] at moved
    subst moved
    refine ⟨⟨pins,l,(Untouched.refl _).quiet.watched watched inOrder watched.resident⟩,?_⟩
    refine policy_stays (not_leaves rfl) (fun q deletes => by cases deletes) ?_
    intro _ empty v oldest
    exact oldest_found watched empty oldest full
  · simp only [Use.next,step,Option.some.injEq] at moved
    subst moved
    obtain ⟨created,accounts'⟩ : Created w.use.pool p f b' ∧ Accounts b' (p ::ₘ pins) := by
      rcases newPage_cases accounts (consistent.handsOut inOrder.uncached) with ⟨p',f',b₁,step',created,accounts'⟩ | ⟨none,_⟩ |
        ⟨_,_,_,step',_⟩ | ⟨_,_,_,_,stuck⟩
      · rw [step] at step'
        cases step'
        exact ⟨created,accounts'⟩
      · rw [found] at none
        cases none
      · rw [step] at step'
        cases step'
      · exact absurd stuck consistent.notStuck
    have absent : w.use.pool.pageTable p = none := by
      rw [created.id]
      exact consistent.nextUncached inOrder.uncached
    refine ⟨⟨_,l',(created_quiet created accounts' step).watched watched inOrder' ?_⟩,?_⟩
    · intro q there
      by_cases same : q = p
      · exact List.mem_cons.mpr (.inl same)
      · exact List.mem_cons_of_mem p (resident_before watched created.table same there)
    · constructor
      · intro q
        exact leaves_oldest watched found absent created.here created.table trivial (fun deletes => by cases deletes)
      · intro q g _ left there dirty
        obtain ⟨before,other⟩ := (leaves_iff created.here created.table).mp left
        cases Option.some.inj (before.symm.trans there)
        have live := watched.resident q left.1
        obtain ⟨b₁,selected,allocated⟩ := created.allocated
        obtain ⟨p',d',l₁,allocated',spec⟩ := allocatePage_spec (selected_free consistent selected)
          (fun _ => by rw [selected.numPages]; exact room)
        rw [allocated] at allocated'
        cases allocated'
        have written : b₁.disk.dbIo.page q = (w.use.pool.pages f).data := (selected.stored q).trans (if_pos ⟨before,dirty⟩)
        have stored : b'.disk.dbIo.page q = (w.use.pool.pages f).data := by
          rw [spec.pages q (pos_ne (inOrder.owned q live).positive),if_neg (fun same => other same.1),written]
        exact (readPage_page inOrder' (List.mem_cons_of_mem p live)).trans (congrArg _ stored)

theorem deletePage_policy (watched : Watched n w pins l) (member : p ∈ w.use.live) {use : Use}
    (moved : w.use.next (.deletePage p) = some use) :
    (∃ pins' l', Watched n (w.step use) pins' l') ∧ Policy w (.deletePage p) (w.step use) := by
  have inOrder := watched.inOrder
  have accounts := inOrder.consistent.accounts
  have same : ∀ q, Call.deletePage p = .deletePage q → q = p := fun q deletes => by cases deletes; rfl
  rcases deletePage_cases accounts p with ⟨pinned,step⟩ | ⟨free,b',step,deleted,_⟩
  · simp only [Use.next,step,Option.some.injEq] at moved
    subst moved
    refine ⟨⟨pins,l,(Untouched.refl _).quiet.watched watched inOrder watched.resident⟩,?_⟩
    refine policy_stays (not_leaves rfl) ?_ (fun needs => needs.elim)
    intro q deletes released
    cases same q deletes
    obtain ⟨f,here⟩ := released.cached
    exact (released_of accounts here).mp released pinned
  · simp only [Use.next,step,Option.some.injEq] at moved
    subst moved
    rcases deletePage_inOrder inOrder member with refused | ⟨b₁,step',inOrder'⟩
    · rw [step] at refused
      cases refused
    rw [step] at step'
    cases step'
    refine ⟨⟨pins,_,(deleted_quiet deleted step).watched watched inOrder' ?_⟩,?_,?_⟩
    · intro q there
      obtain ⟨g,here⟩ := Option.ne_none_iff_exists'.mp there
      obtain ⟨before,other⟩ := (deleted.table q g).mp here
      exact List.mem_filter.mpr ⟨watched.resident q (by rw [before]; simp),by simpa using other⟩
    · intro q
      constructor
      · rintro ⟨cached,absent⟩
        obtain ⟨g,before⟩ := Option.ne_none_iff_exists'.mp cached
        have gone : q = p := by
          by_contra other
          have kept := (deleted.table q g).mpr ⟨before,other⟩
          exact absurd (kept.symm.trans absent) (by simp)
        subst gone
        exact .inl ⟨rfl,(released_of accounts before).mpr free⟩
      · rintro (⟨deletes,released⟩ | ⟨needs,_⟩)
        · obtain ⟨g,before⟩ := released.cached
          refine ⟨by rw [before]; simp,?_⟩
          cases there : b'.pageTable q with
          | none => exact there
          | some k => exact absurd (same q deletes) ((deleted.table q k).mp there).2
        · exact needs.elim
    · intro q f needs
      exact needs.elim

/-- A call that moves no page and pins none. -/
theorem untouched_policy (watched : Watched n w pins l) (untouched : Untouched w.use.pool b')
    (inOrder' : InOrder n b' w.use.live pins l) (other : ∀ q, call ≠ .deletePage q) (needs : ¬NeedsFrame w.use.pool call) :
    (∃ pins' l', Watched n (w.step { w.use with pool := b' }) pins' l') ∧ Policy w call (w.step { w.use with pool := b' }) := by
  refine ⟨⟨pins,l,untouched.quiet.watched watched inOrder' ?_⟩,policy_stays (not_leaves untouched.pageTable) ?_ ?_⟩
  · intro q there
    exact watched.resident q (by rw [← untouched.pageTable]; exact there)
  · intro q deletes
    exact absurd deletes (other q)
  · intro needed
    exact absurd needed needs

theorem unpinPage_table (b : BufferPoolManager) (p : PageId) (isDirty : Bool) : (b.unpinPage p isDirty).2.pageTable = b.pageTable := by
  unfold BufferPoolManager.unpinPage
  split
  · rfl
  · dsimp only
    split_ifs <;> rfl

theorem unpinPage_policy (watched : Watched n w pins l) (p : PageId) (isDirty : Bool) :
    (∃ pins' l', Watched n (w.step { w.use with pool := (w.use.pool.unpinPage p isDirty).2 }) pins' l') ∧
      Policy w (.unpinPage p isDirty) (w.step { w.use with pool := (w.use.pool.unpinPage p isDirty).2 }) := by
  have table := unpinPage_table w.use.pool p isDirty
  obtain ⟨pins',inOrder'⟩ := unpinPage_inOrder watched.inOrder p isDirty
  have resident : ∀ q, (w.use.pool.unpinPage p isDirty).2.pageTable q ≠ none → q ∈ w.use.live := by
    intro q there
    exact watched.resident q (by rw [← table]; exact there)
  refine ⟨?_,policy_stays (not_leaves table) (fun q deletes => by cases deletes) (fun needs => needs.elim)⟩
  rcases unpinPage_quiet w.use.pool p isDirty with quiet | ⟨f,b',step,unpinned,pinned,zero,replacer⟩
  · exact ⟨pins',l,quiet.watched watched inOrder' resident⟩
  · rw [step] at inOrder' resident ⊢
    obtain ⟨lru,sorted⟩ := unpinned_sorted watched inOrder'.consistent.accounts unpinned pinned zero replacer
    exact ⟨pins',l,inOrder',lru,sorted,after_past watched _,resident⟩

/-- Every proper call keeps the queue in order and obeys the policy. -/
theorem next_policy (watched : Watched n w pins l) (proper : Proper w.use call) (moved : w.next call = some w') :
    (∃ pins' l', Watched n w' pins' l') ∧ Policy w call w' := by
  obtain ⟨below,proper⟩ := proper
  obtain ⟨use,reached,rfl⟩ := Option.map_eq_some_iff.mp moved
  have inOrder := watched.inOrder
  cases call with
  | newPage =>
    refine newPage_policy watched ?_ reached
    rintro last
    rw [last] at below
    exact absurd below (by decide)
  | fetchPage p =>
    cases reached
    exact fetchPage_policy watched proper
  | unpinPage p isDirty =>
    cases reached
    exact unpinPage_policy watched p isDirty
  | flushPage p =>
    cases reached
    exact untouched_policy watched (flushPage_untouched _ p) (flushPage_inOrder inOrder p) (fun q deletes => by cases deletes) id
  | flushAllPages order =>
    cases reached
    exact untouched_policy watched (flushAllPages_untouched order _) (flushAllPages_inOrder order inOrder)
      (fun q deletes => by cases deletes) id
  | deletePage p => exact deletePage_policy watched proper reached
  | write f data =>
    cases reached
    exact untouched_policy watched (untouched_setPage rfl) (write_inOrder inOrder f data) (fun q deletes => by cases deletes) id

/-- A pool that has just been created, over a file with some pages in use. -/
def Watch.start (b : BufferPoolManager) (live : List PageId) : Watch := { use := { pool := b, live }, clock := 0, dropped := fun _ => 0 }

end
end Aether.PoolEviction
