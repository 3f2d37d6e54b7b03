import Aether.ServiceSteps

/-!
The frames of the service's pool. As long as no request finds a frame in vain,
every frame that no thread holds stays free or evictable, whatever the clients
ask for and however their requests interleave.
-/
namespace Aether.ServiceCapacity
open Aether.Types Aether.DiskManager Aether.Replacers Aether.BufferPool Aether.BufferPoolFrames Aether.StorageService
open Aether.Runs Aether.ServiceSteps Aether.Replacers.Replacer

/-- A request that needs a frame can use the one it finds: the victim can be
    written to the file, the page is in the file, a new page can be allocated and
    is in no other frame. -/
def FindsUse (b : BufferPoolManager) (request : Request) : Prop :=
  NeedsFrame b request → ∀ f, b.replacement = some f →
    (∀ q, b.pageTable q = some f → (b.pages f).isDirty = true → q < b.disk.numPages) ∧
    match request with
    | .readPage p => p < b.disk.numPages
    | .writePage p _ => p < b.disk.numPages
    | .allocatePage => HandsOutUncached b ∧ (b.disk.freeListHead ≠ INVALID_PAGE_ID → b.disk.dbIo.read b.disk.freeListHead ≠ none)
    | _ => True

/-- The moves in which no frame is found in vain. -/
def NoFrameInVain (s : Service) : Move → Prop
  | .advance client => ∀ request, s.clients[client]? = some (.received request) → FindsUse s.pool request
  | _ => True

/-- No request is being handled. -/
def Quiescent (s : Service) : Prop := ∀ h ∈ s.clients, h = .idle

/-- Every frame is free, or has a page without pins that can be evicted. -/
def Available (b : BufferPoolManager) (n : Nat) : Prop :=
  ∀ f, IsFrame n f → f ∈ b.freeList ∨ ∃ p, b.pageTable p = some f ∧ (b.pages f).pinCount = 0 ∧ Has b.replacer f

/-! ### The invariant -/

section
variable {n : Nat} {b b' : BufferPoolManager} {rest : Multiset PageId} {h h' : Handler} {s s' : Service} {m : Move} {f : FrameId}

/-- The frames agree with the pins of the threads, and none is lost. -/
structure Conserved (n : Nat) (b : BufferPoolManager) (pins : Multiset PageId) : Prop where
  accounts : Accounts b pins
  covered : Covered b
  poolSize : b.poolSize = n

theorem create_conserved {disk : DiskManager} {replacer : Replacer} (fresh : Fresh n replacer) :
    Conserved n (BufferPoolManager.create n disk replacer) 0 := by
  refine ⟨create_accounts fresh,fun f frame => .inl (List.mem_map.mpr ⟨f.toNat,?_,Int.toNat_of_nonneg frame.1⟩),rfl⟩
  have low : f < n := frame.2
  have natural := frame.1
  exact List.mem_range.mpr (by omega)

theorem not_stuck {request : Request} {q : PageId} (use : FindsUse b request) (needs : NeedsFrame b request) : ¬ Stuck b f q :=
  fun stuck => UInt32.not_le.mpr ((use needs f stuck.replacement).1 q stuck.mapped stuck.dirty) stuck.outside

/-- A head that can be read stays so when a victim is written. -/
theorem allocatePage_found (selected : Selected b f b')
    (inFile : b.disk.freeListHead ≠ INVALID_PAGE_ID → b.disk.dbIo.read b.disk.freeListHead ≠ none) (e : Error) :
    b'.disk.allocatePage ≠ .error e := by
  intro failed
  rw [DiskManager.allocatePage,selected.freeListHead] at failed
  split_ifs at failed with head
  have found := inFile head
  rw [DbFile.read] at found
  have inside : b.disk.freeListHead.toNat < b.disk.dbIo.length := by
    by_contra outside
    exact found (if_neg outside)
  rw [DbFile.read,if_pos (inside.trans_le selected.longer)] at failed
  cases failed

theorem advances_conserved (advances : Advances b rest h h' b') (conserved : Conserved n b (h.pins + rest))
    (use : ∀ request, h = .received request → FindsUse b request) : Conserved n b' (h'.pins + rest) := by
  obtain ⟨accounts,covered,rfl⟩ := conserved
  cases advances with
  | idle => exact ⟨accounts,covered,rfl⟩
  | answering => exact ⟨accounts,covered,rfl⟩
  | refused => exact ⟨accounts,covered,rfl⟩
  | reads fetched accounts' => exact ⟨accounts',fetched.covered covered,fetched.poolSize⟩
  | writes fetched accounts' => exact ⟨accounts',fetched.covered covered,fetched.poolSize⟩
  | @loses request p f _ fetches needs outside selected =>
    have inFile := (use request rfl needs f selected.replacement).2
    cases request with
    | readPage q =>
      obtain rfl : q = p := fetches
      exact absurd inFile (UInt32.not_lt.mpr outside)
    | writePage q data =>
      obtain rfl : q = p := fetches
      exact absurd inFile (UInt32.not_lt.mpr outside)
    | _ => cases fetches
  | sticks needs stuck => exact absurd stuck (not_stuck (use _ rfl) needs)
  | corrupt selected failed =>
    exact absurd failed (allocatePage_found selected (use _ rfl trivial _ selected.replacement).2.2 _)
  | doubles found cached => exact absurd (use _ rfl trivial _ found).2.1 cached
  | creates created accounts' => exact ⟨accounts',created.covered covered,created.poolSize⟩
  | deletes _ deleted accounts' => exact ⟨by simpa [Handler.pins] using accounts',deleted.covered covered,deleted.poolSize⟩
  | sends => exact ⟨accounts,covered,rfl⟩
  | copies => exact ⟨accounts_write accounts,covered,rfl⟩
  | readEnds unpinned accounts' => exact ⟨by simpa [Handler.pins] using accounts',unpinned.covered covered,unpinned.poolSize⟩
  | writeEnds unpinned accounts' => exact ⟨by simpa [Handler.pins] using accounts',unpinned.covered covered,unpinned.poolSize⟩
  | allocateEnds unpinned accounts' => exact ⟨by simpa [Handler.pins] using accounts',unpinned.covered covered,unpinned.poolSize⟩

/-- Every move that finds no frame in vain keeps the frames. -/
theorem next_conserved (conserved : Conserved n s.pool s.pins) (fine : NoFrameInVain s m) (moved : s.next m = some s') :
    Conserved n s'.pool s'.pins := by
  rcases next_cases moved with ⟨pool,_,pins,_⟩ | ⟨i,h,rfl,here,rfl⟩
  · rw [pool,pins]
    exact conserved
  · obtain ⟨others,_,pins,set⟩ := exists_rest here
    rw [pins] at conserved
    rw [Service.pins,(set _).2]
    refine advances_conserved (advance_cases h conserved.accounts) conserved (fun request received => fine request ?_)
    rw [here,received]

/-- Without threads that hold pins, the frames are available. -/
theorem Conserved.available (conserved : Conserved n b 0) : Available b n := by
  intro f frame
  refine (conserved.covered f (conserved.poolSize.symm ▸ frame)).imp_right ?_
  rintro ⟨p,here⟩
  refine ⟨p,here,?_,(conserved.accounts.evictable f).mpr ⟨p,here,Multiset.notMem_zero p⟩⟩
  rw [conserved.accounts.pinned p f here]
  simp

theorem Available.replacement (available : Available b n) (accounts : Accounts b 0) (frames : 0 < n) : b.replacement ≠ none := by
  intro full
  have empty : b.freeList = [] := by
    cases list : b.freeList with
    | nil => rfl
    | cons f rest => simp [BufferPoolManager.replacement,list] at full
  rw [BufferPoolManager.replacement,empty] at full
  rcases available 0 ⟨le_refl 0,by exact_mod_cast frames⟩ with free | ⟨p,_,_,has⟩
  · rw [empty] at free
    cases free
  · exact (victim_none accounts.replacer full).2 0 has

theorem quiescent_pins (quiescent : Quiescent s) : s.pins = 0 := by
  refine List.sum_eq_zero (fun pins member => ?_)
  obtain ⟨h,here,rfl⟩ := List.mem_map.mp member
  rw [quiescent h here]
  rfl

/-- Requests do not use up the pool: whenever none is being handled, every frame
    is free or can be evicted, and a page of the file is found a frame. -/
theorem requests_keep_capacity {disk : DiskManager} {replacer : Replacer} (frames : 1 ≤ n) (fresh : Fresh n replacer)
    (runs : Runs Service.next NoFrameInVain (.start (.create n disk replacer)) s) (quiescent : Quiescent s) :
    Available s.pool n ∧ ∀ p, p < s.pool.disk.numPages → (s.pool.fetchPage p).1 ≠ .ok none := by
  have conserved : Conserved n s.pool s.pins :=
    runs.invariant (fun s => Conserved n s.pool s.pins) (create_conserved fresh) (fun _ _ _ => next_conserved)
  rw [quiescent_pins quiescent] at conserved
  have available := conserved.available
  refine ⟨available,fun p inFile refused => ?_⟩
  rcases fetchPage_cases conserved.accounts p with ⟨f,b',fetch,_⟩ | ⟨invalid | ⟨_,full⟩,_⟩ | ⟨f,b',b'',fetch,_⟩ | ⟨f,q,b',fetch,_⟩
  · simp [fetch] at refused
  · exact lt_invalid inFile invalid
  · exact available.replacement conserved.accounts frames full
  · simp [fetch] at refused
  · simp [fetch] at refused

end

/-! ### A frame found in vain -/

/-- A service over a new database with a pool of one frame. -/
def oneFrame : Service := .start (.create 1 .create (.lru (.create 1)))

/-- A client has page 0 read to it. -/
theorem requests_keep_capacity_read : ∃ s, Runs Service.next NoFrameInVain oneFrame s ∧ s.clients = [.idle] ∧
    Available s.pool 1 ∧ ∀ p, p < s.pool.disk.numPages → (s.pool.fetchPage p).1 ≠ .ok none := by
  have use : ∀ request, some (Handler.received (.readPage 0)) = some (.received request) → FindsUse oneFrame.pool request := by
    rintro request ⟨⟩ - f -
    exact ⟨fun q mapped => absurd mapped (by simp [oneFrame,Service.start,BufferPoolManager.create]),by decide⟩
  obtain ⟨s,along,idle⟩ : ∃ s, Along Service.next NoFrameInVain oneFrame
      [.connect,.receive 0 (.readPage 0),.advance 0,.advance 0,.advance 0,.answer 0] s ∧ s.clients = [.idle] :=
    ⟨_,⟨trivial,_,rfl,trivial,_,rfl,use,_,rfl,(fun _ here => by cases here),_,rfl,
      (fun _ here => by cases here),_,rfl,trivial,_,rfl,rfl⟩,rfl⟩
  exact ⟨s,runs_of_along along,idle,requests_keep_capacity (le_refl 1) (.inl rfl) (runs_of_along along) (by simp [Quiescent,idle])⟩

/-- A client that asks for a page past the end of the file takes the only frame
    with it: no request is being handled, the frame is neither free nor has it a
    page, and page 0 cannot be read any more. -/
theorem reading_past_the_end_loses_a_frame :
    ∃ s, Runs Service.next (fun _ _ => True) oneFrame s ∧ Quiescent s ∧ ¬ Available s.pool 1 ∧
      0 < s.pool.disk.numPages ∧ (s.pool.fetchPage 0).1 = .ok none := by
  obtain ⟨s,along,clients,free,table,pages,refused⟩ : ∃ s,
      Along Service.next (fun _ _ => True) oneFrame [.connect,.receive 0 (.readPage 5),.advance 0,.answer 0] s ∧
      s.clients = [.idle] ∧ s.pool.freeList = [] ∧ s.pool.pageTable = (fun _ => none) ∧ s.pool.disk.numPages = 1 ∧
      (s.pool.fetchPage 0).1 = .ok none :=
    ⟨_,⟨trivial,_,rfl,trivial,_,rfl,trivial,_,rfl,trivial,_,rfl,rfl⟩,rfl,rfl,rfl,rfl,rfl⟩
  refine ⟨s,runs_of_along along,by simp [Quiescent,clients],fun available => ?_,by rw [pages]; decide,refused⟩
  rcases available 0 ⟨le_refl 0,by decide⟩ with member | ⟨p,here,_⟩
  · simp [free] at member
  · simp [table] at here

end Aether.ServiceCapacity
