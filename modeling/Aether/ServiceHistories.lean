import Aether.AtomicService
import Aether.PoolHolders
import Aether.PoolRestarts
import Aether.ServiceCapacity
import Aether.ServiceMetadata
import Aether.ServiceWrites

/-!
The service is a page store that does each request at one moment. A read takes effect
when the bytes leave the frame, a write when they are copied to it, and the other
requests in the call of the pool, as long as clients keep to pages they have been given.
Between requests the service may be stopped and started again over the file.
-/
namespace Aether.ServiceHistories
open Aether.Bytes Aether.Types Aether.DiskManager Aether.FreeList Aether.Replacers Aether.BufferPool Aether.BufferPoolFrames
open Aether.PoolContents Aether.StorageService Aether.Runs Aether.ServiceSteps Aether.ServiceContents Aether.ServiceCapacity
open Aether.ServiceWrites Aether.Simulations Aether.AtomicService Aether.Replacers.Replacer
open Aether.PoolRestarts (Visits)
open Aether.ServiceMetadata (stop Safe Kept SparesMetadata next_safe create_guarded constructed_kept)
open Aether.DiskStore (reopen_same)

/-- Clients read, write and deallocate only pages that have been handed out. -/
def owns (s : Service) : Move → Bool
  | .advance client =>
    match s.clients[client]? with
    | some (.received (.readPage p)) => decide (p ∈ s.handedOut)
    | some (.received (.writePage p _)) => decide (p ∈ s.handedOut)
    | some (.received (.deallocatePage p)) => decide (p ∈ s.handedOut)
    | _ => true
  | _ => true

/-- A page that is allocated is on the free list, or the file has an id left for it. -/
def HasRoom (s : Service) : Move → Prop
  | .advance client => s.clients[client]? = some (.received .allocatePage) → s.pool.disk.freeListHead = INVALID_PAGE_ID →
      s.pool.disk.numPages ≠ INVALID_PAGE_ID
  | _ => True

def Proper (s : Service) (m : Move) : Prop := owns s m = true ∧ HasRoom s m

/-- The bytes of a page have been sent before the answer is complete. -/
def sentBefore : Request → Response → Bool
  | .readPage _, response => response.success
  | _, _ => false

/-- What a move shows at the connections. The bytes of a page are sent from its frame,
    before the page is unpinned. -/
def seen (s : Service) : Move → Option Event
  | .connect => some .connect
  | .receive client request => some (.receive client request)
  | .advance client =>
    match s.clients[client]? with
    | some (.reading pageId page) =>
      some (.answer client (.readPage pageId) { Response.ok pageId with data := some (s.pool.pages page).data })
    | _ => none
  | .answer client =>
    match s.clients[client]? with
    | some (.answering request response) => if sentBefore request response then none else some (.answer client request response)
    | _ => none

/-- A service over the file that another one has left. -/
def Service.reopen (s : Service) (poolSize : Nat) (disk : DiskManager) (replacer : Replacer) : Service :=
  { Service.start (.create poolSize disk replacer) with handedOut := s.handedOut }

/-- A move, or a restart with another pool of so many frames while no request is being handled. -/
inductive Lives (n : Nat) (s : Service) : Option Event → Service → Prop
  | move {m s'} : Proper s m → s.next m = some s' → Lives n s (seen s m) s'
  | restart {order disk replacer} : Quiescent s → Visits s.pool order → DiskManager.openFile (stop s order) = .ok disk →
      Fresh n replacer → Lives n s (some .restart) (Service.reopen s n disk replacer)

/-- The service with such clients, seen from outside. -/
def service (n : Nat) (s : Service) : System Event where
  State := Service
  start s' := s' = s
  step := Lives n

/-! ### What holds in every run -/

/-- The service is in order, no frame is lost, page 0 holds the metadata, and no page is
    cached that is not handed out. -/
structure Sound (n : Nat) (s : Service) (l : List PageId) : Prop where
  ordered : Ordered s l
  conserved : Conserved n s.pool s.pins
  safe : Safe s
  cached : ∀ p f, s.pool.pageTable p = some f → p ∈ s.handedOut

section
variable {s s' : Service} {l l' : List PageId} {n i : Nat} {p q : PageId} {data : PageData} {h h' : Handler} {m : Move} {f : FrameId}
variable {b b' : BufferPoolManager} {rest : Multiset PageId} {handedOut : List PageId}

theorem Sound.consistent (sound : Sound n s l) : Consistent s.pool s.pins (fun p => ∃ h ∈ s.clients, p ∈ owes h) l :=
  sound.ordered.inOrder.consistent

theorem Sound.uncached (sound : Sound n s l) : HandsOutUncached s.pool := by
  refine sound.consistent.handsOut (fun p free => ?_)
  cases here : s.pool.pageTable p with
  | none => rfl
  | some f => exact absurd free (sound.ordered.inOrder.owned p (sound.cached p f here)).notFree

theorem Sound.inFile (sound : Sound n s l) (own : p ∈ s.handedOut) : p < s.pool.disk.numPages :=
  (sound.ordered.inOrder.owned p own).inFile

/-- The first free page can be read. -/
theorem head_read {d : DiskManager} (free : FreeList d l) (some' : d.freeListHead ≠ INVALID_PAGE_ID) :
    d.dbIo.read d.freeListHead ≠ none := by
  cases l with
  | nil => exact absurd free.chain some'
  | cons p rest =>
    obtain ⟨head,_⟩ := free.chain
    have inside : p < d.numPages := (free.inside p List.mem_cons_self).2
    have low : d.freeListHead.toNat < d.dbIo.length := by
      rw [head]
      exact (lt_toNat.mp inside).trans_le free.length.ge
    rw [DbFile.read,if_pos low]
    simp

theorem proper_orderly (sound : Sound n s l) (proper : Proper s m) : Orderly s m := by
  obtain ⟨own,room⟩ := proper
  cases m with
  | advance i =>
    refine ⟨?_,fun here _ => ⟨sound.uncached,room here⟩⟩
    cases here : s.clients[i]? with
    | none => simp [disciplined,here]
    | some h =>
      cases h with
      | received request =>
        cases request with
        | readPage p =>
          simp only [owns,here,decide_eq_true_eq] at own
          simpa [disciplined,here] using sound.inFile own
        | writePage p data => simpa [disciplined,here,owns] using own
        | deallocatePage p => simpa [disciplined,here,owns] using own
        | _ => simp [disciplined,here]
      | _ => simp [disciplined,here]
  | _ => exact ⟨rfl,trivial⟩

theorem proper_fine (sound : Sound n s l) (proper : Proper s m) : NoFrameInVain s m := by
  cases m with
  | advance i =>
    intro request here needs f found
    have own := proper.1
    refine ⟨fun q mapped _ => sound.consistent.low q f mapped,?_⟩
    cases request with
    | readPage p =>
      simp only [owns,here,decide_eq_true_eq] at own
      exact sound.inFile own
    | writePage p data =>
      simp only [owns,here,decide_eq_true_eq] at own
      exact sound.inFile own
    | allocatePage => exact ⟨sound.uncached,head_read sound.consistent.free⟩
    | _ => trivial
  | _ => trivial

theorem account_error (request : Request) : Service.account handedOut (.received request) (.answering request (.error p)) = handedOut := by
  cases request <;> rfl

/-- The page that is handed out next is not page 0. -/
theorem nextPageId_positive {d : DiskManager} (free : FreeList d l) : d.nextPageId ≠ 0 := by
  rw [DiskManager.nextPageId]
  split_ifs with head
  · cases l with
    | nil => exact absurd free.chain head
    | cons p rest =>
      obtain ⟨same,_⟩ := free.chain
      rw [same]
      exact pos_ne (free.inside p List.mem_cons_self).1
  · exact pos_ne free.positive

theorem proper_spares (sound : Sound n s l) : SparesMetadata s m := by
  cases m with
  | advance i =>
    rw [SparesMetadata]
    split
    · next p data f here =>
      have own := sound.ordered.writers p data f (List.mem_of_getElem? here)
      exact pos_ne (sound.ordered.inOrder.owned p own).positive
    · exact fun _ => nextPageId_positive sound.consistent.free
    · trivial
  | _ => trivial

/-- Frames are given only to pages that are handed out. -/
theorem advances_cached (advances : Advances b rest h h' b') (stuck : ∀ f p, ¬ Stuck b f p) (uncached : HandsOutUncached b)
    (asked : ∀ p, h = .received (.readPage p) ∨ (∃ data, h = .received (.writePage p data)) → p ∈ handedOut)
    (cached : ∀ p f, b.pageTable p = some f → p ∈ handedOut) :
    ∀ p f, b'.pageTable p = some f → p ∈ Service.account handedOut h h' := by
  have fetched : ∀ {p f b'}, Fetched b p f b' → p ∈ handedOut → ∀ q g, b'.pageTable q = some g → q ∈ handedOut := by
    intro p f b' fetched own q g there
    by_cases same : q = p
    · exact same ▸ own
    · exact cached q g ((fetched.table q g same).mp there).1
  cases advances with
  | reads fetch => exact fetched fetch (asked _ (.inl rfl))
  | writes fetch => exact fetched fetch (asked _ (.inr ⟨_,rfl⟩))
  | loses _ _ _ selected =>
    rw [account_error]
    exact fun q g there => cached q g ((selected.table q g).mp there).1
  | sticks _ stuck' => exact absurd stuck' (stuck _ _)
  | corrupt selected => exact fun q g there => cached q g ((selected.table q g).mp there).1
  | doubles _ cached' => exact absurd uncached cached'
  | creates created =>
    intro q g there
    rename_i p _ _
    by_cases same : q = p
    · exact same ▸ List.mem_cons_self
    · exact List.mem_cons_of_mem _ (cached q g ((created.table q g same).mp there).1)
  | deletes _ deleted =>
    intro q g there
    obtain ⟨before,other⟩ := (deleted.table q g).mp there
    exact List.mem_filter.mpr ⟨cached q g before,decide_eq_true other⟩
  | readEnds unpinned => exact fun q g there => cached q g (unpinned.pageTable ▸ there)
  | writeEnds unpinned => exact fun q g there => cached q g (unpinned.pageTable ▸ there)
  | allocateEnds unpinned => exact fun q g there => cached q g (unpinned.pageTable ▸ there)
  | refused =>
    rw [account_error]
    exact cached
  | _ => exact cached

/-- Every proper move keeps all that. -/
theorem next_sound (sound : Sound n s l) (proper : Proper s m) (moved : s.next m = some s') : ∃ l', Sound n s' l' := by
  obtain ⟨l',ordered⟩ := next_ordered sound.ordered (proper_orderly sound proper) moved
  refine ⟨l',ordered,next_conserved sound.conserved (proper_fine sound proper) moved,next_safe sound.safe (proper_spares sound) moved,?_⟩
  rcases next_cases moved with ⟨pool,handedOut,_⟩ | ⟨i,h,rfl,here,rfl⟩
  · rw [pool,handedOut]
    exact sound.cached
  · obtain ⟨others,_,pins,_⟩ := exists_rest here
    have accounts := sound.consistent.accounts
    rw [pins] at accounts
    refine advances_cached (advance_cases h accounts) (fun f p => sound.consistent.notStuck) sound.uncached ?_ sound.cached
    have own := proper.1
    rintro p (rfl | ⟨data,rfl⟩)
    · simpa [owns,here] using own
    · simpa [owns,here] using own

theorem opened_sound (opened : Opened n s l) (kept : Kept s.pool.disk) : Sound n s l := by
  obtain ⟨disk,replacer,pool,fresh,_⟩ := opened.pool
  refine ⟨⟨opened.inOrder,by simp [opened.clients]⟩,?_,?_,fun p f here => ?_⟩
  · rw [Service.pins,opened.clients,pool]
    exact create_conserved fresh
  · refine ⟨?_,by simp [opened.clients]⟩
    rw [pool] at kept ⊢
    exact create_guarded kept
  · rw [pool] at here
    cases here

/-! ### What the service shows -/

/-- Where a client is whose request has been handled. -/
def answered : Request → Response → Phase
  | .readPage p, response => if response.success then .leaving p else .answering (.readPage p) response
  | request, response => .answering request response

/-- A request is done when its bytes have been read, or written. -/
def phase : Handler → Phase
  | .idle => .idle
  | .received request => .received request
  | .reading p _ => .received (.readPage p)
  | .sent p _ => .leaving p
  | .writing p data _ => .received (.writePage p data)
  | .written p data => .answering (.writePage p data) (.ok p)
  | .allocated p => .answering .allocatePage (.ok p)
  | .answering request response => answered request response

/-- The pages that are handed out, as the pool and the file have them. -/
def contentsOf (s : Service) : Contents := fun p => if p ∈ s.handedOut then some (current s.pool p) else none

def view (s : Service) : Atomic := { contents := contentsOf s, clients := s.clients.map phase }

theorem phase_error (request : Request) : phase (.answering request (.error p)) = .answering request (.error p) := by
  cases request <;> rfl

theorem contents_own (own : p ∈ s.handedOut) : contentsOf s p = some (current s.pool p) := if_pos own

theorem contents_none (free : p ∉ s.handedOut) : contentsOf s p = none := if_neg free

/-- A thread that holds a pin is busy. -/
theorem pins_busy (h : Handler) : h.pins.card ≤ if (phase h).busy then 1 else 0 := by
  cases h <;> simp [Handler.pins,phase,Phase.busy]

theorem card_busy : ∀ handlers : List Handler, ((handlers.map Handler.pins).sum).card ≤ (handlers.map phase).countP Phase.busy
  | [] => by simp
  | h :: rest => by
    have first := pins_busy h
    have others := card_busy rest
    rw [List.map_cons,List.sum_cons,Multiset.card_add,List.map_cons,List.countP_cons]
    omega

/-- A pin is that of a request about the page. -/
theorem pinned_uses : ∀ {handlers : List Handler}, p ∈ (handlers.map Handler.pins).sum → ∃ ph ∈ handlers.map phase, ph.uses p
  | [], pinned => absurd pinned (Multiset.notMem_zero p)
  | h :: rest, pinned => by
    rw [List.map_cons,List.sum_cons,Multiset.mem_add] at pinned
    rcases pinned with here | later
    · refine ⟨phase h,List.mem_cons_self,?_⟩
      cases h with
      | reading q f => exact (Multiset.mem_singleton.mp here).symm
      | sent q data => exact (Multiset.mem_singleton.mp here).symm
      | writing q data f => exact (Multiset.mem_singleton.mp here).symm
      | written q data => exact (Multiset.mem_singleton.mp here).symm
      | allocated q => exact (Multiset.mem_singleton.mp here).symm
      | _ => exact absurd here (Multiset.notMem_zero p)
    · obtain ⟨ph,member,use⟩ := pinned_uses later
      exact ⟨ph,List.mem_cons_of_mem _ member,use⟩

/-- The pins, where one thread has none, are those of the others. -/
theorem pins_others (here : s.clients[i]? = some h) (none : h.pins = 0) : s.pins = ((s.clients.eraseIdx i).map Handler.pins).sum := by
  obtain ⟨inside,rfl⟩ := List.getElem?_eq_some_iff.mp here
  rw [Service.pins,← ((List.getElem_cons_eraseIdx_perm inside).map Handler.pins).sum_eq,List.map_cons,List.sum_cons,none,zero_add]

/-- Where no frame can be found, every frame has a page that is pinned. -/
theorem pinned_of_full {pins : Multiset PageId} (conserved : Conserved n b pins) (full : b.replacement = none) : n ≤ pins.toFinset.card := by
  obtain ⟨accounts,covered,size⟩ := conserved
  have empty : b.freeList = [] := by
    cases list : b.freeList with
    | nil => rfl
    | cons f rest => simp [BufferPoolManager.replacement,list] at full
  rw [BufferPoolManager.replacement,empty] at full
  have into : (Finset.range n).image Int.ofNat ⊆ pins.toFinset.image (fun p => (b.pageTable p).getD 0) := by
    intro f member
    obtain ⟨j,inRange,rfl⟩ := Finset.mem_image.mp member
    have low : j < b.poolSize := size ▸ Finset.mem_range.mp inRange
    have frame : IsFrame b.poolSize (j : Int) := ⟨Int.natCast_nonneg j,by exact_mod_cast low⟩
    rcases covered (j : Int) frame with free | ⟨p,mapped⟩
    · rw [empty] at free
      cases free
    · refine Finset.mem_image.mpr ⟨p,Multiset.mem_toFinset.mpr ?_,by rw [mapped]; rfl⟩
      by_contra unpinned
      exact (victim_none accounts.replacer full).2 _ ((accounts.evictable _).mpr ⟨p,mapped,unpinned⟩)
  have count := Finset.card_le_card into
  rw [Finset.card_image_of_injective _ (fun a b same => Int.ofNat.inj same),Finset.card_range] at count
  exact le_trans count Finset.card_image_le

/-! ### Steps -/

/-- A step of a thread, and what it leaves. -/
structure Stepped (s : Service) (i : Nat) (h h' : Handler) (b' : BufferPoolManager) (s' : Service) : Prop where
  here : s.clients[i]? = some h
  after : h.advance s.pool = (h',b')
  become : s' = { pool := b', clients := s.clients.set i h', handedOut := Service.account s.handedOut h h' }

theorem stepped_of (here : s.clients[i]? = some h) (after : h.advance s.pool = (h',b')) (moved : s.next (.advance i) = some s') :
    Stepped s i h h' b' s' := by
  rw [Service.next,here] at moved
  simp only [after] at moved
  exact ⟨here,after,(Option.some.inj moved).symm⟩

/-- A step changes the bytes of no page that is handed out, but for the one it is about. -/
theorem stepped_current (sound : Sound n s l) (proper : Proper s (.advance i)) (stepped : Stepped s i h h' b' s')
    (own : p ∈ s.handedOut) (unchanged : ¬ Changes p h) : current b' p = current s.pool p := by
  obtain ⟨here,after,_⟩ := stepped
  obtain ⟨_,l',_,_,moves,_⟩ := advance_inOrder sound.ordered.inOrder here (orderly_keeps sound.ordered (proper_orderly sound proper) here)
  rw [after] at moves
  have owned := sound.ordered.inOrder.owned p own
  refine moves.current p (pos_ne owned.positive) unchanged ?_
  rintro rfl
  cases moves.lists with
  | takes granted => exact granted.apart owned rfl
  | keeps _ none => exact none p rfl

/-- A page that is given to a client is no one else's, and its bytes are zero. -/
theorem stepped_allocated (sound : Sound n s l) (proper : Proper s (.advance i))
    (stepped : Stepped s i (.received .allocatePage) (.allocated p) b' s') : p ∉ s.handedOut ∧ 0 < p ∧ p < b'.disk.numPages := by
  obtain ⟨here,after,_⟩ := stepped
  obtain ⟨_,l',_,_,moves,_⟩ := advance_inOrder sound.ordered.inOrder here (orderly_keeps sound.ordered (proper_orderly sound proper) here)
  rw [after] at moves
  cases moves.lists with
  | takes granted =>
    refine ⟨fun own => granted.apart (sound.ordered.inOrder.owned p own) rfl,pos_of_ne granted.positive,granted.inside⟩
  | keeps _ none => exact absurd rfl (none p)

/-- A step that changes nothing that is shown. -/
theorem stepped_silent (sound : Sound n s l) (proper : Proper s (.advance i)) (stepped : Stepped s i h h' b' s')
    (same : phase h' = phase h) (kept : Service.account s.handedOut h h' = s.handedOut) (unchanged : ∀ p, ¬ Changes p h) :
    view s' = view s := by
  have current := fun p own => stepped_current (p := p) sound proper stepped own (unchanged p)
  obtain ⟨here,_,rfl⟩ := stepped
  rw [kept]
  have contents : contentsOf { pool := b', clients := s.clients.set i h', handedOut := s.handedOut } = contentsOf s := by
    funext p
    by_cases own : p ∈ s.handedOut
    · rw [contents_own own,contents_own (s := { s with pool := b', clients := s.clients.set i h' }) own]
      exact congrArg some (current p own)
    · rw [contents_none own,contents_none (s := { s with pool := b', clients := s.clients.set i h' }) own]
  rw [view,contents,view]
  congr 1
  obtain ⟨before,after,split,set⟩ := exists_place here
  rw [set,split,List.map_append,List.map_append,List.map_cons,List.map_cons,same]

/-- A step in which a request is done. -/
theorem stepped_done {request : Request} {response : Response} (stepped : Stepped s i h h' b' s') (asked : phase h = .received request)
    (done : phase h' = .answering request response)
    (answers : Answers n (contentsOf s) ((s.clients.eraseIdx i).map phase) request response (contentsOf s')) :
    Step n (view s) none (view s') := by
  obtain ⟨here,_,rfl⟩ := stepped
  have clients : (view { pool := b', clients := s.clients.set i h', handedOut := Service.account s.handedOut h h' }).clients =
      (view s).clients.set i (.answering request response) := by
    rw [← done]
    exact List.map_set
  rw [← List.eraseIdx_map] at answers
  have at' : (view s).clients[i]? = some (.received request) := by
    rw [← asked]
    simp [view,here]
  have step := Step.done (a := view s) at' answers
  rw [← clients] at step
  exact step

/-- A request that fails leaves everything as it is. -/
theorem error_step {request : Request} (stepped : Stepped s i (.received request) (.answering request (.error p)) b' s')
    (same : b' = s.pool) (answers : Answers n (contentsOf s) ((s.clients.eraseIdx i).map phase) request (.error p) (contentsOf s)) :
    Step n (view s) none (view s') := by
  refine stepped_done stepped rfl (phase_error _) ?_
  obtain ⟨_,_,rfl⟩ := stepped
  rw [same,account_error]
  exact answers

/-- Where no frame can be found, every frame is in use by another request. -/
theorem busy_of_full (sound : Sound n s l) (here : s.clients[i]? = some h) (unpinned : h.pins = 0) (full : s.pool.replacement = none) :
    n ≤ ((s.clients.eraseIdx i).map phase).countP Phase.busy := by
  have few := pinned_of_full sound.conserved full
  rw [pins_others here unpinned] at few
  exact few.trans ((Multiset.toFinset_card_le _).trans (card_busy _))

/-- A thread that fetches a page for its request: the request stays as it was, or all frames
    are in use. -/
theorem fetch_step {request : Request} {loaded : FrameId → Handler} (sound : Sound n s l) (proper : Proper s (.advance i))
    (here : s.clients[i]? = some (.received request)) (own : p ∈ s.handedOut) (needs : NeedsFrame request p)
    (advance : (Handler.received request).advance s.pool = match s.pool.fetchPage p with
      | (.ok (some f),b') => (loaded f,b')
      | (_,b') => (.answering request (.error p),b'))
    (same : ∀ f, phase (loaded f) = .received request) (kept : ∀ f, Service.account s.handedOut (.received request) (loaded f) = s.handedOut)
    (unchanged : ∀ p, ¬ Changes p (.received request)) (moved : s.next (.advance i) = some s') :
    view s' = view s ∨ Step n (view s) none (view s') := by
  have low := sound.inFile own
  rcases fetchPage_cases sound.consistent.accounts p with ⟨f,b',fetch,_⟩ | ⟨invalid | ⟨_,full⟩,fetch⟩ | ⟨_,_,_,_,_,outside,_⟩ | ⟨_,_,_,_,_,stuck⟩
  · simp only [fetch] at advance
    exact .inl (stepped_silent sound proper (stepped_of here advance moved) (same f) (kept f) unchanged)
  · exact absurd invalid (lt_invalid low)
  · simp only [fetch] at advance
    exact .inr (error_step (stepped_of here advance moved) rfl (.full needs (busy_of_full sound here rfl full)))
  · exact absurd low (UInt32.not_lt.mpr outside)
  · exact absurd stuck sound.consistent.notStuck

/-- The contents after a step that is about one page. -/
theorem contents_update {found : Option PageData} (others : ∀ q, q ≠ p → (q ∈ s'.handedOut ↔ q ∈ s.handedOut))
    (same : ∀ q, q ≠ p → q ∈ s.handedOut → current s'.pool q = current s.pool q) (here : contentsOf s' p = found) :
    contentsOf s' = Function.update (contentsOf s) p found := by
  funext q
  by_cases it : q = p
  · rw [it,here,Function.update_self]
  · rw [Function.update_of_ne it]
    by_cases own : q ∈ s.handedOut
    · rw [contents_own own,contents_own ((others q it).mpr own),same q it own]
    · rw [contents_none own,contents_none (fun there => own ((others q it).mp there))]

theorem allocate_step (sound : Sound n s l) (proper : Proper s (.advance i)) (here : s.clients[i]? = some (.received .allocatePage))
    (moved : s.next (.advance i) = some s') : Step n (view s) none (view s') := by
  have use := proper_fine sound proper .allocatePage here trivial
  rcases newPage_cases sound.consistent.accounts sound.uncached with ⟨p,f,b',made,created,_⟩ | ⟨full,made⟩ | ⟨f,b',e,made,failed,selected,_⟩ |
    ⟨_,_,_,_,stuck⟩
  · have after : (Handler.received .allocatePage).advance s.pool = (.allocated p,b') := by simp only [Handler.advance,made]
    have stepped := stepped_of here after moved
    obtain ⟨fresh,positive,low⟩ := stepped_allocated sound proper stepped
    have kept : ∀ q, q ∈ s.handedOut → current b' q = current s.pool q := fun q own => stepped_current sound proper stepped own id
    have update : contentsOf s' = Function.update (contentsOf s) p (some (Block.zeros _)) := by
      obtain ⟨_,_,rfl⟩ := stepped
      refine contents_update (fun q other => ⟨fun there => ?_,List.mem_cons_of_mem _⟩) (fun q _ own => kept q own) ?_
      · exact (List.mem_cons.mp there).resolve_left other
      · rw [contents_own List.mem_cons_self]
        exact congrArg some (created_zeros created)
    refine stepped_done stepped rfl rfl ?_
    rw [update]
    exact .allocates (contents_none fresh) positive (lt_invalid low)
  · have after : (Handler.received .allocatePage).advance s.pool = (.answering .allocatePage (.error INVALID_PAGE_ID),s.pool) := by
      simp only [Handler.advance,made]
    exact error_step (stepped_of here after moved) rfl (.full .allocatePage (busy_of_full sound here rfl full))
  · exact absurd failed (allocatePage_found selected (use f selected.replacement).2.2 e)
  · exact absurd stuck sound.consistent.notStuck

theorem deallocate_step (sound : Sound n s l) (proper : Proper s (.advance i))
    (here : s.clients[i]? = some (.received (.deallocatePage p))) (own : p ∈ s.handedOut)
    (moved : s.next (.advance i) = some s') : Step n (view s) none (view s') := by
  rcases deletePage_cases sound.consistent.accounts p with ⟨pinned,deleted⟩ | ⟨_,b',deleted,_⟩
  · have after : (Handler.received (.deallocatePage p)).advance s.pool = (.answering (.deallocatePage p) (.error p),s.pool) := by
      simp only [Handler.advance,deleted]
    rw [pins_others here rfl] at pinned
    exact error_step (stepped_of here after moved) rfl (.inUse (pinned_uses pinned))
  · have after : (Handler.received (.deallocatePage p)).advance s.pool = (.answering (.deallocatePage p) (.ok p),b') := by
      simp only [Handler.advance,deleted]
    have stepped := stepped_of here after moved
    have kept : ∀ q, q ≠ p → q ∈ s.handedOut → current b' q = current s.pool q :=
      fun q other own => stepped_current sound proper stepped own (fun it => other it.symm)
    have update : contentsOf s' = Function.update (contentsOf s) p none := by
      obtain ⟨_,_,rfl⟩ := stepped
      refine contents_update (fun q other => ⟨fun there => (List.mem_filter.mp there).1,fun old => ?_⟩) kept ?_
      · exact List.mem_filter.mpr ⟨old,decide_eq_true other⟩
      · refine contents_none (fun there => ?_)
        exact of_decide_eq_true (List.mem_filter.mp there).2 rfl
    refine stepped_done stepped rfl rfl ?_
    rw [update]
    exact .deallocates (contents_own own)

theorem view_set (h : Handler) : (view s).clients.set i (phase h) = (s.clients.set i h).map phase := List.map_set.symm

/-- The bytes that are sent are those of the page. -/
theorem read_step {c : Contents} (sound : Sound n s l) (here : s.clients[i]? = some (.reading p f)) (moved : s.next (.advance i) = some s') :
    (atomic n c).Shows (view s) [.answer i (.readPage p) { Response.ok p with data := some (s.pool.pages f).data }] (view s') := by
  have placed := sound.ordered.inOrder.placed _ (List.mem_of_getElem? here)
  have asked : (view s).clients[i]? = some (.received (.readPage p)) := by simp [view,here,phase]
  have answers : Answers n (view s).contents ((view s).clients.eraseIdx i) (.readPage p)
      { Response.ok p with data := some (s.pool.pages f).data } (view s).contents := by
    rw [← current_cached placed]
    exact .reads (contents_own (sound.cached p f placed))
  have shows := shows_answer (c := c) asked answers
  obtain ⟨_,_,rfl⟩ := stepped_of here rfl moved
  have clients : (view s).clients.set i (.leaving p) = (s.clients.set i (.sent p (s.pool.pages f).data)).map phase := view_set (.sent p _)
  rw [show Phase.after (.readPage p) _ = .leaving p from rfl,clients] at shows
  exact shows

/-- Every step of a thread is one of the atomic store, or shows nothing. -/
theorem advance_step (sound : Sound n s l) (proper : Proper s (.advance i)) (here : s.clients[i]? = some h)
    (outer : ∀ p f, h ≠ .reading p f) (moved : s.next (.advance i) = some s') : view s' = view s ∨ Step n (view s) none (view s') := by
  have own := proper.1
  have placed := sound.ordered.inOrder.placed h (List.mem_of_getElem? here)
  cases h with
  | idle => exact .inl (stepped_silent sound proper (stepped_of here rfl moved) rfl rfl (fun _ => id))
  | answering request response =>
    refine .inl (stepped_silent sound proper (stepped_of here rfl moved) rfl ?_ (fun _ => id))
    rfl
  | sent p data => exact .inl (stepped_silent sound proper (stepped_of here rfl moved) rfl rfl (fun _ => id))
  | written p data => exact .inl (stepped_silent sound proper (stepped_of here rfl moved) rfl rfl (fun _ => id))
  | allocated p => exact .inl (stepped_silent sound proper (stepped_of here rfl moved) rfl rfl (fun _ => id))
  | reading p f => exact absurd rfl (outer p f)
  | writing p data f =>
    have stepped := stepped_of here rfl moved
    have own := sound.ordered.writers p data f (List.mem_of_getElem? here)
    have kept : ∀ q, q ≠ p → q ∈ s.handedOut → current (s.pool.write f data) q = current s.pool q :=
      fun q other own => stepped_current sound proper stepped own (fun it => other it.symm)
    have update : contentsOf s' = Function.update (contentsOf s) p (some data) := by
      obtain ⟨_,_,rfl⟩ := stepped
      refine contents_update (fun q _ => Iff.rfl) kept ?_
      refine (if_pos own).trans (congrArg some ?_)
      rw [write_current sound.consistent.accounts placed,Function.update_self]
    refine .inr (stepped_done stepped rfl rfl ?_)
    rw [update]
    exact .writes (contents_own own)
  | received request =>
    cases request with
    | unknown => exact .inr (error_step (stepped_of here rfl moved) rfl .unknown)
    | readPage p =>
      simp only [owns,here,decide_eq_true_eq] at own
      exact fetch_step sound proper here own .readPage rfl (fun _ => rfl) (fun _ => rfl) (fun _ => id) moved
    | writePage p data =>
      simp only [owns,here,decide_eq_true_eq] at own
      exact fetch_step sound proper here own .writePage rfl (fun _ => rfl) (fun _ => rfl) (fun _ => id) moved
    | allocatePage => exact .inr (allocate_step sound proper here moved)
    | deallocatePage p =>
      simp only [owns,here,decide_eq_true_eq] at own
      exact .inr (deallocate_step sound proper here own moved)

/-- An answer is sent, or has been. -/
theorem answer_step {c : Contents} {request : Request} {response : Response} (here : s.clients[i]? = some (.answering request response)) :
    (atomic n c).Shows (view s) (seen s (.answer i)).toList (view { s with clients := s.clients.set i .idle }) := by
  have at' : (view s).clients[i]? = some (answered request response) := by simp [view,here,phase]
  have clients : (view s).clients.set i .idle = (s.clients.set i .idle).map phase := view_set .idle
  have answers : answered request response = .answering request response → Phase.after request response = .idle →
      (atomic n c).Shows (view s) [.answer i request response] (view { s with clients := s.clients.set i .idle }) := by
    intro phase after
    rw [phase] at at'
    have step := @Step.answer n (view s) i request response at'
    rw [after,clients] at step
    exact .visible .refl step
  cases before : sentBefore request response with
  | true =>
    cases request with
    | readPage p =>
      have success : response.success = true := before
      rw [answered,if_pos success] at at'
      have step := @Step.leave n (view s) i p at'
      rw [clients] at step
      simp only [seen,here,before,if_true]
      exact .silent .refl step
    | _ => cases before
  | false =>
    simp only [seen,here,before,Bool.false_eq_true,if_false]
    cases request with
    | readPage p =>
      have failed : ¬ response.success = true := by
        rw [show response.success = false from before]
        exact Bool.false_ne_true
      exact answers (if_neg failed) (if_neg failed)
    | _ => exact answers rfl rfl

/-- Every move of the service is followed by the atomic store. -/
theorem next_followed {c : Contents} (sound : Sound n s l) (proper : Proper s m) (moved : s.next m = some s') :
    (atomic n c).Shows (view s) (seen s m).toList (view s') := by
  cases m with
  | connect =>
    obtain rfl := Option.some.inj moved
    have step := @Step.connect n (view s)
    have clients : (view s).clients ++ [Phase.idle] = (s.clients ++ [Handler.idle]).map phase := by simp [view,phase]
    rw [clients] at step
    exact .visible .refl step
  | receive i request =>
    rw [Service.next] at moved
    split at moved
    · next here =>
      obtain rfl := Option.some.inj moved
      have at' : (view s).clients[i]? = some .idle := by simp [view,here,phase]
      have step := @Step.receive n (view s) i request at'
      have clients : (view s).clients.set i (.received request) = (s.clients.set i (.received request)).map phase :=
        view_set (.received request)
      rw [clients] at step
      exact .visible .refl step
    · cases moved
  | advance i =>
    cases here : s.clients[i]? with
    | none => simp [Service.next,here] at moved
    | some h =>
      by_cases outer : ∀ p f, h ≠ .reading p f
      · have silent : seen s (.advance i) = none := by
          cases h with
          | reading p f => exact absurd rfl (outer p f)
          | _ => simp only [seen,here]
        rw [silent]
        rcases advance_step sound proper here outer moved with same | step
        · rw [same]
          exact .refl
        · exact .silent .refl step
      · push Not at outer
        obtain ⟨p,f,rfl⟩ := outer
        simp only [seen,here]
        exact read_step sound here moved
  | answer i =>
    rw [Service.next] at moved
    split at moved
    · next request response here =>
      obtain rfl := Option.some.inj moved
      exact answer_step here
    · cases moved

/-! ### Restarts -/

/-- A service that is stopped while no request is being handled leaves a file that can be
    opened, and a service over it shows the same pages. -/
theorem stopped (sound : Sound n s l) (quiescent : Quiescent s) {order : List PageId} (visits : Visits s.pool order) :
    ∃ disk, DiskManager.openFile (stop s order) = .ok disk ∧ ∀ replacer, Fresh n replacer →
      Sound n (Service.reopen s n disk replacer) l ∧ contentsOf (Service.reopen s n disk replacer) = contentsOf s := by
  have nothing : ∀ p, ¬ ∃ h ∈ s.clients, p ∈ owes h := by
    rintro p ⟨h,member,own⟩
    rw [quiescent h member] at own
    exact Multiset.notMem_zero p own
  have consistent := sound.consistent
  rw [quiescent_pins quiescent] at consistent
  -- the holders of a pool, of which there are none
  let holders : PoolHolders.Holders := { pool := s.pool, live := s.handedOut, holds := [], written := fun _ => none }
  have inOrder : PoolHolders.InOrder holders (fun p => ∃ h ∈ s.clients, p ∈ owes h) l := by
    refine ⟨consistent,by simp [holders],fun p free => ?_,sound.ordered.inOrder.owned,by simp [holders],fun p own => absurd own (nothing p),nofun⟩
    rw [Option.eq_none_iff_forall_ne_some]
    exact fun f here => (sound.ordered.inOrder.owned p (sound.cached p f here)).notFree free
  obtain ⟨flushed,written⟩ := PoolHolders.flushAllPages_inOrder order inOrder
  obtain ⟨guarded,_,_⟩ := sound.safe.1.flushAllPages order
  refine ⟨_,reopen_same guarded.kept.header guarded.kept.opens,fun replacer fresh => ⟨?_,?_⟩⟩
  · exact opened_sound ⟨⟨_,replacer,rfl,fresh,flushed.consistent.free⟩,rfl,flushed.owned⟩ guarded.kept
  · funext p
    by_cases own : p ∈ s.handedOut
    · rw [contents_own own,contents_own (s := Service.reopen s n _ replacer) own,← written.current]
      refine congrArg some (Eq.trans (current_uncached rfl) ?_)
      cases here : (s.pool.flushAllPages order).2.pageTable p with
      | none => exact (current_uncached here).symm
      | some f =>
        have before : s.pool.pageTable p = some f := written.pageTable ▸ here
        have clean := written.clean p f before (.inl (visits p (by simp [before])))
        have positive := pos_ne (sound.ordered.inOrder.owned p own).positive
        rw [current_cached here]
        exact (flushed.consistent.synced p f here positive clean (nothing p)).symm
    · rw [contents_none own,contents_none (s := Service.reopen s n _ replacer) own]

theorem lives_followed {c : Contents} {label : Option Event} (sound : Sound n s l) (lives : Lives n s label s') :
    (atomic n c).Shows (view s) label.toList (view s') ∧ ∃ l', Sound n s' l' := by
  cases lives with
  | move proper moved => exact ⟨next_followed sound proper moved,next_sound sound proper moved⟩
  | @restart order disk replacer quiescent visits opened fresh =>
    obtain ⟨disk',opened',same⟩ := stopped sound quiescent visits
    rw [opened] at opened'
    cases opened'
    obtain ⟨sound',contents⟩ := same replacer fresh
    have idle : ∀ ph ∈ (view s).clients, ph = .idle := by
      intro ph member
      obtain ⟨h,here,rfl⟩ := List.mem_map.mp member
      rw [quiescent h here]
      rfl
    refine ⟨?_,l,sound'⟩
    have step := @Step.restart n (view s) idle
    rw [show { (view s) with clients := [] } = view (Service.reopen s n disk replacer) from by rw [view,view,contents]; rfl] at step
    exact .visible .refl step

theorem service_simulates (opened : Opened n s l) (kept : Kept s.pool.disk) :
    Simulates (service n s) (atomic n (contentsOf s)) (fun s' a => (∃ l', Sound n s' l') ∧ a = view s') where
  start := by
    intro s' here
    have same : s' = s := here
    refine ⟨view s,?_,⟨l,?_⟩,congrArg view same.symm⟩
    · simp [atomic,view,opened.clients]
    · rw [same]
      exact opened_sound opened kept
  silent := by
    rintro s₁ _ s₂ ⟨⟨l₁,sound⟩,rfl⟩ lives
    obtain ⟨followed,sound'⟩ := lives_followed sound lives
    exact ⟨_,followed,sound',rfl⟩
  visible := by
    rintro s₁ _ label s₂ ⟨⟨l₁,sound⟩,rfl⟩ lives
    obtain ⟨followed,sound'⟩ := lives_followed sound lives
    exact ⟨_,followed,sound',rfl⟩

/-- What moves in a row show. -/
def shown (s : Service) : List Move → List Event
  | [] => []
  | m :: rest =>
    match s.next m with
    | none => []
    | some s' => (seen s m).toList ++ shown s' rest

theorem shows_of_along {start : Service} : ∀ {moves : List Move} {s s' : Service}, Along Service.next Proper s moves s' →
    (service n start).Shows s (shown s moves) s'
  | [], _, _, rfl => .refl
  | m :: rest, s, s'', ⟨proper,s',moved,later⟩ => by
    have after : (service n start).Shows s' (shown s' rest) s'' := shows_of_along later
    have first : (service n start).Shows s (seen s m).toList s' := by
      have lives := Lives.move (n := n) proper moved
      cases shown : seen s m with
      | none =>
        rw [shown] at lives
        exact .silent .refl lives
      | some event =>
        rw [shown] at lives
        exact .visible .refl lives
    rw [ServiceHistories.shown]
    simp only [moved]
    exact first.trans after

/-- A new service with one frame. -/
def single : Service := .start (.create 1 .create (.lru (.create 1)))

/-- A client allocates a page and writes to it, while another one reads it. -/
def firstMoves : List Move :=
  [.connect,.connect,.receive 0 .allocatePage,.advance 0,.advance 0,.answer 0,.receive 0 (.writePage 1 sample),.receive 1 (.readPage 1),
    .advance 0,.advance 0,.advance 1,.advance 1,.advance 0,.answer 0,.advance 1,.answer 1]

/-- The page is read again. -/
def laterMoves : List Move := [.connect,.receive 0 (.readPage 1),.advance 0,.advance 0,.advance 0,.answer 0]

end
end Aether.ServiceHistories
