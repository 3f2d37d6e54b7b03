import Aether.PoolContents
import Aether.ServiceSteps

/-!
What a step of the service does to the pages. As long as no page is put on the
free list twice, no free page loses its link, and no page gets a second frame,
the pool and the file stay consistent, and a step changes the bytes of no page
but the one it is about.
-/
namespace Aether.ServiceContents
open Aether.Bytes Aether.Types Aether.DiskManager Aether.FreeList Aether.Replacers Aether.BufferPool Aether.BufferPoolFrames
open Aether.PoolContents Aether.StorageService Aether.Runs Aether.ServiceSteps

/-- The page has a pin. -/
def Pinned (b : BufferPoolManager) (p : PageId) : Prop := ∃ f, b.pageTable p = some f ∧ 0 < (b.pages f).pinCount

/-- A step that keeps the free list: a free page is not deallocated again, what is
    written to a free page begins with its link, and a new page is in no other
    frame and not the last possible one. -/
def Keeps (b : BufferPoolManager) : Handler → Prop
  | .received (.deallocatePage p) => OnFreeList b.disk p → Pinned b p
  | .writing p data _ => OnFreeList b.disk p → data.get32 0 = link b.disk p
  | .received .allocatePage =>
    b.replacement ≠ none → HandsOutUncached b ∧ (b.disk.freeListHead = INVALID_PAGE_ID → b.disk.numPages ≠ INVALID_PAGE_ID)
  | _ => True

/-- The page that a thread has changed, or been given, and has still to mark dirty. -/
def owes : Handler → Multiset PageId
  | .written p _ => {p}
  | .allocated p => {p}
  | _ => 0

/-- The frame that a thread reads from or writes to is that of its page. -/
def Placed (b : BufferPoolManager) : Handler → Prop
  | .reading p f => b.pageTable p = some f
  | .writing p _ f => b.pageTable p = some f
  | _ => True

/-- The step is about the bytes of the page. -/
def Changes (q : PageId) : Handler → Prop
  | .writing p _ _ => p = q
  | .received (.deallocatePage p) => p = q
  | _ => False

/-- What becomes of the free pages. -/
inductive Lists (d : DiskManager) (l : List PageId) (d' : DiskManager) : Handler → Handler → List PageId → Prop
  | takes {p l'} : Granted d l p d' l' → Lists d l d' (.received .allocatePage) (.allocated p) l'
  | puts {p} : Owned d l p → d'.numPages = d.numPages →
      Lists d l d' (.received (.deallocatePage p)) (.answering (.deallocatePage p) (.ok p)) (p :: l)
  | keeps {h h'} : d'.numPages = d.numPages → (∀ p, h' ≠ .allocated p) →
      Lists d l d' h h' l

/-- A step and what it does to the pages, where the other threads hold the pins
    `rest` and owe the pages `owed`. -/
structure Moves (b : BufferPoolManager) (rest : Multiset PageId) (owed : PageId → Prop) (l : List PageId) (h h' : Handler)
    (b' : BufferPoolManager) (l' : List PageId) : Prop where
  consistent : Consistent b' (h'.pins + rest) (fun p => p ∈ owes h' ∨ owed p) l'
  placed : Placed b' h'
  bound : ∀ q g, q ∈ rest → b.pageTable q = some g → b'.pageTable q = some g
  lists : Lists b.disk l b'.disk h h' l'
  refuses : ∀ q ∈ rest, ∀ request response, h = .received (.deallocatePage q) → h' = .answering request response →
    response.success = false
  current : ∀ q, q ≠ 0 → ¬ Changes q h → h' ≠ .allocated q → current b' q = current b q

section
variable {b b' : BufferPoolManager} {rest : Multiset PageId} {owed : PageId → Prop} {l : List PageId} {h h' : Handler}
variable {p q : PageId}

theorem received_pins (request : Request) : (Handler.received request).pins = 0 := rfl

theorem answering_pins (request : Request) (response : Response) : (Handler.answering request response).pins = 0 := rfl

theorem owes_le_pins (h : Handler) : p ∈ owes h → p ∈ h.pins := by
  cases h <;> simp [owes,Handler.pins]

theorem received_fixed {request : Request} (within : ∀ q, owed q → q ∈ rest) (q : PageId) :
    q ∈ owes (.received request) ∨ owed q → q ∈ rest := by
  rintro (own | other)
  · exact absurd own (Multiset.notMem_zero q)
  · exact within q other

theorem pinned_mem (accounts : Accounts b rest) (pinned : Pinned b p) : p ∈ rest := by
  obtain ⟨f,here,positive⟩ := pinned
  rw [accounts.pinned p f here] at positive
  exact Multiset.count_pos.mp (by exact_mod_cast positive)

/-- A page is fetched by a thread that held none. -/
theorem fetched_moves {f : FrameId} (consistent : Consistent b rest (fun q => q ∈ owes h ∨ owed q) l)
    (within : ∀ q, owed q → q ∈ rest) (nothing : owes h = 0) (fetched : Fetched b p f b') (accounts' : Accounts b' (p ::ₘ rest))
    (inFile : b.pageTable p = none → p < b.disk.numPages) (pins : h'.pins = {p}) (placed : Placed b' h') (owes' : owes h' = 0)
    (given : ∀ q, h' ≠ .allocated q) : Moves b rest owed l h h' b' l := by
  refine ⟨?_,placed,fun q g pinned here => ?_,.keeps fetched.numPages given,
    fun q _ _ _ _ same => ?_,fun q positive _ _ => fetched_current consistent fetched positive ?_⟩
  · rw [pins,Multiset.singleton_add,owes',← nothing]
    exact fetched_consistent consistent fetched accounts' inFile
  · by_cases same : q = p
    · subst same
      rw [fetched.here,fetched.found g here]
    · exact fetched.bound accounts' (Multiset.mem_cons_of_mem pinned) same here
  · rw [same] at pins
    exact absurd pins (by simp [Handler.pins])
  · rintro (own | other)
    · rw [nothing] at own
      exact absurd own (Multiset.notMem_zero q)
    · exact accounts'.held q (Multiset.mem_cons_of_mem (within q other))

/-- A thread gives up its pin, having marked the page dirty where it had to. -/
theorem unpinned_moves {f : FrameId} {isDirty : Bool} (consistent : Consistent b (h.pins + rest) (fun q => q ∈ owes h ∨ owed q) l)
    (unpinned : Unpinned b p f isDirty b') (accounts' : Accounts b' rest) (pins : h.pins = {p}) (nothing : h'.pins = 0)
    (placed : Placed b' h') (marked : isDirty = false → owes h = 0) (given : ∀ q, h' ≠ .allocated q) :
    Moves b rest owed l h h' b' l := by
  rw [pins,Multiset.singleton_add] at consistent
  have owes' : ∀ q, q ∉ owes h' := fun q own => by
    have pinned := owes_le_pins h' own
    rw [nothing] at pinned
    exact Multiset.notMem_zero q pinned
  refine ⟨?_,placed,fun q g _ here => ?_,.keeps (by rw [unpinned.disk]) given,
    fun q _ _ _ same _ => ?_,fun q _ _ _ => by rw [unpinned_current unpinned]⟩
  · rw [nothing,zero_add]
    refine unpinned_consistent consistent unpinned accounts' ?_ ?_
    · rintro q other (own | old)
      · have pinned := owes_le_pins h own
        rw [pins,Multiset.mem_singleton] at pinned
        exact absurd pinned other
      · exact .inr old
    · rintro unmarked (own | old)
      · rw [marked unmarked] at own
        exact absurd own (Multiset.notMem_zero p)
      · exact .inr old
  · rw [unpinned.pageTable]
    exact here
  · rw [same] at pins
    exact absurd pins (by simp [Handler.pins])

/-- A new page is pinned by the thread that gets it. -/
theorem created_moves {f : FrameId} (consistent : Consistent b ((Handler.received .allocatePage).pins + rest)
      (fun q => q ∈ owes (.received .allocatePage) ∨ owed q) l) (within : ∀ q, owed q → q ∈ rest)
    (keeps : Keeps b (.received .allocatePage)) (created : Created b p f b') (accounts' : Accounts b' (p ::ₘ rest)) :
    ∃ l', Moves b rest owed l (.received .allocatePage) (.allocated p) b' l' := by
  rw [received_pins,zero_add] at consistent
  obtain ⟨b₁,selected,_⟩ := created.allocated
  obtain ⟨uncached,room⟩ := keeps (by simp [selected.replacement])
  have space : l = [] → b.disk.numPages ≠ INVALID_PAGE_ID := fun empty => room ((chain_nil_iff consistent.free.chain).mp empty)
  have unpinned : p ∉ rest := by
    intro pinned
    obtain ⟨g,here⟩ := Option.ne_none_iff_exists'.mp (consistent.accounts.held p pinned)
    have same := uncached g f (created.id ▸ here) selected.replacement
    exact replacement_unpinned consistent.accounts selected.replacement (same ▸ here) pinned
  obtain ⟨l',consistent',granted⟩ := created_consistent (fun q => q ∈ owes (.allocated p) ∨ owed q) consistent created
    accounts' space (by
      rintro q (⟨rfl,_⟩ | ⟨_,own | old⟩)
      · exact .inl (Multiset.mem_singleton_self q)
      · exact absurd own (Multiset.notMem_zero q)
      · exact .inr old)
  refine ⟨l',consistent',trivial,fun q g pinned here => ?_,.takes granted,nofun,fun q positive _ given => ?_⟩
  · exact created.bound accounts' (Multiset.mem_cons_of_mem pinned) (fun same => unpinned (same ▸ pinned)) here
  · exact created_current consistent created space positive (fun same => given (same ▸ rfl))
      (fun old => accounts'.held q (Multiset.mem_cons_of_mem (received_fixed within q old)))

/-- A page without pins is deallocated. -/
theorem deleted_moves (consistent : Consistent b ((Handler.received (.deallocatePage p)).pins + rest)
      (fun q => q ∈ owes (.received (.deallocatePage p)) ∨ owed q) l) (keeps : Keeps b (.received (.deallocatePage p)))
    (unpinned : p ∉ rest) (deleted : Deleted b p b') (accounts' : Accounts b' rest) :
    ∃ l', Moves b rest owed l (.received (.deallocatePage p)) (.answering (.deallocatePage p) (.ok p)) b' l' := by
  rw [received_pins,zero_add] at consistent
  by_cases outside : p = 0 ∨ b.disk.numPages ≤ p
  · refine ⟨l,?_,trivial,fun q g pinned here => ?_,.keeps ?_ nofun,?_,fun q positive unchanged _ => ?_⟩
    · rw [answering_pins,zero_add]
      exact deleted_outside consistent deleted accounts' outside
    · exact deleted.bound (fun same => unpinned (same ▸ pinned)) here
    · rw [deleted.disk,deallocatePage_outside outside]
    · rintro q pinned _ _ ⟨⟩ -
      exact absurd pinned unpinned
    · exact deleted_current deleted positive (fun same => unchanged same.symm)
  · obtain ⟨nonzero,inside⟩ := not_or.mp outside
    have positive : 0 < p := pos_of_ne nonzero
    have low : p < b.disk.numPages := UInt32.not_le.mp inside
    have notFree : p ∉ l := fun member =>
      unpinned (pinned_mem consistent.accounts (keeps ((onFreeList_iff consistent.free).mpr member)))
    obtain ⟨consistent',count⟩ := deleted_inside consistent deleted accounts' positive low notFree
    refine ⟨p :: l,by rwa [answering_pins,zero_add],trivial,fun q g pinned here => ?_,.puts ⟨positive,low,notFree⟩ count,?_,fun q positive unchanged _ => ?_⟩
    · exact deleted.bound (fun same => unpinned (same ▸ pinned)) here
    · rintro q pinned _ _ ⟨⟩ -
      exact absurd pinned unpinned
    · exact deleted_current deleted positive (fun same => unchanged same.symm)

/-- A thread copies the bytes of its request to the page. -/
theorem copied_moves {data : PageData} {f : FrameId}
    (consistent : Consistent b ((Handler.writing p data f).pins + rest) (fun q => q ∈ owes (.writing p data f) ∨ owed q) l)
    (placed : Placed b (.writing p data f)) (keeps : Keeps b (.writing p data f)) :
    Moves b rest owed l (.writing p data f) (.written p data) (b.write f data) l := by
  refine ⟨?_,trivial,fun _ _ _ here => here,.keeps rfl nofun,nofun,fun q _ unchanged _ => ?_⟩
  · refine write_consistent consistent placed (fun member => keeps ((onFreeList_iff consistent.free).mpr member)) ?_
    rintro q (rfl | own | old)
    · exact .inl (Multiset.mem_singleton_self q)
    · exact absurd own (Multiset.notMem_zero q)
    · exact .inr old
  · rw [write_current consistent.accounts placed,Function.update_of_ne (fun same => unchanged same.symm)]

/-- Every step that keeps the free list keeps the pages. -/
theorem advances_moves (advances : Advances b rest h h' b') (consistent : Consistent b (h.pins + rest) (fun p => p ∈ owes h ∨ owed p) l)
    (placed : Placed b h) (within : ∀ p, owed p → p ∈ rest) (keeps : Keeps b h) : ∃ l', Moves b rest owed l h h' b' l' := by
  cases advances with
  | idle => exact ⟨l,consistent,trivial,fun _ _ _ here => here,.keeps rfl nofun,nofun,fun _ _ _ _ => rfl⟩
  | answering => exact ⟨l,consistent,trivial,fun _ _ _ here => here,.keeps rfl nofun,nofun,fun _ _ _ _ => rfl⟩
  | refused => exact ⟨l,consistent,trivial,fun _ _ _ here => here,.keeps rfl nofun,fun _ _ _ _ _ ended => by cases ended; rfl,fun _ _ _ _ => rfl⟩
  | sends => exact ⟨l,consistent,trivial,fun _ _ _ here => here,.keeps rfl nofun,nofun,fun _ _ _ _ => rfl⟩
  | reads fetched accounts' inFile =>
    rw [received_pins,zero_add] at consistent
    exact ⟨l,fetched_moves consistent within rfl fetched accounts' inFile rfl fetched.here rfl nofun⟩
  | writes fetched accounts' inFile =>
    rw [received_pins,zero_add] at consistent
    exact ⟨l,fetched_moves consistent within rfl fetched accounts' inFile rfl fetched.here rfl nofun⟩
  | readEnds unpinned accounts' =>
    exact ⟨l,unpinned_moves consistent unpinned accounts' rfl rfl trivial (fun _ => rfl) nofun⟩
  | writeEnds unpinned accounts' => exact ⟨l,unpinned_moves consistent unpinned accounts' rfl rfl trivial nofun nofun⟩
  | allocateEnds unpinned accounts' => exact ⟨l,unpinned_moves consistent unpinned accounts' rfl rfl trivial nofun nofun⟩
  | sticks _ stuck => exact absurd stuck consistent.notStuck
  | loses _ _ _ selected accounts' loose =>
    rw [received_pins,zero_add] at consistent
    refine ⟨l,?_,trivial,fun q g pinned here => selected.bound accounts' pinned here,.keeps selected.numPages nofun,fun _ _ _ _ _ ended => by cases ended; rfl,
      fun q positive _ _ => ?_⟩
    · rw [answering_pins,zero_add]
      exact loose_consistent loose (selected_consistent consistent selected accounts')
    · rw [loose_current loose]
      exact selected_current consistent selected positive (fun old => accounts'.held q (received_fixed within q old))
  | corrupt selected failed =>
    rw [received_pins,zero_add] at consistent
    obtain ⟨_,room⟩ := keeps (by simp [selected.replacement])
    obtain ⟨p,d,l',allocated,_⟩ := allocatePage_spec (selected_free consistent selected) (fun empty => by
      rw [selected.numPages]
      exact room ((chain_nil_iff consistent.free.chain).mp empty))
    rw [failed] at allocated
    cases allocated
  | doubles found cached => exact absurd (keeps (by simp [found])).1 cached
  | creates created accounts' => exact created_moves consistent within keeps created accounts'
  | deletes unpinned deleted accounts' => exact deleted_moves consistent keeps unpinned deleted accounts'
  | copies => exact ⟨l,copied_moves consistent placed keeps⟩

end

/-! ### The service -/

/-- A service that has just been opened over a file in order, with pages that its
    clients own already. -/
structure Opened (n : Nat) (s : Service) (l : List PageId) : Prop where
  pool : ∃ disk replacer, s.pool = .create n disk replacer ∧ Fresh n replacer ∧ FreeList disk l
  clients : s.clients = []
  owned : ∀ p ∈ s.handedOut, Owned s.pool.disk l p

/-- The pool, the file and the threads agree, and what the clients own is not free. -/
structure InOrder (s : Service) (l : List PageId) : Prop where
  consistent : Consistent s.pool s.pins (fun p => ∃ h ∈ s.clients, p ∈ owes h) l
  placed : ∀ h ∈ s.clients, Placed s.pool h
  owned : ∀ p ∈ s.handedOut, Owned s.pool.disk l p

section
variable {s s' : Service} {l l' : List PageId} {n i : Nat} {h h' : Handler} {p : PageId} {m : Move}

theorem create_opened {replacer : Replacer} (fresh : Fresh n replacer) :
    Opened n (.start (.create n .create replacer)) [] :=
  ⟨⟨_,replacer,rfl,fresh,create_freeList⟩,rfl,by simp [Service.start]⟩

theorem Opened.inOrder (opened : Opened n s l) : InOrder s l := by
  obtain ⟨disk,replacer,pool,fresh,free⟩ := opened.pool
  refine ⟨?_,by simp [opened.clients],opened.owned⟩
  rw [Service.pins,opened.clients,pool]
  exact create_consistent fresh free

theorem mem_pins {others : List Handler} (member : h ∈ others) (pinned : p ∈ h.pins) : p ∈ (others.map Handler.pins).sum := by
  induction others with
  | nil => cases member
  | cons g rest ih =>
    rw [List.map_cons,List.sum_cons,Multiset.mem_add]
    rcases List.mem_cons.mp member with rfl | later
    · exact .inl pinned
    · exact .inr (ih later)

theorem placed_kept {b b' : BufferPoolManager} {rest : Multiset PageId} (placed : Placed b h) (held : ∀ p ∈ h.pins, p ∈ rest)
    (bound : ∀ q g, q ∈ rest → b.pageTable q = some g → b'.pageTable q = some g) : Placed b' h := by
  cases h with
  | reading p f => exact bound p f (held p (Multiset.mem_singleton_self p)) placed
  | writing p data f => exact bound p f (held p (Multiset.mem_singleton_self p)) placed
  | _ => trivial

/-- What the clients own stays theirs, until it is deallocated. -/
theorem lists_owned {d d' : DiskManager} {handedOut : List PageId} (lists : Lists d l d' h h' l')
    (owned : ∀ p ∈ handedOut, Owned d l p) : ∀ p ∈ Service.account handedOut h h', Owned d' l' p := by
  cases lists with
  | @takes p l' granted =>
    intro q member
    rcases List.mem_cons.mp member with rfl | old
    · exact ⟨pos_of_ne granted.positive,granted.inside,granted.fresh⟩
    · obtain ⟨positive,low,notFree⟩ := owned q old
      exact ⟨positive,granted.grows low,granted.notFree notFree⟩
  | @puts p own count =>
    intro q member
    obtain ⟨old,other⟩ := List.mem_filter.mp member
    obtain ⟨positive,low,notFree⟩ := owned q old
    exact ⟨positive,count ▸ low,by simpa using ⟨of_decide_eq_true other,notFree⟩⟩
  | keeps count given =>
    intro q member
    have old : q ∈ handedOut := by
      rw [Service.account.eq_def] at member
      split at member
      · exact absurd rfl (given _)
      · split_ifs at member
        · exact (List.mem_filter.mp member).1
        · exact member
      · exact member
    obtain ⟨positive,low,notFree⟩ := owned q old
    exact ⟨positive,count ▸ low,notFree⟩

/-- What is not deallocated stays handed out. -/
theorem account_kept {handedOut : List PageId} (own : p ∈ handedOut)
    (refuses : ∀ request response, h = .received (.deallocatePage p) → h' = .answering request response →
      response.success = false) : p ∈ Service.account handedOut h h' := by
  rw [Service.account.eq_def]
  split
  · exact List.mem_cons_of_mem _ own
  · next q request response =>
    split_ifs with success
    · refine List.mem_filter.mpr ⟨own,decide_eq_true ?_⟩
      rintro rfl
      rw [refuses request response rfl rfl] at success
      cases success
    · exact own
  · exact own

/-- A step of a thread that keeps the free list keeps the service in order. -/
theorem advance_inOrder (inOrder : InOrder s l) (here : s.clients[i]? = some h) (keeps : Keeps s.pool h) :
    ∃ (others : List Handler) (l' : List PageId), (∀ g, g ∈ s.clients.set i (h.advance s.pool).1 ↔ g = (h.advance s.pool).1 ∨ g ∈ others) ∧
      (∀ g ∈ others, g ∈ s.clients) ∧
      Moves s.pool (others.map Handler.pins).sum (fun p => ∃ g ∈ others, p ∈ owes g) l h (h.advance s.pool).1 (h.advance s.pool).2 l' ∧
      InOrder { pool := (h.advance s.pool).2, clients := s.clients.set i (h.advance s.pool).1,
                handedOut := Service.account s.handedOut h (h.advance s.pool).1 } l' := by
  obtain ⟨others,mem,pins,set⟩ := exists_rest here
  have consistent := inOrder.consistent
  rw [pins] at consistent
  have consistent : Consistent s.pool (h.pins + (others.map Handler.pins).sum) (fun p => p ∈ owes h ∨ ∃ g ∈ others, p ∈ owes g) l := by
    refine consistent.exempting ?_
    rintro q ⟨g,member,own⟩
    rcases (mem g).mp member with rfl | other
    · exact .inl own
    · exact .inr ⟨g,other,own⟩
  have within : ∀ q, (∃ g ∈ others, q ∈ owes g) → q ∈ (others.map Handler.pins).sum := by
    rintro q ⟨g,member,own⟩
    exact mem_pins member (owes_le_pins g own)
  have placed : Placed s.pool h := inOrder.placed h ((mem h).mpr (.inl rfl))
  obtain ⟨l',moves⟩ := advances_moves (advance_cases h consistent.accounts) consistent placed within keeps
  refine ⟨others,l',(set _).1,fun g member => (mem g).mpr (.inr member),moves,?_,fun g member => ?_,
    lists_owned moves.lists inOrder.owned⟩
  · rw [Service.pins,(set _).2]
    refine moves.consistent.exempting ?_
    rintro q (own | ⟨g,member,own⟩)
    · exact ⟨_,((set _).1 _).mpr (.inl rfl),own⟩
    · exact ⟨g,((set _).1 g).mpr (.inr member),own⟩
  · rcases ((set _).1 g).mp member with rfl | other
    · exact moves.placed
    · exact placed_kept (inOrder.placed g ((mem g).mpr (.inr other))) (fun p pinned => mem_pins other pinned) moves.bound

/-- Every move that keeps the free list keeps the service in order. -/
theorem next_inOrder (inOrder : InOrder s l) (keeps : ∀ i h, m = .advance i → s.clients[i]? = some h → Keeps s.pool h)
    (moved : s.next m = some s') : ∃ l', InOrder s' l' := by
  rcases next_cases moved with ⟨pool,handedOut,pins,clients,stay⟩ | ⟨i,h,rfl,here,rfl⟩
  · refine ⟨l,?_,fun h member => ?_,by rw [pool,handedOut]; exact inOrder.owned⟩
    · rw [pool,pins]
      refine inOrder.consistent.exempting ?_
      rintro q ⟨h,member,own⟩
      rcases stay h member with same | rfl | ⟨request,response,rfl⟩
      · exact ⟨h,same,own⟩
      · exact absurd own (Multiset.notMem_zero q)
      · exact absurd own (Multiset.notMem_zero q)
    · rw [pool]
      rcases clients h member with old | rfl | ⟨request,rfl⟩
      · exact inOrder.placed h old
      · trivial
      · trivial
  · obtain ⟨_,l',_,_,_,inOrder'⟩ := advance_inOrder inOrder here (keeps i h rfl here)
    exact ⟨l',inOrder'⟩

end
end Aether.ServiceContents
