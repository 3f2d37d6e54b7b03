import Aether.ServiceContents

/-!
What clients read. A page holds what was written to it last, as long as no page
is given a second frame: from the copy of a `WRITE_PAGE` on, every `READ_PAGE` of
the page returns its bytes, until the page is written again or deallocated.
-/
namespace Aether.ServiceWrites
open Aether.Bytes Aether.Types Aether.DiskManager Aether.FreeList Aether.Replacers Aether.BufferPool Aether.BufferPoolFrames
open Aether.PoolContents Aether.StorageService Aether.Runs Aether.ServiceSteps Aether.ServiceContents

/-- Clients write and deallocate only pages that have been handed out to them, and
    read only pages of the file. -/
def disciplined (s : Service) : Move → Bool
  | .advance client =>
    match s.clients[client]? with
    | some (.received (.readPage p)) => decide (p < s.pool.disk.numPages)
    | some (.received (.writePage p _)) => decide (p ∈ s.handedOut)
    | some (.received (.deallocatePage p)) => decide (p ∈ s.handedOut)
    | _ => true
  | _ => true

/-- The move writes to the page or deallocates it. -/
def touches (p : PageId) (s : Service) : Move → Bool
  | .advance client =>
    match s.clients[client]? with
    | some (.writing q _ _) => decide (q = p)
    | some (.received (.deallocatePage q)) => decide (q = p)
    | _ => false
  | _ => false

/-- Where `ALLOCATE_PAGE` finds a frame, the page that is handed out is in no other
    frame, and it is not the last possible one. -/
def AllocatesApart (s : Service) : Move → Prop
  | .advance client => s.clients[client]? = some (.received .allocatePage) → s.pool.replacement ≠ none →
      HandsOutUncached s.pool ∧ (s.pool.disk.freeListHead = INVALID_PAGE_ID → s.pool.disk.numPages ≠ INVALID_PAGE_ID)
  | _ => True

/-- The moves of disciplined clients that give no page a second frame. -/
def Orderly (s : Service) (m : Move) : Prop := disciplined s m = true ∧ AllocatesApart s m

/-- Such moves that leave the page alone. -/
def Quiet (p : PageId) (s : Service) (m : Move) : Prop := Orderly s m ∧ touches p s m = false

section
variable {s₀ s s' : Service} {l l' : List PageId} {n i j : Nat} {p q : PageId} {data : PageData} {h h' : Handler} {m : Move} {f : FrameId}
variable {b b' : BufferPoolManager} {rest : Multiset PageId}

/-- A service in order in which only owned pages are being written. -/
structure Ordered (s : Service) (l : List PageId) : Prop where
  inOrder : InOrder s l
  writers : ∀ p data f, .writing p data f ∈ s.clients → p ∈ s.handedOut

theorem orderly_keeps (ordered : Ordered s l) (orderly : Orderly s (.advance i)) (here : s.clients[i]? = some h) :
    Keeps s.pool h := by
  obtain ⟨discipline,apart⟩ := orderly
  have notFree : ∀ p ∈ s.handedOut, ¬ OnFreeList s.pool.disk p := by
    intro p own free
    exact (ordered.inOrder.owned p own).notFree ((onFreeList_iff ordered.inOrder.consistent.free).mp free)
  cases h with
  | writing p data f => exact fun free => absurd free (notFree p (ordered.writers p data f (List.mem_of_getElem? here)))
  | received request =>
    cases request with
    | allocatePage => exact apart here
    | deallocatePage p =>
      simp only [disciplined,here,decide_eq_true_eq] at discipline
      exact fun free => absurd free (notFree p discipline)
    | _ => trivial
  | _ => trivial

/-- Where the threads stand after a move. -/
theorem next_client (moved : s.next m = some s') (here : s'.clients[j]? = some h') :
    s.clients[j]? = some h' ∨ h' = .idle ∨ (∃ request, h' = .received request) ∨
      m = .advance j ∧ ∃ h, s.clients[j]? = some h ∧ h' = (h.advance s.pool).1 := by
  have place : ∀ (i : Nat) (g : Handler), (s.clients.set i g)[j]? = some h' → i = j ∧ h' = g ∨ s.clients[j]? = some h' := by
    intro i g there
    rw [List.getElem?_set] at there
    split_ifs at there with same inside
    · exact .inl ⟨same,(Option.some.inj there).symm⟩
    · exact .inr there
  cases m with
  | connect =>
    obtain rfl := Option.some.inj moved
    rw [List.getElem?_append] at here
    split_ifs at here
    · exact .inl here
    · exact .inr (.inl (List.mem_singleton.mp (List.mem_of_getElem? here)))
  | receive i request =>
    rw [Service.next] at moved
    split at moved
    · obtain rfl := Option.some.inj moved
      rcases place i _ here with ⟨_,same⟩ | old
      · exact .inr (.inr (.inl ⟨request,same⟩))
      · exact .inl old
    · cases moved
  | advance i =>
    rw [Service.next] at moved
    split at moved
    · next h there =>
      obtain rfl := Option.some.inj moved
      rcases place i _ here with ⟨rfl,same⟩ | old
      · exact .inr (.inr (.inr ⟨rfl,h,there,same⟩))
      · exact .inl old
    · cases moved
  | answer i =>
    rw [Service.next] at moved
    split at moved
    · obtain rfl := Option.some.inj moved
      rcases place i _ here with ⟨_,same⟩ | old
      · exact .inr (.inl same)
      · exact .inl old
    · cases moved

/-- Only a thread that handles `WRITE_PAGE` comes to write. -/
theorem advance_writing (became : (h.advance b).1 = .writing p data f) : h = .received (.writePage p data) := by
  cases h with
  | received request =>
    cases request with
    | unknown => cases became
    | writePage q data =>
      simp only [Handler.advance] at became
      split at became <;> cases became
      rfl
    | _ =>
      simp only [Handler.advance] at became
      split at became <;> cases became
  | _ => cases became

/-- Every orderly move keeps the service in order. -/
theorem next_ordered (ordered : Ordered s l) (orderly : Orderly s m) (moved : s.next m = some s') : ∃ l', Ordered s' l' := by
  rcases next_cases moved with ⟨_,handedOut,_,clients,_⟩ | ⟨i,h,rfl,here,rfl⟩
  · obtain ⟨l',inOrder⟩ := next_inOrder ordered.inOrder (fun i h same here => by subst same; exact orderly_keeps ordered orderly here) moved
    refine ⟨l',inOrder,fun p data f member => ?_⟩
    rw [handedOut]
    rcases clients _ member with old | impossible | ⟨request,impossible⟩
    · exact ordered.writers p data f old
    · cases impossible
    · cases impossible
  · obtain ⟨others,l',set,old,moves,inOrder⟩ := advance_inOrder ordered.inOrder here (orderly_keeps ordered orderly here)
    refine ⟨l',inOrder,fun p data f member => ?_⟩
    rcases (set _).mp member with became | other
    · have asked := advance_writing became.symm
      have discipline := orderly.1
      simp only [disciplined,here,asked,decide_eq_true_eq] at discipline
      exact account_kept discipline (fun _ _ same => by rw [asked] at same; cases same)
    · exact account_kept (ordered.writers p data f (old _ other)) (moves.refuses p (mem_pins other (Multiset.mem_singleton_self p)))

/-! ### The bytes of a page -/

/-- An owned page that holds the bytes. -/
structure Shows (s : Service) (p : PageId) (data : PageData) : Prop where
  own : p ∈ s.handedOut
  bytes : current s.pool p = data

theorem untouched (here : s.clients[i]? = some h) (quiet : touches p s (.advance i) = false) : ¬ Changes p h := by
  cases h with
  | writing q data f => simpa [touches,here,Changes] using quiet
  | received request =>
    cases request with
    | deallocatePage q => simpa [touches,here,Changes] using quiet
    | _ => exact id
  | _ => exact id

/-- Moves that leave the page alone leave its bytes alone. -/
theorem next_shows (ordered : Ordered s l) (quiet : Quiet p s m) (moved : s.next m = some s') (shows : Shows s p data) :
    Shows s' p data := by
  rcases next_cases moved with ⟨pool,handedOut,_⟩ | ⟨i,h,rfl,here,rfl⟩
  · exact ⟨handedOut ▸ shows.own,pool ▸ shows.bytes⟩
  · obtain ⟨_,l',_,_,moves,_⟩ := advance_inOrder ordered.inOrder here (orderly_keeps ordered quiet.1 here)
    have own := ordered.inOrder.owned p shows.own
    have unchanged := untouched here quiet.2
    have notGiven : (h.advance s.pool).1 ≠ .allocated p := by
      intro given
      have lists := moves.lists
      rw [given] at lists
      cases lists with
      | takes granted => exact granted.apart own rfl
      | keeps _ none => exact none p rfl
    refine ⟨account_kept shows.own (fun _ _ same => ?_),?_⟩
    · rw [same] at unchanged
      exact absurd rfl unchanged
    · rw [← shows.bytes]
      exact moves.current p (pos_ne own.positive) unchanged notGiven

/-- From the copy of a `WRITE_PAGE` on, the page shows what was written. -/
theorem copied_shows (ordered : Ordered s l) (here : s.clients[i]? = some (.writing p data f))
    (moved : s.next (.advance i) = some s₀) : Shows s₀ p data := by
  have member := List.mem_of_getElem? here
  rw [Service.next,here] at moved
  obtain rfl := Option.some.inj moved
  refine ⟨ordered.writers p data f member,?_⟩
  show current (s.pool.write f data) p = data
  rw [write_current ordered.inOrder.consistent.accounts (ordered.inOrder.placed _ member),Function.update_self]

/-- What a thread has read of the page, if anything, is what the page shows. -/
def Faithful (p : PageId) (data : PageData) : Handler → Prop
  | .sent q read => q = p → read = data
  | .answering (.readPage q) response => q = p → response.success = true → response.data = some data
  | _ => True

theorem advance_faithful (placed : Placed b h) (bytes : current b p = data) (faithful : Faithful p data h) :
    Faithful p data (h.advance b).1 := by
  cases h with
  | received request =>
    cases request with
    | unknown => trivial
    | readPage q =>
      simp only [Handler.advance]
      split
      · trivial
      · intro _ success
        cases success
    | _ =>
      simp only [Handler.advance]
      split <;> trivial
  | reading q f =>
    rintro rfl
    rw [← bytes,current_cached placed]
  | sent q read => exact fun same _ => congrArg some (faithful same)
  | answering request response => exact faithful
  | _ => trivial

/-- No acknowledged write is lost: in every run of disciplined clients in which no
    page gets a second frame, a `READ_PAGE` that comes after the copy of a
    `WRITE_PAGE` returns what was written, until the page is written again or
    deallocated. -/
theorem writes_are_read {s₁ s₂ o : Service} {response : Response} (opened : Opened n o l) (before : Runs Service.next Orderly o s)
    (copying : s.clients[i]? = some (.writing p data f)) (copied : s.next (.advance i) = some s₀)
    (quiet : Runs Service.next (Quiet p) s₀ s₁) (idle : s₁.clients[j]? = some .idle)
    (later : Runs Service.next (Quiet p) s₁ s₂) (answered : s₂.clients[j]? = some (.answering (.readPage p) response))
    (success : response.success = true) : response.data = some data := by
  obtain ⟨l₁,ordered⟩ : ∃ l, Ordered s l := by
    refine before.invariant (fun s => ∃ l, Ordered s l) ⟨l,opened.inOrder,by simp [opened.clients]⟩ ?_
    rintro s m s' ⟨l,ordered⟩ orderly moved
    exact next_ordered ordered orderly moved
  have orderly : Orderly s (.advance i) := ⟨by simp [disciplined,copying],fun here => by rw [copying] at here; cases here⟩
  have shown : (∃ l, Ordered s₁ l) ∧ Shows s₁ p data := by
    refine quiet.invariant (fun s => (∃ l, Ordered s l) ∧ Shows s p data)
      ⟨next_ordered ordered orderly copied,copied_shows ordered copying copied⟩ ?_
    rintro s m s' ⟨⟨l,ordered⟩,shows⟩ quiet moved
    exact ⟨next_ordered ordered quiet.1 moved,next_shows ordered quiet moved shows⟩
  have read : (∃ l, Ordered s₂ l) ∧ Shows s₂ p data ∧ ∀ h, s₂.clients[j]? = some h → Faithful p data h := by
    refine later.invariant (fun s => (∃ l, Ordered s l) ∧ Shows s p data ∧ ∀ h, s.clients[j]? = some h → Faithful p data h)
      ⟨shown.1,shown.2,fun h here => by rw [idle] at here; cases here; trivial⟩ ?_
    rintro s m s' ⟨⟨l,ordered⟩,shows,faithful⟩ quiet moved
    refine ⟨next_ordered ordered quiet.1 moved,next_shows ordered quiet moved shows,fun h' here => ?_⟩
    rcases next_client moved here with old | rfl | ⟨request,rfl⟩ | ⟨rfl,h,there,rfl⟩
    · exact faithful h' old
    · trivial
    · trivial
    · exact advance_faithful (ordered.inOrder.placed h (List.mem_of_getElem? there)) shows.bytes (faithful h there)
  exact read.2.2 _ answered rfl success

end

/-! ### A page in two frames -/

/-- The moves of a client that asks for a page and waits for the answer. -/
def allocates : List Move := [.receive 0 .allocatePage,.advance 0,.advance 0,.answer 0]

/-- The moves of a client that reads a page, up to its answer. -/
def reads (p : PageId) : List Move := [.receive 0 (.readPage p),.advance 0,.advance 0,.advance 0]

/-- Some bytes. -/
def sample : PageData := fun _ => 7

/-- A client reads back what it has written to its first page. -/
theorem writes_are_read_back : ∃ (s : Service) (response : Response), s.clients[0]? = some (.answering (.readPage 1) response) ∧
    response.success = true ∧ response.data = some sample := by
  have first : HandsOutUncached (.create 1 .create (.lru (.create 1))) := fun f g mapped => by simp [BufferPoolManager.create] at mapped
  obtain ⟨s,s₀,s₁,s₂,response,before,copying,copied,after,idle,later,answered,success⟩ :
      ∃ (s s₀ s₁ s₂ : Service) (response : Response),
        Along Service.next Orderly (.start (.create 1 .create (.lru (.create 1))))
          [.connect,.receive 0 .allocatePage,.advance 0,.advance 0,.answer 0,.receive 0 (.writePage 1 sample),.advance 0] s ∧
        s.clients[0]? = some (.writing 1 sample 0) ∧ s.next (.advance 0) = some s₀ ∧
        Along Service.next (Quiet 1) s₀ [.advance 0,.answer 0] s₁ ∧ s₁.clients[0]? = some .idle ∧
        Along Service.next (Quiet 1) s₁ [.receive 0 (.readPage 1),.advance 0,.advance 0,.advance 0] s₂ ∧
        s₂.clients[0]? = some (.answering (.readPage 1) response) ∧ response.success = true :=
    ⟨_,_,_,_,_,⟨⟨rfl,trivial⟩,_,rfl,⟨rfl,trivial⟩,_,rfl,⟨rfl,fun _ _ => ⟨first,by decide⟩⟩,_,rfl,⟨rfl,fun new => by cases new⟩,_,rfl,
      ⟨rfl,trivial⟩,_,rfl,⟨rfl,trivial⟩,_,rfl,⟨rfl,fun new => by cases new⟩,_,rfl,rfl⟩,rfl,rfl,
      ⟨⟨⟨rfl,fun new => by cases new⟩,rfl⟩,_,rfl,⟨⟨rfl,trivial⟩,rfl⟩,_,rfl,rfl⟩,rfl,
      ⟨⟨⟨rfl,trivial⟩,rfl⟩,_,rfl,⟨⟨rfl,fun new => by cases new⟩,rfl⟩,_,rfl,⟨⟨rfl,fun new => by cases new⟩,rfl⟩,_,rfl,
        ⟨⟨rfl,fun new => by cases new⟩,rfl⟩,_,rfl,rfl⟩,rfl,rfl⟩
  exact ⟨s₂,response,answered,success,writes_are_read (create_opened (.inl rfl)) (runs_of_along before) copying copied
    (runs_of_along after) idle (runs_of_along later) answered success⟩

/-- A client deallocates its page, reads it and asks for a new one, which is the
    same page in a second frame, and is about to write to it. -/
def doubled : Option Service :=
  follow Service.next (fun s m => disciplined s m = true) (.start (.create 3 .create (.lru (.create 3))))
    ([.connect] ++ allocates ++ [.receive 0 (.deallocatePage 1),.advance 0,.answer 0] ++ reads 1 ++ [.answer 0] ++ allocates ++
      reads 0 ++ [.answer 0,.receive 0 (.writePage 1 sample),.advance 0])

/-- Its write is acknowledged. -/
def acknowledged (s₀ : Service) : Option Service :=
  follow Service.next (fun s m => disciplined s m = true ∧ touches 1 s m = false) s₀ [.advance 0,.answer 0]

/-- It asks for another page, which takes the first frame, and reads its page again. -/
def readAgain (s₁ : Service) : Option Service :=
  follow Service.next (fun s m => disciplined s m = true ∧ touches 1 s m = false) s₁ (allocates ++ reads 1)

/-- What is in the file for the page: a link of the free list. -/
def freed : PageData := (Block.zeros _).put32 0 INVALID_PAGE_ID

/-- A page that is read while it is free, and handed out again, loses what is
    written to it when its first frame is evicted. -/
theorem acknowledged_write_is_lost : ∃ (s s₀ s₁ s₂ : Service) (response : Response) (f : FrameId),
    Runs Service.next (fun s m => disciplined s m = true) (.start (.create 3 .create (.lru (.create 3)))) s ∧
    s.clients[0]? = some (.writing 1 sample f) ∧ s.next (.advance 0) = some s₀ ∧
    Runs Service.next (fun s m => disciplined s m = true ∧ touches 1 s m = false) s₀ s₁ ∧ s₁.clients[0]? = some .idle ∧
    Runs Service.next (fun s m => disciplined s m = true ∧ touches 1 s m = false) s₁ s₂ ∧
    s₂.clients[0]? = some (.answering (.readPage 1) response) ∧ response.success = true ∧ response.data ≠ some sample := by
  obtain ⟨s,first⟩ : ∃ s, doubled = some s := Option.isSome_iff_exists.mp (by decide +kernel)
  obtain ⟨s₀,second⟩ : ∃ s₀, doubled.bind (Service.next · (.advance 0)) = some s₀ := Option.isSome_iff_exists.mp (by decide +kernel)
  obtain ⟨s₁,third⟩ : ∃ s₁, (doubled.bind (Service.next · (.advance 0))).bind acknowledged = some s₁ :=
    Option.isSome_iff_exists.mp (by decide +kernel)
  obtain ⟨s₂,fourth⟩ : ∃ s₂, ((doubled.bind (Service.next · (.advance 0))).bind acknowledged).bind readAgain = some s₂ :=
    Option.isSome_iff_exists.mp (by decide +kernel)
  have copying : doubled.map (fun s => s.clients[0]?) = some (some (.writing 1 sample 2)) := by rfl
  have idle : ((doubled.bind (Service.next · (.advance 0))).bind acknowledged).map (fun s => s.clients[0]?) = some (some .idle) := by rfl
  have answered : (((doubled.bind (Service.next · (.advance 0))).bind acknowledged).bind readAgain).map (fun s => s.clients[0]?) =
      some (some (.answering (.readPage 1) { success := true, pageId := 1, data := some freed })) := by rfl
  have differ : freed ≠ sample := fun same => absurd (congrArg (fun data : PageData => data.byte 0) same) (by decide +kernel)
  rw [fourth] at answered
  rw [third] at fourth idle
  rw [second] at third
  rw [first] at second copying
  exact ⟨s,s₀,s₁,s₂,_,2,runs_of_follow first,Option.some.inj copying,second,runs_of_follow third,Option.some.inj idle,
    runs_of_follow fourth,Option.some.inj answered,rfl,fun same => differ (Option.some.inj same)⟩

end Aether.ServiceWrites
