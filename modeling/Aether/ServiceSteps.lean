import Aether.BufferPoolFrames
import Aether.StorageService
import Mathlib.Algebra.BigOperators.Group.List.Basic
import Mathlib.Algebra.Order.Group.Multiset

/-!
What one step of a thread of the service does. `Advances` lists the cases, with
what they do to the pool, while the other threads hold their pins.
-/
namespace Aether.ServiceSteps
open Aether.Types Aether.DiskManager Aether.Replacers Aether.BufferPool Aether.BufferPoolFrames Aether.StorageService
open Aether.Runs

/-- The page that a request has fetched for it. -/
def Fetches (p : PageId) : Request → Prop
  | .readPage q => q = p
  | .writePage q _ => q = p
  | _ => False

/-- The request is handled in a frame that has to be found. -/
def NeedsFrame (b : BufferPoolManager) : Request → Prop
  | .readPage p => p ≠ INVALID_PAGE_ID ∧ b.pageTable p = none
  | .writePage p _ => p ≠ INVALID_PAGE_ID ∧ b.pageTable p = none
  | .allocatePage => True
  | _ => False

/-- A thread's step, where the other threads hold the pins `rest`. -/
inductive Advances (b : BufferPoolManager) (rest : Multiset PageId) : Handler → Handler → BufferPoolManager → Prop
  | idle : Advances b rest .idle .idle b
  | answering {request response} : Advances b rest (.answering request response) (.answering request response) b
  /-- There is no page, no frame, no such operation, or the page is in use. -/
  | refused {request p} : Advances b rest (.received request) (.answering request (.error p)) b
  | reads {p f b'} : Fetched b p f b' → Accounts b' (p ::ₘ rest) → (b.pageTable p = none → p < b.disk.numPages) →
      Advances b rest (.received (.readPage p)) (.reading p f) b'
  | writes {p data f b'} : Fetched b p f b' → Accounts b' (p ::ₘ rest) → (b.pageTable p = none → p < b.disk.numPages) →
      Advances b rest (.received (.writePage p data)) (.writing p data f) b'
  /-- A frame has been found for a page that is not in the file. -/
  | loses {request p f b'} : Fetches p request → NeedsFrame b request → b.disk.numPages ≤ p → Selected b f b' →
      Accounts b' rest → Loose b' f →
      Advances b rest (.received request) (.answering request (.error p))
        (b'.setPage f { Page.reset with pageId := p, pinCount := 1 })
  /-- The victim cannot be written to the file. -/
  | sticks {request p f q b'} : NeedsFrame b request → Stuck b f q →
      Advances b rest (.received request) (.answering request (.error p)) b'
  /-- The free list ends outside the file. -/
  | corrupt {f e b'} : Selected b f b' → b'.disk.allocatePage = .error e → Accounts b' rest → Loose b' f →
      Advances b rest (.received .allocatePage) (.answering .allocatePage (.error INVALID_PAGE_ID)) b'
  /-- The new page is in another frame already. -/
  | doubles {f h' b'} : b.replacement = some f → ¬ HandsOutUncached b → Advances b rest (.received .allocatePage) h' b'
  | creates {p f b'} : Created b p f b' → Accounts b' (p ::ₘ rest) →
      Advances b rest (.received .allocatePage) (.allocated p) b'
  | deletes {p b'} : p ∉ rest → Deleted b p b' → Accounts b' rest →
      Advances b rest (.received (.deallocatePage p)) (.answering (.deallocatePage p) (.ok p)) b'
  | sends {p f} : Advances b rest (.reading p f) (.sent p (b.pages f).data) b
  | copies {p data f} : Advances b rest (.writing p data f) (.written p data) (b.write f data)
  | readEnds {p data f b'} : Unpinned b p f false b' → Accounts b' rest →
      Advances b rest (.sent p data) (.answering (.readPage p) { Response.ok p with data := some data }) b'
  | writeEnds {p data f b'} : Unpinned b p f true b' → Accounts b' rest →
      Advances b rest (.written p data) (.answering (.writePage p data) (.ok p)) b'
  | allocateEnds {p f b'} : Unpinned b p f true b' → Accounts b' rest →
      Advances b rest (.allocated p) (.answering .allocatePage (.ok p)) b'

section
variable {b : BufferPoolManager} {rest : Multiset PageId} {p : PageId}

/-- A request that has a page fetched for it. -/
theorem advances_fetch {request : Request} {loaded : FrameId → Handler} (accounts : Accounts b rest) (fetches : Fetches p request)
    (needs : p ≠ INVALID_PAGE_ID → b.pageTable p = none → NeedsFrame b request)
    (step : (Handler.received request).advance b = match b.fetchPage p with
      | (.ok (some f),b') => (loaded f,b')
      | (_,b') => (.answering request (.error p),b'))
    (found : ∀ f b', Fetched b p f b' → Accounts b' (p ::ₘ rest) → (b.pageTable p = none → p < b.disk.numPages) →
      Advances b rest (.received request) (loaded f) b') :
    Advances b rest (.received request) ((Handler.received request).advance b).1 ((Handler.received request).advance b).2 := by
  have valid : ∀ e b', b.fetchPage p = (.error e,b') → p ≠ INVALID_PAGE_ID := by
    rintro e b' failed rfl
    rw [BufferPoolManager.fetchPage,if_pos rfl] at failed
    cases failed
  rw [step]
  rcases fetchPage_cases accounts p with ⟨f,b',fetch,fetched,accounts',low⟩ | ⟨_,fetch⟩ |
    ⟨f,b',b'',fetch,absent,outside,selected,accounts',loose,rfl⟩ | ⟨f,q,b',fetch,absent,stuck⟩
  · simp only [fetch]
    exact found f b' fetched accounts' low
  · simp only [fetch]
    exact .refused
  · have needed := needs (valid _ _ fetch) absent
    simp only [fetch]
    exact .loses fetches needed outside selected accounts' loose
  · have needed := needs (valid _ _ fetch) absent
    simp only [fetch]
    exact .sticks needed stuck

/-- Every step of a thread is one of these. -/
theorem advance_cases (h : Handler) (accounts : Accounts b (h.pins + rest)) :
    Advances b rest h (h.advance b).1 (h.advance b).2 := by
  cases h with
  | idle => exact .idle
  | answering request response => exact .answering
  | reading p f => exact .sends
  | writing p data f => exact .copies
  | sent p data =>
    have held : Accounts b (p ::ₘ rest) := by simpa [Handler.pins] using accounts
    obtain ⟨f,b',step,unpinned,accounts'⟩ := unpinPage_held held false
    rw [Handler.advance,step]
    exact .readEnds unpinned accounts'
  | written p data =>
    have held : Accounts b (p ::ₘ rest) := by simpa [Handler.pins] using accounts
    obtain ⟨f,b',step,unpinned,accounts'⟩ := unpinPage_held held true
    rw [Handler.advance,step]
    exact .writeEnds unpinned accounts'
  | allocated p =>
    have held : Accounts b (p ::ₘ rest) := by simpa [Handler.pins] using accounts
    obtain ⟨f,b',step,unpinned,accounts'⟩ := unpinPage_held held true
    rw [Handler.advance,step]
    exact .allocateEnds unpinned accounts'
  | received request =>
    have unheld : Accounts b rest := by simpa [Handler.pins] using accounts
    cases request with
    | unknown => exact .refused
    | readPage p => exact advances_fetch unheld rfl And.intro rfl (fun _ _ => .reads)
    | writePage p data => exact advances_fetch unheld rfl And.intro rfl (fun _ _ => .writes)
    | allocatePage =>
      cases found : b.replacement with
      | none =>
        rcases selectFrame_cases unheld with ⟨_,step⟩ | ⟨f,b',_,selected,_⟩ | ⟨f,q,b',_,stuck⟩
        · simp only [Handler.advance,BufferPoolManager.newPage,step]
          exact .refused
        · rw [selected.replacement] at found
          cases found
        · rw [stuck.replacement] at found
          cases found
      | some f =>
        by_cases uncached : HandsOutUncached b
        · rcases newPage_cases unheld uncached with ⟨p,f,b',step,created,accounts'⟩ | ⟨none,_⟩ |
            ⟨f,b',e,step,failed,selected,accounts',loose⟩ | ⟨f,q,b',step,stuck⟩
          · simp only [Handler.advance,step]
            exact .creates created accounts'
          · rw [found] at none
            cases none
          · simp only [Handler.advance,step]
            exact .corrupt selected failed accounts' loose
          · simp only [Handler.advance,step]
            exact .sticks trivial stuck
        · exact .doubles found uncached
    | deallocatePage p =>
      rcases deletePage_cases unheld p with ⟨_,step⟩ | ⟨free,b',step,deleted,accounts'⟩
      · simp only [Handler.advance,step]
        exact .refused
      · simp only [Handler.advance,step]
        exact .deletes free deleted accounts'

end

/-! ### Steps of the service -/

section
variable {s s' : Service} {m : Move} {i : Nat}

/-- A connection at its place among the others, whose pins are the rest. -/
theorem exists_rest {h : Handler} (here : s.clients[i]? = some h) :
    ∃ others : List Handler, (∀ g, g ∈ s.clients ↔ g = h ∨ g ∈ others) ∧ s.pins = h.pins + (others.map Handler.pins).sum ∧
      ∀ h', (∀ g, g ∈ s.clients.set i h' ↔ g = h' ∨ g ∈ others) ∧
        ((s.clients.set i h').map Handler.pins).sum = h'.pins + (others.map Handler.pins).sum := by
  obtain ⟨before,after,split,set⟩ := exists_place here
  have sum : ∀ g : Handler, ((before ++ g :: after).map Handler.pins).sum = g.pins + ((before ++ after).map Handler.pins).sum := by
    intro g
    simp only [List.map_append,List.map_cons,List.sum_append,List.sum_cons]
    exact add_left_comm ..
  have mem : ∀ g g' : Handler, g ∈ before ++ g' :: after ↔ g = g' ∨ g ∈ before ++ after := by
    intro g g'
    simp only [List.mem_append,List.mem_cons]
    tauto
  refine ⟨before ++ after,fun g => by rw [split]; exact mem g h,by rw [Service.pins,split]; exact sum h,fun h' => ?_⟩
  rw [set]
  exact ⟨fun g => mem g h',sum h'⟩

/-- A move either leaves the pool and all pins alone or is a step of a thread. -/
theorem next_cases (moved : s.next m = some s') :
    s'.pool = s.pool ∧ s'.handedOut = s.handedOut ∧ s'.pins = s.pins ∧
      (∀ h ∈ s'.clients, h ∈ s.clients ∨ h = .idle ∨ ∃ request, h = .received request) ∧
      (∀ h ∈ s.clients, h ∈ s'.clients ∨ h = .idle ∨ ∃ request response, h = .answering request response) ∨
    ∃ i h, m = .advance i ∧ s.clients[i]? = some h ∧
      s' = { pool := (h.advance s.pool).2, clients := s.clients.set i (h.advance s.pool).1,
             handedOut := Service.account s.handedOut h (h.advance s.pool).1 } := by
  cases m with
  | connect =>
    obtain rfl := Option.some.inj moved
    refine .inl ⟨rfl,rfl,by simp [Service.pins,Handler.pins],fun h member => ?_,fun h member => .inl (List.mem_append.mpr (.inl member))⟩
    rcases List.mem_append.mp member with before | new
    · exact .inl before
    · exact .inr (.inl (List.mem_singleton.mp new))
  | receive i request =>
    rw [Service.next] at moved
    split at moved
    · next here =>
      obtain rfl := Option.some.inj moved
      obtain ⟨others,mem,pins,set⟩ := exists_rest here
      refine .inl ⟨rfl,rfl,(set _).2.trans pins.symm,fun h member => ?_,fun h member => ?_⟩
      · rcases ((set _).1 h).mp member with new | old
        · exact .inr (.inr ⟨request,new⟩)
        · exact .inl ((mem h).mpr (.inr old))
      · rcases (mem h).mp member with was | other
        · exact .inr (.inl was)
        · exact .inl (((set _).1 h).mpr (.inr other))
    · cases moved
  | advance i =>
    rw [Service.next] at moved
    split at moved
    · next h here => exact .inr ⟨i,h,rfl,here,(Option.some.inj moved).symm⟩
    · cases moved
  | answer i =>
    rw [Service.next] at moved
    split at moved
    · next request response here =>
      obtain rfl := Option.some.inj moved
      obtain ⟨others,mem,pins,set⟩ := exists_rest here
      refine .inl ⟨rfl,rfl,(set _).2.trans pins.symm,fun h member => ?_,fun h member => ?_⟩
      · rcases ((set _).1 h).mp member with new | old
        · exact .inr (.inl new)
        · exact .inl ((mem h).mpr (.inr old))
      · rcases (mem h).mp member with was | other
        · exact .inr (.inr ⟨request,response,was⟩)
        · exact .inl (((set _).1 h).mpr (.inr other))
    · cases moved

end
end Aether.ServiceSteps
