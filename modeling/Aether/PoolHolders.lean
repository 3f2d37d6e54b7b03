import Aether.PoolContents
import Aether.Runs
import Mathlib.Data.Multiset.AddSub

/-!
The holders of pages. Each pin is a `Hold` on a page with the frame that its page
pointer names, and a holder that has written marks the page dirty when it unpins
it. Then the pool is transparent: what is fetched is what was written last.
-/
namespace Aether.PoolHolders
open Aether.Bytes Aether.Types Aether.DiskManager Aether.FreeList Aether.Replacers Aether.BufferPool Aether.BufferPoolFrames
open Aether.PoolContents Aether.Runs

/-- A pin that a holder has taken, and whether it has written since. -/
structure Hold where
  page : PageId
  frame : FrameId
  wrote : Bool

/-- The pool, the live ids, the pins, and for every live page the bytes written last. -/
structure Holders where
  pool : BufferPoolManager
  live : List PageId
  holds : List Hold
  written : PageId → Option PageData

def Holders.start (pool : BufferPoolManager) : Holders := { pool, live := [], holds := [], written := fun _ => none }

inductive Move
  | newPage
  | fetchPage (pageId : PageId)
  | write (hold : Nat) (data : PageData)
  | unpinPage (hold : Nat) (isDirty : Bool)
  | flushPage (pageId : PageId)
  /-- With the order in which the page table is gone through. -/
  | flushAllPages (order : List PageId)
  | deletePage (pageId : PageId)

namespace Holders

def next (s : Holders) : Move → Option Holders
  | .newPage =>
    match s.pool.newPage with
    | (.ok (some (page,frame)),pool) =>
      some { pool, live := page :: s.live, holds := s.holds ++ [{ page, frame, wrote := false }],
             written := Function.update s.written page none }
    | (_,pool) => some { s with pool }
  | .fetchPage page =>
    match s.pool.fetchPage page with
    | (.ok (some frame),pool) => some { s with pool, holds := s.holds ++ [{ page, frame, wrote := false }] }
    | (_,pool) => some { s with pool }
  | .write hold data =>
    match s.holds[hold]? with
    | some h =>
      some { s with pool := s.pool.write h.frame data, holds := s.holds.set hold { h with wrote := true },
                    written := Function.update s.written h.page (some data) }
    | none => none
  | .unpinPage hold isDirty =>
    match s.holds[hold]? with
    | some h => some { s with pool := (s.pool.unpinPage h.page isDirty).2, holds := s.holds.eraseIdx hold }
    | none => none
  | .flushPage page => some { s with pool := (s.pool.flushPage page).2 }
  | .flushAllPages order => some { s with pool := (s.pool.flushAllPages order).2 }
  | .deletePage page =>
    match s.pool.deletePage page with
    | (true,pool) => some { s with pool, live := s.live.filter (fun q => decide (q ≠ page)),
                                   written := Function.update s.written page none }
    | (false,pool) => some { s with pool }

/-- Holders name live pages only, and unpin as dirty what they have written; the
    page table is gone through whole. -/
def Honest (s : Holders) : Move → Prop
  | .fetchPage page => page ∈ s.live
  | .unpinPage hold isDirty => ∀ h, s.holds[hold]? = some h → h.wrote = true → isDirty = true
  | .flushPage page => page ∈ s.live
  | .flushAllPages order => ∀ p, p ∈ order ↔ s.pool.pageTable p ≠ none
  | .deletePage page => page ∈ s.live
  | _ => True

/-- The file does not grow past its largest size. -/
def GrowsWithin (s : Holders) : Move → Prop
  | .newPage => s.pool.replacement ≠ none → s.pool.disk.freeListHead = INVALID_PAGE_ID → s.pool.disk.numPages ≠ INVALID_PAGE_ID
  | _ => True

/-- All pins. -/
def pins (s : Holders) : Multiset PageId := (s.holds.map Hold.page : Multiset PageId)

end Holders

/-- The frames of held pages stay theirs, a page is fetched as it was written last,
    and without pins the file holds it so once all pages have been flushed. -/
structure Transparent (s : Holders) : Prop where
  bound : ∀ h ∈ s.holds, s.pool.pageTable h.page = some h.frame ∧ (s.pool.pages h.frame).pageId = h.page
  bytes : ∀ m s', s.Honest m → s.GrowsWithin m → (∀ hold data, m ≠ .write hold data) → s.next m = some s' →
    ∀ h ∈ s.holds, (s'.pool.pages h.frame).data = (s.pool.pages h.frame).data
  fetched : ∀ p ∈ s.live, ∀ data, s.written p = some data → ∀ f b, s.pool.fetchPage p = (.ok (some f),b) → (b.pages f).data = data
  flushed : s.holds = [] → ∀ order s', s.Honest (.flushAllPages order) → s.next (.flushAllPages order) = some s' →
    ∀ p data, s.written p = some data → s'.pool.disk.readPage p = .ok data

/-! ### The invariant -/

section
variable {s s' : Holders} {b b' : BufferPoolManager} {m : Move} {l l' : List PageId} {exempt : PageId → Prop} {n : Nat}
variable {p q : PageId} {f : FrameId} {h : Hold} {isDirty : Bool} {data : PageData}

/-- The pool is consistent with what is held and what was written. -/
structure InOrder (s : Holders) (exempt : PageId → Prop) (l : List PageId) : Prop where
  consistent : Consistent s.pool s.pins exempt l
  bound : ∀ h ∈ s.holds, s.pool.pageTable h.page = some h.frame
  uncached : ∀ p ∈ l, s.pool.pageTable p = none
  owned : ∀ p ∈ s.live, Owned s.pool.disk l p
  held : ∀ h ∈ s.holds, h.page ∈ s.live
  only : ∀ p, exempt p → (∃ h ∈ s.holds, h.page = p ∧ h.wrote = true) ∨ s.written p = none
  shows : ∀ p data, s.written p = some data → p ∈ s.live ∧ current s.pool p = data

/-- The move writes to the page. -/
def Writes (s : Holders) (m : Move) (p : PageId) : Prop :=
  ∃ hold data h, m = .write hold data ∧ s.holds[hold]? = some h ∧ h.page = p

/-- A move, which keeps the bytes of all live pages but the one it writes to or deletes. -/
structure Keeps (s : Holders) (m : Move) (s' : Holders) (exempt : PageId → Prop) : Prop where
  inOrder : ∃ exempt' l', InOrder s' exempt' l' ∧ (∀ q ∈ s.live, exempt' q → exempt q ∨ Writes s m q) ∧
    ∀ q ∈ s'.live, q ∉ s.live → s.pool.disk.freeListHead = INVALID_PAGE_ID → ¬ exempt' q
  current : ∀ q ∈ s.live, ¬ Writes s m q → q ∈ s'.live → (exempt q → s'.pool.pageTable q ≠ none) →
    current s'.pool q = current s.pool q
  bound : ∀ h ∈ s.holds, s'.pool.pageTable h.page = some h.frame ∧ h.page ∈ s'.live

theorem start_inOrder {disk : DiskManager} {replacer : Replacer} (fresh : Fresh n replacer) (free : FreeList disk l) :
    InOrder (.start (.create n disk replacer)) (fun _ => False) l :=
  ⟨create_consistent fresh free,by simp [Holders.start],fun _ _ => rfl,by simp [Holders.start],by simp [Holders.start],
    fun _ never => never.elim,by simp [Holders.start]⟩

theorem pins_append (holds : List Hold) (h : Hold) :
    ((holds ++ [h]).map Hold.page : Multiset PageId) = h.page ::ₘ (holds.map Hold.page : Multiset PageId) := by
  rw [List.map_append,Multiset.cons_coe]
  exact Multiset.coe_eq_coe.mpr (List.perm_append_singleton _ _)

theorem mem_pins (member : h ∈ s.holds) : h.page ∈ s.pins := Multiset.mem_coe.mpr (List.mem_map_of_mem member)

/-- The pages in use stay in the pool where exempt ones do. -/
theorem InOrder.fixed (inOrder : InOrder s exempt l) (accounts' : ∀ q ∈ s.pins, b'.pageTable q ≠ none)
    (written : s.written p = some data) : exempt p → b'.pageTable p ≠ none := by
  intro old
  rcases inOrder.only p old with ⟨h,member,rfl,_⟩ | none
  · exact accounts' _ (mem_pins member)
  · rw [none] at written
    cases written

/-- A hold is added, and everything else is as it is after the move. -/
theorem InOrder.append {exempt' : PageId → Prop} {live : List PageId} {written : PageId → Option PageData} (inOrder : InOrder s exempt l)
    (consistent : Consistent b' (h.page ::ₘ s.pins) exempt' l') (here : b'.pageTable h.page = some h.frame) (member : h.page ∈ live)
    (stays : ∀ g ∈ s.holds, b'.pageTable g.page = some g.frame) (more : ∀ q ∈ s.live, q ∈ live)
    (uncached : ∀ q ∈ l', b'.pageTable q = none) (owned : ∀ q ∈ live, Owned b'.disk l' q)
    (only : ∀ q, exempt' q → (∃ g ∈ s.holds, g.page = q ∧ g.wrote = true) ∨ written q = none)
    (shows : ∀ q data, written q = some data → q ∈ live ∧ current b' q = data) :
    InOrder { pool := b', live, holds := s.holds ++ [h], written } exempt' l' := by
  refine ⟨?_,fun g there => ?_,uncached,owned,fun g there => ?_,fun q old => ?_,shows⟩
  · rw [Holders.pins,pins_append]
    exact consistent
  · rcases List.mem_append.mp there with old | new
    · exact stays g old
    · obtain rfl := List.mem_singleton.mp new
      exact here
  · rcases List.mem_append.mp there with old | new
    · exact more _ (inOrder.held g old)
    · obtain rfl := List.mem_singleton.mp new
      exact member
  · exact (only q old).imp_left (fun ⟨g,there,rest⟩ => ⟨g,List.mem_append.mpr (.inl there),rest⟩)

/-- The pool has the same pages with the same bytes. -/
theorem keeps_same (inOrder : InOrder s exempt l) (inOrder' : InOrder { s with pool := b' } exempt l)
    (table : b'.pageTable = s.pool.pageTable) (same : current b' = current s.pool) : Keeps s m { s with pool := b' } exempt := by
  refine ⟨⟨exempt,l,inOrder',fun _ _ old => .inl old,fun q there new => absurd there new⟩,fun q _ _ _ _ => ?_,fun h there => ?_⟩
  · exact congrFun same q
  · exact ⟨(congrFun table h.page).trans (inOrder.bound h there),inOrder.held h there⟩

theorem fetchPage_keeps (inOrder : InOrder s exempt l) (member : p ∈ s.live) (moved : s.next (.fetchPage p) = some s') :
    Keeps s (.fetchPage p) s' exempt := by
  have own := inOrder.owned p member
  have consistent := inOrder.consistent
  rcases fetchPage_cases consistent.accounts p with ⟨f,b',fetch,fetched,accounts',low⟩ | ⟨_,fetch⟩ |
    ⟨_,_,_,_,_,outside,_⟩ | ⟨_,_,_,_,_,stuck⟩
  · simp only [Holders.next,fetch] at moved
    obtain rfl := Option.some.inj moved
    have same : ∀ q ∈ s.live, (exempt q → b'.pageTable q ≠ none) → current b' q = current s.pool q :=
      fun q there fixed => fetched_current consistent fetched (pos_ne (inOrder.owned q there).positive) fixed
    have stays : ∀ h ∈ s.holds, b'.pageTable h.page = some h.frame := by
      intro h old
      by_cases here : h.page = p
      · subst here
        have before := inOrder.bound h old
        rw [fetched.here,fetched.found _ before]
      · exact fetched.bound accounts' (Multiset.mem_cons_of_mem (mem_pins old)) here (inOrder.bound h old)
    refine ⟨⟨exempt,l,?_,fun _ _ old => .inl old,fun q there new => absurd there new⟩,fun q there _ _ fixed => same q there fixed,
      fun h there => ⟨stays h there,inOrder.held h there⟩⟩
    refine inOrder.append (fetched_consistent consistent fetched accounts' low) fetched.here member stays (fun q there => there)
      (fun q free => ?_) (fun q there => ?_) inOrder.only (fun q data written => ?_)
    · have other : q ≠ p := by rintro rfl; exact own.notFree free
      cases here : b'.pageTable q with
      | none => rfl
      | some g =>
        have before := (fetched_kept fetched other here).1
        rw [inOrder.uncached q free] at before
        cases before
    · obtain ⟨positive,inFile,notFree⟩ := inOrder.owned q there
      exact ⟨positive,fetched.numPages.symm ▸ inFile,notFree⟩
    · obtain ⟨there,bytes⟩ := inOrder.shows q data written
      refine ⟨there,(same q there (inOrder.fixed (fun q pinned => ?_) written)).trans bytes⟩
      exact accounts'.held q (Multiset.mem_cons_of_mem pinned)
  · simp only [Holders.next,fetch] at moved
    obtain rfl := Option.some.inj moved
    exact keeps_same inOrder inOrder rfl rfl
  · exact absurd own.inFile (UInt32.not_lt.mpr outside)
  · exact absurd stuck consistent.notStuck

theorem newPage_keeps (inOrder : InOrder s exempt l) (within : s.GrowsWithin .newPage) (moved : s.next .newPage = some s') :
    Keeps s .newPage s' exempt := by
  have consistent := inOrder.consistent
  have uncached := consistent.handsOut inOrder.uncached
  have room : ∀ {f b'}, Selected s.pool f b' → l = [] → s.pool.disk.numPages ≠ INVALID_PAGE_ID := by
    intro f b' selected empty
    exact within (by simp [selected.replacement]) ((chain_nil_iff consistent.free.chain).mp empty)
  rcases newPage_cases consistent.accounts uncached with ⟨p,f,b',step,created,accounts'⟩ | ⟨_,step⟩ |
    ⟨f,b',e,_,failed,selected,_⟩ | ⟨_,_,_,_,stuck⟩
  · simp only [Holders.next,step] at moved
    obtain rfl := Option.some.inj moved
    obtain ⟨b₁,selected,_⟩ := created.allocated
    have space := room selected
    obtain ⟨l',consistent',granted⟩ := created_consistent (fun q => q = p ∧ l ≠ [] ∨ q ≠ p ∧ exempt q) consistent created
      accounts' space (fun _ more => more)
    have new : p ∉ s.live := fun old => granted.apart (inOrder.owned p old) rfl
    have same : ∀ q ∈ s.live, (exempt q → b'.pageTable q ≠ none) → current b' q = current s.pool q := by
      intro q there fixed
      exact created_current consistent created space (pos_ne (inOrder.owned q there).positive) (fun here => new (here ▸ there)) fixed
    have stays : ∀ h ∈ s.holds, b'.pageTable h.page = some h.frame := fun h old =>
      created.bound accounts' (Multiset.mem_cons_of_mem (mem_pins old)) (fun here => new (here ▸ inOrder.held h old)) (inOrder.bound h old)
    refine ⟨⟨fun q => q = p ∧ l ≠ [] ∨ q ≠ p ∧ exempt q,l',?_,fun q there old => ?_,fun q there fresh head => ?_⟩,
      fun q there _ _ fixed => same q there fixed,fun h there => ⟨stays h there,List.mem_cons_of_mem p (inOrder.held h there)⟩⟩
    refine inOrder.append consistent' created.here List.mem_cons_self stays (fun q there => List.mem_cons_of_mem p there)
      (fun q free => ?_) (fun q there => ?_) (fun q old => ?_) (fun q data written => ?_)
    · have other : q ≠ p := by rintro rfl; exact granted.fresh free
      have old : q ∈ l := by
        by_contra notFree
        exact granted.notFree notFree free
      cases here : b'.pageTable q with
      | none => rfl
      | some g =>
        have before := (created_kept created other here).1
        rw [inOrder.uncached q old] at before
        cases before
    · rcases List.mem_cons.mp there with rfl | old
      · exact ⟨pos_of_ne granted.positive,granted.inside,granted.fresh⟩
      · obtain ⟨positive,inFile,notFree⟩ := inOrder.owned q old
        exact ⟨positive,granted.grows inFile,granted.notFree notFree⟩
    · rcases old with ⟨rfl,_⟩ | ⟨other,old⟩
      · exact .inr (Function.update_self ..)
      · exact (inOrder.only q old).imp_right (fun none => (Function.update_of_ne other ..).trans none)
    · by_cases here : q = p
      · subst here
        simp at written
      · have written : s.written q = some data := by simpa [Function.update_of_ne here] using written
        obtain ⟨there,bytes⟩ := inOrder.shows q data written
        refine ⟨List.mem_cons_of_mem p there,(same q there (inOrder.fixed (fun q pinned => ?_) written)).trans bytes⟩
        exact accounts'.held q (Multiset.mem_cons_of_mem pinned)
    · rcases old with ⟨rfl,_⟩ | ⟨_,old⟩
      · exact absurd there new
      · exact .inl old
    · rcases List.mem_cons.mp there with rfl | old
      · rintro (⟨_,some⟩ | ⟨other,_⟩)
        · exact some ((chain_nil_iff consistent.free.chain).mpr head)
        · exact other rfl
      · exact absurd old fresh
  · simp only [Holders.next,step] at moved
    obtain rfl := Option.some.inj moved
    exact keeps_same inOrder inOrder rfl rfl
  · obtain ⟨p,d,l',allocated,_⟩ := allocatePage_spec (selected_free consistent selected)
      (fun empty => by rw [selected.numPages]; exact room selected empty)
    rw [failed] at allocated
    cases allocated
  · exact absurd stuck consistent.notStuck

theorem write_keeps {hold : Nat} (inOrder : InOrder s exempt l) (moved : s.next (.write hold data) = some s') :
    Keeps s (.write hold data) s' exempt := by
  have consistent := inOrder.consistent
  rw [Holders.next] at moved
  split at moved
  · next h here =>
    obtain rfl := Option.some.inj moved
    have member := List.mem_of_getElem? here
    have bound := inOrder.bound h member
    obtain ⟨before,after,split,set⟩ := exists_place here
    have pages : (s.holds.set hold { h with wrote := true }).map Hold.page = s.holds.map Hold.page := by
      rw [set,split]
      simp
    have mem : ∀ g ∈ s.holds.set hold { h with wrote := true }, g = { h with wrote := true } ∨ g ∈ s.holds := by
      intro g there
      rw [set] at there
      rw [split]
      simp only [List.mem_append,List.mem_cons] at there ⊢
      tauto
    have wrote : { h with wrote := true } ∈ s.holds.set hold { h with wrote := true } := by rw [set]; simp
    have stays : ∀ g ∈ s.holds, g.wrote = true → ∃ g' ∈ s.holds.set hold { h with wrote := true }, g'.page = g.page ∧ g'.wrote = true := by
      intro g there marked
      rw [split] at there
      rw [set]
      rcases List.mem_append.mp there with early | late
      · exact ⟨g,List.mem_append.mpr (.inl early),rfl,marked⟩
      · rcases List.mem_cons.mp late with rfl | later
        · exact ⟨_,List.mem_append.mpr (.inr List.mem_cons_self),rfl,rfl⟩
        · exact ⟨g,List.mem_append.mpr (.inr (List.mem_cons_of_mem _ later)),rfl,marked⟩
    have notFree : h.page ∉ l := (inOrder.owned h.page (inOrder.held h member)).notFree
    refine ⟨⟨fun q => q = h.page ∨ exempt q,l,⟨?_,fun g there => ?_,inOrder.uncached,inOrder.owned,fun g there => ?_,fun q old => ?_,
      fun q data' written => ?_⟩,fun q there old => ?_,fun q there new => absurd there new⟩,fun q there unwritten _ _ => ?_,
      fun g there => ⟨inOrder.bound g there,inOrder.held g there⟩⟩
    · rw [Holders.pins,pages]
      exact write_consistent consistent bound (fun free => absurd free notFree) (fun _ more => more)
    · rcases mem g there with rfl | old
      · exact bound
      · exact inOrder.bound g old
    · rcases mem g there with rfl | old
      · exact inOrder.held h member
      · exact inOrder.held g old
    · by_cases same : q = h.page
      · exact .inl ⟨_,wrote,same.symm,rfl⟩
      · rcases inOrder.only q (old.resolve_left same) with ⟨g,there,page,marked⟩ | none
        · obtain ⟨g',there',page',marked'⟩ := stays g there marked
          exact .inl ⟨g',there',page'.trans page,marked'⟩
        · exact .inr ((Function.update_of_ne same ..).trans none)
    · have written : Function.update s.written h.page (some data) q = some data' := written
      rw [write_current consistent.accounts bound]
      by_cases same : q = h.page
      · subst same
        rw [Function.update_self] at written ⊢
        exact ⟨inOrder.held h member,Option.some.inj written⟩
      · rw [Function.update_of_ne same] at written ⊢
        exact inOrder.shows q data' written
    · rcases old with rfl | old
      · exact .inr ⟨hold,data,h,rfl,here,rfl⟩
      · exact .inl old
    · rw [write_current consistent.accounts bound]
      exact Function.update_of_ne (fun same => unwritten ⟨hold,data,h,rfl,here,same.symm⟩) ..
  · cases moved

theorem unpinPage_keeps {hold : Nat} (inOrder : InOrder s exempt l)
    (marks : ∀ h, s.holds[hold]? = some h → h.wrote = true → isDirty = true)
    (moved : s.next (.unpinPage hold isDirty) = some s') : Keeps s (.unpinPage hold isDirty) s' exempt := by
  have consistent := inOrder.consistent
  rw [Holders.next] at moved
  split at moved
  · next h here =>
    obtain rfl := Option.some.inj moved
    have member := List.mem_of_getElem? here
    obtain ⟨inside,there⟩ := List.getElem?_eq_some_iff.mp here
    have split : s.holds = s.holds.take hold ++ h :: s.holds.drop (hold + 1) := by
      rw [← there]
      simp
    have erased : s.holds.eraseIdx hold = s.holds.take hold ++ s.holds.drop (hold + 1) := List.eraseIdx_eq_take_drop_succ ..
    have pins : s.pins = h.page ::ₘ ((s.holds.eraseIdx hold).map Hold.page : Multiset PageId) := by
      rw [Holders.pins,erased,Multiset.cons_coe]
      refine Multiset.coe_eq_coe.mpr ?_
      conv_lhs => rw [split]
      simp
    have old : ∀ g ∈ s.holds.eraseIdx hold, g ∈ s.holds := fun g there => List.mem_of_mem_eraseIdx there
    rw [pins] at consistent
    obtain ⟨f,b',step,unpinned,accounts'⟩ := unpinPage_held consistent.accounts isDirty
    have stays : ∀ g ∈ s.holds, g.wrote = true → g ∈ s.holds.eraseIdx hold ∨ g.page = h.page ∧ isDirty = true := by
      intro g there marked
      rw [split] at there
      rw [erased]
      rcases List.mem_append.mp there with early | late
      · exact .inl (List.mem_append.mpr (.inl early))
      · rcases List.mem_cons.mp late with rfl | later
        · exact .inr ⟨rfl,marks g here marked⟩
        · exact .inl (List.mem_append.mpr (.inr later))
    rw [step]
    refine ⟨⟨fun q => exempt q ∧ (q = h.page → isDirty = false ∨ ∃ g ∈ s.holds.eraseIdx hold, g.page = q ∧ g.wrote = true),l,
      ⟨?_,fun g there => ?_,fun q free => ?_,fun q there => ?_,fun g there => inOrder.held g (old g there),fun q exempted => ?_,
        fun q data written => ?_⟩,fun q _ exempted => .inl exempted.1,fun q there new => absurd there new⟩,fun q _ _ _ _ => ?_,fun g there => ?_⟩
    · refine unpinned_consistent consistent unpinned accounts' (fun q other old => ⟨old,fun same => absurd same other⟩) ?_
      exact fun clean old => ⟨old,fun _ => .inl clean⟩
    · rw [unpinned.pageTable]
      exact inOrder.bound g (old g there)
    · rw [unpinned.pageTable]
      exact inOrder.uncached q free
    · rw [unpinned.disk]
      exact inOrder.owned q there
    · rcases inOrder.only q exempted.1 with ⟨g,there,rfl,marked⟩ | none
      · rcases stays g there marked with still | ⟨page,dirty⟩
        · exact .inl ⟨g,still,rfl,marked⟩
        · rcases exempted.2 page with clean | another
          · rw [dirty] at clean
            cases clean
          · exact .inl another
      · exact .inr none
    · rw [unpinned_current unpinned]
      exact inOrder.shows q data written
    · rw [unpinned_current unpinned]
    · rw [unpinned.pageTable]
      exact ⟨inOrder.bound g there,inOrder.held g there⟩
  · cases moved

theorem flushed_inOrder (inOrder : InOrder s exempt l) (flushed : Flushed s.pool p f b') (accounts' : Accounts b' s.pins) :
    InOrder { s with pool := b' } exempt l := by
  refine ⟨flushed_consistent inOrder.consistent flushed accounts',fun h there => ?_,fun q free => ?_,fun q there => ?_,inOrder.held,
    inOrder.only,fun q data written => ?_⟩
  · rw [flushed.pageTable]
    exact inOrder.bound h there
  · rw [flushed.pageTable]
    exact inOrder.uncached q free
  · obtain ⟨positive,inFile,notFree⟩ := inOrder.owned q there
    exact ⟨positive,flushed.numPages.symm ▸ inFile,notFree⟩
  · rw [flushed_current flushed]
    exact inOrder.shows q data written

/-- The pages of a list are written to the file. -/
structure Written (b : BufferPoolManager) (order : List PageId) (b' : BufferPoolManager) : Prop where
  pageTable : b'.pageTable = b.pageTable
  current : current b' = current b
  clean : ∀ p f, b.pageTable p = some f → (p ∈ order ∨ (b.pages f).isDirty = false) → (b'.pages f).isDirty = false

theorem flushAllPages_inOrder : ∀ {s : Holders} (order : List PageId), InOrder s exempt l →
    InOrder { s with pool := (s.pool.flushAllPages order).2 } exempt l ∧ Written s.pool order (s.pool.flushAllPages order).2
  | s, [], inOrder => ⟨inOrder,rfl,rfl,fun _ _ _ clean => clean.resolve_left List.not_mem_nil⟩
  | s, p :: rest, inOrder => by
    cases here : s.pool.pageTable p with
    | none =>
      simp only [BufferPoolManager.flushAllPages,here]
      obtain ⟨inOrder',written⟩ := flushAllPages_inOrder rest inOrder
      refine ⟨inOrder',written.pageTable,written.current,fun q f there clean => written.clean q f there ?_⟩
      refine clean.imp_left (fun member => (List.mem_cons.mp member).resolve_left ?_)
      rintro rfl
      rw [here] at there
      cases there
    | some f =>
      obtain ⟨b',step,flushed,accounts'⟩ := flushFrame_spec inOrder.consistent.accounts here (inOrder.consistent.low p f here)
      simp only [BufferPoolManager.flushAllPages,here,step]
      obtain ⟨inOrder',written⟩ := flushAllPages_inOrder rest (flushed_inOrder inOrder flushed accounts')
      refine ⟨inOrder',written.pageTable.trans flushed.pageTable,written.current.trans (flushed_current flushed),fun q g there clean => ?_⟩
      refine written.clean q g (flushed.pageTable ▸ there) ?_
      show q ∈ rest ∨ (b'.pages g).isDirty = false
      rw [flushed.pages]
      by_cases same : g = f
      · subst same
        exact .inr (by simp)
      · rw [Function.update_of_ne same]
        refine clean.imp_left (fun member => (List.mem_cons.mp member).resolve_left ?_)
        rintro rfl
        exact same (Option.some.inj (there.symm.trans here))

theorem flushPage_keeps (inOrder : InOrder s exempt l) (moved : s.next (.flushPage p) = some s') : Keeps s (.flushPage p) s' exempt := by
  obtain rfl := Option.some.inj moved
  cases here : s.pool.pageTable p with
  | none =>
    simp only [BufferPoolManager.flushPage,here]
    exact keeps_same inOrder inOrder rfl rfl
  | some f =>
    obtain ⟨b',step,flushed,accounts'⟩ := flushFrame_spec inOrder.consistent.accounts here (inOrder.consistent.low p f here)
    simp only [BufferPoolManager.flushPage,here,step]
    exact keeps_same inOrder (flushed_inOrder inOrder flushed accounts') flushed.pageTable (flushed_current flushed)

theorem deletePage_keeps (inOrder : InOrder s exempt l) (member : p ∈ s.live) (moved : s.next (.deletePage p) = some s') :
    Keeps s (.deletePage p) s' exempt := by
  have own := inOrder.owned p member
  rcases deletePage_cases inOrder.consistent.accounts p with ⟨_,step⟩ | ⟨free,b',step,deleted,accounts'⟩
  · simp only [Holders.next,step] at moved
    obtain rfl := Option.some.inj moved
    exact keeps_same inOrder inOrder rfl rfl
  · simp only [Holders.next,step] at moved
    obtain rfl := Option.some.inj moved
    obtain ⟨consistent',count⟩ := deleted_inside inOrder.consistent deleted accounts' own.positive own.inFile own.notFree
    have other : ∀ h ∈ s.holds, h.page ≠ p := by
      rintro h there rfl
      exact free (mem_pins there)
    have same : ∀ q ∈ s.live, q ≠ p → current b' q = current s.pool q :=
      fun q there apart => deleted_current deleted (pos_ne (inOrder.owned q there).positive) apart
    refine ⟨⟨exempt,p :: l,⟨consistent',fun h there => ?_,fun q free => ?_,fun q there => ?_,fun h there => ?_,fun q old => ?_,
      fun q data written => ?_⟩,fun _ _ old => .inl old,fun q there new => absurd (List.mem_filter.mp there).1 new⟩,
      fun q there _ kept _ => same q there (of_decide_eq_true (List.mem_filter.mp kept).2),fun h there => ⟨?_,?_⟩⟩
    · exact deleted.bound (other h there) (inOrder.bound h there)
    · cases here : b'.pageTable q with
      | none => rfl
      | some g =>
        obtain ⟨before,apart⟩ := (deleted.table q g).mp here
        rw [inOrder.uncached q ((List.mem_cons.mp free).resolve_left apart)] at before
        cases before
    · obtain ⟨old,apart⟩ := List.mem_filter.mp there
      obtain ⟨positive,inFile,notFree⟩ := inOrder.owned q old
      exact ⟨positive,count ▸ inFile,by simpa using ⟨of_decide_eq_true apart,notFree⟩⟩
    · exact List.mem_filter.mpr ⟨inOrder.held h there,decide_eq_true (other h there)⟩
    · refine (inOrder.only q old).imp_right (fun none => ?_)
      by_cases gone : q = p
      · subst gone
        exact Function.update_self ..
      · exact (Function.update_of_ne gone ..).trans none
    · by_cases gone : q = p
      · subst gone
        simp at written
      · have written : s.written q = some data := by simpa [Function.update_of_ne gone] using written
        obtain ⟨there,bytes⟩ := inOrder.shows q data written
        exact ⟨List.mem_filter.mpr ⟨there,decide_eq_true gone⟩,(same q there gone).trans bytes⟩
    · exact deleted.bound (other h there) (inOrder.bound h there)
    · exact List.mem_filter.mpr ⟨inOrder.held h there,decide_eq_true (other h there)⟩

/-- Every move of honest holders keeps the pool in order. -/
theorem next_keeps (inOrder : InOrder s exempt l) (honest : s.Honest m) (within : s.GrowsWithin m) (moved : s.next m = some s') :
    Keeps s m s' exempt := by
  cases m with
  | newPage => exact newPage_keeps inOrder within moved
  | fetchPage p => exact fetchPage_keeps inOrder honest moved
  | write hold data => exact write_keeps inOrder moved
  | unpinPage hold isDirty => exact unpinPage_keeps inOrder honest moved
  | flushPage p => exact flushPage_keeps inOrder moved
  | flushAllPages order =>
    obtain rfl := Option.some.inj moved
    obtain ⟨inOrder',written⟩ := flushAllPages_inOrder order inOrder
    exact keeps_same inOrder inOrder' written.pageTable written.current
  | deletePage p => exact deletePage_keeps inOrder honest moved

/-- The moves of honest holders in a file that does not grow past its largest size. -/
def Bounded (s : Holders) (m : Move) : Prop := s.Honest m ∧ s.GrowsWithin m

theorem runs_inOrder {disk : DiskManager} {replacer : Replacer} (fresh : Fresh n replacer) (free : FreeList disk l)
    (runs : Runs Holders.next Bounded (.start (.create n disk replacer)) s) : ∃ exempt l, InOrder s exempt l := by
  refine runs.invariant (fun s => ∃ exempt l, InOrder s exempt l) ⟨_,l,start_inOrder fresh free⟩ ?_
  rintro s m s' ⟨exempt,l,inOrder⟩ ⟨honest,within⟩ moved
  obtain ⟨exempt',l',inOrder',_⟩ := (next_keeps inOrder honest within moved).inOrder
  exact ⟨exempt',l',inOrder'⟩

/-- The bytes of a frame that is held stay, unless a holder writes. -/
theorem InOrder.bytes (inOrder : InOrder s exempt l) (honest : s.Honest m) (within : s.GrowsWithin m)
    (pool : ∀ hold data, m ≠ .write hold data) (moved : s.next m = some s') (member : h ∈ s.holds) :
    (s'.pool.pages h.frame).data = (s.pool.pages h.frame).data := by
  have keeps := next_keeps inOrder honest within moved
  obtain ⟨bound,live⟩ := keeps.bound h member
  rw [← current_cached bound,← current_cached (inOrder.bound h member)]
  refine keeps.current h.page (inOrder.held h member) ?_ live (fun _ => by rw [bound]; simp)
  rintro ⟨hold,data,_,same,_⟩
  exact pool hold data same

/-- Once everything is flushed and nothing is held, the file has what was written. -/
theorem InOrder.stored {order : List PageId} (inOrder : InOrder s exempt l) (nobody : s.holds = [])
    (all : s.Honest (.flushAllPages order)) (moved : s.next (.flushAllPages order) = some s') (written : s.written p = some data) :
    s'.pool.disk.readPage p = .ok data := by
  obtain rfl := Option.some.inj moved
  obtain ⟨inOrder',flushed⟩ := flushAllPages_inOrder order inOrder
  obtain ⟨live,bytes⟩ := inOrder'.shows p data written
  obtain ⟨positive,inFile,_⟩ := inOrder'.owned p live
  have fixed : ¬ exempt p := by
    intro old
    rcases inOrder.only p old with ⟨h,there,_⟩ | none
    · rw [nobody] at there
      cases there
    · rw [none] at written
      cases written
  have stored : (s.pool.flushAllPages order).2.disk.dbIo.page p = data := by
    cases here : s.pool.pageTable p with
    | none => rwa [current_uncached (flushed.pageTable ▸ here)] at bytes
    | some f =>
      have clean := flushed.clean p f here (.inl ((all p).mpr (by simp [here])))
      rw [current_cached (flushed.pageTable ▸ here)] at bytes
      rw [← inOrder'.consistent.synced p f (flushed.pageTable ▸ here) (pos_ne positive) clean fixed]
      exact bytes
  have length := inOrder'.consistent.free.length
  have inside : p.toNat < (s.pool.flushAllPages order).2.disk.dbIo.length := by
    rw [length]
    exact UInt32.lt_iff_toNat_lt.mp inFile
  rw [DiskManager.readPage,if_neg (UInt32.not_le.mpr inFile),DbFile.read,if_pos inside,stored]
  rfl

/-- The pool is transparent to honest holders, as long as the file does not grow
    past its largest size. -/
theorem pool_is_transparent {disk : DiskManager} {replacer : Replacer} (fresh : Fresh n replacer) (free : FreeList disk l)
    (runs : Runs Holders.next Bounded (.start (.create n disk replacer)) s) : Transparent s := by
  obtain ⟨exempt,l',inOrder⟩ := runs_inOrder fresh free runs
  have accounts := inOrder.consistent.accounts
  refine ⟨fun h member => ?_,fun m s' honest within pool moved h member => inOrder.bytes honest within pool moved member,
    fun p member data written f b step => ?_,fun nobody order s' all moved p data written => inOrder.stored nobody all moved written⟩
  · exact ⟨inOrder.bound h member,(accounts.mapped _ _ (inOrder.bound h member)).2⟩
  · obtain ⟨_,bytes⟩ := inOrder.shows p data written
    rcases fetchPage_cases accounts p with ⟨f',b',fetch,fetched,_⟩ | ⟨_,fetch⟩ | ⟨_,_,_,_,_,outside,_⟩ | ⟨_,_,_,_,_,stuck⟩
    · rw [fetch] at step
      cases step
      rw [fetched.bytes inOrder.consistent.long,bytes]
    · rw [fetch] at step
      cases step
    · exact absurd (inOrder.owned p member).inFile (UInt32.not_lt.mpr outside)
    · exact absurd stuck inOrder.consistent.notStuck

/-- A holder writes a new page in a pool of one frame. -/
theorem pool_is_transparent_one : ∃ s : Holders, s.written 1 = some (fun _ => 7) ∧ Transparent s := by
  obtain ⟨s,along,written⟩ : ∃ s, Along Holders.next Bounded (.start (.create 1 .create (.lru (.create 1))))
      [.newPage,.write 0 (fun _ => 7),.unpinPage 0 true] s ∧ s.written 1 = some (fun _ => 7) :=
    ⟨_,⟨⟨trivial,fun _ _ => by decide⟩,_,rfl,⟨trivial,trivial⟩,_,rfl,⟨fun _ _ _ => rfl,trivial⟩,_,rfl,rfl⟩,rfl⟩
  exact ⟨s,written,pool_is_transparent (.inl rfl) create_freeList (runs_of_along along)⟩

/-! ### New pages -/

/-- The move does not write to the page and does not delete it. -/
def LeavesAlone (p : PageId) (s : Holders) (m : Move) : Prop := ¬ Writes s m p ∧ m ≠ .deletePage p

theorem live_kept (live : p ∈ s.live) (kept : m ≠ .deletePage p) (moved : s.next m = some s') : p ∈ s'.live := by
  cases m with
  | newPage =>
    rw [Holders.next] at moved
    split at moved <;> obtain rfl := Option.some.inj moved
    · exact List.mem_cons_of_mem _ live
    · exact live
  | fetchPage q =>
    rw [Holders.next] at moved
    split at moved <;> obtain rfl := Option.some.inj moved <;> exact live
  | deletePage q =>
    rw [Holders.next] at moved
    split at moved <;> obtain rfl := Option.some.inj moved
    · exact List.mem_filter.mpr ⟨live,decide_eq_true (fun same => kept (same ▸ rfl))⟩
    · exact live
  | flushPage q => obtain rfl := Option.some.inj moved; exact live
  | flushAllPages order => obtain rfl := Option.some.inj moved; exact live
  | _ =>
    rw [Holders.next] at moved
    split at moved
    · obtain rfl := Option.some.inj moved; exact live
    · cases moved

/-- A new page belongs to nobody else and is all zeros. -/
theorem newPage_fresh (inOrder : InOrder s exempt l) (within : s.GrowsWithin .newPage)
    (given : s.pool.newPage = (.ok (some (p,f)),b)) : p ∉ s.live ∧ current b p = Block.zeros _ := by
  have consistent := inOrder.consistent
  rcases newPage_cases consistent.accounts (consistent.handsOut inOrder.uncached) with ⟨p',f',b',step,created,accounts'⟩ | ⟨_,step⟩ |
    ⟨_,_,_,step,_⟩ | ⟨_,_,_,step,_⟩
  · rw [step] at given
    cases given
    obtain ⟨b₁,selected,_⟩ := created.allocated
    obtain ⟨l',_,granted⟩ := created_consistent (fun _ => True) consistent created accounts'
      (fun empty => within (by simp [selected.replacement]) ((chain_nil_iff consistent.free.chain).mp empty)) (fun _ _ => trivial)
    exact ⟨fun old => granted.apart (inOrder.owned p old) rfl,created_zeros created⟩
  all_goals
    rw [step] at given
    cases given

/-- The page is live and reads as zeros as long as it is in the pool, and also when
    it is not if it comes from the end of the file. -/
def Blank (p : PageId) (grown : Prop) (t : Holders) : Prop :=
  ∃ exempt l, InOrder t exempt l ∧ p ∈ t.live ∧ (grown → ¬ exempt p) ∧
    (grown ∨ t.pool.pageTable p ≠ none → current t.pool p = Block.zeros _)

theorem next_blank {grown : Prop} (blank : Blank p grown s) (bounded : Bounded s m) (alone : LeavesAlone p s m)
    (stays : grown ∨ s.pool.pageTable p ≠ none) (moved : s.next m = some s') : Blank p grown s' := by
  obtain ⟨exempt,l,inOrder,live,fixed,zeros⟩ := blank
  have keeps := next_keeps inOrder bounded.1 bounded.2 moved
  obtain ⟨exempt',l',inOrder',kept,_⟩ := keeps.inOrder
  have live' := live_kept live alone.2 moved
  refine ⟨exempt',l',inOrder',live',fun yes exempted => ?_,fun cached => ?_⟩
  · rcases kept p live exempted with old | writes
    · exact fixed yes old
    · exact alone.1 writes
  · rw [← zeros stays]
    refine keeps.current p live alone.1 live' (fun old => ?_)
    rcases cached with yes | here
    · exact absurd old (fixed yes)
    · exact here

/-- A new page reads as zeros until it is written, if it comes from the end of the
    file or does not leave the pool. -/
theorem new_page_reads_zeros {disk : DiskManager} {replacer : Replacer} {s₁ s₂ : Holders} {g : FrameId} {b₂ : BufferPoolManager}
    (fresh : Fresh n replacer) (free : FreeList disk l)
    (before : Runs Holders.next Bounded (.start (.create n disk replacer)) s) (bounded : Bounded s .newPage)
    (given : s.pool.newPage = (.ok (some (p,f)),b)) (moved : s.next .newPage = some s₁)
    (runs : Runs Holders.next (fun t m => Bounded t m ∧ LeavesAlone p t m ∧
      (s.pool.disk.freeListHead = INVALID_PAGE_ID ∨ t.pool.pageTable p ≠ none)) s₁ s₂)
    (last : s.pool.disk.freeListHead = INVALID_PAGE_ID ∨ s₂.pool.pageTable p ≠ none)
    (fetch : s₂.pool.fetchPage p = (.ok (some g),b₂)) : (b₂.pages g).data = Block.zeros _ := by
  obtain ⟨exempt,l₀,inOrder⟩ := runs_inOrder fresh free before
  obtain ⟨new,zeros⟩ := newPage_fresh inOrder bounded.2 given
  have blank : Blank p (s.pool.disk.freeListHead = INVALID_PAGE_ID) s₁ := by
    obtain ⟨exempt',l',inOrder',_,notExempt⟩ := (next_keeps inOrder bounded.1 bounded.2 moved).inOrder
    simp only [Holders.next,given] at moved
    obtain rfl := Option.some.inj moved
    exact ⟨exempt',l',inOrder',List.mem_cons_self,notExempt p List.mem_cons_self new,fun _ => zeros⟩
  have later : Blank p (s.pool.disk.freeListHead = INVALID_PAGE_ID) s₂ :=
    runs.invariant _ blank (fun t m t' blank ⟨bounded,alone,stays⟩ moved => next_blank blank bounded alone stays moved)
  obtain ⟨_,_,inOrder₂,live,_,zeros₂⟩ := later
  rcases fetchPage_cases inOrder₂.consistent.accounts p with ⟨f',b',step,fetched,_⟩ | ⟨_,step⟩ | ⟨_,_,_,_,_,outside,_⟩ | ⟨_,_,_,_,_,stuck⟩
  · rw [step] at fetch
    cases fetch
    rw [fetched.bytes inOrder₂.consistent.long,zeros₂ last]
  · rw [step] at fetch
    cases fetch
  · exact absurd (inOrder₂.owned p live).inFile (UInt32.not_lt.mpr outside)
  · exact absurd stuck inOrder₂.consistent.notStuck

/-- The first new page of a file is evicted and fetched again. -/
theorem new_page_reads_zeros_first : ∃ (s : Holders) (g : FrameId) (b : BufferPoolManager),
    s.live = [2,1] ∧ s.pool.pageTable 1 = none ∧ s.pool.fetchPage 1 = (.ok (some g),b) ∧ (b.pages g).data = Block.zeros _ := by
  obtain ⟨s₁,s₂,g,b,b₂,given,moved,along,live,gone,fetch⟩ : ∃ (s₁ s₂ : Holders) (g : FrameId) (b b₂ : BufferPoolManager),
      (Holders.start (.create 1 .create (.lru (.create 1)))).pool.newPage = (.ok (some (1,0)),b) ∧
      (Holders.start (.create 1 .create (.lru (.create 1)))).next .newPage = some s₁ ∧
      Along Holders.next (fun t m => Bounded t m ∧ LeavesAlone 1 t m ∧
          ((Holders.start (.create 1 .create (.lru (.create 1)))).pool.disk.freeListHead = INVALID_PAGE_ID ∨ t.pool.pageTable 1 ≠ none)) s₁
        [.unpinPage 0 false,.newPage,.unpinPage 0 false] s₂ ∧
      s₂.live = [2,1] ∧ s₂.pool.pageTable 1 = none ∧ s₂.pool.fetchPage 1 = (.ok (some g),b₂) :=
    ⟨_,_,0,_,_,rfl,rfl,⟨⟨⟨fun h here => by cases here; nofun,trivial⟩,⟨nofun,nofun⟩,.inl rfl⟩,_,rfl,
      ⟨⟨trivial,fun _ _ => by decide⟩,⟨nofun,nofun⟩,.inl rfl⟩,_,rfl,
      ⟨⟨fun h here => by cases here; nofun,trivial⟩,⟨nofun,nofun⟩,.inl rfl⟩,_,rfl,rfl⟩,rfl,by decide +kernel,rfl⟩
  exact ⟨s₂,g,b₂,live,gone,fetch,new_page_reads_zeros (.inl rfl) create_freeList .refl ⟨trivial,fun _ _ => by decide⟩ given moved
    (runs_of_along along) (.inl rfl) fetch⟩

/-- A new page that comes from the free list does not read as zeros once it has
    left the pool, but as the link that is still in the file. -/
theorem recycled_page_reads_link : ∃ (s s₁ s₂ : Holders) (f g : FrameId) (b b₂ : BufferPoolManager),
    Runs Holders.next Bounded (.start (.create 1 .create (.lru (.create 1)))) s ∧
    s.pool.newPage = (.ok (some (1,f)),b) ∧ s.next .newPage = some s₁ ∧
    Runs Holders.next (fun t m => Bounded t m ∧ LeavesAlone 1 t m) s₁ s₂ ∧
    s₂.pool.fetchPage 1 = (.ok (some g),b₂) ∧ (b₂.pages g).data ≠ Block.zeros _ := by
  obtain ⟨s,s₁,s₂,g,b,b₂,before,given,moved,along,fetch,byte⟩ : ∃ (s s₁ s₂ : Holders) (g : FrameId) (b b₂ : BufferPoolManager),
      Along Holders.next Bounded (.start (.create 1 .create (.lru (.create 1)))) [.newPage,.unpinPage 0 false,.deletePage 1] s ∧
      s.pool.newPage = (.ok (some (1,0)),b) ∧ s.next .newPage = some s₁ ∧
      Along Holders.next (fun t m => Bounded t m ∧ LeavesAlone 1 t m) s₁ [.unpinPage 0 false,.newPage,.unpinPage 0 false] s₂ ∧
      s₂.pool.fetchPage 1 = (.ok (some g),b₂) ∧ (b₂.pages g).data.byte 0 = 255 :=
    ⟨_,_,_,0,_,_,⟨⟨trivial,fun _ _ => by decide⟩,_,rfl,⟨fun h here => by cases here; nofun,trivial⟩,_,rfl,
      ⟨List.mem_singleton_self 1,trivial⟩,_,rfl,rfl⟩,rfl,rfl,
      ⟨⟨⟨fun h here => by cases here; nofun,trivial⟩,nofun,nofun⟩,_,rfl,⟨⟨trivial,fun _ _ => by decide +kernel⟩,nofun,nofun⟩,_,rfl,
        ⟨⟨fun h here => by cases here; nofun,trivial⟩,nofun,nofun⟩,_,rfl,rfl⟩,rfl,by decide +kernel⟩
  refine ⟨s,s₁,s₂,0,g,b,b₂,runs_of_along before,given,moved,runs_of_along along,fetch,fun zeros => ?_⟩
  rw [zeros] at byte
  exact absurd byte (by decide +kernel)

end

/-! ### The largest file -/

/-- A file with as many pages as there can be, none of them free. -/
def largest : DiskManager :=
  { dbIo := { length := 4294967295, page := fun _ => Block.zeros _ }, freeListHead := INVALID_PAGE_ID, numPages := 0xFFFFFFFF }

/-- Some bytes. -/
def sample : PageData := fun _ => 255

/-- It is a file that the disk manager can have written. -/
theorem largest_freeList : FreeList largest [] :=
  ⟨rfl,List.nodup_nil,by simp,rfl,by decide⟩

/-- The second new page of the largest file is page 0, and what is written to it is
    lost under the metadata that is written when the next page is allocated. -/
theorem wrapped_page_is_overwritten : ∃ s : Holders,
    Runs Holders.next Holders.Honest (.start (.create 1 largest (.lru (.create 1)))) s ∧
      0 ∈ s.live ∧ s.written 0 = some sample ∧ ¬ Transparent s := by
  obtain ⟨s,f,b,along,live,written,fetched,byte⟩ : ∃ (s : Holders) (f : FrameId) (b : BufferPoolManager),
      Along Holders.next Holders.Honest (.start (.create 1 largest (.lru (.create 1))))
        [.newPage,.unpinPage 0 false,.newPage,.write 0 sample,.unpinPage 0 true,.newPage,.unpinPage 0 false] s ∧
      0 ∈ s.live ∧ s.written 0 = some sample ∧ s.pool.fetchPage 0 = (.ok (some f),b) ∧ (b.pages f).data.byte 5 = 0 :=
    ⟨_,0,_,⟨trivial,_,rfl,fun h here => by cases here; nofun,_,rfl,trivial,_,rfl,trivial,_,rfl,fun _ _ _ => rfl,_,rfl,
      trivial,_,rfl,fun h here => by cases here; nofun,_,rfl,rfl⟩,by decide +kernel,rfl,rfl,by decide +kernel⟩
  refine ⟨s,runs_of_along along,live,written,fun transparent => ?_⟩
  rw [transparent.fetched 0 live sample written f b fetched] at byte
  exact absurd byte (by decide +kernel)

end Aether.PoolHolders
