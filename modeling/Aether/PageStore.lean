import Aether.Programs
import Aether.Types
import Mathlib.Algebra.BigOperators.Group.Multiset.Basic
import Mathlib.Order.Interval.Finset.Nat
import Mathlib.Tactic.Tauto

/-!
The buffer pool as its clients see it: a flat store of pages. Every allocated
page holds the bytes last written to it, a page is accessible while it is
pinned, `newPage` takes the most recently freed id or the next one at the end
of the file, and `deletePage` refuses a pinned page. Which calls return a null
page because no frame is left is up to the `script`.
-/
namespace Aether.PageStore
open Aether.Programs Aether.Types

/-- What stops a client: dereferencing a null page or one it has not pinned,
    a page that is not allocated, an access outside an array of a page, a page
    of the wrong type, or a loop cut off by its bound. -/
inductive Fault
  | nullPage
  | notPinned
  | noSuchPage
  | outOfBounds
  | wrongPageType
  | outOfFuel
  deriving DecidableEq, Repr

/-- The calls of `BufferPoolManager` and the accesses through a `Page *`,
    which is named by the id of the page it is bound to; a null page is `none`. -/
inductive PoolOp (D : Type) : Type → Type
  | fetchPage (pageId : PageId) : PoolOp D (Option PageId)
  | newPage : PoolOp D (Option PageId)
  | unpinPage (pageId : PageId) (isDirty : Bool) : PoolOp D Bool
  | deletePage (pageId : PageId) : PoolOp D Bool
  | getData (page : PageId) : PoolOp D D
  | setData (page : PageId) (data : D) : PoolOp D Unit

/-- A client of the pool. -/
abbrev Client (D : Type) := Prog Fault (PoolOp D)

section
variable {D : Type}

def fetchPage (pageId : PageId) : Client D (Option PageId) := Prog.perform (.fetchPage pageId)
def newPage : Client D (Option PageId) := Prog.perform .newPage
def unpinPage (pageId : PageId) (isDirty : Bool) : Client D Bool := Prog.perform (.unpinPage pageId isDirty)
def deletePage (pageId : PageId) : Client D Bool := Prog.perform (.deletePage pageId)
def getData (page : PageId) : Client D D := Prog.perform (.getData page)
def setData (page : PageId) (data : D) : Client D Unit := Prog.perform (.setData page data)

/-- The use of a `Page *` without a check that it is not null. -/
def deref (page : Option PageId) : Client D PageId := Prog.ofOption .nullPage page

end

/-- The pages, the pins on them (a page occurs once for each), the pages marked
    dirty, the disk free list, most recent first, and the number of pages. The
    next call of `fetchPage` or `newPage` returns null when `script` says so. -/
structure Store (D : Type) where
  data : PageId → Option D
  pins : Multiset PageId
  dirty : PageId → Bool
  free : List PageId
  numPages : PageId
  script : List Bool

/-- The store over a new database file, whose only page is page 0. -/
def Store.empty (D : Type) : Store D :=
  { data := fun _ => none, pins := 0, dirty := fun _ => false, free := [], numPages := 1, script := [] }

/-- `s` after `newPage` has handed out `p`. -/
def Store.created {D : Type} (s : Store D) (blank : D) (p : PageId) : Store D :=
  { s with data := Function.update s.data p (some blank), pins := p ::ₘ s.pins,
           dirty := Function.update s.dirty p false, script := s.script.tail }

/-- The meaning of a call. `blank` is the content of a page of zeros. -/
def exec {D : Type} (blank : D) {β : Type} : PoolOp D β → Store D → Except Fault (β × Store D)
  | .fetchPage p, s =>
    if p = INVALID_PAGE_ID then .ok (none,s)
    else if s.script.headD false then .ok (none,{ s with script := s.script.tail })
    else match s.data p with
      | none => .error .noSuchPage
      | some _ => .ok (some p,{ s with pins := p ::ₘ s.pins, script := s.script.tail })
  | .newPage, s =>
    if s.script.headD false then .ok (none,{ s with script := s.script.tail })
    else match s.free with
      | p :: rest => .ok (some p,{ s.created blank p with free := rest })
      | [] =>
        if s.numPages = INVALID_PAGE_ID then .ok (none,{ s with script := s.script.tail })
        else .ok (some s.numPages,{ s.created blank s.numPages with numPages := s.numPages + 1 })
  | .unpinPage p isDirty, s =>
    if p ∈ s.pins then
      .ok (true,{ s with pins := s.pins.erase p,
                         dirty := if isDirty then Function.update s.dirty p true else s.dirty })
    else .ok (false,s)
  | .deletePage p, s =>
    if p ∈ s.pins then .ok (false,s)
    else match s.data p with
      | none => .error .noSuchPage
      | some _ => .ok (true,{ s with data := Function.update s.data p none,
                                     dirty := Function.update s.dirty p false, free := p :: s.free })
  | .getData p, s =>
    if p ∈ s.pins then
      match s.data p with
      | none => .error .noSuchPage
      | some d => .ok (d,s)
    else .error .notPinned
  | .setData p d, s =>
    if p ∈ s.pins then .ok ((),{ s with data := Function.update s.data p (some d) })
    else .error .notPinned

/-! ### Reading -/

section
variable {D : Type} {blank : D} {s s' : Store D} {p : PageId}

theorem exec_getData {d : D} (read : exec blank (.getData p) s = .ok (d,s')) : s.data p = some d ∧ s' = s := by
  simp only [exec] at read
  split_ifs at read
  · cases stored : s.data p with
    | none => simp [stored] at read
    | some d' =>
      rw [stored] at read
      cases read
      exact ⟨rfl,rfl⟩

theorem exec_setData {d : D} (wrote : exec blank (.setData p d) s = .ok ((),s')) :
    p ∈ s.pins ∧ s' = { s with data := Function.update s.data p (some d) } := by
  simp only [exec] at wrote
  split_ifs at wrote with pinned
  cases wrote
  exact ⟨pinned,rfl⟩

/-- A fetch returns null or pins the page. -/
theorem exec_fetchPage {page : Option PageId} (fetched : exec blank (.fetchPage p) s = .ok (page,s')) :
    (page = none ∧ ∃ script, s' = { s with script }) ∨
      (page = some p ∧ s.data p ≠ none ∧ s' = { s with pins := p ::ₘ s.pins, script := s.script.tail }) := by
  simp only [exec] at fetched
  split_ifs at fetched
  · cases fetched
    exact .inl ⟨rfl,_,rfl⟩
  · cases fetched
    exact .inl ⟨rfl,_,rfl⟩
  · cases stored : s.data p with
    | none => simp [stored] at fetched
    | some d =>
      rw [stored] at fetched
      cases fetched
      exact .inr ⟨rfl,Option.some_ne_none d,rfl⟩

theorem exec_unpinPage {isDirty done : Bool} (unpinned : exec blank (.unpinPage p isDirty) s = .ok (done,s')) :
    ∃ dirty, s' = { s with pins := s.pins.erase p, dirty } := by
  simp only [exec] at unpinned
  split_ifs at unpinned with pinned
  all_goals cases unpinned
  · exact ⟨_,rfl⟩
  · exact ⟨_,rfl⟩
  · exact ⟨s.dirty,by rw [Multiset.erase_of_notMem pinned]⟩

/-- A page is deleted unless it has a pin. -/
theorem exec_deletePage {done : Bool} (deleted : exec blank (.deletePage p) s = .ok (done,s')) :
    (done = false ∧ p ∈ s.pins ∧ s' = s) ∨
      (done = true ∧ p ∉ s.pins ∧ s.data p ≠ none ∧
        s' = { s with data := Function.update s.data p none, dirty := Function.update s.dirty p false, free := p :: s.free }) := by
  simp only [exec] at deleted
  split_ifs at deleted with pinned
  · cases deleted
    exact .inl ⟨rfl,pinned,rfl⟩
  · cases stored : s.data p with
    | none => simp [stored] at deleted
    | some d =>
      rw [stored] at deleted
      cases deleted
      exact .inr ⟨rfl,pinned,Option.some_ne_none d,rfl⟩

theorem run_getData {d : D} (ran : Prog.run (exec blank) (getData p) s = .ok (d,s')) : s.data p = some d ∧ s' = s := by
  rw [getData,Prog.run_perform] at ran
  exact exec_getData ran

theorem run_setData {d : D} (ran : Prog.run (exec blank) (setData p d) s = .ok ((),s')) :
    s'.data = Function.update s.data p (some d) := by
  rw [setData,Prog.run_perform] at ran
  obtain ⟨_,rfl⟩ := exec_setData ran
  rfl

theorem run_unpinPage {isDirty done : Bool} (ran : Prog.run (exec blank) (unpinPage p isDirty) s = .ok (done,s')) :
    s'.data = s.data := by
  rw [unpinPage,Prog.run_perform] at ran
  obtain ⟨dirty,rfl⟩ := exec_unpinPage ran
  rfl

theorem run_fetchPage {page : Option PageId} (ran : Prog.run (exec blank) (fetchPage p) s = .ok (page,s')) :
    s'.data = s.data ∧ ∀ q, page = some q → q = p := by
  rw [fetchPage,Prog.run_perform] at ran
  rcases exec_fetchPage ran with ⟨rfl,script,rfl⟩ | ⟨rfl,_,rfl⟩
  · exact ⟨rfl,fun q same => by cases same⟩
  · exact ⟨rfl,fun q same => (Option.some.inj same).symm⟩

end

/-- The pool has served a call: it did not return a null page. -/
def Granted {D β : Type} : PoolOp D β → β → Prop
  | .fetchPage _, page => page ≠ none
  | .newPage, page => page ≠ none
  | .unpinPage _ _, _ => True
  | .deletePage _, _ => True
  | .getData _, _ => True
  | .setData _ _, _ => True

instance {D : Type} : {β : Type} → (op : PoolOp D β) → (answer : β) → Decidable (Granted op answer)
  | _, .fetchPage _, page => inferInstanceAs (Decidable (page ≠ none))
  | _, .newPage, page => inferInstanceAs (Decidable (page ≠ none))
  | _, .unpinPage _ _, _ => isTrue trivial
  | _, .deletePage _, _ => isTrue trivial
  | _, .getData _, _ => isTrue trivial
  | _, .setData _ _, _ => isTrue trivial

/-- The pages of the file but page 0 are the allocated ones and the free ones. -/
structure WellFormed {D : Type} (s : Store D) : Prop where
  first : 0 < s.numPages
  distinct : s.free.Nodup
  partition : ∀ p, (0 < p ∧ p < s.numPages) ↔ (p ∈ s.free ∨ s.data p ≠ none)
  exclusive : ∀ p ∈ s.free, s.data p = none
  pinned : ∀ p ∈ s.pins, s.data p ≠ none

theorem empty_wellFormed (D : Type) : WellFormed (Store.empty D) where
  first := by simp [Store.empty]
  distinct := List.nodup_nil
  partition p := by
    simp only [Store.empty,List.not_mem_nil,ne_eq,not_true_eq_false,or_self,iff_false,not_and]
    intro positive below
    rw [UInt32.lt_iff_toNat_lt] at positive below
    simp at positive below
    omega
  exclusive p member := by simp [Store.empty] at member
  pinned p member := by simp [Store.empty] at member

/-! ### What keeps a store well formed -/

section
variable {D : Type} {s : Store D} {p : PageId}

/-- Changing the content of an allocated page. -/
theorem WellFormed.update (wf : WellFormed s) (stored : s.data p ≠ none) (d : D) :
    WellFormed { s with data := Function.update s.data p (some d) } := by
  have same : ∀ q, Function.update s.data p (some d) q ≠ none ↔ s.data q ≠ none := by
    intro q
    by_cases equal : q = p
    · subst equal; simp [stored]
    · simp [Function.update_of_ne equal]
  refine ⟨wf.first,wf.distinct,?_,?_,?_⟩
  · intro q; rw [wf.partition q]; simp only [same q]
  · intro q member
    have none := wf.exclusive q member
    by_contra some
    exact (same q).mp some none
  · intro q member
    exact (same q).mpr (wf.pinned q member)

/-- Pinning an allocated page. -/
theorem WellFormed.pin (wf : WellFormed s) (stored : s.data p ≠ none) (script : List Bool) :
    WellFormed { s with pins := p ::ₘ s.pins, script := script } := by
  refine ⟨wf.first,wf.distinct,wf.partition,wf.exclusive,?_⟩
  intro q pinned
  rcases Multiset.mem_cons.mp pinned with rfl | pinned
  · exact stored
  · exact wf.pinned q pinned

/-- Deleting an allocated page that nobody has pinned. -/
theorem WellFormed.delete (wf : WellFormed s) (stored : s.data p ≠ none) (unpinned : p ∉ s.pins) :
    WellFormed { s with data := Function.update s.data p none, dirty := Function.update s.dirty p false, free := p :: s.free } := by
  have live : ∀ r, Function.update s.data p none r ≠ none ↔ r ≠ p ∧ s.data r ≠ none := by
    intro r
    by_cases equal : r = p
    · subst equal; simp
    · simp [equal]
  refine ⟨wf.first,?_,?_,?_,?_⟩
  · exact List.nodup_cons.mpr ⟨fun member => stored (wf.exclusive p member),wf.distinct⟩
  · intro r
    show _ ↔ r ∈ p :: s.free ∨ Function.update s.data p none r ≠ none
    rw [live,wf.partition r,List.mem_cons]
    have : r = p → s.data r ≠ none := by rintro rfl; exact stored
    tauto
  · intro r member
    show Function.update s.data p none r = none
    rcases List.mem_cons.mp member with rfl | old
    · simp
    · by_cases equal : r = p
      · subst equal; simp
      · simpa [Function.update_of_ne equal] using wf.exclusive r old
  · intro r pinned
    have held := wf.pinned r pinned
    exact (live r).mpr ⟨fun equal => unpinned (equal ▸ pinned),held⟩

theorem invalid_unused (wf : WellFormed s) : s.data INVALID_PAGE_ID = none := by
  by_contra stored
  exact lt_invalid ((wf.partition INVALID_PAGE_ID).mpr (.inr stored)).2 rfl

/-- The file has more pages than are allocated. -/
theorem WellFormed.count {ids : List PageId} (wf : WellFormed s) (distinct : ids.Nodup) (stored : ∀ p ∈ ids, s.data p ≠ none) :
    ids.length < s.numPages.toNat := by
  have into : (ids.toFinset.image UInt32.toNat) ⊆ Finset.Ico 1 s.numPages.toNat := by
    intro k member
    obtain ⟨p,here,rfl⟩ := Finset.mem_image.mp member
    obtain ⟨above,below⟩ := (wf.partition p).mpr (.inr (stored p (List.mem_toFinset.mp here)))
    rw [UInt32.lt_iff_toNat_lt,UInt32.toNat_zero] at above
    rw [UInt32.lt_iff_toNat_lt] at below
    exact Finset.mem_Ico.mpr ⟨above,below⟩
  have count := Finset.card_le_card into
  rw [Finset.card_image_of_injective _ (fun _ _ => UInt32.toNat_inj.mp),List.toFinset_card_of_nodup distinct,
    Nat.card_Ico] at count
  have first := wf.first
  rw [UInt32.lt_iff_toNat_lt,UInt32.toNat_zero] at first
  omega

/-- What `newPage` does: it returns null for want of a frame or of a page id, or
    it hands out a page that was not allocated. -/
theorem exec_newPage (blank : D) (wf : WellFormed s) :
    (exec blank .newPage s = .ok (none,{ s with script := s.script.tail }) ∧
      (s.script.headD false = true ∨ s.free = [] ∧ s.numPages = INVALID_PAGE_ID)) ∨
    ∃ q rest count, exec blank .newPage s = .ok (some q,{ s.created blank q with free := rest, numPages := count }) ∧
      s.data q = none ∧ s.script.headD false = false ∧ ¬(s.free = [] ∧ s.numPages = INVALID_PAGE_ID) ∧
      WellFormed { s.created blank q with free := rest, numPages := count } := by
  have live : ∀ q r, (s.created blank q).data r ≠ none ↔ r = q ∨ s.data r ≠ none := by
    intro q r
    by_cases equal : r = q
    · subst equal; simp [Store.created]
    · simp [Store.created,equal]
  have stillPinned : ∀ q, ∀ r ∈ (s.created blank q).pins, (s.created blank q).data r ≠ none := by
    intro q r pinned
    rw [live]
    exact (Multiset.mem_cons.mp pinned).imp_right (wf.pinned r)
  by_cases null : s.script.headD false = true
  · exact .inl ⟨by simp only [exec,if_pos null],.inl null⟩
  · have served : s.script.headD false = false := by simpa using null
    simp only [exec,if_neg null]
    cases freeList : s.free with
    | cons q rest =>
      have inFree : q ∈ s.free := by simp [freeList]
      have distinct := wf.distinct
      rw [freeList,List.nodup_cons] at distinct
      refine .inr ⟨q,rest,s.numPages,rfl,wf.exclusive q inFree,served,by simp,wf.first,distinct.2,?_,?_,stillPinned q⟩
      · intro r
        show _ ↔ r ∈ rest ∨ (s.created blank q).data r ≠ none
        have before := wf.partition r
        rw [freeList,List.mem_cons] at before
        rw [live]
        refine before.trans ?_
        tauto
      · intro r member
        show (s.created blank q).data r = none
        have other : r ≠ q := fun equal => distinct.1 (equal ▸ member)
        have before := wf.exclusive r (by simp [freeList,member])
        simpa [Store.created,Function.update_of_ne other] using before
    | nil =>
      simp only
      split_ifs with full
      · exact .inl ⟨rfl,.inr ⟨trivial,full⟩⟩
      · have unused : s.data s.numPages = none := by
          by_contra stored
          have inFile := (wf.partition s.numPages).mpr (.inr stored)
          exact absurd inFile.2 (UInt32.lt_irrefl _)
        have grown : (0 : PageId) < s.numPages + 1 := (lt_succ_iff full).mpr (.inl wf.first)
        have shape : ({ s.created blank s.numPages with numPages := s.numPages + 1 } : Store D) =
            { s.created blank s.numPages with free := [], numPages := s.numPages + 1 } := by
          simp [Store.created,freeList]
        refine .inr ⟨s.numPages,[],s.numPages + 1,by rw [shape],unused,served,fun spent => full spent.2,
          grown,List.nodup_nil,?_,by simp,stillPinned _⟩
        intro r
        show _ ↔ r ∈ [] ∨ (s.created blank s.numPages).data r ≠ none
        have before := wf.partition r
        rw [freeList] at before
        rw [live]
        simp only [lt_succ_iff full,List.not_mem_nil,false_or] at before ⊢
        have positive := wf.first
        constructor
        · rintro ⟨above,below | same⟩
          · exact .inr (before.mp ⟨above,below⟩)
          · exact .inl same
        · rintro (rfl | stored)
          · exact ⟨positive,.inr rfl⟩
          · exact ⟨(before.mpr stored).1,.inl (before.mpr stored).2⟩

end

/-! ### Ownership

A mini separation logic: `Own` lists the allocated pages of a store with what
each of them shows, and the pins. The rules say what every call does to the
lists, in any frame. -/

section Ownership
variable {D V : Type} (blank : D) (shows : D → V → Prop)

/-- The allocated pages of the store are the listed ones, each showing its
    view, and the pins are those listed. -/
structure Own (s : Store D) (cells : Multiset (PageId × V)) (pins : Multiset PageId) : Prop where
  distinct : (cells.map Prod.fst).Nodup
  shown : ∀ c ∈ cells, ∃ d, s.data c.1 = some d ∧ shows d c.2
  covered : ∀ p, s.data p ≠ none → p ∈ cells.map Prod.fst
  pinsEq : s.pins = pins
  wellFormed : WellFormed s

variable {blank} {shows}
variable {s : Store D} {cells : Multiset (PageId × V)} {pins : Multiset PageId} {p : PageId} {v : V}

theorem Own.reorder {cells' : Multiset (PageId × V)} (own : Own shows s cells pins) (same : cells = cells') :
    Own shows s cells' pins := same ▸ own

theorem Own.repin {pins' : Multiset PageId} (own : Own shows s cells pins) (same : pins = pins') :
    Own shows s cells pins' := same ▸ own

theorem Own.allocated (own : Own shows s cells pins) (member : p ∈ cells.map Prod.fst) : s.data p ≠ none := by
  obtain ⟨c,inCells,rfl⟩ := Multiset.mem_map.mp member
  obtain ⟨d,stored,_⟩ := own.shown c inCells
  simp [stored]

theorem Own.ne_invalid (own : Own shows s cells pins) (member : p ∈ cells.map Prod.fst) :
    p ≠ INVALID_PAGE_ID := by
  have inFile := (own.wellFormed.partition p).mpr (.inr (own.allocated member))
  exact lt_invalid inFile.2

theorem Own.fresh (own : Own shows s ({(p,v)} + cells) pins) : p ∉ cells.map Prod.fst := by
  have distinct := own.distinct
  simp only [Multiset.singleton_add,Multiset.map_cons,Multiset.nodup_cons] at distinct
  exact distinct.1

/-- Changing what only the named page holds. -/
private theorem own_update {d : D} {v' : V} (own : Own shows s ({(p,v)} + cells) pins) (displayed : shows d v') :
    Own shows { s with data := Function.update s.data p (some d) } ({(p,v')} + cells) pins := by
  have fresh := own.fresh
  have live : s.data p ≠ none := own.allocated (by simp)
  have same : ∀ q, Function.update s.data p (some d) q ≠ none ↔ s.data q ≠ none := by
    intro q
    by_cases equal : q = p
    · subst equal; simp [live]
    · simp [Function.update_of_ne equal]
  refine ⟨by simpa using own.distinct,?_,?_,own.pinsEq,?_⟩
  · intro c member
    rcases Multiset.mem_add.mp member with here | there
    · rw [Multiset.mem_singleton.mp here]
      exact ⟨d,by simp,displayed⟩
    · obtain ⟨e,stored,shown⟩ := own.shown c (Multiset.mem_add.mpr (.inr there))
      refine ⟨e,?_,shown⟩
      have other : c.1 ≠ p := fun equal => fresh (equal ▸ Multiset.mem_map_of_mem Prod.fst there)
      simpa [Function.update_of_ne other] using stored
  · intro q stored
    simpa using own.covered q ((same q).mp stored)
  · exact own.wellFormed.update live d

/-- What the pool will answer does not matter to the pages. -/
theorem Own.rescript (own : Own shows s cells pins) (script : List Bool) : Own shows { s with script } cells pins :=
  have wf := own.wellFormed
  ⟨own.distinct,own.shown,own.covered,own.pinsEq,wf.first,wf.distinct,wf.partition,wf.exclusive,wf.pinned⟩

/-- The pins that others take and release keep the pages. -/
theorem Own.fetch {page : Option PageId} {s' : Store D} (own : Own shows s cells pins)
    (fetched : exec blank (.fetchPage p) s = .ok (page,s')) : ∃ pins', Own shows s' cells pins' := by
  rcases exec_fetchPage fetched with ⟨_,script,rfl⟩ | ⟨_,live,rfl⟩
  · exact ⟨pins,own.rescript script⟩
  · exact ⟨_,own.distinct,own.shown,own.covered,rfl,own.wellFormed.pin live _⟩

theorem Own.unpin {isDirty done : Bool} {s' : Store D} (own : Own shows s cells pins)
    (unpinned : exec blank (.unpinPage p isDirty) s = .ok (done,s')) : ∃ pins', Own shows s' cells pins' := by
  have wf := own.wellFormed
  obtain ⟨dirty,rfl⟩ := exec_unpinPage unpinned
  exact ⟨_,own.distinct,own.shown,own.covered,rfl,wf.first,wf.distinct,wf.partition,wf.exclusive,fun q pinned =>
    wf.pinned q (Multiset.mem_of_mem_erase pinned)⟩

theorem wp_fetchPage {Q : Option PageId → Store D → Prop} (own : Own shows s cells pins) (held : (p,v) ∈ cells)
    (next : ∀ s', Own shows s' cells (p ::ₘ pins) → Q (some p) s') :
    Prog.wp (exec blank) Granted (fetchPage p) Q s := by
  have member : p ∈ cells.map Prod.fst := Multiset.mem_map_of_mem Prod.fst held
  have valid := own.ne_invalid member
  have live := own.allocated member
  rw [fetchPage,Prog.wp_perform]
  simp only [exec,if_neg valid]
  split_ifs with null
  · exact ⟨none,_,rfl,fun granted => absurd rfl granted⟩
  · cases stored : s.data p with
    | none => exact absurd stored live
    | some d =>
      exact ⟨some p,_,rfl,fun _ => next _ ⟨own.distinct,own.shown,own.covered,by rw [own.pinsEq],
        own.wellFormed.pin live _⟩⟩

theorem wp_unpinPage {Q : Bool → Store D → Prop} {isDirty : Bool} (own : Own shows s cells (p ::ₘ pins))
    (next : ∀ s', Own shows s' cells pins → Q true s') :
    Prog.wp (exec blank) Granted (unpinPage p isDirty) Q s := by
  have pinned : p ∈ s.pins := by rw [own.pinsEq]; simp
  rw [unpinPage,Prog.wp_perform]
  simp only [exec,if_pos pinned]
  refine ⟨true,_,rfl,fun _ => next _ ⟨own.distinct,own.shown,own.covered,by simp [own.pinsEq],?_⟩⟩
  have wf := own.wellFormed
  exact ⟨wf.first,wf.distinct,wf.partition,wf.exclusive,fun q member => wf.pinned q (Multiset.mem_of_mem_erase member)⟩

theorem wp_getData {Q : D → Store D → Prop} (own : Own shows s cells pins) (held : (p,v) ∈ cells) (pinned : p ∈ pins)
    (next : ∀ d, shows d v → Q d s) : Prog.wp (exec blank) Granted (getData p) Q s := by
  obtain ⟨d,stored,shown⟩ := own.shown (p,v) held
  have member : p ∈ s.pins := by rw [own.pinsEq]; exact pinned
  rw [getData,Prog.wp_perform]
  exact ⟨d,s,by simp only [exec,if_pos member,stored],fun _ => next d shown⟩

theorem wp_setData {Q : Unit → Store D → Prop} {d : D} {v' : V} (own : Own shows s ({(p,v)} + cells) pins)
    (pinned : p ∈ pins) (displayed : shows d v')
    (next : ∀ s', Own shows s' ({(p,v')} + cells) pins → Q () s') :
    Prog.wp (exec blank) Granted (setData p d) Q s := by
  have member : p ∈ s.pins := by rw [own.pinsEq]; exact pinned
  have handled : exec blank (.setData p d) s = .ok ((),{ s with data := Function.update s.data p (some d) }) := by
    simp only [exec,if_pos member]
  rw [setData,Prog.wp_perform]
  exact ⟨(),_,handled,fun _ => next _ (own_update own displayed)⟩

private theorem own_created {q : PageId} (own : Own shows s cells pins) (zero : shows blank v)
    (unused : s.data q = none) {rest : List PageId} {count : PageId}
    (wf : WellFormed { s.created blank q with free := rest, numPages := count }) :
    Own shows { s.created blank q with free := rest, numPages := count } ({(q,v)} + cells) (q ::ₘ pins) := by
  have fresh : q ∉ cells.map Prod.fst := fun member => own.allocated member unused
  refine ⟨?_,?_,?_,by simp [Store.created,own.pinsEq],wf⟩
  · simpa [Multiset.nodup_cons] using And.intro (by simpa using fresh) own.distinct
  · intro c member
    rcases Multiset.mem_add.mp member with here | there
    · rw [Multiset.mem_singleton.mp here]
      exact ⟨blank,by simp [Store.created],zero⟩
    · obtain ⟨e,stored,shown⟩ := own.shown c there
      refine ⟨e,?_,shown⟩
      have other : c.1 ≠ q := fun equal => fresh (equal ▸ Multiset.mem_map_of_mem Prod.fst there)
      simpa [Store.created,Function.update_of_ne other] using stored
  · intro r stored
    by_cases equal : r = q
    · subst equal; simp
    · have before : s.data r ≠ none := by simpa [Store.created,Function.update_of_ne equal] using stored
      simpa using Or.inr (by simpa using own.covered r before)

theorem wp_newPage {Q : Option PageId → Store D → Prop} (own : Own shows s cells pins) (zero : shows blank v)
    (next : ∀ q s', q ∉ cells.map Prod.fst → Own shows s' ({(q,v)} + cells) (q ::ₘ pins) → Q (some q) s') :
    Prog.wp (exec blank) Granted newPage Q s := by
  rw [newPage,Prog.wp_perform]
  rcases exec_newPage blank own.wellFormed with ⟨handled,_⟩ | ⟨q,rest,count,handled,unused,_,_,wf⟩
  · exact ⟨none,_,handled,fun granted => absurd rfl granted⟩
  · exact ⟨some q,_,handled,fun _ =>
      next q _ (fun member => own.allocated member unused) (own_created own zero unused wf)⟩

/-- A pinned page is not deleted. -/
theorem wp_deletePage_pinned {Q : Bool → Store D → Prop} (own : Own shows s cells pins) (pinned : p ∈ pins)
    (next : Q false s) : Prog.wp (exec blank) Granted (deletePage p) Q s := by
  have member : p ∈ s.pins := by rw [own.pinsEq]; exact pinned
  rw [deletePage,Prog.wp_perform]
  exact ⟨false,s,by simp only [exec,if_pos member],fun _ => next⟩

/-- Another page goes to the free list. -/
theorem wp_deletePage {Q : Bool → Store D → Prop} (own : Own shows s ({(p,v)} + cells) pins) (unpinned : p ∉ pins)
    (next : ∀ s', Own shows s' cells pins → Q true s') :
    Prog.wp (exec blank) Granted (deletePage p) Q s := by
  obtain ⟨d,stored,_⟩ := own.shown (p,v) (by simp)
  have notMember : p ∉ s.pins := by rw [own.pinsEq]; exact unpinned
  have fresh := own.fresh
  have wf := own.wellFormed
  have handled : exec blank (.deletePage p) s =
      .ok (true,{ s with data := Function.update s.data p none,
                         dirty := Function.update s.dirty p false, free := p :: s.free }) := by
    simp only [exec,if_neg notMember,stored]
  rw [deletePage,Prog.wp_perform]
  refine ⟨true,_,handled,fun _ => next _ ⟨?_,?_,?_,own.pinsEq,?_⟩⟩
  · have distinct := own.distinct
    simp only [Multiset.singleton_add,Multiset.map_cons,Multiset.nodup_cons] at distinct
    exact distinct.2
  · intro c member
    obtain ⟨e,held,shown⟩ := own.shown c (Multiset.mem_add.mpr (.inr member))
    have other : c.1 ≠ p := fun equal => fresh (equal ▸ Multiset.mem_map_of_mem Prod.fst member)
    exact ⟨e,by simpa [Function.update_of_ne other] using held,shown⟩
  · intro r held
    have before : r ≠ p ∧ s.data r ≠ none := by
      by_cases equal : r = p
      · subst equal; simp at held
      · exact ⟨equal,by simpa [equal] using held⟩
    have member := own.covered r before.2
    simp only [Multiset.singleton_add,Multiset.map_cons,Multiset.mem_cons] at member
    exact member.resolve_left before.1
  · exact wf.delete (by simp [stored]) notMember

end Ownership
end Aether.PageStore
