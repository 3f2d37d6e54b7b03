import Aether.TreeInvariant

/-!
Pins of the tree's operations. Every call gives back the pins it takes, except
the deletion of the last key: it deletes the root page while it still has it
pinned, so the page stays and so does the pin.
-/
namespace Aether.TreePins
open Aether.Programs Aether.Types Aether.PageStore Aether.LeafPage Aether.InternalPage Aether.BPlusTree
open Aether.SortedLists Aether.Separators Aether.TreeModel Aether.TreePages Aether.TreeSearch Aether.TreeInsert
open Aether.TreeDelete Aether.TreeMap Aether.TreeInvariant

/-! ### Iterators -/

/-- An iterator that is destroyed at once. -/
def useIterator (iterator : Action BPlusTreeIterator) : Action Unit := do
  let it ← iterator
  it.destroy

section
variable {s : Store BPlusTreePage} {pins : Multiset PageId} {F : Cells} {h fuel : Nat} {key : Key} {T : Tree h}

/-- An iterator on a leaf fetches it and releases it when it is destroyed. -/
theorem does_iterator {Q : Unit → Store BPlusTreePage → Prop} {p : PageId} {v : View} {index : Nat} (own : Owns s F pins)
    (held : (p,v) ∈ F) (goal : ∀ s', Owns s' F pins → Q () s') :
    Does (useIterator (BPlusTreeIterator.create p index)) Q s := by
  have inFile : p ≠ INVALID_PAGE_ID := own.ne_invalid (Multiset.mem_map_of_mem Prod.fst held)
  rw [useIterator,Does,Prog.wp_bind,BPlusTreeIterator.create,if_neg inFile,Prog.wp_bind]
  refine wp_fetchPage own held (fun s₁ own => ?_)
  rw [Prog.wp_pure,BPlusTreeIterator.destroy,if_pos ⟨inFile,by simp⟩,Prog.wp_bind]
  exact wp_unpinPage own (fun s₂ own => goal s₂ own)

theorem does_endIterator {Q : Unit → Store BPlusTreePage → Prop} (goal : Q () s) :
    Does (useIterator endIterator) Q s := by
  rw [useIterator,Does,Prog.wp_bind,endIterator,BPlusTreeIterator.create,if_pos rfl,Prog.wp_pure,BPlusTreeIterator.destroy,
    if_neg (by simp)]
  exact goal

/-- `Begin` goes down the first children to the first leaf. -/
theorem does_descendLeft {Q : PageId → Store BPlusTreePage → Prop} : ∀ {h : Nat} (t : Tree h) (fuel : Nat)
    (s : Store BPlusTreePage) {parent : PageId} {lo hi : Option Key}, t.Ordered lo hi → h < fuel →
    (t.id,view parent t) ∈ F → (∀ c ∈ beneath t, c ∈ F) → Owns s F (t.id ::ₘ pins) →
    (∀ s' l rest v, t.leaves = l :: rest → (l.id,v) ∈ F → Owns s' F pins → Q l.id s') → Does (descendLeft fuel (some t.id)) Q s
  | 0, t, fuel + 1, s, parent, lo, hi, _, _, held, _, own, goal => by
    simp only [descendLeft,deref,Prog.ofOption,Does,Prog.wp_bind,Prog.wp_ret]
    refine wp_getData own held (by simp) (fun page shown => ?_)
    cases page with
    | internal page => exact shown.elim
    | leaf page =>
      simp only [Prog.wp_bind]
      exact wp_unpinPage own (fun s₁ own => goal s₁ t [] _ rfl held own)
  | h + 1, t, fuel + 1, s, parent, lo, hi, ordered, enough, held, below, own, goal => by
    obtain ⟨id,children,rfl⟩ := tree_branch t
    obtain ⟨inhabited,within⟩ := ordered_branch.mp ordered
    cases children with
    | nil => exact absurd rfl inhabited
    | cons c rest =>
      simp only [descendLeft,deref,Prog.ofOption,Does,Prog.wp_bind,Prog.wp_ret]
      refine wp_getData own held (by simp) (fun page shown => ?_)
      cases page with
      | leaf page => exact shown.elim
      | internal page =>
        rw [view_branch] at shown
        simp only [Prog.wp_bind]
        refine does_inBounds (BPlusTreeInternalPage.valueAt_spec (L := []) shown.holds) ?_
        refine wp_unpinPage own (fun s₁ own => ?_)
        have beneathC : ∀ d ∈ cells id c.2, d ∈ F := fun d member => below d (by
          rw [beneath_branch,cellsOf_cons]
          exact Multiset.mem_add.mpr (.inl member))
        refine wp_fetchPage own (beneathC _ mem_cells) (fun s₂ own => ?_)
        refine does_descendLeft c.2 fuel s₂ within.1 (by omega) (beneathC _ mem_cells)
          (fun d member => beneathC d (Multiset.mem_add.mpr (.inr member))) own (fun s₃ l later v first => ?_)
        exact goal s₃ l (later ++ leavesOf rest) v (by rw [leaves_branch,leavesOf_cons,first,List.cons_append])

theorem does_begin {Q : Unit → Store BPlusTreePage → Prop} (valid : Valid T) (enough : h < fuel)
    (own : Owns s (cells INVALID_PAGE_ID T + F) pins) (goal : ∀ s', Owns s' (cells INVALID_PAGE_ID T + F) pins → Q () s') :
    Does (useIterator (beginIterator fuel T.id)) Q s := by
  have held : (T.id,view INVALID_PAGE_ID T) ∈ cells INVALID_PAGE_ID T + F := Multiset.mem_add.mpr (.inl mem_cells)
  have inFile : T.id ≠ INVALID_PAGE_ID := own.ne_invalid (Multiset.mem_map_of_mem Prod.fst held)
  rw [useIterator,Does,Prog.wp_bind,beginIterator,if_neg inFile,Prog.wp_bind]
  refine wp_fetchPage own held (fun s₁ own => ?_)
  rw [Prog.wp_bind]
  refine does_descendLeft T fuel s₁ valid.ordered enough held
    (fun c member => Multiset.mem_add.mpr (.inl (Multiset.mem_add.mpr (.inr member)))) own (fun s₂ l _ v _ inTree own => ?_)
  exact (Prog.wp_bind _ _ _ _).mp (does_iterator own inTree goal)

theorem does_beginAt {Q : Unit → Store BPlusTreePage → Prop} (valid : Valid T) (enough : h < fuel)
    (own : Owns s (cells INVALID_PAGE_ID T + F) pins) (goal : ∀ s', Owns s' (cells INVALID_PAGE_ID T + F) pins → Q () s') :
    Does (useIterator (beginAt fuel T.id key)) Q s := by
  rw [useIterator,Does,Prog.wp_bind]
  refine does_beginAt_leaf valid enough own (fun s₁ l index member own => ?_)
  obtain ⟨par,held⟩ := mem_leaves T INVALID_PAGE_ID l member
  exact (Prog.wp_bind _ _ _ _).mp (does_iterator own (Multiset.mem_add.mpr (.inl held)) goal)

/-! ### Calls -/

/-- A call of the tree's interface; an iterator that it returns is destroyed. -/
inductive Call
  | request (request : Request)
  | begin
  | beginAt (key : Key)
  | endIterator

/-- A call; the root afterwards. -/
def execute (fuel : Nat) (root : PageId) : Call → Action PageId
  | .request request => do
    let (_,root) ← serve fuel root request
    pure root
  | .begin => do
    useIterator (beginIterator fuel root)
    pure root
  | .beginAt key => do
    useIterator (BPlusTree.beginAt fuel root key)
    pure root
  | .endIterator => do
    useIterator BPlusTree.endIterator
    pure root

/-- Calls in a row. -/
def executeAll (fuel : Nat) : PageId → List Call → Action PageId
  | root, [] => pure root
  | root, call :: rest => do
    let root ← execute fuel root call
    executeAll fuel root rest

/-- The relation holds between the states before and after each call of a row. -/
def Throughout (relation : Store BPlusTreePage → PageId → Call → Store BPlusTreePage → PageId → Prop) (fuel : Nat) :
    Store BPlusTreePage → PageId → List Call → Prop
  | _, _, [] => True
  | s, root, call :: rest => ∀ s' root', Prog.run (exec .zeros) (execute fuel root call) s = .ok (root',s') →
      relation s root call s' root' ∧ Throughout relation fuel s' root' rest

/-- The trees that `n` calls build over a database, while the users of its
    pages take and release other pins. -/
inductive Reached (fuel : Nat) : Nat → Store BPlusTreePage → PageId → Prop
  | empty {s : Store BPlusTreePage} : WellFormed s → Reached fuel 0 s INVALID_PAGE_ID
  | call {n : Nat} {s s' : Store BPlusTreePage} {root root' : PageId} (call : Call) :
      Reached fuel n s root → n ≤ fuel → Prog.Served (exec .zeros) Granted (execute fuel root call) s →
      Prog.run (exec .zeros) (execute fuel root call) s = .ok (root',s') → Reached fuel (n + 1) s' root'
  | fetch {n : Nat} {s s' : Store BPlusTreePage} {root p : PageId} {page : Option PageId} : Reached fuel n s root →
      exec .zeros (.fetchPage p) s = .ok (page,s') → Reached fuel n s' root
  | unpin {n : Nat} {s s' : Store BPlusTreePage} {root p : PageId} {isDirty done : Bool} : Reached fuel n s root →
      exec .zeros (.unpinPage p isDirty) s = .ok (done,s') → Reached fuel n s' root

/-- Every page that is still allocated has as many pins as before, a new one
    has none. -/
def PinNeutral (s s' : Store BPlusTreePage) : Prop :=
  ∀ p, s'.data p ≠ none → s'.pins.count p = if s.data p = none then 0 else s.pins.count p

/-- The tree is a single leaf that holds this key only. -/
def LastKey (s : Store BPlusTreePage) (root : PageId) (key : Key) : Prop :=
  ∃ page, s.data root = some (.leaf page) ∧ page.size = 1 ∧ page.keys[0] = key

/-- The call deletes the last key of the tree. -/
def Empties (s : Store BPlusTreePage) (root : PageId) (call : Call) : Prop :=
  ∃ key, call = .request (.delete key) ∧ LastKey s root key

/-- A call keeps the pins, but the one that deletes the last key leaves another
    one on the root page. -/
def Outcome (s s' : Store BPlusTreePage) (root : PageId) (call : Call) : Prop :=
  s'.pins = s.pins ∧ ¬ Empties s root call ∨
    s'.pins = root ::ₘ s.pins ∧ s'.data root ≠ none ∧ s.data root ≠ none ∧ Empties s root call

variable {root : PageId} {s' : Store BPlusTreePage} {call : Call} {n : Nat} {m : Entries}

theorem outcome_iff (wellFormed : WellFormed s) (outcome : Outcome s s' root call) :
    PinNeutral s s' ↔ ¬ Empties s root call := by
  obtain ⟨same,others⟩ | ⟨more,stays,before,empties⟩ := outcome
  · refine ⟨fun _ => others,fun _ p _ => ?_⟩
    rw [same]
    split_ifs with absent
    · exact Multiset.count_eq_zero.mpr (fun pinned => wellFormed.pinned p pinned absent)
    · rfl
  · refine ⟨fun neutral => ?_,fun others => absurd empties others⟩
    have count := neutral root stays
    rw [more,if_neg before,Multiset.count_cons_self] at count
    omega

/-- A valid tree has an entry. -/
theorem filled_inhabited : ∀ {h : Nat} (t : Tree h), t.Filled → 1 ≤ t.size → entriesOf t.leaves ≠ []
  | 0, t, _, least, vacant => by
    obtain ⟨id,next,es,rfl⟩ := tree_leaf t
    obtain rfl : es = [] := by simpa using vacant
    simp at least
  | h + 1, t, filled, least, vacant => by
    obtain ⟨id,children,rfl⟩ := tree_branch t
    cases children with
    | nil => simp at least
    | cons c rest =>
      obtain ⟨enough,_,below⟩ := filled_branch.mp filled c (by simp)
      have atLeastTwo := two_le_minimum (h := h)
      refine filled_inhabited c.2 below (by omega) ?_
      rw [leaves_branch,leavesOf_cons,entriesOf_append,List.append_eq_nil_iff] at vacant
      exact vacant.1

theorem valid_inhabited (valid : Valid T) : entriesOf T.leaves ≠ [] := by
  refine filled_inhabited T valid.filled (le_trans ?_ valid.least)
  cases h <;> simp [rootMinimum]

/-- The last key of a tree, read off its root page. -/
theorem lastKey_iff (own : Owns s (cells INVALID_PAGE_ID T + F) pins) :
    LastKey s T.id key ↔ h = 0 ∧ ∃ value, entriesOf T.leaves = [(key,value)] := by
  obtain ⟨content,data,shown⟩ := stored own (Multiset.mem_add.mpr (.inl mem_cells))
  cases h with
  | succ h =>
    cases content with
    | leaf page => exact shown.elim
    | internal page => simp [LastKey,data]
  | zero =>
    obtain ⟨id,next,es,rfl⟩ := tree_leaf T
    cases content with
    | internal page => exact shown.elim
    | leaf page =>
      have size : page.size = es.length := shown.holds.size
      have first : ∀ e ∈ es.head?, page.keys[0] = e.1 := by
        intro e member
        cases es with
        | nil => simp at member
        | cons d rest =>
          obtain rfl : d = e := by simpa using member
          have shows : LeafShows id INVALID_PAGE_ID next (d :: rest) page := shown
          simpa using shows.holds.keys 0 (by simp)
      constructor
      · rintro ⟨page',held,single,found⟩
        obtain rfl : page = page' := by
          rw [data] at held
          simpa using held
        obtain ⟨e,rfl⟩ := List.length_eq_one_iff.mp (size.symm.trans single)
        obtain rfl : e.1 = key := (first e (by simp)).symm.trans found
        exact ⟨rfl,e.2,by simp⟩
      · rintro ⟨_,value,only⟩
        obtain rfl : es = [(key,value)] := by simpa using only
        exact ⟨page,data,by simpa using size,first (key,value) (by simp)⟩

/-- Deletions that do not take the last key. -/
theorem not_empties (own : Owns s (cells INVALID_PAGE_ID T + F) pins)
    (others : ∀ value, entriesOf T.leaves ≠ [(key,value)]) : ¬ Empties s T.id (.request (.delete key)) := by
  rintro ⟨_,same,last⟩
  cases same
  obtain ⟨_,value,only⟩ := (lastKey_iff own).mp last
  exact others value only

/-- What a deletion leaves is not a tree with the deleted key only. -/
theorem removed_inhabited {H : Nat} {T' : Tree H} {value : RID} (valid' : Valid T')
    (removed : Removed (entriesOf T.leaves) key (entriesOf T'.leaves)) : entriesOf T.leaves ≠ [(key,value)] := by
  intro only
  obtain ⟨e,member⟩ := List.exists_mem_of_ne_nil _ (valid_inhabited valid')
  have found := (mem_iff_get (ordered_sorted _ _ T' valid'.ordered) e.1 e.2).mp member
  rw [removed.entries,only] at found
  by_cases same : e.1 = key
  · simp [same] at found
  · simp [same,SortedLists.get,Ne.symm same] at found

/-- The pins after a call to a tree that exists. -/
theorem pins_execute_tree (valid : Valid T) (enough : h < fuel) (own : Owns s (cells INVALID_PAGE_ID T + F) pins) :
    Does (execute fuel T.id call) (fun _ s' => Outcome s s' T.id call) s := by
  have kept : ∀ {cs : Cells} {s' : Store BPlusTreePage}, ¬ Empties s T.id call → Owns s' cs pins → Outcome s s' T.id call :=
    fun others own' => .inl ⟨own'.pinsEq.trans own.pinsEq.symm,others⟩
  cases call with
  | begin =>
    rw [execute,Does,Prog.wp_bind]
    exact does_begin valid enough own (fun s₁ own₁ => kept (by simp [Empties]) own₁)
  | beginAt key =>
    rw [execute,Does,Prog.wp_bind]
    exact does_beginAt valid enough own (fun s₁ own₁ => kept (by simp [Empties]) own₁)
  | endIterator =>
    rw [execute,Does,Prog.wp_bind]
    exact does_endIterator (kept (by simp [Empties]) own)
  | request request =>
    cases request with
    | insert key value =>
      simp only [execute,serve,Does,Prog.wp_bind]
      exact does_insert valid enough own (fun s₁ _ own₁ => kept (by simp [Empties]) own₁)
        (fun s₁ H T' _ _ _ own₁ => kept (by simp [Empties]) own₁)
    | getValue key =>
      simp only [execute,serve,Does,Prog.wp_bind]
      exact does_getValue valid enough own (fun s₁ own₁ => kept (by simp [Empties]) own₁)
    | delete key =>
      simp only [execute,serve,Does,Prog.wp_bind]
      refine does_delete valid enough own (fun s₁ absent own₁ => ?_) (fun s₁ leaked value only leaf own₁ => ?_)
        (fun s₁ H T' leaked valid' _ removed _ own₁ => ?_)
      · refine kept (not_empties own (fun value only => ?_)) own₁
        simp [only,SortedLists.get] at absent
      · refine .inr ⟨by rw [own₁.pinsEq,own.pinsEq],own₁.allocated (by simp),own.allocated ?_,key,rfl,
          (lastKey_iff own).mpr ⟨leaf,value,only⟩⟩
        exact Multiset.mem_map_of_mem Prod.fst (Multiset.mem_add.mpr (.inl mem_cells))
      · exact kept (not_empties own (fun value => removed_inhabited valid' removed)) own₁

theorem pins_execute_empty (own : Owns s F pins) :
    Does (execute fuel INVALID_PAGE_ID call) (fun _ s' => Outcome s s' INVALID_PAGE_ID call) s := by
  have absent : s.data INVALID_PAGE_ID = none := by
    by_contra there
    exact own.ne_invalid (own.covered _ there) rfl
  have others : ¬ Empties s INVALID_PAGE_ID call := by
    rintro ⟨key,_,page,held,_⟩
    rw [absent] at held
    cases held
  have still : Outcome s s INVALID_PAGE_ID call := .inl ⟨rfl,others⟩
  cases call with
  | begin =>
    simp only [execute,beginIterator,if_true,Does,Prog.wp_bind]
    exact does_endIterator still
  | beginAt key =>
    simp only [execute,BPlusTree.beginAt,if_true,Does,Prog.wp_bind]
    exact does_endIterator still
  | endIterator =>
    rw [execute,Does,Prog.wp_bind]
    exact does_endIterator still
  | request request =>
    cases request with
    | insert key value =>
      simp only [execute,serve,Does,Prog.wp_bind]
      exact does_insert_empty own (fun s₁ q _ own₁ => .inl ⟨own₁.pinsEq.trans own.pinsEq.symm,others⟩)
    | getValue key => simpa [execute,serve,getValue] using still
    | delete key => simpa [execute,serve,delete] using still

/-- A call keeps the tree. -/
theorem represents_execute (represents : Represents n s root m) (enough : n ≤ fuel) (call : Call) :
    Does (execute fuel root call) (fun root' s' => ∃ m', Represents (n + 1) s' root' m') s := by
  cases call with
  | request request =>
    rw [execute,Does,Prog.wp_bind]
    exact Prog.wp_mono (fun out s₁ served => ⟨_,served.2⟩) (does_serve represents enough request)
  | begin =>
    rw [execute,Does,Prog.wp_bind]
    obtain ⟨F,pins,⟨rfl,none,own⟩ | ⟨h,T,lower,valid,rfl,same,own⟩⟩ := represents
    · rw [beginIterator,if_pos rfl]
      exact does_endIterator ⟨m,F,pins,.inl ⟨rfl,none,own⟩⟩
    · exact does_begin valid (by omega) own (fun s₁ own₁ => ⟨m,F,pins,.inr ⟨h,T,by omega,valid,rfl,same,own₁⟩⟩)
  | beginAt key =>
    rw [execute,Does,Prog.wp_bind]
    obtain ⟨F,pins,⟨rfl,none,own⟩ | ⟨h,T,lower,valid,rfl,same,own⟩⟩ := represents
    · rw [BPlusTree.beginAt,if_pos rfl]
      exact does_endIterator ⟨m,F,pins,.inl ⟨rfl,none,own⟩⟩
    · exact does_beginAt valid (by omega) own (fun s₁ own₁ => ⟨m,F,pins,.inr ⟨h,T,by omega,valid,rfl,same,own₁⟩⟩)
  | endIterator =>
    rw [execute,Does,Prog.wp_bind]
    obtain ⟨F,pins,⟨rfl,none,own⟩ | ⟨h,T,lower,valid,rfl,same,own⟩⟩ := represents
    · exact does_endIterator ⟨m,F,pins,.inl ⟨rfl,none,own⟩⟩
    · exact does_endIterator ⟨m,F,pins,.inr ⟨h,T,by omega,valid,rfl,same,own⟩⟩

theorem does_execute (represents : Represents n s root m) (enough : n ≤ fuel) :
    Does (execute fuel root call) (fun root' s' => Outcome s s' root call ∧ ∃ m', Represents (n + 1) s' root' m') s := by
  have keeps := represents_execute represents enough call
  obtain ⟨F,pins,⟨rfl,_,own⟩ | ⟨h,T,lower,valid,rfl,_,own⟩⟩ := represents
  · exact Prog.wp_and (pins_execute_empty own) keeps
  · exact Prog.wp_and (pins_execute_tree valid (by omega) own) keeps

/-- Another user of the pool takes a pin. -/
theorem represents_fetch {p : PageId} {page : Option PageId} (represents : Represents n s root m)
    (fetched : exec .zeros (.fetchPage p) s = .ok (page,s')) : Represents n s' root m := by
  obtain ⟨F,pins,⟨rfl,none,own⟩ | ⟨h,T,lower,valid,rfl,same,own⟩⟩ := represents
  · obtain ⟨pins',own'⟩ := own.fetch fetched
    exact ⟨F,pins',.inl ⟨rfl,none,own'⟩⟩
  · obtain ⟨pins',own'⟩ := own.fetch fetched
    exact ⟨F,pins',.inr ⟨h,T,lower,valid,rfl,same,own'⟩⟩

theorem represents_unpin {p : PageId} {isDirty done : Bool} (represents : Represents n s root m)
    (unpinned : exec .zeros (.unpinPage p isDirty) s = .ok (done,s')) : Represents n s' root m := by
  obtain ⟨F,pins,⟨rfl,none,own⟩ | ⟨h,T,lower,valid,rfl,same,own⟩⟩ := represents
  · obtain ⟨pins',own'⟩ := own.unpin unpinned
    exact ⟨F,pins',.inl ⟨rfl,none,own'⟩⟩
  · obtain ⟨pins',own'⟩ := own.unpin unpinned
    exact ⟨F,pins',.inr ⟨h,T,lower,valid,rfl,same,own'⟩⟩

theorem Reached.represents (reached : Reached fuel n s root) : ∃ m, Represents n s root m := by
  induction reached with
  | empty wellFormed =>
    obtain ⟨F,pins,own⟩ := exists_owns wellFormed
    exact ⟨fun _ => none,F,pins,.inl ⟨rfl,fun _ => rfl,own⟩⟩
  | call call _ enough served ran ih =>
    obtain ⟨m,represents⟩ := ih
    obtain ⟨out,s₁,same,_,after⟩ := Prog.run_of_wp (does_execute represents enough) served
    rw [ran] at same
    cases same
    exact after
  | fetch _ fetched ih =>
    obtain ⟨m,represents⟩ := ih
    exact ⟨m,represents_fetch represents fetched⟩
  | unpin _ unpinned ih =>
    obtain ⟨m,represents⟩ := ih
    exact ⟨m,represents_unpin represents unpinned⟩

theorem represents_wellFormed (represents : Represents n s root m) : WellFormed s := by
  obtain ⟨F,pins,⟨_,_,own⟩ | ⟨h,T,_,_,_,_,own⟩⟩ := represents
  · exact own.wellFormed
  · exact own.wellFormed

/-- Calls in a row, by induction on the list. -/
theorem does_executeAll : ∀ (calls : List Call) {n : Nat} {s : Store BPlusTreePage} {root : PageId} {m : Entries},
    Represents n s root m → n + calls.length ≤ fuel + 1 → Prog.Served (exec .zeros) Granted (executeAll fuel root calls) s →
    ∃ root' s', Prog.run (exec .zeros) (executeAll fuel root calls) s = .ok (root',s') ∧
      (Throughout (fun s _ _ s' _ => PinNeutral s s') fuel s root calls ↔
        Throughout (fun s root call _ _ => ¬ Empties s root call) fuel s root calls) ∧
      (Throughout (fun s root call _ _ => ¬ Empties s root call) fuel s root calls → s'.pins = s.pins)
  | [], n, s, root, m, _, _, _ => ⟨root,s,rfl,Iff.rfl,fun _ => rfl⟩
  | call :: rest, n, s, root, m, represents, enough, served => by
    rw [List.length_cons] at enough
    rw [executeAll] at served
    obtain ⟨root₁,s₁,ran₁,outcome,m₁,represents₁⟩ :=
      Prog.run_of_wp (does_execute represents (by omega)) (Prog.served_bind served)
    have remaining := Prog.served_next served ran₁
    obtain ⟨root₂,s₂,ran₂,neutral,still⟩ := does_executeAll rest represents₁ (by omega) remaining
    have here := outcome_iff (represents_wellFormed represents) outcome
    refine ⟨root₂,s₂,?_,?_,?_⟩
    · rw [executeAll,Prog.run_bind,ran₁]
      exact ran₂
    · simp only [Throughout,ran₁,Except.ok.injEq,Prod.mk.injEq,and_imp,forall_eq']
      rw [here,neutral]
    · simp only [Throughout,ran₁,Except.ok.injEq,Prod.mk.injEq,and_imp,forall_eq']
      intro others after
      obtain ⟨same,_⟩ | ⟨_,_,_,empties⟩ := outcome
      · exact (still after).trans same
      · exact absurd empties others

/-- From every tree that calls build, calls for which the pool never runs out of
    frames are each pin neutral if and only if none of them deletes the last key
    of its tree, and then they leave the pins as they were. -/
theorem calls_are_pin_neutral (reached : Reached fuel n s root) (calls : List Call) (enough : n + calls.length ≤ fuel)
    (served : Prog.Served (exec .zeros) Granted (executeAll fuel root calls) s) :
    ∃ root' s', Prog.run (exec .zeros) (executeAll fuel root calls) s = .ok (root',s') ∧
      (Throughout (fun s _ _ s' _ => PinNeutral s s') fuel s root calls ↔
        Throughout (fun s root call _ _ => ¬ Empties s root call) fuel s root calls) ∧
      (Throughout (fun s root call _ _ => ¬ Empties s root call) fuel s root calls → s'.pins = s.pins) := by
  obtain ⟨m,represents⟩ := reached.represents
  exact does_executeAll calls represents (by omega) served

end

/-- Three calls from a new database. -/
def sample : List Call := [.request (.insert 7 ⟨1,2⟩),.begin,.request (.delete 7)]

theorem calls_are_pin_neutral_sample : ∃ root' s',
    Prog.run (exec .zeros) (executeAll 3 INVALID_PAGE_ID sample) (Store.empty BPlusTreePage) = .ok (root',s') ∧
      (Throughout (fun s _ _ s' _ => PinNeutral s s') 3 (Store.empty BPlusTreePage) INVALID_PAGE_ID sample ↔
        Throughout (fun s root call _ _ => ¬ Empties s root call) 3 (Store.empty BPlusTreePage) INVALID_PAGE_ID sample) ∧
      (Throughout (fun s root call _ _ => ¬ Empties s root call) 3 (Store.empty BPlusTreePage) INVALID_PAGE_ID sample →
        s'.pins = (Store.empty BPlusTreePage).pins) :=
  calls_are_pin_neutral (.empty (empty_wellFormed _)) sample (by decide) (by decide +kernel)

/-- A new database after the insertion of a key. -/
def single : Store BPlusTreePage :=
  match Prog.run (exec .zeros) (execute 2 INVALID_PAGE_ID (.request (.insert 7 ⟨1,2⟩))) (Store.empty BPlusTreePage) with
  | .ok (_,s') => s'
  | .error _ => Store.empty BPlusTreePage

theorem single_reached : Reached 2 1 single 1 :=
  have inserted : Prog.run (exec .zeros) (execute 2 INVALID_PAGE_ID (.request (.insert 7 ⟨1,2⟩)))
      (Store.empty BPlusTreePage) = .ok (1,single) := rfl
  .call _ (.empty (empty_wellFormed _)) (by decide) (by decide +kernel) inserted

/-- Deleting the only key leaves the root page allocated, with a pin. -/
theorem delete_leaves_a_pin : ¬ ∀ (fuel n : Nat) (s s' : Store BPlusTreePage) (root root' : PageId) (call : Call),
    Reached fuel n s root → n ≤ fuel → Prog.Served (exec .zeros) Granted (execute fuel root call) s →
    Prog.run (exec .zeros) (execute fuel root call) s = .ok (root',s') → PinNeutral s s' := by
  intro neutral
  obtain ⟨s',deleted,stays,pin⟩ : ∃ s',
      Prog.run (exec .zeros) (execute 2 1 (.request (.delete 7))) single = .ok (INVALID_PAGE_ID,s') ∧
      s'.data 1 ≠ none ∧ s'.pins.count 1 = 1 := ⟨_,rfl,by decide +kernel,by decide +kernel⟩
  have count := neutral 2 1 single s' 1 INVALID_PAGE_ID (.request (.delete 7)) single_reached (by decide) (by decide +kernel)
    deleted 1 stays
  rw [pin] at count
  revert count
  decide +kernel

end Aether.TreePins
