import Aether.TreePins

/-!
Scanning the tree. An iterator at the first entry of a leaf goes through the leaf
and the leaves after it, so that a scan from `Begin` finds all the entries. `Begin`
at a key starts in the leaf for the key, and behind its last entry where all of
them are below the key.
-/
namespace Aether.TreeScan
open Aether.Cells Aether.Programs Aether.Types Aether.PageStore Aether.LeafPage Aether.InternalPage Aether.BPlusTree
open Aether.SortedLists Aether.Separators Aether.TreeModel Aether.TreePages Aether.TreeSearch Aether.TreeMap
open Aether.TreeDelete Aether.TreeInvariant Aether.TreePins

/-- What a loop finds that goes on from an iterator until it equals `End`, at most this
    many times. -/
def scan : Nat → BPlusTreeIterator → Action (List Entry)
  | 0, _ => Prog.fault .outOfFuel
  | steps + 1, it => do
    if it.equal (← endIterator) then do
      it.destroy
      pure []
    else do
      let entry ← it.value
      let rest ← scan steps (← it.next)
      pure (entry :: rest)

def scanAll (fuel : Nat) (root : PageId) (steps : Nat) : Action (List Entry) := do
  scan steps (← beginIterator fuel root)

def scanFrom (fuel : Nat) (root : PageId) (key : Key) (steps : Nat) : Action (List Entry) := do
  scan steps (← beginAt fuel root key)

/-! ### Along the leaves -/

/-- The iterator at the first entry of some leaves. -/
def startOf : List LeafNode → BPlusTreeIterator
  | [] => { currPageId := INVALID_PAGE_ID, currIndex := 0, currPage := none }
  | l :: _ => { currPageId := l.id, currIndex := 0, currPage := some l.id }

/-- The pin that it holds. -/
def pinOf : List LeafNode → Multiset PageId
  | [] => 0
  | l :: _ => {l.id}

/-- The leaves have entries, their pages are among those listed, and each links to the
    next one. -/
structure Along (F : Cells) (ls : List LeafNode) : Prop where
  linked : Linked INVALID_PAGE_ID ls
  held : ∀ l ∈ ls, ∃ par, (l.id,leafView l.id par l.next l.entries) ∈ F
  inhabited : ∀ l ∈ ls, l.entries ≠ []

section
variable {s : Store BPlusTreePage} {pins : Multiset PageId} {F : Cells} {h fuel steps i : Nat} {key : Key} {T : Tree h}
variable {l : LeafNode} {rest ls : List LeafNode} {A B : List Entry} {e : Entry}

theorem Along.tail (along : Along F (l :: rest)) : Along F rest :=
  ⟨along.linked.2,fun l' member => along.held l' (List.mem_cons_of_mem l member),
    fun l' member => along.inhabited l' (List.mem_cons_of_mem l member)⟩

/-- The end iterator. -/
theorem does_scan_end {Q : List Entry → Store BPlusTreePage → Prop} (enough : 0 < steps) (goal : Q [] s) :
    Does (scan steps (startOf [])) Q s := by
  obtain ⟨steps,rfl⟩ := Nat.exists_eq_succ_of_ne_zero enough.ne'
  simp only [scan,Does,Prog.wp_bind,endIterator,BPlusTreeIterator.create,if_true,Prog.wp_pure,startOf,BPlusTreeIterator.equal,
    and_self,decide_true,BPlusTreeIterator.destroy,ne_eq,not_true_eq_false,if_false]
  exact goal

/-- From the last entry of a leaf, or from behind it, the iterator goes to the next leaf. -/
theorem does_next_leaf {Q : BPlusTreeIterator → Store BPlusTreePage → Prop} (along : Along F (l :: rest))
    (last : l.entries.length ≤ i + 1) (own : Owns s F (l.id ::ₘ pins))
    (goal : ∀ s', Owns s' F (pinOf rest + pins) → Q (startOf rest) s') :
    Does (BPlusTreeIterator.next { currPageId := l.id, currIndex := i, currPage := some l.id }) Q s := by
  obtain ⟨par,held⟩ := along.held l List.mem_cons_self
  have inFile : l.id ≠ INVALID_PAGE_ID := own.ne_invalid (Multiset.mem_map_of_mem Prod.fst held)
  simp only [BPlusTreeIterator.next,if_neg inFile,deref,Prog.ofOption,Does,Prog.wp_bind,Prog.wp_ret]
  refine does_readLeaf own held (by simp) (fun page shows => ?_)
  have size : page.size = l.entries.length := shows.holds.size
  rw [if_pos (by omega),Prog.wp_bind]
  refine wp_unpinPage own (fun s₁ own => ?_)
  rw [shows.nextPageId,along.linked.1]
  cases rest with
  | nil =>
    rw [headId,BPlusTreeIterator.create,if_pos rfl]
    exact goal s₁ (own.repin (by simp [pinOf]))
  | cons l' rest =>
    obtain ⟨par',held'⟩ := along.tail.held l' List.mem_cons_self
    have inFile' : l'.id ≠ INVALID_PAGE_ID := own.ne_invalid (Multiset.mem_map_of_mem Prod.fst held')
    rw [headId,BPlusTreeIterator.create,if_neg inFile',Prog.wp_bind]
    exact wp_fetchPage own held' (fun s₂ own => goal s₂ (own.repin (by simp [pinOf])))

/-- Reading an entry of a leaf. -/
theorem does_value {Q : Entry → Store BPlusTreePage → Prop} (along : Along F (l :: rest)) (entries : l.entries = A ++ e :: B)
    (own : Owns s F pins) (pinned : l.id ∈ pins) (goal : Q e s) :
    Does (BPlusTreeIterator.value { currPageId := l.id, currIndex := A.length, currPage := some l.id }) Q s := by
  obtain ⟨par,held⟩ := along.held l List.mem_cons_self
  simp only [BPlusTreeIterator.value,deref,Prog.ofOption,Does,Prog.wp_bind,Prog.wp_ret]
  refine does_readLeaf own held pinned (fun page shows => ?_)
  have holds := shows.holds
  rw [entries] at holds
  have key : page.keys[A.length]? = some e.1 := by
    rw [holds.keys A.length (by simp)]
    simp
  have value : page.values[A.length]? = some e.2 := by
    rw [holds.values A.length (by simp)]
    simp
  refine does_inBounds key ?_
  exact does_inBounds value goal

/-- Within a leaf the iterator goes to the next entry. -/
theorem does_next_within {Q : BPlusTreeIterator → Store BPlusTreePage → Prop} (along : Along F (l :: rest))
    (more : i + 1 < l.entries.length) (own : Owns s F pins) (pinned : l.id ∈ pins)
    (goal : Q { currPageId := l.id, currIndex := i + 1, currPage := some l.id } s) :
    Does (BPlusTreeIterator.next { currPageId := l.id, currIndex := i, currPage := some l.id }) Q s := by
  obtain ⟨par,held⟩ := along.held l List.mem_cons_self
  have inFile : l.id ≠ INVALID_PAGE_ID := own.ne_invalid (Multiset.mem_map_of_mem Prod.fst held)
  simp only [BPlusTreeIterator.next,if_neg inFile,deref,Prog.ofOption,Does,Prog.wp_bind,Prog.wp_ret]
  refine does_readLeaf own held pinned (fun page shows => ?_)
  have size : page.size = l.entries.length := shows.holds.size
  rw [if_neg (by omega)]
  exact goal

/-- A scan from an entry finds the rest of its leaf and the leaves after it, by
    induction on the steps. -/
theorem does_scan_within {Q : List Entry → Store BPlusTreePage → Prop} : ∀ {steps : Nat} {l : LeafNode} {rest : List LeafNode}
    {A B : List Entry} {e : Entry} {s : Store BPlusTreePage}, Along F (l :: rest) → l.entries = A ++ e :: B →
    (e :: B ++ entriesOf rest).length < steps → Owns s F (l.id ::ₘ pins) →
    (∀ s', Owns s' F pins → Q (e :: B ++ entriesOf rest) s') →
    Does (scan steps { currPageId := l.id, currIndex := A.length, currPage := some l.id }) Q s
  | steps + 1, l, rest, A, B, e, s, along, entries, enough, own, goal => by
    obtain ⟨par,held⟩ := along.held l List.mem_cons_self
    have inFile : l.id ≠ INVALID_PAGE_ID := own.ne_invalid (Multiset.mem_map_of_mem Prod.fst held)
    have more : BPlusTreeIterator.equal { currPageId := l.id, currIndex := A.length, currPage := some l.id }
        { currPageId := INVALID_PAGE_ID, currIndex := 0, currPage := none } = false := by
      simp [BPlusTreeIterator.equal,inFile]
    simp only [scan,Does,Prog.wp_bind,endIterator,BPlusTreeIterator.create,if_true,Prog.wp_pure,more,Bool.false_eq_true,if_false]
    refine does_value along entries own (by simp) ?_
    simp only [List.cons_append,List.length_cons] at enough
    cases B with
    | nil =>
      refine does_next_leaf along (by simp [entries]) own (fun s₁ own => ?_)
      cases rest with
      | nil => exact does_scan_end (by omega) (goal s₁ (own.repin (by simp [pinOf])))
      | cons l' rest =>
        obtain ⟨e',B',entries'⟩ := List.exists_cons_of_ne_nil (along.tail.inhabited l' List.mem_cons_self)
        refine does_scan_within (A := []) along.tail entries' ?_ own (fun s₂ own => ?_)
        · simpa [entriesOf,entries'] using enough
        · simpa [entriesOf,entries'] using goal s₂ own
    | cons e' B =>
      refine does_next_within along (by simp [entries]) own (by simp) ?_
      have count : A.length + 1 = (A ++ [e]).length := by simp
      rw [count]
      exact does_scan_within along (by simp [entries]) (by simpa using enough) own goal

theorem does_scan_leaves (steps : Nat) {Q : List Entry → Store BPlusTreePage → Prop} (along : Along F ls) (enough : (entriesOf ls).length < steps)
    (own : Owns s F (pinOf ls + pins)) (goal : ∀ s', Owns s' F pins → Q (entriesOf ls) s') :
    Does (scan steps (startOf ls)) Q s := by
  cases ls with
  | nil => exact does_scan_end (by omega) (goal s (own.repin (by simp [pinOf])))
  | cons l rest =>
    obtain ⟨e,B,entries⟩ := List.exists_cons_of_ne_nil (along.inhabited l List.mem_cons_self)
    have all : entriesOf (l :: rest) = e :: B ++ entriesOf rest := by simp [entriesOf,entries]
    rw [all] at enough goal
    exact does_scan_within (A := []) along entries enough own goal

/-! ### From the beginning -/

/-- The leaves of a tree have entries. -/
theorem leaves_inhabited : ∀ {h : Nat} (t : Tree h), t.Filled → 1 ≤ t.size → ∀ l ∈ t.leaves, l.entries ≠ []
  | 0, t, _, least, l, member => by
    obtain ⟨id,next,es,rfl⟩ := tree_leaf t
    obtain rfl : l = ⟨id,next,es⟩ := by simpa using member
    rintro rfl
    simp at least
  | h + 1, t, filled, _, l, member => by
    obtain ⟨id,children,rfl⟩ := tree_branch t
    obtain ⟨c,inChildren,inLeaves⟩ := List.mem_flatMap.mp member
    obtain ⟨enough,_,below⟩ := filled_branch.mp filled c inChildren
    have atLeastTwo := two_le_minimum (h := h)
    exact leaves_inhabited c.2 below (by omega) l inLeaves

theorem valid_along (valid : Valid T) : Along (cells INVALID_PAGE_ID T + F) T.leaves where
  linked := valid.linked
  held l member := by
    obtain ⟨par,held⟩ := mem_leaves T INVALID_PAGE_ID l member
    exact ⟨par,Multiset.mem_add.mpr (.inl held)⟩
  inhabited := leaves_inhabited T valid.filled (le_trans (by cases h <;> simp [rootMinimum]) valid.least)

theorem does_scanAll {Q : List Entry → Store BPlusTreePage → Prop} (valid : Valid T) (lower : h < fuel)
    (enough : (entriesOf T.leaves).length < steps) (own : Owns s (cells INVALID_PAGE_ID T + F) pins)
    (goal : ∀ s', Owns s' (cells INVALID_PAGE_ID T + F) pins → Q (entriesOf T.leaves) s') :
    Does (scanAll fuel T.id steps) Q s := by
  have held : (T.id,view INVALID_PAGE_ID T) ∈ cells INVALID_PAGE_ID T + F := Multiset.mem_add.mpr (.inl mem_cells)
  have inFile : T.id ≠ INVALID_PAGE_ID := own.ne_invalid (Multiset.mem_map_of_mem Prod.fst held)
  simp only [scanAll,beginIterator,if_neg inFile,Does,Prog.wp_bind]
  refine wp_fetchPage own held (fun s₁ own => ?_)
  refine does_descendLeft T fuel s₁ valid.ordered lower held
    (fun c member => Multiset.mem_add.mpr (.inl (Multiset.mem_add.mpr (.inr member)))) own (fun s₂ l rest v first inTree own => ?_)
  have inFile' : l.id ≠ INVALID_PAGE_ID := own.ne_invalid (Multiset.mem_map_of_mem Prod.fst inTree)
  rw [BPlusTreeIterator.create,if_neg inFile',Prog.wp_bind]
  refine wp_fetchPage own inTree (fun s₃ own => ?_)
  have scans := does_scan_leaves steps (valid_along valid) enough (own.repin (by simp [first,pinOf])) goal
  rw [first] at scans
  exact scans

/-- The entries are those that `GetValue` finds. -/
def AgreesWithGetValue (fuel : Nat) (s : Store BPlusTreePage) (root : PageId) (entries : List Entry) : Prop :=
  ∀ key, Prog.Served (exec .zeros) Granted (getValue fuel root key) s → ∃ found s',
    Prog.run (exec .zeros) (getValue fuel root key) s = .ok (found,s') ∧ ∀ value, (key,value) ∈ entries ↔ found = some value

theorem agrees_empty : AgreesWithGetValue fuel s INVALID_PAGE_ID [] := fun key _ => ⟨none,s,rfl,by simp⟩

theorem agrees_tree (valid : Valid T) (lower : h < fuel) (own : Owns s (cells INVALID_PAGE_ID T + F) pins) :
    AgreesWithGetValue fuel s T.id (entriesOf T.leaves) := by
  intro key served
  have does : Does (getValue fuel T.id key) (fun found _ => found = get (entriesOf T.leaves) key) s :=
    does_getValue valid lower own (fun _ _ => rfl)
  obtain ⟨found,s',ran,rfl⟩ := Prog.run_of_wp does served
  exact ⟨_,s',ran,fun value => mem_iff_get (ordered_sorted _ _ T valid.ordered) key value⟩

/-- From every tree that calls build, a scan from `Begin` ends, and finds the entries that
    `GetValue` finds, in the order of their keys. -/
theorem scan_finds_all {n : Nat} {root : PageId} (reached : Reached fuel n s root) (enough : n ≤ fuel) :
    ∃ entries, Sorted entries ∧ AgreesWithGetValue fuel s root entries ∧
      ∀ steps, entries.length < steps → Prog.Served (exec .zeros) Granted (scanAll fuel root steps) s →
        ∃ s', Prog.run (exec .zeros) (scanAll fuel root steps) s = .ok (entries,s') := by
  obtain ⟨m,F,pins,⟨rfl,_,own⟩ | ⟨h,T,lower,valid,rfl,_,own⟩⟩ := reached.represents
  · refine ⟨[],by simp [Sorted],agrees_empty,fun steps more served => ?_⟩
    have does : Does (scanAll fuel INVALID_PAGE_ID steps) (fun found _ => found = []) s := by
      simp only [scanAll,beginIterator,if_true,endIterator,BPlusTreeIterator.create,Does,Prog.wp_bind,Prog.wp_pure]
      exact does_scan_end more rfl
    obtain ⟨found,s',ran,rfl⟩ := Prog.run_of_wp does served
    exact ⟨s',ran⟩
  · refine ⟨entriesOf T.leaves,ordered_sorted _ _ T valid.ordered,agrees_tree valid (by omega) own,fun steps more served => ?_⟩
    have does : Does (scanAll fuel T.id steps) (fun found _ => found = entriesOf T.leaves) s :=
      does_scanAll valid (by omega) more own (fun _ _ => rfl)
    obtain ⟨found,s',ran,rfl⟩ := Prog.run_of_wp does served
    exact ⟨s',ran⟩

/-- The tree with one key. -/
theorem scan_finds_all_single : ∃ entries, Sorted entries ∧ AgreesWithGetValue 2 single 1 entries ∧
    ∀ steps, entries.length < steps → Prog.Served (exec .zeros) Granted (scanAll 2 1 steps) single →
      ∃ s', Prog.run (exec .zeros) (scanAll 2 1 steps) single = .ok (entries,s') :=
  scan_finds_all single_reached (by decide)

/-! ### From a key -/

/-- Behind the last entry of a leaf there is an unused slot. -/
theorem does_value_behind {Q : Entry → Store BPlusTreePage → Prop} (along : Along F (l :: rest)) (fits : l.entries.length ≤ 253)
    (own : Owns s F pins) (pinned : l.id ∈ pins) (goal : ∀ e, Q e s) :
    Does (BPlusTreeIterator.value { currPageId := l.id, currIndex := l.entries.length, currPage := some l.id }) Q s := by
  obtain ⟨par,held⟩ := along.held l List.mem_cons_self
  simp only [BPlusTreeIterator.value,deref,Prog.ofOption,Does,Prog.wp_bind,Prog.wp_ret]
  refine does_readLeaf own held pinned (fun page shows => ?_)
  refine does_inBounds (Vector.getElem?_eq_getElem (by omega)) ?_
  exact does_inBounds (Vector.getElem?_eq_getElem (by omega)) (goal _)

/-- From behind the last entry of a leaf a scan finds what is in that slot, and then the
    leaves after it. -/
theorem does_scan_behind {Q : List Entry → Store BPlusTreePage → Prop} (along : Along F (l :: rest)) (fits : l.entries.length ≤ 253)
    (enough : (entriesOf rest).length + 1 < steps) (own : Owns s F (l.id ::ₘ pins))
    (goal : ∀ s' e, Owns s' F pins → Q (e :: entriesOf rest) s') :
    Does (scan steps { currPageId := l.id, currIndex := l.entries.length, currPage := some l.id }) Q s := by
  obtain ⟨steps,rfl⟩ := Nat.exists_eq_succ_of_ne_zero (show steps ≠ 0 by omega)
  obtain ⟨par,held⟩ := along.held l List.mem_cons_self
  have inFile : l.id ≠ INVALID_PAGE_ID := own.ne_invalid (Multiset.mem_map_of_mem Prod.fst held)
  have more : BPlusTreeIterator.equal { currPageId := l.id, currIndex := l.entries.length, currPage := some l.id }
      { currPageId := INVALID_PAGE_ID, currIndex := 0, currPage := none } = false := by
    simp [BPlusTreeIterator.equal,inFile]
  simp only [scan,Does,Prog.wp_bind,endIterator,BPlusTreeIterator.create,if_true,Prog.wp_pure,more,Bool.false_eq_true,if_false]
  refine does_value_behind along fits own (by simp) (fun e => ?_)
  refine does_next_leaf along (by omega) own (fun s₁ own => ?_)
  exact does_scan_leaves _ along.tail (by omega) own (fun s₂ own => goal s₂ e own)

/-- `FindLeafPage` as a path through the pages: the leaf for a key. -/
inductive RoutesTo (s : Store BPlusTreePage) (key : Key) : PageId → BPlusTreeLeafPage → Prop
  | leaf {p : PageId} {page : BPlusTreeLeafPage} : s.data p = some (.leaf page) → RoutesTo s key p page
  | internal {p child : PageId} {page : BPlusTreeInternalPage} {leaf : BPlusTreeLeafPage} : s.data p = some (.internal page) →
      page.lookup key = some child → RoutesTo s key child leaf → RoutesTo s key p leaf

theorem RoutesTo.unique {p : PageId} {first second : BPlusTreeLeafPage} (here : RoutesTo s key p first)
    (there : RoutesTo s key p second) : first = second := by
  induction here with
  | leaf data =>
    cases there with
    | leaf data' => simpa [data] using data'
    | internal data' _ _ => simp [data] at data'
  | internal data lookup _ ih =>
    cases there with
    | leaf data' => simp [data] at data'
    | internal data' lookup' later =>
      obtain rfl : _ = _ := by simpa [data] using data'
      obtain rfl := Option.some.inj (lookup.symm.trans lookup')
      exact ih later

theorem RoutesTo.congr {s' : Store BPlusTreePage} {p : PageId} {page : BPlusTreeLeafPage} (routes : RoutesTo s' key p page)
    (same : s'.data = s.data) : RoutesTo s key p page := by
  induction routes with
  | leaf data => exact .leaf (same ▸ data)
  | internal data lookup _ ih => exact .internal (same ▸ data) lookup ih

/-- A tree has a leaf for every key. -/
theorem exists_route : ∀ {h : Nat} (t : Tree h) {parent : PageId} {lo hi : Option Key} {F : Cells},
    Owns s (cells parent t + F) pins → t.Ordered lo hi → AtLeast lo key → Under hi key → ∃ leaf, RoutesTo s key t.id leaf
  | 0, t, parent, lo, hi, F, own, _, _, _ => by
    obtain ⟨id,next,es,rfl⟩ := tree_leaf t
    rw [cells_leaf] at own
    obtain ⟨page,data,_⟩ := stored_leaf own mem_here
    exact ⟨page,.leaf data⟩
  | h + 1, t, parent, lo, hi, F, own, ordered, above, below => by
    obtain ⟨id,children,rfl⟩ := tree_branch t
    obtain ⟨inhabited,within⟩ := ordered_branch.mp ordered
    obtain ⟨L,⟨k,child⟩,R,rfl,left,right,childAbove,childBelow⟩ := exists_child ordered_gap inhabited within above below
    obtain ⟨_,ordered',_⟩ := within_append.mp within
    have own₁ := own
    rw [cells_branch,add_assoc] at own₁
    obtain ⟨page,data,shows⟩ := stored_internal own₁ mem_here
    obtain ⟨G,parts⟩ : ∃ G, cells parent (mkBranch id (L ++ (k,child) :: R)) = cells id child + G :=
      cells_child (c := (k,child)) (by simp)
    obtain ⟨leaf,routes⟩ := exists_route child (own.reorder (by rw [parts,add_assoc])) ordered' childAbove childBelow
    exact ⟨leaf,.internal data (lookup_child shows left right) routes⟩

theorem RoutesTo.stored {p : PageId} {leaf : BPlusTreeLeafPage} (routes : RoutesTo s key p leaf) : ∃ page, s.data p = some page := by
  cases routes with
  | leaf data => exact ⟨_,data⟩
  | internal data => exact ⟨_,data⟩

/-- A pool that always has a frame serves the descent along a route. -/
theorem RoutesTo.served {p : PageId} {leaf : BPlusTreeLeafPage} (routes : RoutesTo s key p leaf) (absent : s.data INVALID_PAGE_ID = none) :
    ∀ {fuel : Nat} {s' : Store BPlusTreePage}, s'.data = s.data → s'.script = [] → p ∈ s'.pins →
      Prog.Served (exec .zeros) Granted (descend key fuel (some p)) s' := by
  induction routes with
  | leaf data =>
    intro fuel s' same script pinned
    cases fuel with
    | zero => trivial
    | succ fuel =>
      simp only [descend,deref,Prog.ofOption,getData,Prog.perform,Prog.bind_eq,Prog.bind,Prog.Served,exec,pinned,same,data,
        if_true,Granted,true_and]
      trivial
  | @internal p child page leaf data lookup later ih =>
    intro fuel s' same script pinned
    cases fuel with
    | zero => trivial
    | succ fuel =>
      obtain ⟨content,stored⟩ := later.stored
      have valid : child ≠ INVALID_PAGE_ID := by
        rintro rfl
        rw [absent] at stored
        cases stored
      simp only [descend,deref,Prog.ofOption,getData,unpinPage,fetchPage,inBounds,Prog.perform,Prog.bind_eq,Prog.bind,Prog.Served,
        exec,pinned,same,data,lookup,if_true,Granted,true_and,if_neg valid,script,List.headD_nil,Bool.false_eq_true,if_false,stored]
      exact ⟨by simp,ih rfl rfl (Multiset.mem_cons_self _ _)⟩

theorem run_inBounds {α : Type} {result : Option α} {value : α} {s' : Store BPlusTreePage}
    (ran : Prog.run (exec .zeros) (inBounds result) s = .ok (value,s')) : result = some value ∧ s' = s := by
  cases result with
  | none => cases ran
  | some found =>
    cases ran
    exact ⟨rfl,rfl⟩

/-- What the loop of `FindLeafPage` ends at is the leaf for the key. -/
theorem descend_routes : ∀ {fuel : Nat} {p q : PageId} {s s' : Store BPlusTreePage},
    Prog.run (exec .zeros) (descend key fuel (some p)) s = .ok (q,s') →
    s'.data = s.data ∧ ∃ page, s.data q = some (.leaf page) ∧ RoutesTo s key p page
  | fuel + 1, p, q, s, s', ran => by
    rw [descend] at ran
    obtain ⟨_,_,⟨⟩,looped⟩ := Prog.run_bind_ok ran
    obtain ⟨content,s₁,read,matched⟩ := Prog.run_bind_ok looped
    obtain ⟨data,rfl⟩ := run_getData read
    cases content with
    | leaf page =>
      cases matched
      exact ⟨rfl,page,data,.leaf data⟩
    | internal page =>
      obtain ⟨child,s₂,found,unpinned⟩ := Prog.run_bind_ok matched
      obtain ⟨lookup,rfl⟩ := run_inBounds found
      obtain ⟨_,s₃,released,fetching⟩ := Prog.run_bind_ok unpinned
      obtain ⟨page',s₄,fetched,descended⟩ := Prog.run_bind_ok fetching
      obtain ⟨same,bound⟩ := run_fetchPage fetched
      have still : s₄.data = s₂.data := same.trans (run_unpinPage released)
      cases page' with
      | none => cases fuel <;> cases descended
      | some child' =>
        obtain rfl := bound child' rfl
        obtain ⟨kept,leaf,here,routes⟩ := descend_routes descended
        exact ⟨kept.trans still,leaf,still ▸ here,.internal data lookup (routes.congr still)⟩

theorem findLeafPage_routes {root q : PageId} {s' : Store BPlusTreePage}
    (ran : Prog.run (exec .zeros) (findLeafPage fuel root key) s = .ok (some q,s')) :
    s'.data = s.data ∧ ∃ page, s.data q = some (.leaf page) ∧ RoutesTo s key root page := by
  rw [findLeafPage] at ran
  split_ifs at ran
  · cases ran
  obtain ⟨page,s₁,fetched,descending⟩ := Prog.run_bind_ok ran
  obtain ⟨same,bound⟩ := run_fetchPage fetched
  obtain ⟨q',s₂,descended,returned⟩ := Prog.run_bind_ok descending
  cases returned
  cases page with
  | none => cases fuel <;> cases descended
  | some root' =>
    obtain rfl := bound root' rfl
    obtain ⟨kept,leaf,here,routes⟩ := descend_routes descended
    exact ⟨kept.trans same,leaf,same ▸ here,routes.congr same⟩

/-- Some key of the leaf for the key is not below it. An empty tree has no leaf. -/
def StartsInLeaf (s : Store BPlusTreePage) (root : PageId) (key : Key) : Prop :=
  ∀ leaf, RoutesTo s key root leaf → ∃ i, i < leaf.size ∧ ∃ k, leaf.keys[i]? = some k ∧ key ≤ k

/-- The entries from a key on. -/
def entriesFrom (entries : List Entry) (key : Key) : List Entry := entries.filter (fun e => decide (key ≤ e.1))

theorem entriesFrom_cut {C D : List Entry} (before : ∀ e ∈ C, e.1 < key) (after : ∀ e ∈ D, key ≤ e.1) :
    entriesFrom (C ++ D) key = D := by
  have none : C.filter (fun e => decide (key ≤ e.1)) = [] :=
    List.filter_eq_nil_iff.mpr (fun e member => by simpa using before e member)
  have all : D.filter (fun e => decide (key ≤ e.1)) = D :=
    List.filter_eq_self.mpr (fun e member => by simpa using after e member)
  rw [entriesFrom,List.filter_append,none,all,List.nil_append]

/-- Whether a leaf that is cut at a key has entries from it on. -/
theorem keys_from {page : BPlusTreeLeafPage} (holds : page.Holds (A ++ B)) (left : ∀ e ∈ A, e.1 < key)
    (right : ∀ e ∈ B, key ≤ e.1) : (∃ i, i < page.size ∧ ∃ k, page.keys[i]? = some k ∧ key ≤ k) ↔ B ≠ [] := by
  have size := holds.size
  constructor
  · rintro ⟨i,inside,k,here,above⟩ rfl
    rw [List.append_nil] at holds size
    rw [holds.keys i (by simpa [size] using inside)] at here
    obtain ⟨e,member,rfl⟩ := List.mem_map.mp (List.mem_of_getElem? here)
    exact absurd (left e member) (not_lt.mpr above)
  · intro inhabited
    obtain ⟨e,B,rfl⟩ := List.exists_cons_of_ne_nil inhabited
    refine ⟨A.length,by simp [size],e.1,?_,right e List.mem_cons_self⟩
    rw [holds.keys A.length (by simp)]
    simp

theorem Along.suffix {C : List LeafNode} (along : Along F (C ++ ls)) : Along F ls :=
  ⟨(linked_append.mp along.linked).2,fun l member => along.held l (List.mem_append_right C member),
    fun l member => along.inhabited l (List.mem_append_right C member)⟩

/-- A scan from a key finds the entries from it on unless it starts behind a leaf. -/
theorem does_scanFrom (valid : Valid T) (lower : h < fuel) (enough : (entriesOf T.leaves).length + 1 < steps)
    (own : Owns s (cells INVALID_PAGE_ID T + F) pins) :
    Does (scanFrom fuel T.id key steps) (fun found _ =>
      found = entriesFrom (entriesOf T.leaves) key ↔ StartsInLeaf s T.id key) s := by
  have inFile : T.id ≠ INVALID_PAGE_ID :=
    own.ne_invalid (Multiset.mem_map_of_mem Prod.fst (Multiset.mem_add.mpr (.inl mem_cells)))
  have located : Does (findLeafPage fuel T.id key) (fun page s' => ∃ path leaf, page = some leaf.id ∧
      Reaches T.id h T.leaves (cells INVALID_PAGE_ID T) key path leaf ∧
      Owns s' (cells INVALID_PAGE_ID T + F) (leaf.id ::ₘ pins)) s :=
    does_findLeafPage valid lower own (fun s' path leaf reaches own => ⟨path,leaf,rfl,reaches,by rw [← reaches.pages]; exact own⟩)
  simp only [scanFrom,beginAt,if_neg inFile,Does,Prog.wp_bind]
  refine Prog.wp_mono ?_ (Prog.wp_run located)
  rintro page s₁ ⟨⟨path,leaf,rfl,reaches,own₁⟩,ran⟩
  obtain ⟨id,next,es,rfl⟩ := tree_leaf leaf
  obtain ⟨entries,sorted,before,after⟩ := reaches.entries
  obtain ⟨A,B,rfl,left,right⟩ := exists_cut sorted key
  have along : Along (cells INVALID_PAGE_ID T + F) (⟨id,next,A ++ B⟩ :: path.after) := by
    have all := valid_along (F := F) valid
    rw [← reaches.leaves] at all
    exact Along.suffix (C := path.before) (by simpa [Path.leaves] using all)
  obtain ⟨par,held⟩ := along.held _ List.mem_cons_self
  have found : entriesFrom (entriesOf T.leaves) key = B ++ entriesOf path.after := by
    rw [entries,← List.append_assoc,List.append_assoc]
    refine entriesFrom_cut (fun e member => ?_) (fun e member => ?_)
    · rcases List.mem_append.mp member with inBefore | inLeaf
      · exact before e inBefore
      · exact left e inLeaf
    · rcases List.mem_append.mp member with inLeaf | inAfter
      · exact right e inLeaf
      · exact (after e inAfter).le
  have ready : StartsInLeaf s T.id key ↔ B ≠ [] := by
    obtain ⟨same,page,data,routes⟩ := findLeafPage_routes ran
    obtain ⟨page',data',shows⟩ := stored_leaf own₁ held
    obtain rfl : page = page' := BPlusTreePage.leaf.inj (Option.some.inj (data.symm.trans (same ▸ data')))
    rw [← keys_from shows.holds left right]
    exact ⟨fun starts => starts page routes,fun inside leaf routes' => routes.unique routes' ▸ inside⟩
  simp only [Prog.wp_bind]
  refine does_readLeaf own₁ held (by simp) (fun page shows => ?_)
  refine does_inBounds (BPlusTreeLeafPage.keyIndex_spec shows.holds left right) ?_
  refine wp_unpinPage own₁ (fun s₂ own₂ => ?_)
  have inFile' : id ≠ INVALID_PAGE_ID := own₂.ne_invalid (Multiset.mem_map_of_mem Prod.fst held)
  rw [id_leaf,BPlusTreeIterator.create,if_neg inFile',Prog.wp_bind]
  refine wp_fetchPage own₂ held (fun s₃ own₃ => ?_)
  rw [found,ready]
  have total : (entriesOf path.before ++ (A ++ B) ++ entriesOf path.after).length + 1 < steps := entries ▸ enough
  simp only [List.length_append] at total
  cases B with
  | nil =>
    have fits : (A ++ []).length ≤ 253 := by simpa using reaches.most
    have count : A.length = (A ++ ([] : List Entry)).length := by simp
    rw [count]
    refine does_scan_behind along fits (by omega) own₃ (fun s₄ e _ => ?_)
    simp
  | cons e B =>
    refine does_scan_within along rfl (by simp at total ⊢; omega) own₃ (fun s₄ _ => ?_)
    simp

/-- From every tree that calls build, a scan from `Begin` at a key ends. It finds the
    entries from the key on, in order, if and only if the tree is empty or some key of
    the leaf for the key is not below it. -/
theorem scan_finds_from {n : Nat} {root : PageId} (reached : Reached fuel n s root) (enough : n ≤ fuel) :
    ∃ entries, Sorted entries ∧ AgreesWithGetValue fuel s root entries ∧
      ∀ key steps, entries.length + 1 < steps → Prog.Served (exec .zeros) Granted (scanFrom fuel root key steps) s →
        ∃ found s', Prog.run (exec .zeros) (scanFrom fuel root key steps) s = .ok (found,s') ∧
          (found = entriesFrom entries key ↔ StartsInLeaf s root key) := by
  obtain ⟨m,F,pins,⟨rfl,_,own⟩ | ⟨h,T,lower,valid,rfl,_,own⟩⟩ := reached.represents
  · refine ⟨[],by simp [Sorted],agrees_empty,fun key steps more served => ?_⟩
    have does : Does (scanFrom fuel INVALID_PAGE_ID key steps) (fun found _ => found = []) s := by
      simp only [scanFrom,beginAt,if_true,endIterator,BPlusTreeIterator.create,Does,Prog.wp_bind,Prog.wp_pure]
      exact does_scan_end (by omega) rfl
    obtain ⟨found,s',ran,rfl⟩ := Prog.run_of_wp does served
    refine ⟨[],s',ran,fun _ leaf routes => ?_,fun _ => rfl⟩
    have absent : s.data INVALID_PAGE_ID = none := by
      by_contra there
      exact own.ne_invalid (own.covered _ there) rfl
    cases routes with
    | leaf data => simp [absent] at data
    | internal data _ _ => simp [absent] at data
  · refine ⟨entriesOf T.leaves,ordered_sorted _ _ T valid.ordered,agrees_tree valid (by omega) own,fun key steps more served => ?_⟩
    obtain ⟨found,s',ran,exactly⟩ := Prog.run_of_wp (does_scanFrom valid (by omega) more own) served
    exact ⟨found,s',ran,exactly⟩

end

/-- The tree with one key. -/
theorem scan_finds_from_single : ∃ entries, Sorted entries ∧ AgreesWithGetValue 2 single 1 entries ∧
    ∀ key steps, entries.length + 1 < steps → Prog.Served (exec .zeros) Granted (scanFrom 2 1 key steps) single →
      ∃ found s', Prog.run (exec .zeros) (scanFrom 2 1 key steps) single = .ok (found,s') ∧
        (found = entriesFrom entries key ↔ StartsInLeaf single 1 key) :=
  scan_finds_from single_reached (by decide)

/-- In the tree with the key 7, a scan from 8 finds an entry with the key 0. -/
theorem scan_finds_unused_slot :
    (∃ s', Prog.run (exec .zeros) (scanFrom 2 1 8 2) single = .ok ([(0,⟨0,0⟩)],s')) ∧
    ¬ ∀ (fuel n steps : Nat) (s s' : Store BPlusTreePage) (root : PageId) (key : Key) (found : List Entry),
      Reached fuel n s root → n ≤ fuel → Prog.Served (exec .zeros) Granted (scanFrom fuel root key steps) s →
      Prog.run (exec .zeros) (scanFrom fuel root key steps) s = .ok (found,s') → ∀ e ∈ found, key ≤ e.1 := by
  have ran : ∃ s', Prog.run (exec .zeros) (scanFrom 2 1 8 2) single = .ok ([(0,⟨0,0⟩)],s') := ⟨_,rfl⟩
  refine ⟨ran,fun sound => ?_⟩
  obtain ⟨s',ran⟩ := ran
  have above := sound 2 1 2 single s' 1 8 [(0,⟨0,0⟩)] single_reached (by decide) (by decide +kernel) ran (0,⟨0,0⟩) (by simp)
  exact absurd above (by decide)

end Aether.TreeScan
