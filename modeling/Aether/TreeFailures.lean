import Aether.TreeNullPages
import Aether.TreeScan
import Aether.Runs

/-!
Insertions and deletions with a pool that runs out of frames. As long as it does
not, every call changes the map that `GetValue` shows as its answer says and keeps
the tree in order. `Insert` puts the entry into the leaf before it asks for the
page of the other half, and returns false when it gets none.
-/
namespace Aether.TreeFailures
open Aether.Programs Aether.Types Aether.PageStore Aether.LeafPage Aether.InternalPage Aether.BPlusTree
open Aether.SortedLists Aether.Separators Aether.TreeModel Aether.TreePages Aether.TreeSearch Aether.TreeInsert
open Aether.TreeMap Aether.TreeInvariant Aether.TreePins Aether.TreeNullPages Aether.TreeScan Aether.Runs

/-! ### Runs of calls -/

/-- A tree in use. -/
structure Index where
  store : Store BPlusTreePage
  root : PageId

/-- A request, and which calls of the pool will return null. -/
structure Call where
  request : Request
  script : List Bool

/-- The program of a request. Its loops are given as many rounds as the file has
    pages. -/
def Index.program (index : Index) (request : Request) : Action (Response × PageId) :=
  serve index.store.numPages.toNat index.root request

/-- The store with the pool as it will answer. -/
def Index.poised (index : Index) (script : List Bool) : Store BPlusTreePage := { index.store with script }

/-- The answer to a call and the tree after it, unless there is a fault. -/
def answer (index : Index) (call : Call) : Option (Response × Index) :=
  match Prog.run (exec .zeros) (index.program call.request) (index.poised call.script) with
  | .error _ => none
  | .ok ((response,root),store) => some (response,{ store, root })

/-- A call, or another user of the pool who takes or releases a pin. -/
inductive Move
  | call (call : Call)
  | pin (p : PageId)
  | unpin (p : PageId) (isDirty : Bool)

def next (index : Index) : Move → Option Index
  | .call call => (answer index call).map Prod.snd
  | .pin p => (exec .zeros (.fetchPage p) index.store).toOption.map (fun done => { index with store := done.2 })
  | .unpin p isDirty =>
    (exec .zeros (.unpinPage p isDirty) index.store).toOption.map (fun done => { index with store := done.2 })

/-! ### All or nothing -/

/-- `GetValue` shows the map. -/
def Reads (index : Index) (m : Entries) : Prop := ∀ key, ∃ after, answer index ⟨.getValue key,[]⟩ = some (.value (m key),after)

/-- What a request does to a map when it is answered so. -/
def accepted (m : Entries) : Request → Response → Entries
  | .insert key value, .status true => Function.update m key (some value)
  | .delete key, .status true => Function.update m key none
  | _, _ => m

/-- The map changes as the answer says, an insertion that is refused changes no page,
    and the keys, the parent pointers and the sizes of the pages are in order. -/
structure AllOrNothing (index : Index) (request : Request) (response : Response) (index' : Index) : Prop where
  map : ∀ m, Reads index m → Reads index' (accepted m request response)
  refused : ∀ key value, request = .insert key value → response = .status false →
    index'.root = index.root ∧ index'.store.data = index.store.data
  sound : index'.root ≠ INVALID_PAGE_ID → Sound index'.store index'.root

/-- No call of the pool returns null, unless the tree is empty. -/
def Unfailing (index : Index) : Move → Prop
  | .call call => index.root = INVALID_PAGE_ID ∨
      Prog.Served (exec .zeros) Granted (index.program call.request) (index.poised call.script)
  | .pin _ => True
  | .unpin _ _ => True

instance (index : Index) : ∀ move, Decidable (Unfailing index move)
  | .call _ => inferInstanceAs (Decidable (_ ∨ _))
  | .pin _ => isTrue trivial
  | .unpin _ _ => isTrue trivial

section
variable {s s' : Store BPlusTreePage} {pins : Multiset PageId} {F : Cells} {h fuel n : Nat} {key : Key} {value : RID}
variable {s₁ : Store BPlusTreePage} {leaf leaf' : BPlusTreeLeafPage} {newSize : Nat}
variable {root root' p : PageId} {m : Entries} {T : Tree h} {index index' : Index} {request : Request} {response : Response}

/-! ### The bound on the loops -/

/-- A tree has a page on every level. -/
theorem height_lt_card : ∀ {h : Nat} (t : Tree h) {parent : PageId} {lo hi : Option Key}, t.Ordered lo hi → h < (cells parent t).card
  | 0, t, parent, lo, hi, _ => by
    obtain ⟨id,next,es,rfl⟩ := tree_leaf t
    simp [cells_leaf]
  | h + 1, t, parent, lo, hi, ordered => by
    obtain ⟨id,children,rfl⟩ := tree_branch t
    obtain ⟨inhabited,within⟩ := ordered_branch.mp ordered
    cases children with
    | nil => exact absurd rfl inhabited
    | cons c rest =>
      have below : h < (cells id c.2).card := height_lt_card c.2 within.1
      rw [cells_branch,cellsOf_cons]
      simp only [Multiset.card_add,Multiset.card_singleton]
      omega

/-- The file has more pages than a tree has levels. -/
theorem height_lt_numPages (valid : Valid T) (own : Owns s (cells INVALID_PAGE_ID T + F) pins) : h < s.numPages.toNat := by
  have levels : h < (cells INVALID_PAGE_ID T).card := height_lt_card T valid.ordered
  have distinct : ((cells INVALID_PAGE_ID T + F).map Prod.fst).toList.Nodup :=
    Multiset.coe_nodup.mp (by rw [Multiset.coe_toList]; exact own.distinct)
  have count := own.wellFormed.count distinct (fun q member => own.allocated (Multiset.mem_toList.mp member))
  rw [Multiset.length_toList,Multiset.card_map,Multiset.card_add] at count
  omega

/-- As many rounds as the file has pages are enough. -/
theorem represents_here (represents : Represents n s root m) : Represents s.numPages.toNat s root m := by
  obtain ⟨F,pins,⟨empty,none,own⟩ | ⟨h,T,_,valid,top,same,own⟩⟩ := represents
  · exact ⟨F,pins,.inl ⟨empty,none,own⟩⟩
  · exact ⟨F,pins,.inr ⟨h,T,height_lt_numPages valid own,valid,top,same,own⟩⟩

theorem represents_rescript (represents : Represents n s root m) (script : List Bool) : Represents n { s with script } root m := by
  obtain ⟨F,pins,⟨empty,none,own⟩ | ⟨h,T,lower,valid,top,same,own⟩⟩ := represents
  · exact ⟨F,pins,.inl ⟨empty,none,own.rescript script⟩⟩
  · exact ⟨F,pins,.inr ⟨h,T,lower,valid,top,same,own.rescript script⟩⟩

/-- The index shows a map and is in order. -/
def Shows (index : Index) (m : Entries) : Prop := Represents index.store.numPages.toNat index.store index.root m

/-! ### Reading -/

theorem served_findLeafPage (shows : Shows index m) (key : Key) (fuel : Nat) :
    Prog.Served (exec .zeros) Granted (findLeafPage fuel index.root key) (index.poised []) := by
  obtain ⟨F,pins,⟨empty,_,_⟩ | ⟨h,T,_,valid,top,_,own⟩⟩ := shows
  · rw [findLeafPage,if_pos empty]
    trivial
  · obtain ⟨leaf,routes⟩ : ∃ leaf, RoutesTo index.store key T.id leaf := exists_route T own valid.ordered trivial trivial
    rw [← top] at routes
    obtain ⟨page,stored⟩ := routes.stored
    have inFile : index.root ≠ INVALID_PAGE_ID := by
      rw [top]
      exact own.ne_invalid (Multiset.mem_map_of_mem Prod.fst (Multiset.mem_add.mpr (.inl mem_cells)))
    have fetched : exec .zeros (.fetchPage index.root) (index.poised []) =
        .ok (some index.root,{ index.poised [] with pins := index.root ::ₘ index.store.pins }) := by
      simp [exec,Index.poised,inFile,stored]
    rw [findLeafPage,if_neg inFile]
    refine Prog.served_bind_iff.mpr ⟨?_,fun found s' ran => Prog.served_bind_iff.mpr ⟨?_,fun _ _ _ => trivial⟩⟩
    · simp only [fetchPage,Prog.perform,Prog.Served,fetched]
      exact ⟨Option.some_ne_none _,trivial⟩
    · simp only [fetchPage,Prog.perform,Prog.run,fetched] at ran
      cases ran
      exact routes.served (invalid_unused own.wellFormed) rfl rfl (Multiset.mem_cons_self _ _)

theorem served_getValue (served : Prog.Served (exec .zeros) Granted (findLeafPage fuel root key) s) :
    Prog.Served (exec .zeros) Granted (getValue fuel root key) s := by
  unfold getValue
  split
  · trivial
  · refine Prog.served_bind_iff.mpr ⟨served,fun found s' _ => ?_⟩
    cases found with
    | none => trivial
    | some page =>
      refine Prog.served_bind_iff.mpr ⟨granted_readLeaf,fun leaf s₁ _ => ?_⟩
      refine Prog.served_bind_iff.mpr ⟨granted_inBounds,fun status s₂ _ => ?_⟩
      exact Prog.served_bind_iff.mpr ⟨granted_perform (fun _ => trivial),fun _ _ _ => trivial⟩

/-- `GetValue` shows the map of the tree, and no other one. -/
theorem reads_iff (shows : Shows index m) {m' : Entries} : Reads index m' ↔ m' = m := by
  have reads : Reads index m := by
    intro key
    have served := served_getValue (served_findLeafPage shows key index.store.numPages.toNat)
    have does := does_serve (represents_rescript shows []) (le_refl _) (.getValue key)
    obtain ⟨⟨response,root⟩,s',ran,answered,_⟩ := Prog.run_of_wp does (Prog.served_bind_iff.mpr ⟨served,fun _ _ _ => trivial⟩)
    refine ⟨⟨s',root⟩,?_⟩
    have same : response = .value (m key) := answered
    simp only [answer,Index.program,Index.poised,ran,same]
  constructor
  · intro reads'
    funext key
    obtain ⟨after,answered⟩ := reads key
    obtain ⟨after',answered'⟩ := reads' key
    rw [answered] at answered'
    simp only [Option.some.injEq,Prod.mk.injEq,Response.value.injEq] at answered'
    exact answered'.1.symm
  · rintro rfl
    exact reads

/-! ### Refused insertions -/

/-- An insertion that is refused although no page was null changes no page. -/
theorem insert_false (served : Prog.Served (exec .zeros) Granted (BPlusTree.insert fuel root key value) s)
    (ran : Prog.run (exec .zeros) (BPlusTree.insert fuel root key value) s = .ok ((false,root'),s')) :
    root' = root ∧ s'.data = s.data := by
  by_cases empty : root = INVALID_PAGE_ID
  · rw [BPlusTree.insert,if_pos empty] at served ran
    obtain ⟨made,s₁,created,rest⟩ := Prog.run_bind_ok ran
    cases made with
    | none => exact absurd rfl (Prog.served_perform (Prog.served_bind served) created)
    | some newRoot =>
      obtain ⟨inserted,s₂,_,rest⟩ := Prog.run_bind_ok rest
      obtain ⟨_,s₃,_,rest⟩ := Prog.run_bind_ok rest
      obtain ⟨_,s₄,_,rest⟩ := Prog.run_bind_ok rest
      cases rest
  · rw [BPlusTree.insert,if_neg empty] at served ran
    obtain ⟨found,s₁,descended,rest⟩ := Prog.run_bind_ok ran
    have served₁ := Prog.served_next served descended
    cases found with
    | none =>
      rw [findLeafPage,if_neg empty] at descended
      obtain ⟨_,_,_,rest⟩ := Prog.run_bind_ok descended
      obtain ⟨_,_,_,rest⟩ := Prog.run_bind_ok rest
      cases rest
    | some page =>
      obtain ⟨same,_⟩ := findLeafPage_routes descended
      obtain ⟨leaf,s₂,read,rest₁⟩ := Prog.run_bind_ok rest
      have served₂ := Prog.served_next served₁ read
      obtain ⟨stored,rfl⟩ := run_readLeaf read
      obtain ⟨⟨newSize,leaf'⟩,s₃,computed,rest₂⟩ := Prog.run_bind_ok rest₁
      have served₃ := Prog.served_next served₂ computed
      obtain ⟨inserted,rfl⟩ := run_inBounds computed
      obtain ⟨_,s₄,wrote,rest₃⟩ := Prog.run_bind_ok rest₂
      have served₄ := Prog.served_next served₃ wrote
      split at rest₃
      · rename_i refused
        subst refused
        obtain ⟨_,s₅,released,rest₄⟩ := Prog.run_bind_ok rest₃
        cases rest₄
        refine ⟨rfl,?_⟩
        rw [run_unpinPage released,run_setData wrote,BPlusTreeLeafPage.insert_unchanged inserted,Function.update_eq_self_iff.mpr stored.symm,same]
      · rename_i grown
        rw [if_neg grown] at served₄
        split at rest₃
        · obtain ⟨_,s₅,_,rest₄⟩ := Prog.run_bind_ok rest₃
          cases rest₄
        · rename_i full
          rw [if_neg full] at served₄
          obtain ⟨made,s₅,created,rest₄⟩ := Prog.run_bind_ok rest₃
          cases made with
          | none => exact absurd rfl (Prog.served_perform (Prog.served_bind served₄) created)
          | some newPage =>
            obtain ⟨_,s₆,_,rest₅⟩ := Prog.run_bind_ok rest₄
            obtain ⟨_,s₇,_,rest₆⟩ := Prog.run_bind_ok rest₅
            obtain ⟨_,s₈,_,rest₇⟩ := Prog.run_bind_ok rest₆
            obtain ⟨_,s₉,_,rest₈⟩ := Prog.run_bind_ok rest₇
            cases rest₈

/-! ### Every call -/

/-- The map changes as its answer says. -/
theorem accepted_respond (m : Entries) (request : Request) : accepted m request (respond m request).1 = (respond m request).2 := by
  cases request with
  | insert key value => cases held : m key <;> simp [respond,held,accepted]
  | delete key => cases held : m key <;> simp [respond,held,accepted]
  | getValue key => rfl

/-- What a call of the tree leaves behind when the pool does not run out of frames. -/
structure Done (index : Index) (m : Entries) (request : Request) (response : Response) (index' : Index) : Prop where
  shows : Shows index' (accepted m request response)
  refused : ∀ key value, request = .insert key value → response = .status false →
    index'.root = index.root ∧ index'.store.data = index.store.data

/-- A call that is never given a null page. -/
theorem answer_served (shows : Shows index m) {call : Call}
    (served : Prog.Served (exec .zeros) Granted (index.program call.request) (index.poised call.script)) :
    ∃ response index', answer index call = some (response,index') ∧ Done index m call.request response index' := by
  have does := does_serve (represents_rescript shows call.script) (le_refl _) call.request
  obtain ⟨⟨response,root'⟩,s',ran,answered,represents'⟩ := Prog.run_of_wp does served
  have answered : response = (respond m call.request).1 := answered
  refine ⟨response,⟨s',root'⟩,?_,?_,fun key value inserting failed => ?_⟩
  · simp only [answer]
    rw [show Prog.run (exec .zeros) (index.program call.request) (index.poised call.script) = .ok ((response,root'),s') from ran]
  · rw [answered,accepted_respond]
    exact represents_here represents'
  · rw [Index.program,inserting] at served
    rw [inserting,failed] at ran
    obtain ⟨⟨inserted,root₁⟩,s₁,insertRan,returned⟩ := Prog.run_bind_ok ran
    cases returned
    obtain ⟨kept,unchanged⟩ := insert_false (Prog.served_bind served) insertRan
    exact ⟨kept,unchanged⟩

/-- The first insertion asks for one page. -/
theorem served_insert_empty {q : PageId} (handled : exec .zeros .newPage s = .ok (some q,s')) :
    Prog.Served (exec .zeros) Granted (BPlusTree.insert fuel INVALID_PAGE_ID key value) s := by
  rw [BPlusTree.insert,if_pos rfl]
  refine Prog.served_bind_iff.mpr ⟨?_,fun made s₁ created => ?_⟩
  · simp only [newPage,Prog.perform,Prog.Served,handled]
    exact ⟨Option.some_ne_none _,trivial⟩
  · cases made with
    | none => trivial
    | some newRoot =>
      refine Prog.served_bind_iff.mpr ⟨granted_inBounds,fun inserted s₂ _ => ?_⟩
      refine Prog.served_bind_iff.mpr ⟨granted_perform (fun _ => trivial),fun _ s₃ _ => ?_⟩
      exact Prog.served_bind_iff.mpr ⟨granted_perform (fun _ => trivial),fun _ _ _ => trivial⟩

/-- The first insertion with no page left for the root. -/
theorem answer_empty (shows : Shows index m) {call : Call} (empty : index.root = INVALID_PAGE_ID)
    (denied : ¬Prog.Served (exec .zeros) Granted (index.program call.request) (index.poised call.script)) :
    ∃ response index', answer index call = some (response,index') ∧ Done index m call.request response index' := by
  obtain ⟨request,script⟩ := call
  cases request with
  | delete key =>
    refine absurd ?_ denied
    rw [Index.program,serve,delete,if_pos empty]
    trivial
  | getValue key =>
    refine absurd ?_ denied
    rw [Index.program,serve,getValue,if_pos empty]
    trivial
  | insert key value =>
    obtain ⟨F,pins,⟨_,none,own⟩ | ⟨h,T,_,valid,top,_,own⟩⟩ := represents_rescript shows script
    · rcases exec_newPage .zeros own.wellFormed with ⟨handled,_⟩ | ⟨q,rest,count,handled,_⟩
      · refine ⟨.status false,⟨{ index.store with script := script.tail },index.root⟩,?_,?_,fun _ _ _ _ => ⟨rfl,rfl⟩⟩
        · simp [answer,Index.program,Index.poised,serve,BPlusTree.insert,empty,newPage,Prog.run_bind,Prog.perform,Prog.run,handled]
          rfl
        · exact represents_rescript shows script.tail
      · refine absurd ?_ denied
        rw [Index.program,serve,empty]
        exact Prog.served_bind_iff.mpr ⟨served_insert_empty handled,fun _ _ _ => trivial⟩
    · exact absurd (top.symm.trans empty) (own.ne_invalid (Multiset.mem_map_of_mem Prod.fst (Multiset.mem_add.mpr (.inl mem_cells))))

theorem answer_done (shows : Shows index m) {call : Call} (unfailing : Unfailing index (.call call)) :
    ∃ response index', answer index call = some (response,index') ∧ Done index m call.request response index' := by
  by_cases served : Prog.Served (exec .zeros) Granted (index.program call.request) (index.poised call.script)
  · exact answer_served shows served
  · exact answer_empty shows (unfailing.resolve_right served) served

/-! ### Leaves that take an entry -/

/-- `Insert` where the leaf has room, and the pages are as after the descent otherwise. -/
theorem insert_room (inFile : root ≠ INVALID_PAGE_ID)
    (descended : Prog.run (exec .zeros) (findLeafPage fuel root key) s = .ok (some p,s₁)) (pinned : p ∈ s₁.pins)
    (stored : s₁.data p = some (.leaf leaf)) (inserted : leaf.insert key value = some (newSize,leaf')) (grown : newSize ≠ leaf.size)
    (room : newSize ≤ leaf'.maxSize) :
    Prog.run (exec .zeros) (BPlusTree.insert fuel root key value) s = .ok ((true,root),
      { s₁ with data := Function.update s₁.data p (some (.leaf leaf')), pins := s₁.pins.erase p,
                dirty := Function.update s₁.dirty p true }) := by
  rw [BPlusTree.insert,if_neg inFile,Prog.run_bind,descended]
  simp [readLeaf,writeLeaf,getData,setData,unpinPage,inBounds,inserted,Prog.ofOption,Prog.run_bind,Prog.run_pure,Prog.perform,Prog.run,
    exec,pinned,stored,grown,room]

theorem served_insert_room (inFile : root ≠ INVALID_PAGE_ID)
    (descended : Prog.run (exec .zeros) (findLeafPage fuel root key) s = .ok (some p,s₁))
    (served : Prog.Served (exec .zeros) Granted (findLeafPage fuel root key) s) (pinned : p ∈ s₁.pins)
    (stored : s₁.data p = some (.leaf leaf)) (inserted : leaf.insert key value = some (newSize,leaf')) (grown : newSize ≠ leaf.size)
    (room : newSize ≤ leaf'.maxSize) : Prog.Served (exec .zeros) Granted (BPlusTree.insert fuel root key value) s := by
  rw [BPlusTree.insert,if_neg inFile]
  refine Prog.served_bind_iff.mpr ⟨served,fun found s₂ ran => ?_⟩
  rw [descended] at ran
  cases ran
  simp [readLeaf,writeLeaf,getData,setData,unpinPage,inBounds,inserted,Prog.ofOption,Prog.served_bind_iff,granted_pure,Prog.run_bind,
    Prog.run_pure,Prog.perform,Prog.run,Prog.Served,Granted,exec,pinned,stored,grown,room]

theorem answer_insert {script : List Bool} {done : Bool} (ran : Prog.run (exec .zeros)
      (BPlusTree.insert index.store.numPages.toNat index.root key value) (index.poised script) = .ok ((done,root'),s')) :
    answer index ⟨.insert key value,script⟩ = some (.status done,⟨s',root'⟩) := by
  simp only [answer,Index.program,serve,Prog.run_bind,ran,Prog.run_pure]

/-- `Insert` where the leaf overflows and there is no page for the other half: it says
    false, and the leaf keeps the entry. -/
theorem insert_denied (inFile : root ≠ INVALID_PAGE_ID)
    (descended : Prog.run (exec .zeros) (findLeafPage fuel root key) s = .ok (some p,s₁)) (pinned : p ∈ s₁.pins)
    (stored : s₁.data p = some (.leaf leaf)) (inserted : leaf.insert key value = some (newSize,leaf')) (grown : newSize ≠ leaf.size)
    (full : ¬newSize ≤ leaf'.maxSize) (denied : s₁.script.headD false = true) :
    Prog.run (exec .zeros) (BPlusTree.insert fuel root key value) s = .ok ((false,root),
      { s₁ with data := Function.update s₁.data p (some (.leaf leaf')), pins := s₁.pins.erase p,
                dirty := Function.update s₁.dirty p true, script := s₁.script.tail }) := by
  rw [BPlusTree.insert,if_neg inFile,Prog.run_bind,descended]
  rw [List.headD_eq_head?_getD] at denied
  simp [readLeaf,writeLeaf,getData,setData,newPage,unpinPage,inBounds,inserted,Prog.ofOption,Prog.run_bind,Prog.run_pure,Prog.perform,
    Prog.run,exec,pinned,stored,grown,full,denied]

theorem runs_call {start : Index} {call : Call} (runs : Runs next Unfailing start index) (unfailing : Unfailing index (.call call))
    (answered : answer index call = some (response,index')) : Runs next Unfailing start index' := by
  refine Runs.step runs unfailing ?_
  rw [next,answered,Option.map_some]

/-- Entries in ascending order. -/
def ascending (n : Nat) : List Entry := (List.range n).map (fun k => (Int.ofNat k,⟨0,0⟩))

/-- The root is a leaf with these entries. -/
structure RootLeaf (index : Index) (es : List Entry) : Prop where
  inFile : index.root ≠ INVALID_PAGE_ID
  rounds : index.store.numPages.toNat ≠ 0
  leaf : ∃ page, index.store.data index.root = some (.leaf page) ∧ BPlusTreeLeafPage.Holds page es ∧ page.maxSize = 253

theorem run_findLeafPage (script : List Bool) (key : Key) {page : BPlusTreeLeafPage} (inFile : index.root ≠ INVALID_PAGE_ID)
    (rounds : index.store.numPages.toNat ≠ 0) (stored : index.store.data index.root = some (.leaf page))
    (granted : script.headD false = false) :
    Prog.run (exec .zeros) (findLeafPage index.store.numPages.toNat index.root key) (index.poised script) =
        .ok (some index.root,{ index.poised script.tail with pins := index.root ::ₘ index.store.pins }) ∧
      Prog.Served (exec .zeros) Granted (findLeafPage index.store.numPages.toNat index.root key) (index.poised script) := by
  obtain ⟨fuel,enough⟩ := Nat.exists_eq_succ_of_ne_zero rounds
  rw [List.headD_eq_head?_getD] at granted
  rw [enough,findLeafPage,if_neg inFile]
  constructor
  · simp [descend,fetchPage,getData,deref,Index.poised,Prog.ofOption,Prog.run_bind,Prog.run_pure,Prog.perform,Prog.run,exec,inFile,
      stored,granted]
  · simp [descend,fetchPage,getData,deref,Index.poised,Prog.ofOption,Prog.served_bind_iff,granted_pure,Prog.run_bind,
      Prog.perform,Prog.run,Prog.Served,Granted,exec,inFile,stored,granted]

/-- The next entry in ascending order. -/
theorem ascending_insert {page : BPlusTreeLeafPage} (holds : BPlusTreeLeafPage.Holds page (ascending n)) (room : n < 254) :
    ∃ page', page.insert (Int.ofNat n) ⟨0,0⟩ = some (n + 1,page') ∧ BPlusTreeLeafPage.Holds page' (ascending (n + 1)) ∧
      page'.maxSize = page.maxSize ∧ page'.size = n + 1 := by
  have below : ∀ e ∈ ascending n, e.1 < Int.ofNat n := by
    intro e member
    obtain ⟨k,inRange,rfl⟩ := List.mem_map.mp member
    exact Int.ofNat_lt.mpr (List.mem_range.mp inRange)
  have count : (ascending n).length = n := by simp [ascending]
  have split : ascending (n + 1) = ascending n ++ [(Int.ofNat n,⟨0,0⟩)] := by simp [ascending,List.range_succ]
  rw [← List.append_nil (ascending n)] at holds
  obtain ⟨keys,values,inserted,holds'⟩ :=
    BPlusTreeLeafPage.insert_spec holds below (by simp) (by simpa [count] using room) (⟨0,0⟩ : RID)
  simp only [count,List.length_nil,Nat.add_zero] at inserted holds'
  exact ⟨_,inserted,split ▸ holds',rfl,rfl⟩

/-- The first insertion makes the root leaf. -/
theorem answer_first : ∃ index response, answer ⟨Store.empty _,INVALID_PAGE_ID⟩ ⟨.insert (Int.ofNat 0) ⟨0,0⟩,[]⟩ = some (response,index) ∧
    RootLeaf index (ascending 1) := by
  have empty : BPlusTreeLeafPage.Holds (BPlusTreeLeafPage.init 1 INVALID_PAGE_ID) (ascending 0) :=
    BPlusTreeLeafPage.init_holds 1 INVALID_PAGE_ID
  obtain ⟨page,inserted,holds,limit,_⟩ := ascending_insert empty (by omega)
  have inserted : (BPlusTreeLeafPage.init 1 INVALID_PAGE_ID).insert 0 ⟨0,0⟩ = some (1,page) := inserted
  have inFile : (1 : PageId) ≠ INVALID_PAGE_ID := by decide
  refine ⟨⟨{ Store.empty BPlusTreePage with
    data := Function.update (fun _ => none) 1 (some (.leaf page))
    dirty := Function.update (fun _ => false) 1 true
    numPages := 2 },1⟩,.status true,?_,?_⟩
  · refine answer_insert ?_
    rw [BPlusTree.insert,if_pos rfl]
    simp [newPage,writeLeaf,setData,unpinPage,inBounds,inserted,inFile,Index.poised,Store.empty,Store.created,Prog.ofOption,
      Prog.run_bind,Prog.run_pure,Prog.perform,Prog.run,exec]
  · exact ⟨inFile,Nat.succ_ne_zero 1,page,by simp,holds,limit⟩

/-- Insertions in ascending order fill the root leaf. -/
theorem runs_ascending (start : 1 ≤ n) : n ≤ 253 →
    ∃ index, Runs next Unfailing ⟨Store.empty _,INVALID_PAGE_ID⟩ index ∧ RootLeaf index (ascending n) := by
  induction n, start using Nat.le_induction with
  | base =>
    intro _
    obtain ⟨index,response,answered,root⟩ := answer_first
    exact ⟨index,runs_call .refl (.inl rfl) answered,root⟩
  | succ n start ih =>
    intro room
    obtain ⟨index,runs,root⟩ := ih (by omega)
    obtain ⟨page,stored,holds,limit⟩ := root.leaf
    obtain ⟨page',inserted,holds',same,count⟩ := ascending_insert holds (by omega)
    have size : page.size = n := by simpa [ascending] using holds.size
    obtain ⟨descended,served⟩ := run_findLeafPage [] (Int.ofNat n) root.inFile root.rounds stored rfl
    have grown : n + 1 ≠ page.size := by omega
    have fits : n + 1 ≤ page'.maxSize := by omega
    have pinned : index.root ∈ index.root ::ₘ index.store.pins := Multiset.mem_cons_self _ _
    have answered := answer_insert (insert_room root.inFile descended pinned stored inserted grown fits)
    have granted := served_insert_room root.inFile descended served pinned stored inserted grown fits
    refine ⟨_,runs_call runs (.inr ?_) answered,?_⟩
    · exact Prog.served_bind_iff.mpr ⟨granted,fun _ _ _ => trivial⟩
    · exact ⟨root.inFile,root.rounds,page',by simp,holds',by omega⟩

/-! ### Runs without a null page -/

theorem next_shows {move : Move} (shows : Shows index m) (unfailing : Unfailing index move) (moved : next index move = some index') :
    ∃ m', Shows index' m' := by
  cases move with
  | call call =>
    obtain ⟨response,after,answered,done⟩ := answer_done shows unfailing
    simp only [next,answered,Option.map_some,Option.some.injEq] at moved
    exact ⟨_,moved ▸ done.shows⟩
  | pin p =>
    simp only [next] at moved
    cases fetched : exec .zeros (.fetchPage p) index.store with
    | error reason => simp [fetched,Except.toOption] at moved
    | ok done =>
      simp only [fetched,Except.toOption,Option.map_some,Option.some.injEq] at moved
      subst moved
      exact ⟨m,represents_here (represents_fetch shows fetched)⟩
  | unpin p isDirty =>
    simp only [next] at moved
    cases unpinned : exec .zeros (.unpinPage p isDirty) index.store with
    | error reason => simp [unpinned,Except.toOption] at moved
    | ok done =>
      simp only [unpinned,Except.toOption,Option.map_some,Option.some.injEq] at moved
      subst moved
      exact ⟨m,represents_here (represents_unpin shows unpinned)⟩

/-- An index over a store whose pages are not a tree's yet. -/
theorem shows_empty (wellFormed : WellFormed s) : Shows ⟨s,INVALID_PAGE_ID⟩ (fun _ => none) := by
  obtain ⟨F,pins,own⟩ := exists_owns wellFormed
  exact ⟨F,pins,.inl ⟨rfl,fun _ => rfl,own⟩⟩

theorem sound_of_shows (shows : Shows index m) (inhabited : index.root ≠ INVALID_PAGE_ID) : Sound index.store index.root := by
  obtain ⟨F,pins,⟨empty,_,_⟩ | ⟨h,T,_,valid,top,_,own⟩⟩ := shows
  · exact absurd empty inhabited
  · rw [top]
    exact sound_of_owns valid own

theorem Done.allOrNothing (shows : Shows index m) (done : Done index m request response index') :
    AllOrNothing index request response index' := by
  constructor
  · intro m' reads
    rw [(reads_iff shows).mp reads]
    exact (reads_iff done.shows).mpr rfl
  · exact done.refused
  · intro inhabited
    exact sound_of_shows done.shows inhabited

/-- A tree of one entry. -/
def planted : Index :=
  (next ⟨Store.empty _,INVALID_PAGE_ID⟩ (.call ⟨.insert 7 ⟨1,2⟩,[]⟩)).getD ⟨Store.empty _,INVALID_PAGE_ID⟩

end
end Aether.TreeFailures
