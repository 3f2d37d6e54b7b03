import Aether.TreeDelete
import Aether.TreeInsert
import Mathlib.Data.Set.Finite.Basic
import Mathlib.Data.Finite.Defs

/-!
The tree as an ordered finite map. `Represents` relates a store and a root to a
map from keys to values; every request keeps it and answers as the map does, and
so does every sequence of requests from an empty tree.
-/
namespace Aether.TreeMap
open Aether.Programs Aether.Types Aether.PageStore Aether.LeafPage Aether.InternalPage Aether.BPlusTree
open Aether.SortedLists Aether.TreeModel Aether.TreePages Aether.TreeSearch Aether.TreeInsert Aether.TreeDelete

/-! ### Requests -/

inductive Request
  | insert (key : Key) (value : RID)
  | delete (key : Key)
  | getValue (key : Key)

inductive Response
  | status (done : Bool)
  | value (found : Option RID)
  deriving DecidableEq, Repr

def serve (fuel : Nat) (root : PageId) : Request → Action (Response × PageId)
  | .insert key value => do
    let (inserted,root) ← BPlusTree.insert fuel root key value
    pure (.status inserted,root)
  | .delete key => do
    let (deleted,root) ← BPlusTree.delete fuel root key
    pure (.status deleted,root)
  | .getValue key => do
    let found ← BPlusTree.getValue fuel root key
    pure (.value found,root)

/-- The responses to requests in a row, and the root afterwards. -/
def serveAll (fuel : Nat) : PageId → List Request → Action (List Response × PageId)
  | root, [] => pure ([],root)
  | root, request :: rest => do
    let (response,root) ← serve fuel root request
    let (responses,root) ← serveAll fuel root rest
    pure (response :: responses,root)

/-! ### The map -/

/-- A finite map. -/
abbrev Entries := Key → Option RID

/-- What a request answers and does to a map. -/
def respond (m : Entries) : Request → Response × Entries
  | .insert key value =>
    match m key with
    | none => (.status true,Function.update m key (some value))
    | some _ => (.status false,m)
  | .delete key =>
    match m key with
    | none => (.status false,m)
    | some _ => (.status true,Function.update m key none)
  | .getValue key => (.value (m key),m)

def respondAll (m : Entries) : List Request → List Response × Entries
  | [] => ([],m)
  | request :: rest => ((respond m request).1 :: (respondAll (respond m request).2 rest).1,
      (respondAll (respond m request).2 rest).2)

/-- The pages of the store form an empty tree, or a valid one lower than
    `height` with the root and with exactly the entries of the map. -/
def Represents (height : Nat) (s : Store BPlusTreePage) (root : PageId) (m : Entries) : Prop :=
  ∃ (F : Cells) (pins : Multiset PageId),
    (root = INVALID_PAGE_ID ∧ (∀ k, m k = none) ∧ Owns s F pins) ∨
    ∃ (h : Nat) (T : Tree h), h < height ∧ Valid T ∧ root = T.id ∧ (∀ k, m k = get (entriesOf T.leaves) k) ∧
      Owns s (cells INVALID_PAGE_ID T + F) pins

/-- The same, beside pages of which these things are known. -/
def RepresentsIn (height : Nat) (F : Cells) (pins : Multiset PageId) (s : Store BPlusTreePage) (root : PageId) (m : Entries) : Prop :=
  (root = INVALID_PAGE_ID ∧ (∀ k, m k = none) ∧ Owns s F pins) ∨
  ∃ (h : Nat) (T : Tree h), h < height ∧ Valid T ∧ root = T.id ∧ (∀ k, m k = get (entriesOf T.leaves) k) ∧
    Owns s (cells INVALID_PAGE_ID T + F) pins

section
variable {s : Store BPlusTreePage} {pins : Multiset PageId} {F : Cells} {h fuel height : Nat} {key : Key} {value : RID}
variable {root : PageId} {m : Entries} {T : Tree h}

/-- The first insertion creates a root leaf. -/
theorem does_insert_empty {Q : Bool × PageId → Store BPlusTreePage → Prop} (own : Owns s F pins)
    (goal : ∀ s' q, Valid (mkLeaf q INVALID_PAGE_ID [(key,value)]) →
      Owns s' (cells INVALID_PAGE_ID (mkLeaf q INVALID_PAGE_ID [(key,value)]) + F) pins → Q (true,q) s') :
    Does (BPlusTree.insert fuel INVALID_PAGE_ID key value) Q s := by
  rw [BPlusTree.insert,if_pos rfl,Does,Prog.wp_bind]
  refine wp_newPage own (v := fun _ => True) trivial (fun q s₁ fresh own => ?_)
  have empty : (BPlusTreeLeafPage.init q INVALID_PAGE_ID).Holds ([] ++ []) :=
    BPlusTreeLeafPage.init_holds q INVALID_PAGE_ID
  obtain ⟨keys,values,inserted,holds⟩ := BPlusTreeLeafPage.insert_spec empty (by simp) (by simp) (by simp) value
  simp only [Prog.wp_bind]
  refine does_inBounds inserted ?_
  refine does_writeLeaf own (by simp) (⟨rfl,rfl,rfl,rfl,holds⟩ : LeafShows q INVALID_PAGE_ID INVALID_PAGE_ID [(key,value)] _)
    (fun s₂ own => ?_)
  refine wp_unpinPage own (fun s₃ own => goal s₃ q ?_ (own.reorder (by rw [cells_leaf])))
  refine ⟨ordered_leaf.mpr ⟨by simp,by simp [Sorted],by simp⟩,trivial,by simp [rootMinimum],by simp,?_⟩
  simp [Linked,headId]

/-- A new key of a tree's map. -/
theorem respond_insert (same : ∀ k, m k = get (entriesOf T.leaves) k) {entries' : List Entry}
    (added : Added (entriesOf T.leaves) key value entries') :
    (respond m (.insert key value)).1 = .status true ∧ ∀ k, (respond m (.insert key value)).2 k = get entries' k := by
  have absent : m key = none := by rw [same,added.absent]
  simp only [respond,absent,true_and]
  intro k
  rw [added.entries,← same]
  by_cases equal : k = key
  · subst equal; simp
  · simp [equal]

theorem respond_delete (same : ∀ k, m k = get (entriesOf T.leaves) k) {entries' : List Entry}
    (removed : Removed (entriesOf T.leaves) key entries') :
    (respond m (.delete key)).1 = .status true ∧ ∀ k, (respond m (.delete key)).2 k = get entries' k := by
  obtain ⟨value,present⟩ := Option.ne_none_iff_exists'.mp removed.present
  have found : m key = some value := by rw [same,present]
  simp only [respond,found,true_and]
  intro k
  rw [removed.entries,← same]
  by_cases equal : k = key
  · subst equal; simp
  · simp [equal]

/-- A request to an empty tree. -/
theorem does_serve_empty (none : ∀ k, m k = none) (own : Owns s F pins) (request : Request) :
    Does (serve fuel INVALID_PAGE_ID request) (fun out s' => out.1 = (respond m request).1 ∧
      ∃ leaked pins', RepresentsIn (height + 1) (leaked + F) pins' s' out.2 (respond m request).2) s := by
  have alone : ∀ s' root m', RepresentsIn (height + 1) F pins s' root m' →
      ∃ leaked pins', RepresentsIn (height + 1) (leaked + F) pins' s' root m' :=
    fun s' root m' here => ⟨0,pins,by rw [zero_add]; exact here⟩
  cases request with
  | insert key value =>
    rw [serve,Does,Prog.wp_bind]
    refine does_insert_empty own (fun s₁ q valid own => ?_)
    simp only [Prog.wp_pure,respond,none key,true_and]
    refine alone s₁ q _ (.inr ⟨0,_,Nat.succ_pos _,valid,rfl,fun k => ?_,own⟩)
    by_cases equal : k = key
    · subst equal; simp [SortedLists.get]
    · rw [Function.update_of_ne equal,none]
      simp [SortedLists.get,Ne.symm equal]
  | delete key =>
    simp only [serve,delete,if_true,Does,Prog.wp_bind,Prog.wp_pure,respond,none key,true_and]
    exact alone s _ m (.inl ⟨rfl,none,own⟩)
  | getValue key =>
    simp only [serve,getValue,if_true,Does,Prog.wp_bind,Prog.wp_pure,respond,none key,true_and]
    exact alone s _ m (.inl ⟨rfl,none,own⟩)

/-- A request to a valid tree. -/
theorem does_serve_tree (valid : Valid T) (lower : h < height) (enough : height ≤ fuel)
    (same : ∀ k, m k = get (entriesOf T.leaves) k) (own : Owns s (cells INVALID_PAGE_ID T + F) pins) (request : Request) :
    Does (serve fuel T.id request) (fun out s' => out.1 = (respond m request).1 ∧
      ∃ leaked pins', RepresentsIn (height + 1) (leaked + F) pins' s' out.2 (respond m request).2) s := by
  have alone : ∀ s' root m', RepresentsIn (height + 1) F pins s' root m' →
      ∃ leaked pins', RepresentsIn (height + 1) (leaked + F) pins' s' root m' :=
    fun s' root m' here => ⟨0,pins,by rw [zero_add]; exact here⟩
  have still : ∀ s', Owns s' (cells INVALID_PAGE_ID T + F) pins →
      ∃ leaked pins', RepresentsIn (height + 1) (leaked + F) pins' s' T.id m :=
    fun s' own => alone s' T.id m (.inr ⟨h,T,by omega,valid,rfl,same,own⟩)
  cases request with
  | insert key value =>
    rw [serve,Does,Prog.wp_bind]
    refine does_insert valid (by omega) own (fun s₁ present own => ?_) (fun s₁ H T' valid' taller added own => ?_)
    · obtain ⟨found,present⟩ := Option.ne_none_iff_exists'.mp present
      have kept : respond m (.insert key value) = (.status false,m) := by simp [respond,same,present]
      rw [kept]
      exact ⟨rfl,still s₁ own⟩
    · obtain ⟨answer,entries⟩ := respond_insert same added
      exact ⟨answer.symm,alone s₁ T'.id _ (.inr ⟨H,T',by omega,valid',rfl,entries,own⟩)⟩
  | delete key =>
    rw [serve,Does,Prog.wp_bind]
    refine does_delete valid (by omega) own (fun s₁ absent own => ?_) (fun s₁ leaked value last _ own => ?_)
      (fun s₁ H T' leaked valid' lower removed _ own => ?_)
    · have kept : respond m (.delete key) = (.status false,m) := by simp [respond,same,absent]
      rw [kept]
      exact ⟨rfl,still s₁ own⟩
    · have removed : Removed (entriesOf T.leaves) key [] := by
        rw [last]
        have : Removed ([] ++ ([] ++ (key,value) :: []) ++ []) key ([] ++ ([] ++ []) ++ []) := removed_around (by simp) (by simp)
          (by simp) (by simp)
        simpa using this
      obtain ⟨answer,entries⟩ := respond_delete same removed
      exact ⟨answer.symm,_,_,.inl ⟨rfl,fun k => by rw [entries]; rfl,own⟩⟩
    · obtain ⟨answer,entries⟩ := respond_delete same removed
      exact ⟨answer.symm,leaked,pins,.inr ⟨H,T',by omega,valid',rfl,entries,own⟩⟩
  | getValue key =>
    rw [serve,Does,Prog.wp_bind]
    refine does_getValue valid (by omega) own (fun s₁ own => ?_)
    exact ⟨by rw [respond,same],still s₁ own⟩

/-- One request: the tree answers as the map does and represents it afterwards, beside the
    pages that were there and those that it leaks. -/
theorem does_serveIn (inside : RepresentsIn height F pins s root m) (enough : height ≤ fuel) (request : Request) :
    Does (serve fuel root request) (fun out s' => out.1 = (respond m request).1 ∧
      ∃ leaked pins', RepresentsIn (height + 1) (leaked + F) pins' s' out.2 (respond m request).2) s := by
  rcases inside with ⟨rfl,none,own⟩ | ⟨h,T,lower,valid,rfl,same,own⟩
  · exact does_serve_empty none own request
  · exact does_serve_tree valid lower enough same own request

theorem does_serve (represents : Represents height s root m) (enough : height ≤ fuel) (request : Request) :
    Does (serve fuel root request) (fun out s' => out.1 = (respond m request).1 ∧
      Represents (height + 1) s' out.2 (respond m request).2) s := by
  obtain ⟨F,pins,inside⟩ := represents
  refine Prog.wp_mono (fun out s₁ served => ?_) (does_serveIn inside enough request)
  obtain ⟨answer,leaked,pins',inside'⟩ := served
  exact ⟨answer,leaked + F,pins',inside'⟩

/-- Requests in a row, by induction on the list. -/
theorem does_serveAll : ∀ (requests : List Request) {height : Nat} {s : Store BPlusTreePage} {root : PageId} {m : Entries},
    Represents height s root m → height + requests.length ≤ fuel + 1 →
    Does (serveAll fuel root requests) (fun out s' => out.1 = (respondAll m requests).1 ∧
      Represents (height + requests.length) s' out.2 (respondAll m requests).2) s
  | [], height, s, root, m, represents, _ => ⟨rfl,represents⟩
  | request :: rest, height, s, root, m, represents, enough => by
    rw [List.length_cons] at enough
    rw [serveAll,Does,Prog.wp_bind]
    refine Prog.wp_mono (fun out s₁ served => ?_) (does_serve represents (by omega) request)
    obtain ⟨answer,represents'⟩ := served
    rw [Prog.wp_bind]
    refine Prog.wp_mono (fun outs s₂ served => ?_) (does_serveAll rest represents' (by omega))
    obtain ⟨answers,after⟩ := served
    refine ⟨by simp only [respondAll,answer,answers],?_⟩
    have count : height + (request :: rest).length = height + 1 + rest.length := by simp; omega
    rw [count]
    exact after

/-- The pages of a well-formed store, whatever they show. -/
theorem exists_owns (wellFormed : WellFormed s) : ∃ F pins, Owns s F pins := by
  have : Finite PageId := Finite.of_injective UInt32.toFin (fun _ _ => UInt32.toFin_inj.mp)
  have finite : {p : PageId | s.data p ≠ none}.Finite := Set.toFinite _
  refine ⟨finite.toFinset.val.map (fun p => (p,fun _ => True)),s.pins,?_,?_,?_,rfl,wellFormed⟩
  · simpa [Multiset.map_map] using finite.toFinset.nodup
  · intro c member
    obtain ⟨p,inFile,rfl⟩ := Multiset.mem_map.mp member
    have stored : s.data p ≠ none := by simpa using inFile
    obtain ⟨d,held⟩ := Option.ne_none_iff_exists'.mp stored
    exact ⟨d,held,trivial⟩
  · intro p stored
    simpa [Multiset.map_map] using stored

/-- From an empty tree, every sequence of requests is answered as by a finite
    map, which the tree represents at the end. -/
theorem bPlusTree_refines_map (requests : List Request) (enough : requests.length ≤ fuel) (wellFormed : WellFormed s)
    (served : Prog.Served (exec .zeros) Granted (serveAll fuel INVALID_PAGE_ID requests) s) :
    ∃ root s', Prog.run (exec .zeros) (serveAll fuel INVALID_PAGE_ID requests) s =
        .ok (((respondAll (fun _ => none) requests).1,root),s') ∧
      Represents requests.length s' root (respondAll (fun _ => none) requests).2 := by
  obtain ⟨F,pins,own⟩ := exists_owns wellFormed
  have represents : Represents 0 s INVALID_PAGE_ID (fun _ => none) := ⟨F,pins,.inl ⟨rfl,fun _ => rfl,own⟩⟩
  have does : Does (serveAll fuel INVALID_PAGE_ID requests) _ s := does_serveAll requests represents (by omega)
  obtain ⟨⟨responses,root⟩,s',ran,answers,after⟩ := Prog.run_of_wp does served
  simp only at answers after
  rw [Nat.zero_add] at after
  subst answers
  exact ⟨root,s',ran,after⟩

/-- A key inserted, read and deleted again. -/
def roundTrip : List Request := [.insert 7 ⟨1,2⟩,.getValue 7,.delete 7,.getValue 7]

theorem refines_map_roundTrip : ∃ root s',
    Prog.run (exec .zeros) (serveAll 4 INVALID_PAGE_ID roundTrip) (Store.empty BPlusTreePage) =
        .ok (((respondAll (fun _ => none) roundTrip).1,root),s') ∧
      Represents roundTrip.length s' root (respondAll (fun _ => none) roundTrip).2 :=
  bPlusTree_refines_map roundTrip (by decide) (empty_wellFormed _) (by decide +kernel)

end
end Aether.TreeMap
