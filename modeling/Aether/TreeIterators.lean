import Aether.TreeScan
import Aether.BufferPoolFrames
import Aether.Runs

/-!
`BPlusTreeIterator` as an object: it owns a pin on the leaf that it is on, which its
copies, moves, increments and its destruction take, pass on and release. Over any
sequence of them every page has its pins from elsewhere and one for each iterator on it.
-/
namespace Aether.TreeIterators
open Aether.Programs Aether.Types Aether.PageStore Aether.LeafPage Aether.BPlusTree Aether.SortedLists Aether.TreeModel
open Aether.TreePages Aether.TreeSearch Aether.TreeMap Aether.TreePins Aether.TreeScan Aether.Runs
open Aether.BufferPoolFrames Aether.Replacers.Replacer

/-! ### Special members -/

namespace Members

/-- The copy constructor. -/
def copy (other : BPlusTreeIterator) :
    Action BPlusTreeIterator := BPlusTreeIterator.create other.currPageId other.currIndex

/-- Copy assignment from another object. -/
def copyAssign (it other : BPlusTreeIterator) : Action BPlusTreeIterator := do
  it.destroy
  BPlusTreeIterator.create other.currPageId other.currIndex

/-- What a move leaves behind. -/
def movedFrom (other : BPlusTreeIterator) : BPlusTreeIterator := { other with currPageId := INVALID_PAGE_ID, currPage := none }

/-- The move constructor: the new object, and the other one afterwards. -/
def move (other : BPlusTreeIterator) : BPlusTreeIterator × BPlusTreeIterator := (other,movedFrom other)

/-- Move assignment from another object: both afterwards. -/
def moveAssign (it other : BPlusTreeIterator) : Action (BPlusTreeIterator × BPlusTreeIterator) := do
  it.destroy
  pure (other,movedFrom other)

end Members
open Members

/-! ### Objects -/

/-- What is done with the iterators on a tree, which are numbered as they are created. -/
inductive Step
  | begin
  | beginAt (key : Key)
  | endIterator
  | copy (other : Nat)
  | copyAssign (it other : Nat)
  | move (other : Nat)
  | moveAssign (it other : Nat)
  | increment (it : Nat)
  | destroy (it : Nat)

/-- The objects; those destroyed are `none`. -/
abbrev Objects := List (Option BPlusTreeIterator)

/-- The object of a number, if it is alive. -/
def object (objects : Objects) (i : Nat) : Option BPlusTreeIterator := objects[i]?.join

/-- What a step does; nothing to an object that is not alive. An assignment to itself is
    told by `this != &other`. -/
def perform (fuel : Nat) (root : PageId) (objects : Objects) : Step → Option (Action Objects)
  | .begin => some do
    let it ← beginIterator fuel root
    pure (objects ++ [some it])
  | .beginAt key => some do
    let it ← BPlusTree.beginAt fuel root key
    pure (objects ++ [some it])
  | .endIterator => some do
    let it ← BPlusTree.endIterator
    pure (objects ++ [some it])
  | .copy j => (object objects j).map fun other => do
    let it ← Members.copy other
    pure (objects ++ [some it])
  | .copyAssign i j => (object objects i).bind fun it => (object objects j).map fun other =>
    if i = j then pure objects
    else do
      let it ← Members.copyAssign it other
      pure (objects.set i (some it))
  | .move j => (object objects j).map fun other =>
    let (it,other) := Members.move other
    pure (objects.set j (some other) ++ [some it])
  | .moveAssign i j => (object objects i).bind fun it => (object objects j).map fun other =>
    if i = j then pure objects
    else do
      let (it,other) ← Members.moveAssign it other
      pure ((objects.set i (some it)).set j (some other))
  | .increment i => (object objects i).map fun it => do
    let it ← it.next
    pure (objects.set i (some it))
  | .destroy i => (object objects i).map fun it => do
    it.destroy
    pure (objects.set i none)

/-- The iterators and the pages. -/
structure Scene where
  objects : Objects
  store : Store BPlusTreePage

def next (fuel : Nat) (root : PageId) (scene : Scene) (step : Step) : Option Scene := do
  let (objects,store) ← (perform fuel root scene.objects step).bind fun action => (Prog.run (exec .zeros) action scene.store).toOption
  some { objects, store }

/-- No fetch of the step fails. -/
def Unfailing (fuel : Nat) (root : PageId) (scene : Scene) (step : Step) : Prop :=
  ∀ action, perform fuel root scene.objects step = some action → Prog.Served (exec .zeros) Granted action scene.store

/-! ### Ownership -/

/-- The pins that an iterator owns. -/
def pinsOf (it : BPlusTreeIterator) : Multiset PageId := if it.currPageId = INVALID_PAGE_ID then 0 else {it.currPageId}

/-- The pins that all iterators own. -/
def owned (objects : Objects) : Multiset PageId := (objects.map (fun o => (o.map pinsOf).getD 0)).sum

/-- The iterator is `End`, or on one of the leaves, which it has pinned. -/
def On (ls : List LeafNode) (it : BPlusTreeIterator) : Prop :=
  it.currPageId = INVALID_PAGE_ID ∧ it.currPage = none ∨ ∃ l ∈ ls, it.currPageId = l.id ∧ it.currPage = some l.id

section
variable {objects : Objects} {it other : BPlusTreeIterator} {i j : Nat} {o : Option BPlusTreeIterator}

@[simp] theorem owned_append : owned (objects ++ [o]) = owned objects + (o.map pinsOf).getD 0 := by simp [owned]

theorem object_iff : object objects i = some it ↔ objects[i]? = some (some it) := by simp [object,Option.join_eq_some_iff]

/-- The pins of the others when one object changes. -/
theorem exists_others (here : object objects i = some it) :
    ∃ rest, owned objects = pinsOf it + rest ∧ ∀ o, owned (objects.set i o) = (o.map pinsOf).getD 0 + rest := by
  obtain ⟨before,after,rfl,set⟩ := exists_place (object_iff.mp here)
  refine ⟨owned before + owned after,?_,fun o => ?_⟩
  · simp only [owned,List.map_append,List.map_cons,List.sum_append,List.sum_cons,Option.map_some,Option.getD_some]
    exact add_left_comm _ _ _
  · rw [set]
    simp only [owned,List.map_append,List.map_cons,List.sum_append,List.sum_cons]
    exact add_left_comm _ _ _

theorem object_set (other : i ≠ j) : object (objects.set i o) j = object objects j := by
  rw [object,object,List.getElem?_set_ne other]

theorem pinsOf_movedFrom : pinsOf (movedFrom it) = 0 := by simp [pinsOf,movedFrom]

end

/-! ### What the members do -/

/-- The leaves are those of the tree with the root, or none. -/
def Rooted (F : Cells) (fuel : Nat) (root : PageId) (ls : List LeafNode) : Prop :=
  root = INVALID_PAGE_ID ∧ ls = [] ∨
  ∃ (h : Nat) (T : Tree h) (G : Cells), h < fuel ∧ Valid T ∧ root = T.id ∧ ls = T.leaves ∧ F = cells INVALID_PAGE_ID T + G

section
variable {s : Store BPlusTreePage} {F : Cells} {pins : Multiset PageId} {ls : List LeafNode} {fuel : Nat} {root : PageId}
variable {it : BPlusTreeIterator} {l : LeafNode} {Q : BPlusTreeIterator → Store BPlusTreePage → Prop}

theorem Rooted.along (rooted : Rooted F fuel root ls) : Along F ls := by
  rcases rooted with ⟨_,rfl⟩ | ⟨h,T,G,_,valid,_,rfl,rfl⟩
  · exact ⟨trivial,by simp,by simp⟩
  · exact valid_along valid

/-- An iterator made on a leaf. -/
theorem does_createOn {index : Nat} (along : Along F ls) (member : l ∈ ls) (own : Owns s F pins)
    (goal : ∀ s' it', On ls it' → Owns s' F (pinsOf it' + pins) → Q it' s') :
    Does (BPlusTreeIterator.create l.id index) Q s := by
  obtain ⟨par,held⟩ := along.held l member
  have inFile : l.id ≠ INVALID_PAGE_ID := own.ne_invalid (Multiset.mem_map_of_mem Prod.fst held)
  rw [BPlusTreeIterator.create,if_neg inFile,Does,Prog.wp_bind]
  refine wp_fetchPage own held (fun s₁ own => goal s₁ _ (.inr ⟨l,member,rfl,rfl⟩) ?_)
  exact own.repin (by simp [pinsOf,inFile])

theorem does_createEnd {index : Nat} (own : Owns s F pins)
    (goal : ∀ s' it', On ls it' → Owns s' F (pinsOf it' + pins) → Q it' s') :
    Does (BPlusTreeIterator.create INVALID_PAGE_ID index) Q s := by
  rw [BPlusTreeIterator.create,if_pos rfl]
  exact goal s _ (.inl ⟨rfl,rfl⟩) (own.repin (by simp [pinsOf]))

/-- A copy is on the same leaf, with a pin of its own. -/
theorem does_copy (along : Along F ls) (on : On ls it) (own : Owns s F pins)
    (goal : ∀ s' it', On ls it' → Owns s' F (pinsOf it' + pins) → Q it' s') : Does (copy it) Q s := by
  rw [copy]
  rcases on with ⟨ended,_⟩ | ⟨l,member,here,_⟩
  · rw [ended]
    exact does_createEnd own goal
  · rw [here]
    exact does_createOn along member own goal

/-- The destructor releases the pin. -/
theorem does_destroy {Q : Unit → Store BPlusTreePage → Prop} (along : Along F ls) (on : On ls it) (own : Owns s F (pinsOf it + pins))
    (goal : ∀ s', Owns s' F pins → Q () s') : Does it.destroy Q s := by
  rw [BPlusTreeIterator.destroy]
  rcases on with ⟨ended,_⟩ | ⟨l,member,here,page⟩
  · rw [if_neg (by simp [ended])]
    exact goal s (own.repin (by simp [pinsOf,ended]))
  · obtain ⟨par,held⟩ := along.held l member
    have inFile : it.currPageId ≠ INVALID_PAGE_ID := here ▸ own.ne_invalid (Multiset.mem_map_of_mem Prod.fst held)
    rw [if_pos ⟨inFile,by simp [page]⟩,Does,Prog.wp_bind]
    exact wp_unpinPage (own.repin (by simp [pinsOf,inFile])) (fun s₁ own => goal s₁ own)

theorem does_copyAssign {other : BPlusTreeIterator} (along : Along F ls) (on : On ls it) (on' : On ls other)
    (own : Owns s F (pinsOf it + pins)) (goal : ∀ s' it', On ls it' → Owns s' F (pinsOf it' + pins) → Q it' s') :
    Does (copyAssign it other) Q s := by
  rw [copyAssign,Does,Prog.wp_bind]
  exact does_destroy along on own (fun s₁ own => does_copy along on' own goal)

/-- An increment keeps the pin within a leaf and hands it on at its end. -/
theorem does_next (along : Along F ls) (on : On ls it) (own : Owns s F (pinsOf it + pins))
    (goal : ∀ s' it', On ls it' → Owns s' F (pinsOf it' + pins) → Q it' s') : Does it.next Q s := by
  obtain ⟨pageId,index,page⟩ := it
  rcases on with ⟨ended,absent⟩ | ⟨l,member,here,page⟩
  · rw [BPlusTreeIterator.next,if_pos ended]
    exact goal s _ (.inl ⟨ended,absent⟩) own
  · obtain rfl : pageId = l.id := here
    obtain rfl : _ = some l.id := page
    obtain ⟨before,rest,rfl⟩ := List.append_of_mem member
    obtain ⟨par,held⟩ := along.held l member
    have inFile : l.id ≠ INVALID_PAGE_ID := own.ne_invalid (Multiset.mem_map_of_mem Prod.fst held)
    have owns : ∀ i, pinsOf ⟨l.id,i,some l.id⟩ = {l.id} := fun i => by rw [pinsOf,if_neg inFile]
    rw [owns] at own
    by_cases last : l.entries.length ≤ index + 1
    · refine does_next_leaf along.suffix last own (fun s₁ own => goal s₁ _ ?_ (own.repin ?_))
      · cases rest with
        | nil => exact .inl ⟨rfl,rfl⟩
        | cons l' rest => exact .inr ⟨l',by simp,rfl,rfl⟩
      · cases rest with
        | nil => simp [startOf,pinOf,pinsOf]
        | cons l' rest =>
          obtain ⟨par',held'⟩ := along.held l' (by simp)
          have inFile' : l'.id ≠ INVALID_PAGE_ID := own.ne_invalid (Multiset.mem_map_of_mem Prod.fst held')
          simp [startOf,pinOf,pinsOf,inFile']
    · refine does_next_within along.suffix (by omega) own (by simp) (goal s _ (.inr ⟨l,member,rfl,rfl⟩) ?_)
      rw [owns]
      exact own

theorem does_beginOn (rooted : Rooted F fuel root ls) (own : Owns s F pins)
    (goal : ∀ s' it', On ls it' → Owns s' F (pinsOf it' + pins) → Q it' s') : Does (beginIterator fuel root) Q s := by
  have along := rooted.along
  rcases rooted with ⟨rfl,rfl⟩ | ⟨h,T,G,enough,valid,rfl,rfl,rfl⟩
  · rw [beginIterator,if_pos rfl]
    exact does_createEnd own goal
  · have held : (T.id,view INVALID_PAGE_ID T) ∈ cells INVALID_PAGE_ID T + G := Multiset.mem_add.mpr (.inl mem_cells)
    have inFile : T.id ≠ INVALID_PAGE_ID := own.ne_invalid (Multiset.mem_map_of_mem Prod.fst held)
    rw [beginIterator,if_neg inFile,Does,Prog.wp_bind]
    refine wp_fetchPage own held (fun s₁ own => ?_)
    rw [Prog.wp_bind]
    refine does_descendLeft T fuel s₁ valid.ordered enough held
      (fun c member => Multiset.mem_add.mpr (.inl (Multiset.mem_add.mpr (.inr member)))) own (fun s₂ l rest _ first _ own => ?_)
    exact does_createOn along (first ▸ List.mem_cons_self) own goal

theorem does_beginAtOn {key : Key} (rooted : Rooted F fuel root ls) (own : Owns s F pins)
    (goal : ∀ s' it', On ls it' → Owns s' F (pinsOf it' + pins) → Q it' s') : Does (BPlusTree.beginAt fuel root key) Q s := by
  have along := rooted.along
  rcases rooted with ⟨rfl,rfl⟩ | ⟨h,T,G,enough,valid,rfl,rfl,rfl⟩
  · rw [BPlusTree.beginAt,if_pos rfl]
    exact does_createEnd own goal
  · exact does_beginAt_leaf valid enough own (fun s₁ l index member own => does_createOn along member own goal)

end

/-! ### Sequences -/

/-- The pages hold the leaves, each live iterator is on one of them or at the end, and the
    pins are those of the iterators besides `base`. -/
structure InOrder (F : Cells) (base : Multiset PageId) (ls : List LeafNode) (scene : Scene) : Prop where
  own : Owns scene.store F (owned scene.objects + base)
  on : ∀ it, some it ∈ scene.objects → On ls it

section
variable {s : Store BPlusTreePage} {F : Cells} {base : Multiset PageId} {ls : List LeafNode} {fuel : Nat} {root : PageId}
variable {objects : Objects} {scene : Scene} {i : Nat} {it : BPlusTreeIterator} {step : Step} {action : Action Objects}

theorem on_movedFrom : On ls (movedFrom it) := .inl ⟨rfl,rfl⟩

theorem mem_object (here : object objects i = some it) : some it ∈ objects := List.mem_of_getElem? (object_iff.mp here)

/-- A new object. -/
theorem InOrder.append {s' : Store BPlusTreePage} (all : ∀ it, some it ∈ objects → On ls it) (on : On ls it)
    (own : Owns s' F (pinsOf it + (owned objects + base))) : InOrder F base ls ⟨objects ++ [some it],s'⟩ := by
  refine ⟨own.repin ?_,fun it' member => ?_⟩
  · simp only [owned_append,Option.map_some,Option.getD_some]
    rw [← add_assoc,add_comm (pinsOf it)]
  · rcases List.mem_append.mp member with old | new
    · exact all it' old
    · cases List.mem_singleton.mp new
      exact on

theorem on_set {o : Option BPlusTreeIterator} (all : ∀ it, some it ∈ objects → On ls it) (on : ∀ it, o = some it → On ls it) :
    ∀ it, some it ∈ objects.set i o → On ls it := by
  intro it' member
  rcases List.mem_or_eq_of_mem_set member with old | new
  · exact all it' old
  · exact on it' new.symm

/-- Another object in the place of one. -/
theorem InOrder.set {s' : Store BPlusTreePage} {rest : Multiset PageId} {o : Option BPlusTreeIterator}
    (all : ∀ it, some it ∈ objects → On ls it) (on : ∀ it, o = some it → On ls it)
    (others : owned (objects.set i o) = (o.map pinsOf).getD 0 + rest)
    (own : Owns s' F ((o.map pinsOf).getD 0 + (rest + base))) : InOrder F base ls ⟨objects.set i o,s'⟩ :=
  ⟨own.repin (by rw [others,add_assoc]),on_set all on⟩

/-- A step keeps the order, and runs without a fault when no fetch fails. -/
theorem does_perform (rooted : Rooted F fuel root ls) (inOrder : InOrder F base ls ⟨objects,s⟩)
    (performed : perform fuel root objects step = some action) :
    Does action (fun objects' s' => InOrder F base ls ⟨objects',s'⟩) s := by
  have along := rooted.along
  have own : Owns s F (owned objects + base) := inOrder.own
  cases step with
  | begin =>
    obtain rfl := Option.some.inj performed
    rw [Does,Prog.wp_bind]
    exact does_beginOn rooted own (fun s' it on own => InOrder.append inOrder.on on own)
  | beginAt key =>
    obtain rfl := Option.some.inj performed
    rw [Does,Prog.wp_bind]
    exact does_beginAtOn rooted own (fun s' it on own => InOrder.append inOrder.on on own)
  | endIterator =>
    obtain rfl := Option.some.inj performed
    rw [Does,Prog.wp_bind,endIterator]
    exact does_createEnd own (fun s' it on own => InOrder.append inOrder.on on own)
  | copy j =>
    obtain ⟨other,there,rfl⟩ := Option.map_eq_some_iff.mp performed
    rw [Does,Prog.wp_bind]
    exact does_copy along (inOrder.on other (mem_object there)) own (fun s' it on own => InOrder.append inOrder.on on own)
  | copyAssign i j =>
    obtain ⟨it,here,performed⟩ := Option.bind_eq_some_iff.mp performed
    obtain ⟨other,there,rfl⟩ := Option.map_eq_some_iff.mp performed
    split
    · exact inOrder
    · obtain ⟨rest,split,others⟩ := exists_others here
      rw [Does,Prog.wp_bind]
      refine does_copyAssign along (inOrder.on it (mem_object here)) (inOrder.on other (mem_object there))
        (own.repin (by rw [split,add_assoc])) (fun s' it' on own => ?_)
      exact InOrder.set inOrder.on (fun it'' same => Option.some.inj same ▸ on) (others _) own
  | move j =>
    obtain ⟨other,there,rfl⟩ := Option.map_eq_some_iff.mp performed
    obtain ⟨rest,split,others⟩ := exists_others there
    have emptied : InOrder F (pinsOf other + base) ls ⟨objects.set j (some (movedFrom other)),s⟩ := by
      refine InOrder.set inOrder.on (fun it same => Option.some.inj same ▸ on_movedFrom) (others _) (own.repin ?_)
      simp only [Option.map_some,Option.getD_some,pinsOf_movedFrom,zero_add]
      rw [split,add_assoc,add_left_comm]
    exact InOrder.append emptied.on (inOrder.on other (mem_object there)) (emptied.own.repin (add_left_comm _ _ _))
  | moveAssign i j =>
    obtain ⟨it,here,performed⟩ := Option.bind_eq_some_iff.mp performed
    obtain ⟨other,there,rfl⟩ := Option.map_eq_some_iff.mp performed
    split
    · exact inOrder
    · next apart =>
      obtain ⟨rest,split,others⟩ := exists_others here
      -- The pin of the other object is counted in the first place only, in which it is now.
      obtain ⟨rest',split',others'⟩ := exists_others ((object_set (o := some other) apart).trans there)
      obtain rfl : rest = rest' := add_left_cancel ((others (some other)).symm.trans split')
      have onOther := inOrder.on other (mem_object there)
      rw [Does,Prog.wp_bind,moveAssign,Prog.wp_bind]
      refine does_destroy along (inOrder.on it (mem_object here)) (own.repin (by rw [split,add_assoc])) (fun s' own => ?_)
      refine InOrder.set (on_set inOrder.on (fun it' same => Option.some.inj same ▸ onOther))
        (fun it' same => Option.some.inj same ▸ on_movedFrom) (others' _) (own.repin ?_)
      simp only [Option.map_some,Option.getD_some,pinsOf_movedFrom,zero_add]
  | increment i =>
    obtain ⟨it,here,rfl⟩ := Option.map_eq_some_iff.mp performed
    obtain ⟨rest,split,others⟩ := exists_others here
    rw [Does,Prog.wp_bind]
    refine does_next along (inOrder.on it (mem_object here)) (own.repin (by rw [split,add_assoc])) (fun s' it' on own => ?_)
    exact InOrder.set inOrder.on (fun it'' same => Option.some.inj same ▸ on) (others _) own
  | destroy i =>
    obtain ⟨it,here,rfl⟩ := Option.map_eq_some_iff.mp performed
    obtain ⟨rest,split,others⟩ := exists_others here
    rw [Does,Prog.wp_bind]
    refine does_destroy along (inOrder.on it (mem_object here)) (own.repin (by rw [split,add_assoc])) (fun s' own => ?_)
    exact InOrder.set inOrder.on (by simp) (others none) (own.repin (by simp))

end
/-! ### Over every sequence -/

/-- The number of live iterators on a page. -/
def iteratorsOn (objects : Objects) (p : PageId) : Nat :=
  objects.countP (fun o => decide (o.map BPlusTreeIterator.currPageId = some p))

/-- Since the store `s` the iterators have taken the pins of the pages they are on, and
    no others; a page that an iterator is on has a frame that is not evictable. -/
structure OwnsPins (fuel : Nat) (root : PageId) (s : Store BPlusTreePage) (scene : Scene) : Prop where
  counts : ∀ p, p ≠ INVALID_PAGE_ID → scene.store.pins.count p = s.pins.count p + iteratorsOn scene.objects p
  resident : ∀ it, some it ∈ scene.objects → it.currPageId ≠ INVALID_PAGE_ID → ∀ b, Accounts b scene.store.pins →
    ∃ f, b.pageTable it.currPageId = some f ∧ ¬Has b.replacer f
  restored : (∀ o ∈ scene.objects, o = none) → scene.store.pins = s.pins
  goes : ∀ step, Unfailing fuel root scene step → perform fuel root scene.objects step ≠ none → next fuel root scene step ≠ none

section
variable {s : Store BPlusTreePage} {F : Cells} {base : Multiset PageId} {ls : List LeafNode} {fuel : Nat} {root p : PageId}
variable {scene scene' : Scene} {step : Step}

theorem count_owned (valid : p ≠ INVALID_PAGE_ID) (objects : Objects) : (owned objects).count p = iteratorsOn objects p := by
  induction objects with
  | nil => simp [owned,iteratorsOn]
  | cons o rest ih =>
    simp only [owned,iteratorsOn,List.map_cons,List.sum_cons,Multiset.count_add,List.countP_cons] at ih ⊢
    rw [ih,add_comm]
    congr 1
    cases o with
    | none => simp
    | some it =>
      by_cases ended : it.currPageId = INVALID_PAGE_ID
      · simp [pinsOf,ended,valid.symm]
      · simp [pinsOf,ended,Multiset.count_singleton,eq_comm]

theorem owned_none {objects : Objects} (gone : ∀ o ∈ objects, o = none) : owned objects = 0 := by
  refine List.sum_eq_zero (fun pins member => ?_)
  obtain ⟨o,there,rfl⟩ := List.mem_map.mp member
  simp [gone o there]

theorem mem_owned {objects : Objects} {it : BPlusTreeIterator} (member : some it ∈ objects) (more : it.currPageId ≠ INVALID_PAGE_ID) :
    it.currPageId ∈ owned objects := by
  obtain ⟨before,after,rfl⟩ := List.append_of_mem member
  simp [owned,pinsOf,more]

/-- The step goes through, and keeps the order. -/
theorem next_inOrder (rooted : Rooted F fuel root ls) (inOrder : InOrder F base ls scene) (unfailing : Unfailing fuel root scene step)
    (possible : perform fuel root scene.objects step ≠ none) :
    ∃ scene', next fuel root scene step = some scene' ∧ InOrder F base ls scene' := by
  obtain ⟨action,performed⟩ := Option.ne_none_iff_exists'.mp possible
  obtain ⟨objects',s',ran,inOrder'⟩ := Prog.run_of_wp (does_perform rooted inOrder performed) (unfailing action performed)
  refine ⟨⟨objects',s'⟩,?_,inOrder'⟩
  simp [next,performed,ran,Except.toOption]

theorem InOrder.ownsPins (rooted : Rooted F fuel root ls) (pins : s.pins = base) (inOrder : InOrder F base ls scene) :
    OwnsPins fuel root s scene where
  counts p valid := by
    rw [inOrder.own.pinsEq,Multiset.count_add,count_owned valid,pins,add_comm]
  resident it member more b accounts := by
    have pinned : it.currPageId ∈ scene.store.pins := by
      rw [inOrder.own.pinsEq]
      exact Multiset.mem_add.mpr (.inl (mem_owned member more))
    obtain ⟨f,here⟩ := Option.ne_none_iff_exists'.mp (accounts.held _ pinned)
    refine ⟨f,here,fun evictable => ?_⟩
    obtain ⟨q,there,released⟩ := (accounts.evictable f).mp evictable
    exact released (accounts.injective there here ▸ pinned)
  restored gone := by rw [inOrder.own.pinsEq,owned_none gone,zero_add,pins]
  goes step unfailing possible := by
    obtain ⟨scene',moved,_⟩ := next_inOrder rooted inOrder unfailing possible
    simp [moved]

/-- Over every sequence of steps on the iterators of a tree, in which no fetch fails, each
    page has the pins it had before and one for every live iterator on it. -/
theorem iterators_own_their_pins {n : Nat} (reached : Reached fuel n s root) (enough : n ≤ fuel)
    (runs : Runs (next fuel root) (Unfailing fuel root) ⟨[],s⟩ scene) : OwnsPins fuel root s scene := by
  obtain ⟨F,ls,rooted,own⟩ : ∃ F ls, Rooted F fuel root ls ∧ Owns s F s.pins := by
    obtain ⟨m,F,pins,⟨rfl,_,own⟩ | ⟨h,T,lower,valid,rfl,_,own⟩⟩ := reached.represents
    · exact ⟨F,[],.inl ⟨rfl,rfl⟩,own.repin own.pinsEq.symm⟩
    · exact ⟨_,T.leaves,.inr ⟨h,T,F,by omega,valid,rfl,rfl,rfl⟩,own.repin own.pinsEq.symm⟩
  have start : InOrder F s.pins ls ⟨[],s⟩ := ⟨own.repin (by simp [owned]),by simp⟩
  refine InOrder.ownsPins rooted rfl (runs.invariant (InOrder F s.pins ls) start ?_)
  intro scene step scene' inOrder unfailing moved
  have possible : perform fuel root scene.objects step ≠ none := by
    intro absent
    simp [next,absent] at moved
  obtain ⟨scene'',moved',inOrder'⟩ := next_inOrder rooted inOrder unfailing possible
  obtain rfl := Option.some.inj (moved.symm.trans moved')
  exact inOrder'

end

/-- An iterator is copied, moved to itself and destroyed; the copy stays. -/
theorem iterators_own_their_pins_copy : ∃ scene, iteratorsOn scene.objects 1 = 1 ∧ OwnsPins 2 1 single scene := by
  obtain ⟨scene,along,one⟩ : ∃ scene, Runs.Along (next 2 1) (Unfailing 2 1) ⟨[],single⟩
      [.begin,.copy 0,.moveAssign 0 0,.destroy 0] scene ∧ iteratorsOn scene.objects 1 = 1 := by
    refine ⟨_,⟨?_,_,rfl,?_,_,rfl,?_,_,rfl,?_,_,rfl,rfl⟩,by decide +kernel⟩
    all_goals
      intro action same
      cases same
      decide +kernel
  exact ⟨scene,one,iterators_own_their_pins single_reached (by decide) (runs_of_along along)⟩

end Aether.TreeIterators
