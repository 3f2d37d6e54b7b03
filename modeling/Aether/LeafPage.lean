import Aether.Cells
import Aether.SortedLists
import Aether.Types

/-!
`BPlusTreeLeafPage`: a leaf page of the B+ tree, with its methods as the code
computes them. A method that would access the arrays outside their 254 slots,
or make the size negative, has no result. The specifications speak of the list
of entries in the used slots.
-/
namespace Aether.LeafPage
open Aether.Cells Aether.SortedLists Aether.Types

/-- The keys are only compared, so an `int64_t` key is an integer. -/
abbrev Key := Int
abbrev Entry := Key × RID

structure BPlusTreeLeafPage where
  size : Nat
  maxSize : Nat
  parentPageId : PageId
  pageId : PageId
  nextPageId : PageId
  keys : Vector Key 254
  values : Vector RID 254

namespace BPlusTreeLeafPage

/-- `Init` on a page of zeros. -/
def init (pageId parentId : PageId) (maxSize : Nat := 253) : BPlusTreeLeafPage :=
  { size := 0, maxSize, parentPageId := parentId, pageId, nextPageId := INVALID_PAGE_ID,
    keys := Vector.replicate 254 0, values := Vector.replicate 254 ⟨0,0⟩ }

/-- The first slot whose key is not below `key`. -/
def keyIndex (page : BPlusTreeLeafPage) (key : Key) : Option Nat :=
  (bisect page.keys (fun k => decide (k < key)) (page.size + 1) 0 (page.size - 1)).map Int.toNat

/-- `index < GetSize() && keys_[index] == key`. -/
def holdsAt (page : BPlusTreeLeafPage) (index : Nat) (key : Key) : Option Bool :=
  if index < page.size then (page.keys[index]?).map (fun k => decide (k = key)) else some false

/-- The value at `key`, if there is one. -/
def lookup (page : BPlusTreeLeafPage) (key : Key) : Option (Option RID) := do
  let index ← page.keyIndex key
  if ← page.holdsAt index key then (page.values[index]?).map some else some none

/-- Returns the size after the insertion, unchanged when the key is present. -/
def insert (page : BPlusTreeLeafPage) (key : Key) (value : RID) : Option (Nat × BPlusTreeLeafPage) := do
  let index ← page.keyIndex key
  if ← page.holdsAt index key then some (page.size,page)
  else
    let keys ← shiftUp page.keys index page.size
    let values ← shiftUp page.values index page.size
    let keys ← write keys index key
    let values ← write values index value
    some (page.size + 1,{ page with size := page.size + 1, keys, values })

/-- The page and the recipient afterwards. -/
def moveHalfTo (page recipient : BPlusTreeLeafPage) : Option (BPlusTreeLeafPage × BPlusTreeLeafPage) := do
  let moveCount := page.size / 2
  let startIndex := page.size - moveCount
  let keys ← copyInto recipient.keys 0 page.keys startIndex moveCount
  let values ← copyInto recipient.values 0 page.values startIndex moveCount
  some ({ page with size := startIndex },{ recipient with size := moveCount, keys, values })

def removeAt (page : BPlusTreeLeafPage) (index : Nat) : Option BPlusTreeLeafPage :=
  match page.size with
  | 0 => none
  | last + 1 => do
    let keys ← shiftDown page.keys index (last - index)
    let values ← shiftDown page.values index (last - index)
    some { page with size := last, keys, values }

/-- Whether the key was there, and the page without it. -/
def remove (page : BPlusTreeLeafPage) (key : Key) : Option (Bool × BPlusTreeLeafPage) := do
  let index ← page.keyIndex key
  if ← page.holdsAt index key then (page.removeAt index).map (fun page => (true,page)) else some (false,page)

def moveAllTo (page recipient : BPlusTreeLeafPage) : Option (BPlusTreeLeafPage × BPlusTreeLeafPage) := do
  let destIndex := recipient.size
  let keys ← copyInto recipient.keys destIndex page.keys 0 page.size
  let values ← copyInto recipient.values destIndex page.values 0 page.size
  some ({ page with size := 0 },
    { recipient with size := destIndex + page.size, nextPageId := page.nextPageId, keys, values })

/-- Move the entry at `index` into the recipient. -/
def moveEntryTo (page recipient : BPlusTreeLeafPage) (index : Nat) :
    Option (BPlusTreeLeafPage × BPlusTreeLeafPage) := do
  let key ← page.keys[index]?
  let val ← page.values[index]?
  let inserted ← recipient.insert key val
  let page ← page.removeAt index
  some (page,inserted.2)

def moveFirstToEndOf (page recipient : BPlusTreeLeafPage) : Option (BPlusTreeLeafPage × BPlusTreeLeafPage) :=
  moveEntryTo page recipient 0

def moveLastToFrontOf (page recipient : BPlusTreeLeafPage) : Option (BPlusTreeLeafPage × BPlusTreeLeafPage) :=
  match page.size with
  | 0 => none
  | lastIdx + 1 => moveEntryTo page recipient lastIdx

/-! ### The entries -/

/-- The used slots of the page hold the entries. -/
structure Holds (page : BPlusTreeLeafPage) (entries : List Entry) : Prop where
  size : page.size = entries.length
  keys : Begins page.keys (entries.map Prod.fst)
  values : Begins page.values (entries.map Prod.snd)

theorem init_holds (pageId parentId : PageId) : Holds (init pageId parentId) [] :=
  ⟨rfl,begins_nil _,begins_nil _⟩

variable {page recipient : BPlusTreeLeafPage} {A B C : List Entry} {key : Key} {value : RID}

theorem Holds.fits (holds : Holds page A) : A.length ≤ 254 := by
  have := begins_length holds.keys
  simpa using this

theorem keyIndex_spec (holds : Holds page (A ++ B)) (left : ∀ e ∈ A, e.1 < key) (right : ∀ e ∈ B, key ≤ e.1) :
    page.keyIndex key = some A.length := by
  have size := holds.size
  have keys := holds.keys
  rw [List.map_append] at keys
  have found := bisect_spec (fun k => decide (k < key)) 0 keys
    (by simpa using fun k r member => left (k,r) member)
    (by simpa using fun k r member => right (k,r) member)
    (page.size + 1) 0 (page.size - 1) (by omega) (by omega) (by simp at size ⊢; omega)
    (by simp at size ⊢; omega) (by omega)
  simp [keyIndex,found]

theorem holdsAt_absent (holds : Holds page (A ++ B)) (right : ∀ e ∈ B, key < e.1) :
    page.holdsAt A.length key = some false := by
  cases B with
  | nil =>
    have size := holds.size
    simp [holdsAt,size]
  | cons e B =>
    have keys := holds.keys
    rw [List.map_append,List.map_cons] at keys
    have here := begins_get keys
    rw [List.length_map] at here
    have other : e.1 ≠ key := (right e (by simp)).ne'
    simp [holdsAt,holds.size,here,other]

theorem holdsAt_present (holds : Holds page (A ++ (key,value) :: B)) : page.holdsAt A.length key = some true := by
  have keys := holds.keys
  rw [List.map_append,List.map_cons] at keys
  have here := begins_get keys
  rw [List.length_map] at here
  simp [holdsAt,holds.size,here]

theorem valueAt (holds : Holds page (A ++ (key,value) :: B)) : page.values[A.length]? = some value := by
  have values := holds.values
  rw [List.map_append,List.map_cons] at values
  have here := begins_get values
  rwa [List.length_map] at here

theorem keyAt (holds : Holds page (A ++ (key,value) :: B)) : page.keys[A.length]? = some key := by
  have keys := holds.keys
  rw [List.map_append,List.map_cons] at keys
  have here := begins_get keys
  rwa [List.length_map] at here

/-- `Lookup` reads the sorted entries as a map. -/
theorem lookup_spec {entries : List Entry} (holds : Holds page entries) (sorted : Sorted entries) (key : Key) :
    page.lookup key = some (get entries key) := by
  obtain ⟨A,B,rfl,left,right⟩ := exists_cut sorted key
  have index := keyIndex_spec holds left right
  have before : ∀ e ∈ A, e.1 ≠ key := fun e member => (left e member).ne
  rcases cut_cases sorted right with absent | ⟨value,C,rfl,above⟩
  · have none : get (A ++ B) key = none := by
      rw [get_append_left before]
      exact get_none (fun e member => (absent e member).ne')
    simp [lookup,index,holdsAt_absent holds absent,none]
  · have found : get (A ++ (key,value) :: C) key = some value := by
      rw [get_append_left before,get_cons_self]
    simp [lookup,index,holdsAt_present holds,valueAt holds,found]

/-- A new key goes between the smaller and the larger ones. -/
theorem insert_spec (holds : Holds page (A ++ B)) (left : ∀ e ∈ A, e.1 < key) (right : ∀ e ∈ B, key < e.1)
    (room : A.length + B.length < 254) (value : RID) :
    ∃ keys values, page.insert key value =
        some (A.length + B.length + 1,{ page with size := A.length + B.length + 1, keys, values }) ∧
      Holds { page with size := A.length + B.length + 1, keys, values } (A ++ (key,value) :: B) := by
  have size := holds.size
  have keysBegin := holds.keys
  have valuesBegin := holds.values
  rw [List.length_append] at size
  rw [List.map_append] at keysBegin valuesBegin
  have index := keyIndex_spec holds left (fun e member => (right e member).le)
  obtain ⟨keys,keys',shiftedKeys,wroteKeys,beginKeys⟩ := insert_begins keysBegin (by simpa using room) key
  obtain ⟨values,values',shiftedValues,wroteValues,beginValues⟩ := insert_begins valuesBegin (by simpa using room) value
  simp only [List.length_map] at shiftedKeys wroteKeys shiftedValues wroteValues
  refine ⟨keys',values',?_,by simp; omega,by simpa using beginKeys,by simpa using beginValues⟩
  simp [insert,index,holdsAt_absent holds right,size,shiftedKeys,shiftedValues,wroteKeys,wroteValues]

/-- A key that is present is left alone. -/
theorem insert_present (holds : Holds page (A ++ (key,value) :: B)) (left : ∀ e ∈ A, e.1 < key)
    (right : ∀ e ∈ B, key < e.1) (other : RID) : page.insert key other = some (page.size,page) := by
  have index := keyIndex_spec holds left (by
    intro e member
    rcases List.mem_cons.mp member with rfl | later
    · exact le_refl _
    · exact (right e later).le)
  simp [insert,index,holdsAt_present holds]

theorem moveHalfTo_spec (holds : Holds page (A ++ B)) (empty : Holds recipient [])
    (half : B.length = (A.length + B.length) / 2) :
    ∃ keys values, page.moveHalfTo recipient =
        some ({ page with size := A.length },{ recipient with size := B.length, keys, values }) ∧
      Holds { page with size := A.length } A ∧ Holds { recipient with size := B.length, keys, values } B := by
  have size := holds.size
  have keysBegin := holds.keys
  have valuesBegin := holds.values
  have fits := holds.fits
  rw [List.length_append] at size fits
  rw [List.map_append] at keysBegin valuesBegin
  obtain ⟨keys,copiedKeys,beginKeys⟩ := copy_begins keysBegin empty.keys (by simp; omega)
  obtain ⟨values,copiedValues,beginValues⟩ := copy_begins valuesBegin empty.values (by simp; omega)
  simp only [List.length_map,List.map_nil,List.length_nil] at copiedKeys copiedValues
  refine ⟨keys,values,?_,⟨rfl,begins_left keysBegin,begins_left valuesBegin⟩,
    rfl,by simpa using beginKeys,by simpa using beginValues⟩
  have moveCount : page.size / 2 = B.length := by rw [size,← half]
  have startIndex : page.size - B.length = A.length := by omega
  simp [moveHalfTo,moveCount,startIndex,copiedKeys,copiedValues]

theorem removeAt_spec {e : Entry} (holds : Holds page (A ++ e :: B)) :
    ∃ keys values, page.removeAt A.length = some { page with size := A.length + B.length, keys, values } ∧
      Holds { page with size := A.length + B.length, keys, values } (A ++ B) := by
  have size := holds.size
  have keysBegin := holds.keys
  have valuesBegin := holds.values
  simp only [List.length_append,List.length_cons] at size
  rw [List.map_append,List.map_cons] at keysBegin valuesBegin
  obtain ⟨keys,shiftedKeys,beginKeys⟩ := remove_begins keysBegin
  obtain ⟨values,shiftedValues,beginValues⟩ := remove_begins valuesBegin
  simp only [List.length_map] at shiftedKeys shiftedValues
  refine ⟨keys,values,?_,by simp,by simpa using beginKeys,by simpa using beginValues⟩
  have count : A.length + B.length - A.length = B.length := by omega
  have last : page.size = (A.length + B.length) + 1 := by omega
  simp [removeAt,last,count,shiftedKeys,shiftedValues]

theorem remove_present (holds : Holds page (A ++ (key,value) :: B)) (left : ∀ e ∈ A, e.1 < key)
    (right : ∀ e ∈ B, key < e.1) :
    ∃ keys values, page.remove key = some (true,{ page with size := A.length + B.length, keys, values }) ∧
      Holds { page with size := A.length + B.length, keys, values } (A ++ B) := by
  have index := keyIndex_spec holds left (by
    intro e member
    rcases List.mem_cons.mp member with rfl | later
    · exact le_refl _
    · exact (right e later).le)
  obtain ⟨keys,values,removed,after⟩ := removeAt_spec holds
  exact ⟨keys,values,by simp [remove,index,holdsAt_present holds,removed],after⟩

theorem remove_absent (holds : Holds page (A ++ B)) (left : ∀ e ∈ A, e.1 < key) (right : ∀ e ∈ B, key < e.1) :
    page.remove key = some (false,page) := by
  have index := keyIndex_spec holds left (fun e member => (right e member).le)
  simp [remove,index,holdsAt_absent holds right]

theorem moveAllTo_spec (holds : Holds page B) (target : Holds recipient A) (room : A.length + B.length ≤ 254) :
    ∃ keys values, page.moveAllTo recipient =
        some ({ page with size := 0 },
          { recipient with size := A.length + B.length, nextPageId := page.nextPageId, keys, values }) ∧
      Holds { recipient with size := A.length + B.length, nextPageId := page.nextPageId, keys, values } (A ++ B) := by
  have keysBegin : Begins page.keys ([] ++ B.map Prod.fst) := holds.keys
  have valuesBegin : Begins page.values ([] ++ B.map Prod.snd) := holds.values
  obtain ⟨keys,copiedKeys,beginKeys⟩ := copy_begins keysBegin target.keys (by simpa using room)
  obtain ⟨values,copiedValues,beginValues⟩ := copy_begins valuesBegin target.values (by simpa using room)
  simp only [List.length_map,List.length_nil] at copiedKeys copiedValues
  refine ⟨keys,values,?_,by simp,by simpa using beginKeys,by simpa using beginValues⟩
  simp [moveAllTo,holds.size,target.size,copiedKeys,copiedValues]

/-- The first entry goes behind the smaller entries of the recipient. -/
theorem moveFirstToEndOf_spec {e : Entry} (holds : Holds page (e :: B)) (target : Holds recipient A)
    (below : ∀ a ∈ A, a.1 < e.1) (room : A.length < 254) :
    ∃ keys values keys' values', page.moveFirstToEndOf recipient =
        some ({ page with size := B.length, keys, values },
          { recipient with size := A.length + 1, keys := keys', values := values' }) ∧
      Holds { page with size := B.length, keys, values } B ∧
      Holds { recipient with size := A.length + 1, keys := keys', values := values' } (A ++ [e]) := by
  have source : Holds page ([] ++ (e.1,e.2) :: B) := holds
  have key : page.keys[0]? = some e.1 := keyAt source
  have val : page.values[0]? = some e.2 := valueAt source
  have target' : Holds recipient (A ++ []) := by simpa using target
  obtain ⟨keys',values',inserted,after⟩ := insert_spec target' below (by simp) (by simpa using room) e.2
  obtain ⟨keys,values,removed,left⟩ := removeAt_spec source
  simp only [List.length_nil,Nat.zero_add,Nat.add_zero] at inserted removed after left
  refine ⟨keys,values,keys',values',?_,left,after⟩
  simp only [moveFirstToEndOf,moveEntryTo,key,val,inserted,removed,Option.bind_eq_bind,Option.bind_some]

/-- The last entry goes before the larger entries of the recipient. -/
theorem moveLastToFrontOf_spec {e : Entry} (holds : Holds page (A ++ [e])) (target : Holds recipient B)
    (above : ∀ b ∈ B, e.1 < b.1) (room : B.length < 254) :
    ∃ keys values keys' values', page.moveLastToFrontOf recipient =
        some ({ page with size := A.length, keys, values },
          { recipient with size := B.length + 1, keys := keys', values := values' }) ∧
      Holds { page with size := A.length, keys, values } A ∧
      Holds { recipient with size := B.length + 1, keys := keys', values := values' } (e :: B) := by
  have source : Holds page (A ++ (e.1,e.2) :: []) := holds
  have key : page.keys[A.length]? = some e.1 := keyAt source
  have val : page.values[A.length]? = some e.2 := valueAt source
  have target' : Holds recipient ([] ++ B) := target
  obtain ⟨keys',values',inserted,after⟩ := insert_spec target' (by simp) above (by simpa using room) e.2
  obtain ⟨keys,values,removed,left⟩ := removeAt_spec source
  simp only [List.length_nil,Nat.zero_add,Nat.add_zero,List.append_nil] at inserted removed after left
  refine ⟨keys,values,keys',values',?_,left,after⟩
  have size : page.size = A.length + 1 := by simpa using holds.size
  simp [moveLastToFrontOf,moveEntryTo,size,key,val,inserted,removed]

/-! ### The header -/

/-- The page is the same one, under the same parent. -/
structure SameHeader (page page' : BPlusTreeLeafPage) : Prop where
  pageId : page'.pageId = page.pageId
  parentPageId : page'.parentPageId = page.parentPageId

section
variable {page' recipient' : BPlusTreeLeafPage} {size : Nat} {done : Bool} {index : Nat}

theorem insert_header (inserted : page.insert key value = some (size,page')) : SameHeader page page' := by
  simp only [insert,Option.bind_eq_bind,Option.bind_eq_some_iff] at inserted
  obtain ⟨_,_,present,_,rest⟩ := inserted
  split_ifs at rest
  · cases rest
    exact ⟨rfl,rfl⟩
  · simp only [Option.bind_eq_some_iff,Option.some.injEq,Prod.mk.injEq] at rest
    obtain ⟨_,_,_,_,_,_,_,_,_,rfl⟩ := rest
    exact ⟨rfl,rfl⟩

/-- A key that is refused changes nothing. -/
theorem insert_unchanged (inserted : page.insert key value = some (page.size,page')) : page' = page := by
  simp only [insert,Option.bind_eq_bind,Option.bind_eq_some_iff] at inserted
  obtain ⟨_,_,present,_,rest⟩ := inserted
  split_ifs at rest
  · cases rest
    rfl
  · simp only [Option.bind_eq_some_iff,Option.some.injEq,Prod.mk.injEq] at rest
    obtain ⟨_,_,_,_,_,_,_,_,grown,_⟩ := rest
    omega

theorem removeAt_header (removed : page.removeAt index = some page') : SameHeader page page' := by
  unfold removeAt at removed
  cases size : page.size with
  | zero => simp [size] at removed
  | succ last =>
    simp only [size,Option.bind_eq_bind,Option.bind_eq_some_iff,Option.some.injEq] at removed
    obtain ⟨_,_,_,_,rfl⟩ := removed
    exact ⟨rfl,rfl⟩

theorem remove_header (removed : page.remove key = some (done,page')) : SameHeader page page' := by
  simp only [remove,Option.bind_eq_bind,Option.bind_eq_some_iff] at removed
  obtain ⟨_,_,present,_,rest⟩ := removed
  split_ifs at rest
  · obtain ⟨after,without,same⟩ := Option.map_eq_some_iff.mp rest
    cases same
    exact removeAt_header without
  · cases rest
    exact ⟨rfl,rfl⟩

/-- So does a key that is not there. -/
theorem remove_unchanged (removed : page.remove key = some (false,page')) : page' = page := by
  simp only [remove,Option.bind_eq_bind,Option.bind_eq_some_iff] at removed
  obtain ⟨_,_,present,_,rest⟩ := removed
  split_ifs at rest
  · obtain ⟨_,_,same⟩ := Option.map_eq_some_iff.mp rest
    cases same
  · cases rest
    rfl

theorem moveHalfTo_header (moved : page.moveHalfTo recipient = some (page',recipient')) :
    SameHeader page page' ∧ SameHeader recipient recipient' := by
  simp only [moveHalfTo,Option.bind_eq_bind,Option.bind_eq_some_iff,Option.some.injEq,Prod.mk.injEq] at moved
  obtain ⟨_,_,_,_,rfl,rfl⟩ := moved
  exact ⟨⟨rfl,rfl⟩,rfl,rfl⟩

theorem moveAllTo_header (moved : page.moveAllTo recipient = some (page',recipient')) :
    SameHeader page page' ∧ SameHeader recipient recipient' := by
  simp only [moveAllTo,Option.bind_eq_bind,Option.bind_eq_some_iff,Option.some.injEq,Prod.mk.injEq] at moved
  obtain ⟨_,_,_,_,rfl,rfl⟩ := moved
  exact ⟨⟨rfl,rfl⟩,rfl,rfl⟩

end
end BPlusTreeLeafPage
end Aether.LeafPage
