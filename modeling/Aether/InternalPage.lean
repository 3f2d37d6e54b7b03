import Aether.LeafPage

/-!
`BPlusTreeInternalPage`: an internal page of the B+ tree, with its methods as
the code computes them. A method that would access the arrays outside their 339
slots, or make the size negative, has no result. The specifications speak of
the list of slots in use; the key of slot 0 is never compared, but it is moved.
-/
namespace Aether.InternalPage
open Aether.Cells Aether.Types Aether.LeafPage

abbrev Slot := Key × PageId

structure BPlusTreeInternalPage where
  size : Nat
  maxSize : Nat
  parentPageId : PageId
  pageId : PageId
  keys : Vector Key 339
  values : Vector PageId 339

/-- The scan for a value: its index, or -1. -/
def scan (values : Vector PageId 339) (value : PageId) (i : Nat) : Nat → Option Int
  | 0 => some (-1)
  | count + 1 => do
    let v ← values[i]?
    if v = value then some (i : Int) else scan values value (i + 1) count

namespace BPlusTreeInternalPage

/-- `Init` on a page of zeros. -/
def init (pageId parentId : PageId) (maxSize : Nat := 338) : BPlusTreeInternalPage :=
  { size := 0, maxSize, parentPageId := parentId, pageId, keys := Vector.replicate 339 0,
    values := Vector.replicate 339 0 }

def keyAt (page : BPlusTreeInternalPage) (index : Nat) : Option Key := page.keys[index]?
def valueAt (page : BPlusTreeInternalPage) (index : Nat) : Option PageId := page.values[index]?
def setKeyAt (page : BPlusTreeInternalPage) (index : Nat) (key : Key) : Option BPlusTreeInternalPage := do
  let keys ← write page.keys index key
  some { page with keys }

/-- The child to search for the key. -/
def lookup (page : BPlusTreeInternalPage) (key : Key) : Option PageId := do
  let low ← bisect page.keys (fun k => decide (k ≤ key)) (page.size + 1) 1 (page.size - 1)
  page.values[(low - 1).toNat]?

def populate (page : BPlusTreeInternalPage) (val0 : PageId) (key1 : Key) (val1 : PageId) :
    Option BPlusTreeInternalPage := do
  let values ← write page.values 0 val0
  let keys ← write page.keys 1 key1
  let values ← write values 1 val1
  some { page with size := 2, keys, values }

/-- The index of a child, or -1. -/
def indexOf (page : BPlusTreeInternalPage) (value : PageId) : Option Int := scan page.values value 0 page.size

def insertNodeAfter (page : BPlusTreeInternalPage) (oldValue : PageId) (newKey : Key) (newValue : PageId) :
    Option BPlusTreeInternalPage := do
  let index ← page.indexOf oldValue
  let position := (index + 1).toNat
  let keys ← shiftUp page.keys position page.size
  let values ← shiftUp page.values position page.size
  let keys ← write keys position newKey
  let values ← write values position newValue
  some { page with size := page.size + 1, keys, values }

/-- The page and the recipient afterwards. -/
def moveHalfTo (page recipient : BPlusTreeInternalPage) : Option (BPlusTreeInternalPage × BPlusTreeInternalPage) := do
  let moveCount := page.size / 2
  let startIndex := page.size - moveCount
  let keys ← copyInto recipient.keys 0 page.keys startIndex moveCount
  let values ← copyInto recipient.values 0 page.values startIndex moveCount
  some ({ page with size := startIndex },{ recipient with size := moveCount, keys, values })

def remove (page : BPlusTreeInternalPage) (index : Nat) : Option BPlusTreeInternalPage :=
  match page.size with
  | 0 => none
  | last + 1 => do
    let keys ← shiftDown page.keys index (last - index)
    let values ← shiftDown page.values index (last - index)
    some { page with size := last, keys, values }

def moveAllTo (page recipient : BPlusTreeInternalPage) (parentKey : Key) :
    Option (BPlusTreeInternalPage × BPlusTreeInternalPage) := do
  let destIndex := recipient.size
  let keys ← write recipient.keys destIndex parentKey
  let first ← page.values[0]?
  let values ← write recipient.values destIndex first
  let keys ← copyInto keys (destIndex + 1) page.keys 1 (page.size - 1)
  let values ← copyInto values (destIndex + 1) page.values 1 (page.size - 1)
  some ({ page with size := 0 },{ recipient with size := destIndex + page.size, keys, values })

def moveFirstToEndOf (page recipient : BPlusTreeInternalPage) (parentKey : Key) :
    Option (BPlusTreeInternalPage × BPlusTreeInternalPage) := do
  let destIdx := recipient.size
  let keys ← write recipient.keys destIdx parentKey
  let first ← page.values[0]?
  let values ← write recipient.values destIdx first
  let page ← page.remove 0
  some (page,{ recipient with size := destIdx + 1, keys, values })

def moveLastToFrontOf (page recipient : BPlusTreeInternalPage) (parentKey : Key) :
    Option (BPlusTreeInternalPage × BPlusTreeInternalPage) :=
  match page.size with
  | 0 => none
  | lastIdx + 1 => do
    let keys ← shiftUp recipient.keys 0 recipient.size
    let values ← shiftUp recipient.values 0 recipient.size
    let keys ← write keys 1 parentKey
    let last ← page.values[lastIdx]?
    let values ← write values 0 last
    some ({ page with size := lastIdx },{ recipient with size := recipient.size + 1, keys, values })

/-! ### The slots -/

/-- The used slots of the page hold the given keys and children. -/
structure Holds (page : BPlusTreeInternalPage) (slots : List Slot) : Prop where
  size : page.size = slots.length
  keys : Begins page.keys (slots.map Prod.fst)
  values : Begins page.values (slots.map Prod.snd)

theorem init_holds (pageId parentId : PageId) : Holds (init pageId parentId) [] :=
  ⟨rfl,begins_nil _,begins_nil _⟩

variable {page recipient : BPlusTreeInternalPage} {A B L R : List Slot} {key : Key} {child : PageId}

theorem Holds.fits (holds : Holds page A) : A.length ≤ 339 := by
  have := begins_length holds.keys
  simpa using this

theorem keyAt_spec (holds : Holds page (L ++ (key,child) :: R)) : page.keyAt L.length = some key := by
  have keys := holds.keys
  rw [List.map_append,List.map_cons] at keys
  have here := begins_get keys
  rwa [List.length_map] at here

theorem valueAt_spec (holds : Holds page (L ++ (key,child) :: R)) : page.valueAt L.length = some child := by
  have values := holds.values
  rw [List.map_append,List.map_cons] at values
  have here := begins_get values
  rwa [List.length_map] at here

theorem setKeyAt_spec (holds : Holds page (L ++ (key,child) :: R)) (newKey : Key) :
    ∃ keys, page.setKeyAt L.length newKey = some { page with keys } ∧
      Holds { page with keys } (L ++ (newKey,child) :: R) := by
  have keysBegin := holds.keys
  rw [List.map_append,List.map_cons] at keysBegin
  obtain ⟨keys,wrote,begins⟩ := replace_begins keysBegin newKey
  rw [List.length_map] at wrote
  exact ⟨keys,by simp [setKeyAt,wrote],by simpa using holds.size,by simpa using begins,by simpa using holds.values⟩

/-- The search follows the last slot, after slot 0, whose key is not above. -/
theorem lookup_spec {k : Key} (holds : Holds page (L ++ (k,child) :: R))
    (left : ∀ e ∈ (L ++ [(k,child)]).drop 1, e.1 ≤ key) (right : ∀ e ∈ R, key < e.1) :
    page.lookup key = some child := by
  have size := holds.size
  have keys := holds.keys
  have split : L ++ (k,child) :: R = (L ++ [(k,child)]) ++ R := by simp
  rw [split,List.map_append] at keys
  simp only [List.length_append,List.length_cons] at size
  have found := bisect_spec (fun x => decide (x ≤ key)) 1 keys
    (by
      intro x member
      rw [← List.map_drop] at member
      obtain ⟨e,inLeft,rfl⟩ := List.mem_map.mp member
      simpa using left e inLeft)
    (by simpa using fun x c member => right (x,c) member)
    (page.size + 1) 1 (page.size - 1) (by omega) (by simp) (by simp; omega) (by simp; omega) (by omega)
  have here : page.values[L.length]? = some child := valueAt_spec holds
  simp [lookup,found,here]

theorem populate_spec (holds : Holds page []) (zero : page.keys[0]? = some key) (val0 : PageId) (key1 : Key) (val1 : PageId) :
    ∃ keys values, page.populate val0 key1 val1 = some { page with size := 2, keys, values } ∧
      Holds { page with size := 2, keys, values } [(key,val0),(key1,val1)] := by
  have keysBegin : Begins page.keys [key] := by
    intro i inside
    have first : i = 0 := by simpa using inside
    subst first
    simpa using zero
  obtain ⟨values,wrote0,begin0⟩ := push_begins holds.values (by simp) val0
  obtain ⟨keys,wroteKey,beginKeys⟩ := push_begins keysBegin (by simp) key1
  obtain ⟨values',wrote1,begin1⟩ := push_begins begin0 (by simp) val1
  refine ⟨keys,values',?_,rfl,beginKeys,begin1⟩
  simp only [List.length_nil,List.length_singleton,List.map_nil,List.nil_append] at wrote0 wroteKey wrote1
  simp [populate,wrote0,wroteKey,wrote1]

theorem scan_spec {values : Vector PageId 339} : ∀ (R L : List PageId) (value : PageId) (T : List PageId),
    Begins values (L ++ R ++ value :: T) → value ∉ R →
    scan values value L.length (R.length + 1 + T.length) = some ((L.length + R.length : Nat) : Int)
  | [], L, value, T, begins, _ => by
    rw [List.append_nil] at begins
    have here := begins_get begins
    rw [show ([] : List PageId).length + 1 + T.length = T.length + 1 by simp; omega]
    simp [scan,here]
  | r :: R, L, value, T, begins, absent => by
    have here : values[L.length]? = some r := by
      apply begins_get (A := L) (B := R ++ value :: T)
      simpa using begins
    have other : r ≠ value := fun same => absent (by simp [same])
    have later := scan_spec R (L ++ [r]) value T (by simpa using begins) (fun member => absent (by simp [member]))
    rw [show (r :: R).length + 1 + T.length = (R.length + 1 + T.length) + 1 by simp; omega]
    simp only [scan,here,Option.bind_eq_bind,Option.bind_some,if_neg other]
    simp only [List.length_append,List.length_singleton] at later
    rw [later]
    simp
    omega

theorem indexOf_spec (holds : Holds page (L ++ (key,child) :: R)) (first : child ∉ L.map Prod.snd) :
    page.indexOf child = some (L.length : Int) := by
  have values := holds.values
  have size := holds.size
  simp only [List.map_append,List.map_cons,List.length_append,List.length_cons] at values size
  have found := scan_spec (L.map Prod.snd) [] child (R.map Prod.snd) (by simpa using values) first
  simp only [List.length_map,List.length_nil,Nat.zero_add] at found
  rw [indexOf,size,show L.length + (R.length + 1) = L.length + 1 + R.length by omega,found]

theorem insertNodeAfter_spec (holds : Holds page (L ++ (key,child) :: R)) (first : child ∉ L.map Prod.snd)
    (room : L.length + R.length + 1 < 339) (newKey : Key) (newValue : PageId) :
    ∃ keys values, page.insertNodeAfter child newKey newValue =
        some { page with size := L.length + R.length + 2, keys, values } ∧
      Holds { page with size := L.length + R.length + 2, keys, values }
        (L ++ (key,child) :: (newKey,newValue) :: R) := by
  have size := holds.size
  have keysBegin := holds.keys
  have valuesBegin := holds.values
  have split : L ++ (key,child) :: R = (L ++ [(key,child)]) ++ R := by simp
  simp only [List.length_append,List.length_cons] at size
  rw [split,List.map_append] at keysBegin valuesBegin
  obtain ⟨keys,keys',shiftedKeys,wroteKeys,beginKeys⟩ := insert_begins keysBegin (by simp; omega) newKey
  obtain ⟨values,values',shiftedValues,wroteValues,beginValues⟩ := insert_begins valuesBegin (by simp; omega) newValue
  have isSize : page.size = L.length + 1 + R.length := by omega
  simp only [List.length_map,List.length_append,List.length_singleton] at shiftedKeys wroteKeys shiftedValues wroteValues
  refine ⟨keys',values',?_,by simp; omega,by simpa using beginKeys,by simpa using beginValues⟩
  have position : ((L.length : Int) + 1).toNat = L.length + 1 := by omega
  simp [insertNodeAfter,indexOf_spec holds first,position,isSize,shiftedKeys,shiftedValues,wroteKeys,wroteValues]
  omega

theorem moveHalfTo_spec (holds : Holds page (A ++ B)) (empty : Holds recipient [])
    (half : B.length = (A.length + B.length) / 2) :
    ∃ keys values, page.moveHalfTo recipient =
        some ({ page with size := A.length },{ recipient with size := B.length, keys, values }) ∧
      Holds { page with size := A.length } A ∧ Holds { recipient with size := B.length, keys, values } B := by
  have size := holds.size
  have keysBegin := holds.keys
  have valuesBegin := holds.values
  have fits := holds.fits
  rw [List.length_append] at size fits
  rw [List.map_append] at keysBegin valuesBegin
  obtain ⟨keys,copiedKeys,beginKeys⟩ := copy_begins keysBegin empty.keys (by simp; omega)
  obtain ⟨values,copiedValues,beginValues⟩ := copy_begins valuesBegin empty.values (by simp; omega)
  simp only [List.length_map,List.map_nil,List.length_nil] at copiedKeys copiedValues
  refine ⟨keys,values,?_,⟨rfl,begins_left keysBegin,begins_left valuesBegin⟩,
    rfl,by simpa using beginKeys,by simpa using beginValues⟩
  have moveCount : page.size / 2 = B.length := by rw [size,← half]
  have startIndex : page.size - B.length = A.length := by omega
  simp [moveHalfTo,moveCount,startIndex,copiedKeys,copiedValues]

theorem remove_spec {e : Slot} (holds : Holds page (A ++ e :: B)) :
    ∃ keys values, page.remove A.length = some { page with size := A.length + B.length, keys, values } ∧
      Holds { page with size := A.length + B.length, keys, values } (A ++ B) := by
  have size := holds.size
  have keysBegin := holds.keys
  have valuesBegin := holds.values
  simp only [List.length_append,List.length_cons] at size
  rw [List.map_append,List.map_cons] at keysBegin valuesBegin
  obtain ⟨keys,shiftedKeys,beginKeys⟩ := remove_begins keysBegin
  obtain ⟨values,shiftedValues,beginValues⟩ := remove_begins valuesBegin
  simp only [List.length_map] at shiftedKeys shiftedValues
  refine ⟨keys,values,?_,by simp,by simpa using beginKeys,by simpa using beginValues⟩
  have count : A.length + B.length - A.length = B.length := by omega
  have last : page.size = (A.length + B.length) + 1 := by omega
  simp [remove,last,count,shiftedKeys,shiftedValues]

/-- The separator comes down in front of the first child moved. -/
theorem moveAllTo_spec (holds : Holds page ((key,child) :: B)) (target : Holds recipient A)
    (room : A.length + B.length + 1 ≤ 339) (parentKey : Key) :
    ∃ keys values, page.moveAllTo recipient parentKey =
        some ({ page with size := 0 },{ recipient with size := A.length + B.length + 1, keys, values }) ∧
      Holds { recipient with size := A.length + B.length + 1, keys, values } (A ++ (parentKey,child) :: B) := by
  have size : page.size = B.length + 1 := by simpa using holds.size
  have keysBegin : Begins page.keys ([key] ++ B.map Prod.fst) := by simpa using holds.keys
  have valuesBegin : Begins page.values ([child] ++ B.map Prod.snd) := by simpa using holds.values
  have source : Holds page ([] ++ (key,child) :: B) := holds
  have first : page.values[0]? = some child := valueAt_spec source
  obtain ⟨keys,wroteKey,beginKeys⟩ := push_begins target.keys (by simp; omega) parentKey
  obtain ⟨values,wroteValue,beginValues⟩ := push_begins target.values (by simp; omega) child
  obtain ⟨keys',copiedKeys,beginKeys'⟩ := copy_begins keysBegin beginKeys (by simp; omega)
  obtain ⟨values',copiedValues,beginValues'⟩ := copy_begins valuesBegin beginValues (by simp; omega)
  simp only [List.length_map,List.length_append,List.length_singleton] at wroteKey wroteValue copiedKeys copiedValues
  refine ⟨keys',values',?_,by simp; omega,by simpa using beginKeys',by simpa using beginValues'⟩
  simp only [moveAllTo,target.size,size,wroteKey,first,wroteValue,Nat.add_sub_cancel,copiedKeys,copiedValues,
    Option.bind_eq_bind,Option.bind_some,Nat.add_assoc]

/-- The separator comes down in front of the child moved. -/
theorem moveFirstToEndOf_spec (holds : Holds page ((key,child) :: B)) (target : Holds recipient A)
    (room : A.length < 339) (parentKey : Key) :
    ∃ keys values keys' values', page.moveFirstToEndOf recipient parentKey =
        some ({ page with size := B.length, keys, values },
          { recipient with size := A.length + 1, keys := keys', values := values' }) ∧
      Holds { page with size := B.length, keys, values } B ∧
      Holds { recipient with size := A.length + 1, keys := keys', values := values' } (A ++ [(parentKey,child)]) := by
  have source : Holds page ([] ++ (key,child) :: B) := holds
  have first : page.values[0]? = some child := valueAt_spec source
  obtain ⟨keys',wroteKey,beginKeys⟩ := push_begins target.keys (by simpa using room) parentKey
  obtain ⟨values',wroteValue,beginValues⟩ := push_begins target.values (by simpa using room) child
  obtain ⟨keys,values,removed,after⟩ := remove_spec source
  simp only [List.length_map,List.length_nil,Nat.zero_add] at wroteKey wroteValue removed after
  refine ⟨keys,values,keys',values',?_,after,by simp,by simpa using beginKeys,by simpa using beginValues⟩
  simp only [moveFirstToEndOf,target.size,wroteKey,first,wroteValue,removed,Option.bind_eq_bind,Option.bind_some]

/-- The separator comes down in front of the recipient's old first child. -/
theorem moveLastToFrontOf_spec {k0 : Key} {c0 : PageId} (holds : Holds page (A ++ [(key,child)]))
    (target : Holds recipient ((k0,c0) :: B)) (room : B.length + 1 < 339) (parentKey : Key) :
    ∃ keys values, page.moveLastToFrontOf recipient parentKey =
        some ({ page with size := A.length },{ recipient with size := B.length + 2, keys, values }) ∧
      Holds { page with size := A.length } A ∧
      Holds { recipient with size := B.length + 2, keys, values } ((k0,child) :: (parentKey,c0) :: B) := by
  have size : page.size = A.length + 1 := by simpa using holds.size
  have targetSize : recipient.size = B.length + 1 := by simpa using target.size
  have targetKeys : Begins recipient.keys (k0 :: B.map Prod.fst) := by simpa using target.keys
  have targetValues : Begins recipient.values (c0 :: B.map Prod.snd) := by simpa using target.values
  have last : page.values[A.length]? = some child := valueAt_spec holds
  obtain ⟨keys,shiftedKeys,beginKeys⟩ := shift_begins targetKeys (by simpa using room)
  obtain ⟨values,shiftedValues,beginValues⟩ := shift_begins targetValues (by simpa using room)
  obtain ⟨keys',wroteKey,beginKeys'⟩ := replace_begins (A := [k0]) beginKeys parentKey
  obtain ⟨values',wroteValue,beginValues'⟩ := replace_begins (A := []) beginValues child
  simp only [List.length_map,List.length_singleton,List.length_nil] at shiftedKeys shiftedValues wroteKey wroteValue
  refine ⟨keys',values',?_,⟨rfl,?_,?_⟩,by simp,by simpa using beginKeys',by simpa using beginValues'⟩
  · simp only [moveLastToFrontOf,size,targetSize,shiftedKeys,shiftedValues,wroteKey,last,wroteValue,
      Option.bind_eq_bind,Option.bind_some]
  · exact begins_left (by simpa using holds.keys)
  · exact begins_left (by simpa using holds.values)

/-! ### The children in use -/

/-- The page has the child in a used slot. -/
def Child (page : BPlusTreeInternalPage) (c : PageId) : Prop := ∃ i, i < page.size ∧ page.valueAt i = some c

section
variable {page' recipient' : BPlusTreeInternalPage} {key parentKey : Key} {c old new : PageId} {index : Nat} {found : Int}

theorem scan_bounds {values : Vector PageId 339} {value : PageId} : ∀ (count i : Nat) {found : Int},
    scan values value i count = some found → -1 ≤ found ∧ found < (i + count : Nat)
  | 0, i, found, stopped => by
    obtain rfl := Option.some.inj stopped
    omega
  | count + 1, i, found, stopped => by
    simp only [scan,Option.bind_eq_bind,Option.bind_eq_some_iff] at stopped
    obtain ⟨v,_,later⟩ := stopped
    split_ifs at later
    · obtain rfl := Option.some.inj later
      omega
    · have bounds := scan_bounds count (i + 1) later
      omega

theorem indexOf_bounds (looked : page.indexOf old = some found) : -1 ≤ found ∧ found < page.size := by
  have bounds := scan_bounds page.size 0 looked
  omega

/-- The search ends at a used slot. -/
theorem lookup_child (inhabited : 1 ≤ page.size) (looked : page.lookup key = some c) : Child page c := by
  simp only [lookup,Option.bind_eq_bind,Option.bind_eq_some_iff] at looked
  obtain ⟨low,searched,value⟩ := looked
  have bounds := bisect_bounds (page.size + 1) (by omega) searched
  exact ⟨(low - 1).toNat,by omega,value⟩

theorem insertNodeAfter_child (inserted : page.insertNodeAfter old key new = some page') (child : Child page' c) :
    Child page c ∨ c = new := by
  simp only [insertNodeAfter,Option.bind_eq_bind,Option.bind_eq_some_iff,Option.some.injEq] at inserted
  obtain ⟨index,looked,_,_,_,shifted,_,_,_,wrote,rfl⟩ := inserted
  obtain ⟨i,inside,value⟩ := child
  have bounds := indexOf_bounds looked
  simp only [valueAt,(write_some wrote).2,shiftUp_some shifted] at inside value
  split_ifs at value with here above
  · exact .inr (Option.some.inj value).symm
  · exact .inl ⟨i - 1,by omega,value⟩
  · exact .inl ⟨i,by omega,value⟩

theorem moveHalfTo_child (moved : page.moveHalfTo recipient = some (page',recipient')) (child : Child page' c ∨ Child recipient' c) :
    Child page c := by
  simp only [moveHalfTo,Option.bind_eq_bind,Option.bind_eq_some_iff,Option.some.injEq,Prod.mk.injEq] at moved
  obtain ⟨_,_,_,copied,rfl,rfl⟩ := moved
  rcases child with ⟨i,inside,value⟩ | ⟨i,inside,value⟩
  · exact ⟨i,by simp only at inside; omega,value⟩
  · simp only [valueAt,copyInto_some copied] at inside value
    rw [if_pos (by omega)] at value
    exact ⟨_,by omega,value⟩

theorem remove_child (removed : page.remove index = some page') (child : Child page' c) : Child page c := by
  unfold remove at removed
  cases size : page.size with
  | zero => simp [size] at removed
  | succ last =>
    simp only [size,Option.bind_eq_bind,Option.bind_eq_some_iff,Option.some.injEq] at removed
    obtain ⟨_,_,_,shifted,rfl⟩ := removed
    obtain ⟨i,inside,value⟩ := child
    simp only [valueAt,shiftDown_some shifted] at inside value
    split_ifs at value
    · exact ⟨i + 1,by omega,value⟩
    · exact ⟨i,by omega,value⟩

theorem moveAllTo_child (moved : page.moveAllTo recipient parentKey = some (page',recipient')) (child : Child recipient' c) :
    Child page c ∨ Child recipient c := by
  simp only [moveAllTo,Option.bind_eq_bind,Option.bind_eq_some_iff,Option.some.injEq,Prod.mk.injEq] at moved
  obtain ⟨_,_,first,head,_,wrote,_,_,_,copied,rfl,rfl⟩ := moved
  obtain ⟨i,inside,value⟩ := child
  simp only [valueAt,copyInto_some copied,(write_some wrote).2] at inside value
  split_ifs at value with rest here
  · exact .inl ⟨_,by omega,value⟩
  · exact .inl ⟨0,by omega,by rw [valueAt,head,value]⟩
  · exact .inr ⟨i,by omega,value⟩

/-- The child that comes to the end of the recipient. -/
theorem moveFirstToEndOf_child (moved : page.moveFirstToEndOf recipient parentKey = some (page',recipient'))
    (last : recipient'.valueAt (recipient'.size - 1) = some c) : Child page c := by
  simp only [moveFirstToEndOf,Option.bind_eq_bind,Option.bind_eq_some_iff,Option.some.injEq,Prod.mk.injEq] at moved
  obtain ⟨_,_,first,head,_,wrote,_,removed,rfl,rfl⟩ := moved
  simp only [valueAt,(write_some wrote).2,Nat.add_sub_cancel,if_pos] at last
  refine ⟨0,?_,by rw [valueAt,head,last]⟩
  unfold remove at removed
  cases size : page.size with
  | zero => simp [size] at removed
  | succ last => exact Nat.succ_pos last

/-- The child that comes to the front of the recipient. -/
theorem moveLastToFrontOf_child (moved : page.moveLastToFrontOf recipient parentKey = some (page',recipient'))
    (first : recipient'.valueAt 0 = some c) : Child page c := by
  unfold moveLastToFrontOf at moved
  cases size : page.size with
  | zero => simp [size] at moved
  | succ lastIdx =>
    simp only [size,Option.bind_eq_bind,Option.bind_eq_some_iff,Option.some.injEq,Prod.mk.injEq] at moved
    obtain ⟨_,_,_,_,_,_,last,tail,_,wrote,_,rfl⟩ := moved
    simp only [valueAt,(write_some wrote).2,if_pos] at first
    exact ⟨lastIdx,by omega,by rw [valueAt,tail,first]⟩

/-! ### The header -/

/-- The page is the same one, under the same parent. -/
structure SameHeader (page page' : BPlusTreeInternalPage) : Prop where
  pageId : page'.pageId = page.pageId
  parentPageId : page'.parentPageId = page.parentPageId

theorem insertNodeAfter_header (inserted : page.insertNodeAfter old key new = some page') : SameHeader page page' := by
  simp only [insertNodeAfter,Option.bind_eq_bind,Option.bind_eq_some_iff,Option.some.injEq] at inserted
  obtain ⟨_,_,_,_,_,_,_,_,_,_,rfl⟩ := inserted
  exact ⟨rfl,rfl⟩

theorem moveHalfTo_header (moved : page.moveHalfTo recipient = some (page',recipient')) :
    SameHeader page page' ∧ SameHeader recipient recipient' := by
  simp only [moveHalfTo,Option.bind_eq_bind,Option.bind_eq_some_iff,Option.some.injEq,Prod.mk.injEq] at moved
  obtain ⟨_,_,_,_,rfl,rfl⟩ := moved
  exact ⟨⟨rfl,rfl⟩,rfl,rfl⟩

theorem remove_header (removed : page.remove index = some page') : SameHeader page page' := by
  unfold remove at removed
  cases size : page.size with
  | zero => simp [size] at removed
  | succ last =>
    simp only [size,Option.bind_eq_bind,Option.bind_eq_some_iff,Option.some.injEq] at removed
    obtain ⟨_,_,_,_,rfl⟩ := removed
    exact ⟨rfl,rfl⟩

/-- The emptied page has no children left. -/
theorem moveAllTo_header (moved : page.moveAllTo recipient parentKey = some (page',recipient')) :
    SameHeader page page' ∧ SameHeader recipient recipient' ∧ page'.size = 0 := by
  simp only [moveAllTo,Option.bind_eq_bind,Option.bind_eq_some_iff,Option.some.injEq,Prod.mk.injEq] at moved
  obtain ⟨_,_,_,_,_,_,_,_,_,_,rfl,rfl⟩ := moved
  exact ⟨⟨rfl,rfl⟩,⟨rfl,rfl⟩,rfl⟩

end
end BPlusTreeInternalPage
end Aether.InternalPage
