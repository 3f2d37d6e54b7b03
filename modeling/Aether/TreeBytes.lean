import Aether.BPlusTree
import Aether.Codecs
import Aether.PoolClients

/-!
Tree pages in the bytes of a frame: the fields of the two page classes at the places
where the compiler puts them, in the header and in the arrays behind it. The methods of
the pages keep keys in the range of 64-bit integers and sizes within the arrays, so what
they leave can always be stored.
-/
namespace Aether.TreeBytes
open Aether.Bytes Aether.Cells Aether.Codecs Aether.Codecs.Codec Aether.Types Aether.PageStore
open Aether.DiskManager Aether.LeafPage Aether.InternalPage Aether.BPlusTree Aether.PoolClients

/-! ### The fields -/

/-- `page_id` and `slot_num`. -/
def ridCodec : Codec RID :=
  (word.pair word).map (fun words => { pageId := words.1, slotNum := words.2 }) (fun rid => (rid.pageId,rid.slotNum)) (fun _ => True)
    (fun _ _ => trivial) (fun _ _ => ⟨trivial,trivial⟩) (fun _ _ => rfl) (fun _ _ => rfl)

/-- `size_`, `max_size_`, `parent_page_id_` and `page_id_`. A size is read as a natural number. -/
def headerCodec : Codec ((Nat × Nat) × PageId × PageId) := (nat.pair nat).pair (word.pair word)

/-- What a leaf has after `page_type_`: its header, `next_page_id_` and the arrays. -/
abbrev LeafFields := (((Nat × Nat) × PageId × PageId) × PageId) × Vector Key 254 × Vector RID 254

def fieldsCodec : Codec LeafFields := (headerCodec.pair word).pair ((array 254 int64).pair (array 254 ridCodec))

def leafOf (fields : LeafFields) : BPlusTreeLeafPage :=
  { size := fields.1.1.1.1, maxSize := fields.1.1.1.2, parentPageId := fields.1.1.2.1, pageId := fields.1.1.2.2,
    nextPageId := fields.1.2, keys := fields.2.1, values := fields.2.2 }

def leafCodec : Codec BPlusTreeLeafPage :=
  fieldsCodec.map leafOf
    (fun page => ((((page.size,page.maxSize),page.parentPageId,page.pageId),page.nextPageId),page.keys,page.values))
    (fun page => (page.size < 4294967296 ∧ page.maxSize < 4294967296) ∧ Within Int64Range page.keys)
    (fun _ fits => ⟨fits.1.1.1,fits.2.1⟩) (fun _ fits => ⟨⟨⟨fits.1,trivial,trivial⟩,trivial⟩,fits.2,fun _ _ => trivial⟩)
    (fun _ _ => rfl) (fun _ _ => rfl)

/-- The arrays of an internal page. -/
def slotsCodec : Codec (Vector Key 339 × Vector PageId 339) := (array 339 int64).pair (array 339 word)

def internalOf (header : (Nat × Nat) × PageId × PageId) (slots : Vector Key 339 × Vector PageId 339) : BPlusTreeInternalPage :=
  { size := header.1.1, maxSize := header.1.2, parentPageId := header.2.1, pageId := header.2.2, keys := slots.1, values := slots.2 }

/-- The arrays of 64-bit keys are aligned, so four bytes behind the header of an internal page are unused. -/
def putInternal (bytes : PageData) (page : BPlusTreeInternalPage) : PageData :=
  slotsCodec.put (headerCodec.put bytes 4 ((page.size,page.maxSize),page.parentPageId,page.pageId)) 24 (page.keys,page.values)

def getInternal (bytes : PageData) : BPlusTreeInternalPage := internalOf (headerCodec.get bytes 4) (slotsCodec.get bytes 24)

/-- What the fields of a page can hold. -/
def Fits : BPlusTreePage → Prop
  | .leaf page => (page.size < 4294967296 ∧ page.maxSize < 4294967296) ∧ Within Int64Range page.keys
  | .internal page => (page.size < 4294967296 ∧ page.maxSize < 4294967296) ∧ Within Int64Range page.keys

section
variable {bytes : PageData} {page : BPlusTreeInternalPage} {leaf : BPlusTreeLeafPage}

theorem fits_getInternal : Fits (.internal (getInternal bytes)) :=
  have header : headerCodec.Fits (headerCodec.get bytes 4) := fits_get
  have slots : slotsCodec.Fits (slotsCodec.get bytes 24) := fits_get
  ⟨header.1,slots.1⟩

theorem get_putInternal (fits : Fits (.internal page)) : getInternal (putInternal bytes page) = page := by
  have header : headerCodec.Fits ((page.size,page.maxSize),page.parentPageId,page.pageId) := ⟨fits.1,trivial,trivial⟩
  have slots : slotsCodec.Fits (page.keys,page.values) := ⟨fits.2,fun _ _ => trivial⟩
  unfold getInternal putInternal
  rw [get_put_outside (.inl (by decide)),get_put (by decide) header,get_put (by decide) slots]
  rfl

theorem put_getInternal : putInternal bytes (getInternal bytes) = bytes := by
  show slotsCodec.put (headerCodec.put bytes 4 (headerCodec.get bytes 4)) 24 (slotsCodec.get bytes 24) = bytes
  rw [put_get,put_get]

theorem get32_putInternal : (putInternal bytes page).get32 0 = bytes.get32 0 := by
  unfold putInternal Codec.put
  rw [Block.get32_put_outside (.inl (by decide)),Block.get32_put_outside (.inl (by decide))]

theorem get32_putLeaf : (leafCodec.put bytes 4 leaf).get32 0 = bytes.get32 0 := by
  unfold Codec.put
  rw [Block.get32_put_outside (.inl (by decide))]

/-- `page_type_` of an internal page: a page that is not a leaf has it already. -/
def markInternal (bytes : PageData) : PageData := if bytes.get32 0 = 0 then bytes.put32 0 1 else bytes

theorem get32_markInternal : (markInternal bytes).get32 0 ≠ 0 := by
  unfold markInternal
  by_cases leaf : bytes.get32 0 = 0
  · rw [if_pos leaf,Block.get32_put32 (by decide)]
    decide
  · rw [if_neg leaf]
    exact leaf

/-- A page of the tree, told apart by `page_type_`, in a frame. -/
def treeFormat : Format BPlusTreePage where
  view bytes := if bytes.get32 0 = 0 then .leaf (leafCodec.get bytes 4) else .internal (getInternal bytes)
  store bytes
    | .leaf page => leafCodec.put (bytes.put32 0 0) 4 page
    | .internal page => putInternal (markInternal bytes) page
  Fits := Fits
  fits_view bytes := by
    split_ifs
    · have fits : leafCodec.Fits (leafCodec.get bytes 4) := fits_get
      exact fits
    · exact fits_getInternal
  view_store := by
    intro bytes page fits
    cases page with
    | leaf page =>
      dsimp only
      rw [get32_putLeaf,Block.get32_put32 (by decide),if_pos rfl,get_put (by decide) fits]
    | internal page =>
      dsimp only
      rw [get32_putInternal,if_neg get32_markInternal,get_putInternal fits]
  store_view bytes := by
    by_cases leaf : bytes.get32 0 = 0
    · rw [if_pos leaf]
      dsimp only
      rw [Block.put32_same leaf,put_get]
    · rw [if_neg leaf]
      dsimp only
      rw [markInternal,if_neg leaf,put_getInternal]

theorem view_leaf (type : bytes.get32 0 = 0) : treeFormat.view bytes = .leaf (leafCodec.get bytes 4) := by
  dsimp only [treeFormat]
  rw [if_pos type]

/-- A new page has the content of a leaf of zeros. -/
theorem treeFormat_blank : treeFormat.blank = .zeros := by
  have type : (Block.zeros PAGE_SIZE).get32 0 = 0 := by decide
  have key : int64.zero = 0 := by decide
  have value : ridCodec.zero = { pageId := 0, slotNum := 0 } := by decide
  have number : nat.zero = 0 := by decide
  have id : word.zero = 0 := by decide
  calc treeFormat.blank = .leaf (leafCodec.get (Block.zeros PAGE_SIZE) 4) := view_leaf type
    _ = .leaf (leafOf fieldsCodec.zero) := by rw [get_zeros]; rfl
    _ = .zeros := by
      rw [fieldsCodec,headerCodec]
      simp only [zero_pair,zero_array,key,value,number,id]
      rfl

end

/-! ### The methods of the pages -/

section
variable {leaf leaf' recipient recipient' : BPlusTreeLeafPage} {key : Key} {value : RID} {size index : Nat} {done : Bool}

theorem fits_initLeaf (pageId parentId : PageId) : Fits (.leaf (.init pageId parentId)) :=
  ⟨⟨(by decide : 0 < 4294967296),(by decide : 253 < 4294967296)⟩,within_replicate (by decide)⟩

theorem fits_insert (fits : Fits (.leaf leaf)) (range : Int64Range key) (inserted : leaf.insert key value = some (size,leaf')) :
    Fits (.leaf leaf') := by
  obtain ⟨⟨small,max⟩,keys⟩ := fits
  simp only [BPlusTreeLeafPage.insert,Option.bind_eq_bind,Option.bind_eq_some_iff] at inserted
  obtain ⟨i,looked,present,_,rest⟩ := inserted
  split_ifs at rest
  · cases rest
    exact ⟨⟨small,max⟩,keys⟩
  · simp only [Option.bind_eq_some_iff,Option.some.injEq,Prod.mk.injEq] at rest
    obtain ⟨keys₁,shifted,_,_,keys₂,wrote,_,_,_,rfl⟩ := rest
    have low := (write_some wrote).1
    have room : leaf.size < 254 := by
      rcases shiftUp_inside shifted with inside | done <;> omega
    exact ⟨⟨by simp only; omega,max⟩,within_write (within_shiftUp keys shifted) range wrote⟩

theorem fits_moveHalfTo (fits : Fits (.leaf leaf)) (target : Fits (.leaf recipient))
    (moved : leaf.moveHalfTo recipient = some (leaf',recipient')) : Fits (.leaf leaf') ∧ Fits (.leaf recipient') := by
  obtain ⟨⟨small,max⟩,keys⟩ := fits
  simp only [BPlusTreeLeafPage.moveHalfTo,Option.bind_eq_bind,Option.bind_eq_some_iff,Option.some.injEq,Prod.mk.injEq] at moved
  obtain ⟨_,copied,_,_,rfl,rfl⟩ := moved
  exact ⟨⟨⟨by simp only; omega,max⟩,keys⟩,⟨by simp only; omega,target.1.2⟩,within_copyInto target.2 keys copied⟩

theorem fits_removeAt (fits : Fits (.leaf leaf)) (removed : leaf.removeAt index = some leaf') : Fits (.leaf leaf') := by
  obtain ⟨⟨small,max⟩,keys⟩ := fits
  unfold BPlusTreeLeafPage.removeAt at removed
  cases size : leaf.size with
  | zero => simp [size] at removed
  | succ last =>
    simp only [size,Option.bind_eq_bind,Option.bind_eq_some_iff,Option.some.injEq] at removed
    obtain ⟨_,shifted,_,_,rfl⟩ := removed
    exact ⟨⟨by simp only; omega,max⟩,within_shiftDown keys shifted⟩

theorem fits_remove (fits : Fits (.leaf leaf)) (removed : leaf.remove key = some (done,leaf')) : Fits (.leaf leaf') := by
  simp only [BPlusTreeLeafPage.remove,Option.bind_eq_bind,Option.bind_eq_some_iff] at removed
  obtain ⟨_,_,present,_,rest⟩ := removed
  split_ifs at rest
  · obtain ⟨after,without,same⟩ := Option.map_eq_some_iff.mp rest
    cases same
    exact fits_removeAt fits without
  · cases rest
    exact fits

theorem fits_moveAllTo (fits : Fits (.leaf leaf)) (target : Fits (.leaf recipient))
    (moved : leaf.moveAllTo recipient = some (leaf',recipient')) : Fits (.leaf leaf') ∧ Fits (.leaf recipient') := by
  obtain ⟨⟨small,max⟩,keys⟩ := target
  simp only [BPlusTreeLeafPage.moveAllTo,Option.bind_eq_bind,Option.bind_eq_some_iff,Option.some.injEq,Prod.mk.injEq] at moved
  obtain ⟨_,copied,_,_,rfl,rfl⟩ := moved
  have room : recipient.size + leaf.size < 4294967296 := by
    rcases copyInto_inside _ _ _ _ copied with none | ⟨inside,_⟩ <;> omega
  exact ⟨⟨⟨by simp,fits.1.2⟩,fits.2⟩,⟨room,max⟩,within_copyInto keys fits.2 copied⟩

theorem fits_moveEntryTo (fits : Fits (.leaf leaf)) (target : Fits (.leaf recipient))
    (moved : leaf.moveEntryTo recipient index = some (leaf',recipient')) : Fits (.leaf leaf') ∧ Fits (.leaf recipient') := by
  simp only [BPlusTreeLeafPage.moveEntryTo,Option.bind_eq_bind,Option.bind_eq_some_iff,Option.some.injEq,Prod.mk.injEq] at moved
  obtain ⟨key,here,_,_,⟨_,_⟩,inserted,_,removed,rfl,rfl⟩ := moved
  exact ⟨fits_removeAt fits removed,fits_insert target (within_get fits.2 here) inserted⟩

theorem fits_moveFirstToEndOf (fits : Fits (.leaf leaf)) (target : Fits (.leaf recipient))
    (moved : leaf.moveFirstToEndOf recipient = some (leaf',recipient')) : Fits (.leaf leaf') ∧ Fits (.leaf recipient') :=
  fits_moveEntryTo fits target moved

theorem fits_moveLastToFrontOf (fits : Fits (.leaf leaf)) (target : Fits (.leaf recipient))
    (moved : leaf.moveLastToFrontOf recipient = some (leaf',recipient')) : Fits (.leaf leaf') ∧ Fits (.leaf recipient') := by
  unfold BPlusTreeLeafPage.moveLastToFrontOf at moved
  split at moved
  · cases moved
  · exact fits_moveEntryTo fits target moved

end

section
variable {page page' recipient recipient' : BPlusTreeInternalPage} {key parentKey : Key} {old new val0 val1 : PageId} {index : Nat}

theorem fits_initInternal (pageId parentId : PageId) : Fits (.internal (.init pageId parentId)) :=
  ⟨⟨(by decide : 0 < 4294967296),(by decide : 338 < 4294967296)⟩,within_replicate (by decide)⟩

theorem fits_setKeyAt (fits : Fits (.internal page)) (range : Int64Range key) (set : page.setKeyAt index key = some page') :
    Fits (.internal page') := by
  simp only [BPlusTreeInternalPage.setKeyAt,Option.bind_eq_bind,Option.bind_eq_some_iff,Option.some.injEq] at set
  obtain ⟨_,wrote,rfl⟩ := set
  exact ⟨fits.1,within_write fits.2 range wrote⟩

theorem fits_populate (fits : Fits (.internal page)) (range : Int64Range key) (populated : page.populate val0 key val1 = some page') :
    Fits (.internal page') := by
  simp only [BPlusTreeInternalPage.populate,Option.bind_eq_bind,Option.bind_eq_some_iff,Option.some.injEq] at populated
  obtain ⟨_,_,_,wrote,_,_,rfl⟩ := populated
  exact ⟨⟨by simp,fits.1.2⟩,within_write fits.2 range wrote⟩

theorem fits_insertNodeAfter (fits : Fits (.internal page)) (range : Int64Range key)
    (inserted : page.insertNodeAfter old key new = some page') : Fits (.internal page') := by
  obtain ⟨⟨small,max⟩,keys⟩ := fits
  simp only [BPlusTreeInternalPage.insertNodeAfter,Option.bind_eq_bind,Option.bind_eq_some_iff,Option.some.injEq] at inserted
  obtain ⟨i,_,_,shifted,_,_,_,wrote,_,_,rfl⟩ := inserted
  have low := (write_some wrote).1
  have room : page.size < 339 := by
    rcases shiftUp_inside shifted with inside | done <;> omega
  exact ⟨⟨by simp only; omega,max⟩,within_write (within_shiftUp keys shifted) range wrote⟩

theorem fits_moveHalfToInternal (fits : Fits (.internal page)) (target : Fits (.internal recipient))
    (moved : page.moveHalfTo recipient = some (page',recipient')) : Fits (.internal page') ∧ Fits (.internal recipient') := by
  obtain ⟨⟨small,max⟩,keys⟩ := fits
  simp only [BPlusTreeInternalPage.moveHalfTo,Option.bind_eq_bind,Option.bind_eq_some_iff,Option.some.injEq,Prod.mk.injEq] at moved
  obtain ⟨_,copied,_,_,rfl,rfl⟩ := moved
  exact ⟨⟨⟨by simp only; omega,max⟩,keys⟩,⟨by simp only; omega,target.1.2⟩,within_copyInto target.2 keys copied⟩

theorem fits_removeInternal (fits : Fits (.internal page)) (removed : page.remove index = some page') : Fits (.internal page') := by
  obtain ⟨⟨small,max⟩,keys⟩ := fits
  unfold BPlusTreeInternalPage.remove at removed
  cases size : page.size with
  | zero => simp [size] at removed
  | succ last =>
    simp only [size,Option.bind_eq_bind,Option.bind_eq_some_iff,Option.some.injEq] at removed
    obtain ⟨_,shifted,_,_,rfl⟩ := removed
    exact ⟨⟨by simp only; omega,max⟩,within_shiftDown keys shifted⟩

theorem fits_moveAllToInternal (fits : Fits (.internal page)) (target : Fits (.internal recipient)) (range : Int64Range parentKey)
    (moved : page.moveAllTo recipient parentKey = some (page',recipient')) : Fits (.internal page') ∧ Fits (.internal recipient') := by
  obtain ⟨⟨small,max⟩,keys⟩ := target
  simp only [BPlusTreeInternalPage.moveAllTo,Option.bind_eq_bind,Option.bind_eq_some_iff,Option.some.injEq,Prod.mk.injEq] at moved
  obtain ⟨_,wrote,_,_,_,_,_,copied,_,_,rfl,rfl⟩ := moved
  have low := (write_some wrote).1
  have room : recipient.size + page.size < 4294967296 := by
    rcases copyInto_inside _ _ _ _ copied with none | ⟨inside,_⟩ <;> omega
  exact ⟨⟨⟨by simp,fits.1.2⟩,fits.2⟩,⟨room,max⟩,within_copyInto (within_write keys range wrote) fits.2 copied⟩

theorem fits_moveFirstToEndOfInternal (fits : Fits (.internal page)) (target : Fits (.internal recipient)) (range : Int64Range parentKey)
    (moved : page.moveFirstToEndOf recipient parentKey = some (page',recipient')) :
    Fits (.internal page') ∧ Fits (.internal recipient') := by
  simp only [BPlusTreeInternalPage.moveFirstToEndOf,Option.bind_eq_bind,Option.bind_eq_some_iff,Option.some.injEq,Prod.mk.injEq] at moved
  obtain ⟨_,wrote,_,_,_,_,_,removed,rfl,rfl⟩ := moved
  have low := (write_some wrote).1
  exact ⟨fits_removeInternal fits removed,⟨by simp only; omega,target.1.2⟩,within_write target.2 range wrote⟩

theorem fits_moveLastToFrontOfInternal (fits : Fits (.internal page)) (target : Fits (.internal recipient)) (range : Int64Range parentKey)
    (moved : page.moveLastToFrontOf recipient parentKey = some (page',recipient')) :
    Fits (.internal page') ∧ Fits (.internal recipient') := by
  obtain ⟨⟨small,max⟩,keys⟩ := fits
  unfold BPlusTreeInternalPage.moveLastToFrontOf at moved
  cases size : page.size with
  | zero => simp [size] at moved
  | succ lastIdx =>
    simp only [size,Option.bind_eq_bind,Option.bind_eq_some_iff,Option.some.injEq,Prod.mk.injEq] at moved
    obtain ⟨_,shifted,_,_,_,wrote,_,_,_,_,rfl,rfl⟩ := moved
    have room : recipient.size < 339 := by
      rcases shiftUp_inside shifted with inside | done <;> omega
    exact ⟨⟨⟨by simp only; omega,max⟩,keys⟩,⟨by simp only; omega,target.1.2⟩,within_write (within_shiftUp target.2 shifted) range wrote⟩

end

theorem fits_setParentPageId {content : BPlusTreePage} (fits : Fits content) (parentId : PageId) :
    Fits (content.setParentPageId parentId) := by
  cases content <;> exact fits

end Aether.TreeBytes
