import Aether.TablePages
import Mathlib.Order.Interval.Finset.Nat

/-!
The layout of a slotted page: the slot directory ends before the free space
pointer, and the tuples of the live slots lie side by side between it and the
end of the page. Every operation writes at most one tuple and one slot
(`place`), and `layout_place` says what that keeps.
-/
namespace Aether.PageLayout
open Aether.Bytes Aether.Types Aether.Tuples Aether.TablePages

/-- The slot holds a tuple. -/
def Live (page : TablePage) (i : Nat) : Prop := i < page.getNumSlots.toNat ∧ (page.slots i).length ≠ 0

instance (page : TablePage) (i : Nat) : Decidable (Live page i) := inferInstanceAs (Decidable (_ ∧ _))

/-- Where the tuple of a slot begins and how long it is. -/
def offset (page : TablePage) (i : Nat) : Nat := (page.slots i).offset.toNat
def length (page : TablePage) (i : Nat) : Nat := (page.slots i).length.toNat

/-- The bytes of the tuple in a slot. -/
def tupleBytes (page : TablePage) (i : Nat) : List UInt8 := page.slice (offset page i) (length page i)

/-- The bytes stored under each slot number. -/
def content (page : TablePage) (i : Nat) : Option (List UInt8) := if Live page i then some (tupleBytes page i) else none

/-- The layout invariant. -/
structure Layout (page : TablePage) : Prop where
  directory : 20 + 8 * page.getNumSlots.toNat ≤ page.getFreeSpacePointer.toNat
  inPage : page.getFreeSpacePointer.toNat ≤ 4096
  few : page.getNumSlots.toNat < 500
  inside : ∀ i, Live page i → page.getFreeSpacePointer.toNat ≤ offset page i ∧ offset page i + length page i ≤ 4096
  disjoint : ∀ i j, Live page i → Live page j → i ≠ j →
    offset page i + length page i ≤ offset page j ∨ offset page j + length page j ≤ offset page i

section
variable {page page' : TablePage} {i j : Nat}

theorem live_iff : Live page i ↔ i < page.getNumSlots.toNat ∧ 0 < length page i := by
  have zero : (page.slots i).length = 0 ↔ (page.slots i).length.toNat = 0 := by rw [← UInt32.toNat_inj,UInt32.toNat_zero]
  unfold Live length
  constructor
  · rintro ⟨used,full⟩
    exact ⟨used,Nat.pos_of_ne_zero (fun empty => full (zero.mpr empty))⟩
  · rintro ⟨used,full⟩
    exact ⟨used,fun empty => by have := zero.mp empty; omega⟩

theorem tupleBytes_length : (tupleBytes page i).length = length page i := Block.slice_length

theorem content_eq_some {bytes : List UInt8} : content page i = some bytes ↔ Live page i ∧ tupleBytes page i = bytes := by
  unfold content
  split_ifs with live <;> simp [live]

/-- A page whose slots are all live has at least one byte a slot. -/
theorem slots_le (layout : Layout page) (full : ∀ i < page.getNumSlots.toNat, Live page i) :
    page.getNumSlots.toNat + page.getFreeSpacePointer.toNat ≤ 4096 := by
  have apart : ∀ i ∈ Finset.range page.getNumSlots.toNat, ∀ j ∈ Finset.range page.getNumSlots.toNat,
      offset page i = offset page j → i = j := by
    intro i used j used' same
    by_contra different
    have live := full i (Finset.mem_range.mp used)
    have live' := full j (Finset.mem_range.mp used')
    have := (live_iff.mp live).2
    have := (live_iff.mp live').2
    have := layout.disjoint i j live live' different
    omega
  have into : ∀ i ∈ Finset.range page.getNumSlots.toNat,
      offset page i ∈ Finset.Ico page.getFreeSpacePointer.toNat 4096 := by
    intro i used
    have live := full i (Finset.mem_range.mp used)
    have := (live_iff.mp live).2
    have := layout.inside i live
    exact Finset.mem_Ico.mpr (by omega)
  have count := Finset.card_le_card_of_injOn (offset page) into apart
  rw [Finset.card_range,Nat.card_Ico] at count
  have := layout.inPage
  omega

end

/-! ### One write -/

/-- Write a tuple and a slot, and set the free space pointer and the number of
    slots. -/
def place (page : TablePage) (freeSpacePointer numSlots : UInt32) (start : Nat) (bytes : List UInt8) (i : Nat)
    (slot : Slot) : TablePage :=
  (((((page.put32 8 freeSpacePointer).put start bytes).put32 (20 + 8 * i) slot.offset).put32 (24 + 8 * i)
    slot.length).put32 4 numSlots)

section
variable {page : TablePage} {fsp n : UInt32} {start i : Nat} {bytes : List UInt8} {slot : Slot}

/-- The slot and the tuple are apart and inside the page. -/
structure Apart (start i : Nat) (bytes : List UInt8) : Prop where
  slot : 20 + 8 * (i + 1) ≤ start
  tuple : start + bytes.length ≤ 4096

variable (apart : Apart start i bytes)
include apart

theorem place_word {k : Nat} (header : k + 4 ≤ 4 ∨ 12 ≤ k ∧ k + 4 ≤ 20) :
    (place page fsp n start bytes i slot).get32 k = page.get32 k := by
  have := apart.slot
  unfold place
  rw [Block.get32_put32_outside (by omega),Block.get32_put32_outside (by omega),Block.get32_put32_outside (by omega),
    Block.get32_put_outside (by omega),Block.get32_put32_outside (by omega)]

theorem place_getFreeSpacePointer : TablePage.getFreeSpacePointer (place page fsp n start bytes i slot) = fsp := by
  have := apart.slot
  unfold place TablePage.getFreeSpacePointer
  rw [Block.get32_put32_outside (by omega),Block.get32_put32_outside (by omega),Block.get32_put32_outside (by omega),
    Block.get32_put_outside (by omega),Block.get32_put32 (by decide)]

omit apart in
theorem place_getNumSlots : TablePage.getNumSlots (place page fsp n start bytes i slot) = n := by
  unfold place TablePage.getNumSlots
  exact Block.get32_put32 (by decide)

theorem place_slots_self : TablePage.slots (place page fsp n start bytes i slot) i = slot := by
  have := apart.slot
  have := apart.tuple
  unfold place TablePage.slots
  rw [Block.get32_put32_outside (by omega),Block.get32_put32_outside (by omega),Block.get32_put32 (by simp only [PAGE_SIZE]; omega),
    Block.get32_put32_outside (by omega),Block.get32_put32 (by simp only [PAGE_SIZE]; omega)]

theorem place_slots_other {j : Nat} (other : j ≠ i) (low : 20 + 8 * (j + 1) ≤ start) :
    TablePage.slots (place page fsp n start bytes i slot) j = page.slots j := by
  have := apart.slot
  unfold place TablePage.slots
  rw [Block.get32_put32_outside (by omega),Block.get32_put32_outside (by omega),Block.get32_put32_outside (by omega),
    Block.get32_put_outside (by omega),Block.get32_put32_outside (by omega),
    Block.get32_put32_outside (by omega),Block.get32_put32_outside (by omega),Block.get32_put32_outside (by omega),
    Block.get32_put_outside (by omega),Block.get32_put32_outside (by omega)]

theorem place_slice_self : (place page fsp n start bytes i slot).slice start bytes.length = bytes := by
  have := apart.slot
  unfold place
  rw [Block.slice_put32_outside (by omega),Block.slice_put32_outside (by omega),Block.slice_put32_outside (by omega)]
  exact Block.slice_put apart.tuple

theorem place_slice_other {k len : Nat} (low : 20 + 8 * (i + 1) ≤ k) (other : k + len ≤ start ∨ start + bytes.length ≤ k) :
    (place page fsp n start bytes i slot).slice k len = page.slice k len := by
  have := apart.slot
  unfold place
  rw [Block.slice_put32_outside (by omega),Block.slice_put32_outside (by omega),Block.slice_put32_outside (by omega),
    Block.slice_put_outside other,Block.slice_put32_outside (by omega)]

end

/-- A write that a page has room for: the tuple goes to bytes that no other live
    slot uses, above the slot directory. -/
structure Room (page : TablePage) (fsp n : UInt32) (start : Nat) (bytes : List UInt8) (i : Nat) (slot : Slot) : Prop where
  used : i < n.toNat
  grows : page.getNumSlots.toNat ≤ n.toNat
  others : ∀ j < n.toNat, j ≠ i → j < page.getNumSlots.toNat
  few : n.toNat < 500
  directory : 20 + 8 * n.toNat ≤ fsp.toNat
  shrinks : fsp.toNat ≤ page.getFreeSpacePointer.toNat
  low : fsp.toNat ≤ start
  high : start + bytes.length ≤ 4096
  sized : slot.length.toNat = bytes.length
  placed : bytes ≠ [] → slot.offset.toNat = start
  free : ∀ j, Live page j → j ≠ i → offset page j + length page j ≤ start ∨ start + bytes.length ≤ offset page j

/-- What a write of a tuple to a slot does to the page; no bytes stand for no
    tuple. -/
structure Stored (page page' : TablePage) (i : Nat) (bytes : List UInt8) : Prop where
  layout : Layout page'
  pageId : page'.getPageId = page.getPageId
  prev : page'.getPrevPageId = page.getPrevPageId
  next : page'.getNextPageId = page.getNextPageId
  grows : page.getNumSlots.toNat ≤ page'.getNumSlots.toNat
  used : i < page'.getNumSlots.toNat
  others : ∀ j, Live page j → j ≠ i → page'.slots j = page.slots j ∧ tupleBytes page' j = tupleBytes page j
  contents : ∀ j, content page' j = if j = i then (if bytes = [] then none else some bytes) else content page j

section
variable {page : TablePage} {fsp n : UInt32} {start i : Nat} {bytes : List UInt8} {slot : Slot}

theorem Room.apart (room : Room page fsp n start bytes i slot) : Apart start i bytes := by
  have := room.used
  have := room.directory
  have := room.low
  exact ⟨by omega,room.high⟩

theorem live_other (room : Room page fsp n start bytes i slot) {j : Nat} (other : j ≠ i) :
    Live (place page fsp n start bytes i slot) j ↔ Live page j := by
  have := room.directory
  have := room.low
  have := room.grows
  unfold Live
  rw [place_getNumSlots]
  constructor
  · rintro ⟨used,full⟩
    rw [place_slots_other room.apart other (by omega)] at full
    exact ⟨room.others j used other,full⟩
  · rintro ⟨used,full⟩
    rw [place_slots_other room.apart other (by omega)]
    exact ⟨by omega,full⟩

theorem slots_other (room : Room page fsp n start bytes i slot) {j : Nat} (live : Live page j) (other : j ≠ i) :
    TablePage.slots (place page fsp n start bytes i slot) j = page.slots j := by
  have := room.directory
  have := room.low
  have := room.grows
  have := live.1
  exact place_slots_other room.apart other (by omega)

theorem tupleBytes_other (layout : Layout page) (room : Room page fsp n start bytes i slot) {j : Nat}
    (live : Live page j) (other : j ≠ i) : tupleBytes (place page fsp n start bytes i slot) j = tupleBytes page j := by
  have := room.used
  have := room.directory
  have := room.shrinks
  have := layout.inside j live
  have free := room.free j live other
  unfold tupleBytes offset length at *
  rw [slots_other room live other]
  exact place_slice_other room.apart (by omega) free

theorem live_self (room : Room page fsp n start bytes i slot) :
    Live (place page fsp n start bytes i slot) i ↔ bytes ≠ [] := by
  rw [live_iff,place_getNumSlots,length,place_slots_self room.apart,room.sized,List.length_pos_iff]
  exact and_iff_right room.used

theorem tupleBytes_self (room : Room page fsp n start bytes i slot) (some : bytes ≠ []) :
    tupleBytes (place page fsp n start bytes i slot) i = bytes := by
  unfold tupleBytes offset length
  rw [place_slots_self room.apart,room.sized,room.placed some]
  exact place_slice_self room.apart

theorem contents_place (layout : Layout page) (room : Room page fsp n start bytes i slot) (j : Nat) :
    content (place page fsp n start bytes i slot) j =
      if j = i then (if bytes = [] then none else some bytes) else content page j := by
  by_cases same : j = i
  · subst same
    rw [if_pos rfl]
    by_cases empty : bytes = []
    · have dead : ¬Live (place page fsp n start bytes j slot) j := fun live => (live_self room).mp live empty
      rw [if_pos empty,content,if_neg dead]
    · rw [if_neg empty,content_eq_some]
      exact ⟨(live_self room).mpr empty,tupleBytes_self room empty⟩
  · rw [if_neg same]
    unfold content
    by_cases live : Live page j
    · rw [if_pos live,if_pos ((live_other room same).mpr live),tupleBytes_other layout room live same]
    · rw [if_neg live,if_neg (fun live' => live ((live_other room same).mp live'))]

theorem layout_place (layout : Layout page) (room : Room page fsp n start bytes i slot) :
    Layout (place page fsp n start bytes i slot) := by
  have inPage := layout.inPage
  have shrinks := room.shrinks
  have self : ∀ live : Live (place page fsp n start bytes i slot) i,
      offset (place page fsp n start bytes i slot) i = start ∧
        length (place page fsp n start bytes i slot) i = bytes.length := by
    intro live
    unfold offset length
    rw [place_slots_self room.apart]
    exact ⟨room.placed ((live_self room).mp live),room.sized⟩
  have other : ∀ j, j ≠ i → Live (place page fsp n start bytes i slot) j → Live page j ∧
      offset (place page fsp n start bytes i slot) j = offset page j ∧
        length (place page fsp n start bytes i slot) j = length page j := by
    intro j different live
    have before := (live_other room different).mp live
    unfold offset length
    rw [slots_other room before different]
    exact ⟨before,rfl,rfl⟩
  constructor
  case directory =>
    rw [place_getNumSlots,place_getFreeSpacePointer room.apart]
    exact room.directory
  case inPage =>
    rw [place_getFreeSpacePointer room.apart]
    omega
  case few =>
    rw [place_getNumSlots]
    exact room.few
  case inside =>
    intro j live
    rw [place_getFreeSpacePointer room.apart]
    by_cases same : j = i
    · subst same
      obtain ⟨off,len⟩ := self live
      have := room.low
      have := room.high
      omega
    · obtain ⟨before,off,len⟩ := other j same live
      have := layout.inside j before
      omega
  case disjoint =>
    intro j k live live' different
    by_cases same : j = i
    · subst same
      obtain ⟨off,len⟩ := self live
      obtain ⟨before',off',len'⟩ := other k (Ne.symm different) live'
      have := room.free k before' (Ne.symm different)
      omega
    · obtain ⟨before,off,len⟩ := other j same live
      by_cases same' : k = i
      · subst same'
        obtain ⟨off',len'⟩ := self live'
        have := room.free j before same
        omega
      · obtain ⟨before',off',len'⟩ := other k same' live'
        have := layout.disjoint j k before before' different
        omega

theorem stored_place (layout : Layout page) (room : Room page fsp n start bytes i slot) :
    Stored page (place page fsp n start bytes i slot) i bytes := by
  constructor
  case layout => exact layout_place layout room
  case pageId => exact place_word room.apart (by omega)
  case prev => exact place_word room.apart (by omega)
  case next => exact place_word room.apart (by omega)
  case grows =>
    rw [place_getNumSlots]
    exact room.grows
  case used =>
    rw [place_getNumSlots]
    exact room.used
  case others =>
    intro j live other
    exact ⟨slots_other room live other,tupleBytes_other layout room live other⟩
  case contents => exact contents_place layout room

end
end Aether.PageLayout
