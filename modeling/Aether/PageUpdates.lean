import Aether.PageLayout
import Aether.Runs

/-!
The operations of a slotted page keep its layout: what each of them does is one
write of `place`, or nothing.
-/
namespace Aether.PageUpdates
open Aether.Bytes Aether.Types Aether.Tuples Aether.TablePages Aether.PageLayout

variable {page page' : TablePage} {tuple : Tuple} {slotNum : UInt32}

/-! ### The space check -/

theorem slotAt_of_lt {i : Nat} (inside : i < 500) : page.slotAt i = some (page.slots i) := if_pos inside

/-- The loop finds the first free slot, by induction on the slots that are left. -/
theorem targetSlot_eq (page : TablePage) : ∀ (left i : Nat), i + left ≤ 500 → ∃ target, page.targetSlot left i = some target ∧
    (∀ j, target = some j → j < i + left ∧ (page.slots j).length = 0) ∧
    (target = none → ∀ j, i ≤ j → j < i + left → (page.slots j).length ≠ 0)
  | 0, i, _ => ⟨none,rfl,nofun,fun _ j low high => by omega⟩
  | left + 1, i, inside => by
    unfold TablePage.targetSlot
    rw [slotAt_of_lt (by omega),Option.bind_eq_bind,Option.bind_some]
    by_cases free : (page.slots i).length = 0
    · rw [if_pos free]
      refine ⟨some i,rfl,?_,nofun⟩
      intro j same
      cases same
      exact ⟨by omega,free⟩
    · rw [if_neg free]
      obtain ⟨target,found,free',full⟩ := targetSlot_eq page left (i + 1) (by omega)
      refine ⟨target,found,?_,?_⟩
      · intro j same
        obtain ⟨high,empty⟩ := free' j same
        exact ⟨by omega,empty⟩
      · intro none j low high
        by_cases same : j = i
        · rwa [same]
        · exact full none j (by omega) (by omega)

theorem currentFreeBoundary_toNat (few : page.getNumSlots.toNat < 500) :
    page.currentFreeBoundary.toNat = 20 + 8 * page.getNumSlots.toNat := by
  unfold TablePage.currentFreeBoundary
  rw [UInt32.toNat_add,UInt32.toNat_mul]
  have eight : (8 : UInt32).toNat = 8 := rfl
  have twenty : (20 : UInt32).toNat = 20 := rfl
  rw [eight,twenty]
  omega

/-- The space check, in numbers. -/
theorem refused_iff (layout : Layout page) {needed : UInt32} :
    (page.getFreeSpacePointer < page.currentFreeBoundary ∨
      page.getFreeSpacePointer - page.currentFreeBoundary < needed) ↔
      page.getFreeSpacePointer.toNat < 20 + 8 * page.getNumSlots.toNat + needed.toNat := by
  have boundary := currentFreeBoundary_toNat layout.few
  have directory := layout.directory
  have below : page.currentFreeBoundary ≤ page.getFreeSpacePointer := by
    rw [UInt32.le_iff_toNat_le]
    omega
  rw [UInt32.lt_iff_toNat_lt,UInt32.lt_iff_toNat_lt,UInt32.toNat_sub_of_le _ _ below]
  omega

/-! ### Writes -/

section
variable {fsp off len : UInt32} {start i : Nat} {bytes : List UInt8}

/-- A tuple and its slot written without a new slot. -/
theorem place_kept (apart : Apart start i bytes) :
    (((page.put32 8 fsp).put start bytes).put32 (20 + 8 * i) off).put32 (24 + 8 * i) len =
      place page fsp page.getNumSlots start bytes i ⟨off,len⟩ := by
  have := apart.slot
  have count : ((((page.put32 8 fsp).put start bytes).put32 (20 + 8 * i) off).put32 (24 + 8 * i) len).get32 4 =
      page.getNumSlots := by
    rw [Block.get32_put32_outside (by omega),Block.get32_put32_outside (by omega),Block.get32_put_outside (by omega),
      Block.get32_put32_outside (by omega)]
    rfl
  exact (Block.put32_same count).symm

/-- A tuple written where the old one was. -/
theorem place_in_place (apart : Apart start i bytes) (here : page.get32 (20 + 8 * i) = off) :
    (page.put start bytes).put32 (24 + 8 * i) len =
      place page page.getFreeSpacePointer page.getNumSlots start bytes i ⟨off,len⟩ := by
  have := apart.slot
  have kept : (page.put start bytes).put32 (20 + 8 * i) off = page.put start bytes := by
    apply Block.put32_same
    rw [Block.get32_put_outside (by omega)]
    exact here
  rw [← place_kept apart]
  unfold TablePage.getFreeSpacePointer
  rw [Block.put32_same (b := page) rfl,kept]

/-- A slot cleared. -/
theorem place_nothing (used : i < 500) : (page.put32 (20 + 8 * i) off).put32 (24 + 8 * i) len =
    place page page.getFreeSpacePointer page.getNumSlots 4096 [] i ⟨off,len⟩ := by
  have apart : Apart 4096 i [] := ⟨by omega,le_refl _⟩
  rw [← place_kept apart]
  unfold TablePage.getFreeSpacePointer
  rw [Block.put32_same (b := page) rfl,Block.put_nil]

end

/-! ### One lemma for each operation -/

theorem setSlotOffset_of_lt {i : Nat} {offset : UInt32} (inside : i < 500) :
    page.setSlotOffset i offset = some (page.put32 (20 + 8 * i) offset) := if_pos inside

theorem setSlotLength_of_lt {i : Nat} {length : UInt32} (inside : i < 500) :
    page.setSlotLength i length = some (page.put32 (24 + 8 * i) length) := if_pos inside

theorem small_page : PAGE_SIZE < 4294967296 := by decide

/-- A tuple serialized where it fits. -/
theorem serialize_fits {start : Nat} (fits : start + tuple.bytes.length ≤ 4096) :
    tuple.serialize page start = some (page.put start tuple.bytes) := by
  rw [Tuple.serialize_eq (.inl small_page) (by unfold PAGE_SIZE; omega)]
  exact if_pos fits

/-- Header words are read back after the free space pointer is set and a tuple is
    serialized. -/
theorem header_kept (page : TablePage) (fsp : UInt32) {start : Nat} (bytes : List UInt8) (high : 20 ≤ start) :
    TablePage.getFreeSpacePointer ((page.put32 8 fsp).put start bytes) = fsp ∧
      TablePage.getNumSlots ((page.put32 8 fsp).put start bytes) = page.getNumSlots := by
  unfold TablePage.getFreeSpacePointer TablePage.getNumSlots
  rw [Block.get32_put_outside (by omega),Block.get32_put32 (by decide),Block.get32_put_outside (by omega),
    Block.get32_put32_outside (by omega)]
  exact ⟨rfl,rfl⟩

/-- What `insertTuple` does to a page: nothing, for lack of space, or one write to
    a slot that was free. -/
inductive Inserted (page : TablePage) (tuple : Tuple) : Option UInt32 → TablePage → Prop
  | refused (full : page.getFreeSpacePointer.toNat < 28 + 8 * page.getNumSlots.toNat + tuple.bytes.length) :
      Inserted page tuple none page
  | stored {slotNum : UInt32} {page' : TablePage} (free : ¬Live page slotNum.toNat)
      (stored : Stored page page' slotNum.toNat tuple.bytes) : Inserted page tuple (some slotNum) page'

theorem length_toNat (short : tuple.bytes.length < 4294967296) :
    tuple.getSerializedLength.toNat = tuple.bytes.length := by
  rw [Tuple.getSerializedLength_toNat]
  exact Nat.mod_eq_of_lt short

/-- There is room for a tuple just below the free space pointer. -/
theorem room_below (layout : Layout page) {fsp n len : UInt32} {i : Nat} {bytes : List UInt8}
    (below : fsp.toNat + bytes.length = page.getFreeSpacePointer.toNat) (directory : 20 + 8 * n.toNat ≤ fsp.toNat)
    (sized : len.toNat = bytes.length) (used : i < n.toNat) (few : n.toNat < 500)
    (grows : page.getNumSlots.toNat ≤ n.toNat) (others : ∀ j < n.toNat, j ≠ i → j < page.getNumSlots.toNat) :
    Room page fsp n fsp.toNat bytes i ⟨fsp,len⟩ where
  used := used
  grows := grows
  others := others
  few := few
  directory := directory
  shrinks := by omega
  low := le_refl _
  high := by have := layout.inPage; omega
  sized := sized
  placed := fun _ => rfl
  free := by
    intro j live other
    have := layout.inside j live
    omega

/-- A tuple written below the free space pointer, with its slot. -/
theorem write_below {fsp len : UInt32} {i : Nat} {β : Type} (apart : Apart fsp.toNat i tuple.bytes) (inside : i < 500)
    (next : TablePage → Option β) :
    ((tuple.serialize (page.setFreeSpacePointer fsp) fsp.toNat).bind fun page =>
      (TablePage.setSlotOffset page i (TablePage.getFreeSpacePointer page)).bind fun page =>
        (page.setSlotLength i len).bind next) =
      next (place page fsp page.getNumSlots fsp.toNat tuple.bytes i ⟨fsp,len⟩) := by
  have := apart.slot
  have high : 20 ≤ fsp.toNat := by omega
  have kept := (header_kept page fsp tuple.bytes high).1
  rw [serialize_fits apart.tuple,Option.bind_some]
  unfold TablePage.setFreeSpacePointer
  rw [kept,setSlotOffset_of_lt inside,Option.bind_some,setSlotLength_of_lt inside,Option.bind_some,place_kept apart]

/-- The same with a new slot, whose number is read from the page. -/
theorem write_appended {fsp len : UInt32} {β : Type} (apart : Apart fsp.toNat page.getNumSlots.toNat tuple.bytes)
    (inside : page.getNumSlots.toNat < 500) (next : UInt32 → TablePage → Option β) :
    ((tuple.serialize (page.setFreeSpacePointer fsp) fsp.toNat).bind fun page =>
      (TablePage.setSlotOffset page (TablePage.getNumSlots page).toNat (TablePage.getFreeSpacePointer page)).bind
        fun page => (page.setSlotLength page.getNumSlots.toNat len).bind
          fun page => next page.getNumSlots (page.setNumSlots (page.getNumSlots + 1))) =
      next page.getNumSlots (place page fsp (page.getNumSlots + 1) fsp.toNat tuple.bytes page.getNumSlots.toNat
        ⟨fsp,len⟩) := by
  have := apart.slot
  have high : 20 ≤ fsp.toNat := by omega
  obtain ⟨kept,count⟩ := header_kept page fsp tuple.bytes high
  have word : ∀ (page : TablePage) (k : Nat) (w : UInt32), 20 ≤ k → TablePage.getNumSlots (page.put32 k w) =
      page.getNumSlots := fun page k w high => Block.get32_put32_outside (by omega)
  rw [serialize_fits apart.tuple,Option.bind_some]
  unfold TablePage.setFreeSpacePointer
  rw [kept,count,setSlotOffset_of_lt inside,Option.bind_some,word _ _ _ (by omega),count,setSlotLength_of_lt inside,
    Option.bind_some,word _ _ _ (by omega),word _ _ _ (by omega),count]
  rfl

theorem insertTuple_spec (layout : Layout page) (short : tuple.bytes.length ≤ 4294967287) :
    ∃ slot page', page.insertTuple tuple = some (slot,page') ∧ Inserted page tuple slot page' := by
  have few := layout.few
  have directory := layout.directory
  have inPage := layout.inPage
  have len : tuple.getSerializedLength.toNat = tuple.bytes.length := length_toNat (by omega)
  have words : ∀ fsp, (page.setFreeSpacePointer fsp).getFreeSpacePointer = fsp := fun fsp => Block.get32_put32 (by decide)
  obtain ⟨target,found,free,full⟩ := targetSlot_eq page page.getNumSlots.toNat 0 (by omega)
  rw [Nat.zero_add] at free full
  have below : page.getFreeSpacePointer.toNat ≥ tuple.bytes.length →
      (page.getFreeSpacePointer - tuple.getSerializedLength).toNat + tuple.bytes.length = page.getFreeSpacePointer.toNat := by
    intro enough
    rw [UInt32.toNat_sub_of_le _ _ (by rw [UInt32.le_iff_toNat_le]; omega)]
    omega
  unfold TablePage.insertTuple
  rw [found]
  simp only [Option.bind_eq_bind,Option.bind_some,refused_iff layout,words]
  generalize page.getFreeSpacePointer - tuple.getSerializedLength = fsp at below
  cases target with
  | some i =>
    obtain ⟨used,empty⟩ := free i rfl
    simp only [reduceCtorEq,if_false]
    by_cases lack : page.getFreeSpacePointer.toNat < 20 + 8 * page.getNumSlots.toNat + tuple.getSerializedLength.toNat
    · rw [if_pos lack]
      exact ⟨none,page,rfl,.refused (by omega)⟩
    · rw [if_neg lack]
      have below := below (by omega)
      have room := room_below layout below (n := page.getNumSlots) (by omega) len used few (le_refl _) (fun _ low _ => low)
      have number : (UInt32.ofNat i).toNat = i := by
        rw [UInt32.toNat_ofNat']
        omega
      rw [write_below room.apart (by omega)]
      refine ⟨_,_,rfl,.stored ?_ ?_⟩
      · rw [number]
        exact fun live => live.2 empty
      · rw [number]
        exact stored_place layout room
  | none =>
    simp only [if_true]
    have dead : ∀ i < page.getNumSlots.toNat, Live page i := fun i used => ⟨used,full rfl i (by omega) used⟩
    have count := slots_le layout dead
    have grown : (page.getNumSlots + 1).toNat = page.getNumSlots.toNat + 1 := by
      rw [UInt32.toNat_add,UInt32.toNat_one]
      omega
    have needed : (tuple.getSerializedLength + 8).toNat = tuple.bytes.length + 8 := by
      have eight : (8 : UInt32).toNat = 8 := rfl
      rw [UInt32.toNat_add,len,eight]
      omega
    by_cases lack : page.getFreeSpacePointer.toNat < 20 + 8 * page.getNumSlots.toNat + (tuple.getSerializedLength + 8).toNat
    · rw [if_pos lack]
      exact ⟨none,page,rfl,.refused (by omega)⟩
    · rw [if_neg lack]
      have below := below (by omega)
      have room := room_below layout below (n := page.getNumSlots + 1) (by omega) len (i := page.getNumSlots.toNat)
        (by omega) (by omega) (by omega) (fun j low other => by omega)
      rw [write_appended room.apart (by omega) (fun slotNum page => pure (some slotNum,page))]
      refine ⟨_,_,rfl,.stored ?_ (stored_place layout room)⟩
      exact fun live => by have := live.1; omega

/-- A tuple of any length: if it was stored it was short, and if it was not the
    page is as it was. -/
theorem insertTuple_done (layout : Layout page) {slot : Option UInt32} (done : page.insertTuple tuple = some (slot,page')) :
    (slot = none → page' = page) ∧ (slot ≠ none → tuple.bytes.length ≤ 4096) := by
  have few := layout.few
  obtain ⟨target,found,_,_⟩ := targetSlot_eq page page.getNumSlots.toNat 0 (by omega)
  unfold TablePage.insertTuple at done
  rw [found] at done
  simp only [Option.bind_eq_bind,Option.bind_some] at done
  by_cases lack : page.getFreeSpacePointer < page.currentFreeBoundary ∨ page.getFreeSpacePointer -
      page.currentFreeBoundary < if target = none then tuple.getSerializedLength + 8 else tuple.getSerializedLength
  · rw [if_pos lack] at done
    cases done
    exact ⟨fun _ => rfl,fun some => (some rfl).elim⟩
  · rw [if_neg lack] at done
    obtain ⟨written,serialized,later⟩ := Option.bind_eq_some_iff.mp done
    have short := (Tuple.serialize_done small_page serialized).1
    cases target with
    | some i =>
      obtain ⟨_,_,later⟩ := Option.bind_eq_some_iff.mp later
      obtain ⟨_,_,last⟩ := Option.bind_eq_some_iff.mp later
      cases last
      exact ⟨nofun,fun _ => short⟩
    | none =>
      obtain ⟨_,_,later⟩ := Option.bind_eq_some_iff.mp later
      obtain ⟨_,_,last⟩ := Option.bind_eq_some_iff.mp later
      cases last
      exact ⟨nofun,fun _ => short⟩

/-- The space check of `insertTuple`: the page has no room for a tuple of this
    length. -/
def Full (page : TablePage) (tupleLen : UInt32) : Prop :=
  page.getFreeSpacePointer < page.currentFreeBoundary ∨ page.getFreeSpacePointer - page.currentFreeBoundary <
    if ∃ i < page.getNumSlots.toNat, (page.slots i).length = 0 then tupleLen else tupleLen + 8

instance (page : TablePage) (tupleLen : UInt32) : Decidable (Full page tupleLen) := inferInstanceAs (Decidable (_ ∨ _))

theorem insertTuple_none_iff (layout : Layout page) :
    page.insertTuple tuple = some (none,page') ↔ Full page tuple.getSerializedLength ∧ page' = page := by
  have few := layout.few
  obtain ⟨target,found,free,full⟩ := targetSlot_eq page page.getNumSlots.toNat 0 (by omega)
  rw [Nat.zero_add] at free full
  have needed : (if ∃ i < page.getNumSlots.toNat, (page.slots i).length = 0 then tuple.getSerializedLength
      else tuple.getSerializedLength + 8) =
      if target = none then tuple.getSerializedLength + 8 else tuple.getSerializedLength := by
    cases target with
    | none =>
      have used : ¬∃ i < page.getNumSlots.toNat, (page.slots i).length = 0 :=
        fun ⟨i,low,empty⟩ => full rfl i (by omega) low empty
      rw [if_neg used,if_pos rfl]
    | some i => rw [if_pos ⟨i,free i rfl⟩,if_neg (by simp)]
  unfold Full
  rw [needed]
  constructor
  · intro done
    have same := (insertTuple_done layout done).1 rfl
    refine ⟨?_,same⟩
    by_contra room
    unfold TablePage.insertTuple at done
    rw [found] at done
    simp only [Option.bind_eq_bind,Option.bind_some] at done
    rw [if_neg room] at done
    obtain ⟨_,_,later⟩ := Option.bind_eq_some_iff.mp done
    cases target with
    | some i =>
      obtain ⟨_,_,later⟩ := Option.bind_eq_some_iff.mp later
      obtain ⟨_,_,last⟩ := Option.bind_eq_some_iff.mp later
      cases last
    | none =>
      obtain ⟨_,_,later⟩ := Option.bind_eq_some_iff.mp later
      obtain ⟨_,_,last⟩ := Option.bind_eq_some_iff.mp later
      cases last
  · rintro ⟨lack,rfl⟩
    unfold TablePage.insertTuple
    rw [found]
    simp only [Option.bind_eq_bind,Option.bind_some]
    rw [if_pos lack]
    rfl

/-- A tuple that is stored leaves room for the header and a slot. -/
theorem stored_short {i : Nat} {bytes : List UInt8} (stored : Stored page page' i bytes) : bytes.length ≤ 4068 := by
  by_cases empty : bytes = []
  · rw [empty]
    decide
  · have here := stored.contents i
    rw [if_pos rfl,if_neg empty,content_eq_some] at here
    obtain ⟨live,same⟩ := here
    have inside := stored.layout.inside i live
    have directory := stored.layout.directory
    have used := stored.used
    rw [← same,tupleBytes_length]
    omega

/-- What `updateTuple` and `deleteTuple` do to a page: nothing, or one write to a
    live slot. -/
inductive Changed (page : TablePage) (slotNum : UInt32) (bytes : List UInt8) : Bool → TablePage → Prop
  | refused : Changed page slotNum bytes false page
  | stored {page' : TablePage} (live : Live page slotNum.toNat) (stored : Stored page page' slotNum.toNat bytes) :
      Changed page slotNum bytes true page'

/-- There is room for a tuple in the place of a longer one. -/
theorem room_in_place (layout : Layout page) {i : Nat} {bytes : List UInt8} {len : UInt32} (live : Live page i)
    (shorter : bytes.length ≤ length page i) (sized : len.toNat = bytes.length) :
    Room page page.getFreeSpacePointer page.getNumSlots (offset page i) bytes i ⟨(page.slots i).offset,len⟩ where
  used := live.1
  grows := le_refl _
  others := fun _ low _ => low
  few := layout.few
  directory := layout.directory
  shrinks := le_refl _
  low := (layout.inside i live).1
  high := by have := layout.inside i live; omega
  sized := sized
  placed := fun _ => rfl
  free := by
    intro j live' other
    have := layout.disjoint j i live' live other
    omega

/-- There is always room for no tuple. -/
theorem room_nothing (layout : Layout page) {i : Nat} (live : Live page i) :
    Room page page.getFreeSpacePointer page.getNumSlots 4096 [] i ⟨0,0⟩ where
  used := live.1
  grows := le_refl _
  others := fun _ low _ => low
  few := layout.few
  directory := layout.directory
  shrinks := le_refl _
  low := layout.inPage
  high := le_refl _
  sized := rfl
  placed := fun some => (some rfl).elim
  free := fun j live' _ => .inl (layout.inside j live').2

theorem used_iff : page.getNumSlots ≤ slotNum ↔ ¬slotNum.toNat < page.getNumSlots.toNat := by
  rw [UInt32.le_iff_toNat_le]
  omega

theorem updateTuple_spec (layout : Layout page) (slotNum : UInt32) (short : tuple.bytes.length < 4294967296) :
    ∃ done page', page.updateTuple slotNum tuple = some (done,page') ∧ Changed page slotNum tuple.bytes done page' := by
  have few := layout.few
  have directory := layout.directory
  have inPage := layout.inPage
  have len := length_toNat short
  have words : ∀ fsp, (page.setFreeSpacePointer fsp).getFreeSpacePointer = fsp := fun fsp => Block.get32_put32 (by decide)
  have below : page.getFreeSpacePointer.toNat ≥ tuple.bytes.length →
      (page.getFreeSpacePointer - tuple.getSerializedLength).toNat + tuple.bytes.length = page.getFreeSpacePointer.toNat := by
    intro enough
    rw [UInt32.toNat_sub_of_le _ _ (by rw [UInt32.le_iff_toNat_le]; omega)]
    omega
  unfold TablePage.updateTuple
  by_cases unused : page.getNumSlots ≤ slotNum
  · rw [if_pos unused]
    exact ⟨false,page,rfl,.refused⟩
  · rw [if_neg unused]
    have used := not_not.mp (mt used_iff.mpr unused)
    rw [slotAt_of_lt (by omega),Option.bind_eq_bind,Option.bind_some]
    by_cases empty : (page.slots slotNum.toNat).length = 0
    · rw [if_pos empty]
      exact ⟨false,page,rfl,.refused⟩
    · rw [if_neg empty]
      have live : Live page slotNum.toNat := ⟨used,empty⟩
      by_cases shorter : tuple.getSerializedLength ≤ (page.slots slotNum.toNat).length
      · have room := room_in_place layout live (by rw [← len]; exact UInt32.le_iff_toNat_le.mp shorter) len
        have serialized : tuple.serialize page (page.slots slotNum.toNat).offset.toNat =
            some (page.put (offset page slotNum.toNat) tuple.bytes) := serialize_fits room.high
        simp only [if_pos shorter,Option.bind_eq_bind]
        rw [serialized,Option.bind_some,setSlotLength_of_lt (by omega),Option.bind_some,place_in_place room.apart rfl]
        exact ⟨true,_,rfl,.stored live (stored_place layout room)⟩
      · simp only [if_neg shorter,refused_iff layout,words,Option.bind_eq_bind]
        by_cases lack : page.getFreeSpacePointer.toNat < 20 + 8 * page.getNumSlots.toNat + tuple.getSerializedLength.toNat
        · rw [if_pos lack]
          exact ⟨false,page,rfl,.refused⟩
        · rw [if_neg lack]
          generalize page.getFreeSpacePointer - tuple.getSerializedLength = fsp at below
          have below := below (by omega)
          have room := room_below layout below (n := page.getNumSlots) (by omega) len used few (le_refl _)
            (fun _ low _ => low)
          rw [write_below room.apart (by omega)]
          exact ⟨true,_,rfl,.stored live (stored_place layout room)⟩

/-- An update with a tuple of any length. -/
theorem updateTuple_done {done : Bool} (ran : page.updateTuple slotNum tuple = some (done,page')) :
    (done = false → page' = page) ∧ (done = true → tuple.bytes.length ≤ 4096) := by
  unfold TablePage.updateTuple at ran
  by_cases unused : page.getNumSlots ≤ slotNum
  · rw [if_pos unused] at ran
    cases ran
    exact ⟨fun _ => rfl,nofun⟩
  · rw [if_neg unused] at ran
    obtain ⟨slot,_,later⟩ := Option.bind_eq_some_iff.mp ran
    by_cases empty : slot.length = 0
    · rw [if_pos empty] at later
      cases later
      exact ⟨fun _ => rfl,nofun⟩
    · rw [if_neg empty] at later
      by_cases shorter : tuple.getSerializedLength ≤ slot.length
      · simp only [if_pos shorter] at later
        obtain ⟨_,serialized,later⟩ := Option.bind_eq_some_iff.mp later
        obtain ⟨_,_,last⟩ := Option.bind_eq_some_iff.mp later
        cases last
        exact ⟨nofun,fun _ => (Tuple.serialize_done small_page serialized).1⟩
      · simp only [if_neg shorter] at later
        split_ifs at later with lack
        · cases later
          exact ⟨fun _ => rfl,nofun⟩
        · obtain ⟨_,serialized,later⟩ := Option.bind_eq_some_iff.mp later
          obtain ⟨_,_,later⟩ := Option.bind_eq_some_iff.mp later
          obtain ⟨_,_,last⟩ := Option.bind_eq_some_iff.mp later
          cases last
          exact ⟨nofun,fun _ => (Tuple.serialize_done small_page serialized).1⟩

/-- An update that was done, with a tuple of any length. -/
theorem updateTuple_true (layout : Layout page) (ran : page.updateTuple slotNum tuple = some (true,page')) :
    Live page slotNum.toNat ∧ Stored page page' slotNum.toNat tuple.bytes := by
  have fits := (updateTuple_done ran).2 rfl
  have short : tuple.bytes.length < 4294967296 := by omega
  obtain ⟨done,after,ran',changed⟩ := updateTuple_spec layout slotNum short
  rw [ran] at ran'
  cases ran'
  cases changed with
  | stored live stored => exact ⟨live,stored⟩

theorem deleteTuple_spec (layout : Layout page) (slotNum : UInt32) : ∃ done page', page.deleteTuple slotNum = some (done,page') ∧
    Changed page slotNum [] done page' ∧ (done = false → ¬Live page slotNum.toNat) := by
  have few := layout.few
  unfold TablePage.deleteTuple
  by_cases unused : page.getNumSlots ≤ slotNum
  · rw [if_pos unused]
    exact ⟨false,page,rfl,.refused,fun _ live => used_iff.mp unused live.1⟩
  · rw [if_neg unused]
    have used := not_not.mp (mt used_iff.mpr unused)
    rw [slotAt_of_lt (by omega),Option.bind_eq_bind,Option.bind_some]
    by_cases empty : (page.slots slotNum.toNat).length = 0
    · rw [if_pos empty]
      exact ⟨false,page,rfl,.refused,fun _ live => live.2 empty⟩
    · rw [if_neg empty,setSlotOffset_of_lt (by omega),Option.bind_eq_bind,Option.bind_some,
        setSlotLength_of_lt (by omega),Option.bind_some,place_nothing (by omega)]
      have live : Live page slotNum.toNat := ⟨used,empty⟩
      exact ⟨true,_,rfl,.stored live (stored_place layout (room_nothing layout live)),nofun⟩

/-- `getTuple` reads the bytes of a live slot, and nothing elsewhere. -/
theorem getTuple_eq (layout : Layout page) (schema : Schema) : page.getTuple slotNum schema =
    if Live page slotNum.toNat then (Tuple.deserialize page (offset page slotNum.toNat) schema).map some else some none := by
  have few := layout.few
  unfold TablePage.getTuple
  by_cases unused : page.getNumSlots ≤ slotNum
  · rw [if_pos unused,if_neg (fun live => used_iff.mp unused live.1)]
    rfl
  · rw [if_neg unused]
    have used := not_not.mp (mt used_iff.mpr unused)
    rw [slotAt_of_lt (by omega),Option.bind_eq_bind,Option.bind_some]
    by_cases empty : (page.slots slotNum.toNat).length = 0
    · rw [if_pos empty,if_neg (fun live => live.2 empty)]
      rfl
    · rw [if_neg empty,if_pos ⟨used,empty⟩,Option.map_eq_bind]
      rfl

/-! ### Runs of operations -/

/-- The operations that change the tuples of a page. -/
inductive PageOp
  | insertTuple (tuple : Tuple)
  | updateTuple (slotNum : UInt32) (newTuple : Tuple)
  | deleteTuple (slotNum : UInt32)
  deriving DecidableEq

/-- Perform an operation: the slot that it changed, if it returned true. -/
def perform (page : TablePage) : PageOp → Option (Option UInt32 × TablePage)
  | .insertTuple tuple => page.insertTuple tuple
  | .updateTuple slotNum newTuple =>
    (page.updateTuple slotNum newTuple).map fun out => (if out.1 then some slotNum else none,out.2)
  | .deleteTuple slotNum => (page.deleteTuple slotNum).map fun out => (if out.1 then some slotNum else none,out.2)

/-- The length of the tuple of an operation does not wrap, nor does its sum with
    the length of a slot entry. -/
def Short : PageOp → Prop
  | .insertTuple tuple => tuple.bytes.length ≤ 2 ^ 32 - 9
  | .updateTuple _ newTuple => newTuple.bytes.length ≤ 2 ^ 32 - 9
  | .deleteTuple _ => True

instance : ∀ op, Decidable (Short op)
  | .insertTuple _ => inferInstanceAs (Decidable (_ ≤ _))
  | .updateTuple _ _ => inferInstanceAs (Decidable (_ ≤ _))
  | .deleteTuple _ => isTrue trivial

/-- What an operation does: it changes one slot and no other live one, or it
    leaves the page as it is. -/
def Frame (page : TablePage) : Option UInt32 → TablePage → Prop
  | none, page' => page' = page
  | some slotNum, page' => ∀ j, Live page j → j ≠ slotNum.toNat →
      Live page' j ∧ page'.slots j = page.slots j ∧ tupleBytes page' j = tupleBytes page j

/-- An operation on a page after another. -/
def nextPage (page : TablePage) (op : PageOp) : Option TablePage := (perform page op).map Prod.snd

theorem init_getNumSlots (page : TablePage) (pageId prevPageId : PageId) : (page.init pageId prevPageId).getNumSlots = 0 := by
  unfold TablePage.init TablePage.getNumSlots TablePage.setNextPageId TablePage.setPrevPageId
    TablePage.setFreeSpacePointer TablePage.setNumSlots
  rw [Block.get32_put32_outside (by omega),Block.get32_put32_outside (by omega),Block.get32_put32_outside (by omega),
    Block.get32_put32 (by decide)]

theorem init_getFreeSpacePointer (page : TablePage) (pageId prevPageId : PageId) :
    (page.init pageId prevPageId).getFreeSpacePointer = UInt32.ofNat PAGE_SIZE := by
  unfold TablePage.init TablePage.getFreeSpacePointer TablePage.setNextPageId TablePage.setPrevPageId
    TablePage.setFreeSpacePointer
  rw [Block.get32_put32_outside (by omega),Block.get32_put32_outside (by omega),Block.get32_put32 (by decide)]

theorem init_not_live {pageId prevPageId : PageId} (i : Nat) : ¬Live (page.init pageId prevPageId) i := by
  intro live
  have used := live.1
  rw [init_getNumSlots] at used
  exact absurd used (by simp)

theorem layout_init (page : TablePage) (pageId prevPageId : PageId) : Layout (page.init pageId prevPageId) := by
  have count := init_getNumSlots page pageId prevPageId
  have fsp := init_getFreeSpacePointer page pageId prevPageId
  constructor
  case directory => rw [count,fsp]; decide
  case inPage => rw [fsp]; decide
  case few => rw [count]; decide
  case inside => exact fun i live => (init_not_live i live).elim
  case disjoint => exact fun i _ live => (init_not_live i live).elim

theorem frame_stored {slotNum : UInt32} {bytes : List UInt8} (stored : Stored page page' slotNum.toNat bytes) :
    Frame page (some slotNum) page' := by
  intro j live other
  obtain ⟨slot,bytes⟩ := stored.others j live other
  have full := live.2
  rw [← slot] at full
  have used := live.1
  have grows := stored.grows
  exact ⟨⟨by omega,full⟩,slot,bytes⟩

/-- One operation keeps the layout and changes one slot at most. -/
theorem perform_spec (layout : Layout page) {op : PageOp} (short : Short op) :
    ∃ slot page', perform page op = some (slot,page') ∧ Layout page' ∧ Frame page slot page' := by
  have changed : ∀ {slotNum : UInt32} {bytes : List UInt8} {done : Bool} {page' : TablePage},
      Changed page slotNum bytes done page' → Layout page' ∧ Frame page (if done then some slotNum else none) page' := by
    intro slotNum bytes done page' changed
    cases changed with
    | refused => exact ⟨layout,rfl⟩
    | stored _ stored => exact ⟨stored.layout,frame_stored stored⟩
  cases op with
  | insertTuple tuple =>
    obtain ⟨slot,page',ran,inserted⟩ := insertTuple_spec layout short
    refine ⟨slot,page',ran,?_⟩
    cases inserted with
    | refused => exact ⟨layout,rfl⟩
    | stored _ stored => exact ⟨stored.layout,frame_stored stored⟩
  | updateTuple slotNum newTuple =>
    obtain ⟨done,page',ran,effect⟩ := updateTuple_spec layout slotNum (Nat.lt_of_le_of_lt short (by decide))
    exact ⟨_,page',by rw [perform,ran]; rfl,changed effect⟩
  | deleteTuple slotNum =>
    obtain ⟨done,page',ran,effect,_⟩ := deleteTuple_spec layout slotNum
    exact ⟨_,page',by rw [perform,ran]; rfl,changed effect⟩

/-- The bytes that an operation leaves in its slot. -/
def PageOp.bytes : PageOp → List UInt8
  | insertTuple tuple => tuple.bytes
  | updateTuple _ newTuple => newTuple.bytes
  | deleteTuple _ => []

/-- What an operation with a tuple of any length has done. -/
theorem perform_done (layout : Layout page) {op : PageOp} {slot : Option UInt32} (ran : perform page op = some (slot,page')) :
    slot = none ∧ page' = page ∨ ∃ slotNum, slot = some slotNum ∧ Stored page page' slotNum.toNat op.bytes := by
  cases op with
  | insertTuple tuple =>
    obtain ⟨kept,short⟩ := insertTuple_done layout ran
    cases slot with
    | none => exact .inl ⟨rfl,kept rfl⟩
    | some slotNum =>
      have fits := short (by simp)
      have addressable : tuple.bytes.length ≤ 4294967287 := by omega
      obtain ⟨slot,after,ran',inserted⟩ := insertTuple_spec layout addressable
      rw [perform,ran'] at ran
      cases ran
      cases inserted with
      | stored _ stored => exact .inr ⟨slotNum,rfl,stored⟩
  | updateTuple slotNum newTuple =>
    obtain ⟨⟨done,after⟩,updated,same⟩ := Option.map_eq_some_iff.mp ran
    cases same
    cases done with
    | false => exact .inl ⟨rfl,(updateTuple_done updated).1 rfl⟩
    | true => exact .inr ⟨slotNum,rfl,(updateTuple_true layout updated).2⟩
  | deleteTuple slotNum =>
    obtain ⟨done,after,deleted,effect,_⟩ := deleteTuple_spec layout slotNum
    rw [perform,deleted] at ran
    cases ran
    cases effect with
    | refused => exact .inl ⟨rfl,rfl⟩
    | stored _ stored => exact .inr ⟨slotNum,rfl,stored⟩

/-- An operation with a tuple of any length keeps the layout, as long as no access
    is outside the page. -/
theorem layout_step (layout : Layout page) {op : PageOp} (moved : nextPage page op = some page') : Layout page' := by
  obtain ⟨⟨slot,after⟩,ran,same⟩ := Option.map_eq_some_iff.mp moved
  cases same
  rcases perform_done layout ran with ⟨_,rfl⟩ | ⟨slotNum,_,stored⟩
  · exact layout
  · exact stored.layout

theorem layout_reached {allowed : TablePage → PageOp → Prop} {fresh : TablePage} {pageId prevPageId : PageId}
    (runs : Runs.Runs nextPage allowed (fresh.init pageId prevPageId) page) : Layout page :=
  runs.invariant Layout (layout_init fresh pageId prevPageId) (fun _ _ _ layout _ moved => layout_step layout moved)

/-- From `Init` on, every page that operations lead to has the layout, and the
    next operation has no access outside the page or the slot array, changes one
    slot and no other live one, or leaves the page as it is. -/
theorem operations_keep_layout {fresh : TablePage} {pageId prevPageId : PageId}
    (runs : Runs.Runs nextPage (fun _ op => Short op) (fresh.init pageId prevPageId) page) :
    Layout page ∧ ∀ op, Short op → ∃ slot page', perform page op = some (slot,page') ∧ Frame page slot page' := by
  have layout : Layout page := by
    refine runs.invariant Layout (layout_init fresh pageId prevPageId) ?_
    intro page op page' layout short moved
    obtain ⟨slot,after,ran,layout',_⟩ := perform_spec layout short
    rw [nextPage,ran] at moved
    cases moved
    exact layout'
  refine ⟨layout,?_⟩
  intro op short
  obtain ⟨slot,page',ran,_,frame⟩ := perform_spec layout short
  exact ⟨slot,page',ran,frame⟩

/-- A tuple stored, another one in a slot given up, and an update that moves the
    first. -/
def churn : List PageOp :=
  [.insertTuple [.int 7],.insertTuple [.boolean true],.deleteTuple 1,.insertTuple [.varchar [65]],
    .updateTuple 0 [.int 7,.int 8]]

theorem operations_keep_layout_churn : ∃ page, Runs.follow nextPage (fun _ op => Short op)
    (TablePage.init (Block.zeros 4096) 1 INVALID_PAGE_ID) churn = some page ∧ Layout page ∧
      ∀ op, Short op → ∃ slot page', perform page op = some (slot,page') ∧ Frame page slot page' := by
  obtain ⟨page,followed⟩ : ∃ page, Runs.follow nextPage (fun _ op => Short op)
      (TablePage.init (Block.zeros 4096) 1 INVALID_PAGE_ID) churn = some page :=
    Option.isSome_iff_exists.mp (by decide +kernel)
  exact ⟨page,followed,operations_keep_layout (Runs.runs_of_follow followed)⟩

end Aether.PageUpdates
