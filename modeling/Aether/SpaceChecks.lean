import Aether.PageUpdates

/-!
The space checks of `InsertTuple` and `UpdateTuple` in their 32-bit arithmetic.
They compare the length of a tuple modulo 2^32, and the length and the size of a
slot entry modulo 2^32, with the bytes that are free; `Serialize` writes all of
the bytes.
-/
namespace Aether.SpaceChecks
open Aether.Bytes Aether.Types Aether.Tuples Aether.TablePages Aether.PageLayout Aether.PageUpdates

/-- The bytes between the slot directory and the tuples. -/
def freeSpace (page : TablePage) : Nat := page.getFreeSpacePointer.toNat - (20 + 8 * page.getNumSlots.toNat)

/-- The size of the slot entry that an insertion adds. -/
def entrySize (page : TablePage) : Nat := if ∃ i < page.getNumSlots.toNat, (page.slots i).length = 0 then 0 else 8

/-- `InsertTuple` writes inside the page, and returns true only if the bytes and a
    new slot entry fit. -/
def InsertExact (page : TablePage) (tuple : Tuple) : Prop :=
  ∃ slot page', page.insertTuple tuple = some (slot,page') ∧
    (slot ≠ none → tuple.bytes.length + entrySize page ≤ freeSpace page)

/-- `UpdateTuple` writes inside the page, and returns true only if the bytes fit in
    the slot or, when it moves the tuple, in the space that is free. -/
def UpdateExact (page : TablePage) (slotNum : UInt32) (newTuple : Tuple) : Prop :=
  ∃ done page', page.updateTuple slotNum newTuple = some (done,page') ∧ (done = true → newTuple.bytes.length ≤
    if newTuple.getSerializedLength ≤ (page.slots slotNum.toNat).length then length page slotNum.toNat else freeSpace page)

/-- The length does not wrap, or what is left of it is refused. -/
def InsertFits (page : TablePage) (tuple : Tuple) : Prop :=
  tuple.bytes.length + entrySize page < 4294967296 ∨
    freeSpace page < (tuple.bytes.length + entrySize page) % 4294967296

def UpdateFits (page : TablePage) (slotNum : UInt32) (newTuple : Tuple) : Prop :=
  newTuple.bytes.length < 4294967296 ∨
    length page slotNum.toNat < newTuple.bytes.length % 4294967296 ∧ freeSpace page < newTuple.bytes.length % 4294967296

instance (page : TablePage) (tuple : Tuple) : Decidable (InsertFits page tuple) := inferInstanceAs (Decidable (_ ∨ _))
instance (page : TablePage) (slotNum : UInt32) (newTuple : Tuple) : Decidable (UpdateFits page slotNum newTuple) :=
  inferInstanceAs (Decidable (_ ∨ _))

section
variable {page page' fresh : TablePage} {tuple : Tuple} {slotNum : UInt32} {pageId prevPageId : PageId}

theorem freeSpace_le (layout : Layout page) : freeSpace page ≤ 4076 := by
  have := layout.inPage
  unfold freeSpace
  omega

/-- The space check of `InsertTuple`, in numbers. -/
theorem full_iff (layout : Layout page) :
    Full page tuple.getSerializedLength ↔ freeSpace page < (tuple.bytes.length + entrySize page) % 4294967296 := by
  have directory := layout.directory
  have len := Tuple.getSerializedLength_toNat tuple
  have eight : (8 : UInt32).toNat = 8 := rfl
  unfold Full
  rw [refused_iff layout]
  unfold freeSpace entrySize
  by_cases free : ∃ i < page.getNumSlots.toNat, (page.slots i).length = 0
  · rw [if_pos free,if_pos free,len]
    omega
  · rw [if_neg free,if_neg free,UInt32.toNat_add,len,eight]
    omega

/-- The check is exact when the sum does not wrap, and only then if it accepts. -/
theorem insertExact_iff (layout : Layout page) : InsertExact page tuple ↔ InsertFits page tuple := by
  have small := freeSpace_le layout
  constructor
  · rintro ⟨slot,page',ran,fits⟩
    by_cases none : slot = none
    · subst none
      obtain ⟨full,_⟩ := (insertTuple_none_iff layout).mp ran
      exact .inr ((full_iff layout).mp full)
    · have room := fits none
      exact .inl (by omega)
  · intro fits
    by_cases full : Full page tuple.getSerializedLength
    · exact ⟨none,page,(insertTuple_none_iff layout).mpr ⟨full,rfl⟩,fun some => (some rfl).elim⟩
    · have accepted := mt (full_iff layout).mpr full
      have short := fits.resolve_right accepted
      rw [Nat.mod_eq_of_lt short,not_lt] at accepted
      have addressable : tuple.bytes.length ≤ 4294967287 := by omega
      obtain ⟨slot,page',ran,_⟩ := insertTuple_spec layout addressable
      exact ⟨slot,page',ran,fun _ => accepted⟩

/-- When `UpdateTuple` refuses a live slot. -/
theorem updateTuple_false_iff (layout : Layout page) (live : Live page slotNum.toNat) :
    page.updateTuple slotNum tuple = some (false,page') ↔
      (length page slotNum.toNat < tuple.bytes.length % 4294967296 ∧ freeSpace page < tuple.bytes.length % 4294967296) ∧
        page' = page := by
  have few := layout.few
  have directory := layout.directory
  have used := live.1
  have len := Tuple.getSerializedLength_toNat tuple
  have longer : tuple.getSerializedLength ≤ (page.slots slotNum.toNat).length ↔
      ¬length page slotNum.toNat < tuple.bytes.length % 4294967296 := by
    rw [UInt32.le_iff_toNat_le,len,not_lt]
    rfl
  have lack : page.getFreeSpacePointer.toNat < 20 + 8 * page.getNumSlots.toNat + tuple.getSerializedLength.toNat ↔
      freeSpace page < tuple.bytes.length % 4294967296 := by
    unfold freeSpace
    omega
  constructor
  · intro ran
    refine ⟨?_,(updateTuple_done ran).1 rfl⟩
    unfold TablePage.updateTuple at ran
    rw [if_neg (fun unused => used_iff.mp unused used),slotAt_of_lt (by omega),Option.bind_eq_bind,Option.bind_some,
      if_neg live.2] at ran
    by_cases shorter : tuple.getSerializedLength ≤ (page.slots slotNum.toNat).length
    · simp only [if_pos shorter] at ran
      obtain ⟨_,_,later⟩ := Option.bind_eq_some_iff.mp ran
      obtain ⟨_,_,last⟩ := Option.bind_eq_some_iff.mp later
      cases last
    · simp only [if_neg shorter,refused_iff layout] at ran
      refine ⟨not_not.mp (mt longer.mpr shorter),lack.mp ?_⟩
      by_contra room
      rw [if_neg room] at ran
      obtain ⟨_,_,later⟩ := Option.bind_eq_some_iff.mp ran
      obtain ⟨_,_,later⟩ := Option.bind_eq_some_iff.mp later
      obtain ⟨_,_,last⟩ := Option.bind_eq_some_iff.mp later
      cases last
  · rintro ⟨⟨long,full⟩,rfl⟩
    have shorter : ¬tuple.getSerializedLength ≤ (page'.slots slotNum.toNat).length := fun le => longer.mp le long
    unfold TablePage.updateTuple
    rw [if_neg (fun unused => used_iff.mp unused used),slotAt_of_lt (by omega),Option.bind_eq_bind,Option.bind_some,
      if_neg live.2]
    simp only [if_neg shorter,refused_iff layout,if_pos (lack.mpr full)]
    rfl

theorem updateExact_iff (layout : Layout page) (live : Live page slotNum.toNat) :
    UpdateExact page slotNum tuple ↔ UpdateFits page slotNum tuple := by
  constructor
  · rintro ⟨done,page',ran,fits⟩
    cases done with
    | false => exact .inr ((updateTuple_false_iff layout live).mp ran).1
    | true =>
      have short := (updateTuple_done ran).2 rfl
      exact .inl (by omega)
  · intro fits
    by_cases refused : length page slotNum.toNat < tuple.bytes.length % 4294967296 ∧
        freeSpace page < tuple.bytes.length % 4294967296
    · exact ⟨false,page,(updateTuple_false_iff layout live).mpr ⟨refused,rfl⟩,fun done => by cases done⟩
    · have short := fits.resolve_right refused
      have len := length_toNat short
      rw [Nat.mod_eq_of_lt short] at refused
      obtain ⟨done,page',ran,_⟩ := updateTuple_spec layout slotNum short
      refine ⟨done,page',ran,?_⟩
      intro _
      split_ifs with shorter
      · rw [← len]
        exact UInt32.le_iff_toNat_le.mp shorter
      · have long := mt UInt32.le_iff_toNat_le.mpr shorter
        rw [len,not_le] at long
        exact not_lt.mp (fun full => refused ⟨long,full⟩)

/-- On every page that operations lead to: the space checks are exact for a tuple,
    and no write leaves the page, exactly when its length and the size of a new
    slot entry do not wrap, or what is left of them is still too long. -/
theorem space_checks_exact {allowed : TablePage → PageOp → Prop}
    (runs : Runs.Runs nextPage allowed (fresh.init pageId prevPageId) page) :
    (∀ tuple, InsertExact page tuple ↔ InsertFits page tuple) ∧
      ∀ slotNum tuple, Live page slotNum.toNat → (UpdateExact page slotNum tuple ↔ UpdateFits page slotNum tuple) :=
  ⟨fun _ => insertExact_iff (layout_reached runs),fun _ _ live => updateExact_iff (layout_reached runs) live⟩

theorem space_checks_exact_churn : ∃ page, Runs.follow nextPage (fun _ op => Short op)
    (TablePage.init (Block.zeros 4096) 1 INVALID_PAGE_ID) churn = some page ∧
      (∀ tuple, InsertExact page tuple ↔ InsertFits page tuple) ∧
        ∀ slotNum tuple, Live page slotNum.toNat → (UpdateExact page slotNum tuple ↔ UpdateFits page slotNum tuple) := by
  obtain ⟨page,followed⟩ : ∃ page, Runs.follow nextPage (fun _ op => Short op)
      (TablePage.init (Block.zeros 4096) 1 INVALID_PAGE_ID) churn = some page :=
    Option.isSome_iff_exists.mp (by decide +kernel)
  exact ⟨page,followed,space_checks_exact (Runs.runs_of_follow followed)⟩

/-- A string whose length and slot entry together wrap. -/
def huge : Tuple := [.varchar (List.replicate 4294967288 0)]

theorem string_length (strVal : List UInt8) :
    (Tuple.bytes [.varchar strVal]).length = 4 + strVal.length % 4294967296 := by
  rw [Tuple.bytes_cons,List.length_append,Value.bytes,List.length_append,bytesOf_length,Value.stored_length]
  rfl

theorem huge_length : (Tuple.bytes huge).length = 4294967292 := by
  unfold huge
  rw [string_length,List.length_replicate]

/-- `InsertTuple` accepts it on an empty page: four bytes are asked for and more
    than four billion are written. -/
theorem insertTuple_huge : ¬Full (TablePage.init (Block.zeros 4096) 1 INVALID_PAGE_ID) (Tuple.getSerializedLength huge) ∧
    TablePage.insertTuple (TablePage.init (Block.zeros 4096) 1 INVALID_PAGE_ID) huge = none ∧
      ¬InsertExact (TablePage.init (Block.zeros 4096) 1 INVALID_PAGE_ID) huge := by
  have layout := layout_init (Block.zeros 4096) 1 INVALID_PAGE_ID
  have free : freeSpace (TablePage.init (Block.zeros 4096) 1 INVALID_PAGE_ID) = 4076 := by decide +kernel
  have entry : entrySize (TablePage.init (Block.zeros 4096) 1 INVALID_PAGE_ID) = 8 := by decide +kernel
  have accepted : ¬Full (TablePage.init (Block.zeros 4096) 1 INVALID_PAGE_ID) (Tuple.getSerializedLength huge) := by
    rw [full_iff layout,free,entry,huge_length]
    decide
  have wrong : ¬InsertExact (TablePage.init (Block.zeros 4096) 1 INVALID_PAGE_ID) huge := by
    rw [insertExact_iff layout,InsertFits,free,entry,huge_length]
    decide
  refine ⟨accepted,?_,wrong⟩
  cases ran : TablePage.insertTuple (TablePage.init (Block.zeros 4096) 1 INVALID_PAGE_ID) huge with
  | none => rfl
  | some out =>
    obtain ⟨slot,page'⟩ := out
    have short := (insertTuple_done layout ran).2
    rw [huge_length] at short
    cases slot with
    | none => exact absurd ((insertTuple_none_iff layout).mp ran).1 accepted
    | some slotNum => exact absurd (short (by simp)) (by decide)

end
end Aether.SpaceChecks
