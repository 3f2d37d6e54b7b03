import Mathlib.Data.UInt

namespace Aether.Types

/-- `page_id_t`. -/
abbrev PageId := UInt32
/-- `INVALID_PAGE_ID`. -/
def INVALID_PAGE_ID : PageId := 0xFFFFFFFF
/-- `PAGE_SIZE`. -/
def PAGE_SIZE : Nat := 4096

/-- A record identifier: a page and a slot in it. -/
structure RID where
  pageId : PageId := INVALID_PAGE_ID
  slotNum : UInt32 := 0
  deriving DecidableEq, Repr

theorem lt_succ_iff {p n : PageId} (room : n ≠ INVALID_PAGE_ID) : p < n + 1 ↔ p < n ∨ p = n := by
  have bound := n.toNat_lt
  have below : n.toNat ≠ 4294967295 := fun same => room (UInt32.toNat_inj.mp same)
  rw [UInt32.lt_iff_toNat_lt,UInt32.lt_iff_toNat_lt,← UInt32.toNat_inj,UInt32.toNat_add,UInt32.toNat_one,
    Nat.mod_eq_of_lt (by omega)]
  omega

theorem lt_invalid {p n : PageId} (below : p < n) : p ≠ INVALID_PAGE_ID := by
  rintro rfl
  have bound := n.toNat_lt
  rw [UInt32.lt_iff_toNat_lt] at below
  have value : INVALID_PAGE_ID.toNat = 4294967295 := rfl
  omega

end Aether.Types
