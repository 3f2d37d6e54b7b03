import Aether.ClientRules
import Aether.HeapOperations
import Aether.PageUpdates

/-!
What the operations of a heap owe. They mark every page they change as dirty, pin two
pages at a time at most, and leave no pin behind, whatever null pages they meet.
-/
namespace Aether.HeapDebts
open Aether.Programs Aether.Types Aether.DiskManager Aether.PageStore Aether.Tuples Aether.TablePages Aether.TableHeap
open Aether.PageUpdates Aether.PoolClients Aether.ClientRules

section
variable {limits : Limits} {pins : Multiset PageId} {owes : PageId → Prop} {ids : Nat} {t : Ledger TablePage}
variable {page page' : TablePage} {tuple : Tuple} {slotNum : UInt32} {p : PageId}

/-- A page without room for a tuple is left as it is. -/
theorem insertTuple_refused (refused : page.insertTuple tuple = some (none,page')) : page' = page := by
  unfold TablePage.insertTuple at refused
  obtain ⟨target,_,later⟩ := Option.bind_eq_some_iff.mp refused
  by_cases lack : page.getFreeSpacePointer < page.currentFreeBoundary ∨ page.getFreeSpacePointer -
      page.currentFreeBoundary < if target = none then tuple.getSerializedLength + 8 else tuple.getSerializedLength
  · rw [if_pos lack] at later
    cases later
    rfl
  · rw [if_neg lack] at later
    obtain ⟨_,_,later⟩ := Option.bind_eq_some_iff.mp later
    cases target with
    | some i =>
      obtain ⟨_,_,later⟩ := Option.bind_eq_some_iff.mp later
      obtain ⟨_,_,last⟩ := Option.bind_eq_some_iff.mp later
      cases last
    | none =>
      obtain ⟨_,_,later⟩ := Option.bind_eq_some_iff.mp later
      obtain ⟨_,_,last⟩ := Option.bind_eq_some_iff.mp later
      cases last

/-- So is a page without the tuple that is to be deleted. -/
theorem deleteTuple_refused (refused : page.deleteTuple slotNum = some (false,page')) : page' = page := by
  unfold TablePage.deleteTuple at refused
  by_cases unused : page.getNumSlots ≤ slotNum
  · rw [if_pos unused] at refused
    cases refused
    rfl
  · rw [if_neg unused] at refused
    obtain ⟨slot,_,later⟩ := Option.bind_eq_some_iff.mp refused
    by_cases empty : slot.length = 0
    · rw [if_pos empty] at later
      cases later
      rfl
    · rw [if_neg empty] at later
      obtain ⟨_,_,later⟩ := Option.bind_eq_some_iff.mp later
      obtain ⟨_,_,last⟩ := Option.bind_eq_some_iff.mp later
      cases last

/-- With these pins the limits leave room for two more pages. -/
structure Roomy (limits : Limits) (pins : Multiset PageId) : Prop where
  fetch : ∀ p, p ≠ INVALID_PAGE_ID → limits.fetch p pins
  create : limits.create pins
  createNext : ∀ p, limits.create (p ::ₘ pins)

/-- Only what is pinned is owed, and all that was owed before is. -/
abbrev Settled (pins : Multiset PageId) (owes : PageId → Prop) (t : Ledger TablePage) : Prop := Tidy rawFormat pins owes 0 t

theorem minds_create (roomy : Roomy limits pins) (tidy : Tidy rawFormat pins owes 1 t) :
    Minds rawFormat limits create (fun _ t' => Settled pins owes t') t := by
  rw [create,Minds,Prog.guards_bind]
  refine minds_newPage tidy roomy.create (fun t₁ tidy _ => tidy.fewer (Nat.zero_le _)) (fun q t₁ tidy _ => ?_)
  simp only [Prog.guards_bind]
  refine minds_getData tidy (fun page _ _ => ?_)
  refine minds_setData tidy trivial (fun t₂ tidy _ => ?_)
  refine minds_unpinPage tidy (fun _ t₃ tidy _ => ?_)
  exact tidy.mono (fun r old => by tauto)

/-- The new page and the page it is linked to are both marked. -/
theorem minds_appendPage (roomy : Roomy limits pins) (kept : ∀ q, owes q → q ∈ pins) (tidy : Tidy rawFormat (p ::ₘ pins) owes 1 t) :
    Minds rawFormat limits (appendPage tuple slotNum p) (fun _ t' => Settled pins owes t') t := by
  rw [appendPage,Minds,Prog.guards_bind]
  refine minds_newPage tidy (roomy.createNext p) (fun t₁ tidy _ => ?_) (fun q t₁ tidy _ => ?_)
  · simp only [Prog.guards_bind]
    exact minds_unpinPage_clean tidy (kept p) (fun _ t₂ tidy _ => tidy.fewer (Nat.zero_le _))
  · simp only [Prog.guards_bind]
    refine minds_getData tidy (fun newPage _ _ => ?_)
    refine minds_setData tidy trivial (fun t₂ tidy _ => ?_)
    refine minds_getData tidy (fun page _ _ => ?_)
    refine minds_setData tidy trivial (fun t₃ tidy _ => ?_)
    refine minds_getData tidy (fun newPage _ _ => ?_)
    refine minds_ofOption (fun stored _ => ?_)
    refine minds_setData tidy trivial (fun t₄ tidy _ => ?_)
    refine minds_unpinPage (tidy.repin (Multiset.cons_swap q p pins)) (fun _ t₅ tidy _ => ?_)
    refine minds_unpinPage tidy (fun _ t₆ tidy _ => ?_)
    exact tidy.mono (fun r old => by tauto)

/-- The walk along the chain, by induction on its rounds. -/
theorem minds_insertFrom (roomy : Roomy limits pins) (kept : ∀ q, owes q → q ∈ pins) :
    ∀ (fuel : Nat) {p : PageId} {t : Ledger TablePage}, Tidy rawFormat pins owes 1 t →
      Minds rawFormat limits (insertFrom tuple slotNum fuel p) (fun _ t' => Settled pins owes t') t
  | 0, _, _, _ => trivial
  | fuel + 1, p, t, tidy => by
    rw [insertFrom]
    split_ifs with invalid
    · exact tidy.fewer (Nat.zero_le _)
    · rw [Minds,Prog.guards_bind]
      refine minds_fetchPage tidy (roomy.fetch p invalid) (fun t₁ tidy _ => tidy.fewer (Nat.zero_le _)) (fun t₁ tidy _ => ?_)
      simp only [Prog.guards_bind]
      refine minds_getData tidy (fun page stored _ => ?_)
      refine minds_ofOption (fun result inserted => ?_)
      obtain ⟨slot,page'⟩ := result
      cases slot with
      | some i =>
        refine minds_setData tidy trivial (fun t₂ tidy _ => ?_)
        simp only [Prog.guards_bind]
        refine minds_unpinPage tidy (fun _ t₃ tidy _ => ?_)
        exact (tidy.fewer (Nat.zero_le _)).mono (fun r old => by tauto)
      | none =>
        obtain rfl := insertTuple_refused inserted
        refine minds_setData_same tidy stored (fun t₂ tidy _ => ?_)
        simp only [Prog.guards_bind]
        refine minds_getData tidy (fun page _ _ => ?_)
        split_ifs
        · exact minds_appendPage roomy kept tidy
        · rw [Prog.guards_bind]
          refine minds_unpinPage_clean tidy (kept p) (fun _ t₃ tidy _ => ?_)
          exact minds_insertFrom roomy kept fuel tidy

theorem minds_getTuple {rid : RID} {schema : Schema} (roomy : Roomy limits pins) (kept : ∀ q, owes q → q ∈ pins)
    (valid : rid.pageId ≠ INVALID_PAGE_ID) (tidy : Settled pins owes t) :
    Minds rawFormat limits (getTuple rid schema) (fun _ t' => Settled pins owes t') t := by
  rw [getTuple,Minds,Prog.guards_bind]
  refine minds_fetchPage tidy (roomy.fetch _ valid) (fun t₁ tidy _ => tidy) (fun t₁ tidy _ => ?_)
  simp only [Prog.guards_bind]
  refine minds_getData tidy (fun page _ _ => ?_)
  refine minds_ofOption (fun found _ => ?_)
  exact minds_unpinPage_clean tidy (kept _) (fun _ t₂ tidy _ => tidy)

/-- The page is marked exactly when the record was changed. -/
theorem minds_modifyTuple {rid : RID} {change : TablePage → Option (Bool × TablePage)} (roomy : Roomy limits pins)
    (kept : ∀ q, owes q → q ∈ pins) (valid : rid.pageId ≠ INVALID_PAGE_ID)
    (refused : ∀ page page', change page = some (false,page') → page' = page) (tidy : Settled pins owes t) :
    Minds rawFormat limits (modifyTuple rid change) (fun _ t' => Settled pins owes t') t := by
  rw [modifyTuple,Minds,Prog.guards_bind]
  refine minds_fetchPage tidy (roomy.fetch _ valid) (fun t₁ tidy _ => tidy) (fun t₁ tidy _ => ?_)
  simp only [Prog.guards_bind]
  refine minds_getData tidy (fun page stored _ => ?_)
  refine minds_ofOption (fun result changed => ?_)
  obtain ⟨status,page'⟩ := result
  cases status with
  | true =>
    refine minds_setData tidy trivial (fun t₂ tidy _ => ?_)
    exact minds_unpinPage tidy (fun _ t₃ tidy _ => tidy.mono (fun r old => by tauto))
  | false =>
    obtain rfl := refused page page' changed
    refine minds_setData_same tidy stored (fun t₂ tidy _ => ?_)
    exact minds_unpinPage_clean tidy (kept _) (fun _ t₃ tidy _ => tidy)

/-- The record identifier of a request. -/
def Names : Request → RID → Prop
  | .insertTuple _, _ => False
  | .getTuple rid _, rid' => rid' = rid
  | .updateTuple rid _, rid' => rid' = rid
  | .deleteTuple rid, rid' => rid' = rid

/-- Whatever the pool answers, a call leaves nothing owed that was not owed before, and no
    pin behind. -/
theorem minds_serve {fuel : Nat} {first : PageId} {request : Request} (roomy : Roomy limits pins) (kept : ∀ q, owes q → q ∈ pins)
    (valid : ∀ rid, Names request rid → rid.pageId ≠ INVALID_PAGE_ID) (tidy : Tidy rawFormat pins owes 1 t) :
    Minds rawFormat limits (serve fuel first slotNum request) (fun _ t' => Settled pins owes t') t := by
  have settled : Settled pins owes t := tidy.fewer (Nat.zero_le _)
  cases request with
  | insertTuple tuple =>
    simp only [serve,Minds,Prog.guards_bind]
    exact (minds_insertFrom roomy kept fuel tidy).mono (fun _ _ => id)
  | getTuple rid schema =>
    simp only [serve,Minds,Prog.guards_bind]
    exact (minds_getTuple roomy kept (valid rid rfl) settled).mono (fun _ _ => id)
  | updateTuple rid newTuple =>
    simp only [serve,Minds,Prog.guards_bind]
    refine (minds_modifyTuple roomy kept (valid rid rfl) (fun page page' refused => ?_) settled).mono (fun _ _ => id)
    exact (updateTuple_done refused).1 rfl
  | deleteTuple rid =>
    simp only [serve,Minds,Prog.guards_bind]
    refine (minds_modifyTuple roomy kept (valid rid rfl) (fun page page' refused => ?_) settled).mono (fun _ _ => id)
    exact deleteTuple_refused refused

end

end Aether.HeapDebts
