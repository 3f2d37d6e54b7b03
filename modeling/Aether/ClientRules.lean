import Aether.PoolClients

/-!
Rules for the calls of a careful client. `Tidy` says what a client has pinned, an upper
bound on what it owes, and how many new pages the file has ids for; every call has a
rule that says what becomes of them, whatever the pool answers.
-/
namespace Aether.ClientRules
open Aether.Programs Aether.Types Aether.PageStore Aether.PoolClients

variable {D : Type}

/-- With which pins a client may fetch a page, or ask for a new one. -/
structure Limits where
  fetch : PageId → Multiset PageId → Prop
  create : Multiset PageId → Prop

/-- No limits. -/
def Limits.unlimited : Limits := { fetch := fun _ _ => True, create := fun _ => True }

/-- A frame is left for one more page, beside the pins of others. -/
def Limits.within (frames : Nat) (others : Multiset PageId) : Limits where
  fetch := fun p pins => p ≠ INVALID_PAGE_ID ∧ (pins + others).toFinset.card < frames
  create := fun pins => (pins + others).toFinset.card < frames

/-- The call is careful and keeps the limits. -/
def Mindful (format : Format D) (limits : Limits) {β : Type} (op : PoolOp D β) (t : Ledger D) : Prop :=
  Careful format op t ∧
    match op with
    | .fetchPage p => limits.fetch p t.store.pins
    | .newPage => limits.create t.store.pins
    | _ => True

/-- Every call of the client is mindful, and what it returns satisfies the postcondition. -/
abbrev Minds (format : Format D) (limits : Limits) {α : Type} (client : Client D α) (post : α → Ledger D → Prop)
    (t : Ledger D) : Prop :=
  Prog.Guards (monitor format.blank) (Mindful format limits) client post t

/-- The pins are these, nothing else is owed, and so many new pages may still be asked for. -/
structure Tidy (format : Format D) (pins : Multiset PageId) (owes : PageId → Prop) (ids : Nat) (t : Ledger D) : Prop where
  pins : t.store.pins = pins
  owed : ∀ p, t.owed p → owes p
  ids : ids ≤ t.ids
  fits : ∀ p d, t.store.data p = some d → format.Fits d

section
variable {format : Format D} {limits : Limits} {α : Type} {t : Ledger D} {p : PageId} {d : D} {isDirty : Bool}
variable {pins : Multiset PageId} {owes owes' : PageId → Prop} {ids : Nat}

theorem Tidy.mono (tidy : Tidy format pins owes ids t) (more : ∀ p, owes p → owes' p) : Tidy format pins owes' ids t :=
  ⟨tidy.pins,fun p old => more p (tidy.owed p old),tidy.ids,tidy.fits⟩

/-- One page more that may be owed. -/
theorem Tidy.owing (tidy : Tidy format pins owes ids t) (p : PageId) : Tidy format pins (fun q => q = p ∨ owes q) ids t :=
  tidy.mono (fun _ old => .inr old)

/-- The order of two pages that are pinned and may be owed is of no account. -/
theorem Tidy.swap {q : PageId} (tidy : Tidy format (q ::ₘ p ::ₘ pins) (fun r => r = q ∨ r = p ∨ owes r) ids t) :
    Tidy format (p ::ₘ q ::ₘ pins) (fun r => r = p ∨ r = q ∨ owes r) ids t :=
  ⟨tidy.pins.trans (Multiset.cons_swap q p pins),fun r old => or_left_comm.mp (tidy.owed r old),tidy.ids,tidy.fits⟩

theorem Tidy.fewer {ids' : Nat} (tidy : Tidy format pins owes ids t) (fewer : ids' ≤ ids) : Tidy format pins owes ids' t :=
  ⟨tidy.pins,tidy.owed,le_trans fewer tidy.ids,tidy.fits⟩

theorem Tidy.repin {pins' : Multiset PageId} (tidy : Tidy format pins owes ids t) (same : pins = pins') :
    Tidy format pins' owes ids t := same ▸ tidy

theorem minds_ofOption {reason : Fault} {result : Option α} {Q : α → Ledger D → Prop} (next : ∀ a, result = some a → Q a t) :
    Minds format limits (Prog.ofOption reason result) Q t :=
  (Prog.guards_ofOption reason result Q t).mpr next

/-- A call on a ledger is a call on its store. -/
theorem monitor_ok {β : Type} {op : PoolOp D β} {answer : β} {t' : Ledger D} (handled : monitor format.blank op t = .ok (answer,t')) :
    ∃ store, exec format.blank op t.store = .ok (answer,store) ∧ t' = t.after op answer store := by
  rw [monitor] at handled
  cases ran : exec format.blank op t.store with
  | error reason =>
    rw [ran] at handled
    cases handled
  | ok answered =>
    obtain ⟨answer',store⟩ := answered
    rw [ran] at handled
    cases handled
    exact ⟨store,rfl,rfl⟩

theorem minds_fetchPage {Q : Option PageId → Ledger D → Prop} (tidy : Tidy format pins owes ids t) (fine : limits.fetch p pins)
    (null : ∀ t', Tidy format pins owes ids t' → t'.store.data = t.store.data → Q none t')
    (next : ∀ t', Tidy format (p ::ₘ pins) owes ids t' → t'.store.data = t.store.data → Q (some p) t') :
    Minds format limits (fetchPage p) Q t := by
  refine Prog.guards_perform ⟨trivial,tidy.pins.symm ▸ fine⟩ (fun page t' handled => ?_)
  obtain ⟨store,fetched,rfl⟩ := monitor_ok handled
  rcases exec_fetchPage fetched with ⟨rfl,script,rfl⟩ | ⟨rfl,_,rfl⟩
  · exact null _ ⟨tidy.pins,tidy.owed,tidy.ids,tidy.fits⟩ rfl
  · exact next _ ⟨by rw [← tidy.pins]; rfl,tidy.owed,tidy.ids,tidy.fits⟩ rfl

theorem minds_newPage {Q : Option PageId → Ledger D → Prop} (tidy : Tidy format pins owes (ids + 1) t) (fine : limits.create pins)
    (null : ∀ t', Tidy format pins owes ids t' → t'.store.data = t.store.data → Q none t')
    (next : ∀ q t', Tidy format (q ::ₘ pins) (fun r => r = q ∨ owes r) ids t' →
      t'.store.data = Function.update t.store.data q (some format.blank) → Q (some q) t') :
    Minds format limits newPage Q t := by
  have enough := tidy.ids
  have left : ids ≤ t.ids - 1 := by omega
  refine Prog.guards_perform ⟨show 0 < t.ids by omega,tidy.pins.symm ▸ fine⟩ (fun page t' handled => ?_)
  have fits : ∀ q r d, Function.update t.store.data q (some format.blank) r = some d → format.Fits d := by
    intro q r d there
    by_cases same : r = q
    · rw [same,Function.update_self] at there
      exact Option.some.inj there ▸ format.fits_view _
    · rw [Function.update_of_ne same] at there
      exact tidy.fits r d there
  obtain ⟨store,made,rfl⟩ := monitor_ok handled
  rcases newPage_made made with ⟨rfl,script,rfl⟩ | ⟨q,free,numPages,rfl,rfl⟩
  · exact null _ ⟨tidy.pins,tidy.owed,left,tidy.fits⟩ rfl
  · exact next q _ ⟨by rw [← tidy.pins]; rfl,fun r which => which.imp_right (tidy.owed r),left,fits q⟩ rfl

/-- A page that is marked dirty is no longer owed. -/
theorem minds_unpinPage {Q : Bool → Ledger D → Prop} (tidy : Tidy format (p ::ₘ pins) owes ids t)
    (next : ∀ done t', Tidy format pins (fun q => q ≠ p ∧ owes q) ids t' → t'.store.data = t.store.data → Q done t') :
    Minds format limits (unpinPage p true) Q t := by
  have pinned : p ∈ t.store.pins := by
    rw [tidy.pins]
    exact Multiset.mem_cons_self p pins
  refine Prog.guards_perform ⟨⟨pinned,nofun⟩,trivial⟩ (fun done t' handled => ?_)
  simp only [monitor,exec,if_pos pinned] at handled
  cases handled
  refine next true _ ⟨?_,fun q old => ⟨old.1,tidy.owed q old.2⟩,tidy.ids,tidy.fits⟩ rfl
  show t.store.pins.erase p = pins
  rw [tidy.pins,Multiset.erase_cons_head]

/-- A page that is not marked dirty is one that is not owed, or stays pinned. -/
theorem minds_unpinPage_clean {Q : Bool → Ledger D → Prop} (tidy : Tidy format (p ::ₘ pins) owes ids t)
    (paid : owes p → p ∈ pins)
    (next : ∀ done t', Tidy format pins owes ids t' → t'.store.data = t.store.data → Q done t') :
    Minds format limits (unpinPage p false) Q t := by
  have rest : t.store.pins.erase p = pins := by rw [tidy.pins,Multiset.erase_cons_head]
  have pinned : p ∈ t.store.pins := by
    rw [tidy.pins]
    exact Multiset.mem_cons_self p pins
  refine Prog.guards_perform ⟨⟨pinned,fun _ old => rest.symm ▸ paid (tidy.owed p old)⟩,trivial⟩ (fun done t' handled => ?_)
  simp only [monitor,exec,if_pos pinned] at handled
  cases handled
  exact next true _ ⟨rest,tidy.owed,tidy.ids,tidy.fits⟩ rfl

theorem minds_deletePage {Q : Bool → Ledger D → Prop} (tidy : Tidy format pins owes ids t)
    (next : ∀ done t', Tidy format pins owes ids t' → Q done t') : Minds format limits (deletePage p) Q t := by
  refine Prog.guards_perform ⟨trivial,trivial⟩ (fun done t' handled => ?_)
  obtain ⟨store,deleted,rfl⟩ := monitor_ok handled
  rcases exec_deletePage deleted with ⟨rfl,_,rfl⟩ | ⟨rfl,_,_,rfl⟩
  · exact next _ _ tidy
  · refine next _ _ ⟨tidy.pins,tidy.owed,tidy.ids,fun q d there => ?_⟩
    have there : Function.update t.store.data p none q = some d := there
    by_cases same : q = p
    · rw [same,Function.update_self] at there
      cases there
    · rw [Function.update_of_ne same] at there
      exact tidy.fits q d there

theorem minds_getData {Q : D → Ledger D → Prop} (tidy : Tidy format pins owes ids t)
    (next : ∀ d, t.store.data p = some d → format.Fits d → Q d t) : Minds format limits (getData p) Q t := by
  refine Prog.guards_perform ⟨trivial,trivial⟩ (fun d t' handled => ?_)
  obtain ⟨store,read,rfl⟩ := monitor_ok handled
  obtain ⟨stored,rfl⟩ := exec_getData read
  exact next d stored (tidy.fits p d stored)

/-- A page that is changed is owed. -/
theorem minds_setData {Q : Unit → Ledger D → Prop} (tidy : Tidy format pins owes ids t) (fits : format.Fits d)
    (next : ∀ t', Tidy format pins (fun q => q = p ∨ owes q) ids t' → t'.store.data = Function.update t.store.data p (some d) →
      Q () t') : Minds format limits (setData p d) Q t := by
  refine Prog.guards_perform ⟨fits,trivial⟩ (fun done t' handled => ?_)
  obtain ⟨store,wrote,rfl⟩ := monitor_ok handled
  obtain ⟨_,rfl⟩ := exec_setData wrote
  refine next _ ⟨tidy.pins,fun q which => which.imp And.left (tidy.owed q),tidy.ids,fun q e there => ?_⟩ rfl
  have there : Function.update t.store.data p (some d) q = some e := there
  by_cases same : q = p
  · rw [same,Function.update_self] at there
    exact Option.some.inj there ▸ fits
  · rw [Function.update_of_ne same] at there
    exact tidy.fits q e there

/-- Writing what is there owes nothing. -/
theorem minds_setData_same {Q : Unit → Ledger D → Prop} (tidy : Tidy format pins owes ids t) (stored : t.store.data p = some d)
    (next : ∀ t', Tidy format pins owes ids t' → t'.store.data = t.store.data → Q () t') : Minds format limits (setData p d) Q t := by
  refine Prog.guards_perform ⟨tidy.fits p d stored,trivial⟩ (fun done t' handled => ?_)
  obtain ⟨store,wrote,rfl⟩ := monitor_ok handled
  obtain ⟨_,rfl⟩ := exec_setData wrote
  have same : Function.update t.store.data p (some d) = t.store.data := by
    rw [← stored]
    exact Function.update_eq_self ..
  refine next _ ⟨tidy.pins,fun q which => ?_,tidy.ids,fun q e there => ?_⟩ same
  · rcases which with ⟨_,changed⟩ | old
    · exact absurd stored changed
    · exact tidy.owed q old
  · have there : Function.update t.store.data p (some d) q = some e := there
    rw [same] at there
    exact tidy.fits q e there

end
end Aether.ClientRules
