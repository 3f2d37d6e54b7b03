import Aether.PageStore

/-!
Rules for the calls of the pool when the exact content of every page is known
(`Sees`), whatever the pool answers: a null page is a case of its own.
-/
namespace Aether.StoreRules
open Aether.Programs Aether.Types Aether.PageStore

variable {D : Type}

/-- The store holds these contents, these pins and this script; `spare` says that
    a page id is left to hand out. -/
structure Sees (s : Store D) (data : PageId → Option D) (pins : Multiset PageId) (script : List Bool)
    (spare : Prop) : Prop where
  data : s.data = data
  pins : s.pins = pins
  script : s.script = script
  spare : spare ↔ ¬(s.free = [] ∧ s.numPages = INVALID_PAGE_ID)
  wellFormed : WellFormed s

theorem sees_self {s : Store D} (wf : WellFormed s) :
    Sees s s.data s.pins s.script (¬(s.free = [] ∧ s.numPages = INVALID_PAGE_ID)) :=
  ⟨rfl,rfl,rfl,Iff.rfl,wf⟩

section
variable {blank d : D} {allowed : Answers (PoolOp D)} {tolerated : Fault → Prop} {s : Store D}
variable {data : PageId → Option D} {pins : Multiset PageId} {script : List Bool} {spare : Prop} {p : PageId}

theorem Sees.ne_invalid (sees : Sees s data pins script spare) (stored : data p ≠ none) : p ≠ INVALID_PAGE_ID := by
  have inFile := (sees.wellFormed.partition p).mpr (.inr (by rw [sees.data]; exact stored))
  exact lt_invalid inFile.2

theorem wlp_fetchPage {Q : Option PageId → Store D → Prop} (sees : Sees s data pins script spare) (stored : data p = some d)
    (null : allowed (.fetchPage p) none → script.headD false = true → ∀ s', Sees s' data pins script.tail spare → Q none s')
    (next : script.headD false = false → ∀ s', Sees s' data (p ::ₘ pins) script.tail spare → Q (some p) s') :
    Prog.wlp (exec blank) allowed tolerated (fetchPage p) Q s := by
  have live : s.data p = some d := by rw [sees.data,stored]
  have valid := sees.ne_invalid (p := p) (by simp [stored])
  have wf := sees.wellFormed
  by_cases refused : script.headD false = true
  · have handled : exec blank (.fetchPage p) s = .ok (none,{ s with script := s.script.tail }) := by
      simp only [exec,if_neg valid,sees.script,if_pos refused]
    rw [fetchPage,Prog.wlp_perform handled]
    exact fun fine => null fine refused _
      ⟨sees.data,sees.pins,by rw [sees.script],sees.spare,wf.first,wf.distinct,wf.partition,wf.exclusive,wf.pinned⟩
  · have handled : exec blank (.fetchPage p) s =
        .ok (some p,{ s with pins := p ::ₘ s.pins, script := s.script.tail }) := by
      simp only [exec,if_neg valid,sees.script,if_neg refused,live]
    rw [fetchPage,Prog.wlp_perform handled]
    exact fun _ => next (by simpa using refused) _
      ⟨sees.data,by rw [← sees.pins],by rw [sees.script],sees.spare,wf.pin (by simp [live]) _⟩

theorem wlp_getData {Q : D → Store D → Prop} (sees : Sees s data pins script spare) (stored : data p = some d)
    (pinned : p ∈ pins) (next : Q d s) : Prog.wlp (exec blank) allowed tolerated (getData p) Q s := by
  have handled : exec blank (.getData p) s = .ok (d,s) := by
    simp only [exec,sees.pins,if_pos pinned,sees.data,stored]
  rw [getData,Prog.wlp_perform handled]
  exact fun _ => next

theorem wlp_setData {Q : Unit → Store D → Prop} {d' : D} (sees : Sees s data pins script spare) (stored : data p = some d)
    (pinned : p ∈ pins) (next : ∀ s', Sees s' (Function.update data p (some d')) pins script spare → Q () s') :
    Prog.wlp (exec blank) allowed tolerated (setData p d') Q s := by
  have handled : exec blank (.setData p d') s = .ok ((),{ s with data := Function.update s.data p (some d') }) := by
    simp only [exec,sees.pins,if_pos pinned]
  rw [setData,Prog.wlp_perform handled]
  exact fun _ => next _ ⟨by rw [← sees.data],sees.pins,sees.script,sees.spare,
    sees.wellFormed.update (by simp [sees.data,stored]) d'⟩

theorem wlp_unpinPage {Q : Bool → Store D → Prop} {isDirty : Bool} (sees : Sees s data (p ::ₘ pins) script spare)
    (next : ∀ s', Sees s' data pins script spare → Q true s') :
    Prog.wlp (exec blank) allowed tolerated (unpinPage p isDirty) Q s := by
  have pinned : p ∈ s.pins := by rw [sees.pins]; simp
  have wf := sees.wellFormed
  have handled : exec blank (.unpinPage p isDirty) s = .ok (true,
      { s with pins := s.pins.erase p, dirty := if isDirty then Function.update s.dirty p true else s.dirty }) := by
    simp only [exec,if_pos pinned]
  rw [unpinPage,Prog.wlp_perform handled]
  exact fun _ => next _ ⟨sees.data,by simp [sees.pins],sees.script,sees.spare,wf.first,wf.distinct,wf.partition,
    wf.exclusive,fun q member => wf.pinned q (Multiset.mem_of_mem_erase member)⟩

theorem wlp_newPage {Q : Option PageId → Store D → Prop} (sees : Sees s data pins script spare)
    (null : allowed .newPage none → script.headD false = true ∨ ¬spare → ∀ s', Sees s' data pins script.tail spare → Q none s')
    (next : ∀ q s' spare', script.headD false = false → spare → data q = none →
      Sees s' (Function.update data q (some blank)) (q ::ₘ pins) script.tail spare' → Q (some q) s') :
    Prog.wlp (exec blank) allowed tolerated newPage Q s := by
  have wf := sees.wellFormed
  rcases exec_newPage blank wf with ⟨handled,refused⟩ | ⟨q,rest,count,handled,unused,served,left,wf'⟩
  · rw [newPage,Prog.wlp_perform handled]
    rw [sees.script] at refused
    exact fun fine => null fine (refused.imp_right (fun spent left => sees.spare.mp left spent)) _
      ⟨sees.data,sees.pins,by rw [sees.script],sees.spare,wf.first,wf.distinct,wf.partition,wf.exclusive,wf.pinned⟩
  · rw [newPage,Prog.wlp_perform handled]
    rw [sees.script] at served
    exact fun _ => next q _ _ served (sees.spare.mpr left) (by rw [← sees.data]; exact unused)
      ⟨by rw [← sees.data]; rfl,by rw [← sees.pins]; rfl,by rw [← sees.script]; rfl,Iff.rfl,wf'⟩

end
end Aether.StoreRules
