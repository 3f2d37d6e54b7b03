import Aether.ClientRules
import Aether.TreeFrames

/-!
Pools that have a frame for every page that is asked for. A pool refuses only when each
of its frames has a page of its own that is pinned, so clients that pin few pages at a
time are never refused.
-/
namespace Aether.SpareFrames
open Aether.Programs Aether.Types Aether.PageStore Aether.Replacers Aether.Replacers.Replacer Aether.BufferPool Aether.BufferPoolFrames
open Aether.BPlusTree Aether.PoolClients Aether.ClientRules
open Aether.TreeRanks (Thrifty Uses)
open Aether.TreeFrames (Serves fetchPage_refused newPage_refused)

section
variable {D β : Type} {format : Format D} {frames limit : Nat} {m m' : Machine} {s : Store D} {owed : PageId → Prop} {op : PoolOp D β}
variable {answer : β} {others base : Multiset PageId}

theorem serves_of_backs (backs : Backs format frames m s owed) : Serves frames s.pins m.pool :=
  ⟨backs.consistent.accounts,backs.covered,backs.idle,backs.poolSize⟩

/-- The number of frames whose page is pinned. -/
def pinnedFrames (pool : BufferPoolManager) : Nat :=
  (List.range pool.poolSize).countP (fun f : Nat => decide (0 < (pool.pages (f : Int)).pinCount))

/-- Every page that the client has pinned has a pinned frame of its own. -/
theorem pinned_le (backs : Backs format frames m s owed) : s.pins.toFinset.card ≤ pinnedFrames m.pool := by
  have accounts := backs.consistent.accounts
  have frame : ∀ p ∈ s.pins, IsFrame m.pool.poolSize (m.pointer p) ∧ (m.pool.pages (m.pointer p)).pageId = p :=
    fun p pinned => accounts.mapped p (m.pointer p) (backs.bound p pinned)
  have into : s.pins.toFinset.image (fun p => (m.pointer p).toNat) ⊆
      ((List.range m.pool.poolSize).filter (fun f : Nat => decide (0 < (m.pool.pages (f : Int)).pinCount))).toFinset := by
    intro i member
    obtain ⟨p,pinned,rfl⟩ := Finset.mem_image.mp member
    have pinned := Multiset.mem_toFinset.mp pinned
    obtain ⟨⟨natural,low⟩,_⟩ := frame p pinned
    have same : ((m.pointer p).toNat : Int) = m.pointer p := Int.toNat_of_nonneg natural
    have count := accounts.pinned p (m.pointer p) (backs.bound p pinned)
    have positive : 0 < s.pins.count p := Multiset.count_pos.mpr pinned
    simp only [List.mem_toFinset,List.mem_filter,List.mem_range,decide_eq_true_eq,same]
    constructor <;> omega
  have apart : Set.InjOn (fun p => (m.pointer p).toNat) (s.pins.toFinset : Set PageId) := by
    intro p pinned q pinned' same
    have pinned := Multiset.mem_toFinset.mp pinned
    have pinned' := Multiset.mem_toFinset.mp pinned'
    have equal : m.pointer p = m.pointer q := by
      rw [← Int.toNat_of_nonneg (frame p pinned).1.1,← Int.toNat_of_nonneg (frame q pinned').1.1]
      exact congrArg Int.ofNat same
    rw [← (frame p pinned).2,← (frame q pinned').2,equal]
  have count := Finset.card_le_card into
  rw [Finset.card_image_of_injOn apart,List.toFinset_card_of_nodup (List.nodup_range.filter _)] at count
  rw [pinnedFrames,List.countP_eq_length_filter]
  exact count

/-- Frames that are spare in the pool are spare beside the pins of the client. -/
theorem spare_pins (backs : Backs format frames m s owed) (spare : pinnedFrames m.pool + limit ≤ m.pool.poolSize) :
    s.pins.toFinset.card + limit ≤ frames := by
  have few := pinned_le backs
  rw [backs.poolSize] at spare
  omega

/-- A pool that answers with a null page has no frame for it. -/
theorem told_of_backs (backs : Backs format frames m s owed) (driven : drive format op m = .ok (answer,m')) : Told frames 0 op s answer := by
  have full : m.pool.replacement = none → frames ≤ (s.pins + 0).toFinset.card := by
    rw [add_zero]
    exact (serves_of_backs backs).full
  cases op with
  | fetchPage p =>
    rintro rfl
    by_cases invalid : p = INVALID_PAGE_ID
    · exact .inl invalid
    · simp only [drive] at driven
      split at driven
      · cases driven
      · rename_i refused
        exact .inr (full (fetchPage_refused invalid (by rw [refused])))
      · cases driven
  | newPage =>
    rintro rfl
    simp only [drive] at driven
    split at driven
    · cases driven
    · rename_i refused
      exact full (newPage_refused (by rw [refused]))
    · cases driven
  | unpinPage p isDirty => trivial
  | deletePage p => trivial
  | getData p => trivial
  | setData p d => trivial

/-- A pool of its own is a host of a client. -/
theorem backing_host : Host format frames 0 (Backing format frames) where
  rescript := fun here script => ⟨here.1.rescript script,here.2⟩
  matched := fun op _ _ here careful => call_matched op here careful
  told := fun _ _ _ _ _ here driven => told_of_backs here.1 driven

/-- Within the limits there is a frame for every page that is asked for. -/
theorem within_granted {t : Ledger D} (mindful : Mindful format (.within frames others) op t) (told : Told frames others op t.store answer) :
    Granted op answer := by
  cases op with
  | fetchPage p =>
    intro null
    obtain ⟨_,valid,low⟩ := mindful
    rcases told null with invalid | full
    · exact valid invalid
    · exact Nat.not_le.mpr low full
  | newPage => exact fun null => Nat.not_le.mpr mindful.2 (told null)
  | unpinPage p isDirty => trivial
  | deletePage p => trivial
  | getData p => trivial
  | setData p d => trivial

/-- So there is for a client that keeps to so many pins beside those that are there anyway. -/
theorem thrifty_told {op : PoolOp BPlusTreePage β} {s : Store BPlusTreePage} (enough : (base + others).toFinset.card + limit ≤ frames)
    (thrifty : Thrifty base limit op s) (told : Told frames others op s answer) : Granted op answer := by
  have spare : ∀ own : Multiset PageId, s.pins = base + own → own.card < limit → ¬frames ≤ (s.pins + others).toFinset.card := by
    intro own pins low full
    rw [pins,add_right_comm,Multiset.toFinset_add] at full
    have union := Finset.card_union_le (base + others).toFinset own.toFinset
    have few := Multiset.toFinset_card_le own
    omega
  cases op with
  | fetchPage p =>
    intro null
    obtain ⟨valid,own,pins,low⟩ := thrifty
    rcases told null with invalid | full
    · exact valid invalid
    · exact spare own pins low full
  | newPage =>
    intro null
    obtain ⟨own,pins,low⟩ := thrifty
    exact spare own pins low (told null)
  | unpinPage p isDirty => trivial
  | deletePage p => trivial
  | getData p => trivial
  | setData p d => trivial

/-! ### Clients that are served -/

variable {related : Relation D} {α : Type}

theorem served_of_minds {client : Client D α} {post : α → Ledger D → Prop} {t : Ledger D}
    (minds : Minds format (.within frames others) client post t) (heard : Prog.Heard (exec format.blank) (Told frames others) client t.store) :
    Prog.Served (exec format.blank) Granted client t.store := by
  induction client generalizing t with
  | ret value => trivial
  | fault reason => trivial
  | call op rest ih =>
    rw [Minds,Prog.Guards] at minds
    rw [Prog.Heard] at heard
    rw [Prog.Served]
    obtain ⟨passes,later⟩ := minds
    cases handled : exec format.blank op t.store with
    | error reason => trivial
    | ok answered =>
      rw [monitor,handled] at later
      rw [handled] at heard
      exact ⟨within_granted passes heard.1,ih answered.1 later heard.2⟩

/-- A client within the limits does on the host what it does on the store, and is never
    refused. -/
theorem host_serves (host : Host format frames others related) (client : Client D α) {post : α → Ledger D → Prop} {t : Ledger D}
    (here : related m t) (minds : ∀ script, Minds format (.within frames others) client post (t.rescript script)) :
    ∃ script, Prog.Served (exec format.blank) Granted client { t.store with script } ∧
      ∀ value s', Prog.run (exec format.blank) client { t.store with script } = .ok (value,s') →
        ∃ m' t', Prog.run (drive format) client m = .ok (value,m') ∧ t'.store = s' ∧ related m' t' ∧ post value t' := by
  obtain ⟨script,heard,returns⟩ := host.refines (fun op t mindful => mindful.1) client here minds
  exact ⟨script,served_of_minds (minds script) heard,returns⟩

end
end Aether.SpareFrames
