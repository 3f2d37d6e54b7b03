import Aether.PoolClients

/-!
Restarts. The destructor of a pool writes its dirty pages to the file, the file is
closed, and a new pool is made over it when it is opened again. Every page is then
what it was, except for those that are owed, and nothing is pinned.
-/
namespace Aether.PoolRestarts
open Aether.Bytes Aether.Types Aether.DiskManager Aether.FreeList Aether.Replacers Aether.BufferPool
open Aether.BufferPoolFrames Aether.PageStore Aether.PoolClients BufferPoolManager
open Aether.DiskStore (Header reopen_same)
open Aether.PoolContents hiding Granted

/-- `~BufferPoolManager`, `Close`, and a pool made over the file when it is opened again.
    `order` is the order of the iteration over `page_table_`. -/
def restart (m : Machine) (order : List PageId) (poolSize : Nat) (replacer : Replacer) : Option Machine :=
  match m.pool.flushAllPages order with
  | (.error _,_) => none
  | (.ok _,pool) =>
    match DiskManager.openFile pool.disk.dbIo with
    | .error _ => none
    | .ok disk => some { m with pool := .create poolSize disk replacer }

/-- The iteration visits every page of the pool. -/
def Visits (b : BufferPoolManager) (order : List PageId) : Prop := ∀ p, b.pageTable p ≠ none → p ∈ order

section
variable {D : Type} {format : Format D} {frames n : Nat} {m : Machine} {s : Store D} {owed : PageId → Prop}
variable {p : PageId} {f : FrameId} {b' : BufferPoolManager}

theorem flushed_backs (backs : Backs format frames m s owed) (flushed : Flushed m.pool p f b') (accounts' : Accounts b' s.pins) :
    Backs format frames { m with pool := b' } s owed := by
  refine ⟨flushed_consistent backs.consistent flushed accounts',flushed.covered backs.covered,flushed.idle backs.idle,
    flushed.poolSize.trans backs.poolSize,backs.wellFormed,flushed.numPages.trans backs.numPages,?_,?_,?_,?_,backs.held⟩
  · refine backs.keepsHeader flushed.freeListHead flushed.numPages ?_
    have positive : (0 : PageId) ≠ p := by
      rintro rfl
      have here := flushed.here
      rw [backs.zero] at here
      cases here
    rw [flushed.stored,if_neg (fun lost => positive lost.1)]
  · rw [flushed_current flushed]
    exact backs.shown
  · rw [flushed.pageTable]
    exact backs.cached
  · rw [flushed.pageTable]
    exact backs.bound

/-- Every page of the list is written to the file, by induction on the list. -/
theorem flushAllPages_backs : ∀ (order : List PageId) {m : Machine}, Backs format frames m s owed →
    ∃ b', m.pool.flushAllPages order = (.ok (),b') ∧ Backs format frames { m with pool := b' } s owed ∧
      b'.pageTable = m.pool.pageTable ∧
      ∀ p f, m.pool.pageTable p = some f → (p ∈ order ∨ (m.pool.pages f).isDirty = false) → (b'.pages f).isDirty = false
  | [], m, backs => ⟨m.pool,rfl,backs,rfl,fun _ _ _ clean => clean.resolve_left List.not_mem_nil⟩
  | p :: rest, m, backs => by
    cases here : m.pool.pageTable p with
    | none =>
      obtain ⟨b',ran,backs',table,clean⟩ := flushAllPages_backs rest backs
      refine ⟨b',by simp only [flushAllPages,here,ran],backs',table,fun q f there which => clean q f there ?_⟩
      refine which.imp_left (fun member => (List.mem_cons.mp member).resolve_left ?_)
      rintro rfl
      rw [here] at there
      cases there
    | some f =>
      obtain ⟨b₁,step,flushed,accounts'⟩ :=
        flushFrame_spec backs.consistent.accounts here (backs.consistent.low p f here)
      obtain ⟨b',ran,backs',table,clean⟩ := flushAllPages_backs rest (flushed_backs backs flushed accounts')
      refine ⟨b',by simp only [flushAllPages,here,step,ran],backs',table.trans flushed.pageTable,fun q g there which => ?_⟩
      refine clean q g (flushed.pageTable ▸ there) ?_
      show q ∈ rest ∨ (b₁.pages g).isDirty = false
      rw [flushed.pages]
      by_cases same : g = f
      · exact .inr (by rw [same,Function.update_self])
      · rw [Function.update_of_ne same]
        refine which.imp_left (fun member => (List.mem_cons.mp member).resolve_left ?_)
        rintro rfl
        exact same (Option.some.inj (there.symm.trans here))

/-- Where all frames are clean, the file has every page that is not owed. -/
theorem stored_of_clean (backs : Backs format frames m s owed) (stored : s.data p ≠ none) (fixed : ¬owed p)
    (clean : ∀ f, m.pool.pageTable p = some f → (m.pool.pages f).isDirty = false) :
    m.pool.disk.dbIo.page p = current m.pool p := by
  cases here : m.pool.pageTable p with
  | none => rw [current_uncached here]
  | some f =>
    rw [current_cached here]
    exact (backs.consistent.synced p f here (pos_ne (backs.owned stored).positive) (clean f here) fixed).symm


/-- Whatever is pinned, a restart succeeds, and the new pool holds every page that is
    not owed as it was. -/
theorem restart_backs {order : List PageId} {replacer : Replacer} (backs : Backs format frames m s owed)
    (visits : Visits m.pool order) (fresh : Fresh n replacer) : ∃ m' data, restart m order n replacer = some m' ∧
      (∀ p, ¬owed p → data p = s.data p) ∧ (∀ p, data p = none ↔ s.data p = none) ∧
      Backs format n m' { s with data, pins := 0 } (fun _ => False) := by
  obtain ⟨b',ran,backs',table,clean⟩ := flushAllPages_backs order backs
  have opened : DiskManager.openFile b'.disk.dbIo = .ok b'.disk := by
    refine reopen_same backs'.header ?_
    have positive := backs'.consistent.free.positive
    rw [lt_toNat,UInt32.toNat_zero] at positive
    rw [backs'.consistent.free.length]
    exact positive
  refine ⟨{ m with pool := .create n b'.disk replacer },fun p => (s.data p).map (fun _ => format.view (b'.disk.dbIo.page p)),
    by simp only [restart,ran,opened],?_,?_,?_⟩
  · intro p fixed
    show (s.data p).map _ = s.data p
    cases stored : s.data p with
    | none => rfl
    | some d =>
      have stored' : s.data p ≠ none := by simp [stored]
      have cleaned : ∀ f, b'.pageTable p = some f → (b'.pages f).isDirty = false := by
        intro f here
        have here' : m.pool.pageTable p = some f := table ▸ here
        exact clean p f here' (.inl (visits p (by simp [here'])))
      rw [Option.map_some,stored_of_clean backs' stored' fixed cleaned,backs'.shown p d stored]
  · intro p
    exact Option.map_eq_none_iff
  · have wf := backs.wellFormed
    have same : ∀ p, (s.data p).map (fun _ => format.view (b'.disk.dbIo.page p)) = none ↔ s.data p = none := fun p =>
      Option.map_eq_none_iff
    have wellFormed : WellFormed { s with data := fun p => (s.data p).map (fun _ => format.view (b'.disk.dbIo.page p)), pins := 0 } := by
      refine ⟨wf.first,wf.distinct,fun p => ?_,fun p member => ?_,by simp⟩
      · rw [wf.partition p]
        exact or_congr_right (not_congr (same p)).symm
      · exact (same p).mpr (wf.exclusive p member)
    apply create_backs fresh _ backs'.header _ wellFormed rfl
    · intro p d there
      obtain ⟨_,_,rfl⟩ := Option.map_eq_some_iff.mp there
      rfl
    · exact backs'.consistent.free
    · exact backs'.numPages

end
end Aether.PoolRestarts
