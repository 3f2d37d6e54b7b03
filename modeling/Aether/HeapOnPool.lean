import Aether.HostedClients
import Aether.PoolRestarts

/-!
The table heap on the whole stack: the heap's code on a `BufferPoolManager` with
either replacer over a `DiskManager`. Its operations mark every page they change as
dirty and never need more than two frames, so a pool of two frames is enough for the
heap to be a finite map, and it stays one when the database is closed and opened again.
-/
namespace Aether.HeapOnPool
open Aether.Bytes Aether.Programs Aether.Types Aether.DiskManager Aether.Replacers Aether.BufferPool Aether.BufferPoolFrames
open Aether.PageStore Aether.Tuples Aether.TablePages Aether.TableHeap Aether.PoolClients
open Aether.PoolRestarts Aether.Runs Aether.SpareFrames Aether.HostedClients
open Aether.HeapMap (Represents Explains Answered Fitting Records)

/-- A heap on a pool, with the calls so far and their answers, the last one first. -/
structure Database where
  machine : Machine
  firstPageId : PageId
  log : List (Request × Response)

/-- A new database file with a heap in it. -/
def Database.create (poolSize : Nat) (replacer : Replacer) : Option Database :=
  match Prog.run (drive rawFormat) TableHeap.create { pool := .create poolSize .create replacer, pointer := fun _ => 0 } with
  | .error _ => none
  | .ok (firstPageId,machine) => some { machine, firstPageId, log := [] }

/-- A call, with what was in the memory of `slot_num`, or a restart with another pool. -/
inductive Event
  | call (request : Request) (slotNum : UInt32)
  | restart (order : List PageId) (poolSize : Nat) (replacer : Replacer)

/-- The walk along the chain is given as many rounds as the file has pages. -/
def Database.next (db : Database) : Event → Option Database
  | .call request slotNum =>
    match Prog.run (drive rawFormat) (serve db.machine.pool.disk.numPages.toNat db.firstPageId slotNum request) db.machine with
    | .error _ => none
    | .ok (response,machine) => some { db with machine, log := (request,response) :: db.log }
  | .restart order poolSize replacer => (restart db.machine order poolSize replacer).map (fun machine => { db with machine })

/-- The heap over a store, as its clients know it. -/
def Database.heap (db : Database) (store : Store TablePage) : Heap := { store, firstPageId := db.firstPageId, log := db.log }

/-- A page id is left to hand out. -/
def HasId (disk : DiskManager) : Prop := disk.freeListHead ≠ INVALID_PAGE_ID ∨ disk.numPages ≠ INVALID_PAGE_ID

/-- The call is on a record identifier that the heap has returned, with a tuple that fits, in
    a file that can grow; a pool has at least two frames and a replacer of its size. -/
def Database.Allowed (schema : Schema) (db : Database) : Event → Prop
  | .call request _ => Known (db.heap (Store.empty _)) request ∧ Fitting schema request ∧ HasId db.machine.pool.disk
  | .restart order poolSize replacer => Visits db.machine.pool order ∧ 2 ≤ poolSize ∧ Fresh poolSize replacer

section
variable {schema : Schema} {db db' : Database} {m : Records} {n : Nat} {replacer : Replacer}

/-- The database stands for a map. -/
def Stands (schema : Schema) (db : Database) (m : Records) : Prop :=
  ∃ (frames : Nat) (store : Store TablePage), 2 ≤ frames ∧ Backs rawFormat frames db.machine store (fun _ => False) ∧
    store.pins = 0 ∧ Represents schema (db.heap store) m

theorem stands_of_rests {frames : Nat} {machine : Machine} {t : Ledger TablePage} {first : PageId} {log : List (Request × Response)}
    (two : 2 ≤ frames) (backs : Backs rawFormat frames machine t.store t.owed) (rests : HeapRests schema t first log m) :
    Stands schema { machine, firstPageId := first, log } m := by
  have nothing : t.owed = fun _ => False := funext (fun p => propext ⟨rests.owed p,False.elim⟩)
  exact ⟨frames,t.store,two,nothing ▸ backs,rests.pins,rests.represents⟩

theorem idsLeft_of_hasId {frames : Nat} {machine : Machine} {s : Store TablePage} {owed : PageId → Prop}
    (backs : Backs rawFormat frames machine s owed) (hasId : HasId machine.pool.disk) : 1 ≤ idsLeft s := by
  by_contra none
  obtain ⟨empty,full⟩ : s.free = [] ∧ s.numPages = INVALID_PAGE_ID := by
    rw [idsLeft] at none
    have bound := s.numPages.toNat_lt
    refine ⟨List.length_eq_zero_iff.mp (by omega),UInt32.toNat_inj.mp ?_⟩
    show s.numPages.toNat = 4294967295
    omega
  rcases hasId with free | room
  · exact free ((FreeList.chain_nil_iff backs.consistent.free.chain).mp empty)
  · exact room (backs.numPages.trans full)

theorem two_left {frames : Nat} (two : 2 ≤ frames) : (0 : Multiset PageId).toFinset.card + 2 ≤ frames := by
  rw [Multiset.toFinset_zero,Finset.card_empty]
  omega

/-- A new database stands for the empty map. -/
theorem create_stands (two : 2 ≤ n) (fresh : Fresh n replacer) :
    ∃ db, Database.create n replacer = some db ∧ db.log = [] ∧ Stands schema db (fun _ => none) := by
  have wf := empty_wellFormed TablePage
  have backs : Backs rawFormat n { pool := .create n .create replacer, pointer := fun _ => 0 } (Store.empty TablePage) (fun _ => False) :=
    create_backs fresh FreeList.create_freeList DiskStore.create_header rfl wf rfl (fun p d stored => by cases stored) _
  obtain ⟨first,m',t',driven,⟨backs',_⟩,rests⟩ := heap_created backing_host (t := ⟨_,fun _ => False,idsLeft (Store.empty _)⟩)
    ⟨backs,le_refl _⟩ rfl (fun _ old => old) wf (two_left two) (by simp [idsLeft,Store.empty])
  exact ⟨{ machine := m', firstPageId := first, log := [] },by rw [Database.create,driven],rfl,stands_of_rests two backs' rests⟩

/-- A call on the pool is answered as by the map. -/
theorem call_stands {request : Request} {slotNum : UInt32} (stands : Stands schema db m)
    (allowed : db.Allowed schema (.call request slotNum)) : ∃ db' response m', db.next (.call request slotNum) = some db' ∧
      db'.log = (request,response) :: db.log ∧ Answered m request response m' ∧ Stands schema db' m' := by
  obtain ⟨frames,store,two,backs,pins,represents⟩ := stands
  obtain ⟨known,fitting,hasId⟩ := allowed
  have count : db.machine.pool.disk.numPages = store.numPages := backs.numPages
  obtain ⟨response,machine,t',m',driven,⟨backs',_⟩,answered,rests⟩ := heap_called slotNum backing_host (t := ⟨store,fun _ => False,idsLeft store⟩)
    ⟨backs,le_refl _⟩ ⟨pins,fun _ old => old,represents⟩ (two_left two) (idsLeft_of_hasId backs hasId)
    (show Known _ request by cases request <;> exact known) fitting
  refine ⟨{ db with machine, log := (request,response) :: db.log },response,m',?_,rfl,answered,stands_of_rests two backs' rests⟩
  rw [Database.next,count,driven]

/-- A restart forgets nothing. -/
theorem restart_stands {order : List PageId} {poolSize : Nat} (stands : Stands schema db m)
    (allowed : db.Allowed schema (.restart order poolSize replacer)) :
    ∃ db', db.next (.restart order poolSize replacer) = some db' ∧ db'.log = db.log ∧ Stands schema db' m := by
  obtain ⟨frames,store,_,backs,pins,represents⟩ := stands
  obtain ⟨visits,two,fresh⟩ := allowed
  obtain ⟨machine,data,ran,same,_,backs'⟩ := restart_backs backs visits fresh
  obtain rfl : data = store.data := funext (fun p => same p id)
  refine ⟨{ db with machine },by rw [Database.next,ran]; rfl,rfl,poolSize,{ store with pins := 0 },two,backs',rfl,?_⟩
  exact represents_keep represents backs'.wellFormed rfl

/-- What an event does to the map. -/
def Follows (db : Database) (m : Records) (event : Event) (db' : Database) (m' : Records) : Prop :=
  match event with
  | .call request _ => ∃ response, db'.log = (request,response) :: db.log ∧ Answered m request response m'
  | .restart _ _ _ => db'.log = db.log ∧ m' = m

theorem event_stands {event : Event} (stands : Stands schema db m) (allowed : db.Allowed schema event) :
    ∃ db' m', db.next event = some db' ∧ Follows db m event db' m' ∧ Stands schema db' m' := by
  cases event with
  | call request slotNum =>
    obtain ⟨db',response,m',moved,log,answered,stands'⟩ := call_stands stands allowed
    exact ⟨db',m',moved,⟨response,log,answered⟩,stands'⟩
  | restart order poolSize replacer =>
    obtain ⟨db',moved,log,stands'⟩ := restart_stands stands allowed
    exact ⟨db',m,moved,⟨log,rfl⟩,stands'⟩

/-- On a pool of two frames or more with either replacer, and over any number of restarts, a
    heap is a finite map that explains every answer it has given, and it always serves the
    next call. -/
theorem database_refines_map (two : 2 ≤ n) (fresh : Fresh n replacer) : ∃ db₀, Database.create n replacer = some db₀ ∧
    ∀ db, Runs Database.next (Database.Allowed schema) db₀ db → ∃ m, Explains db.log m ∧ {rid | m rid ≠ none}.Finite ∧
      ∀ event, db.Allowed schema event → ∃ db' m', db.next event = some db' ∧ Follows db m event db' m' := by
  obtain ⟨db₀,made,empty,stands₀⟩ := @create_stands schema _ _ two fresh
  refine ⟨db₀,made,fun db runs => ?_⟩
  obtain ⟨m,explains,stands⟩ : ∃ m, Explains db.log m ∧ Stands schema db m := by
    refine runs.served (fun db => ∃ m, Explains db.log m ∧ Stands schema db m) ⟨_,by rw [empty]; exact .start,stands₀⟩ ?_
    rintro db event ⟨m,explains,stands⟩ allowed
    obtain ⟨after,m',ran,follows,stands'⟩ := event_stands stands allowed
    refine ⟨after,ran,m',?_,stands'⟩
    cases event with
    | call request slotNum =>
      obtain ⟨response,log,answered⟩ := follows
      rw [log]
      exact .call explains answered
    | restart order poolSize replacer =>
      obtain ⟨log,rfl⟩ := follows
      rw [log]
      exact explains
  refine ⟨m,explains,?_,fun event allowed => ?_⟩
  · obtain ⟨_,store,_,_,_,represents⟩ := stands
    exact (returned (db.heap store)).toFinset.finite_toSet.subset (fun rid live => by simpa using represents.known rid live)
  · obtain ⟨db',m',moved,follows,_⟩ := event_stands stands allowed
    exact ⟨db',m',moved,follows⟩

/-- A pool of two frames with a clock. -/
theorem database_refines_map_clock : ∃ db₀, Database.create 2 (.clock (.create 2)) = some db₀ ∧
    ∀ db, Runs Database.next (Database.Allowed HeapMap.notes) db₀ db → ∃ m, Explains db.log m ∧ {rid | m rid ≠ none}.Finite ∧
      ∀ event, db.Allowed HeapMap.notes event → ∃ db' m', db.next event = some db' ∧ Follows db m event db' m' :=
  database_refines_map (le_refl 2) (.inr rfl)

end
end Aether.HeapOnPool
