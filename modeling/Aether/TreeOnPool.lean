import Aether.HostedClients
import Aether.PoolRestarts

/-!
The index on the whole stack: the code of the tree on the bytes of the frames of a
`BufferPoolManager` with either replacer over a `DiskManager`. With thirteen frames to
spare no page is refused, so the index is a finite map from keys to record identifiers,
with scans in the order of the keys, also when the file is closed and the tree is made
again from the id of its root.
-/
namespace Aether.TreeOnPool
open Aether.Programs Aether.Types Aether.DiskManager Aether.Replacers Aether.BufferPool Aether.BufferPoolFrames Aether.PageStore
open Aether.BPlusTree Aether.TreeModel Aether.TreePages Aether.TreeMap Aether.TreeHeight Aether.PoolClients Aether.PoolRestarts
open Aether.SpareFrames Aether.TreeBytes Aether.TreeDebts Aether.HostedClients Aether.Runs
open Aether.SortedLists (Sorted)
open Aether.LeafPage (Entry)
open Aether.TreeScan (scanAll)

/-- What a client has heard of the tree: the answer to a request, or the entries of a scan. -/
inductive Exchange
  | request (request : Request) (response : Response)
  | scan (entries : List Entry)

/-- A tree on a pool, with what its clients have heard, the last one first. -/
structure Database where
  machine : Machine
  root : PageId
  log : List Exchange

/-- An empty tree on a new database file. -/
def Database.create (poolSize : Nat) (replacer : Replacer) : Database :=
  { machine := { pool := .create poolSize .create replacer, pointer := fun _ => 0 }, root := INVALID_PAGE_ID, log := [] }

/-- A request, a scan from `Begin`, or a restart with another pool. -/
inductive Event
  | request (request : Request)
  | scan
  | restart (order : List PageId) (poolSize : Nat) (replacer : Replacer)

/-- No tree in a file has more than six levels, so the loops of the tree end after six rounds,
    and none has so many entries that a scan does not end. -/
def Database.next (db : Database) : Event → Option Database
  | .request request =>
    match Prog.run (drive treeFormat) (serve 6 db.root request) db.machine with
    | .error _ => none
    | .ok ((response,root),machine) => some { machine, root, log := .request request response :: db.log }
  | .scan =>
    match Prog.run (drive treeFormat) (scanAll 6 db.root 1099511627776) db.machine with
    | .error _ => none
    | .ok (entries,machine) => some { db with machine, log := .scan entries :: db.log }
  | .restart order poolSize replacer => (restart db.machine order poolSize replacer).map (fun machine => { db with machine })

/-- The key is a 64-bit integer, thirteen frames are without a pin, and the file can grow by
    seven pages; a scan needs one frame; a pool has a replacer of its size. -/
def Database.Allowed (db : Database) : Event → Prop
  | .request request => KeyFits request ∧ pinnedFrames db.machine.pool + 13 ≤ db.machine.pool.poolSize ∧
      db.machine.pool.disk.numPages.toNat + 7 ≤ 4294967295
  | .scan => pinnedFrames db.machine.pool + 1 ≤ db.machine.pool.poolSize
  | .restart order poolSize replacer => Visits db.machine.pool order ∧ Fresh poolSize replacer

/-- The map that the requests lead to. -/
def mapOf : List Exchange → Entries
  | [] => fun _ => none
  | .request request _ :: earlier => (respond (mapOf earlier) request).2
  | .scan _ :: earlier => mapOf earlier

/-- Every answer is the one of the map at that time, and a scan has all its entries, in the
    order of the keys. -/
def Faithful : List Exchange → Prop
  | [] => True
  | .request request response :: earlier => response = (respond (mapOf earlier) request).1 ∧ Faithful earlier
  | .scan entries :: earlier => (Sorted entries ∧ ∀ k v, (k,v) ∈ entries ↔ mapOf earlier k = some v) ∧ Faithful earlier

/-- The pool holds a tree with the entries of the map, and owes other pages only. -/
def Stands (db : Database) : Prop :=
  ∃ (frames : Nat) (store : Store BPlusTreePage) (owed : PageId → Prop) (F : Cells), Backs treeFormat frames db.machine store owed ∧
    TreeRests ⟨store,owed,idsLeft store⟩ db.root (mapOf db.log) F

section
variable {db : Database} {n : Nat} {replacer : Replacer} {root : PageId} {F : Cells}

theorem create_stands (fresh : Fresh n replacer) : Stands (Database.create n replacer) := by
  have wf := empty_wellFormed BPlusTreePage
  have backs : Backs treeFormat n (Database.create n replacer).machine (Store.empty BPlusTreePage) (fun _ => False) :=
    create_backs fresh FreeList.create_freeList DiskStore.create_header rfl wf rfl (fun p d stored => by cases stored) _
  obtain ⟨F,rests⟩ := tree_empty (t := ⟨_,_,idsLeft (Store.empty BPlusTreePage)⟩) wf (fun p old => old) (fun p d stored => backs.fits stored)
  exact ⟨n,_,_,F,backs,rests⟩

theorem stands_of_rests {frames : Nat} {machine : Machine} {t : Ledger BPlusTreePage} {log : List Exchange}
    (backs : Backs treeFormat frames machine t.store t.owed) (rests : TreeRests t root (mapOf log) F) : Stands { machine, root, log } :=
  ⟨frames,t.store,t.owed,F,backs,rests.represents,rests.beside,rests.held,rests.fits⟩

/-- A request on the pool is answered as by the map. -/
theorem request_stands {request : Request} (stands : Stands db) (allowed : db.Allowed (.request request)) :
    ∃ db', db.next (.request request) = some db' ∧
      db'.log = .request request (respond (mapOf db.log) request).1 :: db.log ∧ Stands db' := by
  obtain ⟨frames,store,owed,F,backs,rests⟩ := stands
  obtain ⟨fits,spare,ids⟩ := allowed
  have count : db.machine.pool.disk.numPages = store.numPages := backs.numPages
  have left : 7 ≤ idsLeft store := by
    rw [idsLeft,← count]
    omega
  obtain ⟨root,machine,t',F',driven,⟨backs',_⟩,rests'⟩ := tree_requested backing_host (t := ⟨store,owed,idsLeft store⟩)
    ⟨backs,le_refl _⟩ rests fits ((add_zero store.pins).symm ▸ spare_pins backs spare) left
  exact ⟨⟨machine,root,.request request _ :: db.log⟩,by rw [Database.next,driven],rfl,stands_of_rests backs' rests'⟩

/-- A scan on the pool finds the entries of the map, and leaves them there. -/
theorem scan_stands (stands : Stands db) (allowed : db.Allowed .scan) : ∃ db' entries, db.next .scan = some db' ∧
    db'.log = .scan entries :: db.log ∧ (Sorted entries ∧ ∀ k v, (k,v) ∈ entries ↔ mapOf db.log k = some v) ∧ Stands db' := by
  obtain ⟨frames,store,owed,F,backs,rests⟩ := stands
  obtain ⟨entries,machine,t',driven,⟨backs',_⟩,found,rests'⟩ := tree_scanned backing_host (t := ⟨store,owed,idsLeft store⟩)
    ⟨backs,le_refl _⟩ rests ((add_zero store.pins).symm ▸ spare_pins backs allowed)
  exact ⟨{ db with machine, log := .scan entries :: db.log },entries,by rw [Database.next,driven],rfl,found,stands_of_rests backs' rests'⟩

/-- A restart forgets nothing. -/
theorem restart_stands {order : List PageId} {poolSize : Nat} (stands : Stands db)
    (allowed : db.Allowed (.restart order poolSize replacer)) :
    ∃ db', db.next (.restart order poolSize replacer) = some db' ∧ db'.log = db.log ∧ Stands db' := by
  obtain ⟨frames,store,owed,F,backs,rests⟩ := stands
  obtain ⟨visits,fresh⟩ := allowed
  obtain ⟨machine,data,ran,same,kept,backs'⟩ := restart_backs backs visits fresh
  exact ⟨{ db with machine },by rw [Database.next,ran]; rfl,rfl,poolSize,_,_,forget F,backs',
    rests.forgets _ same kept backs'.wellFormed (fun p d stored => backs'.fits stored)⟩

theorem event_stands {event : Event} (stands : Stands db) (faithful : Faithful db.log) (allowed : db.Allowed event) :
    ∃ db', db.next event = some db' ∧ Stands db' ∧ Faithful db'.log := by
  cases event with
  | request request =>
    obtain ⟨db',moved,log,stands'⟩ := request_stands stands allowed
    exact ⟨db',moved,stands',by rw [log]; exact ⟨rfl,faithful⟩⟩
  | scan =>
    obtain ⟨db',entries,moved,log,found,stands'⟩ := scan_stands stands allowed
    exact ⟨db',moved,stands',by rw [log]; exact ⟨found,faithful⟩⟩
  | restart order poolSize replacer =>
    obtain ⟨db',moved,log,stands'⟩ := restart_stands stands allowed
    exact ⟨db',moved,stands',by rw [log]; exact faithful⟩

/-- On a pool with either replacer and over any number of restarts the tree is a finite map:
    every answer is that of the map, every scan has all its entries in the order of the keys,
    and where thirteen frames are without a pin and the file can grow, the next request is
    served. -/
theorem tree_database_refines_map (fresh : Fresh n replacer) :
    ∀ db, Runs Database.next Database.Allowed (Database.create n replacer) db → Faithful db.log ∧
      ∀ event, db.Allowed event → ∃ db', db.next event = some db' ∧ Faithful db'.log := by
  intro db runs
  obtain ⟨stands,faithful⟩ := runs.served (fun db => Stands db ∧ Faithful db.log) ⟨create_stands fresh,trivial⟩
    (fun here allowed => event_stands here.1 here.2 allowed)
  refine ⟨faithful,fun event allowed => ?_⟩
  obtain ⟨db',moved,_,faithful'⟩ := event_stands stands faithful allowed
  exact ⟨db',moved,faithful'⟩

/-- A pool of twenty frames with a list of the least recently used ones, after an insertion. -/
theorem tree_database_refines_map_lru : ∃ db response, Runs Database.next Database.Allowed (Database.create 20 (.lru (.create 20))) db ∧
    db.log = [.request (.insert 5 { pageId := 7 }) response] ∧ Faithful db.log ∧
      ∀ event, db.Allowed event → ∃ db', db.next event = some db' ∧ Faithful db'.log := by
  have serves := @tree_database_refines_map 20 (.lru (.create 20)) (.inl rfl)
  have allowed : (Database.create 20 (.lru (.create 20))).Allowed (.request (.insert 5 { pageId := 7 })) := by
    refine ⟨by simp only [KeyFits]; decide,?_,?_⟩ <;> decide
  obtain ⟨db,moved,_⟩ := (serves _ .refl).2 _ allowed
  have runs := Runs.refl.step allowed moved
  rw [Database.next] at moved
  split at moved
  · cases moved
  · cases moved
    exact ⟨_,_,runs,rfl,serves _ runs⟩

end
end Aether.TreeOnPool
