import Aether.Databases

/-!
The table catalog, which knows for the name of a table its schema, the first page of its
heap and the root of its index. A client that looks these up for every call, and tells
the catalog the new root after every request to an index, has for each name a heap and
an index that stand for maps of their own.
-/
namespace Aether.Catalog
open Aether.Programs Aether.Types Aether.Replacers Aether.BufferPool Aether.BufferPoolFrames Aether.PageStore Aether.PoolClients
open Aether.PoolRestarts Aether.SpareFrames Aether.Runs
open Aether.Tuples (Schema)
open Aether.TreeBytes (treeFormat)
open Aether.TreeOnPool (Exchange Faithful)
open Aether.HeapOnPool (HasId)
open Aether.HeapMap (Explains Records)
open Aether.Databases (Table Stands createHeap_stands createIndex_stands call_stands request_stands scan_stands restart_stands)

structure TableMetadata where
  name : String
  schema : Schema
  firstPageId : PageId
  indexRootId : PageId

/-- Every table is under its own name. -/
def Named (tables : String → Option TableMetadata) : Prop := ∀ name entry, tables name = some entry → entry.name = name

theorem named_update {tables : String → Option TableMetadata} {entry : TableMetadata} {name : String} (named : Named tables)
    (own : entry.name = name) : Named (Function.update tables name (some entry)) := by
  intro other entry' found
  by_cases same : other = name
  · subst same
    rw [Function.update_self] at found
    cases found
    exact own
  · rw [Function.update_of_ne same] at found
    exact named other entry' found

/-- The map `tables_`. -/
structure TableCatalog where
  tables : String → Option TableMetadata
  named : Named tables

namespace TableCatalog

def create : TableCatalog := { tables := fun _ => none, named := fun _ _ missing => by cases missing }

/-- A table of the same name is forgotten. -/
def createTable (catalog : TableCatalog) (name : String) (schema : Schema) (firstPageId indexRootId : PageId) : TableCatalog where
  tables := Function.update catalog.tables name (some { name, schema, firstPageId, indexRootId })
  named := named_update catalog.named rfl

def getTableMetadata (catalog : TableCatalog) (name : String) : Option TableMetadata := catalog.tables name

def updateIndexRoot (catalog : TableCatalog) (name : String) (newRoot : PageId) : TableCatalog :=
  match found : catalog.tables name with
  | none => catalog
  | some entry =>
    { tables := Function.update catalog.tables name (some { entry with indexRootId := newRoot })
      named := named_update catalog.named (catalog.named name entry found) }

end TableCatalog

/-! ### Tables by their names -/

/-- A pool and a catalog, with what the clients have heard of each heap and index, the last
    one first. -/
structure Database where
  machine : Machine
  catalog : TableCatalog
  heapLog : String → List (TableHeap.Request × TableHeap.Response)
  indexLog : String → List Exchange

def Database.create (poolSize : Nat) (replacer : Replacer) : Database where
  machine := { pool := .create poolSize .create replacer, pointer := fun _ => 0 }
  catalog := .create
  heapLog := fun _ => []
  indexLog := fun _ => []

inductive Event
  | createTable (name : String) (schema : Schema)
  | call (name : String) (request : TableHeap.Request) (slotNum : UInt32)
  | request (name : String) (request : TreeMap.Request)
  | scan (name : String)
  | restart (order : List PageId) (poolSize : Nat) (replacer : Replacer)

/-- A heap and an index are made from the ids of the catalog for each call, and an index
    of a new table has no root yet. The catalog is in memory, and outlives the pool. -/
def Database.next (db : Database) : Event → Option Database
  | .createTable name schema =>
    match Prog.run (drive rawFormat) TableHeap.create db.machine with
    | .error _ => none
    | .ok (firstPageId,machine) =>
      some ⟨machine,db.catalog.createTable name schema firstPageId INVALID_PAGE_ID,Function.update db.heapLog name [],
        Function.update db.indexLog name []⟩
  | .call name request slotNum =>
    match db.catalog.getTableMetadata name with
    | none => none
    | some entry =>
      match Prog.run (drive rawFormat) (TableHeap.serve 4294967295 entry.firstPageId slotNum request) db.machine with
      | .error _ => none
      | .ok (response,machine) =>
        some { db with machine, heapLog := Function.update db.heapLog name ((request,response) :: db.heapLog name) }
  | .request name request =>
    match db.catalog.getTableMetadata name with
    | none => none
    | some entry =>
      match Prog.run (drive treeFormat) (TreeMap.serve 6 entry.indexRootId request) db.machine with
      | .error _ => none
      | .ok ((response,root),machine) =>
        some ⟨machine,db.catalog.updateIndexRoot name root,db.heapLog,
          Function.update db.indexLog name (.request request response :: db.indexLog name)⟩
  | .scan name =>
    match db.catalog.getTableMetadata name with
    | none => none
    | some entry =>
      match Prog.run (drive treeFormat) (TreeScan.scanAll 6 entry.indexRootId 1099511627776) db.machine with
      | .error _ => none
      | .ok (entries,machine) => some { db with machine, indexLog := Function.update db.indexLog name (.scan entries :: db.indexLog name) }
  | .restart order poolSize replacer => (restart db.machine order poolSize replacer).map (fun machine => { db with machine })

/-- The name is that of a table; a heap is asked for a record identifier that it has returned,
    with a tuple that fits, an index for a 64-bit integer; so many frames are without a pin, and
    the file can grow. -/
def Database.Allowed (db : Database) : Event → Prop
  | .createTable _ _ => pinnedFrames db.machine.pool + 2 ≤ db.machine.pool.poolSize ∧ HasId db.machine.pool.disk
  | .call name request _ => (∃ entry, db.catalog.getTableMetadata name = some entry ∧
        TableHeap.Known { store := .empty _, firstPageId := entry.firstPageId, log := db.heapLog name } request ∧
        HeapMap.Fitting entry.schema request) ∧
      pinnedFrames db.machine.pool + 2 ≤ db.machine.pool.poolSize ∧ HasId db.machine.pool.disk
  | .request name request => (∃ entry, db.catalog.getTableMetadata name = some entry) ∧ TreeDebts.KeyFits request ∧
      pinnedFrames db.machine.pool + 13 ≤ db.machine.pool.poolSize ∧ db.machine.pool.disk.numPages.toNat + 7 ≤ 4294967295
  | .scan name => (∃ entry, db.catalog.getTableMetadata name = some entry) ∧ pinnedFrames db.machine.pool + 1 ≤ db.machine.pool.poolSize
  | .restart order poolSize replacer => Visits db.machine.pool order ∧ Fresh poolSize replacer

/-- For each table of the catalog a finite map explains what its clients have heard of the
    heap, and the answers of the index are those of a map. -/
def Database.Truthful (db : Database) : Prop :=
  ∀ name entry, db.catalog.getTableMetadata name = some entry →
    (∃ map : Records, Explains (db.heapLog name) map ∧ {rid | map rid ≠ none}.Finite) ∧ Faithful (db.indexLog name)

/-! ### What the catalog says after a call -/

section
variable {catalog : TableCatalog} {name other : String} {entry entry' : TableMetadata} {schema : Schema} {first root : PageId}

theorem getTableMetadata_createTable :
    (catalog.createTable name schema first root).getTableMetadata name = some ⟨name,schema,first,root⟩ := by
  have updated : Function.update catalog.tables name (some ⟨name,schema,first,root⟩) name = some ⟨name,schema,first,root⟩ :=
    Function.update_self ..
  exact updated

theorem found_createTable (found : (catalog.createTable name schema first root).tables other = some entry) :
    other = name ∧ entry = ⟨name,schema,first,root⟩ ∨ other ≠ name ∧ catalog.tables other = some entry := by
  have found : Function.update catalog.tables name (some ⟨name,schema,first,root⟩) other = some entry := found
  by_cases same : other = name
  · subst same
    rw [Function.update_self] at found
    cases found
    exact .inl ⟨rfl,rfl⟩
  · rw [Function.update_of_ne same] at found
    exact .inr ⟨same,found⟩

/-- Only the root of this table changes. -/
theorem found_updateIndexRoot (found : (catalog.updateIndexRoot name root).tables other = some entry') :
    ∃ entry, catalog.tables other = some entry ∧ entry'.schema = entry.schema ∧ entry'.firstPageId = entry.firstPageId ∧
      entry'.indexRootId = if other = name then root else entry.indexRootId := by
  rw [TableCatalog.updateIndexRoot] at found
  split at found
  · rename_i missing
    have differs : other ≠ name := by
      rintro rfl
      rw [missing] at found
      cases found
    exact ⟨entry',found,rfl,rfl,(if_neg differs).symm⟩
  · rename_i entry there
    have found : Function.update catalog.tables name (some { entry with indexRootId := root }) other = some entry' := found
    by_cases same : other = name
    · subst same
      rw [Function.update_self] at found
      cases found
      exact ⟨entry,there,rfl,rfl,(if_pos rfl).symm⟩
    · rw [Function.update_of_ne same] at found
      exact ⟨entry',found,rfl,rfl,(if_neg same).symm⟩

end

/-! ### The tables behind the catalog -/

/-- Different names have different places. -/
def Apart (catalog : TableCatalog) (place : String → Nat) : Prop :=
  ∀ {name other entry entry'}, catalog.getTableMetadata name = some entry → catalog.getTableMetadata other = some entry' →
    place name = place other → name = other

/-- Where the heap and the index of each name are among the tables on the pool. -/
structure Routed (db : Database) (tables : List Table) (heapAt indexAt : String → Nat) : Prop where
  heap : ∀ {name entry}, db.catalog.getTableMetadata name = some entry →
    tables[heapAt name]? = some (.heap entry.schema entry.firstPageId (db.heapLog name))
  index : ∀ {name entry}, db.catalog.getTableMetadata name = some entry →
    tables[indexAt name]? = some (.index entry.indexRootId (db.indexLog name))
  heapApart : Apart db.catalog heapAt
  indexApart : Apart db.catalog indexAt

def Routes (db : Database) : Prop := ∃ tables heapAt indexAt, Stands ⟨db.machine,tables⟩ ∧ Routed db tables heapAt indexAt

section
variable {db : Database} {tables : List Table} {heapAt indexAt place : String → Nat} {catalog : TableCatalog} {machine : Machine}
variable {name other : String} {entry entry' : TableMetadata} {schema : Schema} {first root : PageId} {i j n : Nat} {table old : Table}
variable {replacer : Replacer}

theorem set_self (there : tables[i]? = some old) : (tables.set i table)[i]? = some table :=
  List.getElem?_set_self (List.getElem?_eq_some_iff.mp there).1

theorem set_other (there : tables[j]? = some old) (apart : j ≠ i) : (tables.set i table)[j]? = some old := by
  rw [List.getElem?_set_ne apart.symm]
  exact there

theorem apart_created (apart : Apart catalog place) (low : ∀ {name entry}, catalog.getTableMetadata name = some entry → place name < n) :
    Apart (catalog.createTable name schema first root) (Function.update place name n) := by
  intro one other entry entry' found found' same
  rcases found_createTable found with ⟨new,_⟩ | ⟨different,before⟩
  · rcases found_createTable found' with ⟨new',_⟩ | ⟨different',before'⟩
    · exact new.trans new'.symm
    · rw [new,Function.update_self,Function.update_of_ne different'] at same
      exact absurd same (low before').ne'
  · rcases found_createTable found' with ⟨new',_⟩ | ⟨different',before'⟩
    · rw [new',Function.update_self,Function.update_of_ne different] at same
      exact absurd same (low before).ne
    · rw [Function.update_of_ne different,Function.update_of_ne different'] at same
      exact apart before before' same

theorem Routed.heap_ne_index (routed : Routed db tables heapAt indexAt) (found : db.catalog.getTableMetadata name = some entry)
    (found' : db.catalog.getTableMetadata other = some entry') : heapAt name ≠ indexAt other := by
  intro same
  have heap := routed.heap found
  rw [same,routed.index found'] at heap
  cases heap

/-- A new table has its heap and its index behind the tables that are there. -/
theorem Routed.created (routed : Routed db tables heapAt indexAt) :
    Routed ⟨machine,db.catalog.createTable name schema first INVALID_PAGE_ID,Function.update db.heapLog name [],
        Function.update db.indexLog name []⟩
      ((tables ++ [.heap schema first []]) ++ [.index INVALID_PAGE_ID []])
      (Function.update heapAt name tables.length) (Function.update indexAt name (tables.length + 1)) := by
  have kept : ∀ {j : Nat} {old : Table}, tables[j]? = some old →
      ((tables ++ [.heap schema first []]) ++ [.index INVALID_PAGE_ID []])[j]? = some old := by
    intro j old there
    rw [List.append_assoc,List.getElem?_append_left (List.getElem?_eq_some_iff.mp there).1]
    exact there
  have low : ∀ {j : Nat} {old : Table}, tables[j]? = some old → j < tables.length := fun there => (List.getElem?_eq_some_iff.mp there).1
  constructor
  · intro other entry found
    rcases found_createTable found with ⟨rfl,rfl⟩ | ⟨different,found⟩
    · simp
    · simp only [Function.update_of_ne different]
      exact kept (routed.heap found)
  · intro other entry found
    rcases found_createTable found with ⟨rfl,rfl⟩ | ⟨different,found⟩
    · simp
    · simp only [Function.update_of_ne different]
      exact kept (routed.index found)
  · exact apart_created routed.heapApart (fun found => low (routed.heap found))
  · exact apart_created routed.indexApart (fun found => Nat.lt_succ_of_lt (low (routed.index found)))

/-- A call on a heap. -/
theorem Routed.called {log : List (TableHeap.Request × TableHeap.Response)} (routed : Routed db tables heapAt indexAt)
    (found : db.catalog.getTableMetadata name = some entry) : Routed { db with machine, heapLog := Function.update db.heapLog name log }
      (tables.set (heapAt name) (.heap entry.schema entry.firstPageId log)) heapAt indexAt := by
  constructor
  · intro other entry' found'
    by_cases same : other = name
    · subst same
      rw [found] at found'
      cases found'
      simp only [Function.update_self]
      exact set_self (routed.heap found)
    · simp only [Function.update_of_ne same]
      exact set_other (routed.heap found') (fun equal => same (routed.heapApart found' found equal))
  · intro other entry' found'
    exact set_other (routed.index found') (routed.heap_ne_index found found').symm
  · exact routed.heapApart
  · exact routed.indexApart

/-- A request to an index or a scan of it, after which the catalog has its new root. -/
theorem Routed.indexed {log : List Exchange} (routed : Routed db tables heapAt indexAt) (found : db.catalog.getTableMetadata name = some entry)
    (knows : ∀ {other entry'}, catalog.getTableMetadata other = some entry' → ∃ entry, db.catalog.getTableMetadata other = some entry ∧
      entry'.schema = entry.schema ∧ entry'.firstPageId = entry.firstPageId ∧
      entry'.indexRootId = if other = name then root else entry.indexRootId) :
    Routed ⟨machine,catalog,db.heapLog,Function.update db.indexLog name log⟩ (tables.set (indexAt name) (.index root log))
      heapAt indexAt := by
  constructor
  · intro other entry' found'
    obtain ⟨before,there,sameSchema,sameFirst,_⟩ := knows found'
    rw [sameSchema,sameFirst]
    exact set_other (routed.heap there) (routed.heap_ne_index there found)
  · intro other entry' found'
    obtain ⟨before,there,_,_,newRoot⟩ := knows found'
    rw [newRoot]
    by_cases same : other = name
    · subst same
      simp only [Function.update_self,if_true]
      exact set_self (routed.index found)
    · simp only [Function.update_of_ne same,if_neg same]
      exact set_other (routed.index there) (fun equal => same (routed.indexApart there found equal))
  · intro one other entry entry' here there
    obtain ⟨_,here,_⟩ := knows here
    obtain ⟨_,there,_⟩ := knows there
    exact routed.heapApart here there
  · intro one other entry entry' here there
    obtain ⟨_,here,_⟩ := knows here
    obtain ⟨_,there,_⟩ := knows there
    exact routed.indexApart here there

theorem Routes.truthful (routes : Routes db) : db.Truthful := by
  intro name entry found
  obtain ⟨tables,heapAt,indexAt,stands,routed⟩ := routes
  exact ⟨stands.truthful _ (List.mem_of_getElem? (routed.heap found)),stands.truthful _ (List.mem_of_getElem? (routed.index found))⟩

/-! ### Events -/

theorem create_routes (fresh : Fresh n replacer) : Routes (Database.create n replacer) := by
  refine ⟨[],fun _ => 0,fun _ => 0,Databases.create_stands fresh,?_⟩
  constructor
  · intro name entry missing
    cases missing
  · intro name entry missing
    cases missing
  · intro name other entry entry' missing
    cases missing
  · intro name other entry entry' missing
    cases missing

theorem createTable_routes (routes : Routes db) (allowed : db.Allowed (.createTable name schema)) :
    ∃ db', db.next (.createTable name schema) = some db' ∧ Routes db' := by
  obtain ⟨tables,heapAt,indexAt,stands,routed⟩ := routes
  obtain ⟨after,moved,stands'⟩ := @createHeap_stands ⟨db.machine,tables⟩ schema stands allowed
  simp only [Databases.Database.next] at moved
  split at moved
  · cases moved
  · rename_i firstPageId machine ran
    cases moved
    obtain ⟨after,moved,stands⟩ := createIndex_stands stands'
    cases moved
    refine ⟨⟨machine,db.catalog.createTable name schema firstPageId INVALID_PAGE_ID,Function.update db.heapLog name [],
      Function.update db.indexLog name []⟩,by simp only [Database.next,ran],_,_,_,stands,routed.created⟩

theorem call_routes {request : TableHeap.Request} {slotNum : UInt32} (routes : Routes db) (allowed : db.Allowed (.call name request slotNum)) :
    ∃ db', db.next (.call name request slotNum) = some db' ∧ Routes db' := by
  obtain ⟨tables,heapAt,indexAt,stands,routed⟩ := routes
  obtain ⟨⟨entry,found,known,fitting⟩,spare,hasId⟩ := allowed
  have there := routed.heap found
  obtain ⟨after,moved,stands'⟩ := @call_stands (heapAt name) ⟨db.machine,tables⟩ request slotNum stands
    ⟨⟨_,_,_,there,known,fitting⟩,spare,hasId⟩
  simp only [Databases.Database.next,there] at moved
  split at moved
  · cases moved
  · rename_i response machine ran
    cases moved
    exact ⟨_,by simp only [Database.next,found,ran],_,_,_,stands',routed.called found⟩

theorem request_routes {request : TreeMap.Request} (routes : Routes db) (allowed : db.Allowed (.request name request)) :
    ∃ db', db.next (.request name request) = some db' ∧ Routes db' := by
  obtain ⟨tables,heapAt,indexAt,stands,routed⟩ := routes
  obtain ⟨⟨entry,found⟩,fits,spare,room⟩ := allowed
  have there := routed.index found
  obtain ⟨after,moved,stands'⟩ := @request_stands (indexAt name) ⟨db.machine,tables⟩ request stands ⟨⟨_,_,there⟩,fits,spare,room⟩
  simp only [Databases.Database.next,there] at moved
  split at moved
  · cases moved
  · rename_i response root machine ran
    cases moved
    exact ⟨_,by simp only [Database.next,found,ran],_,_,_,stands',routed.indexed found found_updateIndexRoot⟩

theorem scan_routes (routes : Routes db) (allowed : db.Allowed (.scan name)) : ∃ db', db.next (.scan name) = some db' ∧ Routes db' := by
  obtain ⟨tables,heapAt,indexAt,stands,routed⟩ := routes
  obtain ⟨⟨entry,found⟩,spare⟩ := allowed
  have there := routed.index found
  obtain ⟨after,moved,stands'⟩ := @scan_stands (indexAt name) ⟨db.machine,tables⟩ stands ⟨⟨_,_,there⟩,spare⟩
  simp only [Databases.Database.next,there] at moved
  split at moved
  · cases moved
  · rename_i entries machine ran
    cases moved
    refine ⟨⟨machine,db.catalog,db.heapLog,Function.update db.indexLog name (.scan entries :: db.indexLog name)⟩,
      by simp only [Database.next,found,ran],_,_,_,stands',routed.indexed found ?_⟩
    -- a scan leaves the root as it was
    intro other entry' found'
    refine ⟨entry',found',rfl,rfl,?_⟩
    by_cases same : other = name
    · subst same
      rw [found] at found'
      cases found'
      exact (if_pos rfl).symm
    · exact (if_neg same).symm

theorem restart_routes {order : List PageId} {poolSize : Nat} (routes : Routes db)
    (allowed : db.Allowed (.restart order poolSize replacer)) :
    ∃ db', db.next (.restart order poolSize replacer) = some db' ∧ Routes db' := by
  obtain ⟨tables,heapAt,indexAt,stands,routed⟩ := routes
  obtain ⟨after,moved,stands'⟩ := @restart_stands ⟨db.machine,tables⟩ replacer order poolSize stands allowed
  obtain ⟨machine,ran,rfl⟩ := Option.map_eq_some_iff.mp moved
  exact ⟨{ db with machine },by rw [Database.next,ran]; rfl,tables,heapAt,indexAt,stands',
    ⟨routed.heap,routed.index,routed.heapApart,routed.indexApart⟩⟩

theorem event_routes {event : Event} (routes : Routes db) (allowed : db.Allowed event) : ∃ db', db.next event = some db' ∧ Routes db' := by
  cases event with
  | createTable name schema => exact createTable_routes routes allowed
  | call name request slotNum => exact call_routes routes allowed
  | request name request => exact request_routes routes allowed
  | scan name => exact scan_routes routes allowed
  | restart order poolSize replacer => exact restart_routes routes allowed

/-- Whatever tables are created, and however the calls on them follow each other, each name of
    the catalog leads to a heap and an index that are finite maps of their own, also over
    restarts of the pool. -/
theorem catalog_refines_maps (fresh : Fresh n replacer) :
    ∀ db, Runs Database.next Database.Allowed (Database.create n replacer) db → db.Truthful ∧
      ∀ event, db.Allowed event → ∃ db', db.next event = some db' ∧ db'.Truthful := by
  intro db runs
  have routes : Routes db := runs.served Routes (create_routes fresh) event_routes
  refine ⟨routes.truthful,fun event allowed => ?_⟩
  obtain ⟨db',moved,routes'⟩ := event_routes routes allowed
  exact ⟨db',moved,routes'.truthful⟩

/-- A table of users on a pool of twenty frames. -/
theorem catalog_refines_maps_users : ∃ db first, Runs Database.next Database.Allowed (Database.create 20 (.lru (.create 20))) db ∧
    db.catalog.getTableMetadata "users" = some ⟨"users",HeapMap.notes,first,INVALID_PAGE_ID⟩ ∧ db.Truthful ∧
      ∀ event, db.Allowed event → ∃ db', db.next event = some db' ∧ db'.Truthful := by
  have serves := @catalog_refines_maps 20 (.lru (.create 20)) (.inl rfl)
  have allowed : (Database.create 20 (.lru (.create 20))).Allowed (.createTable "users" HeapMap.notes) := by
    refine ⟨by decide,.inr ?_⟩
    decide
  obtain ⟨db,moved,_⟩ := (serves _ .refl).2 _ allowed
  have runs := Runs.refl.step allowed moved
  rw [Database.next] at moved
  split at moved
  · cases moved
  · rename_i firstPageId machine ran
    cases moved
    exact ⟨_,firstPageId,runs,getTableMetadata_createTable,serves _ runs⟩

end
end Aether.Catalog
