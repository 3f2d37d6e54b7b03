import Aether.HeapOnPool
import Aether.Tenants
import Aether.TreeOnPool

/-!
Databases: any number of heaps and indexes on one pool, created and used in any order.
Their pages lie mixed in one file and take turns in the same frames. Every page belongs
to the table that asked for it, so each table rests on a store of its own, and a call on
one table finds the others as they were.
-/
namespace Aether.Databases
open Aether.Programs Aether.Types Aether.DiskManager Aether.Replacers Aether.BufferPool Aether.BufferPoolFrames Aether.PageStore
open Aether.PoolClients Aether.PoolRestarts Aether.SpareFrames Aether.HostedClients Aether.Tenants Aether.Runs
open Aether.Tuples (Schema)
open Aether.TreeBytes (treeFormat)
open Aether.TreeOnPool (Exchange mapOf Faithful)
open Aether.HeapOnPool (HasId idsLeft_of_hasId)
open Aether.HeapMap (Explains Records)

/-- A heap or an index, with what its clients have heard, the last one first. -/
inductive Table
  | heap (schema : Schema) (firstPageId : PageId) (log : List (TableHeap.Request × TableHeap.Response))
  | index (root : PageId) (log : List Exchange)

/-- Tables on a pool. -/
structure Database where
  machine : Machine
  tables : List Table

/-- A new database file without tables. -/
def Database.create (poolSize : Nat) (replacer : Replacer) : Database :=
  { machine := { pool := .create poolSize .create replacer, pointer := fun _ => 0 }, tables := [] }

/-- A new table, a call on a heap, a request to an index or a scan of it, or a restart with
    another pool. -/
inductive Event
  | createHeap (schema : Schema)
  | createIndex
  | call (i : Nat) (request : TableHeap.Request) (slotNum : UInt32)
  | request (i : Nat) (request : TreeMap.Request)
  | scan (i : Nat)
  | restart (order : List PageId) (poolSize : Nat) (replacer : Replacer)

/-- A file has fewer pages than the walk along the chain of a heap has rounds. -/
def Database.next (db : Database) : Event → Option Database
  | .createHeap schema =>
    match Prog.run (drive rawFormat) TableHeap.create db.machine with
    | .error _ => none
    | .ok (firstPageId,machine) => some { machine, tables := db.tables ++ [.heap schema firstPageId []] }
  | .createIndex => some { db with tables := db.tables ++ [.index INVALID_PAGE_ID []] }
  | .call i request slotNum =>
    match db.tables[i]? with
    | some (.heap schema firstPageId log) =>
      match Prog.run (drive rawFormat) (TableHeap.serve 4294967295 firstPageId slotNum request) db.machine with
      | .error _ => none
      | .ok (response,machine) => some { machine, tables := db.tables.set i (.heap schema firstPageId ((request,response) :: log)) }
    | _ => none
  | .request i request =>
    match db.tables[i]? with
    | some (.index root log) =>
      match Prog.run (drive treeFormat) (TreeMap.serve 6 root request) db.machine with
      | .error _ => none
      | .ok ((response,root),machine) => some { machine, tables := db.tables.set i (.index root (.request request response :: log)) }
    | _ => none
  | .scan i =>
    match db.tables[i]? with
    | some (.index root log) =>
      match Prog.run (drive treeFormat) (TreeScan.scanAll 6 root 1099511627776) db.machine with
      | .error _ => none
      | .ok (entries,machine) => some { machine, tables := db.tables.set i (.index root (.scan entries :: log)) }
    | _ => none
  | .restart order poolSize replacer => (restart db.machine order poolSize replacer).map (fun machine => { db with machine })

/-- A heap is asked for a record identifier that it has returned, with a tuple that fits, an
    index for a 64-bit integer; so many frames are without a pin, and the file can grow. -/
def Database.Allowed (db : Database) : Event → Prop
  | .createHeap _ => pinnedFrames db.machine.pool + 2 ≤ db.machine.pool.poolSize ∧ HasId db.machine.pool.disk
  | .createIndex => True
  | .call i request _ => (∃ schema firstPageId log, db.tables[i]? = some (.heap schema firstPageId log) ∧
        TableHeap.Known { store := .empty _, firstPageId, log } request ∧ HeapMap.Fitting schema request) ∧
      pinnedFrames db.machine.pool + 2 ≤ db.machine.pool.poolSize ∧ HasId db.machine.pool.disk
  | .request i request => (∃ root log, db.tables[i]? = some (.index root log)) ∧ TreeDebts.KeyFits request ∧
      pinnedFrames db.machine.pool + 13 ≤ db.machine.pool.poolSize ∧ db.machine.pool.disk.numPages.toNat + 7 ≤ 4294967295
  | .scan i => (∃ root log, db.tables[i]? = some (.index root log)) ∧ pinnedFrames db.machine.pool + 1 ≤ db.machine.pool.poolSize
  | .restart order poolSize replacer => Visits db.machine.pool order ∧ Fresh poolSize replacer

/-- A finite map explains all that the clients of the table have heard. -/
def Table.Truthful : Table → Prop
  | .heap _ _ log => ∃ map : Records, Explains log map ∧ {rid | map rid ≠ none}.Finite
  | .index _ log => Faithful log

/-! ### The pages of a table -/

theorem finite_pages (pages : Set PageId) : pages.Finite := by
  have : Finite PageId := Finite.of_injective UInt32.toFin (fun _ _ => UInt32.toFin_inj.mp)
  exact Set.toFinite pages

/-- The pages of the other tables. -/
noncomputable def others (s : Store PageData) (owner : PageId → Nat) (i : Nat) : List PageId :=
  (finite_pages {p | s.data p ≠ none ∧ owner p ≠ i}).toFinset.toList

/-- The account of a table, which knows its own pages. -/
noncomputable def account {D : Type} (format : Format D) (s : Store PageData) (owed : PageId → Prop) (owner : PageId → Nat) (i : Nat) :
    Ledger D where
  store := part format (others s owner i) s
  owed := fun p => owed p ∧ owner p = i
  ids := idsLeft s

/-- What the table finds beside its pages. -/
noncomputable def beside (s : Store PageData) (owed : PageId → Prop) (owner : PageId → Nat) (i : Nat) : Rest where
  others := others s owner i
  bytes := s.data
  pins := s.pins.filter (fun p => p ∈ others s owner i)
  due := fun p => owed p ∧ owner p ≠ i

/-- New pages belong to the table that asked for them. -/
noncomputable def newOwner (s : Store PageData) (owner : PageId → Nat) (i : Nat) (p : PageId) : Nat :=
  if p ∈ others s owner i then owner p else i

/-- The second account has the pages and pins of the first, and owes no more. -/
structure Alike {D : Type} (t t' : Ledger D) : Prop where
  data : t'.store.data = t.store.data
  pins : t'.store.pins = t.store.pins
  owed : ∀ p, t'.owed p → t.owed p

section
variable {D E : Type} {format : Format D} {frames i j : Nat} {m m' : Machine} {s s' : Store PageData} {owed : PageId → Prop}
variable {owner : PageId → Nat} {p : PageId} {d : D} {t' : Ledger D}

theorem mem_others : p ∈ others s owner i ↔ s.data p ≠ none ∧ owner p ≠ i := by
  simp [others]

theorem shares_others : Shares (others s owner i) s := ⟨Finset.nodup_toList _,fun _ theirs => (mem_others.mp theirs).1⟩

theorem account_data : (account format s owed owner i).store.data p = if owner p = i then (s.data p).map format.view else none := by
  by_cases mine : owner p = i
  · rw [if_pos mine]
    exact part_data (fun theirs => (mem_others.mp theirs).2 mine)
  · rw [if_neg mine]
    by_cases stored : s.data p = none
    · have apart : p ∉ others s owner i := fun theirs => (mem_others.mp theirs).1 stored
      exact (part_data apart).trans (by rw [stored]; rfl)
    · exact part_data_none (mem_others.mpr ⟨stored,mine⟩)

theorem account_pins (wf : WellFormed s) : (account format s owed owner i).store.pins = s.pins.filter (fun p => owner p = i) := by
  refine Multiset.filter_congr (fun p pinned => ?_)
  have stored := wf.pinned p pinned
  rw [mem_others]
  tauto

theorem account_wellFormed (wf : WellFormed s) : WellFormed (account format s owed owner i).store := part_wellFormed shares_others wf

theorem account_fits (stored : (account format s owed owner i).store.data p = some d) : format.Fits d := by
  rw [account_data] at stored
  split at stored
  · obtain ⟨bytes,_,rfl⟩ := Option.map_eq_some_iff.mp stored
    exact format.fits_view bytes
  · cases stored

/-- Every table lodges on the pool beside the others. -/
theorem lodges_account (backs : Backs rawFormat frames m s owed) :
    Lodges format frames (beside s owed owner i) m (account format s owed owner i) s := by
  have debts : (fun p => owed p ∧ owner p = i ∨ owed p ∧ owner p ≠ i) = owed := funext (fun p => propext (by tauto))
  refine ⟨?_,le_refl _,rfl,shares_others,fun _ _ => rfl,rfl,fun p old => ?_,fun p old theirs => (mem_others.mp theirs).2 old.2⟩
  · show Backs rawFormat frames m s (fun p => owed p ∧ owner p = i ∨ owed p ∧ owner p ≠ i)
    rw [debts]
    exact backs
  · exact mem_others.mpr ⟨backs.wellFormed.pinned p (backs.held p old.1),old.2⟩

/-! ### After a call -/

theorem newOwner_mine : newOwner s owner i p = i ↔ p ∉ others s owner i := by
  by_cases theirs : p ∈ others s owner i
  · rw [newOwner,if_pos theirs]
    exact iff_of_false (mem_others.mp theirs).2 (not_not.mpr theirs)
  · rw [newOwner,if_neg theirs]
    exact iff_of_true rfl theirs

theorem newOwner_other (different : j ≠ i) : newOwner s owner i p = j ↔ p ∈ others s owner i ∧ owner p = j := by
  by_cases theirs : p ∈ others s owner i
  · rw [newOwner,if_pos theirs]
    exact (and_iff_right theirs).symm
  · rw [newOwner,if_neg theirs]
    exact iff_of_false different.symm (fun both => theirs both.1)

/-- What is owed after the call of a table. -/
def debts (t' : Ledger D) (s : Store PageData) (owed : PageId → Prop) (owner : PageId → Nat) (i : Nat) : PageId → Prop :=
  fun p => t'.owed p ∨ (beside s owed owner i).due p

/-- The table that called has the account that the call led to. -/
theorem alike_mine (lodges : Lodges format frames (beside s owed owner i) m' t' s') :
    Alike t' (account format s' (debts t' s owed owner i) (newOwner s owner i) i) := by
  constructor
  · funext p
    rw [account_data,lodges.part]
    by_cases theirs : p ∈ others s owner i
    · rw [if_neg (fun mine => newOwner_mine.mp mine theirs)]
      exact (part_data_none theirs).symm
    · rw [if_pos (newOwner_mine.mpr theirs)]
      exact (part_data theirs).symm
  · rw [account_pins lodges.backs.wellFormed,lodges.part]
    exact Multiset.filter_congr (fun p _ => newOwner_mine)
  · rintro p ⟨old | old,mine⟩
    · exact old
    · exact absurd (lodges.due p old) (newOwner_mine.mp mine)

/-- The other tables have the account that they had. -/
theorem alike_other {format' : Format E} (wf : WellFormed s) (lodges : Lodges format frames (beside s owed owner i) m' t' s')
    (different : j ≠ i) :
    Alike (account format' s owed owner j) (account format' s' (debts t' s owed owner i) (newOwner s owner i) j) := by
  constructor
  · funext p
    rw [account_data,account_data]
    by_cases theirs : p ∈ others s owner i ∧ owner p = j
    · rw [if_pos ((newOwner_other different).mpr theirs),if_pos theirs.2,show s'.data p = s.data p from lodges.bytes p theirs.1]
    · rw [if_neg (fun mine => theirs ((newOwner_other different).mp mine))]
      by_cases owns : owner p = j
      · -- a page of this table that is not among the others of the caller is not allocated
        have gone : s.data p = none := by
          by_contra stored
          exact theirs ⟨mem_others.mpr ⟨stored,owns ▸ different⟩,owns⟩
        rw [if_pos owns,gone]
        rfl
      · rw [if_neg owns]
  · rw [account_pins lodges.backs.wellFormed,account_pins wf]
    calc s'.pins.filter (fun p => newOwner s owner i p = j)
        = (s'.pins.filter (fun p => p ∈ others s owner i)).filter (fun p => owner p = j) := by
          rw [Multiset.filter_filter]
          exact Multiset.filter_congr (fun p _ => (newOwner_other different).trans and_comm)
      _ = (s.pins.filter (fun p => p ∈ others s owner i)).filter (fun p => owner p = j) := congrArg _ lodges.pins
      _ = s.pins.filter (fun p => owner p = j) := by
          rw [Multiset.filter_filter]
          refine Multiset.filter_congr (fun p pinned => and_iff_left_of_imp (fun owns => ?_))
          exact mem_others.mpr ⟨wf.pinned p pinned,owns ▸ different⟩
  · rintro p ⟨old | old,here⟩
    · exact absurd ((newOwner_other different).mp here).1 (lodges.owed p old)
    · exact ⟨old.1,((newOwner_other different).mp here).2⟩

end

/-! ### Databases stand for maps -/

/-- The table rests on its account, which stands for the map that its clients have heard of. -/
def Rests (s : Store PageData) (owed : PageId → Prop) (owner : PageId → Nat) (i : Nat) : Table → Prop
  | .heap schema firstPageId log => ∃ map, Explains log map ∧ HeapRests schema (account rawFormat s owed owner i) firstPageId log map
  | .index root log => Faithful log ∧ ∃ F, TreeRests (account treeFormat s owed owner i) root (mapOf log) F

/-- Every page of the pool has a table as its owner, and every table rests on its own pages. -/
structure Houses (frames : Nat) (db : Database) (s : Store PageData) (owed : PageId → Prop) (owner : PageId → Nat) : Prop where
  backs : Backs rawFormat frames db.machine s owed
  owners : ∀ p, s.data p ≠ none → owner p < db.tables.length
  rests : ∀ i table, db.tables[i]? = some table → Rests s owed owner i table

def Stands (db : Database) : Prop := ∃ frames s owed owner, Houses frames db s owed owner

section
variable {D : Type} {format : Format D} {frames limit n i : Nat} {db : Database} {m : Machine} {s s' : Store PageData}
variable {owed owed' : PageId → Prop} {owner owner' : PageId → Nat} {t' : Ledger D} {table : Table} {replacer : Replacer}

theorem heap_alike {schema : Schema} {t t' : Ledger PageData} {first : PageId} {log : List (TableHeap.Request × TableHeap.Response)}
    {map : Records} (rests : HeapRests schema t first log map) (wf : WellFormed t'.store) (alike : Alike t t') :
    HeapRests schema t' first log map :=
  rests.keep wf alike.data (alike.pins.trans rests.pins) (fun p old => rests.owed p (alike.owed p old))

theorem tree_alike {t t' : Ledger BPlusTree.BPlusTreePage} {root : PageId} {map : TreeMap.Entries} {F : TreeModel.Cells}
    (rests : TreeRests t root map F) (wf : WellFormed t'.store) (alike : Alike t t') : TreeRests t' root map F :=
  rests.keep wf alike.data alike.pins alike.owed

theorem Rests.alike (rests : Rests s owed owner i table) (wf : WellFormed s')
    (alike : ∀ {D : Type} (format : Format D), Alike (account format s owed owner i) (account format s' owed' owner' i)) :
    Rests s' owed' owner' i table := by
  cases table with
  | heap schema firstPageId log =>
    obtain ⟨map,explains,rests⟩ := rests
    exact ⟨map,explains,heap_alike rests (account_wellFormed wf) (alike rawFormat)⟩
  | index root log =>
    obtain ⟨faithful,F,rests⟩ := rests
    exact ⟨faithful,F,tree_alike rests (account_wellFormed wf) (alike treeFormat)⟩

theorem Rests.truthful (rests : Rests s owed owner i table) : table.Truthful := by
  cases table with
  | heap schema firstPageId log =>
    obtain ⟨map,explains,rests⟩ := rests
    refine ⟨map,explains,?_⟩
    exact (TableHeap.returned _).toFinset.finite_toSet.subset (fun rid live => by simpa using rests.represents.known rid live)
  | index root log => exact rests.1

theorem Stands.truthful (stands : Stands db) : ∀ table ∈ db.tables, table.Truthful := by
  intro table member
  obtain ⟨_,_,_,_,houses⟩ := stands
  obtain ⟨i,here⟩ := List.mem_iff_getElem?.mp member
  exact (houses.rests i table here).truthful

/-- A call of one table leaves the others at rest. -/
theorem Houses.called {tables : List Table} (houses : Houses frames db s owed owner)
    (lodges : Lodges format frames (beside s owed owner i) m t' s')
    (here : tables[i]? = some table) (same : ∀ j, j ≠ i → tables[j]? = db.tables[j]?) (grows : db.tables.length ≤ tables.length)
    (rests : Rests s' (debts t' s owed owner i) (newOwner s owner i) i table) : Stands { machine := m, tables } := by
  have low : i < tables.length := (List.getElem?_eq_some_iff.mp here).1
  refine ⟨frames,s',debts t' s owed owner i,newOwner s owner i,lodges.backs,fun p stored => ?_,fun j table' there => ?_⟩
  · rw [newOwner]
    split
    · rename_i theirs
      exact lt_of_lt_of_le (houses.owners p (mem_others.mp theirs).1) grows
    · exact low
  · by_cases equal : j = i
    · subst equal
      rw [here] at there
      cases there
      exact rests
    · rw [same j equal] at there
      exact (houses.rests j table' there).alike lodges.backs.wellFormed (fun _ => alike_other houses.backs.wellFormed lodges equal)

/-- A table that is not there yet has no pages. -/
theorem Houses.vacant (houses : Houses frames db s owed owner) (format : Format D) :
    (account format s owed owner db.tables.length).store.pins = 0 ∧ ∀ p, ¬(account format s owed owner db.tables.length).owed p := by
  have wf := houses.backs.wellFormed
  constructor
  · rw [account_pins wf]
    exact Multiset.filter_eq_nil.mpr (fun p pinned mine => (houses.owners p (wf.pinned p pinned)).ne mine)
  · rintro p ⟨old,mine⟩
    exact (houses.owners p (wf.pinned p (houses.backs.held p old))).ne mine

/-- With some frames to spare beside all the pins, there are as many beside those of the others. -/
theorem spare_beside (backs : Backs rawFormat frames m s owed) (spare : pinnedFrames m.pool + limit ≤ m.pool.poolSize) :
    ((account format s owed owner i).store.pins + (beside s owed owner i).pins).toFinset.card + limit ≤ frames := by
  rw [show (account format s owed owner i).store.pins + (beside s owed owner i).pins = s.pins from pins_part.symm]
  exact spare_pins backs spare

theorem spare_others (backs : Backs rawFormat frames m s owed) (spare : pinnedFrames m.pool + limit ≤ m.pool.poolSize) :
    (beside s owed owner i).pins.toFinset.card + limit ≤ frames := by
  have spare := @spare_beside _ rawFormat _ _ i _ _ _ owner backs spare
  have fewer : (beside s owed owner i).pins ≤ (account rawFormat s owed owner i).store.pins + (beside s owed owner i).pins :=
    Multiset.le_add_left ..
  have subset := Finset.card_le_card (Multiset.toFinset_subset.mpr (Multiset.subset_of_le fewer))
  omega

/-! ### Events -/

theorem append_other {tables : List Table} {j : Nat} (different : j ≠ tables.length) : (tables ++ [table])[j]? = tables[j]? := by
  rcases Nat.lt_or_gt_of_ne different with low | high
  · exact List.getElem?_append_left low
  · rw [List.getElem?_eq_none (by rw [List.length_append,List.length_singleton]; omega),List.getElem?_eq_none (Nat.le_of_lt high)]

/-- A call on a table that is there. -/
theorem Houses.replaced {old : Table} (houses : Houses frames db s owed owner) (there : db.tables[i]? = some old)
    (lodges : Lodges format frames (beside s owed owner i) m t' s') (rests : Rests s' (debts t' s owed owner i) (newOwner s owner i) i table) :
    Stands { machine := m, tables := db.tables.set i table } :=
  houses.called lodges (List.getElem?_set_self (List.getElem?_eq_some_iff.mp there).1) (fun _ different => List.getElem?_set_ne different.symm)
    (List.length_set ..).ge rests

theorem create_stands (fresh : Fresh n replacer) : Stands (Database.create n replacer) := by
  have wf := empty_wellFormed PageData
  have backs : Backs rawFormat n (Database.create n replacer).machine (Store.empty PageData) (fun _ => False) :=
    create_backs fresh FreeList.create_freeList DiskStore.create_header rfl wf rfl (fun p d stored => by cases stored) _
  exact ⟨n,_,_,fun _ => 0,backs,fun p stored => absurd rfl stored,fun i table there => by cases there⟩

theorem createHeap_stands {schema : Schema} (stands : Stands db) (allowed : db.Allowed (.createHeap schema)) :
    ∃ db', db.next (.createHeap schema) = some db' ∧ Stands db' := by
  obtain ⟨frames,s,owed,owner,houses⟩ := stands
  obtain ⟨spare,hasId⟩ := allowed
  obtain ⟨unpinned,paid⟩ := houses.vacant rawFormat
  obtain ⟨first,machine,t',driven,⟨s',lodges⟩,rests⟩ := @heap_created schema _ _ _ _ _ lodging_host ⟨s,lodges_account houses.backs⟩
    unpinned paid (account_wellFormed houses.backs.wellFormed) (spare_others houses.backs spare) (idsLeft_of_hasId houses.backs hasId)
  refine ⟨⟨machine,db.tables ++ [.heap schema first []]⟩,by rw [Database.next,driven],?_⟩
  refine houses.called lodges List.getElem?_concat_length (fun _ => append_other) ?_ ?_
  · simp
  · exact ⟨_,.start,heap_alike rests (account_wellFormed lodges.backs.wellFormed) (alike_mine lodges)⟩

theorem createIndex_stands (stands : Stands db) : ∃ db', db.next .createIndex = some db' ∧ Stands db' := by
  obtain ⟨frames,s,owed,owner,houses⟩ := stands
  obtain ⟨F,rests⟩ := tree_empty (account_wellFormed houses.backs.wellFormed) (houses.vacant treeFormat).2 (fun p d => account_fits)
  refine ⟨_,rfl,frames,s,owed,owner,houses.backs,fun p stored => ?_,fun i table there => ?_⟩
  · have low := houses.owners p stored
    simp only [List.length_append,List.length_singleton]
    omega
  · by_cases equal : i = db.tables.length
    · subst equal
      rw [List.getElem?_concat_length] at there
      cases there
      exact ⟨trivial,F,rests⟩
    · rw [append_other equal] at there
      exact houses.rests i table there

/-- A call on a heap is answered as by its map. -/
theorem call_stands {request : TableHeap.Request} {slotNum : UInt32} (stands : Stands db)
    (allowed : db.Allowed (.call i request slotNum)) : ∃ db', db.next (.call i request slotNum) = some db' ∧ Stands db' := by
  obtain ⟨frames,s,owed,owner,houses⟩ := stands
  obtain ⟨⟨schema,first,log,there,known,fitting⟩,spare,hasId⟩ := allowed
  obtain ⟨map,explains,rests⟩ := houses.rests i _ there
  obtain ⟨response,machine,t',map',driven,⟨s',lodges⟩,answered,rests'⟩ := heap_called slotNum lodging_host
    ⟨s,lodges_account houses.backs⟩ rests (spare_others houses.backs spare) (idsLeft_of_hasId houses.backs hasId)
    (show TableHeap.Known _ request by cases request <;> exact known) fitting
  have rounds : (account rawFormat s owed owner i).store.numPages.toNat = 4294967295 := rfl
  rw [rounds] at driven
  refine ⟨⟨machine,db.tables.set i (.heap schema first ((request,response) :: log))⟩,by simp only [Database.next,there,driven],
    houses.replaced there lodges ?_⟩
  exact ⟨map',.call explains answered,heap_alike rests' (account_wellFormed lodges.backs.wellFormed) (alike_mine lodges)⟩

/-- A request to an index is answered as by its map. -/
theorem request_stands {request : TreeMap.Request} (stands : Stands db) (allowed : db.Allowed (.request i request)) :
    ∃ db', db.next (.request i request) = some db' ∧ Stands db' := by
  obtain ⟨frames,s,owed,owner,houses⟩ := stands
  obtain ⟨⟨root,log,there⟩,fits,spare,room⟩ := allowed
  obtain ⟨faithful,F,rests⟩ := houses.rests i _ there
  have ids : 7 ≤ idsLeft s := by
    rw [idsLeft,← houses.backs.numPages]
    omega
  obtain ⟨root',machine,t',F',driven,⟨s',lodges⟩,rests'⟩ := tree_requested lodging_host ⟨s,lodges_account houses.backs⟩ rests fits
    (spare_beside houses.backs spare) ids
  refine ⟨⟨machine,db.tables.set i (.index root' (.request request (TreeMap.respond (mapOf log) request).1 :: log))⟩,
    by simp only [Database.next,there,driven],houses.replaced there lodges ?_⟩
  exact ⟨⟨rfl,faithful⟩,F',tree_alike rests' (account_wellFormed lodges.backs.wellFormed) (alike_mine lodges)⟩

/-- A scan of an index finds the entries of its map. -/
theorem scan_stands (stands : Stands db) (allowed : db.Allowed (.scan i)) : ∃ db', db.next (.scan i) = some db' ∧ Stands db' := by
  obtain ⟨frames,s,owed,owner,houses⟩ := stands
  obtain ⟨⟨root,log,there⟩,spare⟩ := allowed
  obtain ⟨faithful,F,rests⟩ := houses.rests i _ there
  obtain ⟨entries,machine,t',driven,⟨s',lodges⟩,found,rests'⟩ := tree_scanned lodging_host ⟨s,lodges_account houses.backs⟩ rests
    (spare_beside houses.backs spare)
  refine ⟨⟨machine,db.tables.set i (.index root (.scan entries :: log))⟩,by simp only [Database.next,there,driven],
    houses.replaced there lodges ?_⟩
  exact ⟨⟨found,faithful⟩,F,tree_alike rests' (account_wellFormed lodges.backs.wellFormed) (alike_mine lodges)⟩

/-- A restart loses only what is owed. -/
theorem account_restarted {data : PageId → Option PageData} {p : PageId} (same : ∀ p, ¬owed p → data p = s.data p)
    (paid : ¬(account format s owed owner i).owed p) :
    (account format { s with data, pins := 0 } owed' owner i).store.data p = (account format s owed owner i).store.data p := by
  rw [account_data,account_data]
  by_cases mine : owner p = i
  · rw [if_pos mine,if_pos mine]
    exact congrArg (Option.map format.view) (same p (fun old => paid ⟨old,mine⟩))
  · rw [if_neg mine,if_neg mine]

theorem account_allocated {data : PageId → Option PageData} (kept : ∀ p, data p = none ↔ s.data p = none) (p : PageId) :
    (account format { s with data, pins := 0 } owed' owner i).store.data p = none ↔ (account format s owed owner i).store.data p = none := by
  rw [account_data,account_data]
  by_cases mine : owner p = i
  · rw [if_pos mine,if_pos mine,Option.map_eq_none_iff,Option.map_eq_none_iff]
    exact kept p
  · rw [if_neg mine,if_neg mine]

/-- A restart forgets nothing. -/
theorem restart_stands {order : List PageId} {poolSize : Nat} (stands : Stands db)
    (allowed : db.Allowed (.restart order poolSize replacer)) :
    ∃ db', db.next (.restart order poolSize replacer) = some db' ∧ Stands db' := by
  obtain ⟨frames,s,owed,owner,houses⟩ := stands
  obtain ⟨visits,fresh⟩ := allowed
  obtain ⟨machine,data,ran,same,kept,backs'⟩ := restart_backs houses.backs visits fresh
  have wf := backs'.wellFormed
  refine ⟨{ db with machine },by rw [Database.next,ran]; rfl,poolSize,{ s with data, pins := 0 },fun _ => False,owner,backs',
    fun p stored => houses.owners p (fun gone => stored ((kept p).mpr gone)),fun i table there => ?_⟩
  have rests := houses.rests i table there
  cases table with
  | heap schema first log =>
    obtain ⟨map,explains,rests⟩ := rests
    exact ⟨map,explains,rests.keep (account_wellFormed wf) (funext (fun p => account_restarted same (rests.owed p)))
      (account_pins wf) (fun p old => old.1)⟩
  | index root log =>
    obtain ⟨faithful,F,rests⟩ := rests
    have forgot := @TreeRests.forgets _ _ _ _ (account treeFormat { s with data, pins := 0 } (fun _ => False) owner i).store rests
      (idsLeft s) (fun p paid => account_restarted same paid) (account_allocated kept) (account_wellFormed wf)
      (fun p d => account_fits)
    exact ⟨faithful,forget F,forgot.keep (account_wellFormed wf) rfl rfl (fun p old => old.1)⟩

theorem event_stands {event : Event} (stands : Stands db) (allowed : db.Allowed event) : ∃ db', db.next event = some db' ∧ Stands db' := by
  cases event with
  | createHeap schema => exact createHeap_stands stands allowed
  | createIndex => exact createIndex_stands stands
  | call i request slotNum => exact call_stands stands allowed
  | request i request => exact request_stands stands allowed
  | scan i => exact scan_stands stands allowed
  | restart order poolSize replacer => exact restart_stands stands allowed

/-- On a pool with either replacer, with any number of tables created and used in any order,
    and over any number of restarts, every heap and every index is a finite map: it explains
    all that the clients of that table have heard, whatever those of the others have done.
    Where enough frames are without a pin and the file can grow, the next event is served. -/
theorem tables_refine_maps (fresh : Fresh n replacer) :
    ∀ db, Runs Database.next Database.Allowed (Database.create n replacer) db → (∀ table ∈ db.tables, table.Truthful) ∧
      ∀ event, db.Allowed event → ∃ db', db.next event = some db' ∧ ∀ table ∈ db'.tables, table.Truthful := by
  intro db runs
  have stands : Stands db := runs.served Stands (create_stands fresh) event_stands
  refine ⟨stands.truthful,fun event allowed => ?_⟩
  obtain ⟨db',moved,stands'⟩ := event_stands stands allowed
  exact ⟨db',moved,stands'.truthful⟩

/-- Two indexes on a pool of twenty frames, one with an entry. -/
theorem tables_refine_maps_lru : ∃ db root response, Runs Database.next Database.Allowed (Database.create 20 (.lru (.create 20))) db ∧
    db.tables = [.index root [.request (.insert 5 { pageId := 7 }) response],.index INVALID_PAGE_ID []] ∧
      (∀ table ∈ db.tables, table.Truthful) ∧
        ∀ event, db.Allowed event → ∃ db', db.next event = some db' ∧ ∀ table ∈ db'.tables, table.Truthful := by
  have serves := @tables_refine_maps 20 (.lru (.create 20)) (.inl rfl)
  have two : Runs Database.next Database.Allowed (Database.create 20 (.lru (.create 20)))
      ⟨(Database.create 20 (.lru (.create 20))).machine,[.index INVALID_PAGE_ID [],.index INVALID_PAGE_ID []]⟩ :=
    .step (m := .createIndex) (.step (m := .createIndex) .refl trivial rfl) trivial rfl
  have allowed : Database.Allowed ⟨(Database.create 20 (.lru (.create 20))).machine,[.index INVALID_PAGE_ID [],.index INVALID_PAGE_ID []]⟩
      (.request 0 (.insert 5 { pageId := 7 })) := by
    refine ⟨⟨_,_,rfl⟩,by simp only [TreeDebts.KeyFits]; decide,?_,?_⟩ <;> decide
  obtain ⟨db,moved,_⟩ := (serves _ two).2 _ allowed
  have runs := two.step allowed moved
  simp only [Database.next,List.getElem?_cons_zero] at moved
  split at moved
  · cases moved
  · cases moved
    exact ⟨_,_,_,runs,rfl,serves _ runs⟩

end
end Aether.Databases
