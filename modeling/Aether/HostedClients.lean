import Aether.HeapDebts
import Aether.HeapMap
import Aether.SpareFrames
import Aether.TreeDebts
import Aether.TreeHeight

/-!
Heaps and trees on a host, which is a pool of their own or one that they share with others.
With a few frames to spare none of their calls is refused, so what is known of them on a
page store holds on the host.
-/
namespace Aether.HostedClients
open Aether.Bytes Aether.Programs Aether.Types Aether.DiskManager Aether.PageStore Aether.PoolClients Aether.ClientRules Aether.SpareFrames

/-! ### Heaps -/

section
open Aether.Tuples Aether.TablePages Aether.TableHeap Aether.HeapDebts
open Aether.HeapMap (Represents Answered Fitting Records)

/-- A heap between its calls, which has no pin and owes nothing. -/
structure HeapRests (schema : Schema) (t : Ledger TablePage) (first : PageId) (log : List (Request × Response)) (map : Records) : Prop where
  pins : t.store.pins = 0
  owed : ∀ p, ¬t.owed p
  represents : Represents schema { store := t.store, firstPageId := first, log } map

variable {schema : Schema} {frames : Nat} {others : Multiset PageId} {related : Relation TablePage} {m : Machine} {t : Ledger TablePage}
variable {first : PageId} {log : List (Request × Response)} {map : Records} {request : Request}

theorem roomy_within (two : others.toFinset.card + 2 ≤ frames) : Roomy (.within frames others) 0 := by
  refine ⟨fun p valid => ⟨valid,?_⟩,?_,fun p => ?_⟩
  · rw [zero_add]
    omega
  · show (0 + others).toFinset.card < frames
    rw [zero_add]
    omega
  · show (p ::ₘ 0 + others).toFinset.card < frames
    rw [Multiset.cons_add,zero_add,Multiset.toFinset_cons]
    have one := Finset.card_insert_le p others.toFinset
    omega

theorem tidy_of_rests (script : List Bool) (unpinned : t.store.pins = 0) (paid : ∀ p, ¬t.owed p) (ids : 1 ≤ t.ids) :
    Tidy rawFormat 0 (fun _ => False) 1 (t.rescript script) := ⟨unpinned,paid,ids,fun _ _ _ => trivial⟩

/-- The constructor makes an empty heap. -/
theorem heap_created (host : Host rawFormat frames others related) (here : related m t) (unpinned : t.store.pins = 0)
    (paid : ∀ p, ¬t.owed p) (wellFormed : WellFormed t.store) (two : others.toFinset.card + 2 ≤ frames) (ids : 1 ≤ t.ids) :
    ∃ first m' t', Prog.run (drive rawFormat) create m = .ok (first,m') ∧ related m' t' ∧ HeapRests schema t' first [] (fun _ => none) := by
  obtain ⟨script,served,returns⟩ := host_serves host create here (fun script =>
    minds_create (roomy_within two) (tidy_of_rests script unpinned paid ids))
  have wf : WellFormed { t.store with script } :=
    ⟨wellFormed.first,wellFormed.distinct,wellFormed.partition,wellFormed.exclusive,wellFormed.pinned⟩
  have holds : Prog.wlp (exec (Block.zeros PAGE_SIZE)) Granted (fun _ => False) create _ { t.store with script } := HeapMap.wlp_create wf
  rcases Prog.run_of_wlp holds served with ⟨first,store,ran,_⟩ | ⟨_,_,fault⟩
  · obtain ⟨m',t',driven,rfl,here',settled⟩ := returns first store ran
    have started : HeapMap.start { t.store with script } = some { store := t'.store, firstPageId := first, log := [] } := by
      rw [HeapMap.start,ran]
    exact ⟨first,m',t',driven,here',settled.pins,settled.owed,(HeapMap.represents_start wf started served).2⟩
  · exact fault.elim

/-- The request names a page that is not the null page. -/
theorem valid_of_known {heap : Heap} (represents : Represents schema heap map) (known : Known heap request) :
    ∀ rid, Names request rid → rid.pageId ≠ INVALID_PAGE_ID := by
  intro rid names
  have member : rid ∈ returned heap := by
    cases request with
    | insertTuple tuple => exact names.elim
    | getTuple rid' schema' => exact names ▸ known
    | updateTuple rid' newTuple => exact names ▸ known
    | deleteTuple rid' => exact names ▸ known
  obtain ⟨page,stored,_⟩ := represents.page member
  intro invalid
  rw [invalid,invalid_unused represents.wellFormed] at stored
  cases stored

theorem represents_keep {heap : Heap} {s' : Store TablePage} (represents : Represents schema heap map) (wf : WellFormed s')
    (data : s'.data = heap.store.data) : Represents schema { heap with store := s' } map := by
  have same : ({ heap with store := s' } : Heap).store.data = heap.store.data := data
  refine ⟨wf,?_,represents.known,?_,represents.fits⟩
  · rw [same]
    exact represents.chain
  · rw [same]
    exact represents.stored

/-- A heap whose pages are as they were. -/
theorem HeapRests.keep {t' : Ledger TablePage} (rests : HeapRests schema t first log map) (wf : WellFormed t'.store)
    (data : t'.store.data = t.store.data) (pins : t'.store.pins = 0) (owed : ∀ p, ¬t'.owed p) : HeapRests schema t' first log map :=
  ⟨pins,owed,represents_keep rests.represents wf data⟩

/-- A call is answered as by the map. -/
theorem heap_called (slotNum : UInt32) (host : Host rawFormat frames others related) (here : related m t) (rests : HeapRests schema t first log map)
    (two : others.toFinset.card + 2 ≤ frames) (ids : 1 ≤ t.ids) (known : Known { store := t.store, firstPageId := first, log } request)
    (fitting : Fitting schema request) : ∃ response m' t' map',
      Prog.run (drive rawFormat) (serve t.store.numPages.toNat first slotNum request) m = .ok (response,m') ∧ related m' t' ∧
        Answered map request response map' ∧ HeapRests schema t' first ((request,response) :: log) map' := by
  obtain ⟨unpinned,paid,represents⟩ := rests
  obtain ⟨script,served,returns⟩ := host_serves host (serve t.store.numPages.toNat first slotNum request) here (fun script =>
    minds_serve (roomy_within two) (fun _ old => old.elim) (valid_of_known represents known) (tidy_of_rests script unpinned paid ids))
  obtain ⟨after,response,map',moved,logged,start,answered,represents'⟩ :
      HeapMap.Step schema { store := t.store, firstPageId := first, log } map ⟨request,script,slotNum⟩ :=
    HeapMap.step_of_allowed represents ⟨known,fitting,served⟩
  rw [TableHeap.next] at moved
  split at moved
  · cases moved
  · rename_i response' store' ran
    cases moved
    obtain rfl : response' = response := by
      cases logged
      rfl
    obtain ⟨m',t',driven,rfl,here',settled⟩ := returns response' store' ran
    exact ⟨response',m',t',map',driven,here',answered,settled.pins,settled.owed,represents'⟩

end

/-! ### Trees -/

section
open Aether.BPlusTree Aether.TreeModel Aether.TreePages Aether.TreeMap Aether.TreeRanks Aether.TreeFrames Aether.TreeHeight
open Aether.TreeBytes Aether.TreeDebts
open Aether.SortedLists (Sorted)
open Aether.TreeScan (scanAll)

/-- A tree between its calls. What it owes are pages beside it, which stay pinned. -/
structure TreeRests (t : Ledger BPlusTreePage) (root : PageId) (map : Entries) (F : Cells) : Prop where
  represents : RepresentsIn 6 F t.store.pins t.store root map
  beside : ∀ p, t.owed p → p ∈ F.map Prod.fst
  held : ∀ p, t.owed p → p ∈ t.store.pins
  fits : ∀ p d, t.store.data p = some d → treeFormat.Fits d

variable {frames limit height : Nat} {others : Multiset PageId} {related : Relation BPlusTreePage} {m : Machine} {t : Ledger BPlusTreePage}
variable {root : PageId} {map : Entries} {F : Cells} {s : Store BPlusTreePage}

theorem inside_rescript {pins : Multiset PageId} (inside : RepresentsIn height F pins s root map) (script : List Bool) :
    RepresentsIn height F pins { s with script } root map := by
  rcases inside with ⟨rfl,none,own⟩ | ⟨h,T,lower,valid,rfl,same,own⟩
  · exact .inl ⟨rfl,none,own.rescript script⟩
  · exact .inr ⟨h,T,lower,valid,rfl,same,own.rescript script⟩

/-- Pages of which nothing is known any more. -/
def forget (F : Cells) : Cells := F.map (fun c => (c.1,fun _ => True))

theorem forget_ids : (forget F).map Prod.fst = F.map Prod.fst := by
  rw [forget,Multiset.map_map]
  rfl

/-- A store in which only pages of the second kind may have changed. -/
theorem own_forget {G : Cells} {s' : Store BPlusTreePage} {pins pins' : Multiset PageId} (own : Owns s (G + F) pins) (same : ∀ p, p ∉ F.map Prod.fst → s'.data p = s.data p)
    (allocated : ∀ p, s'.data p = none ↔ s.data p = none) (wellFormed : WellFormed s') (unpinned : s'.pins = pins') :
    Owns s' (G + forget F) pins' := by
  have ids : (G + forget F).map Prod.fst = (G + F).map Prod.fst := by rw [Multiset.map_add,Multiset.map_add,forget_ids]
  have distinct := own.distinct
  rw [Multiset.map_add] at distinct
  refine ⟨ids ▸ own.distinct,?_,?_,unpinned,wellFormed⟩
  · intro c member
    rcases Multiset.mem_add.mp member with here | beside
    · obtain ⟨d,stored,shown⟩ := own.shown c (Multiset.mem_add.mpr (.inl here))
      have apart : c.1 ∉ F.map Prod.fst := fun other =>
        (Multiset.disjoint_left.mp (Multiset.nodup_add.mp distinct).2.2) (Multiset.mem_map_of_mem Prod.fst here) other
      exact ⟨d,(same c.1 apart).trans stored,shown⟩
    · obtain ⟨c',member',rfl⟩ := Multiset.mem_map.mp beside
      obtain ⟨d,stored,_⟩ := own.shown c' (Multiset.mem_add.mpr (.inr member'))
      have live : s'.data c'.1 ≠ none := fun gone => by
        rw [(allocated c'.1).mp gone] at stored
        cases stored
      obtain ⟨d',stored'⟩ := Option.ne_none_iff_exists'.mp live
      exact ⟨d',stored',trivial⟩
  · intro p stored
    rw [ids]
    exact own.covered p (fun gone => stored ((allocated p).mpr gone))

/-- A tree that loses what it owes. -/
theorem TreeRests.forgets {s' : Store BPlusTreePage} (rests : TreeRests t root map F) (ids : Nat)
    (same : ∀ p, ¬t.owed p → s'.data p = t.store.data p) (allocated : ∀ p, s'.data p = none ↔ t.store.data p = none)
    (wellFormed : WellFormed s') (fits : ∀ p d, s'.data p = some d → treeFormat.Fits d) :
    TreeRests ⟨s',fun _ => False,ids⟩ root map (forget F) := by
  have fixed : ∀ p, p ∉ F.map Prod.fst → s'.data p = t.store.data p := fun p other => same p (fun old => other (rests.beside p old))
  refine ⟨?_,fun p old => old.elim,fun p old => old.elim,fits⟩
  rcases rests.represents with ⟨invalid,none,own⟩ | ⟨h,T,lower,valid,top,entries,own⟩
  · have own : Owns t.store (0 + F) _ := own.reorder (zero_add F).symm
    exact .inl ⟨invalid,none,(own_forget own fixed allocated wellFormed rfl).reorder (zero_add _)⟩
  · exact .inr ⟨h,T,lower,valid,top,entries,own_forget own fixed allocated wellFormed rfl⟩

/-- A tree whose pages are as they were. -/
theorem TreeRests.keep {t' : Ledger BPlusTreePage} (rests : TreeRests t root map F) (wf : WellFormed t'.store)
    (data : t'.store.data = t.store.data) (pins : t'.store.pins = t.store.pins) (owed : ∀ p, t'.owed p → t.owed p) : TreeRests t' root map F := by
  have kept : ∀ {G : Cells}, Owns t.store G t.store.pins → Owns t'.store G t'.store.pins := fun own =>
    ⟨own.distinct,by rw [data]; exact own.shown,by rw [data]; exact own.covered,rfl,wf⟩
  refine ⟨?_,fun p old => rests.beside p (owed p old),fun p old => pins ▸ rests.held p (owed p old),by rw [data]; exact rests.fits⟩
  rcases rests.represents with ⟨invalid,none,own⟩ | ⟨h,T,lower,valid,top,entries,own⟩
  · exact .inl ⟨invalid,none,kept own⟩
  · exact .inr ⟨h,T,lower,valid,top,entries,kept own⟩

/-- A tree without pages. -/
theorem tree_empty (wellFormed : WellFormed t.store) (paid : ∀ p, ¬t.owed p) (fits : ∀ p d, t.store.data p = some d → treeFormat.Fits d) :
    ∃ F, TreeRests t INVALID_PAGE_ID (fun _ => none) F := by
  obtain ⟨F,pins,own⟩ := exists_owns wellFormed
  obtain rfl := own.pinsEq
  exact ⟨F,.inl ⟨rfl,fun _ => rfl,own⟩,fun p old => (paid p old).elim,fun p old => (paid p old).elim,fits⟩

/-- A client that gives back what it takes, and finds a frame for every page, does on the
    host what it does on the store. -/
theorem answers_of_host {α : Type} {client : Action α} {Q : α → Store BPlusTreePage → Prop} {post : α → Ledger BPlusTreePage → Prop}
    (host : Host treeFormat frames others related) (here : related m t) (pays : ∀ script, Pays client post (t.rescript script))
    (uses : ∀ script, Uses t.store.pins limit client (fun _ _ => True) { t.store with script })
    (enough : (t.store.pins + others).toFinset.card + limit ≤ frames) (does : ∀ script, Does client Q { t.store with script }) :
    ∃ value m' t', Prog.run (drive treeFormat) client m = .ok (value,m') ∧ related m' t' ∧ Q value t'.store ∧ post value t' := by
  obtain ⟨script,heard,returns⟩ := host.refines (fun op t mindful => mindful.1) client here pays
  rw [treeFormat_blank] at heard returns
  have served : Prog.Served (exec .zeros) Granted client { t.store with script } :=
    (uses script).served (fun op s answer s' (thrifty : Thrifty _ limit op s) _ told => thrifty_told enough thrifty told) heard
  obtain ⟨value,s',ran,shown⟩ := Prog.run_of_wp (does script) served
  obtain ⟨m',t',driven,rfl,here',paid⟩ := returns value s' ran
  exact ⟨value,m',t',driven,here',shown,paid⟩

theorem pins_eq {pins : Multiset PageId} (inside : RepresentsIn height F pins s root map) : s.pins = pins := by
  rcases inside with ⟨_,_,own⟩ | ⟨_,_,_,_,_,_,own⟩
  · exact own.pinsEq
  · exact own.pinsEq

/-- A request is answered as by the map. -/
theorem tree_requested {request : Request} (host : Host treeFormat frames others related) (here : related m t)
    (rests : TreeRests t root map F) (fits : KeyFits request) (spare : (t.store.pins + others).toFinset.card + 13 ≤ frames)
    (ids : 7 ≤ t.ids) : ∃ root' m' t' F', Prog.run (drive treeFormat) (serve 6 root request) m = .ok (((respond map request).1,root'),m') ∧
      related m' t' ∧ TreeRests t' root' (respond map request).2 F' := by
  obtain ⟨inside,beside,held,formed⟩ := rests
  obtain ⟨h,height,low⟩ := exists_height inside
  obtain ⟨⟨response,root'⟩,m',t',driven,here',⟨answer,leaked,pins',inside'⟩,paid⟩ := answers_of_host host here
    (fun script => pays_serve held fits ⟨rfl,fun _ => id,ids,formed⟩)
    (uses_of_represents ⟨F,_,inside⟩ height request) (show _ + (2 * h + 1) ≤ _ by omega)
    (fun script => does_serveIn (inside_rescript inside script) (le_refl 6) request)
  obtain rfl : response = (respond map request).1 := answer
  obtain rfl := pins_eq inside'
  refine ⟨root',m',t',leaked + F,driven,here',?_⟩
  rcases paid with accounted | ⟨rfl,p,accounted⟩
  · refine ⟨representsIn_six inside',fun p old => ?_,fun p old => ?_,accounted.fits⟩
    · rw [Multiset.map_add]
      exact Multiset.mem_add.mpr (.inr (beside p (accounted.owed p old)))
    · rw [accounted.pins]
      exact held p (accounted.owed p old)
  · -- the tree is empty, so every page is beside it
    have held' : ∀ q, t'.owed q → q ∈ t'.store.pins := by
      intro q old
      rw [accounted.pins,Multiset.mem_cons]
      exact (accounted.owed q old).imp_right (held q)
    refine ⟨representsIn_six inside',fun q old => ?_,held',accounted.fits⟩
    rcases inside' with ⟨_,_,own⟩ | ⟨_,T,_,_,top,_,own⟩
    · exact own.covered q (own.wellFormed.pinned q (held' q old))
    · exact absurd top.symm (own.ne_invalid (Multiset.mem_map_of_mem Prod.fst (Multiset.mem_add.mpr (.inl mem_cells))))

/-- A scan finds the entries of the map, and leaves them there. -/
theorem tree_scanned (host : Host treeFormat frames others related) (here : related m t) (rests : TreeRests t root map F)
    (spare : (t.store.pins + others).toFinset.card + 1 ≤ frames) :
    ∃ entries m' t', Prog.run (drive treeFormat) (scanAll 6 root 1099511627776) m = .ok (entries,m') ∧ related m' t' ∧
      (Sorted entries ∧ ∀ k v, (k,v) ∈ entries ↔ map k = some v) ∧ TreeRests t' root map F := by
  obtain ⟨inside,beside,held,formed⟩ := rests
  obtain ⟨h,height,_⟩ := exists_height inside
  obtain ⟨entries,m',t',driven,here',⟨found,inside'⟩,accounted⟩ := answers_of_host host here
    (fun script => pays_scanAll held ⟨rfl,fun _ => id,Nat.zero_le _,formed⟩)
    (uses_scan_of_represents ⟨F,_,inside⟩ height) spare
    (fun script => does_scanIn (inside_rescript inside script) (le_refl 6))
  refine ⟨entries,m',t',driven,here',found,?_,fun p old => beside p (accounted.owed p old),fun p old => ?_,accounted.fits⟩
  · rw [accounted.pins]
    exact inside'
  · rw [accounted.pins]
    exact held p (accounted.owed p old)

end
end Aether.HostedClients
