import Aether.SpareFrames

/-!
Tenants of a pool. A client is given a store of its own, in which the pages of others do
not occur: their ids are at the end of its free list, behind those that have never been
handed out. What the client does on its own store it does on the pool, and the others'
bytes, pins and debts stay as they are.
-/
namespace Aether.Tenants
open Aether.Programs Aether.Types Aether.DiskManager Aether.PageStore Aether.PoolClients Aether.SpareFrames

/-- The ids that have never been handed out, in the order in which they will be. -/
def unborn (numPages : PageId) : List PageId := (List.range' numPages.toNat (4294967295 - numPages.toNat)).map UInt32.ofNat

/-- The store of a tenant, who shares the pages with others. -/
def part {D : Type} (format : Format D) (others : List PageId) (s : Store PageData) : Store D where
  data p := if p ∈ others then none else (s.data p).map format.view
  pins := s.pins.filter (fun p => p ∉ others)
  dirty := s.dirty
  free := s.free ++ (unborn s.numPages ++ others)
  numPages := INVALID_PAGE_ID
  script := s.script

section
variable {D : Type} {format : Format D} {others : List PageId} {s s' : Store PageData} {p q n : PageId} {d : D}

theorem mem_unborn : p ∈ unborn n ↔ n ≤ p ∧ p ≠ INVALID_PAGE_ID := by
  have last : INVALID_PAGE_ID.toNat = 4294967295 := rfl
  have small := p.toNat_lt
  have low := n.toNat_lt
  simp only [unborn,List.mem_map,List.mem_range'_1,UInt32.le_iff_toNat_le,ne_eq,← UInt32.toNat_inj,last]
  constructor
  · rintro ⟨k,⟨above,below⟩,same⟩
    rw [UInt32.toNat_ofNat_of_lt' (by simp only [UInt32.size]; omega)] at same
    omega
  · rintro ⟨above,valid⟩
    exact ⟨p.toNat,⟨above,by omega⟩,by rw [UInt32.ofNat_toNat]⟩

theorem below_invalid (valid : p ≠ INVALID_PAGE_ID) : p < INVALID_PAGE_ID := by
  have last : INVALID_PAGE_ID.toNat = 4294967295 := rfl
  have small := p.toNat_lt
  rw [ne_eq,← UInt32.toNat_inj,last] at valid
  rw [UInt32.lt_iff_toNat_lt,last]
  omega

theorem unborn_cons (valid : n ≠ INVALID_PAGE_ID) : unborn n = n :: unborn (n + 1) := by
  have last : INVALID_PAGE_ID.toNat = 4294967295 := rfl
  have low := n.toNat_lt
  have small : n.toNat < 4294967295 := by
    have differs : n.toNat ≠ 4294967295 := fun same => valid (UInt32.toNat_inj.mp (same.trans last.symm))
    omega
  have next : (n + 1).toNat = n.toNat + 1 := by
    rw [UInt32.toNat_add,UInt32.toNat_one,Nat.mod_eq_of_lt (by omega)]
  obtain ⟨k,count⟩ : ∃ k, 4294967295 - n.toNat = k + 1 := ⟨4294967294 - n.toNat,by omega⟩
  rw [unborn,unborn,next,count,List.range'_succ,List.map_cons,UInt32.ofNat_toNat,show 4294967295 - (n.toNat + 1) = k by omega]

theorem unborn_nodup : (unborn n).Nodup := by
  refine List.Nodup.map_on ?_ List.nodup_range'
  intro i inside j inside' same
  rw [List.mem_range'_1] at inside inside'
  have low := n.toNat_lt
  have equal := congrArg UInt32.toNat same
  rwa [UInt32.toNat_ofNat_of_lt' (by simp only [UInt32.size]; omega),
    UInt32.toNat_ofNat_of_lt' (by simp only [UInt32.size]; omega)] at equal

/-- The others' pages are allocated. -/
structure Shares (others : List PageId) (s : Store PageData) : Prop where
  distinct : others.Nodup
  allocated : ∀ p ∈ others, s.data p ≠ none

theorem part_data (mine : p ∉ others) : (part format others s).data p = (s.data p).map format.view := if_neg mine

theorem part_data_none (theirs : p ∈ others) : (part format others s).data p = none := if_pos theirs

theorem part_live : (part format others s).data p ≠ none ↔ s.data p ≠ none ∧ p ∉ others := by
  by_cases theirs : p ∈ others
  · simp [part_data_none theirs,theirs]
  · simp [part_data theirs,theirs]

theorem mem_part_pins : p ∈ (part format others s).pins ↔ p ∈ s.pins ∧ p ∉ others := Multiset.mem_filter

theorem pins_part : s.pins = (part format others s).pins + s.pins.filter (fun p => p ∈ others) := by
  rw [add_comm]
  exact (Multiset.filter_add_not (fun p => p ∈ others) s.pins).symm

/-- The store of a tenant is a store like any other. -/
theorem part_wellFormed (shares : Shares others s) (wf : WellFormed s) : WellFormed (part format others s) := by
  have known : ∀ p, p ∈ others → 0 < p ∧ p < s.numPages := fun p theirs => (wf.partition p).mpr (.inr (shares.allocated p theirs))
  refine ⟨show (0 : PageId) < INVALID_PAGE_ID by decide,?_,fun p => ?_,fun p member => ?_,fun p pinned => ?_⟩
  · refine List.nodup_append.mpr ⟨wf.distinct,List.nodup_append.mpr ⟨unborn_nodup,shares.distinct,?_⟩,?_⟩
    · rintro p old q theirs rfl
      exact UInt32.not_lt.mpr (mem_unborn.mp old).1 (known p theirs).2
    · rintro p free q later rfl
      rcases List.mem_append.mp later with old | theirs
      · exact UInt32.not_lt.mpr (mem_unborn.mp old).1 ((wf.partition p).mpr (.inl free)).2
      · exact shares.allocated p theirs (wf.exclusive p free)
  · have before := wf.partition p
    have inFile : 0 < p ∧ p < s.numPages → 0 < p ∧ p < INVALID_PAGE_ID := fun known => ⟨known.1,below_invalid (lt_invalid known.2)⟩
    show _ ↔ p ∈ s.free ++ (unborn s.numPages ++ others) ∨ (part format others s).data p ≠ none
    rw [part_live,List.mem_append,List.mem_append,mem_unborn]
    constructor
    · rintro ⟨above,below⟩
      by_cases born : p < s.numPages
      · rcases before.mp ⟨above,born⟩ with free | stored
        · exact .inl (.inl free)
        · by_cases theirs : p ∈ others
          · exact .inl (.inr (.inr theirs))
          · exact .inr ⟨stored,theirs⟩
      · exact .inl (.inr (.inl ⟨UInt32.not_lt.mp born,lt_invalid below⟩))
    · rintro ((free | ⟨later,valid⟩ | theirs) | ⟨stored,_⟩)
      · exact inFile (before.mpr (.inl free))
      · exact ⟨UInt32.lt_of_lt_of_le wf.first later,below_invalid valid⟩
      · exact inFile (known p theirs)
      · exact inFile (before.mpr (.inr stored))
  · rcases List.mem_append.mp member with free | later
    · by_contra stored
      exact (part_live.mp stored).1 (wf.exclusive p free)
    · rcases List.mem_append.mp later with old | theirs
      · by_contra stored
        exact UInt32.not_lt.mpr (mem_unborn.mp old).1 ((wf.partition p).mpr (.inr (part_live.mp stored).1)).2
      · exact part_data_none theirs
  · obtain ⟨pinned,mine⟩ := mem_part_pins.mp pinned
    exact part_live.mpr ⟨wf.pinned p pinned,mine⟩

/-! ### Calls on a part -/

/-- A call on the part does what it does on the whole. -/
def Commutes {β : Type} (format : Format D) (others : List PageId) (op : PoolOp D β) (op' : PoolOp PageData β) (s : Store PageData) : Prop :=
  exec format.blank op (part format others s) = (exec rawFormat.blank op' s).map (fun outcome => (outcome.1,part format others outcome.2))

theorem part_script : (part format others s).script = s.script := rfl

theorem filter_pin (mine : p ∉ others) (pins : Multiset PageId) :
    (p ::ₘ pins).filter (fun q => q ∉ others) = p ::ₘ pins.filter (fun q => q ∉ others) :=
  Multiset.filter_cons_of_pos (p := fun q => q ∉ others) pins mine

theorem update_part {bytes : Option PageData} (mine : p ∉ others) :
    (fun q => if q ∈ others then none else (Function.update s.data p bytes q).map format.view) =
      Function.update (part format others s).data p (bytes.map format.view) := by
  funext q
  by_cases same : q = p
  · subst same
    rw [if_neg mine,Function.update_self,Function.update_self]
  · rw [Function.update_of_ne same,Function.update_of_ne same]
    rfl

theorem part_fetchPage (mine : p ∉ others) : Commutes format others (.fetchPage p) (.fetchPage p) s := by
  by_cases invalid : p = INVALID_PAGE_ID
  · simp only [Commutes,exec,if_pos invalid]
    rfl
  · cases null : s.script.headD false with
    | true =>
      simp only [Commutes,exec,if_neg invalid,part_script,null,if_true]
      rfl
    | false =>
      simp only [Commutes,exec,if_neg invalid,part_script,null,part_data mine]
      cases s.data p with
      | none => rfl
      | some bytes => simp only [Option.map_some,Except.map,part,filter_pin mine,Bool.false_eq_true,if_false]

theorem part_created {count : PageId} {rest free : List PageId} (mine : q ∉ others) (taken : free = rest ++ (unborn count ++ others)) :
    part format others { s.created rawFormat.blank q with free := rest, numPages := count } =
      { (part format others s).created format.blank q with free := free } := by
  simp only [part,Store.created,filter_pin mine,update_part mine,taken]
  rfl

/-- Both hand out the same page, which is not one of the others'. -/
theorem part_newPage (shares : Shares others s) (wf : WellFormed s) (room : ¬(s.free = [] ∧ s.numPages = INVALID_PAGE_ID)) :
    Commutes format others .newPage .newPage s := by
  have mine : ∀ q, s.data q = none → q ∉ others := fun q unused theirs => shares.allocated q theirs unused
  cases null : s.script.headD false with
  | true =>
    simp only [Commutes,exec,part_script,null,if_true]
    rfl
  | false =>
    simp only [Commutes,exec,part_script,null,Bool.false_eq_true,if_false]
    cases free : s.free with
    | cons q rest =>
      have unused : s.data q = none := wf.exclusive q (by simp [free])
      have parts : (part format others s).free = q :: (rest ++ (unborn s.numPages ++ others)) := by simp [part,free]
      rw [parts]
      exact congrArg (fun store => Except.ok (some q,store)) (part_created (mine q unused) rfl).symm
    | nil =>
      have left : s.numPages ≠ INVALID_PAGE_ID := fun full => room ⟨free,full⟩
      have unused : s.data s.numPages = none := by
        by_contra stored
        exact UInt32.lt_irrefl _ ((wf.partition _).mpr (.inr stored)).2
      have parts : (part format others s).free = s.numPages :: (unborn (s.numPages + 1) ++ others) := by simp [part,free,unborn_cons left]
      rw [parts,if_neg left]
      exact congrArg (fun store => Except.ok (some s.numPages,store)) (part_created (mine _ unused) (by simp [Store.created,free])).symm

theorem part_erase (mine : p ∉ others) (pinned : p ∈ s.pins) :
    (part format others s).pins.erase p = (s.pins.erase p).filter (fun q => q ∉ others) := by
  have whole : (part format others s).pins = p ::ₘ (s.pins.erase p).filter (fun q => q ∉ others) := by
    rw [← filter_pin mine,Multiset.cons_erase pinned]
    rfl
  rw [whole,Multiset.erase_cons_head]

theorem part_unpinPage {isDirty : Bool} (mine : p ∉ others) : Commutes format others (.unpinPage p isDirty) (.unpinPage p isDirty) s := by
  by_cases pinned : p ∈ s.pins
  · have pinned' : p ∈ (part format others s).pins := mem_part_pins.mpr ⟨pinned,mine⟩
    simp only [Commutes,exec,if_pos pinned,if_pos pinned',Except.map,part_erase mine pinned]
    simp only [part]
  · have free : p ∉ (part format others s).pins := fun pinned' => pinned (mem_part_pins.mp pinned').1
    simp only [Commutes,exec,if_neg pinned,if_neg free]
    rfl

theorem part_deletePage (mine : p ∉ others) : Commutes format others (.deletePage p) (.deletePage p) s := by
  by_cases pinned : p ∈ s.pins
  · have pinned' : p ∈ (part format others s).pins := mem_part_pins.mpr ⟨pinned,mine⟩
    simp only [Commutes,exec,if_pos pinned,if_pos pinned']
    rfl
  · have free : p ∉ (part format others s).pins := fun pinned' => pinned (mem_part_pins.mp pinned').1
    simp only [Commutes,exec,if_neg pinned,if_neg free,part_data mine]
    cases s.data p with
    | none => rfl
    | some bytes =>
      simp only [Option.map_some,Except.map]
      simp only [part,update_part mine]
      rfl

/-! ### The part of a tenant -/

/-- What a tenant finds on the pool beside its own pages: the others' bytes, pins and debts. -/
structure Rest where
  others : List PageId
  bytes : PageId → Option PageData
  pins : Multiset PageId
  due : PageId → Prop

/-- The machine holds the tenant's part beside the rest. -/
structure Lodges (format : Format D) (frames : Nat) (rest : Rest) (m : Machine) (t : Ledger D) (s : Store PageData) : Prop where
  backs : Backs rawFormat frames m s (fun p => t.owed p ∨ rest.due p)
  enough : t.ids ≤ idsLeft s
  part : t.store = part format rest.others s
  shares : Shares rest.others s
  bytes : ∀ p ∈ rest.others, s.data p = rest.bytes p
  pins : s.pins.filter (fun p => p ∈ rest.others) = rest.pins
  due : ∀ p, rest.due p → p ∈ rest.others
  owed : ∀ p, t.owed p → p ∉ rest.others

def Lodging (format : Format D) (frames : Nat) (rest : Rest) : Relation D := fun m t => ∃ s, Lodges format frames rest m t s

variable {frames : Nat} {rest : Rest} {m m' : Machine} {t : Ledger D} {β : Type}

/-- The account of the whole pool. -/
def Rest.whole (rest : Rest) (t : Ledger D) (s : Store PageData) : Ledger PageData :=
  { store := s, owed := fun p => t.owed p ∨ rest.due p, ids := t.ids }

/-- Where a call commutes with the part, the pool answers it as the part does. -/
theorem matched_part {op : PoolOp D β} (op' : PoolOp PageData β) (lodges : Lodges format frames rest m t s)
    (same : drive format op m = drive rawFormat op' m) (careful : Careful rawFormat op' (rest.whole t s))
    (commutes : ∀ script, Commutes format rest.others op op' { s with script })
    (keeps : ∀ answer s' script, exec rawFormat.blank op' { s with script } = .ok (answer,s') →
      (∀ p ∈ rest.others, s'.data p = s.data p) ∧ s'.pins.filter (fun p => p ∈ rest.others) = s.pins.filter (fun p => p ∈ rest.others) ∧
        (∀ p, owedAfter op answer t p → p ∉ rest.others) ∧
        ∀ p, owedAfter op' answer (rest.whole t s) p ↔ owedAfter op answer t p ∨ rest.due p)
    (ids : idsAfter op t = idsAfter op' (rest.whole t s)) :
    ∃ script, Matched format (Lodging format frames rest) op m t script := by
  obtain ⟨script,refused | ⟨answer,m',s',driven,⟨backs',enough'⟩,handled⟩⟩ := call_matched op' (t := rest.whole t s)
    ⟨lodges.backs,lodges.enough⟩ careful
  · refine ⟨script,.inl (fun later => ?_)⟩
    obtain ⟨reason,stopped,which⟩ := refused later
    refine ⟨reason,?_,which⟩
    have there := commutes (script ++ later)
    rw [Commutes] at there
    rw [lodges.part]
    exact there.trans (by rw [show exec rawFormat.blank op' { s with script := script ++ later } = .error reason from stopped]; rfl)
  · obtain ⟨data,pins,owed,debts⟩ := keeps answer { s' with script := [] } (script ++ []) (handled [])
    have owes : owedAfter op' answer (rest.whole t s) = fun p => owedAfter op answer t p ∨ rest.due p := funext (fun p => propext (debts p))
    refine ⟨script,.inr ⟨answer,m',part format rest.others s',same ▸ driven,⟨s',?_⟩,fun later => ?_⟩⟩
    · refine ⟨owes ▸ backs',le_of_eq_of_le ids enough',rfl,⟨lodges.shares.distinct,fun p theirs => ?_⟩,fun p theirs => ?_,pins.trans lodges.pins,
        lodges.due,owed⟩
      · rw [show s'.data p = s.data p from data p theirs]
        exact lodges.shares.allocated p theirs
      · exact (data p theirs).trans (lodges.bytes p theirs)
    · have there := commutes (script ++ later)
      rw [Commutes] at there
      rw [lodges.part]
      exact there.trans (by rw [show exec rawFormat.blank op' { s with script := script ++ later } = .ok (answer,_) from handled later]; rfl)

/-- A call that the part refuses. -/
theorem matched_refused {op : PoolOp D β} (script : List Bool) {reason : Fault} (which : Refused reason)
    (refused : ∀ later, exec format.blank op { t.store with script := script ++ later } = .error reason) :
    ∃ script, Matched format (Lodging format frames rest) op m t script := ⟨script,.inl (fun later => ⟨reason,refused later,which⟩)⟩

theorem lodged_fetchPage (lodges : Lodges format frames rest m t s) (p : PageId) :
    ∃ script, Matched format (Lodging format frames rest) (.fetchPage p) m t script := by
  by_cases theirs : p ∈ rest.others
  · refine matched_refused [false] (.inl rfl) (fun later => ?_)
    have valid : p ≠ INVALID_PAGE_ID := by
      rintro rfl
      exact lodges.shares.allocated _ theirs (invalid_unused lodges.backs.wellFormed)
    rw [lodges.part]
    simp only [exec,if_neg valid,part_data_none theirs]
    rfl
  · refine matched_part (.fetchPage p) lodges rfl trivial (fun script => part_fetchPage theirs) (fun answer s' script handled => ?_) rfl
    have same : s'.data = s.data ∧ s'.pins.filter (fun q => q ∈ rest.others) = s.pins.filter (fun q => q ∈ rest.others) := by
      rcases exec_fetchPage handled with ⟨_,_,rfl⟩ | ⟨_,_,rfl⟩
      · exact ⟨rfl,rfl⟩
      · exact ⟨rfl,Multiset.filter_cons_of_neg _ theirs⟩
    exact ⟨fun p _ => congrFun same.1 p,same.2,lodges.owed,fun p => Iff.rfl⟩

theorem lodged_newPage (lodges : Lodges format frames rest m t s) (asked : 0 < t.ids) :
    ∃ script, Matched format (Lodging format frames rest) .newPage m t script := by
  have room := idsLeft_pos (lt_of_lt_of_le asked lodges.enough)
  have wf := lodges.backs.wellFormed
  have rescripted : ∀ script, WellFormed { s with script } := fun script => ⟨wf.first,wf.distinct,wf.partition,wf.exclusive,wf.pinned⟩
  refine matched_part .newPage lodges rfl asked
    (fun script => part_newPage ⟨lodges.shares.distinct,lodges.shares.allocated⟩ (rescripted script) room) (fun answer s' script handled => ?_) rfl
  rcases exec_newPage rawFormat.blank (rescripted script) with ⟨null,_⟩ | ⟨q,left,count,made,unused,_⟩
  · rw [null] at handled
    cases handled
    exact ⟨fun p _ => rfl,rfl,lodges.owed,fun p => Iff.rfl⟩
  · rw [made] at handled
    cases handled
    have mine : q ∉ rest.others := fun theirs => lodges.shares.allocated q theirs unused
    refine ⟨fun p theirs => ?_,Multiset.filter_cons_of_neg _ mine,?_,fun p => or_assoc.symm⟩
    · exact Function.update_of_ne (show p ≠ q from fun same => mine (same ▸ theirs)) ..
    · rintro p (rfl | old)
      · exact mine
      · exact lodges.owed p old

theorem lodged_unpinPage {isDirty : Bool} (lodges : Lodges format frames rest m t s) (careful : Careful format (.unpinPage p isDirty) t) :
    ∃ script, Matched format (Lodging format frames rest) (.unpinPage p isDirty) m t script := by
  obtain ⟨pinned,last⟩ := careful
  rw [lodges.part] at pinned last
  obtain ⟨pinned,mine⟩ := mem_part_pins.mp pinned
  have apart : ∀ q, rest.due q → q ≠ p := fun q old same => mine (same ▸ lodges.due q old)
  refine matched_part (.unpinPage p isDirty) lodges rfl ⟨pinned,fun clean which => ?_⟩ (fun script => part_unpinPage mine)
    (fun answer s' script handled => ?_) rfl
  · have kept := last clean (which.resolve_right (fun old => apart p old rfl))
    rw [part_erase mine pinned] at kept
    exact Multiset.mem_of_mem_filter kept
  · obtain ⟨dirty,rfl⟩ := exec_unpinPage handled
    refine ⟨fun q _ => rfl,?_,fun q old => ?_,fun q => ?_⟩
    · rw [← Multiset.filter_cons_of_neg (p := fun q => q ∈ rest.others) _ mine,Multiset.cons_erase pinned]
    · cases isDirty with
      | true => exact lodges.owed q old.2
      | false => exact lodges.owed q old
    · cases isDirty with
      | true =>
        show q ≠ p ∧ (t.owed q ∨ rest.due q) ↔ q ≠ p ∧ t.owed q ∨ rest.due q
        have other := apart q
        tauto
      | false => exact Iff.rfl

theorem lodged_deletePage (lodges : Lodges format frames rest m t s) (p : PageId) :
    ∃ script, Matched format (Lodging format frames rest) (.deletePage p) m t script := by
  by_cases theirs : p ∈ rest.others
  · refine matched_refused [] (.inl rfl) (fun later => ?_)
    have free : p ∉ (part format rest.others s).pins := fun pinned => (mem_part_pins.mp pinned).2 theirs
    rw [lodges.part]
    simp only [exec,if_neg free,part_data_none theirs]
  · refine matched_part (.deletePage p) lodges rfl trivial (fun script => part_deletePage theirs) (fun answer s' script handled => ?_) rfl
    rcases exec_deletePage handled with ⟨_,_,rfl⟩ | ⟨_,_,_,rfl⟩
    · exact ⟨fun p _ => rfl,rfl,lodges.owed,fun p => Iff.rfl⟩
    · refine ⟨fun q there => ?_,rfl,lodges.owed,fun p => Iff.rfl⟩
      exact Function.update_of_ne (show q ≠ p from fun same => theirs (same ▸ there)) ..

theorem unpinned_refused (free : p ∉ t.store.pins) :
    (∃ script, Matched format (Lodging format frames rest) (.getData p) m t script) ∧
      ∃ script, Matched format (Lodging format frames rest) (.setData p d) m t script :=
  ⟨matched_refused [] (.inr rfl) (fun later => by simp only [exec,if_neg free]),
    matched_refused [] (.inr rfl) (fun later => by simp only [exec,if_neg free])⟩

/-- The bytes of a page that the tenant has pinned are in its frame. -/
theorem Lodges.framed (lodges : Lodges format frames rest m t s) (pinned : p ∈ t.store.pins) : p ∉ rest.others ∧ p ∈ s.pins ∧
    s.data p = some (m.pool.pages (m.pointer p)).data ∧ t.store.data p = some (format.view (m.pool.pages (m.pointer p)).data) := by
  rw [lodges.part] at pinned
  obtain ⟨pinned,mine⟩ := mem_part_pins.mp pinned
  obtain ⟨bytes,stored⟩ := Option.ne_none_iff_exists'.mp (lodges.backs.wellFormed.pinned p pinned)
  have framed : (m.pool.pages (m.pointer p)).data = bytes := by
    rw [← BufferPoolFrames.current_cached (lodges.backs.bound p pinned)]
    exact lodges.backs.shown p bytes stored
  refine ⟨mine,pinned,by rw [framed,stored],?_⟩
  rw [lodges.part,part_data mine,stored,framed]
  rfl

theorem lodged_getData (lodges : Lodges format frames rest m t s) (p : PageId) :
    ∃ script, Matched format (Lodging format frames rest) (.getData p) m t script := by
  by_cases pinned : p ∈ t.store.pins
  · obtain ⟨_,_,_,stored⟩ := lodges.framed pinned
    exact ⟨[],.inr ⟨_,m,t.store,rfl,⟨s,lodges⟩,fun later => by simp only [exec,if_pos pinned,stored,List.nil_append]⟩⟩
  · exact (unpinned_refused (d := format.blank) pinned).1

theorem lodged_setData (lodges : Lodges format frames rest m t s) (fits : format.Fits d) :
    ∃ script, Matched format (Lodging format frames rest) (.setData p d) m t script := by
  by_cases pinned : p ∈ t.store.pins
  · obtain ⟨mine,pinned',framed,stored⟩ := lodges.framed pinned
    have written := lodges.backs.written pinned' (d := format.store (m.pool.pages (m.pointer p)).data d) trivial
    have debts : (fun q => q = p ∧ s.data p ≠ some (format.store (m.pool.pages (m.pointer p)).data d) ∨ t.owed q ∨ rest.due q) =
        fun q => (q = p ∧ t.store.data p ≠ some d ∨ t.owed q) ∨ rest.due q := by
      have same : s.data p = some (format.store (m.pool.pages (m.pointer p)).data d) ↔ t.store.data p = some d := by
        rw [framed,stored,Option.some.injEq,Option.some.injEq]
        constructor
        · intro equal
          rw [equal,format.view_store fits]
        · rintro rfl
          exact (format.store_view _).symm
      funext q
      rw [ne_eq,ne_eq,same,or_assoc]
    rw [debts] at written
    have kept : ∀ q ∈ rest.others, Function.update s.data p (some (format.store (m.pool.pages (m.pointer p)).data d)) q = s.data q :=
      fun q theirs => Function.update_of_ne (show q ≠ p from fun same => mine (same ▸ theirs)) ..
    refine ⟨[],.inr ⟨(),_,{ t.store with data := Function.update t.store.data p (some d) },rfl,⟨_,written,lodges.enough,?_,?_,?_,lodges.pins,
      lodges.due,?_⟩,fun later => by simp only [exec,if_pos pinned,List.nil_append]⟩⟩
    · simp only [part,update_part mine,Option.map_some,format.view_store fits,lodges.part]
      rfl
    · exact ⟨lodges.shares.distinct,fun q theirs gone => lodges.shares.allocated q theirs ((kept q theirs).symm.trans gone)⟩
    · exact fun q theirs => (kept q theirs).trans (lodges.bytes q theirs)
    · rintro q (⟨rfl,_⟩ | old)
      · exact mine
      · exact lodges.owed q old
  · exact (unpinned_refused pinned).2

/-- A pool that others use too is a host of a client. -/
theorem lodging_host : Host format frames rest.pins (Lodging format frames rest) where
  rescript := by
    rintro m t ⟨s,lodges⟩ script
    exact ⟨{ s with script },lodges.backs.rescript script,lodges.enough,by rw [Ledger.rescript,lodges.part]; rfl,
      ⟨lodges.shares.distinct,lodges.shares.allocated⟩,lodges.bytes,lodges.pins,lodges.due,lodges.owed⟩
  matched := by
    rintro β op m t ⟨s,lodges⟩ careful
    cases op with
    | fetchPage p => exact lodged_fetchPage lodges p
    | newPage => exact lodged_newPage lodges careful
    | unpinPage p isDirty => exact lodged_unpinPage lodges careful
    | deletePage p => exact lodged_deletePage lodges p
    | getData p => exact lodged_getData lodges p
    | setData p d => exact lodged_setData lodges careful
  told := by
    rintro β op m t answer m' ⟨s,lodges⟩ driven
    have total : t.store.pins + rest.pins = s.pins := by
      rw [lodges.part,← lodges.pins]
      exact pins_part.symm
    cases op with
    | fetchPage p =>
      have told : Told frames 0 (.fetchPage p : PoolOp PageData _) s answer := told_of_backs lodges.backs driven
      rwa [Told,add_zero,← total] at told
    | newPage =>
      have told : Told frames 0 (.newPage : PoolOp PageData _) s answer := told_of_backs lodges.backs driven
      rwa [Told,add_zero,← total] at told
    | unpinPage p isDirty => trivial
    | deletePage p => trivial
    | getData p => trivial
    | setData p d => trivial

end
end Aether.Tenants
