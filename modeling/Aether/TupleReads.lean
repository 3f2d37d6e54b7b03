import Aether.PageUpdates

/-!
Where `GetTuple` reads. The bytes of a slot are the bytes of some tuple, but how
many of them `Deserialize` reads is up to the schema and to the lengths of
strings in the bytes. It stays inside the slot when the bytes of the tuple,
alone, decode by the schema.
-/
namespace Aether.TupleReads
open Aether.Bytes Aether.Types Aether.Tuples Aether.TablePages Aether.PageLayout Aether.PageUpdates

/-- Bytes as a block that ends with them. -/
def blockOf (bytes : List UInt8) : Block bytes.length := fun i => bytes.get i

/-- The first bytes of a block. -/
def cut {n k : Nat} (b : Block n) (inside : k ≤ n) : Block k := fun i => b ⟨i.val,by omega⟩

/-- The bytes decode by the schema without a read past their end. -/
def Decodes (schema : Schema) (bytes : List UInt8) : Prop := (Tuple.deserialize (blockOf bytes) 0 schema).isSome

instance (schema : Schema) (bytes : List UInt8) : Decidable (Decodes schema bytes) := inferInstanceAs (Decidable (_ = true))

/-- `Deserialize` from `start` on reads no byte outside the `len` bytes from there:
    whatever the other bytes are, and if the memory ends right after them, it
    gives the same tuple. -/
def ReadsWithin {n : Nat} (b : Block n) (start len : Nat) (schema : Schema) : Prop :=
  ∃ tuple, ∀ (m : Nat) (b' : Block m), start + len ≤ m → b'.slice start len = b.slice start len →
    Tuple.deserialize b' start schema = some tuple

section
variable {n m start src len k : Nat} {b : Block n} {c : Block m} {schema : Schema} {bytes : List UInt8}

theorem slice_blockOf (sized : bytes.length = len) : (blockOf bytes).slice 0 len = bytes := by
  subst sized
  apply List.ext_getElem
  · rw [Block.slice_length]
  · intro k _ inside
    rw [Block.getElem_slice]
    unfold Block.byte
    rw [dif_pos (by omega)]
    simp [blockOf]

theorem slice_cut (inside : k ≤ n) (low : start + len ≤ k) : (cut b inside).slice start len = b.slice start len := by
  unfold Block.slice
  apply List.map_congr_left
  intro i member
  have := List.mem_range.mp member
  unfold Block.byte
  rw [dif_pos (by omega),dif_pos (by omega)]
  rfl

/-- Parts of the same bytes are the same. -/
theorem slice_part (same : c.slice src len = b.slice start len) {i : Nat} (inside : i + k ≤ len) :
    c.slice (src + i) k = b.slice (start + i) k := by
  have whole : len = i + (k + (len - i - k)) := by omega
  rw [whole,Block.slice_add,Block.slice_add b,Block.slice_add c (src + i),Block.slice_add b (start + i)] at same
  obtain ⟨_,later⟩ := List.append_inj same (by simp)
  exact (List.append_inj later (by simp)).1

/-! ### Reading the same bytes elsewhere -/

variable (fits : src + len ≤ m) (same : c.slice src len = b.slice start len) (last : start + len = n)
include fits same last

/-- A read in the block that ends with the bytes is the same read in any block
    that has them. -/
theorem read_moved {i : Nat} {out : List UInt8} (done : b.read (start + i) k = some out) :
    c.read (src + i) k = some out := by
  unfold Block.read at *
  split_ifs at done with inside
  rw [if_pos (by omega),slice_part same (by omega)]
  exact done

theorem read32_moved {i : Nat} {out : UInt32} (done : b.read32 (start + i) = some out) : c.read32 (src + i) = some out := by
  unfold Block.read32 at *
  split_ifs at done with inside
  have part : c.slice (src + i) 4 = b.slice (start + i) 4 := slice_part same (by omega)
  rw [Block.slice_bytesOf (b := b)] at part
  rw [if_pos (by omega),Block.get32_of_slice part]
  exact done

theorem deserialize_moved {i : Nat} {type : TypeId} {val : Value} (done : Value.deserialize b (start + i) type = some val) :
    Value.deserialize c (src + i) type = some val := by
  cases type with
  | INVALID => exact done
  | INT =>
    obtain ⟨low,first,later⟩ := Option.bind_eq_some_iff.mp done
    obtain ⟨high,second,last'⟩ := Option.bind_eq_some_iff.mp later
    rw [Nat.add_assoc] at second
    simp only [Value.deserialize,Option.bind_eq_bind,Nat.add_assoc]
    rw [read32_moved fits same last first,Option.bind_some,read32_moved fits same last second]
    exact last'
  | BOOLEAN =>
    obtain ⟨byte,first,last'⟩ := Option.bind_eq_some_iff.mp done
    simp only [Value.deserialize,Option.bind_eq_bind]
    rw [read_moved fits same last first]
    exact last'
  | VARCHAR =>
    obtain ⟨length,first,later⟩ := Option.bind_eq_some_iff.mp done
    obtain ⟨string,second,last'⟩ := Option.bind_eq_some_iff.mp later
    rw [Nat.add_assoc] at second
    simp only [Value.deserialize,Option.bind_eq_bind,Nat.add_assoc]
    rw [read32_moved fits same last first,Option.bind_some,read_moved fits same last second]
    exact last'

/-- The loop of `Deserialize`, by induction on the columns that are left. -/
theorem deserializeFrom_moved : ∀ (left i : Nat) (offset : UInt32) (tuple : Tuple),
    Tuple.deserializeFrom b start schema left i offset = some tuple →
    Tuple.deserializeFrom c src schema left i offset = some tuple
  | 0, _, _, _, done => done
  | left + 1, i, offset, tuple, done => by
    obtain ⟨col,column,later⟩ := Option.bind_eq_some_iff.mp done
    obtain ⟨val,first,later⟩ := Option.bind_eq_some_iff.mp later
    obtain ⟨rest,second,last'⟩ := Option.bind_eq_some_iff.mp later
    simp only [Tuple.deserializeFrom,Option.bind_eq_bind]
    rw [column,Option.bind_some,deserialize_moved fits same last first,Option.bind_some,
      deserializeFrom_moved left (i + 1) _ rest second]
    exact last'

end

section
variable {n start len : Nat} {b : Block n} {schema : Schema}

/-- The bytes alone decide. -/
theorem readsWithin_iff (fits : start + len ≤ n) : ReadsWithin b start len schema ↔ Decodes schema (b.slice start len) := by
  have length : (b.slice start len).length = len := Block.slice_length
  constructor
  · rintro ⟨tuple,reads⟩
    have here : (cut b fits).slice start len = b.slice start len := slice_cut fits (le_refl _)
    have done := reads _ (cut b fits) (le_refl _) here
    have alone : (blockOf (b.slice start len)).slice 0 len = (cut b fits).slice start len := by rw [here,slice_blockOf length]
    exact Option.isSome_iff_exists.mpr ⟨tuple,deserializeFrom_moved (by omega) alone rfl _ _ _ _ done⟩
  · intro decodes
    obtain ⟨tuple,done⟩ := Option.isSome_iff_exists.mp decodes
    refine ⟨tuple,?_⟩
    intro m b' inside same
    have alone : b'.slice start len = (blockOf (b.slice start len)).slice 0 len := by rw [same,slice_blockOf length]
    exact deserializeFrom_moved inside alone (by omega) _ _ _ _ done

/-- The bytes of a tuple that matches the schema decode by it. -/
theorem decodes_of_matches {tuple : Tuple} (short : tuple.bytes.length < 4294967296) (types : tuple.Matches schema) :
    Decodes schema tuple.bytes :=
  Option.isSome_iff_exists.mpr ⟨_,Tuple.deserialize_stored short types (by omega) (slice_blockOf rfl)⟩

end

/-! ### Runs of operations -/

/-- The tuple that an operation may store decodes by the schema. -/
def Conforms (schema : Schema) (op : PageOp) : Prop := op.bytes = [] ∨ Decodes schema op.bytes

instance (schema : Schema) (op : PageOp) : Decidable (Conforms schema op) := inferInstanceAs (Decidable (_ ∨ _))

/-- Every tuple of the page is read inside its slot. -/
def Contained (page : TablePage) (schema : Schema) : Prop :=
  ∀ i, Live page i → ReadsWithin page (offset page i) (length page i) schema

section
variable {page page' fresh : TablePage} {pageId prevPageId : PageId} {schema : Schema}

theorem contained_iff (layout : Layout page) :
    Contained page schema ↔ ∀ i bytes, content page i = some bytes → Decodes schema bytes := by
  constructor
  · intro contained i bytes stored
    obtain ⟨live,rfl⟩ := content_eq_some.mp stored
    exact (readsWithin_iff (layout.inside i live).2).mp (contained i live)
  · intro decodes i live
    exact (readsWithin_iff (layout.inside i live).2).mpr (decodes i _ (content_eq_some.mpr ⟨live,rfl⟩))

/-- One operation: the reads stay inside the slots exactly when the tuple stored
    decodes. -/
theorem contained_step (layout : Layout page) (contained : Contained page schema) {op : PageOp} {slot : Option UInt32}
    (ran : perform page op = some (slot,page')) : Contained page' schema ↔ slot = none ∨ Conforms schema op := by
  rcases perform_done layout ran with ⟨rfl,rfl⟩ | ⟨slotNum,rfl,stored⟩
  · exact iff_of_true contained (.inl rfl)
  · rw [contained_iff stored.layout]
    constructor
    · intro decodes
      by_cases nothing : op.bytes = []
      · exact .inr (.inl nothing)
      · have here := stored.contents slotNum.toNat
        rw [if_pos rfl,if_neg nothing] at here
        exact .inr (.inr (decodes _ _ here))
    · rintro (refused | conforms) i bytes found
      · cases refused
      · rw [stored.contents i] at found
        split_ifs at found with same nothing
        · cases found
          exact conforms.resolve_left nothing
        · exact (contained_iff layout).mp contained i bytes found

/-- There is no access outside the page. -/
theorem getTuple_contained (layout : Layout page) (contained : Contained page schema) (slotNum : UInt32) :
    ∃ found, page.getTuple slotNum schema = some found := by
  rw [getTuple_eq layout]
  split_ifs with live
  · obtain ⟨tuple,reads⟩ := contained slotNum.toNat live
    have done := reads _ page (layout.inside _ live).2 rfl
    exact ⟨some tuple,by rw [done]; rfl⟩
  · exact ⟨none,rfl⟩

/-- In every run whose tuples decode by the schema, `GetTuple` with it reads the
    bytes of the slot and no others; and after any tuple stored that does not
    decode it reads elsewhere. -/
theorem getTuple_reads_within (runs : Runs.Runs nextPage (fun _ op => Conforms schema op) (fresh.init pageId prevPageId) page) :
    Contained page schema ∧ (∀ slotNum, ∃ found, page.getTuple slotNum schema = some found) ∧
      ∀ op slot page', perform page op = some (some slot,page') → (Contained page' schema ↔ Conforms schema op) := by
  have contained : Contained page schema := by
    have both : Layout page ∧ Contained page schema := by
      refine runs.invariant (fun page => Layout page ∧ Contained page schema) ?_ ?_
      · exact ⟨layout_init fresh pageId prevPageId,fun i live => (init_not_live i live).elim⟩
      · rintro page op page' ⟨layout,contained⟩ conforms moved
        have layout' := layout_step layout moved
        obtain ⟨⟨slot,after⟩,ran,same⟩ := Option.map_eq_some_iff.mp moved
        cases same
        exact ⟨layout',(contained_step layout contained ran).mpr (.inr conforms)⟩
    exact both.2
  refine ⟨contained,getTuple_contained (layout_reached runs) contained,?_⟩
  intro op slot page' ran
  rw [contained_step (layout_reached runs) contained ran]
  exact or_iff_right (by simp)

/-- Tuples of all types of columns, a shorter one in the place of a longer one, and
    an update that moves a tuple. -/
def records : List PageOp :=
  [.insertTuple Tuple.mixedTuple,.updateTuple 0 [.int 3,.varchar [],.boolean false,.varchar [66]],
    .insertTuple Tuple.mixedTuple,.deleteTuple 1,.updateTuple 0 [.int 3,.varchar [1,2,3,4],.boolean false,.varchar [66]]]

theorem getTuple_reads_within_records : ∃ page, Runs.follow nextPage (fun _ op => Conforms Tuple.mixed op)
    (TablePage.init (Block.zeros 4096) 1 INVALID_PAGE_ID) records = some page ∧ Contained page Tuple.mixed ∧
      (∀ slotNum, ∃ found, page.getTuple slotNum Tuple.mixed = some found) ∧
      ∀ op slot page', perform page op = some (some slot,page') → (Contained page' Tuple.mixed ↔ Conforms Tuple.mixed op) := by
  obtain ⟨page,followed⟩ : ∃ page, Runs.follow nextPage (fun _ op => Conforms Tuple.mixed op)
      (TablePage.init (Block.zeros 4096) 1 INVALID_PAGE_ID) records = some page :=
    Option.isSome_iff_exists.mp (by decide +kernel)
  exact ⟨page,followed,getTuple_reads_within (Runs.runs_of_follow followed)⟩

/-- The page takes a tuple of one byte for a schema of one integer. `GetTuple` then
    reads eight bytes from the last byte of the page on. -/
theorem boolean_read_as_int : ∃ page, Runs.follow nextPage (fun _ op => Short op)
    (TablePage.init (Block.zeros 4096) 1 INVALID_PAGE_ID) [.insertTuple [.boolean true]] = some page ∧
      Live page 0 ∧ page.getTuple 0 ⟨[⟨.INT⟩]⟩ = none ∧ ¬Contained page ⟨[⟨.INT⟩]⟩ := by
  have ran : ((Runs.follow nextPage (fun _ op => Short op) (TablePage.init (Block.zeros 4096) 1 INVALID_PAGE_ID)
      [.insertTuple [.boolean true]]).map fun page => (decide (Live page 0),page.getTuple 0 ⟨[⟨.INT⟩]⟩)) =
      some (true,none) := by decide +kernel
  obtain ⟨page,followed,same⟩ := Option.map_eq_some_iff.mp ran
  obtain ⟨live,read⟩ := Prod.mk.inj same
  refine ⟨page,followed,of_decide_eq_true live,read,?_⟩
  intro contained
  obtain ⟨found,done⟩ := getTuple_contained (layout_reached (Runs.runs_of_follow followed)) contained 0
  rw [read] at done
  cases done

end
end Aether.TupleReads
