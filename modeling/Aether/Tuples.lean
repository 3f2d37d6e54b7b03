import Aether.Bytes
import Mathlib.Tactic.Linarith

/-!
Values, tuples and their serialized form. Lengths are 32-bit words here and the
bytes of a tuple are written and read inside a block: a write or a read past its
end is a fault.
-/
namespace Aether.Tuples
open Aether.Bytes

inductive TypeId
  | INVALID
  | INT
  | VARCHAR
  | BOOLEAN
  deriving DecidableEq, Repr

/-- A column; what its name and length are plays no part in serialization. -/
structure Column where
  type : TypeId
  deriving DecidableEq, Repr

structure Schema where
  columns : List Column
  deriving DecidableEq, Repr

/-- The number of columns, as a 32-bit word. -/
def Schema.getColumnCount (schema : Schema) : UInt32 := UInt32.ofNat schema.columns.length
/-- A column, or the exception out of range. -/
def Schema.getColumn (schema : Schema) (colIdx : Nat) : Option Column := schema.columns[colIdx]?

/-- A value with its type; a string is a string of bytes. -/
inductive Value
  | invalid
  | int (intVal : Int64)
  | varchar (strVal : List UInt8)
  | boolean (boolVal : Bool)
  deriving DecidableEq, Repr

/-- The eight bytes of an integer. -/
def bytesOf64 (x : Int64) : List UInt8 :=
  bytesOf (UInt32.ofNat (x.toUInt64.toNat % 4294967296)) ++ bytesOf (UInt32.ofNat (x.toUInt64.toNat / 4294967296))

/-- The integer of a low and a high word. -/
def int64Of (low high : UInt32) : Int64 := (UInt64.ofNat (low.toNat + 4294967296 * high.toNat)).toInt64

namespace Value
variable {n : Nat}

def getType : Value → TypeId
  | invalid => .INVALID
  | int _ => .INT
  | varchar _ => .VARCHAR
  | boolean _ => .BOOLEAN

def serialize (val : Value) (b : Block n) (dest : Nat) : Option (Block n) :=
  match val with
  | int intVal => b.write dest (bytesOf64 intVal)
  | boolean boolVal => b.write dest [if boolVal then 1 else 0]
  | varchar strVal => do
    let len := UInt32.ofNat strVal.length
    let b ← b.write dest (bytesOf len)
    b.write (dest + 4) (strVal.take len.toNat)
  | invalid => some b

def deserialize (b : Block n) (src : Nat) : TypeId → Option Value
  | .INT => do
    let low ← b.read32 src
    let high ← b.read32 (src + 4)
    return int (int64Of low high)
  | .BOOLEAN => do
    let bytes ← b.read src 1
    return boolean (bytes.headD 0 != 0)
  | .VARCHAR => do
    let len ← b.read32 src
    return varchar (← b.read (src + 4) len.toNat)
  | .INVALID => some invalid

def getSerializedLength : Value → UInt32
  | int _ => 8
  | boolean _ => 1
  | varchar strVal => UInt32.ofNat (4 + strVal.length)
  | invalid => 0

end Value

abbrev Tuple := List Value

namespace Tuple
variable {n : Nat}

/-- The loop of `Serialize` over the values that are left, `offset` bytes on. -/
def serializeFrom (b : Block n) (dest : Nat) : List Value → UInt32 → Option (Block n)
  | [], _ => some b
  | val :: rest, offset => do
    let b ← val.serialize b (dest + offset.toNat)
    serializeFrom b dest rest (offset + val.getSerializedLength)

def serialize (tuple : Tuple) (b : Block n) (dest : Nat) : Option (Block n) := serializeFrom b dest tuple 0

/-- The loop of `Deserialize` with `left` columns to read, from column `i` on. -/
def deserializeFrom (b : Block n) (src : Nat) (schema : Schema) : Nat → Nat → UInt32 → Option Tuple
  | 0, _, _ => some []
  | left + 1, i, offset => do
    let col ← schema.getColumn i
    let val ← Value.deserialize b (src + offset.toNat) col.type
    let rest ← deserializeFrom b src schema left (i + 1) (offset + val.getSerializedLength)
    return val :: rest

def deserialize (b : Block n) (src : Nat) (schema : Schema) : Option Tuple :=
  deserializeFrom b src schema schema.getColumnCount.toNat 0 0

def getSerializedLength (tuple : Tuple) : UInt32 :=
  tuple.foldl (fun length val => length + val.getSerializedLength) 0

/-- The value types match the schema: there are `getColumnCount` values, each of
    the type of its column. -/
def Matches (tuple : Tuple) (schema : Schema) : Prop :=
  tuple.map Value.getType = (schema.columns.take schema.getColumnCount.toNat).map Column.type

instance (tuple : Tuple) (schema : Schema) : Decidable (tuple.Matches schema) :=
  inferInstanceAs (Decidable (_ = _))

end Tuple

/-! ### What is written -/

namespace Value
variable {n : Nat} {b : Block n} {dest src : Nat} {val : Value}

/-- The bytes that `serialize` writes. -/
def bytes : Value → List UInt8
  | invalid => []
  | int intVal => bytesOf64 intVal
  | varchar strVal => bytesOf (UInt32.ofNat strVal.length) ++ strVal.take (UInt32.ofNat strVal.length).toNat
  | boolean boolVal => [if boolVal then 1 else 0]

/-- The value that these bytes stand for: the length of a string is stored in a
    32-bit word. -/
def stored : Value → Value
  | varchar strVal => varchar (strVal.take (UInt32.ofNat strVal.length).toNat)
  | val => val

/-- The number of bytes of a value, without a bound. -/
def size : Value → Nat
  | invalid => 0
  | int _ => 8
  | varchar strVal => 4 + strVal.length
  | boolean _ => 1

@[simp] theorem bytesOf64_length (x : Int64) : (bytesOf64 x).length = 8 := rfl

theorem stored_length {strVal : List UInt8} :
    (strVal.take (UInt32.ofNat strVal.length).toNat).length = strVal.length % 4294967296 := by
  rw [List.length_take,UInt32.toNat_ofNat']
  exact Nat.min_eq_left (Nat.mod_le _ _)

theorem bytes_length_le (val : Value) : val.bytes.length ≤ val.size := by
  cases val with
  | varchar strVal =>
    rw [bytes,List.length_append,bytesOf_length,stored_length,size]
    have less := Nat.mod_le strVal.length 4294967296
    omega
  | _ => simp [bytes,size]

/-- What is written has the length that `getSerializedLength` announces, up to
    the wrap of 32 bits. -/
theorem getSerializedLength_toNat (val : Value) : val.getSerializedLength.toNat = val.bytes.length % 4294967296 := by
  cases val with
  | varchar strVal =>
    rw [bytes,List.length_append,bytesOf_length,stored_length,getSerializedLength,UInt32.toNat_ofNat']
    omega
  | _ => rfl

theorem serialize_eq (inside : dest ≤ n) : val.serialize b dest = b.write dest val.bytes := by
  cases val with
  | invalid => simp [serialize,Block.write,bytes,inside]
  | int intVal => rfl
  | boolean boolVal => rfl
  | varchar strVal =>
    unfold bytes
    rw [Block.write_append]
    rfl

/-- Nothing is written past the end. -/
theorem serialize_past {b' : Block n} (past : n < dest) (done : val.serialize b dest = some b') :
    val.bytes = [] ∧ val.getSerializedLength = 0 := by
  cases val with
  | invalid => exact ⟨rfl,rfl⟩
  | int intVal =>
    have refused : ¬dest + 8 ≤ n := by omega
    simp [serialize,Block.write,refused] at done
  | boolean boolVal =>
    have refused : ¬dest + 1 ≤ n := by omega
    simp [serialize,Block.write,refused] at done
  | varchar strVal =>
    have refused : ¬dest + 4 ≤ n := by omega
    simp [serialize,Block.write,refused] at done

theorem int64Of_words (x : Int64) : int64Of (UInt32.ofNat (x.toUInt64.toNat % 4294967296))
    (UInt32.ofNat (x.toUInt64.toNat / 4294967296)) = x := by
  have bound := x.toUInt64.toNat_lt
  have sum : x.toUInt64.toNat % 4294967296 + 4294967296 * (x.toUInt64.toNat / 4294967296) = x.toUInt64.toNat := by omega
  have word : ∀ m, m < 4294967296 → (UInt32.ofNat m).toNat = m := fun m small => by simpa using small
  unfold int64Of
  rw [word _ (by omega),word _ (by omega),sum,UInt64.ofNat_toNat,Int64.toInt64_toUInt64]

/-- A value is read back from its bytes. -/
theorem deserialize_stored (fits : src + val.bytes.length ≤ n) (here : b.slice src val.bytes.length = val.bytes) :
    deserialize b src val.getType = some val.stored := by
  cases val with
  | invalid => rfl
  | int intVal =>
    simp only [bytes,bytesOf64_length] at fits here
    have parts := Block.slice_add b src 4 4
    rw [here] at parts
    obtain ⟨low,high⟩ := List.append_inj parts rfl
    unfold getType deserialize Block.read32
    rw [if_pos (by omega),if_pos (by omega),Block.get32_of_slice low.symm,Block.get32_of_slice high.symm]
    simp [int64Of_words,stored]
  | boolean boolVal =>
    simp only [bytes,List.length_singleton] at fits here
    unfold getType deserialize Block.read
    rw [if_pos fits,here]
    cases boolVal <;> rfl
  | varchar strVal =>
    simp only [bytes,List.length_append,bytesOf_length] at fits here
    rw [Block.slice_add] at here
    obtain ⟨word,string⟩ := List.append_inj here (by simp)
    have length : (UInt32.ofNat strVal.length).toNat = (strVal.take (UInt32.ofNat strVal.length).toNat).length := by
      rw [stored_length,UInt32.toNat_ofNat']
    unfold getType deserialize Block.read32 Block.read
    rw [if_pos (by omega),Block.get32_of_slice word]
    simp only [Option.bind_eq_bind,Option.bind_some]
    rw [length,if_pos (by omega),string]
    rfl

theorem stored_bytes (val : Value) : val.stored.bytes = val.bytes := by
  cases val with
  | varchar strVal =>
    have word : UInt32.ofNat (strVal.length % 4294967296) = UInt32.ofNat strVal.length := by
      rw [← UInt32.toNat_inj,UInt32.toNat_ofNat',UInt32.toNat_ofNat']
      omega
    simp only [stored,bytes,stored_length,word,List.take_take,min_self]
  | _ => rfl

/-- A value is stored as it is unless it is a string of 2^32 bytes or more. -/
theorem stored_eq_iff : val.stored = val ↔ val.bytes.length = val.size := by
  cases val with
  | varchar strVal =>
    rw [bytes,List.length_append,bytesOf_length,stored_length,size]
    constructor
    · intro same
      have lengths := congrArg (fun v => v.size) same
      simp only [stored,size,stored_length] at lengths
      omega
    · intro same
      have whole : (UInt32.ofNat strVal.length).toNat = strVal.length := by
        rw [UInt32.toNat_ofNat']
        omega
      simp only [stored,whole,List.take_length]
  | _ => simp [stored,bytes,size]

end Value

namespace Tuple
variable {n : Nat} {b : Block n} {dest src : Nat} {tuple : Tuple} {schema : Schema}

/-- The bytes that `serialize` writes. -/
def bytes (tuple : Tuple) : List UInt8 := tuple.flatMap Value.bytes

/-- The number of bytes of a tuple, without a bound. -/
def size (tuple : Tuple) : Nat := (tuple.map Value.size).sum

@[simp] theorem bytes_cons {val : Value} : bytes (val :: tuple) = val.bytes ++ bytes tuple := rfl

theorem size_cons {val : Value} : size (val :: tuple) = val.size + size tuple := by simp [size]

theorem bytes_length_le : ∀ tuple : Tuple, tuple.bytes.length ≤ tuple.size
  | [] => le_refl _
  | val :: rest => by
    rw [bytes_cons,size_cons,List.length_append]
    exact Nat.add_le_add val.bytes_length_le (bytes_length_le rest)

theorem length_foldl : ∀ (tuple : Tuple) (length : UInt32),
    (tuple.foldl (fun length val => length + val.getSerializedLength) length).toNat =
      (length.toNat + tuple.bytes.length) % 4294967296
  | [], length => by
    have bound := length.toNat_lt
    simp only [List.foldl_nil,bytes,List.flatMap_nil,List.length_nil]
    omega
  | val :: rest, length => by
    rw [List.foldl_cons,length_foldl rest,bytes_cons,List.length_append,UInt32.toNat_add,
      Value.getSerializedLength_toNat]
    omega

theorem getSerializedLength_toNat (tuple : Tuple) :
    tuple.getSerializedLength.toNat = tuple.bytes.length % 4294967296 := by
  unfold getSerializedLength
  rw [length_foldl]
  simp

/-- The loop of `Serialize`, by induction on the values that are left: in a block or
    for a tuple of less than 2^32 bytes the offset does not wrap as long as no write
    leaves the block. -/
theorem serializeFrom_eq : ∀ (tuple : Tuple) (b : Block n) (offset : UInt32),
    n < 4294967296 ∨ offset.toNat + tuple.bytes.length < 4294967296 → dest + offset.toNat ≤ n →
    serializeFrom b dest tuple offset = b.write (dest + offset.toNat) tuple.bytes
  | [], b, offset, _, inside => by simp [serializeFrom,Block.write,bytes,inside]
  | val :: rest, b, offset, small, inside => by
    rw [bytes_cons,List.length_append] at small
    rw [serializeFrom,Value.serialize_eq inside,bytes_cons]
    by_cases fits : dest + offset.toNat + val.bytes.length ≤ n
    · have next : (offset + val.getSerializedLength).toNat = offset.toNat + val.bytes.length := by
        rw [UInt32.toNat_add,Value.getSerializedLength_toNat]
        omega
      have written : b.write (dest + offset.toNat) val.bytes = some (b.put (dest + offset.toNat) val.bytes) := if_pos fits
      rw [Block.write_append,written,Option.bind_eq_bind,Option.bind_some,Option.bind_some,
        serializeFrom_eq rest _ _ (by omega) (by omega),next,Nat.add_assoc]
    · have refused : b.write (dest + offset.toNat) val.bytes = none := if_neg fits
      rw [Block.write_append,refused]
      rfl

/-- `serialize` writes the bytes of the tuple, or leaves the block. -/
theorem serialize_eq (small : n < 4294967296 ∨ tuple.bytes.length < 4294967296) (inside : dest ≤ n) :
    tuple.serialize b dest = b.write dest tuple.bytes := by
  unfold serialize
  rw [serializeFrom_eq tuple b 0 (by simpa using small) (by simpa using inside)]
  simp

theorem serializeFrom_past : ∀ (tuple : Tuple) (b b' : Block n) (offset : UInt32), n < dest + offset.toNat →
    serializeFrom b dest tuple offset = some b' → tuple.bytes = []
  | [], _, _, _, _, _ => rfl
  | val :: rest, b, b', offset, past, done => by
    obtain ⟨b₁,first,later⟩ := Option.bind_eq_some_iff.mp done
    obtain ⟨nothing,still⟩ := Value.serialize_past past first
    rw [still,UInt32.add_zero] at later
    rw [bytes_cons,nothing,List.nil_append]
    exact serializeFrom_past rest b₁ b' offset past later

/-- What a `serialize` without a fault has written. -/
theorem serialize_done {b' : Block n} (small : n < 4294967296) (done : tuple.serialize b dest = some b') :
    tuple.bytes.length ≤ n ∧ (dest ≤ n → dest + tuple.bytes.length ≤ n ∧ b' = b.put dest tuple.bytes) := by
  by_cases inside : dest ≤ n
  · rw [serialize_eq (.inl small) inside,Block.write] at done
    split_ifs at done with fits
    cases done
    exact ⟨by omega,fun _ => ⟨fits,rfl⟩⟩
  · have nothing := serializeFrom_past tuple b b' 0 (by simpa using inside) done
    rw [nothing]
    exact ⟨Nat.zero_le _,fun inside' => (inside inside').elim⟩

/-- The loop of `Deserialize` over columns that match, by induction on the values
    that are left. -/
theorem deserializeFrom_stored : ∀ (tuple : Tuple) (i : Nat) (offset : UInt32),
    offset.toNat + tuple.bytes.length < 4294967296 →
    tuple.map Value.getType = ((schema.columns.drop i).take tuple.length).map Column.type →
    src + offset.toNat + tuple.bytes.length ≤ n →
    b.slice (src + offset.toNat) tuple.bytes.length = tuple.bytes →
    deserializeFrom b src schema tuple.length i offset = some (tuple.map Value.stored)
  | [], i, offset, _, _, _, _ => rfl
  | val :: rest, i, offset, short, types, fits, here => by
    rw [bytes_cons,List.length_append] at short fits here
    rw [Block.slice_add] at here
    obtain ⟨first,later⟩ := List.append_inj here (by simp)
    cases columns : schema.columns.drop i with
    | nil => simp [columns] at types
    | cons col cols =>
      rw [columns,List.length_cons,List.take_succ_cons,List.map_cons,List.map_cons,List.cons.injEq] at types
      obtain ⟨type,types⟩ := types
      have col_i : schema.getColumn i = some col := by
        have head := congrArg List.head? columns
        rwa [List.head?_drop] at head
      have rest_i : schema.columns.drop (i + 1) = cols := by
        have tail := congrArg List.tail columns
        rwa [List.tail_drop] at tail
      have length : val.stored.getSerializedLength.toNat = val.bytes.length := by
        rw [Value.getSerializedLength_toNat,Value.stored_bytes]
        omega
      have next : (offset + val.stored.getSerializedLength).toNat = offset.toNat + val.bytes.length := by
        rw [UInt32.toNat_add,length]
        omega
      have after : src + (offset.toNat + val.bytes.length) = src + offset.toNat + val.bytes.length := by omega
      rw [List.length_cons,deserializeFrom,col_i]
      simp only [Option.bind_eq_bind,Option.bind_some]
      rw [← type,Value.deserialize_stored (by omega) first]
      simp only [Option.bind_some]
      rw [deserializeFrom_stored rest (i + 1) _ (by rw [next]; omega) (by rw [rest_i]; exact types) (by rw [next,after]; omega)
        (by rw [next,after]; exact later)]
      rfl

/-- A tuple is read back from its bytes by its schema. -/
theorem deserialize_stored (short : tuple.bytes.length < 4294967296) (types : tuple.Matches schema)
    (fits : src + tuple.bytes.length ≤ n) (here : b.slice src tuple.bytes.length = tuple.bytes) :
    deserialize b src schema = some (tuple.map Value.stored) := by
  have count : schema.getColumnCount.toNat = tuple.length := by
    have lengths := congrArg List.length types
    have less : schema.getColumnCount.toNat ≤ schema.columns.length := by
      unfold Schema.getColumnCount
      rw [UInt32.toNat_ofNat']
      exact Nat.mod_le _ _
    rw [List.length_map,List.length_map,List.length_take,Nat.min_eq_left less] at lengths
    exact lengths.symm
  unfold deserialize
  rw [count]
  unfold Matches at types
  rw [count] at types
  exact deserializeFrom_stored tuple 0 0 (by simpa using short) (by simpa using types) (by simpa using fits) (by simpa using here)

/-- A tuple without a string of 2^32 bytes or more is stored as it is. -/
theorem map_stored_iff : ∀ {tuple : Tuple}, tuple.map Value.stored = tuple ↔ tuple.bytes.length = tuple.size
  | [] => by simp [bytes,size]
  | val :: rest => by
    have first := val.bytes_length_le
    have later := bytes_length_le rest
    rw [List.map_cons,List.cons.injEq,Value.stored_eq_iff,map_stored_iff,bytes_cons,List.length_append,size_cons]
    omega

theorem bytes_length_eq (short : tuple.size < 4294967296) : tuple.bytes.length = tuple.size := by
  induction tuple with
  | nil => rfl
  | cons val rest ih =>
    rw [size_cons] at short
    have first : val.bytes.length = val.size := by
      cases val with
      | varchar strVal =>
        rw [Value.size] at short ⊢
        rw [Value.bytes,List.length_append,bytesOf_length,Value.stored_length]
        omega
      | _ => rfl
    rw [bytes_cons,List.length_append,size_cons,first,ih (by omega)]

/-- Values of the types of all columns match the schema. -/
theorem matches_of_types (columns : ∀ c ∈ schema.columns, c.type ≠ .INVALID)
    (types : tuple.map Value.getType = schema.columns.map Column.type) (short : tuple.size < 4294967296) :
    tuple.Matches schema := by
  have least : ∀ {tuple : Tuple}, (∀ val ∈ tuple, val.getType ≠ .INVALID) → tuple.length ≤ tuple.size := by
    intro tuple
    induction tuple with
    | nil => intro _; exact le_refl _
    | cons val rest ih =>
      intro valid
      have later := ih (fun val member => valid val (List.mem_cons_of_mem _ member))
      have first := valid val List.mem_cons_self
      rw [size_cons,List.length_cons]
      cases val with
      | invalid => exact (first rfl).elim
      | _ => simp only [Value.size]; omega
  have valid : ∀ val ∈ tuple, val.getType ≠ .INVALID := by
    intro val member
    have here : val.getType ∈ schema.columns.map Column.type := types ▸ List.mem_map_of_mem member
    obtain ⟨c,inSchema,same⟩ := List.mem_map.mp here
    exact same ▸ columns c inSchema
  have lengths := congrArg List.length types
  rw [List.length_map,List.length_map] at lengths
  have few := least valid
  have count : schema.getColumnCount.toNat = schema.columns.length := by
    unfold Schema.getColumnCount
    rw [UInt32.toNat_ofNat']
    omega
  unfold Matches
  rw [count,List.take_length,types]

/-- Decoding undoes encoding: the bytes that `serialize` writes are as many as
    `getSerializedLength` says, they are all that `deserialize` needs, whatever
    follows them, and what it returns has the same bytes. -/
theorem deserialize_serialize (columns : ∀ c ∈ schema.columns, c.type ≠ .INVALID)
    (types : tuple.map Value.getType = schema.columns.map Column.type) (short : tuple.size < 4294967296) :
    ∃ written : List UInt8, written.length = tuple.getSerializedLength.toNat ∧ written.length = tuple.size ∧
      (∀ (n dest : Nat) (b : Block n), dest ≤ n → tuple.serialize b dest = b.write dest written) ∧
      ∀ (n src : Nat) (b : Block n), src + written.length ≤ n → b.slice src written.length = written →
        deserialize b src schema = some tuple ∧ ∀ tuple', deserialize b src schema = some tuple' →
          ∀ (m dest : Nat) (b' : Block m), dest ≤ m → serialize tuple' b' dest = b'.write dest written := by
  have length := bytes_length_eq short
  have matched := matches_of_types columns types short
  have encodes : ∀ (n dest : Nat) (b : Block n), dest ≤ n → tuple.serialize b dest = b.write dest tuple.bytes := by
    intro n dest b inside
    exact serialize_eq (.inr (by omega)) inside
  refine ⟨tuple.bytes,?_,length,encodes,?_⟩
  · rw [getSerializedLength_toNat]
    omega
  · intro n src b fits here
    have decoded : deserialize b src schema = some tuple := by
      rw [deserialize_stored (by omega) matched fits here,map_stored_iff.mpr length]
    refine ⟨decoded,?_⟩
    intro tuple' found m dest b' inside
    rw [decoded] at found
    cases found
    exact encodes m dest b' inside

/-- Columns of every type, and values with a zero byte and an empty string. -/
def mixed : Schema := ⟨[⟨.INT⟩,⟨.VARCHAR⟩,⟨.BOOLEAN⟩,⟨.VARCHAR⟩]⟩
def mixedTuple : Tuple := [.int (-1),.varchar [65,0,66],.boolean true,.varchar []]

theorem deserialize_serialize_mixed : ∃ written : List UInt8, written.length = (getSerializedLength mixedTuple).toNat ∧
    written.length = size mixedTuple ∧
    (∀ (n dest : Nat) (b : Block n), dest ≤ n → serialize mixedTuple b dest = b.write dest written) ∧
    ∀ (n src : Nat) (b : Block n), src + written.length ≤ n → b.slice src written.length = written →
      deserialize b src mixed = some mixedTuple ∧ ∀ tuple', deserialize b src mixed = some tuple' →
        ∀ (m dest : Nat) (b' : Block m), dest ≤ m → serialize tuple' b' dest = b'.write dest written :=
  deserialize_serialize (by decide) (by decide) (by decide)

end Tuple
end Aether.Tuples
