import Mathlib.Data.UInt
import Mathlib.Tactic.Common

/-!
Blocks of bytes and 32-bit words in them, least significant byte first: reading
a word back where it was written, and what a write leaves alone.
-/
namespace Aether.Bytes

/-- `n` bytes. -/
abbrev Block (n : Nat) := Fin n → UInt8

/-- The bytes of a word. -/
def bytesOf (x : UInt32) : List UInt8 :=
  [UInt8.ofNat (x.toNat % 256),UInt8.ofNat (x.toNat / 256 % 256),UInt8.ofNat (x.toNat / 65536 % 256),
    UInt8.ofNat (x.toNat / 16777216)]

/-- The word of four bytes. -/
def wordOf (a b c d : UInt8) : UInt32 :=
  UInt32.ofNat (a.toNat + 256 * b.toNat + 65536 * c.toNat + 16777216 * d.toNat)

@[simp] theorem bytesOf_length (x : UInt32) : (bytesOf x).length = 4 := rfl

theorem wordOf_bytesOf (x : UInt32) : wordOf (UInt8.ofNat (x.toNat % 256)) (UInt8.ofNat (x.toNat / 256 % 256))
    (UInt8.ofNat (x.toNat / 65536 % 256)) (UInt8.ofNat (x.toNat / 16777216)) = x := by
  have bound := x.toNat_lt
  have byte : ∀ m, m < 256 → (UInt8.ofNat m).toNat = m := fun m small => by simpa using small
  have sum : x.toNat % 256 + 256 * (x.toNat / 256 % 256) + 65536 * (x.toNat / 65536 % 256) +
      16777216 * (x.toNat / 16777216) = x.toNat := by omega
  rw [wordOf,byte _ (by omega),byte _ (by omega),byte _ (by omega),byte _ (by omega),sum,UInt32.ofNat_toNat]

theorem bytesOf_wordOf (a b c d : UInt8) : bytesOf (wordOf a b c d) = [a,b,c,d] := by
  have boundA := a.toNat_lt
  have boundB := b.toNat_lt
  have boundC := c.toNat_lt
  have boundD := d.toNat_lt
  have value : (wordOf a b c d).toNat = a.toNat + 256 * b.toNat + 65536 * c.toNat + 16777216 * d.toNat := by
    rw [wordOf,UInt32.toNat_ofNat',Nat.mod_eq_of_lt (by omega)]
  have first : (a.toNat + 256 * b.toNat + 65536 * c.toNat + 16777216 * d.toNat) % 256 = a.toNat := by omega
  have second : (a.toNat + 256 * b.toNat + 65536 * c.toNat + 16777216 * d.toNat) / 256 % 256 = b.toNat := by omega
  have third : (a.toNat + 256 * b.toNat + 65536 * c.toNat + 16777216 * d.toNat) / 65536 % 256 = c.toNat := by omega
  have fourth : (a.toNat + 256 * b.toNat + 65536 * c.toNat + 16777216 * d.toNat) / 16777216 = d.toNat := by omega
  rw [bytesOf,value,first,second,third,fourth]
  simp

namespace Block
variable {n : Nat}

def zeros (n : Nat) : Block n := fun _ => 0

/-- The byte at a position, zero past the end. -/
def byte (b : Block n) (i : Nat) : UInt8 := if inside : i < n then b ⟨i,inside⟩ else 0

/-- Copy bytes into a block at a position; what would lie past the end is dropped. -/
def put (b : Block n) (start : Nat) (bytes : List UInt8) : Block n := fun i =>
  if start ≤ i.val then (bytes[i.val - start]?).getD (b i) else b i

/-- The word at a position. -/
def get32 (b : Block n) (start : Nat) : UInt32 :=
  wordOf (b.byte start) (b.byte (start + 1)) (b.byte (start + 2)) (b.byte (start + 3))

/-- Write a word at a position. -/
def put32 (b : Block n) (start : Nat) (x : UInt32) : Block n := b.put start (bytesOf x)

variable {b : Block n} {start i : Nat} {bytes : List UInt8} {x : UInt32}

@[ext] theorem ext {b b' : Block n} (same : ∀ i < n, b.byte i = b'.byte i) : b = b' := by
  funext i
  have here := same i.val i.isLt
  simpa [byte] using here

theorem byte_put (inside : i < n) :
    (b.put start bytes).byte i = if start ≤ i then (bytes[i - start]?).getD (b.byte i) else b.byte i := by
  simp only [byte,dif_pos inside,put]

/-- A byte that was just copied. -/
theorem byte_put_inside {k : Nat} (fits : start + bytes.length ≤ n) (here : k < bytes.length) :
    (b.put start bytes).byte (start + k) = bytes[k] := by
  rw [byte_put (by omega),if_pos (by omega),Nat.add_sub_cancel_left,List.getElem?_eq_getElem here]
  rfl

/-- A byte elsewhere. -/
theorem byte_put_outside (outside : i < start ∨ start + bytes.length ≤ i) :
    (b.put start bytes).byte i = b.byte i := by
  by_cases inside : i < n
  · rw [byte_put inside]
    split_ifs with after
    · have past : bytes.length ≤ i - start := by omega
      simp [List.getElem?_eq_none past]
    · rfl
  · simp [byte,inside]

/-- A word is read back where it was written. -/
theorem get32_put32 (fits : start + 4 ≤ n) : (b.put32 start x).get32 start = x := by
  have here : ∀ k (low : k < 4), (b.put start (bytesOf x)).byte (start + k) = (bytesOf x)[k] := fun k low =>
    byte_put_inside (by simpa using fits) low
  have first := here 0 (by omega)
  rw [Nat.add_zero] at first
  rw [get32,put32,first,here 1 (by omega),here 2 (by omega),here 3 (by omega)]
  exact wordOf_bytesOf x

theorem get32_put_outside (outside : i + 4 ≤ start ∨ start + bytes.length ≤ i) :
    (b.put start bytes).get32 i = b.get32 i := by
  rw [get32,get32,byte_put_outside (by omega),byte_put_outside (by omega),byte_put_outside (by omega),
    byte_put_outside (by omega)]

theorem get32_put32_outside (outside : i + 4 ≤ start ∨ start + 4 ≤ i) : (b.put32 start x).get32 i = b.get32 i :=
  get32_put_outside (by simpa using outside)

/-! ### Runs of bytes -/

/-- `len` bytes from a position. -/
def slice (b : Block n) (start len : Nat) : List UInt8 := (List.range len).map (fun k => b.byte (start + k))

/-- Read bytes that lie inside the block. -/
def read (b : Block n) (start len : Nat) : Option (List UInt8) :=
  if start + len ≤ n then some (b.slice start len) else none

/-- Read a word that lies inside the block. -/
def read32 (b : Block n) (start : Nat) : Option UInt32 := if start + 4 ≤ n then some (b.get32 start) else none

/-- Write bytes that fit inside the block. -/
def write (b : Block n) (start : Nat) (bytes : List UInt8) : Option (Block n) :=
  if start + bytes.length ≤ n then some (b.put start bytes) else none

@[simp] theorem slice_length {len : Nat} : (b.slice start len).length = len := by
  unfold slice
  simp

theorem getElem_slice (b : Block n) (start len k : Nat) (inside : k < (b.slice start len).length) :
    (b.slice start len)[k] = b.byte (start + k) := by
  simp [slice]

/-- Two runs of bytes are the same when they agree byte for byte. -/
theorem slice_congr {b' : Block n} {start' len : Nat} (same : ∀ k < len, b'.byte (start' + k) = b.byte (start + k)) :
    b'.slice start' len = b.slice start len := by
  unfold slice
  apply List.map_congr_left
  intro k member
  exact same k (List.mem_range.mp member)

theorem slice_add (b : Block n) (start len len' : Nat) : b.slice start (len + len') = b.slice start len ++ b.slice (start + len) len' := by
  unfold slice
  rw [List.range_add,List.map_append,List.map_map]
  simp only [Function.comp_def,Nat.add_assoc]

/-- What was just copied is read back. -/
theorem slice_put (fits : start + bytes.length ≤ n) : (b.put start bytes).slice start bytes.length = bytes := by
  apply List.ext_getElem
  · rw [slice_length]
  · intro k _ inside
    rw [getElem_slice]
    exact byte_put_inside fits inside

theorem slice_put_outside {len : Nat} (outside : i + len ≤ start ∨ start + bytes.length ≤ i) :
    (b.put start bytes).slice i len = b.slice i len := by
  apply slice_congr
  intro k inside
  exact byte_put_outside (by omega)

theorem slice_put32_outside {len : Nat} (outside : i + len ≤ start ∨ start + 4 ≤ i) :
    (b.put32 start x).slice i len = b.slice i len :=
  slice_put_outside (by simpa using outside)

theorem slice_bytesOf : b.slice start 4 = bytesOf (b.get32 start) := by
  rw [get32,bytesOf_wordOf]
  simp [slice,List.range_succ]

/-- A word is the one whose bytes are there. -/
theorem get32_of_slice (stored : b.slice start 4 = bytesOf x) : b.get32 start = x := by
  rw [slice_bytesOf] at stored
  have words := congrArg (fun l => wordOf (l.getD 0 0) (l.getD 1 0) (l.getD 2 0) (l.getD 3 0)) stored
  simpa [bytesOf,wordOf_bytesOf] using words

/-- Copying two runs of bytes, one after the other. -/
theorem put_put {more : List UInt8} :
    (b.put start bytes).put (start + bytes.length) more = b.put start (bytes ++ more) := by
  funext i
  unfold put
  by_cases after : start + bytes.length ≤ i.val
  · have past : bytes.length ≤ i.val - start := by omega
    have rest : i.val - start - bytes.length = i.val - (start + bytes.length) := by omega
    rw [if_pos after,if_pos (by omega),if_pos (by omega),List.getElem?_append_right past,rest,
      List.getElem?_eq_none past,Option.getD_none]
  · rw [if_neg after]
    by_cases inside : start ≤ i.val
    · rw [if_pos inside,if_pos inside,List.getElem?_append_left (by omega)]
    · rw [if_neg inside,if_neg inside]

/-- Writing two runs of bytes, one after the other. -/
theorem write_append {more : List UInt8} : b.write start (bytes ++ more) =
    (b.write start bytes).bind (fun b' => b'.write (start + bytes.length) more) := by
  unfold write
  by_cases fits : start + bytes.length ≤ n
  · rw [if_pos fits,Option.bind_some,put_put,List.length_append,Nat.add_assoc]
  · have past : ¬start + (bytes ++ more).length ≤ n := by
      rw [List.length_append]
      omega
    rw [if_neg fits,if_neg past,Option.bind_none]

/-- Copying bytes that are already there. -/
theorem put_same (here : b.slice start bytes.length = bytes) : b.put start bytes = b := by
  apply ext
  intro i inside
  rw [byte_put inside]
  by_cases within : start ≤ i ∧ i - start < bytes.length
  · obtain ⟨after,low⟩ := within
    have byte_i := getElem_slice b start bytes.length (i - start) (by simpa using low)
    have place : start + (i - start) = i := by omega
    simp only [here,place] at byte_i
    rw [if_pos after,List.getElem?_eq_getElem low,byte_i]
    rfl
  · by_cases after : start ≤ i
    · have past : bytes.length ≤ i - start := by omega
      rw [if_pos after,List.getElem?_eq_none past]
      rfl
    · rw [if_neg after]

theorem put32_same (here : b.get32 start = x) : b.put32 start x = b := by
  apply put_same
  rw [bytesOf_length,slice_bytesOf,here]

@[simp] theorem put_nil : b.put start [] = b := by
  funext i
  unfold put
  simp

end Block
end Aether.Bytes
