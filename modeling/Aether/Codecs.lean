import Aether.Bytes
import Aether.Cells
import Mathlib.Data.Vector.Basic
import Mathlib.Algebra.Order.Ring.Int

/-!
Values of a fixed width as bytes. A codec carries the laws that make it one: what fits is
read back, and every run of bytes of the width is the encoding of what it is read as.
Codecs of words, pairs and arrays are put together from codecs of their parts.
-/
namespace Aether.Codecs
open Aether.Bytes Aether.Cells

/-- Values of a type as `width` bytes each. -/
structure Codec (A : Type) where
  width : Nat
  encode : A → List UInt8
  decode : List UInt8 → A
  /-- The value has a representation. -/
  Fits : A → Prop
  length_encode : ∀ a, (encode a).length = width
  fits_decode : ∀ bytes, bytes.length = width → Fits (decode bytes)
  decode_encode : ∀ a, Fits a → decode (encode a) = a
  encode_decode : ∀ bytes, bytes.length = width → encode (decode bytes) = bytes

variable {A B : Type}

namespace Codec

/-- A word of 32 bits. -/
def word : Codec UInt32 where
  width := 4
  encode := bytesOf
  decode bytes := wordOf (bytes.getD 0 0) (bytes.getD 1 0) (bytes.getD 2 0) (bytes.getD 3 0)
  Fits _ := True
  length_encode := bytesOf_length
  fits_decode _ _ := trivial
  decode_encode x _ := wordOf_bytesOf x
  encode_decode bytes length := by
    obtain ⟨a,b,c,d,rfl⟩ := List.length_eq_four.mp length
    exact bytesOf_wordOf a b c d

/-- One value after another. -/
def pair (first : Codec A) (second : Codec B) : Codec (A × B) where
  width := first.width + second.width
  encode v := first.encode v.1 ++ second.encode v.2
  decode bytes := (first.decode (bytes.take first.width),second.decode (bytes.drop first.width))
  Fits v := first.Fits v.1 ∧ second.Fits v.2
  length_encode v := by rw [List.length_append,first.length_encode,second.length_encode]
  fits_decode bytes length := ⟨first.fits_decode _ (by rw [List.length_take,length]; omega),
    second.fits_decode _ (by rw [List.length_drop,length]; omega)⟩
  decode_encode := by
    rintro ⟨a,b⟩ ⟨fitsA,fitsB⟩
    rw [List.take_left' (first.length_encode a),List.drop_left' (first.length_encode a),first.decode_encode a fitsA,
      second.decode_encode b fitsB]
  encode_decode bytes length := by
    rw [first.encode_decode _ (by rw [List.length_take,length]; omega),second.encode_decode _ (by rw [List.length_drop,length]; omega),
      List.take_append_drop]

/-- Values that stand for others. -/
def map (codec : Codec A) (read : A → B) (back : B → A) (Fits : B → Prop) (fits : ∀ a, codec.Fits a → Fits (read a))
    (fits_back : ∀ b, Fits b → codec.Fits (back b)) (read_back : ∀ b, Fits b → read (back b) = b)
    (back_read : ∀ a, codec.Fits a → back (read a) = a) : Codec B where
  width := codec.width
  encode b := codec.encode (back b)
  decode bytes := read (codec.decode bytes)
  Fits := Fits
  length_encode b := codec.length_encode (back b)
  fits_decode bytes length := fits _ (codec.fits_decode bytes length)
  decode_encode b there := by rw [codec.decode_encode _ (fits_back b there),read_back b there]
  encode_decode bytes length := by rw [back_read _ (codec.fits_decode bytes length),codec.encode_decode bytes length]

/-- A natural number below 2^32. -/
def nat : Codec Nat := word.map UInt32.toNat UInt32.ofNat (· < 4294967296) (fun x _ => x.toNat_lt) (fun _ _ => trivial)
  (fun k small => by rw [UInt32.toNat_ofNat',Nat.mod_eq_of_lt small]) (fun x _ => UInt32.ofNat_toNat)

/-- The values of 64 bits in two's complement. -/
def Int64Range (k : Int) : Prop := -9223372036854775808 ≤ k ∧ k < 9223372036854775808

instance (k : Int) : Decidable (Int64Range k) := inferInstanceAs (Decidable (_ ∧ _))

/-- The value of two words, the lower one first. -/
def ofWords (words : Nat × Nat) : Int :=
  if words.2 < 2147483648 then words.1 + 4294967296 * words.2 else words.1 + 4294967296 * words.2 - 18446744073709551616

/-- The two words of a value. -/
def toWords (k : Int) : Nat × Nat := ((k % 4294967296).toNat,(k / 4294967296 % 4294967296).toNat)

/-- A signed integer of 64 bits. -/
def int64 : Codec Int := (nat.pair nat).map ofWords toWords Int64Range
  (by
    rintro ⟨low,high⟩ ⟨small,large⟩
    simp only [nat,map] at small large
    unfold ofWords Int64Range
    split_ifs <;> dsimp only at * <;> omega)
  (by
    rintro k ⟨lower,upper⟩
    simp only [pair,nat,map,toWords]
    omega)
  (by
    rintro k ⟨lower,upper⟩
    simp only [ofWords,toWords]
    split_ifs <;> omega)
  (by
    rintro ⟨low,high⟩ ⟨small,large⟩
    simp only [nat,map] at small large
    simp only [ofWords,toWords,Prod.mk.injEq]
    split_ifs <;> omega)

/-! ### Arrays -/

/-- The values of `count` runs of bytes of the width. -/
def decodeList (codec : Codec A) : Nat → List UInt8 → List A
  | 0, _ => []
  | count + 1, bytes => codec.decode (bytes.take codec.width) :: decodeList codec count (bytes.drop codec.width)

theorem length_decodeList (codec : Codec A) : ∀ (count : Nat) (bytes : List UInt8), (codec.decodeList count bytes).length = count
  | 0, _ => rfl
  | count + 1, bytes => by rw [decodeList,List.length_cons,length_decodeList codec count]

theorem length_encodings (codec : Codec A) (values : List A) : (values.flatMap codec.encode).length = values.length * codec.width := by
  simp [List.length_flatMap,codec.length_encode]

theorem decodeList_encode (codec : Codec A) : ∀ values : List A, (∀ a ∈ values, codec.Fits a) →
    codec.decodeList values.length (values.flatMap codec.encode) = values
  | [], _ => rfl
  | a :: values, fits => by
    rw [List.flatMap_cons,List.length_cons,decodeList,List.take_left' (codec.length_encode a),List.drop_left' (codec.length_encode a),
      codec.decode_encode a (fits a List.mem_cons_self),
      decodeList_encode codec values (fun b member => fits b (List.mem_cons_of_mem a member))]

theorem encode_decodeList (codec : Codec A) : ∀ (count : Nat) (bytes : List UInt8), bytes.length = count * codec.width →
    (codec.decodeList count bytes).flatMap codec.encode = bytes
  | 0, bytes, length => by
    rw [Nat.zero_mul] at length
    rw [List.length_eq_zero_iff.mp length]
    rfl
  | count + 1, bytes, length => by
    rw [Nat.succ_mul] at length
    rw [decodeList,List.flatMap_cons,codec.encode_decode _ (by rw [List.length_take,length]; omega),
      encode_decodeList codec count _ (by rw [List.length_drop,length]; omega),List.take_append_drop]

theorem fits_decodeList (codec : Codec A) : ∀ (count : Nat) (bytes : List UInt8), bytes.length = count * codec.width →
    ∀ a ∈ codec.decodeList count bytes, codec.Fits a
  | 0, _, _, a, member => absurd member List.not_mem_nil
  | count + 1, bytes, length, a, member => by
    rw [Nat.succ_mul] at length
    rcases List.mem_cons.mp member with rfl | later
    · exact codec.fits_decode _ (by rw [List.length_take,length]; omega)
    · exact fits_decodeList codec count _ (by rw [List.length_drop,length]; omega) a later

/-- An array of values. -/
def array (count : Nat) (codec : Codec A) : Codec (Vector A count) where
  width := count * codec.width
  encode values := values.toList.flatMap codec.encode
  decode bytes := ⟨(codec.decodeList count bytes).toArray,length_decodeList codec count bytes⟩
  Fits := Within codec.Fits
  length_encode values := by rw [length_encodings,Vector.length_toList]
  fits_decode bytes length := by simpa [Within,Vector.toList] using fits_decodeList codec count bytes length
  decode_encode values fits := by
    have read := decodeList_encode codec values.toList fits
    rw [Vector.length_toList] at read
    apply Vector.toList_inj.mp
    simpa [Vector.toList] using read
  encode_decode bytes length := by simpa [Vector.toList] using encode_decodeList codec count bytes length

/-! ### Zeros -/

/-- What bytes that are all zero are read as. -/
def zero (codec : Codec A) : A := codec.decode (List.replicate codec.width 0)

theorem zero_pair (first : Codec A) (second : Codec B) : (first.pair second).zero = (first.zero,second.zero) := by
  simp only [zero,pair,List.take_replicate,List.drop_replicate]
  congr 4 <;> omega

theorem zero_array (count : Nat) (codec : Codec A) : (codec.array count).zero = Vector.replicate count codec.zero := by
  have zeros : ∀ count, codec.decodeList count (List.replicate (count * codec.width) 0) = List.replicate count codec.zero := by
    intro count
    induction count with
    | zero => rfl
    | succ count ih =>
      rw [Nat.succ_mul,decodeList,List.take_replicate,List.drop_replicate,Nat.min_eq_left (by omega),Nat.add_sub_cancel,ih,
        List.replicate_succ]
      rfl
  apply Vector.toList_inj.mp
  simpa [Vector.toList,zero,array] using zeros count

end Codec

/-! ### In a block -/

section
variable {n : Nat} {b : Block n} {start : Nat} {codec : Codec A} {a : A}

/-- The value at a position. -/
def Codec.get (codec : Codec A) (b : Block n) (start : Nat) : A := codec.decode (b.slice start codec.width)

/-- Write a value at a position. -/
def Codec.put (codec : Codec A) (b : Block n) (start : Nat) (a : A) : Block n := b.put start (codec.encode a)

theorem fits_get : codec.Fits (codec.get b start) := codec.fits_decode _ Block.slice_length

theorem get_put (inside : start + codec.width ≤ n) (fits : codec.Fits a) : codec.get (codec.put b start a) start = a := by
  have length := codec.length_encode a
  have read : (b.put start (codec.encode a)).slice start (codec.encode a).length = codec.encode a :=
    Block.slice_put (by rw [length]; exact inside)
  rw [length] at read
  rw [Codec.get,Codec.put,read,codec.decode_encode a fits]

theorem put_get : codec.put b start (codec.get b start) = b := by
  have same : codec.encode (codec.get b start) = b.slice start codec.width := codec.encode_decode _ Block.slice_length
  rw [Codec.put,same]
  exact Block.put_same (by rw [Block.slice_length])

/-- A value elsewhere. -/
theorem get_put_outside {codec' : Codec B} {place : Nat} (outside : place + codec'.width ≤ start ∨ start + codec.width ≤ place) :
    codec'.get (codec.put b start a) place = codec'.get b place := by
  rw [Codec.get,Codec.get,Codec.put,Block.slice_put_outside (by rw [codec.length_encode]; exact outside)]

theorem get_zeros : codec.get (Block.zeros n) start = codec.zero := by
  have zeros : (Block.zeros n).slice start codec.width = List.replicate codec.width 0 := by
    apply List.eq_replicate_iff.mpr
    refine ⟨Block.slice_length,fun x member => ?_⟩
    obtain ⟨k,_,rfl⟩ := List.mem_map.mp member
    simp [Block.byte,Block.zeros]
  rw [Codec.get,zeros,Codec.zero]

end
end Aether.Codecs
