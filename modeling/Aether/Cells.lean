import Mathlib.Data.List.Basic
import Mathlib.Tactic.Common

/-!
Arrays of a fixed size whose accesses are checked: a write outside the array
has no result, and neither has a loop that makes one. The loops are the shifts
and copies of array-backed sequences, and the binary search over a prefix.
`Begins a l` says that the array starts with the list `l`; each loop is
described by what it does to that list, cut at the position it works at.
-/
namespace Aether.Cells
variable {α : Type} {m n : Nat}

/-- `a[i] = x`. -/
def write (a : Vector α n) (i : Nat) (x : α) : Option (Vector α n) :=
  if inside : i < n then some (a.set i x inside) else none

/-- `for (i = hi; i > lo; --i) a[i] = a[i - 1]`. -/
def shiftUp (a : Vector α n) (lo : Nat) : Nat → Option (Vector α n)
  | 0 => some a
  | i + 1 =>
    if lo < i + 1 then do
      let x ← a[i]?
      let a ← write a (i + 1) x
      shiftUp a lo i
    else some a

/-- `for (; count > 0; --count, ++i) a[i] = a[i + 1]`. -/
def shiftDown (a : Vector α n) (i : Nat) : Nat → Option (Vector α n)
  | 0 => some a
  | count + 1 => do
    let x ← a[i + 1]?
    let a ← write a i x
    shiftDown a (i + 1) count

/-- `for (; count > 0; --count, ++i, ++j) dst[j] = src[i]`. -/
def copyInto (dst : Vector α n) (j : Nat) (src : Vector α m) (i : Nat) : Nat → Option (Vector α n)
  | 0 => some dst
  | count + 1 => do
    let x ← src[i]?
    let dst ← write dst j x
    copyInto dst (j + 1) src (i + 1) count

/-- The binary search loop: move `low` past the middle when the element there
    comes before what is sought, `high` below it otherwise. -/
def bisect (a : Vector α n) (before : α → Bool) : Nat → Int → Int → Option Int
  | 0, _, _ => none
  | fuel + 1, low, high =>
    if low ≤ high then do
      let mid := low + (high - low) / 2
      let x ← a[mid.toNat]?
      if before x then bisect a before fuel (mid + 1) high else bisect a before fuel low (mid - 1)
    else some low

/-- The array starts with the list. -/
def Begins (a : Vector α n) (l : List α) : Prop := ∀ i, i < l.length → a[i]? = l[i]?

theorem begins_nil (a : Vector α n) : Begins a [] := by intro i inside; simp at inside

theorem begins_length {a : Vector α n} {l : List α} (begins : Begins a l) : l.length ≤ n := by
  by_contra beyond
  have last := begins n (by omega)
  have outside : a[n]? = none := by simp
  rw [outside,eq_comm,List.getElem?_eq_none_iff] at last
  omega

theorem begins_left {a : Vector α n} {A B : List α} (begins : Begins a (A ++ B)) : Begins a A := by
  intro i inside
  rw [begins i (by simp; omega),List.getElem?_append_left inside]

theorem begins_take {a : Vector α n} {l : List α} (begins : Begins a l) : a.toList.take l.length = l := by
  apply List.ext_getElem?
  intro i
  by_cases inside : i < l.length
  · rw [List.getElem?_take_of_lt inside,← begins i inside]
    simp
  · rw [List.getElem?_eq_none (by simp; omega),List.getElem?_eq_none (by omega)]

theorem begins_get {a : Vector α n} {A B : List α} {x : α} (begins : Begins a (A ++ x :: B)) :
    a[A.length]? = some x := by
  rw [begins A.length (by simp)]
  simp

theorem write_spec (a : Vector α n) {i : Nat} (inside : i < n) (x : α) :
    ∃ b, write a i x = some b ∧ ∀ j, b[j]? = if j = i then some x else a[j]? := by
  refine ⟨a.set i x,by simp [write,inside],?_⟩
  intro j
  rw [Vector.getElem?_set]
  split_ifs with same other
  · rfl
  · exact absurd same.symm other
  · exact absurd (by assumption : j = i).symm same
  · rfl

theorem shiftUp_spec (lo : Nat) : ∀ (hi : Nat) (a : Vector α n), hi < n →
    ∃ b, shiftUp a lo hi = some b ∧ ∀ j, b[j]? = if lo < j ∧ j ≤ hi then a[j - 1]? else a[j]?
  | 0, a, _ => ⟨a,rfl,fun j => by rw [if_neg (by omega)]⟩
  | hi + 1, a, inside => by
    by_cases more : lo < hi + 1
    · have here : a[hi]? = some a[hi] := Vector.getElem?_eq_getElem (by omega)
      obtain ⟨a',wrote,cells'⟩ := write_spec a inside a[hi]
      obtain ⟨b,shifted,cells⟩ := shiftUp_spec lo hi a' (by omega)
      refine ⟨b,by simp [shiftUp,more,here,wrote,shifted],?_⟩
      intro j
      rw [cells j]
      by_cases last : j = hi + 1
      · subst last
        rw [if_neg (by omega),cells',if_pos rfl,if_pos (by omega),Nat.add_sub_cancel,here]
      · by_cases low : lo < j ∧ j ≤ hi
        · rw [if_pos low,cells',if_neg (by omega),if_pos (by omega)]
        · rw [if_neg low,cells',if_neg last,if_neg (by omega)]
    · exact ⟨a,by simp [shiftUp,more],fun j => by rw [if_neg (by omega)]⟩

theorem shiftDown_spec : ∀ (count i : Nat) (a : Vector α n), i + count < n →
    ∃ b, shiftDown a i count = some b ∧ ∀ j, b[j]? = if i ≤ j ∧ j < i + count then a[j + 1]? else a[j]?
  | 0, i, a, _ => ⟨a,rfl,fun j => by rw [if_neg (by omega)]⟩
  | count + 1, i, a, inside => by
    have next : a[i + 1]? = some a[i + 1] := Vector.getElem?_eq_getElem (by omega)
    obtain ⟨a',wrote,cells'⟩ := write_spec a (i := i) (by omega) a[i + 1]
    obtain ⟨b,shifted,cells⟩ := shiftDown_spec count (i + 1) a' (by omega)
    refine ⟨b,by simp [shiftDown,next,wrote,shifted],?_⟩
    intro j
    rw [cells j]
    by_cases first : j = i
    · subst first
      rw [if_neg (by omega),cells',if_pos rfl,if_pos (by omega),next]
    · by_cases later : i + 1 ≤ j ∧ j < i + 1 + count
      · rw [if_pos later,cells',if_neg (by omega),if_pos (by omega)]
      · rw [if_neg later,cells',if_neg first,if_neg (by omega)]

theorem copyInto_spec (src : Vector α m) : ∀ (count j i : Nat) (dst : Vector α n),
    j + count ≤ n → i + count ≤ m →
    ∃ b, copyInto dst j src i count = some b ∧
      ∀ t, b[t]? = if j ≤ t ∧ t < j + count then src[t - j + i]? else dst[t]?
  | 0, j, i, dst, _, _ => ⟨dst,rfl,fun t => by rw [if_neg (by omega)]⟩
  | count + 1, j, i, dst, fits, inside => by
    have here : src[i]? = some src[i] := Vector.getElem?_eq_getElem (by omega)
    obtain ⟨dst',wrote,cells'⟩ := write_spec dst (i := j) (by omega) src[i]
    obtain ⟨b,copied,cells⟩ := copyInto_spec src count (j + 1) (i + 1) dst' (by omega) (by omega)
    refine ⟨b,by simp [copyInto,here,wrote,copied],?_⟩
    intro t
    rw [cells t]
    by_cases first : t = j
    · subst first
      rw [if_neg (by omega),cells',if_pos rfl,if_pos (by omega),Nat.sub_self,Nat.zero_add,here]
    · by_cases later : j + 1 ≤ t ∧ t < j + 1 + count
      · rw [if_pos later,if_pos (by omega)]
        congr 1
        omega
      · rw [if_neg later,cells',if_neg first,if_neg (by omega)]

/-! ### What the loops do to the list -/

/-- Open a gap and fill it: the list gains an element at the cut. -/
theorem insert_begins {a : Vector α n} {A B : List α} (begins : Begins a (A ++ B))
    (room : A.length + B.length < n) (x : α) :
    ∃ b c, shiftUp a A.length (A.length + B.length) = some b ∧ write b A.length x = some c ∧
      Begins c (A ++ x :: B) := by
  obtain ⟨b,shifted,cells⟩ := shiftUp_spec A.length (A.length + B.length) a room
  obtain ⟨c,wrote,cells'⟩ := write_spec b (i := A.length) (by omega) x
  refine ⟨b,c,shifted,wrote,?_⟩
  intro i inside
  simp only [List.length_append,List.length_cons] at inside
  rw [cells' i]
  rcases Nat.lt_trichotomy i A.length with low | same | high
  · rw [if_neg (by omega),cells,if_neg (by omega),begins i (by simp; omega),List.getElem?_append_left low,
      List.getElem?_append_left low]
  · subst same; simp
  · rw [if_neg (by omega),cells,if_pos (by omega),begins (i - 1) (by simp; omega),
      List.getElem?_append_right (by omega),List.getElem?_append_right (by omega),
      show i - A.length = (i - 1 - A.length) + 1 by omega,List.getElem?_cons_succ]

/-- Close the gap over an element: the list loses it. -/
theorem remove_begins {a : Vector α n} {A B : List α} {x : α} (begins : Begins a (A ++ x :: B)) :
    ∃ b, shiftDown a A.length B.length = some b ∧ Begins b (A ++ B) := by
  have fits := begins_length begins
  simp only [List.length_append,List.length_cons] at fits
  obtain ⟨b,shifted,cells⟩ := shiftDown_spec B.length A.length a (by omega)
  refine ⟨b,shifted,?_⟩
  intro i inside
  simp only [List.length_append] at inside
  rw [cells i]
  by_cases low : i < A.length
  · rw [if_neg (by omega),begins i (by simp; omega),List.getElem?_append_left low,List.getElem?_append_left low]
  · rw [if_pos (by omega),begins (i + 1) (by simp; omega),List.getElem?_append_right (by omega),
      List.getElem?_append_right (by omega),show i + 1 - A.length = (i - A.length) + 1 by omega,
      List.getElem?_cons_succ]

/-- Overwrite one element. -/
theorem replace_begins {a : Vector α n} {A B : List α} {x : α} (begins : Begins a (A ++ x :: B)) (y : α) :
    ∃ b, write a A.length y = some b ∧ Begins b (A ++ y :: B) := by
  have fits := begins_length begins
  simp only [List.length_append,List.length_cons] at fits
  obtain ⟨b,wrote,cells⟩ := write_spec a (i := A.length) (by omega) y
  refine ⟨b,wrote,?_⟩
  intro i inside
  simp only [List.length_append,List.length_cons] at inside
  rw [cells i]
  rcases Nat.lt_trichotomy i A.length with low | same | high
  · rw [if_neg (by omega),begins i (by simp; omega),List.getElem?_append_left low,List.getElem?_append_left low]
  · subst same; simp
  · rw [if_neg (by omega),begins i (by simp; omega),List.getElem?_append_right (by omega),
      List.getElem?_append_right (by omega),show i - A.length = (i - A.length - 1) + 1 by omega,
      List.getElem?_cons_succ,List.getElem?_cons_succ]

/-- Write one element past the end of the list. -/
theorem push_begins {a : Vector α n} {A : List α} (begins : Begins a A) (room : A.length < n) (x : α) :
    ∃ b, write a A.length x = some b ∧ Begins b (A ++ [x]) := by
  obtain ⟨b,wrote,cells⟩ := write_spec a room x
  refine ⟨b,wrote,?_⟩
  intro i inside
  simp only [List.length_append,List.length_singleton] at inside
  rw [cells i]
  by_cases last : i = A.length
  · subst last; simp
  · rw [if_neg last,begins i (by omega),List.getElem?_append_left (by omega)]

/-- Copy the end of one list behind another. -/
theorem copy_begins {src : Vector α m} {dst : Vector α n} {A B C : List α} (source : Begins src (A ++ B))
    (target : Begins dst C) (room : C.length + B.length ≤ n) :
    ∃ b, copyInto dst C.length src A.length B.length = some b ∧ Begins b (C ++ B) := by
  have fits := begins_length source
  simp only [List.length_append] at fits
  obtain ⟨b,copied,cells⟩ := copyInto_spec src B.length C.length A.length dst room fits
  refine ⟨b,copied,?_⟩
  intro i inside
  simp only [List.length_append] at inside
  rw [cells i]
  by_cases low : i < C.length
  · rw [if_neg (by omega),target i low,List.getElem?_append_left low]
  · rw [if_pos (by omega),source _ (by simp; omega),List.getElem?_append_right (by omega),
      List.getElem?_append_right (by omega)]
    congr 1
    omega

/-- Copy every element one place up: the first stays, and the list follows. -/
theorem shift_begins {a : Vector α n} {B : List α} {x : α} (begins : Begins a (x :: B)) (room : B.length + 1 < n) :
    ∃ b, shiftUp a 0 (B.length + 1) = some b ∧ Begins b (x :: x :: B) := by
  obtain ⟨b,shifted,cells⟩ := shiftUp_spec 0 (B.length + 1) a room
  refine ⟨b,shifted,?_⟩
  intro i inside
  simp only [List.length_cons] at inside
  rw [cells i]
  cases i with
  | zero => rw [if_neg (by omega),begins 0 (by simp)]; rfl
  | succ i =>
    rw [if_pos (by omega),Nat.add_sub_cancel,begins i (by simp; omega),List.getElem?_cons_succ]

/-- On a prefix cut into elements before what is sought and elements not
    before it, a search from `start` stops at the cut. -/
theorem bisect_spec {a : Vector α n} (before : α → Bool) (start : Nat) {A B : List α} (begins : Begins a (A ++ B))
    (left : ∀ x ∈ A.drop start, before x = true) (right : ∀ x ∈ B, before x = false) :
    ∀ (fuel : Nat) (low high : Int), start ≤ low → low ≤ A.length → (A.length : Int) ≤ high + 1 →
      high < A.length + B.length → high - low + 1 < fuel → bisect a before fuel low high = some (A.length : Int)
  | 0, low, high, _, lowCut, cutHigh, _, enough => by omega
  | fuel + 1, low, high, started, lowCut, cutHigh, inside, enough => by
    by_cases more : low ≤ high
    · obtain ⟨mid,isMid⟩ : ∃ mid, mid = low + (high - low) / 2 := ⟨_,rfl⟩
      have midLow : low ≤ mid := by omega
      have midHigh : mid ≤ high := by omega
      have midInside : mid.toNat < (A ++ B).length := by simp; omega
      have here := begins mid.toNat midInside
      rw [List.getElem?_eq_getElem midInside] at here
      simp only [bisect,more,if_true,← isMid,here,Option.bind_eq_bind,Option.bind_some]
      by_cases inLeft : mid.toNat < A.length
      · have member : A[mid.toNat] ∈ A.drop start := by
          rw [List.mem_iff_getElem]
          refine ⟨mid.toNat - start,by simp; omega,?_⟩
          rw [List.getElem_drop]
          congr 1
          omega
        rw [List.getElem_append_left inLeft,left _ member,if_pos rfl]
        exact bisect_spec before start begins left right fuel (mid + 1) high (by omega) (by omega) (by omega) inside (by omega)
      · have inRight : mid.toNat - A.length < B.length := by simp at midInside; omega
        have notBefore := right _ (List.getElem_mem inRight)
        rw [List.getElem_append_right (by omega),notBefore,if_neg (by simp)]
        exact bisect_spec before start begins left right fuel low (mid - 1) started (by omega) (by omega) (by omega) (by omega)
    · have atCut : low = A.length := by omega
      rw [bisect,if_neg more,atCut]

/-! ### What a loop that had a result has done -/

section
variable {a b : Vector α n} {i j lo hi count : Nat} {x : α}

theorem write_some (wrote : write a i x = some b) : i < n ∧ ∀ j, b[j]? = if j = i then some x else a[j]? := by
  by_cases inside : i < n
  · obtain ⟨b',same,cells⟩ := write_spec a inside x
    rw [wrote] at same
    cases same
    exact ⟨inside,cells⟩
  · simp [write,inside] at wrote

/-- The loop stays inside the array, unless it has nothing to do. -/
theorem shiftUp_inside (shifted : shiftUp a lo hi = some b) : hi < n ∨ hi ≤ lo := by
  cases hi with
  | zero => exact .inr (Nat.zero_le lo)
  | succ hi =>
    by_cases more : lo < hi + 1
    · simp only [shiftUp,if_pos more,Option.bind_eq_bind,Option.bind_eq_some_iff] at shifted
      obtain ⟨x,_,a',wrote,_⟩ := shifted
      exact .inl (write_some wrote).1
    · exact .inr (by omega)

theorem shiftUp_some (shifted : shiftUp a lo hi = some b) (j : Nat) :
    b[j]? = if lo < j ∧ j ≤ hi then a[j - 1]? else a[j]? := by
  rcases shiftUp_inside shifted with inside | done
  · obtain ⟨b',same,cells⟩ := shiftUp_spec lo hi a inside
    rw [shifted] at same
    cases same
    exact cells j
  · have same : a = b := by
      cases hi with
      | zero => exact Option.some.inj shifted
      | succ hi =>
        rw [shiftUp,if_neg (by omega)] at shifted
        exact Option.some.inj shifted
    rw [if_neg (by omega),same]

theorem shiftDown_inside : ∀ (count i : Nat) {a b : Vector α n}, shiftDown a i count = some b → count = 0 ∨ i + count < n
  | 0, _, _, _, _ => .inl rfl
  | count + 1, i, a, b, shifted => by
    simp only [shiftDown,Option.bind_eq_bind,Option.bind_eq_some_iff] at shifted
    obtain ⟨x,here,a',wrote,later⟩ := shifted
    have next : i + 1 < n := by
      by_contra beyond
      rw [Vector.getElem?_eq_none (by omega)] at here
      cases here
    rcases shiftDown_inside count (i + 1) later with none | inside
    · exact .inr (by omega)
    · exact .inr (by omega)

theorem shiftDown_some (shifted : shiftDown a i count = some b) (j : Nat) :
    b[j]? = if i ≤ j ∧ j < i + count then a[j + 1]? else a[j]? := by
  rcases shiftDown_inside count i shifted with rfl | inside
  · rw [if_neg (by omega)]
    exact congrArg (fun cells : Vector α n => cells[j]?) (Option.some.inj shifted).symm
  · obtain ⟨b',same,cells⟩ := shiftDown_spec count i a inside
    rw [shifted] at same
    cases same
    exact cells j

theorem copyInto_inside (src : Vector α m) : ∀ (count j i : Nat) {a b : Vector α n}, copyInto a j src i count = some b →
    count = 0 ∨ j + count ≤ n ∧ i + count ≤ m
  | 0, _, _, _, _, _ => .inl rfl
  | count + 1, j, i, a, b, copied => by
    simp only [copyInto,Option.bind_eq_bind,Option.bind_eq_some_iff] at copied
    obtain ⟨x,here,a',wrote,later⟩ := copied
    have target := (write_some wrote).1
    have source : i < m := by
      by_contra beyond
      rw [Vector.getElem?_eq_none (by omega)] at here
      cases here
    rcases copyInto_inside src count (j + 1) (i + 1) later with none | inside
    · exact .inr (by omega)
    · exact .inr (by omega)

theorem copyInto_some {src : Vector α m} (copied : copyInto a j src i count = some b) (t : Nat) :
    b[t]? = if j ≤ t ∧ t < j + count then src[t - j + i]? else a[t]? := by
  rcases copyInto_inside src count j i copied with rfl | ⟨target,source⟩
  · rw [if_neg (by omega)]
    exact congrArg (fun cells : Vector α n => cells[t]?) (Option.some.inj copied).symm
  · obtain ⟨b',same,cells⟩ := copyInto_spec src count j i a target source
    rw [copied] at same
    cases same
    exact cells t

end

/-- A search stops within its bounds. -/
theorem bisect_bounds {a : Vector α n} {before : α → Bool} : ∀ (fuel : Nat) {low high found : Int}, low ≤ high + 1 →
    bisect a before fuel low high = some found → low ≤ found ∧ found ≤ high + 1
  | 0, _, _, _, _, stopped => by cases stopped
  | fuel + 1, low, high, found, inOrder, stopped => by
    by_cases more : low ≤ high
    · simp only [bisect,if_pos more,Option.bind_eq_bind,Option.bind_eq_some_iff] at stopped
      obtain ⟨x,_,searched⟩ := stopped
      split_ifs at searched with left
      · have later := bisect_bounds fuel (by omega) searched
        omega
      · have later := bisect_bounds fuel (by omega) searched
        omega
    · rw [bisect,if_neg more] at stopped
      obtain rfl := Option.some.inj stopped
      omega

/-! ### What all elements satisfy -/

/-- Every element satisfies the predicate. -/
def Within (P : α → Prop) (a : Vector α n) : Prop := ∀ x ∈ a.toList, P x

section
variable {P : α → Prop} {a b : Vector α n} {i j lo hi count : Nat} {x : α}

theorem within_iff : Within P a ↔ ∀ (i : Nat) (x : α), a[i]? = some x → P x := by
  constructor
  · intro within i x here
    exact within x (by simpa using Vector.mem_of_getElem? here)
  · intro each x member
    obtain ⟨i,inside,here⟩ := Vector.mem_iff_getElem.mp (by simpa using member)
    exact each i x (by rw [Vector.getElem?_eq_getElem inside,here])

theorem within_get (within : Within P a) (here : a[i]? = some x) : P x := within_iff.mp within i x here

theorem within_replicate (holds : P x) : Within P (Vector.replicate n x) := by
  intro y member
  obtain ⟨_,rfl⟩ : n ≠ 0 ∧ y = x := by simpa using member
  exact holds

theorem within_write (within : Within P a) (holds : P x) (wrote : write a i x = some b) : Within P b := by
  refine within_iff.mpr (fun j y here => ?_)
  rw [(write_some wrote).2] at here
  split_ifs at here
  · exact Option.some.inj here ▸ holds
  · exact within_get within here

theorem within_shiftUp (within : Within P a) (shifted : shiftUp a lo hi = some b) : Within P b := by
  refine within_iff.mpr (fun j y here => ?_)
  rw [shiftUp_some shifted] at here
  split_ifs at here <;> exact within_get within here

theorem within_shiftDown (within : Within P a) (shifted : shiftDown a i count = some b) : Within P b := by
  refine within_iff.mpr (fun j y here => ?_)
  rw [shiftDown_some shifted] at here
  split_ifs at here <;> exact within_get within here

theorem within_copyInto {src : Vector α m} (within : Within P a) (source : Within P src) (copied : copyInto a j src i count = some b) :
    Within P b := by
  refine within_iff.mpr (fun t y here => ?_)
  rw [copyInto_some copied] at here
  split_ifs at here
  · exact within_get source here
  · exact within_get within here

end

end Aether.Cells
