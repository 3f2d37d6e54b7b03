import Mathlib.Data.List.Pairwise
import Mathlib.Order.Lattice
import Mathlib.Tactic.Common

/-!
Association lists strictly sorted by key, as finite maps: cutting one at a key,
reading it, and adding or dropping the entry at the cut.
-/
namespace Aether.SortedLists
variable {K V : Type} [LinearOrder K]

/-- Strictly increasing keys. -/
def Sorted (l : List (K × V)) : Prop := l.Pairwise (fun a b => a.1 < b.1)

/-- The value at a key. -/
def get (l : List (K × V)) (k : K) : Option V := (l.find? (fun e => decide (e.1 = k))).map Prod.snd

theorem sorted_nil : Sorted ([] : List (K × V)) := List.Pairwise.nil

theorem sorted_append {A B : List (K × V)} :
    Sorted (A ++ B) ↔ Sorted A ∧ Sorted B ∧ ∀ a ∈ A, ∀ b ∈ B, a.1 < b.1 := List.pairwise_append

theorem sorted_cons {e : K × V} {B : List (K × V)} : Sorted (e :: B) ↔ (∀ b ∈ B, e.1 < b.1) ∧ Sorted B :=
  List.pairwise_cons

/-- Every sorted list is cut at a key. -/
theorem exists_cut {l : List (K × V)} (sorted : Sorted l) (k : K) :
    ∃ A B, l = A ++ B ∧ (∀ e ∈ A, e.1 < k) ∧ ∀ e ∈ B, k ≤ e.1 := by
  induction l with
  | nil => exact ⟨[],[],rfl,by simp,by simp⟩
  | cons e rest ih =>
    obtain ⟨above,sortedRest⟩ := sorted_cons.mp sorted
    by_cases low : e.1 < k
    · obtain ⟨A,B,rfl,left,right⟩ := ih sortedRest
      exact ⟨e :: A,B,rfl,by simpa [low] using left,right⟩
    · refine ⟨[],e :: rest,rfl,by simp,?_⟩
      intro e' member
      have high : k ≤ e.1 := le_of_not_gt low
      rcases List.mem_cons.mp member with rfl | later
      · exact high
      · exact le_trans high (above e' later).le

/-- At the cut there is either no entry of the key or exactly one. -/
theorem cut_cases {A B : List (K × V)} {k : K} (sorted : Sorted (A ++ B)) (right : ∀ e ∈ B, k ≤ e.1) :
    (∀ e ∈ B, k < e.1) ∨ ∃ v C, B = (k,v) :: C ∧ ∀ e ∈ C, k < e.1 := by
  cases B with
  | nil => exact .inl (by simp)
  | cons e C =>
    have above := (sorted_cons.mp (sorted_append.mp sorted).2.1).1
    rcases eq_or_lt_of_le (right e (by simp)) with same | less
    · refine .inr ⟨e.2,C,by rw [same],?_⟩
      intro e' member
      exact same ▸ above e' member
    · refine .inl ?_
      intro e' member
      rcases List.mem_cons.mp member with rfl | later
      · exact less
      · exact less.trans (above e' later)

theorem get_none {l : List (K × V)} {k : K} (absent : ∀ e ∈ l, e.1 ≠ k) : get l k = none := by
  have notFound : l.find? (fun e => decide (e.1 = k)) = none := by
    simp only [List.find?_eq_none,decide_eq_true_eq]
    exact absent
  simp [get,notFound]

theorem get_append_left {A B : List (K × V)} {k : K} (left : ∀ e ∈ A, e.1 ≠ k) : get (A ++ B) k = get B k := by
  have notFound : A.find? (fun e => decide (e.1 = k)) = none := by
    simp only [List.find?_eq_none,decide_eq_true_eq]
    exact left
  simp [get,List.find?_append,notFound]

theorem get_append_right {A B : List (K × V)} {k : K} (right : ∀ e ∈ B, e.1 ≠ k) : get (A ++ B) k = get A k := by
  have notFound : B.find? (fun e => decide (e.1 = k)) = none := by
    simp only [List.find?_eq_none,decide_eq_true_eq]
    exact right
  simp [get,List.find?_append,notFound]

theorem get_cons_self (k : K) (v : V) (B : List (K × V)) : get ((k,v) :: B) k = some v := by simp [get]

theorem get_cons_ne {e : K × V} {k : K} (other : e.1 ≠ k) (B : List (K × V)) : get (e :: B) k = get B k := by
  simp [get,other]

/-- Reading the list where an entry of the key `k` stands between `A` and `B`. -/
theorem get_insert {A B : List (K × V)} {k : K} (left : ∀ e ∈ A, e.1 ≠ k) (v : V) (q : K) :
    get (A ++ (k,v) :: B) q = if q = k then some v else get (A ++ B) q := by
  by_cases same : q = k
  · subst same
    rw [if_pos rfl,get_append_left left,get_cons_self]
  · rw [if_neg same]
    have other : decide (k = q) = false := by simp [Ne.symm same]
    simp [get,List.find?_append,other]

theorem mem_iff_get {l : List (K × V)} (sorted : Sorted l) (k : K) (v : V) : (k,v) ∈ l ↔ get l k = some v := by
  induction l with
  | nil => simp [get]
  | cons e rest ih =>
    obtain ⟨above,sortedRest⟩ := sorted_cons.mp sorted
    by_cases same : e.1 = k
    · subst same
      have absent : (e.1,v) ∉ rest := fun member => lt_irrefl e.1 (above (e.1,v) member)
      have head : get (e :: rest) e.1 = some e.2 := get_cons_self e.1 e.2 rest
      rw [head]
      simp only [List.mem_cons,absent,or_false,Option.some.injEq]
      constructor
      · intro equal; rw [← equal]
      · rintro rfl; rfl
    · rw [get_cons_ne same,← ih sortedRest]
      have different : (k,v) ≠ e := fun equal => same (equal ▸ rfl)
      simp [different]

theorem sorted_insert {A B : List (K × V)} {k : K} {v : V} (sorted : Sorted (A ++ B))
    (left : ∀ e ∈ A, e.1 < k) (right : ∀ e ∈ B, k < e.1) : Sorted (A ++ (k,v) :: B) := by
  obtain ⟨sortedA,sortedB,cross⟩ := sorted_append.mp sorted
  refine sorted_append.mpr ⟨sortedA,sorted_cons.mpr ⟨right,sortedB⟩,?_⟩
  intro a inA b inB
  rcases List.mem_cons.mp inB with rfl | inB
  · exact left a inA
  · exact cross a inA b inB

theorem sorted_remove {A B : List (K × V)} {e : K × V} (sorted : Sorted (A ++ e :: B)) : Sorted (A ++ B) :=
  List.Pairwise.sublist (List.Sublist.append_left (List.sublist_cons_self e B) A) sorted

end Aether.SortedLists
