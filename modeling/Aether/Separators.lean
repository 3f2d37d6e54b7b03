import Mathlib.Order.Lattice

/-!
Search trees over lists of separated children. A half-open interval of keys has
optional bounds; in a list of children every key but the first separates its
child from the previous one, and `Within P lo hi` says that each child
satisfies `P` between the separators around it. The key of the first child is
never looked at.
-/
namespace Aether.Separators

section
variable {K α : Type} [LinearOrder K] {P : Option K → Option K → α → Prop}
variable {lo hi mid : Option K} {k x : K}

/-- The key is not below the bound. -/
def AtLeast : Option K → K → Prop
  | none, _ => True
  | some b, k => b ≤ k

/-- The key is below the bound. -/
def Under : Option K → K → Prop
  | none, _ => True
  | some b, k => k < b

/-- The bounds leave room for a key. -/
def Gap : Option K → Option K → Prop
  | some a, some b => a < b
  | _, _ => True

@[simp] theorem atLeast_none : AtLeast (none : Option K) k := trivial
@[simp] theorem atLeast_some {b : K} : AtLeast (some b) k ↔ b ≤ k := Iff.rfl
@[simp] theorem under_none : Under (none : Option K) k := trivial
@[simp] theorem under_some {b : K} : Under (some b) k ↔ k < b := Iff.rfl
@[simp] theorem gap_none_left : Gap none hi := by cases hi <;> trivial
@[simp] theorem gap_none_right : Gap lo none := by cases lo <;> trivial
@[simp] theorem gap_some {a b : K} : Gap (some a) (some b) ↔ a < b := Iff.rfl

theorem AtLeast.gap (above : AtLeast lo k) (below : Under hi k) : Gap lo hi := by
  cases lo with
  | none => simp
  | some a =>
    cases hi with
    | none => simp
    | some b => exact lt_of_le_of_lt above below

theorem AtLeast.trans (above : AtLeast lo k) (le : k ≤ x) : AtLeast lo x := by
  cases lo with
  | none => trivial
  | some a => exact le_trans above le

theorem Under.trans (below : Under hi k) (le : x ≤ k) : Under hi x := by
  cases hi with
  | none => trivial
  | some b => exact lt_of_le_of_lt le below

theorem Gap.atLeast (gap : Gap lo (some k)) : AtLeast lo k := by
  cases lo with
  | none => trivial
  | some a => exact le_of_lt gap

theorem Gap.under (gap : Gap (some k) hi) : Under hi k := by
  cases hi with
  | none => trivial
  | some b => exact gap

theorem gap_of_lt (above : AtLeast lo k) (lt : k < x) : Gap lo (some x) := above.gap lt

theorem Gap.trans (left : Gap lo (some k)) (right : Gap (some k) hi) : Gap lo hi :=
  left.atLeast.gap right.under

/-- The bound above what precedes a list of children. -/
def upper (hi : Option K) : List (K × α) → Option K
  | [] => hi
  | c :: _ => some c.1

/-- The bound below a child with key `k` after a list of children. -/
def lower (lo : Option K) (k : K) : List (K × α) → Option K
  | [] => lo
  | _ :: _ => some k

/-- Every child lies between its separators. -/
def Within (P : Option K → Option K → α → Prop) (lo hi : Option K) : List (K × α) → Prop
  | [] => True
  | c :: rest => P lo (upper hi rest) c.2 ∧ Within P (upper hi rest) hi rest

@[simp] theorem upper_nil : upper hi ([] : List (K × α)) = hi := rfl
@[simp] theorem upper_cons {c : K × α} {B : List (K × α)} : upper hi (c :: B) = some c.1 := rfl
@[simp] theorem lower_nil : lower lo k ([] : List (K × α)) = lo := rfl
@[simp] theorem lower_cons {c : K × α} {B : List (K × α)} : lower lo k (c :: B) = some k := rfl
@[simp] theorem within_nil : Within P lo hi [] := trivial

theorem within_cons {c : K × α} {B : List (K × α)} :
    Within P lo hi (c :: B) ↔ P lo (upper hi B) c.2 ∧ Within P (upper hi B) hi B := Iff.rfl

theorem upper_append {A B : List (K × α)} {c : K × α} : upper hi (A ++ c :: B) = upper (some c.1) A := by
  cases A <;> rfl

/-- A list of children falls apart at every separator. -/
theorem within_append {A B : List (K × α)} {c : K × α} :
    Within P lo hi (A ++ c :: B) ↔ Within P lo (some c.1) A ∧ Within P (lower lo c.1 A) hi (c :: B) := by
  induction A generalizing lo with
  | nil => simp
  | cons a A ih =>
    have last : lower (upper (some c.1) A) c.1 A = some c.1 := by cases A <;> rfl
    rw [List.cons_append,within_cons,within_cons,upper_append,ih,last,lower_cons,and_assoc]

/-- Replacing every child by what it stands for. -/
theorem within_map {β : Type} {Q : Option K → Option K → β → Prop} {A : List (K × α)} (f : α → β)
    (each : ∀ c ∈ A, ∀ lo hi, P lo hi c.2 → Q lo hi (f c.2)) (within : Within P lo hi A) :
    Within Q lo hi (A.map (fun c => (c.1,f c.2))) := by
  induction A generalizing lo with
  | nil => trivial
  | cons a A ih =>
    have same : upper hi (A.map (fun c => (c.1,f c.2))) = upper hi A := by cases A <;> rfl
    rw [List.map_cons,within_cons,same]
    exact ⟨each a (by simp) _ _ within.1,ih (fun c member => each c (by simp [member])) within.2⟩

theorem Within.gap {A : List (K × α)} (gaps : ∀ lo hi t, P lo hi t → Gap lo hi) (inhabited : A ≠ [])
    (within : Within P lo hi A) : Gap lo hi := by
  induction A generalizing lo with
  | nil => exact absurd rfl inhabited
  | cons a A ih =>
    cases A with
    | nil => exact gaps _ _ _ within.1
    | cons b B => exact (gaps _ _ _ within.1).trans (ih (by simp) within.2)

/-- All the keys of children within bounds are within the bounds. -/
theorem Within.bounds {β : Type} (key : β → K) (contents : α → List β) {A : List (K × α)}
    (gaps : ∀ lo hi t, P lo hi t → Gap lo hi)
    (inside : ∀ lo hi t, P lo hi t → ∀ e ∈ contents t, AtLeast lo (key e) ∧ Under hi (key e))
    (within : Within P lo hi A) : ∀ c ∈ A, ∀ e ∈ contents c.2, AtLeast lo (key e) ∧ Under hi (key e) := by
  induction A generalizing lo with
  | nil => simp
  | cons a A ih =>
    intro c member e inContents
    cases A with
    | nil =>
      rw [List.mem_singleton] at member
      subst member
      exact inside _ _ _ within.1 e inContents
    | cons b B =>
      have separator : Gap (some b.1) hi := Within.gap gaps (by simp) within.2
      rcases List.mem_cons.mp member with rfl | later
      · have here := inside _ _ _ within.1 e inContents
        exact ⟨here.1,separator.under.trans (le_of_lt here.2)⟩
      · have there := ih within.2 c later e inContents
        exact ⟨(gaps _ _ _ within.1).atLeast.trans there.1,there.2⟩

/-- The separators after the first child increase strictly within the bounds. -/
theorem Within.separators {A : List (K × α)} {c : K × α} (gaps : ∀ lo hi t, P lo hi t → Gap lo hi)
    (within : Within P lo hi (c :: A)) :
    (∀ e ∈ A, Gap lo (some e.1) ∧ Under hi e.1) ∧ A.Pairwise (fun e e' => e.1 < e'.1) := by
  induction A generalizing lo c with
  | nil => simp
  | cons a A ih =>
    have rest := ih within.2
    have first := gaps _ _ _ within.1
    have last : Gap (some a.1) hi := Within.gap gaps (by simp) within.2
    refine ⟨?_,List.pairwise_cons.mpr ⟨fun e member => (rest.1 e member).1,rest.2⟩⟩
    intro e member
    rcases List.mem_cons.mp member with rfl | later
    · exact ⟨first,last.under⟩
    · exact ⟨first.trans (rest.1 e later).1,(rest.1 e later).2⟩

/-- The child to search for a key: the last one whose separator is not above. -/
theorem exists_child {A : List (K × α)} (gaps : ∀ lo hi t, P lo hi t → Gap lo hi) (inhabited : A ≠ [])
    (within : Within P lo hi A) (above : AtLeast lo x) (below : Under hi x) :
    ∃ L c R, A = L ++ c :: R ∧ (∀ e ∈ (L ++ [c]).drop 1, e.1 ≤ x) ∧ (∀ e ∈ R, x < e.1) ∧
      AtLeast (lower lo c.1 L) x ∧ Under (upper hi R) x := by
  induction A generalizing lo with
  | nil => exact absurd rfl inhabited
  | cons a A ih =>
    cases A with
    | nil => exact ⟨[],a,[],rfl,by simp,by simp,above,below⟩
    | cons b B =>
      by_cases right : b.1 ≤ x
      · obtain ⟨L,c,R,split,left,after,atLeast,under⟩ := ih (by simp) within.2 right
        refine ⟨a :: L,c,R,by simp [split],?_,after,?_,under⟩
        · intro e member
          rw [List.cons_append,List.drop_one,List.tail_cons] at member
          cases L with
          | nil =>
            rw [List.nil_append,List.mem_singleton] at member
            obtain ⟨rfl,rfl⟩ := List.cons.inj split
            rwa [member]
          | cons l L =>
            obtain ⟨rfl,_⟩ := List.cons.inj split
            rcases List.mem_cons.mp member with rfl | later
            · exact right
            · exact left e later
        · cases L with
          | nil =>
            obtain ⟨rfl,_⟩ := List.cons.inj split
            exact right
          | cons l L => exact atLeast
      · refine ⟨[],a,b :: B,rfl,by simp,?_,above,lt_of_not_ge right⟩
        intro e member
        rcases List.mem_cons.mp member with rfl | later
        · exact lt_of_not_ge right
        · exact lt_trans (lt_of_not_ge right) ((Within.separators gaps within.2).1 e later).1

end
end Aether.Separators
