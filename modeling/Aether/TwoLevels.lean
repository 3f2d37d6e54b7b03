import Mathlib.Order.Lattice
import Mathlib.Data.List.Basic

/-!
Search on two levels. A node is a list of destinations with separators, the first of
which is never looked at; the search follows the last destination whose separator is not
above the key. Where the destinations are nodes in turn, all their entries make one flat
node, in which every inner node begins with the separator in front of it. As long as the
separators of the flat node increase, the search in it ends where the search on two
levels ends, so that entries may be moved between neighbours as long as the flat node
stays the same.
-/
namespace Aether.TwoLevels

section
variable {K β : Type} {k : K} {A B : List (K × β)} {P : List (K × List (K × β))}

/-- A node with the separator in front of it in place of its first one. -/
def labelled (k : K) : List (K × β) → List (K × β)
  | [] => []
  | e :: rest => (k,e.2) :: rest

/-- All the entries of the inner nodes. -/
def flat (P : List (K × List (K × β))) : List (K × β) := P.flatMap (fun c => labelled c.1 c.2)

@[simp] theorem labelled_cons (e : K × β) : labelled k (e :: A) = (k,e.2) :: A := rfl
@[simp] theorem flat_nil : flat ([] : List (K × List (K × β))) = [] := rfl
@[simp] theorem flat_cons (c : K × List (K × β)) : flat (c :: P) = labelled c.1 c.2 ++ flat P := rfl
@[simp] theorem flat_append (Q : List (K × List (K × β))) : flat (P ++ Q) = flat P ++ flat Q := List.flatMap_append

theorem labelled_append (inhabited : A ≠ []) : labelled k (A ++ B) = labelled k A ++ B := by
  cases A with
  | nil => exact absurd rfl inhabited
  | cons e rest => rfl

/-- The destinations stay the same. -/
theorem labelled_destinations : (labelled k A).map Prod.snd = A.map Prod.snd := by
  cases A <;> rfl

theorem labelled_map {γ : Type} (f : β → γ) : labelled k (A.map (fun e => (e.1,f e.2))) = (labelled k A).map (fun e => (e.1,f e.2)) := by
  cases A <;> rfl

/-- The outer separators are among those of the flat node. -/
theorem outer_sublist (inhabited : ∀ c ∈ P, c.2 ≠ []) : (P.map Prod.fst).Sublist ((flat P).map Prod.fst) := by
  induction P with
  | nil => exact List.Sublist.refl _
  | cons c rest ih =>
    obtain ⟨k,inner⟩ := c
    cases inner with
    | nil => exact absurd rfl (inhabited (k,[]) List.mem_cons_self)
    | cons e later =>
      rw [flat_cons,labelled_cons,List.cons_append,List.map_cons,List.map_cons,List.map_append]
      exact ((ih (fun c member => inhabited c (List.mem_cons_of_mem _ member))).trans (List.sublist_append_right ..)).cons_cons k

end

section
variable {K β : Type} [LinearOrder K] {x k : K} {b : β} {A B : List (K × β)} {P : List (K × List (K × β))}

/-- The destination after those passed already. -/
def follow (x : K) (here : β) : List (K × β) → β
  | [] => here
  | e :: rest => if e.1 ≤ x then follow x e.2 rest else here

/-- The destination to search for a key. -/
def search (x : K) : List (K × β) → Option β
  | [] => none
  | e :: rest => some (follow x e.2 rest)

/-- The separators of a node increase. -/
def Increasing (slots : List (K × β)) : Prop := (slots.drop 1).Pairwise (fun e e' => e.1 < e'.1)

instance (slots : List (K × β)) : Decidable (Increasing slots) :=
  inferInstanceAs (Decidable ((slots.drop 1).Pairwise (fun e e' => e.1 < e'.1)))

/-- A separator decides between what stands in front of it and what follows. -/
theorem follow_append (before : ∀ e ∈ A, e.1 < k) (here : β) :
    follow x here (A ++ (k,b) :: B) = if k ≤ x then follow x b B else follow x here A := by
  induction A generalizing here with
  | nil => rfl
  | cons e rest ih =>
    rw [List.cons_append,follow,follow,ih (fun e' member => before e' (List.mem_cons_of_mem _ member))]
    by_cases passed : k ≤ x
    · have first : e.1 ≤ x := le_trans (le_of_lt (before e List.mem_cons_self)) passed
      rw [if_pos first,if_pos passed,if_pos passed]
    · rw [if_neg passed,if_neg passed]

/-- The search in the flat node, from the first entry of its first inner node on. -/
theorem follow_flat (inhabited : ∀ c ∈ P, c.2 ≠ []) (increasing : (A ++ flat P).Pairwise (fun e e' => e.1 < e'.1)) (here : K × β) :
    some (follow x here.2 (A ++ flat P)) = search x (follow x (here :: A) P) := by
  induction P generalizing A here with
  | nil =>
    rw [flat_nil,List.append_nil]
    rfl
  | cons c rest ih =>
    obtain ⟨k₁,inner⟩ := c
    cases inner with
    | nil => exact absurd rfl (inhabited (k₁,[]) List.mem_cons_self)
    | cons e later =>
      rw [flat_cons,labelled_cons,List.cons_append] at increasing ⊢
      obtain ⟨_,tail,apart⟩ := List.pairwise_append.mp increasing
      have before : ∀ e' ∈ A, e'.1 < k₁ := fun e' member => apart e' member (k₁,e.2) List.mem_cons_self
      rw [follow_append before,follow]
      by_cases passed : k₁ ≤ x
      · rw [if_pos passed,if_pos passed]
        exact ih (fun c member => inhabited c (List.mem_cons_of_mem _ member)) (List.pairwise_cons.mp tail).2 e
      · rw [if_neg passed,if_neg passed]
        rfl

/-- The search on two levels ends where the search in the flat node ends. -/
theorem search_flat (inhabited : ∀ c ∈ P, c.2 ≠ []) (increasing : Increasing (flat P)) :
    search x (flat P) = (search x P).bind (search x) := by
  cases P with
  | nil => rfl
  | cons c rest =>
    obtain ⟨k,inner⟩ := c
    cases inner with
    | nil => exact absurd rfl (inhabited (k,[]) List.mem_cons_self)
    | cons e later =>
      exact follow_flat (fun c member => inhabited c (List.mem_cons_of_mem _ member)) increasing e

/-- The search splits an increasing node in front of the next separator above the key. -/
theorem exists_found (inhabited : A ≠ []) (increasing : Increasing A) :
    ∃ L k b R, A = L ++ (k,b) :: R ∧ search x A = some b ∧ (∀ e ∈ (L ++ [(k,b)]).drop 1, e.1 ≤ x) ∧ ∀ e ∈ R, x < e.1 := by
  cases A with
  | nil => exact absurd rfl inhabited
  | cons first rest =>
    obtain ⟨k₀,b₀⟩ := first
    replace increasing : rest.Pairwise (fun e e' => e.1 < e'.1) := increasing
    show ∃ L k b R, _ ∧ some (follow x b₀ rest) = some b ∧ _ ∧ _
    induction rest generalizing k₀ b₀ with
    | nil => exact ⟨[],k₀,b₀,[],rfl,rfl,by simp,by simp⟩
    | cons e rest ih =>
      obtain ⟨above,later⟩ := List.pairwise_cons.mp increasing
      rw [follow]
      by_cases passed : e.1 ≤ x
      · obtain ⟨L,k,b,R,split,found,left,right⟩ := ih e.1 e.2 (by simp) later
        refine ⟨(k₀,b₀) :: L,k,b,R,congrArg _ split,by rw [if_pos passed]; exact found,?_,right⟩
        intro e' member
        rw [List.cons_append,List.drop_one,List.tail_cons] at member
        cases L with
        | nil =>
          obtain ⟨same,_⟩ := List.cons.inj split
          rw [List.nil_append,List.mem_singleton] at member
          rw [member,← same]
          exact passed
        | cons l L =>
          obtain ⟨same,_⟩ := List.cons.inj split
          rcases List.mem_cons.mp member with rfl | inside
          · rw [← same]
            exact passed
          · exact left e' inside
      · refine ⟨[],k₀,b₀,e :: rest,rfl,by rw [if_neg passed],by simp,?_⟩
        intro e' member
        rcases List.mem_cons.mp member with rfl | inside
        · exact lt_of_not_ge passed
        · exact lt_trans (lt_of_not_ge passed) (above e' inside)

/-- Only the separators matter. -/
theorem Increasing.of_keys {γ : Type} {C : List (K × γ)} (increasing : Increasing B) (same : C.map Prod.fst = B.map Prod.fst) :
    Increasing C := by
  have keys : (C.drop 1).map Prod.fst = (B.drop 1).map Prod.fst := by rw [List.map_drop,List.map_drop,same]
  have sorted : ((B.drop 1).map Prod.fst).Pairwise (· < ·) := List.pairwise_map.mpr increasing
  rw [← keys] at sorted
  exact List.pairwise_map.mp sorted

theorem Increasing.sublist (increasing : Increasing B) (part : A.Sublist B) : Increasing A :=
  List.Pairwise.sublist (part.drop 1) increasing

/-- The outer node is increasing where the flat one is. -/
theorem increasing_outer (inhabited : ∀ c ∈ P, c.2 ≠ []) (increasing : Increasing (flat P)) : Increasing P := by
  have keys : ((flat P).map Prod.fst).drop 1 |>.Pairwise (· < ·) := by
    rw [← List.map_drop,List.pairwise_map]
    exact increasing
  have outer := keys.sublist ((outer_sublist inhabited).drop 1)
  rwa [← List.map_drop,List.pairwise_map] at outer

/-- And so is every inner node. -/
theorem increasing_inner {c : K × List (K × β)} (increasing : Increasing (flat P)) (member : c ∈ P) : Increasing c.2 := by
  have part : (labelled c.1 c.2).Sublist (flat P) := List.sublist_flatten_of_mem (List.mem_map.mpr ⟨c,member,rfl⟩)
  have inner := increasing.sublist part
  obtain ⟨k,slots⟩ := c
  cases slots with
  | nil => exact List.Pairwise.nil
  | cons e later => exact inner

/-- The search ends at one of the destinations. -/
theorem search_mem (found : search x A = some b) : ∃ k, (k,b) ∈ A := by
  have all : ∀ (k : K) (here : β) (rest : List (K × β)), ∃ k', (k',follow x here rest) ∈ (k,here) :: rest := by
    intro k here rest
    induction rest generalizing k here with
    | nil => exact ⟨k,List.mem_cons_self⟩
    | cons e rest ih =>
      rw [follow]
      split_ifs
      · obtain ⟨k',member⟩ := ih e.1 e.2
        exact ⟨k',List.mem_cons_of_mem _ member⟩
      · exact ⟨k,List.mem_cons_self⟩
  cases A with
  | nil => cases found
  | cons e rest =>
    obtain rfl := Option.some.inj found
    exact all e.1 e.2 rest

/-- Replacing every destination by what it stands for. -/
theorem search_map {γ : Type} (f : β → γ) : search x (A.map (fun e => (e.1,f e.2))) = (search x A).map f := by
  have all : ∀ (here : β) (rest : List (K × β)), follow x (f here) (rest.map (fun e => (e.1,f e.2))) = f (follow x here rest) := by
    intro here rest
    induction rest generalizing here with
    | nil => rfl
    | cons e rest ih =>
      rw [List.map_cons,follow,follow,ih e.2]
      split_ifs <;> rfl
  cases A with
  | nil => rfl
  | cons e rest => exact congrArg some (all e.2 rest)

end
end Aether.TwoLevels
