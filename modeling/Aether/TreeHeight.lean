import Aether.TreeFrames
import Mathlib.Data.Set.Card

/-!
How high a tree can be. Every page below the root is at least half full, so the number
of entries grows with the height as a power of 169, and a file, whose pages have 32-bit
ids, holds no tree of more than six levels.
-/
namespace Aether.TreeHeight
open Aether.Programs Aether.Types Aether.PageStore Aether.LeafPage Aether.InternalPage Aether.BPlusTree
open Aether.SortedLists Aether.TreeModel Aether.TreePages Aether.TreeMap Aether.TreePins Aether.TreeFrames Aether.TreeScan

section
variable {h n fuel : Nat} {parent : PageId} {t : Tree h} {s : Store BPlusTreePage} {root : PageId} {pins : Multiset PageId} {F : Cells}
variable {m : Entries}

/-- What every child has at least, all children have together. -/
theorem length_flatMap_ge {A B : Type} {f : A → List B} {k : Nat} : ∀ {l : List A}, (∀ a ∈ l, k ≤ (f a).length) →
    k * l.length ≤ (l.flatMap f).length
  | [], _ => by simp
  | a :: l, least => by
    have rest := length_flatMap_ge (l := l) (fun b member => least b (List.mem_cons_of_mem a member))
    have first := least a List.mem_cons_self
    rw [List.flatMap_cons,List.length_append,List.length_cons,Nat.mul_succ]
    omega

/-- A subtree below the root has many leaves, which have many entries. -/
theorem full_large : ∀ {h : Nat} (t : Tree h), Full t → 169 ^ h ≤ t.leaves.length ∧ 126 * 169 ^ h ≤ (entriesOf t.leaves).length
  | 0, t, full => by
    obtain ⟨id,next,es,rfl⟩ := tree_leaf t
    have least := full.1
    rw [minimum_leaf,size_leaf] at least
    simpa [entriesOf] using least
  | h + 1, t, full => by
    obtain ⟨id,children,rfl⟩ := tree_branch t
    obtain ⟨least,_,filled⟩ := full
    rw [minimum_branch,size_branch] at least
    have each := fun c member => full_large c.2 (filled_branch.mp filled c member)
    have leaves : 169 ^ h * children.length ≤ (leavesOf children).length := length_flatMap_ge (fun c member => (each c member).1)
    have entries : 126 * 169 ^ h * children.length ≤ (entriesOf (leavesOf children)).length := by
      rw [leavesOf,entriesOf,List.flatMap_assoc]
      exact length_flatMap_ge (fun c member => (each c member).2)
    rw [leaves_branch]
    constructor
    · calc 169 ^ (h + 1) = 169 ^ h * 169 := pow_succ ..
        _ ≤ 169 ^ h * children.length := Nat.mul_le_mul_left _ least
        _ ≤ _ := leaves
    · calc 126 * 169 ^ (h + 1) = 126 * 169 ^ h * 169 := by rw [pow_succ,Nat.mul_assoc]
        _ ≤ 126 * 169 ^ h * children.length := Nat.mul_le_mul_left _ least
        _ ≤ _ := entries

/-- A root with children has two of them. -/
theorem root_large {t : TreeModel.Tree (h + 1)} (filled : t.Filled) (two : 2 ≤ t.size) :
    2 * 169 ^ h ≤ t.leaves.length ∧ 252 * 169 ^ h ≤ (entriesOf t.leaves).length := by
  obtain ⟨id,children,rfl⟩ := tree_branch t
  rw [size_branch] at two
  have each := fun c member => full_large c.2 (filled_branch.mp filled c member)
  have leaves : 169 ^ h * children.length ≤ (leavesOf children).length := length_flatMap_ge (fun c member => (each c member).1)
  have entries : 126 * 169 ^ h * children.length ≤ (entriesOf (leavesOf children)).length := by
    rw [leavesOf,entriesOf,List.flatMap_assoc]
    exact length_flatMap_ge (fun c member => (each c member).2)
  rw [leaves_branch]
  constructor
  · calc 2 * 169 ^ h = 169 ^ h * 2 := Nat.mul_comm ..
      _ ≤ 169 ^ h * children.length := Nat.mul_le_mul_left _ two
      _ ≤ _ := leaves
  · calc 252 * 169 ^ h = 126 * 169 ^ h * 2 := by omega
      _ ≤ 126 * 169 ^ h * children.length := Nat.mul_le_mul_left _ two
      _ ≤ _ := entries

/-- Every leaf is a page. -/
theorem leaves_le_cells : ∀ {h : Nat} (t : Tree h) (parent : PageId), t.leaves.length ≤ (cells parent t).card
  | 0, t, parent => by
    obtain ⟨id,next,es,rfl⟩ := tree_leaf t
    simp [cells_leaf]
  | h + 1, t, parent => by
    obtain ⟨id,children,rfl⟩ := tree_branch t
    rw [leaves_branch,cells_branch,Multiset.card_add]
    refine le_trans ?_ (Nat.le_add_left ..)
    induction children with
    | nil => simp
    | cons c rest ih =>
      rw [leavesOf_cons,List.length_append,cellsOf_cons,Multiset.card_add]
      exact Nat.add_le_add (leaves_le_cells c.2 id) ih

/-- The pages of a tree are among those of the file. -/
theorem cells_lt (own : Owns s (cells parent t + F) pins) : (cells parent t).card < s.numPages.toNat := by
  have distinct := own.distinct
  rw [Multiset.map_add] at distinct
  have nodup : ((cells parent t).map Prod.fst).toList.Nodup := by
    rw [← Multiset.coe_nodup,Multiset.coe_toList]
    exact (Multiset.nodup_add.mp distinct).1
  have count := own.wellFormed.count nodup (fun p member => own.allocated ?_)
  · simpa using count
  · rw [Multiset.map_add]
    exact Multiset.mem_add.mpr (.inl (Multiset.mem_toList.mp member))

/-- Pages are too few for a seventh level. -/
theorem height_lt_six (own : Owns s (cells parent t + F) pins) (filled : t.Filled) (least : rootMinimum h ≤ t.size) : h < 6 := by
  cases h with
  | zero => omega
  | succ h =>
    have many := (root_large filled least).1
    have pages := leaves_le_cells t parent
    have few := cells_lt own
    have bound := s.numPages.toNat_lt
    by_contra high
    have power : 169 ^ 5 ≤ 169 ^ h := Nat.pow_le_pow_right (by omega) (by omega)
    omega

/-- No leaf has more entries than it has room for. -/
theorem entries_le : ∀ {h : Nat} (t : Tree h), t.Filled → t.size ≤ capacity h → (entriesOf t.leaves).length ≤ 253 * t.leaves.length
  | 0, t, _, most => by
    obtain ⟨id,next,es,rfl⟩ := tree_leaf t
    rw [capacity_leaf,size_leaf] at most
    simpa [entriesOf] using most
  | h + 1, t, filled, top => by
    clear top
    obtain ⟨id,children,rfl⟩ := tree_branch t
    rw [filled_branch] at filled
    rw [leaves_branch]
    induction children with
    | nil => simp [leavesOf,entriesOf]
    | cons c rest ih =>
      obtain ⟨_,most,below⟩ := filled c List.mem_cons_self
      have first := entries_le c.2 below most
      have others := ih (fun c' member => filled c' (List.mem_cons_of_mem c member))
      rw [leavesOf_cons,entriesOf_append,List.length_append,List.length_append]
      omega

/-- Pages are too few for so many entries. -/
theorem entries_lt (own : Owns s (cells parent t + F) pins) (filled : t.Filled) (most : t.size ≤ capacity h) :
    (entriesOf t.leaves).length < 1099511627776 := by
  have few := cells_lt own
  have pages := leaves_le_cells t parent
  have each := entries_le t filled most
  have bound := s.numPages.toNat_lt
  omega

/-- However many requests there have been, six levels are enough. -/
theorem representsIn_six (inside : RepresentsIn n F pins s root m) : RepresentsIn 6 F pins s root m := by
  rcases inside with none | ⟨h,T,_,valid,rfl,same,own⟩
  · exact .inl none
  · exact .inr ⟨h,T,height_lt_six own valid.filled valid.least,valid,rfl,same,own⟩

theorem exists_height (inside : RepresentsIn n F pins s root m) : ∃ h, Height s root h ∧ h ≤ 6 := by
  rcases inside with ⟨rfl,_,_⟩ | ⟨h,T,_,valid,rfl,_,own⟩
  · exact ⟨0,by rw [Height,if_pos rfl],by omega⟩
  · have valid' := own.ne_invalid (Multiset.mem_map_of_mem Prod.fst (Multiset.mem_add.mpr (.inl (mem_cells (t := T)))))
    refine ⟨h + 1,?_,height_lt_six own valid.filled valid.least⟩
    rw [Height,if_neg valid']
    exact tall_of_owns T own valid.filled valid.least

theorem does_scanAll_empty {steps : Nat} {Q : List Entry → Store BPlusTreePage → Prop} (enough : 0 < steps) (goal : Q [] s) :
    Does (scanAll fuel INVALID_PAGE_ID steps) Q s := by
  simp only [scanAll,beginIterator,if_true,endIterator,BPlusTreeIterator.create,Does,Prog.wp_bind,Prog.wp_pure]
  exact does_scan_end enough goal

/-- A scan finds the entries of the map in the order of their keys. -/
theorem does_scanIn (inside : RepresentsIn n F pins s root m) (lower : n ≤ fuel) : Does (scanAll fuel root 1099511627776)
    (fun entries s' => (Sorted entries ∧ ∀ k v, (k,v) ∈ entries ↔ m k = some v) ∧ RepresentsIn n F pins s' root m) s := by
  rcases inside with ⟨rfl,none,own⟩ | ⟨h,T,low,valid,rfl,same,own⟩
  · refine does_scanAll_empty (by omega) ⟨⟨List.Pairwise.nil,fun k v => ?_⟩,.inl ⟨rfl,none,own⟩⟩
    simp [none k]
  · have enough := entries_lt own valid.filled valid.most
    refine does_scanAll valid (by omega) enough own (fun s' own => ⟨⟨ordered_sorted _ _ T valid.ordered,fun k v => ?_⟩,?_⟩)
    · rw [same]
      exact mem_iff_get (ordered_sorted _ _ T valid.ordered) k v
    · exact .inr ⟨h,T,low,valid,rfl,same,own⟩

/-- The keys of a sorted list of entries. -/
theorem ncard_keys {entries : List Entry} (sorted : Sorted entries) : {k | SortedLists.get entries k ≠ none}.ncard = entries.length := by
  have keys : {k | SortedLists.get entries k ≠ none} = (entries.map Prod.fst).toFinset := by
    ext k
    simp only [Set.mem_ofPred_eq,List.coe_toFinset,List.mem_map]
    constructor
    · intro present
      obtain ⟨v,found⟩ := Option.ne_none_iff_exists'.mp present
      exact ⟨(k,v),(mem_iff_get sorted k v).mpr found,rfl⟩
    · rintro ⟨⟨k',v⟩,member,rfl⟩
      rw [(mem_iff_get sorted k' v).mp member]
      simp
  have nodup : (entries.map Prod.fst).Nodup := by
    rw [List.Nodup,List.pairwise_map]
    exact sorted.imp (fun less => ne_of_lt less)
  rw [keys,Set.ncard_coe_finset,List.toFinset_card_of_nodup nodup,List.length_map]

end
end Aether.TreeHeight
