import Aether.DiskManager

/-!
The free list of the disk. `Chain` is a linked list through a function from each
element to the next one; `FreeList` says which pages the chain on disk consists
of, and allocation and deallocation push and pop the list.
-/
namespace Aether.FreeList
open Aether.Bytes Aether.Types Aether.DiskManager

/-! ### Chains -/

section
variable {A : Type}

/-- `next` leads from the head through the elements of the list to the end mark. -/
def Chain (last : A) (next : A → A) : A → List A → Prop
  | head, [] => head = last
  | head, a :: rest => head = a ∧ a ≠ last ∧ Chain last next (next a) rest

variable {last head : A} {next next' : A → A} {l : List A}

theorem Chain.congr (chain : Chain last next head l) (same : ∀ a ∈ l, next' a = next a) : Chain last next' head l := by
  induction l generalizing head with
  | nil => exact chain
  | cons a rest ih =>
    obtain ⟨here,inside,more⟩ := chain
    refine ⟨here,inside,?_⟩
    rw [same a (by simp)]
    exact ih more (fun b member => same b (by simp [member]))

theorem chain_unique : ∀ {l l' : List A} {head : A}, Chain last next head l → Chain last next head l' → l = l'
  | [], [], _, _, _ => rfl
  | [], _ :: _, _, ends, ⟨rfl,inside,_⟩ => absurd ends inside
  | _ :: _, [], _, ⟨rfl,inside,_⟩, ends => absurd ends inside
  | _ :: _, _ :: _, _, ⟨rfl,_,more⟩, ⟨rfl,_,more'⟩ => congrArg _ (chain_unique more more')

theorem chain_nil_iff (chain : Chain last next head l) : l = [] ↔ head = last := by
  cases l with
  | nil => exact ⟨fun _ => chain,fun _ => rfl⟩
  | cons a rest =>
    obtain ⟨rfl,inside,_⟩ := chain
    simp [inside]

end

/-! ### The free list on disk -/

/-- The id that a free page names as the next one. -/
def link (d : DiskManager) (p : PageId) : PageId := (d.dbIo.page p).get32 0

/-- The page is on the free list. -/
def OnFreeList (d : DiskManager) (p : PageId) : Prop :=
  ∃ l, Chain INVALID_PAGE_ID (link d) d.freeListHead l ∧ p ∈ l

/-- The free pages of a file, the one to be handed out next first. -/
structure FreeList (d : DiskManager) (l : List PageId) : Prop where
  chain : Chain INVALID_PAGE_ID (link d) d.freeListHead l
  distinct : l.Nodup
  inside : ∀ p ∈ l, 0 < p ∧ p < d.numPages
  length : d.dbIo.length = d.numPages.toNat
  positive : 0 < d.numPages

section
variable {d d' : DiskManager} {p q : PageId} {l : List PageId}

theorem onFreeList_iff (free : FreeList d l) : OnFreeList d p ↔ p ∈ l := by
  constructor
  · rintro ⟨l',chain,member⟩
    rwa [chain_unique free.chain chain]
  · exact fun member => ⟨l,free.chain,member⟩

theorem create_freeList : FreeList DiskManager.create [] :=
  ⟨rfl,List.nodup_nil,by simp,by decide,by decide⟩

theorem lt_toNat {p n : PageId} : p < n ↔ p.toNat < n.toNat := UInt32.lt_iff_toNat_lt

theorem pos_ne {p : PageId} (positive : 0 < p) : p ≠ 0 := by
  rintro rfl
  exact UInt32.lt_irrefl _ positive

theorem pos_of_ne {p : PageId} (other : p ≠ 0) : 0 < p := by
  rw [lt_toNat]
  have : p.toNat ≠ 0 := fun same => other (UInt32.toNat_inj.mp same)
  simp
  omega

theorem writeMetadata_page (other : q ≠ 0) : d.writeMetadata.dbIo.page q = d.dbIo.page q :=
  Function.update_of_ne other ..

theorem writeMetadata_length (long : 0 < d.dbIo.length) : d.writeMetadata.dbIo.length = d.dbIo.length := by
  simp only [DiskManager.writeMetadata,DbFile.write,UInt32.toNat_zero]
  omega

/-- The same free list in a file that agrees on its pages. -/
theorem FreeList.congr (free : FreeList d l) (head : d'.freeListHead = d.freeListHead) (count : d'.numPages = d.numPages)
    (length : d'.dbIo.length = d.dbIo.length) (links : ∀ p ∈ l, link d' p = link d p) : FreeList d' l := by
  refine ⟨?_,free.distinct,fun p member => by rw [count]; exact free.inside p member,by rw [length,count]; exact free.length,
    by rw [count]; exact free.positive⟩
  rw [head]
  exact free.chain.congr links

/-- What allocation does to the file, apart from the metadata. -/
structure Allocated (d : DiskManager) (l : List PageId) (p : PageId) (d' : DiskManager) (l' : List PageId) : Prop where
  free : FreeList d' l'
  fresh : p ∉ l'
  other : p ≠ 0
  inside : p < d'.numPages
  source : l = p :: l' ∧ d'.numPages = d.numPages ∨ l = [] ∧ l' = [] ∧ p = d.numPages ∧ d'.numPages = d.numPages + 1
  pages : ∀ q, q ≠ 0 → d'.dbIo.page q = if q = p ∧ l = [] then Block.zeros _ else d.dbIo.page q

/-- The first free page is handed out, or a new one at the end of the file. -/
theorem allocatePage_spec (free : FreeList d l) (room : l = [] → d.numPages ≠ INVALID_PAGE_ID) :
    ∃ p d' l', d.allocatePage = .ok (p,d') ∧ Allocated d l p d' l' := by
  have length := free.length
  have positive := free.positive
  rw [lt_toNat,UInt32.toNat_zero] at positive
  cases l with
  | cons p rest =>
    obtain ⟨head,inFile,chain⟩ := free.chain
    have low := free.inside p (by simp)
    have inside : d.freeListHead.toNat < d.dbIo.length := by rw [head,length]; exact lt_toNat.mp low.2
    have distinct := free.distinct
    rw [List.nodup_cons] at distinct
    refine ⟨p,{ d with freeListHead := link d p }.writeMetadata,rest,?_,⟨?_,distinct.2,?_,?_,?_⟩,distinct.1,pos_ne low.1,low.2,
      .inl ⟨rfl,rfl⟩,fun q other => ?_⟩
    · rw [DiskManager.allocatePage,if_pos (by rw [head]; exact inFile),DbFile.read,if_pos inside]
      simp only [head]
      rfl
    · refine chain.congr (fun q member => congrArg (fun data : PageData => data.get32 0) (writeMetadata_page ?_))
      exact pos_ne (free.inside q (by simp [member])).1
    · exact fun q member => free.inside q (by simp [member])
    · rw [writeMetadata_length (by show 0 < d.dbIo.length; omega)]
      exact length
    · exact free.positive
    · rw [writeMetadata_page other]
      simp
  | nil =>
    have head : d.freeListHead = INVALID_PAGE_ID := free.chain
    have space := room rfl
    have succ : (d.numPages + 1).toNat = d.numPages.toNat + 1 := by
      have bound := d.numPages.toNat_lt
      have below : d.numPages.toNat ≠ 4294967295 := fun same => space (UInt32.toNat_inj.mp same)
      rw [UInt32.toNat_add,UInt32.toNat_one,Nat.mod_eq_of_lt (by omega)]
    have nonzero : d.numPages ≠ 0 := pos_ne free.positive
    let grown := { d with numPages := d.numPages + 1 }.writeMetadata
    have longer : grown.dbIo.length = d.dbIo.length := writeMetadata_length (by show 0 < d.dbIo.length; omega)
    refine ⟨d.numPages,{ grown with dbIo := grown.dbIo.write d.numPages (Block.zeros _) },[],?_,
      ⟨head,List.nodup_nil,by simp,?_,?_⟩,by simp,nonzero,?_,.inr ⟨rfl,rfl,rfl,rfl⟩,fun q other => ?_⟩
    · rw [DiskManager.allocatePage,if_neg (by simp [head])]
    · show max grown.dbIo.length (d.numPages.toNat + 1) = (d.numPages + 1).toNat
      omega
    · exact lt_toNat.mpr (by show (0 : UInt32).toNat < (d.numPages + 1).toNat; rw [succ]; simp)
    · exact lt_toNat.mpr (by show d.numPages.toNat < (d.numPages + 1).toNat; omega)
    · simp only [DbFile.write,and_true]
      by_cases same : q = d.numPages
      · subst same; simp
      · rw [Function.update_of_ne same,if_neg same]
        exact writeMetadata_page other

/-- A page that is not free is put in front. -/
theorem deallocatePage_spec (free : FreeList d l) (positive : 0 < p) (low : p < d.numPages) (fresh : p ∉ l) :
    FreeList (d.deallocatePage p) (p :: l) ∧ (d.deallocatePage p).numPages = d.numPages ∧
      ∀ q, q ≠ 0 → q ≠ p → (d.deallocatePage p).dbIo.page q = d.dbIo.page q := by
  have nonzero : p ≠ 0 := pos_ne positive
  have inside : ¬ (d.numPages ≤ p ∨ p = 0) := by
    rintro (outside | zero)
    · exact UInt32.not_le.mpr low outside
    · exact nonzero zero
  have length := free.length
  have pages : ∀ q, q ≠ 0 → (d.deallocatePage p).dbIo.page q =
      Function.update d.dbIo.page p ((Block.zeros _).put32 0 d.freeListHead) q := by
    intro q other
    rw [DiskManager.deallocatePage,if_neg inside,writeMetadata_page other]
    rfl
  have count : (d.deallocatePage p).numPages = d.numPages := by rw [DiskManager.deallocatePage,if_neg inside]; rfl
  have head : (d.deallocatePage p).freeListHead = p := by rw [DiskManager.deallocatePage,if_neg inside]; rfl
  have here : link (d.deallocatePage p) p = d.freeListHead := by
    rw [link,pages p nonzero,Function.update_self,Block.get32_put32 (by simp [PAGE_SIZE])]
  have others : ∀ q ∈ l, link (d.deallocatePage p) q = link d q := by
    intro q member
    have other : q ≠ p := by rintro rfl; exact fresh member
    rw [link,link,pages q (pos_ne (free.inside q member).1),Function.update_of_ne other]
  refine ⟨⟨?_,List.nodup_cons.mpr ⟨fresh,free.distinct⟩,fun q member => ?_,?_,by rw [count]; exact free.positive⟩,count,
    fun q other different => by rw [pages q other,Function.update_of_ne different]⟩
  · refine ⟨head,lt_invalid low,?_⟩
    rw [here]
    exact free.chain.congr others
  · rw [count]
    rcases List.mem_cons.mp member with rfl | before
    · exact ⟨positive,low⟩
    · exact free.inside q before
  · have low' := lt_toNat.mp low
    rw [count,DiskManager.deallocatePage,if_neg inside,writeMetadata_length (by simp only [DbFile.write]; omega)]
    simp only [DbFile.write]
    omega

/-- Page 0 and pages past the end are not deallocated. -/
theorem deallocatePage_outside (outside : p = 0 ∨ d.numPages ≤ p) : d.deallocatePage p = d := by
  rw [DiskManager.deallocatePage,if_pos outside.symm]

/-- Writing a page that is not free keeps the free list. -/
theorem writePage_spec (free : FreeList d l) (low : p < d.numPages) (notFree : p ∉ l) (data : PageData) :
    FreeList { d with dbIo := d.dbIo.write p data } l := by
  have inside := lt_toNat.mp low
  have length := free.length
  refine free.congr rfl rfl ?_ (fun q member => ?_)
  · show max d.dbIo.length (p.toNat + 1) = d.dbIo.length
    omega
  · have other : q ≠ p := by rintro rfl; exact notFree member
    show (Function.update d.dbIo.page p data q).get32 0 = (d.dbIo.page q).get32 0
    rw [Function.update_of_ne other]

end
end Aether.FreeList
