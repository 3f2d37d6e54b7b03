import Aether.BPlusTree
import Aether.TwoLevels

/-!
Routing through two levels of internal pages. `Redistribute`, `Merge` and the split of an
internal page cut neighbours elsewhere, join them or make two of one; the entries of all
children of their parent, taken together, stay the same, and so does the grandchild that
every key is routed to.
-/
namespace Aether.TreeRouting
open Aether.Programs Aether.Types Aether.PageStore Aether.LeafPage Aether.InternalPage Aether.BPlusTree Aether.TwoLevels

/-! ### Two levels of pages -/

/-- A child of an internal page that is an internal page itself: the separator in front of
    it, its id and its slots. -/
structure Child where
  key : Key
  pageId : PageId
  slots : List Slot

/-- The slot of the parent. -/
def Child.slot (c : Child) : Slot := (c.key,c.pageId)

/-- The slots of all the children, each child beginning with the separator in front of it. -/
def spread (M : List Child) : List Slot := flat (M.map (fun c => (c.key,c.slots)))

/-- The child pointers of the children. -/
def grandchildren (M : List Child) : List PageId := M.flatMap (·.slots.map Prod.snd)

/-- The internal page in a page of the store. -/
def internalAt (s : Store BPlusTreePage) (p : PageId) : Option BPlusTreeInternalPage :=
  match s.data p with
  | some (.internal page) => some page
  | _ => none

/-- `Lookup` in the page. -/
def lookupAt (s : Store BPlusTreePage) (p : PageId) (key : Key) : Option PageId := (internalAt s p).bind (·.lookup key)

/-- `Lookup` in the parent and then in the child. -/
def grandchild (s : Store BPlusTreePage) (p : PageId) (key : Key) : Option PageId :=
  (lookupAt s p key).bind (fun child => lookupAt s child key)

/-- The page is an internal page with these slots. -/
def Shows (s : Store BPlusTreePage) (p : PageId) (slots : List Slot) : Prop :=
  ∃ page : BPlusTreeInternalPage, s.data p = some (.internal page) ∧ page.pageId = p ∧ page.Holds slots

/-- A parent, some neighbours among its children, and the slots of the parent on both
    sides of them. The separators of the parent and, between them, those of the neighbours
    increase strictly, the ids of the parent and its children are distinct, and the pages
    that the neighbours point to are there. -/
structure Family (s : Store BPlusTreePage) (p : PageId) (L : List Slot) (M : List Child) (R : List Slot) : Prop where
  parent : Shows s p (L ++ M.map Child.slot ++ R)
  pinned : p ∈ s.pins
  distinct : (p :: (L ++ M.map Child.slot ++ R).map Prod.snd).Nodup
  increasing : Increasing (L ++ spread M ++ R)
  child : ∀ c ∈ M, Shows s c.pageId c.slots ∧ c.pageId ∈ s.pins ∧ ∀ e ∈ c.slots, s.data e.2 ≠ none

/-- Every one of the neighbours has a child. -/
def Inhabited (M : List Child) : Prop := ∀ c ∈ M, c.slots ≠ []

/-! ### Routing as one search -/

/-- Where a key is routed to: another child, which is searched as it is, or a grandchild. -/
inductive Goal
  | child (pageId : PageId)
  | grandchild (pageId : PageId)

/-- The parent as a node whose destinations are nodes. -/
def node (L : List Slot) (M : List Child) (R : List Slot) : List (Key × List (Key × Goal)) :=
  L.map (fun e => (e.1,[(e.1,.child e.2)])) ++ M.map (fun c => (c.key,c.slots.map (fun e => (e.1,.grandchild e.2)))) ++
    R.map (fun e => (e.1,[(e.1,.child e.2)]))

/-- Its entries. -/
def goals (L : List Slot) (M : List Child) (R : List Slot) : List (Key × Goal) :=
  L.map (fun e => (e.1,.child e.2)) ++ (spread M).map (fun e => (e.1,.grandchild e.2)) ++ R.map (fun e => (e.1,.child e.2))

/-- Where a goal leads. -/
def reach (s : Store BPlusTreePage) (key : Key) : Goal → Option PageId
  | .child pageId => lookupAt s pageId key
  | .grandchild pageId => some pageId

section
variable {s : Store BPlusTreePage} {p : PageId} {M : List Child} {L R A : List Slot} {key : Key} {page : BPlusTreeInternalPage}

theorem flat_node : flat (node L M R) = goals L M R := by
  have others (L : List Slot) : flat (L.map (fun e => (e.1,[(e.1,Goal.child e.2)]))) = L.map (fun e => (e.1,Goal.child e.2)) := by
    induction L with
    | nil => rfl
    | cons e rest ih => exact congrArg _ ih
  have neighbours : flat (M.map (fun c => (c.key,c.slots.map (fun e => (e.1,Goal.grandchild e.2))))) =
      (spread M).map (fun e => (e.1,Goal.grandchild e.2)) := by
    induction M with
    | nil => rfl
    | cons c rest ih =>
      rw [List.map_cons,flat_cons,ih,labelled_map,spread,spread,List.map_cons,flat_cons,List.map_append]
  rw [node,goals,flat_append,flat_append,others,others,neighbours]

theorem increasing_goals (increasing : Increasing (L ++ spread M ++ R)) : Increasing (goals L M R) := by
  have keys : (goals L M R).map Prod.fst = (L ++ spread M ++ R).map Prod.fst := by simp [goals,Function.comp_def]
  exact increasing.of_keys keys

theorem node_inhabited (inhabited : Inhabited M) : ∀ c ∈ node L M R, c.2 ≠ [] := by
  intro e member
  rw [node,List.mem_append,List.mem_append,List.mem_map,List.mem_map,List.mem_map] at member
  rcases member with (⟨e,_,rfl⟩ | ⟨c,inM,rfl⟩) | ⟨e,_,rfl⟩
  · exact List.cons_ne_nil _ _
  · exact fun empty => inhabited c inM (List.map_eq_nil_iff.mp empty)
  · exact List.cons_ne_nil _ _

/-- `Lookup` in an increasing page is the search of its slots. -/
theorem Shows.lookup (shows : Shows s p A) (nonempty : A ≠ []) (increasing : Increasing A) : lookupAt s p key = search key A := by
  obtain ⟨page,stored,_,holds⟩ := shows
  obtain ⟨L,k,c,R,rfl,found,left,right⟩ := exists_found (x := key) nonempty increasing
  rw [lookupAt,internalAt,stored,found]
  exact BPlusTreeInternalPage.lookup_spec holds left right

/-- Routing on two levels is the search of all entries. -/
theorem grandchild_eq (family : Family s p L M R) (inhabited : Inhabited M) (some : M ≠ []) :
    grandchild s p key = (search key (goals L M R)).bind (reach s key) := by
  have increasing := increasing_goals family.increasing
  rw [← flat_node] at increasing ⊢
  have outer := increasing_outer (node_inhabited inhabited) increasing
  have slots : Increasing (L ++ M.map Child.slot ++ R) := outer.of_keys (by simp [node,Child.slot,Function.comp_def])
  -- both outer searches end at the same child, which is known by its id and by its entries
  let places : List (Key × PageId × List (Key × Goal)) := L.map (fun e => (e.1,e.2,[(e.1,.child e.2)])) ++
    M.map (fun c => (c.key,c.pageId,c.slots.map (fun e => (e.1,.grandchild e.2)))) ++ R.map (fun e => (e.1,e.2,[(e.1,.child e.2)]))
  have ids : search key (L ++ M.map Child.slot ++ R) = (search key places).map Prod.fst := by
    have slot : Child.slot = fun c => (c.key,c.pageId) := rfl
    rw [← search_map]
    simp [places,slot,Function.comp_def]
  have inside : search key (node L M R) = (search key places).map Prod.snd := by
    rw [← search_map]
    simp [places,node,Function.comp_def]
  rw [grandchild,family.parent.lookup (by simp [some]) slots,search_flat (node_inhabited inhabited) increasing,ids,inside]
  cases found : search key places with
  | none => rfl
  | some place =>
    obtain ⟨k,member⟩ := search_mem found
    rw [List.mem_append,List.mem_append,List.mem_map,List.mem_map,List.mem_map] at member
    rcases member with (⟨e,_,same⟩ | ⟨c,inM,same⟩) | ⟨e,_,same⟩
    · obtain ⟨rfl,rfl⟩ := Prod.mk.inj same
      rfl
    · obtain ⟨rfl,rfl⟩ := Prod.mk.inj same
      have inner : Increasing (c.slots.map (fun e => (e.1,Goal.grandchild e.2))) :=
        increasing_inner increasing (c := (c.key,_)) (by simp only [node,List.mem_append,List.mem_map]; exact .inl (.inr ⟨c,inM,rfl⟩))
      show lookupAt s c.pageId key = (search key (c.slots.map (fun e => (e.1,Goal.grandchild e.2)))).bind (reach s key)
      rw [(family.child c inM).1.lookup (inhabited c inM) (inner.of_keys (by simp [Function.comp_def])),search_map]
      cases search key c.slots <;> rfl
    · obtain ⟨rfl,rfl⟩ := Prod.mk.inj same
      rfl

end

/-! ### What the steps leave alone -/

/-- Apart from some pages, at most parent pointers have changed. -/
structure Frame (changed : List PageId) (s s' : Store BPlusTreePage) : Prop where
  pins : s'.pins = s.pins
  same : ∀ q ∉ changed, (s'.data q).map (BPlusTreePage.setParentPageId 0) = (s.data q).map (BPlusTreePage.setParentPageId 0)
  stored : ∀ q, s.data q ≠ none → s'.data q ≠ none

/-- The action runs without a fault, whichever fetches return null, and ends so. -/
abbrev Ends {α : Type} (action : Action α) (post : α → Store BPlusTreePage → Prop) (s : Store BPlusTreePage) : Prop :=
  Prog.wp (exec .zeros) (fun _ _ => True) action post s

section
variable {α : Type} {s s' s'' : Store BPlusTreePage} {p q : PageId} {key : Key} {A : List Slot} {changed changed' : List PageId}

theorem Frame.refl : Frame changed s s := ⟨rfl,fun _ _ => rfl,fun _ stored => stored⟩

theorem Frame.trans (first : Frame changed s s') (second : Frame changed' s' s'') : Frame (changed ++ changed') s s'' := by
  refine ⟨second.pins.trans first.pins,fun q apart => ?_,fun q stored => second.stored q (first.stored q stored)⟩
  rw [List.mem_append,not_or] at apart
  exact (second.same q apart.2).trans (first.same q apart.1)

theorem Frame.mono (frame : Frame changed s s') (more : ∀ q ∈ changed, q ∈ changed') : Frame changed' s s' :=
  ⟨frame.pins,fun q apart => frame.same q (fun member => apart (more q member)),frame.stored⟩

/-- What the page of a store is up to its parent pointer. -/
theorem internalAt_same (same : (s'.data q).map (BPlusTreePage.setParentPageId 0) = (s.data q).map (BPlusTreePage.setParentPageId 0)) :
    (internalAt s' q).map ({ · with parentPageId := 0 }) = (internalAt s q).map ({ · with parentPageId := 0 }) := by
  have both (s : Store BPlusTreePage) : (internalAt s q).map ({ · with parentPageId := 0 }) =
      match (s.data q).map (BPlusTreePage.setParentPageId 0) with
      | some (.internal page) => some page
      | _ => none := by
    rw [internalAt]
    rcases s.data q with _ | (leaf | internal) <;> rfl
  rw [both,both,same]

theorem Frame.lookup (frame : Frame changed s s') (apart : q ∉ changed) : lookupAt s' q key = lookupAt s q key := by
  have both (s : Store BPlusTreePage) : lookupAt s q key = ((internalAt s q).map ({ · with parentPageId := 0 })).bind (·.lookup key) := by
    rw [lookupAt]
    cases internalAt s q <;> rfl
  rw [both,both,internalAt_same (frame.same q apart)]

theorem Frame.shows (frame : Frame changed s s') (apart : q ∉ changed) (shows : Shows s q A) : Shows s' q A := by
  obtain ⟨page,stored,pageId,holds⟩ := shows
  have same := frame.same q apart
  rw [stored] at same
  cases stored' : s'.data q with
  | none => rw [stored'] at same; cases same
  | some content =>
    rw [stored'] at same
    cases content with
    | leaf leaf => cases same
    | internal page' =>
      have same : ({ page' with parentPageId := 0 } : BPlusTreeInternalPage) = { page with parentPageId := 0 } :=
        BPlusTreePage.internal.inj (Option.some.inj same)
      obtain ⟨size,_,_,pageId',keys,values⟩ := BPlusTreeInternalPage.mk.inj same
      exact ⟨page',stored',pageId'.trans pageId,size ▸ holds.size,keys ▸ holds.keys,values ▸ holds.values⟩

theorem ends_bind {β : Type} {m : Action α} {next : α → Action β} {Q : β → Store BPlusTreePage → Prop}
    (first : Ends m (fun value s' => Ends (next value) Q s') s) : Ends (m >>= next) Q s :=
  (Prog.wp_bind m next Q s).mpr first

theorem ends_inBounds {result : Option α} {value : α} {Q : α → Store BPlusTreePage → Prop} (computed : result = some value)
    (goal : Q value s) : Ends (inBounds result) Q s :=
  (Prog.wp_ofOption Fault.outOfBounds result Q s).mpr ⟨value,computed,goal⟩

theorem ends_getData {Q : BPlusTreePage → Store BPlusTreePage → Prop} {content : BPlusTreePage} (pinned : p ∈ s.pins)
    (stored : s.data p = some content) (goal : Q content s) : Ends (getData p) Q s := by
  refine (Prog.wp_perform _ _ _).mpr ⟨content,s,?_,fun _ => goal⟩
  simp only [exec,if_pos pinned,stored]

theorem ends_setData {Q : Unit → Store BPlusTreePage → Prop} {content : BPlusTreePage} (pinned : p ∈ s.pins)
    (goal : Q () { s with data := Function.update s.data p (some content) }) : Ends (setData p content) Q s := by
  refine (Prog.wp_perform _ _ _).mpr ⟨(),_,?_,fun _ => goal⟩
  simp only [exec,if_pos pinned]

theorem ends_readInternal {Q : BPlusTreeInternalPage → Store BPlusTreePage → Prop} (pinned : p ∈ s.pins) (shows : Shows s p A)
    (goal : ∀ page : BPlusTreeInternalPage, s.data p = some (.internal page) → page.pageId = p → page.Holds A → Q page s) :
    Ends (readInternal p) Q s := by
  obtain ⟨page,stored,pageId,holds⟩ := shows
  exact ends_bind (ends_getData pinned stored (goal page stored pageId holds))

theorem ends_writeInternal {Q : Unit → Store BPlusTreePage → Prop} {page : BPlusTreeInternalPage} (pinned : p ∈ s.pins)
    (pageId : page.pageId = p) (holds : page.Holds A) (goal : ∀ s', Frame [p] s s' → Shows s' p A → Q () s') :
    Ends (writeInternal p page) Q s := by
  refine ends_setData pinned (goal _ ⟨rfl,fun q apart => ?_,fun q stored => ?_⟩ ⟨page,Function.update_self ..,pageId,holds⟩)
  · have other : q ≠ p := by simpa using apart
    show (Function.update s.data p _ q).map _ = _
    rw [Function.update_of_ne other]
  · show Function.update s.data p _ q ≠ none
    by_cases same : q = p
    · rw [same,Function.update_self]
      exact Option.some_ne_none _
    · rwa [Function.update_of_ne same]

/-- A child is given a parent, or skipped. -/
theorem ends_adopt {Q : Unit → Store BPlusTreePage → Prop} {parentId : PageId} (stored : s.data q ≠ none)
    (goal : ∀ s', Frame [] s s' → Q () s') : Ends (adopt q parentId) Q s := by
  obtain ⟨content,there⟩ := Option.ne_none_iff_exists'.mp stored
  refine ends_bind ((Prog.wp_perform _ _ _).mpr ?_)
  by_cases null : q = INVALID_PAGE_ID ∨ s.script.headD false = true
  · obtain ⟨script,fetched⟩ : ∃ script, exec .zeros (.fetchPage q) s = .ok (none,{ s with script }) := by
      rcases null with invalid | failing
      · exact ⟨s.script,by simp only [exec,if_pos invalid]⟩
      · by_cases invalid : q = INVALID_PAGE_ID
        · exact ⟨s.script,by simp only [exec,if_pos invalid]⟩
        · exact ⟨s.script.tail,by simp only [exec,if_neg invalid,if_pos failing]⟩
    exact ⟨none,_,fetched,fun _ => goal _ ⟨rfl,fun _ _ => rfl,fun _ stored => stored⟩⟩
  · obtain ⟨valid,serving⟩ := not_or.mp null
    refine ⟨some q,{ s with pins := q ::ₘ s.pins, script := s.script.tail },by simp only [exec,if_neg valid,if_neg serving,there],fun _ => ?_⟩
    refine ends_bind (ends_bind (ends_getData (Multiset.mem_cons_self ..) there (ends_setData (Multiset.mem_cons_self ..) ?_)))
    refine ends_bind ((Prog.wp_perform _ _ _).mpr ⟨true,_,if_pos (Multiset.mem_cons_self q _),fun _ => ?_⟩)
    refine goal _ ⟨Multiset.erase_cons_head q _,fun r _ => ?_,fun r stored => ?_⟩
    · show (Function.update s.data q _ r).map _ = _
      by_cases same : r = q
      · rw [same,Function.update_self,there]
        cases content <;> rfl
      · rw [Function.update_of_ne same]
    · show Function.update s.data q _ r ≠ none
      by_cases same : r = q
      · rw [same,Function.update_self]
        exact Option.some_ne_none _
      · rwa [Function.update_of_ne same]

/-- The loop over the children of a page from one of them on. -/
theorem ends_adoptChildren {Q : Unit → Store BPlusTreePage → Prop} {parentId : PageId} (done rest : List Slot) (pinned : p ∈ s.pins)
    (shows : Shows s p (done ++ rest)) (stored : ∀ e ∈ rest, s.data e.2 ≠ none) (goal : ∀ s', Frame [] s s' → Q () s') :
    Ends (adoptChildren p parentId done.length rest.length) Q s := by
  induction rest generalizing done s with
  | nil => exact goal s .refl
  | cons e rest ih =>
    obtain ⟨k,child⟩ := e
    refine ends_bind (ends_readInternal pinned shows (fun page _ _ holds => ?_))
    refine ends_bind (ends_inBounds (BPlusTreeInternalPage.valueAt_spec holds) ?_)
    refine ends_bind (ends_adopt (stored _ List.mem_cons_self) (fun s₁ frame => ?_))
    have index : done.length + 1 = (done ++ [(k,child)]).length := by simp
    rw [index]
    refine ih (done ++ [(k,child)]) (frame.pins ▸ pinned) ?_ (fun e member => frame.stored _ (stored e (List.mem_cons_of_mem _ member)))
      (fun s₂ later => goal s₂ (frame.trans later))
    rw [List.append_assoc]
    exact frame.shows List.not_mem_nil shows

variable {L R : List Slot} {k : Key} {c : PageId}

/-- A separator of an internal page is replaced. -/
theorem ends_setKeyAt {Q : Unit → Store BPlusTreePage → Prop} {index : Int} {k' : Key} (pinned : p ∈ s.pins)
    (shows : Shows s p (L ++ (k,c) :: R)) (position : index.toNat = L.length)
    (goal : ∀ s', Frame [p] s s' → Shows s' p (L ++ (k',c) :: R) → Q () s') : Ends (setKeyAt p index k') Q s := by
  refine ends_bind (ends_readInternal pinned shows (fun page _ pageId holds => ?_))
  obtain ⟨keys,set,after⟩ := BPlusTreeInternalPage.setKeyAt_spec holds k'
  rw [position]
  exact ends_bind (ends_inBounds set (ends_writeInternal pinned pageId after goal))

/-- A child is removed. -/
theorem ends_removeChild {Q : Unit → Store BPlusTreePage → Prop} (pinned : p ∈ s.pins) (shows : Shows s p (L ++ (k,c) :: R))
    (goal : ∀ s', Frame [p] s s' → Shows s' p (L ++ R) → Q () s') : Ends (removeChild p L.length) Q s := by
  refine ends_bind (ends_readInternal pinned shows (fun page _ pageId holds => ?_))
  obtain ⟨keys,values,removed,after⟩ := BPlusTreeInternalPage.remove_spec holds
  exact ends_bind (ends_inBounds removed (ends_writeInternal pinned pageId after goal))

end

/-! ### What a step keeps -/

/-- After a step, other neighbours stand in place of the old ones: the separators increase,
    every key is routed to the same grandchild, and the child pointers are the same, in the
    same order. -/
structure Rebalanced (s s' : Store BPlusTreePage) (p : PageId) (L : List Slot) (M M' : List Child) (R : List Slot) : Prop where
  family : Family s' p L M' R
  inhabited : Inhabited M'
  routing : ∀ key, grandchild s' p key = grandchild s p key
  pointers : grandchildren M' = grandchildren M

section
variable {s s' : Store BPlusTreePage} {p : PageId} {M M' : List Child} {L R : List Slot} {changed : List PageId}

theorem grandchildren_eq : grandchildren M = (spread M).map Prod.snd := by
  induction M with
  | nil => rfl
  | cons c rest ih =>
    rw [grandchildren,List.flatMap_cons,spread,List.map_cons,flat_cons,List.map_append,labelled_destinations]
    exact congrArg _ ih

/-- The other children of the parent are other pages. -/
theorem Family.apart (family : Family s p L M R) : ∀ e ∈ L ++ R, e.2 ∉ p :: M.map Child.pageId := by
  intro e member
  have distinct := family.distinct
  rw [List.nodup_cons,List.map_append,List.map_append] at distinct
  obtain ⟨parent,ids⟩ := distinct
  obtain ⟨front,_,back⟩ := List.nodup_append.mp ids
  obtain ⟨_,_,middle⟩ := List.nodup_append.mp front
  have slots : M.map Child.pageId = (M.map Child.slot).map Prod.snd := by rw [List.map_map]; rfl
  rw [slots,List.mem_cons,not_or]
  rcases List.mem_append.mp member with inL | inR
  · have inside : e.2 ∈ L.map Prod.snd := List.mem_map_of_mem inL
    refine ⟨fun same => parent (same ▸ List.mem_append_left _ (List.mem_append_left _ inside)),fun inM => ?_⟩
    exact middle _ inside _ inM rfl
  · have inside : e.2 ∈ R.map Prod.snd := List.mem_map_of_mem inR
    refine ⟨fun same => parent (same ▸ List.mem_append_right _ inside),fun inM => ?_⟩
    exact back _ (List.mem_append_right _ inM) _ inside rfl

/-- Where a key is routed does not change with the pages that other children are. -/
theorem reach_same (frame : Frame changed s s') (apart : ∀ e ∈ L ++ R, e.2 ∉ changed) (key : Key) :
    (search key (goals L M R)).bind (reach s' key) = (search key (goals L M R)).bind (reach s key) := by
  cases found : search key (goals L M R) with
  | none => rfl
  | some goal =>
    cases goal with
    | grandchild g => rfl
    | child q =>
      obtain ⟨k,member⟩ := search_mem found
      have other : ∃ e ∈ L ++ R, e.2 = q := by
        simp only [goals,List.mem_append,List.mem_map,Prod.mk.injEq,Goal.child.injEq,reduceCtorEq,and_false,exists_false,or_false] at member
        rcases member with ⟨e,inL,_,same⟩ | ⟨e,inR,_,same⟩
        · exact ⟨e,List.mem_append_left _ inL,same⟩
        · exact ⟨e,List.mem_append_right _ inR,same⟩
      obtain ⟨e,inside,rfl⟩ := other
      exact frame.lookup (apart e inside)

/-- Neighbours are replaced by others that spread the same slots. -/
theorem Family.rebalanced (family : Family s p L M R) (inhabited : Inhabited M) (frame : Frame changed s s')
    (apart : ∀ e ∈ L ++ R, e.2 ∉ changed) (parent : Shows s' p (L ++ M'.map Child.slot ++ R))
    (distinct : (p :: (L ++ M'.map Child.slot ++ R).map Prod.snd).Nodup)
    (children : ∀ c ∈ M', c.slots ≠ [] ∧ Shows s' c.pageId c.slots ∧ c.pageId ∈ s.pins)
    (same : spread M' = spread M) (some : M ≠ []) (some' : M' ≠ []) : Rebalanced s s' p L M M' R := by
  have pointers : grandchildren M' = grandchildren M := by rw [grandchildren_eq,grandchildren_eq,same]
  have stored : ∀ c ∈ M', ∀ e ∈ c.slots, s.data e.2 ≠ none := by
    intro c inM' e inside
    have pointer : e.2 ∈ grandchildren M := by
      rw [← pointers]
      exact List.mem_flatMap.mpr ⟨c,inM',List.mem_map_of_mem inside⟩
    obtain ⟨c₀,inM,there⟩ := List.mem_flatMap.mp pointer
    obtain ⟨e₀,inside₀,there⟩ := List.mem_map.mp there
    rw [← there]
    exact (family.child c₀ inM).2.2 e₀ inside₀
  have family' : Family s' p L M' R := by
    refine ⟨parent,frame.pins ▸ family.pinned,distinct,same ▸ family.increasing,fun c inM' => ?_⟩
    obtain ⟨_,shows,pinned⟩ := children c inM'
    exact ⟨shows,frame.pins ▸ pinned,fun e inside => frame.stored _ (stored c inM' e inside)⟩
  have inhabited' : Inhabited M' := fun c inM' => (children c inM').1
  refine ⟨family',inhabited',fun key => ?_,pointers⟩
  have goals' : goals L M' R = goals L M R := by rw [goals,goals,same]
  rw [grandchild_eq family' inhabited' some',grandchild_eq family inhabited some,goals',reach_same frame apart]

end

/-! ### The steps -/

section
variable {s s' : Store BPlusTreePage} {p l r c c0 new : PageId} {L R A B A' B' : List Slot} {j k k' k0 kc : Key}

/-- Two neighbours are three pages with their parent, all of them pinned. -/
theorem Family.pages (family : Family s p L [⟨j,l,A⟩,⟨k,r,B⟩] R) :
    (p ∈ s.pins ∧ l ∈ s.pins ∧ r ∈ s.pins) ∧ (l ≠ p ∧ r ≠ p ∧ l ≠ r) ∧ Shows s l A ∧ Shows s r B ∧
      Shows s p ((L ++ [(j,l)]) ++ (k,r) :: R) := by
  obtain ⟨left,pinnedL,_⟩ := family.child ⟨j,l,A⟩ (by simp)
  obtain ⟨right,pinnedR,_⟩ := family.child ⟨k,r,B⟩ (by simp)
  have parent : Shows s p ((L ++ [(j,l)]) ++ (k,r) :: R) := by simpa [Child.slot] using family.parent
  have distinct := family.distinct
  simp only [List.map_append,List.map_cons,List.map_nil,Child.slot,List.nodup_cons,List.mem_append,List.mem_cons,List.nodup_append,
    List.not_mem_nil,or_false,not_or] at distinct
  obtain ⟨⟨⟨_,notL,notR⟩,_⟩,⟨_,⟨apart,_⟩,_⟩,_⟩ := distinct
  exact ⟨⟨family.pinned,pinnedL,pinnedR⟩,⟨Ne.symm notL,Ne.symm notR,apart⟩,left,right,parent⟩

/-- A single neighbour is another page than its parent, and none of the children before it. -/
theorem Family.alone (family : Family s p L [⟨j,l,A⟩] R) : l ≠ p ∧ l ∉ L.map Prod.snd := by
  have distinct := family.distinct
  simp only [List.map_append,List.map_cons,List.map_nil,Child.slot,List.nodup_cons,List.mem_append,List.mem_cons,List.nodup_append,
    List.not_mem_nil,or_false,not_or] at distinct
  obtain ⟨⟨⟨_,above⟩,_⟩,⟨_,_,before⟩,_⟩ := distinct
  exact ⟨Ne.symm above,fun inL => before l inL l rfl rfl⟩

/-- Two neighbours have been cut elsewhere. -/
theorem Family.recut (family : Family s p L [⟨j,l,A⟩,⟨k,r,B⟩] R) (inhabited : Inhabited [⟨j,l,A⟩,⟨k,r,B⟩]) (frame : Frame [p,l,r] s s')
    (left : Shows s' l A') (right : Shows s' r B') (parent : Shows s' p ((L ++ [(j,l)]) ++ (k',r) :: R)) (some : A' ≠ [] ∧ B' ≠ [])
    (same : labelled j A' ++ labelled k' B' = labelled j A ++ labelled k B) :
    Rebalanced s s' p L [⟨j,l,A⟩,⟨k,r,B⟩] [⟨j,l,A'⟩,⟨k',r,B'⟩] R := by
  obtain ⟨⟨_,pinnedL,pinnedR⟩,_⟩ := family.pages
  have children : ∀ c ∈ ([⟨j,l,A'⟩,⟨k',r,B'⟩] : List Child), c.slots ≠ [] ∧ Shows s' c.pageId c.slots ∧ c.pageId ∈ s.pins := by
    intro c member
    rcases List.mem_cons.mp member with rfl | member
    · exact ⟨some.1,left,pinnedL⟩
    · obtain rfl := List.mem_singleton.mp member
      exact ⟨some.2,right,pinnedR⟩
  refine family.rebalanced inhabited frame family.apart ?_ ?_ children ?_ (by simp) (by simp)
  · simpa [Child.slot] using parent
  · simpa [Child.slot] using family.distinct
  · simpa [spread] using same

/-- The last child of the left page becomes the first one of the right page. -/
theorem Family.ends_redistribute_left (family : Family s p L [⟨j,l,A ++ [(kc,c)]⟩,⟨k,r,(k0,c0) :: B⟩] R) (room : B.length + 1 < 339) :
    Ends (redistribute r l p (L.length + 1) true) (fun _ s' => Frame [p,l,r] s s' ∧ Shows s' l A ∧
      Shows s' r ((k0,c) :: (k,c0) :: B) ∧ Shows s' p ((L ++ [(j,l)]) ++ (kc,r) :: R)) s := by
  obtain ⟨⟨pinnedP,pinnedL,pinnedR⟩,⟨leftP,rightP,apart⟩,left,⟨page,stored,pageId,holds⟩,parent⟩ := family.pages
  have index : ((L.length : Int) + 1).toNat = (L ++ [(j,l)]).length := by
    rw [List.length_append,List.length_singleton]
    omega
  have moved : s.data c ≠ none := (family.child ⟨j,l,A ++ [(kc,c)]⟩ (by simp)).2.2 (kc,c) (by simp)
  refine ends_bind (ends_getData pinnedR stored ?_)
  refine ends_bind (ends_readInternal pinnedL left (fun sib _ sibId source => ?_))
  refine ends_bind (ends_readInternal pinnedP parent (fun above _ _ separators => ?_))
  rw [index]
  refine ends_bind (ends_inBounds (BPlusTreeInternalPage.keyAt_spec separators) ?_)
  have last : sib.size - 1 = A.length := by rw [source.size]; simp
  rw [last]
  refine ends_bind (ends_inBounds (BPlusTreeInternalPage.keyAt_spec source) ?_)
  obtain ⟨keys,values,computed,holdsL,holdsR⟩ := BPlusTreeInternalPage.moveLastToFrontOf_spec source holds room k
  refine ends_bind (ends_inBounds computed ?_)
  refine ends_bind (ends_writeInternal pinnedL sibId holdsL (fun s₁ frame₁ showsL => ?_))
  refine ends_bind (ends_writeInternal (frame₁.pins ▸ pinnedR) pageId holdsR (fun s₂ frame₂ showsR => ?_))
  have frame₁₂ := frame₁.trans frame₂
  refine ends_bind (ends_setKeyAt (frame₁₂.pins ▸ pinnedP) (frame₁₂.shows (by simp [leftP.symm,rightP.symm]) parent) index
    (fun s₃ frame₃ showsP => ?_))
  have frame₁₃ := frame₁₂.trans frame₃
  refine ends_bind (ends_inBounds (BPlusTreeInternalPage.valueAt_spec (L := []) holdsR) ?_)
  refine ends_adopt (frame₁₃.stored c moved) (fun s₄ frame₄ => ?_)
  refine ⟨(frame₁₃.trans frame₄).mono (by simp),?_,?_,frame₄.shows List.not_mem_nil showsP⟩
  · exact frame₄.shows List.not_mem_nil (frame₃.shows (by simp [leftP]) (frame₂.shows (by simp [apart]) showsL))
  · exact frame₄.shows List.not_mem_nil (frame₃.shows (by simp [rightP]) showsR)

/-- `Redistribute` from the left sibling. -/
theorem redistribute_left (family : Family s p L [⟨j,l,A⟩,⟨k,r,B⟩] R) (inhabited : Inhabited [⟨j,l,A⟩,⟨k,r,B⟩])
    (gives : 2 ≤ A.length) (room : B.length < 339) :
    ∃ s' A' k' B', Prog.run (exec .zeros) (redistribute r l p (L.length + 1) true) s = .ok ((),s') ∧
      Rebalanced s s' p L [⟨j,l,A⟩,⟨k,r,B⟩] [⟨j,l,A'⟩,⟨k',r,B'⟩] R := by
  obtain ⟨A,⟨kc,c⟩,rfl⟩ : ∃ A₀ e, A = A₀ ++ [e] := ⟨_,_,(List.dropLast_append_getLast (List.ne_nil_of_length_pos (by omega))).symm⟩
  obtain ⟨⟨k0,c0⟩,B,rfl⟩ := List.exists_cons_of_ne_nil (inhabited ⟨k,r,B⟩ (by simp))
  have some : A ≠ [] := by
    rintro rfl
    simp at gives
  obtain ⟨_,s',ran,frame,showsL,showsR,showsP⟩ := Prog.run_of_wp (family.ends_redistribute_left room) Prog.served_any
  refine ⟨s',A,kc,(k0,c) :: (k,c0) :: B,ran,family.recut inhabited frame showsL showsR showsP ⟨some,by simp⟩ ?_⟩
  rw [labelled_append some,List.append_assoc]
  rfl

/-- The first child of the right page becomes the last one of the left page. -/
theorem Family.ends_redistribute_right (family : Family s p L [⟨j,l,A⟩,⟨k,r,(k0,c) :: (kc,c0) :: B⟩] R) (room : A.length < 339) :
    Ends (redistribute l r p L.length false) (fun _ s' => Frame [p,l,r] s s' ∧ Shows s' l (A ++ [(k,c)]) ∧
      Shows s' r ((kc,c0) :: B) ∧ Shows s' p ((L ++ [(j,l)]) ++ (kc,r) :: R)) s := by
  obtain ⟨⟨pinnedP,pinnedL,pinnedR⟩,⟨leftP,rightP,apart⟩,⟨page,stored,pageId,holds⟩,right,parent⟩ := family.pages
  have index : ((L.length : Int) + 1).toNat = (L ++ [(j,l)]).length := by
    rw [List.length_append,List.length_singleton]
    omega
  have moved : s.data c ≠ none := (family.child ⟨k,r,(k0,c) :: (kc,c0) :: B⟩ (by simp)).2.2 (k0,c) (by simp)
  refine ends_bind (ends_getData pinnedL stored ?_)
  refine ends_bind (ends_readInternal pinnedR right (fun sib _ sibId source => ?_))
  refine ends_bind (ends_readInternal pinnedP parent (fun above _ _ separators => ?_))
  rw [index]
  refine ends_bind (ends_inBounds (BPlusTreeInternalPage.keyAt_spec separators) ?_)
  refine ends_bind (ends_inBounds (BPlusTreeInternalPage.keyAt_spec (L := [(k0,c)]) source) ?_)
  obtain ⟨keys,values,keys',values',computed,holdsR,holdsL⟩ := BPlusTreeInternalPage.moveFirstToEndOf_spec source holds room k
  refine ends_bind (ends_inBounds computed ?_)
  refine ends_bind (ends_writeInternal pinnedR sibId holdsR (fun s₁ frame₁ showsR => ?_))
  refine ends_bind (ends_writeInternal (frame₁.pins ▸ pinnedL) pageId holdsL (fun s₂ frame₂ showsL => ?_))
  have frame₁₂ := frame₁.trans frame₂
  refine ends_bind (ends_setKeyAt (frame₁₂.pins ▸ pinnedP) (frame₁₂.shows (by simp [leftP.symm,rightP.symm]) parent) index
    (fun s₃ frame₃ showsP => ?_))
  have frame₁₃ := frame₁₂.trans frame₃
  have last : (A.length + 1 - 1) = A.length := by omega
  simp only [last]
  refine ends_bind (ends_inBounds (BPlusTreeInternalPage.valueAt_spec holdsL) ?_)
  refine ends_adopt (frame₁₃.stored c moved) (fun s₄ frame₄ => ?_)
  refine ⟨(frame₁₃.trans frame₄).mono (by simp),?_,?_,frame₄.shows List.not_mem_nil showsP⟩
  · exact frame₄.shows List.not_mem_nil (frame₃.shows (by simp [leftP]) showsL)
  · exact frame₄.shows List.not_mem_nil (frame₃.shows (by simp [rightP]) (frame₂.shows (by simp [apart.symm]) showsR))

/-- `Redistribute` from the right sibling. -/
theorem redistribute_right (family : Family s p L [⟨j,l,A⟩,⟨k,r,B⟩] R) (inhabited : Inhabited [⟨j,l,A⟩,⟨k,r,B⟩])
    (gives : 2 ≤ B.length) (room : A.length < 339) :
    ∃ s' A' k' B', Prog.run (exec .zeros) (redistribute l r p L.length false) s = .ok ((),s') ∧
      Rebalanced s s' p L [⟨j,l,A⟩,⟨k,r,B⟩] [⟨j,l,A'⟩,⟨k',r,B'⟩] R := by
  have some : A ≠ [] := inhabited ⟨j,l,A⟩ (by simp)
  obtain ⟨⟨k0,c⟩,⟨kc,c0⟩,B,rfl⟩ : ∃ e f B₀, B = e :: f :: B₀ := by
    match B, gives with
    | e :: f :: B₀, _ => exact ⟨e,f,B₀,rfl⟩
  obtain ⟨_,s',ran,frame,showsL,showsR,showsP⟩ := Prog.run_of_wp (family.ends_redistribute_right room) Prog.served_any
  refine ⟨s',A ++ [(k,c)],kc,(kc,c0) :: B,ran,family.recut inhabited frame showsL showsR showsP ⟨by simp,by simp⟩ ?_⟩
  rw [labelled_append some,List.append_assoc]
  rfl

/-- The children of the right page come after those of the left page. -/
theorem Family.ends_merge (family : Family s p L [⟨j,l,A⟩,⟨k,r,(k0,c) :: B⟩] R) (room : A.length + B.length + 1 ≤ 339) :
    Ends (merge l r p (L.length + 1)) (fun _ s' => Frame [p,l,r] s s' ∧ Shows s' l (A ++ (k,c) :: B) ∧
      Shows s' p ((L ++ [(j,l)]) ++ R)) s := by
  obtain ⟨⟨pinnedP,pinnedL,pinnedR⟩,⟨leftP,rightP,apart⟩,⟨page,there,pageId,holds⟩,right,parent⟩ := family.pages
  have index : L.length + 1 = (L ++ [(j,l)]).length := by rw [List.length_append,List.length_singleton]
  have stored : ∀ e ∈ A ++ (k,c) :: B, s.data e.2 ≠ none := by
    intro e member
    rcases List.mem_append.mp member with inA | inB
    · exact (family.child ⟨j,l,A⟩ (by simp)).2.2 e inA
    · rcases List.mem_cons.mp inB with rfl | inB
      · exact (family.child ⟨k,r,(k0,c) :: B⟩ (by simp)).2.2 (k0,c) List.mem_cons_self
      · exact (family.child ⟨k,r,(k0,c) :: B⟩ (by simp)).2.2 e (List.mem_cons_of_mem _ inB)
  refine ends_bind (ends_getData pinnedL there ?_)
  refine ends_bind (ends_readInternal pinnedP parent (fun above _ _ separators => ?_))
  rw [index]
  refine ends_bind (ends_inBounds (BPlusTreeInternalPage.keyAt_spec separators) ?_)
  refine ends_bind (ends_readInternal pinnedR right (fun sib _ sibId source => ?_))
  obtain ⟨keys,values,computed,holdsL⟩ := BPlusTreeInternalPage.moveAllTo_spec source holds room k
  refine ends_bind (ends_inBounds computed ?_)
  have emptied : ({ sib with size := 0 } : BPlusTreeInternalPage).Holds [] := ⟨rfl,Cells.begins_nil _,Cells.begins_nil _⟩
  refine ends_bind (ends_writeInternal pinnedR sibId emptied (fun s₁ frame₁ _ => ?_))
  refine ends_bind (ends_writeInternal (frame₁.pins ▸ pinnedL) pageId holdsL (fun s₂ frame₂ showsL => ?_))
  have frame₁₂ := frame₁.trans frame₂
  have count : A.length + B.length + 1 = (A ++ (k,c) :: B).length := by
    rw [List.length_append,List.length_cons]
    omega
  simp only [count]
  have there₂ : ∀ e ∈ A ++ (k,c) :: B, s₂.data e.2 ≠ none := fun e member => frame₁₂.stored _ (stored e member)
  refine ends_bind (ends_adoptChildren [] _ (frame₁₂.pins ▸ pinnedL) showsL there₂ (fun s₃ frame₃ => ?_))
  have frame₁₃ := frame₁₂.trans frame₃
  refine ends_removeChild (frame₁₃.pins ▸ pinnedP) (frame₁₃.shows (by simp [leftP.symm,rightP.symm]) parent)
    (fun s₄ frame₄ showsP => ?_)
  refine ⟨(frame₁₃.trans frame₄).mono (by simp),?_,showsP⟩
  exact frame₄.shows (by simp [leftP]) (frame₃.shows List.not_mem_nil showsL)

/-- `Merge`. -/
theorem merge_pages (family : Family s p L [⟨j,l,A⟩,⟨k,r,B⟩] R) (inhabited : Inhabited [⟨j,l,A⟩,⟨k,r,B⟩])
    (room : A.length + B.length ≤ 339) :
    ∃ s' C, Prog.run (exec .zeros) (merge l r p (L.length + 1)) s = .ok ((),s') ∧
      Rebalanced s s' p L [⟨j,l,A⟩,⟨k,r,B⟩] [⟨j,l,C⟩] R := by
  obtain ⟨_,pinnedL,_⟩ := family.child ⟨j,l,A⟩ (by simp)
  have some : A ≠ [] := inhabited ⟨j,l,A⟩ (by simp)
  obtain ⟨⟨k0,c⟩,B,rfl⟩ := List.exists_cons_of_ne_nil (inhabited ⟨k,r,B⟩ (by simp))
  obtain ⟨_,s',ran,frame,showsL,showsP⟩ := Prog.run_of_wp (family.ends_merge room) Prog.served_any
  refine ⟨s',A ++ (k,c) :: B,ran,?_⟩
  refine family.rebalanced inhabited frame family.apart (by simpa [Child.slot] using showsP) ?_ (fun e member => ?_) ?_ (by simp) (by simp)
  · refine family.distinct.sublist ?_
    simp [Child.slot]
  · obtain rfl := List.mem_singleton.mp member
    exact ⟨by simp,showsL,pinnedL⟩
  · simp [spread,labelled_append some]

/-- An internal page is split, and the new page is pushed up into its parent, as
    `InsertIntoParent` does it. -/
def splitAndPushUp (page newPage parent : PageId) : Action Unit := do
  let pushUpKey ← splitInternal page newPage
  let old ← getData page
  let new ← getData newPage
  let above ← inBounds ((← readInternal parent).insertNodeAfter old.getPageId pushUpKey new.getPageId)
  writeInternal parent above

/-- The upper half of a page moves to a new page, and its first key into the parent. -/
theorem Family.ends_splitAndPushUp (family : Family s p L [⟨j,l,A ++ (kc,c) :: B⟩] R) (half : B.length + 1 = (A.length + (B.length + 1)) / 2)
    (room : L.length + R.length + 1 < 339) (pinned : new ∈ s.pins) (fresh : new ∉ p :: (L ++ (j,l) :: R).map Prod.snd) :
    Ends (splitAndPushUp l new p) (fun _ s' => Frame [l,new,p] s s' ∧ Shows s' l A ∧ Shows s' new ((kc,c) :: B) ∧
      Shows s' p (L ++ (j,l) :: (kc,new) :: R)) s := by
  obtain ⟨left,pinnedL,stored⟩ := family.child ⟨j,l,A ++ (kc,c) :: B⟩ (by simp)
  have parent : Shows s p (L ++ (j,l) :: R) := by simpa [Child.slot] using family.parent
  obtain ⟨leftP,first⟩ := family.alone
  have newP : new ≠ p := fun same => fresh (by simp [same])
  have newL : new ≠ l := fun same => fresh (by simp [same])
  -- `MoveHalfTo`, and the moved children are adopted
  refine ends_bind (ends_bind (ends_readInternal pinnedL left (fun page _ pageId holds => ?_)))
  obtain ⟨keys,values,computed,holdsL,holdsN⟩ := BPlusTreeInternalPage.moveHalfTo_spec holds
    (BPlusTreeInternalPage.init_holds new page.parentPageId) half
  refine ends_bind (ends_inBounds computed ?_)
  refine ends_bind (ends_writeInternal pinnedL pageId holdsL (fun s₁ frame₁ showsL => ?_))
  refine ends_bind (ends_writeInternal (frame₁.pins ▸ pinned) rfl holdsN (fun s₂ frame₂ showsN => ?_))
  have frame₁₂ := frame₁.trans frame₂
  have there : ∀ e ∈ (kc,c) :: B, s₂.data e.2 ≠ none := fun e member => frame₁₂.stored _ (stored e (List.mem_append_right _ member))
  refine ends_bind (ends_adoptChildren [] _ (frame₁₂.pins ▸ pinned) showsN there (fun s₃ frame₃ => ?_))
  have frame₁₃ := frame₁₂.trans frame₃
  have showsN₃ := frame₃.shows List.not_mem_nil showsN
  have showsL₃ := frame₃.shows List.not_mem_nil (frame₂.shows (by simp [newL.symm]) showsL)
  refine ends_bind (ends_readInternal (frame₁₃.pins ▸ pinned) showsN₃ (fun moved _ _ holds₃ => ?_))
  refine ends_inBounds (BPlusTreeInternalPage.keyAt_spec (L := []) holds₃) ?_
  -- `InsertNodeAfter`, with the ids that the two pages hold
  obtain ⟨old,storedL,idL,_⟩ := id showsL₃
  obtain ⟨newer,storedN,idN,_⟩ := id showsN₃
  replace idL : (BPlusTreePage.internal old).getPageId = l := idL
  replace idN : (BPlusTreePage.internal newer).getPageId = new := idN
  refine ends_bind (ends_getData (frame₁₃.pins ▸ pinnedL) storedL ?_)
  refine ends_bind (ends_getData (frame₁₃.pins ▸ pinned) storedN ?_)
  refine ends_bind (ends_readInternal (frame₁₃.pins ▸ family.pinned) (frame₁₃.shows (by simp [leftP.symm,newP.symm]) parent)
    (fun above _ aboveId separators => ?_))
  obtain ⟨keys',values',inserted,after⟩ := BPlusTreeInternalPage.insertNodeAfter_spec separators first room kc new
  rw [idL,idN]
  refine ends_bind (ends_inBounds inserted ?_)
  refine ends_writeInternal (frame₁₃.pins ▸ family.pinned) aboveId after (fun s₄ frame₄ showsP => ?_)
  exact ⟨frame₁₃.trans frame₄,frame₄.shows (by simp [leftP]) showsL₃,frame₄.shows (by simp [newP]) showsN₃,showsP⟩

/-- A page has been split in two, and the new page stands behind it in the parent. -/
theorem Family.split (family : Family s p L [⟨j,l,A ++ (kc,c) :: B⟩] R) (frame : Frame [l,new,p] s s') (pinned : new ∈ s.pins)
    (fresh : new ∉ p :: (L ++ (j,l) :: R).map Prod.snd) (left : Shows s' l A) (right : Shows s' new ((kc,c) :: B))
    (parent : Shows s' p (L ++ (j,l) :: (kc,new) :: R)) (some : A ≠ []) :
    Rebalanced s s' p L [⟨j,l,A ++ (kc,c) :: B⟩] [⟨j,l,A⟩,⟨kc,new,(kc,c) :: B⟩] R := by
  have ids : (p :: (L ++ (j,l) :: R).map Prod.snd).Nodup := by simpa [Child.slot] using family.distinct
  have children : ∀ c' ∈ ([⟨j,l,A⟩,⟨kc,new,(kc,c) :: B⟩] : List Child), c'.slots ≠ [] ∧ Shows s' c'.pageId c'.slots ∧ c'.pageId ∈ s.pins := by
    intro c' member
    rcases List.mem_cons.mp member with rfl | member
    · exact ⟨some,left,(family.child ⟨j,l,A ++ (kc,c) :: B⟩ (by simp)).2.1⟩
    · obtain rfl := List.mem_singleton.mp member
      exact ⟨by simp,right,pinned⟩
  refine family.rebalanced (by simp [Inhabited]) frame (fun e member => ?_) ?_ ?_ children ?_ (by simp) (by simp)
  · have others := family.apart e member
    simp only [List.map_cons,List.map_nil,List.mem_cons,List.not_mem_nil,or_false,not_or] at others ⊢
    refine ⟨others.2,fun same => fresh (List.mem_cons_of_mem _ (List.mem_map.mpr ⟨e,?_,same⟩)),others.1⟩
    rcases List.mem_append.mp member with inL | inR
    · exact List.mem_append_left _ inL
    · exact List.mem_append_right _ (List.mem_cons_of_mem _ inR)
  · simpa [Child.slot] using parent
  · have slots : (L ++ [⟨j,l,A⟩,⟨kc,new,(kc,c) :: B⟩].map Child.slot ++ R).map Prod.snd =
        (L.map Prod.snd ++ [l]) ++ new :: R.map Prod.snd := by simp [Child.slot]
    have order : (p :: ((L.map Prod.snd ++ [l]) ++ new :: R.map Prod.snd)).Perm (new :: p :: (L ++ (j,l) :: R).map Prod.snd) := by
      refine (List.perm_middle.cons p).trans ((List.Perm.swap new p _).trans ?_)
      simp
    rw [slots]
    exact order.nodup_iff.mpr (List.nodup_cons.mpr ⟨fresh,ids⟩)
  · have joined : labelled j (A ++ (kc,c) :: B) = labelled j A ++ (kc,c) :: B := labelled_append some
    simp only [spread,List.map_cons,List.map_nil,flat_cons,flat_nil,List.append_nil]
    rw [joined]
    rfl

/-- `MoveHalfTo` and `InsertNodeAfter`. -/
theorem split_page (family : Family s p L [⟨j,l,A⟩] R) (several : 2 ≤ A.length) (room : L.length + R.length + 1 < 339)
    (pinned : new ∈ s.pins) (fresh : new ∉ p :: (L ++ (j,l) :: R).map Prod.snd) :
    ∃ s' A' k B', Prog.run (exec .zeros) (splitAndPushUp l new p) s = .ok ((),s') ∧
      Rebalanced s s' p L [⟨j,l,A⟩] [⟨j,l,A'⟩,⟨k,new,B'⟩] R := by
  let half := A.length - A.length / 2
  have cut : A = A.take half ++ A.drop half := (List.take_append_drop half A).symm
  have lengthA : (A.take half).length = half := by rw [List.length_take]; omega
  have lengthB : (A.drop half).length = A.length / 2 := by rw [List.length_drop]; omega
  obtain ⟨⟨kc,c⟩,B,upper⟩ : ∃ e B, A.drop half = e :: B :=
    List.exists_cons_of_ne_nil (List.ne_nil_of_length_pos (by omega))
  have some : A.take half ≠ [] := List.ne_nil_of_length_pos (by omega)
  rw [upper] at cut lengthB
  rw [List.length_cons] at lengthB
  rw [cut] at family ⊢
  obtain ⟨_,s',ran,frame,left,right,parent⟩ :=
    Prog.run_of_wp (family.ends_splitAndPushUp (by omega) room pinned fresh) Prog.served_any
  exact ⟨s',A.take half,kc,(kc,c) :: B,ran,family.split frame pinned fresh left right parent some⟩

end

/-- `Redistribute` from either sibling, `Merge`, and the split of an internal page keep the
    grandchild of every key, the order of the separators and the child pointers. The pages
    have children, and a page that gives a child or is split has two; the results fit into
    the arrays. -/
theorem rebalancing_keeps_routing :
    (∀ (s : Store BPlusTreePage) (p l r : PageId) (L R A B : List Slot) (j k : Key),
      Family s p L [⟨j,l,A⟩,⟨k,r,B⟩] R → Inhabited [⟨j,l,A⟩,⟨k,r,B⟩] →
        (2 ≤ A.length → B.length < 339 →
          ∃ s' A' k' B', Prog.run (exec .zeros) (redistribute r l p (L.length + 1) true) s = .ok ((),s') ∧
            Rebalanced s s' p L [⟨j,l,A⟩,⟨k,r,B⟩] [⟨j,l,A'⟩,⟨k',r,B'⟩] R) ∧
        (2 ≤ B.length → A.length < 339 →
          ∃ s' A' k' B', Prog.run (exec .zeros) (redistribute l r p L.length false) s = .ok ((),s') ∧
            Rebalanced s s' p L [⟨j,l,A⟩,⟨k,r,B⟩] [⟨j,l,A'⟩,⟨k',r,B'⟩] R) ∧
        (A.length + B.length ≤ 339 →
          ∃ s' C, Prog.run (exec .zeros) (merge l r p (L.length + 1)) s = .ok ((),s') ∧
            Rebalanced s s' p L [⟨j,l,A⟩,⟨k,r,B⟩] [⟨j,l,C⟩] R)) ∧
    ∀ (s : Store BPlusTreePage) (p l new : PageId) (L R A : List Slot) (j : Key),
      Family s p L [⟨j,l,A⟩] R → 2 ≤ A.length → L.length + R.length + 1 < 339 →
        new ∈ s.pins → new ∉ p :: (L ++ (j,l) :: R).map Prod.snd →
          ∃ s' A' k B', Prog.run (exec .zeros) (splitAndPushUp l new p) s = .ok ((),s') ∧
            Rebalanced s s' p L [⟨j,l,A⟩] [⟨j,l,A'⟩,⟨k,new,B'⟩] R := by
  refine ⟨fun s p l r L R A B j k family inhabited => ⟨?_,?_,?_⟩,fun s p l new L R A j family several room pinned fresh => ?_⟩
  · exact redistribute_left family inhabited
  · exact redistribute_right family inhabited
  · exact merge_pages family inhabited
  · exact split_page family several room pinned fresh

/-! ### Small stores, and pages without children -/

/-- An internal page with the given slots, and zeros after them. -/
def pageWith (pageId : PageId) (slots : List Slot) : BPlusTreeInternalPage :=
  { size := slots.length, maxSize := 338, parentPageId := INVALID_PAGE_ID, pageId
    keys := Vector.ofFn (fun i => (slots[i.val]?.map Prod.fst).getD 0)
    values := Vector.ofFn (fun i => (slots[i.val]?.map Prod.snd).getD 0) }

/-- A store of pinned internal pages, and of leaves under them. -/
def storeWith (pages : List (PageId × List Slot)) (leaves : List PageId) : Store BPlusTreePage :=
  { data := fun q =>
      match pages.find? (fun e => decide (e.1 = q)) with
      | some e => some (.internal (pageWith e.1 e.2))
      | none => if q ∈ leaves then some .zeros else none
    pins := pages.map Prod.fst, dirty := fun _ => false, free := [], numPages := 100, script := [] }

section
variable {pages : List (PageId × List Slot)} {leaves : List PageId} {p : PageId} {L R slots : List Slot} {M : List Child}

theorem pageWith_holds (fits : slots.length ≤ 339) : (pageWith p slots).Holds slots := by
  refine ⟨rfl,fun i inside => ?_,fun i inside => ?_⟩
  all_goals
    rw [List.length_map] at inside
    simp [pageWith,List.getElem?_eq_getElem inside,show i < 339 by omega]

theorem storeWith_shows (found : pages.find? (fun e => decide (e.1 = p)) = some (p,slots)) (fits : slots.length ≤ 339) :
    Shows (storeWith pages leaves) p slots := by
  refine ⟨pageWith p slots,?_,rfl,pageWith_holds fits⟩
  simp only [storeWith,found]

/-- What makes a family of such a store. -/
theorem storeWith_family (parent : pages.find? (fun e => decide (e.1 = p)) = some (p,L ++ M.map Child.slot ++ R) ∧
      (L ++ M.map Child.slot ++ R).length ≤ 339) (distinct : (p :: (L ++ M.map Child.slot ++ R).map Prod.snd).Nodup)
    (increasing : Increasing (L ++ spread M ++ R)) (pinned : p ∈ pages.map Prod.fst)
    (child : ∀ c ∈ M, pages.find? (fun e => decide (e.1 = c.pageId)) = some (c.pageId,c.slots) ∧ c.slots.length ≤ 339 ∧
      c.pageId ∈ pages.map Prod.fst ∧ ∀ e ∈ c.slots, e.2 ∈ leaves) : Family (storeWith pages leaves) p L M R := by
  refine ⟨storeWith_shows parent.1 parent.2,pinned,distinct,increasing,fun c member => ?_⟩
  obtain ⟨found,fits,there,below⟩ := child c member
  refine ⟨storeWith_shows found fits,there,fun e inside => ?_⟩
  simp only [storeWith]
  split
  · exact Option.some_ne_none _
  · rw [if_pos (below e inside)]
    exact Option.some_ne_none _

end

/-- Two pages with two children each are merged. -/
theorem rebalancing_keeps_routing_merged : ∃ s s' : Store BPlusTreePage, Prog.run (exec .zeros) (merge 2 3 1 1) s = .ok ((),s') ∧
    grandchild s 1 12 = some 6 ∧ grandchild s' 1 12 = some 6 := by
  have family : Family (storeWith [(1,[(0,2),(10,3)]),(2,[(0,4),(5,5)]),(3,[(0,6),(15,7)])] [4,5,6,7]) 1 []
      [⟨0,2,[(0,4),(5,5)]⟩,⟨10,3,[(0,6),(15,7)]⟩] [] :=
    storeWith_family (by decide) (by decide) (by decide) (by decide) (by decide)
  obtain ⟨_,_,merges⟩ := rebalancing_keeps_routing.1 _ 1 2 3 [] [] _ _ 0 10 family (by simp [Inhabited])
  obtain ⟨s',C,ran,rebalanced⟩ := merges (by decide)
  have before : grandchild (storeWith [(1,[(0,2),(10,3)]),(2,[(0,4),(5,5)]),(3,[(0,6),(15,7)])] [4,5,6,7]) 1 12 = some 6 := by decide +kernel
  exact ⟨_,s',ran,before,(rebalanced.routing 12).trans before⟩

/-- Where a key is routed to after a step. -/
def routedAfter (action : Action Unit) (s : Store BPlusTreePage) (p : PageId) (key : Key) : Option (Option PageId) :=
  match Prog.run (exec .zeros) action s with
  | .ok (_,s') => some (grandchild s' p key)
  | .error _ => none

/-- The step runs and changes where a key is routed to. -/
def Reroutes (action : Action Unit) (s : Store BPlusTreePage) (p : PageId) (key : Key) : Prop :=
  ∃ s', Prog.run (exec .zeros) action s = .ok ((),s') ∧ grandchild s' p key ≠ grandchild s p key

section
variable {action : Action Unit} {s : Store BPlusTreePage} {p : PageId} {key : Key}

theorem reroutes_of (g g' : Option PageId) (before : grandchild s p key = g) (after : routedAfter action s p key = some g') (other : g' ≠ g) :
    Reroutes action s p key := by
  rw [routedAfter] at after
  cases ran : Prog.run (exec .zeros) action s with
  | error e => rw [ran] at after; cases after
  | ok done =>
    rw [ran] at after
    obtain ⟨⟨⟩,s'⟩ := done
    refine ⟨s',ran,?_⟩
    rw [Option.some.inj after,before]
    exact other

end

/-- A page without children is left or entered where its first value happens to lead:
    rotations into it, merges with it, and the split of a page with a single child, whose
    new page has none, change where keys are routed to. -/
theorem childless_pages_reroute :
    (∃ s, Family s 1 [] [⟨0,2,[(0,4),(5,5)]⟩,⟨10,3,[]⟩] [] ∧ Reroutes (redistribute 3 2 1 1 true) s 1 20) ∧
    (∃ s, Family s 1 [] [⟨0,2,[]⟩,⟨10,3,[(0,4),(15,5)]⟩] [] ∧ Reroutes (redistribute 2 3 1 0 false) s 1 3) ∧
    (∃ s, Family s 1 [] [⟨0,2,[(0,4)]⟩,⟨10,3,[]⟩] [] ∧ Reroutes (merge 2 3 1 1) s 1 20) ∧
    (∃ s, Family s 1 [] [⟨0,2,[]⟩,⟨10,3,[(0,4)]⟩] [] ∧ Reroutes (merge 2 3 1 1) s 1 3) ∧
    (∃ s, Family s 1 [] [⟨0,2,[(0,4)]⟩] [] ∧ 3 ∈ s.pins ∧ Reroutes (splitAndPushUp 2 3 1) s 1 5) := by
  refine ⟨⟨storeWith [(1,[(0,2),(10,3)]),(2,[(0,4),(5,5)]),(3,[])] [4,5],?_,?_⟩,
    ⟨storeWith [(1,[(0,2),(10,3)]),(2,[]),(3,[(0,4),(15,5)])] [4,5],?_,?_⟩,
    ⟨storeWith [(1,[(0,2),(10,3)]),(2,[(0,4)]),(3,[])] [4],?_,?_⟩,
    ⟨storeWith [(1,[(0,2),(10,3)]),(2,[]),(3,[(0,4)])] [4],?_,?_⟩,
    ⟨storeWith [(1,[(0,2)]),(2,[(0,4)]),(3,[])] [4],?_,by decide,?_⟩⟩
  · exact storeWith_family (by decide) (by decide) (by decide) (by decide) (by decide)
  · exact reroutes_of (some 0) (some 5) (by decide +kernel) (by decide +kernel) (by decide)
  · exact storeWith_family (by decide) (by decide) (by decide) (by decide) (by decide)
  · exact reroutes_of (some 0) (some 4) (by decide +kernel) (by decide +kernel) (by decide)
  · exact storeWith_family (by decide) (by decide) (by decide) (by decide) (by decide)
  · exact reroutes_of (some 0) (some 4) (by decide +kernel) (by decide +kernel) (by decide)
  · exact storeWith_family (by decide) (by decide) (by decide) (by decide) (by decide)
  · exact reroutes_of (some 0) (some 4) (by decide +kernel) (by decide +kernel) (by decide)
  · exact storeWith_family (by decide) (by decide) (by decide) (by decide) (by decide)
  · exact reroutes_of (some 4) (some 0) (by decide +kernel) (by decide +kernel) (by decide)

end Aether.TreeRouting
