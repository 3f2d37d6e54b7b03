import Aether.TreePins

/-!
Null pages in the index. After the descent every page that has been asked for is
checked before it is used. The descents and the iterators use it unchecked: they are
safe exactly when the pool gives them every page they fetch.
-/
namespace Aether.TreeNullPages
open Aether.Programs Aether.Types Aether.PageStore Aether.LeafPage Aether.InternalPage Aether.BPlusTree Aether.TreePins

/-! ### Checked pages -/

/-- The program uses no null page. -/
def Checked {α : Type} (p : Action α) : Prop := Prog.Safe .nullPage p (fun _ => True)

section
variable {α β : Type} {page parentId : PageId}

theorem checked_bind {p : Action α} {next : α → Action β} (first : Checked p) (later : ∀ value, Checked (next value)) :
    Checked (p >>= next) := by
  unfold Checked
  rw [Prog.safe_bind]
  exact first.mono (fun value _ => later value)

@[simp] theorem checked_pure (value : α) : Checked (pure value : Action α) := trivial

theorem checked_inBounds (result : Option α) : Checked (inBounds result) := by
  unfold Checked inBounds
  simp

theorem checked_readLeaf : Checked (readLeaf page) := by
  unfold readLeaf
  refine checked_bind (fun _ => trivial) (fun content => ?_)
  cases content <;> simp [Checked]

theorem checked_readInternal : Checked (readInternal page) := by
  unfold readInternal
  refine checked_bind (fun _ => trivial) (fun content => ?_)
  cases content <;> simp [Checked]

theorem checked_adopt {childId : PageId} : Checked (adopt childId parentId) := by
  unfold adopt
  refine checked_bind (fun _ => trivial) (fun fetched => ?_)
  cases fetched with
  | none => trivial
  | some child => exact fun _ _ _ => trivial

theorem checked_adoptChildren : ∀ (count i : Nat), Checked (adoptChildren page parentId i count)
  | 0, _ => trivial
  | count + 1, i => by
    unfold adoptChildren
    refine checked_bind checked_readInternal (fun internal => ?_)
    refine checked_bind (checked_inBounds _) (fun childId => ?_)
    exact checked_bind checked_adopt (fun _ => checked_adoptChildren count (i + 1))

theorem checked_setParent : Checked (setParent page parentId) := fun _ _ => trivial

theorem checked_splitLeaf {newPage : PageId} : Checked (splitLeaf page newPage) := by
  unfold splitLeaf
  refine checked_bind checked_readLeaf (fun leaf => ?_)
  refine checked_bind (checked_inBounds _) (fun moved => ?_)
  exact checked_bind (fun _ => trivial) (fun _ => checked_bind (fun _ => trivial) (fun _ => checked_inBounds _))

theorem checked_splitInternal {newParent : PageId} : Checked (splitInternal page newParent) := by
  unfold splitInternal
  refine checked_bind checked_readInternal (fun internal => ?_)
  refine checked_bind (checked_inBounds _) (fun moved => ?_)
  refine checked_bind (fun _ => trivial) (fun _ => checked_bind (fun _ => trivial) (fun _ => ?_))
  refine checked_bind (checked_adoptChildren _ _) (fun _ => ?_)
  exact checked_bind checked_readInternal (fun _ => checked_inBounds _)

theorem checked_insertIntoParent : ∀ (fuel : Nat) (root oldChild : PageId) (key : Key) (newChild : PageId),
    Checked (insertIntoParent fuel root oldChild key newChild)
  | 0, _, _, _, _ => by simp [Checked,insertIntoParent]
  | fuel + 1, root, oldChild, key, newChild => by
    unfold insertIntoParent
    refine checked_bind (fun _ => trivial) (fun old => ?_)
    split
    · refine checked_bind (fun _ => trivial) (fun made => ?_)
      cases made with
      | none => trivial
      | some newRoot =>
        refine checked_bind (fun _ => trivial) (fun new => checked_bind (checked_inBounds _) (fun page => ?_))
        refine checked_bind (fun _ => trivial) (fun _ => checked_bind checked_setParent (fun _ => ?_))
        exact checked_bind checked_setParent (fun _ _ => trivial)
    · refine checked_bind (fun _ => trivial) (fun fetched => ?_)
      cases fetched with
      | none => trivial
      | some parent =>
        refine checked_bind (fun _ => trivial) (fun new => checked_bind checked_readInternal (fun internal => ?_))
        refine checked_bind (checked_inBounds _) (fun page => checked_bind (fun _ => trivial) (fun _ => ?_))
        refine checked_bind checked_setParent (fun _ => ?_)
        split
        · exact fun _ => trivial
        · refine checked_bind (fun _ => trivial) (fun made => ?_)
          cases made with
          | none => exact fun _ => trivial
          | some newParent =>
            refine checked_bind checked_splitInternal (fun pushUpKey => ?_)
            exact checked_bind (checked_insertIntoParent fuel _ _ _ _) (fun _ _ _ => trivial)

theorem checked_setKeyAt {index : Int} {key : Key} : Checked (setKeyAt page index key) := by
  unfold setKeyAt
  exact checked_bind checked_readInternal (fun _ => checked_bind (checked_inBounds _) (fun _ _ => trivial))

theorem checked_removeChild {index : Nat} : Checked (removeChild page index) := by
  unfold removeChild
  exact checked_bind checked_readInternal (fun _ => checked_bind (checked_inBounds _) (fun _ _ => trivial))

theorem checked_redistribute {node sibling parent : PageId} {childIdx : Int} {fromLeft : Bool} :
    Checked (redistribute node sibling parent childIdx fromLeft) := by
  unfold redistribute
  refine checked_bind (fun _ => trivial) (fun content => ?_)
  cases content with
  | leaf leaf =>
    refine checked_bind checked_readLeaf (fun sib => ?_)
    split
    all_goals
      refine checked_bind (checked_inBounds _) (fun moved => checked_bind (fun _ => trivial) (fun _ => ?_))
      exact checked_bind (fun _ => trivial) (fun _ => checked_bind (checked_inBounds _) (fun _ => checked_setKeyAt))
  | internal internal =>
    refine checked_bind checked_readInternal (fun sib => checked_bind checked_readInternal (fun page => ?_))
    split
    all_goals
      refine checked_bind (checked_inBounds _) (fun parentKey => checked_bind (checked_inBounds _) (fun newParentKey => ?_))
      refine checked_bind (checked_inBounds _) (fun moved => checked_bind (fun _ => trivial) (fun _ => ?_))
      refine checked_bind (fun _ => trivial) (fun _ => checked_bind checked_setKeyAt (fun _ => ?_))
      exact checked_bind (checked_inBounds _) (fun _ => checked_adopt)

theorem checked_merge {node sibling parent : PageId} {childIdx : Nat} : Checked (merge node sibling parent childIdx) := by
  unfold merge
  refine checked_bind (fun _ => trivial) (fun content => ?_)
  cases content with
  | leaf left =>
    refine checked_bind checked_readLeaf (fun right => checked_bind (checked_inBounds _) (fun moved => ?_))
    exact checked_bind (fun _ => trivial) (fun _ => checked_bind (fun _ => trivial) (fun _ => checked_removeChild))
  | internal left =>
    refine checked_bind checked_readInternal (fun page => checked_bind (checked_inBounds _) (fun parentKey => ?_))
    refine checked_bind checked_readInternal (fun right => checked_bind (checked_inBounds _) (fun moved => ?_))
    refine checked_bind (fun _ => trivial) (fun _ => checked_bind (fun _ => trivial) (fun _ => ?_))
    exact checked_bind (checked_adoptChildren _ _) (fun _ => checked_removeChild)

theorem checked_borrow {node parent : PageId} {childIdx : Int} {fromLeft : Bool} : Checked (borrow node parent childIdx fromLeft) := by
  unfold borrow
  refine checked_bind checked_readInternal (fun page => checked_bind (checked_inBounds _) (fun siblingId => ?_))
  refine checked_bind (fun _ => trivial) (fun fetched => ?_)
  cases fetched with
  | none => trivial
  | some sibling =>
    refine checked_bind (fun _ => trivial) (fun content => ?_)
    split
    · exact checked_bind checked_redistribute (fun _ _ => trivial)
    · exact fun _ => trivial

theorem checked_mergeSibling {node parent : PageId} {childIdx : Int} : Checked (mergeSibling node parent childIdx) := by
  unfold mergeSibling
  split
  · refine checked_bind checked_readInternal (fun page => checked_bind (checked_inBounds _) (fun leftId => ?_))
    refine checked_bind (fun _ => trivial) (fun fetched => ?_)
    cases fetched with
    | none => trivial
    | some left => exact checked_bind checked_merge (fun _ _ _ _ => trivial)
  · refine checked_bind checked_readInternal (fun page => checked_bind (checked_inBounds _) (fun rightId => ?_))
    refine checked_bind (fun _ => trivial) (fun fetched => ?_)
    cases fetched with
    | none => trivial
    | some right => exact checked_bind checked_merge (fun _ _ _ => trivial)

theorem checked_handleUnderflow : ∀ (fuel : Nat) (root node : PageId), Checked (handleUnderflow fuel root node)
  | 0, _, _ => by simp [Checked,handleUnderflow]
  | fuel + 1, root, node => by
    unfold handleUnderflow
    refine checked_bind (fun _ => trivial) (fun content => ?_)
    split
    · cases content with
      | leaf leaf => trivial
      | internal internal =>
        unfold collapseRoot
        dsimp only
        split
        · refine checked_bind (checked_inBounds _) (fun newRoot => checked_bind checked_adopt (fun _ _ => trivial))
        · trivial
    · refine checked_bind (fun _ => trivial) (fun fetched => ?_)
      cases fetched with
      | none => trivial
      | some parent =>
        have asked : ∀ {c : Prop} [Decidable c] {fromLeft : Bool} {childIdx : Int},
            Checked (if c then borrow node parent childIdx fromLeft else pure false) := by
          intro c _ fromLeft childIdx
          split
          · exact checked_borrow
          · trivial
        refine checked_bind checked_readInternal (fun page => checked_bind (checked_inBounds _) (fun childIdx => ?_))
        refine checked_bind asked (fun left => ?_)
        split
        · exact fun _ => trivial
        · refine checked_bind asked (fun right => ?_)
          split
          · exact fun _ => trivial
          · unfold mergeAndRepair
            refine checked_bind checked_mergeSibling (fun _ => checked_bind checked_readInternal (fun internal => ?_))
            split
            · exact checked_bind (checked_handleUnderflow fuel root parent) (fun root _ => trivial)
            · exact fun _ => trivial

end

/-! ### Runs -/

section
variable {α β : Type} {s : Store BPlusTreePage}

theorem exec_not_null {β : Type} (op : PoolOp BPlusTreePage β) (s : Store BPlusTreePage) : exec .zeros op s ≠ .error .nullPage := by
  cases op with
  | fetchPage p =>
    simp only [exec]
    split_ifs
    · simp
    · simp
    · cases s.data p <;> simp
  | newPage =>
    simp only [exec]
    cases s.free with
    | nil => split_ifs <;> simp
    | cons p rest => split_ifs <;> simp
  | unpinPage p isDirty =>
    simp only [exec]
    split_ifs <;> simp
  | deletePage p =>
    simp only [exec]
    split_ifs
    · simp
    · cases s.data p <;> simp
  | getData p =>
    simp only [exec]
    split_ifs
    · cases s.data p <;> simp
    · simp
  | setData p d =>
    simp only [exec]
    split_ifs <;> simp

theorem Checked.run {p : Action α} (checked : Checked p) : Prog.run (exec .zeros) p s ≠ .error .nullPage :=
  Prog.Safe.run exec_not_null checked s

theorem run_after {p : Action α} {rest : α → Action β} (first : Prog.run (exec .zeros) p s ≠ .error .nullPage)
    (later : ∀ value s', Prog.run (exec .zeros) p s = .ok (value,s') → Prog.run (exec .zeros) (rest value) s' ≠ .error .nullPage) :
    Prog.run (exec .zeros) (p >>= rest) s ≠ .error .nullPage := by
  rw [Prog.run_bind]
  cases ran : Prog.run (exec .zeros) p s with
  | error reason =>
    rw [ran] at first
    intro stopped
    exact first (congrArg _ (Except.error.inj stopped))
  | ok finished => exact later finished.1 finished.2 ran

theorem run_stops {p : Action α} {rest : α → Action β} {reason : Fault} (stopped : Prog.run (exec .zeros) p s = .error reason) :
    Prog.run (exec .zeros) (p >>= rest) s = .error reason := by
  rw [Prog.run_bind,stopped]

theorem granted_perform {op : PoolOp BPlusTreePage α} (answers : ∀ answer, Granted op answer) :
    Prog.Served (exec .zeros) Granted (Prog.perform op) s := by
  simp only [Prog.perform,Prog.Served]
  cases exec .zeros op s with
  | error reason => trivial
  | ok answered => exact ⟨answers answered.1,trivial⟩

theorem granted_pure (value : α) : Prog.Served (exec .zeros) Granted (pure value : Action α) s := trivial

theorem granted_readLeaf {page : PageId} : Prog.Served (exec .zeros) Granted (readLeaf page) s := by
  refine Prog.served_bind_iff.mpr ⟨granted_perform (fun _ => trivial),fun content s' _ => ?_⟩
  cases content <;> trivial

theorem run_readLeaf {page : PageId} {leaf : BPlusTreeLeafPage} {s' : Store BPlusTreePage}
    (ran : Prog.run (exec .zeros) (readLeaf page) s = .ok (leaf,s')) : s.data page = some (.leaf leaf) ∧ s' = s := by
  obtain ⟨content,s₁,read,rest⟩ := Prog.run_bind_ok ran
  obtain ⟨stored,rfl⟩ := run_getData read
  cases content with
  | leaf content => cases rest; exact ⟨stored,rfl⟩
  | internal content => cases rest

theorem granted_inBounds {result : Option α} : Prog.Served (exec .zeros) Granted (inBounds result) s := by
  cases result <;> trivial

end

theorem ungranted_fetch {childId : PageId} {s : Store BPlusTreePage}
    (refused : ¬Prog.Served (exec .zeros) Granted (fetchPage childId) s) :
    ∃ s', Prog.run (exec .zeros) (fetchPage childId) s = .ok (none,s') := by
  simp only [fetchPage,Prog.perform,Prog.Served,Prog.run] at refused ⊢
  cases handled : exec .zeros (.fetchPage childId) s with
  | error reason => rw [handled] at refused; exact absurd trivial refused
  | ok answered =>
    obtain ⟨page,s'⟩ := answered
    rw [handled] at refused
    cases page with
    | none => exact ⟨s',rfl⟩
    | some page => exact absurd ⟨Option.some_ne_none page,trivial⟩ refused

theorem fetched_pinned {childId page : PageId} {s s' : Store BPlusTreePage}
    (ran : Prog.run (exec .zeros) (fetchPage childId) s = .ok (some page,s')) : childId ∈ s'.pins := by
  rw [fetchPage,Prog.run_perform] at ran
  rcases exec_fetchPage ran with ⟨same,_⟩ | ⟨same,_,rfl⟩
  · cases same
  · cases same
    exact Multiset.mem_cons_self _ _

theorem null_refused {childId : PageId} {s s' : Store BPlusTreePage}
    (ran : Prog.run (exec .zeros) (fetchPage childId) s = .ok (none,s')) : ¬Prog.Served (exec .zeros) Granted (fetchPage childId) s := by
  simp only [fetchPage,Prog.perform,Prog.Served,Prog.run] at ran ⊢
  cases handled : exec .zeros (.fetchPage childId) s with
  | error reason => rw [handled] at ran; cases ran
  | ok answered =>
    obtain ⟨page,s''⟩ := answered
    rw [handled] at ran
    cases ran
    exact fun served => served.1 rfl

/-! ### Descents -/

/-- A descent, which goes on at the `child` of every internal page and ends where it
    has `arrived` at a leaf. -/
def follow (arrived : PageId → Action PageId) (child : BPlusTreeInternalPage → Option PageId) : Nat → Option PageId → Action PageId
  | 0, _ => Prog.fault .outOfFuel
  | fuel + 1, fetched => do
    let page ← deref fetched
    match ← getData page with
    | .leaf _ => arrived page
    | .internal internal => do
      let childId ← inBounds (child internal)
      let _ ← unpinPage page false
      follow arrived child fuel (← fetchPage childId)

theorem descend_eq_follow (key : Key) : ∀ (fuel : Nat) (fetched : Option PageId),
    descend key fuel fetched = follow pure (fun internal => internal.lookup key) fuel fetched
  | 0, _ => rfl
  | fuel + 1, fetched => by
    have deeper : descend key fuel = follow pure (fun internal => internal.lookup key) fuel := funext (descend_eq_follow key fuel)
    rw [follow,← deeper]
    rfl

/-- `Begin` lets the leaf go. -/
def release (page : PageId) : Action PageId := do
  let _ ← unpinPage page false
  pure page

theorem descendLeft_eq_follow : ∀ (fuel : Nat) (fetched : Option PageId),
    descendLeft fuel fetched =
      follow release (fun internal => internal.valueAt 0) fuel fetched
  | 0, _ => rfl
  | fuel + 1, fetched => by
    have deeper : descendLeft fuel = follow release (fun internal => internal.valueAt 0) fuel := funext (descendLeft_eq_follow fuel)
    rw [follow,← deeper]
    rfl

section
variable {arrived : PageId → Action PageId} {child : BPlusTreeInternalPage → Option PageId}

/-- A descent that is given its pages uses no null page. -/
theorem follow_granted (checked : ∀ page, Checked (arrived page)) : ∀ (fuel : Nat) (fetched : Option PageId) (s : Store BPlusTreePage),
    fetched ≠ none → Prog.Served (exec .zeros) Granted (follow arrived child fuel fetched) s →
      Prog.run (exec .zeros) (follow arrived child fuel fetched) s ≠ .error .nullPage
  | 0, _, _, _, _ => by simp [follow,Prog.run]
  | _ + 1, none, _, found, _ => absurd rfl found
  | fuel + 1, some page, s, _, served => by
    rw [follow] at served ⊢
    change Prog.Served _ _ (getData page >>= _) s at served
    change Prog.run _ (getData page >>= _) s ≠ _
    refine run_after (Checked.run (fun _ => trivial)) (fun content s₁ read => ?_)
    have served := Prog.served_next served read
    cases content with
    | leaf leaf => exact (checked page).run
    | internal internal =>
      refine run_after (checked_inBounds _).run (fun childId s₂ chosen => ?_)
      have served := Prog.served_next served chosen
      refine run_after (Checked.run (fun _ => trivial)) (fun done s₃ unpinned => ?_)
      have served := Prog.served_next served unpinned
      refine run_after (Checked.run (fun _ => trivial)) (fun fetched s₄ ran => ?_)
      refine follow_granted checked fuel fetched s₄ ?_ (Prog.served_next served ran)
      rintro rfl
      exact absurd (Prog.served_bind served) (null_refused ran)

/-- A page refused to a descent is used one step later. -/
theorem follow_refused (quiet : ∀ page s, Prog.Served (exec .zeros) Granted (arrived page) s) :
    ∀ (fuel : Nat) (fetched : Option PageId) (s : Store BPlusTreePage),
      ¬Prog.Served (exec .zeros) Granted (follow arrived child fuel fetched) s →
        Prog.run (exec .zeros) (follow arrived child (fuel + 1) fetched) s = .error .nullPage
  | 0, _, _, refused => absurd trivial refused
  | _ + 1, none, _, _ => rfl
  | fuel + 1, some page, s, refused => by
    rw [follow] at refused ⊢
    change ¬Prog.Served _ _ (getData page >>= _) s at refused
    change Prog.run _ (getData page >>= _) s = _
    obtain ⟨content,s₁,read,refused⟩ := (Prog.refused_bind refused).resolve_left (not_not.mpr (granted_perform (fun _ => trivial)))
    rw [Prog.run_bind,read]
    dsimp only
    cases content with
    | leaf leaf => exact absurd (quiet page s₁) refused
    | internal internal =>
      obtain ⟨childId,s₂,chosen,refused⟩ := (Prog.refused_bind refused).resolve_left (not_not.mpr granted_inBounds)
      obtain ⟨done,s₃,unpinned,refused⟩ := (Prog.refused_bind refused).resolve_left (not_not.mpr (granted_perform (fun _ => trivial)))
      rw [Prog.run_bind,chosen]
      dsimp only
      rw [Prog.run_bind,unpinned]
      dsimp only
      rw [Prog.run_bind]
      rcases Prog.refused_bind refused with null | ⟨fetched,s₄,ran,refused⟩
      · obtain ⟨s₄,ran⟩ := ungranted_fetch null
        rw [ran]
        rfl
      · rw [ran]
        exact follow_refused quiet fuel fetched s₄ refused

end

section
variable {root : PageId} {key : Key} {s : Store BPlusTreePage}

/-- A descent from the root, given the page of the root. -/
theorem start_granted {arrived : PageId → Action PageId} {child : BPlusTreeInternalPage → Option PageId}
    (checked : ∀ page, Checked (arrived page)) {fuel : Nat}
    (served : Prog.Served (exec .zeros) Granted (fetchPage root >>= follow arrived child fuel) s) :
    Prog.run (exec .zeros) (fetchPage root >>= follow arrived child fuel) s ≠ .error .nullPage := by
  refine run_after (Checked.run (fun _ => trivial)) (fun fetched s' ran => ?_)
  refine follow_granted checked fuel fetched s' ?_ (Prog.served_next served ran)
  rintro rfl
  exact absurd (Prog.served_bind served) (null_refused ran)

theorem start_refused {arrived : PageId → Action PageId} {child : BPlusTreeInternalPage → Option PageId}
    (quiet : ∀ page s, Prog.Served (exec .zeros) Granted (arrived page) s) {fuel : Nat}
    (refused : ¬Prog.Served (exec .zeros) Granted (fetchPage root >>= follow arrived child fuel) s) :
    Prog.run (exec .zeros) (fetchPage root >>= follow arrived child (fuel + 1)) s = .error .nullPage := by
  rw [Prog.run_bind]
  rcases Prog.refused_bind refused with null | ⟨fetched,s',ran,refused⟩
  · obtain ⟨s',ran⟩ := ungranted_fetch null
    rw [ran]
    rfl
  · rw [ran]
    exact follow_refused quiet fuel fetched s' refused

theorem findLeafPage_eq (fuel : Nat) (valid : root ≠ INVALID_PAGE_ID) :
    findLeafPage fuel root key =
      ((fetchPage root >>= follow pure (fun internal => internal.lookup key) fuel) >>= fun page => pure (some page)) := by
  unfold findLeafPage
  rw [if_neg valid]
  simp only [descend_eq_follow]
  rfl

theorem findLeafPage_granted {fuel : Nat} (served : Prog.Served (exec .zeros) Granted (findLeafPage fuel root key) s) :
    Prog.run (exec .zeros) (findLeafPage fuel root key) s ≠ .error .nullPage := by
  by_cases empty : root = INVALID_PAGE_ID
  · unfold findLeafPage
    rw [if_pos empty]
    exact (checked_pure _).run
  · rw [findLeafPage_eq fuel empty] at served ⊢
    exact run_after (start_granted (fun page => checked_pure page) (Prog.served_bind served)) (fun _ _ _ => (checked_pure _).run)

theorem findLeafPage_refused {fuel : Nat} (refused : ¬Prog.Served (exec .zeros) Granted (findLeafPage fuel root key) s) :
    root ≠ INVALID_PAGE_ID ∧ Prog.run (exec .zeros) (findLeafPage (fuel + 1) root key) s = .error .nullPage := by
  have valid : root ≠ INVALID_PAGE_ID := by
    rintro rfl
    exact refused trivial
  rw [findLeafPage_eq fuel valid] at refused
  rw [findLeafPage_eq (fuel + 1) valid]
  rcases Prog.refused_bind refused with early | ⟨page,s',ran,late⟩
  · exact ⟨valid,run_stops (start_refused (fun page _ => granted_pure page) early)⟩
  · exact absurd trivial late

end

/-! ### The operations -/

/-- At any bound on its loops the program uses no null page, and it refuses when a fetch
    of its descent is refused. -/
def Refuses {α : Type} (program : Nat → Action α) (descent : Nat → Action (Option PageId)) (refused : α → Prop)
    (s : Store BPlusTreePage) : Prop :=
  ∀ fuel, Prog.run (exec .zeros) (program fuel) s ≠ .error .nullPage ∧
    (¬Prog.Served (exec .zeros) Granted (descent fuel) s →
      ∃ value s', Prog.run (exec .zeros) (program fuel) s = .ok (value,s') ∧ refused value)

/-- The iterator is `End` or holds the page it is on. -/
def Positioned (it : BPlusTreeIterator) (s : Store BPlusTreePage) : Prop :=
  it.currPageId = INVALID_PAGE_ID ∨ it.currPage = some it.currPageId ∧ it.currPageId ∈ s.pins

/-- At any bound on its loops the program uses no null page, and its iterator is positioned. -/
def Positions (program : Nat → Action BPlusTreeIterator) (s : Store BPlusTreePage) : Prop :=
  ∀ fuel, Prog.run (exec .zeros) (program fuel) s ≠ .error .nullPage ∧
    ∀ it s', Prog.run (exec .zeros) (program fuel) s = .ok (it,s') → Positioned it s'

section
variable {root : PageId} {key : Key} {s : Store BPlusTreePage}

theorem refuses_iff {α : Type} {program : Nat → Action α} {descent : Nat → Action (Option PageId)} {refused : α → Prop}
    (stops : ∀ fuel, ¬Prog.Served (exec .zeros) Granted (descent fuel) s →
      Prog.run (exec .zeros) (program (fuel + 1)) s = .error .nullPage)
    (goes : ∀ fuel, Prog.Served (exec .zeros) Granted (descent fuel) s →
      Prog.run (exec .zeros) (program fuel) s ≠ .error .nullPage) :
    Refuses program descent refused s ↔ ∀ fuel, Prog.Served (exec .zeros) Granted (descent fuel) s := by
  constructor
  · intro refuses fuel
    by_contra null
    exact (refuses (fuel + 1)).1 (stops fuel null)
  · intro served fuel
    exact ⟨goes fuel (served fuel),fun null => absurd (served fuel) null⟩

theorem refuses_getValue : Refuses (fun fuel => getValue fuel root key) (fun fuel => findLeafPage fuel root key) (· = none) s ↔
    ∀ fuel, Prog.Served (exec .zeros) Granted (findLeafPage fuel root key) s := by
  refine refuses_iff (fun fuel null => ?_) (fun fuel served => ?_)
  · have ⟨valid,stopped⟩ := findLeafPage_refused null
    unfold getValue
    rw [if_neg valid]
    exact run_stops stopped
  · unfold getValue
    split
    · exact (checked_pure _).run
    · refine run_after (findLeafPage_granted served) (fun found s' _ => Checked.run ?_)
      cases found with
      | none => trivial
      | some page => exact checked_bind checked_readLeaf (fun _ => checked_bind (checked_inBounds _) (fun _ _ => trivial))

theorem refuses_insert {value : RID} :
    Refuses (fun fuel => BPlusTree.insert fuel root key value) (fun fuel => findLeafPage fuel root key) (fun done => done.1 = false) s ↔
      ∀ fuel, Prog.Served (exec .zeros) Granted (findLeafPage fuel root key) s := by
  refine refuses_iff (fun fuel null => ?_) (fun fuel served => ?_)
  · have ⟨valid,stopped⟩ := findLeafPage_refused null
    unfold BPlusTree.insert
    rw [if_neg valid]
    exact run_stops stopped
  · unfold BPlusTree.insert
    split
    · refine Checked.run (checked_bind (fun _ => trivial) (fun made => ?_))
      cases made with
      | none => trivial
      | some newRoot => exact checked_bind (checked_inBounds _) (fun _ _ _ => trivial)
    · refine run_after (findLeafPage_granted served) (fun found s' _ => Checked.run ?_)
      cases found with
      | none => trivial
      | some page =>
        refine checked_bind checked_readLeaf (fun leaf => checked_bind (checked_inBounds _) (fun done => ?_))
        refine checked_bind (fun _ => trivial) (fun _ => ?_)
        split
        · exact fun _ => trivial
        · split
          · exact fun _ => trivial
          · refine checked_bind (fun _ => trivial) (fun made => ?_)
            cases made with
            | none => exact fun _ => trivial
            | some newPage =>
              refine checked_bind checked_splitLeaf (fun splitKey => ?_)
              exact checked_bind (checked_insertIntoParent _ _ _ _ _) (fun _ _ _ => trivial)

theorem refuses_delete :
    Refuses (fun fuel => BPlusTree.delete fuel root key) (fun fuel => findLeafPage fuel root key) (fun done => done.1 = false) s ↔
      ∀ fuel, Prog.Served (exec .zeros) Granted (findLeafPage fuel root key) s := by
  refine refuses_iff (fun fuel null => ?_) (fun fuel served => ?_)
  · have ⟨valid,stopped⟩ := findLeafPage_refused null
    unfold BPlusTree.delete
    rw [if_neg valid]
    exact run_stops stopped
  · unfold BPlusTree.delete
    split
    · exact (checked_pure _).run
    · refine run_after (findLeafPage_granted served) (fun found s' _ => Checked.run ?_)
      cases found with
      | none => trivial
      | some page =>
        refine checked_bind checked_readLeaf (fun leaf => checked_bind (checked_inBounds _) (fun done => ?_))
        refine checked_bind (fun _ => trivial) (fun _ => ?_)
        split
        · exact fun _ => trivial
        · split
          · split
            · exact fun _ => trivial
            · exact fun _ => trivial
          · split
            · exact fun _ => trivial
            · exact checked_bind (checked_handleUnderflow _ _ _) (fun _ _ => trivial)

end

/-! ### Iterators -/

section
variable {root : PageId} {key : Key} {s s' : Store BPlusTreePage} {it : BPlusTreeIterator} {pageId : PageId} {index : Nat}

theorem checked_create : Checked (BPlusTreeIterator.create pageId index) := by
  unfold BPlusTreeIterator.create
  split
  · exact checked_pure _
  · exact fun _ => trivial

theorem create_granted (served : Prog.Served (exec .zeros) Granted (BPlusTreeIterator.create pageId index) s)
    (ran : Prog.run (exec .zeros) (BPlusTreeIterator.create pageId index) s = .ok (it,s')) : Positioned it s' := by
  unfold BPlusTreeIterator.create at served ran
  split_ifs at served ran with invalid
  · cases ran
    exact .inl invalid
  · obtain ⟨page,s₁,fetched,created⟩ := Prog.run_bind_ok ran
    cases created
    cases page with
    | none => exact absurd (Prog.served_bind served) (null_refused fetched)
    | some page =>
      obtain rfl := (run_fetchPage fetched).2 page rfl
      refine .inr ⟨rfl,?_⟩
      exact fetched_pinned fetched

theorem create_refused (refused : ¬Prog.Served (exec .zeros) Granted (BPlusTreeIterator.create pageId index) s) :
    ∃ it s', Prog.run (exec .zeros) (BPlusTreeIterator.create pageId index) s = .ok (it,s') ∧ ¬Positioned it s' := by
  unfold BPlusTreeIterator.create at refused ⊢
  split_ifs at refused ⊢ with invalid
  · exact absurd trivial refused
  · rcases Prog.refused_bind refused with null | ⟨page,s₁,_,refused⟩
    · obtain ⟨s₁,fetched⟩ := ungranted_fetch null
      refine ⟨_,s₁,by rw [Prog.run_bind,fetched]; rfl,?_⟩
      rintro (none | ⟨absent,_⟩)
      · exact invalid none
      · cases absent
    · exact absurd trivial refused

theorem positions_iff {program : Nat → Action BPlusTreeIterator}
    (goes : ∀ fuel, Prog.Served (exec .zeros) Granted (program fuel) s → Prog.run (exec .zeros) (program fuel) s ≠ .error .nullPage ∧
      ∀ it s', Prog.run (exec .zeros) (program fuel) s = .ok (it,s') → Positioned it s')
    (stops : ∀ fuel, ¬Prog.Served (exec .zeros) Granted (program fuel) s →
      (∃ fuel, Prog.run (exec .zeros) (program fuel) s = .error .nullPage) ∨
      ∃ it s', Prog.run (exec .zeros) (program fuel) s = .ok (it,s') ∧ ¬Positioned it s') :
    Positions program s ↔ ∀ fuel, Prog.Served (exec .zeros) Granted (program fuel) s := by
  constructor
  · intro positions fuel
    by_contra null
    rcases stops fuel null with ⟨fuel,stopped⟩ | ⟨it,s',ran,lost⟩
    · exact (positions fuel).1 stopped
    · exact lost ((positions fuel).2 it s' ran)
  · exact fun served fuel => goes fuel (served fuel)

theorem positions_create : Positions (fun _ => BPlusTreeIterator.create pageId index) s ↔
    Prog.Served (exec .zeros) Granted (BPlusTreeIterator.create pageId index) s := by
  refine (positions_iff (fun _ served => ?_) (fun _ refused => ?_)).trans ⟨fun served => served 0,fun served _ => served⟩
  · exact ⟨checked_create.run,fun it s' ran => create_granted served ran⟩
  · exact .inr (create_refused refused)

/-- An iterator made at the end of a program. -/
theorem positions_after {α : Type} {program : Nat → Action α} {next : α → Action BPlusTreeIterator}
    (creates : ∀ a, ∃ pageId index, next a = BPlusTreeIterator.create pageId index)
    (goes : ∀ fuel, Prog.Served (exec .zeros) Granted (program fuel) s → Prog.run (exec .zeros) (program fuel) s ≠ .error .nullPage)
    (stops : ∀ fuel, ¬Prog.Served (exec .zeros) Granted (program fuel) s →
      Prog.run (exec .zeros) (program (fuel + 1)) s = .error .nullPage) :
    Positions (fun fuel => program fuel >>= next) s ↔ ∀ fuel, Prog.Served (exec .zeros) Granted (program fuel >>= next) s := by
  refine positions_iff (fun fuel served => ?_) (fun fuel refused => ?_)
  · refine ⟨run_after (goes fuel (Prog.served_bind served)) (fun a s₁ _ => ?_),fun it s' ran => ?_⟩
    · obtain ⟨pageId,index,creation⟩ := creates a
      exact creation ▸ checked_create.run
    · obtain ⟨a,s₁,first,created⟩ := Prog.run_bind_ok ran
      have granted := Prog.served_next served first
      obtain ⟨pageId,index,creation⟩ := creates a
      rw [creation] at granted created
      exact create_granted granted created
  · rcases Prog.refused_bind refused with early | ⟨a,s₁,first,late⟩
    · exact .inl ⟨fuel + 1,run_stops (stops fuel early)⟩
    · obtain ⟨pageId,index,creation⟩ := creates a
      rw [creation] at late
      obtain ⟨it,s',created,lost⟩ := create_refused late
      refine .inr ⟨it,s',?_,lost⟩
      rw [Prog.run_bind,first]
      dsimp only
      rw [creation]
      exact created

/-- The leaf that `Begin` finds. -/
def leftmostLeaf (fuel : Nat) (root : PageId) : Action PageId := do
  if root = INVALID_PAGE_ID then pure INVALID_PAGE_ID
  else fetchPage root >>= follow release (fun internal => internal.valueAt 0) fuel

theorem checked_release (page : PageId) : Checked (release page) := fun _ => trivial

theorem granted_release (page : PageId) (s : Store BPlusTreePage) : Prog.Served (exec .zeros) Granted (release page) s := by
  unfold release
  exact Prog.served_bind_iff.mpr ⟨granted_perform (fun _ => trivial),fun _ _ _ => trivial⟩

theorem beginIterator_eq (fuel : Nat) :
    beginIterator fuel root = leftmostLeaf fuel root >>= fun page => BPlusTreeIterator.create page 0 := by
  unfold beginIterator leftmostLeaf
  split
  · rfl
  · simp only [descendLeft_eq_follow]
    rfl

theorem positions_begin : Positions (fun fuel => beginIterator fuel root) s ↔
    ∀ fuel, Prog.Served (exec .zeros) Granted (beginIterator fuel root) s := by
  simp only [beginIterator_eq]
  refine positions_after (fun page => ⟨page,0,rfl⟩) (fun fuel served => ?_) (fun fuel refused => ?_)
  · unfold leftmostLeaf at served ⊢
    split_ifs at served ⊢
    · exact (checked_pure _).run
    · exact start_granted checked_release served
  · unfold leftmostLeaf at refused ⊢
    split_ifs at refused ⊢
    · exact absurd trivial refused
    · exact start_refused granted_release refused

/-- The place that `Begin` finds for a key. -/
def locate (key : Key) : Option PageId → Action (PageId × Nat)
  | none => pure (INVALID_PAGE_ID,0)
  | some page => do
    let index ← inBounds ((← readLeaf page).keyIndex key)
    let _ ← unpinPage page false
    pure (page,index)

theorem checked_locate : ∀ found, Checked (locate key found)
  | none => trivial
  | some _ => checked_bind checked_readLeaf (fun _ => checked_bind (checked_inBounds _) (fun _ _ => trivial))

theorem beginAt_eq (fuel : Nat) : beginAt fuel root key =
    (findLeafPage fuel root key >>= locate key) >>= fun place => BPlusTreeIterator.create place.1 place.2 := by
  rw [Prog.bind_assoc]
  unfold beginAt
  split
  · unfold findLeafPage
    rw [if_pos (by assumption)]
    rfl
  · refine congrArg _ (funext fun found => ?_)
    cases found with
    | none => rfl
    | some page =>
      simp only [locate,Prog.bind_assoc]
      rfl

theorem granted_locate (found : Option PageId) : Prog.Served (exec .zeros) Granted (locate key found) s := by
  cases found with
  | none => exact granted_pure _
  | some page =>
    refine Prog.served_bind_iff.mpr ⟨granted_readLeaf,fun leaf s₁ _ => ?_⟩
    refine Prog.served_bind_iff.mpr ⟨granted_inBounds,fun index s₂ _ => ?_⟩
    exact Prog.served_bind_iff.mpr ⟨granted_perform (fun _ => trivial),fun _ _ _ => granted_pure _⟩

theorem positions_beginAt : Positions (fun fuel => beginAt fuel root key) s ↔
    ∀ fuel, Prog.Served (exec .zeros) Granted (beginAt fuel root key) s := by
  simp only [beginAt_eq]
  refine positions_after (fun place => ⟨place.1,place.2,rfl⟩) (fun fuel served => ?_) (fun fuel refused => ?_)
  · exact run_after (findLeafPage_granted (Prog.served_bind served)) (fun found _ _ => (checked_locate found).run)
  · rcases Prog.refused_bind refused with early | ⟨found,s₁,_,late⟩
    · exact run_stops (findLeafPage_refused early).2
    · exact absurd (granted_locate found) late

/-- `operator++` once it has looked at the leaf. -/
def advance (it : BPlusTreeIterator) (leaf : BPlusTreeLeafPage) : Action BPlusTreeIterator :=
  if leaf.size ≤ it.currIndex + 1 then do
    let _ ← unpinPage it.currPageId false
    BPlusTreeIterator.create leaf.nextPageId 0
  else pure { it with currIndex := it.currIndex + 1 }

theorem next_eq (valid : it.currPageId ≠ INVALID_PAGE_ID) (held : it.currPage = some it.currPageId) :
    it.next = readLeaf it.currPageId >>= advance it := by
  obtain ⟨pageId,index,page⟩ := it
  obtain rfl : page = some pageId := held
  unfold BPlusTreeIterator.next
  rw [if_neg valid]
  rfl

theorem checked_advance {leaf : BPlusTreeLeafPage} : Checked (advance it leaf) := by
  unfold advance
  split
  · exact checked_bind (fun _ => trivial) (fun _ => checked_create)
  · exact checked_pure _

theorem advance_granted {leaf : BPlusTreeLeafPage} {it' : BPlusTreeIterator} (held : it.currPage = some it.currPageId)
    (pinned : it.currPageId ∈ s.pins) (served : Prog.Served (exec .zeros) Granted (advance it leaf) s)
    (ran : Prog.run (exec .zeros) (advance it leaf) s = .ok (it',s')) : Positioned it' s' := by
  unfold advance at served ran
  split_ifs at served ran
  · obtain ⟨done,s₁,unpinned,created⟩ := Prog.run_bind_ok ran
    exact create_granted (Prog.served_next (p := unpinPage it.currPageId false) served unpinned) created
  · cases ran
    exact .inr ⟨held,pinned⟩

theorem advance_refused {leaf : BPlusTreeLeafPage} (refused : ¬Prog.Served (exec .zeros) Granted (advance it leaf) s) :
    ∃ it' s', Prog.run (exec .zeros) (advance it leaf) s = .ok (it',s') ∧ ¬Positioned it' s' := by
  unfold advance at refused ⊢
  split_ifs at refused ⊢
  · obtain ⟨done,s₁,unpinned,refused⟩ := (Prog.refused_bind refused).resolve_left (not_not.mpr (granted_perform (fun _ => trivial)))
    rw [Prog.run_bind,unpinned]
    exact create_refused refused
  · exact absurd trivial refused

theorem positions_next (positioned : Positioned it s) : Positions (fun _ => it.next) s ↔
    Prog.Served (exec .zeros) Granted it.next s := by
  refine (positions_iff (fun _ served => ?_) (fun _ refused => ?_)).trans ⟨fun served => served 0,fun served _ => served⟩
  all_goals
    by_cases ended : it.currPageId = INVALID_PAGE_ID
  · unfold BPlusTreeIterator.next
    rw [if_pos ended]
    refine ⟨(checked_pure _).run,fun it' s' ran => ?_⟩
    cases ran
    exact .inl ended
  · obtain ⟨held,pinned⟩ := positioned.resolve_left ended
    rw [next_eq ended held] at served ⊢
    refine ⟨run_after checked_readLeaf.run (fun _ _ _ => checked_advance.run),fun it' s' ran => ?_⟩
    obtain ⟨leaf,s₁,read,advanced⟩ := Prog.run_bind_ok ran
    have granted := Prog.served_next served read
    obtain ⟨_,rfl⟩ := run_readLeaf read
    exact advance_granted held pinned granted advanced
  · unfold BPlusTreeIterator.next at refused
    rw [if_pos ended] at refused
    exact absurd trivial refused
  · obtain ⟨held,_⟩ := positioned.resolve_left ended
    rw [next_eq ended held] at refused ⊢
    obtain ⟨leaf,s₁,read,refused⟩ := (Prog.refused_bind refused).resolve_left (not_not.mpr granted_readLeaf)
    rw [Prog.run_bind,read]
    exact .inr (advance_refused refused)

/-- Reading through a positioned iterator that is not `End`. -/
theorem value_not_null (positioned : Positioned it s) (more : it.currPageId ≠ INVALID_PAGE_ID) :
    Prog.run (exec .zeros) it.value s ≠ .error .nullPage := by
  obtain ⟨held,_⟩ := positioned.resolve_left more
  unfold BPlusTreeIterator.value
  rw [held]
  refine Checked.run ?_
  exact checked_bind (checked_pure _) (fun _ => checked_bind checked_readLeaf (fun _ =>
    checked_bind (checked_inBounds _) (fun _ => checked_bind (checked_inBounds _) (fun _ => checked_pure _))))

end

/-! ### When no null page is used -/

/-- Every fetch of a program is given its page, whatever the bound on its loops. -/
def Unrefused {α : Type} (program : Nat → Action α) (s : Store BPlusTreePage) : Prop :=
  ∀ fuel, Prog.Served (exec .zeros) Granted (program fuel) s

/-- The operations refuse, and the iterators are positioned, exactly when no fetch on the
    way is refused: a null page is never checked for. -/
theorem null_pages (s : Store BPlusTreePage) (root : PageId) (key : Key) (value : RID) :
    let descent := fun fuel => findLeafPage fuel root key
    (Refuses (fun fuel => getValue fuel root key) descent (· = none) s ↔ Unrefused descent s) ∧
    (Refuses (fun fuel => BPlusTree.insert fuel root key value) descent (·.1 = false) s ↔ Unrefused descent s) ∧
    (Refuses (fun fuel => BPlusTree.delete fuel root key) descent (·.1 = false) s ↔ Unrefused descent s) ∧
    (Positions (fun fuel => beginIterator fuel root) s ↔ Unrefused (fun fuel => beginIterator fuel root) s) ∧
    (Positions (fun fuel => beginAt fuel root key) s ↔ Unrefused (fun fuel => beginAt fuel root key) s) ∧
    ∀ it, Positioned it s →
      (Positions (fun _ => BPlusTreeIterator.create it.currPageId it.currIndex) s ↔
        Unrefused (fun _ => BPlusTreeIterator.create it.currPageId it.currIndex) s) ∧
      (Positions (fun _ => it.next) s ↔ Unrefused (fun _ => it.next) s) ∧
      (it.currPageId ≠ INVALID_PAGE_ID → Prog.run (exec .zeros) it.value s ≠ .error .nullPage) := by
  refine ⟨refuses_getValue,refuses_insert,refuses_delete,positions_begin,positions_beginAt,fun it positioned => ⟨?_,?_,?_⟩⟩
  · exact positions_create.trans (forall_const Nat).symm
  · exact (positions_next positioned).trans (forall_const Nat).symm
  · exact value_not_null positioned

/-- The tree of one key, its page pinned. -/
def pinnedSingle : Store BPlusTreePage := { single with pins := {1} }

theorem null_pages_single :
    Refuses (fun fuel => getValue fuel 1 7) (fun fuel => findLeafPage fuel 1 7) (· = none) pinnedSingle ∧
    Positions (fun _ => (⟨1,0,some 1⟩ : BPlusTreeIterator).next) pinnedSingle ∧
    Prog.run (exec .zeros) (⟨1,0,some 1⟩ : BPlusTreeIterator).value pinnedSingle ≠ .error .nullPage := by
  obtain ⟨reads,_,_,_,_,iterators⟩ := null_pages pinnedSingle 1 7 ⟨1,2⟩
  obtain ⟨_,moves,shows⟩ := iterators ⟨1,0,some 1⟩ (.inr ⟨rfl,by decide +kernel⟩)
  have granted : Prog.Served (exec .zeros) Granted (⟨1,0,some 1⟩ : BPlusTreeIterator).next pinnedSingle := by decide +kernel
  refine ⟨reads.mpr (fun fuel => ?_),moves.mpr (fun _ => granted),shows (by decide)⟩
  cases fuel with
  | zero => decide +kernel
  | succ fuel => exact ⟨by decide,trivial,trivial⟩

/-- A root page that is refused is used all the same. -/
theorem refused_root_is_used : ¬ ∀ (fuel n : Nat) (s : Store BPlusTreePage) (root : PageId) (script : List Bool) (key : Key),
    Reached fuel n s root →
    Refuses (fun fuel => getValue fuel root key) (fun fuel => findLeafPage fuel root key) (· = none) { s with script } := by
  intro refuses
  exact (refuses 2 1 single 1 [true] 7 single_reached 1).1 rfl

end Aether.TreeNullPages
