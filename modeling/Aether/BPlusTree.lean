import Aether.InternalPage
import Aether.PageStore

/-!
`BPlusTree`: the index as a client of the buffer pool. The operations take the
id of the root page and return the new one; a page pointer is the id of the
page it is bound to, and every access goes through the page's current content.
The descent and the recursions are cut off by a bound, `fuel`.
-/
namespace Aether.BPlusTree
open Aether.Programs Aether.Types Aether.PageStore Aether.LeafPage Aether.InternalPage

/-- The content of a page, told apart by `page_type_`. -/
inductive BPlusTreePage
  | leaf (page : BPlusTreeLeafPage)
  | internal (page : BPlusTreeInternalPage)

namespace BPlusTreePage

/-- A page of zeros has the page type of a leaf. -/
def zeros : BPlusTreePage :=
  .leaf { size := 0, maxSize := 0, parentPageId := 0, pageId := 0, nextPageId := 0,
          keys := Vector.replicate 254 0, values := Vector.replicate 254 { pageId := 0, slotNum := 0 } }

def isLeafPage : BPlusTreePage → Bool
  | .leaf _ => true
  | .internal _ => false

def getSize : BPlusTreePage → Nat
  | .leaf page => page.size
  | .internal page => page.size

def getMaxSize : BPlusTreePage → Nat
  | .leaf page => page.maxSize
  | .internal page => page.maxSize

def getPageId : BPlusTreePage → PageId
  | .leaf page => page.pageId
  | .internal page => page.pageId

def getParentPageId : BPlusTreePage → PageId
  | .leaf page => page.parentPageId
  | .internal page => page.parentPageId

def setParentPageId (parentPageId : PageId) : BPlusTreePage → BPlusTreePage
  | .leaf page => .leaf { page with parentPageId }
  | .internal page => .internal { page with parentPageId }

def isRootPage (page : BPlusTreePage) : Bool := page.getParentPageId == INVALID_PAGE_ID

end BPlusTreePage

/-- An operation of the tree. -/
abbrev Action := Client BPlusTreePage

/-- A method of a page, which faults where it would leave the arrays. -/
def inBounds {α : Type} (result : Option α) : Action α := Prog.ofOption .outOfBounds result

def readLeaf (page : PageId) : Action BPlusTreeLeafPage := do
  match ← getData page with
  | .leaf leaf => pure leaf
  | .internal _ => Prog.fault .wrongPageType

def readInternal (page : PageId) : Action BPlusTreeInternalPage := do
  match ← getData page with
  | .leaf _ => Prog.fault .wrongPageType
  | .internal internal => pure internal

def writeLeaf (page : PageId) (leaf : BPlusTreeLeafPage) : Action Unit := setData page (.leaf leaf)

def writeInternal (page : PageId) (internal : BPlusTreeInternalPage) : Action Unit := setData page (.internal internal)

/-- `SetParentPageId` on a pinned page. -/
def setParent (page parentId : PageId) : Action Unit := do
  let content ← getData page
  setData page (content.setParentPageId parentId)

/-- Fetch a child to set its parent pointer; a null page is skipped. -/
def adopt (childId parentId : PageId) : Action Unit := do
  match ← fetchPage childId with
  | none => pure ()
  | some child => do
    setParent child parentId
    let _ ← unpinPage childId true
    pure ()

/-- The loop over the children of an internal page from index `i` that sets
    their parent pointers. -/
def adoptChildren (page parentId : PageId) (i : Nat) : Nat → Action Unit
  | 0 => pure ()
  | count + 1 => do
    let internal ← readInternal page
    let childId ← inBounds (internal.valueAt i)
    adopt childId parentId
    adoptChildren page parentId (i + 1) count

/-! ### Search -/

/-- The loop of `FindLeafPage` from a page just fetched. -/
def descend (key : Key) : Nat → Option PageId → Action PageId
  | 0, _ => Prog.fault .outOfFuel
  | fuel + 1, fetched => do
    let page ← deref fetched
    match ← getData page with
    | .leaf _ => pure page
    | .internal internal => do
      let nextId ← inBounds (internal.lookup key)
      let _ ← unpinPage page false
      descend key fuel (← fetchPage nextId)

/-- The leaf for a key, pinned. -/
def findLeafPage (fuel : Nat) (root : PageId) (key : Key) : Action (Option PageId) := do
  if root = INVALID_PAGE_ID then pure none
  else do
    let page ← descend key fuel (← fetchPage root)
    pure (some page)

def getValue (fuel : Nat) (root : PageId) (key : Key) : Action (Option RID) := do
  if root = INVALID_PAGE_ID then pure none
  else
    match ← findLeafPage fuel root key with
    | none => pure none
    | some page => do
      let leaf ← readLeaf page
      let status ← inBounds (leaf.lookup key)
      let _ ← unpinPage page false
      pure status

/-! ### Insertion -/

/-- Move the upper half of a leaf to a new page; the first key moved. -/
def splitLeaf (page newPage : PageId) : Action Key := do
  let leaf ← readLeaf page
  let newLeaf := { BPlusTreeLeafPage.init newPage leaf.parentPageId with nextPageId := leaf.nextPageId }
  let (leaf,newLeaf) ← inBounds ({ leaf with nextPageId := newPage }.moveHalfTo newLeaf)
  writeLeaf page leaf
  writeLeaf newPage newLeaf
  inBounds newLeaf.keys[0]?

/-- Move the upper half of an internal page to a new page, whose children it
    then is the parent of; the key to push up. -/
def splitInternal (parent newParent : PageId) : Action Key := do
  let page ← readInternal parent
  let (page,new) ← inBounds (page.moveHalfTo (BPlusTreeInternalPage.init newParent page.parentPageId))
  writeInternal parent page
  writeInternal newParent new
  adoptChildren newParent newParent 0 new.size
  inBounds ((← readInternal newParent).keyAt 0)

/-- Link a new page to the right of an old one into the parent; the new root. -/
def insertIntoParent : Nat → PageId → PageId → Key → PageId → Action PageId
  | 0, _, _, _, _ => Prog.fault .outOfFuel
  | fuel + 1, root, oldChild, key, newChild => do
    let old ← getData oldChild
    if old.isRootPage then
      match ← newPage with
      | none => pure root
      | some newRoot => do
        let new ← getData newChild
        let page ← inBounds ((BPlusTreeInternalPage.init newRoot INVALID_PAGE_ID).populate old.getPageId key new.getPageId)
        writeInternal newRoot page
        setParent oldChild newRoot
        setParent newChild newRoot
        let _ ← unpinPage newRoot true
        pure newRoot
    else
      let parentId := old.getParentPageId
      match ← fetchPage parentId with
      | none => pure root
      | some parent => do
        let new ← getData newChild
        let page ← inBounds ((← readInternal parent).insertNodeAfter old.getPageId key new.getPageId)
        writeInternal parent page
        setParent newChild parentId
        if page.size ≤ page.maxSize then do
          let _ ← unpinPage parentId true
          pure root
        else
          match ← newPage with
          | none => do
            let _ ← unpinPage parentId true
            pure root
          | some newParent => do
            let pushUpKey ← splitInternal parent newParent
            let root ← insertIntoParent fuel root parent pushUpKey newParent
            let _ ← unpinPage parentId true
            let _ ← unpinPage newParent true
            pure root

/-- Whether the key was inserted, and the root page. -/
def insert (fuel : Nat) (root : PageId) (key : Key) (value : RID) : Action (Bool × PageId) := do
  if root = INVALID_PAGE_ID then
    match ← newPage with
    | none => pure (false,root)
    | some newRoot => do
      let inserted ← inBounds ((BPlusTreeLeafPage.init newRoot INVALID_PAGE_ID).insert key value)
      writeLeaf newRoot inserted.2
      let _ ← unpinPage newRoot true
      pure (true,newRoot)
  else
    match ← findLeafPage fuel root key with
    | none => pure (false,root)
    | some page => do
      let leaf ← readLeaf page
      let oldSize := leaf.size
      let (newSize,leaf) ← inBounds (leaf.insert key value)
      writeLeaf page leaf
      if newSize = oldSize then do
        let _ ← unpinPage page false
        pure (false,root)
      else if newSize ≤ leaf.maxSize then do
        let _ ← unpinPage page true
        pure (true,root)
      else
        match ← newPage with
        | none => do
          let _ ← unpinPage page true
          pure (false,root)
        | some newPage => do
          let splitKey ← splitLeaf page newPage
          let root ← insertIntoParent fuel root page splitKey newPage
          let _ ← unpinPage page true
          let _ ← unpinPage newPage true
          pure (true,root)

/-! ### Deletion -/

/-- `SetKeyAt` on a pinned page. -/
def setKeyAt (page : PageId) (index : Int) (key : Key) : Action Unit := do
  let internal ← inBounds ((← readInternal page).setKeyAt index.toNat key)
  writeInternal page internal

/-- `Remove` on a pinned internal page. -/
def removeChild (page : PageId) (index : Nat) : Action Unit := do
  let internal ← inBounds ((← readInternal page).remove index)
  writeInternal page internal

/-- Move one entry or child from a sibling: the last of the left one, or the
    first of the right one. -/
def redistribute (node sibling parent : PageId) (childIdx : Int) (fromLeft : Bool) : Action Unit := do
  match ← getData node with
  | .leaf leaf => do
    let sib ← readLeaf sibling
    if fromLeft then do
      let (sib,leaf) ← inBounds (sib.moveLastToFrontOf leaf)
      writeLeaf sibling sib
      writeLeaf node leaf
      let key ← inBounds leaf.keys[0]?
      setKeyAt parent childIdx key
    else do
      let (sib,leaf) ← inBounds (sib.moveFirstToEndOf leaf)
      writeLeaf sibling sib
      writeLeaf node leaf
      let key ← inBounds sib.keys[0]?
      setKeyAt parent (childIdx + 1) key
  | .internal internal => do
    let sib ← readInternal sibling
    let page ← readInternal parent
    if fromLeft then do
      let parentKey ← inBounds (page.keyAt childIdx.toNat)
      let newParentKey ← inBounds (sib.keyAt (sib.size - 1))
      let (sib,internal) ← inBounds (sib.moveLastToFrontOf internal parentKey)
      writeInternal sibling sib
      writeInternal node internal
      setKeyAt parent childIdx newParentKey
      adopt (← inBounds (internal.valueAt 0)) internal.pageId
    else do
      let parentKey ← inBounds (page.keyAt (childIdx + 1).toNat)
      let newParentKey ← inBounds (sib.keyAt 1)
      let (sib,internal) ← inBounds (sib.moveFirstToEndOf internal parentKey)
      writeInternal sibling sib
      writeInternal node internal
      setKeyAt parent (childIdx + 1) newParentKey
      adopt (← inBounds (internal.valueAt (internal.size - 1))) internal.pageId

/-- Move everything from the right sibling, the child at `childIdx`, into the
    left one, and remove it from the parent. -/
def merge (node sibling parent : PageId) (childIdx : Nat) : Action Unit := do
  match ← getData node with
  | .leaf left => do
    let (right,left) ← inBounds ((← readLeaf sibling).moveAllTo left)
    writeLeaf sibling right
    writeLeaf node left
    removeChild parent childIdx
  | .internal left => do
    let parentKey ← inBounds ((← readInternal parent).keyAt childIdx)
    let (right,left) ← inBounds ((← readInternal sibling).moveAllTo left parentKey)
    writeInternal sibling right
    writeInternal node left
    adoptChildren node left.pageId 0 left.size
    removeChild parent childIdx

/-- Whether the sibling on the given side had an entry to spare, which is then
    moved. -/
def borrow (node parent : PageId) (childIdx : Int) (fromLeft : Bool) : Action Bool := do
  let siblingIdx := if fromLeft then childIdx - 1 else childIdx + 1
  let siblingId ← inBounds ((← readInternal parent).valueAt siblingIdx.toNat)
  match ← fetchPage siblingId with
  | none => pure false
  | some sibling => do
    let content ← getData sibling
    if content.getMaxSize / 2 < content.getSize then do
      redistribute node sibling parent childIdx fromLeft
      let _ ← unpinPage siblingId true
      pure true
    else do
      let _ ← unpinPage siblingId false
      pure false

/-- Merge a node with its left sibling, or with the right one if it is the
    first child, and delete the page that became empty. -/
def mergeSibling (node parent : PageId) (childIdx : Int) : Action Unit := do
  if 0 < childIdx then do
    let leftId ← inBounds ((← readInternal parent).valueAt (childIdx - 1).toNat)
    match ← fetchPage leftId with
    | none => pure ()
    | some left => do
      merge left node parent childIdx.toNat
      let _ ← unpinPage leftId true
      let _ ← deletePage (← getData node).getPageId
      pure ()
  else do
    let rightId ← inBounds ((← readInternal parent).valueAt (childIdx + 1).toNat)
    match ← fetchPage rightId with
    | none => pure ()
    | some right => do
      merge node right parent (childIdx + 1).toNat
      let _ ← unpinPage rightId true
      let _ ← deletePage rightId
      pure ()

/-- The end of `HandleUnderflow`: merge, and repair the parent, with `again`, if
    it has become too small in turn. -/
def mergeAndRepair (again : Action PageId) (root node parent : PageId) (childIdx : Int) : Action PageId := do
  mergeSibling node parent childIdx
  let page ← readInternal parent
  let root ← if page.size < page.maxSize / 2 then again else pure root
  let _ ← unpinPage parent true
  pure root

/-- The root case: a root with a single child makes way for it. -/
def collapseRoot (root : PageId) : BPlusTreePage → Action PageId
  | .leaf _ => pure root
  | .internal internal =>
    if internal.size = 1 then do
      let newRoot ← inBounds (internal.valueAt 0)
      adopt newRoot INVALID_PAGE_ID
      let _ ← deletePage root
      pure newRoot
    else pure root

/-- Repair a node that has become too small; the new root. -/
def handleUnderflow : Nat → PageId → PageId → Action PageId
  | 0, _, _ => Prog.fault .outOfFuel
  | fuel + 1, root, node => do
    let content ← getData node
    if content.isRootPage then collapseRoot root content
    else
      let parentId := content.getParentPageId
      match ← fetchPage parentId with
      | none => pure root
      | some parent => do
        let page ← readInternal parent
        let childIdx ← inBounds (page.indexOf content.getPageId)
        if ← (if 0 < childIdx then borrow node parent childIdx true else pure false) then do
          let _ ← unpinPage parentId true
          pure root
        else if ← (if childIdx < (page.size : Int) - 1 then borrow node parent childIdx false else pure false) then do
          let _ ← unpinPage parentId true
          pure root
        else mergeAndRepair (handleUnderflow fuel root parent) root node parent childIdx

/-- Whether the key was deleted, and the root page. -/
def delete (fuel : Nat) (root : PageId) (key : Key) : Action (Bool × PageId) := do
  if root = INVALID_PAGE_ID then pure (false,root)
  else
    match ← findLeafPage fuel root key with
    | none => pure (false,root)
    | some page => do
      let (deleted,leaf) ← inBounds ((← readLeaf page).remove key)
      writeLeaf page leaf
      if !deleted then do
        let _ ← unpinPage page false
        pure (false,root)
      else if (BPlusTreePage.leaf leaf).isRootPage then
        if leaf.size = 0 then do
          let _ ← deletePage root
          pure (true,INVALID_PAGE_ID)
        else do
          let _ ← unpinPage page true
          pure (true,root)
      else if leaf.maxSize / 2 ≤ leaf.size then do
        let _ ← unpinPage page true
        pure (true,root)
      else do
        let root ← handleUnderflow fuel root page
        let _ ← unpinPage page true
        pure (true,root)

/-! ### Iterators -/

/-- `curr_page_` is null for the end iterator and where the fetch failed. -/
structure BPlusTreeIterator where
  currPageId : PageId
  currIndex : Nat
  currPage : Option PageId

namespace BPlusTreeIterator

def create (pageId : PageId) (index : Nat) : Action BPlusTreeIterator := do
  if pageId = INVALID_PAGE_ID then pure { currPageId := pageId, currIndex := index, currPage := none }
  else do
    let page ← fetchPage pageId
    pure { currPageId := pageId, currIndex := index, currPage := page }

def destroy (it : BPlusTreeIterator) : Action Unit := do
  if it.currPageId ≠ INVALID_PAGE_ID ∧ it.currPage ≠ none then do
    let _ ← unpinPage it.currPageId false
    pure ()
  else pure ()

/-- `operator*`. -/
def value (it : BPlusTreeIterator) : Action Entry := do
  let leaf ← readLeaf (← deref it.currPage)
  let key ← inBounds leaf.keys[it.currIndex]?
  let value ← inBounds leaf.values[it.currIndex]?
  pure (key,value)

/-- `operator++`. -/
def next (it : BPlusTreeIterator) : Action BPlusTreeIterator := do
  if it.currPageId = INVALID_PAGE_ID then pure it
  else do
    let leaf ← readLeaf (← deref it.currPage)
    if leaf.size ≤ it.currIndex + 1 then do
      let _ ← unpinPage it.currPageId false
      create leaf.nextPageId 0
    else pure { it with currIndex := it.currIndex + 1 }

/-- `operator==`. -/
def equal (it other : BPlusTreeIterator) : Bool :=
  decide (it.currPageId = other.currPageId ∧ it.currIndex = other.currIndex)

end BPlusTreeIterator

/-- The loop of `Begin` down the leftmost children. -/
def descendLeft : Nat → Option PageId → Action PageId
  | 0, _ => Prog.fault .outOfFuel
  | fuel + 1, fetched => do
    let page ← deref fetched
    match ← getData page with
    | .leaf _ => do
      let _ ← unpinPage page false
      pure page
    | .internal internal => do
      let leftmostChild ← inBounds (internal.valueAt 0)
      let _ ← unpinPage page false
      descendLeft fuel (← fetchPage leftmostChild)

/-- `End`. -/
def endIterator : Action BPlusTreeIterator := BPlusTreeIterator.create INVALID_PAGE_ID 0

/-- `Begin`. -/
def beginIterator (fuel : Nat) (root : PageId) : Action BPlusTreeIterator := do
  if root = INVALID_PAGE_ID then endIterator
  else do
    let page ← descendLeft fuel (← fetchPage root)
    BPlusTreeIterator.create page 0

/-- `Begin` at a key. -/
def beginAt (fuel : Nat) (root : PageId) (key : Key) : Action BPlusTreeIterator := do
  if root = INVALID_PAGE_ID then endIterator
  else
    match ← findLeafPage fuel root key with
    | none => endIterator
    | some page => do
      let index ← inBounds ((← readLeaf page).keyIndex key)
      let _ ← unpinPage page false
      BPlusTreeIterator.create page index

end Aether.BPlusTree
