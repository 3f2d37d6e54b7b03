import Mathlib.Data.List.Nodup
import Mathlib.Data.Finset.Card
import Mathlib.Data.Finset.Range
import Mathlib.Logic.Function.Basic
import Mathlib.Tactic.Common

/-!
The replacers of the buffer pool. Both keep a set of frames that may be evicted:
`pin` takes a frame out, `unpin` puts one in, and `victim` chooses one and takes
it out, whenever there is one.
-/
namespace Aether.Replacers

/-- `frame_id_t`. -/
abbrev FrameId := Int

/-! ### LRU -/

/-- The frames in the order in which they were put in. -/
structure LRUReplacer where
  numFrames : Nat
  lruList : List FrameId

namespace LRUReplacer

def create (numFrames : Nat) : LRUReplacer := { numFrames, lruList := [] }

def victim (r : LRUReplacer) : Option FrameId × LRUReplacer :=
  match r.lruList with
  | [] => (none,r)
  | frameId :: rest => (some frameId,{ r with lruList := rest })

def pin (r : LRUReplacer) (frameId : Int) : LRUReplacer := { r with lruList := r.lruList.erase frameId }

def unpin (r : LRUReplacer) (frameId : Int) : LRUReplacer :=
  if frameId < 0 ∨ r.numFrames ≤ frameId then r
  else if frameId ∈ r.lruList then r
  else { r with lruList := r.lruList ++ [frameId] }

end LRUReplacer

/-! ### Clock -/

structure ClockReplacer where
  numFrames : Nat
  refFlags : Nat → Bool
  inReplacer : Nat → Bool
  clockHand : Nat
  size : Nat

namespace ClockReplacer

def create (numFrames : Nat) : ClockReplacer :=
  { numFrames, refFlags := fun _ => false, inReplacer := fun _ => false, clockHand := 0, size := 0 }

/-- The hand one frame further. -/
def advance (r : ClockReplacer) : ClockReplacer := { r with clockHand := (r.clockHand + 1) % r.numFrames }

/-- The loop of `Victim`, cut off by a bound. -/
def sweep : Nat → ClockReplacer → Option (FrameId × ClockReplacer)
  | 0, _ => none
  | fuel + 1, r =>
    if r.inReplacer r.clockHand then
      if r.refFlags r.clockHand then
        sweep fuel { r with refFlags := Function.update r.refFlags r.clockHand false }.advance
      else
        some (r.clockHand,{ r with inReplacer := Function.update r.inReplacer r.clockHand false,
                                   size := r.size - 1 }.advance)
    else sweep fuel r.advance

/-- Two rounds of the hand are always enough, see `sweep_finds`. -/
def victim (r : ClockReplacer) : Option FrameId × ClockReplacer :=
  if r.size = 0 then (none,r)
  else
    match sweep (2 * r.numFrames) r with
    | some (frameId,r') => (some frameId,r')
    | none => (none,r)

def pin (r : ClockReplacer) (frameId : Int) : ClockReplacer :=
  if frameId < 0 ∨ r.numFrames ≤ frameId then r
  else if r.inReplacer frameId.toNat then
    { r with inReplacer := Function.update r.inReplacer frameId.toNat false, size := r.size - 1 }
  else r

def unpin (r : ClockReplacer) (frameId : Int) : ClockReplacer :=
  if frameId < 0 ∨ r.numFrames ≤ frameId then r
  else if r.inReplacer frameId.toNat then r
  else { r with inReplacer := Function.update r.inReplacer frameId.toNat true,
                refFlags := Function.update r.refFlags frameId.toNat true, size := r.size + 1 }

end ClockReplacer

/-! ### Either -/

/-- `Replacer`, with its two implementations. -/
inductive Replacer
  | lru (r : LRUReplacer)
  | clock (r : ClockReplacer)

namespace Replacer

def victim : Replacer → Option FrameId × Replacer
  | lru r => (r.victim.1,lru r.victim.2)
  | clock r => (r.victim.1,clock r.victim.2)

def pin : Replacer → Int → Replacer
  | lru r, frameId => lru (r.pin frameId)
  | clock r, frameId => clock (r.pin frameId)

def unpin : Replacer → Int → Replacer
  | lru r, frameId => lru (r.unpin frameId)
  | clock r, frameId => clock (r.unpin frameId)

/-- The frame may be evicted. -/
def Has : Replacer → Int → Prop
  | lru r, f => f ∈ r.lruList
  | clock r, f => 0 ≤ f ∧ r.inReplacer f.toNat = true

/-- A frame of a pool of `n`. -/
def IsFrame (n : Nat) (f : Int) : Prop := 0 ≤ f ∧ f < n

/-- The state of a replacer for `n` frames. -/
def Sound (n : Nat) : Replacer → Prop
  | lru r => r.numFrames = n ∧ r.lruList.Nodup ∧ ∀ f ∈ r.lruList, IsFrame n f
  | clock r => r.numFrames = n ∧ (∀ f, r.inReplacer f = true → f < n) ∧ (0 < n → r.clockHand < n) ∧
      r.size = ((Finset.range n).filter (fun f => r.inReplacer f = true)).card

end Replacer

/-! ### Their sets of frames -/

namespace ClockReplacer

/-- A round of the hand from its place to a frame, and one more if the frame's
    flag has to be cleared first. -/
def distance (r : ClockReplacer) (f : Nat) : Nat :=
  (if r.clockHand ≤ f then f - r.clockHand else f + r.numFrames - r.clockHand) + if r.refFlags f then r.numFrames else 0

theorem hand_advance {r : ClockReplacer} (hand : r.clockHand < r.numFrames) :
    r.advance.clockHand = r.clockHand + 1 ∧ r.clockHand + 1 < r.numFrames ∨
      r.advance.clockHand = 0 ∧ r.clockHand + 1 = r.numFrames := by
  rcases Nat.lt_or_ge (r.clockHand + 1) r.numFrames with more | last
  · exact .inl ⟨Nat.mod_eq_of_lt more,more⟩
  · have same : r.clockHand + 1 = r.numFrames := by omega
    exact .inr ⟨by rw [advance,same,Nat.mod_self],same⟩

/-- Every step of the hand that does not end the sweep brings it closer. -/
theorem distance_advance {r : ClockReplacer} {f : Nat} (inside : f < r.numFrames) (hand : r.clockHand < r.numFrames)
    (other : f ≠ r.clockHand) : r.advance.distance f + 1 = r.distance f := by
  have count : r.advance.numFrames = r.numFrames := rfl
  have flags : r.advance.refFlags = r.refFlags := rfl
  simp only [distance,count,flags]
  rcases hand_advance hand with ⟨next,_⟩ | ⟨next,_⟩ <;> rw [next] <;> split_ifs <;> omega

/-- What `Victim` does to the set of frames. -/
structure Takes (r : ClockReplacer) (f : Int) (r' : ClockReplacer) : Prop where
  numFrames : r'.numFrames = r.numFrames
  size : r'.size = r.size - 1
  member : 0 ≤ f ∧ r.inReplacer f.toNat = true
  inReplacer : r'.inReplacer = Function.update r.inReplacer f.toNat false
  hand : r'.clockHand < r.numFrames

/-- The hand stops within two rounds when there is a frame for it to come to. -/
theorem sweep_finds {f : Nat} : ∀ {fuel : Nat} {r : ClockReplacer}, f < r.numFrames → r.clockHand < r.numFrames →
    r.inReplacer f = true → r.distance f < fuel → ∃ g r', sweep fuel r = some (g,r') ∧ Takes r g r'
  | 0, r, _, _, _, enough => absurd enough (Nat.not_lt_zero _)
  | fuel + 1, r, inside, hand, present, enough => by
    have stays : r.advance.clockHand < r.numFrames := Nat.mod_lt _ (by omega)
    rw [sweep]
    split_ifs with here flagged
    · -- the flag is cleared and the hand goes on
      let cleared : ClockReplacer := { r with refFlags := Function.update r.refFlags r.clockHand false }
      have closer : cleared.advance.distance f < fuel := by
        by_cases same : f = r.clockHand
        · subst same
          have count : cleared.advance.numFrames = r.numFrames := rfl
          have flag : cleared.advance.refFlags r.clockHand = false := Function.update_self ..
          have next : cleared.advance.clockHand = r.advance.clockHand := rfl
          simp only [distance,count,flag,next,flagged,if_true,Bool.false_eq_true,if_false] at enough ⊢
          rcases hand_advance hand with ⟨next,_⟩ | ⟨next,_⟩ <;> rw [next] <;> split_ifs at enough ⊢ <;> omega
        · have step : cleared.advance.distance f + 1 = cleared.distance f := distance_advance inside hand same
          have flag : cleared.refFlags f = r.refFlags f := Function.update_of_ne same ..
          have still : cleared.distance f = r.distance f := by rw [distance,flag]; rfl
          omega
      obtain ⟨g,r',found,takes⟩ := sweep_finds (r := cleared.advance) inside stays present closer
      exact ⟨g,r',found,takes.numFrames,takes.size,takes.member,takes.inReplacer,takes.hand⟩
    · exact ⟨_,_,rfl,rfl,rfl,⟨Int.natCast_nonneg _,by simpa using here⟩,by simp [advance],stays⟩
    · -- the frame under the hand is not in the replacer
      have other : f ≠ r.clockHand := fun same => here (same ▸ present)
      have step := distance_advance inside hand other
      have closer : r.advance.distance f < fuel := by omega
      obtain ⟨g,r',found,takes⟩ := sweep_finds (r := r.advance) inside stays present closer
      exact ⟨g,r',found,takes.numFrames,takes.size,takes.member,takes.inReplacer,takes.hand⟩

theorem distance_lt {r : ClockReplacer} {f : Nat} (inside : f < r.numFrames) (hand : r.clockHand < r.numFrames) :
    r.distance f < 2 * r.numFrames := by
  simp only [distance]
  split_ifs <;> omega

end ClockReplacer

namespace Replacer
variable {n : Nat} {r r' : Replacer} {f g : Int}

theorem card_remove {p : Nat → Bool} {k : Nat} (low : k < n) (present : p k = true) :
    ((Finset.range n).filter (fun i => Function.update p k false i = true)).card + 1 =
      ((Finset.range n).filter (fun i => p i = true)).card := by
  have member : k ∈ (Finset.range n).filter (fun i => p i = true) := by simp [low,present]
  have removed : (Finset.range n).filter (fun i => Function.update p k false i = true) =
      ((Finset.range n).filter (fun i => p i = true)).erase k := by
    ext i
    by_cases same : i = k
    · subst same; simp
    · simp [Function.update_of_ne same,same]
  rw [removed,Finset.card_erase_add_one member]

theorem card_insert {p : Nat → Bool} {k : Nat} (low : k < n) (absent : p k = false) :
    ((Finset.range n).filter (fun i => Function.update p k true i = true)).card =
      ((Finset.range n).filter (fun i => p i = true)).card + 1 := by
  have inserted : (Finset.range n).filter (fun i => Function.update p k true i = true) =
      insert k ((Finset.range n).filter (fun i => p i = true)) := by
    ext i
    by_cases same : i = k
    · subst same; simp [low]
    · simp [Function.update_of_ne same,same]
  rw [inserted,Finset.card_insert_of_notMem (by simp [absent])]

theorem create_lru_sound : Sound n (lru (LRUReplacer.create n)) := ⟨rfl,List.nodup_nil,by simp [LRUReplacer.create]⟩

theorem create_clock_sound : Sound n (clock (ClockReplacer.create n)) :=
  ⟨rfl,by simp [ClockReplacer.create],fun positive => positive,by simp [ClockReplacer.create]⟩

theorem Sound.frame (sound : Sound n r) (has : Has r f) : IsFrame n f := by
  cases r with
  | lru r => exact sound.2.2 f has
  | clock r =>
    have low := sound.2.1 f.toNat has.2
    have positive := has.1
    exact ⟨positive,by omega⟩

/-- The clock finds a victim wherever there is one. -/
theorem clock_victim {r : ClockReplacer} (sound : Sound n (clock r)) :
    r.victim = (none,r) ∧ (∀ f, r.inReplacer f = false) ∨
      ∃ f r', r.victim = (some f,r') ∧ ClockReplacer.Takes r f r' ∧ r.size ≠ 0 := by
  obtain ⟨frames,inside,hand,count⟩ := sound
  by_cases empty : r.size = 0
  · refine .inl ⟨by rw [ClockReplacer.victim,if_pos empty],fun f => ?_⟩
    by_contra present
    have has : r.inReplacer f = true := by simpa using present
    have member : f ∈ (Finset.range n).filter (fun f => r.inReplacer f = true) := by simp [inside f has,has]
    have positive := Finset.card_pos.mpr ⟨f,member⟩
    omega
  · have positive : 0 < ((Finset.range n).filter (fun f => r.inReplacer f = true)).card := by omega
    obtain ⟨f,member⟩ := Finset.card_pos.mp positive
    obtain ⟨low,has⟩ : f < n ∧ r.inReplacer f = true := by simpa using member
    have low' : f < r.numFrames := by omega
    have hand' : r.clockHand < r.numFrames := by have := hand (by omega); omega
    obtain ⟨g,r',found,takes⟩ := ClockReplacer.sweep_finds low' hand' has (ClockReplacer.distance_lt low' hand')
    exact .inr ⟨g,r',by simp only [ClockReplacer.victim,if_neg empty,found],takes,empty⟩

/-- `Victim` fails only where there is nothing to evict. -/
theorem victim_none (sound : Sound n r) (none : r.victim.1 = none) : r.victim.2 = r ∧ ∀ g, ¬ Has r g := by
  cases r with
  | lru r =>
    cases list : r.lruList with
    | nil => exact ⟨by simp [victim,LRUReplacer.victim,list],by simp [Has,list]⟩
    | cons f rest => simp [victim,LRUReplacer.victim,list] at none
  | clock r =>
    rcases clock_victim sound with ⟨victim,nothing⟩ | ⟨f,r',victim,_,_⟩
    · exact ⟨by simp [Replacer.victim,victim],by simp [Has,nothing]⟩
    · simp [Replacer.victim,victim] at none

/-- The victim is one of the frames, and is no longer. -/
theorem victim_some (sound : Sound n r) (some : r.victim.1 = some f) :
    Has r f ∧ Sound n r.victim.2 ∧ ∀ g, Has r.victim.2 g ↔ Has r g ∧ g ≠ f := by
  cases r with
  | lru r =>
    obtain ⟨frames,distinct,inside⟩ := sound
    cases list : r.lruList with
    | nil => simp [victim,LRUReplacer.victim,list] at some
    | cons e rest =>
      obtain rfl : e = f := by simpa [victim,LRUReplacer.victim,list] using some
      rw [list,List.nodup_cons] at distinct
      have after : (lru r).victim.2 = lru { r with lruList := rest } := by simp [victim,LRUReplacer.victim,list]
      rw [after]
      refine ⟨by simp [Has,list],⟨frames,distinct.2,fun g member => inside g (by simp [list,member])⟩,fun g => ?_⟩
      simp only [Has,list,List.mem_cons]
      constructor
      · intro member
        exact ⟨.inr member,fun same => distinct.1 (same ▸ member)⟩
      · rintro ⟨here | member,other⟩
        · exact absurd here other
        · exact member
  | clock r =>
    rcases clock_victim sound with ⟨victim,_⟩ | ⟨e,r',victim,takes,inhabited⟩
    · simp [Replacer.victim,victim] at some
    obtain rfl : e = f := by simpa [Replacer.victim,victim] using some
    have after : (clock r).victim.2 = clock r' := by simp [Replacer.victim,victim]
    obtain ⟨frames,inside,hand,count⟩ := sound
    have low := inside e.toNat takes.member.2
    rw [after]
    refine ⟨takes.member,⟨takes.numFrames.trans frames,fun g present => ?_,fun _ => ?_,?_⟩,fun g => ?_⟩
    · rw [takes.inReplacer] at present
      by_cases same : g = e.toNat
      · subst same; exact low
      · exact inside g (by simpa [Function.update_of_ne same] using present)
    · rw [← frames]; exact takes.hand
    · rw [takes.size,takes.inReplacer,count,← card_remove low takes.member.2]
      rfl
    · simp only [Has,takes.inReplacer]
      by_cases same : g.toNat = e.toNat
      · have positive := takes.member.1
        rw [same,Function.update_self]
        constructor
        · rintro ⟨_,absent⟩; simp at absent
        · rintro ⟨⟨natural,_⟩,other⟩; omega
      · have other : g ≠ e := fun equal => same (congrArg Int.toNat equal)
        rw [Function.update_of_ne same]
        tauto

theorem pin_spec (sound : Sound n r) : Sound n (r.pin f) ∧ ∀ g, Has (r.pin f) g ↔ Has r g ∧ g ≠ f := by
  cases r with
  | lru r =>
    obtain ⟨frames,distinct,inside⟩ := sound
    refine ⟨⟨frames,distinct.erase f,fun g member => inside g (List.mem_of_mem_erase member)⟩,fun g => ?_⟩
    simp only [Has,pin,LRUReplacer.pin,distinct.mem_erase_iff]
    exact and_comm
  | clock r =>
    obtain ⟨frames,inside,hand,count⟩ := sound
    simp only [pin,ClockReplacer.pin]
    split_ifs with outside present
    · refine ⟨⟨frames,inside,hand,count⟩,fun g => ?_⟩
      constructor
      · intro has
        have low := inside g.toNat has.2
        have natural := has.1
        exact ⟨has,by rintro rfl; omega⟩
      · exact And.left
    · have low := inside f.toNat present
      refine ⟨⟨frames,fun g has => ?_,hand,by rw [count,← card_remove low present]; rfl⟩,fun g => ?_⟩
      · by_cases same : g = f.toNat
        · subst same; exact low
        · exact inside g (by simpa [Function.update_of_ne same] using has)
      · simp only [Has]
        by_cases same : g.toNat = f.toNat
        · rw [same,Function.update_self]
          constructor
          · rintro ⟨_,absent⟩; simp at absent
          · rintro ⟨⟨natural,_⟩,other⟩; omega
        · have other : g ≠ f := fun equal => same (congrArg Int.toNat equal)
          rw [Function.update_of_ne same]
          tauto
    · refine ⟨⟨frames,inside,hand,count⟩,fun g => ⟨fun has => ⟨has,?_⟩,And.left⟩⟩
      rintro rfl
      exact present has.2

theorem unpin_spec (sound : Sound n r) (frame : IsFrame n f) :
    Sound n (r.unpin f) ∧ ∀ g, Has (r.unpin f) g ↔ Has r g ∨ g = f := by
  obtain ⟨natural,low⟩ := frame
  cases r with
  | lru r =>
    obtain ⟨frames,distinct,inside⟩ := sound
    simp only [unpin,LRUReplacer.unpin]
    rw [if_neg (by omega)]
    split_ifs with present
    · refine ⟨⟨frames,distinct,inside⟩,fun g => ⟨.inl,?_⟩⟩
      rintro (has | rfl)
      · exact has
      · exact present
    · refine ⟨⟨frames,?_,?_⟩,fun g => by simp [Has]⟩
      · rw [List.nodup_append]
        refine ⟨distinct,List.nodup_singleton f,fun a member b single => ?_⟩
        rw [List.mem_singleton.mp single]
        exact fun same => present (same ▸ member)
      · intro g member
        rcases List.mem_append.mp member with old | new
        · exact inside g old
        · rw [List.mem_singleton.mp new]
          exact ⟨natural,low⟩
  | clock r =>
    obtain ⟨frames,inside,hand,count⟩ := sound
    simp only [unpin,ClockReplacer.unpin]
    rw [if_neg (by omega)]
    split_ifs with present
    · refine ⟨⟨frames,inside,hand,count⟩,fun g => ⟨.inl,?_⟩⟩
      rintro (has | rfl)
      · exact has
      · exact ⟨natural,present⟩
    · have absent : r.inReplacer f.toNat = false := by simpa using present
      have low' : f.toNat < n := by omega
      refine ⟨⟨frames,fun g has => ?_,hand,by rw [count,card_insert low' absent]⟩,fun g => ?_⟩
      · by_cases same : g = f.toNat
        · subst same; exact low'
        · exact inside g (by simpa [Function.update_of_ne same] using has)
      · simp only [Has]
        by_cases same : g.toNat = f.toNat
        · rw [same,Function.update_self]
          simp only [and_true,absent,Bool.false_eq_true,and_false,false_or]
          constructor
          · intro positive; omega
          · rintro rfl; exact natural
        · have other : g ≠ f := fun equal => same (congrArg Int.toNat equal)
          simp [Function.update_of_ne same,other]

end Replacer
end Aether.Replacers
