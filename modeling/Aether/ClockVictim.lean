import Aether.Replacers
import Aether.Runs
import Mathlib.Data.Nat.Find
import Mathlib.Data.Nat.ModEq

/-!
Which frame the clock gives up. The hand goes round from its place and clears the
flags of the frames in the replacer that it passes over. It stops at the first one
whose flag is clear: in its first round where there is one, else in the second.
-/
namespace Aether.ClockVictim
open Aether.Replacers Aether.Replacers.ClockReplacer

/-! ### The hand -/

/-- The frame `i` places on from the hand. -/
def place (r : ClockReplacer) (i : Nat) : Nat := (r.clockHand + i) % r.numFrames

/-- The flags when the hand has passed over `k` places: those of the frames in the
    replacer that it passed over are clear, the others are as they were. -/
def flags (r : ClockReplacer) (k f : Nat) : Bool :=
  if r.inReplacer f = true ∧ ∃ i < k, place r i = f then false else r.refFlags f

/-- The replacer then. -/
def passed (r : ClockReplacer) (k : Nat) : ClockReplacer := { r with refFlags := flags r k, clockHand := place r k }

/-- The hand stops there: the frame is in the replacer and its flag is clear. -/
def Stops (r : ClockReplacer) (i : Nat) : Prop := r.inReplacer (place r i) = true ∧ flags r i (place r i) = false

instance (r : ClockReplacer) (i : Nat) : Decidable (Stops r i) := inferInstanceAs (Decidable (_ ∧ _))

/-- The replacer after its frame `i` places on is taken. -/
def taken (r : ClockReplacer) (i : Nat) : ClockReplacer where
  numFrames := r.numFrames
  refFlags := flags r i
  inReplacer := Function.update r.inReplacer (place r i) false
  clockHand := place r (i + 1)
  size := r.size - 1

/-- The first frame from the hand on with a property, less than a round away. -/
def FirstFrom (r : ClockReplacer) (p : Nat → Prop) (i : Nat) : Prop :=
  i < r.numFrames ∧ p (place r i) ∧ ∀ j < i, ¬p (place r j)

/-- The frame may be evicted now. -/
def Clear (r : ClockReplacer) (f : Nat) : Prop := r.inReplacer f = true ∧ r.refFlags f = false

/-- The places that the hand passes over before it stops: up to the first frame
    with a clear flag, or a round and up to the first frame. -/
def SecondChance (r : ClockReplacer) (steps : Nat) : Prop :=
  FirstFrom r (Clear r) steps ∨
    (∀ f, ¬Clear r f) ∧ ∃ i, FirstFrom r (fun f => r.inReplacer f = true) i ∧ steps = r.numFrames + i

section
variable {r : ClockReplacer} {i j k : Nat}

theorem place_inj (low : i < r.numFrames) (low' : j < r.numFrames) (same : place r i = place r j) : i = j := by
  have cancelled : Nat.ModEq r.numFrames i j := Nat.ModEq.add_left_cancel' r.clockHand same
  rwa [Nat.ModEq,Nat.mod_eq_of_lt low,Nat.mod_eq_of_lt low'] at cancelled

theorem place_round (i : Nat) : place r (r.numFrames + i) = place r i := by
  have turned : r.clockHand + (r.numFrames + i) = r.clockHand + i + r.numFrames := by omega
  rw [place,turned,Nat.add_mod_right]
  rfl

/-- Every frame is less than a round away. -/
theorem exists_place {f : Nat} (inside : f < r.numFrames) (hand : r.clockHand < r.numFrames) :
    ∃ i < r.numFrames, place r i = f := by
  by_cases ahead : r.clockHand ≤ f
  · refine ⟨f - r.clockHand,by omega,?_⟩
    have sum : r.clockHand + (f - r.clockHand) = f := by omega
    rw [place,sum,Nat.mod_eq_of_lt inside]
  · refine ⟨f + r.numFrames - r.clockHand,by omega,?_⟩
    have sum : r.clockHand + (f + r.numFrames - r.clockHand) = f + r.numFrames := by omega
    rw [place,sum,Nat.add_mod_right,Nat.mod_eq_of_lt inside]

theorem place_succ : (place r k + 1) % r.numFrames = place r (k + 1) := by
  unfold place
  rw [Nat.mod_add_mod,Nat.add_assoc]

/-- Passing over a frame of the replacer clears its flag. -/
theorem flags_succ_member (member : r.inReplacer (place r k) = true) :
    flags r (k + 1) = Function.update (flags r k) (place r k) false := by
  funext f
  by_cases same : f = place r k
  · subst same
    rw [Function.update_self]
    exact if_pos ⟨member,k,by omega,rfl⟩
  · rw [Function.update_of_ne same]
    have earlier : (∃ i < k + 1, place r i = f) ↔ ∃ i < k, place r i = f := by
      constructor
      · rintro ⟨i,low,here⟩
        have other : i ≠ k := fun last => same (by rw [← here,last])
        exact ⟨i,by omega,here⟩
      · rintro ⟨i,low,here⟩
        exact ⟨i,by omega,here⟩
    simp only [flags,earlier]

/-- Passing over another frame clears none. -/
theorem flags_succ_other (other : r.inReplacer (place r k) ≠ true) : flags r (k + 1) = flags r k := by
  funext f
  have earlier : (r.inReplacer f = true ∧ ∃ i < k + 1, place r i = f) ↔ r.inReplacer f = true ∧ ∃ i < k, place r i = f := by
    constructor
    · rintro ⟨member,i,low,here⟩
      have before : i ≠ k := by
        rintro rfl
        exact other (here ▸ member)
      exact ⟨member,i,by omega,here⟩
    · rintro ⟨member,i,low,here⟩
      exact ⟨member,i,by omega,here⟩
  simp only [flags,earlier]

theorem passed_zero (hand : r.clockHand < r.numFrames) : passed r 0 = r := by
  have start : place r 0 = r.clockHand := Nat.mod_eq_of_lt hand
  have kept : flags r 0 = r.refFlags := by
    funext f
    exact if_neg (fun cleared => by obtain ⟨_,i,low,_⟩ := cleared; omega)
  unfold passed
  rw [start,kept]

/-! ### The sweep -/

/-- One step of the hand. -/
theorem sweep_step (fuel : Nat) : sweep (fuel + 1) (passed r k) =
    if Stops r k then some ((place r k : FrameId),taken r k) else sweep fuel (passed r (k + 1)) := by
  have here : (passed r k).clockHand = place r k := rfl
  have members : (passed r k).inReplacer = r.inReplacer := rfl
  have marks : (passed r k).refFlags = flags r k := rfl
  by_cases member : r.inReplacer (place r k) = true
  · by_cases flagged : flags r k (place r k) = true
    · -- the flag is cleared and the hand goes on
      have going : ¬Stops r k := fun stops => by rw [stops.2] at flagged; cases flagged
      have after : ClockReplacer.advance { passed r k with refFlags := Function.update (flags r k) (place r k) false } =
          passed r (k + 1) := by
        unfold ClockReplacer.advance passed
        simp only [place_succ,flags_succ_member member]
      rw [if_neg going,← after,sweep,here,members,marks,if_pos member,if_pos flagged]
      rfl
    · have clear : flags r k (place r k) = false := by simpa using flagged
      have after : ClockReplacer.advance { passed r k with inReplacer := Function.update r.inReplacer (place r k) false,
                                                           size := r.size - 1 } = taken r k := by
        unfold ClockReplacer.advance passed taken
        simp only [place_succ]
      rw [if_pos ⟨member,clear⟩,← after,sweep,here,members,marks,if_pos member,if_neg flagged]
      rfl
  · have after : (passed r k).advance = passed r (k + 1) := by
      unfold ClockReplacer.advance passed
      simp only [place_succ,flags_succ_other member]
    rw [if_neg (fun stops => member stops.1),← after,sweep,here,members,if_neg member]

/-- The hand goes on to the first place where it stops, by induction on the steps
    that are left. -/
theorem sweep_from (stops : Stops r i) (first : ∀ j < i, ¬Stops r j) : ∀ (fuel k : Nat), k ≤ i →
    sweep fuel (passed r k) = if i < k + fuel then some ((place r i : FrameId),taken r i) else none
  | 0, k, before => by
    rw [if_neg (by omega)]
    rfl
  | fuel + 1, k, before => by
    rw [sweep_step]
    by_cases last : k = i
    · subst last
      rw [if_pos stops,if_pos (by omega)]
    · rw [if_neg (first k (by omega)),sweep_from stops first fuel (k + 1) (by omega)]
      have sum : k + 1 + fuel = k + (fuel + 1) := by omega
      rw [sum]

/-- In its first round the hand stops at a clear flag. -/
theorem stops_first (low : i < r.numFrames) : Stops r i ↔ Clear r (place r i) := by
  have fresh : ¬∃ j < i, place r j = place r i := by
    rintro ⟨j,before,same⟩
    have := place_inj (by omega) low same
    omega
  unfold Stops Clear flags
  rw [if_neg (fun cleared => fresh cleared.2)]

/-- In its second round it stops at any frame. -/
theorem stops_second (low : i < r.numFrames) : Stops r (r.numFrames + i) ↔ r.inReplacer (place r i) = true := by
  unfold Stops
  rw [place_round]
  refine ⟨And.left,fun member => ⟨member,?_⟩⟩
  exact if_pos ⟨member,i,by omega,rfl⟩

/-- Where the hand stops. -/
theorem secondChance_stops {steps : Nat} (chosen : SecondChance r steps) :
    Stops r steps ∧ (∀ j < steps, ¬Stops r j) ∧ steps < 2 * r.numFrames := by
  rcases chosen with ⟨low,clear,first⟩ | ⟨flagged,i,⟨low,member,first⟩,rfl⟩
  · refine ⟨(stops_first low).mpr clear,?_,by omega⟩
    intro j before stops
    exact first j before ((stops_first (by omega)).mp stops)
  · refine ⟨(stops_second low).mpr member,?_,by omega⟩
    intro j before stops
    by_cases round : j < r.numFrames
    · exact flagged _ ((stops_first round).mp stops)
    · have turned : j = r.numFrames + (j - r.numFrames) := by omega
      rw [turned] at stops
      exact first (j - r.numFrames) (by omega) ((stops_second (by omega)).mp stops)

/-- The nearest frame with a property. -/
theorem exists_first {p : Nat → Prop} {f : Nat} (hand : r.clockHand < r.numFrames) (inside : f < r.numFrames) (here : p f) :
    ∃ i, FirstFrom r p i := by
  classical
  obtain ⟨i,low,same⟩ := exists_place inside hand
  have found : ∃ i, i < r.numFrames ∧ p (place r i) := ⟨i,low,by rw [same]; exact here⟩
  obtain ⟨low',here'⟩ := Nat.find_spec found
  refine ⟨Nat.find found,low',here',?_⟩
  intro j before there
  exact Nat.find_min found before ⟨by omega,there⟩

theorem exists_secondChance {f : Nat} (hand : r.clockHand < r.numFrames) (frames : ∀ f, r.inReplacer f = true → f < r.numFrames)
    (member : r.inReplacer f = true) : ∃ steps, SecondChance r steps := by
  by_cases clear : ∃ g, Clear r g
  · obtain ⟨g,here⟩ := clear
    obtain ⟨i,first⟩ := exists_first hand (frames g here.1) here
    exact ⟨i,.inl first⟩
  · obtain ⟨i,first⟩ := exists_first (p := fun f => r.inReplacer f = true) hand (frames f member) member
    exact ⟨r.numFrames + i,.inr ⟨fun g here => clear ⟨g,here⟩,i,first,rfl⟩⟩

end

/-! ### Runs -/

/-- The operations of the replacer, on frame ids of 32 bits with a sign. -/
inductive ClockOp
  | pin (frameId : Int32)
  | unpin (frameId : Int32)
  | victim

def perform (r : ClockReplacer) : ClockOp → ClockReplacer
  | .pin frameId => r.pin frameId.toInt
  | .unpin frameId => r.unpin frameId.toInt
  | .victim => r.victim.2

def nextReplacer (r : ClockReplacer) (op : ClockOp) : Option ClockReplacer := some (perform r op)

/-- What holds of a replacer in use: it is sound, and a frame id is enough for its
    frames. -/
def Counted (n : Nat) (r : ClockReplacer) : Prop :=
  Replacer.Sound n (.clock r) ∧ ∀ f, r.inReplacer f = true → f < 2147483648

section
variable {n : Nat} {r r' : ClockReplacer}

theorem counted_create : Counted n (ClockReplacer.create n) :=
  ⟨Replacer.create_clock_sound,fun f member => by simp [ClockReplacer.create] at member⟩

theorem counted_of_has (counted : Counted n r) (sound : Replacer.Sound n (.clock r'))
    (has : ∀ f, Replacer.Has (.clock r') f → Replacer.Has (.clock r) f ∨ f < 2147483648) : Counted n r' := by
  refine ⟨sound,?_⟩
  intro f member
  rcases has f ⟨Int.natCast_nonneg f,member⟩ with old | small
  · exact counted.2 f old.2
  · omega

/-- Every operation keeps the count. -/
theorem counted_perform (counted : Counted n r) (op : ClockOp) : Counted n (perform r op) := by
  have sound := counted.1
  cases op with
  | pin frameId =>
    obtain ⟨sound',members⟩ := Replacer.pin_spec (f := frameId.toInt) sound
    exact counted_of_has counted sound' (fun f has => .inl ((members f).mp has).1)
  | unpin frameId =>
    by_cases outside : frameId.toInt < 0 ∨ r.numFrames ≤ frameId.toInt
    · have kept : perform r (.unpin frameId) = r := if_pos outside
      rw [kept]
      exact counted
    · have frames := sound.1
      obtain ⟨sound',members⟩ := Replacer.unpin_spec (f := frameId.toInt) sound ⟨by omega,by omega⟩
      refine counted_of_has counted sound' ?_
      intro f has
      rcases (members f).mp has with old | same
      · exact .inl old
      · have bound := frameId.toInt_lt
        exact .inr (by omega)
  | victim =>
    cases found : r.victim.1 with
    | none =>
      have same := (Replacer.victim_none sound found).1
      simp only [Replacer.victim,Replacer.clock.injEq] at same
      rw [perform,same]
      exact counted
    | some frameId =>
      obtain ⟨_,sound',members⟩ := Replacer.victim_some sound found
      exact counted_of_has counted sound' (fun f has => .inl ((members f).mp has).1)

/-- One call of `Victim`: the hand stops after the steps of `SecondChance`, in any
    number of steps that is enough. -/
theorem victim_secondChance (counted : Counted n r) {frameId : FrameId} (found : r.victim.1 = some frameId) :
    ∃ steps, SecondChance r steps ∧ steps < 2 * n ∧ frameId = (place r steps : FrameId) ∧ r.victim.2 = taken r steps ∧
      ∀ fuel, sweep fuel r = if steps < fuel then some ((place r steps : FrameId),taken r steps) else none := by
  obtain ⟨frames,inside,hand,_⟩ := counted.1
  obtain ⟨member,_,_⟩ := Replacer.victim_some counted.1 found
  have low := inside _ member.2
  have hand' : r.clockHand < r.numFrames := by
    have := hand (by omega)
    omega
  obtain ⟨steps,chosen⟩ := exists_secondChance hand' (fun f member => by have := inside f member; omega) member.2
  obtain ⟨stops,first,few⟩ := secondChance_stops chosen
  have swept : ∀ fuel, sweep fuel r = if steps < fuel then some ((place r steps : FrameId),taken r steps) else none := by
    intro fuel
    have from_hand := sweep_from stops first fuel 0 (Nat.zero_le _)
    rwa [passed_zero hand',Nat.zero_add] at from_hand
  have enough := swept (2 * r.numFrames)
  rw [if_pos few] at enough
  unfold ClockReplacer.victim at found ⊢
  split_ifs at found ⊢ with empty
  simp only [enough] at found ⊢
  refine ⟨steps,chosen,by omega,?_,rfl,swept⟩
  exact (Option.some.inj found).symm

/-- The counter and the hand, and what `Victim` does: it fails exactly when there is
    no frame and changes nothing then, else the hand stops after fewer than two
    rounds at the frame of the second chance, whatever more steps it is given, and
    takes it. -/
structure Behaves (n : Nat) (r : ClockReplacer) : Prop where
  size : r.size = ((Finset.range n).filter (fun f => r.inReplacer f = true)).card
  hand : 0 < n → r.clockHand < n
  fails : r.victim.1 = none ↔ ∀ f, r.inReplacer f = false
  unchanged : r.victim.1 = none → r.victim.2 = r
  word : ∀ frameId, r.victim.1 = some frameId → ∃ word : Int32, frameId = word.toInt
  finds : ∀ frameId, r.victim.1 = some frameId → ∃ steps, SecondChance r steps ∧ steps < 2 * n ∧
    frameId = (place r steps : FrameId) ∧ r.victim.2 = taken r steps ∧
      ∀ fuel, sweep fuel r = if steps < fuel then some ((place r steps : FrameId),taken r steps) else none

/-- Whatever the operations were, the clock behaves. -/
theorem clock_second_chance (runs : Runs.Runs nextReplacer (fun _ _ => True) (ClockReplacer.create n) r) : Behaves n r := by
  have counted : Counted n r := by
    refine runs.invariant (Counted n) counted_create ?_
    intro r op r' counted _ moved
    cases moved
    exact counted_perform counted op
  obtain ⟨_,_,hand,count⟩ := counted.1
  constructor
  case size => exact count
  case hand => exact hand
  case fails =>
    constructor
    · intro none f
      by_contra member
      exact (Replacer.victim_none counted.1 none).2 f ⟨Int.natCast_nonneg f,by simpa using member⟩
    · intro nothing
      rcases Replacer.clock_victim counted.1 with ⟨none,_⟩ | ⟨f,r',_,takes,_⟩
      · rw [none]
      · have member := takes.member.2
        rw [nothing] at member
        cases member
  case unchanged =>
    intro none
    have same := (Replacer.victim_none counted.1 none).1
    simpa only [Replacer.victim,Replacer.clock.injEq] using same
  case word =>
    intro frameId found
    obtain ⟨member,_,_⟩ := Replacer.victim_some counted.1 found
    have small := counted.2 _ member.2
    have natural := member.1
    exact ⟨Int32.ofInt frameId,(Int32.toInt_ofInt_of_le (by omega) (by omega)).symm⟩
  case finds =>
    intro frameId found
    exact victim_secondChance counted found

/-- Frames put in and taken out, victims with and without a second chance, and ids
    that are no frames. -/
def sequence : List ClockOp :=
  [.unpin 0,.unpin 1,.unpin 2,.unpin 3,.pin 2,.victim,.victim,.unpin 0,.unpin (-1),.pin 7]

theorem clock_second_chance_sequence : ∃ r, Runs.follow nextReplacer (fun _ _ => True) (ClockReplacer.create 4) sequence = some r ∧
    r.victim.1 = some 3 ∧ Behaves 4 r := by
  have ran : (Runs.follow nextReplacer (fun _ _ => True) (ClockReplacer.create 4) sequence).map (fun r => r.victim.1) =
      some (some 3) := by decide +kernel
  obtain ⟨r,followed,third⟩ := Option.map_eq_some_iff.mp ran
  exact ⟨r,followed,third,clock_second_chance (Runs.runs_of_follow followed)⟩

end
end Aether.ClockVictim
