import Mathlib.Logic.Basic
import Mathlib.Data.Multiset.Basic

/-!
Runs of a system whose moves are functions on its states, with a condition on
every move taken: what every move keeps holds at the end of a run.
-/
namespace Aether.Runs
variable {S M : Type}

/-- The states that allowed moves lead to. -/
inductive Runs (next : S → M → Option S) (allowed : S → M → Prop) (s : S) : S → Prop
  | refl : Runs next allowed s s
  | step {s' s'' : S} {m : M} : Runs next allowed s s' → allowed s' m → next s' m = some s'' → Runs next allowed s s''

variable {next : S → M → Option S} {allowed : S → M → Prop} {s s' s'' : S} {m : M}

/-- The rule of invariants. -/
theorem Runs.invariant (runs : Runs next allowed s s') (invariant : S → Prop) (start : invariant s)
    (keeps : ∀ s m s', invariant s → allowed s m → next s m = some s' → invariant s') : invariant s' := by
  induction runs with
  | refl => exact start
  | step _ fine moved ih => exact keeps _ _ _ ih fine moved

/-- Where each allowed move succeeds and keeps the invariant, what it keeps holds at the end. -/
theorem Runs.served (runs : Runs next allowed s s') (invariant : S → Prop) (start : invariant s)
    (serves : ∀ {s m}, invariant s → allowed s m → ∃ s', next s m = some s' ∧ invariant s') : invariant s' := by
  refine runs.invariant invariant start ?_
  intro s m s' here fine moved
  obtain ⟨after,ran,there⟩ := serves here fine
  rw [moved] at ran
  cases ran
  exact there

theorem Runs.trans (first : Runs next allowed s s') (second : Runs next allowed s' s'') : Runs next allowed s s'' := by
  induction second with
  | refl => exact first
  | step _ fine moved ih => exact .step ih fine moved

/-- Allowed moves in a row lead from one state to another. -/
def Along (next : S → M → Option S) (allowed : S → M → Prop) : S → List M → S → Prop
  | s, [], s'' => s = s''
  | s, m :: rest, s'' => allowed s m ∧ ∃ s', next s m = some s' ∧ Along next allowed s' rest s''

theorem runs_of_along : ∀ {moves : List M} {s s' : S}, Along next allowed s moves s' → Runs next allowed s s'
  | [], _, _, rfl => .refl
  | _ :: _, _, _, ⟨fine,_,moved,later⟩ => (Runs.step .refl fine moved).trans (runs_of_along later)

/-- Moves in a row, as long as they are allowed. -/
def follow (next : S → M → Option S) (allowed : S → M → Prop) [∀ s m, Decidable (allowed s m)] : S → List M → Option S
  | s, [] => some s
  | s, m :: rest => if allowed s m then (next s m).bind (fun s' => follow next allowed s' rest) else none

theorem runs_of_follow [∀ s m, Decidable (allowed s m)] : ∀ {moves : List M} {s s' : S},
    follow next allowed s moves = some s' → Runs next allowed s s'
  | [], s, s', followed => by
    cases followed
    exact .refl
  | m :: rest, s, s', followed => by
    rw [follow] at followed
    split_ifs at followed with fine
    obtain ⟨s₁,moved,later⟩ := Option.bind_eq_some_iff.mp followed
    exact (Runs.step .refl fine moved).trans (runs_of_follow later)

/-! ### Parties in a row -/

/-- The party at a place, and what replacing it does. -/
theorem exists_place {A : Type*} {l : List A} {i : Nat} {a : A} (here : l[i]? = some a) :
    ∃ before after, l = before ++ a :: after ∧ ∀ b, l.set i b = before ++ b :: after := by
  obtain ⟨inside,rfl⟩ := List.getElem?_eq_some_iff.mp here
  refine ⟨l.take i,l.drop (i + 1),?_,fun b => ?_⟩
  · simp
  · rw [List.set_eq_take_append_cons_drop,if_pos inside]

end Aether.Runs
