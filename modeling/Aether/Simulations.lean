import Mathlib.Data.List.Basic

/-!
Systems whose steps can be seen from outside or are silent, and simulations between
them: where every step of one system is matched by steps of another that look the
same, every history of the first is one of the second.
-/
namespace Aether.Simulations
universe u v

/-- A step has a label if it can be seen. -/
structure System (Label : Type) where
  State : Type u
  start : State → Prop
  step : State → Option Label → State → Prop

section
variable {Label : Type} {C : System.{u} Label} {A : System.{v} Label} {seen seen' : List Label} {label : Label}

/-- What can be seen of steps in a row. -/
inductive System.Shows (C : System.{u} Label) (s : C.State) : List Label → C.State → Prop
  | refl : Shows C s [] s
  | silent {seen s' s''} : Shows C s seen s' → C.step s' none s'' → Shows C s seen s''
  | visible {seen s' label s''} : Shows C s seen s' → C.step s' (some label) s'' → Shows C s (seen ++ [label]) s''

/-- What can be seen of a run from the start. -/
def System.History (C : System.{u} Label) (seen : List Label) : Prop := ∃ s s', C.start s ∧ C.Shows s seen s'

theorem System.Shows.trans {s s' s'' : C.State} (first : C.Shows s seen s') (second : C.Shows s' seen' s'') :
    C.Shows s (seen ++ seen') s'' := by
  induction second with
  | refl => rw [List.append_nil]; exact first
  | silent _ moved ih => exact .silent ih moved
  | visible _ moved ih => rw [← List.append_assoc]; exact .visible ih moved

/-- The rule of invariants. -/
theorem System.Shows.invariant {s s' : C.State} (shows : C.Shows s seen s') (invariant : C.State → Prop) (start : invariant s)
    (keeps : ∀ s label s', invariant s → C.step s label s' → invariant s') : invariant s' := by
  induction shows with
  | refl => exact start
  | silent _ moved ih => exact keeps _ _ _ ih moved
  | visible _ moved ih => exact keeps _ _ _ ih moved

/-- Related states stay related while the second system does what can be seen of the first. -/
structure Simulates (C : System.{u} Label) (A : System.{v} Label) (related : C.State → A.State → Prop) : Prop where
  start : ∀ c, C.start c → ∃ a, A.start a ∧ related c a
  silent : ∀ c a c', related c a → C.step c none c' → ∃ a', A.Shows a [] a' ∧ related c' a'
  visible : ∀ c a label c', related c a → C.step c (some label) c' → ∃ a', A.Shows a [label] a' ∧ related c' a'

variable {related : C.State → A.State → Prop}

/-- A run of the first system is followed by one of the second. -/
theorem Simulates.shows (simulates : Simulates C A related) {c c' : C.State} {a : A.State} (here : related c a)
    (shows : C.Shows c seen c') : ∃ a', A.Shows a seen a' ∧ related c' a' := by
  induction shows with
  | refl => exact ⟨a,.refl,here⟩
  | silent _ moved ih =>
    obtain ⟨a₁,before,there⟩ := ih
    obtain ⟨a₂,after,end'⟩ := simulates.silent _ a₁ _ there moved
    exact ⟨a₂,by simpa using before.trans after,end'⟩
  | visible _ moved ih =>
    obtain ⟨a₁,before,there⟩ := ih
    obtain ⟨a₂,after,end'⟩ := simulates.visible _ a₁ _ _ there moved
    exact ⟨a₂,before.trans after,end'⟩

/-- The rule of simulations. -/
theorem Simulates.history (simulates : Simulates C A related) (history : C.History seen) : A.History seen := by
  obtain ⟨c,c',start,shows⟩ := history
  obtain ⟨a,start',here⟩ := simulates.start c start
  obtain ⟨a',shows',_⟩ := simulates.shows here shows
  exact ⟨a,a',start',shows'⟩

end
end Aether.Simulations
