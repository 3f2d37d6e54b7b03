import Mathlib.Logic.Basic

/-!
Stateful computations side by side. Two computations agree when from related states
they return the same value and end in related states, where the relation at the end
may depend on the value. Agreement is proved along the sequence of their steps.
-/
namespace Aether.Agreement

variable {S T α β : Type}

/-- From states related before, both return the same value and end in states related after. -/
def Agree (before : S → T → Prop) (m : StateM S α) (m' : StateM T α) (after : α → S → T → Prop) : Prop :=
  ∀ s t, before s t → (m s).1 = (m' t).1 ∧ after (m s).1 (m s).2 (m' t).2

variable {before before' : S → T → Prop} {m : StateM S α} {m' : StateM T α} {middle after : α → S → T → Prop}
variable {next : α → StateM S β} {next' : α → StateM T β} {last : β → S → T → Prop}

theorem agree_pure {value : α} (weaker : ∀ s t, before s t → after value s t) : Agree before (pure value) (pure value) after := by
  intro s t here
  exact ⟨rfl,weaker s t here⟩

/-- A sequence goes on from the state that its first step leads to. -/
theorem bind_of {s s' : S} {value : α} (ran : m s = (value,s')) : (m >>= next) s = next value s' := by
  show next (m s).1 (m s).2 = next value s'
  rw [ran]

/-- The rule of sequences. -/
theorem Agree.bind (first : Agree before m m' middle) (later : ∀ value, Agree (middle value) (next value) (next' value) last) :
    Agree before (m >>= next) (m' >>= next') last := by
  intro s t here
  obtain ⟨same,there⟩ := first s t here
  show (next (m s).1 (m s).2).1 = (next' (m' t).1 (m' t).2).1 ∧
    last (next (m s).1 (m s).2).1 (next (m s).1 (m s).2).2 (next' (m' t).1 (m' t).2).2
  rw [← same]
  exact later (m s).1 _ _ there

/-- The rule of consequence. -/
theorem Agree.mono (agree : Agree before m m' middle) (stronger : ∀ s t, before' s t → before s t)
    (weaker : ∀ value s t, middle value s t → after value s t) : Agree before' m m' after := by
  intro s t here
  obtain ⟨same,there⟩ := agree s t (stronger s t here)
  exact ⟨same,weaker _ _ _ there⟩

end Aether.Agreement
