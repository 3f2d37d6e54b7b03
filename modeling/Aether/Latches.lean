import Aether.Runs
import Aether.Simulations
import Mathlib.Data.Finset.Max
import Mathlib.Algebra.BigOperators.Group.List.Basic
import Mathlib.Logic.Hydra
import Mathlib.Tactic.Abel
import Mathlib.Tactic.Common

/-!
Threads that share a state and take latches. The code of a method is a sequence of
accesses to the state, between which other threads may run, and latches are held from
one point of it to another. Where latches are nested in one order, no threads wait for
each other, and every call returns whatever the order in which the threads run.
-/
namespace Aether.Latches
open Aether.Simulations Aether.Runs

/-! ### Code -/

/-- What a method does, step by step, with latches `L` on a state `S`. -/
inductive Code (L S α : Type) : Type 1
  | ret (value : α)
  | act {β : Type} (f : S → β × S) (next : β → Code L S α)
  | lock (l : L) (next : Code L S α)
  | unlock (l : L) (next : Code L S α)

namespace Code
variable {L S α β : Type}

def bind : Code L S α → (α → Code L S β) → Code L S β
  | ret value, then' => then' value
  | act f next, then' => act f (fun b => (next b).bind then')
  | lock l next, then' => lock l (next.bind then')
  | unlock l next, then' => unlock l (next.bind then')

instance : Monad (Code L S) where
  pure := ret
  bind := bind

def get (f : S → β) : Code L S β := act (fun s => (f s,s)) ret

def modify (f : S → S) : Code L S Unit := act (fun s => ((),f s)) ret

/-- A scope in which the latch is held. -/
def guarded (l : L) (body : Code L S α) : Code L S α := lock l (body.bind (fun value => unlock l (ret value)))

/-- What the code does when no other thread runs. -/
def run : Code L S α → S → α × S
  | ret value, s => (value,s)
  | act f next, s => run (next (f s).1) (f s).2
  | lock _ next, s => run next s
  | unlock _ next, s => run next s

theorem run_bind (code : Code L S α) (then' : α → Code L S β) (s : S) :
    (code.bind then').run s = (then' (code.run s).1).run (code.run s).2 := by
  induction code generalizing s with
  | ret value => rfl
  | act f next ih => exact ih (f s).1 (f s).2
  | lock l next ih => exact ih s
  | unlock l next ih => exact ih s

@[simp] theorem run_pure (value : α) (s : S) : (pure value : Code L S α).run s = (value,s) := rfl

@[simp] theorem run_then (code : Code L S α) (then' : α → Code L S β) (s : S) :
    (code >>= then').run s = (then' (code.run s).1).run (code.run s).2 := run_bind code then' s

@[simp] theorem run_get (f : S → β) (s : S) : (get f : Code L S β).run s = (f s,s) := rfl

@[simp] theorem run_modify (f : S → S) (s : S) : (modify f : Code L S Unit).run s = ((),f s) := rfl

@[simp] theorem run_guarded (l : L) (body : Code L S α) (s : S) : (guarded l body).run s = body.run s := by
  rw [guarded,run,run_bind]
  rfl

/-- Latches of a least rank are taken in the order of their ranks, and given back in the
    reverse order, by code that has taken some of them. -/
def Nested (rank : L → Nat) (least : Nat) : Code L S α → List L → Prop
  | ret _, held => held = []
  | act _ next, held => ∀ b, (next b).Nested rank least held
  | lock l next, held => least ≤ rank l ∧ (∀ l' ∈ held, rank l' < rank l) ∧ next.Nested rank least (l :: held)
  | unlock l next, held => ∃ rest, held = l :: rest ∧ next.Nested rank least rest

section
variable {rank : L → Nat} {least : Nat} {l : L} {held : List L}

theorem nested_bind {code : Code L S α} {then' : α → Code L S β} (nested : code.Nested rank least held)
    (others : ∀ value, (then' value).Nested rank least []) : (code.bind then').Nested rank least held := by
  induction code generalizing held with
  | ret value =>
    obtain rfl := nested
    exact others value
  | act f next ih => exact fun b => ih b (nested b)
  | lock l next ih => exact ⟨nested.1,nested.2.1,ih nested.2.2⟩
  | unlock l next ih =>
    obtain ⟨rest,rfl,nested⟩ := nested
    exact ⟨rest,rfl,ih nested⟩

theorem nested_then {code : Code L S α} {then' : α → Code L S β} (nested : code.Nested rank least [])
    (others : ∀ value, (then' value).Nested rank least []) : (code >>= then').Nested rank least [] := nested_bind nested others

theorem nested_scope {body : Code L S α} (low : least ≤ rank l) (nested : body.Nested rank (rank l + 1) held)
    (above : ∀ l' ∈ held, rank l < rank l') :
    (body.bind (fun value => unlock l (ret value))).Nested rank least (held ++ [l]) := by
  induction body generalizing held with
  | ret value =>
    obtain rfl := nested
    exact ⟨[],rfl,rfl⟩
  | act f next ih => exact fun b => ih b (nested b) above
  | lock l' next ih =>
    obtain ⟨high,order,nested⟩ := nested
    refine ⟨by omega,fun l'' member => ?_,ih nested (fun l'' member => ?_)⟩
    · rcases List.mem_append.mp member with inside | outer
      · exact order l'' inside
      · rw [List.mem_singleton.mp outer]
        omega
    · rcases List.mem_cons.mp member with rfl | inside
      · omega
      · exact above l'' inside
  | unlock l' next ih =>
    obtain ⟨rest,rfl,nested⟩ := nested
    exact ⟨rest ++ [l],rfl,ih nested (fun l'' member => above l'' (List.mem_cons_of_mem l' member))⟩

/-- Scopes are nested in the order of their latches. -/
theorem nested_guarded {body : Code L S α} (low : least ≤ rank l) (nested : body.Nested rank (rank l + 1) []) :
    (guarded l body).Nested rank least [] := by
  refine ⟨low,fun l' member => absurd member List.not_mem_nil,?_⟩
  exact nested_scope low nested (fun l' member => absurd member List.not_mem_nil)

end

/-- What is left of some code after a step. -/
inductive Below : Code L S α → Code L S α → Prop
  | act {β : Type} {f : S → β × S} {next : β → Code L S α} {b} : Below (next b) (act f next)
  | lock {l next} : Below next (lock l next)
  | unlock {l next} : Below next (unlock l next)

theorem below_wellFounded : WellFounded (Below : Code L S α → Code L S α → Prop) := by
  refine ⟨fun code => ?_⟩
  induction code with
  | ret value => exact ⟨_,fun rest below => by cases below⟩
  | act f next ih =>
    refine ⟨_,fun rest below => ?_⟩
    cases below with
    | act => exact ih _
  | lock l next ih =>
    refine ⟨_,fun rest below => ?_⟩
    cases below with
    | lock => exact ih
  | unlock l next ih =>
    refine ⟨_,fun rest below => ?_⟩
    cases below with
    | unlock => exact ih

end Code

/-! ### Threads -/

/-- What can be seen of the threads. -/
inductive Event (Call Answer : Type)
  | call (thread : Nat) (call : Call)
  | answer (thread : Nat) (call : Call) (answer : Answer)

inductive Thread (L S Call Answer : Type) : Type 1
  | idle
  | running (call : Call) (rest : Code L S Answer)

/-- The shared state, and which thread holds a latch. -/
structure Machine (L S Call Answer : Type) : Type 1 where
  shared : S
  owner : L → Option Nat
  threads : List (Thread L S Call Answer)

section
variable {L S Call Answer : Type} [DecidableEq L] {method : Call → Code L S Answer}

/-- A latch is taken when no thread holds it, not even the same one. -/
inductive Step (method : Call → Code L S Answer) (m : Machine L S Call Answer) :
    Option (Event Call Answer) → Machine L S Call Answer → Prop
  | call {i c} : m.threads[i]? = some .idle → Step method m (some (.call i c)) { m with threads := m.threads.set i (.running c (method c)) }
  | act {i c} {β : Type} {f : S → β × S} {next} : m.threads[i]? = some (.running c (.act f next)) →
      Step method m none { m with shared := (f m.shared).2, threads := m.threads.set i (.running c (next (f m.shared).1)) }
  | lock {i c l next} : m.threads[i]? = some (.running c (.lock l next)) → m.owner l = none →
      Step method m none { m with owner := Function.update m.owner l (some i), threads := m.threads.set i (.running c next) }
  | unlock {i c l next} : m.threads[i]? = some (.running c (.unlock l next)) → m.owner l = some i →
      Step method m none { m with owner := Function.update m.owner l none, threads := m.threads.set i (.running c next) }
  | answer {i c a} : m.threads[i]? = some (.running c (.ret a)) →
      Step method m (some (.answer i c a)) { m with threads := m.threads.set i .idle }

/-- So many threads, none of which has been called. -/
def threads (method : Call → Code L S Answer) (n : Nat) (s : S) : System (Event Call Answer) where
  State := Machine L S Call Answer
  start m := m = { shared := s, owner := fun _ => none, threads := List.replicate n .idle }
  step := Step method

/-- A step of a call that is being served. -/
def Serves (method : Call → Code L S Answer) (m m' : Machine L S Call Answer) : Prop :=
  Step method m none m' ∨ ∃ i c a, Step method m (some (.answer i c a)) m'

/-! ### Calls return -/

/-- The code that is left of a call. -/
def Thread.codes : Thread L S Call Answer → Multiset (Code L S Answer)
  | .idle => 0
  | .running _ rest => {rest}

/-- All the code that is left. -/
def codes (threads : List (Thread L S Call Answer)) : Multiset (Code L S Answer) := (threads.map Thread.codes).sum

theorem codes_set {threads : List (Thread L S Call Answer)} {i : Nat} {c : Call} {code : Code L S Answer} {t : Thread L S Call Answer}
    (here : threads[i]? = some (.running c code)) (less : ∀ rest ∈ t.codes, Code.Below rest code) :
    Relation.CutExpand Code.Below (codes (threads.set i t)) (codes threads) := by
  obtain ⟨before,after,split,set⟩ := exists_place here
  refine ⟨t.codes,code,less,?_⟩
  rw [set,split]
  simp only [codes,List.map_append,List.map_cons,List.sum_append,List.sum_cons,Thread.codes]
  abel

/-- However the threads run, they do not run forever without a new call. -/
theorem serves_wellFounded : WellFounded (fun m' m => Serves method m m') := by
  refine Subrelation.wf (r := InvImage (Relation.CutExpand Code.Below) (fun m => codes m.threads)) ?_
    (InvImage.wf _ Code.below_wellFounded.cutExpand)
  rintro m' m (step | ⟨i,c,a,step⟩)
  · cases step with
    | act here => exact codes_set here (fun rest member => Multiset.mem_singleton.mp member ▸ .act)
    | lock here _ => exact codes_set here (fun rest member => Multiset.mem_singleton.mp member ▸ .lock)
    | unlock here _ => exact codes_set here (fun rest member => Multiset.mem_singleton.mp member ▸ .unlock)
  · cases step with
    | answer here => exact codes_set here (fun rest member => absurd member (Multiset.notMem_zero rest))

/-! ### No threads wait for each other -/

variable {rank : L → Nat} {m m' : Machine L S Call Answer} {label : Option (Event Call Answer)}

/-- Which latches a thread holds, the last one taken first. -/
structure Held (rank : L → Nat) (m : Machine L S Call Answer) (held : Nat → List L) : Prop where
  nested : ∀ i c rest, m.threads[i]? = some (Thread.running c rest) → rest.Nested rank 0 (held i)
  running : ∀ i l, l ∈ held i → ∃ c rest, m.threads[i]? = some (Thread.running c rest)
  owner : ∀ i l, m.owner l = some i ↔ l ∈ held i
  distinct : ∀ i, (held i).Nodup

/-- One thread takes a step, and holds other latches after it. -/
theorem Held.set {held : Nat → List L} {i : Nat} {t : Thread L S Call Answer} (latches : List L) {owner : L → Option Nat} {shared : S}
    (held' : Held rank m held) (inside : i < m.threads.length)
    (nested : ∀ c rest, t = Thread.running c rest → rest.Nested rank 0 latches) (running : latches ≠ [] → ∃ c rest, t = .running c rest)
    (mine : ∀ l, owner l = some i ↔ l ∈ latches) (others : ∀ j l, j ≠ i → (owner l = some j ↔ m.owner l = some j))
    (distinct : latches.Nodup) :
    Held rank { shared, owner, threads := m.threads.set i t } (Function.update held i latches) := by
  refine ⟨fun j c rest there => ?_,fun j l member => ?_,fun j l => ?_,fun j => ?_⟩
  · rw [List.getElem?_set] at there
    by_cases same : i = j
    · subst same
      rw [if_pos rfl,if_pos inside] at there
      rw [Function.update_self]
      exact nested c rest (Option.some.inj there)
    · rw [if_neg same] at there
      rw [Function.update_of_ne (Ne.symm same)]
      exact held'.nested j c rest there
  · by_cases same : j = i
    · subst same
      rw [Function.update_self] at member
      obtain ⟨c,rest,rfl⟩ := running (List.ne_nil_of_mem member)
      exact ⟨c,rest,List.getElem?_set_self inside⟩
    · rw [Function.update_of_ne same] at member
      obtain ⟨c,rest,there⟩ := held'.running j l member
      exact ⟨c,rest,by rw [List.getElem?_set_ne (Ne.symm same)]; exact there⟩
  · by_cases same : j = i
    · subst same
      rw [Function.update_self]
      exact mine l
    · rw [Function.update_of_ne same]
      exact (others j l same).trans (held'.owner j l)
  · by_cases same : j = i
    · subst same
      rw [Function.update_self]
      exact distinct
    · rw [Function.update_of_ne same]
      exact held'.distinct j

theorem step_held {held : Nat → List L} (held' : Held rank m held) (nested : ∀ c, (method c).Nested rank 0 [])
    (step : Step method m label m') : ∃ held, Held rank m' held := by
  cases step with
  | @call i c here =>
    have inside := (List.getElem?_eq_some_iff.mp here).1
    have nothing : held i = [] := by
      rw [List.eq_nil_iff_forall_not_mem]
      intro l member
      obtain ⟨_,_,there⟩ := held'.running i l member
      rw [here] at there
      cases there
    refine ⟨_,held'.set [] inside ?_ (fun some' => absurd rfl some') ?_ (fun _ _ _ => Iff.rfl) List.nodup_nil⟩
    · rintro _ _ ⟨⟩
      exact nested c
    · intro l
      rw [held'.owner i l,nothing]
  | @act i c β f next here =>
    have inside := (List.getElem?_eq_some_iff.mp here).1
    have before := held'.nested i c _ here
    refine ⟨_,held'.set (held i) inside ?_ (fun _ => ⟨_,_,rfl⟩) (held'.owner i) (fun _ _ _ => Iff.rfl) (held'.distinct i)⟩
    rintro _ _ ⟨⟩
    exact before _
  | @lock i c l next here free =>
    have inside := (List.getElem?_eq_some_iff.mp here).1
    obtain ⟨_,_,after⟩ := held'.nested i c _ here
    have fresh : l ∉ held i := fun member => by
      rw [← held'.owner i l,free] at member
      cases member
    refine ⟨_,held'.set (l :: held i) inside ?_ (fun _ => ⟨_,_,rfl⟩) (fun l' => ?_) (fun j l' other => ?_)
      (List.nodup_cons.mpr ⟨fresh,held'.distinct i⟩)⟩
    · rintro _ _ ⟨⟩
      exact after
    · by_cases same : l' = l
      · subst same
        simp
      · rw [Function.update_of_ne same,held'.owner i l',List.mem_cons,or_iff_right same]
    · by_cases same : l' = l
      · subst same
        rw [Function.update_self,free]
        simp [Ne.symm other]
      · rw [Function.update_of_ne same]
  | @unlock i c l next here mine =>
    have inside := (List.getElem?_eq_some_iff.mp here).1
    obtain ⟨rest,taken,after⟩ := held'.nested i c _ here
    have distinct := held'.distinct i
    rw [taken] at distinct
    obtain ⟨once,distinct⟩ := List.nodup_cons.mp distinct
    refine ⟨_,held'.set rest inside ?_ (fun _ => ⟨_,_,rfl⟩) (fun l' => ?_) (fun j l' other => ?_) distinct⟩
    · rintro _ _ ⟨⟩
      exact after
    · by_cases same : l' = l
      · subst same
        simp [once]
      · rw [Function.update_of_ne same,held'.owner i l',taken,List.mem_cons,or_iff_right same]
    · by_cases same : l' = l
      · subst same
        rw [Function.update_self,mine]
        simp [Ne.symm other]
      · rw [Function.update_of_ne same]
  | @answer i c a here =>
    have inside := (List.getElem?_eq_some_iff.mp here).1
    have nothing : held i = [] := held'.nested i c _ here
    refine ⟨_,held'.set [] inside (fun _ _ impossible => by cases impossible) (fun some' => absurd rfl some') ?_
      (fun _ _ _ => Iff.rfl) List.nodup_nil⟩
    intro l
    rw [held'.owner i l,nothing]

/-- The latches are held as the code says in every state. -/
theorem reached_held {n : Nat} {s : S} {seen : List (Event Call Answer)} (nested : ∀ c, (method c).Nested rank 0 [])
    (shows : (threads method n s).Shows { shared := s, owner := fun _ => none, threads := List.replicate n .idle } seen m) :
    ∃ held, Held rank m held := by
  refine shows.invariant (fun m => ∃ held, Held rank m held) ⟨fun _ => [],?_⟩ ?_
  · refine ⟨fun i c rest there => ?_,fun i l member => absurd member List.not_mem_nil,fun i l => by simp,fun _ => List.nodup_nil⟩
    have member := List.mem_of_getElem? there
    rw [List.mem_replicate] at member
    cases member.2
  · rintro m₁ label m₂ ⟨held,held'⟩ step
    exact step_held held' nested step

/-- The latch that a thread is about to take. -/
def Waits (m : Machine L S Call Answer) (i : Nat) (l : L) : Prop := ∃ c next, m.threads[i]? = some (.running c (.lock l next))

/-- Without a step, every call waits for a latch that another call holds. -/
theorem waits_of_stuck {held : Nat → List L} (held' : Held rank m held) (stuck : ∀ m', ¬ Serves method m m') {i : Nat} {c : Call}
    {rest : Code L S Answer} (here : m.threads[i]? = some (.running c rest)) : ∃ l, Waits m i l ∧ ∃ j, l ∈ held j := by
  cases rest with
  | ret a => exact absurd (.inr ⟨i,c,a,.answer here⟩) (stuck _)
  | act f next => exact absurd (.inl (.act here)) (stuck _)
  | lock l next =>
    cases owned : m.owner l with
    | none => exact absurd (.inl (.lock here owned)) (stuck _)
    | some j => exact ⟨l,⟨c,next,here⟩,j,(held'.owner j l).mp owned⟩
  | unlock l next =>
    obtain ⟨_,taken,_⟩ := held'.nested i c _ here
    have mine := (held'.owner i l).mpr (taken ▸ List.mem_cons_self)
    exact absurd (.inl (.unlock here mine)) (stuck _)

/-- The latches that calls would wait for have ever higher ranks. -/
theorem waits_higher {held : Nat → List L} (held' : Held rank m held) (stuck : ∀ m', ¬ Serves method m m') {i : Nat} {l : L}
    (waits : Waits m i l) : ∃ j l', Waits m j l' ∧ rank l < rank l' := by
  obtain ⟨c,next,here⟩ := waits
  obtain ⟨l,⟨_,_,here'⟩,j,holds⟩ := waits_of_stuck held' stuck here
  rw [here] at here'
  cases here'
  obtain ⟨c',rest,there⟩ := held'.running j l holds
  obtain ⟨l',⟨c'',next',there'⟩,_⟩ := waits_of_stuck held' stuck there
  have nested := held'.nested j c'' _ there'
  exact ⟨j,l',⟨c'',next',there'⟩,nested.2.1 l holds⟩

/-- While a call is being served, some thread can take a step. -/
theorem idle_of_stuck {held : Nat → List L} (held' : Held rank m held) (stuck : ∀ m', ¬ Serves method m m') :
    ∀ t ∈ m.threads, t = .idle := by
  -- only finitely many threads wait, so one waits for a latch of the highest rank
  have bounded : ∃ bound, ∀ i l, Waits m i l → rank l ≤ bound := by
    let rankOf : Thread L S Call Answer → Nat := fun t => match t with
      | .running _ (.lock l _) => rank l
      | _ => 0
    refine ⟨(m.threads.map rankOf).sum,fun i l => ?_⟩
    rintro ⟨c,next,here⟩
    exact List.single_le_sum (fun _ _ => Nat.zero_le _) _ (List.mem_map.mpr ⟨_,List.mem_of_getElem? here,rfl⟩)
  obtain ⟨bound,bounded⟩ := bounded
  have none' : ∀ k i l, Waits m i l → bound < rank l + k → False := by
    intro k
    induction k with
    | zero => exact fun i l waits high => absurd (bounded i l waits) (by omega)
    | succ k ih =>
      intro i l waits high
      obtain ⟨j,l',waits',higher⟩ := waits_higher held' stuck waits
      exact ih j l' waits' (by omega)
  intro t member
  cases t with
  | idle => rfl
  | running c rest =>
    obtain ⟨i,here⟩ := List.mem_iff_getElem?.mp member
    obtain ⟨l,waits,_⟩ := waits_of_stuck held' stuck here
    exact (none' (bound + 1) i l waits (by omega)).elim

/-- Where latches are nested in one order, every call returns: there is no endless run
    without a new call, and a run ends only when no call is being served. -/
theorem calls_return {n : Nat} {s : S} {seen : List (Event Call Answer)} (nested : ∀ c, (method c).Nested rank 0 [])
    (shows : (threads method n s).Shows { shared := s, owner := fun _ => none, threads := List.replicate n .idle } seen m) :
    Acc (fun m' m => Serves method m m') m ∧ ((∀ m', ¬ Serves method m m') → ∀ t ∈ m.threads, t = .idle) := by
  obtain ⟨held,held'⟩ := reached_held nested shows
  exact ⟨serves_wellFounded.apply m,idle_of_stuck held'⟩

end
end Aether.Latches
