import Aether.Latches

/-!
Objects whose methods hold one latch from the first step to the last. However the steps
of the threads interleave, what can be seen of them could be seen of an object that does
each call at one moment between its start and its return.
-/
namespace Aether.Monitors
open Aether.Simulations Aether.Runs Aether.Latches Aether.Latches.Code

/-! ### Atomic objects -/

/-- Where a thread is with its call. -/
inductive Phase (Call Answer : Type)
  | idle
  | called (call : Call)
  | done (call : Call) (answer : Answer)

structure Object (S Call Answer : Type) where
  state : S
  clients : List (Phase Call Answer)

section
variable {L S Call Answer : Type}

inductive Object.Step (perform : Call → S → Answer × S) (o : Object S Call Answer) :
    Option (Event Call Answer) → Object S Call Answer → Prop
  | call {i c} : o.clients[i]? = some .idle → Step perform o (some (.call i c)) { o with clients := o.clients.set i (.called c) }
  | perform {i c} : o.clients[i]? = some (.called c) →
      Step perform o none { state := (perform c o.state).2, clients := o.clients.set i (.done c (perform c o.state).1) }
  | answer {i c a} : o.clients[i]? = some (.done c a) → Step perform o (some (.answer i c a)) { o with clients := o.clients.set i .idle }

/-- An object with so many threads that use it. -/
def object (perform : Call → S → Answer × S) (n : Nat) (s : S) : System (Event Call Answer) where
  State := Object S Call Answer
  start o := o = { state := s, clients := List.replicate n .idle }
  step := Object.Step perform

/-! ### Threads in a monitor -/

/-- The end of a scope. -/
def leave (latch : L) (body : Code L S Answer) : Code L S Answer := body.bind (fun value => .unlock latch (.ret value))

/-- A thread and what the object has done for it: the call is done when the latch is taken. -/
inductive Matches (rank : L → Nat) (latch : L) (body : Call → Code L S Answer) (owner : Option Nat) (shared state : S) (i : Nat) :
    Thread L S Call Answer → Phase Call Answer → Prop
  | idle : owner ≠ some i → Matches rank latch body owner shared state i .idle .idle
  | before {c} : owner ≠ some i → Matches rank latch body owner shared state i (.running c (.lock latch (leave latch (body c)))) (.called c)
  | inside {c held} (rest : Code L S Answer) : owner = some i → rest.Nested rank (rank latch + 1) held → (∀ l ∈ held, l ≠ latch) →
      state = (rest.run shared).2 →
      Matches rank latch body owner shared state i (.running c (leave latch rest)) (.done c (rest.run shared).1)
  | after {c a} : owner ≠ some i → Matches rank latch body owner shared state i (.running c (.ret a)) (.done c a)

variable [DecidableEq L] {rank : L → Nat} {latch : L} {body : Call → Code L S Answer} {perform : Call → S → Answer × S}
variable {m m' : Machine L S Call Answer} {o o' : Object S Call Answer} {i j : Nat} {t : Thread L S Call Answer} {ph : Phase Call Answer}

/-- The threads match what the object has done, whose state is the shared one while the
    latch is free. -/
structure Related (rank : L → Nat) (latch : L) (body : Call → Code L S Answer) (m : Machine L S Call Answer) (o : Object S Call Answer) :
    Prop where
  length : o.clients.length = m.threads.length
  threads : ∀ i t, m.threads[i]? = some t →
    ∃ ph, o.clients[i]? = some ph ∧ Matches rank latch body (m.owner latch) m.shared o.state i t ph
  free : m.owner latch = none → o.state = m.shared

/-- A thread outside does not see what happens inside. -/
theorem Matches.outside {owner owner' : Option Nat} {shared shared' state state' : S}
    (matched : Matches rank latch body owner shared state i t ph) (out : owner ≠ some i) (out' : owner' ≠ some i) :
    Matches rank latch body owner' shared' state' i t ph := by
  cases matched with
  | idle => exact .idle out'
  | before => exact .before out'
  | inside rest own => exact absurd own out
  | after => exact .after out'

/-- One thread takes a step while the others are outside, or it leaves the shared state alone. -/
theorem Related.set {owner : L → Option Nat} {shared state : S} (related : Related rank latch body m o) (inside : i < m.threads.length)
    (mine : Matches rank latch body (owner latch) shared state i t ph)
    (others : ∀ j, j ≠ i → (m.owner latch ≠ some j ∧ owner latch ≠ some j) ∨
      (owner latch = m.owner latch ∧ shared = m.shared ∧ state = o.state))
    (free : owner latch = none → state = shared) :
    Related rank latch body { shared, owner, threads := m.threads.set i t } { state, clients := o.clients.set i ph } := by
  refine ⟨by simp [related.length],fun j t' there => ?_,free⟩
  by_cases same : i = j
  · subst same
    rw [List.getElem?_set_self inside] at there
    cases there
    exact ⟨ph,List.getElem?_set_self (related.length ▸ inside),mine⟩
  · rw [List.getElem?_set_ne same] at there
    obtain ⟨ph',here,matched⟩ := related.threads j t' there
    refine ⟨ph',by rw [List.getElem?_set_ne same]; exact here,?_⟩
    rcases others j (Ne.symm same) with ⟨out,out'⟩ | ⟨owned,rfl,rfl⟩
    · exact matched.outside out out'
    · show Matches rank latch body (owner latch) m.shared o.state j t' ph'
      rw [owned]
      exact matched

theorem set_same {A : Type*} {l : List A} {a : A} (here : l[i]? = some a) : l.set i a = l := by
  obtain ⟨before,after,split,set⟩ := exists_place here
  rw [set,← split]

/-- The thread that holds the latch takes a step inside. -/
theorem Related.advance {owner : L → Option Nat} {shared : S} {c : Call} {rest rest' : Code L S Answer} {held : List L}
    (related : Related rank latch body m o) (here : m.threads[i]? = some t) (there : o.clients[i]? = some (.done c (rest.run m.shared).1))
    (own : m.owner latch = some i) (own' : owner latch = some i) (nested : rest'.Nested rank (rank latch + 1) held)
    (apart : ∀ l ∈ held, l ≠ latch) (state : o.state = (rest.run m.shared).2) (run : rest'.run shared = rest.run m.shared) :
    Related rank latch body { shared, owner, threads := m.threads.set i (.running c (leave latch rest')) } o := by
  have mine : Matches rank latch body (owner latch) shared o.state i (.running c (leave latch rest')) (.done c (rest.run m.shared).1) := by
    rw [← run]
    exact .inside rest' own' nested apart (by rw [run]; exact state)
  have set := related.set (List.getElem?_eq_some_iff.mp here).1 mine (fun j other => .inl ⟨?_,?_⟩) (fun none => by rw [own'] at none; cases none)
  · rw [set_same there] at set
    exact set
  · rw [own]
    exact fun same => other (Option.some.inj same).symm
  · rw [own']
    exact fun same => other (Option.some.inj same).symm

/-- Where a thread is that serves a call. -/
theorem Matches.cases {owner : Option Nat} {shared state : S} {c : Call} {code : Code L S Answer}
    (matched : Matches rank latch body owner shared state i (.running c code) ph) :
    (owner ≠ some i ∧ code = .lock latch (leave latch (body c)) ∧ ph = .called c) ∨
    (∃ rest held, owner = some i ∧ code = leave latch rest ∧ rest.Nested rank (rank latch + 1) held ∧ (∀ l ∈ held, l ≠ latch) ∧
      state = (rest.run shared).2 ∧ ph = .done c (rest.run shared).1) ∨
    ∃ a, owner ≠ some i ∧ code = .ret a ∧ ph = .done c a := by
  generalize same : Thread.running c code = t at matched
  cases matched with
  | idle => cases same
  | before out =>
    cases same
    exact .inl ⟨out,rfl,rfl⟩
  | inside rest own nested apart state =>
    cases same
    exact .inr (.inl ⟨rest,_,own,rfl,nested,apart,state,rfl⟩)
  | after out =>
    cases same
    exact .inr (.inr ⟨_,out,rfl,rfl⟩)

variable {c : Call} {l : L} {next : Code L S Answer}

/-- The shared state is used inside only. -/
theorem act_followed {β : Type} {f : S → β × S} {next : β → Code L S Answer} (related : Related rank latch body m o)
    (here : m.threads[i]? = some (.running c (.act f next))) :
    Related rank latch body { m with shared := (f m.shared).2, threads := m.threads.set i (.running c (next (f m.shared).1)) } o := by
  obtain ⟨ph,there,matched⟩ := related.threads i _ here
  rcases matched.cases with ⟨_,before,_⟩ | ⟨rest,held,own,inside,nested,apart,state,rfl⟩ | ⟨a,_,after,_⟩
  · cases before
  · cases rest with
    | act f' next' =>
      cases inside
      exact related.advance here there own own (nested _) apart state rfl
    | _ => cases inside
  · cases after

/-- With its latch a thread takes the whole call. -/
theorem lock_followed {n : Nat} {s : S} (related : Related rank latch body m o) (nested : ∀ c, (body c).Nested rank (rank latch + 1) [])
    (runs : ∀ c s, (body c).run s = perform c s) (here : m.threads[i]? = some (.running c (.lock l next))) (free : m.owner l = none) :
    ∃ o', (object perform n s).Shows o [] o' ∧
      Related rank latch body { m with owner := Function.update m.owner l (some i), threads := m.threads.set i (.running c next) } o' := by
  obtain ⟨ph,there,matched⟩ := related.threads i _ here
  rcases matched.cases with ⟨_,before,rfl⟩ | ⟨rest,held,own,inside,nested,apart,state,rfl⟩ | ⟨a,_,after,_⟩
  · cases before
    have shared := related.free free
    refine ⟨_,.silent .refl (.perform there),related.set (List.getElem?_eq_some_iff.mp here).1 ?_ (fun j other => .inl ⟨?_,?_⟩) ?_⟩
    · rw [Function.update_self,shared,← runs c]
      exact .inside (body c) rfl (nested c) (fun l member => absurd member List.not_mem_nil) rfl
    · simp [free]
    · rw [Function.update_self]
      exact fun same => other (Option.some.inj same).symm
    · rw [Function.update_self]
      exact fun none => by cases none
  · cases rest with
    | lock l' next' =>
      cases inside
      obtain ⟨high,_,nested⟩ := nested
      have other : l ≠ latch := by
        rintro rfl
        omega
      refine ⟨o,.refl,related.advance here there own ?_ nested (fun l' member => ?_) state rfl⟩
      · rw [Function.update_of_ne other.symm]
        exact own
      · rcases List.mem_cons.mp member with rfl | old
        · exact other
        · exact apart l' old
    | _ => cases inside
  · cases after

/-- When the latch is given back, the state is the one after the call. -/
theorem unlock_followed (related : Related rank latch body m o) (here : m.threads[i]? = some (.running c (.unlock l next))) :
    Related rank latch body { m with owner := Function.update m.owner l none, threads := m.threads.set i (.running c next) } o := by
  obtain ⟨ph,there,matched⟩ := related.threads i _ here
  rcases matched.cases with ⟨_,before,_⟩ | ⟨rest,held,own,inside,nested,apart,state,rfl⟩ | ⟨a,_,after,_⟩
  · cases before
  · cases rest with
    | ret a =>
      cases inside
      have mine : Matches rank latch body (Function.update m.owner latch none latch) m.shared o.state i (.running c (.ret a)) (.done c a) :=
        .after (by simp)
      have set := related.set (List.getElem?_eq_some_iff.mp here).1 mine (fun j other => .inl ⟨?_,by simp⟩) (fun _ => state)
      · rw [set_same (show o.clients[i]? = some (.done c a) from there)] at set
        exact set
      · rw [own]
        exact fun same => other (Option.some.inj same).symm
    | unlock l' next' =>
      cases inside
      obtain ⟨held',rfl,nested⟩ := nested
      have other : l ≠ latch := apart l List.mem_cons_self
      refine related.advance here there own ?_ nested (fun l' member => apart l' (List.mem_cons_of_mem l member)) state rfl
      rw [Function.update_of_ne other.symm]
      exact own
    | _ => cases inside
  · cases after

/-- Every step of a thread is a step of the object, or shows nothing. -/
theorem step_followed {method : Call → Code L S Answer} {label : Option (Event Call Answer)} {n : Nat} {s : S}
    (latched : ∀ c, method c = guarded latch (body c)) (nested : ∀ c, (body c).Nested rank (rank latch + 1) [])
    (runs : ∀ c s, (body c).run s = perform c s) (related : Related rank latch body m o) (step : Latches.Step method m label m') :
    ∃ o', (object perform n s).Shows o label.toList o' ∧ Related rank latch body m' o' := by
  cases step with
  | @call i c here =>
    obtain ⟨ph,there,matched⟩ := related.threads i _ here
    cases matched with
    | idle out =>
      refine ⟨_,.visible .refl (.call there),related.set (List.getElem?_eq_some_iff.mp here).1 ?_ (fun _ _ => .inr ⟨rfl,rfl,rfl⟩) related.free⟩
      rw [latched c]
      exact .before out
  | act here => exact ⟨o,.refl,act_followed related here⟩
  | lock here free => exact lock_followed related nested runs here free
  | unlock here mine => exact ⟨o,.refl,unlock_followed related here⟩
  | @answer i c a here =>
    obtain ⟨ph,there,matched⟩ := related.threads i _ here
    rcases matched.cases with ⟨_,before,_⟩ | ⟨rest,held,_,inside,_⟩ | ⟨a,out,after,rfl⟩
    · cases before
    · cases rest <;> cases inside
    · cases after
      exact ⟨_,.visible .refl (.answer there),
        related.set (List.getElem?_eq_some_iff.mp here).1 (.idle out) (fun _ _ => .inr ⟨rfl,rfl,rfl⟩) related.free⟩

/-- What can be seen of threads whose methods hold one latch throughout can be seen of the
    object that does each call at one moment. -/
theorem monitor_is_atomic {method : Call → Code L S Answer} {n : Nat} {s : S} {events : List (Event Call Answer)}
    (latched : ∀ c, method c = guarded latch (body c)) (nested : ∀ c, (body c).Nested rank (rank latch + 1) [])
    (runs : ∀ c s, (body c).run s = perform c s) (history : (threads method n s).History events) :
    (object perform n s).History events := by
  have simulates : Simulates (threads method n s) (object perform n s) (Related rank latch body) := by
    refine ⟨fun m start => ⟨{ state := s, clients := List.replicate n .idle },rfl,?_⟩,fun m o m' related step => ?_,fun m o label m' related step => ?_⟩
    · obtain rfl : m = { shared := s, owner := fun _ => none, threads := List.replicate n .idle } := start
      refine ⟨by simp,fun i t there => ⟨.idle,?_,?_⟩,fun _ => rfl⟩
      · have inside := (List.getElem?_eq_some_iff.mp there).1
        rw [List.length_replicate] at inside
        simp [inside]
      · have member := List.mem_of_getElem? there
        rw [(List.mem_replicate.mp member).2]
        exact .idle nofun
    · exact step_followed latched nested runs related step
    · exact step_followed latched nested runs related step
  exact simulates.history history

end
end Aether.Monitors
