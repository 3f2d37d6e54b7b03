import Mathlib.Logic.Basic

/-!
Programs over the calls of an interface. A program returns a value, stops with
a fault, or issues a call and goes on with its answer; a handler gives every
call a meaning on a state. `Prog.run` executes a program, and `Prog.wp` is its
weakest precondition when the environment's answers are assumed to satisfy a
predicate: `Prog.run_of_wp` turns it into a fact about runs whose answers do.
-/
namespace Aether.Programs

/-- A program whose calls with answers in `β` are `Op β`, and whose faults are `ε`. -/
inductive Prog (ε : Type) (Op : Type → Type) (α : Type) : Type 1
  | ret (value : α)
  | fault (reason : ε)
  | call {β : Type} (op : Op β) (next : β → Prog ε Op α)

/-- What every call does to a state: its answer and the next state, or a fault. -/
abbrev Handler (ε : Type) (Op : Type → Type) (σ : Type) := {β : Type} → Op β → σ → Except ε (β × σ)

/-- Which answers the environment may give to a call. -/
abbrev Answers (Op : Type → Type) := {β : Type} → Op β → β → Prop

namespace Prog
variable {ε : Type} {Op : Type → Type} {σ α β : Type}

/-- Sequencing: the second program starts from what the first returns. -/
def bind : Prog ε Op α → (α → Prog ε Op β) → Prog ε Op β
  | ret value, next => next value
  | fault reason, _ => fault reason
  | call op rest, next => call op (fun answer => (rest answer).bind next)

instance : Monad (Prog ε Op) where
  pure := ret
  bind := bind

/-- One call, answered. -/
def perform (op : Op α) : Prog ε Op α := call op ret

/-- The value of a partial operation, or a fault where it has none. -/
def ofOption (reason : ε) : Option α → Prog ε Op α
  | some value => ret value
  | none => fault reason

/-- Execute a program from a state: the handler may itself refuse a call with
    a fault. -/
def run (handle : Handler ε Op σ) : Prog ε Op α → σ → Except ε (α × σ)
  | ret value, s => .ok (value,s)
  | fault reason, _ => .error reason
  | call op next, s =>
    match handle op s with
    | .error reason => .error reason
    | .ok (answer,s') => run handle (next answer) s'

/-- Every answer given in the run of a program from a state is allowed. -/
def Served (handle : Handler ε Op σ) (allowed : Answers Op) :
    Prog ε Op α → σ → Prop
  | ret _, _ => True
  | fault _, _ => True
  | call op next, s =>
    match handle op s with
    | .error _ => True
    | .ok (answer,s') => allowed op answer ∧ Served handle allowed (next answer) s'

instance decidableServed (handle : Handler ε Op σ) (allowed : Answers Op)
    [decide : {β : Type} → (op : Op β) → (answer : β) → Decidable (allowed op answer)] :
    (p : Prog ε Op α) → (s : σ) → Decidable (Served handle allowed p s)
  | ret _, _ => isTrue trivial
  | fault _, _ => isTrue trivial
  | call op next, s =>
    match same : handle op s with
    | .error _ => isTrue (by rw [Served,same]; trivial)
    | .ok (answer,s') =>
      have := decide op answer
      have := decidableServed handle allowed (next answer) s'
      decidable_of_iff (allowed op answer ∧ Served handle allowed (next answer) s') (by rw [Served,same])

/-- As long as the answers are allowed, the program runs without a fault and
    what it returns satisfies the postcondition. -/
def wp (handle : Handler ε Op σ) (allowed : Answers Op) :
    Prog ε Op α → (α → σ → Prop) → σ → Prop
  | ret value, post, s => post value s
  | fault _, _, _ => False
  | call op next, post, s =>
    match handle op s with
    | .error _ => False
    | .ok (answer,s') => allowed op answer → wp handle allowed (next answer) post s'

section
variable {handle : Handler ε Op σ} {allowed : Answers Op}

theorem bind_eq (p : Prog ε Op α) (next : α → Prog ε Op β) : (p >>= next) = p.bind next := rfl

theorem bind_assoc {γ : Type} (p : Prog ε Op α) (next : α → Prog ε Op β) (last : β → Prog ε Op γ) :
    (p >>= next) >>= last = p >>= fun value => next value >>= last := by
  simp only [bind_eq]
  induction p with
  | ret value => rfl
  | fault reason => rfl
  | call op rest ih => exact congrArg _ (funext ih)

@[simp] theorem wp_pure (value : α) (post : α → σ → Prop) (s : σ) :
    wp handle allowed (pure value : Prog ε Op α) post s ↔ post value s := Iff.rfl

@[simp] theorem wp_ret (value : α) (post : α → σ → Prop) (s : σ) :
    wp handle allowed (ret value : Prog ε Op α) post s ↔ post value s := Iff.rfl

@[simp] theorem wp_bind (p : Prog ε Op α) (next : α → Prog ε Op β) (post : β → σ → Prop) (s : σ) :
    wp handle allowed (p >>= next) post s ↔
      wp handle allowed p (fun value s' => wp handle allowed (next value) post s') s := by
  rw [bind_eq]
  induction p generalizing s with
  | ret value => rfl
  | fault reason => rfl
  | call op rest ih =>
    simp only [bind,wp]
    cases handle op s with
    | error reason => rfl
    | ok answered => exact imp_congr_right (fun _ => ih answered.1 answered.2)

theorem wp_perform (op : Op α) (post : α → σ → Prop) (s : σ) :
    wp handle allowed (perform op : Prog ε Op α) post s ↔
      ∃ answer s', handle op s = .ok (answer,s') ∧ (allowed op answer → post answer s') := by
  simp only [perform,wp]
  cases handle op s with
  | error reason => simp
  | ok answered =>
    constructor
    · intro holds; exact ⟨answered.1,answered.2,rfl,holds⟩
    · rintro ⟨answer,s',same,holds⟩
      cases same
      exact holds

theorem wp_ofOption (reason : ε) (value : Option α) (post : α → σ → Prop) (s : σ) :
    wp handle allowed (ofOption reason value : Prog ε Op α) post s ↔
      ∃ a, value = some a ∧ post a s := by
  cases value with
  | none => simp [ofOption,wp]
  | some a => simp [ofOption]

/-- The rule of consequence. -/
theorem wp_mono {p : Prog ε Op α} {post post' : α → σ → Prop} {s : σ}
    (weaker : ∀ value s', post value s' → post' value s') (holds : wp handle allowed p post s) :
    wp handle allowed p post' s := by
  induction p generalizing s with
  | ret value => exact weaker value s holds
  | fault reason => exact holds
  | call op rest ih =>
    simp only [wp] at holds ⊢
    cases handled : handle op s with
    | error reason => rw [handled] at holds; exact holds
    | ok answered =>
      rw [handled] at holds
      exact fun fine => ih answered.1 (holds fine)

/-- Two postconditions at once. -/
theorem wp_and {p : Prog ε Op α} {post post' : α → σ → Prop} {s : σ} (first : wp handle allowed p post s)
    (second : wp handle allowed p post' s) : wp handle allowed p (fun value s' => post value s' ∧ post' value s') s := by
  induction p generalizing s with
  | ret value => exact ⟨first,second⟩
  | fault reason => exact first
  | call op rest ih =>
    simp only [wp] at first second ⊢
    cases handled : handle op s with
    | error reason => rw [handled] at first; exact first
    | ok answered =>
      rw [handled] at first second
      exact fun fine => ih answered.1 (first fine) (second fine)

/-- A postcondition may say which run it is about. -/
theorem wp_run {p : Prog ε Op α} {post : α → σ → Prop} {s : σ} (holds : wp handle allowed p post s) :
    wp handle allowed p (fun value s' => post value s' ∧ run handle p s = .ok (value,s')) s := by
  induction p generalizing s with
  | ret value => exact ⟨holds,rfl⟩
  | fault reason => exact holds
  | call op rest ih =>
    simp only [wp,run] at holds ⊢
    cases handled : handle op s with
    | error reason => rw [handled] at holds; exact holds
    | ok answered =>
      rw [handled] at holds
      exact fun fine => ih answered.1 (holds fine)

/-- A run whose answers are all allowed meets the weakest precondition's
    postcondition. -/
theorem run_of_wp {p : Prog ε Op α} {post : α → σ → Prop} {s : σ}
    (holds : wp handle allowed p post s) (served : Served handle allowed p s) :
    ∃ value s', run handle p s = .ok (value,s') ∧ post value s' := by
  induction p generalizing s with
  | ret value => exact ⟨value,s,rfl,holds⟩
  | fault reason => exact holds.elim
  | call op rest ih =>
    simp only [wp] at holds
    simp only [Served] at served
    simp only [run]
    cases handled : handle op s with
    | error reason => rw [handled] at holds; exact holds.elim
    | ok answered =>
      rw [handled] at holds served
      exact ih answered.1 (holds served.1) served.2

/-! ### Faults that are tolerated -/

/-- The weakest liberal precondition: as `wp`, but a fault in `tolerated` may stop
    the program. -/
def wlp (handle : Handler ε Op σ) (allowed : Answers Op) (tolerated : ε → Prop) :
    Prog ε Op α → (α → σ → Prop) → σ → Prop
  | ret value, post, s => post value s
  | fault reason, _, _ => tolerated reason
  | call op next, post, s =>
    match handle op s with
    | .error reason => tolerated reason
    | .ok (answer,s') => allowed op answer → wlp handle allowed tolerated (next answer) post s'

variable {tolerated : ε → Prop}

@[simp] theorem wlp_pure (value : α) (post : α → σ → Prop) (s : σ) :
    wlp handle allowed tolerated (pure value : Prog ε Op α) post s ↔ post value s := Iff.rfl

@[simp] theorem wlp_bind (p : Prog ε Op α) (next : α → Prog ε Op β) (post : β → σ → Prop) (s : σ) :
    wlp handle allowed tolerated (p >>= next) post s ↔
      wlp handle allowed tolerated p (fun value s' => wlp handle allowed tolerated (next value) post s') s := by
  rw [bind_eq]
  induction p generalizing s with
  | ret value => rfl
  | fault reason => rfl
  | call op rest ih =>
    simp only [bind,wlp]
    cases handle op s with
    | error reason => rfl
    | ok answered => exact imp_congr_right (fun _ => ih answered.1 answered.2)

theorem wlp_perform {op : Op α} {post : α → σ → Prop} {s s' : σ} {answer : α} (handled : handle op s = .ok (answer,s')) :
    wlp handle allowed tolerated (perform op : Prog ε Op α) post s ↔ (allowed op answer → post answer s') := by
  simp only [perform,wlp,handled]

theorem wlp_ofOption (reason : ε) (value : Option α) (post : α → σ → Prop) (s : σ) :
    wlp handle allowed tolerated (ofOption reason value : Prog ε Op α) post s ↔
      (value = none → tolerated reason) ∧ ∀ a, value = some a → post a s := by
  cases value with
  | none => simp [ofOption,wlp]
  | some a => simp [ofOption,wlp]

theorem wlp_mono {p : Prog ε Op α} {post post' : α → σ → Prop} {s : σ}
    (weaker : ∀ value s', post value s' → post' value s') (holds : wlp handle allowed tolerated p post s) :
    wlp handle allowed tolerated p post' s := by
  induction p generalizing s with
  | ret value => exact weaker value s holds
  | fault reason => exact holds
  | call op rest ih =>
    simp only [wlp] at holds ⊢
    cases handled : handle op s with
    | error reason => rw [handled] at holds; exact holds
    | ok answered =>
      rw [handled] at holds
      exact fun fine => ih answered.1 (holds fine)

/-- A run whose answers are all allowed ends with a tolerated fault or meets the
    postcondition. -/
theorem run_of_wlp {p : Prog ε Op α} {post : α → σ → Prop} {s : σ} (holds : wlp handle allowed tolerated p post s)
    (served : Served handle allowed p s) :
    (∃ value s', run handle p s = .ok (value,s') ∧ post value s') ∨ ∃ reason, run handle p s = .error reason ∧ tolerated reason := by
  induction p generalizing s with
  | ret value => exact .inl ⟨value,s,rfl,holds⟩
  | fault reason => exact .inr ⟨reason,rfl,holds⟩
  | call op rest ih =>
    simp only [wlp] at holds
    simp only [Served] at served
    simp only [run]
    cases handled : handle op s with
    | error reason => rw [handled] at holds; exact .inr ⟨reason,rfl,holds⟩
    | ok answered =>
      rw [handled] at holds served
      exact ih answered.1 (holds served.1) served.2

/-- Every answer is allowed when any answer is. -/
theorem served_any {p : Prog ε Op α} {s : σ} : Served handle (fun _ _ => True) p s := by
  induction p generalizing s with
  | ret value => trivial
  | fault reason => trivial
  | call op rest ih =>
    simp only [Served]
    cases handle op s with
    | error reason => trivial
    | ok answered => exact ⟨trivial,ih answered.1⟩

/-- The answer to a single call. -/
theorem served_perform {op : Op α} {s s' : σ} {answer : α} (served : Served handle allowed (perform op) s)
    (ran : run handle (perform op) s = .ok (answer,s')) : allowed op answer := by
  simp only [perform,Served,run] at served ran
  cases handled : handle op s with
  | error reason => rw [handled] at ran; cases ran
  | ok answered =>
    rw [handled] at served ran
    cases ran
    exact served.1

theorem served_bind {p : Prog ε Op α} {next : α → Prog ε Op β} {s : σ}
    (served : Served handle allowed (p >>= next) s) : Served handle allowed p s := by
  rw [bind_eq] at served
  induction p generalizing s with
  | ret value => trivial
  | fault reason => trivial
  | call op rest ih =>
    simp only [bind,Served] at served ⊢
    cases handled : handle op s with
    | error reason => trivial
    | ok answered =>
      rw [handled] at served
      exact ⟨served.1,ih answered.1 served.2⟩

theorem run_bind (p : Prog ε Op α) (next : α → Prog ε Op β) (s : σ) :
    run handle (p >>= next) s =
      match run handle p s with
      | .error reason => .error reason
      | .ok (value,s') => run handle (next value) s' := by
  rw [bind_eq]
  induction p generalizing s with
  | ret value => rfl
  | fault reason => rfl
  | call op rest ih =>
    simp only [bind,run]
    cases handle op s with
    | error reason => rfl
    | ok answered => exact ih answered.1 answered.2

theorem run_perform (op : Op α) (s : σ) : run handle (perform op : Prog ε Op α) s = handle op s := by
  simp only [perform,run]
  cases handle op s with
  | error reason => rfl
  | ok answered => rfl

theorem run_pure (value : α) (s : σ) : run handle (pure value : Prog ε Op α) s = .ok (value,s) := rfl

theorem run_bind_ok {p : Prog ε Op α} {next : α → Prog ε Op β} {s s' : σ} {value : β}
    (ran : run handle (p >>= next) s = .ok (value,s')) :
    ∃ first s₁, run handle p s = .ok (first,s₁) ∧ run handle (next first) s₁ = .ok (value,s') := by
  rw [run_bind] at ran
  split at ran
  · cases ran
  · exact ⟨_,_,by assumption,ran⟩

theorem served_next {p : Prog ε Op α} {next : α → Prog ε Op β} {s s' : σ} {value : α}
    (served : Served handle allowed (p >>= next) s) (ran : run handle p s = .ok (value,s')) :
    Served handle allowed (next value) s' := by
  rw [bind_eq] at served
  induction p generalizing s with
  | ret value => cases ran; exact served
  | fault reason => cases ran
  | call op rest ih =>
    simp only [bind,Served] at served
    simp only [run] at ran
    cases handled : handle op s with
    | error reason => rw [handled] at ran; cases ran
    | ok answered =>
      rw [handled] at ran served
      exact ih answered.1 served.2 ran

theorem served_bind_iff {p : Prog ε Op α} {next : α → Prog ε Op β} {s : σ} : Served handle allowed (p >>= next) s ↔
    Served handle allowed p s ∧ ∀ value s', run handle p s = .ok (value,s') → Served handle allowed (next value) s' := by
  constructor
  · intro served
    exact ⟨served_bind served,fun value s' ran => served_next served ran⟩
  · rintro ⟨first,later⟩
    rw [bind_eq]
    induction p generalizing s with
    | ret value => exact later value s rfl
    | fault reason => trivial
    | call op rest ih =>
      simp only [bind,Served,run] at first later ⊢
      cases handled : handle op s with
      | error reason => trivial
      | ok answered =>
        rw [handled] at first later
        exact ⟨first.1,ih answered.1 first.2 later⟩

/-- An answer that is not allowed came in the first program, or in the second. -/
theorem refused_bind {p : Prog ε Op α} {next : α → Prog ε Op β} {s : σ} (refused : ¬Served handle allowed (p >>= next) s) :
    ¬Served handle allowed p s ∨ ∃ value s', run handle p s = .ok (value,s') ∧ ¬Served handle allowed (next value) s' := by
  refine Classical.byContradiction (fun none => refused (served_bind_iff.mpr ⟨?_,?_⟩))
  · exact not_not.mp (fun first => none (.inl first))
  · intro value s' ran
    exact not_not.mp (fun later => none (.inr ⟨value,s',ran,later⟩))

end

/-! ### Whatever the answers -/

section
variable {bad : ε} {post post' : α → Prop}

/-- Whatever is answered, the program does not stop with the fault `bad`, and what it
    returns satisfies the postcondition. -/
def Safe (bad : ε) : Prog ε Op α → (α → Prop) → Prop
  | ret value, post => post value
  | fault reason, _ => reason ≠ bad
  | call _ next, post => ∀ answer, Safe bad (next answer) post

@[simp] theorem safe_pure (value : α) (post : α → Prop) : Safe bad (pure value : Prog ε Op α) post ↔ post value := Iff.rfl

@[simp] theorem safe_fault (reason : ε) (post : α → Prop) : Safe bad (fault reason : Prog ε Op α) post ↔ reason ≠ bad := Iff.rfl

@[simp] theorem safe_perform (op : Op α) (post : α → Prop) : Safe bad (perform op : Prog ε Op α) post ↔ ∀ answer, post answer :=
  Iff.rfl

@[simp] theorem safe_ofOption (reason : ε) (value : Option α) (post : α → Prop) :
    Safe bad (ofOption reason value : Prog ε Op α) post ↔ (value = none → reason ≠ bad) ∧ ∀ a, value = some a → post a := by
  cases value with
  | none => simp [ofOption]
  | some a => simp [ofOption,Safe]

@[simp] theorem safe_bind (p : Prog ε Op α) (next : α → Prog ε Op β) (post : β → Prop) :
    Safe bad (p >>= next) post ↔ Safe bad p (fun value => Safe bad (next value) post) := by
  rw [bind_eq]
  induction p with
  | ret value => rfl
  | fault reason => rfl
  | call op rest ih => exact forall_congr' ih

theorem Safe.mono {p : Prog ε Op α} (weaker : ∀ value, post value → post' value) (safe : Safe bad p post) : Safe bad p post' := by
  induction p with
  | ret value => exact weaker value safe
  | fault reason => exact safe
  | call op rest ih => exact fun answer => ih answer (safe answer)

/-- A run of a safe program, where no call stops with `bad`. -/
theorem Safe.run {handle : Handler ε Op σ} (calls : ∀ {β : Type} (op : Op β) (s : σ), handle op s ≠ .error bad)
    {p : Prog ε Op α} (safe : Safe bad p post) (s : σ) : run handle p s ≠ .error bad := by
  induction p generalizing s with
  | ret value => intro stopped; cases stopped
  | fault reason =>
    intro stopped
    exact safe (Except.error.inj stopped)
  | call op rest ih =>
    simp only [Prog.run]
    cases handled : handle op s with
    | error reason =>
      intro stopped
      exact calls op s (handled.trans (congrArg _ (Except.error.inj stopped)))
    | ok answered => exact ih answered.1 (safe answered.1) answered.2

end

/-! ### What holds before every call -/

/-- A condition on a call and the state it is made in. -/
abbrev Check (Op : Type → Type) (σ : Type) := {β : Type} → Op β → σ → Prop

section
variable {handle : Handler ε Op σ} {check : Check Op σ} {allowed : Answers Op} {post post' : α → σ → Prop} {s : σ}

/-- Every call in the run of a program passes the check, and what it returns, if it
    returns, satisfies the postcondition. -/
def Guards (handle : Handler ε Op σ) (check : Check Op σ) : Prog ε Op α → (α → σ → Prop) → σ → Prop
  | ret value, post, s => post value s
  | fault _, _, _ => True
  | call op next, post, s => check op s ∧
    match handle op s with
    | .error _ => True
    | .ok (answer,s') => Guards handle check (next answer) post s'

/-- Every state in the run of a program is good, from the one it starts in. -/
def Always (handle : Handler ε Op σ) (good : σ → Prop) : Prog ε Op α → σ → Prop
  | ret _, s => good s
  | fault _, s => good s
  | call op next, s => good s ∧
    match handle op s with
    | .error _ => True
    | .ok (answer,s') => Always handle good (next answer) s'

/-- Every answer in the run of a program is one that may be given in that state. -/
def Heard (handle : Handler ε Op σ) (told : {β : Type} → Op β → σ → β → Prop) : Prog ε Op α → σ → Prop
  | ret _, _ => True
  | fault _, _ => True
  | call op next, s =>
    match handle op s with
    | .error _ => True
    | .ok (answer,s') => told op s answer ∧ Heard handle told (next answer) s'

@[simp] theorem guards_pure (value : α) (post : α → σ → Prop) (s : σ) :
    Guards handle check (pure value : Prog ε Op α) post s ↔ post value s := Iff.rfl

@[simp] theorem guards_fault (reason : ε) (post : α → σ → Prop) (s : σ) :
    Guards handle check (fault reason : Prog ε Op α) post s ↔ True := Iff.rfl

@[simp] theorem guards_ofOption (reason : ε) (value : Option α) (post : α → σ → Prop) (s : σ) :
    Guards handle check (ofOption reason value : Prog ε Op α) post s ↔ ∀ a, value = some a → post a s := by
  cases value with
  | none => simp [ofOption]
  | some a => simp [ofOption,Guards]

@[simp] theorem guards_bind (p : Prog ε Op α) (next : α → Prog ε Op β) (post : β → σ → Prop) (s : σ) :
    Guards handle check (p >>= next) post s ↔
      Guards handle check p (fun value s' => Guards handle check (next value) post s') s := by
  rw [bind_eq]
  induction p generalizing s with
  | ret value => rfl
  | fault reason => rfl
  | call op rest ih =>
    simp only [bind,Guards]
    refine and_congr_right (fun _ => ?_)
    cases handle op s with
    | error reason => rfl
    | ok answered => exact ih answered.1 answered.2

theorem guards_perform {op : Op α} (passes : check op s)
    (next : ∀ answer s', handle op s = .ok (answer,s') → post answer s') : Guards handle check (perform op) post s := by
  rw [perform,Guards]
  refine ⟨passes,?_⟩
  cases handled : handle op s with
  | error reason => trivial
  | ok answered => exact next answered.1 answered.2 handled

theorem Guards.mono {p : Prog ε Op α} (weaker : ∀ value s', post value s' → post' value s') (guards : Guards handle check p post s) :
    Guards handle check p post' s := by
  induction p generalizing s with
  | ret value => exact weaker value s guards
  | fault reason => trivial
  | call op rest ih =>
    rw [Guards] at guards ⊢
    obtain ⟨passes,later⟩ := guards
    refine ⟨passes,?_⟩
    cases handled : handle op s with
    | error reason => trivial
    | ok answered =>
      rw [handled] at later
      exact ih answered.1 later

/-- Answers that are allowed in every state. -/
theorem Heard.served {p : Prog ε Op α} (heard : Heard handle (fun op _ answer => allowed op answer) p s) : Served handle allowed p s := by
  induction p generalizing s with
  | ret value => trivial
  | fault reason => trivial
  | call op rest ih =>
    rw [Heard] at heard
    rw [Served]
    cases handled : handle op s with
    | error reason => trivial
    | ok answered =>
      rw [handled] at heard
      exact ⟨heard.1,ih answered.1 heard.2⟩

/-- What calls that pass the check keep is kept throughout a run. -/
theorem Guards.always {good : σ → Prop} (keeps : ∀ {β : Type} (op : Op β) (s : σ) (answer : β) (s' : σ), check op s → good s →
    handle op s = .ok (answer,s') → good s') {p : Prog ε Op α} (start : good s) (guards : Guards handle check p post s) :
    Always handle good p s := by
  induction p generalizing s with
  | ret value => exact start
  | fault reason => exact start
  | call op rest ih =>
    rw [Guards] at guards
    rw [Always]
    obtain ⟨passes,later⟩ := guards
    refine ⟨start,?_⟩
    cases handled : handle op s with
    | error reason => trivial
    | ok answered =>
      rw [handled] at later
      exact ih answered.1 (keeps op s answered.1 answered.2 passes start handled) later

/-- What may be told to calls that pass the check is allowed throughout a run. -/
theorem Guards.served {told : {β : Type} → Op β → σ → β → Prop} (tells : ∀ {β : Type} (op : Op β) (s : σ) (answer : β) (s' : σ),
    check op s → handle op s = .ok (answer,s') → told op s answer → allowed op answer) {p : Prog ε Op α}
    (guards : Guards handle check p post s) (heard : Heard handle told p s) : Served handle allowed p s := by
  induction p generalizing s with
  | ret value => trivial
  | fault reason => trivial
  | call op rest ih =>
    rw [Guards] at guards
    rw [Heard] at heard
    rw [Served]
    obtain ⟨passes,later⟩ := guards
    cases handled : handle op s with
    | error reason => trivial
    | ok answered =>
      rw [handled] at later heard
      exact ⟨tells op s answered.1 answered.2 passes handled heard.1,ih answered.1 later heard.2⟩

end
end Prog
end Aether.Programs
