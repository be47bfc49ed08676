import Mathlib.Tactic.Common

/-!
# Scripts that ask a store and mark it

A script asks a store one question after another, and chooses the next one by the answers it got. An
answered question leaves a mark on the store, and no answer depends on the marks. So a script has two
readings: `run` keeps the marks, while `outcome` and `asked` read the store as it was before the first
question. They agree (`run_eq`), and a run leaves the store as it was exactly when none of its questions
marks it (`run_unchanged_iff`).
-/

namespace IreeRocket.Marking

/-- Questions of `Q`, answered in `A`, up to a value or a stop. -/
inductive Script (Q A ε α : Type*)
  | done (value : α)
  | stop (reason : ε)
  | ask (question : Q) (next : A → Script Q A ε α)

universe u

variable {σ Q ε : Type*} {A α β : Type u}

namespace Script

protected def bind : Script Q A ε α → (α → Script Q A ε β) → Script Q A ε β
  | done value, f => f value
  | stop reason, _ => stop reason
  | ask question next, f => ask question fun answer => (next answer).bind f

instance : Monad (Script Q A ε) where
  pure := done
  bind := Script.bind

theorem bind_done (script : Script Q A ε α) : script.bind done = script := by
  induction script with
  | done value => rfl
  | stop reason => rfl
  | ask question next ih => exact congrArg (ask question) (funext ih)

theorem bind_bind {γ : Type u} (script : Script Q A ε α) (f : α → Script Q A ε β) (g : β → Script Q A ε γ) :
    (script.bind f).bind g = script.bind fun value => (f value).bind g := by
  induction script with
  | done value => rfl
  | stop reason => rfl
  | ask question next ih => exact congrArg (ask question) (funext ih)

instance : LawfulMonad (Script Q A ε) := .mk' _ bind_done (fun _ _ => rfl) bind_bind

/-- A computation that asks nothing. -/
def lift : Except ε α → Script Q A ε α
  | .ok value => done value
  | .error reason => stop reason

/-- The answer itself. -/
def query (question : Q) : Script Q A ε A := ask question done

end Script

/-! ### What every run of a script asks and returns -/

namespace Script

/-- Every question the script may ask satisfies one predicate, and every value it may return another,
whatever the answers. -/
def Every (asks : Q → Prop) (returns : α → Prop) : Script Q A ε α → Prop
  | .done value => returns value
  | .stop _ => True
  | .ask question next => asks question ∧ ∀ answer, Every asks returns (next answer)

variable {asks : Q → Prop} {returns : α → Prop}

@[simp] theorem every_pure (value : α) :
    Every asks returns (pure value : Script Q A ε α) ↔ returns value := Iff.rfl

@[simp] theorem every_lift (x : Except ε α) :
    Every asks returns (lift x : Script Q A ε α) ↔ ∀ value, x = .ok value → returns value := by
  cases x with
  | ok value => exact ⟨fun h v hv => Except.ok.inj hv ▸ h, fun h => h value rfl⟩
  | error reason =>
    refine ⟨fun _ value hvalue => ?_, fun _ => trivial⟩
    cases hvalue

@[simp] theorem every_query {returns : A → Prop} (question : Q) :
    Every asks returns (query question : Script Q A ε A) ↔ asks question ∧ ∀ answer, returns answer := Iff.rfl

@[simp] theorem every_bind {returns : β → Prop} (script : Script Q A ε α) (f : α → Script Q A ε β) :
    Every asks returns (script >>= f) ↔ Every asks (fun value => Every asks returns (f value)) script := by
  change Every asks returns (script.bind f) ↔ _
  induction script with
  | done value => exact Iff.rfl
  | stop reason => exact Iff.rfl
  | ask question next ih => exact and_congr_right fun _ => forall_congr' ih

@[simp] theorem every_map {returns : β → Prop} (script : Script Q A ε α) (f : α → β) :
    Every asks returns (f <$> script) ↔ Every asks (fun value => returns (f value)) script := by
  rw [map_eq_pure_bind, every_bind]
  exact Iff.rfl

theorem Every.mono {returns' : α → Prop} {script : Script Q A ε α} (h : Every asks returns script)
    (himp : ∀ value, returns value → returns' value) : Every asks returns' script := by
  induction script with
  | done value => exact himp value h
  | stop reason => trivial
  | ask question next ih => exact ⟨h.1, fun answer => ih answer (h.2 answer)⟩

/-- A script that asks nothing. -/
def Silent (script : Script Q A ε α) : Prop := Every (fun _ => False) (fun _ => True) script

theorem silent_pure (value : α) : (pure value : Script Q A ε α).Silent := trivial

theorem silent_lift (x : Except ε α) : (lift x : Script Q A ε α).Silent := by
  cases x <;> trivial

end Script

/-- A store that answers or declines. A mark makes the store heavier, or is no mark. -/
structure Store (σ Q A ε : Type*) where
  answer : σ → Q → Except ε A
  mark : σ → Q → σ
  weight : σ → Nat
  mark_weight : ∀ s q, mark s q = s ∨ weight s < weight (mark s q)
  answer_mark : ∀ s q r, answer (mark s q) r = answer s r

namespace Store

variable (store : Store σ Q A ε)

/-- The marks stay on the store, also when the script stops. -/
def run : Script Q A ε α → σ → Except ε α × σ
  | .done value, s => (.ok value, s)
  | .stop reason, s => (.error reason, s)
  | .ask question next, s =>
    match store.answer s question with
    | .error reason => (.error reason, s)
    | .ok answer => run (next answer) (store.mark s question)

/-- How a script ends, by the answers of one store. -/
def outcome (s : σ) : Script Q A ε α → Except ε α
  | .done value => .ok value
  | .stop reason => .error reason
  | .ask question next =>
    match store.answer s question with
    | .error reason => .error reason
    | .ok answer => outcome s (next answer)

/-- The questions a script gets an answer to, by the answers of one store. -/
def asked (s : σ) : Script Q A ε α → List Q
  | .done _ | .stop _ => []
  | .ask question next =>
    match store.answer s question with
    | .error _ => []
    | .ok answer => question :: asked s (next answer)

/-! ### Reading a script -/

section Reading

variable (s : σ)

@[simp] theorem outcome_pure (value : α) :
    store.outcome s (pure value : Script Q A ε α) = .ok value := rfl

@[simp] theorem outcome_lift (x : Except ε α) : store.outcome s (Script.lift x) = x := by
  cases x <;> rfl

@[simp] theorem outcome_query (question : Q) :
    store.outcome s (Script.query question) = store.answer s question := by
  unfold Script.query outcome
  cases store.answer s question <;> rfl

@[simp] theorem outcome_bind (script : Script Q A ε α) (f : α → Script Q A ε β) :
    store.outcome s (script >>= f) = store.outcome s script >>= fun value => store.outcome s (f value) := by
  change store.outcome s (script.bind f) = _
  induction script with
  | done value => rfl
  | stop reason => rfl
  | ask question next ih =>
    simp only [Script.bind, outcome]
    cases store.answer s question with
    | error reason => rfl
    | ok answer => exact ih answer

@[simp] theorem asked_pure (value : α) : store.asked s (pure value : Script Q A ε α) = [] := rfl

@[simp] theorem asked_lift (x : Except ε α) : store.asked s (Script.lift x) = [] := by
  cases x <;> rfl

theorem asked_query (question : Q) :
    store.asked s (Script.query question) =
      match store.answer s question with
      | .ok _ => [question]
      | .error _ => [] := by
  unfold Script.query asked
  cases store.answer s question <;> rfl

theorem asked_bind (script : Script Q A ε α) (f : α → Script Q A ε β) :
    store.asked s (script >>= f) = store.asked s script ++
      match store.outcome s script with
      | .ok value => store.asked s (f value)
      | .error _ => [] := by
  change store.asked s (script.bind f) = _
  induction script with
  | done value => rfl
  | stop reason => rfl
  | ask question next ih =>
    simp only [Script.bind, asked, outcome]
    cases store.answer s question with
    | error reason => rfl
    | ok answer => exact congrArg (question :: ·) (ih answer)

theorem asked_silent {store : Store σ Q A ε} {s : σ} {script : Script Q A ε α} (h : script.Silent) :
    store.asked s script = [] := by
  cases script with
  | done value => rfl
  | stop reason => rfl
  | ask question next => exact absurd h.1 id

end Reading

/-- Stores that answer alike end a script alike. -/
theorem outcome_congr {store : Store σ Q A ε} {s s' : σ} (h : ∀ q, store.answer s q = store.answer s' q)
    (script : Script Q A ε α) : store.outcome s script = store.outcome s' script := by
  induction script with
  | done value => rfl
  | stop reason => rfl
  | ask question next ih =>
    unfold outcome
    rw [h question]
    cases store.answer s' question with
    | error reason => rfl
    | ok answer => exact ih answer

/-! ### Marks are not seen -/

variable {store} {s : σ} {script : Script Q A ε α}

theorem outcome_mark (q : Q) : store.outcome (store.mark s q) script = store.outcome s script := by
  induction script with
  | done value => rfl
  | stop reason => rfl
  | ask question next ih =>
    unfold outcome
    rw [store.answer_mark]
    cases store.answer s question with
    | error reason => rfl
    | ok answer => exact ih answer

theorem asked_mark (q : Q) : store.asked (store.mark s q) script = store.asked s script := by
  induction script with
  | done value => rfl
  | stop reason => rfl
  | ask question next ih =>
    unfold asked
    rw [store.answer_mark]
    cases store.answer s question with
    | error reason => rfl
    | ok answer => exact congrArg (question :: ·) (ih answer)

/-- A run ends as the store it began with says, and leaves the marks of the questions it asked. -/
theorem run_eq (script : Script Q A ε α) (s : σ) :
    store.run script s = (store.outcome s script, (store.asked s script).foldl store.mark s) := by
  induction script generalizing s with
  | done value => rfl
  | stop reason => rfl
  | ask question next ih =>
    unfold run outcome asked
    cases store.answer s question with
    | error reason => rfl
    | ok answer =>
      dsimp only
      rw [ih answer, outcome_mark, asked_mark, List.foldl_cons]

theorem run_fst (script : Script Q A ε α) (s : σ) :
    (store.run script s).1 = store.outcome s script := by
  rw [run_eq]

theorem weight_le_foldl (questions : List Q) (s : σ) :
    store.weight s ≤ store.weight (questions.foldl store.mark s) := by
  induction questions generalizing s with
  | nil => exact Nat.le_refl _
  | cons question questions ih =>
    refine Nat.le_trans ?_ (ih (store.mark s question))
    rcases store.mark_weight s question with heq | hlt
    · exact Nat.le_of_eq (congrArg store.weight heq).symm
    · exact Nat.le_of_lt hlt

theorem foldl_mark_eq_iff (questions : List Q) (s : σ) :
    questions.foldl store.mark s = s ↔ ∀ q ∈ questions, store.mark s q = s := by
  induction questions with
  | nil => simp
  | cons question questions ih =>
    rw [List.foldl_cons, List.forall_mem_cons]
    rcases store.mark_weight s question with heq | hlt
    · rw [heq, ih]
      exact (and_iff_right rfl).symm
    · constructor
      · intro hfold
        have hle : store.weight (store.mark s question) ≤
            store.weight (questions.foldl store.mark (store.mark s question)) := weight_le_foldl questions _
        rw [hfold] at hle
        exact absurd hlt (Nat.not_lt.mpr hle)
      · rintro ⟨heq, -⟩
        rw [heq] at hlt
        exact absurd hlt (Nat.lt_irrefl _)

/-- What a script promises of every run holds of one. -/
theorem run_every {asks : Q → Prop} {returns : α → Prop} {value : α} {s' : σ}
    (hevery : script.Every asks returns) (h : store.run script s = (.ok value, s')) :
    returns value ∧ (∀ q ∈ store.asked s script, asks q) ∧ s' = (store.asked s script).foldl store.mark s := by
  rw [run_eq, Prod.mk.injEq] at h
  obtain ⟨houtcome, hmarked⟩ := h
  refine ⟨?_, ?_, hmarked.symm⟩
  · clear hmarked
    induction script with
    | done result =>
      cases houtcome
      exact hevery
    | stop reason => cases houtcome
    | ask question next ih =>
      unfold outcome at houtcome
      cases hanswer : store.answer s question with
      | error reason =>
        rw [hanswer] at houtcome
        cases houtcome
      | ok answer =>
        rw [hanswer] at houtcome
        exact ih answer (hevery.2 answer) houtcome
  · clear houtcome hmarked
    induction script with
    | done result => exact List.forall_mem_nil _
    | stop reason => exact List.forall_mem_nil _
    | ask question next ih =>
      unfold asked
      cases store.answer s question with
      | error reason => exact List.forall_mem_nil _
      | ok answer => exact List.forall_mem_cons.mpr ⟨hevery.1, ih answer (hevery.2 answer)⟩

/-! ### Runs that return -/

/-- A script returns a value and asks these questions on the way. -/
def Reads (store : Store σ Q A ε) (s : σ) (script : Script Q A ε α) (questions : List Q) (value : α) : Prop :=
  store.outcome s script = .ok value ∧ store.asked s script = questions

variable {questions : List Q}

@[simp] theorem reads_pure {value value' : α} :
    store.Reads s (pure value : Script Q A ε α) questions value' ↔ value = value' ∧ questions = [] := by
  simp [Reads, eq_comm]

@[simp] theorem reads_lift {x : Except ε α} {value : α} :
    store.Reads s (Script.lift x) questions value ↔ x = .ok value ∧ questions = [] := by
  simp [Reads, eq_comm]

theorem reads_bind {f : α → Script Q A ε β} {value : β} :
    store.Reads s (script >>= f) questions value ↔ ∃ mid first rest, store.Reads s script first mid ∧
      store.Reads s (f mid) rest value ∧ questions = first ++ rest := by
  unfold Reads
  rw [outcome_bind, asked_bind]
  cases store.outcome s script with
  | error reason =>
    constructor
    · rintro ⟨h, -⟩
      cases h
    · rintro ⟨_, _, _, ⟨h, -⟩, -⟩
      cases h
  | ok mid =>
    constructor
    · rintro ⟨h, rfl⟩
      exact ⟨mid, _, _, ⟨rfl, rfl⟩, ⟨h, rfl⟩, rfl⟩
    · rintro ⟨_, _, _, ⟨hmid, rfl⟩, ⟨h, rfl⟩, rfl⟩
      cases hmid
      exact ⟨h, rfl⟩

theorem reads_lift_bind {x : Except ε α} {f : α → Script Q A ε β} {value : β} :
    store.Reads s (Script.lift x >>= f) questions value ↔
      ∃ mid, x = .ok mid ∧ store.Reads s (f mid) questions value := by
  rw [reads_bind]
  simp only [reads_lift]
  constructor
  · rintro ⟨mid, _, rest, ⟨hmid, rfl⟩, hrest, rfl⟩
    exact ⟨mid, hmid, hrest⟩
  · rintro ⟨mid, hmid, hrest⟩
    exact ⟨mid, [], questions, ⟨hmid, rfl⟩, hrest, rfl⟩

/-! ### Runs that are refused -/

/-- No question the script asks marks the store. -/
def Unmarked (store : Store σ Q A ε) (s : σ) (script : Script Q A ε α) : Prop :=
  ∀ q ∈ store.asked s script, store.mark s q = s

/-- **A run leaves its store as it was exactly when no question it asks marks the store.** -/
theorem run_unchanged_iff (script : Script Q A ε α) (s : σ) :
    (store.run script s).2 = s ↔ store.Unmarked s script := by
  rw [run_eq]
  exact foldl_mark_eq_iff _ _

/-- The condition under which a script leaves no mark when it stops for one of these reasons. -/
def Judges (store : Store σ Q A ε) (refusal : ε → Prop) (s : σ) (script : Script Q A ε α) (cond : Prop) :
    Prop :=
  ∀ reason, refusal reason → store.outcome s script = .error reason → (store.Unmarked s script ↔ cond)

variable {refusal : ε → Prop} {cond cond' : Prop}

theorem Judges.congr (h : store.Judges refusal s script cond) (hcond : cond ↔ cond') :
    store.Judges refusal s script cond' :=
  fun reason hrefusal hstop => (h reason hrefusal hstop).trans hcond

/-- A script that asks nothing leaves no mark. -/
theorem Judges.silent (h : script.Silent) : store.Judges refusal s script True :=
  fun _ _ _ => iff_true_intro fun q hq => by
    rw [asked_silent h] at hq
    cases hq

/-- A script that is not refused is judged by anything. -/
theorem Judges.never (h : ∀ reason, refusal reason → store.outcome s script ≠ .error reason) :
    store.Judges refusal s script cond :=
  fun reason hrefusal hstop => absurd hstop (h reason hrefusal)

/-- What follows a step that asks nothing is judged where the step returns. -/
theorem Judges.bind {f : α → Script Q A ε β} {cond : α → Prop} (hsilent : script.Silent)
    (h : ∀ value, store.outcome s script = .ok value → store.Judges refusal s (f value) (cond value)) :
    store.Judges refusal s (script >>= f) (∀ value, store.outcome s script = .ok value → cond value) := by
  intro reason hrefusal hstop
  unfold Unmarked
  rw [outcome_bind] at hstop
  rw [asked_bind, asked_silent hsilent, List.nil_append]
  cases houtcome : store.outcome s script with
  | error stopped => simp
  | ok value =>
    rw [houtcome] at hstop
    rw [houtcome] at h
    refine (h value rfl reason hrefusal hstop).trans ⟨fun hcond other heq => ?_, fun hcond => hcond value rfl⟩
    cases heq
    exact hcond

theorem Judges.lift {x : Except ε α} {f : α → Script Q A ε β} {cond : α → Prop}
    (h : ∀ value, x = .ok value → store.Judges refusal s (f value) (cond value)) :
    store.Judges refusal s (Script.lift x >>= f) (∀ value, x = .ok value → cond value) := by
  have hbind : store.Judges refusal s (Script.lift x >>= f)
      (∀ value, store.outcome s (Script.lift x) = .ok value → cond value) :=
    Judges.bind (Script.silent_lift x) (by rwa [outcome_lift])
  rwa [outcome_lift] at hbind

/-- A question marks the store or does not, and what follows is judged by its answer. -/
theorem Judges.ask {question : Q} {f : A → Script Q A ε β} {cond : A → Prop}
    (h : ∀ answer, store.answer s question = .ok answer → store.Judges refusal s (f answer) (cond answer)) :
    store.Judges refusal s (Script.query question >>= f)
      (∀ answer, store.answer s question = .ok answer → store.mark s question = s ∧ cond answer) := by
  intro reason hrefusal hstop
  unfold Unmarked
  rw [outcome_bind, outcome_query] at hstop
  rw [asked_bind, asked_query, outcome_query]
  cases hanswer : store.answer s question with
  | error stopped => simp
  | ok answer =>
    rw [hanswer] at hstop
    have hnext := h answer hanswer reason hrefusal hstop
    unfold Unmarked at hnext
    simp [hnext]

end Store

end IreeRocket.Marking
