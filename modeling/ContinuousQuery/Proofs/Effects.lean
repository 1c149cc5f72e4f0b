import Mathlib.Data.List.Basic

/-!
Computations that can fail, with and without a state. Work done one piece after the other fails
where one piece does, and what it has done by then remains. A computation that keeps more state
than another one looks like it, if its pieces do.
-/

namespace ContinuousQuery

section Except

variable {ε α β γ : Type}

theorem bind_eq_ok_iff {first : Except ε α} {second : α → Except ε β} {result : β} :
    first >>= second = .ok result ↔ ∃ middle, first = .ok middle ∧ second middle = .ok result := by
  cases first with
  | error error => simp [bind, Except.bind]
  | ok middle => simp [bind, Except.bind]

theorem map_eq_ok_iff {result : Except ε α} {view : α → β} {shown : β} :
    result.map view = .ok shown ↔ ∃ value, result = .ok value ∧ view value = shown := by
  cases result <;> simp [Except.map]

theorem foldlM_concat_eq_ok_iff {step : β → α → Except ε β} {before : List α} {last : α}
    {start result : β} :
    (before ++ [last]).foldlM step start = .ok result ↔
      ∃ middle, before.foldlM step start = .ok middle ∧ step middle last = .ok result := by
  have alone : ∀ middle, [last].foldlM step middle = step middle last := fun middle => by
    rw [List.foldlM_cons]
    exact bind_pure _
  rw [List.foldlM_append, bind_eq_ok_iff]
  simp only [alone]

theorem foldlM_eq_error_iff {step : β → α → Except ε β} {entries : List α} {start : β} {error : ε} :
    entries.foldlM step start = .error error ↔
      ∃ before failing after middle, entries = before ++ failing :: after ∧
        before.foldlM step start = .ok middle ∧ step middle failing = .error error := by
  induction entries generalizing start with
  | nil => simp [pure, Except.pure]
  | cons head rest ih =>
    rw [List.foldlM_cons]
    constructor
    · intro failed
      cases first : step start head with
      | error refusal =>
        rw [first] at failed
        exact ⟨[], head, rest, start, rfl, rfl, first.trans failed⟩
      | ok next =>
        rw [first] at failed
        obtain ⟨before, failing, after, middle, rfl, done, stopped⟩ := ih.mp failed
        exact ⟨head :: before, failing, after, middle, rfl,
          bind_eq_ok_iff.mpr ⟨next, first, done⟩, stopped⟩
    · rintro ⟨before, failing, after, middle, parts, done, stopped⟩
      cases before with
      | nil =>
        cases parts
        cases done
        rw [stopped]
        rfl
      | cons _ before =>
        cases parts
        obtain ⟨next, first, later⟩ := bind_eq_ok_iff.mp done
        rw [first]
        exact ih.mpr ⟨before, failing, after, middle, rfl, later, stopped⟩

end Except

section State

variable {ε σ τ α β : Type}

theorem run_get_bind (later : σ → EStateM ε σ α) (state : σ) :
    (get >>= later).run state = (later state).run state := rfl

theorem run_bind_of_ok {first : EStateM ε σ α} {second : α → EStateM ε σ β} {before middle : σ}
    {value : α} (done : first.run before = .ok value middle) :
    (first >>= second).run before = (second value).run middle := by
  rw [EStateM.run_bind, done]

theorem run_bind_eq_ok_iff {first : EStateM ε σ α} {second : α → EStateM ε σ β} {before after : σ}
    {result : β} :
    (first >>= second).run before = .ok result after ↔
      ∃ value middle, first.run before = .ok value middle ∧
        (second value).run middle = .ok result after := by
  rw [EStateM.run_bind]
  cases first.run before <;> simp

theorem forM_singleton (work : α → EStateM ε σ Unit) (value : α) : [value].forM work = work value :=
  bind_pure_unit

theorem forM_append (work : α → EStateM ε σ Unit) (before later : List α) :
    (before ++ later).forM work = before.forM work >>= fun _ => later.forM work :=
  List.forM_append

theorem run_forM_eq_error_iff {work : α → EStateM ε σ Unit} {entries : List α} {start final : σ}
    {error : ε} :
    (entries.forM work).run start = .error error final ↔
      ∃ before failing after middle, entries = before ++ failing :: after ∧
        (before.forM work).run start = .ok () middle ∧
        (work failing).run middle = .error error final := by
  induction entries generalizing start with
  | nil => exact ⟨nofun, fun ⟨_, _, _, _, parts, _⟩ => by simp at parts⟩
  | cons head rest ih =>
    rw [List.forM, EStateM.run_bind]
    constructor
    · intro failed
      cases first : (work head).run start with
      | error refusal stopped =>
        rw [first] at failed
        exact ⟨[], head, rest, start, rfl, rfl, first.trans failed⟩
      | ok _ next =>
        rw [first] at failed
        obtain ⟨before, failing, after, middle, rfl, done, stopped⟩ := ih.mp failed
        exact ⟨head :: before, failing, after, middle, rfl,
          (run_bind_of_ok first).trans done, stopped⟩
    · rintro ⟨before, failing, after, middle, parts, done, stopped⟩
      cases before with
      | nil =>
        cases parts
        cases done
        rw [stopped]
      | cons _ before =>
        cases parts
        obtain ⟨_, next, first, later⟩ := run_bind_eq_ok_iff.mp done
        rw [first]
        exact ih.mpr ⟨before, failing, after, middle, rfl, later, stopped⟩

/-- An outcome of which only a view of the state is shown. -/
def shown (view : σ → τ) : EStateM.Result ε σ α → EStateM.Result ε τ α
  | .ok value state => .ok value (view state)
  | .error error state => .error error (view state)

theorem shown_eq_error_iff {view : σ → τ} {result : EStateM.Result ε σ α} {error : ε} {after : τ} :
    shown view result = .error error after ↔
      ∃ state, result = .error error state ∧ view state = after := by
  cases result <;> simp [shown]

theorem shown_eq_ok_iff {view : σ → τ} {result : EStateM.Result ε σ α} {value : α} {after : τ} :
    shown view result = .ok value after ↔
      ∃ state, result = .ok value state ∧ view state = after := by
  cases result <;> simp [shown]

/-- Through a view of its state, the one computation looks like the other one. -/
def Shows (view : σ → τ) (inner : EStateM ε σ α) (outer : EStateM ε τ α) : Prop :=
  ∀ state, shown view (inner.run state) = outer.run (view state)

variable {view : σ → τ}

theorem shows_pure (value : α) : Shows view (pure value : EStateM ε σ α) (pure value) :=
  fun _ => rfl

theorem shows_throw (error : ε) : Shows view (throw error : EStateM ε σ α) (throw error) :=
  fun _ => rfl

theorem Shows.bind {inner : EStateM ε σ α} {outer : EStateM ε τ α} (first : Shows view inner outer)
    {later : α → EStateM ε σ β} {rest : α → EStateM ε τ β}
    (second : ∀ value, Shows view (later value) (rest value)) :
    Shows view (inner >>= later) (outer >>= rest) := by
  intro state
  rw [EStateM.run_bind, EStateM.run_bind, ← first state]
  cases inner.run state with
  | ok value after => exact second value after
  | error error after => rfl

theorem shows_forM {values : List β} {inner : β → EStateM ε σ Unit} {outer : β → EStateM ε τ Unit}
    (same : ∀ value ∈ values, Shows view (inner value) (outer value)) :
    Shows view (values.forM inner) (values.forM outer) := by
  induction values with
  | nil => exact shows_pure _
  | cons value rest ih =>
    obtain ⟨here, later⟩ := List.forall_mem_cons.mp same
    exact here.bind fun _ => ih later

end State

end ContinuousQuery
