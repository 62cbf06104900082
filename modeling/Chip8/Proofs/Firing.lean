import Chip8.Clock

/-!
# Firing tasks one after another

What `Clock.fire` does with the first of its tasks: it passes over a task that
is not due, stops at one that fails, and otherwise goes on with what the task
has left.  The same goes for the first few of its tasks, and so for the task at
any place among them.  Tasks that treat two states alike are fired alike on both.
-/

namespace Chip8

/-- Two outcomes report the same and leave related states. -/
structure Outcome.Alike {ε σ : Type} (R : σ → σ → Prop)
    (o p : Outcome ε σ) : Prop where
  error : p.error = o.error
  state : R o.state p.state

namespace Clock

variable {α ε σ : Type} {act : α → σ → Outcome ε σ} {now : Nat}
  {task : Task α}

theorem fire_nil (state : σ) :
    fire act now [] state = ([], .ok state) := rfl

theorem fire_cons_of_not_due (rest : List (Task α)) (state : σ)
    (hdue : task.due now = false) :
    fire act now (task :: rest) state =
      (task :: (fire act now rest state).1, (fire act now rest state).2) := by
  simp [fire, hdue]

theorem fire_cons_of_error (rest : List (Task α)) {state : σ} {error : ε}
    (hdue : task.due now = true)
    (herror : (act task.label state).error = some error) :
    fire act now (task :: rest) state =
      ({ task with lastFired := now } :: rest, act task.label state) := by
  simp [fire, hdue, herror]

theorem fire_cons_of_ok (rest : List (Task α)) {state : σ}
    (hdue : task.due now = true)
    (hok : (act task.label state).error = none) :
    fire act now (task :: rest) state =
      ({ task with lastFired := now } ::
          (fire act now rest (act task.label state).state).1,
        (fire act now rest (act task.label state).state).2) := by
  simp [fire, hdue, hok]

/-- The first few tasks are fired, and then the others unless one of them has
gone wrong. -/
theorem fire_append (earlier later : List (Task α)) (state : σ) :
    fire act now (earlier ++ later) state =
      let first := fire act now earlier state
      if first.2.error.isSome then (first.1 ++ later, first.2)
      else
        let others := fire act now later first.2.state
        (first.1 ++ others.1, others.2) := by
  induction earlier generalizing state with
  | nil => rfl
  | cons task rest ih =>
      rw [List.cons_append]
      cases hdue : task.due now with
      | false =>
          rw [fire_cons_of_not_due _ _ hdue, fire_cons_of_not_due _ _ hdue, ih]
          dsimp only
          split
          · rfl
          · rfl
      | true =>
          cases hfails : (act task.label state).error with
          | some error =>
              rw [fire_cons_of_error _ hdue hfails,
                fire_cons_of_error _ hdue hfails]
              simp [hfails]
          | none =>
              rw [fire_cons_of_ok _ hdue hfails, fire_cons_of_ok _ hdue hfails,
                ih]
              dsimp only
              split
              · rfl
              · rfl

theorem length_fire (tasks : List (Task α)) (state : σ) :
    (fire act now tasks state).1.length = tasks.length := by
  induction tasks generalizing state with
  | nil => rfl
  | cons task rest ih =>
      simp only [fire]
      split
      · split
        · rfl
        · simp only [List.length_cons, ih]
      · simp only [List.length_cons, ih]

/-- The first task has fired if it was due, whatever comes after it. -/
theorem head?_fire_cons (task : Task α) (rest : List (Task α)) (state : σ) :
    (fire act now (task :: rest) state).1.head? =
      some (if task.due now then { task with lastFired := now } else task) := by
  cases hdue : task.due now with
  | false =>
      rw [fire_cons_of_not_due _ _ hdue]
      rfl
  | true =>
      cases hfails : (act task.label state).error with
      | some found =>
          rw [fire_cons_of_error _ hdue hfails]
          rfl
      | none =>
          rw [fire_cons_of_ok _ hdue hfails]
          rfl

/-- Whether firing tasks runs the one at a place: it is due, and no task before
it goes wrong. -/
def runs (act : α → σ → Outcome ε σ) (now : Nat) (tasks : List (Task α))
    (state : σ) (place : Nat) : Bool :=
  tasks[place]?.any (·.due now) &&
    (fire act now (tasks.take place) state).2.error.isNone

section

variable (rest : List (Task α)) {state : σ} (place : Nat)

theorem runs_cons_zero (state : σ) :
    runs act now (task :: rest) state 0 = task.due now := by
  simp [runs, fire_nil]

theorem runs_cons_succ_of_not_due (state : σ) (hdue : task.due now = false) :
    runs act now (task :: rest) state (place + 1) =
      runs act now rest state place := by
  rw [runs, runs, List.getElem?_cons_succ, List.take_succ_cons,
    fire_cons_of_not_due _ _ hdue]

theorem runs_cons_succ_of_error {error : ε} (hdue : task.due now = true)
    (herror : (act task.label state).error = some error) :
    runs act now (task :: rest) state (place + 1) = false := by
  rw [runs, List.take_succ_cons, fire_cons_of_error _ hdue herror, herror,
    Option.isNone_some, Bool.and_false]

theorem runs_cons_succ_of_ok (hdue : task.due now = true)
    (hok : (act task.label state).error = none) :
    runs act now (task :: rest) state (place + 1) =
      runs act now rest (act task.label state).state place := by
  rw [runs, runs, List.getElem?_cons_succ, List.take_succ_cons,
    fire_cons_of_ok _ hdue hok]

end

theorem getElem?_fire {tasks : List (Task α)} {place : Nat}
    (htask : tasks[place]? = some task) (state : σ) :
    (fire act now tasks state).1[place]? =
      some (if runs act now tasks state place then
        { task with lastFired := now } else task) := by
  obtain ⟨hplace, hget⟩ := List.getElem?_eq_some_iff.mp htask
  have hsplit : tasks =
      tasks.take place ++ task :: tasks.drop (place + 1) := by
    rw [← hget, List.getElem_cons_drop, List.take_append_drop]
  have hlength : (fire act now (tasks.take place) state).1.length = place := by
    rw [length_fire, List.length_take, Nat.min_eq_left (Nat.le_of_lt hplace)]
  have hat (others : List (Task α)) :
      ((fire act now (tasks.take place) state).1 ++ others)[place]? =
        others.head? := by
    rw [List.getElem?_append_right (Nat.le_of_eq hlength), hlength,
      Nat.sub_self, List.head?_eq_getElem?]
  rw [congrArg (fun tasks => (fire act now tasks state).1[place]?) hsplit,
    fire_append, runs, htask]
  cases hfails : (fire act now (tasks.take place) state).2.error with
  | some error => simp [hfails, hat]
  | none => simp [hfails, hat, head?_fire_cons]

/-- If all goes well, firing tasks runs the ones that are due. -/
theorem runs_of_ok {tasks : List (Task α)} {place : Nat}
    (htask : tasks[place]? = some task) {state : σ}
    (hok : (fire act now tasks state).2.error = none) :
    runs act now tasks state place = task.due now := by
  have hearlier : (fire act now (tasks.take place) state).2.error = none := by
    rw [← List.take_append_drop place tasks, fire_append] at hok
    dsimp only at hok
    split at hok
    · exact hok
    next hnone => exact Option.not_isSome_iff_eq_none.mp hnone
  rw [runs, htask, hearlier, Option.any_some, Option.isNone_none,
    Bool.and_true]

section Alike

variable {R : σ → σ → Prop} {s t : σ}

/-- Tasks that do alike on related states are fired alike on them. -/
theorem fire_alike
    (hact : ∀ label s t, R s t → (act label s).Alike R (act label t))
    (tasks : List (Task α)) (h : R s t) :
    (fire act now tasks t).1 = (fire act now tasks s).1 ∧
      (fire act now tasks s).2.Alike R (fire act now tasks t).2 := by
  induction tasks generalizing s t with
  | nil => exact ⟨rfl, rfl, h⟩
  | cons task rest ih =>
      cases hdue : task.due now with
      | false =>
          obtain ⟨htasks, hrest⟩ := ih h
          rw [fire_cons_of_not_due _ _ hdue, fire_cons_of_not_due _ _ hdue,
            htasks]
          exact ⟨rfl, hrest⟩
      | true =>
          have halike := hact task.label s t h
          cases hs : (act task.label s).error with
          | some error =>
              rw [fire_cons_of_error _ hdue hs,
                fire_cons_of_error _ hdue (halike.error.trans hs)]
              exact ⟨rfl, halike⟩
          | none =>
              obtain ⟨htasks, hrest⟩ := ih halike.state
              rw [fire_cons_of_ok _ hdue hs,
                fire_cons_of_ok _ hdue (halike.error.trans hs), htasks]
              exact ⟨rfl, hrest⟩

theorem tick_alike
    (hact : ∀ label s t, R s t → (act label s).Alike R (act label t))
    (c : Clock α) (h : R s t) :
    (tick act c t).1 = (tick act c s).1 ∧
      (tick act c s).2.Alike R (tick act c t).2 := by
  unfold tick
  split
  next => exact ⟨rfl, rfl, h⟩
  next source hsource =>
    obtain ⟨htasks, hrest⟩ := fire_alike hact c.tasks h
    dsimp only
    rw [htasks]
    exact ⟨rfl, hrest⟩

end Alike

end Clock

end Chip8
