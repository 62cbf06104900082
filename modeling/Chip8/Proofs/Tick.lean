import Chip8.Proofs.Pace

/-!
# One tick

A tick takes one reading and judges every task by it.  The tasks that are due
run in turn until one of them goes wrong, and those that have run, that one
included, count anew from the reading.  So a tick stops at some place in the
list of tasks, and the place tells everything: each task before it has had its
turn, and each from it on is as it was, still due if it was due.
-/

namespace Chip8

/-- Pieces of work done in turn: each starts from the state that the one before
has left, and none is done after one that goes wrong. -/
inductive Outcome.InTurn {α ε σ : Type} (act : α → σ → Outcome ε σ) :
    List α → σ → Outcome ε σ → Prop
  | idle (state : σ) : InTurn act [] state (.ok state)
  | stopped {label : α} {state : σ} {error : ε}
      (herror : (act label state).error = some error) :
      InTurn act [label] state (act label state)
  | next {label : α} {rest : List α} {state : σ} {outcome : Outcome ε σ}
      (hok : (act label state).error = none)
      (hrest : InTurn act rest (act label state).state outcome) :
      InTurn act (label :: rest) state outcome

/-- A task that has had its turn at a reading: it counts anew if it was due. -/
def Task.afterTurn {α : Type} (now : Nat) (task : Task α) : Task α :=
  if task.due now then { task with lastFired := now } else task

namespace Clock

variable {α ε σ : Type} {act : α → σ → Outcome ε σ} {now : Nat}

/-- The same behaviour of the tasks, with a note of each that runs. -/
def noting (act : α → σ → Outcome ε σ) (label : α) (noted : σ × List α) :
    Outcome ε (σ × List α) :=
  (act label noted.1).map fun state => (state, noted.2 ++ [label])

/-- Firing tasks calls the behaviour of the ones at the places that run, once
each and in order, and of no others. -/
theorem fire_noting (act : α → σ → Outcome ε σ) (now : Nat)
    (tasks : List (Task α)) (state : σ) (noted : List α) :
    (fire (noting act) now tasks (state, noted)).2 =
      (fire act now tasks state).2.map fun after =>
        (after, noted ++
          (tasks.zipIdx.filter fun entry =>
            runs act now tasks state entry.2).map (·.1.label)) := by
  induction tasks generalizing state noted with
  | nil => simp [fire_nil, Outcome.map, Outcome.ok]
  | cons task rest ih =>
      have hnoting :
          (noting act task.label (state, noted)).error =
            (act task.label state).error := rfl
      rw [List.zipIdx_cons, Nat.zero_add, List.zipIdx_succ, List.filter_cons,
        List.filter_map, runs_cons_zero]
      cases hdue : task.due now with
      | false =>
          simp only [Function.comp_def, runs_cons_succ_of_not_due _ _ _ hdue]
          rw [fire_cons_of_not_due _ _ hdue, fire_cons_of_not_due _ _ hdue, ih]
          simp [Function.comp_def]
      | true =>
          cases hfails : (act task.label state).error with
          | some error =>
              simp only [Function.comp_def,
                runs_cons_succ_of_error _ _ hdue hfails]
              rw [fire_cons_of_error _ hdue hfails,
                fire_cons_of_error _ hdue (hnoting.trans hfails)]
              simp [noting]
          | none =>
              simp only [Function.comp_def,
                runs_cons_succ_of_ok _ _ hdue hfails]
              rw [fire_cons_of_ok _ hdue hfails,
                fire_cons_of_ok _ hdue (hnoting.trans hfails)]
              simp [noting, ih, Outcome.map, Function.comp_def]

/-- The firings of a task are the calls of its behaviour: a tick calls it once
if it has a firing at the place of the task, and otherwise not at all. -/
theorem tick_noting (c : Clock α) (act : α → σ → Outcome ε σ) (state : σ)
    (noted : List α) :
    (c.tick (noting act) (state, noted)).2 =
      (c.tick act state).2.map fun after =>
        (after, noted ++
          (c.tasks.zipIdx.filter fun entry =>
            (c.firing? entry.2 (.tick act state)).isSome).map
              (·.1.label)) := by
  cases hsource : c.source with
  | none => simp [tick, firing?, hsource, Outcome.map, Outcome.ok]
  | some source =>
      have hfiring (place : Nat) :
          (c.firing? place (.tick act state)).isSome =
            runs act source.head c.tasks state place := by
        simp [firing?, hsource, Option.filter_some, apply_ite]
      simp only [hfiring, tick, hsource, fire_noting]

/-- Firing tasks stops at a place: the due ones before it run in turn, they
alone count anew, and none is left if all goes well. -/
structure StopsAt (act : α → σ → Outcome ε σ) (now : Nat)
    (tasks : List (Task α)) (state : σ) (stop : Nat) : Prop where
  tasks_eq : (fire act now tasks state).1 =
    (tasks.take stop).map (Task.afterTurn now) ++ tasks.drop stop
  inTurn : Outcome.InTurn act
    (((tasks.take stop).filter (·.due now)).map Task.label) state
    (fire act now tasks state).2
  noting_eq (noted : List α) :
    (fire (noting act) now tasks (state, noted)).2 =
      (fire act now tasks state).2.map fun after =>
        (after, noted ++
          ((tasks.take stop).filter (·.due now)).map Task.label)
  all_of_ok : (fire act now tasks state).2.error = none → stop = tasks.length

theorem stopsAt_nil (state : σ) : StopsAt act now [] state 0 where
  tasks_eq := rfl
  inTurn := .idle state
  noting_eq noted := by
    simp [fire_nil, Outcome.map, Outcome.ok]
  all_of_ok _ := rfl

variable {task : Task α} {rest : List (Task α)} {state : σ} {stop : Nat}

theorem StopsAt.cons_of_not_due (hdue : task.due now = false)
    (h : StopsAt act now rest state stop) :
    StopsAt act now (task :: rest) state (stop + 1) where
  tasks_eq := by
    have hkept : task.afterTurn now = task := by simp [Task.afterTurn, hdue]
    rw [fire_cons_of_not_due _ _ hdue, h.tasks_eq]
    simp [hkept]
  inTurn := by
    rw [fire_cons_of_not_due _ _ hdue]
    simpa [hdue] using h.inTurn
  noting_eq noted := by
    rw [fire_cons_of_not_due _ _ hdue, fire_cons_of_not_due _ _ hdue,
      h.noting_eq noted]
    simp [hdue]
  all_of_ok hok := by
    rw [fire_cons_of_not_due _ _ hdue] at hok
    rw [h.all_of_ok hok, List.length_cons]

theorem stopsAt_cons_of_error {error : ε} (hdue : task.due now = true)
    (herror : (act task.label state).error = some error) :
    StopsAt act now (task :: rest) state 1 where
  tasks_eq := by
    rw [fire_cons_of_error _ hdue herror]
    simp [Task.afterTurn, hdue]
  inTurn := by
    rw [fire_cons_of_error _ hdue herror]
    simpa [hdue] using Outcome.InTurn.stopped herror
  noting_eq noted := by
    have hnoting : (noting act task.label (state, noted)).error = some error :=
      herror
    rw [fire_cons_of_error _ hdue herror, fire_cons_of_error _ hdue hnoting]
    simp [noting, hdue]
  all_of_ok hok := by
    rw [fire_cons_of_error _ hdue herror, herror] at hok
    cases hok

theorem StopsAt.cons_of_ok (hdue : task.due now = true)
    (hok : (act task.label state).error = none)
    (h : StopsAt act now rest (act task.label state).state stop) :
    StopsAt act now (task :: rest) state (stop + 1) where
  tasks_eq := by
    rw [fire_cons_of_ok _ hdue hok, h.tasks_eq]
    simp [Task.afterTurn, hdue]
  inTurn := by
    rw [fire_cons_of_ok _ hdue hok]
    simpa [hdue] using Outcome.InTurn.next hok h.inTurn
  noting_eq noted := by
    have hnoting : (noting act task.label (state, noted)).error = none := hok
    have hrest := h.noting_eq (noted ++ [task.label])
    rw [fire_cons_of_ok _ hdue hok, fire_cons_of_ok _ hdue hnoting]
    simpa [noting, hdue] using hrest
  all_of_ok hnone := by
    rw [fire_cons_of_ok _ hdue hok] at hnone
    rw [h.all_of_ok hnone, List.length_cons]

theorem exists_stopsAt (act : α → σ → Outcome ε σ) (now : Nat)
    (tasks : List (Task α)) (state : σ) :
    ∃ stop, StopsAt act now tasks state stop := by
  induction tasks generalizing state with
  | nil => exact ⟨0, stopsAt_nil state⟩
  | cons task rest ih =>
      cases hdue : task.due now with
      | false =>
          obtain ⟨stop, hstop⟩ := ih state
          exact ⟨stop + 1, hstop.cons_of_not_due hdue⟩
      | true =>
          cases hfails : (act task.label state).error with
          | some error => exact ⟨1, stopsAt_cons_of_error hdue hfails⟩
          | none =>
              obtain ⟨stop, hstop⟩ := ih (act task.label state).state
              exact ⟨stop + 1, hstop.cons_of_ok hdue hfails⟩

theorem getElem?_turns (f : Task α → Task α) (tasks : List (Task α))
    (stop place : Nat) :
    ((tasks.take stop).map f ++ tasks.drop stop)[place]? =
      if place < stop then tasks[place]?.map f else tasks[place]? := by
  by_cases hbefore : place < stop
  · rw [if_pos hbefore]
    by_cases hin : place < tasks.length
    · rw [List.getElem?_append_left (by simp; omega), List.getElem?_map,
        List.getElem?_take_of_lt hbefore]
    · rw [List.getElem?_eq_none (by simp; omega),
        List.getElem?_eq_none (by omega), Option.map_none]
  · rw [if_neg hbefore]
    by_cases hin : stop ≤ tasks.length
    · rw [List.getElem?_append_right (by simp; omega), List.getElem?_drop]
      congr 1
      simp
      omega
    · rw [List.getElem?_eq_none (by simp; omega),
        List.getElem?_eq_none (by omega)]

theorem StopsAt.getElem?_fire {tasks : List (Task α)} {place : Nat}
    (h : StopsAt act now tasks state stop)
    (htask : tasks[place]? = some task) :
    (fire act now tasks state).1[place]? =
      some (if place < stop then task.afterTurn now else task) := by
  rw [h.tasks_eq, getElem?_turns, htask]
  split
  · rfl
  · rfl

/-- One tick, whatever the tasks do.  It takes one reading, and the tasks that
are due at it run in turn, each once, until one of them goes wrong, which is
then the outcome of the tick.  The tasks that have run count anew from the
reading, and the others are as they were.  So a task that was due and has not
run stays due at every reading from this one on, until it runs, and a task that
has run, whether it went wrong or not, does not run again before a period has
passed. -/
theorem tick_runs_due_in_turn (c : Clock α) (source : Tape Nat)
    (act : α → σ → Outcome ε σ) (state : σ)
    (hsource : c.source = some source) :
    let now := source.head
    let after := (c.tick act state).1
    let outcome := (c.tick act state).2
    after.source = some source.advance ∧
    after.reads = c.reads + 1 ∧
    ∃ stop,
      let ran := (c.tasks.take stop).filter (·.due now)
      let left := (c.tasks.drop stop).filter (·.due now)
      c.tasks.filter (·.due now) = ran ++ left ∧
      Outcome.InTurn act (ran.map Task.label) state outcome ∧
      (∀ noted, (c.tick (noting act) (state, noted)).2 =
        outcome.map fun last => (last, noted ++ ran.map Task.label)) ∧
      (outcome.error = none → left = []) ∧
      after.tasks.length = c.tasks.length ∧
      ∀ place task, c.tasks[place]? = some task →
        after.tasks[place]? = some
          (if place < stop ∧ task.due now = true then
            { task with lastFired := now } else task) ∧
        ∀ calls : List (Call α ε σ),
          (place < stop → task.due now = true →
            ∀ next, (after.firings place calls).head? = some next →
              task.period ≤ next - now) ∧
          (stop ≤ place → task.due now = true →
            after.firings place calls = [] →
            ∃ kept, (after.run calls).tasks[place]? = some kept ∧
              ∀ later, now ≤ later → kept.due later = true) := by
  intro now after outcome
  obtain ⟨stop, hstop⟩ := exists_stopsAt act now c.tasks state
  have htick : c.tick act state =
      (⟨some source.advance, (fire act now c.tasks state).1⟩,
        (fire act now c.tasks state).2) := by
    rw [tick, hsource]
  have htasks : after.tasks = (fire act now c.tasks state).1 :=
    congrArg (fun result => result.1.tasks) htick
  have houtcome : outcome = (fire act now c.tasks state).2 :=
    congrArg Prod.snd htick
  have hadvanced : after.source = some source.advance :=
    congrArg (fun result => result.1.source) htick
  refine ⟨hadvanced, ?_, stop, ?_⟩
  · simp only [reads, hadvanced, hsource, Tape.advance]
  intro ran left
  refine ⟨?_, ?_, ?_, ?_, ?_, ?_⟩
  · rw [← List.filter_append, List.take_append_drop]
  · rw [houtcome]
    exact hstop.inTurn
  · intro noted
    rw [houtcome, ← hstop.noting_eq, tick, hsource]
  · intro hok
    have hall := hstop.all_of_ok (houtcome ▸ hok)
    simp only [left, hall, List.drop_length, List.filter_nil]
  · rw [htasks, length_fire]
  · intro place task htask
    have hturn := hstop.getElem?_fire htask
    rw [← htasks] at hturn
    refine ⟨?_, ?_⟩
    · rw [hturn]
      by_cases hbefore : place < stop
      · simp only [hbefore, if_true, true_and, Task.afterTurn]
      · simp only [hbefore, if_false, false_and]
    · intro calls
      constructor
      · intro hbefore hdue next hnext
        rw [if_pos hbefore, Task.afterTurn, if_pos hdue] at hturn
        exact of_decide_eq_true (due_of_head?_firings hturn hnext)
      · intro hbehind hdue hnone
        rw [if_neg (Nat.not_lt.mpr hbehind)] at hturn
        have hkept := run_task hturn calls
        rw [hnone] at hkept
        refine ⟨task, hkept, ?_⟩
        intro later hlater
        have hperiod : task.period ≤ now - task.lastFired :=
          of_decide_eq_true hdue
        apply decide_eq_true
        omega

/-- Of four tasks the second is not due, and the third goes wrong.  The fourth
has not run and stays due, and the third waits for its period. -/
theorem tick_runs_due_in_turn_of_failing_task :
    let source : Tape Nat := .ofCells fun n => 1000 + 300 * n
    let c : Clock Nat :=
      ⟨some source, [⟨0, 100, 0⟩, ⟨1, 2000, 0⟩, ⟨2, 1000, 0⟩, ⟨3, 500, 0⟩]⟩
    let act : Nat → Nat → Outcome String Nat := fun label runs =>
      if label = 2 then .fail runs "stuck" else .ok (runs + 1)
    let after := (c.tick act 0).1
    c.source = some source ∧
      (c.tick (noting act) (0, [])).2 = .fail (1, [0, 2]) "stuck" ∧
      after.tasks.map Task.lastFired = [1000, 0, 1000, 0] ∧
      ∀ calls : List (Call Nat String Nat),
        (∀ next, (after.firings 2 calls).head? = some next →
          1000 ≤ next - 1000) ∧
        (after.firings 3 calls = [] →
          ∃ kept, (after.run calls).tasks[3]? = some kept ∧
            ∀ later, 1000 ≤ later → kept.due later = true) := by
  intro source c act after
  have hsource : c.source = some source := rfl
  obtain ⟨-, -, stop, -, -, -, -, -, hplaces⟩ :=
    tick_runs_due_in_turn c source act 0 hsource
  obtain ⟨hthird, hretry⟩ := hplaces 2 ⟨2, 1000, 0⟩ rfl
  obtain ⟨hfourth, hstill⟩ := hplaces 3 ⟨3, 500, 0⟩ rfl
  have hreached : 2 < stop := by
    by_contra hbehind
    rw [if_neg (fun h => hbehind h.1)] at hthird
    exact absurd hthird (by decide)
  have hleft : stop ≤ 3 := by
    by_contra hbefore
    rw [if_pos ⟨Nat.lt_of_not_le hbefore, rfl⟩] at hfourth
    exact absurd hfourth (by decide)
  refine ⟨hsource, by decide +kernel, by decide +kernel, ?_⟩
  intro calls
  exact ⟨(hretry calls).1 hreached rfl, (hstill calls).2 hleft rfl⟩

end Clock

end Chip8
