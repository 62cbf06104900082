import Chip8.Proofs.Firing
import Mathlib.Data.List.Chain

/-!
# The pace of a task

Each firing of a task starts its period anew.  So a task never runs ahead of
its frequency, however the time is read, and with readings that go forward in
small enough steps it falls behind by less than one step for each firing.  Both
bounds are carried along by the reading of the last firing.
-/

namespace Chip8

theorem Task.due_iff {α : Type} {task : Task α} (hperiod : 0 < task.period)
    (now : Nat) :
    task.due now = true ↔ task.lastFired + task.period ≤ now := by
  rw [due, decide_eq_true_iff]
  omega

namespace Clock

variable {α ε σ : Type}

/-- What a host asks of a clock: to tick, with any behaviour of the tasks and in
any state of what they work on, or to take on another task. -/
inductive Call (α ε σ : Type)
  | tick (act : α → σ → Outcome ε σ) (state : σ)
  | schedule (label : α) (frequency : Float)

/-- The clock that a call leaves. -/
def answer (c : Clock α) : Call α ε σ → Clock α
  | .tick act state => (c.tick act state).1
  | .schedule label frequency => (c.schedule label frequency).state

/-- The clock that a number of calls leave. -/
def run (c : Clock α) (calls : List (Call α ε σ)) : Clock α :=
  calls.foldl answer c

/-- The reading that a call takes to see which tasks are due. -/
def reading? (c : Clock α) : Call α ε σ → Option Nat
  | .tick _ _ => c.source.map Tape.head
  | .schedule _ _ => none

/-- The reading at which a call runs the task at a place, if it does. -/
def firing? (c : Clock α) (place : Nat) : Call α ε σ → Option Nat
  | .tick act state =>
    (c.source.map Tape.head).filter fun now =>
      runs act now c.tasks state place
  | .schedule _ _ => none

/-- The readings of the ticks among a number of calls. -/
def readings (c : Clock α) : List (Call α ε σ) → List Nat
  | [] => []
  | call :: rest => (c.reading? call).toList ++ (c.answer call).readings rest

/-- The readings at which a number of calls run the task at a place. -/
def firings (c : Clock α) (place : Nat) : List (Call α ε σ) → List Nat
  | [] => []
  | call :: rest =>
    (c.firing? place call).toList ++ (c.answer call).firings place rest

/-- No task goes wrong in a call. -/
def GoesWell (c : Clock α) : Call α ε σ → Prop
  | .tick act state => (c.tick act state).2.error = none
  | .schedule _ _ => True

/-- No task goes wrong in any of a number of calls. -/
def AllGoWell (c : Clock α) : List (Call α ε σ) → Prop
  | [] => True
  | call :: rest => c.GoesWell call ∧ (c.answer call).AllGoWell rest

variable {c : Clock α} {place : Nat} {task : Task α} {call : Call α ε σ}

theorem firings_append (c : Clock α) (place : Nat)
    (calls more : List (Call α ε σ)) :
    c.firings place (calls ++ more) =
      c.firings place calls ++ (c.run calls).firings place more := by
  induction calls generalizing c with
  | nil => rfl
  | cons call rest ih =>
      rw [List.cons_append, firings, firings, ih, List.append_assoc]
      rfl

/-! ## One call -/

/-- A task that is taken on comes last and counts from now, and one that is
refused leaves the clock as it was. -/
theorem schedule_cases (c : Clock α) (label : α) (frequency : Float) :
    (∃ source, c.source = some source ∧
      c.schedule label frequency = .ok
        ⟨some source.advance,
          c.tasks ++ [⟨label, period frequency, source.head⟩]⟩) ∨
    ∃ reason, c.schedule label frequency = .fail c reason := by
  simp only [schedule]
  split
  next => exact Or.inr ⟨_, rfl⟩
  next source hsource =>
    split
    · exact Or.inl ⟨source, hsource, rfl⟩
    · exact Or.inr ⟨_, rfl⟩

/-- A call leaves a task where it was, and lets it count anew from a reading at
which it has run it. -/
theorem answer_task (htask : c.tasks[place]? = some task)
    (call : Call α ε σ) :
    (c.answer call).tasks[place]? =
      some { task with
        lastFired := (c.firing? place call).getD task.lastFired } := by
  cases call with
  | schedule label frequency =>
      rw [answer]
      rcases c.schedule_cases label frequency with
        ⟨source, -, hschedule⟩ | ⟨reason, hschedule⟩
      · obtain ⟨hplace, -⟩ := List.getElem?_eq_some_iff.mp htask
        rw [hschedule, Outcome.state_ok, List.getElem?_append_left hplace,
          htask]
        rfl
      · rw [hschedule]
        exact htask
  | tick act state =>
      cases hsource : c.source with
      | none => simpa [answer, tick, firing?, hsource] using htask
      | some source =>
          simp only [answer, tick, hsource, firing?, Option.map_some,
            Option.filter_some, getElem?_fire htask]
          split
          · rfl
          · rfl

theorem due_of_firing? {now : Nat} (htask : c.tasks[place]? = some task)
    (h : c.firing? place call = some now) : task.due now = true := by
  cases call with
  | schedule label frequency => cases h
  | tick act state =>
      obtain ⟨-, hruns⟩ := Option.filter_eq_some_iff.mp h
      rw [runs, htask, Option.any_some, Bool.and_eq_true] at hruns
      exact hruns.1

theorem lastFired_add_period_le {now : Nat}
    (htask : c.tasks[place]? = some task) (hperiod : 0 < task.period)
    (h : c.firing? place call = some now) :
    task.lastFired + task.period ≤ now :=
  (Task.due_iff hperiod now).mp (due_of_firing? htask h)

theorem firing?_of_goesWell (htask : c.tasks[place]? = some task)
    (hwell : c.GoesWell call) :
    c.firing? place call = (c.reading? call).filter task.due := by
  cases call with
  | schedule label frequency => rfl
  | tick act state =>
      cases hsource : c.source with
      | none => simp [firing?, reading?, hsource]
      | some source =>
          have hok : (fire act source.head c.tasks state).2.error = none := by
            simpa [GoesWell, tick, hsource] using hwell
          simp [firing?, reading?, hsource, Option.filter_some,
            runs_of_ok htask hok]

/-! ## Any number of calls -/

theorem run_task (htask : c.tasks[place]? = some task)
    (calls : List (Call α ε σ)) :
    (c.run calls).tasks[place]? =
      some { task with
        lastFired := (c.firings place calls).getLastD task.lastFired } := by
  induction calls generalizing c task with
  | nil => exact htask
  | cons call rest ih =>
      have hrest := ih (answer_task htask call)
      rw [run, List.foldl_cons, ← run, hrest, firings]
      cases c.firing? place call with
      | none => rfl
      | some now =>
          rw [Option.getD_some, Option.toList_some, List.singleton_append,
            List.getLastD_cons]

/-- A task that runs again is due again by then. -/
theorem due_of_head?_firings {next : Nat}
    (htask : c.tasks[place]? = some task) {calls : List (Call α ε σ)}
    (h : (c.firings place calls).head? = some next) :
    task.due next = true := by
  induction calls generalizing c with
  | nil => cases h
  | cons call rest ih =>
      have hkept := answer_task htask call
      rw [firings] at h
      cases hfiring : c.firing? place call with
      | none =>
          rw [hfiring] at h hkept
          exact ih hkept h
      | some now =>
          rw [hfiring] at h
          cases h
          exact due_of_firing? htask hfiring

/-- Firings are a period apart, and so is the first one from the last before. -/
theorem isChain_firings (htask : c.tasks[place]? = some task)
    (hperiod : 0 < task.period) (calls : List (Call α ε σ)) :
    (task.lastFired :: c.firings place calls).IsChain
      (fun a b => a + task.period ≤ b) := by
  induction calls generalizing c task with
  | nil => exact List.isChain_singleton _
  | cons call rest ih =>
      have hrest := ih (answer_task htask call) hperiod
      rw [firings]
      cases hfiring : c.firing? place call with
      | none =>
          rw [hfiring] at hrest
          exact hrest
      | some now =>
          rw [hfiring] at hrest
          have hsoonest := lastFired_add_period_le htask hperiod hfiring
          exact List.isChain_cons_cons.mpr ⟨hsoonest, hrest⟩

theorem add_length_mul_le_getLastD {first period : Nat} {fired : List Nat}
    (h : (first :: fired).IsChain fun a b => a + period ≤ b) :
    first + fired.length * period ≤ fired.getLastD first := by
  induction fired generalizing first with
  | nil => simp
  | cons next rest ih =>
      obtain ⟨hnext, hrest⟩ := List.isChain_cons_cons.mp h
      have hlast := ih hrest
      rw [List.getLastD_cons, List.length_cons, Nat.succ_mul]
      omega

/-- If no task goes wrong, and readings go forward in steps that have a bound,
the last reading is less than a period later than the firings account for. -/
theorem getLastD_readings_lt {now gap : Nat}
    (htask : c.tasks[place]? = some task) (hperiod : 0 < task.period)
    (hfired : task.lastFired ≤ now)
    (hrecent : now < task.lastFired + task.period)
    {calls : List (Call α ε σ)}
    (hsteps : (now :: c.readings calls).IsChain
      fun a b => a ≤ b ∧ b ≤ a + gap)
    (hwell : c.AllGoWell calls) :
    (c.readings calls).getLastD now < task.lastFired +
      (c.firings place calls).length * (task.period + gap) + task.period := by
  -- The bounds on `now` hold after every call: a reading beyond them has the
  -- task run, and the count goes on from that reading.
  induction calls generalizing c task now with
  | nil => simpa [readings, firings] using hrecent
  | cons call rest ih =>
      obtain ⟨hcall, hothers⟩ := hwell
      have hfiring := firing?_of_goesWell htask hcall
      have hkept := answer_task htask call
      rw [readings] at hsteps ⊢
      rw [firings]
      cases hreading : c.reading? call with
      | none =>
          rw [hreading] at hsteps hfiring
          rw [hfiring] at hkept ⊢
          exact ih hkept hperiod hfired hrecent hsteps hothers
      | some next =>
          rw [hreading] at hsteps hfiring
          obtain ⟨⟨hforward, hclose⟩, hrest⟩ := List.isChain_cons_cons.mp hsteps
          by_cases hdue : task.due next = true
          · rw [Option.filter_some, if_pos hdue] at hfiring
            rw [hfiring] at hkept ⊢
            have hlast := ih hkept hperiod (Nat.le_refl next)
              (Nat.lt_add_of_pos_right hperiod) hrest hothers
            simp only [Option.toList_some, List.singleton_append,
              List.getLastD_cons, List.length_cons, Nat.succ_mul]
            simp only [Option.getD_some] at hlast
            omega
          · rw [Option.filter_some, if_neg hdue] at hfiring
            rw [hfiring] at hkept ⊢
            rw [Task.due_iff hperiod] at hdue
            rw [Option.toList_some, List.singleton_append, List.getLastD_cons]
            exact ih hkept hperiod (Nat.le_trans hfired hforward)
              (Nat.lt_of_not_le hdue) hrest hothers

/-- The pace of a task from when it is taken on.  Whatever else a clock runs and
however the time is read, firings are a period apart, the last of them is the
one that the task remembers, it never moves back, and it is late enough for as
many periods.  If moreover readings go forward in steps that have a bound and
no task goes wrong, they are not later than one more firing, with every period
longer by such a step, would account for. -/
theorem firings_keep_pace (c d : Clock α) (source : Tape Nat) (label : α)
    (frequency : Float) (hsource : c.source = some source)
    (hschedule : c.schedule label frequency = .ok d)
    (hperiod : 0 < period frequency) (calls : List (Call α ε σ)) :
    let place := c.tasks.length
    let start := source.head
    let fired := d.firings place calls
    (start :: fired).IsChain (fun a b => a + period frequency ≤ b) ∧
    (d.run calls).tasks[place]? =
      some ⟨label, period frequency, fired.getLastD start⟩ ∧
    (∀ more, fired.getLastD start ≤
      (d.firings place (calls ++ more)).getLastD start) ∧
    start + fired.length * period frequency ≤ fired.getLastD start ∧
    ∀ gap,
      (start :: d.readings calls).IsChain
        (fun a b => a ≤ b ∧ b ≤ a + gap) →
      d.AllGoWell calls →
      ∀ now, (d.readings calls).getLast? = some now →
        now < start + (fired.length + 1) * (period frequency + gap) := by
  intro place start fired
  have htask : d.tasks[place]? =
      some ⟨label, period frequency, start⟩ := by
    rcases c.schedule_cases label frequency with
      ⟨source', hsource', htaken⟩ | ⟨reason, hrefused⟩
    · rw [hsource] at hsource'
      cases hsource'
      rw [hschedule, Outcome.ok_inj] at htaken
      rw [htaken, List.getElem?_concat_length]
    · exact absurd (hschedule.symm.trans hrefused) Outcome.ok_ne_fail
  have hchain := isChain_firings htask hperiod calls
  refine ⟨hchain, run_task htask calls, ?_, ?_, ?_⟩
  · intro more
    have hmore := isChain_firings (run_task htask calls) hperiod more
    have hlast := add_length_mul_le_getLastD hmore
    have hboth : (d.firings place (calls ++ more)).getLastD start =
        ((d.run calls).firings place more).getLastD (fired.getLastD start) := by
      simp only [firings_append, List.getLastD_eq_getLast?,
        List.getLast?_append, Option.getD_or, fired]
    rw [hboth]
    exact Nat.le_trans (Nat.le_add_right _ _) hlast
  · exact add_length_mul_le_getLastD hchain
  · intro gap hsteps hwell now hnow
    have hlast : (d.readings calls).getLastD start <
        start + fired.length * (period frequency + gap) + period frequency :=
      getLastD_readings_lt htask hperiod (Nat.le_refl start)
        (Nat.lt_add_of_pos_right hperiod) hsteps hwell
    rw [List.getLastD_eq_getLast?, hnow, Option.getD_some] at hlast
    rw [Nat.succ_mul]
    omega

/-- A task of a microsecond, asked after every 900 nanoseconds, runs every
second time. -/
theorem firings_keep_pace_of_microsecond :
    let c : Clock Bool := ⟨some (.ofCells fun n => 900 * n), [⟨false, 500, 0⟩]⟩
    let act : Bool → Nat → Outcome Unit Nat := fun _ runs => .ok (runs + 1)
    let calls := List.replicate 4 (Call.tick act 0)
    ∃ d, c.schedule true 1e6 = .ok d ∧ 0 < period 1e6 ∧
      d.AllGoWell calls ∧
      d.firings c.tasks.length calls = [1800, 3600] ∧
      (d.readings calls).getLast? = some 3600 ∧
      0 + 2 * period 1e6 ≤ 3600 ∧ 3600 < 0 + (2 + 1) * (period 1e6 + 900) := by
  intro c act calls
  obtain ⟨d, hschedule, hperiod, hwell, hfired, hreadings⟩ : ∃ d,
      c.schedule true 1e6 = .ok d ∧ 0 < period 1e6 ∧ d.AllGoWell calls ∧
      d.firings c.tasks.length calls = [1800, 3600] ∧
      d.readings calls = [900, 1800, 2700, 3600] :=
    ⟨_, rfl, by decide +kernel, ⟨rfl, rfl, rfl, rfl, trivial⟩,
      by decide +kernel, by decide +kernel⟩
  have hlast : (d.readings calls).getLast? = some 3600 := by
    rw [hreadings]
    rfl
  have hsteps : (0 :: d.readings calls).IsChain
      fun a b => a ≤ b ∧ b ≤ a + 900 := by
    rw [hreadings]
    decide
  obtain ⟨-, -, -, hsoonest, hlatest⟩ :=
    firings_keep_pace c d _ true 1e6 rfl hschedule hperiod calls
  have hbound := hlatest 900 hsteps hwell 3600 hlast
  rw [hfired] at hsoonest hbound
  exact ⟨d, hschedule, hperiod, hwell, hfired, hlast, hsoonest, hbound⟩

end Clock

end Chip8
