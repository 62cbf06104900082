/-!
# Outcomes

An operation that can go wrong half way leaves a state in either case: what it
did before it went wrong stays done.
-/

namespace Chip8

/-- The state an operation leaves, and the error that stopped it if one did. -/
structure Outcome (ε σ : Type) where
  state : σ
  error : Option ε
  deriving DecidableEq, Repr

namespace Outcome

variable {δ ε σ τ : Type}

/-- The outcome of an operation that went well. -/
def ok (state : σ) : Outcome ε σ := ⟨state, none⟩

/-- The outcome of an operation that was stopped. -/
def fail (state : σ) (error : ε) : Outcome ε σ := ⟨state, some error⟩

/-- The same outcome seen as part of a larger state. -/
def map (f : σ → τ) (o : Outcome ε σ) : Outcome ε τ := ⟨f o.state, o.error⟩

/-- The same outcome with its error seen as one of a larger kind. -/
def mapError (f : ε → δ) (o : Outcome ε σ) : Outcome δ σ := ⟨o.state, o.error.map f⟩

/-- Go on from where an operation has ended, unless it was stopped. -/
def andThen (o : Outcome ε σ) (next : σ → Outcome ε σ) : Outcome ε σ :=
  match o.error with
  | none => next o.state
  | some _ => o

@[simp] theorem state_ok (s : σ) : (ok s : Outcome ε σ).state = s := rfl

@[simp] theorem error_ok (s : σ) : (ok s : Outcome ε σ).error = none := rfl

@[simp] theorem state_fail (s : σ) (e : ε) : (fail s e).state = s := rfl

@[simp] theorem error_fail (s : σ) (e : ε) : (fail s e).error = some e := rfl

@[simp] theorem state_map (f : σ → τ) (o : Outcome ε σ) : (o.map f).state = f o.state := rfl

@[simp] theorem error_map (f : σ → τ) (o : Outcome ε σ) : (o.map f).error = o.error := rfl

@[simp] theorem mapError_ok (f : ε → δ) (s : σ) : (ok s : Outcome ε σ).mapError f = ok s := rfl

@[simp] theorem mapError_fail (f : ε → δ) (s : σ) (e : ε) :
    (fail s e).mapError f = fail s (f e) := rfl

@[simp] theorem ok_andThen (s : σ) (next : σ → Outcome ε σ) : (ok s).andThen next = next s := rfl

@[simp] theorem fail_andThen (s : σ) (e : ε) (next : σ → Outcome ε σ) :
    (fail s e).andThen next = fail s e := rfl

@[simp] theorem ok_inj {s t : σ} : (ok s : Outcome ε σ) = ok t ↔ s = t := by simp [ok]

@[simp] theorem ok_ne_fail {s t : σ} {e : ε} : ok s ≠ fail t e := by simp [ok, fail]

theorem eq_ok_of_error {o : Outcome ε σ} (h : o.error = none) : o = ok o.state := by
  rw [ok, ← h]

end Outcome

end Chip8
