set_option autoImplicit false

namespace IntScript

inductive Outcome (ε α : Type) where
  | done (value : α)
  | failed (error : ε)
  | outOfFuel
  deriving DecidableEq, Repr

namespace Outcome

variable {ε ε' α β : Type}

def map (f : α → β) : Outcome ε α → Outcome ε β
  | .done a => .done (f a)
  | .failed e => .failed e
  | .outOfFuel => .outOfFuel

def mapError (f : ε → ε') : Outcome ε α → Outcome ε' α
  | .done a => .done a
  | .failed e => .failed (f e)
  | .outOfFuel => .outOfFuel

def ofExcept : Except ε α → Outcome ε α
  | .ok a => .done a
  | .error e => .failed e

def toExcept : (r : Outcome ε α) → r ≠ .outOfFuel → Except ε α
  | .done a, _ => .ok a
  | .failed e, _ => .error e
  | .outOfFuel, h => absurd rfl h

end Outcome

/-- A computation over a state. However it ends, it hands back the state that it reached. -/
def Attempt (ε σ α : Type) : Type := σ → Outcome ε α × σ

namespace Attempt

variable {ε ε' σ τ α β : Type}

@[inline] def pure (a : α) : Attempt ε σ α := fun s => (.done a, s)

@[inline] def bind (m : Attempt ε σ α) (f : α → Attempt ε σ β) : Attempt ε σ β := fun s =>
  match m s with
  | (.done a, t) => f a t
  | (.failed e, t) => (.failed e, t)
  | (.outOfFuel, t) => (.outOfFuel, t)

instance : Monad (Attempt ε σ) where
  pure := pure
  bind := bind

@[inline] def fail (e : ε) : Attempt ε σ α := fun s => (.failed e, s)

@[inline] def outOfFuel : Attempt ε σ α := fun s => (.outOfFuel, s)

@[inline] def ofExcept (r : Except ε α) : Attempt ε σ α := fun s => (.ofExcept r, s)

@[inline] def ask (f : σ → α) : Attempt ε σ α := fun s => (.done (f s), s)

@[inline] def modify (f : σ → σ) : Attempt ε σ Unit := fun s => (.done (), f s)

@[inline] def mapError (f : ε → ε') (m : Attempt ε σ α) : Attempt ε' σ α := fun s =>
  match m s with
  | (r, t) => (r.mapError f, t)

theorem pure_apply (a : α) (s : σ) : (Pure.pure a : Attempt ε σ α) s = (.done a, s) := rfl

theorem bind_apply (m : Attempt ε σ α) (f : α → Attempt ε σ β) (s : σ) :
    (m >>= f) s = match m s with
      | (.done a, t) => f a t
      | (.failed e, t) => (.failed e, t)
      | (.outOfFuel, t) => (.outOfFuel, t) := rfl

theorem bind_of_done {m : Attempt ε σ α} {s t : σ} {a : α} (h : m s = (.done a, t))
    (f : α → Attempt ε σ β) : (m >>= f) s = f a t := by
  simp only [bind_apply, h]

theorem bind_of_failed {m : Attempt ε σ α} {s t : σ} {e : ε} (h : m s = (.failed e, t))
    (f : α → Attempt ε σ β) : (m >>= f) s = (.failed e, t) := by
  simp only [bind_apply, h]

theorem bind_of_outOfFuel {m : Attempt ε σ α} {s t : σ} (h : m s = (.outOfFuel, t))
    (f : α → Attempt ε σ β) : (m >>= f) s = (.outOfFuel, t) := by
  simp only [bind_apply, h]

theorem bind_congr {m : Attempt ε σ α} {f g : α → Attempt ε σ β} (h : ∀ a, f a = g a) :
    m >>= f = m >>= g :=
  congrArg (m >>= ·) (funext h)

instance : LawfulMonad (Attempt ε σ) :=
  LawfulMonad.mk' _
    (by
      intro α m
      funext s
      change (match m s with
        | (.done a, t) => (.done a, t)
        | (.failed e, t) => (.failed e, t)
        | (.outOfFuel, t) => (.outOfFuel, t)) = m s
      rcases m s with ⟨_ | _ | _, t⟩ <;> rfl)
    (fun _ _ => rfl)
    (by
      intro α β γ m f g
      funext s
      simp only [bind_apply]
      rcases m s with ⟨_ | _ | _, t⟩ <;> rfl)

end Attempt

end IntScript
