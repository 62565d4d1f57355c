import IntScript.Evaluation
import IntScript.Proofs.AttemptLaws

set_option autoImplicit false

namespace IntScript

def EvalError.IsLimit : EvalError → Prop
  | .tooManyIterations _ => True
  | .callDepthExceeded _ => True
  | _ => False

namespace Limits

def guard (error : Nat → EvalError) (limit : Option Nat) (k : Nat) : Except EvalError Unit :=
  match limit with
  | none => .ok ()
  | some limit => if limit < k then .error (error limit) else .ok ()

theorem checkIterations_eq (l : Limits) (k : Nat) :
    l.checkIterations k = guard .tooManyIterations l.iterations k := rfl

theorem checkDepth_eq (l : Limits) (k : Nat) : l.checkDepth k = guard .callDepthExceeded l.callDepth k := rfl

theorem le_of_guard {error : Nat → EvalError} {limit k : Nat} (h : guard error (some limit) k = .ok ()) :
    k ≤ limit := by
  unfold guard at h
  by_cases hlt : limit < k
  · simp only [hlt, if_true] at h
    cases h
  · omega

theorem guard_eq_error {error : Nat → EvalError} {limit : Option Nat} {k : Nat} {e : EvalError}
    (h : guard error limit k = .error e) : ∃ l, e = error l := by
  cases limit with
  | none => cases h
  | some l =>
    unfold guard at h
    by_cases hlt : l < k
    · simp only [hlt, if_true] at h
      cases h
      exact ⟨l, rfl⟩
    · simp only [hlt, if_false] at h
      cases h

/-- A limit that is absent is above all others. -/
def AtMost : Option Nat → Option Nat → Prop
  | _, none => True
  | none, some _ => False
  | some a, some b => a ≤ b

theorem AtMost.guard {error : Nat → EvalError} {a b : Option Nat} (h : AtMost a b) (k : Nat) :
    Limits.guard error a k = Limits.guard error b k ∨ ∃ limit, Limits.guard error a k = .error (error limit) := by
  cases a with
  | none =>
    cases b with
    | none => exact .inl rfl
    | some b => exact h.elim
  | some a =>
    by_cases hk : a < k
    · exact .inr ⟨a, if_pos hk⟩
    · have hlow : Limits.guard error (some a) k = .ok () := if_neg hk
      rw [hlow]
      cases b with
      | none => exact .inl rfl
      | some b =>
        have hab : a ≤ b := h
        have hkb : ¬ b < k := by omega
        exact .inl (if_neg hkb).symm

structure Below (l l' : Limits) : Prop where
  iterations : AtMost l.iterations l'.iterations
  callDepth : AtMost l.callDepth l'.callDepth

/-- The second limits change no check, but for those that fail with an error of the set. -/
structure Eases (T : EvalError → Prop) (l l' : Limits) : Prop where
  iterations : ∀ k, l.checkIterations k = l'.checkIterations k ∨ ∃ e, T e ∧ l.checkIterations k = .error e
  depth : ∀ k, l.checkDepth k = l'.checkDepth k ∨ ∃ e, T e ∧ l.checkDepth k = .error e

theorem Eases.refl (T : EvalError → Prop) (l : Limits) : Eases T l l := ⟨fun _ => .inl rfl, fun _ => .inl rfl⟩

theorem Below.eases {l l' : Limits} (h : l.Below l') : Eases EvalError.IsLimit l l' := by
  constructor
  · intro k
    rcases h.iterations.guard k with hsame | ⟨limit, hstop⟩
    · exact .inl hsame
    · exact .inr ⟨.tooManyIterations limit, trivial, hstop⟩
  · intro k
    rcases h.callDepth.guard k with hsame | ⟨limit, hstop⟩
    · exact .inl hsame
    · exact .inr ⟨.callDepthExceeded limit, trivial, hstop⟩

end Limits

namespace Context

/-- Entering a call is the check of the depth. -/
theorem enter_bind {σ α : Type} (c : Context) (f : Context → Attempt EvalError σ α) :
    (.ofExcept c.enter >>= f) =
      (.ofExcept (c.limits.checkDepth (c.depth + 1)) >>= fun _ => f ⟨c.limits, c.depth + 1⟩) := by
  change (.ofExcept (c.limits.checkDepth (c.depth + 1) >>= fun _ => Except.ok ⟨c.limits, c.depth + 1⟩) >>= f) = _
  cases c.limits.checkDepth (c.depth + 1) <;> rfl

end Context

end IntScript
