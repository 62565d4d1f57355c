import IntScript.Attempt

set_option autoImplicit false

namespace IntScript

namespace Outcome

variable {ε α : Type}

theorem ofExcept_inj {r r' : Except ε α} (h : ofExcept r = ofExcept r') : r = r' := by
  cases r with
  | ok a =>
    cases r' with
    | ok a' =>
      cases h
      rfl
    | error e' => cases h
  | error e =>
    cases r' with
    | ok a' => cases h
    | error e' =>
      cases h
      rfl

theorem ofExcept_ne_outOfFuel (r : Except ε α) : ofExcept r ≠ .outOfFuel := by
  cases r with
  | ok a => exact fun h => by cases h
  | error e => exact fun h => by cases h

inductive Alike {ε' : Type} (E : ε → ε' → Prop) : Outcome ε α → Outcome ε' α → Prop
  | done (a : α) : Alike E (.done a) (.done a)
  | failed {e : ε} {e' : ε'} (h : E e e') : Alike E (.failed e) (.failed e')
  | outOfFuel : Alike E .outOfFuel .outOfFuel

theorem alike_iff {ε' : Type} {fault : ε → ε'} {r : Outcome ε α} {r' : Outcome ε' α} :
    Alike (fun e e' => e' = fault e) r r' ↔ r' = r.mapError fault := by
  constructor
  · intro h
    cases h with
    | done a => rfl
    | failed h => exact congrArg Outcome.failed h
    | outOfFuel => rfl
  · rintro rfl
    cases r with
    | done a => exact .done a
    | failed e => exact .failed rfl
    | outOfFuel => exact .outOfFuel

theorem Alike.eq {r r' : Outcome ε α} (h : Alike Eq r r') : r = r' := by
  cases h with
  | done a => rfl
  | failed h => exact congrArg Outcome.failed h
  | outOfFuel => rfl

theorem Alike.mapError {ε' ε₁ ε₁' : Type} {E : ε → ε' → Prop} {E' : ε₁ → ε₁' → Prop} {g : ε → ε₁} {g' : ε' → ε₁'}
    {r : Outcome ε α} {r' : Outcome ε' α} (h : Alike E r r') (hg : ∀ e e', E e e' → E' (g e) (g' e')) :
    Alike E' (r.mapError g) (r'.mapError g') := by
  cases h with
  | done a => exact .done a
  | failed h => exact .failed (hg _ _ h)
  | outOfFuel => exact .outOfFuel

end Outcome

namespace Attempt

variable {ε σ α β : Type}

def Fails (m : Attempt ε σ α) (s : σ) (e : ε) : Prop := (m s).1 = .failed e

theorem fails_bind {m : Attempt ε σ α} {f : α → Attempt ε σ β} {s : σ} {e : ε} :
    (m >>= f).Fails s e ↔ m.Fails s e ∨ ∃ a t, m s = (.done a, t) ∧ (f a).Fails t e := by
  unfold Fails
  rw [bind_apply]
  rcases m s with ⟨a | e' | _, t⟩
  · simp [and_assoc]
  · simp
  · simp

@[simp] theorem fails_pure (a : α) (s : σ) (e : ε) : (Pure.pure a : Attempt ε σ α).Fails s e ↔ False := by
  simp [Fails, pure_apply]

@[simp] theorem fails_outOfFuel (s : σ) (e : ε) : (outOfFuel : Attempt ε σ α).Fails s e ↔ False := by
  simp [Fails, outOfFuel]

@[simp] theorem fails_ask (f : σ → α) (s : σ) (e : ε) : (ask f : Attempt ε σ α).Fails s e ↔ False := by
  simp [Fails, ask]

@[simp] theorem fails_modify (f : σ → σ) (s : σ) (e : ε) : (modify f : Attempt ε σ Unit).Fails s e ↔ False := by
  simp [Fails, modify]

@[simp] theorem fails_ofExcept (r : Except ε α) (s : σ) (e : ε) :
    (ofExcept r : Attempt ε σ α).Fails s e ↔ r = .error e := by
  cases r <;> simp [Fails, ofExcept, Outcome.ofExcept]

@[simp] theorem modify_eq_done (f : σ → σ) (s t : σ) (a : Unit) :
    (modify f : Attempt ε σ Unit) s = (.done a, t) ↔ t = f s := by
  simp [modify, eq_comm]

@[simp] theorem ofExcept_eq_done (r : Except ε α) (s t : σ) (a : α) :
    (ofExcept r : Attempt ε σ α) s = (.done a, t) ↔ r = .ok a ∧ t = s := by
  cases r <;> simp [ofExcept, Outcome.ofExcept, eq_comm]

@[simp] theorem fails_map {m : Attempt ε σ α} {f : α → β} {s : σ} {e : ε} :
    (f <$> m).Fails s e ↔ m.Fails s e := by
  rw [map_eq_pure_bind, fails_bind]
  simp

theorem fails_ofExcept_bind {r : Except ε α} {f : α → Attempt ε σ β} {s : σ} {e : ε} :
    ((.ofExcept r : Attempt ε σ α) >>= f).Fails s e ↔ r = .error e ∨ ∃ a, r = .ok a ∧ (f a).Fails s e := by
  rw [fails_bind]
  simp [and_assoc]

theorem fails_check_bind {r : Except ε Unit} {f : Unit → Attempt ε σ β} {s : σ} {e : ε} :
    ((.ofExcept r : Attempt ε σ Unit) >>= f).Fails s e ↔ r = .error e ∨ r = .ok () ∧ (f ()).Fails s e := by
  rw [fails_ofExcept_bind]
  constructor
  · rintro (h | ⟨_, h⟩)
    · exact .inl h
    · exact .inr h
  · rintro (h | h)
    · exact .inl h
    · exact .inr ⟨(), h⟩

theorem bind_eq_done {m : Attempt ε σ α} {f : α → Attempt ε σ β} {s u : σ} {b : β} :
    (m >>= f) s = (.done b, u) ↔ ∃ a t, m s = (.done a, t) ∧ f a t = (.done b, u) := by
  rw [bind_apply]
  rcases m s with ⟨a | e | _, t⟩
  · simp [and_assoc]
  · simp
  · simp

@[simp] theorem pure_eq_done (a b : α) (s t : σ) :
    (Pure.pure a : Attempt ε σ α) s = (.done b, t) ↔ a = b ∧ s = t := by
  simp [pure_apply]

section Carries

variable {ε' : Type} {E : ε → ε' → Prop} {move : σ → σ}

/-- From a moved state, the second attempt ends as the first does from the state itself, with a related error if it
fails, and in the state that the first has reached, moved. -/
structure Carries (E : ε → ε' → Prop) (move : σ → σ) (m : Attempt ε σ α) (m' : Attempt ε' σ α) : Prop where
  outcome : ∀ s, Outcome.Alike E (m s).1 (m' (move s)).1
  state : ∀ s, (m' (move s)).2 = move (m s).2

theorem carries_of_each {m : Attempt ε σ α} {m' : Attempt ε' σ α}
    (h : ∀ s, Outcome.Alike E (m s).1 (m' (move s)).1 ∧ (m' (move s)).2 = move (m s).2) : Carries E move m m' :=
  ⟨fun s => (h s).1, fun s => (h s).2⟩

theorem Carries.apply_done {m : Attempt ε σ α} {m' : Attempt ε' σ α} (h : Carries E move m m') {s t : σ} {a : α}
    (hm : m s = (.done a, t)) : m' (move s) = (.done a, move t) := by
  have hout := h.outcome s
  have hstate := h.state s
  rw [hm] at hout hstate
  cases hrun : m' (move s) with
  | mk r t' =>
    rw [hrun] at hout hstate
    cases hout with
    | done => exact congrArg (Outcome.done a, ·) hstate

/-- If errors are related by a function, the whole result is one of the first attempt. -/
theorem Carries.apply {fault : ε → ε'} {m : Attempt ε σ α} {m' : Attempt ε' σ α}
    (h : Carries (fun e e' => e' = fault e) move m m') (s : σ) :
    m' (move s) = ((m s).1.mapError fault, move (m s).2) :=
  Prod.ext (Outcome.alike_iff.1 (h.outcome s)) (h.state s)

theorem carries_pure (a : α) : Carries E move (Pure.pure a) (Pure.pure a) := ⟨fun _ => .done a, fun _ => rfl⟩

theorem carries_outOfFuel : Carries E move (outOfFuel : Attempt ε σ α) outOfFuel :=
  ⟨fun _ => .outOfFuel, fun _ => rfl⟩

theorem carries_ask {q q' : σ → α} (h : ∀ s, q' (move s) = q s) : Carries E move (ask q) (ask q') := by
  refine ⟨fun s => ?_, fun _ => rfl⟩
  change Outcome.Alike E (.done (q s)) (.done (q' (move s)))
  rw [h s]
  exact .done (q s)

theorem Carries.bind {m : Attempt ε σ α} {m' : Attempt ε' σ α} {f : α → Attempt ε σ β} {f' : α → Attempt ε' σ β}
    (hm : Carries E move m m') (hf : ∀ a, Carries E move (f a) (f' a)) : Carries E move (m >>= f) (m' >>= f') := by
  apply carries_of_each
  intro s
  have hout := hm.outcome s
  have hstate := hm.state s
  rcases hrun : m s with ⟨r, t⟩
  rcases hrun' : m' (move s) with ⟨r', t'⟩
  rw [hrun, hrun'] at hout hstate
  obtain rfl : t' = move t := hstate
  cases hout with
  | done a =>
    rw [bind_of_done hrun, bind_of_done hrun']
    exact ⟨(hf a).outcome t, (hf a).state t⟩
  | failed h =>
    rw [bind_of_failed hrun, bind_of_failed hrun']
    exact ⟨.failed h, rfl⟩
  | outOfFuel =>
    rw [bind_of_outOfFuel hrun, bind_of_outOfFuel hrun']
    exact ⟨.outOfFuel, rfl⟩

theorem Carries.mapError {ε₁ ε₁' : Type} {E' : ε₁ → ε₁' → Prop} {g : ε → ε₁} {g' : ε' → ε₁'} {m : Attempt ε σ α}
    {m' : Attempt ε' σ α} (hm : Carries E move m m') (hg : ∀ e e', E e e' → E' (g e) (g' e')) :
    Carries E' move (m.mapError g) (m'.mapError g') :=
  ⟨fun s => (hm.outcome s).mapError hg, hm.state⟩

end Carries

end Attempt

end IntScript
