import IntScript.Proofs.Confinement

set_option autoImplicit false

/-! # Runs that are cut short

Two runs are compared, of which the first may stop earlier, for want of fuel or with an error of a given set. If it
does, its events begin those of the second run; if it does not, both end alike. -/

namespace IntScript

namespace World

def Before (w v : World) : Prop := w.events.toList <+: v.events.toList

def output (w : World) : List Output := w.events.toList.filterMap Event.output?

theorem Before.output {w v : World} (h : w.Before v) : w.output <+: v.output := List.IsPrefix.filterMap _ h

theorem before_noteAll (w : World) (es : List Event) : w.Before (w.noteAll es) := by
  rw [noteAll_eq, Before, Array.toList_append]
  exact List.prefix_append _ _

end World

/-- The run may have stopped where another one goes on. -/
def Outcome.IsCut {α : Type} (T : EvalError → Prop) : Outcome EvalError α → Prop
  | .done _ => False
  | .failed e => T e
  | .outOfFuel => True

namespace Outcome

variable {α β : Type} {T : EvalError → Prop}

theorem IsCut.outOfFuel {r : Outcome EvalError α} (h : r.IsCut fun _ => False) : r = .outOfFuel := by
  cases r with
  | done a => exact h.elim
  | failed e => exact h.elim
  | outOfFuel => rfl

theorem IsCut.map {r : Outcome EvalError α} (h : r.IsCut T) (g : α → β) : (r.map g).IsCut T := by
  cases r with
  | done a => exact h.elim
  | failed e => exact h
  | outOfFuel => trivial

theorem not_isCut_ofExcept {r : Except EvalError α} (hr : ∀ e, r = .error e → ¬ T e) :
    ¬ (Outcome.ofExcept r).IsCut T := by
  cases r with
  | ok a => exact id
  | error e => exact hr e rfl

end Outcome

namespace Attempt

variable {σ α β γ : Type} {events : σ → List Event} {T : EvalError → Prop} {R : σ → σ → Prop}

def Grows (events : σ → List Event) (m : Attempt EvalError σ α) : Prop := ∀ s, events s <+: events (m s).2

/-- From related states both attempts end alike in related states, or the first is cut short. -/
structure CutShort (events : σ → List Event) (T : EvalError → Prop) (R : σ → σ → Prop)
    (m m' : Attempt EvalError σ α) : Prop where
  grows : Grows events m'
  same_or_cut : ∀ s s', R s s' → (m s).1 = (m' s').1 ∧ R (m s).2 (m' s').2 ∨
    (m s).1.IsCut T ∧ events (m s).2 <+: events (m' s').2

theorem before_bind (m : Attempt EvalError σ α) {f : α → Attempt EvalError σ β} (hf : ∀ a, Grows events (f a)) (s : σ) :
    events (m s).2 <+: events ((m >>= f) s).2 := by
  rw [bind_apply]
  rcases m s with ⟨a | e | _, t⟩
  · exact hf a t
  · exact List.prefix_refl _
  · exact List.prefix_refl _

theorem Grows.bind {m : Attempt EvalError σ α} {f : α → Attempt EvalError σ β} (hm : Grows events m)
    (hf : ∀ a, Grows events (f a)) : Grows events (m >>= f) :=
  fun s => (hm s).trans (before_bind m hf s)

theorem cutShort_outOfFuel {m : Attempt EvalError σ α} (hm : Grows events m)
    (hR : ∀ s s', R s s' → events s = events s') : CutShort events T R outOfFuel m := by
  refine ⟨hm, fun s s' h => .inr ⟨trivial, ?_⟩⟩
  change events s <+: _
  rw [hR s s' h]
  exact hm s'

theorem cutShort_pure (a : α) : CutShort events T R (Pure.pure a) (Pure.pure a) :=
  ⟨fun _ => List.prefix_refl _, fun _ _ h => .inl ⟨rfl, h⟩⟩

/-- Both attempts have ended alike in related states, or the first was cut short. -/
def EndsAlike (events : σ → List Event) (T : EvalError → Prop) (R : σ → σ → Prop) (r r' : Outcome EvalError α × σ) :
    Prop :=
  r.1 = r'.1 ∧ R r.2 r'.2 ∨ r.1.IsCut T ∧ events r.2 <+: events r'.2

theorem EndsAlike.bind {m m' : Attempt EvalError σ α} {f f' : α → Attempt EvalError σ β} {s s' : σ}
    (hm : EndsAlike events T R (m s) (m' s')) (hgrows : ∀ a, Grows events (f' a))
    (hf : ∀ a t t', m s = (.done a, t) → m' s' = (.done a, t') → R t t' → EndsAlike events T R (f a t) (f' a t')) :
    EndsAlike events T R ((m >>= f) s) ((m' >>= f') s') := by
  have hrest := before_bind m' hgrows s'
  rcases hs : m s with ⟨r, t⟩
  rw [hs] at hm
  rcases hm with ⟨hout, hstate⟩ | ⟨hcut, hbefore⟩
  · rcases hs' : m' s' with ⟨r', t'⟩
    rw [hs'] at hout hstate
    obtain rfl : r = r' := hout
    rw [bind_apply, bind_apply, hs, hs']
    cases r with
    | done a => exact hf a t t' hs hs' hstate
    | failed e => exact .inl ⟨rfl, hstate⟩
    | outOfFuel => exact .inl ⟨rfl, hstate⟩
  · refine .inr ?_
    cases r with
    | done a => exact hcut.elim
    | failed e =>
      rw [bind_of_failed hs]
      exact ⟨hcut, hbefore.trans hrest⟩
    | outOfFuel =>
      rw [bind_of_outOfFuel hs]
      exact ⟨hcut, hbefore.trans hrest⟩

theorem CutShort.bind {m m' : Attempt EvalError σ α} {f f' : α → Attempt EvalError σ β}
    (hm : CutShort events T R m m') (hf : ∀ a, CutShort events T R (f a) (f' a)) :
    CutShort events T R (m >>= f) (m' >>= f') := by
  refine ⟨hm.grows.bind fun a => (hf a).grows, fun s s' h => ?_⟩
  refine EndsAlike.bind (hm.same_or_cut s s' h) (fun a => (hf a).grows) fun a t t' _ _ ht => ?_
  exact (hf a).same_or_cut t t' ht

theorem cutShort_ofExcept {r : Except EvalError α} {r' : Except EvalError β} {f : α → Attempt EvalError σ γ}
    {f' : β → Attempt EvalError σ γ} {V : α → β → Prop} (hr : ExceptRel Eq V r r')
    (hf : ∀ a b, V a b → CutShort events T R (f a) (f' b)) :
    CutShort events T R (.ofExcept r >>= f) (.ofExcept r' >>= f') := by
  cases hr with
  | ok h => exact hf _ _ h
  | error h =>
    subst h
    exact ⟨fun _ => List.prefix_refl _, fun _ _ h => .inl ⟨rfl, h⟩⟩

/-- A check that only the first run fails, with an error of the set, cuts it short. -/
theorem cutShort_check {r r' : Except EvalError Unit} {f f' : Attempt EvalError σ α}
    (hR : ∀ s s', R s s' → events s = events s') (hr : r = r' ∨ ∃ e, T e ∧ r = .error e)
    (hf : CutShort events T R f f') :
    CutShort events T R (.ofExcept r >>= fun _ => f) (.ofExcept r' >>= fun _ => f') := by
  have hgrows : Grows events ((.ofExcept r' : Attempt EvalError σ Unit) >>= fun _ => f') := by
    cases r' with
    | ok _ => exact hf.grows
    | error e => exact fun _ => List.prefix_refl _
  rcases hr with rfl | ⟨e, he, rfl⟩
  · cases r with
    | ok _ => exact hf
    | error e => exact ⟨hgrows, fun _ _ h => .inl ⟨rfl, h⟩⟩
  · refine ⟨hgrows, fun s s' h => .inr ⟨he, ?_⟩⟩
    change events s <+: _
    rw [hR s s' h]
    exact hgrows s'

end Attempt

open Attempt

namespace Exec

variable {α β : Type} {T : EvalError → Prop}

def Grows (m : Exec α) : Prop := Attempt.Grows (fun w : World => w.events.toList) m

def CutShort (T : EvalError → Prop) (m m' : Exec α) : Prop :=
  Attempt.CutShort (fun w : World => w.events.toList) T Eq m m'

theorem CutShort.refl {m : Exec α} (hm : Grows m) : CutShort T m m := by
  refine ⟨hm, fun w w' h => ?_⟩
  subst h
  exact .inl ⟨rfl, rfl⟩

theorem CutShort.trans {m m' m'' : Exec α} (h : CutShort T m m') (h' : CutShort T m' m'') : CutShort T m m'' := by
  refine ⟨h'.grows, fun w v heq => ?_⟩
  subst heq
  rcases h.same_or_cut w w rfl with ⟨hout, hstate⟩ | ⟨hcut, hbefore⟩
  · rw [hout, hstate]
    exact h'.same_or_cut w w rfl
  · rcases h'.same_or_cut w w rfl with ⟨-, hstate⟩ | ⟨-, hbefore'⟩
    · rw [← hstate]
      exact .inr ⟨hcut, hbefore⟩
    · exact .inr ⟨hcut, hbefore.trans hbefore'⟩

theorem cutShort_outOfFuel {m : Exec α} (hm : Grows m) : CutShort T Attempt.outOfFuel m :=
  Attempt.cutShort_outOfFuel hm fun _ _ h => congrArg (fun w : World => w.events.toList) h

theorem grows_note (e : Event) : Grows (note e) := fun w => w.before_noteAll [e]

theorem grows_useTool (tool : Tool) (args : List Value) : Grows (useTool tool args) := fun w => w.before_noteAll _

theorem Confined.grows {m : Exec α} (h : Confined (fun _ => True) m m) : Grows m := by
  intro w
  obtain ⟨-, hmoves⟩ := h w w ⟨rfl, fun _ _ => trivial, fun _ _ => rfl⟩
  obtain ⟨es, hes, -⟩ := hmoves.events
  dsimp only
  rw [hes, Array.toList_append]
  exact List.prefix_append _ _

end Exec

namespace Frame

def Rel (S : Scope → Scope → Prop) (f g : Frame) : Prop := S f.scope g.scope ∧ f.world = g.world

theorem Rel.eq {f g : Frame} (h : Rel Eq f g) : f = g := by
  obtain ⟨s, w⟩ := f
  obtain ⟨t, v⟩ := g
  obtain ⟨rfl, rfl⟩ : s = t ∧ w = v := h
  rfl

theorem Rel.events {S : Scope → Scope → Prop} (f g : Frame) (h : Rel S f g) :
    f.world.events.toList = g.world.events.toList :=
  congrArg (fun w : World => w.events.toList) h.2

end Frame

namespace Run

variable {α β : Type} {T : EvalError → Prop} {S : Scope → Scope → Prop}

def Grows (m : Run α) : Prop := Attempt.Grows (fun f : Frame => f.world.events.toList) m

/-- Runs from one world in related scopes. -/
def CutShort (T : EvalError → Prop) (S : Scope → Scope → Prop) (m m' : Run α) : Prop :=
  Attempt.CutShort (fun f : Frame => f.world.events.toList) T (Frame.Rel S) m m'

theorem cutShort_outOfFuel {m : Run α} (hm : Grows m) : CutShort T S Attempt.outOfFuel m :=
  Attempt.cutShort_outOfFuel hm Frame.Rel.events

theorem Confined.grows {m : Run α} (h : Confined (fun _ => True) m m) : Grows m := by
  rintro ⟨s, w⟩
  obtain ⟨-, -, -, hmoves⟩ := h s w w (fun _ _ => trivial) ⟨rfl, fun _ _ => trivial, fun _ _ => rfl⟩
  obtain ⟨es, hes, -⟩ := hmoves.events
  dsimp only
  rw [hes, Array.toList_append]
  exact List.prefix_append _ _

theorem cutShort_within (hS : ∀ s, S s s) {m m' : Scope → Exec α}
    (hm : ∀ s s', S s s' → Exec.CutShort T (m s) (m' s')) : CutShort T S (within m) (within m') := by
  refine ⟨fun f => (hm f.scope f.scope (hS _)).grows f.world, fun f g h => ?_⟩
  obtain ⟨hscope, hworld⟩ := h
  rcases (hm _ _ hscope).same_or_cut f.world g.world hworld with ⟨hout, hstate⟩ | hcut
  · exact .inl ⟨hout, hscope, hstate⟩
  · exact .inr hcut

theorem CutShort.inScope {m m' : Run α} {s s' : Scope} (hm : CutShort T S m m') (hs : S s s') :
    Exec.CutShort T (m.inScope s) (m'.inScope s') := by
  refine ⟨fun w => hm.grows ⟨s', w⟩, fun w v h => ?_⟩
  subst h
  rcases hm.same_or_cut ⟨s, w⟩ ⟨s', w⟩ ⟨hs, rfl⟩ with ⟨hout, hstate⟩ | hcut
  · exact .inl ⟨hout, hstate.2⟩
  · exact .inr hcut

theorem cutShort_note (e : Event) : CutShort T S (note e) (note e) := by
  refine ⟨fun f => f.world.before_noteAll [e], fun f g h => .inl ⟨rfl, h.1, ?_⟩⟩
  exact congrArg (fun w : World => w.note e) h.2

theorem cutShort_declareVariable {x : String} {v : Value}
    (hS : ∀ s s' cell, S s s' → ExceptRel Eq S (s.declareVariable x cell) (s'.declareVariable x cell)) :
    CutShort T S (declareVariable x v) (declareVariable x v) := by
  refine ⟨(confined_declareVariable x v).grows, ?_⟩
  rintro ⟨s, w⟩ ⟨s', w'⟩ ⟨hs, rfl⟩
  unfold declareVariable
  dsimp only
  have hboth := hS s s' w.nextCell hs
  generalize s.declareVariable x w.nextCell = r at hboth ⊢
  generalize s'.declareVariable x w.nextCell = r' at hboth ⊢
  cases hboth with
  | ok h => exact .inl ⟨rfl, h, rfl⟩
  | error h => exact .inl ⟨congrArg Outcome.failed h, hs, rfl⟩

theorem cutShort_declareFunction {d d' : FunctionDecl}
    (hS : ∀ s s', S s s' → ExceptRel Eq S (s.declareFunction d.name (.user ⟨d, s.child⟩))
      (s'.declareFunction d'.name (.user ⟨d', s'.child⟩))) :
    CutShort T S (declareFunction d) (declareFunction d') := by
  refine ⟨(confined_declareFunction d').grows, ?_⟩
  rintro ⟨s, w⟩ ⟨s', w'⟩ ⟨hs, rfl⟩
  unfold declareFunction
  dsimp only
  have hboth := hS s s' hs
  generalize s.declareFunction d.name (.user ⟨d, s.child⟩) = r at hboth ⊢
  generalize s'.declareFunction d'.name (.user ⟨d', s'.child⟩) = r' at hboth ⊢
  cases hboth with
  | ok h => exact .inl ⟨rfl, h, rfl⟩
  | error h => exact .inl ⟨congrArg Outcome.failed h, hs, rfl⟩

end Run

/-- Without fuel nothing is done, and events are only added. -/
theorem Simulation.along_zero {S : Simulation}
    (hexec : ∀ {L} {α : Type} {m : Exec α}, Exec.Grows m → S.exec L Attempt.outOfFuel m)
    (hrun : ∀ {L m}, Run.Grows m → S.run L Attempt.outOfFuel m)
    (hbody : ∀ {L b b' m}, Run.Grows m → S.body L b b' Attempt.outOfFuel m) (n' : Nat) : S.Along 0 n' := by
  have hall := Confines.all (fun _ => True) n'
  exact {
    eval := fun _ _ _ => hexec (hall.eval _ _ _ (Scope.within_true _)).grows
    evalAll := fun _ _ _ => hexec (hall.evalAll _ _ _ (Scope.within_true _)).grows
    invoke := fun _ _ _ => hexec (hall.invoke _ _ _ (Callable.within_true _)).grows
    statement := fun _ _ => hrun (hall.statement _ _).grows
    block := fun _ _ => hbody (hall.block _ _).grows
    child := fun _ _ _ => hexec (hall.child _ _ _ (Scope.within_true _)).grows
    iterate := fun _ _ _ _ _ => hexec (hall.iterate _ _ _ _ _ (Scope.within_true _)).grows }

end IntScript
