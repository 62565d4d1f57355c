import IntScript.Proofs.Kinship

set_option autoImplicit false

namespace IntScript

open Attempt

namespace Kinship

variable {T : EvalError → Prop} {l l' : Limits} {n n' : Nat}

theorem same_along (hl : l.Eases T l') (hn : n ≤ n') : (same.simulation hl).Along n n' := by
  obtain ⟨k, rfl⟩ := Nat.exists_eq_add_of_le hn
  have hcongruent : (same.simulation hl).Congruent .identity := .of_eq (same.sequential hl) rfl rfl rfl rfl rfl
  exact hcongruent.along (same.along_zero hl k) n

theorem more_fuel (l : Limits) (hn : n ≤ n') : same.Along l n n' :=
  same_along (.refl _ l) hn

end Kinship

namespace Job

variable {job : Job} {c : Context} {w : World} {r r' : Except EvalError Signal} {f f' : Frame} {n n' : Nat}

def Ends (job : Job) (c : Context) (w : World) (r : Except EvalError Signal) (f : Frame) : Prop :=
  ∃ n, job.run n c w = (.ofExcept r, f)

/-- What a run with less fuel and lower limits has done. -/
theorem run_same_or_cut {T : EvalError → Prop} {l l' : Limits} (hl : l.Eases T l') (hn : n ≤ n') (job : Job) (d : Nat)
    (w : World) :
    job.run n ⟨l, d⟩ w = job.run n' ⟨l', d⟩ w ∨
      (job.run n ⟨l, d⟩ w).1.IsCut T ∧ (job.run n ⟨l, d⟩ w).2.world.Before (job.run n' ⟨l', d⟩ w).2.world := by
  have h := Kinship.same_along hl hn
  cases job with
  | expression s e =>
    have heval : Exec.CutShort T _ _ := h.eval (L := ()) ⟨d, rfl, rfl⟩ (rfl : s = s) (.refl e)
    rcases heval.same_or_cut w w rfl with ⟨hout, hworld⟩ | ⟨hcut, hbefore⟩
    · left
      simp only [run, hout, hworld]
    · exact .inr ⟨hcut.map some, hbefore⟩
  | statement s st =>
    have hexec : Run.CutShort T Eq _ _ := h.statement (L := ()) ⟨d, rfl, rfl⟩ (rfl : st = st)
    rcases hexec.same_or_cut ⟨s, w⟩ ⟨s, w⟩ ⟨rfl, rfl⟩ with ⟨hout, hframe⟩ | hcut
    · exact .inl (Prod.ext hout hframe.eq)
    · exact .inr hcut
  | block s b =>
    have hexec : Run.CutShort T Eq _ _ := h.block (L := ()) ⟨d, rfl, rfl⟩ (rfl : b = b)
    rcases hexec.same_or_cut ⟨s, w⟩ ⟨s, w⟩ ⟨rfl, rfl⟩ with ⟨hout, hframe⟩ | hcut
    · exact .inl (Prod.ext hout hframe.eq)
    · exact .inr hcut
  | call closure args =>
    have hself : Callable.Rel Eq Eq Eq Eq (.user closure) (.user closure) := .refl (fun _ => rfl) (fun _ => rfl) _
    have hinvoke : Exec.CutShort T _ _ := h.invoke (L := ()) args ⟨d, rfl, rfl⟩ hself
    rcases hinvoke.same_or_cut w w rfl with ⟨hout, hworld⟩ | ⟨hcut, hbefore⟩
    · left
      simp only [run, hout, hworld]
    · exact .inr ⟨hcut.map some, hbefore⟩

theorem run_of_le (h : job.run n c w = (.ofExcept r, f)) (hn : n ≤ n') : job.run n' c w = (.ofExcept r, f) := by
  obtain ⟨l, d⟩ := c
  rcases run_same_or_cut (Limits.Eases.refl (fun _ => False) l) hn job d w with heq | ⟨hcut, -⟩
  · rw [← heq]
    exact h
  · rw [h] at hcut
    exact absurd hcut (Outcome.not_isCut_ofExcept fun _ _ => id)

end Job

/-- Higher limits change a run only if a limit had stopped it, and then only by what comes behind its output. Tools
have no memory, as `Tool` assumes. -/
theorem limits_monotone (job : Job) {l l' : Limits} (hl : l.Below l') (d : Nat) (w : World) :
    (∀ r f, job.Ends ⟨l, d⟩ w r f → (∀ e, r = .error e → ¬ e.IsLimit) → job.Ends ⟨l', d⟩ w r f) ∧
      ∀ e f r' f', job.Ends ⟨l, d⟩ w (.error e) f → e.IsLimit → job.Ends ⟨l', d⟩ w r' f' →
        f.world.output <+: f'.world.output := by
  refine ⟨fun r f ⟨n, hn⟩ hr => ?_, fun e f r' f' ⟨n, hn⟩ _ ⟨n', hn'⟩ => ?_⟩
  · rcases job.run_same_or_cut hl.eases (Nat.le_refl n) d w with heq | ⟨hcut, -⟩
    · exact ⟨n, heq ▸ hn⟩
    · rw [hn] at hcut
      exact absurd hcut (Outcome.not_isCut_ofExcept hr)
  · -- at the larger fuel both runs are where they ended
    have hlow := Job.run_of_le hn (Nat.le_max_left n n')
    have hhigh := Job.run_of_le hn' (Nat.le_max_right n n')
    rcases job.run_same_or_cut hl.eases (Nat.le_refl (max n n')) d w with heq | ⟨-, hbefore⟩
    · rw [hlow, hhigh] at heq
      obtain ⟨-, rfl⟩ := Prod.mk.inj heq
      exact List.prefix_refl _
    · rw [hlow, hhigh] at hbefore
      exact hbefore.output

def chatter : Block := [.loop (.literal 1) (.evaluate (.call "println" [.literal 7]))]

theorem chatter_output_grows :
    ∃ f f', Job.Ends (.block Registry.standard.rootScope chatter) ⟨⟨some 1, some 1⟩, 0⟩ .empty
        (.error (.tooManyIterations 1)) f ∧
      Job.Ends (.block Registry.standard.rootScope chatter) ⟨⟨some 2, none⟩, 0⟩ .empty
        (.error (.tooManyIterations 2)) f' ∧
      f.world.output.length = 1 ∧ f'.world.output.length = 2 ∧ f.world.output <+: f'.world.output := by
  have hl : Limits.Below ⟨some 1, some 1⟩ ⟨some 2, none⟩ := ⟨Nat.le_succ 1, trivial⟩
  have hlow : Job.Ends (.block Registry.standard.rootScope chatter) ⟨⟨some 1, some 1⟩, 0⟩ .empty
      (.error (.tooManyIterations 1)) _ := ⟨12, rfl⟩
  have hhigh : Job.Ends (.block Registry.standard.rootScope chatter) ⟨⟨some 2, none⟩, 0⟩ .empty
      (.error (.tooManyIterations 2)) _ := ⟨12, rfl⟩
  exact ⟨_, _, hlow, hhigh, rfl, rfl, (limits_monotone _ hl 0 .empty).2 _ _ _ _ hlow trivial hhigh⟩

end IntScript
