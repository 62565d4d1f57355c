import IntScript.Proofs.Failure

set_option autoImplicit false

namespace IntScript

/-- The number of calls that are active, and the scopes on the way, the last one first. Unlike `Reached`,
a trail takes closures as it finds them. -/
inductive Trail (start : Config) : Nat → List Scope → Config → Prop
  | start : Trail start 0 [] start
  | calls {k : Nat} {live : List Scope} {g h : Config} (hg : Trail start k live g) (hc : Calls g h) :
      Trail start k (g.scope :: live) h
  | enters {k : Nat} {live : List Scope} {g h : Config} {q : Place} {closure : Closure} (hg : Trail start k live g)
      (he : Enters q closure g h) : Trail start (k + 1) (g.scope :: live) h

theorem Calls.context_eq {g h : Config} (hc : Calls g h) : h.context = g.context := by
  cases hc <;> rfl

theorem Context.enter_depth {c d : Context} (h : c.enter = .ok d) : d.depth = c.depth + 1 := by
  change (c.limits.checkDepth (c.depth + 1) >>= fun _ => Except.ok ⟨c.limits, c.depth + 1⟩) = .ok d at h
  cases hcheck : c.limits.checkDepth (c.depth + 1) with
  | error e =>
    rw [hcheck] at h
    cases h
  | ok u =>
    rw [hcheck] at h
    cases h
    rfl

namespace Trail

variable {start g h : Config} {k : Nat} {live : List Scope}

/-- Depth is counted by nothing but the calls on the way. -/
theorem depth_eq (hg : Trail start k live g) : g.context.depth = start.context.depth + k := by
  induction hg with
  | start => rfl
  | calls _ hc ih => rw [hc.context_eq, ih]
  | enters _ he ih =>
    cases he with
    | intro hf hargs hd =>
      have hdepth := Context.enter_depth hd
      dsimp only at ih ⊢
      omega

end Trail

end IntScript
