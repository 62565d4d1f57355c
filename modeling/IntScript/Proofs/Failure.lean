import IntScript.Proofs.Reached

set_option autoImplicit false

namespace IntScript

open Attempt

namespace Run

variable {α : Type}

@[simp] theorem fails_within (m : Scope → Exec α) (f : Frame) (e : EvalError) :
    (within m).Fails f e ↔ (m f.scope).Fails f.world e := Iff.rfl

@[simp] theorem fails_inScope (m : Run α) (s : Scope) (w : World) (e : EvalError) :
    (m.inScope s).Fails w e ↔ m.Fails ⟨s, w⟩ e := Iff.rfl

@[simp] theorem fails_declareVariable (x : String) (v : Value) (f : Frame) (e : EvalError) :
    (declareVariable x v).Fails f e ↔ f.scope.declareVariable x f.world.nextCell = .error e := by
  unfold Attempt.Fails declareVariable
  cases f.scope.declareVariable x f.world.nextCell <;> simp

@[simp] theorem fails_declareFunction (d : FunctionDecl) (f : Frame) (e : EvalError) :
    (declareFunction d).Fails f e ↔
      f.scope.declareFunction d.name (.user ⟨d, f.scope.child⟩) = .error e := by
  unfold Attempt.Fails declareFunction
  cases f.scope.declareFunction d.name (.user ⟨d, f.scope.child⟩) <;> simp

end Run

namespace Config

def Fails (g : Config) (e : EvalError) : Prop :=
  match g.task with
  | .expression x => (Expression.eval g.fuel g.context g.scope x).Fails g.world e
  | .arguments _ es => (Expression.evalAll g.fuel g.context g.scope es).Fails g.world e
  | .invocation f args =>
    (do
      let callee ← .ofExcept (g.scope.callable f)
      Callable.invoke g.fuel g.context callee args : Exec Value).Fails g.world e
  | .parameters d _ rest =>
    (do
      let scope ← Exec.declareAll rest g.scope
      (Block.exec g.fuel g.context d.body).inScope scope : Exec Signal).Fails g.world e
  | .statement s => (Statement.exec g.fuel g.context s).Fails ⟨g.scope, g.world⟩ e
  | .statements _ b => (Block.exec g.fuel g.context b).Fails ⟨g.scope, g.world⟩ e
  | .branch s => (Statement.execChild g.fuel g.context g.scope s).Fails g.world e
  | .iteration c b k => (Statement.iterate g.fuel g.context g.scope c b k).Fails g.world e

end Config

section Equations

variable {n : Nat} {c : Context} {s : Scope} {w : World} {e : EvalError}

theorem eval_var_fails (x : String) :
    (Expression.eval (n + 1) c s (.var x)).Fails w e ↔ s.cell x = .error e := by
  rw [Expression.eval, fails_bind]
  simp [Exec.read]

theorem apply_fails (op : BinaryOp) (a : Value) (m : Exec Value) :
    (op.apply a m).Fails w e ↔ op.decidedBy a = false ∧
      (m.Fails w e ∨ ∃ b w', m w = (.done b, w') ∧ op.combine a b = .error e) := by
  unfold BinaryOp.apply
  cases op.decidedBy a with
  | true => simp
  | false => simp [fails_bind]

theorem eval_binary_fails (op : BinaryOp) (l r : Expression) :
    (Expression.eval (n + 1) c s (.binary op l r)).Fails w e ↔ (Expression.eval n c s l).Fails w e ∨
      ∃ a w', Expression.eval n c s l w = (.done a, w') ∧ op.decidedBy a = false ∧
        ((Expression.eval n c s r).Fails w' e ∨
          ∃ b w'', Expression.eval n c s r w' = (.done b, w'') ∧ op.combine a b = .error e) := by
  rw [Expression.eval, fails_bind]
  simp only [apply_fails]

theorem eval_call_fails (f : String) (args : List Expression) :
    (Expression.eval (n + 1) c s (.call f args)).Fails w e ↔ (Expression.evalAll n c s args).Fails w e ∨
      ∃ vs w', Expression.evalAll n c s args w = (.done vs, w') ∧
        (do
          let callee ← .ofExcept (s.callable f)
          Callable.invoke n c callee vs : Exec Value).Fails w' e := by
  rw [Expression.eval, fails_bind]

theorem evalAll_cons_fails (x : Expression) (xs : List Expression) :
    (Expression.evalAll (n + 1) c s (x :: xs)).Fails w e ↔ (Expression.eval n c s x).Fails w e ∨
      ∃ v w', Expression.eval n c s x w = (.done v, w') ∧ (Expression.evalAll n c s xs).Fails w' e := by
  rw [Expression.evalAll, fails_bind]
  simp only [fails_bind, fails_pure, and_false, exists_false, or_false]

theorem lookup_fails (f : String) (args : List Value) :
    (do
      let callee ← .ofExcept (s.callable f)
      Callable.invoke n c callee args : Exec Value).Fails w e ↔
      s.callable f = .error e ∨
        ∃ callee, s.callable f = .ok callee ∧ (Callable.invoke n c callee args).Fails w e := by
  rw [fails_bind]
  simp

theorem useTool_fails (tool : Tool) (args : List Value) :
    (Exec.useTool tool args).Fails w e ↔ (tool.act args).2 = .error e := by
  unfold Attempt.Fails Exec.useTool
  rcases tool.act args with ⟨outputs, _ | _⟩ <;> simp [Outcome.ofExcept]

theorem invoke_native_fails (tool : Tool) (args : List Value) :
    (Callable.invoke (n + 1) c (.native tool) args).Fails w e ↔
      (Callable.native tool).checkArity args = .error e ∨
        (Callable.native tool).checkArity args = .ok () ∧ (tool.act args).2 = .error e := by
  rw [Callable.invoke, fails_check_bind]
  simp [useTool_fails]

theorem invoke_user_fails (closure : Closure) (args : List Value) :
    (Callable.invoke (n + 1) c (.user closure) args).Fails w e ↔
      (Callable.user closure).checkArity args = .error e ∨
        (Callable.user closure).checkArity args = .ok () ∧ (c.enter = .error e ∨ ∃ d, c.enter = .ok d ∧
          (do
            let scope ← Exec.declareAll (closure.decl.params.zip args) closure.entryScope
            (Block.exec n d closure.decl.body).inScope scope : Exec Signal).Fails
              (w.note (.calling closure.decl.name d.depth)) e) := by
  rw [Callable.invoke, fails_check_bind]
  simp [fails_bind, Exec.note]

theorem declareAll_cons_fails (x : String) (v : Value) (rest : List (String × Value)) (b : Block) :
    (do
      let scope ← Exec.declareAll ((x, v) :: rest) s
      (Block.exec n c b).inScope scope : Exec Signal).Fails w e ↔
      s.declareVariable x w.nextCell = .error e ∨ ∃ t, s.declareVariable x w.nextCell = .ok t ∧
        (do
          let scope ← Exec.declareAll rest t
          (Block.exec n c b).inScope scope : Exec Signal).Fails (w.add v) e := by
  rw [Exec.declareAll]
  simp only [bind_assoc]
  exact fails_ofExcept_bind

theorem declareAll_nil_fails (b : Block) :
    (do
      let scope ← Exec.declareAll [] s
      (Block.exec n c b).inScope scope : Exec Signal).Fails w e ↔ (Block.exec n c b).Fails ⟨s, w⟩ e := by
  rw [Exec.declareAll, pure_bind]
  rfl

theorem exec_function_fails (f : String) (params : List String) (b : Block) :
    (Statement.exec (n + 1) c (.function f params b)).Fails ⟨s, w⟩ e ↔
      s.declareFunction f (.user ⟨⟨f, params, b⟩, s.child⟩) = .error e := by
  rw [Statement.exec, fails_bind]
  simp [Run.note]

theorem exec_block_fails (b : Block) :
    (Statement.exec (n + 2) c (.block b)).Fails ⟨s, w⟩ e ↔ (Block.exec n c b).Fails ⟨s.child, w⟩ e := by
  rw [Statement.exec, Run.fails_within, Statement.execChild, Run.fails_inScope]

theorem exec_declare_none_fails (x : String) :
    (Statement.exec (n + 1) c (.declare x none)).Fails ⟨s, w⟩ e ↔ s.declareVariable x w.nextCell = .error e := by
  rw [Statement.exec, fails_bind]
  simp

theorem exec_declare_some_fails (x : String) (init : Expression) :
    (Statement.exec (n + 1) c (.declare x (some init))).Fails ⟨s, w⟩ e ↔ (Expression.eval n c s init).Fails w e ∨
      ∃ v w', Expression.eval n c s init w = (.done v, w') ∧ s.declareVariable x w'.nextCell = .error e := by
  rw [Statement.exec, fails_bind]
  simp only [Run.fails_within, Run.within_eq_done, fails_bind, Run.fails_declareVariable, fails_pure, and_false,
    exists_false, or_false]
  constructor
  · rintro (h | ⟨v, ⟨_, w'⟩, ⟨hv, rfl⟩, h⟩)
    · exact .inl h
    · exact .inr ⟨v, w', hv, h⟩
  · rintro (h | ⟨v, w', hv, h⟩)
    · exact .inl h
    · exact .inr ⟨v, ⟨s, w'⟩, ⟨hv, rfl⟩, h⟩

theorem exec_evaluate_fails (x : Expression) :
    (Statement.exec (n + 1) c (.evaluate x)).Fails ⟨s, w⟩ e ↔ (Expression.eval n c s x).Fails w e := by
  rw [Statement.exec, Run.fails_within, fails_bind]
  simp

theorem exec_loop_fails (x : Expression) (b : Statement) :
    (Statement.exec (n + 1) c (.loop x b)).Fails ⟨s, w⟩ e ↔ (Statement.iterate n c s x b 0).Fails w e := by
  rw [Statement.exec, Run.fails_within]

theorem exec_ifThen_fails (x : Expression) (t : Statement) :
    (Statement.exec (n + 1) c (.ifThen x t)).Fails ⟨s, w⟩ e ↔ (Expression.eval n c s x).Fails w e ∨
      ∃ v w', Expression.eval n c s x w = (.done v, w') ∧ Value.isTruthy v = true ∧
        (Statement.execChild n c s t).Fails w' e := by
  rw [Statement.exec, Run.fails_within, fails_bind]
  refine or_congr_right (exists_congr fun v => exists_congr fun w' => and_congr_right fun _ => ?_)
  cases Value.isTruthy v <;> simp

theorem exec_ifElse_fails (x : Expression) (t u : Statement) :
    (Statement.exec (n + 1) c (.ifElse x t u)).Fails ⟨s, w⟩ e ↔ (Expression.eval n c s x).Fails w e ∨
      ∃ v w', Expression.eval n c s x w = (.done v, w') ∧
        (Value.isTruthy v = true ∧ (Statement.execChild n c s t).Fails w' e ∨
          Value.isTruthy v = false ∧ (Statement.execChild n c s u).Fails w' e) := by
  rw [Statement.exec, Run.fails_within, fails_bind]
  refine or_congr_right (exists_congr fun v => exists_congr fun w' => and_congr_right fun _ => ?_)
  cases Value.isTruthy v <;> simp

theorem exec_assign_fails (x : String) (y : Expression) :
    (Statement.exec (n + 1) c (.assign x y)).Fails ⟨s, w⟩ e ↔ s.cell x = .error e ∨
      ∃ cell, s.cell x = .ok cell ∧ (Expression.eval n c s y).Fails w e := by
  rw [Statement.exec, Run.fails_within, fails_ofExcept_bind]
  simp [fails_bind, Exec.write]

theorem exec_result_fails (x : Expression) :
    (Statement.exec (n + 1) c (.result x)).Fails ⟨s, w⟩ e ↔ (Expression.eval n c s x).Fails w e := by
  rw [Statement.exec, Run.fails_within, fails_bind]
  simp

theorem exec_cons_fails (st : Statement) (rest : Block) :
    (Block.exec (n + 1) c (st :: rest)).Fails ⟨s, w⟩ e ↔ (Statement.exec n c st).Fails ⟨s, w⟩ e ∨
      ∃ f, Statement.exec n c st ⟨s, w⟩ = (.done none, f) ∧ (Block.exec n c rest).Fails f e := by
  rw [Block.exec, fails_bind]
  refine or_congr_right ⟨?_, ?_⟩
  · rintro ⟨_ | v, f, hst, h⟩
    · exact ⟨f, hst, h⟩
    · exact ((fails_pure _ _ _).1 h).elim
  · rintro ⟨f, hst, h⟩
    exact ⟨none, f, hst, h⟩

theorem execChild_block_fails (b : Block) :
    (Statement.execChild (n + 1) c s (.block b)).Fails w e ↔ (Block.exec n c b).Fails ⟨s.child, w⟩ e := by
  rw [Statement.execChild, Run.fails_inScope]

theorem execChild_fails {st : Statement} (hst : ∀ b, st ≠ .block b) :
    (Statement.execChild (n + 1) c s st).Fails w e ↔ (Statement.exec n c st).Fails ⟨s.child, w⟩ e := by
  rw [Statement.execChild]
  · exact Run.fails_inScope _ _ _ _
  · exact hst

theorem iterate_fails (x : Expression) (b : Statement) (k : Nat) :
    (Statement.iterate (n + 1) c s x b k).Fails w e ↔ (Expression.eval n c s x).Fails w e ∨
      ∃ v w', Expression.eval n c s x w = (.done v, w') ∧ Value.isTruthy v = true ∧
        (c.limits.checkIterations (k + 1) = .error e ∨ c.limits.checkIterations (k + 1) = .ok () ∧
          ((Statement.execChild n c s b).Fails w' e ∨ ∃ w'', Statement.execChild n c s b w' = (.done none, w'') ∧
            (Statement.iterate n c s x b (k + 1)).Fails w'' e)) := by
  rw [Statement.iterate, fails_bind]
  refine or_congr_right (exists_congr fun v => exists_congr fun w' => and_congr_right fun _ => ?_)
  cases Value.isTruthy v with
  | false => simp
  | true =>
    simp only [if_true, true_and]
    rw [fails_check_bind, fails_bind]
    refine or_congr_right (and_congr_right fun _ => or_congr_right ⟨?_, ?_⟩)
    · rintro ⟨_ | v, w'', hb, h⟩
      · exact ⟨w'', hb, h⟩
      · exact ((fails_pure _ _ _).1 h).elim
    · rintro ⟨w'', hb, h⟩
      exact ⟨none, w'', hb, h⟩

end Equations

namespace Config

variable {g h : Config} {e : EvalError}

theorem Fails.of_calls (hc : Calls g h) (hh : h.Fails e) : g.Fails e := by
  cases hc with
  | left => exact (eval_binary_fails _ _ _).2 (.inl hh)
  | right hl ha => exact (eval_binary_fails _ _ _).2 (.inr ⟨_, _, hl, ha, .inl hh⟩)
  | arguments => exact (eval_call_fails _ _).2 (.inl hh)
  | argument => exact (evalAll_cons_fails _ _).2 (.inl hh)
  | nextArgument he => exact (evalAll_cons_fails _ _).2 (.inr ⟨_, _, he, hh⟩)
  | invocation hargs => exact (eval_call_fails _ _).2 (.inr ⟨_, _, hargs, hh⟩)
  | parameter hx => exact (declareAll_cons_fails _ _ _ _).2 (.inr ⟨_, hx, hh⟩)
  | body => exact (declareAll_nil_fails _).2 hh
  | block => exact (exec_block_fails _).2 hh
  | initial => exact (exec_declare_some_fails _ _).2 (.inl hh)
  | evaluate => exact (exec_evaluate_fails _).2 hh
  | loop => exact (exec_loop_fails _ _).2 hh
  | condition => exact (exec_ifThen_fails _ _).2 (.inl hh)
  | consequent he hv => exact (exec_ifThen_fails _ _).2 (.inr ⟨_, _, he, hv, hh⟩)
  | choice => exact (exec_ifElse_fails _ _ _).2 (.inl hh)
  | first he hv => exact (exec_ifElse_fails _ _ _).2 (.inr ⟨_, _, he, .inl ⟨hv, hh⟩⟩)
  | second he hv => exact (exec_ifElse_fails _ _ _).2 (.inr ⟨_, _, he, .inr ⟨hv, hh⟩⟩)
  | assigned hx => exact (exec_assign_fails _ _).2 (.inr ⟨_, hx, hh⟩)
  | result => exact (exec_result_fails _).2 hh
  | statement => exact (exec_cons_fails _ _).2 (.inl hh)
  | nextStatement hst => exact (exec_cons_fails _ _).2 (.inr ⟨_, hst, hh⟩)
  | branchBlock => exact (execChild_block_fails _).2 hh
  | branchStatement hst => exact (execChild_fails hst).2 hh
  | loopCondition => exact (iterate_fails _ _ _).2 (.inl hh)
  | loopBody he hv hk => exact (iterate_fails _ _ _).2 (.inr ⟨_, _, he, hv, .inr ⟨hk, .inl hh⟩⟩)
  | nextIteration he hv hk hb =>
    exact (iterate_fails _ _ _).2 (.inr ⟨_, _, he, hv, .inr ⟨hk, .inr ⟨_, hb, hh⟩⟩⟩)

theorem checkArity_user (closure : Closure) (args : List Value) :
    (Callable.user closure).checkArity args = .ok () ↔ closure.decl.params.length = args.length := by
  unfold Callable.checkArity Callable.arity
  dsimp only
  split <;> simp_all

theorem Fails.of_enters {q : Place} {closure : Closure} (hc : Enters q closure g h) (hh : h.Fails e) :
    g.Fails e := by
  cases hc with
  | intro hf hargs hd =>
    have harity := (checkArity_user closure _).2 hargs
    exact (lookup_fails _ _).2 (.inr ⟨_, hf, (invoke_user_fails _ _).2 (.inr ⟨harity, .inr ⟨_, hd, hh⟩⟩)⟩)

theorem Fails.of_performs {k : Check} (hk : g.Performs k) (he : g.scope.fault k = some e) : g.Fails e := by
  cases hk with
  | read => exact (eval_var_fails _).2 (Scope.errorOf_eq_some.1 he)
  | lookup => exact (lookup_fails _ _).2 (.inl (Scope.errorOf_eq_some.1 he))
  | @arity _ _ _ _ _ _ _ callee hf =>
    refine (lookup_fails _ _).2 (.inr ⟨_, hf, ?_⟩)
    simp only [Scope.fault, hf] at he
    cases callee with
    | native tool => exact (invoke_native_fails _ _).2 (.inl (Scope.errorOf_eq_some.1 he))
    | user closure => exact (invoke_user_fails _ _).2 (.inl (Scope.errorOf_eq_some.1 he))
  | parameter => exact (declareAll_cons_fails _ _ _ _).2 (.inl (Scope.errorOf_eq_some.1 he))
  | definition => exact (exec_function_fails _ _ _).2 (Scope.errorOf_eq_some.1 he)
  | declaration => exact (exec_declare_none_fails _).2 (Scope.errorOf_eq_some.1 he)
  | initialized hv => exact (exec_declare_some_fails _ _).2 (.inr ⟨_, _, hv, Scope.errorOf_eq_some.1 he⟩)
  | assignment => exact (exec_assign_fails _ _).2 (.inl (Scope.errorOf_eq_some.1 he))

theorem Stops.fails (h : g.Stops e) : g.Fails e := by
  cases h with
  | operator hl ha hr he => exact (eval_binary_fails _ _ _).2 (.inr ⟨_, _, hl, ha, .inr ⟨_, _, hr, he⟩⟩)
  | tool hf hargs he =>
    exact (lookup_fails _ _).2 (.inr ⟨_, hf, (invoke_native_fails _ _).2 (.inr ⟨hargs, he⟩)⟩)
  | depth hf hargs he =>
    exact (lookup_fails _ _).2 (.inr ⟨_, hf, (invoke_user_fails _ _).2 (.inr ⟨hargs, .inl he⟩)⟩)
  | iterations hc hv he => exact (iterate_fails _ _ _).2 (.inr ⟨_, _, hc, hv, .inl he⟩)

theorem Raises.fails (h : g.Raises e) : g.Fails e := by
  rcases h with ⟨k, hk, he⟩ | h
  · exact .of_performs hk he
  · exact h.fails

theorem Raises.of_check {k : Check} (hk : g.Performs k) (he : g.scope.fault k = some e) : g.Raises e :=
  .inl ⟨k, hk, he⟩

def PassesOn (g : Config) (e : EvalError) : Prop :=
  (∃ h, Calls g h ∧ h.Fails e) ∨
    ∃ f closure, g.scope.callable f = .ok (.user closure) ∧ ∀ q, ∃ h, Enters q closure g h ∧ h.Fails e

section Sources

variable {p : Place} {n : Nat} {c : Context} {s : Scope} {w : World}

theorem expression_source {x : Expression} (h : Fails ⟨p, n, c, s, w, .expression x⟩ e) :
    Raises ⟨p, n, c, s, w, .expression x⟩ e ∨ PassesOn ⟨p, n, c, s, w, .expression x⟩ e := by
  cases n with
  | zero => exact ((fails_outOfFuel _ _).1 h).elim
  | succ n =>
    cases x with
    | literal v => exact ((fails_pure _ _ _).1 h).elim
    | var x => exact .inl (.of_check .read (Scope.errorOf_eq_some.2 ((eval_var_fails x).1 h)))
    | binary op l r =>
      rcases (eval_binary_fails op l r).1 h with h | ⟨a, w', hl, ha, h | ⟨b, w'', hr, he⟩⟩
      · exact .inr (.inl ⟨_, .left, h⟩)
      · exact .inr (.inl ⟨_, .right hl ha, h⟩)
      · exact .inl (.inr (.operator hl ha hr he))
    | call f args =>
      rcases (eval_call_fails f args).1 h with h | ⟨vs, w', hargs, h⟩
      · exact .inr (.inl ⟨_, .arguments, h⟩)
      · exact .inr (.inl ⟨_, .invocation hargs, h⟩)

theorem arguments_source {i : Nat} {xs : List Expression} (h : Fails ⟨p, n, c, s, w, .arguments i xs⟩ e) :
    PassesOn ⟨p, n, c, s, w, .arguments i xs⟩ e := by
  cases n with
  | zero => exact ((fails_outOfFuel _ _).1 h).elim
  | succ n =>
    cases xs with
    | nil => exact ((fails_pure _ _ _).1 h).elim
    | cons x xs =>
      rcases (evalAll_cons_fails x xs).1 h with h | ⟨v, w', hx, h⟩
      · exact .inl ⟨_, .argument, h⟩
      · exact .inl ⟨_, .nextArgument hx, h⟩

theorem invocation_source {f : String} {args : List Value} (h : Fails ⟨p, n, c, s, w, .invocation f args⟩ e) :
    Raises ⟨p, n, c, s, w, .invocation f args⟩ e ∨ PassesOn ⟨p, n, c, s, w, .invocation f args⟩ e := by
  rcases (lookup_fails f args).1 h with h | ⟨callee, hf, h⟩
  · exact .inl (.of_check .lookup (Scope.errorOf_eq_some.2 h))
  · cases n with
    | zero => exact ((fails_outOfFuel _ _).1 h).elim
    | succ n =>
      have arity : ∀ e, callee.checkArity args = .error e → s.fault (.arity f args) = some e := by
        intro e he
        simp only [Scope.fault, hf]
        exact Scope.errorOf_eq_some.2 he
      cases callee with
      | native tool =>
        rcases (invoke_native_fails tool args).1 h with h | ⟨hargs, he⟩
        · exact .inl (.of_check (.arity hf) (arity e h))
        · exact .inl (.inr (.tool hf hargs he))
      | user closure =>
        rcases (invoke_user_fails closure args).1 h with h | ⟨hargs, he | ⟨d, hd, h⟩⟩
        · exact .inl (.of_check (.arity hf) (arity e h))
        · exact .inl (.inr (.depth hf hargs he))
        · have hlen := (checkArity_user closure args).1 hargs
          exact .inr (.inr ⟨f, closure, hf, fun q => ⟨_, .intro hf hlen hd, h⟩⟩)

theorem parameters_source {d : FunctionDecl} {i : Nat} {rest : List (String × Value)}
    (h : Fails ⟨p, n, c, s, w, .parameters d i rest⟩ e) :
    Raises ⟨p, n, c, s, w, .parameters d i rest⟩ e ∨ PassesOn ⟨p, n, c, s, w, .parameters d i rest⟩ e := by
  cases rest with
  | nil => exact .inr (.inl ⟨_, .body, (declareAll_nil_fails d.body).1 h⟩)
  | cons b rest =>
    obtain ⟨x, v⟩ := b
    rcases (declareAll_cons_fails x v rest d.body).1 h with h | ⟨t, hx, h⟩
    · exact .inl (.of_check .parameter (Scope.errorOf_eq_some.2 h))
    · exact .inr (.inl ⟨_, .parameter hx, h⟩)

theorem statement_source {st : Statement} (h : Fails ⟨p, n, c, s, w, .statement st⟩ e) :
    Raises ⟨p, n, c, s, w, .statement st⟩ e ∨ PassesOn ⟨p, n, c, s, w, .statement st⟩ e := by
  cases n with
  | zero => exact ((fails_outOfFuel _ _).1 h).elim
  | succ n =>
    cases st with
    | function f params b =>
      exact .inl (.of_check .definition (Scope.errorOf_eq_some.2 ((exec_function_fails f params b).1 h)))
    | block b =>
      cases n with
      | zero => exact ((fails_outOfFuel _ _).1 h).elim
      | succ n => exact .inr (.inl ⟨_, .block, (exec_block_fails b).1 h⟩)
    | declare x init =>
      cases init with
      | none => exact .inl (.of_check .declaration (Scope.errorOf_eq_some.2 ((exec_declare_none_fails x).1 h)))
      | some init =>
        rcases (exec_declare_some_fails x init).1 h with h | ⟨v, w', hv, h⟩
        · exact .inr (.inl ⟨_, .initial, h⟩)
        · exact .inl (.of_check (.initialized hv) (Scope.errorOf_eq_some.2 h))
    | evaluate x => exact .inr (.inl ⟨_, .evaluate, (exec_evaluate_fails x).1 h⟩)
    | loop x b => exact .inr (.inl ⟨_, .loop, (exec_loop_fails x b).1 h⟩)
    | ifThen x t =>
      rcases (exec_ifThen_fails x t).1 h with h | ⟨v, w', hx, hv, h⟩
      · exact .inr (.inl ⟨_, .condition, h⟩)
      · exact .inr (.inl ⟨_, .consequent hx hv, h⟩)
    | ifElse x t u =>
      rcases (exec_ifElse_fails x t u).1 h with h | ⟨v, w', hx, ⟨hv, h⟩ | ⟨hv, h⟩⟩
      · exact .inr (.inl ⟨_, .choice, h⟩)
      · exact .inr (.inl ⟨_, .first hx hv, h⟩)
      · exact .inr (.inl ⟨_, .second hx hv, h⟩)
    | assign x y =>
      rcases (exec_assign_fails x y).1 h with h | ⟨cell, hx, h⟩
      · exact .inl (.of_check .assignment (Scope.errorOf_eq_some.2 h))
      · exact .inr (.inl ⟨_, .assigned hx, h⟩)
    | result x => exact .inr (.inl ⟨_, .result, (exec_result_fails x).1 h⟩)

theorem statements_source {i : Nat} {b : Block} (h : Fails ⟨p, n, c, s, w, .statements i b⟩ e) :
    PassesOn ⟨p, n, c, s, w, .statements i b⟩ e := by
  cases n with
  | zero => exact ((fails_outOfFuel _ _).1 h).elim
  | succ n =>
    cases b with
    | nil => exact ((fails_pure _ _ _).1 h).elim
    | cons st rest =>
      rcases (exec_cons_fails st rest).1 h with h | ⟨f, hst, h⟩
      · exact .inl ⟨_, .statement, h⟩
      · exact .inl ⟨_, .nextStatement hst, h⟩

theorem branch_source {st : Statement} (h : Fails ⟨p, n, c, s, w, .branch st⟩ e) :
    PassesOn ⟨p, n, c, s, w, .branch st⟩ e := by
  cases n with
  | zero => exact ((fails_outOfFuel _ _).1 h).elim
  | succ n =>
    by_cases hst : ∃ b, st = .block b
    · obtain ⟨b, rfl⟩ := hst
      exact .inl ⟨_, .branchBlock, (execChild_block_fails b).1 h⟩
    · have hst : ∀ b, st ≠ .block b := fun b hb => hst ⟨b, hb⟩
      exact .inl ⟨_, .branchStatement hst, (execChild_fails hst).1 h⟩

theorem iteration_source {x : Expression} {b : Statement} {k : Nat}
    (h : Fails ⟨p, n, c, s, w, .iteration x b k⟩ e) :
    Raises ⟨p, n, c, s, w, .iteration x b k⟩ e ∨ PassesOn ⟨p, n, c, s, w, .iteration x b k⟩ e := by
  cases n with
  | zero => exact ((fails_outOfFuel _ _).1 h).elim
  | succ n =>
    rcases (iterate_fails x b k).1 h with h | ⟨v, w', hx, hv, he | ⟨hk, h | ⟨w'', hb, h⟩⟩⟩
    · exact .inr (.inl ⟨_, .loopCondition, h⟩)
    · exact .inl (.inr (.iterations hx hv he))
    · exact .inr (.inl ⟨_, .loopBody hx hv hk, h⟩)
    · exact .inr (.inl ⟨_, .nextIteration hx hv hk hb, h⟩)

end Sources

theorem Fails.source (h : g.Fails e) : g.Raises e ∨ g.PassesOn e := by
  obtain ⟨p, n, c, s, w, task⟩ := g
  cases task with
  | expression x => exact expression_source h
  | arguments i xs => exact .inr (arguments_source h)
  | invocation f args => exact invocation_source h
  | parameters d i rest => exact parameters_source h
  | statement st => exact statement_source h
  | statements i b => exact .inr (statements_source h)
  | branch st => exact .inr (branch_source h)
  | iteration x b k => exact iteration_source h

end Config

namespace Reached

variable {start g : Config}

theorem made (hstart : ∀ f closure, start.scope.funs.lookup? f ≠ some (.user closure)) (hg : Reached start g)
    {f : String} {closure : Closure} (hf : g.scope.funs.lookup? f = some (.user closure)) :
    ∃ made, Reached start made ∧ made.Makes closure := by
  induction hg generalizing f closure with
  | start => exact absurd hf (hstart f closure)
  | @calls g h hg hc ih =>
    cases hc with
    | parameter hx =>
      obtain ⟨-, rfl⟩ := Scope.declareVariable_eq_ok.1 hx
      exact ih hf
    | @nextStatement p n c s w i st rest f' hst =>
      have hd := Statement.exec_declares hst
      cases st with
      | declare x init =>
        obtain ⟨cell, hx⟩ := hd
        obtain ⟨-, ht⟩ := Scope.declareVariable_eq_ok.1 hx
        rw [ht] at hf
        exact ih hf
      | function f₀ params b =>
        obtain ⟨-, ht⟩ := Scope.declareFunction_eq_ok.1 hd
        rw [ht, Table.lookup?_bind] at hf
        by_cases h : f = f₀
        · rw [if_pos h] at hf
          cases hf
          -- the definition itself, which was reached just before
          exact ⟨_, hg.calls .statement, rfl, rfl⟩
        · rw [if_neg h] at hf
          exact ih hf
      | _ =>
        rw [show f'.scope = s from hd] at hf
        exact ih hf
    | _ => exact ih hf
  | @enters g h made closure' hg hm hmade he ihg ihm =>
    cases he with
    | intro hf' hargs hd =>
      have hlookup : closure'.entryScope.funs.lookup? f = some (.user closure) := hf
      rw [Closure.entryScope, Scope.inheritFunction, Table.lookup?_inherit] at hlookup
      by_cases h : f = closure'.decl.name
      · rw [if_pos h] at hlookup
        cases hlookup
        exact ⟨made, hm, hmade⟩
      · rw [if_neg h, hmade.2] at hlookup
        exact ihm hlookup

theorem fails {e : EvalError} (hg : Reached start g) (he : g.Fails e) : start.Fails e := by
  induction hg with
  | start => exact he
  | calls _ hc ih => exact ih (.of_calls hc he)
  | enters _ _ _ hc ih _ => exact ih (.of_enters hc he)

end Reached

namespace Config

def measure (g : Config) : Nat × Nat :=
  (g.fuel, match g.task with
    | .parameters _ _ rest => rest.length + 1
    | _ => 0)

theorem measure_lt_of_calls {g h : Config} (hc : Calls g h) : Prod.Lex (· < ·) (· < ·) h.measure g.measure := by
  cases hc with
  | parameter => exact .right _ (by simp)
  | body => exact .right _ (by simp)
  | block => exact .left _ _ (by simp)
  | _ => exact .left _ _ (Nat.lt_succ_self _)

theorem measure_lt_of_enters {q : Place} {closure : Closure} {g h : Config} (hc : Enters q closure g h) :
    Prod.Lex (· < ·) (· < ·) h.measure g.measure := by
  cases hc with
  | intro => exact .left _ _ (Nat.lt_succ_self _)

theorem Fails.raised {start : Config} {e : EvalError}
    (hstart : ∀ f closure, start.scope.funs.lookup? f ≠ some (.user closure)) {g : Config}
    (hg : Reached start g) (he : g.Fails e) : ∃ h, Reached start h ∧ h.Raises e := by
  induction hm : g.measure using (Prod.lex Nat.lt_wfRel Nat.lt_wfRel).wf.induction generalizing g with
  | _ m ih =>
    subst hm
    rcases he.source with h | ⟨h, hc, hh⟩ | ⟨f, closure, hf, hc⟩
    · exact ⟨g, hg, h⟩
    · exact ih _ (measure_lt_of_calls hc) (hg.calls hc) hh rfl
    · obtain ⟨made, hm, hmade⟩ := hg.made hstart (Scope.callable_eq_ok.1 hf)
      obtain ⟨h, hent, hh⟩ := hc made.place
      exact ih _ (measure_lt_of_enters hent) (hg.enters hm hmade hent) hh rfl

theorem ofProgram_native (r : Registry) (limits : Limits) (program : Block) (fuel : Nat) (f : String)
    (closure : Closure) : (ofProgram r limits program fuel).scope.funs.lookup? f ≠ some (.user closure) := by
  change (r.tools.map Callable.native).lookup? f ≠ some (.user closure)
  rw [Table.lookup?_map]
  cases r.tools.lookup? f <;> simp

end Config

theorem Interpreter.execute_failed (r : Registry) (limits : Limits) (program : Block) (fuel : Nat) (e : EvalError) :
    (Interpreter.execute fuel program (.ofRegistry r limits)).1 = .failed e ↔
      (Config.ofProgram r limits program fuel).Fails e := by
  change (Interpreter.closing (Interpreter.atTop fun c => Block.exec fuel c program)
    ((Interpreter.ofRegistry r limits).withWorld (World.empty.note (.started program.length)))).1 = .failed e ↔
      (Block.exec fuel (.top limits) program
        ⟨r.rootScope.child, World.empty.note (.started program.length)⟩).1 = .failed e
  simp only [Interpreter.closing, Interpreter.atTop, Interpreter.withWorld, Interpreter.ofRegistry]
  rcases Block.exec fuel (.top limits) program
    ⟨r.rootScope.child, World.empty.note (.started program.length)⟩ with ⟨_ | _ | _, f⟩ <;> simp

theorem Interpreter.execute_failed_iff (r : Registry) (limits : Limits) (program : Block) (fuel : Nat)
    (e : EvalError) :
    (Interpreter.execute fuel program (.ofRegistry r limits)).1 = .failed e ↔
      ∃ g, Reached (.ofProgram r limits program fuel) g ∧ g.Raises e := by
  rw [Interpreter.execute_failed]
  constructor
  · intro h
    exact h.raised (Config.ofProgram_native r limits program fuel) .start
  · rintro ⟨g, hg, he⟩
    exact hg.fails he.fails

end IntScript
