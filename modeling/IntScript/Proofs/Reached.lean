import IntScript.Proofs.StaticScope

set_option autoImplicit false

/-! # What a run reaches

A configuration is one thing that evaluation is asked to do, with its place in the program. `Calls` lists what each
configuration asks for in turn, as far as what comes before it has ended; a call of a function goes on at the place
of the definition that made its closure. Errors are never caught, so a run fails exactly if it reaches a
configuration that raises the error itself. -/

namespace IntScript

inductive Task where
  | expression (e : Expression)
  | arguments (i : Nat) (es : List Expression)
  | invocation (f : String) (args : List Value)
  /-- Parameters of the function defined at this place, from the given one on, and then its body. -/
  | parameters (decl : FunctionDecl) (i : Nat) (rest : List (String × Value))
  | statement (s : Statement)
  | statements (i : Nat) (b : Block)
  | branch (s : Statement)
  | iteration (condition : Expression) (body : Statement) (count : Nat)

structure Config where
  place : Place
  fuel : Nat
  context : Context
  scope : Scope
  world : World
  task : Task

inductive Calls : Config → Config → Prop
  | left {p n c s w op l r} :
      Calls ⟨p, n + 1, c, s, w, .expression (.binary op l r)⟩ ⟨0 :: p, n, c, s, w, .expression l⟩
  | right {p n c s w op l r a w'} (hl : Expression.eval n c s l w = (.done a, w')) (ha : op.decidedBy a = false) :
      Calls ⟨p, n + 1, c, s, w, .expression (.binary op l r)⟩ ⟨1 :: p, n, c, s, w', .expression r⟩
  | arguments {p n c s w f args} :
      Calls ⟨p, n + 1, c, s, w, .expression (.call f args)⟩ ⟨p, n, c, s, w, .arguments 0 args⟩
  | argument {p n c s w i e es} :
      Calls ⟨p, n + 1, c, s, w, .arguments i (e :: es)⟩ ⟨i :: p, n, c, s, w, .expression e⟩
  | nextArgument {p n c s w i e es v w'} (he : Expression.eval n c s e w = (.done v, w')) :
      Calls ⟨p, n + 1, c, s, w, .arguments i (e :: es)⟩ ⟨p, n, c, s, w', .arguments (i + 1) es⟩
  | invocation {p n c s w f args vs w'} (hargs : Expression.evalAll n c s args w = (.done vs, w')) :
      Calls ⟨p, n + 1, c, s, w, .expression (.call f args)⟩ ⟨p, n, c, s, w', .invocation f vs⟩
  | parameter {p n c s w d i x v rest t} (hx : s.declareVariable x w.nextCell = .ok t) :
      Calls ⟨p, n, c, s, w, .parameters d i ((x, v) :: rest)⟩ ⟨p, n, c, t, w.add v, .parameters d (i + 1) rest⟩
  | body {p n c s w d i} :
      Calls ⟨p, n, c, s, w, .parameters d i []⟩ ⟨p, n, c, s, w, .statements 0 d.body⟩
  | block {p n c s w b} :
      Calls ⟨p, n + 2, c, s, w, .statement (.block b)⟩ ⟨p, n, c, s.child, w, .statements 0 b⟩
  | initial {p n c s w x e} :
      Calls ⟨p, n + 1, c, s, w, .statement (.declare x (some e))⟩ ⟨0 :: p, n, c, s, w, .expression e⟩
  | evaluate {p n c s w e} :
      Calls ⟨p, n + 1, c, s, w, .statement (.evaluate e)⟩ ⟨0 :: p, n, c, s, w, .expression e⟩
  | loop {p n c s w e b} :
      Calls ⟨p, n + 1, c, s, w, .statement (.loop e b)⟩ ⟨p, n, c, s, w, .iteration e b 0⟩
  | condition {p n c s w e t} :
      Calls ⟨p, n + 1, c, s, w, .statement (.ifThen e t)⟩ ⟨0 :: p, n, c, s, w, .expression e⟩
  | consequent {p n c s w e t v w'} (he : Expression.eval n c s e w = (.done v, w'))
      (hv : Value.isTruthy v = true) :
      Calls ⟨p, n + 1, c, s, w, .statement (.ifThen e t)⟩ ⟨1 :: p, n, c, s, w', .branch t⟩
  | choice {p n c s w e t u} :
      Calls ⟨p, n + 1, c, s, w, .statement (.ifElse e t u)⟩ ⟨0 :: p, n, c, s, w, .expression e⟩
  | first {p n c s w e t u v w'} (he : Expression.eval n c s e w = (.done v, w')) (hv : Value.isTruthy v = true) :
      Calls ⟨p, n + 1, c, s, w, .statement (.ifElse e t u)⟩ ⟨1 :: p, n, c, s, w', .branch t⟩
  | second {p n c s w e t u v w'} (he : Expression.eval n c s e w = (.done v, w')) (hv : Value.isTruthy v = false) :
      Calls ⟨p, n + 1, c, s, w, .statement (.ifElse e t u)⟩ ⟨2 :: p, n, c, s, w', .branch u⟩
  | assigned {p n c s w x e cell} (hx : s.cell x = .ok cell) :
      Calls ⟨p, n + 1, c, s, w, .statement (.assign x e)⟩ ⟨0 :: p, n, c, s, w, .expression e⟩
  | result {p n c s w e} :
      Calls ⟨p, n + 1, c, s, w, .statement (.result e)⟩ ⟨0 :: p, n, c, s, w, .expression e⟩
  | statement {p n c s w i st rest} :
      Calls ⟨p, n + 1, c, s, w, .statements i (st :: rest)⟩ ⟨i :: p, n, c, s, w, .statement st⟩
  | nextStatement {p n c s w i st rest f} (hst : Statement.exec n c st ⟨s, w⟩ = (.done none, f)) :
      Calls ⟨p, n + 1, c, s, w, .statements i (st :: rest)⟩ ⟨p, n, c, f.scope, f.world, .statements (i + 1) rest⟩
  | branchBlock {p n c s w b} :
      Calls ⟨p, n + 1, c, s, w, .branch (.block b)⟩ ⟨p, n, c, s.child, w, .statements 0 b⟩
  | branchStatement {p n c s w st} (hst : ∀ b, st ≠ .block b) :
      Calls ⟨p, n + 1, c, s, w, .branch st⟩ ⟨p, n, c, s.child, w, .statement st⟩
  | loopCondition {p n c s w e b k} :
      Calls ⟨p, n + 1, c, s, w, .iteration e b k⟩ ⟨0 :: p, n, c, s, w, .expression e⟩
  | loopBody {p n c s w e b k v w'} (he : Expression.eval n c s e w = (.done v, w'))
      (hv : Value.isTruthy v = true) (hk : c.limits.checkIterations (k + 1) = .ok ()) :
      Calls ⟨p, n + 1, c, s, w, .iteration e b k⟩ ⟨1 :: p, n, c, s, w', .branch b⟩
  | nextIteration {p n c s w e b k v w' w''} (he : Expression.eval n c s e w = (.done v, w'))
      (hv : Value.isTruthy v = true) (hk : c.limits.checkIterations (k + 1) = .ok ())
      (hb : Statement.execChild n c s b w' = (.done none, w'')) :
      Calls ⟨p, n + 1, c, s, w, .iteration e b k⟩ ⟨p, n, c, s, w'', .iteration e b (k + 1)⟩

/-- A call that passes its checks begins to bind the parameters of the closure, at the place given first. -/
inductive Enters (q : Place) (closure : Closure) : Config → Config → Prop
  | intro {p n c s w f args d} (hf : s.callable f = .ok (.user closure))
      (hargs : closure.decl.params.length = args.length) (hd : c.enter = .ok d) :
      Enters q closure ⟨p, n + 1, c, s, w, .invocation f args⟩
        ⟨q, n, d, closure.entryScope, w.note (.calling closure.decl.name d.depth),
          .parameters closure.decl 0 (closure.decl.params.zip args)⟩

def Config.Makes (g : Config) (closure : Closure) : Prop :=
  g.task = .statement closure.decl.statement ∧ closure.scope = g.scope.child

inductive Reached (start : Config) : Config → Prop
  | start : Reached start start
  | calls {g h : Config} (hg : Reached start g) (hc : Calls g h) : Reached start h
  | enters {g h made : Config} {closure : Closure} (hg : Reached start g) (hm : Reached start made)
      (hmade : made.Makes closure) (he : Enters made.place closure g h) : Reached start h

def Config.ofProgram (r : Registry) (limits : Limits) (program : Block) (fuel : Nat) : Config :=
  ⟨[], fuel, .top limits, r.rootScope.child, World.empty.note (.started program.length), .statements 0 program⟩

inductive Check where
  | cell (x : String)
  | callable (f : String)
  | arity (f : String) (args : List Value)
  | declareVariable (x : String) (cell : Cell)
  | declareFunction (f : String) (item : Callable)

namespace Scope

def errorOf {α : Type} : Except EvalError α → Option EvalError
  | .ok _ => none
  | .error e => some e

theorem errorOf_eq_some {α : Type} {r : Except EvalError α} {e : EvalError} : errorOf r = some e ↔ r = .error e := by
  cases r <;> simp [errorOf]

def fault (s : Scope) : Check → Option EvalError
  | .cell x => errorOf (s.cell x)
  | .callable f => errorOf (s.callable f)
  | .arity f args =>
    match s.callable f with
    | .ok callee => errorOf (callee.checkArity args)
    | .error _ => none
  | .declareVariable x cell => errorOf (s.declareVariable x cell)
  | .declareFunction f item => errorOf (s.declareFunction f item)

end Scope

/-- The checks that a configuration makes itself, as far as what comes before them has ended. -/
inductive Config.Performs : Config → Check → Prop
  | read {p n c s w x} : Performs ⟨p, n + 1, c, s, w, .expression (.var x)⟩ (.cell x)
  | lookup {p n c s w f args} : Performs ⟨p, n, c, s, w, .invocation f args⟩ (.callable f)
  | arity {p n c s w f args callee} (hf : s.callable f = .ok callee) :
      Performs ⟨p, n + 1, c, s, w, .invocation f args⟩ (.arity f args)
  | parameter {p n c s w d i x v rest} :
      Performs ⟨p, n, c, s, w, .parameters d i ((x, v) :: rest)⟩ (.declareVariable x w.nextCell)
  | definition {p n c s w f params body} :
      Performs ⟨p, n + 1, c, s, w, .statement (.function f params body)⟩
        (.declareFunction f (.user ⟨⟨f, params, body⟩, s.child⟩))
  | declaration {p n c s w x} :
      Performs ⟨p, n + 1, c, s, w, .statement (.declare x none)⟩ (.declareVariable x w.nextCell)
  | initialized {p n c s w x e v w'} (he : Expression.eval n c s e w = (.done v, w')) :
      Performs ⟨p, n + 1, c, s, w, .statement (.declare x (some e))⟩ (.declareVariable x w'.nextCell)
  | assignment {p n c s w x e} : Performs ⟨p, n + 1, c, s, w, .statement (.assign x e)⟩ (.cell x)

/-- The errors of a configuration itself that are not about names: of an operator, of a tool or of a limit. -/
inductive Config.Stops : Config → EvalError → Prop
  | operator {p n c s w op l r a b w' w'' e} (hl : Expression.eval n c s l w = (.done a, w'))
      (ha : op.decidedBy a = false) (hr : Expression.eval n c s r w' = (.done b, w''))
      (he : op.combine a b = .error e) : Stops ⟨p, n + 1, c, s, w, .expression (.binary op l r)⟩ e
  | tool {p n c s w f args tool e} (hf : s.callable f = .ok (.native tool))
      (hargs : (Callable.native tool).checkArity args = .ok ()) (he : (tool.act args).2 = .error e) :
      Stops ⟨p, n + 1, c, s, w, .invocation f args⟩ e
  | depth {p n c s w f args closure e} (hf : s.callable f = .ok (.user closure))
      (hargs : (Callable.user closure).checkArity args = .ok ()) (he : c.enter = .error e) :
      Stops ⟨p, n + 1, c, s, w, .invocation f args⟩ e
  | iterations {p n c s w cond b k v w' e} (hc : Expression.eval n c s cond w = (.done v, w'))
      (hv : Value.isTruthy v = true) (he : c.limits.checkIterations (k + 1) = .error e) :
      Stops ⟨p, n + 1, c, s, w, .iteration cond b k⟩ e

def Config.Raises (g : Config) (e : EvalError) : Prop :=
  (∃ k, g.Performs k ∧ g.scope.fault k = some e) ∨ g.Stops e

end IntScript
