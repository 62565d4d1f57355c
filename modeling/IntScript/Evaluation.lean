import IntScript.Limits
import IntScript.Operator.Apply
import IntScript.World

set_option autoImplicit false

/-! # Evaluation

Expressions and statements by recursion on fuel, one unit for every step into a part, an argument, a following
statement or a further iteration. A run that ends within its fuel does not depend on it. -/

namespace IntScript

structure Context where
  limits : Limits
  depth : Nat
  deriving DecidableEq, Repr

namespace Context

def top (limits : Limits) : Context := ⟨limits, 0⟩

def enter (c : Context) : Except EvalError Context := do
  c.limits.checkDepth (c.depth + 1)
  return ⟨c.limits, c.depth + 1⟩

end Context

/-- A returned value, which stops all statements around it up to the call. -/
abbrev Signal := Option Value

mutual

def Expression.eval : Nat → Context → Scope → Expression → Exec Value
  | 0, _, _, _ => .outOfFuel
  | _ + 1, _, _, .literal v => pure v
  | _ + 1, _, s, .var x => do
    let cell ← .ofExcept (s.cell x)
    Exec.read cell
  | n + 1, c, s, .binary op l r => do
    let a ← Expression.eval n c s l
    op.apply a (Expression.eval n c s r)
  | n + 1, c, s, .call f args => do
    let values ← Expression.evalAll n c s args
    let callee ← .ofExcept (s.callable f)
    Callable.invoke n c callee values

def Expression.evalAll : Nat → Context → Scope → List Expression → Exec (List Value)
  | 0, _, _, _ => .outOfFuel
  | _ + 1, _, _, [] => pure []
  | n + 1, c, s, e :: es => do
    let v ← Expression.eval n c s e
    let vs ← Expression.evalAll n c s es
    return v :: vs

/-- Calls a function with evaluated arguments. Arity comes before depth, and depth before the parameters. -/
def Callable.invoke : Nat → Context → Callable → List Value → Exec Value
  | 0, _, _, _ => .outOfFuel
  | n + 1, c, callee, args => do
    .ofExcept (callee.checkArity args)
    match callee with
    | .native tool =>
      let result ← Exec.useTool tool args
      return result.getD 0
    | .user closure =>
      let inner ← .ofExcept c.enter
      Exec.note (.calling closure.decl.name inner.depth)
      let scope ← Exec.declareAll (closure.decl.params.zip args) closure.entryScope
      let signal ← (Block.exec n inner closure.decl.body).inScope scope
      return signal.getD 0

/-- An assignment finds its variable before it evaluates; a declaration evaluates before it declares. -/
def Statement.exec : Nat → Context → Statement → Run Signal
  | 0, _, _ => .outOfFuel
  | _ + 1, _, .function f params body => do
    Run.note (.defining f params.length)
    Run.declareFunction ⟨f, params, body⟩
    return none
  | n + 1, c, .block body => Run.within fun s => Statement.execChild n c s (.block body)
  | _ + 1, _, .declare x none => do
    Run.declareVariable x 0
    return none
  | n + 1, c, .declare x (some e) => do
    let v ← Run.within fun s => Expression.eval n c s e
    Run.declareVariable x v
    return none
  | n + 1, c, .evaluate e => Run.within fun s => do
    let _ ← Expression.eval n c s e
    return none
  | n + 1, c, .loop condition body => Run.within fun s => Statement.iterate n c s condition body 0
  | n + 1, c, .ifThen condition thenBranch => Run.within fun s => do
    let v ← Expression.eval n c s condition
    if Value.isTruthy v then Statement.execChild n c s thenBranch else return none
  | n + 1, c, .ifElse condition thenBranch elseBranch => Run.within fun s => do
    let v ← Expression.eval n c s condition
    if Value.isTruthy v then Statement.execChild n c s thenBranch else Statement.execChild n c s elseBranch
  | n + 1, c, .assign x e => Run.within fun s => do
    let cell ← .ofExcept (s.cell x)
    let v ← Expression.eval n c s e
    Exec.write cell v
    return none
  | n + 1, c, .result e => Run.within fun s => do
    let v ← Expression.eval n c s e
    return some v

def Block.exec : Nat → Context → Block → Run Signal
  | 0, _, _ => .outOfFuel
  | _ + 1, _, [] => pure none
  | n + 1, c, s :: rest => do
    match ← Statement.exec n c s with
    | some v => return some v
    | none => Block.exec n c rest

/-- A nested block, a branch or a loop body in a new child of the scope. The statements of a block run directly in
that child. -/
def Statement.execChild : Nat → Context → Scope → Statement → Exec Signal
  | 0, _, _, _ => .outOfFuel
  | n + 1, c, s, .block body => (Block.exec n c body).inScope s.child
  | n + 1, c, s, body => (Statement.exec n c body).inScope s.child

/-- A loop that has begun the given number of iterations. -/
def Statement.iterate : Nat → Context → Scope → Expression → Statement → Nat → Exec Signal
  | 0, _, _, _, _, _ => .outOfFuel
  | n + 1, c, s, condition, body, count => do
    let v ← Expression.eval n c s condition
    if Value.isTruthy v then
      .ofExcept (c.limits.checkIterations (count + 1))
      match ← Statement.execChild n c s body with
      | some result => return some result
      | none => Statement.iterate n c s condition body (count + 1)
    else
      return none

end

end IntScript
