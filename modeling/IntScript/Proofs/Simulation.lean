import IntScript.Proofs.Renaming
import Mathlib.Data.List.Forall2
import Mathlib.Order.Basic

set_option autoImplicit false

/-! # Relations between runs

Two runs are compared step by step, whatever it is that they have in common. A simulation says what stands for what on
the two sides and which computations are related, and has one law for each operation that evaluation is made of. From
these laws all of evaluation is related: for each form of expression and statement there is one lemma, which goes from
some fuel to one unit more. What two runs share may grow as they go on, in stages. -/

namespace IntScript

open Attempt

inductive ExceptRel {α β : Type} (E : EvalError → EvalError → Prop) (V : α → β → Prop) :
    Except EvalError α → Except EvalError β → Prop
  | ok {a : α} {b : β} (h : V a b) : ExceptRel E V (.ok a) (.ok b)
  | error {e e' : EvalError} (h : E e e') : ExceptRel E V (.error e) (.error e')

namespace ExceptRel

variable {α β : Type} {E : EvalError → EvalError → Prop} {V V' : α → β → Prop}

theorem refl (hE : ∀ e, E e e) (r : Except EvalError α) : ExceptRel E Eq r r := by
  cases r with
  | ok a => exact .ok rfl
  | error e => exact .error (hE e)

theorem imp {r : Except EvalError α} {r' : Except EvalError β} (h : ExceptRel E V r r') (hV : ∀ a b, V a b → V' a b) :
    ExceptRel E V' r r' := by
  cases h with
  | ok h => exact .ok (hV _ _ h)
  | error h => exact .error h

end ExceptRel

mutual

/-- Expressions that differ in the names of variables and of functions, as given. -/
inductive Expression.Alike (V F : String → String → Prop) : Expression → Expression → Prop
  | literal (v : Value) : Expression.Alike V F (.literal v) (.literal v)
  | var {x x' : String} (hx : V x x') : Expression.Alike V F (.var x) (.var x')
  | binary (op : BinaryOp) {l l' r r' : Expression} (hl : Expression.Alike V F l l')
      (hr : Expression.Alike V F r r') : Expression.Alike V F (.binary op l r) (.binary op l' r')
  | call {f f' : String} {args args' : List Expression} (hf : F f f') (hargs : Expression.AlikeAll V F args args') :
      Expression.Alike V F (.call f args) (.call f' args')

inductive Expression.AlikeAll (V F : String → String → Prop) : List Expression → List Expression → Prop
  | nil : Expression.AlikeAll V F [] []
  | cons {e e' : Expression} {es es' : List Expression} (he : Expression.Alike V F e e')
      (hes : Expression.AlikeAll V F es es') : Expression.AlikeAll V F (e :: es) (e' :: es')

end

section Renamed

variable {V F : String → String → Prop} {ρ : Renaming}

mutual

theorem Expression.alike_rename (hV : ∀ x, V x (ρ.var x)) (hF : ∀ f, F f (ρ.function f)) :
    ∀ e : Expression, Expression.Alike V F e (e.rename ρ)
  | .call f args => .call (hF f) (Expression.alikeAll_rename hV hF args)
  | .literal v => .literal v
  | .var x => .var (hV x)
  | .binary op l r => .binary op (Expression.alike_rename hV hF l) (Expression.alike_rename hV hF r)

theorem Expression.alikeAll_rename (hV : ∀ x, V x (ρ.var x)) (hF : ∀ f, F f (ρ.function f)) :
    ∀ es : List Expression, Expression.AlikeAll V F es (Expression.renameAll ρ es)
  | [] => .nil
  | e :: es => .cons (Expression.alike_rename hV hF e) (Expression.alikeAll_rename hV hF es)

end

end Renamed

theorem Expression.Alike.refl (e : Expression) : Expression.Alike Eq Eq e e := by
  have hsame : ∀ x, x = Renaming.identity.var x := fun _ => rfl
  have h := Expression.alike_rename hsame hsame e
  rwa [Expression.rename_identity] at h

theorem Expression.AlikeAll.refl (es : List Expression) : Expression.AlikeAll Eq Eq es es := by
  induction es with
  | nil => exact .nil
  | cons e es ih => exact .cons (.refl e) ih

/-- Callables with related names, parameters, bodies and captured scopes. -/
inductive Callable.Rel (V F : String → String → Prop) (B : Block → Block → Prop) (S : Scope → Scope → Prop) :
    Callable → Callable → Prop
  | native (tool : Tool) : Rel V F B S (.native tool) (.native tool)
  | user {f f' : String} {params params' : List String} {b b' : Block} {s s' : Scope} (hf : F f f')
      (hparams : List.Forall₂ V params params') (hb : B b b') (hs : S s s') :
      Rel V F B S (.user ⟨⟨f, params, b⟩, s⟩) (.user ⟨⟨f', params', b'⟩, s'⟩)

theorem Callable.Rel.refl {B : Block → Block → Prop} {S : Scope → Scope → Prop} (hB : ∀ b, B b b) (hS : ∀ s, S s s)
    (g : Callable) : Callable.Rel Eq Eq B S g g := by
  cases g with
  | native tool => exact .native tool
  | user closure =>
    obtain ⟨⟨f, params, b⟩, s⟩ := closure
    exact .user rfl (List.forall₂_refl params) (hB b) (hS s)

theorem Callable.Rel.user_eq {S : Scope → Scope → Prop} {closure closure' : Closure}
    (h : Callable.Rel Eq Eq Eq S (.user closure) (.user closure')) :
    closure.decl = closure'.decl ∧ S closure.scope closure'.scope := by
  cases h with
  | user hf hparams hb hs =>
    rw [List.forall₂_eq_eq_eq] at hparams
    subst hf hparams hb
    exact ⟨rfl, hs⟩

theorem Callable.Rel.eq {g g' : Callable} (h : Callable.Rel Eq Eq Eq Eq g g') : g = g' := by
  cases h with
  | native tool => rfl
  | user hf hparams hb hs =>
    rw [List.forall₂_eq_eq_eq] at hparams
    subst hf hparams hb hs
    rfl

theorem EvalError.arityMismatch_congr {f f' : String} (h : f = f') (k l : Nat) :
    EvalError.arityMismatch f k l = .arityMismatch f' k l :=
  congrArg (EvalError.arityMismatch · k l) h

namespace Closure

/-- What a call does behind its checks and its note. -/
def perform (closure : Closure) (n : Nat) (c : Context) (args : List Value) : Exec Value := do
  let scope ← Exec.declareAll (closure.decl.params.zip args) closure.entryScope
  let signal ← (Block.exec n c closure.decl.body).inScope scope
  return signal.getD 0

/-- What a call does once its arguments have been counted. -/
def begin (closure : Closure) (n : Nat) (c : Context) (args : List Value) : Exec Value := do
  let inner ← .ofExcept c.enter
  Exec.note (.calling closure.decl.name inner.depth)
  closure.perform n inner args

end Closure

/-- What stands for what on the two sides. No look-up and no declaration tells two scopes apart that stand for each
other; those in which a block or a function may begin are said apart. -/
structure Correspondence where
  Stage : Type
  [order : Preorder Stage]
  var : String → String → Prop
  function : String → String → Prop
  error : EvalError → EvalError → Prop
  statement : Statement → Statement → Prop
  branch : Statement → Statement → Prop
  block : Block → Block → Prop
  cell : Stage → Cell → Cell → Prop
  scope : Stage → Scope → Scope → Prop
  entry : Stage → Scope → Scope → Prop
  error_refl : ∀ e, error e e
  error_arity : ∀ {f f'}, function f f' → ∀ k l, error (.arityMismatch f k l) (.arityMismatch f' k l)
  lookupCell : ∀ {L s s' x x'}, scope L s s' → var x x' → ExceptRel error (cell L) (s.cell x) (s'.cell x')
  lookupCallable : ∀ {L s s' f f'}, scope L s s' → function f f' →
    ExceptRel error (Callable.Rel var function block (scope L)) (s.callable f) (s'.callable f')
  child : ∀ {L s s'}, scope L s s' → entry L s.child s'.child
  declareVariable : ∀ {L s s' x x' a a'}, entry L s s' → var x x' → cell L a a' →
    ExceptRel error (entry L) (s.declareVariable x a) (s'.declareVariable x' a')
  entryScope : ∀ {L closure closure'},
    Callable.Rel var function block (scope L) (.user closure) (.user closure') →
    entry L closure.entryScope closure'.entryScope
  entry_mono : ∀ {L M s s'}, L ≤ M → entry L s s' → entry M s s'

attribute [instance] Correspondence.order

def Correspondence.callable (C : Correspondence) (L : C.Stage) : Callable → Callable → Prop :=
  Callable.Rel C.var C.function C.block (C.scope L)

/-- Which computations are related: an operation on both sides, on what stands for each other, is related, and so are
computations made of related ones. Runs of blocks may be related in a way of their own. -/
structure Simulation extends Correspondence where
  context : Context → Context → Prop
  exec : Stage → {α : Type} → Exec α → Exec α → Prop
  run : Stage → Run Signal → Run Signal → Prop
  body : Stage → Block → Block → Run Signal → Run Signal → Prop
  pure : ∀ {L} {α : Type} (a : α), exec L (Pure.pure a) (Pure.pure a)
  bind : ∀ {L} {α β : Type} {m m' : Exec α} {k k' : α → Exec β}, exec L m m' → (∀ a, exec L (k a) (k' a)) →
    exec L (m >>= k) (m' >>= k')
  ofExcept : ∀ {L} {α β γ : Type} {V : α → β → Prop} {r r'} {k : α → Exec γ} {k' : β → Exec γ},
    ExceptRel error V r r' → (∀ a b, V a b → exec L (k a) (k' b)) →
    exec L (.ofExcept r >>= k) (.ofExcept r' >>= k')
  read : ∀ {L a a'}, cell L a a' → exec L (Exec.read a) (Exec.read a')
  write : ∀ {L a a'}, cell L a a' → ∀ v, exec L (Exec.write a v) (Exec.write a' v)
  alloc : ∀ {L} {α : Type} {k k' : Cell → Exec α} (v : Value),
    (∀ M a a', L ≤ M → cell M a a' → exec M (k a) (k' a')) → exec L (Exec.alloc v >>= k) (Exec.alloc v >>= k')
  useTool : ∀ {L} tool args, exec L (Exec.useTool tool args) (Exec.useTool tool args)
  iterations : ∀ {L} {α : Type} {c c'} {m m' : Exec α} (k : Nat), context c c' → exec L m m' →
    exec L (.ofExcept (c.limits.checkIterations k) >>= fun _ => m)
      (.ofExcept (c'.limits.checkIterations k) >>= fun _ => m')
  begin : ∀ {L c c' closure closure' n n' args}, context c c' →
    Callable.Rel var function block (scope L) (.user closure) (.user closure') →
    (∀ d d', context d d' → exec L (closure.perform n d args) (closure'.perform n' d' args)) →
    exec L (closure.begin n c args) (closure'.begin n' c' args)
  within : ∀ {L m m'}, (∀ M s s', L ≤ M → scope M s s' → exec M (m s) (m' s')) →
    run L (Run.within m) (Run.within m')
  declare : ∀ {L x x' m m'}, var x x' → (∀ M s s', L ≤ M → scope M s s' → exec M (m s) (m' s')) →
    run L (do let v ← Run.within m; Run.declareVariable x v; return none)
      (do let v ← Run.within m'; Run.declareVariable x' v; return none)
  define : ∀ {L f f' params params' b b'}, function f f' → List.Forall₂ var params params' → block b b' →
    run L (do Run.note (.defining f params.length); Run.declareFunction ⟨f, params, b⟩; return none)
      (do Run.note (.defining f' params'.length); Run.declareFunction ⟨f', params', b'⟩; return none)
  inScope : ∀ {L m m' s s'}, run L m m' → entry L s s' → exec L (m.inScope s) (m'.inScope s')
  bodyInScope : ∀ {L b b' m m' s s'}, block b b' → body L b b' m m' → entry L s s' →
    exec L (m.inScope s) (m'.inScope s')

namespace Simulation

variable {S : Simulation} {L : S.Stage} {α : Type}

theorem check (r : Except EvalError α) : S.exec L (.ofExcept r) (.ofExcept r) := by
  have h : S.exec L (.ofExcept r >>= Pure.pure) (.ofExcept r >>= Pure.pure) := by
    apply S.ofExcept (.refl S.error_refl r)
    rintro a _ rfl
    exact S.pure a
  rwa [bind_pure] at h

theorem apply {m m' : Exec Value} (op : BinaryOp) (a : Value) (hm : S.exec L m m') :
    S.exec L (op.apply a m) (op.apply a m') := by
  unfold BinaryOp.apply
  cases op.decidedBy a with
  | true => exact S.pure a
  | false => exact S.bind hm fun b => check _

theorem declareAll {params params' : List String} (hparams : List.Forall₂ S.var params params') (args : List Value)
    {k k' : Scope → Exec α} {s s' : Scope} (hs : S.entry L s s')
    (hk : ∀ M t t', L ≤ M → S.entry M t t' → S.exec M (k t) (k' t')) :
    S.exec L (Exec.declareAll (params.zip args) s >>= k) (Exec.declareAll (params'.zip args) s' >>= k') := by
  induction hparams generalizing args L s s' with
  | nil => exact hk L s s' (le_refl L) hs
  | cons hx _ ih =>
    cases args with
    | nil => exact hk L s s' (le_refl L) hs
    | cons v args =>
      simp only [List.zip_cons_cons, Exec.declareAll, bind_assoc]
      apply S.alloc
      intro M a a' hLM ha
      apply S.ofExcept (S.declareVariable (S.entry_mono hLM hs) hx ha)
      intro t t' ht
      exact ih args ht fun N u u' hMN => hk N u u' (le_trans hLM hMN)

theorem checkArity {g g' : Callable} (hg : S.callable L g g') (args : List Value) :
    ExceptRel S.error Eq (g.checkArity args) (g'.checkArity args) := by
  cases hg with
  | native tool => exact .refl S.error_refl _
  | user hf hparams _ _ =>
    unfold Callable.checkArity Callable.arity
    dsimp only
    rw [hparams.length_eq]
    split
    · exact .ok rfl
    · exact .error (S.error_arity hf _ _)

/-- All of evaluation with the first fuel is related to evaluation with the second. -/
structure Along (S : Simulation) (n n' : Nat) : Prop where
  eval : ∀ {L c c' s s' e e'}, S.context c c' → S.scope L s s' → Expression.Alike S.var S.function e e' →
    S.exec L (Expression.eval n c s e) (Expression.eval n' c' s' e')
  evalAll : ∀ {L c c' s s' es es'}, S.context c c' → S.scope L s s' → Expression.AlikeAll S.var S.function es es' →
    S.exec L (Expression.evalAll n c s es) (Expression.evalAll n' c' s' es')
  invoke : ∀ {L c c' g g'} args, S.context c c' → S.callable L g g' →
    S.exec L (Callable.invoke n c g args) (Callable.invoke n' c' g' args)
  statement : ∀ {L c c' st st'}, S.context c c' → S.statement st st' →
    S.run L (Statement.exec n c st) (Statement.exec n' c' st')
  block : ∀ {L c c' b b'}, S.context c c' → S.block b b' → S.body L b b' (Block.exec n c b) (Block.exec n' c' b')
  child : ∀ {L c c' s s' st st'}, S.context c c' → S.scope L s s' → S.branch st st' →
    S.exec L (Statement.execChild n c s st) (Statement.execChild n' c' s' st')
  iterate : ∀ {L c c' s s' e e' st st'} k, S.context c c' → S.scope L s s' →
    Expression.Alike S.var S.function e e' → S.branch st st' →
    S.exec L (Statement.iterate n c s e st k) (Statement.iterate n' c' s' e' st' k)

namespace Along

variable {n n' : Nat} {c c' : Context} {s s' : Scope} {e e' : Expression} {st st' other other' : Statement}
  {b b' : Block}

theorem eval_succ (h : S.Along n n') (hc : S.context c c') (hs : S.scope L s s')
    (he : Expression.Alike S.var S.function e e') :
    S.exec L (Expression.eval (n + 1) c s e) (Expression.eval (n' + 1) c' s' e') := by
  cases he with
  | literal v => exact S.pure v
  | var hx => exact S.ofExcept (S.lookupCell hs hx) fun a a' ha => S.read ha
  | binary op hl hr => exact S.bind (h.eval hc hs hl) fun a => apply op a (h.eval hc hs hr)
  | call hf hargs =>
    apply S.bind (h.evalAll hc hs hargs)
    intro values
    exact S.ofExcept (S.lookupCallable hs hf) fun g g' hg => h.invoke values hc hg

theorem evalAll_succ (h : S.Along n n') (hc : S.context c c') (hs : S.scope L s s') {es es' : List Expression}
    (hes : Expression.AlikeAll S.var S.function es es') :
    S.exec L (Expression.evalAll (n + 1) c s es) (Expression.evalAll (n' + 1) c' s' es') := by
  cases hes with
  | nil => exact S.pure []
  | cons he hes =>
    apply S.bind (h.eval hc hs he)
    intro v
    exact S.bind (h.evalAll hc hs hes) fun vs => S.pure (v :: vs)

theorem perform (h : S.Along n n') (hc : S.context c c') {closure closure' : Closure}
    (hg : S.callable L (.user closure) (.user closure')) (args : List Value) :
    S.exec L (closure.perform n c args) (closure'.perform n' c' args) := by
  have hentry := S.entryScope hg
  cases hg with
  | user _ hparams hb _ =>
    apply declareAll hparams args hentry
    intro M t t' _ ht
    exact S.bind (S.bodyInScope hb (h.block hc hb) ht) fun signal => S.pure (signal.getD 0)

theorem invoke_succ (h : S.Along n n') (hc : S.context c c') {g g' : Callable} (hg : S.callable L g g')
    (args : List Value) : S.exec L (Callable.invoke (n + 1) c g args) (Callable.invoke (n' + 1) c' g' args) := by
  have harity := checkArity hg args
  cases g with
  | native tool =>
    obtain rfl : g' = .native tool := by
      cases hg
      rfl
    apply S.ofExcept harity
    intro _ _ _
    exact S.bind (S.useTool tool args) fun result => S.pure (result.getD 0)
  | user closure =>
    obtain ⟨closure', rfl⟩ : ∃ closure', g' = .user closure' := by
      cases hg
      exact ⟨_, rfl⟩
    apply S.ofExcept harity
    intro _ _ _
    exact S.begin hc hg fun d d' hd => h.perform hd hg args

/-- A condition, and then one of two ways to go on. -/
theorem choice (h : S.Along n n') (hc : S.context c c') (hs : S.scope L s s')
    (he : Expression.Alike S.var S.function e e') {m₁ m₂ m₁' m₂' : Exec Signal} (h₁ : S.exec L m₁ m₁')
    (h₂ : S.exec L m₂ m₂') :
    S.exec L (do let v ← Expression.eval n c s e; if Value.isTruthy v then m₁ else m₂)
      (do let v ← Expression.eval n' c' s' e'; if Value.isTruthy v then m₁' else m₂') := by
  apply S.bind (h.eval hc hs he)
  intro v
  cases Value.isTruthy v with
  | true => exact h₁
  | false => exact h₂

theorem iterate_succ (h : S.Along n n') (hc : S.context c c') (hs : S.scope L s s')
    (he : Expression.Alike S.var S.function e e') (hst : S.branch st st') (k : Nat) :
    S.exec L (Statement.iterate (n + 1) c s e st k) (Statement.iterate (n' + 1) c' s' e' st' k) := by
  apply h.choice hc hs he _ (S.pure none)
  apply S.iterations (k + 1) hc
  apply S.bind (h.child hc hs hst)
  intro signal
  cases signal with
  | some result => exact S.pure (some result)
  | none => exact h.iterate (k + 1) hc hs he hst

theorem child_block (h : S.Along n n') (hc : S.context c c') (hs : S.scope L s s') (hb : S.block b b') :
    S.exec L (Statement.execChild (n + 1) c s (.block b)) (Statement.execChild (n' + 1) c' s' (.block b')) :=
  S.bodyInScope hb (h.block hc hb) (S.child hs)

theorem execChild_eq (m : Nat) (c : Context) (s : Scope) {st : Statement} (hst : ∀ b, st ≠ .block b) :
    Statement.execChild (m + 1) c s st = (Statement.exec m c st).inScope s.child := by
  cases st with
  | block b => exact absurd rfl (hst b)
  | _ => rfl

theorem child_statement (h : S.Along n n') (hc : S.context c c') (hs : S.scope L s s') (hst : S.statement st st')
    (hb : ∀ b, st ≠ .block b) (hb' : ∀ b, st' ≠ .block b) :
    S.exec L (Statement.execChild (n + 1) c s st) (Statement.execChild (n' + 1) c' s' st') := by
  rw [execChild_eq n c s hb, execChild_eq n' c' s' hb']
  exact S.inScope (h.statement hc hst) (S.child hs)

section Forms

theorem exec_function {f f' : String} {params params' : List String} (hf : S.function f f')
    (hparams : List.Forall₂ S.var params params') (hb : S.block b b') :
    S.run L (Statement.exec (n + 1) c (.function f params b)) (Statement.exec (n' + 1) c' (.function f' params' b')) :=
  S.define hf hparams hb

theorem exec_block (h : S.Along n n') (hc : S.context c c') (hb : S.branch (.block b) (.block b')) :
    S.run L (Statement.exec (n + 1) c (.block b)) (Statement.exec (n' + 1) c' (.block b')) :=
  S.within fun _ _ _ _ hs => h.child hc hs hb

theorem exec_declare_none {x x' : String} (hx : S.var x x') :
    S.run L (Statement.exec (n + 1) c (.declare x none)) (Statement.exec (n' + 1) c' (.declare x' none)) :=
  S.declare hx fun _ _ _ _ _ => S.pure 0

theorem exec_declare_some (h : S.Along n n') (hc : S.context c c') {x x' : String} (hx : S.var x x')
    (he : Expression.Alike S.var S.function e e') :
    S.run L (Statement.exec (n + 1) c (.declare x (some e))) (Statement.exec (n' + 1) c' (.declare x' (some e'))) :=
  S.declare hx fun _ _ _ _ hs => h.eval hc hs he

theorem exec_evaluate (h : S.Along n n') (hc : S.context c c') (he : Expression.Alike S.var S.function e e') :
    S.run L (Statement.exec (n + 1) c (.evaluate e)) (Statement.exec (n' + 1) c' (.evaluate e')) :=
  S.within fun _ _ _ _ hs => S.bind (h.eval hc hs he) fun _ => S.pure none

theorem exec_loop (h : S.Along n n') (hc : S.context c c') (he : Expression.Alike S.var S.function e e')
    (hst : S.branch st st') :
    S.run L (Statement.exec (n + 1) c (.loop e st)) (Statement.exec (n' + 1) c' (.loop e' st')) :=
  S.within fun _ _ _ _ hs => h.iterate 0 hc hs he hst

theorem exec_ifThen (h : S.Along n n') (hc : S.context c c') (he : Expression.Alike S.var S.function e e')
    (hst : S.branch st st') :
    S.run L (Statement.exec (n + 1) c (.ifThen e st)) (Statement.exec (n' + 1) c' (.ifThen e' st')) :=
  S.within fun _ _ _ _ hs => h.choice hc hs he (h.child hc hs hst) (S.pure none)

theorem exec_ifElse (h : S.Along n n') (hc : S.context c c') (he : Expression.Alike S.var S.function e e')
    (hst : S.branch st st') (hother : S.branch other other') :
    S.run L (Statement.exec (n + 1) c (.ifElse e st other)) (Statement.exec (n' + 1) c' (.ifElse e' st' other')) :=
  S.within fun _ _ _ _ hs => h.choice hc hs he (h.child hc hs hst) (h.child hc hs hother)

theorem exec_assign (h : S.Along n n') (hc : S.context c c') {x x' : String} (hx : S.var x x')
    (he : Expression.Alike S.var S.function e e') :
    S.run L (Statement.exec (n + 1) c (.assign x e)) (Statement.exec (n' + 1) c' (.assign x' e')) := by
  rw [Statement.exec, Statement.exec]
  apply S.within
  intro M s s' _ hs
  apply S.ofExcept (S.lookupCell hs hx)
  intro a a' ha
  apply S.bind (h.eval hc hs he)
  intro v
  exact S.bind (S.write ha v) fun _ => S.pure none

theorem exec_result (h : S.Along n n') (hc : S.context c c') (he : Expression.Alike S.var S.function e e') :
    S.run L (Statement.exec (n + 1) c (.result e)) (Statement.exec (n' + 1) c' (.result e')) :=
  S.within fun _ _ _ _ hs => S.bind (h.eval hc hs he) fun v => S.pure (some v)

end Forms

end Along

theorem run_pure (signal : Signal) : S.run L (Pure.pure signal) (Pure.pure signal) := by
  have h : S.run L (Run.within fun _ => Pure.pure signal) (Run.within fun _ => Pure.pure signal) :=
    S.within fun _ _ _ _ _ => S.pure signal
  exact h

/-- Runs of blocks are related as those of statements are, one statement after the other. -/
structure Sequential (S : Simulation) : Prop where
  body : ∀ {L b b' m m'}, S.body L b b' m m' ↔ S.run L m m'
  sequence : ∀ {L} {m m' : Run Signal} {k k' : Signal → Run Signal}, S.run L m m' →
    (∀ signal, S.run L (k signal) (k' signal)) → S.run L (m >>= k) (m' >>= k')

section Sequential

variable {n n' : Nat} {c c' : Context}

theorem Sequential.block_nil (hS : S.Sequential) : S.body L [] [] (Block.exec (n + 1) c []) (Block.exec (n' + 1) c' []) :=
  hS.body.2 (run_pure none)

theorem Sequential.block_cons (hS : S.Sequential) (h : S.Along n n') (hc : S.context c c') {st st' : Statement}
    {rest rest' : Block} (hst : S.statement st st') (hrest : S.block rest rest') :
    S.body L (st :: rest) (st' :: rest') (Block.exec (n + 1) c (st :: rest)) (Block.exec (n' + 1) c' (st' :: rest')) := by
  apply hS.body.2
  apply hS.sequence (h.statement hc hst)
  intro signal
  cases signal with
  | some v => exact run_pure (some v)
  | none => exact hS.body.1 (h.block hc hrest)

end Sequential

/-- Programs are related if one is the other renamed. -/
structure Congruent (S : Simulation) (ρ : Renaming) : Prop extends S.Sequential where
  var : ∀ x, S.var x (ρ.var x)
  function : ∀ f, S.function f (ρ.function f)
  statement : ∀ st st', S.statement st st' ↔ st.rename ρ = st'
  branch : ∀ st st', S.branch st st' ↔ st.rename ρ = st'
  block : ∀ b b', S.block b b' ↔ Block.rename ρ b = b'

namespace Congruent

variable {ρ : Renaming} {n n' : Nat} {c c' : Context} {s s' : Scope}

theorem alike (hρ : S.Congruent ρ) (e : Expression) : Expression.Alike S.var S.function e (e.rename ρ) :=
  Expression.alike_rename hρ.var hρ.function e

theorem params (hρ : S.Congruent ρ) (params : List String) : List.Forall₂ S.var params (params.map ρ.var) :=
  List.forall₂_map_right_iff.2 (List.forall₂_same.2 fun x _ => hρ.var x)

theorem statement_succ (hρ : S.Congruent ρ) (h : S.Along n n') (hc : S.context c c') (st : Statement) :
    S.run L (Statement.exec (n + 1) c st) (Statement.exec (n' + 1) c' (st.rename ρ)) := by
  have hbranch : ∀ st : Statement, S.branch st (st.rename ρ) := fun st => (hρ.branch _ _).2 rfl
  cases st with
  | function f params b => exact Along.exec_function (hρ.function f) (hρ.params params) ((hρ.block _ _).2 rfl)
  | block b => exact h.exec_block hc (hbranch (.block b))
  | declare x init =>
    cases init with
    | none => exact Along.exec_declare_none (hρ.var x)
    | some e => exact h.exec_declare_some hc (hρ.var x) (hρ.alike e)
  | evaluate e => exact h.exec_evaluate hc (hρ.alike e)
  | loop e st => exact h.exec_loop hc (hρ.alike e) (hbranch st)
  | ifThen e st => exact h.exec_ifThen hc (hρ.alike e) (hbranch st)
  | ifElse e st other => exact h.exec_ifElse hc (hρ.alike e) (hbranch st) (hbranch other)
  | assign x e => exact h.exec_assign hc (hρ.var x) (hρ.alike e)
  | result e => exact h.exec_result hc (hρ.alike e)

theorem child_succ (hρ : S.Congruent ρ) (h : S.Along n n') (hc : S.context c c') (hs : S.scope L s s')
    (st : Statement) :
    S.exec L (Statement.execChild (n + 1) c s st) (Statement.execChild (n' + 1) c' s' (st.rename ρ)) := by
  by_cases hst : ∃ b, st = .block b
  · obtain ⟨b, rfl⟩ := hst
    exact h.child_block hc hs ((hρ.block _ _).2 rfl)
  · have hne : ∀ b, st ≠ .block b := fun b hb => hst ⟨b, hb⟩
    exact h.child_statement hc hs ((hρ.statement _ _).2 rfl) hne (Statement.rename_ne_block hne)

theorem block_succ (hρ : S.Congruent ρ) (h : S.Along n n') (hc : S.context c c') (b : Block) :
    S.body L b (Block.rename ρ b) (Block.exec (n + 1) c b) (Block.exec (n' + 1) c' (Block.rename ρ b)) := by
  cases b with
  | nil => exact hρ.block_nil
  | cons st rest => exact hρ.block_cons h hc ((hρ.statement _ _).2 rfl) ((hρ.block _ _).2 rfl)

theorem succ (hρ : S.Congruent ρ) (h : S.Along n n') : S.Along (n + 1) (n' + 1) where
  eval hc hs he := h.eval_succ hc hs he
  evalAll hc hs hes := h.evalAll_succ hc hs hes
  invoke args hc hg := h.invoke_succ hc hg args
  statement hc hst := (hρ.statement _ _).1 hst ▸ hρ.statement_succ h hc _
  block hc hb := (hρ.block _ _).1 hb ▸ hρ.block_succ h hc _
  child hc hs hst := (hρ.branch _ _).1 hst ▸ hρ.child_succ h hc hs _
  iterate k hc hs he hst := h.iterate_succ hc hs he hst k

theorem zero (hρ : S.Congruent ρ) (hout : ∀ {L} {α : Type}, S.exec L (outOfFuel : Exec α) outOfFuel) :
    S.Along 0 0 := by
  have hrun : ∀ {L}, S.run L outOfFuel outOfFuel := by
    intro L
    have h : S.run L (Run.within fun _ => outOfFuel) (Run.within fun _ => outOfFuel) :=
      S.within fun _ _ _ _ _ => hout
    exact h
  exact {
    eval := fun _ _ _ => hout
    evalAll := fun _ _ _ => hout
    invoke := fun _ _ _ => hout
    statement := fun _ _ => hrun
    block := fun _ _ => hρ.body.2 hrun
    child := fun _ _ _ => hout
    iterate := fun _ _ _ _ _ => hout }

/-- Every unit of fuel takes both runs one step on. -/
theorem along (hρ : S.Congruent ρ) {k : Nat} (h : S.Along 0 k) (n : Nat) : S.Along n (n + k) := by
  induction n with
  | zero =>
    rw [Nat.zero_add]
    exact h
  | succ n ih =>
    rw [Nat.succ_add]
    exact hρ.succ ih

theorem of_eq (hS : S.Sequential) (hvar : S.var = Eq) (hfunction : S.function = Eq) (hstatement : S.statement = Eq)
    (hbranch : S.branch = Eq) (hblock : S.block = Eq) : S.Congruent .identity where
  toSequential := hS
  var x := hvar ▸ rfl
  function f := hfunction ▸ rfl
  statement st st' := by rw [hstatement, Statement.rename_identity]
  branch st st' := by rw [hbranch, Statement.rename_identity]
  block b b' := by rw [hblock, Block.rename_identity]

end Congruent

end Simulation

end IntScript
