import IntScript.Proofs.Confinement
import IntScript.Proofs.LimitLaws

set_option autoImplicit false

/-! # Limits end every run

Attempts with more and more fuel settle if from some fuel on they all end, and in the same way. With a limit on
iterations and one on the depth of calls all of evaluation settles: by induction on the calls that may still be
nested, inside one call along the program, and inside a loop on the iterations that are left. -/

namespace IntScript

namespace Attempt

variable {ε σ α β : Type} {s : σ}

/-- From some fuel on the attempts end, all in the same way. -/
def Settles (m : Nat → Attempt ε σ α) (s : σ) : Prop :=
  ∃ (r : Except ε α) (t : σ) (n : Nat), ∀ k, n ≤ k → m k s = (.ofExcept r, t)

theorem settles_pure (a : α) (s : σ) : Settles (fun _ => (Pure.pure a : Attempt ε σ α)) s :=
  ⟨.ok a, s, 0, fun _ _ => rfl⟩

theorem settles_modify (f : σ → σ) (s : σ) : Settles (fun _ => (modify f : Attempt ε σ Unit)) s :=
  ⟨.ok (), f s, 0, fun _ _ => rfl⟩

theorem settles_ask (f : σ → α) (s : σ) : Settles (fun _ => (ask f : Attempt ε σ α)) s :=
  ⟨.ok (f s), s, 0, fun _ _ => rfl⟩

theorem Settles.then {m : Nat → Attempt ε σ α} {f : Nat → α → Attempt ε σ β} (hm : Settles m s)
    (hf : ∀ a t k, m k s = (.done a, t) → Settles (fun k => f k a) t) : Settles (fun k => m k >>= f k) s := by
  obtain ⟨r, t, n, hn⟩ := hm
  cases r with
  | ok a =>
    obtain ⟨r, u, n', hn'⟩ := hf a t n (hn n (Nat.le_refl n))
    refine ⟨r, u, max n n', fun k hk => ?_⟩
    have hfirst : m k s = (.done a, t) := hn k (by omega)
    exact (bind_of_done hfirst (f k)).trans (hn' k (by omega))
  | error e => exact ⟨.error e, t, n, fun k hk => bind_of_failed (hn k hk) _⟩

theorem Settles.bind {m : Nat → Attempt ε σ α} {f : Nat → α → Attempt ε σ β} (hm : Settles m s)
    (hf : ∀ a t, Settles (fun k => f k a) t) : Settles (fun k => m k >>= f k) s :=
  hm.then fun a t _ _ => hf a t

theorem settles_ofExcept {r : Except ε α} {f : Nat → α → Attempt ε σ β}
    (hf : ∀ a, r = .ok a → Settles (fun k => f k a) s) :
    Settles (fun k => (.ofExcept r : Attempt ε σ α) >>= f k) s := by
  cases r with
  | ok a => exact hf a rfl
  | error e => exact ⟨.error e, s, 0, fun _ _ => rfl⟩

theorem Settles.succ {m m' : Nat → Attempt ε σ α} (hm : Settles m s) (h : ∀ k, m' (k + 1) = m k) :
    Settles m' s := by
  obtain ⟨r, t, n, hn⟩ := hm
  refine ⟨r, t, n + 1, fun k hk => ?_⟩
  obtain ⟨j, rfl⟩ : ∃ j, k = j + 1 := ⟨k - 1, by omega⟩
  rw [h]
  exact hn j (by omega)

end Attempt

open Attempt

theorem Run.settles_within {α : Type} {m : Nat → Scope → Exec α} {f : Frame}
    (h : Settles (fun k => m k f.scope) f.world) : Settles (fun k => Run.within (m k)) f := by
  obtain ⟨r, w, n, hn⟩ := h
  refine ⟨r, ⟨f.scope, w⟩, n, fun k hk => ?_⟩
  have hk : m k f.scope f.world = (.ofExcept r, w) := hn k hk
  simp only [Run.within, hk]

theorem Run.settles_inScope {α : Type} {m : Nat → Run α} {s : Scope} {w : World} (h : Settles m ⟨s, w⟩) :
    Settles (fun k => (m k).inScope s) w := by
  obtain ⟨r, f, n, hn⟩ := h
  refine ⟨r, f.world, n, fun k hk => ?_⟩
  simp only [Run.inScope, hn k hk]

theorem Run.settles_declareVariable (x : String) (v : Value) (f : Frame) :
    Settles (fun _ => Run.declareVariable x v) f := by
  cases h : f.scope.declareVariable x f.world.nextCell with
  | ok s => exact ⟨.ok (), ⟨s, f.world.add v⟩, 0, fun _ _ => by simp only [Run.declareVariable, h]; rfl⟩
  | error e => exact ⟨.error e, f, 0, fun _ _ => by simp only [Run.declareVariable, h]; rfl⟩

theorem Run.settles_declareFunction (d : FunctionDecl) (f : Frame) : Settles (fun _ => Run.declareFunction d) f := by
  cases h : f.scope.declareFunction d.name (.user ⟨d, f.scope.child⟩) with
  | ok s => exact ⟨.ok (), ⟨s, f.world⟩, 0, fun _ _ => by simp only [Run.declareFunction, h]; rfl⟩
  | error e => exact ⟨.error e, f, 0, fun _ _ => by simp only [Run.declareFunction, h]; rfl⟩

theorem Exec.settles_declareAll (pairs : List (String × Value)) (s : Scope) (w : World) :
    Settles (fun _ => Exec.declareAll pairs s) w := by
  induction pairs generalizing s w with
  | nil => exact settles_pure s w
  | cons pair rest ih =>
    have halloc : Settles (fun _ => Exec.alloc pair.2) w := ⟨.ok w.nextCell, w.add pair.2, 0, fun _ _ => rfl⟩
    exact halloc.bind fun cell v => settles_ofExcept fun t _ => ih t v

theorem BinaryOp.settles_apply {m : Nat → Exec Value} (op : BinaryOp) (a : Value) {w : World} (hm : Settles m w) :
    Settles (fun k => op.apply a (m k)) w := by
  unfold BinaryOp.apply
  cases op.decidedBy a with
  | true => exact settles_pure a w
  | false => exact hm.bind fun b v => ⟨op.combine a b, v, 0, fun _ _ => rfl⟩

/-- Whatever is called in this context, the call settles. -/
def Context.CallsSettle (c : Context) : Prop :=
  ∀ callee args w, Settles (fun k => Callable.invoke k c callee args) w

section Inside

variable {c : Context}

mutual

theorem Expression.settles (hc : c.CallsSettle) :
    (e : Expression) → ∀ s w, Settles (fun k => Expression.eval k c s e) w
  | .literal v, _, w => (settles_pure v w).succ fun _ => rfl
  | .var x, s, w => by
    have hread : Settles (fun _ => .ofExcept (s.cell x) >>= Exec.read) w :=
      settles_ofExcept fun cell _ => settles_ask _ w
    exact hread.succ fun _ => rfl
  | .binary op l r, s, w => by
    have hboth : Settles (fun k => Expression.eval k c s l >>= fun a => op.apply a (Expression.eval k c s r)) w :=
      (Expression.settles hc l s w).bind fun a v => op.settles_apply a (Expression.settles hc r s v)
    exact hboth.succ fun _ => rfl
  | .call f args, s, w => by
    have hcall : Settles (fun k => Expression.evalAll k c s args >>= fun values =>
        .ofExcept (s.callable f) >>= fun callee => Callable.invoke k c callee values) w :=
      (Expression.settles_all hc args s w).bind fun values v => settles_ofExcept fun callee _ => hc callee values v
    exact hcall.succ fun _ => rfl

theorem Expression.settles_all (hc : c.CallsSettle) :
    (es : List Expression) → ∀ s w, Settles (fun k => Expression.evalAll k c s es) w
  | [], _, w => (settles_pure [] w).succ fun _ => rfl
  | e :: es, s, w => by
    have hboth : Settles (fun k => Expression.eval k c s e >>= fun v =>
        Expression.evalAll k c s es >>= fun vs => (Pure.pure (v :: vs) : Exec (List Value))) w :=
      (Expression.settles hc e s w).bind fun v w' =>
        (Expression.settles_all hc es s w').bind fun vs w'' => settles_pure (v :: vs) w''
    exact hboth.succ fun _ => rfl

end

/-- The statement settles, in the scope itself and as a branch or a loop body. -/
structure Statement.Settling (c : Context) (st : Statement) : Prop where
  exec : ∀ f, Settles (fun k => Statement.exec k c st) f
  child : ∀ s w, Settles (fun k => Statement.execChild k c s st) w

theorem Statement.Settling.of_exec {st : Statement} (hst : ∀ b, st ≠ .block b)
    (h : ∀ f, Settles (fun k => Statement.exec k c st) f) : Statement.Settling c st := by
  refine ⟨h, fun s w => (Run.settles_inScope (h ⟨s.child, w⟩)).succ fun k => ?_⟩
  cases st with
  | block b => exact absurd rfl (hst b)
  | _ => rfl

theorem Statement.Settling.of_block {b : Block} (h : ∀ f, Settles (fun k => Block.exec k c b) f) :
    Statement.Settling c (.block b) := by
  have hchild : ∀ s w, Settles (fun k => Statement.execChild k c s (.block b)) w :=
    fun s w => (Run.settles_inScope (h ⟨s.child, w⟩)).succ fun _ => rfl
  have hexec : ∀ f, Settles (fun k => Run.within fun s => Statement.execChild k c s (.block b)) f :=
    fun f => Run.settles_within (hchild f.scope f.world)
  exact ⟨fun f => (hexec f).succ fun _ => rfl, hchild⟩

-- Each iteration that passes the check leaves one fewer that can.
theorem Statement.settles_iterate {limit : Nat} (hi : c.limits.iterations = some limit) {s : Scope} {e : Expression}
    {body : Statement} (he : ∀ w, Settles (fun k => Expression.eval k c s e) w)
    (hbody : ∀ w, Settles (fun k => Statement.execChild k c s body) w) (left count : Nat)
    (hleft : limit < count + left) (w : World) :
    Settles (fun k => Statement.iterate k c s e body count) w := by
  induction left generalizing count w with
  | zero =>
    have hstop : ∀ a, c.limits.checkIterations (count + 1) ≠ .ok a := by
      intro a hcheck
      rw [Limits.checkIterations_eq, hi] at hcheck
      have hle := Limits.le_of_guard hcheck
      omega
    refine Settles.succ ((he w).bind fun v w' => ?_) fun k => by rw [Statement.iterate]
    by_cases hv : Value.isTruthy v
    · simp only [hv, if_true]
      exact settles_ofExcept fun a hcheck => absurd hcheck (hstop a)
    · simp only [hv]
      exact settles_pure none w'
  | succ left ih =>
    refine Settles.succ ((he w).bind fun v w' => ?_) fun k => by rw [Statement.iterate]
    by_cases hv : Value.isTruthy v
    · simp only [hv, if_true]
      refine settles_ofExcept fun _ _ => (hbody w').bind fun signal w'' => ?_
      cases signal with
      | some result => exact settles_pure (some result) w''
      | none => exact ih (count + 1) (by omega) w''
    · simp only [hv]
      exact settles_pure none w'

mutual

theorem Statement.settles (hc : c.CallsSettle) {limit : Nat} (hi : c.limits.iterations = some limit) :
    (st : Statement) → Statement.Settling c st
  | .function f params b => by
    refine .of_exec nofun fun g => Settles.succ ?_ fun k => by rw [Statement.exec]
    refine (settles_modify _ g).bind fun _ g' => ?_
    exact (Run.settles_declareFunction ⟨f, params, b⟩ g').bind fun _ h => settles_pure none h
  | .block b => .of_block (Block.settles hc hi b)
  | .declare x none => by
    refine .of_exec nofun fun g => Settles.succ ?_ fun k => by rw [Statement.exec]
    exact (Run.settles_declareVariable x 0 g).bind fun _ h => settles_pure none h
  | .declare x (some e) => by
    refine .of_exec nofun fun g => Settles.succ ?_ fun k => by rw [Statement.exec]
    refine (Run.settles_within (e.settles hc g.scope g.world)).bind fun v g' => ?_
    exact (Run.settles_declareVariable x v g').bind fun _ h => settles_pure none h
  | .evaluate e => by
    refine .of_exec nofun fun g => Settles.succ (Run.settles_within ?_) fun k => by rw [Statement.exec]
    exact (e.settles hc g.scope g.world).bind fun _ w => settles_pure none w
  | .loop e body => by
    have hbody := Statement.settles hc hi body
    refine .of_exec nofun fun g => Settles.succ (Run.settles_within ?_) fun k => by rw [Statement.exec]
    exact Statement.settles_iterate hi (e.settles hc g.scope) (hbody.child g.scope) (limit + 1) 0 (by omega) g.world
  | .ifThen e t => by
    have ht := Statement.settles hc hi t
    refine .of_exec nofun fun g => Settles.succ (Run.settles_within ?_) fun k => by rw [Statement.exec]
    refine (e.settles hc g.scope g.world).bind fun v w => ?_
    cases Value.isTruthy v with
    | true => exact ht.child g.scope w
    | false => exact settles_pure none w
  | .ifElse e t u => by
    have ht := Statement.settles hc hi t
    have hu := Statement.settles hc hi u
    refine .of_exec nofun fun g => Settles.succ (Run.settles_within ?_) fun k => by rw [Statement.exec]
    refine (e.settles hc g.scope g.world).bind fun v w => ?_
    cases Value.isTruthy v with
    | true => exact ht.child g.scope w
    | false => exact hu.child g.scope w
  | .assign x e => by
    refine .of_exec nofun fun g => Settles.succ (Run.settles_within ?_) fun k => by rw [Statement.exec]
    refine settles_ofExcept fun cell _ => (e.settles hc g.scope g.world).bind fun v w => ?_
    exact (settles_modify _ w).bind fun _ w' => settles_pure none w'
  | .result e => by
    refine .of_exec nofun fun g => Settles.succ (Run.settles_within ?_) fun k => by rw [Statement.exec]
    exact (e.settles hc g.scope g.world).bind fun v w => settles_pure (some v) w

theorem Block.settles (hc : c.CallsSettle) {limit : Nat} (hi : c.limits.iterations = some limit) :
    (b : List Statement) → ∀ f, Settles (fun k => Block.exec k c b) f
  | [], f => (settles_pure none f).succ fun _ => rfl
  | st :: rest, f => by
    refine Settles.succ (((Statement.settles hc hi st).exec f).bind fun signal g => ?_) fun k => by rw [Block.exec]
    cases signal with
    | some v => exact settles_pure (some v) g
    | none => exact Block.settles hc hi rest g

end

end Inside

theorem Callable.settles {limits : Limits} {depth i : Nat} (hi : limits.iterations = some i)
    (hinner : limits.checkDepth (depth + 1) = .ok () → Context.CallsSettle ⟨limits, depth + 1⟩) :
    Context.CallsSettle ⟨limits, depth⟩ := by
  intro callee args w
  cases callee with
  | native tool =>
    refine Settles.succ (settles_ofExcept fun _ _ => ?_) fun k => by rw [Callable.invoke]
    have htool : Settles (fun _ => Exec.useTool tool args) w := ⟨(tool.act args).2, _, 0, fun _ _ => rfl⟩
    exact htool.bind fun result v => settles_pure (result.getD 0) v
  | user closure =>
    refine Settles.succ (settles_ofExcept fun _ _ => settles_ofExcept fun _ hcheck => ?_) fun k => by
      rw [Callable.invoke, Context.enter_bind]
    refine (settles_modify _ w).bind fun _ w' => ?_
    refine (Exec.settles_declareAll _ closure.entryScope w').bind fun scope v => ?_
    have hbody := Block.settles (hinner hcheck) hi closure.decl.body ⟨scope, v⟩
    exact (Run.settles_inScope hbody).bind fun signal v' => settles_pure (signal.getD 0) v'

-- A call that may be made is one deeper, so one fewer can be nested in it.
theorem Context.calls_settle {limits : Limits} {i d : Nat} (hi : limits.iterations = some i)
    (hd : limits.callDepth = some d) (left depth : Nat) (hleft : d < depth + left) :
    Context.CallsSettle ⟨limits, depth⟩ := by
  induction left generalizing depth with
  | zero =>
    refine Callable.settles hi fun hcheck => ?_
    rw [Limits.checkDepth_eq, hd] at hcheck
    have hle := Limits.le_of_guard hcheck
    omega
  | succ left ih => exact Callable.settles hi fun _ => ih (depth + 1) (by omega)

/-- With both limits set, every run ends in a value, in a signal or without one, or in an error. -/
theorem limits_end_runs (job : Job) (c : Context) (w : World) {i d : Nat} (hi : c.limits.iterations = some i)
    (hd : c.limits.callDepth = some d) :
    ∃ (r : Except EvalError Signal) (f : Frame) (n : Nat), ∀ k, n ≤ k → job.run k c w = (.ofExcept r, f) := by
  have hc : c.CallsSettle := Context.calls_settle hi hd (d + 1) c.depth (by omega)
  cases job with
  | expression s e =>
    obtain ⟨r, w', n, hn⟩ := e.settles hc s w
    refine ⟨r.map some, ⟨s, w'⟩, n, fun k hk => ?_⟩
    have hrun : Expression.eval k c s e w = (.ofExcept r, w') := hn k hk
    simp only [Job.run, hrun]
    cases r <;> rfl
  | statement s st => exact (Statement.settles hc hi st).exec ⟨s, w⟩
  | block s b => exact Block.settles hc hi b ⟨s, w⟩
  | call closure args =>
    obtain ⟨r, w', n, hn⟩ := hc (.user closure) args w
    refine ⟨r.map some, ⟨closure.scope, w'⟩, n, fun k hk => ?_⟩
    have hrun : Callable.invoke k c (.user closure) args w = (.ofExcept r, w') := hn k hk
    simp only [Job.run, hrun]
    cases r <;> rfl

def endless : Block :=
  [.function "f" [] [.loop (.literal 1) (.evaluate (.call "f" []))], .evaluate (.call "f" [])]

theorem endless_ends :
    ∃ (r : Except EvalError Signal) (f : Frame) (n : Nat),
      ∀ k, n ≤ k → Job.run k ⟨⟨some 2, some 3⟩, 0⟩ .empty (.block .empty endless) = (.ofExcept r, f) :=
  limits_end_runs (.block .empty endless) ⟨⟨some 2, some 3⟩, 0⟩ .empty rfl rfl

end IntScript
