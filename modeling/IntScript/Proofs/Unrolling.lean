import IntScript.Proofs.RephrasedPrograms

set_option autoImplicit false

namespace IntScript

open Attempt

/-- The loop with its first turn in front of it. -/
def Statement.unroll (e : Expression) (first rest : Statement) : Statement :=
  .ifThen e (.block [.block [first], .loop e rest])

mutual

/-- The statements differ in loops that are unrolled in one and not in the other. -/
inductive Statement.Unrolls : Statement → Statement → Prop
  | function (f : String) (params : List String) {b b' : Block} (hb : Block.Unrolls b b') :
      Statement.Unrolls (.function f params b) (.function f params b')
  | block {b b' : Block} (hb : Block.Unrolls b b') : Statement.Unrolls (.block b) (.block b')
  | declare (x : String) (init : Option Expression) : Statement.Unrolls (.declare x init) (.declare x init)
  | evaluate (e : Expression) : Statement.Unrolls (.evaluate e) (.evaluate e)
  | loop (e : Expression) {st st' : Statement} (hst : Statement.Unrolls st st') :
      Statement.Unrolls (.loop e st) (.loop e st')
  | ifThen (e : Expression) {st st' : Statement} (hst : Statement.Unrolls st st') :
      Statement.Unrolls (.ifThen e st) (.ifThen e st')
  | ifElse (e : Expression) {st st' other other' : Statement} (hst : Statement.Unrolls st st')
      (hother : Statement.Unrolls other other') : Statement.Unrolls (.ifElse e st other) (.ifElse e st' other')
  | assign (x : String) (e : Expression) : Statement.Unrolls (.assign x e) (.assign x e)
  | result (e : Expression) : Statement.Unrolls (.result e) (.result e)
  | unrolled (e : Expression) {st first rest : Statement} (hfirst : Statement.Unrolls st first)
      (hrest : Statement.Unrolls st rest) : Statement.Unrolls (.loop e st) (.unroll e first rest)
  | rolled (e : Expression) {st first rest : Statement} (hfirst : Statement.Unrolls first st)
      (hrest : Statement.Unrolls rest st) : Statement.Unrolls (.unroll e first rest) (.loop e st)

inductive Block.Unrolls : Block → Block → Prop
  | nil : Block.Unrolls [] []
  | cons {st st' : Statement} {rest rest' : Block} (hst : Statement.Unrolls st st')
      (hrest : Block.Unrolls rest rest') : Block.Unrolls (st :: rest) (st' :: rest')

end

mutual

theorem Statement.Unrolls.refl : ∀ st : Statement, Statement.Unrolls st st
  | .function f params b => .function f params (Block.Unrolls.refl b)
  | .block b => .block (Block.Unrolls.refl b)
  | .declare x init => .declare x init
  | .evaluate e => .evaluate e
  | .loop e st => .loop e (Statement.Unrolls.refl st)
  | .ifThen e st => .ifThen e (Statement.Unrolls.refl st)
  | .ifElse e st other => .ifElse e (Statement.Unrolls.refl st) (Statement.Unrolls.refl other)
  | .assign x e => .assign x e
  | .result e => .result e

theorem Block.Unrolls.refl : ∀ b : Block, Block.Unrolls b b
  | [] => .nil
  | st :: rest => .cons (Statement.Unrolls.refl st) (Block.Unrolls.refl rest)

end

mutual

theorem Statement.Unrolls.symm : ∀ {st st' : Statement}, Statement.Unrolls st st' → Statement.Unrolls st' st
  | _, _, .function f params hb => .function f params hb.symm
  | _, _, .block hb => .block hb.symm
  | _, _, .declare x init => .declare x init
  | _, _, .evaluate e => .evaluate e
  | _, _, .loop e hst => .loop e hst.symm
  | _, _, .ifThen e hst => .ifThen e hst.symm
  | _, _, .ifElse e hst hother => .ifElse e hst.symm hother.symm
  | _, _, .assign x e => .assign x e
  | _, _, .result e => .result e
  | _, _, .unrolled e hfirst hrest => .rolled e hfirst.symm hrest.symm
  | _, _, .rolled e hfirst hrest => .unrolled e hfirst.symm hrest.symm

theorem Block.Unrolls.symm : ∀ {b b' : Block}, Block.Unrolls b b' → Block.Unrolls b' b
  | _, _, .nil => .nil
  | _, _, .cons hst hrest => .cons hst.symm hrest.symm

end

section Child

/-- Expressions only look names up, and a child finds what its parent finds. -/
theorem Expression.eval_child (n : Nat) (c : Context) (s : Scope) :
    (∀ e, Expression.eval n c s.child e = Expression.eval n c s e) ∧
      ∀ es, Expression.evalAll n c s.child es = Expression.evalAll n c s es := by
  induction n with
  | zero => exact ⟨fun _ => rfl, fun _ => rfl⟩
  | succ n ih =>
    obtain ⟨heval, hall⟩ := ih
    constructor
    · intro e
      cases e with
      | literal v => rfl
      | var x => rfl
      | binary op l r => simp only [Expression.eval, heval]
      | call f args =>
        simp only [Expression.eval, hall]
        rfl
    · intro es
      cases es with
      | nil => rfl
      | cons e es => simp only [Expression.evalAll, heval, hall]

theorem Statement.execChild_child (n : Nat) (c : Context) (s : Scope) (st : Statement) :
    Statement.execChild n c s.child st = Statement.execChild n c s st := by
  cases n with
  | zero => rfl
  | succ n => cases st <;> rfl

theorem Statement.iterate_child (n : Nat) (c : Context) (s : Scope) (e : Expression) (st : Statement) (k : Nat) :
    Statement.iterate n c s.child e st k = Statement.iterate n c s e st k := by
  induction n generalizing k with
  | zero => rfl
  | succ n ih => simp only [Statement.iterate, (Expression.eval_child n c s).1, Statement.execChild_child, ih]

end Child

namespace Statement

def turn (first rest : Exec Signal) : Exec Signal := do
  match ← first with
  | some v => return some v
  | none => rest

theorem cutShort_turn {T : EvalError → Prop} {m₁ m₂ m₁' m₂' : Exec Signal} (h₁ : Exec.CutShort T m₁ m₁')
    (h₂ : Exec.CutShort T m₂ m₂') : Exec.CutShort T (turn m₁ m₂) (turn m₁' m₂') := by
  apply h₁.bind
  intro signal
  cases signal with
  | some v => exact cutShort_pure (some v)
  | none => exact h₂

variable {l : Limits} {d : Nat}

/-- Without a limit it does not matter how many iterations have begun. -/
theorem iterate_count (hl : l.iterations = none) (n : Nat) (s : Scope) (e : Expression) (st : Statement) (k : Nat) :
    iterate n ⟨l, d⟩ s e st k = iterate n ⟨l, d⟩ s e st 0 := by
  have hcheck : ∀ k, l.checkIterations k = .ok () := by
    intro k
    rw [Limits.checkIterations, hl]
  induction n generalizing k with
  | zero => rfl
  | succ n ih => simp only [iterate, hcheck, ih (k + 1), ih (0 + 1)]

theorem exec_loop (hl : l.iterations = none) (n : Nat) (e : Expression) (st : Statement) :
    Statement.exec (n + 2) ⟨l, d⟩ (.loop e st) = Run.within fun s => do
      let v ← Expression.eval n ⟨l, d⟩ s e
      if Value.isTruthy v then turn (execChild n ⟨l, d⟩ s st) (iterate n ⟨l, d⟩ s e st 0) else return none := by
  have hcheck : l.checkIterations (0 + 1) = .ok () := by rw [Limits.checkIterations, hl]
  simp only [Statement.exec, iterate, hcheck, iterate_count hl n _ e st (0 + 1)]
  rfl

/-- The loop that is left runs in a child, and goes on as if it ran in the scope itself. -/
theorem execChild_unrolled (n : Nat) (c : Context) (s : Scope) (e : Expression) (first rest : Statement) :
    execChild (n + 4) c s (.block [.block [first], .loop e rest]) =
      turn (execChild (n + 1) c s (.block [first])) (iterate n c s e rest 0) := by
  have hloop : (Block.exec (n + 2) c [.loop e rest]).inScope s.child = iterate n c s e rest 0 := by
    rw [Block.exec_singleton, ← iterate_child n c s]
    rfl
  funext w
  change (Block.exec (n + 3) c [.block [first], .loop e rest]).inScope s.child w = _
  have hfirst : Statement.exec (n + 2) c (.block [first]) ⟨s.child, w⟩ =
      ((execChild (n + 1) c s (.block [first]) w).1, ⟨s.child, (execChild (n + 1) c s (.block [first]) w).2⟩) := rfl
  rw [← hloop, turn, bind_apply, Run.inScope, Block.exec, bind_apply, hfirst]
  rcases execChild (n + 1) c s (.block [first]) w with ⟨(_ | v) | e | _, u⟩ <;> rfl

end Statement

def Kinship.unrolled : Kinship :=
  .ofBodies Statement.Unrolls Statement.Unrolls Block.Unrolls Block.Unrolls.refl

namespace Kinship

open Simulation

variable {l : Limits} {d n n' : Nat} {s s' : Scope}

theorem unrolled_child (h : unrolled.Along l n n') (hs : unrolled.scope s s') {st st' : Statement}
    (hst : Statement.Unrolls st st') :
    Exec.CutShort (fun _ => False) (Statement.execChild (n + 1) ⟨l, d⟩ s st)
      (Statement.execChild (n' + 1) ⟨l, d⟩ s' st') := by
  have hunrolls := hst
  cases hst with
  | block hb => exact h.child_block (L := ()) ⟨d, rfl, rfl⟩ hs hb
  | _ => exact h.child_statement (L := ()) ⟨d, rfl, rfl⟩ hs hunrolls (by rintro _ ⟨⟩) (by rintro _ ⟨⟩)

theorem unrolled_block (h : unrolled.Along l n n') {b b' : Block} (hb : Block.Unrolls b b') :
    Run.CutShort (fun _ => False) unrolled.scope (Block.exec (n + 1) ⟨l, d⟩ b) (Block.exec (n' + 1) ⟨l, d⟩ b') := by
  have hsequential := unrolled.sequential (.refl (fun _ => False) l)
  cases hb with
  | nil => exact hsequential.block_nil (L := ())
  | cons hst hrest => exact hsequential.block_cons (L := ()) h ⟨d, rfl, rfl⟩ hst hrest

-- Of the second run only the first turn needs more fuel than the loop has: it stands in two blocks.
theorem loop_unrolled (hl : l.iterations = none) (hfew : unrolled.Along l n (n' + 1)) (h : unrolled.Along l n (n' + 3))
    (heval : unrolled.Along l n (n' + 7)) (e : Expression) {st first rest : Statement}
    (hfirst : Statement.Unrolls st first) (hrest : Statement.Unrolls st rest) :
    Run.CutShort (fun _ => False) unrolled.scope (Statement.exec (n + 2) ⟨l, d⟩ (.loop e st))
      (Statement.exec (n' + 8) ⟨l, d⟩ (.unroll e first rest)) := by
  rw [Statement.exec_loop hl, Statement.unroll, Statement.exec]
  apply Run.cutShort_within unrolled.refl
  intro s s' hs
  apply heval.choice (L := ()) ⟨d, rfl, rfl⟩ hs (.refl e) _ (cutShort_pure none)
  rw [Statement.execChild_unrolled]
  apply Statement.cutShort_turn
  · have hchild : Exec.CutShort (fun _ => False) _ _ := hfew.child (L := ()) ⟨d, rfl, rfl⟩ hs hfirst
    exact hchild.trans (Statement.execChild_wrapped first)
  · exact h.iterate (L := ()) 0 ⟨d, rfl, rfl⟩ hs (.refl e) hrest

theorem turn_rolled (h : ∀ m ≤ n, unrolled.Along l m n') (hs : unrolled.scope s s') (e : Expression)
    {st first rest : Statement} (hfirst : Statement.Unrolls first st) (hrest : Statement.Unrolls rest st) :
    Exec.CutShort (fun _ => False) (Statement.execChild n ⟨l, d⟩ s (.block [.block [first], .loop e rest]))
      (Statement.turn (Statement.execChild n' ⟨l, d⟩ s' st) (Statement.iterate n' ⟨l, d⟩ s' e st 0)) := by
  have hchild : ∀ m ≤ n, Exec.CutShort (fun _ => False) (Statement.execChild m ⟨l, d⟩ s first)
      (Statement.execChild n' ⟨l, d⟩ s' st) :=
    fun m hm => (h m hm).child (L := ()) ⟨d, rfl, rfl⟩ hs hfirst
  have hiterate : ∀ m ≤ n, Exec.CutShort (fun _ => False) (Statement.iterate m ⟨l, d⟩ s e rest 0)
      (Statement.iterate n' ⟨l, d⟩ s' e st 0) :=
    fun m hm => (h m hm).iterate (L := ()) 0 ⟨d, rfl, rfl⟩ hs (.refl e) hrest
  have hstuck : Exec.CutShort (fun _ => False) (Statement.turn Attempt.outOfFuel Attempt.outOfFuel)
      (Statement.turn (Statement.execChild n' ⟨l, d⟩ s' st) (Statement.iterate n' ⟨l, d⟩ s' e st 0)) :=
    Statement.cutShort_turn (hchild 0 (Nat.zero_le n)) (hiterate 0 (Nat.zero_le n))
  match n with
  | 0 => exact hstuck
  | 1 => exact hstuck
  | 2 => exact hstuck
  | 3 => exact hstuck
  | m + 4 =>
    rw [Statement.execChild_unrolled]
    apply Statement.cutShort_turn
    · exact (Statement.execChild_unwrapped first).trans (hchild (m + 1) (by omega))
    · exact hiterate m (by omega)

theorem loop_rolled (hl : l.iterations = none) (h : ∀ m ≤ n, unrolled.Along l m n') (e : Expression)
    {st first rest : Statement} (hfirst : Statement.Unrolls first st) (hrest : Statement.Unrolls rest st) :
    Run.CutShort (fun _ => False) unrolled.scope (Statement.exec (n + 1) ⟨l, d⟩ (.unroll e first rest))
      (Statement.exec (n' + 2) ⟨l, d⟩ (.loop e st)) := by
  rw [Statement.exec_loop hl, Statement.unroll, Statement.exec]
  apply Run.cutShort_within unrolled.refl
  intro s s' hs
  exact (h n (Nat.le_refl n)).choice (L := ()) ⟨d, rfl, rfl⟩ hs (.refl e) (turn_rolled h hs e hfirst hrest)
    (cutShort_pure none)

theorem unrolled_statement (hl : l.iterations = none) (h : ∀ m ≤ n, ∀ m', 4 * m ≤ m' → unrolled.Along l m m')
    (hn : 4 * n ≤ n') {st st' : Statement} (hst : Statement.Unrolls st st') :
    Run.CutShort (fun _ => False) unrolled.scope (Statement.exec (n + 1) ⟨l, d⟩ st)
      (Statement.exec (n' + 4) ⟨l, d⟩ st') := by
  have hc : (unrolled.simulation (.refl (fun _ => False) l)).context ⟨l, d⟩ ⟨l, d⟩ := ⟨d, rfl, rfl⟩
  have hsame : unrolled.Along l n (n' + 3) := h n (Nat.le_refl n) _ (by omega)
  cases hst with
  | function f params hb => exact unrolled.cutShort_define hb
  | block hb => exact hsame.exec_block (L := ()) hc (.block hb)
  | declare x init =>
    cases init with
    | none => exact Along.exec_declare_none (S := unrolled.simulation (.refl _ l)) (L := ()) rfl
    | some e => exact hsame.exec_declare_some (L := ()) hc rfl (.refl e)
  | evaluate e => exact hsame.exec_evaluate (L := ()) hc (.refl e)
  | loop e hst => exact hsame.exec_loop (L := ()) hc (.refl e) hst
  | ifThen e hst => exact hsame.exec_ifThen (L := ()) hc (.refl e) hst
  | ifElse e hst hother => exact hsame.exec_ifElse (L := ()) hc (.refl e) hst hother
  | assign x e => exact hsame.exec_assign (L := ()) hc rfl (.refl e)
  | result e => exact hsame.exec_result (L := ()) hc (.refl e)
  | unrolled e hfirst hrest =>
    cases n with
    | zero => exact (unrolled.along_zero (.refl _ l) (n' + 4)).statement (L := ()) hc (.unrolled e hfirst hrest)
    | succ n =>
      obtain ⟨k, rfl⟩ : ∃ k, n' = k + 4 := ⟨n' - 4, by omega⟩
      exact loop_unrolled hl (h n (by omega) _ (by omega)) (h n (by omega) _ (by omega)) (h n (by omega) _ (by omega)) e
        hfirst hrest
  | rolled e hfirst hrest =>
    have hturns : ∀ m ≤ n, unrolled.Along l m (n' + 2) := fun m hm => h m hm _ (by omega)
    exact loop_rolled hl hturns e hfirst hrest

theorem unrolled_along (hl : l.iterations = none) (hn : 4 * n ≤ n') : unrolled.Along l n n' := by
  induction n using Nat.strongRecOn generalizing n' with
  | ind n ih =>
    cases n with
    | zero => exact unrolled.along_zero (.refl _ l) n'
    | succ n =>
      obtain ⟨k, rfl⟩ : ∃ k, n' = k + 4 := ⟨n' - 4, by omega⟩
      have h : unrolled.Along l n (k + 3) := ih n (by omega) (by omega)
      exact {
        eval := fun hc hs he => h.eval_succ hc hs he
        evalAll := fun hc hs hes => h.evalAll_succ hc hs hes
        invoke := fun args hc hg => h.invoke_succ hc hg args
        statement := by
          rintro _ _ _ _ _ ⟨d, rfl, rfl⟩ hst
          exact unrolled_statement hl (fun m hm m' hm' => ih m (by omega) hm') (by omega) hst
        block := by
          rintro _ _ _ _ _ ⟨d, rfl, rfl⟩ hb
          exact unrolled_block h hb
        child := by
          rintro _ _ _ _ _ _ _ ⟨d, rfl, rfl⟩ hs hst
          exact unrolled_child h hs hst
        iterate := fun k hc hs he hst => h.iterate_succ hc hs he hst k }

end Kinship

/-- With no limit on iterations, a program whose loops are unrolled, wherever they stand, ends as the program does or
never ends, puts out the same, and leaves the same variables and functions to be seen. Tools have no memory, as `Tool`
assumes. -/
theorem unrolling_preserves_runs {P P' : Block} (h : Block.Unrolls P P') (i : Interpreter)
    (hi : i.limits.iterations = none) : i.Mirrors P P' ∧ i.Mirrors P' P ∧ (i.Diverges P ↔ i.Diverges P') := by
  have hmirrors : ∀ {P P'}, Block.Unrolls P P' → i.Mirrors P P' := fun h =>
    Interpreter.mirrors_of_along i (4 * ·) (fun n => Kinship.unrolled_along hi (Nat.le_refl (4 * n))) h
  exact ⟨hmirrors h, hmirrors h.symm, (hmirrors h.symm).diverges, (hmirrors h).diverges⟩

def countdown : Block :=
  [.function "f" ["n"] [
      .loop (.var "n") (.block [
        .declare "k" none,
        .loop (.binary .lt (.var "k") (.var "n")) (.assign "k" (.binary .add (.var "k") (.literal 1))),
        .evaluate (.call "println" [.var "k"]),
        .ifThen (.binary .eq (.var "k") (.literal 1)) (.result (.var "k")),
        .assign "n" (.literal 1)])],
    .result (.call "f" [.literal 2])]

def countdownUnrolled : Block :=
  [.function "f" ["n"] [
      .unroll (.var "n")
        (.block [
          .declare "k" none,
          .loop (.binary .lt (.var "k") (.var "n")) (.assign "k" (.binary .add (.var "k") (.literal 1))),
          .evaluate (.call "println" [.var "k"]),
          .ifThen (.binary .eq (.var "k") (.literal 1)) (.result (.var "k")),
          .assign "n" (.literal 1)])
        (.block [
          .declare "k" none,
          .unroll (.binary .lt (.var "k") (.var "n")) (.assign "k" (.binary .add (.var "k") (.literal 1)))
            (.assign "k" (.binary .add (.var "k") (.literal 1))),
          .evaluate (.call "println" [.var "k"]),
          .ifThen (.binary .eq (.var "k") (.literal 1)) (.result (.var "k")),
          .assign "n" (.literal 1)])],
    .result (.call "f" [.literal 2])]

theorem countdown_unrolled_returns :
    Block.Unrolls countdown countdownUnrolled ∧ (Limits.mk none (some 1)).iterations = none ∧
      ∃ j, (Interpreter.ofRegistry .standard ⟨none, some 1⟩).Ends countdownUnrolled (.ok (some 1)) j ∧
        j.world.output = [.line [2], .line [1]] := by
  have hunrolls : Block.Unrolls countdown countdownUnrolled := by
    refine .cons (.function "f" ["n"] (.cons (.unrolled _ (.refl _) (.block ?_)) .nil)) (.refl _)
    exact .cons (.refl _) (.cons (.unrolled _ (.refl _) (.refl _)) (.refl _))
  have hresult : (Interpreter.execute 20 countdown (.ofRegistry .standard ⟨none, some 1⟩)).1 = .done (some 1) := by
    decide +kernel
  have houtput : (Interpreter.execute 20 countdown (.ofRegistry .standard ⟨none, some 1⟩)).2.world.output =
      [.line [2], .line [1]] := by
    decide +kernel
  have hruns := unrolling_preserves_runs hunrolls (.ofRegistry .standard ⟨none, some 1⟩) rfl
  obtain ⟨j, hends, hlook⟩ := hruns.1.ends (.ok (some 1)) _ (Interpreter.ends_of_execute hresult)
  exact ⟨hunrolls, rfl, j, hends, hlook.output.symm.trans houtput⟩

end IntScript
