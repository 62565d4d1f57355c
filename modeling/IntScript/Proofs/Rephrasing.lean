import IntScript.Proofs.LimitsRaised
import IntScript.Proofs.ScopesAkin

set_option autoImplicit false

namespace IntScript

open Attempt

mutual

/-- The statements say the same, and what differs inside them is said in one of these ways. -/
inductive Statement.Rephrases : Statement → Statement → Prop
  | function (f : String) (params : List String) {b b' : Block} (hb : Block.Rephrases b b') :
      Statement.Rephrases (.function f params b) (.function f params b')
  | block {b b' : Block} (hb : Block.Rephrases b b') : Statement.Rephrases (.block b) (.block b')
  | declare (x : String) (init : Option Expression) : Statement.Rephrases (.declare x init) (.declare x init)
  | evaluate (e : Expression) : Statement.Rephrases (.evaluate e) (.evaluate e)
  | loop (e : Expression) {st st' : Statement} (hst : Statement.RephrasesBranch st st') :
      Statement.Rephrases (.loop e st) (.loop e st')
  | ifThen (e : Expression) {st st' : Statement} (hst : Statement.RephrasesBranch st st') :
      Statement.Rephrases (.ifThen e st) (.ifThen e st')
  | ifElse (e : Expression) {st st' other other' : Statement} (hst : Statement.RephrasesBranch st st')
      (hother : Statement.RephrasesBranch other other') :
      Statement.Rephrases (.ifElse e st other) (.ifElse e st' other')
  | assign (x : String) (e : Expression) : Statement.Rephrases (.assign x e) (.assign x e)
  | result (e : Expression) : Statement.Rephrases (.result e) (.result e)
  | zeroAdded (x : String) : Statement.Rephrases (.declare x none) (.declare x (some (.literal 0)))
  | zeroDropped (x : String) : Statement.Rephrases (.declare x (some (.literal 0))) (.declare x none)
  | elseAdded (e : Expression) {st st' : Statement} (hst : Statement.RephrasesBranch st st') :
      Statement.Rephrases (.ifThen e st) (.ifElse e st' (.block []))
  | elseDropped (e : Expression) {st st' : Statement} (hst : Statement.RephrasesBranch st st') :
      Statement.Rephrases (.ifElse e st (.block [])) (.ifThen e st')

/-- The same of branches and loop bodies, of which either may stand in a block. -/
inductive Statement.RephrasesBranch : Statement → Statement → Prop
  | plain {st st' : Statement} (hst : Statement.Rephrases st st') : Statement.RephrasesBranch st st'
  | wrapped {st st' : Statement} (hst : Statement.Rephrases st st') : Statement.RephrasesBranch st (.block [st'])
  | unwrapped {st st' : Statement} (hst : Statement.Rephrases st st') : Statement.RephrasesBranch (.block [st]) st'

/-- The same of blocks. Anything may follow a return. -/
inductive Block.Rephrases : Block → Block → Prop
  | nil : Block.Rephrases [] []
  | cons {st st' : Statement} {rest rest' : Block} (hst : Statement.Rephrases st st')
      (hrest : Block.Rephrases rest rest') : Block.Rephrases (st :: rest) (st' :: rest')
  | stop (e : Expression) (rest rest' : Block) : Block.Rephrases (.result e :: rest) (.result e :: rest')

end

mutual

theorem Statement.Rephrases.refl : ∀ st : Statement, Statement.Rephrases st st
  | .function f params b => .function f params (Block.Rephrases.refl b)
  | .block b => .block (Block.Rephrases.refl b)
  | .declare x init => .declare x init
  | .evaluate e => .evaluate e
  | .loop e st => .loop e (.plain (Statement.Rephrases.refl st))
  | .ifThen e st => .ifThen e (.plain (Statement.Rephrases.refl st))
  | .ifElse e st other => .ifElse e (.plain (Statement.Rephrases.refl st)) (.plain (Statement.Rephrases.refl other))
  | .assign x e => .assign x e
  | .result e => .result e

theorem Block.Rephrases.refl : ∀ b : Block, Block.Rephrases b b
  | [] => .nil
  | st :: rest => .cons (Statement.Rephrases.refl st) (Block.Rephrases.refl rest)

end

mutual

theorem Statement.Rephrases.symm : ∀ {st st' : Statement}, Statement.Rephrases st st' → Statement.Rephrases st' st
  | _, _, .function f params hb => .function f params hb.symm
  | _, _, .block hb => .block hb.symm
  | _, _, .declare x init => .declare x init
  | _, _, .evaluate e => .evaluate e
  | _, _, .loop e hst => .loop e hst.symm
  | _, _, .ifThen e hst => .ifThen e hst.symm
  | _, _, .ifElse e hst hother => .ifElse e hst.symm hother.symm
  | _, _, .assign x e => .assign x e
  | _, _, .result e => .result e
  | _, _, .zeroAdded x => .zeroDropped x
  | _, _, .zeroDropped x => .zeroAdded x
  | _, _, .elseAdded e hst => .elseDropped e hst.symm
  | _, _, .elseDropped e hst => .elseAdded e hst.symm

theorem Statement.RephrasesBranch.symm :
    ∀ {st st' : Statement}, Statement.RephrasesBranch st st' → Statement.RephrasesBranch st' st
  | _, _, .plain hst => .plain hst.symm
  | _, _, .wrapped hst => .unwrapped hst.symm
  | _, _, .unwrapped hst => .wrapped hst.symm

theorem Block.Rephrases.symm : ∀ {b b' : Block}, Block.Rephrases b b' → Block.Rephrases b' b
  | _, _, .nil => .nil
  | _, _, .cons hst hrest => .cons hst.symm hrest.symm
  | _, _, .stop e rest rest' => .stop e rest' rest

end

theorem Block.exec_singleton (n : Nat) (c : Context) (st : Statement) :
    Block.exec (n + 2) c [st] = Statement.exec (n + 1) c st := by
  funext f
  rw [Block.exec, bind_apply]
  rcases Statement.exec (n + 1) c st f with ⟨(_ | v) | e | _, g⟩ <;> rfl

/-- A return always gives its signal, so the statements behind it do not run. -/
theorem Block.exec_result (n : Nat) (c : Context) (e : Expression) (rest : Block) :
    Block.exec (n + 1) c (.result e :: rest) = Statement.exec n c (.result e) := by
  cases n with
  | zero => rfl
  | succ n =>
    funext f
    rw [Block.exec, Statement.exec, bind_apply, Run.within, bind_apply]
    rcases Expression.eval n c f.scope e f.world with ⟨v | e | _, w⟩ <;> rfl

namespace Statement

variable {l : Limits} {d n : Nat} {s : Scope}

theorem execChild_wrapped (st : Statement) :
    Exec.CutShort (fun _ => False) (execChild (n + 1) ⟨l, d⟩ s st) (execChild (n + 4) ⟨l, d⟩ s (.block [st])) := by
  change Exec.CutShort _ _ ((Block.exec (n + 3) ⟨l, d⟩ [st]).inScope s.child)
  rw [Block.exec_singleton]
  by_cases hst : ∃ b, st = .block b
  · -- a child of a child sees and declares what the child does
    obtain ⟨b, rfl⟩ := hst
    exact (Kinship.more_fuel l (Nat.le_refl (n + 1))).child (L := ()) ⟨d, rfl, rfl⟩ rfl rfl
  · rw [Simulation.Along.execChild_eq n _ s fun b hb => hst ⟨b, hb⟩]
    have hexec : Run.CutShort (fun _ => False) Eq _ _ :=
      (Kinship.more_fuel l (Nat.le_add_right n 2)).statement (L := ()) ⟨d, rfl, rfl⟩ (rfl : st = st)
    exact hexec.inScope rfl

theorem execChild_unwrapped (st : Statement) :
    Exec.CutShort (fun _ => False) (execChild n ⟨l, d⟩ s (.block [st])) (execChild n ⟨l, d⟩ s st) := by
  have hstuck : Exec.CutShort (fun _ => False) outOfFuel (execChild n ⟨l, d⟩ s st) :=
    (Kinship.more_fuel l (Nat.zero_le n)).child (L := ()) ⟨d, rfl, rfl⟩ (rfl : s = s) (rfl : st = st)
  match n with
  | 0 => exact hstuck
  | 1 => exact hstuck
  | 2 => exact hstuck
  | n + 3 =>
    change Exec.CutShort _ ((Block.exec (n + 2) ⟨l, d⟩ [st]).inScope s.child) _
    rw [Block.exec_singleton]
    by_cases hst : ∃ b, st = .block b
    · obtain ⟨b, rfl⟩ := hst
      have hsame : execChild n ⟨l, d⟩ s.child (.block b) = execChild n ⟨l, d⟩ s (.block b) := by
        cases n <;> rfl
      change Exec.CutShort _ (execChild n ⟨l, d⟩ s.child (.block b)) _
      rw [hsame]
      exact (Kinship.more_fuel l (Nat.le_add_right n 3)).child (L := ()) ⟨d, rfl, rfl⟩ rfl rfl
    · rw [Simulation.Along.execChild_eq (n + 2) _ s fun b hb => hst ⟨b, hb⟩]
      have hexec : Run.CutShort (fun _ => False) Eq _ _ :=
        (Kinship.more_fuel l (Nat.le_succ (n + 1))).statement (L := ()) ⟨d, rfl, rfl⟩ (rfl : st = st)
      exact hexec.inScope rfl

theorem execChild_nothing (n : Nat) (c : Context) (s : Scope) :
    Exec.CutShort (fun _ => False) (execChild n c s (.block [])) (Pure.pure none) := by
  have hstuck : Exec.CutShort (fun _ => False) Attempt.outOfFuel (Pure.pure none : Exec Signal) :=
    Exec.cutShort_outOfFuel fun _ => List.prefix_refl _
  match n with
  | 0 => exact hstuck
  | 1 => exact hstuck
  | n + 2 => exact cutShort_pure none

theorem exec_declare_zero (n : Nat) (c : Context) (x : String) :
    Statement.exec (n + 2) c (.declare x (some (.literal 0))) = Statement.exec (n + 2) c (.declare x none) := rfl

end Statement

def Kinship.rephrased : Kinship :=
  .ofBodies Statement.Rephrases Statement.RephrasesBranch Block.Rephrases Block.Rephrases.refl

namespace Kinship

open Simulation

variable {l : Limits} {d n n' : Nat} {s s' : Scope}

theorem rephrased_plain (h : rephrased.Along l n n') (hs : rephrased.scope s s') {st st' : Statement}
    (hst : Statement.Rephrases st st') :
    Exec.CutShort (fun _ => False) (Statement.execChild (n + 1) ⟨l, d⟩ s st)
      (Statement.execChild (n' + 1) ⟨l, d⟩ s' st') := by
  have hrephrased := hst
  cases hst with
  | block hb => exact h.child_block (L := ()) ⟨d, rfl, rfl⟩ hs hb
  | _ => exact h.child_statement (L := ()) ⟨d, rfl, rfl⟩ hs hrephrased (by rintro _ ⟨⟩) (by rintro _ ⟨⟩)

-- Only a block that is put around a branch takes fuel that was not there before.
theorem rephrased_child (h : rephrased.Along l n n') (hfull : rephrased.Along l n (n' + 3))
    (hs : rephrased.scope s s') {st st' : Statement} (hst : Statement.RephrasesBranch st st') :
    Exec.CutShort (fun _ => False) (Statement.execChild (n + 1) ⟨l, d⟩ s st)
      (Statement.execChild (n' + 4) ⟨l, d⟩ s' st') := by
  cases hst with
  | plain hst => exact rephrased_plain hfull hs hst
  | wrapped hst => exact (rephrased_plain h hs hst).trans (Statement.execChild_wrapped _)
  | unwrapped hst => exact (Statement.execChild_unwrapped _).trans (rephrased_plain hfull hs hst)

theorem rephrased_statement (h : rephrased.Along l n (n' + 2)) {st st' : Statement}
    (hst : Statement.Rephrases st st') :
    Run.CutShort (fun _ => False) rephrased.scope (Statement.exec (n + 1) ⟨l, d⟩ st)
      (Statement.exec (n' + 3) ⟨l, d⟩ st') := by
  have hc : (rephrased.simulation (.refl (fun _ => False) l)).context ⟨l, d⟩ ⟨l, d⟩ := ⟨d, rfl, rfl⟩
  have hnone : ∀ x, Run.CutShort (fun _ => False) rephrased.scope (Statement.exec (n + 1) ⟨l, d⟩ (.declare x none))
      (Statement.exec (n' + 3) ⟨l, d⟩ (.declare x none)) := fun x =>
    Along.exec_declare_none (S := rephrased.simulation (.refl _ l)) (L := ()) rfl
  cases hst with
  | function f params hb => exact rephrased.cutShort_define hb
  | block hb => exact h.exec_block (L := ()) hc (.plain (.block hb))
  | declare x init =>
    cases init with
    | none => exact hnone x
    | some e => exact h.exec_declare_some (L := ()) hc rfl (.refl e)
  | evaluate e => exact h.exec_evaluate (L := ()) hc (.refl e)
  | loop e hst => exact h.exec_loop (L := ()) hc (.refl e) hst
  | ifThen e hst => exact h.exec_ifThen (L := ()) hc (.refl e) hst
  | ifElse e hst hother => exact h.exec_ifElse (L := ()) hc (.refl e) hst hother
  | assign x e => exact h.exec_assign (L := ()) hc rfl (.refl e)
  | result e => exact h.exec_result (L := ()) hc (.refl e)
  | zeroAdded x =>
    rw [Statement.exec_declare_zero]
    exact hnone x
  | zeroDropped x =>
    cases n with
    | zero => exact (rephrased.along_zero (.refl _ l) _).statement (L := ()) hc (.zeroDropped x)
    | succ n =>
      rw [Statement.exec_declare_zero]
      exact hnone x
  | elseAdded e hst =>
    rw [Statement.exec, Statement.exec]
    refine Run.cutShort_within rephrased.refl fun s s' hs => ?_
    exact h.choice (L := ()) hc hs (.refl e) (h.child hc hs hst) (cutShort_pure none)
  | elseDropped e hst =>
    rw [Statement.exec, Statement.exec]
    refine Run.cutShort_within rephrased.refl fun s s' hs => ?_
    exact h.choice (L := ()) hc hs (.refl e) (h.child hc hs hst) (Statement.execChild_nothing n _ s)

theorem rephrased_block (h : rephrased.Along l n n') {b b' : Block} (hb : Block.Rephrases b b') :
    Run.CutShort (fun _ => False) rephrased.scope (Block.exec (n + 1) ⟨l, d⟩ b) (Block.exec (n' + 1) ⟨l, d⟩ b') := by
  have hsequential := rephrased.sequential (.refl (fun _ => False) l)
  cases hb with
  | nil => exact hsequential.block_nil (L := ())
  | cons hst hrest => exact hsequential.block_cons (L := ()) h ⟨d, rfl, rfl⟩ hst hrest
  | stop e rest rest' =>
    rw [Block.exec_result, Block.exec_result]
    exact h.statement (L := ()) ⟨d, rfl, rfl⟩ (.result e)

theorem rephrased_along (l : Limits) (hn : 4 * n ≤ n') : rephrased.Along l n n' := by
  induction n generalizing n' with
  | zero => exact rephrased.along_zero (.refl _ l) n'
  | succ n ih =>
    obtain ⟨k, rfl⟩ : ∃ k, n' = k + 4 := ⟨n' - 4, by omega⟩
    have hfew : rephrased.Along l n k := ih (by omega)
    have h : rephrased.Along l n (k + 3) := ih (by omega)
    exact {
      eval := fun hc hs he => h.eval_succ hc hs he
      evalAll := fun hc hs hes => h.evalAll_succ hc hs hes
      invoke := fun args hc hg => h.invoke_succ hc hg args
      statement := by
        rintro _ _ _ _ _ ⟨d, rfl, rfl⟩ hst
        exact rephrased_statement h hst
      block := by
        rintro _ _ _ _ _ ⟨d, rfl, rfl⟩ hb
        exact rephrased_block h hb
      child := by
        rintro _ _ _ _ _ _ _ ⟨d, rfl, rfl⟩ hs hst
        exact rephrased_child hfew h hs hst
      iterate := fun k hc hs he hst => h.iterate_succ hc hs he hst k }

end Kinship

end IntScript
