import IntScript.Proofs.Kinship
import IntScript.Proofs.PaddedScopes
import Mathlib.Data.List.Perm.Subperm

set_option autoImplicit false

namespace IntScript

open Attempt

namespace Scope

variable {s t : Scope} {x : String} {zs zs' : List String}

def Lacks (s : Scope) (zs : List String) : Prop :=
  ∀ z ∈ zs, s.vars.isDeclaredHere z = false ∧ s.funs.isDeclaredHere z = false

theorem lacks_child (s : Scope) (zs : List String) : s.child.Lacks zs := fun _ _ => ⟨rfl, rfl⟩

theorem Lacks.mono (h : s.Lacks zs) (hsub : zs' ⊆ zs) : s.Lacks zs' := fun z hz => h z (hsub hz)

theorem Lacks.bindVariable (h : s.Lacks zs) (hx : x ∉ zs) (cell : Cell) :
    Lacks ⟨s.vars.bind x cell, s.funs⟩ zs := by
  intro z hz
  have hne : z ≠ x := fun heq => hx (heq ▸ hz)
  exact ⟨(s.vars.isDeclaredHere_bind_of_ne hne cell).trans (h z hz).1, (h z hz).2⟩

theorem Lacks.bindFunction (h : s.Lacks zs) (hx : x ∉ zs) (g : Callable) :
    Lacks ⟨s.vars, s.funs.bind x g⟩ zs := by
  intro z hz
  have hne : z ≠ x := fun heq => hx (heq ▸ hz)
  exact ⟨(h z hz).1, (s.funs.isDeclaredHere_bind_of_ne hne g).trans (h z hz).2⟩

end Scope

/-- A statement of both sides declares no name of one side. -/
theorem Statement.Padded.lacks {p : Padding} {st st' : Statement} {s t : Scope} {zs : List String}
    (h : Statement.Padded p st st') (hzs : zs ⊆ p.left) (hs : s.Lacks zs) (ht : s.Declares st t) : t.Lacks zs := by
  have hfree : ∀ x, p.Common x → x ∉ zs := fun x hx hmem => hx.1 (hzs hmem)
  cases h with
  | function hnames _ =>
    obtain ⟨-, rfl⟩ := Scope.declareFunction_eq_ok.1 ht
    exact hs.bindFunction (hfree _ (hnames _ List.mem_cons_self)) _
  | @declare x init hnames =>
    obtain ⟨cell, ht⟩ := ht
    obtain ⟨-, rfl⟩ := Scope.declareVariable_eq_ok.1 ht
    have hx : x ∈ (Statement.declare x init).names := by cases init <;> simp [Statement.names]
    exact hs.bindVariable (hfree _ (hnames _ hx)) cell
  | _ =>
    obtain rfl : t = s := ht
    exact hs

def Frame.Linked (p : Padding) (L : Links) (f f' : Frame) : Prop :=
  ∃ M, L ≤ M ∧ Scope.Linked p M f.scope f'.scope ∧ World.Linked M f.world f'.world

theorem Frame.Linked.shown {p : Padding} {L : Links} (f f' : Frame) (h : Frame.Linked p L f f') :
    f.world.shown = f'.world.shown := by
  obtain ⟨M, -, -, hw⟩ := h
  exact hw.shown

/-- The frame with one more name declared, and nothing to show for it. -/
inductive Frame.Gains (z : String) (f : Frame) : Frame → Prop
  | value (v : Value) : Gains z f ⟨⟨f.scope.vars.bind z f.world.nextCell, f.scope.funs⟩, f.world.add v⟩
  | function (g : Callable) {e : Event} (he : e.output? = none) :
      Gains z f ⟨⟨f.scope.vars, f.scope.funs.bind z g⟩, f.world.note e⟩

theorem Statement.Unused.exec {z : String} {st : Statement} (h : st.Unused z) (n : Nat) (c : Context) {f : Frame}
    (hz : f.scope.Lacks [z]) :
    Statement.exec n c st f = (.outOfFuel, f) ∧ n < 2 ∨ ∃ g, Statement.exec n c st f = (.done none, g) ∧ f.Gains z g := by
  obtain ⟨hvar, hfun⟩ := hz z List.mem_cons_self
  cases h with
  | value v =>
    match n with
    | 0 => exact .inl ⟨rfl, by omega⟩
    | 1 => exact .inl ⟨rfl, by omega⟩
    | n + 2 =>
      have hdeclare : Run.declareVariable z v f =
          (.done (), ⟨⟨f.scope.vars.bind z f.world.nextCell, f.scope.funs⟩, f.world.add v⟩) :=
        Run.declareVariable_eq_done.2 ⟨Scope.declareVariable_eq_ok.2 ⟨hvar, rfl⟩, rfl⟩
      exact .inr ⟨_, bind_of_done hdeclare fun _ => Pure.pure none, .value v⟩
  | function params body =>
    match n with
    | 0 => exact .inl ⟨rfl, by omega⟩
    | n + 1 =>
      let closure : Closure := ⟨⟨z, params, body⟩, f.scope.child⟩
      have hdeclare : Run.declareFunction ⟨z, params, body⟩ ⟨f.scope, f.world.note (.defining z params.length)⟩ =
          (.done (), ⟨⟨f.scope.vars, f.scope.funs.bind z (.user closure)⟩, f.world.note (.defining z params.length)⟩) :=
        Run.declareFunction_eq_done.2 ⟨Scope.declareFunction_eq_ok.2 ⟨hfun, rfl⟩, rfl⟩
      exact .inr ⟨_, bind_of_done hdeclare fun _ => Pure.pure none, .function (.user closure) rfl⟩

theorem Frame.Gains.lacks {z : String} {f g : Frame} {zs : List String} (h : f.Gains z g) (hz : z ∉ zs)
    (hf : f.scope.Lacks zs) : g.scope.Lacks zs := by
  cases h with
  | value v => exact hf.bindVariable hz _
  | function g he => exact hf.bindFunction hz g

namespace Frame.Linked

variable {p : Padding} {L : Links} {f f' g : Frame} {z : String}

theorem gainsLeft (h : Frame.Linked p L f f') (hz : z ∈ p.left) (hg : f.Gains z g) : Frame.Linked p L g f' := by
  obtain ⟨M, hLM, hs, hw⟩ := h
  cases hg with
  | value v => exact ⟨M, hLM, ⟨hs.vars.bindLeft hz _, hs.funs⟩, hw.addLeft v⟩
  | function g he => exact ⟨M, hLM, ⟨hs.vars, hs.funs.bindLeft hz g⟩, hw.noteLeft he⟩

theorem gainsRight (h : Frame.Linked p L f f') (hz : z ∈ p.right) (hg : f'.Gains z g) : Frame.Linked p L f g := by
  obtain ⟨M, hLM, hs, hw⟩ := h
  cases hg with
  | value v => exact ⟨M, hLM, ⟨hs.vars.bindRight hz _, hs.funs⟩, hw.addRight v⟩
  | function g he => exact ⟨M, hLM, ⟨hs.vars, hs.funs.bindRight hz g⟩, hw.noteRight he⟩

end Frame.Linked

namespace Run

variable {α : Type} {p : Padding} {L : Links}

def Shows (m : Run α) : Prop := Attempt.Grows (fun f : Frame => f.world.shown) m

theorem Grows.shows {m : Run α} (h : Grows m) : Shows m := fun f => (h f).filter _

/-- Both runs have ended alike in linked frames, or the first has run out of fuel. -/
def EndsAlike (p : Padding) (L : Links) (r r' : Outcome EvalError α × Frame) : Prop :=
  Attempt.EndsAlike (fun f : Frame => f.world.shown) (fun _ => False) (Frame.Linked p L) r r'

abbrev CutShortLinked (p : Padding) (L : Links) (m m' : Run α) : Prop :=
  Attempt.CutShort (fun f : Frame => f.world.shown) (fun _ => False) (Frame.Linked p L) m m'

/-- Runs from linked frames end alike in linked frames, or the first runs out of fuel. In scopes that are linked to
others, what shows of the second run only grows. -/
structure InStep (p : Padding) (L : Links) (m m' : Run α) : Prop where
  grows : ∀ M s s', L ≤ M → Scope.Linked p M s s' → ∀ w, w.shown <+: (m' ⟨s', w⟩).2.world.shown
  endsAlike : ∀ f f', Frame.Linked p L f f' → EndsAlike p L (m f) (m' f')

theorem InStep.of_cutShort {m m' : Run α} (h : CutShortLinked p L m m') : InStep p L m m' :=
  ⟨fun _ _ s' _ _ w => h.grows ⟨s', w⟩, h.same_or_cut⟩

theorem endsAlike_outOfFuel {m : Run α} (hm : Grows m) {f f' : Frame} (hf : Frame.Linked p L f f') :
    EndsAlike p L (Attempt.outOfFuel f) (m f') :=
  (Attempt.cutShort_outOfFuel hm.shows Frame.Linked.shown).same_or_cut f f' hf

/-- What follows a run that is in step grows from anywhere. -/
theorem InStep.bind {β : Type} {m m' : Run α} {k k' : α → Run β} (hm : InStep p L m m')
    (hk : ∀ a, CutShortLinked p L (k a) (k' a)) : InStep p L (m >>= k) (m' >>= k') := by
  constructor
  · intro M s s' hLM hs w
    exact (hm.grows M s s' hLM hs w).trans (before_bind m' (fun a => (hk a).grows) ⟨s', w⟩)
  · intro f f' hf
    apply Attempt.EndsAlike.bind (hm.endsAlike f f' hf) fun a => (hk a).grows
    intro a g g' _ _ hg
    exact (hk a).same_or_cut g g' hg

theorem inStep_within {m m' : Scope → Exec α}
    (hm : ∀ M s s', L ≤ M → Scope.Linked p M s s' → Exec.InStep M (m s) (m' s')) :
    InStep p L (within m) (within m') := by
  refine ⟨fun M s s' hLM hs w => (hm M s s' hLM hs).grows w, ?_⟩
  rintro f f' ⟨M, hLM, hs, hw⟩
  rcases (hm M _ _ hLM hs).same_or_cut f.world f'.world ⟨M, le_refl M, hw⟩ with ⟨hout, N, hMN, hend⟩ | hcut
  · exact .inl ⟨hout, N, hLM.trans hMN, hs.mono hMN, hend⟩
  · exact .inr hcut

theorem cutShort_declare {x : String} (hx : p.Common x) (v : Value) :
    CutShortLinked p L (do declareVariable x v; return none : Run Signal)
      (do declareVariable x v; return none : Run Signal) := by
  refine CutShort.bind ⟨(confined_declareVariable x v).grows.shows, ?_⟩ fun _ => cutShort_pure none
  rintro ⟨s, w⟩ ⟨s', w'⟩ ⟨M, hLM, hs, hw⟩
  have hle := M.le_add w.nextCell w'.nextCell
  have hboth := (hs.mono hle).declareVariable hx (M.add_self w.nextCell w'.nextCell)
  unfold declareVariable
  dsimp only at hs hw hboth ⊢
  generalize s.declareVariable x w.nextCell = r at hboth ⊢
  generalize s'.declareVariable x w'.nextCell = r' at hboth ⊢
  cases hboth with
  | ok h => exact .inl ⟨rfl, _, hLM.trans hle, h, hw.add v⟩
  | error h => exact .inl ⟨congrArg Outcome.failed h, M, hLM, hs, hw⟩

theorem cutShort_define {f : String} {params : List String} {b b' : Block} (hf : p.Common f) (hparams : p.Shares params)
    (hb : p.Bodies b b') :
    CutShortLinked p L
      (do note (.defining f params.length); declareFunction ⟨f, params, b⟩; return none : Run Signal)
      (do note (.defining f params.length); declareFunction ⟨f, params, b'⟩; return none : Run Signal) := by
  have hnote : CutShortLinked p L (note (.defining f params.length)) (note (.defining f params.length)) := by
    refine ⟨fun f => (Exec.grows_note _).shown f.world, ?_⟩
    rintro f f' ⟨M, hLM, hs, hw⟩
    exact .inl ⟨rfl, M, hLM, hs, hw.noteAll [_]⟩
  apply hnote.bind
  intro _
  refine CutShort.bind ⟨(confined_declareFunction _).grows.shows, ?_⟩ fun _ => cutShort_pure none
  rintro ⟨s, w⟩ ⟨s', w'⟩ ⟨M, hLM, hs, hw⟩
  have hboth := hs.declareFunction hf
    (Callable.linked_iff.2 (.user ⟨rfl, hf⟩ (Padding.both_all.2 ⟨rfl, hparams⟩) hb hs.child))
  unfold declareFunction
  dsimp only at hs hw hboth ⊢
  generalize s.declareFunction f (.user ⟨⟨f, params, b⟩, s.child⟩) = r at hboth ⊢
  generalize s'.declareFunction f (.user ⟨⟨f, params, b'⟩, s'.child⟩) = r' at hboth ⊢
  cases hboth with
  | ok h => exact .inl ⟨rfl, M, hLM, h, hw⟩
  | error h => exact .inl ⟨congrArg Outcome.failed h, M, hLM, hs, hw⟩

theorem inStep_inScope {m m' : Run α} {s s' : Scope} (hs : Scope.Linked p L s s')
    (hgrows : ∀ w, w.shown <+: (m' ⟨s', w⟩).2.world.shown)
    (hm : ∀ w w', Frame.Linked p L ⟨s, w⟩ ⟨s', w'⟩ → EndsAlike p L (m ⟨s, w⟩) (m' ⟨s', w'⟩)) :
    Exec.InStep L (m.inScope s) (m'.inScope s') := by
  refine ⟨hgrows, ?_⟩
  rintro w w' ⟨M, hLM, hw⟩
  rcases hm w w' ⟨M, hLM, hs.mono hLM, hw⟩ with ⟨hout, N, hLN, -, hend⟩ | hcut
  · exact .inl ⟨hout, N, hLN, hend⟩
  · exact .inr hcut

/-- Runs of padded blocks are in step where the names that are added have not been declared. -/
structure BlocksInStep (p : Padding) (L : Links) (b b' : Block) (m m' : Run Signal) : Prop where
  grows : Shows m'
  endsAlike : ∀ zs zs' f f', Block.Padded p zs zs' b b' → Frame.Linked p L f f' → f.scope.Lacks zs →
    f'.scope.Lacks zs' → EndsAlike p L (m f) (m' f')

end Run

theorem ExceptRel.and_ok {α β : Type} {E : EvalError → EvalError → Prop} {V : α → β → Prop} {r : Except EvalError α}
    {r' : Except EvalError β} (h : ExceptRel E V r r') : ExceptRel E (fun a b => V a b ∧ r = .ok a ∧ r' = .ok b) r r' := by
  cases h with
  | ok hab => exact .ok ⟨hab, rfl, rfl⟩
  | error e => exact .error e

namespace Padding

variable (p : Padding)

def correspondence : Correspondence where
  Stage := Links
  var := p.Both
  function := p.Both
  error := Eq
  statement := Statement.Padded p
  branch := Statement.Padded p
  block := p.Bodies
  cell L := L
  scope := Scope.Linked p
  entry L s s' := Scope.Linked p L s s' ∧ s.Lacks p.left ∧ s'.Lacks p.right
  error_refl := Eq.refl
  error_arity h := EvalError.arityMismatch_congr h.1
  lookupCell hs hx := by
    obtain ⟨rfl, hx⟩ := hx
    exact hs.cell hx
  lookupCallable hs hf := by
    obtain ⟨rfl, hf⟩ := hf
    exact (hs.callable hf).imp fun _ _ => Callable.linked_iff.1
  child hs := ⟨hs.child, Scope.lacks_child _ _, Scope.lacks_child _ _⟩
  declareVariable hs hx ha := by
    obtain ⟨rfl, hx⟩ := hx
    obtain ⟨hs, hleft, hright⟩ := hs
    refine (hs.declareVariable hx ha).and_ok.imp ?_
    rintro t t' ⟨ht, hok, hok'⟩
    obtain ⟨-, rfl⟩ := Scope.declareVariable_eq_ok.1 hok
    obtain ⟨-, rfl⟩ := Scope.declareVariable_eq_ok.1 hok'
    exact ⟨ht, hleft.bindVariable hx.1 _, hright.bindVariable hx.2 _⟩
  entryScope hg := ⟨.entryScope hg, Scope.lacks_child _ _, Scope.lacks_child _ _⟩
  entry_mono hLM h := ⟨h.1.mono hLM, h.2⟩

def simulation : Simulation where
  toCorrespondence := p.correspondence
  context := Eq
  exec L := Exec.InStep L
  run L := Run.InStep p L
  body L := Run.BlocksInStep p L
  pure := cutShort_pure
  bind := CutShort.bind
  ofExcept := cutShort_ofExcept
  read := Exec.inStep_read
  write := Exec.inStep_write
  alloc := Exec.inStep_alloc
  useTool := Exec.inStep_useTool
  iterations k hc hm := hc ▸ cutShort_ofExcept (.refl (fun _ => rfl) _) fun _ _ _ => hm
  begin hc hg hperform := by
    subst hc
    cases hg with
    | user hf _ _ _ =>
      obtain ⟨rfl, -⟩ := hf
      apply cutShort_ofExcept (.refl (fun _ => rfl) _)
      rintro inner _ rfl
      exact (Exec.inStep_note _).bind fun _ => hperform inner inner rfl
  within := Run.inStep_within
  declare hx hm := by
    obtain ⟨rfl, hx⟩ := hx
    exact (Run.inStep_within hm).bind fun v => Run.cutShort_declare hx v
  define hf hparams hb := by
    obtain ⟨rfl, hf⟩ := hf
    obtain ⟨rfl, hnames⟩ := both_all.1 hparams
    exact .of_cutShort (Run.cutShort_define hf hnames hb)
  inScope hm hs := Run.inStep_inScope hs.1 (hm.grows _ _ _ (le_refl _) hs.1) fun w w' hw => hm.endsAlike _ _ hw
  bodyInScope hb hm hs := by
    obtain ⟨zs, zs', hb⟩ := hb
    obtain ⟨hs, hleft, hright⟩ := hs
    obtain ⟨⟨-, hzs⟩, -, hzs'⟩ := hb.added
    apply Run.inStep_inScope hs fun w => hm.grows ⟨_, w⟩
    intro w w' hw
    exact hm.endsAlike zs zs' _ _ hb hw (hleft.mono hzs) (hright.mono hzs')

/-- Fuel of the second run for one unit of the first. -/
def cost (p : Padding) : Nat := p.right.length + 3

theorem block_grows (n : Nat) (c : Context) (b : Block) : Run.Grows (Block.exec n c b) :=
  ((Confines.all (fun _ => True) n).block c b).grows

variable {p} {n n' : Nat} {c : Context} {L : Links} {s s' : Scope} {st st' : Statement}

theorem along_zero (p : Padding) (n' : Nat) : p.simulation.Along 0 n' := by
  apply Simulation.along_zero Exec.inStep_outOfFuel
  · intro L m hm
    exact .of_cutShort (Attempt.cutShort_outOfFuel hm.shows Frame.Linked.shown)
  · intro L b b' m hm
    exact ⟨hm.shows, fun _ _ _ _ _ hf _ _ => Run.endsAlike_outOfFuel hm hf⟩

theorem statement_succ (h : p.simulation.Along n n') (hst : Statement.Padded p st st') :
    Run.InStep p L (Statement.exec (n + 1) c st) (Statement.exec (n' + 1) c st') := by
  cases hst with
  | function hnames hb =>
    rw [shares_cons] at hnames
    exact .of_cutShort (Run.cutShort_define hnames.1 hnames.2 ⟨_, _, hb⟩)
  | block hb => exact h.exec_block (L := L) rfl (.block hb)
  | @declare x init hnames =>
    cases init with
    | none => exact .of_cutShort (Run.cutShort_declare (hnames x List.mem_cons_self) 0)
    | some e =>
      rw [Statement.names, shares_cons] at hnames
      exact h.exec_declare_some (L := L) rfl ⟨rfl, hnames.1⟩ (alike e hnames.2)
  | evaluate he => exact h.exec_evaluate (L := L) rfl (alike _ he)
  | loop he hst => exact h.exec_loop (L := L) rfl (alike _ he) hst
  | ifThen he hst => exact h.exec_ifThen (L := L) rfl (alike _ he) hst
  | ifElse he hst hother => exact h.exec_ifElse (L := L) rfl (alike _ he) hst hother
  | assign hx he => exact h.exec_assign (L := L) rfl ⟨rfl, hx⟩ (alike _ he)
  | result he => exact h.exec_result (L := L) rfl (alike _ he)

theorem child_succ (h : p.simulation.Along n n') (hst : Statement.Padded p st st') (hs : Scope.Linked p L s s') :
    Exec.InStep L (Statement.execChild (n + 1) c s st) (Statement.execChild (n' + 1) c s' st') := by
  have hpadded := hst
  cases hst with
  | block hb => exact h.child_block rfl hs ⟨_, _, hb⟩
  | _ => exact h.child_statement rfl hs hpadded (by rintro _ ⟨⟩) (by rintro _ ⟨⟩)

section Blocks

variable {f f' : Frame} {zs zs' : List String} {b b' : Block} {z : String}

theorem cons_succ (h : p.simulation.Along n n') (hst : Statement.Padded p st st') (hb : Block.Padded p zs zs' b b')
    (hf : Frame.Linked p L f f') (hleft : f.scope.Lacks zs) (hright : f'.scope.Lacks zs') :
    Run.EndsAlike p L (Block.exec (n + 1) c (st :: b) f) (Block.exec (n' + 1) c (st' :: b') f') := by
  obtain ⟨⟨-, hzs⟩, -, hzs'⟩ := hb.added
  have hstatement : Run.InStep p L (Statement.exec n c st) (Statement.exec n' c st') := h.statement (L := L) rfl hst
  refine Attempt.EndsAlike.bind (hstatement.endsAlike f f' hf) (fun signal => ?_) ?_
  · cases signal with
    | some v => exact fun _ => List.prefix_refl _
    | none => exact (block_grows n' _ b').shows
  · intro signal g g' hg hg' hlinked
    cases signal with
    | some v => exact .inl ⟨rfl, hlinked⟩
    | none =>
      -- only the statement itself can have declared a name, and it is one of both sides
      have hkept := hst.lacks hzs hleft (Statement.exec_declares hg)
      have hkept' := hst.symm.lacks hzs' hright (Statement.exec_declares hg')
      exact (h.block (L := L) rfl ⟨zs, zs', hb⟩).endsAlike zs zs' g g' hb hlinked hkept hkept'

theorem left_succ (h : p.simulation.Along n n') (hst : st.Unused z) (hz : z ∈ p.left) (hnew : z ∉ zs)
    (hb : Block.Padded p zs zs' b b') (hf : Frame.Linked p L f f') (hleft : f.scope.Lacks (z :: zs))
    (hright : f'.scope.Lacks zs') :
    Run.EndsAlike p L (Block.exec (n + 1) c (st :: b) f) (Block.exec n' c b' f') := by
  rcases hst.exec n c (hleft.mono (by simp)) with ⟨hcut, -⟩ | ⟨g, hg, hgains⟩
  · rw [Block.exec, bind_of_outOfFuel hcut]
    exact Run.endsAlike_outOfFuel (block_grows n' c b') hf
  · rw [Block.exec, bind_of_done hg]
    have hblock := h.block (L := L) (c := c) rfl ⟨zs, zs', hb⟩
    exact hblock.endsAlike zs zs' g f' hb (hf.gainsLeft hz hgains) (hgains.lacks hnew (hleft.mono (by simp))) hright

theorem exec_right (hst : st'.Unused z) (hright : f'.scope.Lacks [z]) (hn : 2 ≤ n') :
    ∃ g, Block.exec (n' + 1) c (st' :: b') f' = Block.exec n' c b' g ∧ f'.Gains z g := by
  rcases hst.exec n' c hright with ⟨-, hlt⟩ | ⟨g, hg, hgains⟩
  · omega
  · exact ⟨g, bind_of_done hg _, hgains⟩

/-- The fuel is enough for the names that the second block adds before its next common statement. -/
theorem block_succ (h : ∀ m, p.cost * n ≤ m → p.simulation.Along n m) (hb : Block.Padded p zs zs' b b')
    (hn : p.cost * n + zs'.length + 3 ≤ n') (hf : Frame.Linked p L f f') (hleft : f.scope.Lacks zs)
    (hright : f'.scope.Lacks zs') :
    Run.EndsAlike p L (Block.exec (n + 1) c b f) (Block.exec n' c b' f') := by
  -- on the second block, since its own declarations take no fuel of the first run
  induction b' generalizing zs zs' b n' f f' with
  | nil =>
    obtain ⟨m, rfl⟩ : ∃ m, n' = m + 1 := ⟨n' - 1, by omega⟩
    cases hb with
    | nil => exact .inl ⟨rfl, hf⟩
    | left hst hz hnew hb => exact left_succ (h (m + 1) (by omega)) hst hz hnew hb hf hleft hright
  | cons st' b' ih =>
    obtain ⟨m, rfl⟩ : ∃ m, n' = m + 1 := ⟨n' - 1, by omega⟩
    cases hb with
    | cons hst hb => exact cons_succ (h m (by omega)) hst hb hf hleft hright
    | left hst hz hnew hb => exact left_succ (h (m + 1) (by omega)) hst hz hnew hb hf hleft hright
    | right hst hz hnew hb =>
      rw [List.length_cons] at hn
      have hdone : ∃ g, Block.exec (m + 1) c (st' :: b') f' = Block.exec m c b' g ∧ f'.Gains _ g :=
        exec_right hst (hright.mono (by simp)) (by omega)
      obtain ⟨g, hg, hgains⟩ := hdone
      rw [hg]
      exact ih hb (by omega) (hf.gainsRight hz hgains) hleft (hgains.lacks hnew (hright.mono (by simp)))

end Blocks

/-- Padded programs run in step, if the second has the fuel for its declarations. -/
theorem along (p : Padding) {n n' : Nat} (hn : p.cost * n ≤ n') : p.simulation.Along n n' := by
  induction n generalizing n' with
  | zero => exact p.along_zero n'
  | succ n ih =>
    have hcost : p.cost * (n + 1) = p.cost * n + (p.right.length + 3) := Nat.mul_succ _ _
    obtain ⟨m, rfl⟩ : ∃ m, n' = m + 1 := ⟨n' - 1, by omega⟩
    have hm : p.simulation.Along n m := ih (by omega)
    exact {
      eval := fun hc hs he => hm.eval_succ hc hs he
      evalAll := fun hc hs hes => hm.evalAll_succ hc hs hes
      invoke := fun args hc hg => hm.invoke_succ hc hg args
      statement := by
        rintro L c _ st st' rfl hst
        exact statement_succ hm hst
      block := by
        rintro L c _ b b' rfl -
        refine ⟨(block_grows (m + 1) c b').shows, fun zs zs' f f' hb hf hleft hright => ?_⟩
        obtain ⟨-, hnodup, hsub⟩ := hb.added
        have hlength := (List.subperm_of_subset hnodup hsub).length_le
        exact block_succ (fun k hk => ih hk) hb (by omega) hf hleft hright
      child := by
        rintro L c _ s s' st st' rfl hs hst
        exact child_succ hm hst hs
      iterate := fun k hc hs he hst => hm.iterate_succ hc hs he hst k }

end Padding

end IntScript
