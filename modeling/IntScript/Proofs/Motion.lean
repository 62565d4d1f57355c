import IntScript.Proofs.AttemptLaws
import IntScript.Proofs.Simulation

set_option autoImplicit false

namespace IntScript

open Attempt

section Checks

variable {α β : Type} {E : EvalError → EvalError → Prop} {r : Except EvalError α} {r' : Except EvalError β} {f : α → β}

theorem ExceptRel.of_map (hE : ∀ e, E e e) (h : r' = r.map f) : ExceptRel E (fun a b => f a = b) r r' := by
  subst h
  cases r with
  | ok a => exact .ok rfl
  | error e => exact .error (hE e)

theorem ExceptRel.of_mapError {g : EvalError → EvalError} (hE : ∀ e, E e (g e)) (h : r' = (r.map f).mapError g) :
    ExceptRel E (fun a b => f a = b) r r' := by
  subst h
  cases r with
  | ok a => exact .ok rfl
  | error e => exact .error (hE e)

end Checks

/-- A tool stays; a function is renamed and moves with the scope that it captured. -/
def Callable.moved (ρ : Renaming) (move : Scope → Scope) : Callable → Callable
  | .native tool => .native tool
  | .user closure => .user ⟨closure.decl.rename ρ, move closure.scope⟩

/-- Maps of all that a run stands on, together with a renaming of its program. What an operation does to things that
were moved is what it does to the things themselves, moved. -/
structure Motion where
  names : Renaming
  error : EvalError → EvalError → Prop
  cell : Cell → Cell
  scope : Scope → Scope
  world : World → World
  error_refl : ∀ e, error e e
  error_rename : ∀ e, error e (e.rename names)
  lookupCell : ∀ s x, ExceptRel error (cell · = ·) (s.cell x) ((scope s).cell (names.var x))
  lookupCallable : ∀ s f, ExceptRel error (Callable.moved names scope · = ·) (s.callable f)
    ((scope s).callable (names.function f))
  child : ∀ s, scope s.child = (scope s).child
  declareVariable : ∀ s x a, ExceptRel error (scope · = ·) (s.declareVariable x a)
    ((scope s).declareVariable (names.var x) (cell a))
  declareFunction : ∀ s d, ExceptRel error (scope · = ·) (s.declareFunction d.name (.user ⟨d, s.child⟩))
    ((scope s).declareFunction (names.function d.name) (.user ⟨d.rename names, (scope s).child⟩))
  entryScope : ∀ closure : Closure,
    scope closure.entryScope = Closure.entryScope ⟨closure.decl.rename names, scope closure.scope⟩
  read : ∀ w a, (world w).read (cell a) = w.read a
  write : ∀ w a v, (world w).write (cell a) v = world (w.write a v)
  nextCell : ∀ w, (world w).nextCell = cell w.nextCell
  add : ∀ w v, (world w).add v = world (w.add v)
  noteAll : ∀ w es, (world w).noteAll (es.map (Event.rename names)) = world (w.noteAll es)

namespace Motion

variable (M : Motion)

def frame (f : Frame) : Frame := ⟨M.scope f.scope, M.world f.world⟩

theorem params_iff {params params' : List String} :
    List.Forall₂ (M.names.var · = ·) params params' ↔ params.map M.names.var = params' := by
  rw [← List.forall₂_map_left_iff (R := Eq), List.forall₂_eq_eq_eq]

theorem callable_iff {g g' : Callable} :
    Callable.Rel (M.names.var · = ·) (M.names.function · = ·) (Block.rename M.names · = ·) (M.scope · = ·) g g' ↔
      g.moved M.names M.scope = g' := by
  constructor
  · intro h
    cases h with
    | native tool => rfl
    | user hf hparams hb hs =>
      rw [params_iff] at hparams
      subst hf hparams hb hs
      rfl
  · rintro rfl
    cases g with
    | native tool => exact .native tool
    | user closure =>
      obtain ⟨⟨f, params, b⟩, s⟩ := closure
      exact .user rfl (M.params_iff.2 rfl) rfl rfl

def correspondence : Correspondence where
  Stage := Unit
  order := PUnit.instLinearOrder.toPreorder
  var x x' := M.names.var x = x'
  function f f' := M.names.function f = f'
  error := M.error
  statement st st' := st.rename M.names = st'
  branch st st' := st.rename M.names = st'
  block b b' := Block.rename M.names b = b'
  cell _ a a' := M.cell a = a'
  scope _ s s' := M.scope s = s'
  entry _ s s' := M.scope s = s'
  error_refl := M.error_refl
  error_arity h k l := h ▸ M.error_rename (.arityMismatch _ k l)
  lookupCell hs hx := hs ▸ hx ▸ M.lookupCell _ _
  lookupCallable hs hf := hs ▸ hf ▸ (M.lookupCallable _ _).imp fun _ _ => M.callable_iff.2
  child hs := hs ▸ M.child _
  declareVariable hs hx ha := hs ▸ hx ▸ ha ▸ M.declareVariable _ _ _
  entryScope hg := Callable.user.inj (M.callable_iff.1 hg) ▸ M.entryScope _
  entry_mono _ h := h

section Primitives

variable {α : Type}

theorem carries_ofExcept {β γ σ : Type} {move : σ → σ} {E : EvalError → EvalError → Prop} {V : α → β → Prop}
    {r : Except EvalError α} {r' : Except EvalError β} {k : α → Attempt EvalError σ γ} {k' : β → Attempt EvalError σ γ}
    (hr : ExceptRel E V r r') (hk : ∀ a b, V a b → Carries E move (k a) (k' b)) :
    Carries E move (.ofExcept r >>= k) (.ofExcept r' >>= k') := by
  cases hr with
  | ok h => exact hk _ _ h
  | error h => exact ⟨fun _ => .failed h, fun _ => rfl⟩

theorem carries_read (a : Cell) : Carries M.error M.world (Exec.read a) (Exec.read (M.cell a)) := by
  apply carries_ask
  intro w
  exact M.read w a

theorem carries_write (a : Cell) (v : Value) :
    Carries M.error M.world (Exec.write a v) (Exec.write (M.cell a) v) :=
  ⟨fun _ => .done (), fun w => M.write w a v⟩

theorem carries_note (e : Event) : Carries M.error M.world (Exec.note e) (Exec.note (e.rename M.names)) :=
  ⟨fun _ => .done (), fun w => M.noteAll w [e]⟩

theorem carries_alloc {k k' : Cell → Exec α} (v : Value)
    (hk : ∀ a, Carries M.error M.world (k a) (k' (M.cell a))) :
    Carries M.error M.world (Exec.alloc v >>= k) (Exec.alloc v >>= k') := by
  have hadd : ∀ w, (Exec.alloc v >>= k') (M.world w) = k' (M.cell w.nextCell) (M.world (w.add v)) := by
    intro w
    change k' (M.world w).nextCell ((M.world w).add v) = _
    rw [M.nextCell, M.add]
  apply carries_of_each
  intro w
  rw [hadd]
  exact ⟨(hk w.nextCell).outcome (w.add v), (hk w.nextCell).state (w.add v)⟩

theorem carries_useTool (tool : Tool) (args : List Value) :
    Carries M.error M.world (Exec.useTool tool args) (Exec.useTool tool args) := by
  constructor
  · intro w
    change Outcome.Alike M.error (.ofExcept (tool.act args).2) (.ofExcept (tool.act args).2)
    cases (tool.act args).2 with
    | ok value => exact .done value
    | error e => exact .failed (M.error_refl e)
  · intro w
    -- what tools put out has no names in it
    have houtput := M.noteAll w ((tool.act args).1.map .output)
    rw [List.map_map] at houtput
    exact houtput

theorem carries_within {m m' : Scope → Exec α} (hm : ∀ s, Carries M.error M.world (m s) (m' (M.scope s))) :
    Carries M.error M.frame (Run.within m) (Run.within m') :=
  ⟨fun f => (hm f.scope).outcome f.world, fun f => congrArg (Frame.mk (M.scope f.scope)) ((hm f.scope).state f.world)⟩

theorem carries_inScope {m m' : Run α} (hm : Carries M.error M.frame m m') (s : Scope) :
    Carries M.error M.world (m.inScope s) (m'.inScope (M.scope s)) :=
  ⟨fun w => hm.outcome ⟨s, w⟩, fun w => congrArg Frame.world (hm.state ⟨s, w⟩)⟩

theorem carries_declareVariable (x : String) (v : Value) :
    Carries M.error M.frame (Run.declareVariable x v) (Run.declareVariable (M.names.var x) v) := by
  apply carries_of_each
  rintro ⟨s, w⟩
  have hscope := M.declareVariable s x w.nextCell
  unfold Run.declareVariable frame
  dsimp only
  rw [M.nextCell, M.add]
  generalize s.declareVariable x w.nextCell = r at hscope ⊢
  generalize (M.scope s).declareVariable (M.names.var x) (M.cell w.nextCell) = r' at hscope ⊢
  cases hscope with
  | ok h =>
    subst h
    exact ⟨.done (), rfl⟩
  | error h => exact ⟨.failed h, rfl⟩

theorem carries_declareFunction (d : FunctionDecl) :
    Carries M.error M.frame (Run.declareFunction d) (Run.declareFunction (d.rename M.names)) := by
  apply carries_of_each
  rintro ⟨s, w⟩
  have hscope := M.declareFunction s d
  unfold Run.declareFunction frame FunctionDecl.rename
  unfold FunctionDecl.rename at hscope
  dsimp only at hscope ⊢
  generalize s.declareFunction d.name (.user ⟨d, s.child⟩) = r at hscope ⊢
  generalize (M.scope s).declareFunction (M.names.function d.name) _ = r' at hscope ⊢
  cases hscope with
  | ok h =>
    subst h
    exact ⟨.done (), rfl⟩
  | error h => exact ⟨.failed h, rfl⟩

end Primitives

/-- Runs beside the runs of what was moved. -/
def simulation : Simulation where
  toCorrespondence := M.correspondence
  context := Eq
  exec _ := Carries M.error M.world
  run _ := Carries M.error M.frame
  body _ _ _ := Carries M.error M.frame
  pure := carries_pure
  bind := Carries.bind
  ofExcept := carries_ofExcept
  read h := h ▸ M.carries_read _
  write h v := h ▸ M.carries_write _ v
  alloc v hk := M.carries_alloc v fun a => hk () a _ (le_refl _) rfl
  useTool := M.carries_useTool
  iterations k hc hm := hc ▸ carries_ofExcept (.refl M.error_refl _) fun _ _ _ => hm
  begin hc hg hperform := by
    subst hc
    obtain rfl := Callable.user.inj (M.callable_iff.1 hg)
    apply carries_ofExcept (.refl M.error_refl _)
    rintro inner _ rfl
    exact (M.carries_note _).bind fun _ => hperform inner inner rfl
  within hm := M.carries_within fun s => hm () s _ (le_refl _) rfl
  declare hx hm := by
    subst hx
    apply (M.carries_within fun s => hm () s _ (le_refl _) rfl).bind
    intro v
    exact (M.carries_declareVariable _ v).bind fun _ => carries_pure none
  define {_ f _ params _ b _} hf hparams hb := by
    obtain rfl := M.params_iff.1 hparams
    subst hf hb
    rw [List.length_map]
    have hnote : Carries M.error M.frame (Run.note (.defining f params.length))
        (Run.note (.defining (M.names.function f) params.length)) :=
      ⟨fun _ => .done (), fun g => congrArg (Frame.mk (M.scope g.scope)) (M.noteAll g.world [.defining f params.length])⟩
    apply hnote.bind
    intro _
    exact (M.carries_declareFunction ⟨f, params, b⟩).bind fun _ => carries_pure none
  inScope hm hs := hs ▸ M.carries_inScope hm _
  bodyInScope _ hm hs := hs ▸ M.carries_inScope hm _

theorem congruent : M.simulation.Congruent M.names where
  body := Iff.rfl
  sequence := Carries.bind
  var _ := rfl
  function _ := rfl
  statement _ _ := Iff.rfl
  branch _ _ := Iff.rfl
  block _ _ := Iff.rfl

theorem along (n : Nat) : M.simulation.Along n n := M.congruent.along (M.congruent.zero carries_outOfFuel) n

section Runs

variable (n : Nat) (c : Context)

theorem carries_eval (s : Scope) (e : Expression) :
    Carries M.error M.world (Expression.eval n c s e) (Expression.eval n c (M.scope s) (e.rename M.names)) :=
  (M.along n).eval (L := ()) rfl rfl (M.congruent.alike e)

theorem carries_evalAll (s : Scope) (es : List Expression) :
    Carries M.error M.world (Expression.evalAll n c s es)
      (Expression.evalAll n c (M.scope s) (Expression.renameAll M.names es)) :=
  (M.along n).evalAll (L := ()) rfl rfl (Expression.alikeAll_rename M.congruent.var M.congruent.function es)

theorem carries_child (s : Scope) (st : Statement) :
    Carries M.error M.world (Statement.execChild n c s st)
      (Statement.execChild n c (M.scope s) (st.rename M.names)) :=
  (M.along n).child (L := ()) rfl rfl rfl

theorem carries_statement (st : Statement) :
    Carries M.error M.frame (Statement.exec n c st) (Statement.exec n c (st.rename M.names)) :=
  (M.along n).statement (L := ()) rfl rfl

theorem carries_block (b : Block) :
    Carries M.error M.frame (Block.exec n c b) (Block.exec n c (Block.rename M.names b)) :=
  (M.along n).block (L := ()) rfl rfl

end Runs

end Motion

end IntScript
