import IntScript.Proofs.ReachableCells
import IntScript.Proofs.Simulation

set_option autoImplicit false

namespace IntScript

namespace World

/-- The worlds hold the same cells and agree on those in the set, which has all cells to come. -/
structure Agree (A : Cell → Prop) (w v : World) : Prop where
  size : w.store.size = v.store.size
  fresh : ∀ cell : Cell, w.store.size ≤ cell.index → A cell
  read : ∀ cell, A cell → w.read cell = v.read cell

/-- What two runs have done to the worlds they began in. -/
structure Moves (A : Cell → Prop) (w v w' v' : World) : Prop where
  agree : Agree A w' v'
  size : w.store.size ≤ w'.store.size
  kept : ∀ cell : Cell, cell.index < w.store.size → ¬ A cell →
    w'.read cell = w.read cell ∧ v'.read cell = v.read cell
  events : ∃ es, w'.events = w.events ++ es ∧ v'.events = v.events ++ es

variable {A : Cell → Prop} {w v w' v' w'' v'' : World}

theorem Moves.refl (h : Agree A w v) : Moves A w v w v :=
  ⟨h, Nat.le_refl _, fun _ _ _ => ⟨rfl, rfl⟩, #[], by simp, by simp⟩

theorem Moves.trans (h : Moves A w v w' v') (h' : Moves A w' v' w'' v'') : Moves A w v w'' v'' := by
  obtain ⟨es, hw, hv⟩ := h.events
  obtain ⟨es', hw', hv'⟩ := h'.events
  refine ⟨h'.agree, Nat.le_trans h.size h'.size, fun cell hlt hcell => ?_, es ++ es', ?_, ?_⟩
  · have hfirst := h.kept cell hlt hcell
    have hsecond := h'.kept cell (Nat.lt_of_lt_of_le hlt h.size) hcell
    exact ⟨hsecond.1.trans hfirst.1, hsecond.2.trans hfirst.2⟩
  · rw [hw', hw, Array.append_assoc]
  · rw [hv', hv, Array.append_assoc]

theorem Agree.add (h : Agree A w v) (x : Value) : Moves A w v (w.add x) (v.add x) := by
  refine ⟨⟨?_, fun cell hle => ?_, fun cell hcell => ?_⟩, ?_, fun cell hlt _ => ?_, #[], ?_, ?_⟩
  · rw [size_add, size_add, h.size]
  · rw [size_add] at hle
    exact h.fresh cell (by omega)
  · rw [read_add, read_add, h.size, h.read cell hcell]
  · rw [size_add]
    omega
  · have hv : cell.index < v.store.size := h.size ▸ hlt
    exact ⟨read_add_of_lt w x hlt, read_add_of_lt v x hv⟩
  · simp [World.add]
  · simp [World.add]

theorem Agree.write (h : Agree A w v) {cell : Cell} (hcell : A cell) (x : Value) :
    Moves A w v (w.write cell x) (v.write cell x) := by
  refine ⟨⟨?_, fun other hle => ?_, fun other hother => ?_⟩, ?_, fun other _ hother => ?_, #[], ?_, ?_⟩
  · rw [size_write, size_write, h.size]
  · rw [size_write] at hle
    exact h.fresh other hle
  · rw [read_write, read_write, h.size, h.read other hother]
  · exact Nat.le_of_eq (size_write w cell x).symm
  · have hne : other ≠ cell := fun heq => hother (heq ▸ hcell)
    rw [read_write, read_write, if_neg fun hc => hne hc.1, if_neg fun hc => hne hc.1]
    exact ⟨rfl, rfl⟩
  · simp [World.write]
  · simp [World.write]

theorem Agree.noteAll (h : Agree A w v) (es : List Event) : Moves A w v (w.noteAll es) (v.noteAll es) := by
  rw [noteAll_eq, noteAll_eq]
  exact ⟨⟨h.size, h.fresh, h.read⟩, Nat.le_refl _, fun _ _ _ => ⟨rfl, rfl⟩, es.toArray, rfl, rfl⟩

end World

open World

namespace Exec

variable {α β γ : Type} {A : Cell → Prop}

/-- Runs from agreeing worlds end alike. -/
def Confined (A : Cell → Prop) (m m' : Exec α) : Prop :=
  ∀ w v, Agree A w v → (m w).1 = (m' v).1 ∧ Moves A w v (m w).2 (m' v).2

theorem confined_pure (a : α) : Confined A (pure a) (pure a) := fun _ _ h => ⟨rfl, .refl h⟩

theorem confined_check (r : Except EvalError α) : Confined A (.ofExcept r) (.ofExcept r) := fun _ _ h => ⟨rfl, .refl h⟩

theorem Confined.bind {m m' : Exec α} {k k' : α → Exec β} (hm : Confined A m m')
    (hk : ∀ a, Confined A (k a) (k' a)) : Confined A (m >>= k) (m' >>= k') := by
  intro w v h
  obtain ⟨hout, hmoves⟩ := hm w v h
  rcases hw : m w with ⟨r, w'⟩
  rcases hv : m' v with ⟨r', v'⟩
  rw [hw, hv] at hout hmoves
  cases hout
  rw [Attempt.bind_apply, Attempt.bind_apply, hw, hv]
  cases r with
  | done a =>
    obtain ⟨hout', hmoves'⟩ := hk a w' v' hmoves.agree
    exact ⟨hout', hmoves.trans hmoves'⟩
  | failed e => exact ⟨rfl, hmoves⟩
  | outOfFuel => exact ⟨rfl, hmoves⟩

theorem confined_ofExcept {V : α → β → Prop} {r : Except EvalError α} {r' : Except EvalError β} {k : α → Exec γ}
    {k' : β → Exec γ} (hr : ExceptRel Eq V r r') (hk : ∀ a b, V a b → Confined A (k a) (k' b)) :
    Confined A (.ofExcept r >>= k) (.ofExcept r' >>= k') := by
  cases hr with
  | ok h => exact hk _ _ h
  | error h =>
    subst h
    exact fun _ _ h => ⟨rfl, .refl h⟩

theorem confined_read {cell : Cell} (hcell : A cell) : Confined A (read cell) (read cell) := by
  intro w v h
  refine ⟨?_, .refl h⟩
  change Outcome.done (w.read cell) = Outcome.done (v.read cell)
  rw [h.read cell hcell]

theorem confined_write {cell : Cell} (hcell : A cell) (x : Value) : Confined A (write cell x) (write cell x) :=
  fun _ _ h => ⟨rfl, h.write hcell x⟩

theorem confined_note (e : Event) : Confined A (note e) (note e) := fun _ _ h => ⟨rfl, h.noteAll [e]⟩

theorem confined_alloc {k k' : Cell → Exec α} (x : Value) (hk : ∀ cell, A cell → Confined A (k cell) (k' cell)) :
    Confined A (alloc x >>= k) (alloc x >>= k') := by
  intro w v h
  have hcell : w.nextCell = v.nextCell := congrArg Cell.mk h.size
  have hmoves := h.add x
  obtain ⟨hout, hmoves'⟩ := hk w.nextCell (h.fresh _ (Nat.le_refl _)) _ _ hmoves.agree
  have hrun : (alloc x >>= k') v = k' w.nextCell (v.add x) := by
    rw [hcell]
    rfl
  rw [hrun]
  exact ⟨hout, hmoves.trans hmoves'⟩

theorem confined_useTool (tool : Tool) (args : List Value) : Confined A (useTool tool args) (useTool tool args) :=
  fun _ _ h => ⟨rfl, h.noteAll _⟩

end Exec

namespace Run

variable {α β : Type} {A : Cell → Prop}

/-- Runs in one scope from agreeing worlds end alike, in one scope again. -/
def Confined (A : Cell → Prop) (m m' : Run α) : Prop :=
  ∀ s w v, s.Within A → Agree A w v →
    (m ⟨s, w⟩).1 = (m' ⟨s, v⟩).1 ∧ (m ⟨s, w⟩).2.scope = (m' ⟨s, v⟩).2.scope ∧
      (m ⟨s, w⟩).2.scope.Within A ∧ Moves A w v (m ⟨s, w⟩).2.world (m' ⟨s, v⟩).2.world

theorem confined_pure (a : α) : Confined A (pure a) (pure a) := fun _ _ _ hs h => ⟨rfl, rfl, hs, .refl h⟩

theorem Confined.bind {m m' : Run α} {k k' : α → Run β} (hm : Confined A m m') (hk : ∀ a, Confined A (k a) (k' a)) :
    Confined A (m >>= k) (m' >>= k') := by
  intro s w v hs h
  obtain ⟨hout, hscope, hwithin, hmoves⟩ := hm s w v hs h
  rcases hw : m ⟨s, w⟩ with ⟨r, ⟨t, w'⟩⟩
  rcases hv : m' ⟨s, v⟩ with ⟨r', ⟨t', v'⟩⟩
  rw [hw, hv] at hout hscope hmoves
  rw [hw] at hwithin
  cases hout
  cases hscope
  rw [Attempt.bind_apply, Attempt.bind_apply, hw, hv]
  cases r with
  | done a =>
    obtain ⟨hout', hscope', hwithin', hmoves'⟩ := hk a t w' v' hwithin hmoves.agree
    exact ⟨hout', hscope', hwithin', hmoves.trans hmoves'⟩
  | failed e => exact ⟨rfl, rfl, hwithin, hmoves⟩
  | outOfFuel => exact ⟨rfl, rfl, hwithin, hmoves⟩

theorem confined_within {m m' : Scope → Exec α} (hm : ∀ s, s.Within A → Exec.Confined A (m s) (m' s)) :
    Confined A (within m) (within m') := by
  intro s w v hs h
  obtain ⟨hout, hmoves⟩ := hm s hs w v h
  exact ⟨hout, rfl, hs, hmoves⟩

theorem Confined.inScope {m m' : Run α} {s : Scope} (hm : Confined A m m') (hs : s.Within A) :
    Exec.Confined A (m.inScope s) (m'.inScope s) := by
  intro w v h
  obtain ⟨hout, -, -, hmoves⟩ := hm s w v hs h
  exact ⟨hout, hmoves⟩

theorem confined_note (e : Event) : Confined A (note e) (note e) :=
  fun _ _ _ hs h => ⟨rfl, rfl, hs, h.noteAll [e]⟩

theorem confined_declareVariable (x : String) (value : Value) :
    Confined A (declareVariable x value) (declareVariable x value) := by
  intro s w v hs h
  -- stores of one size have one next cell, so the runs go on in one scope
  have hcell : w.nextCell = v.nextCell := congrArg Cell.mk h.size
  unfold declareVariable
  dsimp only
  rw [← hcell]
  cases ht : s.declareVariable x w.nextCell with
  | ok t => exact ⟨rfl, rfl, hs.declareVariable (h.fresh _ (Nat.le_refl _)) ht, h.add value⟩
  | error e => exact ⟨rfl, rfl, hs, .refl h⟩

theorem confined_declareFunction (d : FunctionDecl) : Confined A (declareFunction d) (declareFunction d) := by
  intro s w v hs h
  unfold declareFunction
  dsimp only
  have hclosure : Callable.Within A (.user ⟨d, s.child⟩) := hs.child
  cases ht : s.declareFunction d.name (.user ⟨d, s.child⟩) with
  | ok t => exact ⟨rfl, rfl, hs.declareFunction hclosure ht, .refl h⟩
  | error e => exact ⟨rfl, rfl, hs, .refl h⟩

end Run

def Scope.Held (A : Cell → Prop) (s s' : Scope) : Prop := s = s' ∧ s.Within A

section Held

variable {A : Cell → Prop} {s s' : Scope}

theorem Scope.Held.cell (h : Scope.Held A s s') (x : String) :
    ExceptRel Eq (fun a b => a = b ∧ A a) (s.cell x) (s'.cell x) := by
  obtain ⟨rfl, hs⟩ := h
  cases hx : s.cell x with
  | ok cell => exact .ok ⟨rfl, hs.cell hx⟩
  | error e => exact .error rfl

theorem Callable.held {g : Callable} (hg : g.Within A) : Callable.Rel Eq Eq Eq (Scope.Held A) g g := by
  rcases g with tool | ⟨⟨f, params, b⟩, t⟩
  · exact .native tool
  · exact .user rfl (List.forall₂_refl params) rfl ⟨rfl, hg⟩

theorem Scope.Held.callable (h : Scope.Held A s s') (f : String) :
    ExceptRel Eq (Callable.Rel Eq Eq Eq (Scope.Held A)) (s.callable f) (s'.callable f) := by
  obtain ⟨rfl, hs⟩ := h
  cases hf : s.callable f with
  | error e => exact .error rfl
  | ok g => exact .ok (Callable.held (hs.callable hf))

theorem Scope.Held.declareVariable (h : Scope.Held A s s') (x : String) {a : Cell} (ha : A a) :
    ExceptRel Eq (Scope.Held A) (s.declareVariable x a) (s'.declareVariable x a) := by
  obtain ⟨rfl, hs⟩ := h
  cases ht : s.declareVariable x a with
  | ok t => exact .ok ⟨rfl, hs.declareVariable ha ht⟩
  | error e => exact .error rfl

theorem Closure.held {closure closure' : Closure}
    (h : Callable.Rel Eq Eq Eq (Scope.Held A) (.user closure) (.user closure')) :
    closure = closure' ∧ closure.scope.Within A := by
  obtain ⟨decl, scope⟩ := closure
  obtain ⟨decl', scope'⟩ := closure'
  obtain ⟨hdecl, hscope, hs⟩ := h.user_eq
  dsimp only at hdecl hscope hs
  subst hdecl hscope
  exact ⟨rfl, hs⟩

end Held

/-- Two runs of one program, from worlds that agree on the set. -/
def Simulation.confinement (A : Cell → Prop) : Simulation where
  Stage := Unit
  order := PUnit.instLinearOrder.toPreorder
  var := Eq
  function := Eq
  error := Eq
  statement := Eq
  branch := Eq
  block := Eq
  cell _ a b := a = b ∧ A a
  scope _ := Scope.Held A
  entry _ := Scope.Held A
  context := Eq
  exec _ := Exec.Confined A
  run _ := Run.Confined A
  body _ _ _ := Run.Confined A
  error_refl := Eq.refl
  error_arity := EvalError.arityMismatch_congr
  lookupCell hs hx := hx ▸ hs.cell _
  lookupCallable hs hf := hf ▸ hs.callable _
  child hs := ⟨congrArg Scope.child hs.1, hs.2.child⟩
  declareVariable hs hx ha := by
    obtain ⟨rfl, ha⟩ := ha
    exact hx ▸ hs.declareVariable _ ha
  entryScope hg := by
    obtain ⟨rfl, hs⟩ := Closure.held hg
    exact ⟨rfl, hs.entryScope⟩
  entry_mono _ h := h
  pure := Exec.confined_pure
  bind := Exec.Confined.bind
  ofExcept := Exec.confined_ofExcept
  read := by
    rintro _ _ _ ⟨rfl, ha⟩
    exact Exec.confined_read ha
  write := by
    rintro _ _ _ ⟨rfl, ha⟩ v
    exact Exec.confined_write ha v
  alloc v hk := Exec.confined_alloc v fun cell hcell => hk () cell cell (le_refl _) ⟨rfl, hcell⟩
  useTool := Exec.confined_useTool
  iterations k hc hm := hc ▸ (Exec.confined_check _).bind fun _ => hm
  begin hc hg hperform := by
    obtain ⟨rfl, -⟩ := Closure.held hg
    subst hc
    apply (Exec.confined_check _).bind
    intro inner
    exact (Exec.confined_note _).bind fun _ => hperform inner inner rfl
  within hm := Run.confined_within fun s hs => hm () s s (le_refl _) ⟨rfl, hs⟩
  declare hx hm := by
    subst hx
    apply (Run.confined_within fun s hs => hm () s s (le_refl _) ⟨rfl, hs⟩).bind
    intro v
    exact (Run.confined_declareVariable _ v).bind fun _ => Run.confined_pure none
  define hf hparams hb := by
    rw [List.forall₂_eq_eq_eq] at hparams
    subst hf hparams hb
    exact (Run.confined_note _).bind fun _ => (Run.confined_declareFunction _).bind fun _ => Run.confined_pure none
  inScope hm hs := hs.1 ▸ hm.inScope hs.2
  bodyInScope _ hm hs := hs.1 ▸ hm.inScope hs.2

theorem Simulation.confinement_along (A : Cell → Prop) (n : Nat) : (confinement A).Along n n := by
  have hcongruent : (confinement A).Congruent .identity := .of_eq ⟨Iff.rfl, Run.Confined.bind⟩ rfl rfl rfl rfl rfl
  exact hcongruent.along (hcongruent.zero fun _ _ h => ⟨rfl, .refl h⟩) n

structure Confines (A : Cell → Prop) (n : Nat) : Prop where
  eval : ∀ c s e, s.Within A → Exec.Confined A (Expression.eval n c s e) (Expression.eval n c s e)
  evalAll : ∀ c s es, s.Within A → Exec.Confined A (Expression.evalAll n c s es) (Expression.evalAll n c s es)
  invoke : ∀ c g args, g.Within A → Exec.Confined A (Callable.invoke n c g args) (Callable.invoke n c g args)
  statement : ∀ c st, Run.Confined A (Statement.exec n c st) (Statement.exec n c st)
  block : ∀ c b, Run.Confined A (Block.exec n c b) (Block.exec n c b)
  child : ∀ c s st, s.Within A → Exec.Confined A (Statement.execChild n c s st) (Statement.execChild n c s st)
  iterate : ∀ c s e st k, s.Within A →
    Exec.Confined A (Statement.iterate n c s e st k) (Statement.iterate n c s e st k)

theorem Confines.all (A : Cell → Prop) (n : Nat) : Confines A n := by
  have h := Simulation.confinement_along A n
  exact {
    eval := fun c s e hs => h.eval (L := ()) rfl ⟨rfl, hs⟩ (.refl e)
    evalAll := fun c s es hs => h.evalAll (L := ()) rfl ⟨rfl, hs⟩ (.refl es)
    invoke := fun c g args hg => h.invoke (L := ()) args rfl (Callable.held hg)
    statement := fun c st => h.statement (L := ()) rfl rfl
    block := fun c b => h.block (L := ()) rfl rfl
    child := fun c s st hs => h.child (L := ()) rfl ⟨rfl, hs⟩ rfl
    iterate := fun c s e st k hs => h.iterate (L := ()) k rfl ⟨rfl, hs⟩ (.refl e) rfl }

inductive Job where
  | expression (s : Scope) (e : Expression)
  | statement (s : Scope) (st : Statement)
  | block (s : Scope) (b : Block)
  | call (closure : Closure) (args : List Value)

namespace Job

/-- The scope that a job runs over: that of a call is what its closure captured. -/
def scope : Job → Scope
  | .expression s _ => s
  | .statement s _ => s
  | .block s _ => s
  | .call closure _ => closure.scope

def run (n : Nat) (c : Context) (w : World) : Job → Outcome EvalError Signal × Frame
  | .expression s e =>
    match Expression.eval n c s e w with
    | (r, w') => (r.map some, ⟨s, w'⟩)
  | .statement s st => Statement.exec n c st ⟨s, w⟩
  | .block s b => Block.exec n c b ⟨s, w⟩
  | .call closure args =>
    match Callable.invoke n c (.user closure) args w with
    | (r, w') => (r.map some, ⟨closure.scope, w'⟩)

/-- The runs of a job from two worlds. No cell that the scope does not reach matters to them or is changed. -/
structure Alike (job : Job) (n : Nat) (c : Context) (w v : World) : Prop where
  outcome : (job.run n c w).1 = (job.run n c v).1
  scope : (job.run n c w).2.scope = (job.run n c v).2.scope
  events : ∃ es, (job.run n c w).2.world.events = w.events ++ es ∧ (job.run n c v).2.world.events = v.events ++ es
  size : (job.run n c w).2.world.store.size = (job.run n c v).2.world.store.size
  read : ∀ cell, job.scope.Reaches cell ∨ (job.run n c w).2.scope.Reaches cell →
    (job.run n c w).2.world.read cell = (job.run n c v).2.world.read cell
  kept : ∀ cell : Cell, cell.index < w.store.size → ¬ job.scope.Reaches cell →
    (job.run n c w).2.world.read cell = w.read cell ∧ (job.run n c v).2.world.read cell = v.read cell

/-- The cells that a job may touch: those that its scope reaches, and those that are still to come. -/
def Touchable (job : Job) (w : World) (cell : Cell) : Prop :=
  job.scope.Reaches cell ∨ w.store.size ≤ cell.index

theorem run_confined (A : Cell → Prop) (job : Job) (hscope : job.scope.Within A) (n : Nat) (c : Context)
    {w v : World} (h : Agree A w v) :
    (job.run n c w).1 = (job.run n c v).1 ∧ (job.run n c w).2.scope = (job.run n c v).2.scope ∧
      (job.run n c w).2.scope.Within A ∧ Moves A w v (job.run n c w).2.world (job.run n c v).2.world := by
  have hall := Confines.all A n
  cases job with
  | expression s e =>
    obtain ⟨hout, hmoves⟩ := hall.eval c s e hscope w v h
    exact ⟨congrArg (Outcome.map some) hout, rfl, hscope, hmoves⟩
  | statement s st => exact hall.statement c st s w v hscope h
  | block s b => exact hall.block c b s w v hscope h
  | call closure args =>
    obtain ⟨hout, hmoves⟩ := hall.invoke c (.user closure) args hscope w v h
    exact ⟨congrArg (Outcome.map some) hout, rfl, hscope, hmoves⟩

theorem agree_touchable (job : Job) {w v : World} (hsize : w.store.size = v.store.size)
    (hread : ∀ cell, job.scope.Reaches cell → w.read cell = v.read cell) : Agree (job.Touchable w) w v := by
  refine ⟨hsize, fun cell hle => .inr hle, fun cell hcell => ?_⟩
  rcases hcell with hcell | hle
  · exact hread cell hcell
  · -- Behind the end of both stores every cell reads as zero.
    unfold World.read
    rw [Array.getElem?_eq_none_iff.2 hle, Array.getElem?_eq_none_iff.2 (hsize ▸ hle)]

end Job

/-- From worlds that hold the same cells and agree on the reachable ones, two runs are alike; so a call leaves alone
every variable of its caller that its closure does not reach. What tools do depends on neither world, as `Tool`
assumes. -/
theorem evaluation_touches_reachable (job : Job) (n : Nat) (c : Context) {w v : World}
    (hsize : w.store.size = v.store.size) (hread : ∀ cell, job.scope.Reaches cell → w.read cell = v.read cell) :
    job.Alike n c w v ∧
      ∀ closure args, job = .call closure args → ∀ (caller : Scope) (x : String) (cell : Cell),
        caller.cell x = .ok cell → cell.index < w.store.size → ¬ closure.scope.Reaches cell →
          (Callable.invoke n c (.user closure) args w).2.read cell = w.read cell := by
  have hagree := job.agree_touchable hsize hread
  have hscope : job.scope.Within (job.Touchable w) := fun _ h => .inl h
  obtain ⟨hout, hsame, hwithin, hmoves⟩ := job.run_confined _ hscope n c hagree
  have hkept : ∀ cell : Cell, cell.index < w.store.size → ¬ job.scope.Reaches cell → ¬ job.Touchable w cell := by
    rintro cell hlt hcell (h | h)
    · exact hcell h
    · omega
  refine ⟨⟨hout, hsame, hmoves.events, hmoves.agree.size, ?_, ?_⟩, ?_⟩
  · rintro cell (h | h)
    · exact hmoves.agree.read cell (hscope cell h)
    · exact hmoves.agree.read cell (hwithin cell h)
  · intro cell hlt hcell
    exact hmoves.kept cell hlt (hkept cell hlt hcell)
  · rintro closure args rfl caller x cell - hlt hcell
    exact (hmoves.kept cell hlt (hkept cell hlt hcell)).1

def counter : Closure :=
  ⟨⟨"next", [], [.assign "x" (.binary .add (.var "x") (.literal 1)), .result (.var "x")]⟩,
    ⟨⟨[("x", ⟨1⟩)], []⟩, .empty⟩⟩

theorem counter_reaches {cell : Cell} (h : counter.scope.Reaches cell) : cell = ⟨1⟩ := by
  cases h with
  | @bound _ x _ hx =>
    change List.lookup x [("x", Cell.mk 1)] = some cell at hx
    rw [List.lookup_cons] at hx
    split at hx
    · exact (Option.some.inj hx).symm
    · cases hx
  | captured hf => cases hf

theorem counter_touches_reachable :
    (∀ cell, counter.scope.Reaches cell → World.read ⟨#[5, 1], #[]⟩ cell = World.read ⟨#[9, 1], #[]⟩ cell) ∧
      Job.Alike (.call counter []) 9 (.top .unlimited) ⟨#[5, 1], #[]⟩ ⟨#[9, 1], #[]⟩ ∧
      (Callable.invoke 9 (.top .unlimited) (.user counter) [] ⟨#[5, 1], #[]⟩).2.read ⟨0⟩ = 5 := by
  have hread : ∀ cell, counter.scope.Reaches cell →
      World.read ⟨#[5, 1], #[]⟩ cell = World.read ⟨#[9, 1], #[]⟩ cell := by
    intro cell h
    rw [counter_reaches h]
    rfl
  have hsize : (World.mk #[5, 1] #[]).store.size = (World.mk #[9, 1] #[]).store.size := rfl
  have h := evaluation_touches_reachable (.call counter []) 9 (.top .unlimited) hsize hread
  refine ⟨hread, h.1, ?_⟩
  exact h.2 counter [] rfl ⟨⟨[("y", ⟨0⟩)], []⟩, .empty⟩ "y" ⟨0⟩ rfl (by decide) fun hc => by
    cases counter_reaches hc

end IntScript
