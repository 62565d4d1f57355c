import IntScript.Proofs.CutShort
import IntScript.Proofs.LimitLaws

set_option autoImplicit false

namespace IntScript

open Attempt

/-- A way in which scopes and programs may differ. No look-up, and no declaration made on both sides, tells two such
scopes apart. -/
structure Kinship where
  scope : Scope → Scope → Prop
  statement : Statement → Statement → Prop
  branch : Statement → Statement → Prop
  block : Block → Block → Prop
  refl : ∀ s, scope s s
  cell : ∀ {s s'}, scope s s' → ∀ x, s.cell x = s'.cell x
  callable : ∀ {s s'}, scope s s' → ∀ f,
    ExceptRel Eq (Callable.Rel Eq Eq block scope) (s.callable f) (s'.callable f)
  child : ∀ {s s'}, scope s s' → scope s.child s'.child
  declareVariable : ∀ {s s'}, scope s s' → ∀ x cell,
    ExceptRel Eq scope (s.declareVariable x cell) (s'.declareVariable x cell)
  declareFunction : ∀ {s s' g g'}, scope s s' → Callable.Rel Eq Eq block scope g g' → ∀ f,
    ExceptRel Eq scope (s.declareFunction f g) (s'.declareFunction f g')
  inheritFunction : ∀ {s s' g g'}, scope s s' → Callable.Rel Eq Eq block scope g g' → ∀ f,
    scope (s.inheritFunction f g) (s'.inheritFunction f g')

namespace Kinship

variable (K : Kinship) {T : EvalError → Prop} {l l' : Limits}

theorem entryScope {closure closure' : Closure}
    (h : Callable.Rel Eq Eq K.block K.scope (.user closure) (.user closure')) :
    closure.decl.name = closure'.decl.name ∧ K.scope closure.entryScope closure'.entryScope := by
  have hg := h
  cases h with
  | user hf _ _ hs =>
    subst hf
    exact ⟨rfl, K.inheritFunction (K.child hs) hg _⟩

theorem cutShort_define {f : String} {params : List String} {b b' : Block} (hb : K.block b b') :
    Run.CutShort T K.scope
      (do Run.note (.defining f params.length); Run.declareFunction ⟨f, params, b⟩; return none : Run Signal)
      (do Run.note (.defining f params.length); Run.declareFunction ⟨f, params, b'⟩; return none : Run Signal) := by
  apply (Run.cutShort_note _).bind
  intro _
  apply CutShort.bind (Run.cutShort_declareFunction _) fun _ => cutShort_pure none
  intro s s' hs
  exact K.declareFunction hs (.user rfl (List.forall₂_refl params) hb (K.child hs)) f

def correspondence : Correspondence where
  Stage := Unit
  order := PUnit.instLinearOrder.toPreorder
  var := Eq
  function := Eq
  error := Eq
  statement := K.statement
  branch := K.branch
  block := K.block
  cell _ := Eq
  scope _ := K.scope
  entry _ := K.scope
  error_refl := Eq.refl
  error_arity := EvalError.arityMismatch_congr
  lookupCell hs hx := hx ▸ K.cell hs _ ▸ .refl (fun _ => rfl) _
  lookupCallable hs hf := hf ▸ K.callable hs _
  child := K.child
  declareVariable hs hx ha := hx ▸ ha ▸ K.declareVariable hs _ _
  entryScope hg := (K.entryScope hg).2
  entry_mono _ h := h

/-- Runs with the first limits, which may stop them, beside runs with the second. -/
def simulation (hl : l.Eases T l') : Simulation where
  toCorrespondence := K.correspondence
  context c c' := ∃ d, c = ⟨l, d⟩ ∧ c' = ⟨l', d⟩
  exec _ := Exec.CutShort T
  run _ := Run.CutShort T K.scope
  body _ _ _ := Run.CutShort T K.scope
  pure := cutShort_pure
  bind := CutShort.bind
  ofExcept := cutShort_ofExcept
  read h := h ▸ .refl fun _ => List.prefix_refl _
  write h _ := h ▸ .refl fun _ => List.prefix_refl _
  alloc v hk := by
    have halloc : Exec.CutShort T (Exec.alloc v) (Exec.alloc v) := .refl fun _ => List.prefix_refl _
    exact halloc.bind fun cell => hk () cell cell (le_refl _) rfl
  useTool tool args := .refl (Exec.grows_useTool tool args)
  iterations k hc hm := by
    obtain ⟨d, rfl, rfl⟩ := hc
    exact cutShort_check (fun _ _ h => congrArg (fun w : World => w.events.toList) h) (hl.iterations k) hm
  begin hc hg hperform := by
    obtain ⟨d, rfl, rfl⟩ := hc
    rw [Closure.begin, Closure.begin, ← (K.entryScope hg).1, Context.enter_bind, Context.enter_bind]
    apply cutShort_check (fun _ _ h => congrArg (fun w : World => w.events.toList) h) (hl.depth (d + 1))
    exact (Exec.CutShort.refl (Exec.grows_note _)).bind fun _ => hperform _ _ ⟨d + 1, rfl, rfl⟩
  within hm := Run.cutShort_within K.refl fun s s' hs => hm () s s' (le_refl _) hs
  declare hx hm := by
    subst hx
    apply (Run.cutShort_within K.refl fun s s' hs => hm () s s' (le_refl _) hs).bind
    intro v
    exact CutShort.bind (Run.cutShort_declareVariable fun _ _ cell hs => K.declareVariable hs _ cell)
      fun _ => cutShort_pure none
  define hf hparams hb := by
    change List.Forall₂ Eq _ _ at hparams
    rw [List.forall₂_eq_eq_eq] at hparams
    subst hf hparams
    exact K.cutShort_define hb
  inScope hm hs := hm.inScope hs
  bodyInScope _ hm hs := hm.inScope hs

theorem sequential (hl : l.Eases T l') : (K.simulation hl).Sequential := ⟨Iff.rfl, CutShort.bind⟩

theorem along_zero (hl : l.Eases T l') (n' : Nat) : (K.simulation hl).Along 0 n' :=
  Simulation.along_zero Exec.cutShort_outOfFuel Run.cutShort_outOfFuel Run.cutShort_outOfFuel n'

/-- Runs with the same limits, of which the first is cut short only for want of fuel. -/
abbrev Along (l : Limits) (n n' : Nat) : Prop := (K.simulation (.refl (fun _ => False) l)).Along n n'

end Kinship

def Kinship.same : Kinship where
  scope := Eq
  statement := Eq
  branch := Eq
  block := Eq
  refl _ := rfl
  cell h x := h ▸ rfl
  callable {s s'} h f := by
    subst h
    cases s.callable f with
    | error e => exact .error rfl
    | ok g => exact .ok (.refl (fun _ => rfl) (fun _ => rfl) g)
  child h := h ▸ rfl
  declareVariable h x cell := h ▸ .refl (fun _ => rfl) _
  declareFunction h hg f := h ▸ hg.eq ▸ .refl (fun _ => rfl) _
  inheritFunction h hg f := h ▸ hg.eq ▸ rfl

end IntScript
