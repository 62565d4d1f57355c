import IntScript.Interpreter
import IntScript.Proofs.WorldLaws
import Mathlib.Data.List.Basic
import Mathlib.Logic.Function.Basic

set_option autoImplicit false

namespace IntScript

/-- One-to-one renamings of variables and of functions. -/
structure Renaming where
  var : String → String
  function : String → String
  var_injective : Function.Injective var
  function_injective : Function.Injective function

namespace Renaming

def identity : Renaming := ⟨id, id, Function.injective_id, Function.injective_id⟩

def name (ρ : Renaming) : NameKind → String → String
  | .var => ρ.var
  | .function => ρ.function

end Renaming

mutual

def Expression.rename (ρ : Renaming) : Expression → Expression
  | .call f args => .call (ρ.function f) (Expression.renameAll ρ args)
  | .literal v => .literal v
  | .var x => .var (ρ.var x)
  | .binary op l r => .binary op (l.rename ρ) (r.rename ρ)

def Expression.renameAll (ρ : Renaming) : List Expression → List Expression
  | [] => []
  | e :: es => e.rename ρ :: Expression.renameAll ρ es

end

mutual

def Statement.rename (ρ : Renaming) : Statement → Statement
  | .function f params b => .function (ρ.function f) (params.map ρ.var) (Block.rename ρ b)
  | .block b => .block (Block.rename ρ b)
  | .declare x none => .declare (ρ.var x) none
  | .declare x (some e) => .declare (ρ.var x) (some (e.rename ρ))
  | .evaluate e => .evaluate (e.rename ρ)
  | .loop e s => .loop (e.rename ρ) (s.rename ρ)
  | .ifThen e s => .ifThen (e.rename ρ) (s.rename ρ)
  | .ifElse e s t => .ifElse (e.rename ρ) (s.rename ρ) (t.rename ρ)
  | .assign x e => .assign (ρ.var x) (e.rename ρ)
  | .result e => .result (e.rename ρ)

def Block.rename (ρ : Renaming) : List Statement → List Statement
  | [] => []
  | st :: rest => st.rename ρ :: Block.rename ρ rest

end

mutual

@[simp] theorem Expression.rename_identity : ∀ e : Expression, e.rename .identity = e
  | .call f args => congrArg (Expression.call f) (Expression.renameAll_identity args)
  | .literal _ => rfl
  | .var _ => rfl
  | .binary op l r => congrArg₂ (Expression.binary op) l.rename_identity r.rename_identity

theorem Expression.renameAll_identity : ∀ es : List Expression, Expression.renameAll .identity es = es
  | [] => rfl
  | e :: es => congrArg₂ List.cons e.rename_identity (Expression.renameAll_identity es)

end

mutual

@[simp] theorem Statement.rename_identity : ∀ st : Statement, st.rename .identity = st
  | .function f params b => congrArg₂ (Statement.function f) (List.map_id params) (Block.rename_identity b)
  | .block b => congrArg Statement.block (Block.rename_identity b)
  | .declare _ none => rfl
  | .declare x (some e) => congrArg (fun e => Statement.declare x (some e)) e.rename_identity
  | .evaluate e => congrArg Statement.evaluate e.rename_identity
  | .loop e st => congrArg₂ Statement.loop e.rename_identity st.rename_identity
  | .ifThen e st => congrArg₂ Statement.ifThen e.rename_identity st.rename_identity
  | .ifElse e st other => by
    rw [Statement.rename, e.rename_identity, st.rename_identity, other.rename_identity]
  | .assign x e => congrArg (Statement.assign x) e.rename_identity
  | .result e => congrArg Statement.result e.rename_identity

@[simp] theorem Block.rename_identity : ∀ b : List Statement, Block.rename .identity b = b
  | [] => rfl
  | st :: rest => congrArg₂ List.cons st.rename_identity (Block.rename_identity rest)

end

theorem Statement.rename_ne_block {ρ : Renaming} {st : Statement} (h : ∀ b, st ≠ .block b) (b : Block) :
    st.rename ρ ≠ .block b := by
  intro heq
  cases st with
  | block b' => exact h b' rfl
  | declare x init => cases init <;> cases heq
  | _ => cases heq

theorem Block.length_rename (ρ : Renaming) (b : Block) : (Block.rename ρ b).length = b.length := by
  induction b with
  | nil => rfl
  | cons st rest ih => simp [Block.rename, ih]

def FunctionDecl.rename (ρ : Renaming) (d : FunctionDecl) : FunctionDecl :=
  ⟨ρ.function d.name, d.params.map ρ.var, Block.rename ρ d.body⟩

@[simp] theorem FunctionDecl.rename_identity (d : FunctionDecl) : d.rename .identity = d := by
  obtain ⟨f, params, b⟩ := d
  exact congrArg₂ (FunctionDecl.mk f) (List.map_id params) (Block.rename_identity b)

def EvalError.rename (ρ : Renaming) : EvalError → EvalError
  | .nameNotFound kind x => .nameNotFound kind (ρ.name kind x)
  | .duplicateDeclaration kind x => .duplicateDeclaration kind (ρ.name kind x)
  | .arityMismatch f expected found => .arityMismatch (ρ.function f) expected found
  | e => e

@[simp] theorem EvalError.rename_identity (e : EvalError) : e.rename .identity = e := by
  cases e with
  | nameNotFound kind x => cases kind <;> rfl
  | duplicateDeclaration kind x => cases kind <;> rfl
  | _ => rfl

def Event.rename (ρ : Renaming) : Event → Event
  | .defining f params => .defining (ρ.function f) params
  | .calling f depth => .calling (ρ.function f) depth
  | e => e

@[simp] theorem Event.rename_identity (e : Event) : e.rename .identity = e := by
  cases e <;> rfl

namespace Table

variable {α β : Type}

def rename (g : String → String) (h : α → β) (t : Table α) : Table β :=
  ⟨t.bindings.map fun p => (g p.1, h p.2), t.declared.map g⟩

variable {g : String → String} (hg : Function.Injective g) (h : α → β) (t : Table α) (x : String)

include hg

theorem lookup?_rename : (t.rename g h).lookup? (g x) = (t.lookup? x).map h := by
  change (t.bindings.map fun p => (g p.1, h p.2)).lookup (g x) = (t.bindings.lookup x).map h
  induction t.bindings with
  | nil => rfl
  | cons p rest ih =>
    obtain ⟨y, a⟩ := p
    by_cases hxy : x = y
    · simp [hxy]
    · have hne : g x ≠ g y := fun heq => hxy (hg heq)
      have hxy' : (x == y) = false := by simpa using hxy
      have hne' : (g x == g y) = false := by simpa using hne
      simp [List.lookup_cons, hxy', hne', ih]

theorem isDeclaredHere_rename : (t.rename g h).isDeclaredHere (g x) = t.isDeclaredHere x := by
  rw [Bool.eq_iff_iff]
  unfold isDeclaredHere rename
  simp [hg.eq_iff]

theorem declare?_rename (item : α) : (t.rename g h).declare? (g x) (h item) = (t.declare? x item).map (rename g h) := by
  unfold declare?
  rw [isDeclaredHere_rename hg]
  cases t.isDeclaredHere x <;> rfl

end Table

mutual

def Callable.rename (ρ : Renaming) : Callable → Callable
  | .native tool => .native tool
  | .user closure => .user (closure.rename ρ)

def Closure.rename (ρ : Renaming) : Closure → Closure
  | ⟨decl, scope⟩ => ⟨decl.rename ρ, scope.rename ρ⟩

def Scope.rename (ρ : Renaming) : Scope → Scope
  | ⟨vars, funs⟩ => ⟨vars.rename ρ.var id, Table.renameFunctions ρ funs⟩

def Table.renameFunctions (ρ : Renaming) : Table Callable → Table Callable
  | ⟨bindings, declared⟩ => ⟨Table.renameBindings ρ bindings, declared.map ρ.function⟩

def Table.renameBindings (ρ : Renaming) : List (String × Callable) → List (String × Callable)
  | [] => []
  | p :: rest => Table.renameBinding ρ p :: Table.renameBindings ρ rest

def Table.renameBinding (ρ : Renaming) : String × Callable → String × Callable
  | (f, g) => (ρ.function f, g.rename ρ)

end

theorem Table.renameFunctions_eq (ρ : Renaming) (t : Table Callable) :
    Table.renameFunctions ρ t = t.rename ρ.function (Callable.rename ρ) := by
  have hbindings : ∀ bindings, renameBindings ρ bindings = bindings.map fun p => (ρ.function p.1, p.2.rename ρ) := by
    intro bindings
    induction bindings with
    | nil => rfl
    | cons p rest ih =>
      obtain ⟨f, g⟩ := p
      exact congrArg ((ρ.function f, g.rename ρ) :: ·) ih
  obtain ⟨bindings, declared⟩ := t
  exact congrArg (Table.mk · (declared.map ρ.function)) (hbindings bindings)

def World.rename (ρ : Renaming) (w : World) : World := ⟨w.store, w.events.map (Event.rename ρ)⟩

def Frame.rename (ρ : Renaming) (f : Frame) : Frame := ⟨f.scope.rename ρ, f.world.rename ρ⟩

/-- The root scope holds tools only, and stays. -/
def Interpreter.rename (ρ : Renaming) (i : Interpreter) : Interpreter :=
  ⟨i.root, i.globals.rename ρ, i.limits, i.world.rename ρ⟩

namespace World

variable (ρ : Renaming) (w : World)

theorem noteAll_rename (es : List Event) :
    (w.noteAll es).rename ρ = (w.rename ρ).noteAll (es.map (Event.rename ρ)) := by
  rw [noteAll_eq, noteAll_eq]
  simp [rename]

theorem note_rename (e : Event) : (w.note e).rename ρ = (w.rename ρ).note (e.rename ρ) := noteAll_rename ρ w [e]

end World

namespace Scope

variable (ρ : Renaming) (s : Scope)

theorem rename_eq : s.rename ρ = ⟨s.vars.rename ρ.var id, s.funs.rename ρ.function (Callable.rename ρ)⟩ := by
  obtain ⟨vars, funs⟩ := s
  exact congrArg (Scope.mk _) (Table.renameFunctions_eq ρ funs)

theorem child_rename : (s.rename ρ).child = s.child.rename ρ := by
  rw [rename_eq, rename_eq]
  rfl

theorem user_rename (d : FunctionDecl) :
    Callable.rename ρ (.user ⟨d, s.child⟩) = .user ⟨d.rename ρ, (s.rename ρ).child⟩ := by
  rw [child_rename]
  rfl

theorem cell_rename (x : String) :
    (s.rename ρ).cell (ρ.var x) = ((s.cell x).map id).mapError (EvalError.rename ρ) := by
  unfold cell
  rw [rename_eq, Table.lookup?_rename ρ.var_injective]
  cases s.vars.lookup? x <;> rfl

theorem callable_rename (f : String) :
    (s.rename ρ).callable (ρ.function f) = ((s.callable f).map (Callable.rename ρ)).mapError (EvalError.rename ρ) := by
  unfold callable
  rw [rename_eq, Table.lookup?_rename ρ.function_injective]
  cases s.funs.lookup? f <;> rfl

theorem declareVariable_rename (x : String) (cell : Cell) :
    (s.rename ρ).declareVariable (ρ.var x) cell =
      ((s.declareVariable x cell).map (Scope.rename ρ)).mapError (EvalError.rename ρ) := by
  have hvars : (s.vars.rename ρ.var id).declare? (ρ.var x) cell =
      (s.vars.declare? x cell).map (Table.rename ρ.var id) :=
    Table.declare?_rename ρ.var_injective id s.vars x cell
  unfold declareVariable
  rw [rename_eq]
  dsimp only
  rw [hvars]
  cases s.vars.declare? x cell with
  | none => rfl
  | some vars => exact congrArg Except.ok (rename_eq ρ ⟨vars, s.funs⟩).symm

theorem declareFunction_rename (f : String) (g : Callable) :
    (s.rename ρ).declareFunction (ρ.function f) (g.rename ρ) =
      ((s.declareFunction f g).map (Scope.rename ρ)).mapError (EvalError.rename ρ) := by
  unfold declareFunction
  rw [rename_eq, Table.declare?_rename ρ.function_injective]
  cases s.funs.declare? f g with
  | none => rfl
  | some funs => exact congrArg Except.ok (rename_eq ρ ⟨s.vars, funs⟩).symm

variable {s} {t : Scope} {x f : String} {cell : Cell} {g : Callable}

theorem cell_rename_ok (h : s.cell x = .ok cell) : (s.rename ρ).cell (ρ.var x) = .ok cell := by
  rw [cell_rename, h]
  rfl

theorem callable_rename_ok (h : s.callable f = .ok g) : (s.rename ρ).callable (ρ.function f) = .ok (g.rename ρ) := by
  rw [callable_rename, h]
  rfl

theorem declareVariable_rename_ok (h : s.declareVariable x cell = .ok t) :
    (s.rename ρ).declareVariable (ρ.var x) cell = .ok (t.rename ρ) := by
  rw [declareVariable_rename, h]
  rfl

variable (s)

theorem inheritFunction_rename (f : String) (g : Callable) :
    (s.rename ρ).inheritFunction (ρ.function f) (g.rename ρ) = (s.inheritFunction f g).rename ρ := by
  rw [rename_eq, rename_eq]
  rfl

end Scope

theorem Closure.entryScope_rename (ρ : Renaming) (closure : Closure) :
    (closure.rename ρ).entryScope = closure.entryScope.rename ρ := by
  obtain ⟨decl, scope⟩ := closure
  calc Closure.entryScope ⟨decl.rename ρ, scope.rename ρ⟩
      = (scope.child.rename ρ).inheritFunction (ρ.function decl.name) (Callable.rename ρ (.user ⟨decl, scope⟩)) := by
        rw [← Scope.child_rename]
        rfl
    _ = (scope.child.inheritFunction decl.name (.user ⟨decl, scope⟩)).rename ρ :=
        Scope.inheritFunction_rename _ _ _ _

/-- A tool that programs can call. -/
def Registry.Offers (registry : Registry) (tool : Tool) : Prop := ∃ f, registry.tools.lookup? f = some tool

/-- Tools keep their names. -/
def Renaming.Fixes (ρ : Renaming) (registry : Registry) : Prop :=
  ∀ f tool, registry.tools.lookup? f = some tool → ρ.function f = f ∧ ρ.function tool.name = tool.name

theorem Registry.rootScope_rename {ρ : Renaming} {registry : Registry} (hfix : ρ.Fixes registry) :
    registry.rootScope.child.rename ρ = registry.rootScope.child := by
  have hname : ∀ p ∈ registry.tools.bindings, ρ.function p.1 = p.1 := by
    intro p hp
    cases hlookup : registry.tools.lookup? p.1 with
    | none =>
      have hne := List.lookup_eq_none_iff.1 hlookup p hp
      simp at hne
    | some tool => exact (hfix p.1 tool hlookup).1
  have hbindings : (registry.tools.bindings.map fun p => (p.1, Callable.native p.2)).map
      (fun p => (ρ.function p.1, p.2.rename ρ)) = registry.tools.bindings.map fun p => (p.1, Callable.native p.2) := by
    rw [List.map_map]
    apply List.map_congr_left
    intro p hp
    exact congrArg (·, Callable.native p.2) (hname p hp)
  rw [Scope.rename_eq]
  exact congrArg (fun bindings => Scope.mk .empty ⟨bindings, []⟩) hbindings

end IntScript
