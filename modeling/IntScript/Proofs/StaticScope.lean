import IntScript.Interpreter
import IntScript.Proofs.ScopeLaws
import Mathlib.Data.Finset.Insert

set_option autoImplicit false

namespace IntScript

/-- What a call can see of a function: the name it reports and the number of arguments it requires, if any. -/
structure Signature where
  name : String
  arity : Option Nat
  deriving DecidableEq, Repr

def Tool.signature (tool : Tool) : Signature := ⟨tool.name, tool.arity⟩

def Callable.signature (f : Callable) : Signature := ⟨f.name, f.arity⟩

structure StaticScope where
  vars : Finset String
  varsHere : Finset String
  funs : String → Option Signature
  funsHere : Finset String

namespace StaticScope

def ofRegistry (r : Registry) : StaticScope :=
  ⟨∅, ∅, fun f => (r.tools.lookup? f).map Tool.signature, ∅⟩

def inner (E : StaticScope) : StaticScope := ⟨E.vars, ∅, E.funs, ∅⟩

def declareVariable (E : StaticScope) (x : String) : StaticScope :=
  ⟨insert x E.vars, insert x E.varsHere, E.funs, E.funsHere⟩

def bindFunction (E : StaticScope) (f : String) (arity : Nat) : StaticScope :=
  ⟨E.vars, E.varsHere, fun g => if g = f then some ⟨f, some arity⟩ else E.funs g, E.funsHere⟩

def declareFunction (E : StaticScope) (f : String) (arity : Nat) : StaticScope :=
  ⟨E.vars, E.varsHere, (E.bindFunction f arity).funs, insert f E.funsHere⟩

/-- What a statement adds for the statements behind it. -/
def after (E : StaticScope) : Statement → StaticScope
  | .declare x _ => E.declareVariable x
  | .function f params _ => E.declareFunction f params.length
  | _ => E

def afterAll (E : StaticScope) (b : Block) : StaticScope := b.foldl after E

/-- A function sees what was visible before its definition, and itself. -/
def entry (E : StaticScope) (f : String) (arity : Nat) : StaticScope := E.inner.bindFunction f arity

def declareAll (E : StaticScope) (xs : List String) : StaticScope := xs.foldl declareVariable E

def body (E : StaticScope) (f : String) (params : List String) : StaticScope :=
  (E.entry f params.length).declareAll params

end StaticScope

inductive Node where
  | program (b : Block)
  | statement (s : Statement)
  | expression (e : Expression)

abbrev Place := List Nat

structure Point where
  scope : StaticScope
  node : Node

namespace Point

def statementAt (E : StaticScope) (b : Block) (i : Nat) : Option Point :=
  b[i]?.map fun s => ⟨E.afterAll (b.take i), .statement s⟩

/-- The statements inside a point, with the static scope at their beginning. -/
def block? : Point → Option (StaticScope × Block)
  | ⟨E, .program b⟩ => some (E, b)
  | ⟨E, .statement (.function f params b)⟩ => some (E.body f params, b)
  | ⟨E, .statement (.block b)⟩ => some (E.inner, b)
  | _ => none

/-- The parts of what stands at a point, each with its own static scope. -/
def part : Point → Nat → Option Point
  | ⟨E, .program b⟩, i => statementAt E b i
  | ⟨E, .statement (.function f params b)⟩, i => statementAt (E.body f params) b i
  | ⟨E, .statement (.block b)⟩, i => statementAt E.inner b i
  | ⟨E, .statement (.declare _ (some e))⟩, 0 => some ⟨E, .expression e⟩
  | ⟨E, .statement (.evaluate e)⟩, 0 => some ⟨E, .expression e⟩
  | ⟨E, .statement (.loop c _)⟩, 0 => some ⟨E, .expression c⟩
  | ⟨E, .statement (.loop _ s)⟩, 1 => some ⟨E.inner, .statement s⟩
  | ⟨E, .statement (.ifThen c _)⟩, 0 => some ⟨E, .expression c⟩
  | ⟨E, .statement (.ifThen _ s)⟩, 1 => some ⟨E.inner, .statement s⟩
  | ⟨E, .statement (.ifElse c _ _)⟩, 0 => some ⟨E, .expression c⟩
  | ⟨E, .statement (.ifElse _ s _)⟩, 1 => some ⟨E.inner, .statement s⟩
  | ⟨E, .statement (.ifElse _ _ t)⟩, 2 => some ⟨E.inner, .statement t⟩
  | ⟨E, .statement (.assign _ e)⟩, 0 => some ⟨E, .expression e⟩
  | ⟨E, .statement (.result e)⟩, 0 => some ⟨E, .expression e⟩
  | ⟨E, .expression (.call _ args)⟩, i => args[i]?.map fun e => ⟨E, .expression e⟩
  | ⟨E, .expression (.binary _ l _)⟩, 0 => some ⟨E, .expression l⟩
  | ⟨E, .expression (.binary _ _ r)⟩, 1 => some ⟨E, .expression r⟩
  | _, _ => none

def at? (start : Point) : Place → Option Point
  | [] => some start
  | i :: p => (start.at? p).bind fun point => point.part i

def ofProgram (r : Registry) (program : Block) : Point := ⟨.ofRegistry r, .program program⟩

theorem part_of_block? {point : Point} {E : StaticScope} {b : Block} (h : point.block? = some (E, b)) (i : Nat) :
    point.part i = statementAt E b i := by
  unfold block? at h
  split at h <;> cases h <;> rfl

theorem at?_cons {start point : Point} {p : Place} (h : start.at? p = some point) (i : Nat) :
    start.at? (i :: p) = point.part i := by
  rw [at?, h]
  rfl

end Point

/-- The tables of a scope show exactly the names of a static scope. -/
structure Scope.Matches (s : Scope) (E : StaticScope) : Prop where
  vars : ∀ x, s.vars.contains x = true ↔ x ∈ E.vars
  varsHere : ∀ x, s.vars.isDeclaredHere x = true ↔ x ∈ E.varsHere
  funs : ∀ f, (s.funs.lookup? f).map Callable.signature = E.funs f
  funsHere : ∀ f, s.funs.isDeclaredHere f = true ↔ f ∈ E.funsHere

namespace Scope.Matches

variable {s : Scope} {E : StaticScope}

theorem child (h : s.Matches E) : s.child.Matches E.inner where
  vars := h.vars
  varsHere x := by simp [Scope.child, StaticScope.inner]
  funs := h.funs
  funsHere f := by simp [Scope.child, StaticScope.inner]

theorem bindVariable (h : s.Matches E) (x : String) (cell : Cell) :
    Scope.Matches ⟨s.vars.bind x cell, s.funs⟩ (E.declareVariable x) where
  vars y := by
    have hy := h.vars y
    unfold Table.contains at hy ⊢
    rw [Table.lookup?_bind]
    by_cases hxy : y = x
    · simp [StaticScope.declareVariable, hxy]
    · simp only [hxy, if_false, StaticScope.declareVariable, Finset.mem_insert, false_or]
      exact hy
  varsHere y := by
    have hy := h.varsHere y
    rw [Table.isDeclaredHere_bind]
    simp [StaticScope.declareVariable, hy]
  funs := h.funs
  funsHere := h.funsHere

theorem lookup?_bindFunction (h : s.Matches E) (f g : String) {item : Callable} {arity : Nat}
    (hitem : item.signature = ⟨f, some arity⟩) :
    (if g = f then some item else s.funs.lookup? g).map Callable.signature = (E.bindFunction f arity).funs g := by
  by_cases hfg : g = f
  · simp [StaticScope.bindFunction, hfg, hitem]
  · simp only [hfg, if_false, StaticScope.bindFunction]
    exact h.funs g

theorem inheritFunction (h : s.Matches E) {f : String} {item : Callable} {arity : Nat}
    (hitem : item.signature = ⟨f, some arity⟩) :
    (s.inheritFunction f item).Matches (E.bindFunction f arity) where
  vars := h.vars
  varsHere := h.varsHere
  funs g := by
    have hg := h.lookup?_bindFunction f g hitem
    rw [Scope.inheritFunction, Table.lookup?_inherit]
    exact hg
  funsHere := h.funsHere

theorem bindFunction (h : s.Matches E) {f : String} {item : Callable} {arity : Nat}
    (hitem : item.signature = ⟨f, some arity⟩) :
    Scope.Matches ⟨s.vars, s.funs.bind f item⟩ (E.declareFunction f arity) where
  vars := h.vars
  varsHere := h.varsHere
  funs g := by
    have hg := h.lookup?_bindFunction f g hitem
    rw [Table.lookup?_bind]
    exact hg
  funsHere g := by
    have hg := h.funsHere g
    rw [Table.isDeclaredHere_bind]
    simp [StaticScope.declareFunction, hg]

end Scope.Matches

theorem Registry.rootScope_matches (r : Registry) : r.rootScope.child.Matches (.ofRegistry r) where
  vars x := by simp [Registry.rootScope, Scope.child, Scope.ofFunctions, StaticScope.ofRegistry, Table.contains]
  varsHere x := by simp [Scope.child, StaticScope.ofRegistry]
  funs f := by
    change ((r.tools.map .native).lookup? f).map Callable.signature = (r.tools.lookup? f).map Tool.signature
    rw [Table.lookup?_map, Option.map_map]
    rfl
  funsHere f := by simp [Scope.child, StaticScope.ofRegistry]

end IntScript
