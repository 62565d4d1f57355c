import IntScript.Proofs.Kinship

set_option autoImplicit false

namespace IntScript

namespace Table

variable {α β : Type} {R : α → β → Prop} {t : Table α} {t' : Table β}

/-- Tables that bind the same names, in the same order, to related items. -/
inductive Rel (R : α → β → Prop) : Table α → Table β → Prop
  | none (declared : List String) : Rel R ⟨[], declared⟩ ⟨[], declared⟩
  | inherit {t : Table α} {t' : Table β} (h : Rel R t t') (x : String) {a : α} {b : β} (hab : R a b) :
      Rel R (t.inherit x a) (t'.inherit x b)

theorem Rel.refl {R : α → α → Prop} (hR : ∀ a, R a a) (t : Table α) : Rel R t t := by
  obtain ⟨bindings, declared⟩ := t
  induction bindings with
  | nil => exact .none declared
  | cons p rest ih => exact ih.inherit p.1 (hR p.2)

theorem Rel.declared (h : Rel R t t') : t.declared = t'.declared := by
  induction h with
  | none => rfl
  | inherit _ _ _ ih => exact ih

theorem Rel.declaring (h : Rel R t t') (declared : List String) :
    Rel R ⟨t.bindings, declared⟩ ⟨t'.bindings, declared⟩ := by
  induction h with
  | none => exact .none declared
  | inherit _ x hab ih => exact ih.inherit x hab

theorem Rel.child (h : Rel R t t') : Rel R t.child t'.child := h.declaring []

theorem Rel.bind (h : Rel R t t') (x : String) {a : α} {b : β} (hab : R a b) : Rel R (t.bind x a) (t'.bind x b) := by
  have hnew := (h.inherit x hab).declaring (x :: t.declared)
  rw [Table.bind, Table.bind, ← h.declared]
  exact hnew

theorem Rel.lookup? (h : Rel R t t') (x : String) : Option.Rel R (t.lookup? x) (t'.lookup? x) := by
  induction h with
  | none => exact .none
  | inherit _ y hab ih =>
    rw [lookup?_inherit, lookup?_inherit]
    by_cases hx : x = y
    · rw [if_pos hx, if_pos hx]
      exact .some hab
    · rw [if_neg hx, if_neg hx]
      exact ih

theorem Rel.names (h : Rel R t t') : t.names = t'.names := by
  have hnames : t.bindings.map Prod.fst = t'.bindings.map Prod.fst := by
    induction h with
    | none => rfl
    | inherit _ x _ ih => exact congrArg (x :: ·) ih
  exact congrArg Text.sortedNames hnames

theorem Rel.entries_map {γ : Type} {f : α → γ} {g : β → γ} (h : Rel R t t') (hR : ∀ a b, R a b → f a = g b) :
    t.entries.map (fun p => (p.1, f p.2)) = t'.entries.map (fun p => (p.1, g p.2)) := by
  unfold entries
  rw [List.map_filterMap, List.map_filterMap, h.names]
  congr 1
  funext x
  have hx := h.lookup? x
  generalize t.lookup? x = r at hx ⊢
  generalize t'.lookup? x = r' at hx ⊢
  cases hx with
  | none => rfl
  | some hab => exact congrArg (fun c => some (x, c)) (hR _ _ hab)

end Table

/-- Callables that differ at most in bodies and captured scopes. -/
inductive Callable.Akin (B : Block → Block → Prop) : Callable → Callable → Prop
  | same (g : Callable) : Akin B g g
  | user {f : String} {params : List String} {b b' : Block} {vars : Table Cell} {funs funs' : Table Callable}
      (hb : B b b') (hfuns : Table.Rel (Akin B) funs funs') :
      Akin B (.user ⟨⟨f, params, b⟩, ⟨vars, funs⟩⟩) (.user ⟨⟨f, params, b'⟩, ⟨vars, funs'⟩⟩)

theorem Callable.Akin.arity {B : Block → Block → Prop} {g g' : Callable} (h : Callable.Akin B g g') :
    g.arity = g'.arity := by
  cases h with
  | same => rfl
  | user => rfl

namespace Scope

variable {B : Block → Block → Prop} {s s' : Scope} {g g' : Callable}

/-- Scopes that differ at most in the bodies of functions. -/
structure Akin (B : Block → Block → Prop) (s s' : Scope) : Prop where
  vars : s.vars = s'.vars
  funs : Table.Rel (Callable.Akin B) s.funs s'.funs

theorem Akin.refl (B : Block → Block → Prop) (s : Scope) : Akin B s s := ⟨rfl, .refl .same s.funs⟩

theorem akin_callable_iff (hB : ∀ b, B b b) : Callable.Akin B g g' ↔ Callable.Rel Eq Eq B (Akin B) g g' := by
  constructor
  · intro h
    cases h with
    | same => exact .refl hB (Akin.refl B) g
    | user hb hfuns => exact .user rfl (List.forall₂_refl _) hb ⟨rfl, hfuns⟩
  · intro h
    cases h with
    | native tool => exact .same _
    | @user f f' params params' b b' s s' hf hparams hb hs =>
      rw [List.forall₂_eq_eq_eq] at hparams
      subst hf hparams
      obtain ⟨vars, funs⟩ := s
      obtain ⟨vars', funs'⟩ := s'
      obtain rfl : vars = vars' := hs.vars
      exact .user hb hs.funs

theorem Akin.cell (h : Akin B s s') (x : String) : s.cell x = s'.cell x := by
  rw [Scope.cell, Scope.cell, h.vars]

theorem Akin.callable (hB : ∀ b, B b b) (h : Akin B s s') (f : String) :
    ExceptRel Eq (Callable.Rel Eq Eq B (Akin B)) (s.callable f) (s'.callable f) := by
  unfold Scope.callable
  have hf := h.funs.lookup? f
  generalize s.funs.lookup? f = r at hf ⊢
  generalize s'.funs.lookup? f = r' at hf ⊢
  cases hf with
  | none => exact .error rfl
  | some hg => exact .ok ((akin_callable_iff hB).1 hg)

theorem Akin.declareVariable (h : Akin B s s') (x : String) (cell : Cell) :
    ExceptRel Eq (Akin B) (s.declareVariable x cell) (s'.declareVariable x cell) := by
  rw [Scope.declareVariable, Scope.declareVariable, h.vars]
  cases s'.vars.declare? x cell with
  | none => exact .error rfl
  | some vars => exact .ok ⟨rfl, h.funs⟩

theorem Akin.declareFunction (h : Akin B s s') (hg : Callable.Akin B g g') (f : String) :
    ExceptRel Eq (Akin B) (s.declareFunction f g) (s'.declareFunction f g') := by
  unfold Scope.declareFunction Table.declare? Table.isDeclaredHere
  rw [h.funs.declared]
  cases s'.funs.declared.contains f with
  | true => exact .error rfl
  | false => exact .ok ⟨h.vars, h.funs.bind f hg⟩

end Scope

/-- Statements, branches and blocks that are related as given, in scopes whose functions have related bodies. -/
def Kinship.ofBodies (statement branch : Statement → Statement → Prop) (block : Block → Block → Prop)
    (hB : ∀ b, block b b) : Kinship where
  scope := Scope.Akin block
  statement := statement
  branch := branch
  block := block
  refl := Scope.Akin.refl block
  cell h x := h.cell x
  callable h f := h.callable hB f
  child h := ⟨congrArg Table.child h.vars, h.funs.child⟩
  declareVariable h x cell := h.declareVariable x cell
  declareFunction h hg f := h.declareFunction ((Scope.akin_callable_iff hB).2 hg) f
  inheritFunction h hg f := ⟨h.vars, h.funs.inherit f ((Scope.akin_callable_iff hB).2 hg)⟩

end IntScript
