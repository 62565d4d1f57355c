import IntScript.Proofs.ScopeLaws
import IntScript.Proofs.WorldLaws

set_option autoImplicit false

namespace IntScript

inductive Scope.Reaches : Scope → Cell → Prop
  | bound {s : Scope} {x : String} {cell : Cell} (hx : s.vars.lookup? x = some cell) : Reaches s cell
  | captured {s : Scope} {f : String} {closure : Closure} {cell : Cell}
      (hf : s.funs.lookup? f = some (.user closure)) (hc : Reaches closure.scope cell) : Reaches s cell

/-- Every cell that the scope reaches is in the set. -/
def Scope.Within (A : Cell → Prop) (s : Scope) : Prop := ∀ cell, s.Reaches cell → A cell

def Callable.Within (A : Cell → Prop) : Callable → Prop
  | .native _ => True
  | .user closure => closure.scope.Within A

theorem Scope.within_true (s : Scope) : s.Within fun _ => True := fun _ _ => trivial

theorem Callable.within_true (g : Callable) : g.Within fun _ => True := by
  cases g with
  | native tool => trivial
  | user closure => exact closure.scope.within_true

namespace Scope.Within

variable {A : Cell → Prop} {s t : Scope}

theorem cell {x : String} {cell : Cell} (hs : s.Within A) (hx : s.cell x = .ok cell) : A cell :=
  hs cell (.bound (Scope.cell_eq_ok.1 hx))

theorem callable {f : String} {callee : Callable} (hs : s.Within A) (hf : s.callable f = .ok callee) :
    callee.Within A := by
  have hf := Scope.callable_eq_ok.1 hf
  cases callee with
  | native tool => trivial
  | user closure => exact fun cell hc => hs cell (.captured hf hc)

theorem of_tables (hvars : ∀ x cell, s.vars.lookup? x = some cell → A cell)
    (hfuns : ∀ f callee, s.funs.lookup? f = some callee → callee.Within A) : s.Within A := by
  intro cell hc
  cases hc with
  | bound hx => exact hvars _ _ hx
  | captured hf hc => exact hfuns _ _ hf cell hc

theorem vars (hs : s.Within A) (x : String) (cell : Cell) (hx : s.vars.lookup? x = some cell) : A cell :=
  hs cell (.bound hx)

theorem funs (hs : s.Within A) (f : String) (callee : Callable) (hf : s.funs.lookup? f = some callee) :
    callee.Within A :=
  hs.callable (Scope.callable_eq_ok.2 hf)

theorem child (hs : s.Within A) : s.child.Within A :=
  of_tables hs.vars hs.funs

theorem declareVariable {x : String} {cell : Cell} (hs : s.Within A) (hcell : A cell)
    (ht : s.declareVariable x cell = .ok t) : t.Within A := by
  obtain ⟨-, rfl⟩ := Scope.declareVariable_eq_ok.1 ht
  refine of_tables (fun y other hy => ?_) hs.funs
  rw [Table.lookup?_bind] at hy
  by_cases hxy : y = x
  · rw [if_pos hxy] at hy
    exact Option.some.inj hy ▸ hcell
  · rw [if_neg hxy] at hy
    exact hs.vars y other hy

theorem inheritFunction {f : String} {callee : Callable} (hs : s.Within A) (hcallee : callee.Within A) :
    (s.inheritFunction f callee).Within A := by
  refine of_tables hs.vars fun g other hg => ?_
  rw [Scope.inheritFunction, Table.lookup?_inherit] at hg
  by_cases hfg : g = f
  · rw [if_pos hfg] at hg
    exact Option.some.inj hg ▸ hcallee
  · rw [if_neg hfg] at hg
    exact hs.funs g other hg

theorem declareFunction {f : String} {callee : Callable} (hs : s.Within A) (hcallee : callee.Within A)
    (ht : s.declareFunction f callee = .ok t) : t.Within A := by
  obtain ⟨-, rfl⟩ := Scope.declareFunction_eq_ok.1 ht
  exact of_tables hs.vars (hs.inheritFunction hcallee).funs

theorem entryScope {closure : Closure} (h : closure.scope.Within A) : closure.entryScope.Within A :=
  h.child.inheritFunction h

end Scope.Within

end IntScript
