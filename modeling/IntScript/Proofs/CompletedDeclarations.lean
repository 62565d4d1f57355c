import IntScript.Proofs.CellNames

set_option autoImplicit false

namespace IntScript

/-- The tables bind the name to the same thing or not at all, and both or neither have declared it. -/
def Table.SameAt {α : Type} (x : String) (t u : Table α) : Prop :=
  t.lookup? x = u.lookup? x ∧ t.isDeclaredHere x = u.isDeclaredHere x

theorem Table.sameAt_bind {α : Type} (t : Table α) {x y : String} (item : α) (hxy : x ≠ y) :
    SameAt x (t.bind y item) t := by
  constructor
  · rw [lookup?_bind, if_neg hxy]
  · rw [isDeclaredHere_bind, beq_eq_false_iff_ne.2 hxy, Bool.false_or]

theorem Table.SameAt.trans {α : Type} {x : String} {t u v : Table α} (h : SameAt x t u) (h' : SameAt x u v) :
    SameAt x t v :=
  ⟨h.1.trans h'.1, h.2.trans h'.2⟩

namespace Statement

def declaredVariable : Statement → Option String
  | .declare x _ => some x
  | _ => none

def definedFunction : Statement → Option String
  | .function f _ _ => some f
  | _ => none

end Statement

/-- The second scope is the first with the declarations among the statements, in order. Each variable has a cell of
its own, with an index from the first number up to the second. -/
inductive Scope.Extends : Nat → Scope → Block → Nat → Scope → Prop
  | nil {i j : Nat} {s : Scope} (hsize : i ≤ j) : Extends i s [] j s
  | var {i j : Nat} {s t : Scope} {x : String} {init : Option Expression} {cell : Cell} {rest : Block}
      (hcell : i ≤ cell.index) (hx : s.vars.isDeclaredHere x = false)
      (hrest : Extends (cell.index + 1) ⟨s.vars.bind x cell, s.funs⟩ rest j t) :
      Extends i s (.declare x init :: rest) j t
  | function {i j : Nat} {s t : Scope} {f : String} {params : List String} {body rest : Block}
      (hf : s.funs.isDeclaredHere f = false)
      (hrest : Extends i ⟨s.vars, s.funs.bind f (.user ⟨⟨f, params, body⟩, s.child⟩)⟩ rest j t) :
      Extends i s (.function f params body :: rest) j t
  | other {i j : Nat} {s t : Scope} {st : Statement} {rest : Block} (hvar : st.declaredVariable = none)
      (hfun : st.definedFunction = none) (hrest : Extends i s rest j t) : Extends i s (st :: rest) j t

/-- The statements end one after the other without a signal, from the first frame to the last. -/
inductive Completes (c : Context) : Block → Frame → Frame → Prop
  | nil (f : Frame) : Completes c [] f f
  | cons {st : Statement} {rest : Block} {f mid g : Frame} (n : Nat)
      (hst : Statement.exec n c st f = (.done none, mid)) (hrest : Completes c rest mid g) :
      Completes c (st :: rest) f g

namespace Scope.Extends

variable {i j k : Nat} {s t u : Scope} {b b' : Block} {x : String}

theorem earlier {i' : Nat} (h : Extends i s b j t) (hi : i' ≤ i) : Extends i' s b j t := by
  induction h with
  | nil hsize => exact .nil (Nat.le_trans hi hsize)
  | var hcell hx hrest _ => exact .var (Nat.le_trans hi hcell) hx hrest
  | function hf _ ih => exact .function hf (ih hi)
  | other hvar hfun _ ih => exact .other hvar hfun (ih hi)

theorem append (h : Extends i s b j t) (h' : Extends j t b' k u) : Extends i s (b ++ b') k u := by
  induction h with
  | nil hsize => exact h'.earlier hsize
  | var hcell hx _ ih => exact .var hcell hx (ih h')
  | function hf _ ih => exact .function hf (ih h')
  | other hvar hfun _ ih => exact .other hvar hfun (ih h')

theorem sameAt_vars (h : Extends i s b j t) (hx : x ∉ b.filterMap Statement.declaredVariable) :
    Table.SameAt x t.vars s.vars := by
  induction h with
  | nil _ => exact ⟨rfl, rfl⟩
  | @var _ _ _ _ y _ _ rest _ _ _ ih =>
    change x ∉ y :: rest.filterMap Statement.declaredVariable at hx
    rw [List.mem_cons, not_or] at hx
    exact (ih hx.2).trans (Table.sameAt_bind _ _ hx.1)
  | function _ _ ih => exact ih (by rwa [List.filterMap_cons_none rfl] at hx)
  | other hvar _ _ ih => exact ih (by rwa [List.filterMap_cons_none hvar] at hx)

theorem sameAt_funs (h : Extends i s b j t) (hx : x ∉ b.filterMap Statement.definedFunction) :
    Table.SameAt x t.funs s.funs := by
  induction h with
  | nil _ => exact ⟨rfl, rfl⟩
  | var _ _ _ ih => exact ih (by rwa [List.filterMap_cons_none rfl] at hx)
  | @function _ _ _ _ y _ _ rest _ _ ih =>
    change x ∉ y :: rest.filterMap Statement.definedFunction at hx
    rw [List.mem_cons, not_or] at hx
    exact (ih hx.2).trans (Table.sameAt_bind _ _ hx.1)
  | other _ hfun _ ih => exact ih (by rwa [List.filterMap_cons_none hfun] at hx)

end Scope.Extends

open Attempt Scope

section Steps

variable {n : Nat} {c : Context} {st : Statement} {f g : Frame} {r : Outcome EvalError Signal}

theorem Statement.exec_size_le (h : Statement.exec n c st f = (r, g)) :
    f.world.store.size ≤ g.world.store.size := by
  have hsize := ((Confines.all (fun _ => True) n).statement c st).size_le f
  rw [h] at hsize
  exact hsize

theorem Statement.exec_declare {x : String} {init : Option Expression}
    (h : Statement.exec n c (.declare x init) f = (.done none, g)) :
    ∃ cell : Cell, f.world.store.size ≤ cell.index ∧ g.world.store.size = cell.index + 1 ∧
      f.scope.declareVariable x cell = .ok g.scope := by
  cases n with
  | zero => cases h
  | succ n =>
    cases init with
    | none =>
      rw [Statement.exec, bind_eq_done] at h
      obtain ⟨_, mid, hdecl, h⟩ := h
      obtain ⟨-, rfl⟩ := (pure_eq_done _ _ _ _).1 h
      obtain ⟨hscope, hworld⟩ := Run.declareVariable_eq_done.1 hdecl
      refine ⟨_, Nat.le_refl _, ?_, hscope⟩
      rw [hworld, World.size_add]
      rfl
    | some e =>
      rw [Statement.exec, bind_eq_done] at h
      obtain ⟨v, mid, heval, h⟩ := h
      obtain ⟨_, _, hdecl, h⟩ := bind_eq_done.1 h
      obtain ⟨-, rfl⟩ := (pure_eq_done _ _ _ _).1 h
      obtain ⟨heval, hmid⟩ := Run.within_eq_done.1 heval
      obtain ⟨hscope, hworld⟩ := Run.declareVariable_eq_done.1 hdecl
      have hsize := ((Confines.all (fun _ => True) n).eval c f.scope e fun _ _ => trivial).size_le_of heval
      refine ⟨_, hsize, ?_, hmid ▸ hscope⟩
      rw [hworld, World.size_add]
      rfl

theorem Statement.exec_extends (h : Statement.exec n c st f = (.done none, g)) :
    Extends f.world.store.size f.scope [st] g.world.store.size g.scope := by
  have hsize := Statement.exec_size_le h
  have hdeclares := Statement.exec_declares h
  cases st with
  | declare x init =>
    obtain ⟨cell, hcell, hnext, hscope⟩ := Statement.exec_declare h
    obtain ⟨hx, hscope⟩ := declareVariable_eq_ok.1 hscope
    rw [hscope]
    exact .var hcell hx (.nil (Nat.le_of_eq hnext.symm))
  | function x params b =>
    obtain ⟨hx, hscope⟩ := declareFunction_eq_ok.1 hdeclares
    rw [hscope]
    exact .function hx (.nil hsize)
  | _ =>
    have hscope : g.scope = f.scope := hdeclares
    rw [hscope]
    exact .other rfl rfl (.nil hsize)

end Steps

namespace Run

variable {α : Type}

/-- Unless it completes, the run leaves its scope alone. -/
def Atomic (m : Run Signal) : Prop := ∀ f, (m f).1 ≠ .done none → (m f).2.scope = f.scope

theorem atomic_of_keeps {m : Run Signal} (hm : ∀ f, (m f).2.scope = f.scope) : Atomic m := fun f _ => hm f

theorem atomic_bind {m : Run α} {k : α → Run Signal} (hm : ∀ f, (m f).2.scope = f.scope) (hk : ∀ a, Atomic (k a)) :
    Atomic (m >>= k) := by
  intro f hr
  have hfirst := hm f
  rw [bind_apply] at hr ⊢
  generalize m f = r at hfirst hr ⊢
  rcases r with ⟨a | e | _, mid⟩
  · exact (hk a mid hr).trans hfirst
  · exact hfirst
  · exact hfirst

theorem atomic_declaration {m : Run Unit} (hm : ∀ f, (m f).1 ≠ .done () → (m f).2 = f) :
    Atomic (m >>= fun _ => Pure.pure none) := by
  intro f hr
  have hfirst := hm f
  rw [bind_apply] at hr ⊢
  generalize m f = r at hfirst hr ⊢
  rcases r with ⟨⟨⟩ | e | _, mid⟩
  · exact absurd rfl hr
  · exact congrArg Frame.scope (hfirst (by simp))
  · exact congrArg Frame.scope (hfirst (by simp))

theorem declareVariable_unless_done (x : String) (v : Value) (f : Frame)
    (h : (declareVariable x v f).1 ≠ .done ()) : (declareVariable x v f).2 = f := by
  unfold declareVariable at h ⊢
  cases hx : f.scope.declareVariable x f.world.nextCell with
  | error e => rfl
  | ok t =>
    rw [hx] at h
    exact absurd rfl h

theorem declareFunction_unless_done (d : FunctionDecl) (f : Frame) (h : (declareFunction d f).1 ≠ .done ()) :
    (declareFunction d f).2 = f := by
  unfold declareFunction at h ⊢
  cases hd : f.scope.declareFunction d.name (.user ⟨d, f.scope.child⟩) with
  | error e => rfl
  | ok t =>
    rw [hd] at h
    exact absurd rfl h

end Run

theorem Statement.exec_atomic (n : Nat) (c : Context) (st : Statement) : Run.Atomic (Statement.exec n c st) := by
  cases n with
  | zero => exact Run.atomic_of_keeps fun _ => rfl
  | succ n =>
    cases st with
    | function x params b =>
      exact Run.atomic_bind (fun _ => rfl) fun _ => Run.atomic_declaration (Run.declareFunction_unless_done _)
    | declare x init =>
      cases init with
      | none => exact Run.atomic_declaration (Run.declareVariable_unless_done x 0)
      | some e =>
        exact Run.atomic_bind (fun _ => rfl) fun v => Run.atomic_declaration (Run.declareVariable_unless_done x v)
    | _ => exact Run.atomic_of_keeps fun _ => rfl

section Runs

variable {c : Context} {body : Block} {f g : Frame}

theorem Completes.extends_scope (h : Completes c body f g) :
    Extends f.world.store.size f.scope body g.world.store.size g.scope := by
  induction h with
  | nil f => exact .nil (Nat.le_refl _)
  | cons n hst _ ih => exact (Statement.exec_extends hst).append ih

/-- How a block that has ended came to its end. -/
theorem Block.exec_stops {n : Nat} {r : Outcome EvalError Signal} (h : Block.exec n c body f = (r, g))
    (hr : r ≠ .outOfFuel) :
    ∃ k mid, Completes c (body.take k) f mid ∧
      (k = body.length ∧ r = .done none ∧ g = mid ∨
        r ≠ .done none ∧ ∃ st m, body[k]? = some st ∧ Statement.exec m c st mid = (r, g)) := by
  induction n generalizing body f with
  | zero =>
    cases h
    exact absurd rfl hr
  | succ n ih =>
    cases body with
    | nil =>
      cases h
      exact ⟨0, g, .nil g, .inl ⟨rfl, rfl, rfl⟩⟩
    | cons st rest =>
      rw [Block.exec] at h
      rcases hst : Statement.exec n c st f with ⟨(_ | v) | e | _, mid⟩
      · rw [bind_of_done hst] at h
        obtain ⟨k, last, hcompletes, hend⟩ := ih h
        refine ⟨k + 1, last, .cons n hst hcompletes, ?_⟩
        simpa using hend
      · rw [bind_of_done hst] at h
        cases h
        exact ⟨0, f, .nil f, .inr ⟨by simp, st, n, rfl, hst⟩⟩
      · rw [bind_of_failed hst] at h
        cases h
        exact ⟨0, f, .nil f, .inr ⟨by simp, st, n, rfl, hst⟩⟩
      · rw [bind_of_outOfFuel hst] at h
        cases h
        exact absurd rfl hr

/-- However it ends, a block has completed its statements up to one that returned or failed, or all of them, and its
scope has gained what these declare. -/
theorem run_keeps_completed_declarations {n : Nat} {r : Outcome EvalError Signal} (h : Block.exec n c body f = (r, g))
    (hr : r ≠ .outOfFuel) :
    ∃ k mid, Completes c (body.take k) f mid ∧
      (k = body.length ∧ r = .done none ∧ g = mid ∨
        r ≠ .done none ∧ ∃ st m, body[k]? = some st ∧ Statement.exec m c st mid = (r, g)) ∧
      Extends f.world.store.size f.scope (body.take k) g.world.store.size g.scope ∧
      (∀ x, x ∉ (body.take k).filterMap Statement.declaredVariable → g.scope.vars.SameAt x f.scope.vars) ∧
      ∀ x, x ∉ (body.take k).filterMap Statement.definedFunction → g.scope.funs.SameAt x f.scope.funs := by
  obtain ⟨k, mid, hcompletes, hend⟩ := Block.exec_stops h hr
  have hextends : Extends f.world.store.size f.scope (body.take k) g.world.store.size g.scope := by
    rcases hend with ⟨-, -, rfl⟩ | ⟨hstop, st, m, -, hst⟩
    · exact hcompletes.extends_scope
    · have hscope : g.scope = mid.scope := by
        have hkept := Statement.exec_atomic m c st mid
        rw [hst] at hkept
        exact hkept hstop
      rw [hscope]
      simpa using hcompletes.extends_scope.append (.nil (Statement.exec_size_le hst))
  exact ⟨k, mid, hcompletes, hend, hextends, fun x hx => hextends.sameAt_vars hx, fun x hx => hextends.sameAt_funs hx⟩

end Runs

def declaredTwice : Block :=
  [.declare "x" (some (.literal 1)), .block [.declare "y" none], .function "f" [] [], .declare "x" none,
    .declare "z" none]

theorem declaredTwice_keeps_completed :
    ∃ g, Block.exec 9 (.top .unlimited) declaredTwice ⟨.empty, .empty⟩ =
        (.failed (.duplicateDeclaration .var "x"), g) ∧
      ∃ k, k < declaredTwice.length ∧ Extends 0 .empty (declaredTwice.take k) 2 g.scope := by
  have hrun : Block.exec 9 (.top .unlimited) declaredTwice ⟨.empty, .empty⟩ =
      (.failed (.duplicateDeclaration .var "x"), _) := rfl
  obtain ⟨k, mid, -, hend, hextends, -⟩ := run_keeps_completed_declarations hrun (by simp)
  refine ⟨_, hrun, ?_⟩
  rcases hend with ⟨-, hdone, -⟩ | ⟨-, st, m, hk, -⟩
  · cases hdone
  · exact ⟨k, (List.getElem?_eq_some_iff.1 hk).1, hextends⟩

end IntScript
