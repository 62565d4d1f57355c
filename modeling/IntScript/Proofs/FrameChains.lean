import IntScript.Scope
import IntScript.Proofs.NameOrder
import Mathlib.Data.List.AList

set_option autoImplicit false

/-! # Tables and chains of frames

A scope can be kept as a chain of frames: declarations go to the innermost frame, and look-up walks outwards to the
first frame that holds the name. A table keeps one flat snapshot instead. Whatever is done with any number of tables,
no answer tells the two apart, as long as no name is inherited by a table that has declared it. -/

namespace IntScript

variable {α : Type}

namespace Table

def find (kind : NameKind) (t : Table α) (x : String) : Except EvalError α :=
  match t.lookup? x with
  | some item => .ok item
  | none => .error (.nameNotFound kind x)

def declare (kind : NameKind) (t : Table α) (x : String) (item : α) : Except EvalError (Table α) :=
  match t.declare? x item with
  | some u => .ok u
  | none => .error (.duplicateDeclaration kind x)

theorem mem_names {t : Table α} {x : String} : x ∈ t.bindings.map Prod.fst ↔ (t.lookup? x).isSome = true := by
  obtain ⟨bindings, declared⟩ := t
  change x ∈ bindings.map Prod.fst ↔ (bindings.lookup x).isSome = true
  induction bindings with
  | nil => simp
  | cons p rest ih =>
    rw [List.map_cons, List.mem_cons, ih, List.lookup_cons]
    by_cases hx : x = p.1
    · simp [hx]
    · have hne : (x == p.1) = false := by simpa using hx
      simp [hx, hne]

end Table

namespace Scope

theorem cell_eq_find (s : Scope) (x : String) : s.cell x = s.vars.find .var x := by
  unfold cell Table.find
  cases s.vars.lookup? x <;> rfl

theorem callable_eq_find (s : Scope) (f : String) : s.callable f = s.funs.find .function f := by
  unfold callable Table.find
  cases s.funs.lookup? f <;> rfl

theorem declareVariable_eq_declare (s : Scope) (x : String) (cell : Cell) :
    s.declareVariable x cell = (s.vars.declare .var x cell).map fun vars => ⟨vars, s.funs⟩ := by
  unfold declareVariable Table.declare
  cases s.vars.declare? x cell <;> rfl

theorem declareFunction_eq_declare (s : Scope) (f : String) (item : Callable) :
    s.declareFunction f item = (s.funs.declare .function f item).map fun funs => ⟨s.vars, funs⟩ := by
  unfold declareFunction Table.declare
  cases s.funs.declare? f item <;> rfl

end Scope

abbrev Bindings (α : Type) : Type := AList fun _ : String => α

structure Chain (α : Type) where
  inner : Bindings α
  /-- The frames around the innermost one, from the inside outwards. -/
  outer : List (Bindings α)

namespace Chain

def empty : Chain α := ⟨∅, []⟩

def collect (pairs : List (String × α)) : Chain α :=
  ⟨pairs.foldl (fun frame p => frame.insert p.1 p.2) ∅, []⟩

def child (c : Chain α) : Chain α := ⟨∅, c.inner :: c.outer⟩

def frames (c : Chain α) : List (Bindings α) := c.inner :: c.outer

/-- The first frame that holds the name decides. -/
def lookup? (c : Chain α) (x : String) : Option α := c.frames.findSome? fun frame => frame.lookup x

def find (kind : NameKind) (c : Chain α) (x : String) : Except EvalError α :=
  match c.lookup? x with
  | some item => .ok item
  | none => .error (.nameNotFound kind x)

def isDeclaredHere (c : Chain α) (x : String) : Bool := decide (x ∈ c.inner)

def declare (kind : NameKind) (c : Chain α) (x : String) (item : α) : Except EvalError (Chain α) :=
  if x ∈ c.inner then .error (.duplicateDeclaration kind x) else .ok ⟨c.inner.insert x item, c.outer⟩

/-- Binds a name in the frame around the innermost one. -/
def inherit (c : Chain α) (x : String) (item : α) : Chain α :=
  match c.outer with
  | [] => ⟨c.inner, [AList.singleton x item]⟩
  | frame :: outward => ⟨c.inner, frame.insert x item :: outward⟩

def bound (c : Chain α) : Finset String := (c.frames.flatMap AList.keys).toFinset

def contains (c : Chain α) (x : String) : Bool := decide (x ∈ c.bound)

def size (c : Chain α) : Nat := c.bound.card

def names (c : Chain α) : List String := c.bound.sort

theorem lookup?_eq (c : Chain α) (x : String) :
    c.lookup? x = (c.inner.lookup x).or (c.outer.findSome? fun frame => frame.lookup x) := by
  rw [lookup?, frames, List.findSome?_cons]
  cases c.inner.lookup x <;> rfl

theorem mem_bound {c : Chain α} {x : String} : x ∈ c.bound ↔ (c.lookup? x).isSome = true := by
  rw [bound, List.mem_toFinset, List.mem_flatMap, lookup?, List.findSome?_isSome_iff]
  refine exists_congr fun frame => and_congr_right fun _ => ?_
  rw [AList.lookup_isSome, AList.mem_keys]

theorem lookup?_insert (frame : Bindings α) (x y : String) (item : α) :
    (frame.insert x item).lookup y = if y = x then some item else frame.lookup y := by
  by_cases hy : y = x
  · subst hy
    rw [if_pos rfl, AList.lookup_insert]
  · rw [if_neg hy, AList.lookup_insert_ne hy]

/-- A name that the innermost frame does not hold is found where it was inherited. -/
theorem lookup?_inherit {c : Chain α} {x : String} (hx : x ∉ c.inner) (y : String) (item : α) :
    (c.inherit x item).lookup? y = if y = x then some item else c.lookup? y := by
  obtain ⟨inner, outer⟩ := c
  have hinner : inner.lookup x = none := AList.lookup_eq_none.2 hx
  have houter : (inherit ⟨inner, outer⟩ x item).outer.findSome? (fun frame => frame.lookup y) =
      if y = x then some item else outer.findSome? fun frame => frame.lookup y := by
    cases outer with
    | nil =>
      change List.findSome? _ [(AList.singleton x item : Bindings α)] = _
      rw [← AList.insert_empty, List.findSome?_cons, lookup?_insert]
      by_cases hy : y = x <;> simp [hy]
    | cons frame outward =>
      change (frame.insert x item :: outward).findSome? _ = _
      rw [List.findSome?_cons, lookup?_insert, List.findSome?_cons]
      by_cases hy : y = x <;> simp [hy]
  have hsame : (inherit ⟨inner, outer⟩ x item).inner = inner := by
    cases outer <;> rfl
  rw [lookup?_eq, lookup?_eq, houter, hsame]
  by_cases hy : y = x
  · rw [if_pos hy, if_pos hy, hy, hinner]
    rfl
  · rw [if_neg hy, if_neg hy]

theorem isDeclaredHere_inherit (c : Chain α) (x y : String) (item : α) :
    (c.inherit x item).isDeclaredHere y = c.isDeclaredHere y := by
  obtain ⟨inner, outer⟩ := c
  cases outer <;> rfl

end Chain

namespace Table

variable {t : Table α} {c : Chain α}

/-- The table finds what the chain finds, and has declared what the innermost frame holds. -/
structure Refines (t : Table α) (c : Chain α) : Prop where
  lookup? : ∀ x, t.lookup? x = c.lookup? x
  declared : ∀ x, t.isDeclaredHere x = c.isDeclaredHere x

theorem refines_empty : (empty : Table α).Refines .empty := ⟨fun _ => rfl, fun _ => rfl⟩

theorem Refines.child (h : t.Refines c) : t.child.Refines c.child := ⟨h.lookup?, fun _ => rfl⟩

theorem Refines.bind (h : t.Refines c) (x : String) (item : α) :
    (t.bind x item).Refines ⟨c.inner.insert x item, c.outer⟩ := by
  constructor
  · intro y
    rw [lookup?_bind, h.lookup?, Chain.lookup?_eq, Chain.lookup?_eq, Chain.lookup?_insert]
    by_cases hy : y = x
    · rw [if_pos hy, if_pos hy]
      rfl
    · rw [if_neg hy, if_neg hy]
  · intro y
    rw [isDeclaredHere_bind, h.declared, Chain.isDeclaredHere, Chain.isDeclaredHere, Bool.eq_iff_iff]
    simp

theorem refines_collect (pairs : List (String × α)) : (ofList pairs).Refines (.collect pairs) := by
  have hfold : ∀ (t : Table α) (frame : Bindings α), t.Refines ⟨frame, []⟩ →
      (pairs.foldl (fun t p => t.bind p.1 p.2) t).Refines
        ⟨pairs.foldl (fun frame p => frame.insert p.1 p.2) frame, []⟩ := by
    induction pairs with
    | nil => exact fun _ _ h => h
    | cons p rest ih => exact fun t frame h => ih _ _ (h.bind p.1 p.2)
  exact hfold empty ∅ refines_empty

theorem Refines.inherit (h : t.Refines c) {x : String} (hx : t.isDeclaredHere x = false) (item : α) :
    (t.inherit x item).Refines (c.inherit x item) := by
  have hinner : x ∉ c.inner := by
    rw [h.declared] at hx
    exact of_decide_eq_false hx
  constructor
  · intro y
    rw [lookup?_inherit, Chain.lookup?_inherit hinner, h.lookup?]
  · intro y
    rw [isDeclaredHere_inherit, Chain.isDeclaredHere_inherit, h.declared]

theorem Refines.declare (h : t.Refines c) (kind : NameKind) (x : String) (item : α) :
    (∃ e, t.declare kind x item = .error e ∧ c.declare kind x item = .error e) ∨
      ∃ u d, t.declare kind x item = .ok u ∧ c.declare kind x item = .ok d ∧ u.Refines d := by
  have hdeclared := h.declared x
  unfold Table.declare Table.declare? Chain.declare
  by_cases hx : x ∈ c.inner
  · have hhere : t.isDeclaredHere x = true := hdeclared.trans (decide_eq_true hx)
    left
    exact ⟨_, by rw [if_pos hhere], if_pos hx⟩
  · have hfree : ¬ t.isDeclaredHere x = true := by
      rw [hdeclared, Chain.isDeclaredHere, decide_eq_true_iff]
      exact hx
    right
    exact ⟨_, _, by rw [if_neg hfree], if_neg hx, h.bind x item⟩

/-- No question to the table is answered otherwise than by the chain. -/
structure Agrees (kind : NameKind) (t : Table α) (c : Chain α) : Prop where
  find : ∀ x, t.find kind x = c.find kind x
  declare : ∀ x item, (t.declare kind x item).map (fun _ => ()) = (c.declare kind x item).map fun _ => ()
  contains : ∀ x, t.contains x = c.contains x
  declaredHere : ∀ x, t.isDeclaredHere x = c.isDeclaredHere x
  size : t.size = c.size
  names : t.names = c.names
  increasing : t.names.Pairwise (· < ·)
  visible : ∀ x, t.isDeclaredHere x = true → t.contains x = true

theorem Refines.names (h : t.Refines c) : t.names = c.names := by
  refine Text.sortedNames_eq_sort fun x => ?_
  rw [mem_names, h.lookup?, Chain.mem_bound]

theorem Refines.contains (h : t.Refines c) (x : String) : t.contains x = c.contains x := by
  rw [Bool.eq_iff_iff, Chain.contains, decide_eq_true_iff, Chain.mem_bound, ← h.lookup?]
  rfl

theorem Refines.agrees (h : t.Refines c) (kind : NameKind) : t.Agrees kind c where
  find x := by
    unfold Table.find Chain.find
    rw [h.lookup?]
  declare x item := by
    rcases h.declare kind x item with ⟨e, ht, hc⟩ | ⟨u, d, ht, hc, -⟩
    · rw [ht, hc]
      rfl
    · rw [ht, hc]
      rfl
  contains := h.contains
  declaredHere := h.declared
  size := by
    rw [size, h.names]
    exact Finset.length_sort _
  names := h.names
  increasing := Text.sortedNames_increasing _
  visible x hx := by
    rw [h.declared, Chain.isDeclaredHere, decide_eq_true_iff] at hx
    rw [h.contains, Chain.contains, decide_eq_true_iff, Chain.mem_bound, Chain.lookup?_eq]
    obtain ⟨item, hitem⟩ := Option.isSome_iff_exists.1 (AList.lookup_isSome.2 hx)
    rw [hitem]
    rfl

end Table

structure TableStyle (τ α : Type) where
  empty : τ
  collect : List (String × α) → τ
  child : τ → τ
  declare : τ → String → α → Except EvalError τ
  inherit : τ → String → α → τ

def TableStyle.flat (kind : NameKind) : TableStyle (Table α) α where
  empty := .empty
  collect := .ofList
  child := .child
  declare := Table.declare kind
  inherit := .inherit

def TableStyle.chained (kind : NameKind) : TableStyle (Chain α) α where
  empty := .empty
  collect := .collect
  child := .child
  declare := Chain.declare kind
  inherit := .inherit

/-- What can be done with a collection of tables. The first four add a table to it, the others change one. -/
inductive TableOp (α : Type) where
  | new
  | collect (pairs : List (String × α))
  | clone (table : Nat)
  | child (table : Nat)
  | declare (table : Nat) (name : String) (item : α)
  | inherit (table : Nat) (name : String) (item : α)

namespace TableStyle

variable {τ : Type} (style : TableStyle τ α)

/-- The answer to one operation, and the collection after it. Without a table at its number it does nothing. -/
def step (ts : List τ) : TableOp α → Except EvalError Unit × List τ
  | .new => (.ok (), ts ++ [style.empty])
  | .collect pairs => (.ok (), ts ++ [style.collect pairs])
  | .clone k => (.ok (), ts ++ ts[k]?.toList)
  | .child k => (.ok (), ts ++ (ts[k]?.map style.child).toList)
  | .declare k x item =>
    match ts[k]? with
    | none => (.ok (), ts)
    | some t =>
      match style.declare t x item with
      | .ok u => (.ok (), ts.set k u)
      | .error e => (.error e, ts)
  | .inherit k x item =>
    match ts[k]? with
    | none => (.ok (), ts)
    | some t => (.ok (), ts.set k (style.inherit t x item))

def run (ts : List τ) : List (TableOp α) → List (Except EvalError Unit) × List τ
  | [] => ([], ts)
  | op :: ops =>
    match style.step ts op with
    | (answer, us) =>
      match run us ops with
      | (answers, vs) => (answer :: answers, vs)

end TableStyle

namespace TableOp

/-- A name is inherited only by a table that has not declared it. -/
def Proper (ts : List (Table α)) : TableOp α → Prop
  | .inherit k x _ => ∀ t, ts[k]? = some t → t.isDeclaredHere x = false
  | _ => True

def ProperRun (kind : NameKind) : List (Table α) → List (TableOp α) → Prop
  | _, [] => True
  | ts, op :: ops => op.Proper ts ∧ ProperRun kind ((TableStyle.flat kind).step ts op).2 ops

theorem ProperRun.of_prefix {kind : NameKind} {ts : List (Table α)} {done ops : List (TableOp α)}
    (h : ProperRun kind ts ops) (hdone : done <+: ops) : ProperRun kind ts done := by
  induction done generalizing ts ops with
  | nil => trivial
  | cons op done ih =>
    obtain ⟨rest, rfl⟩ := hdone
    exact ⟨h.1, ih h.2 (List.prefix_append done rest)⟩

end TableOp

section Runs

variable {kind : NameKind} {ts : List (Table α)} {cs : List (Chain α)}

theorem forall₂_getElem? (h : List.Forall₂ Table.Refines ts cs) (k : Nat) :
    ts[k]? = none ∧ cs[k]? = none ∨ ∃ t c, ts[k]? = some t ∧ cs[k]? = some c ∧ t.Refines c := by
  induction h generalizing k with
  | nil => exact .inl ⟨rfl, rfl⟩
  | cons hhead _ ih =>
    cases k with
    | zero => exact .inr ⟨_, _, rfl, rfl, hhead⟩
    | succ k => exact ih k

theorem forall₂_set (h : List.Forall₂ Table.Refines ts cs) {t : Table α} {c : Chain α} (htc : t.Refines c) (k : Nat) :
    List.Forall₂ Table.Refines (ts.set k t) (cs.set k c) := by
  induction h generalizing k with
  | nil => exact .nil
  | cons hhead htail ih =>
    cases k with
    | zero => exact .cons htc htail
    | succ k => exact .cons hhead (ih k)

theorem step_refines (kind : NameKind) (h : List.Forall₂ Table.Refines ts cs) (op : TableOp α) (hop : op.Proper ts) :
    ((TableStyle.flat kind).step ts op).1 = ((TableStyle.chained kind).step cs op).1 ∧
      List.Forall₂ Table.Refines ((TableStyle.flat kind).step ts op).2 ((TableStyle.chained kind).step cs op).2 := by
  have hadd : ∀ {us : List (Table α)} {ds : List (Chain α)}, List.Forall₂ Table.Refines us ds →
      List.Forall₂ Table.Refines (ts ++ us) (cs ++ ds) := fun hnew => List.rel_append h hnew
  cases op with
  | new => exact ⟨rfl, hadd (.cons Table.refines_empty .nil)⟩
  | collect pairs => exact ⟨rfl, hadd (.cons (Table.refines_collect pairs) .nil)⟩
  | clone k =>
    rcases forall₂_getElem? h k with ⟨ht, hc⟩ | ⟨t, c, ht, hc, htc⟩
    · simp only [TableStyle.step, ht, hc]
      exact ⟨trivial, hadd .nil⟩
    · simp only [TableStyle.step, ht, hc]
      exact ⟨trivial, hadd (.cons htc .nil)⟩
  | child k =>
    rcases forall₂_getElem? h k with ⟨ht, hc⟩ | ⟨t, c, ht, hc, htc⟩
    · simp only [TableStyle.step, ht, hc]
      exact ⟨trivial, hadd .nil⟩
    · simp only [TableStyle.step, ht, hc]
      exact ⟨trivial, hadd (.cons htc.child .nil)⟩
  | declare k x item =>
    rcases forall₂_getElem? h k with ⟨ht, hc⟩ | ⟨t, c, ht, hc, htc⟩
    · simp only [TableStyle.step, ht, hc]
      exact ⟨trivial, h⟩
    · rcases htc.declare kind x item with ⟨e, hflat, hchain⟩ | ⟨u, d, hflat, hchain, hud⟩
      · simp only [TableStyle.step, TableStyle.flat, TableStyle.chained, ht, hc, hflat, hchain]
        exact ⟨trivial, h⟩
      · simp only [TableStyle.step, TableStyle.flat, TableStyle.chained, ht, hc, hflat, hchain]
        exact ⟨trivial, forall₂_set h hud k⟩
  | inherit k x item =>
    rcases forall₂_getElem? h k with ⟨ht, hc⟩ | ⟨t, c, ht, hc, htc⟩
    · simp only [TableStyle.step, ht, hc]
      exact ⟨trivial, h⟩
    · simp only [TableStyle.step, ht, hc]
      exact ⟨trivial, forall₂_set h (htc.inherit (hop t ht) item) k⟩

theorem run_refines (h : List.Forall₂ Table.Refines ts cs) {ops : List (TableOp α)}
    (hops : TableOp.ProperRun kind ts ops) :
    ((TableStyle.flat kind).run ts ops).1 = ((TableStyle.chained kind).run cs ops).1 ∧
      List.Forall₂ Table.Refines ((TableStyle.flat kind).run ts ops).2 ((TableStyle.chained kind).run cs ops).2 := by
  induction ops generalizing ts cs with
  | nil => exact ⟨rfl, h⟩
  | cons op ops ih =>
    obtain ⟨hanswer, htables⟩ := step_refines kind h op hops.1
    obtain ⟨hanswers, hlast⟩ := ih htables hops.2
    exact ⟨congrArg₂ List.cons hanswer hanswers, hlast⟩

end Runs

/-- Whatever is done with a growing collection of tables, every declaration is answered as by chains of frames, and
after each step every table agrees with its chain. -/
theorem tables_refine_frame_chains (kind : NameKind) {ops : List (TableOp α)} (hops : TableOp.ProperRun kind [] ops) :
    ((TableStyle.flat kind).run [] ops).1 = ((TableStyle.chained kind).run [] ops).1 ∧
      ∀ done, done <+: ops → List.Forall₂ (Table.Agrees kind) ((TableStyle.flat kind).run [] done).2
        ((TableStyle.chained kind).run [] done).2 := by
  refine ⟨(run_refines .nil hops).1, fun done hdone => ?_⟩
  have hrefines := (run_refines .nil (hops.of_prefix hdone)).2
  exact hrefines.imp fun t c htc => htc.agrees kind

/-- Of two pairs with one name the later counts; a child shadows a name that it has inherited, once, and does not see
what its parent declares later. -/
def shadowing : List (TableOp Nat) :=
  [.collect [("a", 1), ("b", 2), ("a", 3)], .child 0, .inherit 1 "a" 4, .declare 1 "a" 5, .declare 1 "a" 6,
    .declare 0 "c" 7, .clone 1, .declare 2 "b" 8]

theorem shadowing_refines :
    TableOp.ProperRun .var [] shadowing ∧
      ((TableStyle.flat .var).run [] shadowing).1[4]? = some (.error (.duplicateDeclaration .var "a")) ∧
      ((TableStyle.flat .var).run [] shadowing).1 = ((TableStyle.chained .var).run [] shadowing).1 ∧
      ∀ done, done <+: shadowing → List.Forall₂ (Table.Agrees .var) ((TableStyle.flat .var).run [] done).2
        ((TableStyle.chained .var).run [] done).2 := by
  have hproper : TableOp.ProperRun .var [] shadowing := by
    refine ⟨trivial, trivial, ?_, trivial, trivial, trivial, trivial, trivial, trivial⟩
    intro t ht
    cases ht
    rfl
  exact ⟨hproper, rfl, tables_refine_frame_chains .var hproper⟩

end IntScript
