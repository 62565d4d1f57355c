import IntScript.Proofs.LinkedWorlds

set_option autoImplicit false

namespace IntScript

mutual

def Expression.names : Expression → List String
  | .call f args => f :: Expression.namesAll args
  | .literal _ => []
  | .var x => [x]
  | .binary _ l r => l.names ++ r.names

def Expression.namesAll : List Expression → List String
  | [] => []
  | e :: es => e.names ++ Expression.namesAll es

end

mutual

def Statement.names : Statement → List String
  | .function f params body => f :: params ++ Block.names body
  | .block body => Block.names body
  | .declare x none => [x]
  | .declare x (some e) => x :: e.names
  | .evaluate e => e.names
  | .loop c st => c.names ++ st.names
  | .ifThen c st => c.names ++ st.names
  | .ifElse c st other => c.names ++ st.names ++ other.names
  | .assign x e => x :: e.names
  | .result e => e.names

def Block.names : List Statement → List String
  | [] => []
  | st :: b => st.names ++ Block.names b

end

def FunctionDecl.names (d : FunctionDecl) : List String := d.name :: d.params ++ Block.names d.body

/-- The names that only the first side declares, and those that only the second does. -/
structure Padding where
  left : List String
  right : List String

namespace Padding

def symm (p : Padding) : Padding := ⟨p.right, p.left⟩

/-- The name is one of both sides. -/
def Common (p : Padding) (x : String) : Prop := x ∉ p.left ∧ x ∉ p.right

def Shares (p : Padding) (names : List String) : Prop := ∀ x ∈ names, p.Common x

variable {p : Padding} {x : String} {names names' : List String}

theorem Common.symm (h : p.Common x) : p.symm.Common x := ⟨h.2, h.1⟩

theorem Shares.symm (h : p.Shares names) : p.symm.Shares names := fun x hx => (h x hx).symm

def Both (p : Padding) (x x' : String) : Prop := x = x' ∧ p.Common x

@[simp] theorem shares_cons : p.Shares (x :: names) ↔ p.Common x ∧ p.Shares names := by
  simp [Shares]

@[simp] theorem shares_append : p.Shares (names ++ names') ↔ p.Shares names ∧ p.Shares names' := by
  simp only [Shares, List.mem_append]
  exact ⟨fun h => ⟨fun x hx => h x (.inl hx), fun x hx => h x (.inr hx)⟩, fun h x hx => hx.elim (h.1 x) (h.2 x)⟩

theorem both_all : List.Forall₂ p.Both names names' ↔ names = names' ∧ p.Shares names := by
  constructor
  · intro h
    induction h with
    | nil => exact ⟨rfl, by simp [Shares]⟩
    | cons hx _ ih =>
      obtain ⟨rfl, hcommon⟩ := hx
      exact ⟨congrArg _ ih.1, shares_cons.2 ⟨hcommon, ih.2⟩⟩
  · rintro ⟨rfl, h⟩
    exact List.forall₂_same.2 fun x hx => ⟨rfl, h x hx⟩

mutual

theorem alike : ∀ e : Expression, p.Shares e.names → Expression.Alike p.Both p.Both e e
  | .call f args, h => by
    rw [Expression.names, shares_cons] at h
    exact .call ⟨rfl, h.1⟩ (alikeAll args h.2)
  | .literal v, _ => .literal v
  | .var x, h => .var ⟨rfl, h x List.mem_cons_self⟩
  | .binary op l r, h => by
    rw [Expression.names, shares_append] at h
    exact .binary op (alike l h.1) (alike r h.2)

theorem alikeAll : ∀ es : List Expression, p.Shares (Expression.namesAll es) →
    Expression.AlikeAll p.Both p.Both es es
  | [], _ => .nil
  | e :: es, h => by
    rw [Expression.namesAll, shares_append] at h
    exact .cons (alike e h.1) (alikeAll es h.2)

end

end Padding

/-- The statement declares the name, and running it does nothing else that can be told. -/
inductive Statement.Unused (z : String) : Statement → Prop
  | value (v : Value) : Unused z (.declare z (some (.literal v)))
  | function (params : List String) (body : Block) : Unused z (.function z params body)

mutual

/-- The statements differ in declarations that are added to blocks in them. -/
inductive Statement.Padded (p : Padding) : Statement → Statement → Prop
  | function {f : String} {params zs zs' : List String} {b b' : Block} (hnames : p.Shares (f :: params))
      (hb : Block.Padded p zs zs' b b') : Statement.Padded p (.function f params b) (.function f params b')
  | block {zs zs' : List String} {b b' : Block} (hb : Block.Padded p zs zs' b b') :
      Statement.Padded p (.block b) (.block b')
  | declare {x : String} {init : Option Expression} (hnames : p.Shares (Statement.declare x init).names) :
      Statement.Padded p (.declare x init) (.declare x init)
  | evaluate {e : Expression} (he : p.Shares e.names) : Statement.Padded p (.evaluate e) (.evaluate e)
  | loop {e : Expression} {st st' : Statement} (he : p.Shares e.names) (hst : Statement.Padded p st st') :
      Statement.Padded p (.loop e st) (.loop e st')
  | ifThen {e : Expression} {st st' : Statement} (he : p.Shares e.names) (hst : Statement.Padded p st st') :
      Statement.Padded p (.ifThen e st) (.ifThen e st')
  | ifElse {e : Expression} {st st' other other' : Statement} (he : p.Shares e.names) (hst : Statement.Padded p st st')
      (hother : Statement.Padded p other other') : Statement.Padded p (.ifElse e st other) (.ifElse e st' other')
  | assign {x : String} {e : Expression} (hx : p.Common x) (he : p.Shares e.names) :
      Statement.Padded p (.assign x e) (.assign x e)
  | result {e : Expression} (he : p.Shares e.names) : Statement.Padded p (.result e) (.result e)

/-- The lists have the names that are added to the block itself, on each side. -/
inductive Block.Padded (p : Padding) : List String → List String → Block → Block → Prop
  | nil : Block.Padded p [] [] [] []
  | cons {zs zs' : List String} {st st' : Statement} {b b' : Block} (hst : Statement.Padded p st st')
      (hb : Block.Padded p zs zs' b b') : Block.Padded p zs zs' (st :: b) (st' :: b')
  | left {zs zs' : List String} {z : String} {st : Statement} {b b' : Block} (hst : st.Unused z) (hz : z ∈ p.left)
      (hnew : z ∉ zs) (hb : Block.Padded p zs zs' b b') : Block.Padded p (z :: zs) zs' (st :: b) b'
  | right {zs zs' : List String} {z : String} {st : Statement} {b b' : Block} (hst : st.Unused z) (hz : z ∈ p.right)
      (hnew : z ∉ zs') (hb : Block.Padded p zs zs' b b') : Block.Padded p zs (z :: zs') b (st :: b')

end

section Padded

variable {p : Padding}

mutual

theorem Statement.Padded.refl : ∀ st : Statement, p.Shares st.names → Statement.Padded p st st
  | .function f params b, h => by
    rw [Statement.names, Padding.shares_append] at h
    exact .function h.1 (Block.Padded.refl b h.2)
  | .block b, h => .block (Block.Padded.refl b h)
  | .declare _ _, h => .declare h
  | .evaluate _, h => .evaluate h
  | .loop c st, h => by
    rw [Statement.names, Padding.shares_append] at h
    exact .loop h.1 (Statement.Padded.refl st h.2)
  | .ifThen c st, h => by
    rw [Statement.names, Padding.shares_append] at h
    exact .ifThen h.1 (Statement.Padded.refl st h.2)
  | .ifElse c st other, h => by
    rw [Statement.names, Padding.shares_append, Padding.shares_append] at h
    exact .ifElse h.1.1 (Statement.Padded.refl st h.1.2) (Statement.Padded.refl other h.2)
  | .assign x e, h => by
    rw [Statement.names, Padding.shares_cons] at h
    exact .assign h.1 h.2
  | .result _, h => .result h

theorem Block.Padded.refl : ∀ b : List Statement, p.Shares (Block.names b) → Block.Padded p [] [] b b
  | [], _ => .nil
  | st :: b, h => by
    rw [Block.names, Padding.shares_append] at h
    exact .cons (Statement.Padded.refl st h.1) (Block.Padded.refl b h.2)

end

mutual

theorem Statement.Padded.symm {st st' : Statement} : Statement.Padded p st st' → Statement.Padded p.symm st' st
  | .function hnames hb => .function hnames.symm hb.symm
  | .block hb => .block hb.symm
  | .declare hnames => .declare hnames.symm
  | .evaluate he => .evaluate he.symm
  | .loop he hst => .loop he.symm hst.symm
  | .ifThen he hst => .ifThen he.symm hst.symm
  | .ifElse he hst hother => .ifElse he.symm hst.symm hother.symm
  | .assign hx he => .assign hx.symm he.symm
  | .result he => .result he.symm

theorem Block.Padded.symm {zs zs' : List String} {b b' : Block} :
    Block.Padded p zs zs' b b' → Block.Padded p.symm zs' zs b' b
  | .nil => .nil
  | .cons hst hb => .cons hst.symm hb.symm
  | .left hst hz hnew hb => .right hst hz hnew hb.symm
  | .right hst hz hnew hb => .left hst hz hnew hb.symm

end

theorem Block.Padded.added {zs zs' : List String} {b b' : Block} :
    Block.Padded p zs zs' b b' → (zs.Nodup ∧ zs ⊆ p.left) ∧ zs'.Nodup ∧ zs' ⊆ p.right
  | .nil => by simp
  | .cons _ hb => hb.added
  | .left _ hz hnew hb => by
    obtain ⟨⟨hnodup, hsub⟩, hright⟩ := hb.added
    exact ⟨⟨List.nodup_cons.2 ⟨hnew, hnodup⟩, List.cons_subset.2 ⟨hz, hsub⟩⟩, hright⟩
  | .right _ hz hnew hb => by
    obtain ⟨hleft, hnodup, hsub⟩ := hb.added
    exact ⟨hleft, List.nodup_cons.2 ⟨hnew, hnodup⟩, List.cons_subset.2 ⟨hz, hsub⟩⟩

end Padded

namespace Table

variable {α β : Type}

def seen (t : Table α) (hidden : List String) (x : String) : Option α := if x ∈ hidden then none else t.lookup? x

theorem seen_inherit_of_mem (t : Table α) {hidden : List String} {z : String} (hz : z ∈ hidden) (a : α) (x : String) :
    (t.inherit z a).seen hidden x = t.seen hidden x := by
  unfold seen
  by_cases hx : x ∈ hidden
  · simp [hx]
  · have hne : x ≠ z := fun heq => hx (heq ▸ hz)
    simp [lookup?_inherit, hx, hne]

theorem seen_inherit (t : Table α) {hidden : List String} {y : String} (hy : y ∉ hidden) (a : α) (x : String) :
    (t.inherit y a).seen hidden x = if x = y then some a else t.seen hidden x := by
  unfold seen
  by_cases hx : x = y
  · simp [lookup?_inherit, hx, hy]
  · simp [lookup?_inherit, hx]

theorem isDeclaredHere_bind_of_ne (t : Table α) {x y : String} (h : y ≠ x) (a : α) :
    (t.bind x a).isDeclaredHere y = t.isDeclaredHere y := by
  simp [isDeclaredHere_bind, h]

/-- The tables bind related items, and declare the same, where names of one side are overlooked. -/
structure Alike (p : Padding) (R : α → β → Prop) (t : Table α) (t' : Table β) : Prop where
  seen : ∀ x, Option.Rel R (t.seen p.left x) (t'.seen p.right x)
  declared : ∀ x, p.Common x → t.isDeclaredHere x = t'.isDeclaredHere x

namespace Alike

variable {p : Padding} {R Q : α → β → Prop} {t : Table α} {t' : Table β} {x z : String} {a : α} {b : β}

theorem lookup? (h : Alike p R t t') (hx : p.Common x) : Option.Rel R (t.lookup? x) (t'.lookup? x) := by
  have hseen := h.seen x
  rwa [Table.seen, Table.seen, if_neg hx.1, if_neg hx.2] at hseen

theorem child (h : Alike p R t t') : Alike p R t.child t'.child := ⟨h.seen, fun _ _ => rfl⟩

theorem inherit (h : Alike p R t t') (hx : p.Common x) (hab : R a b) : Alike p R (t.inherit x a) (t'.inherit x b) := by
  refine ⟨fun y => ?_, h.declared⟩
  rw [seen_inherit t hx.1, seen_inherit t' hx.2]
  by_cases hy : y = x
  · simpa [hy] using hab
  · simpa [hy] using h.seen y

theorem bind (h : Alike p R t t') (hx : p.Common x) (hab : R a b) : Alike p R (t.bind x a) (t'.bind x b) := by
  refine ⟨(h.inherit hx hab).seen, fun y hy => ?_⟩
  rw [isDeclaredHere_bind, isDeclaredHere_bind, h.declared y hy]

theorem bindLeft (h : Alike p R t t') (hz : z ∈ p.left) (a : α) : Alike p R (t.bind z a) t' := by
  refine ⟨fun y => ?_, fun y hy => ?_⟩
  · have hseen : (t.bind z a).seen p.left y = t.seen p.left y := t.seen_inherit_of_mem hz a y
    rw [hseen]
    exact h.seen y
  · have hne : y ≠ z := fun heq => hy.1 (heq ▸ hz)
    rw [isDeclaredHere_bind_of_ne t hne, h.declared y hy]

theorem bindRight (h : Alike p R t t') (hz : z ∈ p.right) (b : β) : Alike p R t (t'.bind z b) := by
  refine ⟨fun y => ?_, fun y hy => ?_⟩
  · have hseen : (t'.bind z b).seen p.right y = t'.seen p.right y := t'.seen_inherit_of_mem hz b y
    rw [hseen]
    exact h.seen y
  · have hne : y ≠ z := fun heq => hy.2 (heq ▸ hz)
    rw [isDeclaredHere_bind_of_ne t' hne, h.declared y hy]

/-- That names are bound on both sides, and to what, can be said apart. -/
theorem iff_of_true : Alike p R t t' ↔ Alike p (fun _ _ => True) t t' ∧
    ∀ x a b, t.seen p.left x = some a → t'.seen p.right x = some b → R a b := by
  constructor
  · intro h
    refine ⟨⟨fun x => ?_, h.declared⟩, fun x a b ha hb => ?_⟩
    · have hx := h.seen x
      generalize t.seen p.left x = r at hx ⊢
      generalize t'.seen p.right x = r' at hx ⊢
      cases hx with
      | none => exact .none
      | some _ => exact .some trivial
    · have hx := h.seen x
      rw [ha, hb] at hx
      cases hx with
      | some hab => exact hab
  · rintro ⟨h, hR⟩
    refine ⟨fun x => ?_, h.declared⟩
    have hx := h.seen x
    have hRx := hR x
    generalize t.seen p.left x = r at hx hRx ⊢
    generalize t'.seen p.right x = r' at hx hRx ⊢
    cases hx with
    | none => exact .none
    | some _ => exact .some (hRx _ _ rfl rfl)

theorem mono (h : Alike p R t t') (hRQ : ∀ a b, R a b → Q a b) : Alike p Q t t' := by
  obtain ⟨htrue, hR⟩ := iff_of_true.1 h
  exact iff_of_true.2 ⟨htrue, fun x a b ha hb => hRQ a b (hR x a b ha hb)⟩

theorem refl {R : α → α → Prop} {t : Table α} (hR : ∀ x a, t.lookup? x = some a → R a a)
    (hnames : ∀ x a, t.lookup? x = some a → p.Common x) : Alike p R t t := by
  refine ⟨fun x => ?_, fun _ _ => rfl⟩
  unfold Table.seen
  cases hx : t.lookup? x with
  | none => simp
  | some a =>
    have hcommon := hnames x a hx
    rw [if_neg hcommon.1, if_neg hcommon.2]
    exact .some (hR x a hx)

end Alike

end Table

/-- The name is bound or declared in the scope, or stands in one of its functions or in what they have captured. -/
inductive Scope.Mentions : Scope → String → Prop
  | boundVariable {s : Scope} {x : String} {cell : Cell} (hx : s.vars.lookup? x = some cell) : Mentions s x
  | boundFunction {s : Scope} {f : String} {g : Callable} (hf : s.funs.lookup? f = some g) : Mentions s f
  | declaredVariable {s : Scope} {x : String} (hx : s.vars.isDeclaredHere x = true) : Mentions s x
  | declaredFunction {s : Scope} {f : String} (hf : s.funs.isDeclaredHere f = true) : Mentions s f
  | text {s : Scope} {f x : String} {closure : Closure} (hf : s.funs.lookup? f = some (.user closure))
      (hx : x ∈ closure.decl.names) : Mentions s x
  | captured {s : Scope} {f x : String} {closure : Closure} (hf : s.funs.lookup? f = some (.user closure))
      (hx : Mentions closure.scope x) : Mentions s x

def Callable.Mentions : Callable → String → Prop
  | .native _, _ => False
  | .user closure, x => x ∈ closure.decl.names ∨ closure.scope.Mentions x

/-- Functions that differ in what is added to their bodies, and in the scopes that they captured. -/
inductive Callable.Linked (p : Padding) (L : Links) : Callable → Callable → Prop
  -- a function from before both programs, whatever it has captured
  | same {g : Callable} (hnames : ∀ x, g.Mentions x → p.Common x) (hcells : g.Within fun cell => L cell cell) :
      Linked p L g g
  | user {f : String} {params zs zs' : List String} {b b' : Block} {s s' : Scope} (hnames : p.Shares (f :: params))
      (hb : Block.Padded p zs zs' b b') (hvars : Table.Alike p L s.vars s'.vars)
      (hbound : Table.Alike p (fun _ _ => True) s.funs s'.funs)
      (hfuns : ∀ x g g', s.funs.seen p.left x = some g → s'.funs.seen p.right x = some g' → Linked p L g g') :
      Linked p L (.user ⟨⟨f, params, b⟩, s⟩) (.user ⟨⟨f, params, b'⟩, s'⟩)

/-- Scopes that differ in names of one side. -/
structure Scope.Linked (p : Padding) (L : Links) (s s' : Scope) : Prop where
  vars : Table.Alike p L s.vars s'.vars
  funs : Table.Alike p (Callable.Linked p L) s.funs s'.funs

namespace Callable.Linked

variable {p : Padding} {L M : Links} {g g' : Callable}

theorem mono (h : Linked p L g g') (hLM : L ≤ M) : Linked p M g g' := by
  induction h with
  | @same g hnames hcells =>
    refine .same hnames ?_
    cases g with
    | native tool => trivial
    | user closure => exact fun cell hcell => hLM cell cell (hcells cell hcell)
  | user hnames hb hvars hbound _ ih => exact .user hnames hb (hvars.mono hLM) hbound ih

theorem arity (h : Linked p L g g') : g.arity = g'.arity := by
  cases h with
  | same => rfl
  | user => rfl

end Callable.Linked

namespace Scope.Linked

variable {p : Padding} {L M : Links} {s s' : Scope} {g g' : Callable} {x : String} {a b : Cell}

theorem mono (h : Linked p L s s') (hLM : L ≤ M) : Linked p M s s' :=
  ⟨h.vars.mono hLM, h.funs.mono fun _ _ hg => hg.mono hLM⟩

theorem refl (hnames : ∀ x, s.Mentions x → p.Common x) (hcells : s.Within fun cell => L cell cell) :
    Linked p L s s := by
  refine ⟨.refl hcells.vars fun x _ hx => hnames x (.boundVariable hx), .refl ?_ fun x _ hx => hnames x (.boundFunction hx)⟩
  intro f g hf
  refine .same (fun x hx => ?_) (hcells.funs f g hf)
  cases g with
  | native tool => exact hx.elim
  | user closure => exact hx.elim (fun htext => hnames x (.text hf htext)) fun hscope => hnames x (.captured hf hscope)

theorem child (h : Linked p L s s') : Linked p L s.child s'.child := ⟨h.vars.child, h.funs.child⟩

theorem cell (h : Linked p L s s') (hx : p.Common x) : ExceptRel Eq L (s.cell x) (s'.cell x) := by
  unfold Scope.cell
  have hlookup := h.vars.lookup? hx
  generalize s.vars.lookup? x = r at hlookup ⊢
  generalize s'.vars.lookup? x = r' at hlookup ⊢
  cases hlookup with
  | none => exact .error rfl
  | some hab => exact .ok hab

theorem callable (h : Linked p L s s') (hx : p.Common x) :
    ExceptRel Eq (Callable.Linked p L) (s.callable x) (s'.callable x) := by
  unfold Scope.callable
  have hlookup := h.funs.lookup? hx
  generalize s.funs.lookup? x = r at hlookup ⊢
  generalize s'.funs.lookup? x = r' at hlookup ⊢
  cases hlookup with
  | none => exact .error rfl
  | some hg => exact .ok hg

theorem declareVariable (h : Linked p L s s') (hx : p.Common x) (hab : L a b) :
    ExceptRel Eq (Linked p L) (s.declareVariable x a) (s'.declareVariable x b) := by
  unfold Scope.declareVariable Table.declare?
  rw [h.vars.declared x hx]
  cases s'.vars.isDeclaredHere x with
  | true => exact .error rfl
  | false => exact .ok ⟨h.vars.bind hx hab, h.funs⟩

theorem declareFunction (h : Linked p L s s') (hx : p.Common x) (hg : Callable.Linked p L g g') :
    ExceptRel Eq (Linked p L) (s.declareFunction x g) (s'.declareFunction x g') := by
  unfold Scope.declareFunction Table.declare?
  rw [h.funs.declared x hx]
  cases s'.funs.isDeclaredHere x with
  | true => exact .error rfl
  | false => exact .ok ⟨h.vars, h.funs.bind hx hg⟩

end Scope.Linked

def Padding.Bodies (p : Padding) (b b' : Block) : Prop := ∃ zs zs', Block.Padded p zs zs' b b'

theorem Callable.linked_iff {p : Padding} {L : Links} {g g' : Callable} :
    Callable.Linked p L g g' ↔ Callable.Rel p.Both p.Both p.Bodies (Scope.Linked p L) g g' := by
  constructor
  · intro h
    cases h with
    | @same g hnames hcells =>
      cases g with
      | native tool => exact .native tool
      | user closure =>
        obtain ⟨⟨f, params, b⟩, s⟩ := closure
        have htext : p.Shares (f :: params ++ Block.names b) := fun x hx => hnames x (.inl hx)
        rw [Padding.shares_append, Padding.shares_cons] at htext
        exact .user ⟨rfl, htext.1.1⟩ (Padding.both_all.2 ⟨rfl, htext.1.2⟩) ⟨[], [], .refl b htext.2⟩
          (.refl (fun x hx => hnames x (.inr hx)) hcells)
    | user hnames hb hvars hbound hfuns =>
      rw [Padding.shares_cons] at hnames
      exact .user ⟨rfl, hnames.1⟩ (Padding.both_all.2 ⟨rfl, hnames.2⟩) ⟨_, _, hb⟩
        ⟨hvars, Table.Alike.iff_of_true.2 ⟨hbound, hfuns⟩⟩
  · intro h
    cases h with
    | native tool => exact .same (fun _ hx => hx.elim) trivial
    | user hf hparams hb hs =>
      obtain ⟨rfl, hf⟩ := hf
      obtain ⟨rfl, hnames⟩ := Padding.both_all.1 hparams
      obtain ⟨zs, zs', hb⟩ := hb
      obtain ⟨hbound, hfuns⟩ := Table.Alike.iff_of_true.1 hs.funs
      exact .user (Padding.shares_cons.2 ⟨hf, hnames⟩) hb hs.vars hbound hfuns

theorem Scope.Linked.entryScope {p : Padding} {L : Links} {closure closure' : Closure}
    (h : Callable.Rel p.Both p.Both p.Bodies (Scope.Linked p L) (.user closure) (.user closure')) :
    Scope.Linked p L closure.entryScope closure'.entryScope := by
  have hg := Callable.linked_iff.2 h
  cases h with
  | user hf _ _ hs =>
    obtain ⟨rfl, hf⟩ := hf
    exact ⟨hs.vars.child, hs.funs.child.inherit hf hg⟩

end IntScript
