import IntScript.Proofs.NotedEvents
import IntScript.Proofs.StaticScoping

set_option autoImplicit false

/-! # Which definition a call goes to

The definition that a function's name stands for at a place is read off the text: the last one before the place in a
block around it, or the function around it. Every closure that a run finds under a name was made at that definition. Such
a definition stands around the place or before it, so it ends before every function around the place that it is not
around itself. -/

namespace IntScript

namespace Place

def Encloses (q p : Place) : Prop := q <:+ p ∧ q ≠ p

/-- The text at the first place ends before the text at the second does: it is a part of it, or both stand in parts of
one text and its part comes first. -/
inductive EndsBefore : Place → Place → Prop
  | inside {p q : Place} (h : Encloses q p) : EndsBefore p q
  | left {c : Place} {i j : Nat} (r t : Place) (h : i < j) : EndsBefore (r ++ i :: c) (t ++ j :: c)

/-- What can be seen from a place: what is around it, and what stands before something around it. -/
inductive Sees : Place → Place → Prop
  | around {p q : Place} (h : Encloses q p) : Sees p q
  | before {p c : Place} {i j : Nat} (hp : (j :: c) <:+ p) (h : i < j) : Sees p (i :: c)

theorem encloses_cons (i : Nat) (p : Place) : Encloses p (i :: p) :=
  ⟨List.suffix_cons i p, (List.cons_ne_self i p).symm⟩

theorem Sees.cons {p q : Place} (h : Sees p q) (i : Nat) : Sees (i :: p) q := by
  cases h with
  | around h =>
    apply Sees.around
    refine ⟨h.1.trans (List.suffix_cons i p), fun heq => ?_⟩
    have hle := h.1.length_le
    rw [heq, List.length_cons] at hle
    omega
  | before hp h => exact .before (hp.trans (List.suffix_cons i p)) h

theorem Sees.outward {p q D : Place} (h : Sees p q) (hD : Encloses D p) : q <:+ D ∨ EndsBefore q D := by
  cases h with
  | around h =>
    rcases List.suffix_or_suffix_of_suffix h.1 hD.1 with hout | hin
    · exact .inl hout
    · by_cases heq : D = q
      · exact .inl (heq ▸ List.suffix_refl D)
      · exact .inr (.inside ⟨hin, heq⟩)
  | @before c i j hp h =>
    rcases List.suffix_or_suffix_of_suffix hp hD.1 with ⟨t, rfl⟩ | hin
    · exact .inr (.left [] t h)
    · rcases List.suffix_cons_iff.1 hin with rfl | hin
      · exact .inr (.left [] [] h)
      · refine .inr (.inside ⟨hin.trans (List.suffix_cons i c), fun heq => ?_⟩)
        have hle := hin.length_le
        rw [heq, List.length_cons] at hle
        omega

end Place

def Block.definition? (b : Block) (f : String) : Nat → Option Nat
  | 0 => none
  | i + 1 =>
    match b[i]? with
    | some (.function g _ _) => if g = f then some i else Block.definition? b f i
    | _ => Block.definition? b f i

theorem Block.definition?_lt {b : Block} {f : String} {i k : Nat} (h : Block.definition? b f i = some k) : k < i := by
  induction i with
  | zero => cases h
  | succ i ih =>
    rw [Block.definition?] at h
    split at h
    · split at h
      · cases h
        omega
      · have hlt := ih h
        omega
    · have hlt := ih h
      omega

namespace Point

variable {start : Point} {p : Place} {E : StaticScope} {b : Block} {f : String} {i : Nat}

/-- The place of the definition that a function's name stands for at a place. -/
def resolve (start : Point) (f : String) : Place → Option Place
  | [] => none
  | i :: p =>
    match (start.at? p).map Point.node with
    | some (.program b) => (Block.definition? b f i).map (· :: p) <|> start.resolve f p
    | some (.statement (.block b)) => (Block.definition? b f i).map (· :: p) <|> start.resolve f p
    | some (.statement (.function g _ b)) =>
      (Block.definition? b f i).map (· :: p) <|> if g = f then some p else start.resolve f p
    | _ => start.resolve f p

theorem sees_of_definition {q : Place} {rest : Option Place}
    (hrest : rest = some q → Place.Sees (i :: p) q)
    (h : ((Block.definition? b f i).map (· :: p) <|> rest) = some q) : Place.Sees (i :: p) q := by
  cases hd : Block.definition? b f i with
  | none =>
    rw [hd] at h
    exact hrest h
  | some k =>
    rw [hd] at h
    cases h
    exact .before (List.suffix_refl _) (Block.definition?_lt hd)

theorem sees_of_resolve {q : Place} (h : start.resolve f p = some q) : Place.Sees p q := by
  induction p generalizing q with
  | nil => cases h
  | cons i p ih =>
    rw [resolve] at h
    split at h
    · exact sees_of_definition (fun h => (ih h).cons i) h
    · exact sees_of_definition (fun h => (ih h).cons i) h
    · refine sees_of_definition (fun h => ?_) h
      split at h
      · cases h
        exact .around (Place.encloses_cons i p)
      · exact (ih h).cons i
    · exact (ih h).cons i

theorem resolve_part {point : Point} (hat : start.at? p = some point) (hb : point.block? = none) (f : String)
    (i : Nat) : start.resolve f (i :: p) = start.resolve f p := by
  obtain ⟨E, node⟩ := point
  rw [resolve, hat]
  cases node with
  | program b => cases hb
  | expression e => rfl
  | statement st =>
    cases st with
    | function g params b => cases hb
    | block b => cases hb
    | _ => rfl

theorem resolve_block (hat : start.at? p = some ⟨E, .statement (.block b)⟩) (f : String) :
    start.resolve f (0 :: p) = start.resolve f p := by
  rw [resolve, hat]
  rfl

theorem resolve_function {g : String} {params : List String}
    (hat : start.at? p = some ⟨E, .statement (.function g params b)⟩) (f : String) :
    start.resolve f (0 :: p) = if g = f then some p else start.resolve f p := by
  rw [resolve, hat]
  rfl

theorem resolve_defined {point : Point} (hat : start.at? p = some point) (hb : point.block? = some (E, b))
    {params : List String} {body : Block} (hi : b[i]? = some (.function f params body)) :
    start.resolve f ((i + 1) :: p) = some (i :: p) := by
  have hd : Block.definition? b f (i + 1) = some i := by simp [Block.definition?, hi]
  unfold block? at hb
  split at hb <;> cases hb <;> simp [resolve, hat, hd]

theorem resolve_next {point : Point} (hat : start.at? p = some point) (hb : point.block? = some (E, b))
    {st : Statement} (hi : b[i]? = some st) (hst : ∀ params body, st ≠ .function f params body) :
    start.resolve f ((i + 1) :: p) = start.resolve f (i :: p) := by
  have hd : Block.definition? b f (i + 1) = Block.definition? b f i := by
    rw [Block.definition?, hi]
    cases st with
    | function g params body =>
      have hne : g ≠ f := by
        rintro rfl
        exact hst params body rfl
      exact if_neg hne
    | _ => rfl
  unfold block? at hb
  split at hb <;> cases hb <;> simp only [resolve, hat, hd, Option.map_some]

end Point

namespace Config

def position (g : Config) : Place :=
  match g.task with
  | .statements i _ => i :: g.place
  | .parameters _ _ _ => 0 :: g.place
  | _ => g.place

/-- Every closure in scope was made at the definition that its name stands for. -/
def Resolves (start : Config) (text : Point) (g : Config) : Prop :=
  ∀ f closure, g.scope.funs.lookup? f = some (.user closure) →
    ∃ made, Reached start made ∧ made.Makes closure ∧ text.resolve f g.position = some made.place

variable {start g h : Config} {text : Point} {E : StaticScope}

theorem Resolves.of_eq (hg : Resolves start text g) (hfuns : h.scope.funs.lookup? = g.scope.funs.lookup?)
    (hplace : ∀ f, text.resolve f h.position = text.resolve f g.position) : Resolves start text h := by
  intro f closure hf
  rw [hfuns] at hf
  rw [hplace]
  exact hg f closure hf

theorem Resolves.part (hg : Resolves start text g) (hfuns : h.scope.funs.lookup? = g.scope.funs.lookup?)
    {point : Point} {i : Nat} (hat : text.at? g.position = some point) (hb : point.block? = none)
    (hplace : h.position = i :: g.position) : Resolves start text h := by
  apply hg.of_eq hfuns
  intro f
  rw [hplace, Point.resolve_part hat hb]

theorem Resolves.nextStatement {p : Place} {n : Nat} {c : Context} {s : Scope} {w : World} {i : Nat} {st : Statement}
    {rest : Block} {f : Frame} (hreached : Reached start ⟨p, n + 1, c, s, w, .statements i (st :: rest)⟩)
    (ht : Text text ⟨p, n + 1, c, s, w, .statements i (st :: rest)⟩ E)
    (hg : Resolves start text ⟨p, n + 1, c, s, w, .statements i (st :: rest)⟩)
    (hst : Statement.exec n c st ⟨s, w⟩ = (.done none, f)) :
    Resolves start text ⟨p, n, c, f.scope, f.world, .statements (i + 1) rest⟩ := by
  obtain ⟨point, first, b, hat, hb, -, hrest⟩ := ht
  have hi : b[i]? = some st := by
    rw [← List.head?_drop, hrest]
    rfl
  have hd := Statement.exec_declares hst
  have hkeep : f.scope.funs = s.funs → (∀ g params body, st ≠ .function g params body) →
      Resolves start text ⟨p, n, c, f.scope, f.world, .statements (i + 1) rest⟩ := by
    intro hfuns hother
    apply hg.of_eq
    · exact congrArg Table.lookup? hfuns
    · intro g
      exact Point.resolve_next hat hb hi (hother g)
  cases st with
  | declare x init =>
    obtain ⟨cell, hx⟩ := hd
    obtain ⟨-, hscope⟩ := Scope.declareVariable_eq_ok.1 hx
    exact hkeep (by rw [hscope]) nofun
  | function g params body =>
    obtain ⟨-, hscope⟩ := Scope.declareFunction_eq_ok.1 hd
    intro g' closure hlookup
    dsimp only at hlookup
    rw [hscope, Table.lookup?_bind] at hlookup
    by_cases heq : g' = g
    · subst heq
      rw [if_pos rfl] at hlookup
      cases hlookup
      -- the definition itself, which was reached just before
      exact ⟨_, hreached.calls .statement, ⟨rfl, rfl⟩, Point.resolve_defined hat hb hi⟩
    · rw [if_neg heq] at hlookup
      obtain ⟨made, hmade, hmakes, hplace⟩ := hg g' closure hlookup
      refine ⟨made, hmade, hmakes, ?_⟩
      rw [← hplace]
      refine Point.resolve_next hat hb hi fun params' body' heq' => heq ?_
      cases heq'
      rfl
  | _ => exact hkeep (congrArg Scope.funs hd) nofun

theorem Resolves.calls (hreached : Reached start g) (ht : g.Text text E) (hg : Resolves start text g) (hc : Calls g h) :
    Resolves start text h := by
  cases hc with
  | left => exact hg.part rfl ht rfl rfl
  | right => exact hg.part rfl ht rfl rfl
  | arguments => exact hg
  | argument =>
    obtain ⟨_, _, hat, -⟩ := ht
    exact hg.part rfl hat rfl rfl
  | nextArgument => exact hg
  | invocation => exact hg
  | parameter hx =>
    obtain ⟨-, rfl⟩ := Scope.declareVariable_eq_ok.1 hx
    exact hg
  | body => exact hg
  | block => exact hg.of_eq rfl (Point.resolve_block ht)
  | initial => exact hg.part rfl ht rfl rfl
  | evaluate => exact hg.part rfl ht rfl rfl
  | loop => exact hg
  | condition => exact hg.part rfl ht rfl rfl
  | consequent => exact hg.part rfl ht rfl rfl
  | choice => exact hg.part rfl ht rfl rfl
  | first => exact hg.part rfl ht rfl rfl
  | second => exact hg.part rfl ht rfl rfl
  | assigned => exact hg.part rfl ht rfl rfl
  | result => exact hg.part rfl ht rfl rfl
  | statement => exact hg
  | nextStatement hst => exact hg.nextStatement hreached ht hst
  | branchBlock => exact hg.of_eq rfl (Point.resolve_block ht)
  | branchStatement => exact hg
  | loopCondition => exact hg.part rfl ht rfl rfl
  | loopBody => exact hg.part rfl ht rfl rfl
  | nextIteration => exact hg

/-- Inside a call, what the closure had captured is found as at its definition, and the function itself is around. -/
theorem Resolves.enters {made : Config} {closure : Closure} (hreached : Reached start made) (hmade : made.Makes closure)
    (ht : made.Text text E) (hm : Resolves start text made) (he : Enters made.place closure g h) :
    Resolves start text h := by
  have hat : text.at? made.place = some ⟨E, .statement closure.decl.statement⟩ := by
    unfold Text at ht
    rw [hmade.1] at ht
    exact ht
  have hposition : made.position = made.place := by
    unfold position
    rw [hmade.1]
  cases he with
  | intro hf hargs hd =>
    intro f closure' hlookup
    have hlookup : closure.entryScope.funs.lookup? f = some (.user closure') := hlookup
    rw [Closure.entryScope, Scope.inheritFunction, Table.lookup?_inherit] at hlookup
    change ∃ made', Reached start made' ∧ made'.Makes closure' ∧ text.resolve f (0 :: made.place) = some made'.place
    rw [Point.resolve_function hat]
    -- the function is around its own body; all else was found at the definition
    by_cases heq : f = closure.decl.name
    · rw [if_pos heq] at hlookup
      cases hlookup
      exact ⟨made, hreached, hmade, if_pos heq.symm⟩
    · rw [if_neg heq, hmade.2] at hlookup
      obtain ⟨made', hmade', hmakes, hplace⟩ := hm f closure' hlookup
      rw [hposition] at hplace
      exact ⟨made', hmade', hmakes, by rw [if_neg (Ne.symm heq), hplace]⟩

end Config

variable {r : Registry} {limits : Limits} {program : Block} {fuel : Nat} {g : Config}

theorem Reached.resolves (hg : Reached (.ofProgram r limits program fuel) g) :
    Config.Resolves (.ofProgram r limits program fuel) (.ofProgram r program) g := by
  induction hg with
  | start => exact fun f closure hf => absurd hf (Config.ofProgram_native r limits program fuel f closure)
  | calls hg hc ih =>
    obtain ⟨E, ht, -⟩ := hg.text
    exact ih.calls hg ht hc
  | enters _ hm hmade he _ ih =>
    obtain ⟨E, ht, -⟩ := hm.text
    exact ih.enters hm hmade ht he

theorem Calls.relocate {g h : Config} (hc : Calls g h) (p : Place) :
    ∃ q, Calls ⟨p, g.fuel, g.context, g.scope, g.world, g.task⟩ ⟨q, h.fuel, h.context, h.scope, h.world, h.task⟩ := by
  cases hc <;> exact ⟨_, by constructor <;> assumption⟩

theorem Trail.reached {k : Nat} {live : List Scope} (hg : Trail (.ofProgram r limits program fuel) k live g) :
    ∃ p, Reached (.ofProgram r limits program fuel) ⟨p, g.fuel, g.context, g.scope, g.world, g.task⟩ := by
  induction hg with
  | start => exact ⟨[], .start⟩
  | calls _ hc ih =>
    obtain ⟨p, hg⟩ := ih
    obtain ⟨q, hc⟩ := hc.relocate p
    exact ⟨q, hg.calls hc⟩
  | enters _ he ih =>
    obtain ⟨p, hg⟩ := ih
    cases he with
    | intro hf hargs hd =>
      obtain ⟨made, hm, hmade⟩ := hg.made (Config.ofProgram_native r limits program fuel) (Scope.callable_eq_ok.1 hf)
      exact ⟨made.place, hg.enters hm hmade (.intro hf hargs hd)⟩

end IntScript
