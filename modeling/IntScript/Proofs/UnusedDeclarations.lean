import IntScript.Proofs.CellNames
import IntScript.Proofs.FrameChains
import IntScript.Proofs.PaddedRuns

set_option autoImplicit false

namespace IntScript

mutual

/-- The second statement is the first with unused declarations in its blocks. The list has their names. -/
inductive Statement.Inserts : List String → Statement → Statement → Prop
  | same (st : Statement) : Statement.Inserts [] st st
  | function (f : String) (params : List String) {zs : List String} {b b' : Block} (hb : Block.Inserts zs b b') :
      Statement.Inserts zs (.function f params b) (.function f params b')
  | block {zs : List String} {b b' : Block} (hb : Block.Inserts zs b b') : Statement.Inserts zs (.block b) (.block b')
  | loop (e : Expression) {zs : List String} {st st' : Statement} (hst : Statement.Inserts zs st st') :
      Statement.Inserts zs (.loop e st) (.loop e st')
  | ifThen (e : Expression) {zs : List String} {st st' : Statement} (hst : Statement.Inserts zs st st') :
      Statement.Inserts zs (.ifThen e st) (.ifThen e st')
  | ifElse (e : Expression) {zs us : List String} {st st' other other' : Statement}
      (hst : Statement.Inserts zs st st') (hother : Statement.Inserts us other other') :
      Statement.Inserts (zs ++ us) (.ifElse e st other) (.ifElse e st' other')

inductive Block.Inserts : List String → Block → Block → Prop
  | nil : Block.Inserts [] [] []
  | cons {zs us : List String} {st st' : Statement} {b b' : Block} (hst : Statement.Inserts zs st st')
      (hb : Block.Inserts us b b') : Block.Inserts (zs ++ us) (st :: b) (st' :: b')
  | added {z : String} {st : Statement} (hst : st.Unused z) {zs : List String} {b b' : Block}
      (hb : Block.Inserts zs b b') : Block.Inserts (z :: zs) b (st :: b')

end

section Padded

variable {p : Padding}

mutual

theorem Statement.Inserts.padded {zs : List String} {st st' : Statement} : Statement.Inserts zs st st' → zs.Nodup →
    zs ⊆ p.right → p.Shares st.names → Statement.Padded p st st'
  | .same st, _, _, hnames => .refl st hnames
  | .function f params hb, hnodup, hzs, hnames => by
    rw [Statement.names, Padding.shares_append] at hnames
    obtain ⟨us, -, hb⟩ := hb.padded hnodup hzs hnames.2
    exact .function hnames.1 hb
  | .block hb, hnodup, hzs, hnames => by
    obtain ⟨us, -, hb⟩ := hb.padded hnodup hzs hnames
    exact .block hb
  | .loop e hst, hnodup, hzs, hnames => by
    rw [Statement.names, Padding.shares_append] at hnames
    exact .loop hnames.1 (hst.padded hnodup hzs hnames.2)
  | .ifThen e hst, hnodup, hzs, hnames => by
    rw [Statement.names, Padding.shares_append] at hnames
    exact .ifThen hnames.1 (hst.padded hnodup hzs hnames.2)
  | .ifElse e hst hother, hnodup, hzs, hnames => by
    rw [Statement.names, Padding.shares_append, Padding.shares_append] at hnames
    rw [List.append_subset] at hzs
    have hparts := List.nodup_append.1 hnodup
    exact .ifElse hnames.1.1 (hst.padded hparts.1 hzs.1 hnames.1.2) (hother.padded hparts.2.1 hzs.2 hnames.2)

theorem Block.Inserts.padded {zs : List String} {b b' : Block} : Block.Inserts zs b b' → zs.Nodup → zs ⊆ p.right →
    p.Shares (Block.names b) → ∃ us, us ⊆ zs ∧ Block.Padded p [] us b b'
  | .nil, _, _, _ => ⟨[], List.Subset.refl _, .nil⟩
  | .cons hst hb, hnodup, hzs, hnames => by
    rw [Block.names, Padding.shares_append] at hnames
    rw [List.append_subset] at hzs
    have hparts := List.nodup_append.1 hnodup
    obtain ⟨us, hus, hb⟩ := hb.padded hparts.2.1 hzs.2 hnames.2
    exact ⟨us, List.subset_append_of_subset_right _ hus, .cons (hst.padded hparts.1 hzs.1 hnames.1) hb⟩
  | .added hst hb, hnodup, hzs, hnames => by
    rw [List.nodup_cons] at hnodup
    rw [List.cons_subset] at hzs
    obtain ⟨us, hus, hb⟩ := hb.padded hnodup.2 hzs.2 hnames
    exact ⟨_ :: us, List.cons_subset_cons _ hus, .right hst hzs.1 (fun hz => hnodup.1 (hus hz)) hb⟩

end

end Padded

namespace Table

variable {α β γ : Type}

def seenNames (t : Table α) (hidden : List String) : List String := t.names.filter fun x => (t.seen hidden x).isSome

theorem mem_seenNames {t : Table α} {hidden : List String} {x : String} :
    x ∈ t.seenNames hidden ↔ (t.seen hidden x).isSome = true := by
  rw [seenNames, List.mem_filter, names, Text.mem_sortedNames, mem_names]
  refine ⟨And.right, fun h => ⟨?_, h⟩⟩
  unfold seen at h
  split at h
  · cases h
  · exact h

theorem filter_entries (t : Table α) (hidden : List String) (f : α → γ) :
    (t.entries.map fun q => (q.1, f q.2)).filter (fun q => q.1 ∉ hidden) =
      (t.seenNames hidden).filterMap fun x => (t.seen hidden x).map fun a => (x, f a) := by
  rw [entries, seenNames, List.map_filterMap, List.filter_filterMap, List.filterMap_filter]
  congr 1
  funext x
  unfold seen
  by_cases hx : x ∈ hidden
  · cases t.lookup? x <;> simp [hx]
  · cases t.lookup? x <;> simp [hx]

theorem Alike.filter_entries {p : Padding} {R : α → β → Prop} {t : Table α} {t' : Table β} {f : α → γ} {g : β → γ}
    (h : Alike p R t t') (hR : ∀ a b, R a b → f a = g b) :
    (t.entries.map fun q => (q.1, f q.2)).filter (fun q => q.1 ∉ p.left) =
      (t'.entries.map fun q => (q.1, g q.2)).filter (fun q => q.1 ∉ p.right) := by
  have hitem : ∀ x, (t.seen p.left x).map f = (t'.seen p.right x).map g := by
    intro x
    have hx := h.seen x
    generalize t.seen p.left x = r at hx ⊢
    generalize t'.seen p.right x = r' at hx ⊢
    cases hx with
    | none => rfl
    | some hab => exact congrArg some (hR _ _ hab)
  have hnames : t.seenNames p.left = t'.seenNames p.right := by
    have hsorted := (Text.sortedNames_increasing (t.bindings.map Prod.fst)).filter fun x => (t.seen p.left x).isSome
    have hsorted' := (Text.sortedNames_increasing (t'.bindings.map Prod.fst)).filter fun x => (t'.seen p.right x).isSome
    refine List.Pairwise.eq_of_mem_iff hsorted hsorted' fun x => ?_
    have hsome := congrArg Option.isSome (hitem x)
    rw [Option.isSome_map, Option.isSome_map] at hsome
    exact mem_seenNames.trans (hsome ▸ mem_seenNames.symm)
  rw [Table.filter_entries, Table.filter_entries, hnames]
  congr 1
  funext x
  have hpair := congrArg (Option.map fun c => (x, c)) (hitem x)
  rwa [Option.map_map, Option.map_map] at hpair

end Table

namespace Scope

variable {s : Scope} {cell : Cell}

theorem Reaches.binds (h : s.Reaches cell) : ∃ x, s.Binds x cell := by
  induction h with
  | bound hx => exact ⟨_, .bound hx⟩
  | captured hf _ ih =>
    obtain ⟨x, hx⟩ := ih
    exact ⟨x, .captured hf hx⟩

end Scope

namespace Interpreter

variable {i j j' : Interpreter} {n n' : Nat} {P P' : Block} {p : Padding}

/-- The interpreters show the same, where names of one side are overlooked. -/
structure AlikeBut (p : Padding) (j j' : Interpreter) : Prop where
  output : j.world.output = j'.world.output
  values : j.values.filter (fun q => q.1 ∉ p.left) = j'.values.filter (fun q => q.1 ∉ p.right)
  arities : j.arities.filter (fun q => q.1 ∉ p.left) = j'.arities.filter (fun q => q.1 ∉ p.right)

theorem alikeBut_of_linked {L : Links} (i : Interpreter) {f f' : Frame} (h : Frame.Linked p L f f') :
    AlikeBut p (i.withFrame f) (i.withFrame f') := by
  obtain ⟨M, -, hs, hw⟩ := h
  refine ⟨?_, hs.vars.filter_entries hw.read, hs.funs.filter_entries fun _ _ hg => hg.arity⟩
  have hshown := congrArg (List.filterMap Event.output?) hw.shown
  rwa [← World.output_eq, ← World.output_eq] at hshown

theorem AlikeBut.of_looksLike {k k' : Interpreter} (h : AlikeBut p j j') (hj : k.LooksLike j) (hj' : k'.LooksLike j') :
    AlikeBut p k k' := by
  constructor
  · rw [hj.output, hj'.output, h.output]
  · rw [hj.values, hj'.values, h.values]
  · rw [hj.arities, hj'.arities, h.arities]

/-- At first each cell is linked with itself. -/
theorem start_linked (P P' : Block) (hnames : ∀ x, i.globals.Mentions x → p.Common x)
    (hcells : i.globals.Within fun cell => cell.index < i.world.store.size) :
    Frame.Linked p (fun a b => a = b ∧ a.index < i.world.store.size) ⟨i.globals, i.start P⟩ ⟨i.globals, i.start P'⟩ := by
  refine ⟨_, le_refl _, .refl hnames fun cell hcell => ⟨rfl, hcells cell hcell⟩, ?_, ?_, ?_, ?_⟩
  · exact (i.world.shown_note rfl).trans (i.world.shown_note rfl).symm
  · rintro a b ⟨rfl, ha⟩
    exact ⟨ha, ha⟩
  · rintro a b ⟨rfl, -⟩
    rfl
  · rintro a b c d ⟨rfl, -⟩ ⟨rfl, -⟩
    exact Iff.rfl

theorem execute_padded (i : Interpreter) {zs zs' : List String} (hP : Block.Padded p zs zs' P P')
    (hnames : ∀ x, i.globals.Mentions x → p.Common x)
    (hcells : i.globals.Within fun cell => cell.index < i.world.store.size) (hn : p.cost * n ≤ n') :
    (execute n P i).1 = (execute n' P' i).1 ∧ AlikeBut p (execute n P i).2 (execute n' P' i).2 ∨
      (execute n P i).1 = .outOfFuel ∧ (execute n P i).2.world.output <+: (execute n' P' i).2.world.output := by
  obtain ⟨hout, hseen⟩ := execute_body n P i
  obtain ⟨hout', hseen'⟩ := execute_body n' P' i
  have hlacks : ∀ us : List String, (∀ z ∈ us, ¬ p.Common z) → i.globals.Lacks us := by
    intro us hus z hz
    constructor
    · rw [← Bool.not_eq_true]
      exact fun hdeclared => hus z hz (hnames z (.declaredVariable hdeclared))
    · rw [← Bool.not_eq_true]
      exact fun hdeclared => hus z hz (hnames z (.declaredFunction hdeclared))
  obtain ⟨⟨-, hzs⟩, -, hzs'⟩ := hP.added
  have hleft := hlacks zs fun z hz hcommon => hcommon.1 (hzs hz)
  have hright := hlacks zs' fun z hz hcommon => hcommon.2 (hzs' hz)
  have hboth := ((p.along hn).block (c := .top i.limits) rfl ⟨zs, zs', hP⟩).endsAlike zs zs' _ _ hP
    (start_linked P P' hnames hcells) hleft hright
  rcases hboth with ⟨hsame, hlinked⟩ | ⟨hcut, hshown⟩
  · left
    constructor
    · rw [hout, hout']
      exact hsame
    · exact (i.alikeBut_of_linked hlinked).of_looksLike hseen hseen'
  · right
    constructor
    · rw [hout]
      exact Outcome.IsCut.outOfFuel hcut
    · rw [hseen.output, hseen'.output, World.output_eq, World.output_eq]
      exact hshown.filterMap _

theorem mirrors_of_padded {zs zs' : List String} (hP : Block.Padded p zs zs' P P')
    (hnames : ∀ x, i.globals.Mentions x → p.Common x)
    (hcells : i.globals.Within fun cell => cell.index < i.world.store.size) : MirrorsUpTo (AlikeBut p) i P P' :=
  mirrorsUpTo_of_execute (p.cost * ·) (fun _ _ h => h.output) fun n =>
    execute_padded i hP hnames hcells (Nat.le_refl (p.cost * n))

/-- The second interpreter shows what the first shows, and besides it at most variables and functions of these names. -/
structure Adds (zs : List String) (j j' : Interpreter) : Prop where
  output : j.world.output = j'.world.output
  values : j.values = j'.values.filter fun q => q.1 ∉ zs
  arities : j.arities = j'.arities.filter fun q => q.1 ∉ zs

theorem AlikeBut.adds {zs : List String} (h : AlikeBut ⟨[], zs⟩ j j') : Adds zs j j' := by
  refine ⟨h.output, ?_, ?_⟩
  · simpa using h.values
  · simpa using h.arities

theorem AlikeBut.adds_symm {zs : List String} (h : AlikeBut ⟨zs, []⟩ j' j) : Adds zs j j' := by
  refine ⟨h.output.symm, ?_, ?_⟩
  · simpa using h.values.symm
  · simpa using h.arities.symm

theorem Arises.within {r : Registry} {seen : List Scope} (h : Arises r seen i) :
    i.globals.Within fun cell => cell.index < i.world.store.size := by
  intro cell hcell
  obtain ⟨x, hx⟩ := hcell.binds
  exact h.named.allocated h.globals_mem hx

/-- At first the names in sight are those of the tools. -/
theorem tool_of_mentions {r : Registry} {limits : Limits} {x : String} (h : (ofRegistry r limits).globals.Mentions x) :
    r.has x = true := by
  have hlookup : ∀ f, (ofRegistry r limits).globals.funs.lookup? f = (r.tools.lookup? f).map .native :=
    Table.lookup?_map r.tools Callable.native
  cases h with
  | boundVariable hx => cases hx
  | boundFunction hf =>
    rw [hlookup, Option.map_eq_some_iff] at hf
    obtain ⟨tool, htool, -⟩ := hf
    simp [Registry.has, Table.contains, htool]
  | declaredVariable hx => cases hx
  | declaredFunction hf => cases hf
  | text hf | captured hf =>
    rw [hlookup, Option.map_eq_some_iff] at hf
    obtain ⟨tool, -, htool⟩ := hf
    cases htool

end Interpreter

open Interpreter

/-- Wherever in a program declarations are added of distinct names that it, the tools and the interpreter do not have,
it ends alike or never ends, puts out the same, and leaves the same variables and functions to be seen but for those.
Tools have no memory, as `Tool` assumes. -/
theorem unused_declarations_harmless {r : Registry} {seen : List Scope} {i : Interpreter} (hi : Arises r seen i)
    {zs : List String} {P P' : Block} (h : Block.Inserts zs P P') (hdistinct : zs.Nodup)
    (hP : ∀ z ∈ zs, z ∉ Block.names P) (hstate : ∀ z ∈ zs, ¬ i.globals.Mentions z) :
    MirrorsUpTo (Adds zs) i P P' ∧ MirrorsUpTo (fun j' j => Adds zs j j') i P' P ∧ (i.Diverges P ↔ i.Diverges P') := by
  have hnames : ∀ x, i.globals.Mentions x → Padding.Common ⟨[], zs⟩ x :=
    fun x hx => ⟨List.not_mem_nil, fun hz => hstate x hz hx⟩
  have hshares : Padding.Shares ⟨[], zs⟩ (Block.names P) := fun x hx => ⟨List.not_mem_nil, fun hz => hP x hz hx⟩
  obtain ⟨us, -, hpadded⟩ := h.padded hdistinct (List.Subset.refl zs) hshares
  have hforth := mirrors_of_padded hpadded hnames hi.within
  have hback := mirrors_of_padded hpadded.symm (fun x hx => (hnames x hx).symm) hi.within
  refine ⟨⟨fun res j hj => ?_, hforth.output⟩, ⟨fun res j' hj' => ?_, hback.output⟩, hback.diverges, hforth.diverges⟩
  · obtain ⟨j', hj', halike⟩ := hforth.ends res j hj
    exact ⟨j', hj', halike.adds⟩
  · obtain ⟨j, hj, halike⟩ := hback.ends res j' hj'
    exact ⟨j, hj, halike.adds_symm⟩

def plainCount : Block :=
  [.declare "x" none,
    .function "f" ["y"] [.assign "x" (.binary .add (.var "x") (.var "y")), .result (.var "x")],
    .loop (.binary .lt (.var "x") (.literal 3)) (.block [.evaluate (.call "f" [.literal 1])]),
    .evaluate (.call "println" [.var "x"])]

def clutteredCount : Block :=
  [.function "g" ["x"] [.assign "x" (.literal 9), .evaluate (.call "h" [])],
    .declare "x" none,
    .function "f" ["y"] [.assign "x" (.binary .add (.var "x") (.var "y")), .declare "n" (some (.literal 7)),
      .result (.var "x")],
    .loop (.binary .lt (.var "x") (.literal 3))
      (.block [.function "h" [] [.evaluate (.call "g" [.var "n"])], .evaluate (.call "f" [.literal 1])]),
    .evaluate (.call "println" [.var "x"]),
    .declare "m" (some (.literal 5))]

theorem clutteredCount_inserted : Block.Inserts ["g", "n", "h", "m"] plainCount clutteredCount := by
  have hbody : Block.Inserts ["n"] [.assign "x" (.binary .add (.var "x") (.var "y")), .result (.var "x")]
      [.assign "x" (.binary .add (.var "x") (.var "y")), .declare "n" (some (.literal 7)), .result (.var "x")] :=
    .cons (.same _) (.added (.value 7) (.cons (.same _) .nil))
  have hloop : Block.Inserts ["h"] [.evaluate (.call "f" [.literal 1])]
      [.function "h" [] [.evaluate (.call "g" [.var "n"])], .evaluate (.call "f" [.literal 1])] :=
    .added (.function [] _) (.cons (.same _) .nil)
  exact .added (.function ["x"] _) (.cons (.same _) (.cons (.function "f" ["y"] hbody)
    (.cons (.loop _ (.block hloop)) (.cons (.same _) (.added (.value 5) .nil)))))

theorem clutteredCount_runs_alike :
    Arises .standard [(ofRegistry .standard .unlimited).globals, (ofRegistry .standard .unlimited).root]
        (ofRegistry .standard .unlimited) ∧
      Block.Inserts ["g", "n", "h", "m"] plainCount clutteredCount ∧ ["g", "n", "h", "m"].Nodup ∧
      (∀ z ∈ ["g", "n", "h", "m"], z ∉ Block.names plainCount) ∧
      (∀ z ∈ ["g", "n", "h", "m"], ¬ (ofRegistry .standard .unlimited).globals.Mentions z) ∧
      ∃ j j', (ofRegistry .standard .unlimited).Ends plainCount (.ok none) j ∧
        (ofRegistry .standard .unlimited).Ends clutteredCount (.ok none) j' ∧
        j.world.output = [.line [3]] ∧ Adds ["g", "n", "h", "m"] j j' := by
  have hi := Arises.new (r := .standard) .unlimited
  have hdistinct : ["g", "n", "h", "m"].Nodup := by decide
  have hnames : ∀ z ∈ ["g", "n", "h", "m"], z ∉ Block.names plainCount := by decide +kernel
  have hstate : ∀ z ∈ ["g", "n", "h", "m"], ¬ (ofRegistry .standard .unlimited).globals.Mentions z := by
    have htools : ∀ z ∈ ["g", "n", "h", "m"], Registry.standard.has z = false := by decide +kernel
    intro z hz hmentions
    have htool := tool_of_mentions hmentions
    rw [htools z hz] at htool
    cases htool
  have hends : (ofRegistry .standard .unlimited).Ends plainCount (.ok none) _ :=
    ends_of_execute (n := 30) (by decide +kernel)
  have hharmless := unused_declarations_harmless hi clutteredCount_inserted hdistinct hnames hstate
  obtain ⟨j', hj', hadds⟩ := hharmless.1.ends _ _ hends
  exact ⟨hi, clutteredCount_inserted, hdistinct, hnames, hstate, _, j', hends, hj', by decide +kernel, hadds⟩

end IntScript
