import IntScript.Program.Json
import Mathlib.Data.List.Forall2
import Mathlib.Data.List.Nodup

set_option autoImplicit false

namespace IntScript

theorem Value.toInt_of_ofInt? {i : Int} {v : Value} (h : Value.ofInt? i = some v) : v.toInt = i := by
  unfold Value.ofInt? at h
  split at h
  · next hrange =>
    simp only [Bool.and_eq_true, decide_eq_true_eq] at hrange
    cases h
    exact Int64.toInt_ofInt_of_le (by omega) (by omega)
  · cases h

theorem BinaryOp.ofJson?_toJson (op : BinaryOp) : BinaryOp.ofJson? op.toJson = some op := by
  cases op <;> decide

theorem BinaryOp.name_of_ofJson? {tag : String} {op : BinaryOp} (h : BinaryOp.ofJson? (.string tag) = some op) :
    op.name = tag := by
  simpa using List.find?_some h

theorem Json.depth_tagged (tag : String) (body : Json) : (Json.tagged tag body).depth = body.depth + 1 := by
  simp [Json.tagged, Json.depth, Json.depthFields]

section ReadBack

theorem Json.optional_of_read {α : Type} {key : String} {read : Json → Option α} {j field : Json} {a : α}
    (hfield : j.field? key = some field) (hread : read field = some a) (hnull : read .null = none) :
    j.optional key read = some (some a) := by
  unfold Json.optional
  rw [hfield]
  cases field with
  | null =>
    rw [hnull] at hread
    cases hread
  | _ => exact congrArg (Option.map some) hread

theorem Expression.ofJson?_null (n : Nat) : Expression.ofJson? n .null = none := by
  cases n <;> rfl

theorem Statement.ofJson?_null (n : Nat) : Statement.ofJson? n .null = none := by
  cases n <;> rfl

mutual

theorem Expression.ofJson?_toJson : ∀ (e : Expression) (n : Nat), e.toJson.depth ≤ n →
    Expression.ofJson? n e.toJson = some e
  | _, 0, h => by
    rename_i e
    cases e <;> simp [Expression.toJson, Json.depth_tagged] at h
  | .call x args, n + 1, h => by
    have hargs : Json.depthItems (Expression.toJsonAll args) ≤ n := by
      simp only [Expression.toJson, Json.depth_tagged, Json.depth, Json.depthFields] at h
      omega
    simp [Expression.toJson, Json.tagged, Expression.ofJson?, Json.field?, Json.string?, Json.array?, List.lookup_cons,
      Expression.ofJson?_toJsonAll args n hargs]
  | .literal v, n + 1, _ => by
    simp [Expression.toJson, Json.tagged, Expression.ofJson?, Json.integer?, Value.ofInt?_toInt]
  | .var x, n + 1, _ => by
    simp [Expression.toJson, Json.tagged, Expression.ofJson?, Json.string?]
  | .binary op l r, n + 1, h => by
    have hparts : l.toJson.depth ≤ n ∧ r.toJson.depth ≤ n := by
      simp only [Expression.toJson, Json.depth_tagged, Json.depth, Json.depthFields] at h
      omega
    simp [Expression.toJson, Json.tagged, Expression.ofJson?, Json.field?, List.lookup_cons, BinaryOp.ofJson?_toJson,
      Expression.ofJson?_toJson l n hparts.1, Expression.ofJson?_toJson r n hparts.2]

theorem Expression.ofJson?_toJsonAll : ∀ (es : List Expression) (n : Nat),
    Json.depthItems (Expression.toJsonAll es) ≤ n → (Expression.toJsonAll es).mapM (Expression.ofJson? n) = some es
  | [], _, _ => rfl
  | e :: es, n, h => by
    have hparts : e.toJson.depth ≤ n ∧ Json.depthItems (Expression.toJsonAll es) ≤ n := by
      simp only [Expression.toJsonAll, Json.depthItems] at h
      omega
    simp [Expression.toJsonAll, Expression.ofJson?_toJson e n hparts.1, Expression.ofJson?_toJsonAll es n hparts.2]

end

theorem Json.mapM_string? (names : List String) : names.mapM (Json.string? ∘ Json.string) = some names := by
  induction names with
  | nil => rfl
  | cons x names ih => simp [ih, Json.string?]

mutual

theorem Statement.ofJson?_toJson : ∀ (st : Statement) (n : Nat), st.toJson.depth ≤ n →
    Statement.ofJson? n st.toJson = some st
  | _, 0, h => by
    rename_i st
    cases st <;> simp [Statement.toJson, Json.depth_tagged] at h
  | .function f params b, n + 1, h => by
    have hbody : Json.depthItems (Statement.toJsonAll b) ≤ n := by
      simp only [Statement.toJson, Statement.blockJson, Json.depth_tagged, Json.depth, Json.depthFields] at h
      omega
    simp [Statement.toJson, Json.tagged, Statement.ofJson?, Statement.statements?, Statement.blockJson, Json.field?,
      Json.string?, Json.array?, List.lookup_cons, Json.mapM_string?, Statement.ofJson?_toJsonAll b n hbody]
  | .block b, n + 1, h => by
    have hbody : Json.depthItems (Statement.toJsonAll b) ≤ n := by
      simp only [Statement.toJson, Statement.blockJson, Json.depth_tagged, Json.depth, Json.depthFields] at h
      omega
    simp [Statement.toJson, Json.tagged, Statement.ofJson?, Statement.statements?, Statement.blockJson, Json.field?,
      Json.array?, Statement.ofJson?_toJsonAll b n hbody]
  | .declare x none, n + 1, _ => by
    simp [Statement.toJson, Statement.initJson, Json.tagged, Statement.ofJson?, Json.field?, Json.optional, Json.string?,
      List.lookup_cons]
  | .declare x (some e), n + 1, h => by
    have hinit : e.toJson.depth ≤ n := by
      simp only [Statement.toJson, Statement.initJson, Json.depth_tagged, Json.depth, Json.depthFields] at h
      omega
    have hoptional : (Json.object [("name", .string x), ("init", e.toJson)]).optional "init" (Expression.ofJson? n) =
        some (some e) :=
      Json.optional_of_read rfl (Expression.ofJson?_toJson e n hinit) (Expression.ofJson?_null n)
    simp [Statement.toJson, Statement.initJson, Json.tagged, Statement.ofJson?, Json.field?, Json.string?,
      hoptional]
  | .evaluate e, n + 1, h => by
    have he : e.toJson.depth ≤ n := by
      simp only [Statement.toJson, Json.depth_tagged] at h
      omega
    simp [Statement.toJson, Json.tagged, Statement.ofJson?, Expression.ofJson?_toJson e n he]
  | .loop c st, n + 1, h => by
    have hparts : c.toJson.depth ≤ n ∧ st.toJson.depth ≤ n := by
      simp only [Statement.toJson, Json.depth_tagged, Json.depth, Json.depthFields] at h
      omega
    simp [Statement.toJson, Json.tagged, Statement.ofJson?, Json.field?, List.lookup_cons,
      Expression.ofJson?_toJson c n hparts.1, Statement.ofJson?_toJson st n hparts.2]
  | .ifThen c st, n + 1, h => by
    have hparts : c.toJson.depth ≤ n ∧ st.toJson.depth ≤ n := by
      simp only [Statement.toJson, Json.depth_tagged, Json.depth, Json.depthFields] at h
      omega
    simp [Statement.toJson, Json.tagged, Statement.ofJson?, Json.field?, Json.optional, List.lookup_cons,
      Expression.ofJson?_toJson c n hparts.1, Statement.ofJson?_toJson st n hparts.2]
  | .ifElse c st other, n + 1, h => by
    have hparts : c.toJson.depth ≤ n ∧ st.toJson.depth ≤ n ∧ other.toJson.depth ≤ n := by
      simp only [Statement.toJson, Json.depth_tagged, Json.depth, Json.depthFields] at h
      omega
    have hoptional : (Json.object [("condition", c.toJson), ("then_branch", st.toJson),
        ("else_branch", other.toJson)]).optional "else_branch" (Statement.ofJson? n) = some (some other) :=
      Json.optional_of_read rfl (Statement.ofJson?_toJson other n hparts.2.2) (Statement.ofJson?_null n)
    simp [Statement.toJson, Json.tagged, Statement.ofJson?, Json.field?, List.lookup_cons, hoptional,
      Expression.ofJson?_toJson c n hparts.1, Statement.ofJson?_toJson st n hparts.2.1]
  | .assign x e, n + 1, h => by
    have he : e.toJson.depth ≤ n := by
      simp only [Statement.toJson, Json.depth_tagged, Json.depth, Json.depthFields] at h
      omega
    simp [Statement.toJson, Json.tagged, Statement.ofJson?, Json.field?, Json.string?, List.lookup_cons,
      Expression.ofJson?_toJson e n he]
  | .result e, n + 1, h => by
    have he : e.toJson.depth ≤ n := by
      simp only [Statement.toJson, Json.depth_tagged, Json.depth, Json.depthFields] at h
      omega
    simp [Statement.toJson, Json.tagged, Statement.ofJson?, Json.field?, Expression.ofJson?_toJson e n he]

theorem Statement.ofJson?_toJsonAll : ∀ (b : List Statement) (n : Nat),
    Json.depthItems (Statement.toJsonAll b) ≤ n → (Statement.toJsonAll b).mapM (Statement.ofJson? n) = some b
  | [], _, _ => rfl
  | st :: b, n, h => by
    have hparts : st.toJson.depth ≤ n ∧ Json.depthItems (Statement.toJsonAll b) ≤ n := by
      simp only [Statement.toJsonAll, Json.depthItems] at h
      omega
    simp [Statement.toJsonAll, Statement.ofJson?_toJson st n hparts.1, Statement.ofJson?_toJsonAll b n hparts.2]

end

theorem Block.block?_toJson (b : Block) : (Block.toJson b).block? = some b := by
  have hdepth : Json.depthItems (Statement.toJsonAll b) ≤ (Block.toJson b).depth := by
    simp only [Block.toJson, Statement.blockJson, Json.depth, Json.depthFields]
    omega
  have hitems := Statement.ofJson?_toJsonAll b _ hdepth
  rw [Json.block?]
  simpa [Block.toJson, Statement.statements?, Statement.blockJson, Json.field?, Json.array?, List.lookup_cons] using hitems

end ReadBack

/-- What is read at a place of the JSON form. -/
inductive Form where
  | leaf
  | operator
  | expression
  | expressions
  | call
  | binary
  | statement
  | statements
  | block
  | function
  | declaration
  | loop
  | conditional
  | assignment
  | result
  deriving DecidableEq, Repr

namespace Form

/-- The keys that an object may have there, with what is read under them: kinds of trees, or fields of one kind. -/
def keys : Form → List (String × Form)
  | .expression => [("Call", .call), ("Literal", .leaf), ("Identifier", .leaf), ("Binary", .binary)]
  | .call => [("name", .leaf), ("args", .expressions)]
  | .binary => [("left", .expression), ("op", .operator), ("right", .expression)]
  | .statement =>
    [("FunctionDefinition", .function), ("Block", .block), ("VariableDeclaration", .declaration),
      ("Expression", .expression), ("While", .loop), ("If", .conditional), ("Assignment", .assignment),
      ("Return", .result)]
  | .block => [("statements", .statements)]
  | .function => [("name", .leaf), ("params", .leaf), ("body", .block)]
  | .declaration => [("name", .leaf), ("init", .expression)]
  | .loop => [("condition", .expression), ("body", .statement)]
  | .conditional => [("condition", .expression), ("then_branch", .statement), ("else_branch", .statement)]
  | .assignment => [("name", .leaf), ("value", .expression)]
  | .result => [("value", .expression)]
  | .leaf | .operator | .expressions | .statements => []

def optional : Form → List String
  | .declaration => ["init"]
  | .conditional => ["else_branch"]
  | _ => []

def item : Form → Form
  | .expressions => .expression
  | .statements => .statement
  | _ => .leaf

def missing (form : Form) (fields : List (String × Json)) : List (String × Json) :=
  (form.optional.filter fun key => (fields.lookup key).isNone).map fun key => (key, .null)

theorem mem_keys_of_optional {form : Form} {key : String} (h : key ∈ form.optional) : form.keys.lookup key ≠ none := by
  cases form <;> simp_all [optional, keys, List.lookup_cons]

end Form

namespace Json

mutual

/-- Without the keys that are not known at their place, and with missing fields filled in. -/
def tidy (form : Form) : Json → Json
  | .array items => .array (tidyItems form.item items)
  | .object fields => .object (tidyFields form fields ++ form.missing fields)
  | j => j

def tidyItems (form : Form) : List Json → List Json
  | [] => []
  | j :: js => tidy form j :: tidyItems form js

def tidyFields (form : Form) : List (String × Json) → List (String × Json)
  | [] => []
  | (key, j) :: fields =>
    match form.keys.lookup key with
    | some part => (key, tidy part j) :: tidyFields form fields
    | none => tidyFields form fields

end

mutual

/-- No object that is read has a key twice, and no operator is an object. -/
def Plain (form : Form) : Json → Prop
  | .array items => PlainItems form.item items
  | .object fields => form ≠ .operator ∧ (fields.map Prod.fst).Nodup ∧ PlainFields form fields
  | _ => True

def PlainItems (form : Form) : List Json → Prop
  | [] => True
  | j :: js => Plain form j ∧ PlainItems form js

def PlainFields (form : Form) : List (String × Json) → Prop
  | [] => True
  | (key, j) :: fields =>
    (match form.keys.lookup key with
      | some part => Plain part j
      | none => True) ∧ PlainFields form fields

end

/-- Equal up to the order of keys: objects have the same keys, each once, with the same under them. -/
inductive Alike : Json → Json → Prop
  | same (j : Json) : Alike j j
  | array {items items' : List Json} (h : List.Forall₂ Alike items items') : Alike (.array items) (.array items')
  | object {fields fields' : List (String × Json)} (hdistinct : (fields.map Prod.fst).Nodup)
      (hdistinct' : (fields'.map Prod.fst).Nodup)
      (hkeys : ∀ key, fields.lookup key = none ↔ fields'.lookup key = none)
      (hvalues : ∀ key j j', fields.lookup key = some j → fields'.lookup key = some j' → Alike j j') :
      Alike (.object fields) (.object fields')

theorem lookup_cons_of_ne {α : Type} {key k : String} (h : key ≠ k) (a : α) (fields : List (String × α)) :
    ((k, a) :: fields).lookup key = fields.lookup key := by
  have hne : (key == k) = false := by simpa using h
  rw [List.lookup_cons, hne]

section Tidy

variable {form : Form} {fields : List (String × Json)} {key : String}

theorem lookup_tidyFields (form : Form) (fields : List (String × Json)) (key : String) :
    (tidyFields form fields).lookup key = (form.keys.lookup key).bind fun part => (fields.lookup key).map (tidy part) := by
  induction fields with
  | nil => cases form.keys.lookup key <;> rfl
  | cons p fields ih =>
    obtain ⟨k, j⟩ := p
    by_cases hk : key = k
    · subst hk
      cases hpart : form.keys.lookup key with
      | none => simp [tidyFields, hpart, ih]
      | some part => simp [tidyFields, hpart]
    · cases hpart : form.keys.lookup k with
      | none => simp [tidyFields, hpart, ih, lookup_cons_of_ne hk]
      | some part => simp [tidyFields, hpart, ih, lookup_cons_of_ne hk]

theorem lookup_missing (form : Form) (fields : List (String × Json)) (key : String) :
    (form.missing fields).lookup key =
      if key ∈ form.optional ∧ fields.lookup key = none then some .null else none := by
  have hlookup : ∀ keys : List String, (keys.map fun k => (k, Json.null)).lookup key =
      if key ∈ keys then some .null else none := by
    intro keys
    induction keys with
    | nil => rfl
    | cons k keys ih =>
      by_cases hk : key = k
      · simp [hk]
      · simp [lookup_cons_of_ne hk, ih, hk]
  rw [Form.missing, hlookup]
  simp only [List.mem_filter, Option.isNone_iff_eq_none]

theorem keys_tidyFields (form : Form) (fields : List (String × Json)) :
    List.Sublist ((tidyFields form fields).map Prod.fst) (fields.map Prod.fst) := by
  induction fields with
  | nil => exact List.Sublist.refl _
  | cons p fields ih =>
    obtain ⟨k, j⟩ := p
    cases hpart : form.keys.lookup k with
    | none => simpa [tidyFields, hpart] using ih.cons k
    | some part => simpa [tidyFields, hpart] using ih.cons_cons k

theorem distinct_tidy (h : (fields.map Prod.fst).Nodup) :
    ((tidyFields form fields ++ form.missing fields).map Prod.fst).Nodup := by
  have hmissing : (form.missing fields).map Prod.fst = form.optional.filter fun key => (fields.lookup key).isNone := by
    simp [Form.missing, Function.comp_def]
  have hoptional : form.optional.Nodup := by cases form <;> decide
  rw [List.map_append, hmissing]
  refine (h.sublist (keys_tidyFields form fields)).append (hoptional.filter _) ?_
  intro key hkey hfilled
  have hmem : key ∈ fields.map Prod.fst := (keys_tidyFields form fields).subset hkey
  obtain ⟨⟨k, j⟩, hp, rfl⟩ := List.mem_map.1 hmem
  have hnone : fields.lookup k = none := by simpa using (List.mem_filter.1 hfilled).2
  have hne := List.lookup_eq_none_iff.1 hnone _ hp
  simp at hne

end Tidy

section Fields

variable {form part : Form} {fields written : List (String × Json)} {key : String} {body v w : Json}

theorem field?_eq_some : body.field? key = some v ↔ ∃ fields, body = .object fields ∧ fields.lookup key = some v := by
  cases body <;> simp [field?]

theorem PlainFields.lookup (h : PlainFields form fields) (hv : fields.lookup key = some v)
    (hpart : form.keys.lookup key = some part) : Plain part v := by
  induction fields with
  | nil => cases hv
  | cons p fields ih =>
    obtain ⟨k, j⟩ := p
    by_cases hk : key = k
    · subst hk
      have hvalue : j = v := by simpa using hv
      have hplain := h.1
      rw [hpart] at hplain
      exact hvalue ▸ hplain
    · rw [lookup_cons_of_ne hk] at hv
      exact ih h.2 hv

theorem Plain.field (h : Plain form body) (hv : body.field? key = some v) (hpart : form.keys.lookup key = some part) :
    Plain part v := by
  obtain ⟨fields, rfl, hv⟩ := field?_eq_some.1 hv
  exact h.2.2.lookup hv hpart

theorem Plain.under {tag : String} (h : Plain form (.object [(tag, body)])) (hpart : form.keys.lookup tag = some part) :
    Plain part body := by
  have hfield : (Json.object [(tag, body)]).field? tag = some body := by simp [field?]
  exact h.field hfield hpart

/-- What is written in a field is what is given there, or null where nothing is. -/
inductive Fills (form : Form) (body : Json) : String × Form → String × Json → Prop
  | given {key : String} {part : Form} {v w : Json} (hv : body.field? key = some v) (halike : Alike (tidy part v) w) :
      Fills form body (key, part) (key, w)
  | missing {key : String} {part : Form} (hv : body.field? key = none) (hoptional : key ∈ form.optional) :
      Fills form body (key, part) (key, .null)

theorem lookup_of_fills {keys : List (String × Form)} (h : List.Forall₂ (Fills form body) keys written) (key : String) :
    (keys.lookup key = none ∧ written.lookup key = none) ∨
      ∃ part w, keys.lookup key = some part ∧ written.lookup key = some w ∧ Fills form body (key, part) (key, w) := by
  induction h with
  | nil => exact .inl ⟨rfl, rfl⟩
  | @cons known field keys written hfills _ ih =>
    obtain ⟨k, part⟩ := known
    obtain ⟨k', w⟩ := field
    obtain rfl : k = k' := by cases hfills <;> rfl
    by_cases hk : key = k
    · subst hk
      exact .inr ⟨part, w, by simp, by simp, hfills⟩
    · rw [lookup_cons_of_ne hk, lookup_cons_of_ne hk]
      exact ih

theorem keys_of_fills {keys : List (String × Form)} (h : List.Forall₂ (Fills form body) keys written) :
    written.map Prod.fst = keys.map Prod.fst := by
  induction h with
  | nil => rfl
  | cons hfills _ ih => cases hfills <;> simp [ih]

theorem lookup_tidy (hpart : form.keys.lookup key = some part)
    (h : Fills form (.object fields) (key, part) (key, w)) :
    ∃ v, (tidyFields form fields ++ form.missing fields).lookup key = some v ∧ Alike v w := by
  rw [List.lookup_append, lookup_tidyFields, lookup_missing, hpart]
  cases h with
  | @given _ _ v _ hv halike =>
    have hlookup : fields.lookup key = some v := hv
    exact ⟨tidy part v, by simp [hlookup], halike⟩
  | missing hv hoptional =>
    have hlookup : fields.lookup key = none := hv
    exact ⟨.null, by simp [hlookup, hoptional], .same .null⟩

/-- An object is written back once each of its known fields is. -/
theorem alike_of_fills (hplain : Plain form body) (hv : body.field? key = some v)
    (h : List.Forall₂ (Fills form body) form.keys written) : Alike (tidy form body) (.object written) := by
  obtain ⟨fields, rfl, -⟩ := field?_eq_some.1 hv
  have hkeys : (form.keys.map Prod.fst).Nodup := by cases form <;> decide
  -- a key that is known is on both sides, given or filled in; any other is on neither
  have hlookup : ∀ key, ((tidyFields form fields ++ form.missing fields).lookup key = none ∧ written.lookup key = none) ∨
      ∃ v w, (tidyFields form fields ++ form.missing fields).lookup key = some v ∧ written.lookup key = some w ∧
        Alike v w := by
    intro key
    rcases lookup_of_fills h key with ⟨hnone, hwritten⟩ | ⟨part, w, hpart, hwritten, hfills⟩
    · have hoptional : key ∉ form.optional := fun hmem => Form.mem_keys_of_optional hmem hnone
      refine .inl ⟨?_, hwritten⟩
      rw [List.lookup_append, lookup_tidyFields, lookup_missing, hnone]
      simp [hoptional]
    · obtain ⟨v, hv, halike⟩ := lookup_tidy hpart hfills
      exact .inr ⟨v, w, hv, hwritten, halike⟩
  rw [tidy]
  refine .object (distinct_tidy hplain.2.1) (keys_of_fills h ▸ hkeys) ?_ ?_
  · intro key
    rcases hlookup key with ⟨hnone, hwritten⟩ | ⟨v, w, hv, hwritten, -⟩
    · simp [hnone, hwritten]
    · simp [hv, hwritten]
  · intro key j j' hj hj'
    rcases hlookup key with ⟨hnone, -⟩ | ⟨v, w, hv, hwritten, halike⟩
    · rw [hnone] at hj
      cases hj
    · rw [hv] at hj
      rw [hwritten] at hj'
      cases hj
      cases hj'
      exact halike

/-- A tree is written back under its tag once its body is. -/
theorem alike_tagged {tag : String} (hpart : form.keys.lookup tag = some part) (hoptional : form.optional = [])
    (h : Alike (tidy part body) w) : Alike (tidy form (.object [(tag, body)])) (.tagged tag w) := by
  have hmissing : form.missing [(tag, body)] = [] := by simp [Form.missing, hoptional]
  rw [tidy, tidyFields, hpart, hmissing, tagged]
  refine .object (by simp [tidyFields]) (by simp) ?_ ?_
  · intro key
    cases hk : key == tag <;> simp [List.lookup_cons, tidyFields, hk]
  · intro key j j' hj hj'
    cases hk : key == tag
    · simp [List.lookup_cons, hk] at hj'
    · simp only [tidyFields, List.append_nil, List.lookup_cons, hk, Option.some.injEq] at hj hj'
      exact hj ▸ hj' ▸ h

theorem alike_items {α : Type} {read : Json → Option α} {write : α → Json} {items : List Json} {as : List α}
    (hread : ∀ j a, read j = some a → Plain form j → Alike (tidy form j) (write a)) (h : items.mapM read = some as)
    (hplain : PlainItems form items) : List.Forall₂ Alike (tidyItems form items) (as.map write) := by
  induction items generalizing as with
  | nil =>
    cases h
    exact .nil
  | cons j items ih =>
    simp only [List.mapM_cons, Option.bind_eq_bind, Option.bind_eq_some_iff, Option.pure_def, Option.some.injEq] at h
    obtain ⟨a, ha, rest, hrest, rfl⟩ := h
    exact .cons (hread j a ha hplain.1) (ih hrest hplain.2)

end Fields

theorem string?_eq_some {j : Json} {s : String} : j.string? = some s ↔ j = .string s := by
  cases j <;> simp [string?]

theorem integer?_eq_some {j : Json} {i : Int} : j.integer? = some i ↔ j = .integer i := by
  cases j <;> simp [integer?]

theorem array?_eq_some {j : Json} {items : List Json} : j.array? = some items ↔ j = .array items := by
  cases j <;> simp [array?]

theorem optional_eq_none {α : Type} {key : String} {read : Json → Option α} {j : Json}
    (h : j.optional key read = some none) : j.field? key = none ∨ j.field? key = some .null := by
  unfold optional at h
  split at h
  · next hfield => exact .inl hfield
  · next hfield => exact .inr hfield
  · simp at h

theorem optional_eq_some {α : Type} {key : String} {read : Json → Option α} {j : Json} {a : α}
    (h : j.optional key read = some (some a)) : ∃ v, j.field? key = some v ∧ read v = some a := by
  unfold optional at h
  split at h
  · cases h
  · cases h
  · next v _ hfield => exact ⟨v, hfield, by simpa using h⟩

theorem fills_optional {α : Type} {read : Json → Option α} {write : α → Json} {found : Option α} {form part : Form}
    {body : Json} {key : String} (hread : ∀ v a, read v = some a → Plain part v → Alike (tidy part v) (write a))
    (h : body.optional key read = some found) (hplain : Plain form body) (hpart : form.keys.lookup key = some part)
    (hoptional : key ∈ form.optional) : Fills form body (key, part) (key, found.elim .null write) := by
  cases found with
  | none =>
    rcases optional_eq_none h with hfield | hfield
    · exact .missing hfield hoptional
    · exact .given hfield (.same .null)
  | some a =>
    obtain ⟨v, hfield, hv⟩ := optional_eq_some h
    exact .given hfield (hread v a hv (hplain.field hfield hpart))

end Json

theorem BinaryOp.alike_of_read {j : Json} {op : BinaryOp} (h : BinaryOp.ofJson? j = some op) (hplain : j.Plain .operator) :
    (j.tidy .operator).Alike op.toJson := by
  cases j with
  | string tag =>
    rw [BinaryOp.toJson, BinaryOp.name_of_ofJson? h]
    exact .same _
  | object fields => exact absurd rfl hplain.1
  | _ => cases h

theorem Expression.toJsonAll_eq_map (es : List Expression) : Expression.toJsonAll es = es.map Expression.toJson := by
  induction es with
  | nil => rfl
  | cons e es ih => simp [Expression.toJsonAll, ih]

theorem Statement.toJsonAll_eq_map (b : List Statement) : Statement.toJsonAll b = b.map Statement.toJson := by
  induction b with
  | nil => rfl
  | cons st b ih => simp [Statement.toJsonAll, ih]

open Json

theorem Expression.alike_of_read {n : Nat} {j : Json} {e : Expression} (h : Expression.ofJson? n j = some e)
    (hplain : j.Plain .expression) : (j.tidy .expression).Alike e.toJson := by
  induction n generalizing j e with
  | zero => simp [Expression.ofJson?] at h
  | succ n ih =>
    unfold Expression.ofJson? at h
    split at h
    · next body heq =>
      cases heq
      split at h
      · simp only [Option.bind_eq_bind, Option.bind_eq_some_iff, Option.pure_def, Option.some.injEq, string?_eq_some,
          array?_eq_some] at h
        obtain ⟨_, hname, x, rfl, _, hargs, items, rfl, args, hitems, rfl⟩ := h
        have hbody : body.Plain .call := hplain.under rfl
        have hplainArgs := hbody.field hargs rfl
        refine alike_tagged rfl rfl (alike_of_fills hbody hname ?_)
        refine .cons (.given hname (.same _)) (.cons (.given hargs (.array ?_)) .nil)
        rw [Expression.toJsonAll_eq_map]
        exact alike_items (fun _ _ => ih) hitems hplainArgs
      · simp only [Option.bind_eq_bind, Option.bind_eq_some_iff, Option.pure_def, Option.some.injEq,
          integer?_eq_some] at h
        obtain ⟨i, rfl, v, hv, rfl⟩ := h
        rw [Expression.toJson, Value.toInt_of_ofInt? hv]
        exact alike_tagged rfl rfl (.same _)
      · simp only [Option.bind_eq_bind, Option.bind_eq_some_iff, Option.pure_def, Option.some.injEq,
          string?_eq_some] at h
        obtain ⟨x, rfl, rfl⟩ := h
        exact alike_tagged rfl rfl (.same _)
      · simp only [Option.bind_eq_bind, Option.bind_eq_some_iff, Option.pure_def, Option.some.injEq] at h
        obtain ⟨jl, hleft, l, hl, jop, hfield, op, hop, jr, hright, r, hr, rfl⟩ := h
        have hbody : body.Plain .binary := hplain.under rfl
        refine alike_tagged rfl rfl (alike_of_fills hbody hleft ?_)
        exact .cons (.given hleft (ih hl (hbody.field hleft rfl)))
          (.cons (.given hfield (BinaryOp.alike_of_read hop (hbody.field hfield rfl)))
            (.cons (.given hright (ih hr (hbody.field hright rfl))) .nil))
      · cases h
    · cases h

theorem Statement.alike_block {n : Nat} {j : Json} {items : List Json} {b : Block}
    (ih : ∀ {j : Json} {st : Statement}, Statement.ofJson? n j = some st → j.Plain .statement →
      (j.tidy .statement).Alike st.toJson)
    (hfield : Statement.statements? j = some items) (h : items.mapM (Statement.ofJson? n) = some b)
    (hplain : j.Plain .block) : (j.tidy .block).Alike (Block.toJson b) := by
  simp only [Statement.statements?, Option.bind_eq_bind, Option.bind_eq_some_iff, array?_eq_some] at hfield
  obtain ⟨_, hfield, rfl⟩ := hfield
  have hitems := hplain.field hfield rfl
  refine alike_of_fills hplain hfield (.cons (.given hfield (.array ?_)) .nil)
  rw [Statement.toJsonAll_eq_map]
  exact alike_items (fun _ _ => ih) h hitems

theorem Statement.alike_of_read {n : Nat} {j : Json} {st : Statement} (h : Statement.ofJson? n j = some st)
    (hplain : j.Plain .statement) : (j.tidy .statement).Alike st.toJson := by
  -- for each tag, what was read says which fields the body has, and those are written in the order of the form
  induction n generalizing j st with
  | zero => simp [Statement.ofJson?] at h
  | succ n ih =>
    unfold Statement.ofJson? at h
    split at h
    · next body heq =>
      cases heq
      split at h
      · simp only [Option.bind_eq_bind, Option.bind_eq_some_iff, Option.pure_def, Option.some.injEq, string?_eq_some,
          array?_eq_some] at h
        obtain ⟨_, hname, f, rfl, _, hparams, names, rfl, params, hnames, jb, hfield, items, hitems, b, hb, rfl⟩ := h
        have hbody : body.Plain .function := hplain.under rfl
        have hparamsAlike : List.Forall₂ Alike (tidyItems .leaf names) (params.map .string) := by
          refine alike_items ?_ hnames (hbody.field hparams rfl)
          intro j x hx _
          rw [string?_eq_some.1 hx]
          exact .same _
        refine alike_tagged rfl rfl (alike_of_fills hbody hname ?_)
        exact .cons (.given hname (.same _)) (.cons (.given hparams (.array hparamsAlike))
          (.cons (.given hfield (Statement.alike_block ih hitems hb (hbody.field hfield rfl))) .nil))
      · simp only [Option.bind_eq_bind, Option.bind_eq_some_iff, Option.pure_def, Option.some.injEq] at h
        obtain ⟨items, hitems, b, hb, rfl⟩ := h
        have hbody : body.Plain .block := hplain.under rfl
        exact alike_tagged rfl rfl (Statement.alike_block ih hitems hb hbody)
      · simp only [Option.bind_eq_bind, Option.bind_eq_some_iff, Option.pure_def, Option.some.injEq,
          string?_eq_some] at h
        obtain ⟨_, hname, x, rfl, init, hinit, rfl⟩ := h
        have hbody : body.Plain .declaration := hplain.under rfl
        refine alike_tagged rfl rfl (alike_of_fills hbody hname ?_)
        have hinitJson : Statement.initJson init = init.elim .null Expression.toJson := by cases init <;> rfl
        refine .cons (.given hname (.same _)) (.cons (hinitJson ▸ ?_) .nil)
        exact fills_optional (fun _ _ => Expression.alike_of_read) hinit hbody rfl (.head _)
      · simp only [Option.bind_eq_bind, Option.bind_eq_some_iff, Option.pure_def, Option.some.injEq] at h
        obtain ⟨e, he, rfl⟩ := h
        exact alike_tagged rfl rfl (Expression.alike_of_read he (hplain.under rfl))
      · simp only [Option.bind_eq_bind, Option.bind_eq_some_iff, Option.pure_def, Option.some.injEq] at h
        obtain ⟨jc, hcondition, c, hc, js, hrepeated, s, hs, rfl⟩ := h
        have hbody : body.Plain .loop := hplain.under rfl
        refine alike_tagged rfl rfl (alike_of_fills hbody hcondition ?_)
        exact .cons (.given hcondition (Expression.alike_of_read hc (hbody.field hcondition rfl)))
          (.cons (.given hrepeated (ih hs (hbody.field hrepeated rfl))) .nil)
      · simp only [Option.bind_eq_bind, Option.bind_eq_some_iff, Option.pure_def] at h
        obtain ⟨jc, hcondition, c, hc, js, hthen, s, hs, other, helse, h⟩ := h
        have hbody : body.Plain .conditional := hplain.under rfl
        have hst : st.toJson = .tagged "If" (.object [("condition", c.toJson), ("then_branch", s.toJson),
            ("else_branch", other.elim .null Statement.toJson)]) := by
          cases other <;> cases h <;> rfl
        rw [hst]
        refine alike_tagged rfl rfl (alike_of_fills hbody hcondition ?_)
        exact .cons (.given hcondition (Expression.alike_of_read hc (hbody.field hcondition rfl)))
          (.cons (.given hthen (ih hs (hbody.field hthen rfl)))
            (.cons (fills_optional (fun _ _ => ih) helse hbody rfl (.head _)) .nil))
      · simp only [Option.bind_eq_bind, Option.bind_eq_some_iff, Option.pure_def, Option.some.injEq,
          string?_eq_some] at h
        obtain ⟨_, hname, x, rfl, je, hvalue, e, he, rfl⟩ := h
        have hbody : body.Plain .assignment := hplain.under rfl
        refine alike_tagged rfl rfl (alike_of_fills hbody hname ?_)
        exact .cons (.given hname (.same _))
          (.cons (.given hvalue (Expression.alike_of_read he (hbody.field hvalue rfl))) .nil)
      · simp only [Option.bind_eq_bind, Option.bind_eq_some_iff, Option.pure_def, Option.some.injEq] at h
        obtain ⟨je, hvalue, e, he, rfl⟩ := h
        have hbody : body.Plain .result := hplain.under rfl
        refine alike_tagged rfl rfl (alike_of_fills hbody hvalue ?_)
        exact .cons (.given hvalue (Expression.alike_of_read he (hbody.field hvalue rfl))) .nil
      · cases h
    · cases h

/-- Nothing is lost on the way to the JSON form and back, and of a value that is read all that the form knows is
written. -/
theorem json_form_lossless (b : Block) :
    (Block.toJson b).block? = some b ∧
      ∀ j : Json, j.Plain .block → j.block? = some b → (j.tidy .block).Alike (Block.toJson b) := by
  refine ⟨Block.block?_toJson b, ?_⟩
  intro j hplain h
  simp only [Json.block?, Option.bind_eq_bind, Option.bind_eq_some_iff] at h
  obtain ⟨items, hitems, hb⟩ := h
  exact Statement.alike_block Statement.alike_of_read hitems hb hplain

/-- Fields that mean nothing, fields in another order, and neither an initial value nor an alternative. -/
def sparseForm : Json :=
  .object [("version", .object [("major", .integer 1), ("major", .integer 2)]), ("statements", .array [
    .tagged "VariableDeclaration" (.object [("line", .integer 3), ("name", .string "x")]),
    .tagged "If" (.object [("then_branch", .tagged "Return" (.object [("value", .tagged "Binary" (.object [
        ("op", .string "Add"), ("right", .tagged "Literal" (.integer (-9223372036854775808))),
        ("left", .tagged "Identifier" (.string "x"))]))])),
      ("condition", .tagged "Identifier" (.string "x"))])])]

theorem sparseForm_written_back :
    sparseForm.Plain .block ∧
      sparseForm.block? = some [.declare "x" none,
        .ifThen (.var "x") (.result (.binary .add (.var "x") (.literal (-9223372036854775808))))] ∧
      (sparseForm.tidy .block).Alike (Block.toJson [.declare "x" none,
        .ifThen (.var "x") (.result (.binary .add (.var "x") (.literal (-9223372036854775808))))]) := by
  have hplain : sparseForm.Plain .block := by
    simp [sparseForm, tagged, Plain, PlainFields, PlainItems, Form.keys, Form.item, List.lookup_cons]
  have hread : sparseForm.block? = some [.declare "x" none,
      .ifThen (.var "x") (.result (.binary .add (.var "x") (.literal (-9223372036854775808))))] := by
    rfl
  exact ⟨hplain, hread, (json_form_lossless _).2 _ hplain hread⟩

end IntScript
