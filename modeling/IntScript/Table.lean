import IntScript.Text.Order

set_option autoImplicit false

namespace IntScript

/-- Newer bindings stand first, and hide older ones of the same name. -/
structure Table (α : Type) where
  bindings : List (String × α)
  declared : List String
  deriving Repr

namespace Table

variable {α β : Type}

def empty : Table α := ⟨[], []⟩

def lookup? (t : Table α) (name : String) : Option α := t.bindings.lookup name

def contains (t : Table α) (name : String) : Bool := (t.lookup? name).isSome

def isDeclaredHere (t : Table α) (name : String) : Bool := t.declared.contains name

/-- Binds a name without declaring it. -/
def inherit (t : Table α) (name : String) (item : α) : Table α :=
  ⟨(name, item) :: t.bindings, t.declared⟩

def bind (t : Table α) (name : String) (item : α) : Table α :=
  ⟨(name, item) :: t.bindings, name :: t.declared⟩

def declare? (t : Table α) (name : String) (item : α) : Option (Table α) :=
  if t.isDeclaredHere name then none else some (t.bind name item)

def child (t : Table α) : Table α := ⟨t.bindings, []⟩

/-- All pairs are declared; of two pairs with one name the later counts. -/
def ofList (pairs : List (String × α)) : Table α :=
  pairs.foldl (fun t p => t.bind p.1 p.2) empty

def names (t : Table α) : List String := Text.sortedNames (t.bindings.map Prod.fst)

def size (t : Table α) : Nat := t.names.length

def isEmpty (t : Table α) : Bool := t.bindings.isEmpty

def entries (t : Table α) : List (String × α) :=
  t.names.filterMap fun name => (t.lookup? name).map fun item => (name, item)

def map (f : α → β) (t : Table α) : Table β :=
  ⟨t.bindings.map fun p => (p.1, f p.2), t.declared⟩

@[simp] theorem lookup?_empty (x : String) : (empty : Table α).lookup? x = none := rfl

@[simp] theorem lookup?_child (t : Table α) (x : String) : t.child.lookup? x = t.lookup? x := rfl

@[simp] theorem isDeclaredHere_child (t : Table α) (x : String) : t.child.isDeclaredHere x = false := rfl

theorem lookup?_inherit (t : Table α) (x y : String) (item : α) :
    (t.inherit x item).lookup? y = if y = x then some item else t.lookup? y := by
  by_cases h : y = x
  · simp [lookup?, inherit, h]
  · have hxy : (y == x) = false := by simpa using h
    simp [lookup?, inherit, List.lookup_cons, h, hxy]

theorem lookup?_bind (t : Table α) (x y : String) (item : α) :
    (t.bind x item).lookup? y = if y = x then some item else t.lookup? y :=
  lookup?_inherit t x y item

@[simp] theorem isDeclaredHere_inherit (t : Table α) (x y : String) (item : α) :
    (t.inherit x item).isDeclaredHere y = t.isDeclaredHere y := rfl

theorem isDeclaredHere_bind (t : Table α) (x y : String) (item : α) :
    (t.bind x item).isDeclaredHere y = (y == x || t.isDeclaredHere y) :=
  List.contains_cons

theorem declare?_eq_none_iff (t : Table α) (x : String) (item : α) :
    t.declare? x item = none ↔ t.isDeclaredHere x = true := by
  unfold declare?
  split <;> simp_all

theorem declare?_eq_some {t u : Table α} {x : String} {item : α} (h : t.declare? x item = some u) :
    u = t.bind x item ∧ t.isDeclaredHere x = false := by
  unfold declare? at h
  split at h
  · cases h
  · next hx => exact ⟨(Option.some.inj h).symm, by simpa using hx⟩

end Table

end IntScript
