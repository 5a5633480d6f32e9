import Mathlib.Data.List.Forall2

/-! # Reading YAML documents

A reader asks nodes for keys and converts them. What it knows of the nodes is a parameter
(`Access`), so that nothing is said about a library beyond what a hypothesis names. A reader fills a
structure that already holds defaults: `optional` keeps the value when the key is absent, `itemsAt`
when it is absent or is no sequence.

`Documents` are the nodes that somebody who writes a document can make: what is put into them is
found again. `Node` are trees for which all of this holds. -/

namespace YamlTree

variable {N ε α β : Type}

/-- The nodes of a document, for a reader in which exceptions are of type `ε`. -/
structure Access (N ε : Type) where
  /-- The node under a key, `none` where it is not defined. -/
  get : N → String → Except ε (Option N)
  /-- What the conversion of the undefined node under a key throws. -/
  undefined : String → ε
  /-- The nodes of a sequence, `none` for the other nodes. -/
  items : N → Option (List N)
  string : N → Except ε String

namespace Access

variable (a : Access N ε)

/-- The key has to be there. -/
def required (read : N → Except ε α) (node : N) (key : String) : Except ε α := do
  match ← a.get node key with
  | none => throw (a.undefined key)
  | some v => read v

/-- The value `x` stays when the key is absent. -/
def optional (read : N → Except ε α) (node : N) (key : String) (x : α) : Except ε α := do
  match ← a.get node key with
  | none => pure x
  | some v => read v

/-- The value `x` stays when there is no sequence under the key. -/
def itemsAt (read : N → Except ε α) (node : N) (key : String) (x : List α) :
    Except ε (List α) := do
  match (← a.get node key).bind a.items with
  | some nodes => nodes.mapM read
  | none => pure x

end Access

@[simp]
theorem ok_bind (x : α) (f : α → Except ε β) : ((Except.ok x : Except ε α) >>= f) = f x := rfl

theorem bind_eq_ok {x : Except ε α} {f : α → Except ε β} {y : β} :
    x >>= f = .ok y ↔ ∃ a, x = .ok a ∧ f a = .ok y := by
  cases x with
  | error e =>
    constructor
    · intro h
      cases h
    · rintro ⟨a, ha, -⟩
      cases ha
  | ok a => exact ⟨fun h => ⟨a, rfl, h⟩, fun ⟨_, ha, h⟩ => by cases ha; exact h⟩

/-! ## Writing -/

/-- Nodes in which a reader finds what they were made of. -/
structure Documents (a : Access N ε) where
  scalar : String → N
  sequence : List N → N
  map : List (String × N) → N
  string_scalar : ∀ text, a.string (scalar text) = .ok text
  items_sequence : ∀ nodes, a.items (sequence nodes) = some nodes
  get_map : ∀ entries key, a.get (map entries) key = .ok (entries.lookup key)

attribute [simp] Documents.string_scalar Documents.items_sequence Documents.get_map

theorem mapM_map_eq_ok {read : N → Except ε α} {write : α → N} {xs : List α}
    (h : ∀ x ∈ xs, read (write x) = .ok x) : (xs.map write).mapM read = .ok xs := by
  induction xs with
  | nil => rfl
  | cons x xs ih =>
    rw [List.map_cons, List.mapM_cons, h x List.mem_cons_self,
      ih fun y hy => h y (List.mem_cons_of_mem _ hy)]
    rfl

namespace Documents

variable {a : Access N ε} (d : Documents a) {read : N → Except ε α}
  {entries : List (String × N)} {key : String}

@[simp]
theorem required_map :
    a.required read (d.map entries) key =
      (entries.lookup key).elim (.error (a.undefined key)) read := by
  rw [Access.required, d.get_map]
  cases entries.lookup key <;> rfl

@[simp]
theorem optional_map (x : α) :
    a.optional read (d.map entries) key x = (entries.lookup key).elim (.ok x) read := by
  rw [Access.optional, d.get_map]
  cases entries.lookup key <;> rfl

theorem optional_map_of_lookup {v : N} (h : entries.lookup key = some v) (x : α) :
    a.optional read (d.map entries) key x = read v := by
  rw [optional_map, h]
  rfl

theorem itemsAt_map {nodes : List N} (h : entries.lookup key = some (d.sequence nodes))
    (x : List α) : a.itemsAt read (d.map entries) key x = nodes.mapM read := by
  rw [Access.itemsAt, d.get_map, h, ok_bind, Option.bind_some, d.items_sequence]

end Documents

/-! ## What is read -/

section
variable {a : Access N ε} {read : N → Except ε α} {P : α → Prop}

theorem forall_of_mapM (hread : ∀ {v x}, read v = .ok x → P x) {nodes : List N} {xs : List α}
    (h : nodes.mapM read = .ok xs) : ∀ x ∈ xs, P x := by
  induction nodes generalizing xs with
  | nil =>
    cases h
    exact List.forall_mem_nil _
  | cons v nodes ih =>
    rw [List.mapM_cons] at h
    obtain ⟨x, hx, h⟩ := bind_eq_ok.mp h
    obtain ⟨ys, hys, h⟩ := bind_eq_ok.mp h
    cases h
    exact List.forall_mem_cons.mpr ⟨hread hx, ih hys⟩

/-- A value that is read under a key or stays. -/
theorem of_optional (hread : ∀ {v x}, read v = .ok x → P x) {node : N} {key : String} {x y : α}
    (hx : P x) (h : a.optional read node key x = .ok y) : P y := by
  obtain ⟨o, -, h⟩ := bind_eq_ok.mp h
  cases o with
  | none =>
    cases h
    exact hx
  | some v => exact hread h

/-- Every item of a list that is read has a property which the reader of items establishes. -/
theorem forall_of_itemsAt (hread : ∀ {v x}, read v = .ok x → P x) {node : N} {key : String}
    {xs ys : List α} (hxs : ∀ x ∈ xs, P x) (h : a.itemsAt read node key xs = .ok ys) :
    ∀ x ∈ ys, P x := by
  obtain ⟨o, -, h⟩ := bind_eq_ok.mp h
  cases hitems : o.bind a.items with
  | none =>
    rw [hitems] at h
    cases h
    exact hxs
  | some nodes =>
    rw [hitems] at h
    exact forall_of_mapM hread h

end

/-! ## Trees -/

inductive Node where
  | null
  | scalar (text : String)
  | sequence (nodes : List Node)
  | map (entries : List (String × Node))

namespace Node

inductive Error where
  | badSubscript (key : String)
  | badConversion
  | invalidNode (key : String)
deriving DecidableEq

/-- A scalar that is converted. -/
def as (throws : Error → ε) (convert : String → Option α) : Node → Except ε α
  | scalar text => (convert text).elim (.error (throws .badConversion)) .ok
  | null | sequence _ | map _ => .error (throws .badConversion)

theorem as_scalar (throws : Error → ε) {convert : String → Option α} {text : String} {x : α}
    (h : convert text = some x) : (scalar text).as throws convert = .ok x := by
  rw [as, h]
  rfl

def access (throws : Error → ε) : Access Node ε where
  get
    | scalar _, key => .error (throws (.badSubscript key))
    | map entries, key => .ok (entries.lookup key)
    | null, _ | sequence _, _ => .ok none
  undefined key := throws (.invalidNode key)
  items
    | sequence nodes => some nodes
    | null | scalar _ | map _ => none
  string
    | null => .ok "null"
    | node => node.as throws some

def documents (throws : Error → ε) : Documents (access throws) where
  scalar := scalar
  sequence := sequence
  map := map
  string_scalar _ := rfl
  items_sequence _ := rfl
  get_map _ _ := rfl

end Node

end YamlTree
