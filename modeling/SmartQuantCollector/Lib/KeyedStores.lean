import Mathlib.Data.List.Basic
import Mathlib.Logic.Function.Basic

/-! # Stores by key

A collection of stores, each under a key, that items are appended to. An item goes to the store of
its key; when there is none, it is left out. The first store that is put under a key stays there.

`append` may fail. When the stores keep an invariant under which it does not (`Appends`), a run over
any list of items returns, and the items it has stored are those whose key has a store
(`insertAll_spec`). -/

namespace KeyedStores

universe u v w

structure State (κ : Type u) (σ : Type v) (α : Type w) where
  stores : κ → Option σ := fun _ => none
  /-- The items that were appended to a store. -/
  log : List α := []

variable {κ : Type u} {σ : Type v} {α : Type w} [DecidableEq κ]

/-- Puts a store under a key that has none. -/
def emplace (s : State κ σ α) (k : κ) (v : σ) : State κ σ α :=
  if (s.stores k).isSome then s else { s with stores := Function.update s.stores k (some v) }

variable (key : α → κ) (append : σ → α → Option σ)

def insert (s : State κ σ α) (x : α) : Option (State κ σ α) :=
  match s.stores (key x) with
  | none => some s
  | some v =>
    (append v x).map fun w => ⟨Function.update s.stores (key x) (some w), s.log ++ [x]⟩

def insertAll (s : State κ σ α) (xs : List α) : Option (State κ σ α) :=
  xs.foldlM (insert key append) s

/-! ## Putting stores under keys -/

theorem isSome_update (m : κ → Option σ) (k j : κ) (v : σ) :
    (Function.update m k (some v) j).isSome = true ↔ j = k ∨ (m j).isSome = true := by
  rw [Function.update_apply]
  split
  next h => exact ⟨fun _ => .inl h, fun _ => rfl⟩
  next h => exact ⟨.inr, fun hor => hor.resolve_left h⟩

/-- A property of the stores that the new one has. -/
theorem forall_update {I : σ → Prop} {m : κ → Option σ} {k : κ} {v : σ}
    (hm : ∀ j w, m j = some w → I w) (hv : I v) :
    ∀ j w, Function.update m k (some v) j = some w → I w := by
  intro j w hw
  rw [Function.update_apply] at hw
  split at hw
  · cases hw
    exact hv
  · exact hm j w hw

theorem isSome_emplace (s : State κ σ α) (k j : κ) (v : σ) :
    ((emplace s k v).stores j).isSome = true ↔ j = k ∨ (s.stores j).isSome = true := by
  unfold emplace
  split
  next h =>
    refine ⟨.inr, fun hor => ?_⟩
    rcases hor with rfl | hj
    · exact h
    · exact hj
  next => exact isSome_update ..

@[simp] theorem emplace_log (s : State κ σ α) (k : κ) (v : σ) : (emplace s k v).log = s.log := by
  unfold emplace
  split <;> rfl

theorem forall_emplace {I : σ → Prop} {s : State κ σ α} {k : κ} {v : σ}
    (hs : ∀ j w, s.stores j = some w → I w) (hv : I v) :
    ∀ j w, (emplace s k v).stores j = some w → I w := by
  unfold emplace
  split
  · exact hs
  · exact forall_update hs hv

/-! ## Appending -/

variable {key append}

/-- Under the invariant `I` an item can be appended; it is then held, and so is what was before. -/
def Appends (append : σ → α → Option σ) (I : σ → Prop) (Holds : σ → α → Prop) : Prop :=
  ∀ v x, I v → ∃ w, append v x = some w ∧ I w ∧ Holds w x ∧ ∀ y, Holds v y → Holds w y

/-- The stores keep their invariant, and the log is what they hold. -/
structure Inv (key : α → κ) (I : σ → Prop) (Holds : σ → α → Prop) (s : State κ σ α) : Prop where
  inv : ∀ k v, s.stores k = some v → I v
  holds : ∀ x ∈ s.log, ∃ v, s.stores (key x) = some v ∧ Holds v x

variable {I : σ → Prop} {Holds : σ → α → Prop} {s : State κ σ α}

theorem insert_spec (happ : Appends append I Holds) (h : Inv key I Holds s) (x : α) :
    ∃ t, insert key append s x = some t ∧ Inv key I Holds t ∧
      (∀ k, (t.stores k).isSome = (s.stores k).isSome) ∧
      t.log = s.log ++ [x].filter fun x => (s.stores (key x)).isSome := by
  cases hv : s.stores (key x) with
  | none =>
    refine ⟨s, by rw [insert, hv], h, fun _ => rfl, ?_⟩
    rw [List.filter_singleton, hv]
    exact (List.append_nil _).symm
  | some v =>
    obtain ⟨w, hw, hI, hx, hmono⟩ := happ v x (h.inv _ v hv)
    refine ⟨⟨Function.update s.stores (key x) (some w), s.log ++ [x]⟩, ?_,
      ⟨forall_update h.inv hI, fun y hy => ?_⟩, fun k => ?_, ?_⟩
    · simp only [insert, hv, hw, Option.map_some]
    · show ∃ v, Function.update s.stores (key x) (some w) (key y) = some v ∧ Holds v y
      rw [Function.update_apply]
      rcases List.mem_append.mp hy with hy | hy
      · obtain ⟨u, hu, hholds⟩ := h.holds y hy
        split
        next heq =>
          rw [heq, hv] at hu
          cases hu
          exact ⟨w, rfl, hmono y hholds⟩
        next => exact ⟨u, hu, hholds⟩
      · cases List.mem_singleton.mp hy
        exact ⟨w, if_pos rfl, hx⟩
    · rw [Bool.eq_iff_iff, isSome_update]
      refine ⟨fun hor => ?_, .inr⟩
      rcases hor with rfl | hk
      · rw [hv]
        rfl
      · exact hk
    · rw [List.filter_singleton, hv]
      rfl

theorem insertAll_spec (happ : Appends append I Holds) (h : Inv key I Holds s) (xs : List α) :
    ∃ t, insertAll key append s xs = some t ∧ Inv key I Holds t ∧
      t.log = s.log ++ xs.filter fun x => (s.stores (key x)).isSome := by
  induction xs generalizing s with
  | nil => exact ⟨s, rfl, h, (List.append_nil _).symm⟩
  | cons x xs ih =>
    obtain ⟨u, hu, hinv, hdom, hlog⟩ := insert_spec happ h x
    obtain ⟨t, ht, hinv', hlog'⟩ := ih hinv
    refine ⟨t, ?_, hinv', ?_⟩
    · rw [insertAll, List.foldlM_cons, hu]
      exact ht
    · simp only [hdom] at hlog'
      rw [hlog', hlog, List.append_assoc, ← List.filter_append, List.singleton_append]

end KeyedStores
