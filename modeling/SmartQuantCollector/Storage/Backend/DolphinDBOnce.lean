import SmartQuantCollector.Storage.Backend.DolphinDBLedger

/-! # A trade is stored at most once

`TableInsertTrades` works row by row. When a row fails after others of its batch were accepted, the
whole batch goes to the fallback, and the accepted rows are stored twice. This is the only way:
as long as a row that fails is the first of its batch, the ledger has no repetitions
(`storedOnce_of_failsFirst`). -/

namespace Sqc.DolphinDBBackend

open Concurrency

variable {ι : Type} [Fintype ι] {cfg : Config} {s t : State ι} {connected : Bool}

/-- No trade is twice among the rows that the trades writer accepted and the fallback. -/
def StoredOnce (s : State ι) : Prop :=
  (((s.accepted ++ s.fallback).filter (·.record.kind = .tick)).map Item.seq).Nodup

theorem storedOnce_of_numbered {bound : Nat} (h : NumberedBelow Item.seq bound (held s)) :
    StoredOnce s := by
  have hle : (↑(s.accepted ++ s.fallback) : Multiset Item) ≤ held s := by
    rw [held, ← Multiset.coe_add, add_assoc _ (↑s.accepted : Multiset Item)]
    exact Multiset.le_add_left _ _
  have hnodup := (h.of_le hle).nodup
  rw [Multiset.map_coe, Multiset.coe_nodup] at hnodup
  exact hnodup.sublist (List.filter_sublist.map Item.seq)

variable [DecidableEq ι]

/-- A row that fails is the first of its batch. -/
def FailsFirst (cfg : Config) (s : State ι) (a : Action ι) : Prop :=
  (duplicated cfg s a).isEmpty = true

instance (cfg : Config) (s : State ι) (a : Action ι) : Decidable (FailsFirst cfg s a) :=
  inferInstanceAs (Decidable (_ = true))

theorem numbered_step {a : Action ι} (h : NumberedBelow Item.seq s.next (held s))
    (hC : FailsFirst cfg s a) (ht : step cfg s a = some t) :
    NumberedBelow Item.seq t.next (held t) := by
  obtain ⟨loss, -, hbal⟩ := step_ledger ht
  rw [List.isEmpty_iff.mp hC, Multiset.coe_nil, add_zero] at hbal
  have hle : held t ≤ held s + ↑(inserted s a) := hbal ▸ Multiset.le_add_right _ _
  rw [(step_handed ht).2]
  cases a with
  | insert i r nowNs flushNs =>
    have hnew : NumberedBelow Item.seq (s.next + 1) ((⟨s.next, r⟩ : Item) ::ₘ held s) :=
      h.of_cons rfl
    refine hnew.of_le (hle.trans (le_of_eq ?_))
    rw [inserted, Multiset.coe_singleton, add_comm, Multiset.singleton_add]
  | _ =>
    refine h.of_le (hle.trans (le_of_eq ?_))
    exact add_zero _

/-- In every run in which a failing row is the first of its batch, no trade is stored twice. -/
theorem storedOnce_of_failsFirst {as : List (Action ι)}
    (hC : (machine cfg ι connected).Along (FailsFirst cfg) (.init ι connected) as)
    (hrun : (machine cfg ι connected).exec (.init ι connected) as = some t) : StoredOnce t := by
  have hinit : NumberedBelow Item.seq (State.init ι connected).next (held (.init ι connected)) := by
    rw [held_init]
    exact ⟨List.nodup_nil, nofun⟩
  exact storedOnce_of_numbered ((machine cfg ι connected).exec_invariant
    (I := fun s => NumberedBelow Item.seq s.next (held s))
    (fun s a t hI hC hs => numbered_step hI hC hs) hinit hC hrun)

section Samples

/-- A trade of November 2023. -/
def sampleTick : Record :=
  .tick { (default : TickData) with exchangeTimestamp := 1700000000000000 }

/-- A flush after every second trade. -/
def pairConfig : Config := { bufferSize := 2, maxValidDate := 22000 }

def insertPair : List (Action Unit) :=
  [.insert () sampleTick 0 0, .insert () sampleTick 0 0, .run () {}]

/-- The rest of a `FlushBuffer` whose batch of two goes to the fallback, and `FlushAndClose`. -/
def fallBackAndClose : List (Action Unit) :=
  List.replicate 6 (.run () {}) ++ [.run () { reconnect := .unreachable }] ++
    List.replicate 5 (.run () {}) ++ List.replicate 8 (.close ())

/-- One batch is accepted, and the first row of the next one fails. -/
theorem first_row_fails_storedOnce :
    ((machine pairConfig Unit true).exec (.init Unit true)
      (insertPair ++ [.run () {}, .run () {}, .run () {}] ++ insertPair ++
        [.run () { row := .threw }] ++ fallBackAndClose)).map
      (fun t => (t.accepted.map Item.seq, t.fallback.map Item.seq)) = some ([0, 1], [2, 3]) ∧
    ∀ t ∈ (machine pairConfig Unit true).exec (.init Unit true)
      (insertPair ++ [.run () {}, .run () {}, .run () {}] ++ insertPair ++
        [.run () { row := .threw }] ++ fallBackAndClose), StoredOnce t :=
  ⟨rfl, fun _ ht => storedOnce_of_failsFirst (by decide) ht⟩

/-- The second row of a batch fails. The first one, which the writer has sent, is appended to the
fallback as well. -/
theorem second_row_fails_stores_twice :
    ∃ t, (machine pairConfig Unit true).exec (.init Unit true)
      (insertPair ++ [.run () {}, .run () { row := .failed }, .send .tick 0] ++
        fallBackAndClose) = some t ∧
      t.sent.map Item.seq = [0] ∧ t.fallback.map Item.seq = [0, 1] ∧ ¬ StoredOnce t :=
  ⟨_, rfl, rfl, rfl, by unfold StoredOnce; decide⟩

end Samples

end Sqc.DolphinDBBackend
