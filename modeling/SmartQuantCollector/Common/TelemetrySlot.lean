import SmartQuantCollector.Lib.SeqLock

/-! # `TelemetrySlot` (`src/common/telemetry_slot.h`)

The slot is a sequence lock over four fields, which `WriteTelemetrySlot` stores and
`ReadTelemetrySlot` loads in the order of their declaration. One thread writes, and any number of
threads read; each access to a field or to the version is one action, and the accesses of all
threads interleave in any order. -/

namespace Sqc
open Concurrency

namespace TelemetrySlot

/-- The fields beside `version`. -/
inductive Field where
  | marketDataDelayNs
  | queueDepth
  | sequenceGapCount
  | zmqDroppedCount
deriving DecidableEq

namespace Field

/-- The order of the stores and of the loads. -/
def all : List Field := [marketDataDelayNs, queueDepth, sequenceGapCount, zmqDroppedCount]

theorem mem_all (f : Field) : f ∈ all := by
  cases f with
  | marketDataDelayNs | queueDepth | sequenceGapCount | zmqDroppedCount => decide

end Field

/-- The arguments of a call of `WriteTelemetrySlot`, by the fields they are stored to. -/
def values (delayNs qDepth gapCount zmqDropped : UInt64) : Field → UInt64
  | .marketDataDelayNs => delayNs
  | .queueDepth => qDepth
  | .sequenceGapCount => gapCount
  | .zmqDroppedCount => zmqDropped

abbrev State := SeqLock.State Field UInt64 Nat

abbrev Action := SeqLock.Action Field UInt64 Nat

/-- A slot with its writer and its readers. -/
def machine : Machine State Action := SeqLock.machine Field.all (values 0 0 0 0)

/-- The arguments of the last completed call of `WriteTelemetrySlot`, zeros before the first. -/
def lastCompleted (s : State) : Field → UInt64 := s.last (values 0 0 0 0)

/-- `WriteTelemetrySlot(slot, ...)`: its first access; `store` are the others. -/
def writeTelemetrySlot (delayNs qDepth gapCount zmqDropped : UInt64) : Action :=
  .write (values delayNs qDepth gapCount zmqDropped)

/-- Snapshots are not torn: whenever `ReadTelemetrySlot` returns, after fewer than `2 ^ 63` writes
were started since its attempt began, the fields of the snapshot are the arguments of the last call
of `WriteTelemetrySlot` that is completed at this moment. -/
theorem snapshot_eq_lastCompleted (as : List Action) (s : State)
    (hs : machine.exec machine.init as = some s) (r : Nat)
    (hfew : SeqLock.FewWrites s (.load r)) (t : State) (ht : machine.step s (.load r) = some t)
    (snapshot : Field → UInt64) (hr : (t.readers r).result = some snapshot) :
    snapshot = lastCompleted s ∧
      (snapshot = values 0 0 0 0 ∨ ∃ call ∈ s.log, snapshot = call) := by
  have hlast : snapshot = lastCompleted s :=
    SeqLock.returned_eq_last Field.mem_all hs hfew ht hr
  refine ⟨hlast, ?_⟩
  cases hlog : s.log.getLast? with
  | none => exact .inl (hlast.trans (by rw [lastCompleted, SeqLock.State.last, hlog]; rfl))
  | some call =>
    refine .inr ⟨call, List.mem_of_getLast? hlog, ?_⟩
    rw [hlast, lastCompleted, SeqLock.State.last, hlog]
    rfl

/-- The second write begins during the first attempt of the reader, which then tries again. -/
def retried : List Action :=
  [writeTelemetrySlot 1 2 3 4, .store, .store, .store, .store, .store,
    .read 0 (values 0 0 0 0), .load 0, .load 0, writeTelemetrySlot 5 6 7 8, .store, .load 0,
    .load 0, .load 0, .load 0, .store, .store, .store, .store, .load 0, .load 0, .load 0, .load 0,
    .load 0]

theorem retried_snapshot :
    ∃ s t snapshot, machine.exec machine.init retried = some s ∧
      SeqLock.FewWrites s (.load 0) ∧ machine.step s (.load 0) = some t ∧
      (t.readers 0).result = some snapshot ∧ Field.all.map snapshot = [5, 6, 7, 8] ∧
      snapshot = lastCompleted s := by
  have hrun : ((machine.exec machine.init retried).bind fun s =>
      (machine.step s (.load 0)).bind fun t => (t.readers 0).result.map fun snapshot =>
        (decide (SeqLock.FewWrites s (.load 0)), Field.all.map snapshot)) =
      some (true, [5, 6, 7, 8]) := by decide
  obtain ⟨s, hs, hrun⟩ := Option.bind_eq_some_iff.mp hrun
  obtain ⟨t, ht, hrun⟩ := Option.bind_eq_some_iff.mp hrun
  obtain ⟨snapshot, hr, hrun⟩ := Option.map_eq_some_iff.mp hrun
  obtain ⟨hfew, hfields⟩ := Prod.mk.inj hrun
  have hfew := of_decide_eq_true hfew
  refine ⟨s, t, snapshot, hs, hfew, ht, hr, hfields, ?_⟩
  exact (snapshot_eq_lastCompleted retried s hs 0 hfew t ht snapshot hr).1

end TelemetrySlot
end Sqc
