import SmartQuantCollector.Lib.RingQueue

/-! # `SPSCQueue` (`src/common/spsc_queue.h`)

The lock-free queue between a publishing thread and the pub thread, as a ring queue: the tests of
`try_push` and `try_pop` on its two `size_t` counters, and slots that a pop copies out. The header
calls the counters monotonic; they wrap modulo `2 ^ 64`, which the tests do not notice
(`SpscQueue.lawful`). -/

namespace Sqc
open Concurrency

namespace SpscQueue

variable {T : Type*}

def ring (T : Type*) (kCapacity : Capacity) : RingQueue T where
  capacity := kCapacity
  full w r := w - r ≥ kCapacity.word
  empty r w := r == w
  residue item := item

theorem lawful (c : Capacity) : (ring T c).Lawful fun _ => True where
  full_iff {r w} hrw hle := by
    have hlt : w - r < 2 ^ 64 := by
      have := c.val_lt
      have : w ≤ r + c.val := hle
      omega
    have hiff : (ring T c).full (.ofNat w) (.ofNat r) = true ↔ c.val ≤ w - r := by
      rw [← c.word_toNat, ← word_sub hrw hlt, ← UInt64.le_iff_toNat_le]
      exact decide_eq_true_iff
    rw [hiff]
    have : w ≤ r + c.val := hle
    constructor
    · intro h
      show w = r + c.val
      omega
    · intro h
      have : w = r + c.val := h
      omega
  empty_iff {r w} _ hrw hle := by
    have hlt : w - r < 2 ^ 64 := by
      have := c.val_lt
      have : w ≤ r + c.val := hle
      omega
    show (UInt64.ofNat r == UInt64.ofNat w) = true ↔ r = w
    rw [beq_iff_eq]
    exact ⟨word_inj hrw hlt, congrArg _⟩

/-! ## One producer and one consumer -/

/-- A step of one of the two threads: the producer starts a `try_push`, or a thread does the next
operation of its call (the consumer starting a `try_pop` when it is outside one). -/
inductive Action (T : Type*) where
  | tryPush (item : T)
  | producer
  | consumer
deriving DecidableEq

/-- The queue with a single producer thread, its slots holding `x` before the first push. -/
def machine (c : Capacity) (x : T) : Machine (RingQueue.State Unit T) (Action T) where
  init := RingQueue.init Unit x
  step s
    | .tryPush item => RingQueue.tryPush s () item
    | .producer => RingQueue.produce (ring T c) s ()
    | .consumer => some (RingQueue.consume (ring T c) s)

/-- The next operation of the consumer is the load of `write_pos_` at which `try_pop` returns
false. -/
def popFails (c : Capacity) (s : RingQueue.State Unit T) : Bool :=
  match s.consumer with
  | .loadWrite r => (ring T c).empty r s.writePos
  | _ => false

/-- A FIFO of `kCapacity` values: `accepted` and `popped` list the values of the successful calls so
far, the values between the two are unread. -/
structure BoundedFifo (c : Capacity) (s : RingQueue.State Unit T) : Prop where
  fifo : s.popped <+: s.accepted
  push_false : RingQueue.pushResult (ring T c) s () = some false →
    s.accepted.length = s.popped.length + c.val
  pop_false : popFails c s = true → s.accepted.length = s.popped.length
  /-- The slot that is written holds no unread value. -/
  write_unread : ∀ {item w}, s.producers () = .writeSlot item w → ∀ p, s.popped.length ≤ p →
    p < s.accepted.length → (ring T c).index w ≠ (ring T c).index (.ofNat p)
  /-- The slot that is written is not the one a pop is about to read. -/
  write_read : ∀ {item w r}, s.producers () = .writeSlot item w → s.consumer = .readSlot r →
    (ring T c).index w ≠ (ring T c).index r

theorem step_inv {c : Capacity} {x : T} {s t : RingQueue.State Unit T} {a : Action T}
    (h : RingQueue.Inv (ring T c) s) (hs : (machine c x).step s a = some t) :
    RingQueue.Inv (ring T c) t := by
  cases a with
  | tryPush item =>
    have hidle := (RingQueue.tryPush_eq_some hs).1
    exact h.tryPush (fun _ => hidle) hs
  | producer => exact h.produce (lawful c) hs
  | consumer =>
    cases hs
    exact h.consume (lawful c) trivial

theorem push_false_of_inv {c : Capacity} {s : RingQueue.State Unit T}
    (h : RingQueue.Inv (ring T c) s)
    (hres : RingQueue.pushResult (ring T c) s () = some false) :
    s.accepted.length = s.popped.length + c.val := by
  have hok := h.producer ()
  unfold RingQueue.pushResult at hres
  split at hres
  next hp =>
    rw [hp] at hok
    obtain rfl := hok
    split at hres
    next hfull => exact (h.full_iff (lawful c)).mp hfull
    next => cases hres
  next => cases hres
  next => cases hres

theorem pop_false_of_inv {c : Capacity} {s : RingQueue.State Unit T}
    (h : RingQueue.Inv (ring T c) s) (hfails : popFails c s = true) :
    s.accepted.length = s.popped.length := by
  have hok := h.consumer
  unfold popFails at hfails
  split at hfails
  next hk =>
    rw [hk] at hok
    obtain rfl := hok
    exact ((h.empty_iff (lawful c) trivial).mp hfails).symm
  next => cases hfails

theorem write_unread_of_inv {c : Capacity} {s : RingQueue.State Unit T} {item : T} {w : UInt64}
    (h : RingQueue.Inv (ring T c) s) (hp : s.producers () = .writeSlot item w) {p : Nat}
    (hle : s.popped.length ≤ p) (hlt : p < s.accepted.length) :
    (ring T c).index w ≠ (ring T c).index (.ofNat p) := by
  have hok := h.producer ()
  rw [hp] at hok
  obtain ⟨rfl, hroom⟩ := hok
  rw [h.writePos_eq, RingQueue.index_ofNat, RingQueue.index_ofNat]
  exact (h.mod_ne hle hlt hroom).symm

/-- Every interleaving of the operations of any number of `try_push` calls by one thread and
`try_pop` calls by another. -/
theorem exec_boundedFifo (c : Capacity) (x : T) {as : List (Action T)}
    {s : RingQueue.State Unit T} (h : (machine c x).exec (machine c x).init as = some s) :
    BoundedFifo c s := by
  have hinv : RingQueue.Inv (ring T c) s :=
    (machine c x).exec_invariant (C := fun _ _ => True)
      (fun _ _ _ hs _ hstep => step_inv hs hstep) RingQueue.Inv.init (machine c x).along_true h
  refine ⟨hinv.fifo, push_false_of_inv hinv, pop_false_of_inv hinv,
    fun hp _ => write_unread_of_inv hinv hp, fun hp hk => ?_⟩
  -- the pop reads the oldest unread value
  have hok := hinv.consumer
  rw [hk] at hok
  obtain ⟨rfl, hlt⟩ := hok
  rw [hinv.readPos_eq]
  exact write_unread_of_inv hinv hp (Nat.le_refl _) hlt

theorem two_slots_exp_lt : 1 < 64 := by decide

/-- Two slots: a push that overlaps a pop, then a push that finds the ring full. -/
theorem exec_two_slots_boundedFifo :
    ((machine ⟨1, two_slots_exp_lt⟩ 0).exec (machine ⟨1, two_slots_exp_lt⟩ 0).init
      [.tryPush 7, .consumer, .producer, .producer, .producer, .consumer, .tryPush 8, .producer,
        .producer, .producer, .tryPush 9]).map
        (RingQueue.pushResult (ring Nat ⟨1, two_slots_exp_lt⟩) · ()) = some (some false) ∧
    ∀ s ∈ (machine ⟨1, two_slots_exp_lt⟩ 0).exec (machine ⟨1, two_slots_exp_lt⟩ 0).init
      [.tryPush 7, .consumer, .producer, .producer, .producer, .consumer, .tryPush 8, .producer,
        .producer, .producer, .tryPush 9],
      BoundedFifo ⟨1, two_slots_exp_lt⟩ s :=
  ⟨by decide, fun _ hs => exec_boundedFifo ⟨1, two_slots_exp_lt⟩ 0 hs⟩

end SpscQueue

end Sqc
