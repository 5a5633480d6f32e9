import SmartQuantCollector.Lib.Machine
import SmartQuantCollector.Lib.Ring
import Mathlib.Data.List.Infix

/-! # Ring queues driven by two wrapping counters

A push loads the write counter, loads the read counter, gives up when the ring is full, writes the
slot and stores the write counter; a pop mirrors it. Each of these operations is one step. Any
number of threads (the type `ι`) may push and one consumer pops; the protocol is only correct while
one push is in progress at a time (`Exclusive`), which is what a single-producer queue relies on.

A queue is given by its capacity, its two tests and by what a pop leaves in the slot it has read.
`accepted` and `popped` record the items of the completed pushes and pops, in order; no step reads
them. `Inv` says that the counters are these two lengths modulo `2 ^ 64` and that the unread items
lie in their slots. -/

namespace Concurrency

structure RingQueue (α : Type*) where
  capacity : Capacity
  /-- The test of a push, on the write and the read counter. -/
  full : UInt64 → UInt64 → Bool
  /-- The test of a pop, on the read and the write counter. -/
  empty : UInt64 → UInt64 → Bool
  /-- What reading an item leaves in its slot. -/
  residue : α → α

namespace RingQueue

/-- Where a pushing thread stands: outside a push, or before the named operation. -/
inductive Producer (α : Type*) where
  | idle
  | loadRead (item : α) (w : UInt64)
  | writeSlot (item : α) (w : UInt64)
  | storeWrite (item : α) (w : UInt64)
deriving DecidableEq

/-- The item of the push in progress. -/
def Producer.item {α : Type*} : Producer α → Option α
  | .idle => none
  | .loadRead item _ | .writeSlot item _ | .storeWrite item _ => some item

/-- Where the consumer stands: outside a pop, or before the named operation. -/
inductive Consumer (α : Type*) where
  | idle
  | loadWrite (r : UInt64)
  | readSlot (r : UInt64)
  | storeRead (r : UInt64) (out : α)
deriving DecidableEq

def Consumer.isIdle {α : Type*} : Consumer α → Bool
  | .idle => true
  | _ => false

structure State (ι α : Type*) where
  writePos : UInt64
  readPos : UInt64
  slots : Nat → α
  producers : ι → Producer α
  consumer : Consumer α
  accepted : List α
  popped : List α

variable {ι α : Type*} {q : RingQueue α} {s t : State ι α}

/-- The number of items in the ring, by its counters. -/
def State.size (s : State ι α) : Nat := (s.writePos - s.readPos).toNat

def init (ι : Type*) (x : α) : State ι α where
  writePos := 0
  readPos := 0
  slots _ := x
  producers _ := .idle
  consumer := .idle
  accepted := []
  popped := []

theorem size_init (x : α) : State.size (init ι x) = 0 := by
  rw [State.size, init, UInt64.sub_self]
  rfl

/-- The index of the slot that a counter designates. -/
def index (q : RingQueue α) (w : UInt64) : Nat := (w &&& (q.capacity.word - 1)).toNat

section
variable [DecidableEq ι]

def State.setProducer (s : State ι α) (i : ι) (p : Producer α) : State ι α :=
  { s with producers := Function.update s.producers i p }

/-- Thread `i` starts a push: the load of the write counter. -/
def tryPush (s : State ι α) (i : ι) (item : α) : Option (State ι α) :=
  match s.producers i with
  | .idle => some (s.setProducer i (.loadRead item s.writePos))
  | _ => none

/-- The next operation of the push in progress on thread `i`. -/
def produce (q : RingQueue α) (s : State ι α) (i : ι) : Option (State ι α) :=
  match s.producers i with
  | .idle => none
  | .loadRead item w =>
    if q.full w s.readPos then some (s.setProducer i .idle)
    else some (s.setProducer i (.writeSlot item w))
  | .writeSlot item w =>
    some ({ s with slots := Function.update s.slots (q.index w) item }.setProducer i
      (.storeWrite item w))
  | .storeWrite item w =>
    some ({ s with writePos := w + 1, accepted := s.accepted ++ [item] }.setProducer i .idle)

end

/-- What the push of thread `i` returns at its next operation, if it returns there. -/
def pushResult (q : RingQueue α) (s : State ι α) (i : ι) : Option Bool :=
  match s.producers i with
  | .loadRead _ w => if q.full w s.readPos then some false else none
  | .storeWrite .. => some true
  | _ => none

/-- The next operation of the consumer, which pops in a loop. -/
def consume (q : RingQueue α) (s : State ι α) : State ι α :=
  match s.consumer with
  | .idle => { s with consumer := .loadWrite s.readPos }
  | .loadWrite r =>
    if q.empty r s.writePos then { s with consumer := .idle }
    else { s with consumer := .readSlot r }
  | .readSlot r =>
    { s with
      slots := Function.update s.slots (q.index r) (q.residue (s.slots (q.index r)))
      consumer := .storeRead r (s.slots (q.index r)) }
  | .storeRead r out =>
    { s with readPos := r + 1, consumer := .idle, popped := s.popped ++ [out] }

/-- What the pop returns at its next operation, if it returns an item there. -/
def popResult (s : State ι α) : Option α :=
  match s.consumer with
  | .storeRead _ out => some out
  | _ => none

/-- No push is in progress. -/
def Exclusive (s : State ι α) : Prop := ∀ i, s.producers i = .idle

/-- The tests of `q` are right for counters at most a capacity apart, the second one while the
number of accepted items satisfies `P`. -/
structure Lawful (q : RingQueue α) (P : Nat → Prop) : Prop where
  full_iff : ∀ {r w : Nat}, r ≤ w → w ≤ r + q.capacity.val →
    (q.full (.ofNat w) (.ofNat r) = true ↔ w = r + q.capacity.val)
  empty_iff : ∀ {r w : Nat}, P w → r ≤ w → w ≤ r + q.capacity.val →
    (q.empty (.ofNat r) (.ofNat w) = true ↔ r = w)

/-! ## The invariant -/

/-- The first position whose slot is still to be read. -/
def State.head (s : State ι α) : Nat :=
  match s.consumer with
  | .storeRead .. => s.popped.length + 1
  | _ => s.popped.length

/-- What a push in progress knows. -/
def ProducerOk (q : RingQueue α) (s : State ι α) : Producer α → Prop
  | .idle => True
  | .loadRead _ w => w = s.writePos
  | .writeSlot _ w =>
    w = s.writePos ∧ s.accepted.length < s.popped.length + q.capacity.val
  | .storeWrite item w =>
    w = s.writePos ∧ s.accepted.length < s.popped.length + q.capacity.val ∧
      s.slots (s.accepted.length % q.capacity.val) = item

/-- What a pop in progress knows. -/
def ConsumerOk (s : State ι α) : Consumer α → Prop
  | .idle => True
  | .loadWrite r => r = s.readPos
  | .readSlot r => r = s.readPos ∧ s.popped.length < s.accepted.length
  | .storeRead r out => r = s.readPos ∧ s.accepted[s.popped.length]? = some out

structure Inv (q : RingQueue α) (s : State ι α) : Prop where
  writePos_eq : s.writePos = .ofNat s.accepted.length
  readPos_eq : s.readPos = .ofNat s.popped.length
  fifo : s.popped <+: s.accepted
  bounded : s.accepted.length ≤ s.popped.length + q.capacity.val
  slot_eq : ∀ {p x}, s.head ≤ p → s.accepted[p]? = some x → s.slots (p % q.capacity.val) = x
  sole : ∀ {i j}, s.producers i ≠ .idle → s.producers j ≠ .idle → i = j
  producer : ∀ i, ProducerOk q s (s.producers i)
  consumer : ConsumerOk s s.consumer

/-- A push in progress is not disturbed by a pop. -/
theorem ProducerOk.mono {p : Producer α} (h : ProducerOk q s p) (hw : t.writePos = s.writePos)
    (hacc : t.accepted = s.accepted) (hpopped : s.popped.length ≤ t.popped.length)
    (hslot : s.accepted.length < s.popped.length + q.capacity.val →
      t.slots (s.accepted.length % q.capacity.val) =
        s.slots (s.accepted.length % q.capacity.val)) : ProducerOk q t p := by
  cases p with
  | idle => trivial
  | loadRead item w => exact h.trans hw.symm
  | writeSlot item w =>
    refine ⟨h.1.trans hw.symm, ?_⟩
    rw [hacc]
    exact Nat.lt_of_lt_of_le h.2 (Nat.add_le_add_right hpopped _)
  | storeWrite item w =>
    refine ⟨h.1.trans hw.symm, ?_, ?_⟩
    · rw [hacc]
      exact Nat.lt_of_lt_of_le h.2.1 (Nat.add_le_add_right hpopped _)
    · rw [hacc]
      exact (hslot h.2.1).trans h.2.2

/-- A pop in progress is not disturbed by a push. -/
theorem ConsumerOk.mono {k : Consumer α} (h : ConsumerOk s k) (hr : t.readPos = s.readPos)
    (hpopped : t.popped = s.popped) (hacc : s.accepted <+: t.accepted) : ConsumerOk t k := by
  cases k with
  | idle => trivial
  | loadWrite r => exact h.trans hr.symm
  | readSlot r =>
    refine ⟨h.1.trans hr.symm, ?_⟩
    rw [hpopped]
    exact Nat.lt_of_lt_of_le h.2 hacc.length_le
  | storeRead r out =>
    refine ⟨h.1.trans hr.symm, ?_⟩
    obtain ⟨rest, hrest⟩ := hacc
    rw [hpopped, ← hrest, List.getElem?_append_left (List.getElem?_eq_some_iff.mp h.2).1]
    exact h.2

theorem index_ofNat (q : RingQueue α) (p : Nat) : q.index (.ofNat p) = p % q.capacity.val :=
  word_and_mask q.capacity p

namespace Inv

theorem init {x : α} : Inv q (init ι x) where
  writePos_eq := rfl
  readPos_eq := rfl
  fifo := List.prefix_rfl
  bounded := Nat.zero_le _
  slot_eq _ h := by cases h
  sole h := absurd rfl h
  producer _ := trivial
  consumer := trivial

theorem length_le (h : Inv q s) : s.popped.length ≤ s.accepted.length := h.fifo.length_le

/-- The slot of the next push is not the slot of an unread item. -/
theorem mod_ne (h : Inv q s) {p : Nat} (hp : s.popped.length ≤ p) (hp' : p < s.accepted.length)
    (hroom : s.accepted.length < s.popped.length + q.capacity.val) :
    p % q.capacity.val ≠ s.accepted.length % q.capacity.val := by
  intro hmod
  have := mod_window_inj hp (by omega) h.length_le hroom hmod
  omega

theorem head_ge (s : State ι α) : s.popped.length ≤ s.head := by
  unfold State.head
  split
  · exact Nat.le_succ _
  · exact Nat.le_refl _

/-- While a push is in progress every other thread is outside one. -/
theorem idle_of_ne (h : Inv q s) {i j : ι} (hi : s.producers i ≠ .idle) (hj : j ≠ i) :
    s.producers j = .idle := by
  by_contra hne
  exact hj (h.sole hne hi)

/-- The test of a push, at its load of the read counter. -/
theorem full_iff {P : Nat → Prop} (h : Inv q s) (hq : q.Lawful P) :
    q.full s.writePos s.readPos = true ↔
      s.accepted.length = s.popped.length + q.capacity.val := by
  rw [h.writePos_eq, h.readPos_eq]
  exact hq.full_iff h.length_le h.bounded

/-- The test of a pop, at its load of the write counter. -/
theorem empty_iff {P : Nat → Prop} (h : Inv q s) (hq : q.Lawful P) (hP : P s.accepted.length) :
    q.empty s.readPos s.writePos = true ↔ s.popped.length = s.accepted.length := by
  rw [h.writePos_eq, h.readPos_eq]
  exact hq.empty_iff hP h.length_le h.bounded

/-- The counters tell how many accepted items are unread. -/
theorem size_add (h : Inv q s) : s.size + s.popped.length = s.accepted.length := by
  have hle := h.length_le
  have hlt : s.accepted.length - s.popped.length < 2 ^ 64 := by
    have := q.capacity.val_lt
    have := h.bounded
    omega
  rw [State.size, h.writePos_eq, h.readPos_eq, word_sub hle hlt]
  omega

/-! ## Steps -/

section
variable [DecidableEq ι]

/-- A step of a push that leaves the ring alone, by a thread that is the only one pushing. -/
theorem setProducer (h : Inv q s) {i : ι} {p : Producer α}
    (hothers : ∀ j ≠ i, s.producers j = .idle) (hp : ProducerOk q s p) :
    Inv q (s.setProducer i p) := by
  have hj : ∀ j ≠ i, (s.setProducer i p).producers j = .idle := fun j hj =>
    (Function.update_of_ne hj _ _).trans (hothers j hj)
  refine ⟨h.writePos_eq, h.readPos_eq, h.fifo, h.bounded, h.slot_eq, ?_, ?_, h.consumer⟩
  · intro j k hj' hk'
    have hji : j = i := by by_contra hne; exact hj' (hj j hne)
    have hki : k = i := by by_contra hne; exact hk' (hj k hne)
    rw [hji, hki]
  · intro j
    rcases eq_or_ne j i with rfl | hne
    · show ProducerOk q s (Function.update s.producers j p j)
      rw [Function.update_self]
      exact hp
    · rw [hj j hne]
      trivial

theorem tryPush (h : Inv q s) {i : ι} {item : α} (hex : Exclusive s)
    (hs : tryPush s i item = some t) : Inv q t := by
  simp only [RingQueue.tryPush, hex i] at hs
  cases hs
  exact h.setProducer (fun j _ => hex j) rfl

/-- The write of a slot by the push that found room. -/
theorem writeSlot (h : Inv q s) {i : ι} {item : α} {w : UInt64}
    (hi : s.producers i = .writeSlot item w) :
    Inv q ({ s with slots := Function.update s.slots (q.index w) item }.setProducer i
      (.storeWrite item w)) := by
  have hok := h.producer i
  rw [hi] at hok
  obtain ⟨hw, hroom⟩ := hok
  have hothers : ∀ j ≠ i, s.producers j = .idle := fun j hj => h.idle_of_ne (by rw [hi]; nofun) hj
  have hidx : q.index w = s.accepted.length % q.capacity.val := by
    rw [hw, h.writePos_eq, q.index_ofNat]
  have hself : Function.update s.slots (q.index w) item (s.accepted.length % q.capacity.val) =
      item := by rw [hidx, Function.update_self]
  have hu : Inv q { s with slots := Function.update s.slots (q.index w) item } := {
    writePos_eq := h.writePos_eq
    readPos_eq := h.readPos_eq
    fifo := h.fifo
    bounded := h.bounded
    slot_eq := fun {p x} hp hx => by
      have hlt : p < s.accepted.length := (List.getElem?_eq_some_iff.mp hx).1
      have hne := h.mod_ne (Nat.le_trans (head_ge s) hp) hlt hroom
      rw [← hidx] at hne
      exact (Function.update_of_ne hne _ _).trans (h.slot_eq hp hx)
    sole := h.sole
    producer := fun j => by
      rcases eq_or_ne j i with rfl | hj
      · show ProducerOk q _ (s.producers j)
        rw [hi]
        exact ⟨hw, hroom⟩
      · show ProducerOk q _ (s.producers j)
        rw [hothers j hj]
        trivial
    consumer := h.consumer }
  exact hu.setProducer hothers ⟨hw, hroom, hself⟩

/-- The store of the write counter: the push returns true. -/
theorem storeWrite (h : Inv q s) {i : ι} {item : α} {w : UInt64}
    (hi : s.producers i = .storeWrite item w) :
    Inv q ({ s with writePos := w + 1, accepted := s.accepted ++ [item] }.setProducer i .idle) := by
  have hok := h.producer i
  rw [hi] at hok
  obtain ⟨hw, hroom, hslot⟩ := hok
  have hlen : (s.accepted ++ [item]).length = s.accepted.length + 1 := List.length_append
  have hidle : ∀ j, Function.update s.producers i .idle j = .idle := by
    intro j
    rcases eq_or_ne j i with rfl | hj
    · exact Function.update_self ..
    · rw [Function.update_of_ne hj]
      exact h.idle_of_ne (by rw [hi]; nofun) hj
  exact {
    writePos_eq := by
      show w + 1 = .ofNat (s.accepted ++ [item]).length
      rw [hw, h.writePos_eq, word_succ, hlen]
    readPos_eq := h.readPos_eq
    fifo := h.fifo.trans (List.prefix_append _ _)
    bounded := by
      show (s.accepted ++ [item]).length ≤ s.popped.length + q.capacity.val
      omega
    slot_eq := fun {p x} hp (hx : (s.accepted ++ [item])[p]? = some x) => by
      rcases Nat.lt_or_ge p s.accepted.length with hlt | hge
      · rw [List.getElem?_append_left hlt] at hx
        exact h.slot_eq hp hx
      · have hp' : p = s.accepted.length := by
          have := (List.getElem?_eq_some_iff.mp hx).1
          omega
        rw [hp', List.getElem?_concat_length] at hx
        cases hx
        rw [hp']
        exact hslot
    sole := fun {j _} hj => absurd (hidle j) hj
    producer := fun j => by
      show ProducerOk q _ (Function.update s.producers i .idle j)
      rw [hidle j]
      trivial
    consumer := h.consumer.mono rfl rfl (List.prefix_append _ _) }

theorem produce {P : Nat → Prop} (h : Inv q s) (hq : q.Lawful P) {i : ι}
    (hs : produce q s i = some t) : Inv q t := by
  have hok := h.producer i
  cases hi : s.producers i with
  | idle =>
    simp only [RingQueue.produce, hi] at hs
    cases hs
  | loadRead item w =>
    rw [hi] at hok
    obtain rfl : w = s.writePos := hok
    have hothers : ∀ j ≠ i, s.producers j = .idle := fun j hj => h.idle_of_ne (by rw [hi]; nofun) hj
    simp only [RingQueue.produce, hi] at hs
    split at hs
    · cases hs
      exact h.setProducer hothers trivial
    next hfull =>
      cases hs
      rw [h.full_iff hq] at hfull
      have := h.bounded
      exact h.setProducer hothers ⟨rfl, by omega⟩
  | writeSlot item w =>
    simp only [RingQueue.produce, hi] at hs
    cases hs
    exact h.writeSlot hi
  | storeWrite item w =>
    simp only [RingQueue.produce, hi] at hs
    cases hs
    exact h.storeWrite hi

end

/-- A step of a pop that leaves the ring alone. -/
theorem setConsumer (h : Inv q s) {k : Consumer α}
    (hhead : State.head { s with consumer := k } = s.head) (hk : ConsumerOk s k) :
    Inv q { s with consumer := k } where
  writePos_eq := h.writePos_eq
  readPos_eq := h.readPos_eq
  fifo := h.fifo
  bounded := h.bounded
  slot_eq hp := h.slot_eq (hhead ▸ hp)
  sole := h.sole
  producer := h.producer
  consumer := hk

/-- The item that a pop reads is the next accepted one. -/
theorem next_item (h : Inv q s) {r : UInt64} (hk : s.consumer = .readSlot r) :
    q.index r = s.popped.length % q.capacity.val ∧
      s.accepted[s.popped.length]? = some (s.slots (q.index r)) := by
  have hcons := h.consumer
  rw [hk] at hcons
  obtain ⟨hr, hlt⟩ := hcons
  have hidx : q.index r = s.popped.length % q.capacity.val := by
    rw [hr, h.readPos_eq, q.index_ofNat]
  have hx := List.getElem?_eq_getElem hlt
  have hhead : s.head = s.popped.length := by simp only [State.head, hk]
  refine ⟨hidx, ?_⟩
  rw [hidx, h.slot_eq (Nat.le_of_eq hhead) hx]
  exact hx

/-- The read of a slot, which may spoil it. -/
theorem readSlot (h : Inv q s) {r : UInt64} {x : α} (hk : s.consumer = .readSlot r) :
    Inv q { s with
      slots := Function.update s.slots (q.index r) x
      consumer := .storeRead r (s.slots (q.index r)) } := by
  obtain ⟨hidx, hnext⟩ := h.next_item hk
  have hcons := h.consumer
  rw [hk] at hcons
  obtain ⟨hr, hlt⟩ := hcons
  have hother : ∀ {p}, s.popped.length < p → p < s.popped.length + q.capacity.val →
      Function.update s.slots (q.index r) x (p % q.capacity.val) =
        s.slots (p % q.capacity.val) := by
    intro p hp hp'
    refine Function.update_of_ne (fun hmod => ?_) _ _
    rw [hidx] at hmod
    have := mod_window_inj (Nat.le_of_lt hp) hp' (Nat.le_refl _)
      (Nat.lt_add_of_pos_right q.capacity.val_pos) hmod
    omega
  exact {
    writePos_eq := h.writePos_eq
    readPos_eq := h.readPos_eq
    fifo := h.fifo
    bounded := h.bounded
    slot_eq := fun {p y} (hp : s.popped.length + 1 ≤ p) (hy : s.accepted[p]? = some y) => by
      have hp' : p < s.accepted.length := (List.getElem?_eq_some_iff.mp hy).1
      have hhead : s.head = s.popped.length := by simp only [State.head, hk]
      have := h.bounded
      show Function.update s.slots (q.index r) x (p % q.capacity.val) = y
      rw [hother (by omega) (by omega)]
      exact h.slot_eq (by omega) hy
    sole := h.sole
    producer := fun i => (h.producer i).mono rfl rfl (Nat.le_refl _) (hother hlt)
    consumer := ⟨hr, hnext⟩ }

/-- The store of the read counter: the pop returns its item. -/
theorem storeRead (h : Inv q s) {r : UInt64} {out : α} (hk : s.consumer = .storeRead r out) :
    Inv q { s with readPos := r + 1, consumer := .idle, popped := s.popped ++ [out] } := by
  have hcons := h.consumer
  rw [hk] at hcons
  obtain ⟨hr, hout⟩ := hcons
  have hlen : (s.popped ++ [out]).length = s.popped.length + 1 := List.length_append
  have hlt : s.popped.length < s.accepted.length := (List.getElem?_eq_some_iff.mp hout).1
  exact {
    writePos_eq := h.writePos_eq
    readPos_eq := by
      show r + 1 = .ofNat (s.popped ++ [out]).length
      rw [hr, h.readPos_eq, word_succ, hlen]
    fifo := by
      obtain ⟨rest, hrest⟩ := h.fifo
      rw [← hrest, List.getElem?_append_right (Nat.le_refl _), Nat.sub_self] at hout
      obtain ⟨tail, rfl⟩ : ∃ tail, rest = out :: tail := by
        cases rest with
        | nil => cases hout
        | cons y tail =>
          cases hout
          exact ⟨tail, rfl⟩
      exact ⟨tail, by rw [← hrest, List.append_assoc]; rfl⟩
    bounded := by
      show s.accepted.length ≤ (s.popped ++ [out]).length + q.capacity.val
      have := h.bounded
      omega
    slot_eq := fun {p y} (hp : (s.popped ++ [out]).length ≤ p) hy => by
      refine h.slot_eq ?_ hy
      rw [hlen] at hp
      simpa only [State.head, hk] using hp
    sole := h.sole
    producer := fun i =>
      (h.producer i).mono rfl rfl (hlen ▸ Nat.le_succ _) fun _ => rfl
    consumer := trivial }

/-- The consumer may take a ring with unread items for an empty one, but not the other way round. -/
theorem consume_of (h : Inv q s)
    (hempty : s.popped.length = s.accepted.length → q.empty s.readPos s.writePos = true) :
    Inv q (consume q s) := by
  have hcons := h.consumer
  cases hk : s.consumer with
  | idle =>
    simp only [RingQueue.consume, hk]
    exact h.setConsumer (by simp only [State.head, hk]) rfl
  | loadWrite r =>
    rw [hk] at hcons
    obtain rfl : r = s.readPos := hcons
    simp only [RingQueue.consume, hk]
    split
    · exact h.setConsumer (by simp only [State.head, hk]) trivial
    next hne =>
      have := h.length_le
      have := mt hempty hne
      exact h.setConsumer (by simp only [State.head, hk]) ⟨rfl, by omega⟩
  | readSlot r =>
    simp only [RingQueue.consume, hk]
    exact h.readSlot hk
  | storeRead r out =>
    simp only [RingQueue.consume, hk]
    exact h.storeRead hk

theorem consume {P : Nat → Prop} (h : Inv q s) (hq : q.Lawful P) (hP : P s.accepted.length) :
    Inv q (consume q s) :=
  h.consume_of (h.empty_iff hq hP).mpr

end Inv

/-! ## What the steps of a push leave alone -/

section
variable [DecidableEq ι]

theorem tryPush_eq_some {i : ι} {item : α} (h : tryPush s i item = some t) :
    s.producers i = .idle ∧ t = s.setProducer i (.loadRead item s.writePos) := by
  unfold tryPush at h
  split at h
  next hi =>
    cases h
    exact ⟨hi, rfl⟩
  next => cases h

/-- What an operation of a push does to the history and to the thread: the push returns true with
its item accepted, returns false, or goes on with the same item. -/
theorem produce_cases {i : ι} (h : produce q s i = some t) :
    ∃ item p, (s.producers i).item = some item ∧ t.producers = Function.update s.producers i p ∧
      (pushResult q s i = some true ∧ p = .idle ∧ t.accepted = s.accepted ++ [item] ∨
        pushResult q s i = some false ∧ p = .idle ∧ t.accepted = s.accepted ∨
        pushResult q s i = none ∧ p.item = some item ∧ t.accepted = s.accepted) := by
  unfold produce at h
  unfold pushResult
  cases hi : s.producers i with
  | idle =>
    rw [hi] at h
    cases h
  | loadRead item w =>
    simp only [hi] at h ⊢
    split at h
    next hfull =>
      cases h
      exact ⟨item, .idle, rfl, rfl, .inr (.inl ⟨if_pos hfull, rfl, rfl⟩)⟩
    next hfull =>
      cases h
      exact ⟨item, .writeSlot item w, rfl, rfl, .inr (.inr ⟨if_neg hfull, rfl, rfl⟩)⟩
  | writeSlot item w =>
    rw [hi] at h
    cases h
    exact ⟨item, .storeWrite item w, rfl, rfl, .inr (.inr ⟨rfl, rfl, rfl⟩)⟩
  | storeWrite item w =>
    rw [hi] at h
    cases h
    exact ⟨item, .idle, rfl, rfl, .inl ⟨rfl, rfl, rfl⟩⟩

theorem produce_consumer {i : ι} (h : produce q s i = some t) :
    t.consumer = s.consumer ∧ t.popped = s.popped := by
  unfold produce at h
  split at h
  · cases h
  · split at h <;> cases h <;> exact ⟨rfl, rfl⟩
  · cases h
    exact ⟨rfl, rfl⟩
  · cases h
    exact ⟨rfl, rfl⟩

end

theorem consume_accepted (s : State ι α) :
    (consume q s).accepted = s.accepted ∧ (consume q s).producers = s.producers := by
  unfold consume
  split
  · exact ⟨rfl, rfl⟩
  · split <;> exact ⟨rfl, rfl⟩
  · exact ⟨rfl, rfl⟩
  · exact ⟨rfl, rfl⟩

theorem consume_popped (s : State ι α) :
    (consume q s).popped = s.popped ++ (popResult s).toList := by
  cases hk : s.consumer with
  | loadWrite r =>
    simp only [consume, popResult, hk]
    split <;> exact (List.append_nil _).symm
  | idle | readSlot r =>
    simp only [consume, popResult, hk]
    exact (List.append_nil _).symm
  | storeRead r out => simp only [consume, popResult, hk, Option.toList_some]

theorem consumer_of_popResult {x : α} (h : popResult s = some x) :
    ∃ r, s.consumer = .storeRead r x := by
  unfold popResult at h
  split at h
  next hk =>
    cases h
    exact ⟨_, hk⟩
  next => cases h

theorem consume_idle_of_popResult {x : α} (h : popResult s = some x) :
    (consume q s).consumer = .idle := by
  obtain ⟨r, hk⟩ := consumer_of_popResult h
  simp only [consume, hk]

/-! ## The consumer alone -/

/-- How far a pop has got. -/
def Consumer.stage : Consumer α → Nat
  | .idle => 0
  | .loadWrite _ => 1
  | .readSlot _ => 2
  | .storeRead .. => 3

/-- The number of operations after which the consumer, left alone, has popped everything. -/
def State.todo (s : State ι α) : Nat :=
  4 * (s.accepted.length - s.popped.length) - s.consumer.stage

/-- The state after a pop that no other thread interrupts. -/
def afterPop (q : RingQueue α) (s : State ι α) : State ι α :=
  { s with
    readPos := s.readPos + 1
    slots := Function.update s.slots (q.index s.readPos)
      (q.residue (s.slots (q.index s.readPos)))
    consumer := .idle
    popped := s.popped ++ [s.slots (q.index s.readPos)] }

theorem consume_four (hk : s.consumer = .idle) (hne : q.empty s.readPos s.writePos = false) :
    (consume q)^[4] s = q.afterPop s := by
  obtain ⟨w, r, slots, ps, k, acc, pop⟩ := s
  cases hk
  -- the second operation is the only one that branches
  have h : consume q (consume q (⟨w, r, slots, ps, .idle, acc, pop⟩ : State ι α)) =
      ⟨w, r, slots, ps, .readSlot r, acc, pop⟩ := if_neg (Bool.eq_false_iff.mp hne)
  rw [show 4 = 2 + 2 from rfl, Function.iterate_add_apply]
  exact congrArg (consume q)^[2] h

theorem consume_two (hk : s.consumer = .idle) (he : q.empty s.readPos s.writePos = true) :
    (consume q)^[2] s = s := by
  obtain ⟨w, r, slots, ps, k, acc, pop⟩ := s
  cases hk
  simp only [Function.iterate_succ, Function.iterate_zero, Function.comp_apply, id, consume]
  exact if_pos he

namespace Inv

variable {P : Nat → Prop}

theorem consume_iterate (h : Inv q s) (hq : q.Lawful P) (hP : P s.accepted.length) (n : Nat) :
    Inv q ((RingQueue.consume q)^[n] s) ∧
      ((RingQueue.consume q)^[n] s).accepted = s.accepted := by
  induction n with
  | zero => exact ⟨h, rfl⟩
  | succ n ih =>
    rw [Function.iterate_succ_apply']
    obtain ⟨hn, hacc⟩ := ih
    refine ⟨hn.consume hq (by rw [hacc]; exact hP), ?_⟩
    exact (consume_accepted _).1.trans hacc

/-- A pop that is not interrupted returns the next accepted item. -/
theorem pop (h : Inv q s) (hq : q.Lawful P) (hP : P s.accepted.length) (hk : s.consumer = .idle)
    (hlt : s.popped.length < s.accepted.length) :
    (RingQueue.consume q)^[4] s = q.afterPop s ∧
      (q.afterPop s).popped = s.popped ++ [s.accepted[s.popped.length]] := by
  have hne : q.empty s.readPos s.writePos = false := by
    rw [← Bool.not_eq_true, h.empty_iff hq hP]
    omega
  have hhead : s.head = s.popped.length := by simp only [State.head, hk]
  refine ⟨consume_four hk hne, ?_⟩
  show s.popped ++ [s.slots (q.index s.readPos)] = _
  rw [h.readPos_eq, q.index_ofNat,
    h.slot_eq (Nat.le_of_eq hhead) (List.getElem?_eq_getElem hlt)]

/-- While an item is unread every operation of the consumer brings its end nearer. -/
theorem consume_todo (h : Inv q s) (hq : q.Lawful P) (hP : P s.accepted.length)
    (hlt : s.popped.length < s.accepted.length) :
    (RingQueue.consume q s).todo + 1 = s.todo := by
  have hcons := h.consumer
  cases hk : s.consumer with
  | idle =>
    simp only [RingQueue.consume, State.todo, hk, Consumer.stage]
    omega
  | loadWrite r =>
    rw [hk] at hcons
    obtain rfl : r = s.readPos := hcons
    have hne : ¬ q.empty s.readPos s.writePos = true := by
      rw [h.empty_iff hq hP]
      omega
    simp only [RingQueue.consume, State.todo, hk, Consumer.stage, if_neg hne]
    omega
  | readSlot r =>
    simp only [RingQueue.consume, State.todo, hk, Consumer.stage]
    omega
  | storeRead r out =>
    simp only [RingQueue.consume, State.todo, hk, Consumer.stage, List.length_append,
      List.length_singleton]
    omega

/-- Popping alone, the consumer gets every accepted item. -/
theorem drain (h : Inv q s) (hq : q.Lawful P) (hP : P s.accepted.length)
    (hk : s.consumer = .idle) :
    ∃ n t, (RingQueue.consume q)^[4 * n] s = t ∧ t.consumer = .idle ∧ t.popped = s.accepted ∧
      (RingQueue.consume q)^[2] t = t := by
  generalize hd : s.accepted.length - s.popped.length = d
  induction d generalizing s with
  | zero =>
    have heq : s.popped.length = s.accepted.length := Nat.le_antisymm h.length_le (by omega)
    exact ⟨0, s, rfl, hk, h.fifo.eq_of_length heq,
      consume_two hk ((h.empty_iff hq hP).mpr heq)⟩
  | succ d ih =>
    obtain ⟨hrun, hpop⟩ := h.pop hq hP hk (by omega)
    have hafter : Inv q (q.afterPop s) := hrun ▸ (h.consume_iterate hq hP 4).1
    obtain ⟨n, t, hn, ht⟩ := ih hafter hP rfl (by
      show s.accepted.length - (q.afterPop s).popped.length = d
      rw [hpop, List.length_append, List.length_singleton]
      omega)
    refine ⟨n + 1, t, ?_, ht⟩
    rw [Nat.mul_succ, Function.iterate_add_apply, hrun]
    exact hn

end Inv

end RingQueue

end Concurrency
