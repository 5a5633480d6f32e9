import SmartQuantCollector.Exchange.Rithmic.RithmicQueueInvariant

/-! # `MpscRithmicQueue` as a FIFO

Without drops the queue delivers in the order of the reservations: the `p`-th `fetch_add` on
`write_pos_` belongs to the `p`-th call of `Push` or `TryPush` of the schedule (`reservations`), and
the successful `TryPop`s return the events of these calls one after the other. `Reserved` carries
the schedule through the steps, the invariant of the queue does the rest.

The header asks for a power of two, which admits the capacity one. There the sequence `p + 1` says
"published at `p`" to the consumer and "free for `p + 1`" to a producer, and both access the slot
(`fifo_iff_two_le`). -/

namespace Sqc
open Concurrency

namespace MpscRithmicQueue

variable {ι T : Type*} {c : Capacity} {s t : State ι T} {as : List (Action ι T)}

/-! ## Reservations, owners and order -/

/-- The call that an action begins. -/
def Action.reservation : Action ι T → Option (ι × T)
  | .tryPush i event | .push i event => some (i, event)
  | .produce _ | .consume => none

/-- The calls of `Push` and `TryPush` in the order of their reservations. -/
def reservations (as : List (Action ι T)) : List (ι × T) := as.filterMap Action.reservation

/-- The position of a `TryPush` before the last load that its spin budget allows. -/
def Producer.lastLoad : Producer T → Option Nat
  | .spinLoad _ pos spin => if spin + 1 > kMaxSpin then some pos else none
  | _ => none

/-- `TryPush` finds its slot free within the spin budget. -/
def WithinBudget (c : Capacity) (s : State ι T) : Action ι T → Prop
  | .produce i => ∀ pos ∈ (s.producers i).lastLoad, s.free c pos = true
  | _ => True

instance : ∀ a, Decidable (WithinBudget c s a)
  | .produce i => Option.decidableForallMem (s.producers i).lastLoad
  | .tryPush .. | .push .. | .consume => isTrue trivial

/-- The threads that touch the data of slots. -/
inductive Thread (ι : Type*) where
  | producer (i : ι)
  | consumer

/-- The position of the slot whose data the push has the right to write: from the load that ends its
wait to the store that publishes the slot. -/
def Producer.owned : Producer T → Option Nat
  | .write _ pos | .publish _ pos | .dropWrite pos | .dropPublish pos => some pos
  | _ => none

/-- The position of the slot whose data the pop has the right to read: from the load that finds the
slot published to the store that hands it back. -/
def Consumer.owned : Consumer T → Option Nat
  | .readData pos | .storeReadPos pos _ | .storeSequence pos _ => some pos
  | _ => none

def State.owned (s : State ι T) : Thread ι → Option Nat
  | .producer i => (s.producers i).owned
  | .consumer => s.consumer.owned

/-- The data of slot `k` is in the hands of thread `x`. -/
def Owns (c : Capacity) (s : State ι T) (k : Nat) (x : Thread ι) : Prop :=
  ∃ pos ∈ s.owned x, pos &&& (c.val - 1) = k

/-- A first-in first-out queue, in a state that the schedule `as` has led to. -/
structure Fifo [DecidableEq ι] (c : Capacity) (as : List (Action ι T)) (s : State ι T) : Prop where
  /-- The popped events are those of the first reservations, in order, each once and unaltered. -/
  popped : s.popped <+: (reservations as).map Prod.snd
  /-- The popped events of one producer, as the reservations name it, are those of its first calls,
  in the order in which it made them. -/
  ownOrder : ∀ i, (((reservations as).map Prod.fst).zip s.popped).filter (·.1 = i) <+:
    (reservations as).filter (·.1 = i)
  exclusive : ∀ {k x y}, Owns c s k x → Owns c s k y → x = y

/-! ## The schedule and the state -/

/-- The event and the position of the push in progress. -/
def Producer.call : Producer T → Option (T × Nat)
  | .fastLoad event pos | .spinLoad event pos _ | .pushLoad event pos | .write event pos
  | .publish event pos => some (event, pos)
  | .idle | .dropWrite _ | .dropPublish _ | .dropCount => none

/-- The push has given its event up. -/
def Producer.dropping : Producer T → Bool
  | .dropWrite _ | .dropPublish _ | .dropCount => true
  | _ => false

structure Reserved (as : List (Action ι T)) (s : State ι T) : Prop where
  writePos : s.writePos = (reservations as).length
  call : ∀ {i event pos}, (s.producers i).call = some (event, pos) →
    (reservations as)[pos]? = some (i, event)
  published : ∀ {p o}, s.outcomes p = some o →
    ∃ i event, o = .accepted event ∧ (reservations as)[p]? = some (i, event)
  kept : ∀ i, (s.producers i).dropping = false

theorem reservations_append (as bs : List (Action ι T)) :
    reservations (as ++ bs) = reservations as ++ reservations bs := List.filterMap_append

theorem reservations_append_get {as bs : List (Action ι T)} {p : Nat} {x : ι × T}
    (h : (reservations as)[p]? = some x) : (reservations (as ++ bs))[p]? = some x := by
  rw [reservations_append, List.getElem?_append_left (List.getElem?_eq_some_iff.mp h).1]
  exact h

section
variable [DecidableEq ι] [Inhabited T]

/-- What an operation of a push that does not drop does to the calls and the outcomes. -/
theorem produce_effect {i : ι} (hkept : (s.producers i).dropping = false)
    (hbudget : WithinBudget c s (.produce i)) (hs : produce c s i = some t) :
    t.writePos = s.writePos ∧ ∃ p, t.producers = Function.update s.producers i p ∧
      p.dropping = false ∧
      (p.call = (s.producers i).call ∧ t.outcomes = s.outcomes ∨
        p = .idle ∧ ∃ event pos, (s.producers i).call = some (event, pos) ∧
          t.outcomes = Function.update s.outcomes pos (some (.accepted event))) := by
  cases hi : s.producers i with
  | idle =>
    simp only [produce, hi] at hs
    cases hs
  | fastLoad event pos =>
    simp only [produce, hi] at hs
    split at hs
    · cases hs
      exact ⟨rfl, .write event pos, rfl, rfl, .inl ⟨rfl, rfl⟩⟩
    · cases hs
      exact ⟨rfl, .spinLoad event pos 0, rfl, rfl, .inl ⟨rfl, rfl⟩⟩
  | spinLoad event pos spin =>
    simp only [produce, hi] at hs
    split at hs
    · cases hs
      exact ⟨rfl, .write event pos, rfl, rfl, .inl ⟨rfl, rfl⟩⟩
    next hbusy =>
      have hspin : ¬ spin + 1 > kMaxSpin := fun hlast => hbusy (hbudget pos (by
        rw [hi]
        exact if_pos hlast))
      rw [if_neg hspin] at hs
      cases hs
      exact ⟨rfl, .spinLoad event pos (spin + 1), rfl, rfl, .inl ⟨rfl, rfl⟩⟩
  | pushLoad event pos =>
    simp only [produce, hi] at hs
    split at hs
    · cases hs
      exact ⟨rfl, .write event pos, rfl, rfl, .inl ⟨rfl, rfl⟩⟩
    · cases hs
      refine ⟨rfl, s.producers i, (Function.update_eq_self i _).symm, hkept, .inl ⟨?_, rfl⟩⟩
      rw [hi]
  | write event pos =>
    simp only [produce, hi] at hs
    cases hs
    exact ⟨rfl, .publish event pos, rfl, rfl, .inl ⟨rfl, rfl⟩⟩
  | publish event pos =>
    simp only [produce, hi] at hs
    cases hs
    exact ⟨rfl, .idle, rfl, rfl, .inr ⟨rfl, event, pos, rfl, rfl⟩⟩
  | dropWrite pos | dropPublish pos | dropCount =>
    rw [hi] at hkept
    cases hkept

omit [DecidableEq ι] [Inhabited T] in
theorem consume_effect (c : Capacity) (s : State ι T) :
    (consume c s).writePos = s.writePos ∧ (consume c s).producers = s.producers ∧
      (consume c s).outcomes = s.outcomes := by
  unfold consume
  split
  · exact ⟨rfl, rfl, rfl⟩
  · split <;> exact ⟨rfl, rfl, rfl⟩
  · exact ⟨rfl, rfl, rfl⟩
  · exact ⟨rfl, rfl, rfl⟩
  · exact ⟨rfl, rfl, rfl⟩

namespace Reserved

omit [DecidableEq ι] in
theorem init : Reserved [] (init : State ι T) where
  writePos := rfl
  call h := by cases h
  published h := by cases h
  kept _ := rfl

omit [Inhabited T] in
/-- The `fetch_add` of a new call. -/
theorem reserve (h : Reserved as s) {i : ι} {event : T} {a : Action ι T}
    (ha : a.reservation = some (i, event)) {p : Nat → Producer T}
    (hp : ∀ pos, (p pos).call = some (event, pos)) (hd : ∀ pos, (p pos).dropping = false) :
    Reserved (as ++ [a]) (s.reserve i p) := by
  have hnew : reservations (as ++ [a]) = reservations as ++ [(i, event)] := by
    rw [reservations_append]
    simp only [reservations, List.filterMap_cons, ha, List.filterMap_nil]
  refine ⟨?_, fun {j e pos} hj => ?_, fun {q o} ho => ?_, fun j => ?_⟩
  · rw [hnew, List.length_append, ← h.writePos]
    rfl
  · change (Function.update s.producers i (p s.writePos) j).call = some (e, pos) at hj
    rcases eq_or_ne j i with rfl | hji
    · rw [Function.update_self, hp] at hj
      cases hj
      rw [hnew, h.writePos, List.getElem?_concat_length]
    · rw [Function.update_of_ne hji] at hj
      exact reservations_append_get (h.call hj)
  · obtain ⟨j, e, hoe, hq⟩ := h.published ho
    exact ⟨j, e, hoe, reservations_append_get hq⟩
  · show (Function.update s.producers i (p s.writePos) j).dropping = false
    rcases eq_or_ne j i with rfl | hji
    · rw [Function.update_self]
      exact hd _
    · rw [Function.update_of_ne hji]
      exact h.kept j

theorem produce (h : Reserved as s) {i : ι} (hbudget : WithinBudget c s (.produce i))
    (hs : produce c s i = some t) : Reserved (as ++ [.produce i]) t := by
  obtain ⟨hw, p, hprod, hd, hcase⟩ := produce_effect (h.kept i) hbudget hs
  have hsame : reservations (as ++ [.produce i]) = reservations as := by
    rw [reservations_append]
    exact List.append_nil _
  refine ⟨?_, fun {j e pos} hj => ?_, fun {q o} ho => ?_, fun j => ?_⟩
  · rw [hw, hsame, h.writePos]
  · rw [hsame]
    rw [hprod] at hj
    rcases eq_or_ne j i with rfl | hji
    · rw [Function.update_self] at hj
      rcases hcase with ⟨hcall, -⟩ | ⟨rfl, -⟩
      · exact h.call (hcall ▸ hj)
      · cases hj
    · rw [Function.update_of_ne hji] at hj
      exact h.call hj
  · rw [hsame]
    rcases hcase with ⟨-, hout⟩ | ⟨-, e, pos, hcall, hout⟩
    · rw [hout] at ho
      exact h.published ho
    · rw [hout] at ho
      rcases eq_or_ne q pos with rfl | hq
      · rw [Function.update_self] at ho
        cases ho
        exact ⟨i, e, rfl, h.call hcall⟩
      · rw [Function.update_of_ne hq] at ho
        exact h.published ho
  · rw [hprod]
    rcases eq_or_ne j i with rfl | hji
    · rw [Function.update_self]
      exact hd
    · rw [Function.update_of_ne hji]
      exact h.kept j

omit [DecidableEq ι] [Inhabited T] in
theorem consume (h : Reserved as s) : Reserved (as ++ [.consume]) (consume c s) := by
  obtain ⟨hw, hp, ho⟩ := consume_effect c s
  have hsame : reservations (as ++ [.consume]) = reservations as := by
    rw [reservations_append]
    exact List.append_nil _
  refine ⟨?_, ?_, ?_, ?_⟩
  · rw [hw, hsame, h.writePos]
  · rw [hp, hsame]
    exact h.call
  · rw [ho, hsame]
    exact h.published
  · rw [hp]
    exact h.kept

theorem step (h : Reserved as s) {a : Action ι T} (hbudget : WithinBudget c s a)
    (hs : step c s a = some t) : Reserved (as ++ [a]) t := by
  cases a with
  | tryPush i e =>
    simp only [MpscRithmicQueue.step] at hs
    split at hs
    · cases hs
      exact h.reserve rfl (fun _ => rfl) fun _ => rfl
    · cases hs
  | push i e =>
    simp only [MpscRithmicQueue.step] at hs
    split at hs
    · cases hs
      exact h.reserve rfl (fun _ => rfl) fun _ => rfl
    · cases hs
  | produce i => exact h.produce hbudget hs
  | consume =>
    cases hs
    exact h.consume

omit [DecidableEq ι] [Inhabited T] in
/-- Nothing drops, so nothing drops into an occupied slot. -/
theorem dropsIntoFreedSlot (h : Reserved as s) (a : Action ι T) : DropsIntoFreedSlot c s a := by
  cases a with
  | produce i =>
    intro pos hpos
    have hkept := h.kept i
    cases hi : s.producers i with
    | dropWrite q =>
      rw [hi] at hkept
      cases hkept
    | _ =>
      rw [hi] at hpos
      cases hpos
  | _ => trivial

end Reserved

/-! ## The queue -/

omit [DecidableEq ι] [Inhabited T] in
theorem slot_and_mask {p q : Nat} (h : p &&& (c.val - 1) = q &&& (c.val - 1)) :
    s.slot c p = s.slot c q := by
  rw [State.slot, State.slot, h]

omit [DecidableEq ι] in
/-- A push that owns a slot has found it free. -/
theorem Inv.owned_free (h : Inv c s) {i : ι} {pos : Nat} (hkept : (s.producers i).dropping = false)
    (hi : (s.producers i).owned = some pos) :
    (s.slot c pos).sequence = pos ∧ (s.producers i).position = some pos := by
  have hok := h.producer i
  cases hp : s.producers i with
  | write e q =>
    rw [hp] at hi hok
    cases hi
    exact ⟨hok, rfl⟩
  | publish e q =>
    rw [hp] at hi hok
    cases hi
    exact ⟨hok.free (.inr (.inl ⟨e, rfl⟩)), rfl⟩
  | dropWrite q | dropPublish q =>
    rw [hp] at hkept
    cases hkept
  | _ =>
    rw [hp] at hi
    cases hi

omit [DecidableEq ι] in
/-- A pop that owns a slot has found it published. -/
theorem Inv.owned_published (h : Inv c s) {pos : Nat} (hk : s.consumer.owned = some pos) :
    (s.slot c pos).sequence = pos + 1 := by
  have hok := h.consumer
  have hval := c.val_pos
  have key : s.freed = pos → (∃ o, s.outcomes pos = some o) →
      (s.slot c pos).sequence = pos + 1 := by
    rintro hfreed ⟨o, ho⟩
    rw [h.sequence_eq (by omega) (by omega), ho]
    rfl
  cases hc : s.consumer with
  | readData q =>
    rw [hc] at hk hok
    cases hk
    exact key (by simp only [State.freed, hc, hok.1]) hok.2
  | storeReadPos q out =>
    rw [hc] at hk hok
    cases hk
    exact key (by simp only [State.freed, hc, hok.1]) (hok.2.imp fun _ => And.left)
  | storeSequence q out =>
    rw [hc] at hk hok
    cases hk
    exact key (by simp only [State.freed, hc]) (hok.2.imp fun _ => And.left)
  | _ =>
    rw [hc] at hk
    cases hk

omit [DecidableEq ι] in
/-- With two slots or more a slot is not free and published at once. -/
theorem Inv.not_both (h : Inv c s) (hc : 2 ≤ c.val) {i : ι} {p q : Nat}
    (hkept : (s.producers i).dropping = false) (hi : (s.producers i).owned = some p)
    (hk : s.consumer.owned = some q) : p &&& (c.val - 1) ≠ q &&& (c.val - 1) := by
  intro hslot
  have hfree := (h.owned_free hkept hi).1
  have hpub := h.owned_published hk
  rw [slot_and_mask hslot, hpub] at hfree
  rw [and_mask, and_mask, ← hfree] at hslot
  have hd : c.val ∣ q + 1 - q := (Nat.modEq_iff_dvd' (Nat.le_succ q)).mp hslot.symm
  rw [Nat.add_sub_cancel_left] at hd
  have := Nat.le_of_dvd Nat.one_pos hd
  omega

omit [DecidableEq ι] in
theorem Inv.exclusive (h : Inv c s) (hc : 2 ≤ c.val) (hkept : ∀ i, (s.producers i).dropping = false)
    {k : Nat} {x y : Thread ι} (hx : Owns c s k x) (hy : Owns c s k y) : x = y := by
  obtain ⟨p, hp, hpk⟩ := hx
  obtain ⟨q, hq, hqk⟩ := hy
  have hslot := hpk.trans hqk.symm
  cases x with
  | consumer =>
    cases y with
    | consumer => rfl
    | producer j => exact absurd hslot.symm (h.not_both hc (hkept j) hq hp)
  | producer i =>
    cases y with
    | consumer => exact absurd hslot (h.not_both hc (hkept i) hp hq)
    | producer j =>
      obtain ⟨hfi, hpi⟩ := h.owned_free (hkept i) hp
      obtain ⟨hfj, hpj⟩ := h.owned_free (hkept j) hq
      -- both positions are the sequence of one slot
      have hpq : p = q := by
        rw [slot_and_mask hslot, hfj] at hfi
        exact hfi.symm
      rw [h.held_inj hpi (hpq ▸ hpj)]

omit [DecidableEq ι] in
theorem Inv.popped_isPrefix (h : Inv c s) (hr : Reserved as s) :
    s.popped <+: (reservations as).map Prod.snd := by
  rw [List.prefix_iff_getElem?]
  intro p hp
  obtain ⟨o, ho, hv⟩ := h.popped_value (List.getElem?_eq_getElem hp)
  obtain ⟨i, e, rfl, hres⟩ := hr.published ho
  rw [List.getElem?_map, hres, hv]
  rfl

omit [DecidableEq ι] [Inhabited T] in
/-- The popped events with the producers of the reservations are the first reservations. -/
theorem zip_popped_isPrefix {rs : List (ι × T)} {popped : List T} (h : popped <+: rs.map Prod.snd) :
    (rs.map Prod.fst).zip popped <+: rs := by
  induction rs generalizing popped with
  | nil => exact List.prefix_rfl
  | cons r rs ih =>
    cases popped with
    | nil => exact List.nil_prefix
    | cons x popped =>
      obtain ⟨rfl, htail⟩ := List.cons_prefix_cons.mp h
      exact List.cons_prefix_cons.mpr ⟨rfl, ih htail⟩

/-- The invariant of the queue and the reservations make it a FIFO. -/
theorem Inv.fifo (h : Inv c s) (hr : Reserved as s) (hc : 2 ≤ c.val) : Fifo c as s where
  popped := h.popped_isPrefix hr
  ownOrder _ := (zip_popped_isPrefix (h.popped_isPrefix hr)).filter _
  exclusive := h.exclusive hc hr.kept

theorem exec_inv_reserved (hc : 2 ≤ c.val) (hs : (machine ι T c).exec init as = some s)
    (hbudget : (machine ι T c).Along (WithinBudget c) init as) : Inv c s ∧ Reserved as s := by
  have hexp : 0 < c.exp := by
    by_contra hzero
    have : c.val = 1 := by rw [Capacity.val, Nat.eq_zero_of_not_pos hzero, Nat.pow_zero]
    omega
  refine (machine ι T c).exec_history (R := fun as s => Inv c s ∧ Reserved as s) ?_
    ⟨Inv.init, Reserved.init⟩ hbudget hs
  intro as s a t h ha hstep
  exact ⟨h.1.step hexp (h.2.dropsIntoFreedSlot a) hstep, h.2.step ha hstep⟩

/-! ## One slot -/

/-- A push into a free slot, up to its write. -/
theorem exec_pushToWrite {i : ι} (event : T) (hi : s.producers i = .idle)
    (hfree : s.free c s.writePos = true) :
    (machine ι T c).Along (WithinBudget c) s [.push i event, .produce i] ∧
      (machine ι T c).exec s [.push i event, .produce i] = some (s.reserve i (.write event)) := by
  have hpush : step c s (.push i event) = some (s.reserve i (.pushLoad event)) := by
    simp only [step, hi]
  have hload : (s.reserve i (.pushLoad event)).producers i = .pushLoad event s.writePos :=
    Function.update_self ..
  have hwrite : step c (s.reserve i (.pushLoad event)) (.produce i) =
      some (s.reserve i (.write event)) := by
    have hfree' : (s.reserve i (.pushLoad event)).free c s.writePos = true := hfree
    simp only [step, produce, hload, hfree', if_true]
    simp only [State.setProducer, State.reserve, Function.update_idem]
  refine ⟨⟨trivial, fun t ht => ⟨?_, fun _ _ => trivial⟩⟩,
    (Machine.exec_cons_iff _).mpr ⟨_, hpush, (Machine.exec_singleton ..).trans hwrite⟩⟩
  cases hpush.symm.trans ht
  simp [WithinBudget, hload, Producer.lastLoad]

/-- The rest of the push, and the two operations of a pop that find its event. -/
theorem exec_writeToRead {i : ι} {event : T} (hi : s.producers i = .write event s.readPos)
    (hk : s.consumer = .idle) :
    (machine ι T c).Along (WithinBudget c) s [.produce i, .produce i, .consume, .consume] ∧
      ∃ t, (machine ι T c).exec s [.produce i, .produce i, .consume, .consume] = some t ∧
        t.producers i = .idle ∧ t.consumer = .readData s.readPos ∧ t.writePos = s.writePos ∧
        (t.slot c s.readPos).sequence = s.readPos + 1 := by
  simp [Machine.Along, Machine.exec_cons, machine, step, hi, hk, produce, consume, State.slot,
    State.setProducer, State.writeData, State.setSlot, State.storeSeq, State.record, WithinBudget,
    Producer.lastLoad]

/-- A push, two operations of a pop that finds it, and the next push up to its write. -/
def overtakingPush (i : ι) (event : T) : List (Action ι T) :=
  [.push i event, .produce i, .produce i, .produce i, .consume, .consume, .push i event, .produce i]

/-- With one slot the second push finds the slot free that the pop is about to read. -/
theorem exec_overtakingPush (hc : c.val = 1) (i : ι) (event : T) :
    (machine ι T c).Along (WithinBudget c) init (overtakingPush i event) ∧
      ∃ s, (machine ι T c).exec init (overtakingPush i event) = some s ∧
        s.producers i = .write event 1 ∧ s.consumer = .readData 0 := by
  have hfree₀ : (init : State ι T).free c 0 = true := by
    rw [State.free_iff, State.slot, Nat.zero_and]
    rfl
  obtain ⟨hbudget₁, hrun₁⟩ := exec_pushToWrite event (s := init) (i := i) rfl hfree₀
  obtain ⟨hbudget₂, t, hrun₂, hi, hk, hw, hseq⟩ :=
    exec_writeToRead (c := c) (s := init.reserve i (.write event)) (Function.update_self ..) rfl
  -- the sequence `1` of the only slot says "published" to the pop and "free" to the push
  have hfree : t.free c t.writePos = true := by
    have hslot : t.slot c t.writePos = t.slot c 0 :=
      State.slot_congr (by rw [hc, Nat.mod_one, Nat.mod_one])
    rw [State.free_iff, hslot, hw]
    exact hseq
  obtain ⟨hbudget₃, hrun₃⟩ := exec_pushToWrite event hi hfree
  refine ⟨?_, t.reserve i (.write event), ?_, ?_, hk⟩
  · refine (Machine.along_append _).mpr ⟨hbudget₁, fun u hu => ?_⟩
    cases hrun₁.symm.trans hu
    refine (Machine.along_append _).mpr ⟨hbudget₂, fun u hu => ?_⟩
    cases hrun₂.symm.trans hu
    exact hbudget₃
  · exact Machine.exec_trans _ hrun₁ (Machine.exec_trans _ hrun₂ hrun₃)
  · have hi' : (t.reserve i (.write event)).producers i = .write event t.writePos :=
      Function.update_self ..
    rw [hi', hw]
    rfl

/-- In all runs in which no `TryPush` exhausts its budget the queue is a FIFO and its slots are
exclusive, exactly when it has more than one slot. -/
theorem fifo_iff_two_le (ι T : Type*) [DecidableEq ι] [Nonempty ι] [Inhabited T] (c : Capacity) :
    (∀ (as : List (Action ι T)) (s : State ι T), (machine ι T c).exec init as = some s →
      (machine ι T c).Along (WithinBudget c) init as → Fifo c as s) ↔ 2 ≤ c.val := by
  constructor
  · intro h
    by_contra hlt
    have hc : c.val = 1 := by
      have := c.val_pos
      omega
    obtain ⟨i⟩ := ‹Nonempty ι›
    obtain ⟨hbudget, s, hs, hi, hk⟩ := exec_overtakingPush hc i (default : T)
    -- positions 0 and 1 share the only slot
    have hprod : Owns c s 0 (.producer i) := by
      refine ⟨1, congrArg Producer.owned hi, ?_⟩
      rw [hc]
      rfl
    have hcons : Owns c s 0 (.consumer : Thread ι) := by
      refine ⟨0, congrArg Consumer.owned hk, ?_⟩
      rw [hc]
      rfl
    cases (h _ s hs hbudget).exclusive hprod hcons
  · intro hc as s hs hbudget
    obtain ⟨hinv, hres⟩ := exec_inv_reserved hc hs hbudget
    exact hinv.fifo hres hc

end

/-- Two slots, two producers whose publications are in the other order than their reservations. -/
def crossingPushes : List (Action Bool Nat) :=
  [.push false 1, .tryPush true 2, .produce true, .produce true, .produce true, .consume, .consume,
    .produce false, .produce false, .produce false, .consume, .consume, .consume, .consume,
    .consume]

theorem crossingPushes_fifo :
    2 ≤ (⟨1, by decide⟩ : Capacity).val ∧
    ((machine Bool Nat ⟨1, by decide⟩).exec init crossingPushes).map (·.popped) = some [1] ∧
    ∀ s, (machine Bool Nat ⟨1, by decide⟩).exec init crossingPushes = some s →
      Fifo ⟨1, by decide⟩ crossingPushes s :=
  ⟨by decide, rfl, fun s hs => (fifo_iff_two_le Bool Nat ⟨1, by decide⟩).mpr (by decide)
    crossingPushes s hs (by decide)⟩

/-- The second push writes between the load and the read of the first pop. -/
def pushInsidePop : List (Action Unit Nat) :=
  ([.push () 1, .produce (), .produce (), .produce (), .consume, .consume,
    .push () 2, .produce (), .produce (), .consume, .consume, .consume, .produce ()] :
      List (Action Unit Nat)) ++ consumerRun 5

/-- One slot, one producer: the event at position 0 is lost and the one at position 1 comes out
twice. -/
theorem single_slot_delivers_twice :
    (machine Unit Nat ⟨0, by decide⟩).Along (WithinBudget ⟨0, by decide⟩) init pushInsidePop ∧
    ∃ s, (machine Unit Nat ⟨0, by decide⟩).exec init pushInsidePop = some s ∧
      (reservations pushInsidePop).map Prod.snd = [1, 2] ∧ s.popped = [2, 2] ∧
      ¬ Fifo ⟨0, by decide⟩ pushInsidePop s := by
  refine ⟨by decide, _, rfl, rfl, rfl, fun h => ?_⟩
  have hpopped : [2, 2] <+: [1, 2] := h.popped
  exact absurd hpopped (by decide)

end MpscRithmicQueue

end Sqc
