import SmartQuantCollector.Storage.Backend.DolphinDBLedger

/-! # Every event is stored

`DestroyWriters` destroys the writers, in a reconnect or at the end, without fetching the rows they
still have. As long as it finds none, every event with a valid timestamp has been sent or is in the
fallback when `FlushAndClose` has returned (`allStored_of_destroysEmpty`). The writers of the
library wait for their rows to be sent before they are destroyed, unless a send has failed
(`NoneFailed.destroysEmpty`).

The invariant has three parts beside the ledger: an accepted row is sent or still with its writer
(`Rows`), writers are only replaced by the thread that holds the exclusive lock, and after they are
gone (`Locks`), and what `FlushAndClose` leaves behind it (`CloseOk`). -/

namespace Sqc.DolphinDBBackend

open Concurrency

variable {ι : Type} {cfg : Config} {s t : State ι} {connected : Bool}

/-- What `getUnwrittenData` would fetch. -/
def TableWriter.unwritten (w : TableWriter) : List Item := w.failed ++ w.queue

/-- The writer that the step destroys. -/
def destroys (s : State ι) : Action ι → Option EventKind
  | .run i _ =>
    match s.threads i with
    | .destroying _ (kind :: _) => some kind
    | _ => none
  | .close _ =>
    match s.closing with
    | .disconnecting (kind :: _) => some kind
    | _ => none
  | _ => none

/-- A writer that is destroyed has no rows left. -/
def DestroysEmpty (s : State ι) (a : Action ι) : Prop :=
  ∀ kind ∈ destroys s a, ∀ w ∈ s.writers kind, w.unwritten.isEmpty = true

instance (s : State ι) (a : Action ι) : Decidable (DestroysEmpty s a) :=
  inferInstanceAs (Decidable (∀ kind ∈ destroys s a, ∀ w ∈ s.writers kind, _ = true))

/-- `FlushAndClose` has destroyed this writer. -/
def Closing.destroyed : Closing → EventKind → Bool
  | .disconnecting left, kind => kind ∉ left
  | .closed, _ => true
  | _, _ => false

/-- `FlushAndClose` has flushed everything. -/
def Closing.flushed : Closing → Bool
  | .disconnecting _ | .closed => true
  | _ => false

/-! ## The rows of the writers -/

/-- Every accepted row is sent or with its writer. -/
def Rows (s : State ι) : Prop :=
  ∀ x ∈ s.accepted, x ∈ s.sent ∨ ∃ kind w, s.writers kind = some w ∧ x ∈ w.unwritten

/-- One writer changes, and keeps its rows or has sent them. -/
theorem Rows.update {kind : EventKind} {w : Option TableWriter} {acc : List Item} (h : Rows s)
    (hw : t.writers = Function.update s.writers kind w) (hacc : t.accepted = s.accepted ++ acc)
    (hsent : s.sent ⊆ t.sent)
    (hrows : ∀ v ∈ s.writers kind, ∀ x ∈ v.unwritten, x ∈ t.sent ∨ ∃ u ∈ w, x ∈ u.unwritten)
    (hnew : ∀ x ∈ acc, ∃ u ∈ w, x ∈ u.unwritten) : Rows t := by
  have hkind : ∀ {x}, (∃ u ∈ w, x ∈ u.unwritten) →
      ∃ k u, t.writers k = some u ∧ x ∈ u.unwritten := by
    rintro x ⟨u, hu, hx⟩
    exact ⟨kind, u, by rw [hw, Function.update_self]; exact hu, hx⟩
  intro x hx
  rw [hacc, List.mem_append] at hx
  rcases hx with hx | hx
  · rcases h x hx with hx | ⟨k, v, hv, hmem⟩
    · exact .inl (hsent hx)
    · by_cases hk : k = kind
      · subst hk
        exact (hrows v hv x hmem).imp_right hkind
      · exact .inr ⟨k, v, by rw [hw, Function.update_of_ne hk]; exact hv, hmem⟩
  · exact .inr (hkind (hnew x hx))

theorem Rows.congr (h : Rows s) (hw : t.writers = s.writers) (hacc : t.accepted = s.accepted)
    (hsent : t.sent = s.sent) : Rows t := by
  unfold Rows
  rw [hw, hacc, hsent]
  exact h

theorem Rows.destroyWriter {kind : EventKind} (h : Rows s)
    (hempty : ∀ w ∈ s.writers kind, w.unwritten.isEmpty = true) :
    Rows (destroyWriter s kind) := by
  refine h.update rfl (List.append_nil _).symm (List.Subset.refl _) ?_ nofun
  intro v hv x hx
  rw [List.isEmpty_iff.mp (hempty v hv)] at hx
  cases hx

theorem Rows.connect (h : Rows s) (hnone : ∀ kind, s.writers kind = none)
    (outcome : ReconnectOutcome) : Rows (connect s outcome) := by
  cases outcome with
  | recovered =>
    intro x hx
    rcases h x hx with hx | ⟨k, w, hw, -⟩
    · exact .inl hx
    · rw [hnone] at hw; cases hw
  | unreachable => exact h.congr rfl rfl rfl
  | notInitialized => exact h.congr rfl rfl rfl

/-- The row at `n` leaves the queue of its writer. -/
theorem mem_eraseIdx_of_mem {n : Nat} {x y : Item} {queue : List Item} (hn : queue[n]? = some x)
    (hy : y ∈ queue) : y = x ∨ y ∈ queue.eraseIdx n := by
  obtain ⟨hlt, rfl⟩ := List.getElem?_eq_some_iff.mp hn
  exact List.mem_cons.mp ((List.getElem_cons_eraseIdx_perm hlt).mem_iff.mpr hy)

/-- The library takes a row from a queue. -/
theorem setWriter_none {kind k : EventKind} {n : Nat} {w v : TableWriter} {x : Item}
    (h : takeQueued s kind n = some (w, x)) (hk : s.writers k = none) :
    (s.setWriter kind (some v)).writers k = none := by
  obtain ⟨u, hu, -, -⟩ := takeQueued_eq_some h
  have hne : k ≠ kind := by
    rintro rfl
    rw [hk] at hu; cases hu
  exact (Function.update_of_ne hne _ _).trans hk

theorem Rows.send {kind : EventKind} {n : Nat} {w : TableWriter} {x : Item} (h : Rows s)
    (ht : takeQueued s kind n = some (w, x)) :
    Rows { s.setWriter kind (some w) with sent := s.sent ++ [x] } := by
  obtain ⟨v, hv, hn, rfl⟩ := takeQueued_eq_some ht
  refine h.update rfl (List.append_nil _).symm (List.subset_append_left _ _) ?_ nofun
  intro v' hv' y hy
  cases hv.symm.trans hv'
  rcases List.mem_append.mp hy with hy | hy
  · exact .inr ⟨_, rfl, List.mem_append_left _ hy⟩
  · rcases mem_eraseIdx_of_mem hn hy with rfl | hy
    · exact .inl (List.mem_append_right _ (List.mem_singleton.mpr rfl))
    · exact .inr ⟨_, rfl, List.mem_append_right _ hy⟩

theorem Rows.failSend {kind : EventKind} {n : Nat} {w : TableWriter} {x : Item} (h : Rows s)
    (ht : takeQueued s kind n = some (w, x)) :
    Rows (s.setWriter kind (some { w with failed := w.failed ++ [x] })) := by
  obtain ⟨v, hv, hn, rfl⟩ := takeQueued_eq_some ht
  refine h.update rfl (List.append_nil _).symm (List.Subset.refl _) ?_ nofun
  intro v' hv' y hy
  cases hv.symm.trans hv'
  refine .inr ⟨_, rfl, ?_⟩
  rcases List.mem_append.mp hy with hy | hy
  · exact List.mem_append_left _ (List.mem_append_left _ hy)
  · rcases mem_eraseIdx_of_mem hn hy with rfl | hy
    · exact List.mem_append_left _ (List.mem_append_right _ (List.mem_singleton.mpr rfl))
    · exact List.mem_append_right _ hy

/-! ## The locks -/

/-- One thread reconnects at a time, and there are no writers behind its back. -/
structure Locks (s : State ι) : Prop where
  exclusive : (s.threads i).holdsExclusive = true → (s.threads j).holdsExclusive = true → i = j
  destroyed : (s.threads i).destroyed kind = true → s.writers kind = none

section Locks

variable [DecidableEq ι]

/-- What the step of a thread does to the exclusive lock and to the writers it has destroyed. -/
theorem RunStep.locks {i : ι} {answer : Answer} (h : RunStep cfg s i answer t)
    (hgone : ∀ kind, (s.threads i).destroyed kind = true → s.writers kind = none) :
    ∃ p, t.threads = Function.update s.threads i p ∧
      (p.holdsExclusive = true →
        (s.threads i).holdsExclusive = true ∨ ∀ j, (s.threads j).holdsExclusive = false) ∧
      ∀ kind, p.destroyed kind = true → t.writers kind = none := by
  cases h with
  | move p _ _ _ _ hlock =>
    refine ⟨p, rfl, fun hp => (hlock hp).imp And.left And.left, fun kind hd => ?_⟩
    rcases hlock (holdsExclusive_of_destroyed hd) with ⟨-, hk⟩ | ⟨-, hk⟩
    · exact hgone kind (hk kind hd)
    · rw [hk kind] at hd; cases hd
  | queued => exact ⟨_, rfl, nofun, nofun⟩
  | failed p _ _ _ hlock =>
    refine ⟨p, rfl, fun hp => ?_, fun kind hd => ?_⟩
    · rw [hlock] at hp; cases hp
    · have := holdsExclusive_of_destroyed hd
      rw [hlock] at this; cases this
  | @destroyed job kind left hth =>
    refine ⟨.destroying job left, rfl, fun _ => .inl (by rw [hth]; rfl), fun k hd => ?_⟩
    by_cases hk : k = kind
    · rw [hk]; exact Function.update_self ..
    · have hs : s.writers k = none := hgone k (by
        rw [hth]
        simpa [Thread.destroyed, hk] using hd)
      exact (Function.update_of_ne hk _ _).trans hs
  | @connected job hth =>
    refine ⟨.leaving job answer.reconnect.ok, ?_, fun _ => .inl (by rw [hth]; rfl), nofun⟩
    cases answer.reconnect <;> rfl
  | appended => exact ⟨_, rfl, nofun, nofun⟩

/-- Only a reconnect makes writers. -/
theorem RunStep.writers_none {i : ι} {answer : Answer} (h : RunStep cfg s i answer t)
    {kind : EventKind} (hk : s.writers kind = none) :
    t.writers kind = none ∨ (s.threads i).holdsExclusive = true := by
  cases h with
  | move => exact .inl hk
  | @queued k _ _ _ _ w _ _ hw =>
    refine .inl ?_
    have hne : kind ≠ k := by
      rintro rfl
      rw [hk] at hw; cases hw
    exact (Function.update_of_ne hne _ _).trans hk
  | failed => exact .inl hk
  | @destroyed _ k =>
    refine .inl ?_
    by_cases hne : kind = k
    · rw [hne]; exact Function.update_self ..
    · exact (Function.update_of_ne hne _ _).trans hk
  | connected hth => exact .inr (by rw [hth]; rfl)
  | appended => exact .inl hk

theorem Locks.run {i : ι} {answer : Answer} (h : Locks s) (ht : RunStep cfg s i answer t) :
    Locks t := by
  obtain ⟨p, hth, hlock, hgone⟩ := ht.locks fun kind => h.destroyed
  -- Nobody else holds the lock when the thread has it after the step.
  have hother : p.holdsExclusive = true → ∀ j, j ≠ i → (s.threads j).holdsExclusive = false := by
    intro hp j hj
    rcases hlock hp with hi | hnone
    · exact Bool.eq_false_iff.mpr fun hj' => hj (h.exclusive hj' hi)
    · exact hnone j
  constructor
  · intro j k hj hk
    rw [hth, Function.update_apply] at hj hk
    split at hj <;> split at hk
    · next hji hki => exact hji.trans hki.symm
    · next hki => rw [hother hj k hki] at hk; cases hk
    · next hji _ => rw [hother hk j hji] at hj; cases hj
    · exact h.exclusive hj hk
  · intro j kind hd
    rw [hth, Function.update_apply] at hd
    split at hd
    · exact hgone kind hd
    · next hji =>
      rcases ht.writers_none (h.destroyed hd) with hw | hi
      · exact hw
      · exact absurd (h.exclusive (holdsExclusive_of_destroyed hd) hi) hji

theorem Rows.run {i : ι} {answer : Answer} (h : Rows s) (hlocks : Locks s)
    (hC : DestroysEmpty s (.run i answer)) (ht : RunStep cfg s i answer t) : Rows t := by
  cases ht with
  | move => exact h.congr rfl rfl rfl
  | queued _ _ hw =>
    refine h.update rfl rfl (List.Subset.refl _) ?_ ?_
    · intro v hv x hx
      cases hw.symm.trans hv
      refine .inr ⟨_, rfl, ?_⟩
      rw [TableWriter.unwritten, ← List.append_assoc]
      exact List.mem_append_left _ hx
    · intro x hx
      exact ⟨_, rfl, List.mem_append_right _ (List.mem_append_right _ hx)⟩
  | failed => exact h.congr rfl rfl rfl
  | @destroyed _ kind _ hth =>
    exact (h.destroyWriter (hC kind (by rw [destroys, hth]; rfl))).congr rfl rfl rfl
  | connected hth =>
    have hnone : ∀ kind, s.writers kind = none := fun kind =>
      hlocks.destroyed (by rw [hth]; rfl)
    exact (h.connect hnone answer.reconnect).congr rfl rfl rfl
  | appended => exact h.congr rfl rfl rfl

/-- A thread that does not reconnect starts a call. -/
theorem Locks.setThread {i : ι} {p : Thread} (h : Locks s) (hp : p.holdsExclusive = false)
    (hth : t.threads = Function.update s.threads i p) (hw : t.writers = s.writers) : Locks t := by
  have hold : ∀ {j}, (t.threads j).holdsExclusive = true →
      (t.threads j) = s.threads j := by
    intro j hj
    rw [hth, Function.update_apply] at hj ⊢
    split at hj
    · rw [hp] at hj; cases hj
    · next hji => rw [if_neg hji]
  constructor
  · intro j k hj hk
    exact h.exclusive (hold hj ▸ hj) (hold hk ▸ hk)
  · intro j kind hd
    rw [hw]
    exact h.destroyed (hold (holdsExclusive_of_destroyed hd) ▸ hd)

end Locks

/-! ## `FlushAndClose` -/

structure CloseOk (s : State ι) : Prop where
  buffer : s.closing.isRunning = false → s.buffer.a = [] ∧ s.buffer.b = []
  idle : s.closing.flushed = true → ∀ i, s.threads i = .idle
  destroyed : s.closing.destroyed kind = true → s.writers kind = none

theorem destroyed_flushed {c : Closing} {kind : EventKind} (h : c.destroyed kind = true) :
    c.flushed = true := by
  cases c <;> first | rfl | cases h

theorem CloseOk.of_running (h : s.closing = .running) : CloseOk s := by
  refine ⟨?_, ?_, ?_⟩
  · rw [h]; exact nofun
  · rw [h]; exact nofun
  · rw [h]; exact nofun

theorem holdsExclusive_flushBuffer (cfg : Config) (batch : List Item) :
    (flushBuffer cfg batch).holdsExclusive = false := by
  unfold flushBuffer
  dsimp only
  split <;> rfl

section Close

variable [DecidableEq ι]

theorem CloseOk.closeStep {i : ι} (h : CloseOk s) (hidle : ∀ j, s.threads j = .idle)
    (ht : CloseStep cfg s i t) : CloseOk t := by
  cases ht with
  | takeBuffers hcl => exact ⟨fun _ => ⟨rfl, rfl⟩, nofun, nofun⟩
  | flush hcl => exact ⟨fun _ => h.buffer (by rw [hcl]; rfl), nofun, nofun⟩
  | flushed hcl =>
    refine ⟨fun _ => h.buffer (by rw [hcl]; rfl), fun _ => hidle, ?_⟩
    intro kind hd
    cases kind <;> cases hd
  | @destroyed kind left hcl =>
    refine ⟨fun _ => h.buffer (by rw [hcl]; rfl), fun _ => hidle, fun {k} hd => ?_⟩
    by_cases hk : k = kind
    · rw [hk]; exact Function.update_self ..
    · have hs : s.writers k = none := h.destroyed (by
        rw [hcl]
        simpa [Closing.destroyed, hk] using hd)
      exact (Function.update_of_ne hk _ _).trans hs
  | disconnected hcl =>
    exact ⟨fun _ => h.buffer (by rw [hcl]; rfl), fun _ => hidle,
      fun _ => h.destroyed (by rw [hcl]; rfl)⟩

theorem Locks.closeStep {i : ι} (h : Locks s) (ht : CloseStep cfg s i t)
    (hidle : ∀ j, s.threads j = .idle) : Locks t := by
  have hnone : ∀ {u : State ι}, u.threads = s.threads → Locks u := by
    intro u hu
    refine ⟨?_, ?_⟩
    · intro j k hj _
      rw [hu, hidle] at hj; cases hj
    · intro j kind hd
      rw [hu, hidle] at hd; cases hd
  cases ht with
  | takeBuffers => exact hnone rfl
  | flush => exact h.setThread (holdsExclusive_flushBuffer cfg _) rfl rfl
  | flushed => exact hnone rfl
  | destroyed => exact hnone rfl
  | disconnected => exact hnone rfl

theorem Rows.closeStep {i : ι} (h : Rows s) (hC : DestroysEmpty s (.close i))
    (ht : CloseStep cfg s i t) : Rows t := by
  cases ht with
  | takeBuffers => exact h.congr rfl rfl rfl
  | flush => exact h.congr rfl rfl rfl
  | flushed => exact h.congr rfl rfl rfl
  | @destroyed kind _ hcl =>
    exact (h.destroyWriter (hC kind (by rw [destroys, hcl]; rfl))).congr rfl rfl rfl
  | disconnected => exact h.congr rfl rfl rfl

/-- An insertion touches the buffer and its thread. -/
theorem insert_spec {i : ι} {r : Record} {nowNs flushNs : UInt64}
    (h : DolphinDBBackend.insert cfg s i r nowNs flushNs = some t) :
    t.closing = .running ∧ t.writers = s.writers ∧ t.accepted = s.accepted ∧ t.sent = s.sent ∧
      ∃ p : Thread, p.holdsExclusive = false ∧ t.threads = Function.update s.threads i p := by
  simp only [DolphinDBBackend.insert, Option.ite_none_right_eq_some, Bool.and_eq_true] at h
  obtain ⟨⟨-, hrun⟩, h⟩ := h
  have hcl : s.closing = .running := by
    cases hc : s.closing with
    | running => rfl
    | _ => rw [hc] at hrun; cases hrun
  have hfree : ∀ (b : Bool) (job : Job),
      (if b = true then Thread.enter job else .idle).holdsExclusive = false := by
    intro b job
    split <;> rfl
  cases r with
  | tick tick => cases h; exact ⟨hcl, rfl, rfl, rfl, _, holdsExclusive_flushBuffer cfg _, rfl⟩
  | orderbook event localTs => cases h; exact ⟨hcl, rfl, rfl, rfl, _, hfree _ _, rfl⟩
  | bookTicker event => cases h; exact ⟨hcl, rfl, rfl, rfl, _, hfree _ _, rfl⟩

end Close

/-! ## Runs -/

section Runs

variable [Fintype ι]

structure Delivery (cfg : Config) (s : State ι) : Prop where
  handed : ∀ x ∈ s.handed, cfg.valid x.record = true → x ∈ held s
  rows : Rows s
  locks : Locks s
  close : CloseOk s

theorem Delivery.init (cfg : Config) (connected : Bool) :
    Delivery cfg (.init ι connected : State ι) where
  handed := nofun
  rows := nofun
  locks := ⟨nofun, nofun⟩
  close := .of_running rfl

/-- When `FlushAndClose` has returned, every event with a valid timestamp has been sent or is in the
fallback. -/
def AllStored (cfg : Config) (s : State ι) : Prop :=
  s.closing = .closed → ∀ x ∈ s.handed, cfg.valid x.record = true → x ∈ s.sent ∨ x ∈ s.fallback

/-- When `FlushAndClose` has returned, an event is among the accepted rows or in the fallback. -/
theorem CloseOk.held_eq (h : CloseOk s) (hcl : s.closing = .closed) :
    held s = ↑s.accepted + ↑s.fallback := by
  obtain ⟨ha, hb⟩ := h.buffer (by rw [hcl]; rfl)
  have hidle : ∀ i, s.threads i = .idle := h.idle (by rw [hcl]; rfl)
  have hpending : (∑ i, (↑(s.threads i).pending : Multiset Item)) = 0 :=
    Finset.sum_eq_zero fun i _ => by rw [hidle i]; rfl
  rw [held, ha, hb, hpending, hcl]
  simp only [Closing.pending, List.append_nil, Multiset.coe_nil, zero_add]

theorem Delivery.allStored (h : Delivery cfg s) : AllStored cfg s := by
  intro hcl x hx hv
  have hheld := h.handed x hx hv
  rw [h.close.held_eq hcl, Multiset.mem_add, Multiset.mem_coe, Multiset.mem_coe] at hheld
  rcases hheld with hacc | hfb
  · rcases h.rows x hacc with hsent | ⟨kind, w, hw, -⟩
    · exact .inl hsent
    · rw [h.close.destroyed (by rw [hcl]; rfl)] at hw
      cases hw
  · exact .inr hfb

variable [DecidableEq ι]

theorem mem_held_step {a : Action ι} (ht : step cfg s a = some t)
    (h : ∀ x ∈ s.handed, cfg.valid x.record = true → x ∈ held s) :
    ∀ x ∈ t.handed, cfg.valid x.record = true → x ∈ held t := by
  intro x hx hv
  obtain ⟨loss, hloss, hbal⟩ := step_ledger ht
  have hmem : x ∈ held s + ↑(inserted s a) + ↑(duplicated cfg s a) := by
    rw [(step_handed ht).1, List.mem_append] at hx
    apply Multiset.mem_add.mpr
    apply Or.inl
    apply Multiset.mem_add.mpr
    rcases hx with hx | hx
    · exact .inl (h x hx hv)
    · exact .inr (Multiset.mem_coe.mpr hx)
  rw [← hbal, Multiset.mem_add] at hmem
  rcases hmem with hmem | hmem
  · exact hmem
  · rw [hloss x (Multiset.mem_coe.mp hmem)] at hv
    cases hv

theorem CloseOk.run {i : ι} {answer : Answer} (h : CloseOk s)
    (ht : runThread cfg s i answer = some t) : CloseOk t := by
  have hnot : s.closing.flushed = false := by
    refine Bool.eq_false_iff.mpr fun hf => ?_
    rw [runThread, h.idle hf i] at ht
    cases ht
  have hsame : t.closing = s.closing ∧ t.buffer = s.buffer := by
    cases runStep ht with
    | connected => cases answer.reconnect <;> exact ⟨rfl, rfl⟩
    | _ => exact ⟨rfl, rfl⟩
  refine ⟨?_, ?_, ?_⟩
  · rw [hsame.1, hsame.2]; exact h.buffer
  · rw [hsame.1, hnot]; exact nofun
  · intro kind hd
    rw [hsame.1] at hd
    rw [destroyed_flushed hd] at hnot
    cases hnot

theorem Delivery.step {a : Action ι} (h : Delivery cfg s) (hC : DestroysEmpty s a)
    (ht : DolphinDBBackend.step cfg s a = some t) : Delivery cfg t := by
  have hhanded := mem_held_step ht h.handed
  cases a with
  | insert i r nowNs flushNs =>
    obtain ⟨hcl, hw, hacc, hsent, p, hp, hth⟩ := insert_spec ht
    exact ⟨hhanded, h.rows.congr hw hacc hsent, h.locks.setThread hp hth hw, .of_running hcl⟩
  | run i answer =>
    exact ⟨hhanded, h.rows.run h.locks hC (runStep ht), h.locks.run (runStep ht), h.close.run ht⟩
  | close i =>
    obtain ⟨hidle, hstep⟩ := closeStep ht
    exact ⟨hhanded, h.rows.closeStep hC hstep, h.locks.closeStep hstep hidle,
      h.close.closeStep hidle hstep⟩
  | send kind n =>
    obtain ⟨⟨w, x⟩, hq, rfl⟩ := Option.map_eq_some_iff.mp ht
    exact ⟨hhanded, h.rows.send hq,
      ⟨h.locks.exclusive, fun hd => setWriter_none hq (h.locks.destroyed hd)⟩,
      ⟨h.close.buffer, h.close.idle, fun hd => setWriter_none hq (h.close.destroyed hd)⟩⟩
  | failSend kind n =>
    obtain ⟨⟨w, x⟩, hq, rfl⟩ := Option.map_eq_some_iff.mp ht
    exact ⟨hhanded, h.rows.failSend hq,
      ⟨h.locks.exclusive, fun hd => setWriter_none hq (h.locks.destroyed hd)⟩,
      ⟨h.close.buffer, h.close.idle, fun hd => setWriter_none hq (h.close.destroyed hd)⟩⟩

/-- In every run that destroys no writer with rows left, every event is stored. -/
theorem allStored_of_destroysEmpty {as : List (Action ι)}
    (hC : (machine cfg ι connected).Along DestroysEmpty (.init ι connected) as)
    (hrun : (machine cfg ι connected).exec (.init ι connected) as = some t) : AllStored cfg t :=
  ((machine cfg ι connected).exec_invariant (fun _ _ _ hI hC hs => Delivery.step hI hC hs)
    (.init cfg connected) hC hrun).allStored

section Samples

/-- An order book of November 2023. -/
def sampleBook : Record :=
  .orderbook { (default : DepthUpdateEvent) with exchangeTimestamp := 1700000000000000 } 0

def sampleConfig : Config := { maxValidDate := 22000 }

/-- A call of `InsertOrderbook` whose first attempt fails, up to the second one after a reconnect or
the end of the fallback. -/
def insertTwice (reconnect : ReconnectOutcome) : List (Action Unit) :=
  [.insert () sampleBook 0 0, .run () {}, .run () { row := .failed }, .run () {}, .run () {},
    .run () {}, .run () {}, .run () {}, .run () {}, .run () { reconnect := reconnect },
    .run () {}, .run () {}, .run () {}, .run () {}]

def closeAll : List (Action Unit) := List.replicate 8 (.close ())

/-- The first order book is sent and the second goes through a reconnect to the fallback. -/
theorem unreachable_stored :
    ((machine sampleConfig Unit true).exec (.init Unit true)
      ([.insert () sampleBook 0 0, .run () {}, .run () {}, .run () {}, .send .depth 0] ++
        insertTwice .unreachable ++ closeAll)).map
      (fun t => (t.sent.map Item.seq, t.fallback.map Item.seq)) = some ([0], [1]) ∧
    ∀ t ∈ (machine sampleConfig Unit true).exec (.init Unit true)
      ([.insert () sampleBook 0 0, .run () {}, .run () {}, .run () {}, .send .depth 0] ++
        insertTwice .unreachable ++ closeAll), AllStored sampleConfig t :=
  ⟨rfl, fun _ ht => allStored_of_destroysEmpty (by decide) ht⟩

/-- The send of the first order book fails. The insert of the second one is refused, and the
reconnect destroys the writer with the first one in it. -/
theorem reconnect_loses_row :
    ∃ t, (machine sampleConfig Unit true).exec (.init Unit true)
      ([.insert () sampleBook 0 0, .run () {}, .run () {}, .run () {}, .failSend .depth 0] ++
        insertTwice .recovered ++ [.run () {}, .send .depth 0] ++ closeAll) = some t ∧
      ¬ AllStored sampleConfig t := by
  refine ⟨_, rfl, fun h => ?_⟩
  have hstored := h rfl ⟨0, sampleBook⟩ (.head _) rfl
  rcases hstored with hsent | hfb
  · have hseq := congrArg Item.seq (List.mem_singleton.mp hsent)
    cases hseq
  · cases hfb

end Samples

/-! ## The writers of the library -/

/-- Before it is destroyed, a writer has sent everything or has failed to send something. -/
def Waits (s : State ι) (a : Action ι) : Prop :=
  ∀ kind ∈ destroys s a, ∀ w ∈ s.writers kind, w.queue = [] ∨ w.failed ≠ []

def NoFailedSend (_ : State ι) : Action ι → Prop
  | .failSend _ _ => False
  | _ => True

def NoneFailed (s : State ι) : Prop := ∀ kind, ∀ w ∈ s.writers kind, w.failed = []

omit [Fintype ι] [DecidableEq ι] in
theorem NoneFailed.update {kind : EventKind} {w : Option TableWriter} (h : NoneFailed s)
    (hw : t.writers = Function.update s.writers kind w) (hf : ∀ v ∈ w, v.failed = []) :
    NoneFailed t := by
  intro k v hv
  rw [hw, Function.update_apply] at hv
  split at hv
  · exact hf v hv
  · exact h k v hv

theorem NoneFailed.step {a : Action ι} (h : NoneFailed s) (hC : NoFailedSend s a)
    (ht : DolphinDBBackend.step cfg s a = some t) : NoneFailed t := by
  cases a with
  | insert i r nowNs flushNs =>
    obtain ⟨-, hw, -⟩ := insert_spec ht
    rw [NoneFailed, hw]
    exact h
  | run i answer =>
    cases runStep ht with
    | queued _ _ hw =>
      have hf := h _ _ hw
      exact h.update rfl fun v hv => by cases hv; exact hf
    | destroyed => exact h.update rfl nofun
    | connected =>
      cases answer.reconnect with
      | recovered => intro _ w hw; cases hw; rfl
      | unreachable => exact h
      | notInitialized => exact h
    | _ => exact h
  | close i =>
    cases (closeStep ht).2 with
    | destroyed => exact h.update rfl nofun
    | _ => exact h
  | send kind n =>
    obtain ⟨⟨w, x⟩, hq, rfl⟩ := Option.map_eq_some_iff.mp ht
    obtain ⟨u, hu, -, rfl⟩ := takeQueued_eq_some hq
    have hf := h _ _ hu
    exact h.update rfl fun v hv => by cases hv; exact hf
  | failSend kind n => exact hC.elim

omit [Fintype ι] [DecidableEq ι] in
theorem NoneFailed.destroysEmpty {a : Action ι} (h : NoneFailed s) (hw : Waits s a) :
    DestroysEmpty s a := by
  intro kind hk w hmem
  have hf := h kind w hmem
  have hq := (hw kind hk w hmem).resolve_right (not_not_intro hf)
  rw [TableWriter.unwritten, hf, hq]; rfl

end Runs

end Sqc.DolphinDBBackend
