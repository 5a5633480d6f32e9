import SmartQuantCollector.Storage.Backend.DolphinDBDelivery

/-! # Runs without failures

While no row is refused, no send fails and a writer waits for its rows before it is destroyed, the
backend does not degrade. The database has then been sent every event exactly once when
`FlushAndClose` has returned (`sent_perm_handed`). Nothing on this path asks whether the channel of
an event was registered. -/

namespace Sqc.DolphinDBBackend

open Concurrency

variable {ι : Type} {cfg : Config} {s t : State ι}

/-- A step without an I/O failure; an event that it inserts has a valid timestamp. -/
def NoFailure (cfg : Config) (s : State ι) (a : Action ι) : Prop :=
  Waits s a ∧
    match a with
    | .insert _ r _ _ => cfg.valid r = true
    | .run _ answer => answer.row = .queued
    | .close _ | .send _ _ => True
    | .failSend _ _ => False

instance (s : State ι) (a : Action ι) : Decidable (Waits s a) :=
  inferInstanceAs (Decidable (∀ kind ∈ destroys s a, ∀ w ∈ s.writers kind, _ ∨ _))

instance (cfg : Config) (s : State ι) : ∀ a, Decidable (NoFailure cfg s a)
  | .insert _ r _ _ => inferInstanceAs (Decidable (_ ∧ cfg.valid r = true))
  | .run _ answer => inferInstanceAs (Decidable (_ ∧ answer.row = .queued))
  | .close _ | .send _ _ => inferInstanceAs (Decidable (_ ∧ True))
  | .failSend _ _ => inferInstanceAs (Decidable (_ ∧ False))

/-- In a first attempt, with valid rows to insert. -/
def Thread.Direct (cfg : Config) : Thread → Prop
  | .idle => True
  | .enter job => ∀ x ∈ job.items, cfg.valid x.record = true
  | .inserting _ _ _ todo => ∀ x ∈ todo, cfg.valid x.record = true
  | _ => False

/-- The rows of a writer that have not been sent. -/
def rowsLeft (w : Option TableWriter) : Multiset Item := ↑((w.map TableWriter.unwritten).getD [])

/-- Every accepted row has been sent once or is with a writer once. -/
def RowsBalance (s : State ι) : Prop :=
  ↑s.sent + ∑ kind, rowsLeft (s.writers kind) = (↑s.accepted : Multiset Item)

theorem RowsBalance.update {kind : EventKind} {w : Option TableWriter} {acc sent : List Item}
    (h : RowsBalance s) (hw : t.writers = Function.update s.writers kind w)
    (hacc : t.accepted = s.accepted ++ acc) (hsent : t.sent = s.sent ++ sent)
    (hrows : ↑sent + rowsLeft w = rowsLeft (s.writers kind) + ↑acc) : RowsBalance t := by
  classical
  have hsum := sum_update_add rowsLeft s.writers kind w
  unfold RowsBalance at h ⊢
  rw [hw, hacc, hsent]
  ext x
  have h := congrArg (Multiset.count x) h
  have hsum := congrArg (Multiset.count x) hsum
  have hrows := congrArg (Multiset.count x) hrows
  simp only [← Multiset.coe_add, Multiset.count_add] at h hsum hrows ⊢
  omega

/-- A writer is replaced by another. -/
theorem isSome_setWriter {kind : EventKind} (w : TableWriter)
    (h : ∀ k, (s.writers k).isSome = true) (k : EventKind) :
    ((s.setWriter kind (some w)).writers k).isSome = true := by
  show (Function.update s.writers kind (some w) k).isSome = true
  rw [Function.update_apply]
  split
  · rfl
  · exact h k

/-- What holds in every state of a run without failures. -/
structure Undegraded (cfg : Config) (s : State ι) : Prop where
  degraded : s.degraded = false
  fallback : s.fallback = []
  threads : ∀ i, (s.threads i).Direct cfg
  ready : s.closing.flushed = false → s.connected = true ∧ ∀ kind, (s.writers kind).isSome = true
  rows : RowsBalance s

theorem direct_flushBuffer (cfg : Config) (batch : List Item) :
    (flushBuffer cfg batch).Direct cfg := by
  unfold flushBuffer
  dsimp only
  split
  · trivial
  · exact fun x hx => (List.mem_filter.mp hx).2

theorem Undegraded.init (cfg : Config) : Undegraded cfg (.init ι true) where
  degraded := rfl
  fallback := rfl
  threads _ := trivial
  ready _ := ⟨rfl, fun _ => rfl⟩
  rows := by
    have hnone (kind : EventKind) : rowsLeft ((State.init ι true).writers kind) = 0 := rfl
    rw [RowsBalance, Finset.sum_congr rfl fun kind _ => hnone kind, Finset.sum_const_zero]
    rfl

/-- A row of a first attempt is accepted. -/
theorem Undegraded.insertRow {x : Item} (h : Undegraded cfg s) (kind : EventKind)
    (hclosing : s.closing.flushed = false) (hx : cfg.valid x.record = true) :
    ∃ w, s.writers kind = some w ∧ DolphinDBBackend.insertRow cfg s kind x .queued =
      some { s.setWriter kind (some { w with queue := w.queue ++ [x] }) with
        accepted := s.accepted ++ [x] } := by
  obtain ⟨hconnected, hwriters⟩ := h.ready hclosing
  obtain ⟨w, hw⟩ := Option.isSome_iff_exists.mp (hwriters kind)
  refine ⟨w, hw, ?_⟩
  rw [DolphinDBBackend.insertRow, hw]
  simp only [hconnected, hx, Bool.and_self, decide_true, if_true]

theorem Undegraded.send {kind : EventKind} {n : Nat} {w : TableWriter} {x : Item}
    (h : Undegraded cfg s) (hq : takeQueued s kind n = some (w, x)) :
    Undegraded cfg { s.setWriter kind (some w) with sent := s.sent ++ [x] } := by
  obtain ⟨v, hv, hn, rfl⟩ := takeQueued_eq_some hq
  refine ⟨h.degraded, h.fallback, h.threads, fun hflushed => ?_, ?_⟩
  · obtain ⟨hconnected, hwriters⟩ := h.ready hflushed
    exact ⟨hconnected, isSome_setWriter _ hwriters⟩
  · refine h.rows.update rfl (List.append_nil _).symm rfl ?_
    obtain ⟨hlt, rfl⟩ := List.getElem?_eq_some_iff.mp hn
    rw [hv, Multiset.coe_nil, add_zero]
    simp only [rowsLeft, Option.map_some, Option.getD_some, TableWriter.unwritten,
      Multiset.coe_add, Multiset.coe_eq_coe]
    have hback := (List.getElem_cons_eraseIdx_perm hlt).append_left v.failed
    rw [List.singleton_append]
    refine List.Perm.trans ?_ hback
    exact List.perm_middle.symm

section Steps

variable [DecidableEq ι]

theorem direct_update {i : ι} {p : Thread} (h : ∀ j, (s.threads j).Direct cfg)
    (hp : p.Direct cfg) (j : ι) : (Function.update s.threads i p j).Direct cfg := by
  rw [Function.update_apply]
  split
  · exact hp
  · exact h j

/-- A step that changes one thread and neither the writers nor the rows. -/
theorem Undegraded.setThread {i : ι} {p : Thread} (h : Undegraded cfg s) (hp : p.Direct cfg)
    (hthreads : t.threads = Function.update s.threads i p) (hdegraded : t.degraded = s.degraded)
    (hfallback : t.fallback = s.fallback) (hconnected : t.connected = s.connected)
    (hwriters : t.writers = s.writers) (hsent : t.sent = s.sent)
    (haccepted : t.accepted = s.accepted) (hclosing : s.closing.flushed = false) :
    Undegraded cfg t := by
  refine ⟨hdegraded ▸ h.degraded, hfallback ▸ h.fallback, fun j => ?_, fun _ => ?_, ?_⟩
  · rw [hthreads]
    exact direct_update h.threads hp j
  · rw [hconnected, hwriters]
    exact h.ready hclosing
  · rw [RowsBalance, hsent, hwriters, haccepted]
    exact h.rows

theorem Undegraded.insert {i : ι} {r : Record} {nowNs flushNs : UInt64} (h : Undegraded cfg s)
    (hv : cfg.valid r = true)
    (ht : DolphinDBBackend.insert cfg s i r nowNs flushNs = some t) : Undegraded cfg t := by
  simp only [DolphinDBBackend.insert, Option.ite_none_right_eq_some, Bool.and_eq_true] at ht
  obtain ⟨⟨-, hrunning⟩, ht⟩ := ht
  have hclosing : s.closing.flushed = false := by
    cases hc : s.closing with
    | running | flushing _ => rfl
    | disconnecting _ | closed => rw [hc] at hrunning; cases hrunning
  have hdirect :
      Thread.Direct cfg (if cfg.valid r then .enter ⟨r.kind, [⟨s.next, r⟩]⟩ else .idle) := by
    rw [if_pos hv]
    exact List.forall_mem_singleton.mpr hv
  cases r with
  | tick tick =>
    cases ht
    exact h.setThread (direct_flushBuffer cfg _) rfl rfl rfl rfl rfl rfl rfl hclosing
  | orderbook event localTs =>
    cases ht
    exact h.setThread hdirect rfl rfl rfl rfl rfl rfl rfl hclosing
  | bookTicker event =>
    cases ht
    exact h.setThread hdirect rfl rfl rfl rfl rfl rfl rfl hclosing

theorem Undegraded.close {i : ι} (h : Undegraded cfg s) (hnone : NoneFailed s)
    (hwaits : Waits s (.close i)) (ht : CloseStep cfg s i t) : Undegraded cfg t := by
  cases ht with
  | takeBuffers hcl =>
    exact ⟨h.degraded, h.fallback, h.threads, fun _ => h.ready (by rw [hcl]; rfl), h.rows⟩
  | flush hcl =>
    exact h.setThread (direct_flushBuffer cfg _) rfl rfl rfl rfl rfl rfl rfl (by rw [hcl]; rfl)
  | flushed => exact ⟨h.degraded, h.fallback, h.threads, fun hf => (by cases hf), h.rows⟩
  | @destroyed kind left hcl =>
    refine ⟨h.degraded, h.fallback, h.threads, fun hf => (by cases hf), ?_⟩
    refine h.rows.update rfl (List.append_nil _).symm (List.append_nil _).symm ?_
    -- a writer that has waited has no rows left
    have hempty := hnone.destroysEmpty hwaits kind (by rw [destroys, hcl]; rfl)
    cases hw : s.writers kind with
    | none => rfl
    | some w =>
      have hleft : w.unwritten = [] := List.isEmpty_iff.mp (hempty w hw)
      rw [rowsLeft, rowsLeft, Option.map_some, hleft]
      rfl
  | disconnected => exact ⟨h.degraded, h.fallback, h.threads, fun hf => (by cases hf), h.rows⟩

variable [Fintype ι]

/-- A thread goes on in its first attempt, and no accepted row goes a second way. -/
theorem Undegraded.run {i : ι} {answer : Answer} (h : Undegraded cfg s) (hclose : CloseOk s)
    (hanswer : answer.row = .queued) (ht : runThread cfg s i answer = some t) :
    Undegraded cfg t ∧ duplicated cfg s (.run i answer) = [] := by
  have hclosing (hne : s.threads i ≠ .idle) : s.closing.flushed = false :=
    Bool.eq_false_iff.mpr fun hf => hne (hclose.idle hf i)
  have hdirect := h.threads i
  unfold runThread at ht
  cases hi : s.threads i with
  | idle =>
    simp only [hi] at ht
    cases ht
  | enter job =>
    simp only [hi, h.degraded, Option.ite_none_left_eq_some] at ht hdirect
    cases ht.2
    have hitems : Thread.Direct cfg (.inserting job.kind false [] job.items) := hdirect
    refine ⟨h.setThread hitems rfl rfl rfl rfl rfl rfl rfl ?_,
      duplicated_of_not_atRow (by rw [hi]; rfl)⟩
    exact hclosing (by rw [hi]; nofun)
  | inserting kind retried done todo =>
    have hflushed := hclosing (by rw [hi]; nofun)
    rw [hi] at hdirect
    cases todo with
    | nil =>
      simp only [hi] at ht
      cases ht
      have hidle : Thread.Direct cfg .idle := trivial
      exact ⟨h.setThread hidle rfl rfl rfl rfl rfl rfl rfl hflushed,
        duplicated_of_not_atRow (by rw [hi]; rfl)⟩
    | cons x todo =>
      obtain ⟨hx, htodo⟩ := List.forall_mem_cons.mp hdirect
      obtain ⟨w, hw, hrow⟩ := h.insertRow kind hflushed hx
      simp only [hi, hanswer, hrow] at ht
      cases ht
      refine ⟨⟨h.degraded, h.fallback, fun j => ?_, fun _ => ?_, ?_⟩, ?_⟩
      · have hnext : Thread.Direct cfg (.inserting kind retried (done ++ [x]) todo) := htodo
        exact direct_update h.threads hnext j
      · obtain ⟨hconnected, hwriters⟩ := h.ready hflushed
        exact ⟨hconnected, isSome_setWriter _ hwriters⟩
      · refine h.rows.update rfl rfl (List.append_nil _).symm ?_
        rw [hw, Multiset.coe_nil, zero_add]
        simp only [rowsLeft, Option.map_some, Option.getD_some, TableWriter.unwritten,
          Multiset.coe_add, List.append_assoc]
      · rw [duplicated, hi]
        simp only [hanswer, hrow, Option.isNone_some, Bool.false_eq_true, if_false]
  | _ =>
    rw [hi] at hdirect
    exact hdirect.elim

/-- As long as the rows are valid and go one way, what the backend holds is what it was handed. -/
theorem held_eq_handed_step {a : Action ι} (h : held s = ↑s.handed)
    (hvalid : ∀ x ∈ t.handed, cfg.valid x.record = true) (hdup : duplicated cfg s a = [])
    (ht : step cfg s a = some t) : held t = ↑t.handed := by
  obtain ⟨loss, hloss, hbal⟩ := step_ledger ht
  have hhanded := (step_handed ht).1
  rw [hdup, Multiset.coe_nil, add_zero, h, Multiset.coe_add, ← hhanded] at hbal
  have hnil : loss = [] := by
    refine List.eq_nil_iff_forall_not_mem.mpr fun x hx => ?_
    have hmem : x ∈ t.handed := by
      rw [← Multiset.mem_coe, ← hbal]
      exact Multiset.mem_add.mpr (.inr (Multiset.mem_coe.mpr hx))
    cases (hloss x hx).symm.trans (hvalid x hmem)
  rwa [hnil, Multiset.coe_nil, add_zero] at hbal

/-- The invariants of a run without failures. -/
structure Flawless (cfg : Config) (s : State ι) : Prop where
  delivery : Delivery cfg s
  noneFailed : NoneFailed s
  undegraded : Undegraded cfg s
  valid : ∀ x ∈ s.handed, cfg.valid x.record = true
  held : held s = ↑s.handed

theorem Flawless.step {a : Action ι} (h : Flawless cfg s) (hC : NoFailure cfg s a)
    (ht : DolphinDBBackend.step cfg s a = some t) : Flawless cfg t := by
  obtain ⟨hwaits, hC⟩ := hC
  have hsend : NoFailedSend s a := by
    cases a with
    | failSend => exact hC.elim
    | _ => trivial
  have hundegraded : Undegraded cfg t ∧ duplicated cfg s a = [] := by
    cases a with
    | insert i r nowNs flushNs => exact ⟨h.undegraded.insert hC ht, rfl⟩
    | run i answer => exact h.undegraded.run h.delivery.close hC ht
    | close i => exact ⟨h.undegraded.close h.noneFailed hwaits (closeStep ht).2, rfl⟩
    | send kind n =>
      obtain ⟨⟨w, x⟩, hq, rfl⟩ := Option.map_eq_some_iff.mp ht
      exact ⟨h.undegraded.send hq, rfl⟩
    | failSend => exact hC.elim
  have hvalid : ∀ x ∈ t.handed, cfg.valid x.record = true := by
    rw [(step_handed ht).1]
    refine List.forall_mem_append.mpr ⟨h.valid, ?_⟩
    cases a with
    | insert i r nowNs flushNs => exact List.forall_mem_singleton.mpr hC
    | _ => exact List.forall_mem_nil _
  exact ⟨h.delivery.step (h.noneFailed.destroysEmpty hwaits) ht, h.noneFailed.step hsend ht,
    hundegraded.1, hvalid, held_eq_handed_step h.held hvalid hundegraded.2 ht⟩

omit [DecidableEq ι] in
/-- When `FlushAndClose` has returned, every event has been sent once. -/
theorem Flawless.sent_perm (h : Flawless cfg s) (hcl : s.closing = .closed) :
    s.sent.Perm s.handed := by
  have hleft : ∑ kind, rowsLeft (s.writers kind) = 0 :=
    Finset.sum_eq_zero fun kind _ => by
      rw [h.delivery.close.destroyed (by rw [hcl]; rfl)]; rfl
  have hrows := h.undegraded.rows
  rw [RowsBalance, hleft, add_zero] at hrows
  have hheld := h.delivery.close.held_eq hcl
  rw [h.held, h.undegraded.fallback, Multiset.coe_nil, add_zero, ← hrows] at hheld
  exact Multiset.coe_eq_coe.mp hheld.symm

theorem sent_perm_handed {as : List (Action ι)}
    (hC : (machine cfg ι true).Along (NoFailure cfg) (.init ι true) as)
    (hrun : (machine cfg ι true).exec (.init ι true) as = some t) (hcl : t.closing = .closed) :
    t.sent.Perm t.handed := by
  have hnone : NoneFailed (State.init ι true) := by
    intro kind w hw
    cases hw
    rfl
  have hinit : Flawless cfg (.init ι true) :=
    ⟨.init cfg true, hnone, .init cfg, List.forall_mem_nil _, held_init true⟩
  exact ((machine cfg ι true).exec_invariant (fun _ _ _ hI hC hs => hI.step hC hs)
    hinit hC hrun).sent_perm hcl

end Steps

end Sqc.DolphinDBBackend
