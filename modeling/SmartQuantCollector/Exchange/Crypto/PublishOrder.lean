import SmartQuantCollector.Exchange.Crypto.CryptoPipeline
import SmartQuantCollector.Lib.Subsequence
import SmartQuantCollector.Pubsub.PublicationOrder

/-! # Events leave in the order in which their messages arrived

Each stage of the crypto pipeline keeps the order of what goes through it. The network thread pushes
the messages of one channel into one queue, one after the other; the worker of that queue publishes
at most one event for each message it takes out; and the pub thread sends the events of a queue in
order. In between messages and events may be dropped. `sent_in_arrival_order` puts the stages
together. -/

namespace Sqc
open Concurrency

namespace ShardQueue

variable {c : Capacity} {q q' : State Unit}

/-! ## One queue -/

/-- The argument of the call in progress. -/
def Caller.message : Caller → List RawMessage
  | .outside => []
  | .tryPush msg | .push msg _ => [msg]

/-- The messages that the network thread has pushed; the last one may still be in its `Push`. -/
def State.offered (q : State Unit) : List RawMessage := q.pushed ++ (q.callers ()).message

/-- What the queue keeps as long as its messages have no heap buffer. -/
structure Intact (c : Capacity) (q : State Unit) : Prop where
  inv : RingQueue.Inv (ring c) q.ring
  whole : Whole q

namespace Intact

theorem init : Intact c (init Unit) := ⟨.init, .init⟩

theorem step {a : Action Unit} (h : Intact c q) (hs : step c q a = some q')
    (hkeep : KeepsPayload c q a) : Intact c q' :=
  ⟨inv_step h.inv (exclusive_of_subsingleton hs) hs, h.whole.step hkeep hs⟩

/-- What was popped was offered, in this order. -/
theorem popped_sublist (h : Intact c q) : q.ring.popped.Sublist q.offered := by
  have hpushed : q.ring.popped.Sublist q.pushed := h.whole.pushed_eq ▸ h.inv.fifo.sublist
  exact hpushed.trans (List.sublist_append_left _ _)

end Intact

theorem begin_spec {item : RawMessage} {r : RingQueue.State Unit RawMessage} {k : Caller}
    (hr : RingQueue.tryPush q.ring () item = some r) :
    (q.begin () r k).offered = q.pushed ++ k.message ∧
      (q.begin () r k).ring.popped = q.ring.popped := by
  obtain ⟨-, rfl⟩ := RingQueue.tryPush_eq_some hr
  refine ⟨?_, rfl⟩
  simp only [State.offered, State.begin, Function.update_self]

theorem push_spec {msg : RawMessage} (hs : step c q (.push () msg) = some q') :
    q'.offered = q.offered ++ [msg] ∧ q'.ring.popped = q.ring.popped := by
  simp only [step] at hs
  split at hs
  next hout =>
    obtain ⟨r, hr, rfl⟩ := Option.map_eq_some_iff.mp hs
    have hoffered : q.offered = q.pushed := by
      rw [State.offered, hout]
      exact List.append_nil _
    rw [hoffered]
    exact begin_spec hr
  next => cases hs

theorem retry_spec (hs : step c q (.retry ()) = some q') :
    q'.offered = q.offered ∧ q'.ring.popped = q.ring.popped := by
  cases stepEffect hs with
  | @retry _ msg param r hcaller hr =>
    have hoffered : q.offered = q.pushed ++ [msg] := by
      rw [State.offered, hcaller]
      rfl
    rw [hoffered]
    exact begin_spec hr

theorem produce_spec (hs : step c q (.produce ()) = some q') :
    q'.offered.Sublist q.offered ∧ q'.ring.popped = q.ring.popped := by
  obtain ⟨r, hr, rfl⟩ := Option.map_eq_some_iff.mp hs
  have hpopped := (RingQueue.produce_consumer hr).2
  split
  next hcall =>
    refine ⟨?_, hpopped⟩
    simp only [State.offered, hcall, Caller.message, Function.update_self, List.append_nil]
    exact List.Sublist.refl _
  next hcall =>
    refine ⟨?_, hpopped⟩
    simp only [State.offered, hcall, Caller.message, Function.update_self, List.append_nil]
    exact List.Sublist.refl _
  next hcall =>
    refine ⟨?_, hpopped⟩
    simp only [State.offered, Function.update_self, Caller.message]
    exact List.Sublist.append_left (List.nil_sublist _) _
  next => exact ⟨List.Sublist.refl _, hpopped⟩

end ShardQueue

namespace CryptoPipeline
open ShardQueue (Intact)
open Publication (Queued offered)

variable {n : Nat} {env : Env} {s t : State n}

theorem continuePush_spec {c : Capacity} {q q' : ShardQueue.State Unit} (h : Intact c q)
    (hinline : ∀ m ∈ q.offered, m.heap = none) (hs : continuePush c q = some q') :
    Intact c q' ∧ q'.offered.Sublist q.offered ∧ q'.ring.popped = q.ring.popped := by
  unfold continuePush at hs
  split at hs
  · obtain ⟨hoff, hpopped⟩ := ShardQueue.retry_spec hs
    refine ⟨h.step hs trivial, ?_, hpopped⟩
    rw [hoff]
  · refine ⟨h.step hs fun _ msg hmsg => hinline msg ?_, ShardQueue.produce_spec hs⟩
    refine List.mem_append_right _ ?_
    cases hk : q.callers () with
    | outside | tryPush =>
      rw [hk] at hmsg
      cases hmsg
    | push =>
      rw [hk] at hmsg
      cases hmsg
      exact List.mem_singleton_self _

/-! ## One worker -/

/-- The event is what the pipeline makes of the message. -/
def Result (env : Env) (e : Queued n) (m : RawMessage) : Prop :=
  ∃ clock nowNs item, ShardParserWorker.parseMessage env.json m clock = some ⟨e.1.kind, item⟩ ∧
    DataDispatcher.onEvent env.registry e.1.kind item nowNs = some e.2

theorem Result.channelId_eq {e : Queued n} {m : RawMessage} (h : Result env e m) :
    e.2.channelId = m.channelId := by
  obtain ⟨clock, nowNs, item, hparse, hout⟩ := h
  rw [(DataDispatcher.onEvent_eq_some hout).1]
  exact ShardParserWorker.channelId_of_parseMessage hparse

/-- What a worker has offered to its queues are results of the messages it is done with, in the
order in which it has popped them. -/
def Handled (env : Env) (popped : List RawMessage) (w : Worker)
    (offers : EventKind → List (Queued n)) : Prop :=
  ∃ done, popped = done ++ w.hand ∧ ∀ k, List.SublistForall₂ (Result env) (offers k) done

namespace Handled

variable {popped : List RawMessage} {w w' : Worker} {offers offers' : EventKind → List (Queued n)}
  {msg : RawMessage}

theorem of_sublist (h : Handled env popped w offers)
    (hsub : ∀ k, (offers' k).Sublist (offers k)) : Handled env popped w offers' := by
  obtain ⟨done, hpopped, hdone⟩ := h
  exact ⟨done, hpopped, fun k => (hdone k).of_sublist_left (hsub k)⟩

/-- The worker leaves its message without a result. -/
theorem skip (h : Handled env popped w offers) (hw : w'.hand = []) :
    Handled env popped w' offers := by
  obtain ⟨done, hpopped, hdone⟩ := h
  refine ⟨popped, by rw [hw, List.append_nil], fun k => (hdone k).of_sublist_right ?_⟩
  rw [hpopped]
  exact List.sublist_append_left _ _

theorem pop (h : Handled env popped w offers) (hw : w.hand = []) (hw' : w'.hand = [msg]) :
    Handled env (popped ++ [msg]) w' offers := by
  obtain ⟨done, hpopped, hdone⟩ := h
  exact ⟨done, by rw [hpopped, hw, List.append_nil, hw'], hdone⟩

/-- The worker publishes the result of its message. -/
theorem publish (h : Handled env popped w offers) (hw : w.hand = [msg]) (hw' : w'.hand = [])
    (hoffers : ∀ k, (offers' k).Sublist (offers k) ∨
      ∃ e, Result env e msg ∧ offers' k = offers k ++ [e]) : Handled env popped w' offers' := by
  obtain ⟨done, hpopped, hdone⟩ := h
  refine ⟨popped, by rw [hw', List.append_nil], fun k => ?_⟩
  rw [hpopped, hw]
  rcases hoffers k with hsub | ⟨e, he, heq⟩
  · exact ((hdone k).of_sublist_left hsub).of_sublist_right (List.sublist_append_left _ _)
  · rw [heq]
    exact (hdone k).concat he

end Handled

/-! ## The invariant -/

/-- The message fits inline and its channel selects queue `i`. -/
structure Routed (env : Env) (i : Fin n) (m : RawMessage) : Prop where
  inline : m.heap = none
  channel : ∃ ch ∈ env.channels, m.channelId = ch.channelId ∧ ch.shard env.hash n = i

structure QueueInv (env : Env) (s : State n) (i : Fin n) : Prop where
  intact : Intact env.capacity (s.shardQueues i)
  order : (s.shardQueues i).offered.Sublist s.received
  routed : ∀ m ∈ (s.shardQueues i).offered, Routed env i m
  handled : Handled env (s.shardQueues i).ring.popped (s.workers i)
    fun k => offered s.publication.worker ⟨i, k⟩

structure Inv (env : Env) (s : State n) : Prop where
  queue : ∀ i, QueueInv env s i
  publication : Publication.Ordered s.publication

theorem QueueInv.of_eq {i : Fin n} {q : ShardQueue.State Unit} {w : Worker}
    (hqueue : t.shardQueues i = q) (hworker : t.workers i = w)
    (hintact : Intact env.capacity q) (horder : q.offered.Sublist t.received)
    (hrouted : ∀ m ∈ q.offered, Routed env i m)
    (hhandled : Handled env q.ring.popped w fun k => offered t.publication.worker ⟨i, k⟩) :
    QueueInv env t i := by
  subst hqueue hworker
  exact ⟨hintact, horder, hrouted, hhandled⟩

/-- A step that leaves queue and worker `i` alone. -/
theorem QueueInv.frame {i : Fin n} (h : QueueInv env s i)
    (hqueue : t.shardQueues i = s.shardQueues i) (hworker : t.workers i = s.workers i)
    (hreceived : s.received.Sublist t.received)
    (hoffered : ∀ k, (offered t.publication.worker ⟨i, k⟩).Sublist
      (offered s.publication.worker ⟨i, k⟩)) : QueueInv env t i :=
  .of_eq hqueue hworker h.intact (h.order.trans hreceived) h.routed (h.handled.of_sublist hoffered)

namespace Inv

theorem init : Inv env (init n) where
  queue _ := {
    intact := .init
    order := List.Sublist.refl _
    routed := fun _ h => by cases h
    handled := ⟨[], rfl, fun _ => .nil⟩ }
  publication := .init

/-- An operation of the network thread on queue `i`. -/
theorem setQueue {i : Fin n} {q : ShardQueue.State Unit} {network : Option (Fin n)}
    {received : List RawMessage} (h : Inv env s) (hreceived : s.received.Sublist received)
    (hintact : Intact env.capacity q) (horder : q.offered.Sublist received)
    (hrouted : ∀ m ∈ q.offered, Routed env i m)
    (hpopped : q.ring.popped = (s.shardQueues i).ring.popped) :
    Inv env { s.setQueue i q with network, received } := by
  refine ⟨fun j => ?_, h.publication⟩
  have hj := h.queue j
  by_cases hij : j = i
  · subst hij
    exact .of_eq (Function.update_self ..) rfl hintact horder hrouted (hpopped ▸ hj.handled)
  · exact hj.frame (Function.update_of_ne hij _ _) rfl hreceived fun _ => List.Sublist.refl _

theorem onMessage {ch : SymbolChannel} {data : List UInt8} {recvTimestamp : UInt64}
    {scratch : RawMessage} (h : Inv env s)
    (hinline : data.length + env.padding ≤ RawMessage.kInlineSize)
    (hs : onMessage env s ch data recvTimestamp scratch = some t) : Inv env t := by
  simp only [CryptoPipeline.onMessage] at hs
  split at hs
  next => cases hs
  next =>
    split at hs
    next hch =>
      split at hs
      next hn =>
        split at hs
        next =>
          cases hs
          exact ⟨fun i => (h.queue i).frame rfl rfl (List.sublist_append_left _ _)
            fun _ => List.Sublist.refl _, h.publication⟩
        next =>
          obtain ⟨q, hq, rfl⟩ := Option.map_eq_some_iff.mp hs
          have hold := h.queue ⟨ch.shard env.hash n, ch.shard_lt env.hash hn.2⟩
          obtain ⟨hoff, hpopped⟩ := ShardQueue.push_spec hq
          refine h.setQueue (List.sublist_append_left _ _) (hold.intact.step hq trivial) ?_ ?_
            hpopped
          · rw [hoff]
            exact hold.order.append (List.Sublist.refl _)
          · rw [hoff]
            refine List.forall_mem_append.mpr ⟨hold.routed, List.forall_mem_singleton.mpr ?_⟩
            exact ⟨(RawMessage.heap_ofPayload ..).mpr hinline, ch, hch, rfl, rfl⟩
      next =>
        cases hs
        exact h
    next => cases hs

theorem push (h : Inv env s) (hs : push env s = some t) : Inv env t := by
  unfold CryptoPipeline.push at hs
  split at hs
  next => cases hs
  next i hi =>
    obtain ⟨q, hq, rfl⟩ := Option.map_eq_some_iff.mp hs
    have hold := h.queue i
    obtain ⟨hintact, hoff, hpopped⟩ := continuePush_spec hold.intact
      (fun m hm => (hold.routed m hm).inline) hq
    exact h.setQueue (List.Sublist.refl _) hintact (hoff.trans hold.order)
      (fun m hm => hold.routed m (hoff.subset hm)) hpopped

/-- An operation of worker `i` outside `PopBlocking`. -/
theorem setWorker {i : Fin n} {w : Worker} {p : Publication.State n} (h : Inv env s)
    (hpub : Publication.Ordered p)
    (hhandled : Handled env (s.shardQueues i).ring.popped w fun k => offered p.worker ⟨i, k⟩)
    (hother : ∀ j ≠ i, ∀ k, (offered p.worker ⟨j, k⟩).Sublist
      (offered s.publication.worker ⟨j, k⟩)) :
    Inv env { s.setWorker i w with publication := p } := by
  refine ⟨fun j => ?_, hpub⟩
  have hj := h.queue j
  by_cases hij : j = i
  · subst hij
    exact .of_eq rfl (Function.update_self ..) hj.intact hj.order hj.routed hhandled
  · exact hj.frame rfl (Function.update_of_ne hij _ _) (List.Sublist.refl _) (hother j hij)

/-- A step of the publication that publishes nothing new. -/
theorem setPublication {a : Publication.Action n} {p : Publication.State n} (h : Inv env s)
    (hp : Publication.step env.registry s.publication a = some p) (ha : a.NoForwarder)
    (hquiet : ∀ u k item nowNs, a ≠ .onEvent u k item nowNs) :
    Inv env { s with publication := p } := by
  refine ⟨fun i => (h.queue i).frame rfl rfl (List.Sublist.refl _) fun k => ?_,
    h.publication.step hp ha⟩
  refine (Publication.offered_step h.publication.priv hp ha ⟨i, k⟩).resolve_right ?_
  rintro ⟨i, k, item, nowNs, out, heq, -⟩
  exact hquiet _ _ _ _ heq

theorem pop {i : Fin n} (h : Inv env s) (hw : (s.workers i).hand = []) :
    Inv env ((s.setQueue i { s.shardQueues i with
      ring := RingQueue.consume (ShardQueue.ring env.capacity) (s.shardQueues i).ring }).setWorker i
        (match RingQueue.popResult (s.shardQueues i).ring with
        | none => .popping
        | some msg => if msg.size = 0 then .stopped else .handling msg)) := by
  refine ⟨fun j => ?_, h.publication⟩
  have hj := h.queue j
  by_cases hij : j = i
  · subst hij
    refine .of_eq (Function.update_self ..) (Function.update_self ..)
      (hj.intact.step (a := .consume) rfl trivial) hj.order hj.routed ?_
    show Handled env (RingQueue.consume _ _).popped _ _
    rw [RingQueue.consume_popped]
    cases RingQueue.popResult (s.shardQueues j).ring with
    | none =>
      rw [Option.toList_none, List.append_nil]
      exact hj.handled.skip rfl
    | some msg =>
      have hpop : Handled env ((s.shardQueues j).ring.popped ++ [msg]) (.handling msg) _ :=
        hj.handled.pop hw rfl
      dsimp only [Option.toList_some]
      split
      · exact hpop.skip rfl
      · exact hpop
  · exact hj.frame (Function.update_of_ne hij _ _) (Function.update_of_ne hij _ _)
      (List.Sublist.refl _) fun _ => List.Sublist.refl _

theorem work {i : Fin n} {clock nowNs : UInt64} (h : Inv env s)
    (hs : work env s i clock nowNs = some t) : Inv env t := by
  have hi := (h.queue i).handled
  unfold CryptoPipeline.work at hs
  split at hs
  next hw =>
    cases hs
    exact h.pop (by rw [hw]; rfl)
  next msg hw =>
    split at hs
    next =>
      cases hs
      exact h.setWorker h.publication (hi.skip rfl) fun _ _ _ => List.Sublist.refl _
    next k event hparse =>
      obtain ⟨p, hp, rfl⟩ := Option.map_eq_some_iff.mp hs
      have hoffered := Publication.offered_step h.publication.priv hp trivial
      have hhand : (s.workers i).hand = [msg] := by rw [hw]; rfl
      refine h.setWorker (h.publication.step hp trivial) (hi.publish hhand rfl fun k' => ?_) ?_
      · refine (hoffered ⟨i, k'⟩).imp_right ?_
        rintro ⟨i', k'', item, nowNs', out, ha, hout, hj, heq⟩
        cases ha
        exact ⟨_, ⟨clock, nowNs, event, hparse, hout⟩, heq⟩
      · intro j hj k'
        refine (hoffered ⟨j, k'⟩).resolve_right ?_
        rintro ⟨i', k'', item, nowNs', out, ha, hout, hj', heq⟩
        cases ha
        exact hj (congrArg PubWorker.QueueId.shard hj')
  next hw =>
    split at hs
    next =>
      cases hs
      exact h.setWorker h.publication (hi.skip rfl) fun _ _ _ => List.Sublist.refl _
    next =>
      obtain ⟨p, hp, rfl⟩ := Option.map_eq_some_iff.mp hs
      exact h.setPublication hp trivial fun _ _ _ _ ha => by cases ha
  next => cases hs

/-- The actions of the system, received messages being small. -/
theorem step {a : Action n} (hforwarder : env.forwarder = false) (h : Inv env s)
    (hinline : a.Inline env.padding) (hs : step env s a = some t) : Inv env t := by
  cases a with
  | onMessage ch data recvTimestamp scratch => exact h.onMessage hinline hs
  | push => exact h.push hs
  | work i clock nowNs => exact h.work hs
  | publication a =>
    simp only [CryptoPipeline.step] at hs
    split at hs
    next hallow =>
      obtain ⟨p, hp, rfl⟩ := Option.map_eq_some_iff.mp hs
      -- only the pub thread is left
      cases a with
      | onEvent u | advance u =>
        cases u with
        | parser => cases hallow
        | forwarder => cases hforwarder.symm.trans hallow
      | dispatchCycle | dispatch => exact h.setPublication hp trivial fun _ _ _ _ ha => by cases ha
    next => cases hs

end Inv

/-! ## Channels -/

/-- Channels with one id select one queue. -/
def OneShard (env : Env) (n : Nat) : Prop :=
  ∀ a ∈ env.channels, ∀ b ∈ env.channels, a.channelId = b.channelId →
    a.shard env.hash n = b.shard env.hash n

namespace Inv

/-- All that was sent from queues of shard `i` are results of messages in their order. -/
theorem sent_results (h : Inv env s) (j : PubWorker.QueueId n) :
    ∃ done, List.SublistForall₂ (Result env) (s.publication.sent.filter (·.1 = j)) done ∧
      done.Sublist (s.shardQueues j.shard).offered := by
  have hq := h.queue j.shard
  obtain ⟨done, hpopped, hdone⟩ := hq.handled
  refine ⟨done, (hdone j.kind).of_sublist_left (h.publication.sent_sublist j), ?_⟩
  have hpre : done.Sublist (s.shardQueues j.shard).ring.popped := by
    rw [hpopped]
    exact List.sublist_append_left _ _
  exact hpre.trans hq.intact.popped_sublist

/-- The events of a channel come from the shard of the channel. -/
theorem shard_of_sent (h : Inv env s) (hone : OneShard env n) {ch : SymbolChannel}
    (hch : ch ∈ env.channels) {e : Queued n} (he : e ∈ s.publication.sent)
    (hid : e.2.channelId = ch.channelId) : e.1.shard.val = ch.shard env.hash n := by
  obtain ⟨done, hdone, hsub⟩ := h.sent_results e.1
  obtain ⟨m, hm, hresult⟩ := hdone.exists_of_mem
    (List.mem_filter.mpr ⟨he, decide_eq_true rfl⟩)
  obtain ⟨ch', hch', hm', hshard⟩ := ((h.queue e.1.shard).routed m (hsub.subset hm)).channel
  rw [← hshard]
  refine hone ch' hch' ch hch ?_
  rw [← hm', ← hresult.channelId_eq, hid]

theorem sent_sublistForall₂ (h : Inv env s) (hone : OneShard env n) {ch : SymbolChannel}
    (hch : ch ∈ env.channels) (hn : 0 < n) (k : EventKind) :
    List.SublistForall₂ (Result env)
      (s.publication.sent.filter fun e => e.1.kind = k ∧ e.2.channelId = ch.channelId)
      (s.received.filter (·.channelId = ch.channelId)) := by
  obtain ⟨done, hdone, hsub⟩ :=
    h.sent_results ⟨⟨ch.shard env.hash n, ch.shard_lt env.hash hn⟩, k⟩
  have hall := hdone.of_sublist_right (hsub.trans (h.queue _).order)
  have hchannel := hall.filter (p := fun e => e.2.channelId = ch.channelId)
    (q := fun m => m.channelId = ch.channelId) fun e m hem => by rw [hem.channelId_eq]
  rw [List.filter_filter] at hchannel
  refine (List.filter_congr fun e he => ?_) ▸ hchannel
  rw [← Bool.decide_and, decide_eq_decide]
  constructor
  · rintro ⟨hid, hj⟩
    exact ⟨congrArg PubWorker.QueueId.kind hj, hid⟩
  · rintro ⟨rfl, hid⟩
    have hshard := h.shard_of_sent hone hch he hid
    exact ⟨hid, congrArg (PubWorker.QueueId.mk · e.1.kind) (Fin.ext hshard)⟩

end Inv

end CryptoPipeline

namespace Pipelines

/-- The configuration has no channel of type futures. -/
def NoFutures (cfg : RootConfig) : Prop :=
  ∀ ex ∈ cfg.exchanges, ∀ ch ∈ ex.channels, ch.type ≠ "futures"

theorem subList_of_noFutures {cfg : RootConfig} (hcfg : NoFutures cfg) :
    (launched cfg).2.channelMap.subList = [] := by
  refine launched_induction (P := fun p => p.channelMap.subList = []) rfl ?_ (fun _ _ => rfl) ?_
  · exact keeps_buildCryptoChannels fun ex _ _ ch _ => keeps_addChannel fun _ _ _ _ sym _ _ =>
      keeps_register fun _ _ hp _ => hp
  · exact keeps_registerFutures fun ex hex _ ch hch htype => absurd htype (hcfg ex hex ch hch)

end Pipelines

namespace CryptoPipeline

variable (json : Json) (hash : String → UInt64) (padding : Nat) (capacity : Capacity)

theorem oneShard_ofConfig (cfg : RootConfig) (n : Nat) :
    OneShard (.ofConfig json hash padding capacity cfg) n := by
  intro a ha b hb hid
  have hcons := Pipelines.launched_consistent cfg
  obtain ⟨hida, hka⟩ := hcons.symbolChannels a ha
  obtain ⟨hidb, hkb⟩ := hcons.symbolChannels b hb
  have hsame := hka.sameChannel hkb (hida.symm.trans (hid.trans hidb))
  have hname : a.adapter.name = b.adapter.name := hsame.1
  rw [SymbolChannel.shard, SymbolChannel.shard, hid, hname]

/-- For every configuration without futures channels and every run in which the received messages
fit the inline buffer: what was sent for a channel, of one kind of events, are results of different
messages of the channel, in the order in which these were received. -/
theorem sent_in_arrival_order (cfg : RootConfig) (hok : (Pipelines.launched cfg).1 = .ok ())
    (hcfg : Pipelines.NoFutures cfg) (as : List (Action cfg.parserCores.length))
    (s : State cfg.parserCores.length) (hinline : ∀ a ∈ as, a.Inline padding)
    (hs : (machine (.ofConfig json hash padding capacity cfg) cfg.parserCores.length).exec
      (init cfg.parserCores.length) as = some s)
    (ch : SymbolChannel) (hch : ch ∈ (Pipelines.launched cfg).2.symbolChannels) (k : EventKind) :
    List.SublistForall₂ (Result (.ofConfig json hash padding capacity cfg))
      (s.publication.sent.filter fun e => e.1.kind = k ∧ e.2.channelId = ch.channelId)
      (s.received.filter (·.channelId = ch.channelId)) := by
  have hforwarder : (Env.ofConfig json hash padding capacity cfg).forwarder = false := by
    simp only [Env.ofConfig, Pipelines.subList_of_noFutures hcfg, List.isEmpty_nil, Bool.not_true]
  have hinv : Inv (.ofConfig json hash padding capacity cfg) s :=
    (machine _ _).exec_invariant (C := fun _ a => a.Inline padding)
      (fun _ _ _ h ha => h.step hforwarder ha) Inv.init ((machine _ _).along_of_forall hinline) hs
  have hn : 0 < cfg.parserCores.length := by
    refine List.length_pos_iff.mpr fun hcores => ?_
    rw [Pipelines.launched_of_isEmpty hcores] at hok
    cases hok
  exact hinv.sent_sublistForall₂ (oneShard_ofConfig json hash padding capacity cfg _) hch hn k

/-! ### Two trades -/

/-- A configuration with one spot symbol. -/
def oneSpot : RootConfig where
  parserCores := [3]
  exchanges :=
    [{ name := "binance", enabled := true, channels :=
        [{ type := "spot", symbols := [{ name := "BTCUSDT" }] }] }]

def btcusdt : SymbolChannel where
  adapter := .binanceSpot
  symbol := "BTCUSDT"
  depthLevel := 5
  channelId := computeChannelId "binance" "spot" "BTCUSDT"

/-- Every message is a trade, with the time of parsing for its id. -/
def trades : Json where
  iterate _ := true
  peekEventType _ _ := .tick
  read _ _ clock
    | .tick => some { (default : TickData) with tradeId := clock }
    | _ => none

/-- A message is received, parsed at the given time and published; its event is sent. -/
def trade (clock : UInt64) : List (Action 1) :=
  [.onMessage btcusdt [123, 125] 0 default, .push, .push, .push] ++
  List.replicate 9 (.work ⟨0, Nat.one_pos⟩ clock 0) ++
  .publication (.dispatchCycle 0) :: List.replicate 13 (.publication (.dispatch {}))

theorem two_trades_in_order :
    (Pipelines.launched oneSpot).1 = .ok () ∧ ∃ s : State 1,
      (machine (.ofConfig trades (fun _ => 0) 64 PubWorker.queueCapacity oneSpot) 1).exec (init 1)
        (trade 1 ++ trade 2) = some s ∧ s.publication.sent.length = 2 ∧
      List.SublistForall₂
        (Result (.ofConfig trades (fun _ => 0) 64 PubWorker.queueCapacity oneSpot))
        (s.publication.sent.filter fun e => e.1.kind = .tick ∧ e.2.channelId = btcusdt.channelId)
        (s.received.filter (·.channelId = btcusdt.channelId)) := by
  have hok : (Pipelines.launched oneSpot).1 = .ok () := by decide +kernel
  have hrun : ((machine (.ofConfig trades (fun _ => 0) 64 PubWorker.queueCapacity oneSpot) 1).exec
      (init 1) (trade 1 ++ trade 2)).map (·.publication.sent.length) = some 2 := by
    decide +kernel
  obtain ⟨s, hs, hsent⟩ := Option.map_eq_some_iff.mp hrun
  refine ⟨hok, s, hs, hsent, sent_in_arrival_order trades (fun _ => 0) 64 PubWorker.queueCapacity
    oneSpot hok ?_ _ s ?_ hs btcusdt ?_ .tick⟩
  · unfold Pipelines.NoFutures
    decide
  · have htrade : ∀ clock, ∀ a ∈ trade clock, a.Inline 64 := by
      intro clock a ha
      have hcases : a = .onMessage btcusdt [123, 125] 0 default ∨ a = .push ∨
          a = .work ⟨0, Nat.one_pos⟩ clock 0 ∨ a = .publication (.dispatchCycle 0) ∨
          a = .publication (.dispatch {}) := by
        simpa [trade, or_assoc] using ha
      rcases hcases with rfl | rfl | rfl | rfl | rfl
      · show 2 + 64 ≤ RawMessage.kInlineSize
        decide
      all_goals trivial
    exact List.forall_mem_append.mpr ⟨htrade 1, htrade 2⟩
  · decide +kernel

end CryptoPipeline

end Sqc
