import Mathlib.Data.List.TakeWhile
import SmartQuantCollector.Lib.Utf8
import SmartQuantCollector.Pubsub.DispatchCycle

/-! # Soundness of `ChannelRegistry`

Any sequence of calls of `Register`, some of which throw. The registry then holds the first channel
registered under each id (`ChannelRegistry.after_eq`). That two registered channels never have one
topic is checked nowhere: it follows because the id of a channel is a function of its topic
(`ChannelInfo.channelId_eq_of_topic_eq`), whatever colons the names contain.

`SendTyped` prints the topic with `%.*s`, which stops at a zero byte. Topics on the wire are
distinct for names without one, and `shared_topic` shows that they need not be otherwise. -/

namespace Sqc

/-! ## The topic and the id -/

theorem fnvString_append (h : UInt64) (s t : String) :
    fnvString h (s ++ t) = fnvString (fnvString h s) t := by
  rw [fnvString, String.toList_toUTF8_append, List.foldl_append]
  rfl

theorem fnvString_colon (h : UInt64) : fnvString h ":" = fnvRound h ':'.toUInt8 := by
  have hbytes : ":".toUTF8.toList = [':'.toUInt8] := by decide +kernel
  rw [fnvString, hbytes]
  rfl

namespace ChannelInfo

theorem channelId_eq (info : ChannelInfo) :
    info.channelId =
      (fnvString kBasis info.topic ^^^ (fnvString kBasis info.topic >>> 32)).toUInt32 := by
  simp only [channelId, computeChannelId, topic, fnvString_append, fnvString_colon]

theorem channelId_eq_of_topic_eq {a b : ChannelInfo} (h : a.topic = b.topic) :
    a.channelId = b.channelId := by
  rw [channelId_eq, channelId_eq, h]

/-- The entry that `Register` makes. -/
def entry (info : ChannelInfo) : ChannelInfo :=
  { info with id := info.channelId, topicPrefix := info.topic }

end ChannelInfo

/-! ## The topic on the wire -/

namespace PubWorker

/-- The bytes that `%.*s` writes. -/
def printedBytes (s : String) : List UInt8 :=
  let bytes := s.toUTF8.toList.takeWhile (· ≠ 0)
  if toInt s.utf8ByteSize < 0 then bytes else bytes.take (toInt s.utf8ByteSize).toNat

/-- What `SendTyped` prints into `topic_buf_`. -/
def topicBytes (topic suffix : String) : List UInt8 :=
  printedBytes topic ++ ':'.toUInt8 :: printedBytes suffix

/-- `%.*s` prints the whole string. -/
structure Printable (s : String) : Prop where
  zero_not_mem : 0 ∉ s.toUTF8.toList
  size_lt : s.utf8ByteSize < 2 ^ 31

theorem Printable.printedBytes_eq {s : String} (h : Printable s) :
    printedBytes s = s.toUTF8.toList := by
  have hint : toInt s.utf8ByteSize = s.utf8ByteSize := by
    have := h.size_lt
    rw [toInt, BitVec.toInt_eq_toNat_of_lt, BitVec.toNat_ofNat, Nat.mod_eq_of_lt]
    · omega
    · rw [BitVec.toNat_ofNat]
      omega
  have hwhole : s.toUTF8.toList.takeWhile (· ≠ 0) = s.toUTF8.toList := by
    refine List.takeWhile_eq_self_iff.mpr fun b hb => decide_eq_true ?_
    rintro rfl
    exact h.zero_not_mem hb
  simp only [printedBytes]
  rw [hint, if_neg (by omega), hwhole, Int.toNat_natCast, ← String.length_toList_toUTF8,
    List.take_length]

/-- The last byte tells the kind of the event. -/
theorem getLast?_topicBytes (topic : String) (k : EventKind) :
    (topicBytes topic (eventSuffix k)).getLast? = (printedBytes (eventSuffix k)).getLast? := by
  have hne : printedBytes (eventSuffix k) ≠ [] := by
    cases k with
    | tick | depth | bookTicker => decide +kernel
  rw [topicBytes, List.getLast?_append_cons, List.getLast?_cons_of_ne_nil hne]

theorem eventKind_eq_of_topicBytes_eq {topic topic' : String} {k k' : EventKind}
    (h : topicBytes topic (eventSuffix k) = topicBytes topic' (eventSuffix k')) : k = k' := by
  have hlast := congrArg List.getLast? h
  rw [getLast?_topicBytes, getLast?_topicBytes] at hlast
  revert hlast
  cases k <;> cases k' <;> decide +kernel

theorem Printable.topicBytes_inj {topic topic' : String} (h : Printable topic)
    (h' : Printable topic') {k k' : EventKind}
    (heq : topicBytes topic (eventSuffix k) = topicBytes topic' (eventSuffix k')) :
    topic = topic' := by
  cases eventKind_eq_of_topicBytes_eq heq
  have hbytes := List.append_cancel_right heq
  rw [h.printedBytes_eq, h'.printedBytes_eq] at hbytes
  exact String.toList_toUTF8_inj hbytes

end PubWorker

/-! ## Calls of `Register` -/

namespace ChannelRegistry

/-- The registry after a call and what the call returns or throws. `Register` throws before it
changes anything. -/
def call (reg : ChannelRegistry) (info : ChannelInfo) : ChannelRegistry × Except String UInt32 :=
  match reg.register info with
  | .ok (reg', id) => (reg', .ok id)
  | .error e => (reg, .error e)

/-- The registry after some calls. -/
def after (infos : List ChannelInfo) : ChannelRegistry :=
  infos.foldl (fun reg info => (reg.call info).1) fun _ => none

theorem call_cases (reg : ChannelRegistry) (info : ChannelInfo) :
    (∃ old, reg info.channelId = some old ∧ old.SameChannel info ∧
      reg.call info = (reg, .ok info.channelId)) ∨
    (reg info.channelId = none ∧
      reg.call info = (Function.update reg info.channelId (some info.entry), .ok info.channelId)) ∨
    ∃ old e, reg info.channelId = some old ∧ ¬ old.SameChannel info ∧
      reg.call info = (reg, .error e) := by
  rcases reg.register_cases info with ⟨old, hold, hsame, h⟩ | ⟨hnone, h⟩ | ⟨old, e, hold, hne, h⟩
  · exact .inl ⟨old, hold, hsame, by rw [call, h]⟩
  · exact .inr (.inl ⟨hnone, by rw [call, h, ChannelInfo.entry]⟩)
  · exact .inr (.inr ⟨old, e, hold, hne, by rw [call, h]⟩)

theorem after_concat (infos : List ChannelInfo) (info : ChannelInfo) :
    after (infos ++ [info]) = ((after infos).call info).1 := by
  rw [after, List.foldl_append]
  rfl

theorem find?_concat_of_isSome {infos : List ChannelInfo} {info : ChannelInfo} {id : UInt32}
    (h : id = info.channelId → (infos.find? (·.channelId = id)).isSome = true) :
    (infos ++ [info]).find? (·.channelId = id) = infos.find? (·.channelId = id) := by
  rw [List.find?_append]
  rcases eq_or_ne id info.channelId with hid | hid
  · obtain ⟨first, hfirst⟩ := Option.isSome_iff_exists.mp (h hid)
    rw [hfirst, Option.some_or]
  · rw [List.find?_singleton, if_neg (by simpa using hid.symm), Option.or_none]

/-- The registry holds the first channel registered under each id. -/
theorem after_eq (infos : List ChannelInfo) (id : UInt32) :
    after infos id = (infos.find? (·.channelId = id)).map ChannelInfo.entry := by
  induction infos using List.reverseRecOn with
  | nil => rfl
  | append_singleton infos info ih =>
    have hkept (hsome : ∃ old, after infos info.channelId = some old) :
        after infos id = ((infos ++ [info]).find? (·.channelId = id)).map ChannelInfo.entry := by
      rw [find?_concat_of_isSome, ih]
      rintro rfl
      obtain ⟨old, hold⟩ := hsome
      rw [ih] at hold
      exact Option.isSome_map.symm.trans (Option.isSome_iff_exists.mpr ⟨old, hold⟩)
    rw [after_concat]
    rcases (after infos).call_cases info with ⟨old, hold, -, h⟩ | ⟨hnone, h⟩ | ⟨old, e, hold, -, h⟩
    · rw [h]
      exact hkept ⟨old, hold⟩
    · rw [h]
      rcases eq_or_ne id info.channelId with rfl | hid
      · rw [ih] at hnone
        rw [List.find?_append, Option.map_eq_none_iff.mp hnone, Option.none_or,
          List.find?_singleton, if_pos (decide_eq_true rfl)]
        exact Function.update_self ..
      · rw [find?_concat_of_isSome fun h => absurd h hid, ← ih]
        exact Function.update_of_ne hid ..
    · rw [h]
      exact hkept ⟨old, hold⟩

theorem after_eq_some {infos : List ChannelInfo} {id : UInt32} {a : ChannelInfo}
    (h : after infos id = some a) :
    a.id = id ∧ a.channelId = id ∧ a.topicPrefix = a.topic := by
  rw [after_eq] at h
  obtain ⟨info, hinfo, rfl⟩ := Option.map_eq_some_iff.mp h
  have hid : info.channelId = id := by simpa using List.find?_some hinfo
  exact ⟨hid, hid, rfl⟩

/-- What holds after any calls `infos`. -/
structure Sound (infos : List ChannelInfo) : Prop where
  lookup : ∀ id, after infos id = (infos.find? (·.channelId = id)).map ChannelInfo.entry
  returns : ∀ info id, ((after infos).call info).2 = .ok id → id = info.channelId
  throws_iff : ∀ info, (∃ e, ((after infos).call info).2 = .error e) ↔
    ∃ old, after infos info.channelId = some old ∧ ¬ old.SameChannel info
  unchanged : ∀ info, ((∃ e, ((after infos).call info).2 = .error e) ∨
    ∃ old ∈ infos, old.SameChannel info) → ((after infos).call info).1 = after infos
  topicPrefix_ne : ∀ id id' a b, after infos id = some a → after infos id' = some b →
    ¬ a.SameChannel b → a.topicPrefix ≠ b.topicPrefix
  /-- The topics of all kinds of events. -/
  topic_ne : ∀ id id' a b, after infos id = some a → after infos id' = some b →
    ¬ a.SameChannel b → PubWorker.Printable a.topicPrefix → PubWorker.Printable b.topicPrefix →
    ∀ k k', PubWorker.topicBytes a.topicPrefix (PubWorker.eventSuffix k) ≠
      PubWorker.topicBytes b.topicPrefix (PubWorker.eventSuffix k')

theorem topicPrefix_ne_of_after {infos : List ChannelInfo} {id id' : UInt32} {a b : ChannelInfo}
    (ha : after infos id = some a) (hb : after infos id' = some b) (hne : ¬ a.SameChannel b) :
    a.topicPrefix ≠ b.topicPrefix := by
  intro htopic
  obtain ⟨-, hida, htopica⟩ := after_eq_some ha
  obtain ⟨-, hidb, htopicb⟩ := after_eq_some hb
  rw [htopica, htopicb] at htopic
  -- one topic, one id, one entry
  have hid : id = id' := hida.symm.trans ((ChannelInfo.channelId_eq_of_topic_eq htopic).trans hidb)
  rw [hid, hb] at ha
  cases ha
  exact hne ⟨rfl, rfl, rfl⟩

theorem isSome_after_of_mem {infos : List ChannelInfo} {info : ChannelInfo} (h : info ∈ infos) :
    (after infos info.channelId).isSome = true := by
  rw [after_eq, Option.isSome_map, List.find?_isSome]
  exact ⟨info, h, decide_eq_true rfl⟩

/-- Soundness of the registry, for every sequence of calls. -/
theorem sound_after (infos : List ChannelInfo) : Sound infos where
  lookup := after_eq infos
  returns info id h := by
    rcases (after infos).call_cases info with ⟨_, _, _, hc⟩ | ⟨_, hc⟩ | ⟨_, _, _, _, hc⟩
    · rw [hc] at h; cases h; rfl
    · rw [hc] at h; cases h; rfl
    · rw [hc] at h; cases h
  throws_iff info := by
    rcases (after infos).call_cases info with ⟨old, hold, hsame, hc⟩ | ⟨hnone, hc⟩ |
      ⟨old, e, hold, hne, hc⟩
    · simp [hc, hold, hsame]
    · simp [hc, hnone]
    · exact iff_of_true ⟨e, by rw [hc]⟩ ⟨old, hold, hne⟩
  unchanged info h := by
    rcases (after infos).call_cases info with ⟨old, hold, hsame, hc⟩ | ⟨hnone, hc⟩ |
      ⟨old, e, hold, hne, hc⟩
    · rw [hc]
    · rcases h with ⟨e, he⟩ | ⟨old, hold, hsame⟩
      · rw [hc] at he
        cases he
      · have hsome := isSome_after_of_mem hold
        rw [hsame.channelId_eq, hnone] at hsome
        cases hsome
    · rw [hc]
  topicPrefix_ne _ _ _ _ := topicPrefix_ne_of_after
  topic_ne id id' a b ha hb hne hprint hprint' k k' heq :=
    topicPrefix_ne_of_after ha hb hne (hprint.topicBytes_inj hprint' heq)

/-- Two symbols that differ after a zero byte. -/
def zeroByteChannels : List ChannelInfo :=
  [{ exchange := "binance", symbol := "BTC\x00A" }, { exchange := "binance", symbol := "BTC\x00B" }]

theorem shared_topic :
    (zeroByteChannels.map fun info => (after zeroByteChannels info.channelId).map (·.symbol)) =
      [some "BTC\x00A", some "BTC\x00B"] ∧
    (zeroByteChannels.map fun info => PubWorker.topicBytes info.topic "tick") =
      List.replicate 2 "binance:spot:BTC:tick".toUTF8.toList ∧
    (zeroByteChannels.map fun info =>
      PubWorker.sendTyped (after zeroByteChannels) .tick info.channelId {}) = [.sent, .sent] := by
  decide +kernel

end ChannelRegistry

end Sqc
