import Mathlib.Algebra.Order.BigOperators.Group.List
import Mathlib.Algebra.Order.Ring.Nat
import SmartQuantCollector.Lib.KeyedStores
import SmartQuantCollector.Lib.Utf8
import SmartQuantCollector.Storage.Backend.DolphinDBBackend
import SmartQuantCollector.Storage.Backend.MmapOrderbook
import SmartQuantCollector.Storage.ChannelRegistry
import SmartQuantCollector.Storage.Engine.MmapTree

/-! # The channels of `MmapBackend`

Three engines for each registered channel, one for each kind of event. An event goes to the engine
of its kind and channel id, and is left out when there is none. Every file can be mapped. The
engines work on one file system; when their names are their own (`OwnNames`), the backend does what
a collection of engines with files of their own does (`insertAll_sim`), and the bytes of an event
that is stored are in a file of its engine at the end (`insertAll_spec`). -/

namespace Sqc
open MmapStorageEngine

namespace MmapBackend

/-- An engine with its names; the files in its state are those that it found last. -/
structure Engine where
  loc : Location
  state : MmapStorageEngine.State

structure State where
  tree : Tree
  /-- `tick_engines_`, `ob_engines_` and `bt_engines_`. -/
  engines : EventKind × UInt32 → Option Engine := fun _ => none
  /-- The events that were appended to one of the engines. -/
  log : List Item := []

/-- `OpenOrCreate` of a new engine, which is destroyed if there is one for the channel. -/
def openEngine (s : State) (outputPath : List UInt8) (kind : EventKind) (channelId : UInt32) :
    State :=
  let loc : Location := ⟨outputPath, kind⟩
  let (tree, e) := openIn s.tree loc
  if (s.engines (kind, channelId)).isSome then { s with tree := tree }
  else { s with
    tree := tree
    engines := Function.update s.engines (kind, channelId) (some ⟨loc, e⟩) }

/-- `output_path_` of the engines of a channel. -/
def channelPath (outputRoot : List UInt8) (entry : ChannelMeta) : List UInt8 :=
  ensureTrailingSlash (mmapDir outputRoot entry.exchange.toUTF8.toList
    entry.marketType.toUTF8.toList entry.symbol.toUTF8.toList)

def registerChannel (outputRoot : List UInt8) (s : State) (channelId : UInt32)
    (entry : ChannelMeta) : State :=
  let path := channelPath outputRoot entry
  let s := openEngine s path .tick channelId
  let s := openEngine s path .depth channelId
  openEngine s path .bookTicker channelId

/-- The default of the constructor of `MmapStorageEngine`. -/
def kMaxFileSize : Nat := 2 * 1024 * 1024 * 1024

def engineConfig (pageSize : Nat) : Config := ⟨kMaxFileSize, pageSize⟩

/-- The unspecified bytes of a `StorageTickEnvelope`. -/
structure Padding where
  pad : Vector UInt8 4
  tail : List UInt8
  length_tail_le : tail.length ≤ 56

/-- The `AppendRaw` calls of an insert. -/
def calls (padding : Padding) : Record → List (List UInt8)
  | .tick data => [tickEnvelopeBytes data 0 padding.pad padding.tail]
  | .orderbook event localTs => writeOrderbook event localTs
  | .bookTicker event => [bookTickerBytes event]

/-- The engine that an insert looks up. -/
def engineKey (x : Item) : EventKind × UInt32 := (x.record.kind, x.record.channelId)

variable (pageSize : Nat) (padding : Nat → Padding)

/-- The backend after an event was appended to its engine. -/
def State.appended (s : State) (x : Item) (tree : Tree) (e : Engine) : State :=
  ⟨tree, Function.update s.engines (engineKey x) (some e), s.log ++ [x]⟩

/-- `InsertTick`, `InsertOrderbook` and `InsertBookTicker`. -/
def insert (s : State) (x : Item) : Option State :=
  match s.engines (engineKey x) with
  | none => some s
  | some e =>
    (appendIn (engineConfig pageSize) e.loc s.tree e.state (calls (padding x.seq) x.record)).map
      fun (tree, state) => s.appended x tree ⟨e.loc, state⟩

/-- The bytes of an event are in a file of its engine. -/
def State.Stores (s : State) (x : Item) : Prop :=
  ∃ e, s.engines (engineKey x) = some e ∧ ∀ bytes ∈ calls (padding x.seq) x.record,
    ∃ n ≤ e.state.sequence, bytes <:+: (s.tree (e.loc.name n)).payload

/-! ## Engines with files of their own -/

/-- The engines, each with the files under its names. -/
def State.view (s : State) : KeyedStores.State (EventKind × UInt32) MmapStorageEngine.State Item :=
  ⟨fun key => (s.engines key).map fun e => e.state.on s.tree e.loc, s.log⟩

def appendItem (e : MmapStorageEngine.State) (x : Item) : Option MmapStorageEngine.State :=
  append (engineConfig pageSize) e (calls (padding x.seq) x.record)

/-- The bytes of an event are in the files of the engine. -/
def HasBytes (e : MmapStorageEngine.State) (x : Item) : Prop :=
  ∀ bytes ∈ calls (padding x.seq) x.record, Holds e bytes

theorem length_priceLevelsBytes_le (levels : Vector PriceLevel kMaxOrderbookLevels)
    (count : UInt32) : (priceLevelsBytes levels count).length ≤ 1600 := by
  rw [priceLevelsBytes, length_flatMap_priceLevelBytes, List.length_take, Vector.length_toList]
  exact Nat.mul_le_mul_left 16 (Nat.min_le_right ..)

theorem length_calls_le (padding : Padding) (r : Record) :
    ∀ bytes ∈ calls padding r, bytes.length ≤ 1600 := by
  cases r with
  | tick data =>
    refine List.forall_mem_singleton.mpr ?_
    have := padding.length_tail_le
    simp only [tickEnvelopeBytes, List.length_append, length_tickDataBytes,
      LittleEndian.length_encode]
    omega
  | bookTicker event =>
    refine List.forall_mem_singleton.mpr ?_
    rw [length_bookTickerBytes]
    decide
  | orderbook event localTs =>
    refine List.forall_mem_cons.mpr ⟨?_, List.forall_mem_append.mpr ⟨?_, ?_⟩⟩
    · rw [length_orderbookHeaderBytes]
      decide
    · exact Orderbook.forall_mem_optional fun _ => length_priceLevelsBytes_le ..
    · exact Orderbook.forall_mem_optional fun _ => length_priceLevelsBytes_le ..

variable {pageSize}

/-- Every append leaves the bytes of its event and keeps the others. -/
theorem appends (hpage : 0 < pageSize) :
    KeyedStores.Appends (appendItem pageSize padding) (Calling · []) (HasBytes padding) := by
  intro e x hcalling
  have hroom : ∀ bytes ∈ calls (padding x.seq) x.record, Room (engineConfig pageSize) bytes := by
    intro bytes hbytes
    refine ⟨?_, Config.maxFileSize_le_mmapSize hpage⟩
    have hle := length_calls_le _ _ bytes hbytes
    have hsize : kHeaderSize + 1600 < kMaxFileSize := by decide
    exact Nat.lt_of_le_of_lt (Nat.add_le_add_left hle _) hsize
  obtain ⟨t, ht, hrest, hgrown, hholds⟩ := append_spec hcalling hroom
  exact ⟨t, ht, hrest, hholds, fun y hy bytes hbytes => (hy bytes hbytes).grown hgrown⟩

/-! ## Engines in one file system -/

/-- The name of a file tells the engine and the sequence number. -/
def OwnNames (s : State) : Prop :=
  ∀ {key key' e e'}, s.engines key = some e → s.engines key' = some e' →
    ∀ m ≤ kMaxSequence, ∀ n ≤ kMaxSequence, e.loc.name m = e'.loc.name n → key = key' ∧ m = n

/-- The engines of `k` are those of `s` with files of their own. -/
structure Sim (s : State)
    (k : KeyedStores.State (EventKind × UInt32) MmapStorageEngine.State Item) : Prop where
  log : s.log = k.log
  absent : ∀ {key}, s.engines key = none → k.stores key = none
  present : ∀ {key e}, s.engines key = some e →
    ∃ v, k.stores key = some v ∧ Sees e.loc s.tree e.state v

theorem sim_view (s : State) : Sim s s.view := by
  refine ⟨rfl, fun h => ?_, fun {key e} h => ⟨e.state.on s.tree e.loc, ?_, rfl, fun _ _ => rfl⟩⟩
  · show (s.engines _).map _ = _
    rw [h, Option.map_none]
  · show (s.engines _).map _ = _
    rw [h, Option.map_some]

variable {s : State} {k k' : KeyedStores.State (EventKind × UInt32) MmapStorageEngine.State Item}
  {x : Item} {e : Engine} {tree : Tree} {state : MmapStorageEngine.State}

/-- The engines keep their names. -/
theorem OwnNames.appended (h : OwnNames s) (he : s.engines (engineKey x) = some e) :
    OwnNames (s.appended x tree ⟨e.loc, state⟩) := by
  have hloc : ∀ {key e'}, (s.appended x tree ⟨e.loc, state⟩).engines key = some e' →
      ∃ e'', s.engines key = some e'' ∧ e''.loc = e'.loc := by
    intro key e' hkey
    simp only [State.appended, Function.update_apply] at hkey
    split at hkey
    next heq =>
      cases hkey
      exact ⟨e, heq ▸ he, rfl⟩
    next => exact ⟨e', hkey, rfl⟩
  intro key key' e₁ e₂ hkey hkey'
  obtain ⟨_, h₁, hloc₁⟩ := hloc hkey
  obtain ⟨_, h₂, hloc₂⟩ := hloc hkey'
  rw [← hloc₁, ← hloc₂]
  exact h h₁ h₂

/-- The other engines do not see what an engine has written. -/
theorem Sim.appended {w : MmapStorageEngine.State} (h : Sim s k) (hown : OwnNames s)
    (he : s.engines (engineKey x) = some e) (hsees : Sees e.loc tree state w)
    (honly : OnlyAt e.loc s.tree tree) :
    Sim (s.appended x tree ⟨e.loc, state⟩)
      ⟨Function.update k.stores (engineKey x) (some w), k.log ++ [x]⟩ := by
  refine ⟨congrArg (· ++ [x]) h.log, fun {key} hkey => ?_, fun {key e'} hkey => ?_⟩
  · simp only [State.appended, Function.update_apply] at hkey ⊢
    split at hkey
    · cases hkey
    next hne => rw [if_neg hne, h.absent hkey]
  · simp only [State.appended, Function.update_apply] at hkey ⊢
    split at hkey
    next heq =>
      cases hkey
      exact ⟨w, if_pos heq, hsees⟩
    next hne =>
      obtain ⟨v, hv, hother⟩ := h.present hkey
      refine ⟨v, (if_neg hne).trans hv, hother.same, fun n hn => ?_⟩
      rw [honly _ fun m hm heq => hne (hown hkey he n hn m hm heq).1]
      exact hother.disk n hn

theorem insert_sim (hown : OwnNames s) (h : Sim s k)
    (hk : KeyedStores.insert engineKey (appendItem pageSize padding) k x = some k')
    (hle : ∀ key v, k'.stores key = some v → v.sequence ≤ kMaxSequence) :
    ∃ s', insert pageSize padding s x = some s' ∧ OwnNames s' ∧ Sim s' k' := by
  cases he : s.engines (engineKey x) with
  | none =>
    rw [KeyedStores.insert, h.absent he] at hk
    cases hk
    exact ⟨s, by rw [insert, he], hown, h⟩
  | some e =>
    obtain ⟨v, hv, hsees⟩ := h.present he
    rw [KeyedStores.insert, hv] at hk
    obtain ⟨w, hw, rfl⟩ := Option.map_eq_some_iff.mp hk
    have hwle : w.sequence ≤ kMaxSequence := hle (engineKey x) w (Function.update_self ..)
    obtain ⟨tree, state, happend, hsees', honly⟩ :=
      hsees.append (fun m hm n hn heq => (hown he he m hm n hn heq).2) hw hwle
    refine ⟨s.appended x tree ⟨e.loc, state⟩, ?_, hown.appended he, h.appended hown he hsees' honly⟩
    simp only [insert, he, happend, Option.map_some]

/-- More events than a run sees. -/
def kMaxEvents : Nat := 2 ^ 48

/-- An engine at rest that has written at most `n` events. -/
structure Written (n : Nat) (v : MmapStorageEngine.State) : Prop where
  calling : Calling v []
  filled_le : filled kMaxFileSize 1600 v ≤ 4800 * n

theorem Written.sequence_le {n : Nat} {v : MmapStorageEngine.State} (h : Written n v)
    (hn : n ≤ kMaxEvents) : v.sequence ≤ kMaxSequence := by
  have hfilled := h.filled_le
  have hpart : v.sequence * (kMaxFileSize - kHeaderSize - 1600) ≤
      filled kMaxFileSize 1600 v := Nat.le_trans (Nat.le_add_right ..) (Nat.le_add_right ..)
  have hfile : kMaxFileSize - kHeaderSize - 1600 = 2147481984 := by decide
  have hevents : kMaxEvents = 281474976710656 := by decide
  have hmax : kMaxSequence = 2147483647 := rfl
  rw [hfile] at hpart
  omega

theorem sum_length_calls_le (padding : Padding) (r : Record) :
    ((calls padding r).map List.length).sum ≤ 4800 := by
  have hcount : (calls padding r).length ≤ 3 := by
    cases r with
    | tick | bookTicker => exact Nat.le_add_left 1 2
    | orderbook event localTs =>
      simp only [calls, writeOrderbook, List.length_cons, List.length_append]
      split <;> split <;> simp
  have hsum := List.sum_le_card_nsmul ((calls padding r).map List.length) 1600 fun n hn => by
    obtain ⟨bytes, hbytes, rfl⟩ := List.mem_map.mp hn
    exact length_calls_le padding r bytes hbytes
  rw [List.length_map] at hsum
  exact hsum.trans (Nat.mul_le_mul_right 1600 hcount)

theorem Written.append (hpage : 0 < pageSize) {n : Nat} {v w : MmapStorageEngine.State}
    (h : Written n v) (hw : appendItem pageSize padding v x = some w) : Written (n + 1) w := by
  obtain ⟨w', hw', hcalling, -⟩ := appends padding hpage v x h.calling
  obtain rfl : w' = w := Option.some.inj (hw'.symm.trans hw)
  have hfilled : filled kMaxFileSize 1600 w' ≤ filled kMaxFileSize 1600 v + _ :=
    @filled_append_le (engineConfig pageSize) _ _ _ _ hw (length_calls_le _ _)
  have hsum := sum_length_calls_le (padding x.seq) x.record
  have hwas := h.filled_le
  exact ⟨hcalling, by omega⟩

/-- The backend stores the events as engines with files of their own do. -/
theorem insertAll_sim (hpage : 0 < pageSize) {n : Nat} {events : List Item} (hown : OwnNames s)
    (h : Sim s k) (hwritten : ∀ key v, k.stores key = some v → Written n v)
    (hn : n + events.length ≤ kMaxEvents)
    (hk : KeyedStores.insertAll engineKey (appendItem pageSize padding) k events = some k') :
    ∃ s', events.foldlM (insert pageSize padding) s = some s' ∧ Sim s' k' ∧
      ∀ key v, k'.stores key = some v → v.sequence ≤ kMaxSequence := by
  induction events generalizing s k n with
  | nil =>
    cases hk
    exact ⟨s, rfl, h, fun key v hv => (hwritten key v hv).sequence_le hn⟩
  | cons x events ih =>
    rw [List.length_cons] at hn
    rw [KeyedStores.insertAll, List.foldlM_cons] at hk
    obtain ⟨k₁, hk₁, hk⟩ := Option.bind_eq_some_iff.mp hk
    have hwritten₁ : ∀ key v, k₁.stores key = some v → Written (n + 1) v := by
      have hmono {v} (hv : Written n v) : Written (n + 1) v :=
        ⟨hv.calling, hv.filled_le.trans (Nat.mul_le_mul_left _ (Nat.le_succ n))⟩
      rw [KeyedStores.insert] at hk₁
      split at hk₁
      next =>
        cases hk₁
        exact fun key v hv => hmono (hwritten key v hv)
      next v hv =>
        obtain ⟨w, hw, rfl⟩ := Option.map_eq_some_iff.mp hk₁
        exact KeyedStores.forall_update (fun key v hv => hmono (hwritten key v hv))
          ((hwritten _ v hv).append padding hpage hw)
    obtain ⟨s₁, hs₁, hown₁, hsim₁⟩ := insert_sim padding hown h hk₁
      fun key v hv => (hwritten₁ key v hv).sequence_le (by omega)
    obtain ⟨s', hs', hsim, hle⟩ := ih hown₁ hsim₁ hwritten₁ (by omega) hk
    refine ⟨s', ?_, hsim, hle⟩
    rw [List.foldlM_cons, hs₁]
    exact hs'

theorem Sim.stores (h : Sim s k) {v : MmapStorageEngine.State}
    (hv : k.stores (engineKey x) = some v) (hle : v.sequence ≤ kMaxSequence)
    (hbytes : HasBytes padding v x) : s.Stores padding x := by
  cases he : s.engines (engineKey x) with
  | none => cases (h.absent he).symm.trans hv
  | some e =>
    obtain ⟨v', hv', hsees⟩ := h.present he
    obtain rfl := Option.some.inj (hv'.symm.trans hv)
    refine ⟨e, he, fun bytes hmem => ?_⟩
    obtain ⟨n, hn, hinfix⟩ := hbytes bytes hmem
    refine ⟨n, ?_, ?_⟩
    · rw [hsees.same]
      exact hn
    · rw [hsees.disk n (hn.trans hle)]
      exact hinfix

/-! ## Registration -/

variable {outputPath : List UInt8} {kind : EventKind} {channelId : UInt32}

theorem isSome_openEngine (s : State) (outputPath : List UInt8) (kind : EventKind)
    (channelId : UInt32) (key : EventKind × UInt32) :
    ((openEngine s outputPath kind channelId).engines key).isSome = true ↔
      key = (kind, channelId) ∨ (s.engines key).isSome = true := by
  unfold openEngine
  split
  next h =>
    refine ⟨.inr, fun hor => ?_⟩
    rcases hor with rfl | hkey
    · exact h
    · exact hkey
  next => exact KeyedStores.isSome_update ..

theorem forall_openEngine {P : EventKind × UInt32 → Engine → Prop}
    (h : ∀ key e, s.engines key = some e → P key e)
    (hnew : P (kind, channelId)
      ⟨⟨outputPath, kind⟩, opened (files s.tree outputPath kind)⟩) :
    ∀ key e, (openEngine s outputPath kind channelId).engines key = some e → P key e := by
  intro key e hkey
  unfold openEngine at hkey
  split at hkey
  next => exact h key e hkey
  next =>
    simp only [Function.update_apply] at hkey
    split at hkey
    next heq =>
      cases hkey
      exact heq ▸ hnew
    next => exact h key e hkey

/-- An engine to which nothing was appended. -/
structure Opened (tree : Tree) (e : Engine) : Prop where
  state : ∃ disk, e.state = opened disk
  writeOffset : (tree (e.loc.name 0)).writeOffset = kHeaderSize

/-- The header of a file that is opened once more is reset to what it is. -/
theorem forall_opened_openEngine (h : ∀ key e, s.engines key = some e → Opened s.tree e) :
    ∀ key e, (openEngine s outputPath kind channelId).engines key = some e →
      Opened (openEngine s outputPath kind channelId).tree e := by
  have htree : (openEngine s outputPath kind channelId).tree =
      (openIn s.tree ⟨outputPath, kind⟩).1 := by
    unfold openEngine
    split <;> rfl
  have hheader (name : List UInt8) (hname : (s.tree name).writeOffset = kHeaderSize ∨
      name = Location.name ⟨outputPath, kind⟩ 0) :
      ((openIn s.tree ⟨outputPath, kind⟩).1 name).writeOffset = kHeaderSize := by
    show (Function.update s.tree (Location.name ⟨outputPath, kind⟩ 0) _ name).writeOffset = _
    rw [Function.update_apply]
    split
    next => exact writeOffset_opened _
    next hne => exact hname.resolve_right hne
  rw [htree]
  refine forall_openEngine (P := fun _ e => Opened (openIn s.tree ⟨outputPath, kind⟩).1 e)
    (fun key e he => ⟨(h key e he).state, hheader _ (.inl (h key e he).writeOffset)⟩)
    ⟨⟨_, rfl⟩, hheader _ (.inr rfl)⟩

theorem Opened.written (h : Opened tree e) : Written 0 (e.state.on tree e.loc) := by
  obtain ⟨disk, hstate⟩ := h.state
  rw [hstate]
  refine ⟨⟨⟨nofun, fun _ _ => ⟨h.writeOffset, Nat.le_refl _⟩, nofun⟩, rfl, rfl, rfl⟩, ?_⟩
  show 0 * (kMaxFileSize - kHeaderSize - 1600) + (kHeaderSize - kHeaderSize) + 0 ≤ 0
  rw [Nat.zero_mul, Nat.sub_self]

end MmapBackend
end Sqc
