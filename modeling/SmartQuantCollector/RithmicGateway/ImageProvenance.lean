import SmartQuantCollector.RithmicGateway.BatchCommit

/-! # Where the levels of the book come from

Every level the book shows was carried by some callback. An image replaces both sides, but it leaves
a batch that is being received as it is: what was buffered before the image is still written into
the book by the commit that follows. -/

namespace Sqc

open CountedArray Concurrency RithmicOrderBook

variable {P Q : Type} [LinearOrder P] [LinearOrder Q] [Zero Q]

namespace LimitOrderBookInfo

/-- The entries of a side that the callback reads. -/
def entries (sc : SizeCast Q) (maxDepthLevels : UInt32) (info : LimitOrderBookInfo P) :
    (isAsk : Bool) → List (Level P Q)
  | true => (List.range (count info.iAskArrayLen)).map fun i =>
    ⟨info.adAskPriceArray i, sc.cast (info.allAskSizeArray i)⟩
  | false => (List.range (count info.iBidArrayLen)).map fun i =>
    ⟨info.adBidPriceArray i, sc.cast (info.allBidSizeArray i)⟩
where
  count (len : Int32) : Nat :=
    if info.iType = kMdImageCb then len.toInt.toNat else updateCount maxDepthLevels len

end LimitOrderBookInfo

/-- A callback carries a level for a side. -/
def Callback.Carries (sc : SizeCast Q) (maxDepthLevels : UInt32) (isAsk : Bool) (l : Level P Q) :
    Callback P → Prop
  | .quote c => (isAsk, l) ∈ c.carried sc
  | .limitOrderBook info => l ∈ info.entries sc maxDepthLevels isAsk

/-- One of the callbacks carries the level. -/
def Carried (sc : SizeCast Q) (maxDepthLevels : UInt32) (cs : List (Callback P)) (isAsk : Bool)
    (l : Level P Q) : Prop :=
  ∃ c ∈ cs, c.Carries sc maxDepthLevels isAsk l

/-- The book of a gateway, callback by callback. -/
def Callback.machine [Zero P] (sc : SizeCast Q) (maxDepthLevels : UInt32) :
    Machine (RithmicOrderBook P Q) (Callback P) where
  init := .init
  step := callback sc maxDepthLevels

/-! ## One callback -/

namespace RithmicOrderBook

variable {S S' : Bool → List (Level P Q) → Prop} {T T' : Bool → Level P Q → Prop}
  {b : RithmicOrderBook P Q} {sc : SizeCast Q}

omit [LinearOrder P] [LinearOrder Q] [Zero Q] in
theorem Inv.mono (h : Inv S T b) (hS : ∀ {isAsk levels}, S isAsk levels → S' isAsk levels)
    (hT : ∀ {isAsk l}, T isAsk l → T' isAsk l) : Inv S' T' b :=
  ⟨h.count_le, h.pending_le, fun isAsk => hS (h.side isAsk),
    fun isAsk l hl => hT (h.pending isAsk l hl)⟩

omit [LinearOrder P] in
theorem Inv.bufferQuote (h : Inv S T b) {isAsk : Bool} {info : QuoteInfo P}
    (hT : ∀ l ∈ info.carried sc isAsk, T l.1 l.2) :
    ∃ b', b.bufferQuote sc isAsk info = some b' ∧ Inv S T b' := by
  unfold RithmicOrderBook.bufferQuote
  split
  next hflag =>
    rw [QuoteInfo.carried, if_pos hflag, List.forall_mem_singleton] at hT
    exact h.bufferLevel hT
  next => exact ⟨b, rfl, h⟩

theorem Inv.quote (hc : Closed S T) (h : Inv S T b) {isAsk : Bool} {info : QuoteInfo P}
    (hT : ∀ l ∈ info.carried sc isAsk, T l.1 l.2) :
    ∃ b', b.quote sc isAsk info = some b' ∧ Inv S T b' := by
  unfold RithmicOrderBook.quote
  split
  next => exact Traced.applyAll_carried sc b isAsk info ▸ h.applyAll hc hT
  next =>
    have hbegin : Inv S T (if b.batchActive then b.cancelBatch else b) := by
      split
      · exact h.dropPending false
      · exact h
    exact (hbegin.dropPending true).bufferQuote hT
  next =>
    have hactive : Inv S T (if !b.batchActive then b.beginBatch else b) := by
      split
      · exact h.dropPending true
      · exact h
    exact hactive.bufferQuote hT
  next =>
    obtain ⟨u, hu, hInv⟩ := h.bufferQuote hT
    rw [hu]
    exact hInv.commitBatch hc
  next => exact ⟨_, rfl, Inv.clear hc b⟩
  next => exact ⟨b, rfl, h⟩

theorem Inv.quoteCallback (hc : Closed S T) (h : Inv S T b) {c : QuoteCallback P}
    (hT : ∀ l ∈ c.carried sc, T l.1 l.2) :
    ∃ b', quoteCallback sc b c = some b' ∧ Inv S T b' := by
  cases c with
  | askQuote info => exact h.quote hc hT
  | bidQuote info => exact h.quote hc hT
  | endQuote =>
    simp only [RithmicOrderBook.quoteCallback, RithmicOrderBook.endQuote]
    split
    · exact h.commitBatch hc
    · exact ⟨b, rfl, h⟩

theorem Inv.updateLoop (hc : Closed S T) (h : Inv S T b) {prices : Nat → P} {sizes : Nat → Int64}
    {isAsk : Bool} {k i : Nat} (hT : ∀ j, j < i + k → T isAsk ⟨prices j, sc.cast (sizes j)⟩) :
    ∃ b', updateLoop sc prices sizes isAsk k i b = some b' ∧ Inv S T b' := by
  induction k generalizing i b with
  | zero => exact ⟨b, rfl, h⟩
  | succ k ih =>
    obtain ⟨u, hu, hInv⟩ := h.applyLevel hc (hT i (by omega))
    obtain ⟨b', hb', hInv'⟩ := ih hInv (i := i + 1) fun j hj => hT j (by omega)
    refine ⟨b', ?_, hInv'⟩
    rw [RithmicOrderBook.updateLoop, hu]
    exact hb'

theorem Inv.update (hc : Closed S T) (h : Inv S T b) {maxDepthLevels : UInt32}
    {info : LimitOrderBookInfo P} (himage : info.iType ≠ kMdImageCb)
    (hT : ∀ isAsk, ∀ l ∈ info.entries sc maxDepthLevels isAsk, T isAsk l) :
    ∃ b', limitOrderBook sc maxDepthLevels b info = some b' ∧ Inv S T b' := by
  have hcount (len : Int32) : LimitOrderBookInfo.entries.count maxDepthLevels info len =
      updateCount maxDepthLevels len := if_neg himage
  simp only [LimitOrderBookInfo.entries, hcount, Bool.forall_bool, List.forall_mem_map,
    List.mem_range] at hT
  obtain ⟨u, hu, hInv⟩ := h.updateLoop hc (i := 0)
    (k := updateCount maxDepthLevels info.iAskArrayLen) fun j hj => hT.2 j (by omega)
  obtain ⟨b', hb', hInv'⟩ := hInv.updateLoop hc (i := 0)
    (k := updateCount maxDepthLevels info.iBidArrayLen) fun j hj => hT.1 j (by omega)
  refine ⟨b', ?_, hInv'⟩
  rw [limitOrderBook, if_neg himage, hu]
  exact hb'

omit [LinearOrder P] in
theorem mem_of_mem_imageLevels {prices : Nat → P} {sizes : Nat → Int64} {k n : Nat}
    {l : Level P Q} (h : l ∈ (imageLevels sc prices sizes 0 k).take n) :
    l ∈ (List.range k).map fun i => (⟨prices i, sc.cast (sizes i)⟩ : Level P Q) := by
  obtain ⟨i, hi, rfl⟩ := List.mem_map.mp (List.mem_of_mem_take h)
  rw [← List.range_eq_range'] at hi
  exact List.mem_map.mpr ⟨i, (List.mem_filter.mp hi).1, rfl⟩

/-- An image replaces whatever the book held by levels of its own; the pending levels stay. -/
theorem Inv.image {maxDepthLevels : UInt32} {info : LimitOrderBookInfo P}
    (himage : info.iType = kMdImageCb) (h : Inv S' T b)
    (hS : ∀ isAsk levels, (∀ l ∈ levels, l ∈ info.entries sc maxDepthLevels isAsk) →
      S isAsk levels) :
    ∃ b', limitOrderBook sc maxDepthLevels b info = some b' ∧ Inv S T b' := by
  have hcount (len : Int32) : LimitOrderBookInfo.entries.count maxDepthLevels info len =
      len.toInt.toNat := if_pos himage
  obtain ⟨asks, hasks, hask_le, hask_list⟩ := applyImage_eq_some sc b info.adAskPriceArray
    info.allAskSizeArray info.iAskArrayLen.toInt true
  obtain ⟨bids, hbids, hbid_le, hbid_list⟩ := applyImage_eq_some sc (b.setSide asks true)
    info.adBidPriceArray info.allBidSizeArray info.iBidArrayLen.toInt false
  refine ⟨(b.setSide asks true).setSide bids false, ?_, ?_, ?_, ?_, ?_⟩
  · rw [limitOrderBook, if_pos himage, hasks]
    exact hbids
  · exact Bool.forall_bool.mpr ⟨hbid_le, hask_le⟩
  · exact fun isAsk => by rw [setSide_pending, setSide_pending]; exact h.pending_le isAsk
  · refine Bool.forall_bool.mpr ⟨hS false _ fun l hl => ?_, hS true _ fun l hl => ?_⟩
    · rw [LimitOrderBookInfo.entries, hcount]
      exact mem_of_mem_imageLevels (hbid_list ▸ hl)
    · rw [LimitOrderBookInfo.entries, hcount]
      exact mem_of_mem_imageLevels (hask_list ▸ hl)
  · exact fun isAsk => by rw [setSide_pending, setSide_pending]; exact h.pending isAsk

theorem Inv.callback (hc : Closed S T) (h : Inv S T b) {maxDepthLevels : UInt32}
    {c : Callback P} (hS : ∀ isAsk levels, (∀ l ∈ levels, T isAsk l) → S isAsk levels)
    (hT : ∀ isAsk l, c.Carries sc maxDepthLevels isAsk l → T isAsk l) :
    ∃ b', callback sc maxDepthLevels b c = some b' ∧ Inv S T b' := by
  cases c with
  | quote c => exact h.quoteCallback hc fun l hl => hT l.1 l.2 hl
  | limitOrderBook info =>
    by_cases himage : info.iType = kMdImageCb
    · exact Inv.image himage h fun isAsk levels hl =>
        hS isAsk levels fun l hm => hT isAsk l (hl l hm)
    · exact h.update hc himage fun isAsk l hl => hT isAsk l hl

end RithmicOrderBook

/-! ## Runs -/

namespace Callback

variable {sc : SizeCast Q} {maxDepthLevels : UInt32} {b b' : RithmicOrderBook P Q}
  {cs : List (Callback P)}

/-- The levels of the book were carried by callbacks of `since`, those that are pending by callbacks
of `recent`. -/
def Sourced (sc : SizeCast Q) (maxDepthLevels : UInt32) (since recent : List (Callback P)) :
    RithmicOrderBook P Q → Prop :=
  Inv (fun isAsk levels => ∀ l ∈ levels, Carried sc maxDepthLevels since isAsk l)
    (Carried sc maxDepthLevels recent)

omit [LinearOrder P] in
theorem Carried.mono {cs cs' : List (Callback P)} (h : cs ⊆ cs') {isAsk : Bool} {l : Level P Q} :
    Carried sc maxDepthLevels cs isAsk l → Carried sc maxDepthLevels cs' isAsk l
  | ⟨c, hc, hl⟩ => ⟨c, h hc, hl⟩

theorem carried_closed {since recent : List (Callback P)} (h : recent ⊆ since) :
    Closed (fun isAsk levels => ∀ l ∈ levels, Carried sc maxDepthLevels since isAsk l)
      (Carried sc maxDepthLevels recent) where
  nil _ := List.forall_mem_nil _
  updates hT hS hup := by
    have hnew := Carried.mono h hT
    cases hup with
    | replace _ _ | insert _ _ _ _ =>
      simp only [List.forall_mem_append, List.forall_mem_cons] at hS ⊢
      tauto
    | delete _ _ =>
      simp only [List.forall_mem_append, List.forall_mem_cons] at hS ⊢
      exact ⟨hS.1, hS.2.2⟩
    | ignore _ _ => exact hS

omit [LinearOrder P] [LinearOrder Q] [Zero Q] in
theorem append_subset_append {as bs : List (Callback P)} (h : as ⊆ bs) (cs : List (Callback P)) :
    as ++ cs ⊆ bs ++ cs :=
  List.append_subset.mpr ⟨List.Subset.trans h (List.subset_append_left _ _),
    List.subset_append_right _ _⟩

theorem Sourced.step {since recent : List (Callback P)} (hsub : recent ⊆ since)
    (h : Sourced sc maxDepthLevels since recent b) {c : Callback P}
    (hc : callback sc maxDepthLevels b c = some b') :
    Sourced sc maxDepthLevels (since ++ [c]) (recent ++ [c]) b' := by
  have hmono : Sourced sc maxDepthLevels (since ++ [c]) (recent ++ [c]) b :=
    h.mono (fun hS l hl => Carried.mono (List.subset_append_left _ _) (hS l hl))
      (Carried.mono (List.subset_append_left _ _))
  have hsub' := append_subset_append hsub [c]
  obtain ⟨u, hu, hInv⟩ := hmono.callback (carried_closed hsub')
    (fun _ _ hl l hm => Carried.mono hsub' (hl l hm)) fun _ _ hl => ⟨c, by simp, hl⟩
  cases hc.symm.trans hu
  exact hInv

theorem Sourced.exec [Zero P] {since recent : List (Callback P)} (hsub : recent ⊆ since)
    (h : Sourced sc maxDepthLevels since recent b)
    (hcs : (machine sc maxDepthLevels).exec b cs = some b') :
    Sourced sc maxDepthLevels (since ++ cs) (recent ++ cs) b' := by
  induction cs generalizing b since recent with
  | nil =>
    cases hcs
    rwa [List.append_nil, List.append_nil]
  | cons c cs ih =>
    obtain ⟨u, hu, hcs⟩ := (machine sc maxDepthLevels).exec_cons_iff.mp hcs
    have := ih (append_subset_append hsub [c]) (h.step hsub hu) hcs
    rwa [List.append_assoc, List.append_assoc] at this

theorem sourced_init [Zero P] :
    Sourced sc maxDepthLevels [] [] (RithmicOrderBook.init : RithmicOrderBook P Q) :=
  Inv.init (carried_closed (List.Subset.refl _))

/-- An image that is processed while no level is pending supersedes everything before it: what the
book shows from then on was carried by the image or by a later callback, and what a later commit
writes was buffered by a later callback. -/
theorem image_supersedes [Zero P] {before after : List (Callback P)}
    {image : LimitOrderBookInfo P} (himage : image.iType = kMdImageCb)
    (hb : (machine sc maxDepthLevels).exec (machine sc maxDepthLevels).init before = some b)
    (hpending : b.pendingBids.count = 0 ∧ b.pendingAsks.count = 0)
    (hb' : (machine sc maxDepthLevels).exec b (.limitOrderBook image :: after) = some b') :
    (∀ isAsk, ∀ l ∈ (b'.side isAsk).toList,
      Carried sc maxDepthLevels (.limitOrderBook image :: after) isAsk l) ∧
    ∀ isAsk, ∀ l ∈ (b'.pending isAsk).toList, Carried sc maxDepthLevels after isAsk l := by
  have hreach := Sourced.exec (List.Subset.refl _) sourced_init hb
  obtain ⟨u, hu, hafter⟩ := (machine sc maxDepthLevels).exec_cons_iff.mp hb'
  -- no level is pending, so the invariant holds with nothing recent
  have hnone : Inv (fun _ _ => True) (Carried sc maxDepthLevels []) b := by
    refine ⟨hreach.count_le, hreach.pending_le, fun _ => trivial, ?_⟩
    refine Bool.forall_bool.mpr ⟨?_, ?_⟩
    · simp [pending, toList, hpending.1]
    · simp [pending, toList, hpending.2]
  have himaged : ∃ v, RithmicOrderBook.limitOrderBook sc maxDepthLevels b image = some v ∧
      Sourced sc maxDepthLevels [.limitOrderBook image] [] v :=
    Inv.image himage hnone fun _ _ hl l hm => ⟨_, List.mem_singleton_self _, hl l hm⟩
  obtain ⟨v, hv, hsourced⟩ := himaged
  cases hu.symm.trans hv
  have hfinal := hsourced.exec (List.nil_subset _) hafter
  exact ⟨hfinal.side, by simpa using hfinal.pending⟩

/-- An image of one level a side. -/
def oneLevelImage : LimitOrderBookInfo Int where
  iType := 1
  adAskPriceArray _ := 11
  allAskSizeArray _ := 4
  iAskArrayLen := 1
  adBidPriceArray _ := 9
  allBidSizeArray _ := 7
  iBidArrayLen := 1

theorem oneLevelImage_supersedes :
    ((machine intCast 100).exec (machine intCast 100).init
      [.limitOrderBook oneLevelImage, .quote (.bidQuote ⟨1, true, 8, true, 2⟩)]).map
        (fun b => b.bids.toList) = some [⟨9, 7⟩, ⟨8, 2⟩] ∧
    ∀ b ∈ (machine intCast 100).exec (machine intCast 100).init
      [.limitOrderBook oneLevelImage, .quote (.bidQuote ⟨1, true, 8, true, 2⟩)],
      (∀ isAsk, ∀ l ∈ (b.side isAsk).toList, Carried intCast 100
        [.limitOrderBook oneLevelImage, .quote (.bidQuote ⟨1, true, 8, true, 2⟩)] isAsk l) ∧
      ∀ isAsk, ∀ l ∈ (b.pending isAsk).toList, Carried intCast 100
        [.quote (.bidQuote ⟨1, true, 8, true, 2⟩)] isAsk l :=
  ⟨by decide, fun _ hb => image_supersedes rfl ((machine intCast 100).exec_nil _) ⟨rfl, rfl⟩ hb⟩

/-- The bid 10 is buffered, the image arrives, and the `EndQuote` behind the image writes the bid
into the book. -/
theorem stale_level_after_image :
    ∃ b, (machine intCast 100).exec (machine intCast 100).init
        [.quote (.bidQuote ⟨2, true, 10, true, 5⟩), .limitOrderBook oneLevelImage,
          .quote .endQuote] = some b ∧
      ¬∀ isAsk, ∀ l ∈ (b.side isAsk).toList, Carried intCast 100
        [.limitOrderBook oneLevelImage, .quote .endQuote] isAsk l := by
  have hbids : ((machine intCast 100).exec (machine intCast 100).init
      [.quote (.bidQuote ⟨2, true, 10, true, 5⟩), .limitOrderBook oneLevelImage,
        .quote .endQuote]).map (fun b => b.bids.toList) = some [⟨10, 5⟩, ⟨9, 7⟩] := by decide
  obtain ⟨b, hb, hlist⟩ := Option.map_eq_some_iff.mp hbids
  refine ⟨b, hb, fun h => ?_⟩
  obtain ⟨c, hc, hl⟩ := h false ⟨10, 5⟩ (by simp [side, hlist])
  simp only [List.mem_cons, List.not_mem_nil, or_false] at hc
  rcases hc with rfl | rfl
  · revert hl
    simp only [Carries]
    decide
  · cases hl

end Callback
end Sqc
