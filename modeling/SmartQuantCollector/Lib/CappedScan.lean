import Mathlib.Data.List.Basic

/-! # A scan that stops at a number of entries

`scan` reads the items of a list one by one and keeps what it reads, until it has `max` entries. An
item can be skipped, and reading it can fail, which fails the scan. `scan_tagged_iff` says when the
scan keeps just the first items that have a value of a given kind: when it reads every item as
expected that it comes to. The entries are compared together with the items they were read from
(`tagged`), since two items may have one value. -/

namespace CappedScan

variable {α β : Type*}

/-- `none` when reading an item fails. An item read as `some none` is skipped. -/
def scan (read : α → Option (Option β)) (max : Nat) : List α → List β → Option (List β)
  | [], out => some out
  | a :: as, out =>
    if max ≤ out.length then some out
    else
      match read a with
      | none => none
      | some none => scan read max as out
      | some (some b) => scan read max as (out ++ [b])

/-- Every entry with the item it was read from. -/
def tagged (read : α → Option (Option β)) (a : α) : Option (Option (α × β)) :=
  (read a).map (·.map (Prod.mk a))

/-- The first items that have a value, with it. -/
def firsts (want : α → Option β) (max : Nat) (as : List α) : List (α × β) :=
  (as.filterMap fun a => (want a).map (Prod.mk a)).take max

/-- Every item that fewer than `max` items with a value precede satisfies `P`. -/
def UpTo (want : α → Option β) (max : Nat) (P : α → Prop) (as : List α) : Prop :=
  ∀ before a after, as = before ++ a :: after → (before.filterMap want).length < max → P a

variable {read : α → Option (Option β)} {want : α → Option β} {max : Nat}

/-- Without the items it is the scan itself. -/
theorem map_scan_tagged (as : List α) (out : List (α × β)) :
    (scan (tagged read) max as out).map (List.map Prod.snd) =
      scan read max as (out.map Prod.snd) := by
  induction as generalizing out with
  | nil => rfl
  | cons a as ih =>
    rw [scan, scan, List.length_map]
    split
    · rfl
    · unfold tagged
      cases read a with
      | none => rfl
      | some entry =>
        cases entry with
        | none => exact ih out
        | some b =>
          refine (ih (out ++ [(a, b)])).trans ?_
          rw [List.map_append]
          rfl

theorem map_snd_firsts (want : α → Option β) (max : Nat) (as : List α) :
    (firsts want max as).map Prod.snd = (as.filterMap want).take max := by
  have hsnd : ∀ a, ((want a).map (Prod.mk a)).map Prod.snd = want a := by
    intro a
    cases want a <;> rfl
  rw [firsts, List.map_take, List.map_filterMap]
  simp only [hsnd]

theorem firsts_cons_none {a : α} (h : want a = none) (max : Nat) (as : List α) :
    firsts want max (a :: as) = firsts want max as := by
  rw [firsts, List.filterMap_cons_none (by rw [h]; rfl), firsts]

theorem firsts_cons_some {a : α} {b : β} (h : want a = some b) (max : Nat) (as : List α) :
    firsts want (max + 1) (a :: as) = (a, b) :: firsts want max as := by
  rw [firsts, List.filterMap_cons_some (by rw [h]; rfl), List.take_succ_cons, firsts]

theorem want_of_mem_firsts {as : List α} {x : α × β} (h : x ∈ firsts want max as) :
    want x.1 = some x.2 := by
  obtain ⟨a, -, ha⟩ := List.mem_filterMap.mp (List.mem_of_mem_take h)
  obtain ⟨b, hb, rfl⟩ := Option.map_eq_some_iff.mp ha
  exact hb

/-- The rule of invariants: what every stored entry keeps holds of the output. -/
theorem scan_invariant {I : List β → Prop}
    (hstep : ∀ {a b out}, I out → read a = some (some b) → I (out ++ [b]))
    {as : List α} {out l : List β} (hI : I out) (h : scan read max as out = some l) : I l := by
  induction as generalizing out with
  | nil =>
    cases h
    exact hI
  | cons a as ih =>
    rw [scan] at h
    split at h
    · cases h
      exact hI
    · cases hread : read a with
      | none =>
        rw [hread] at h
        cases h
      | some entry =>
        rw [hread] at h
        cases entry with
        | none => exact ih hI h
        | some b => exact ih (hstep hI hread) h

/-- What is in the output stays there. -/
theorem prefix_scan {as : List α} {out l : List β} (h : scan read max as out = some l) :
    out <+: l :=
  scan_invariant (fun hout _ => hout.trans (List.prefix_append ..)) List.prefix_rfl h

theorem tagged_eq_some {a : α} {x : α × β} (h : tagged read a = some (some x)) :
    x.1 = a ∧ read a = some (some x.2) := by
  obtain ⟨entry, hread, hentry⟩ := Option.map_eq_some_iff.mp h
  obtain ⟨b, rfl, rfl⟩ := Option.map_eq_some_iff.mp hentry
  exact ⟨rfl, hread⟩

/-- Entries of the output and the items they were read from. -/
def ReadFrom (read : α → Option (Option β)) (out : List (α × β)) : Prop :=
  ∀ x ∈ out, read x.1 = some (some x.2)

theorem ReadFrom.concat {out : List (α × β)} (h : ReadFrom read out) {x : α × β}
    (hread : read x.1 = some (some x.2)) : ReadFrom read (out ++ [x]) := by
  intro y hy
  rcases List.mem_append.mp hy with hy | hy
  · exact h y hy
  · rw [List.mem_singleton.mp hy]
    exact hread

theorem ReadFrom.scan {as : List α} {out l : List (α × β)} (hout : ReadFrom read out)
    (h : CappedScan.scan (tagged read) max as out = some l) : ReadFrom read l := by
  refine scan_invariant (fun hout htagged => ?_) hout h
  obtain ⟨rfl, hread⟩ := tagged_eq_some htagged
  exact hout.concat hread

/-! ## When the scan keeps what it should -/

theorem upTo_zero (want : α → Option β) (P : α → Prop) (as : List α) : UpTo want 0 P as :=
  fun _ _ _ _ hlt => absurd hlt (Nat.not_lt_zero _)

theorem upTo_of_forall {P : α → Prop} {as : List α} (h : ∀ a ∈ as, P a) : UpTo want max P as := by
  rintro before a after rfl -
  exact h a (List.mem_append_right before List.mem_cons_self)

theorem upTo_cons {P : α → Prop} {a : α} {as : List α} :
    UpTo want (max + 1) P (a :: as) ↔ P a ∧ ∀ before x after, as = before ++ x :: after →
      ((a :: before).filterMap want).length < max + 1 → P x := by
  constructor
  · intro h
    refine ⟨h [] a as rfl (Nat.zero_lt_succ _), fun before x after has hlt => ?_⟩
    exact h (a :: before) x after (by rw [has]; rfl) hlt
  · rintro ⟨ha, h⟩ before x after has hlt
    cases before with
    | nil =>
      cases has
      exact ha
    | cons y before =>
      cases has
      exact h before x after rfl hlt

theorem upTo_cons_none {P : α → Prop} {a : α} {as : List α} (h : want a = none) :
    UpTo want (max + 1) P (a :: as) ↔ P a ∧ UpTo want (max + 1) P as := by
  rw [upTo_cons]
  simp only [List.filterMap_cons_none h]
  rfl

theorem upTo_cons_some {P : α → Prop} {a : α} {as : List α} {b : β} (h : want a = some b) :
    UpTo want (max + 1) P (a :: as) ↔ P a ∧ UpTo want max P as := by
  rw [upTo_cons]
  simp only [List.filterMap_cons_some h, List.length_cons, Nat.add_lt_add_iff_right]
  rfl

theorem UpTo.congr {P Q : α → Prop} (h : ∀ a, P a ↔ Q a) {as : List α} :
    UpTo want max P as ↔ UpTo want max Q as := by
  rw [funext fun a => propext (h a)]

/-- The scan in progress: `out` is read, and there is room for `room` more entries. -/
theorem scan_tagged_room {as : List α} {out : List (α × β)} {room : Nat}
    (hout : ReadFrom read out) (hroom : out.length + room = max) :
    scan (tagged read) max as out = some (out ++ firsts want room as) ↔
      UpTo want room (fun a => read a = some (want a)) as := by
  induction as generalizing out room with
  | nil =>
    refine iff_of_true ?_ fun before a after h => ?_
    · rw [scan, firsts, List.filterMap_nil, List.take_nil, List.append_nil]
    · cases before <;> cases h
  | cons a as ih =>
    cases room with
    | zero =>
      refine iff_of_true ?_ (upTo_zero want _ _)
      have hfull : max ≤ out.length := by omega
      rw [scan, if_pos hfull, firsts, List.take_zero, List.append_nil]
    | succ room =>
      rw [scan, if_neg (by omega)]
      unfold tagged
      cases hread : read a with
      | none =>
        refine iff_of_false (fun h => by cases h) fun h => ?_
        cases hread.symm.trans (h [] a as rfl (Nat.zero_lt_succ _))
      | some entry =>
        cases entry with
        | none =>
          show scan (tagged read) max as out = _ ↔ _
          cases hwant : want a with
          | none =>
            rw [firsts_cons_none hwant, upTo_cons_none hwant, ih hout hroom, hread, hwant]
            exact (and_iff_right rfl).symm
          | some b =>
            -- the item should be kept and is skipped
            rw [firsts_cons_some hwant, upTo_cons_some hwant, hread, hwant]
            refine iff_of_false (fun h => ?_) fun h => by cases h.1
            have hmem : read a = some (some b) :=
              hout.scan h (a, b) (List.mem_append_right _ List.mem_cons_self)
            cases hread.symm.trans hmem
        | some b =>
          have hnext := @ih (out ++ [(a, b)]) room (ReadFrom.concat hout hread)
            (by rw [List.length_append, List.length_singleton]; omega)
          show scan (tagged read) max as (out ++ [(a, b)]) = _ ↔ _
          cases hwant : want a with
          | none =>
            -- the item should be skipped and is kept
            rw [firsts_cons_none hwant, upTo_cons_none hwant, hread, hwant]
            refine iff_of_false (fun h => ?_) fun h => by cases h.1
            obtain ⟨l, hl⟩ := prefix_scan h
            rw [List.append_assoc] at hl
            have hmem : (a, b) ∈ firsts want (room + 1) as := by
              rw [← List.append_cancel_left hl]
              exact List.mem_cons_self
            cases hwant.symm.trans (want_of_mem_firsts hmem)
          | some b' =>
            rw [firsts_cons_some hwant, upTo_cons_some hwant, hread, hwant]
            constructor
            · intro h
              obtain ⟨l, hl⟩ := prefix_scan h
              rw [List.append_assoc] at hl
              cases (List.cons.inj (List.append_cancel_left hl)).1
              refine ⟨rfl, hnext.mp ?_⟩
              rw [h, List.append_assoc]
              rfl
            · rintro ⟨heq, h⟩
              cases heq
              rw [hnext.mpr h, List.append_assoc]
              rfl

/-- The scan keeps just the first items that have a value if and only if it reads as expected every
item that it comes to. -/
theorem scan_tagged_iff (as : List α) :
    scan (tagged read) max as [] = some (firsts want max as) ↔
      UpTo want max (fun a => read a = some (want a)) as := by
  have hnil : ReadFrom read ([] : List (α × β)) := by
    intro x hx
    cases hx
  exact scan_tagged_room hnil (Nat.zero_add max)

end CappedScan
