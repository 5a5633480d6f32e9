import Mathlib.Data.List.TakeWhile
import SmartQuantCollector.Common.MarketEvent
import SmartQuantCollector.Storage.Engine.CsvDate
import SmartQuantCollector.Storage.Engine.MmapEngine

/-! # The names of the mmap files

`MakeFileName` formats into a buffer of 128 characters and returns what fits, its warning apart. The
files of the engines of a directory have names of their own just in case the path leaves room for
the digits of every sequence number (`names_distinct_iff`); the extension may be cut off. Then the
engines can be modelled by files that belong to an engine and a sequence number (`FilesApart`). -/

namespace Sqc.MmapStorageEngine

/-! ## Paths (`src/common/path_util.h`) -/

/-- The bytes of a text in ASCII. -/
def ascii (text : List Char) : List UInt8 := text.map Char.toUInt8

def kSlash : UInt8 := '/'.toUInt8

def ensureTrailingSlash (path : List UInt8) : List UInt8 :=
  if path.isEmpty then [kSlash] else if path.getLast? ≠ some kSlash then path ++ [kSlash] else path

def joinPath (head tail : List UInt8) : List UInt8 :=
  (if !head.isEmpty && head.getLast? ≠ some kSlash then head ++ [kSlash] else head) ++ tail

/-- The directory that `RegisterChannel` opens the engines of a channel in. -/
def mmapDir (outputRoot exchange marketType symbol : List UInt8) : List UInt8 :=
  let key := exchange ++ kSlash :: (marketType ++ kSlash :: symbol)
  joinPath (ensureTrailingSlash outputRoot) (key ++ [kSlash])

/-! ## `MakeFileName` -/

/-- A string up to its first terminator, as `%s` prints it. -/
def cStr (s : List UInt8) : List UInt8 := s.takeWhile (· ≠ 0)

/-- What `snprintf` leaves in a buffer: the last character is for the terminator. -/
def snprintf (size : Nat) (text : List UInt8) : List UInt8 := text.take (size - 1)

def filePrefix : EventKind → List Char
  | .tick => "tick".toList
  | .depth => "ob".toList
  | .bookTicker => "bt".toList

/-- `%s_%04d.bin`. -/
def baseName (kind : EventKind) (sequence : Nat) : List Char :=
  filePrefix kind ++ '_' :: (padded 4 sequence ++ ".bin".toList)

def makeFileName (outputPath : List UInt8) (kind : EventKind) (sequence : Nat) : List UInt8 :=
  snprintf 128 (cStr outputPath ++ ascii (baseName kind sequence))

/-- `INT_MAX`. -/
def kMaxSequence : Nat := 2147483647

/-- No two files of the directory have one name. -/
def NamesDistinct (outputPath : List UInt8) : Prop :=
  ∀ (p q : EventKind) (i j : Nat), i ≤ kMaxSequence → j ≤ kMaxSequence →
    makeFileName outputPath p i = makeFileName outputPath q j → p = q ∧ i = j

/-- The files of an engine in a directory, by sequence number. -/
def files (directory : List UInt8 → File) (outputPath : List UInt8) (kind : EventKind)
    (sequence : Nat) : File :=
  directory (makeFileName outputPath kind sequence)

/-- What is written to one file, a reset of its header included, leaves the other ones. -/
def FilesApart (outputPath : List UInt8) : Prop :=
  ∀ (directory : List UInt8 → File) (f : File) (p q : EventKind) (i j : Nat),
    i ≤ kMaxSequence → j ≤ kMaxSequence → (p, i) ≠ (q, j) →
      files (Function.update directory (makeFileName outputPath p i) f) outputPath q j =
        files directory outputPath q j

/-- The longest path that leaves room for all digits of every sequence number. -/
def kMaxPath : Nat := 112

/-! ## Digits -/

variable {outputPath : List UInt8} {kind : EventKind} {i j : Nat}

theorem isDigit_of_mem_padded {width n : Nat} {c : Char} (h : c ∈ padded width n) :
    c.isDigit = true := by
  rw [padded, List.leftpad, List.mem_append] at h
  rcases h with h | h
  · rw [List.eq_of_mem_replicate h]
    rfl
  · exact Nat.isDigit_of_mem_toDigits (by decide) (by decide) h

theorem length_padded_le {width n k : Nat} (hwidth : width ≤ k) (hk : 0 < k) (hn : n < 10 ^ k) :
    (padded width n).length ≤ k := by
  have hdigits := (Nat.length_toDigits_le_iff (b := 10) (by decide) hk).mpr hn
  rw [padded, List.leftpad, List.length_append, List.length_replicate]
  omega

/-- Digits before the extension, or before the part of it that fits. -/
theorem padded_take_inj {width r s : Nat}
    (h : padded width i ++ ".bin".toList.take r = padded width j ++ ".bin".toList.take s) :
    i = j := by
  have hdigits : ∀ n r,
      (padded width n ++ ".bin".toList.take r).takeWhile Char.isDigit = padded width n := by
    intro n r
    rw [List.takeWhile_append_of_pos fun c hc => isDigit_of_mem_padded hc]
    cases r with
    | zero => exact List.append_nil _
    | succ r => exact List.append_nil _
  refine @padded_inj width i j ?_
  rw [← hdigits i r, h, hdigits j s]

/-! ## Names that fit -/

theorem ascii_inj {s t : List Char} (hs : ∀ c ∈ s, c.toNat < 128) (ht : ∀ c ∈ t, c.toNat < 128)
    (h : ascii s = ascii t) : s = t := by
  have hback : ∀ l : List Char, (∀ c ∈ l, c.toNat < 128) →
      (ascii l).map (fun b => Char.ofNat b.toNat) = l := by
    intro l hl
    rw [ascii, List.map_map]
    refine (List.map_congr_left fun c hc => ?_).trans (List.map_id l)
    have hlt : c.toNat < 256 := Nat.lt_trans (hl c hc) (by decide)
    show Char.ofNat (c.toNat % 256) = c
    rw [Nat.mod_eq_of_lt hlt, Char.ofNat_toNat]
  rw [← hback s hs, h, hback t ht]

theorem lt_of_mem_baseName {c : Char} (h : c ∈ baseName kind i) : c.toNat < 128 := by
  simp only [baseName, List.mem_append, List.mem_cons] at h
  rcases h with h | rfl | h | h
  · have hall : (filePrefix kind).all (·.toNat < 128) = true := by cases kind <;> decide
    exact of_decide_eq_true (List.all_eq_true.mp hall c h)
  · decide
  · have hdigit := isDigit_of_mem_padded h
    rw [Char.isDigit, Bool.and_eq_true, decide_eq_true_eq, decide_eq_true_eq] at hdigit
    exact Nat.lt_of_le_of_lt (UInt32.le_iff_toNat_le.mp hdigit.2) (by decide)
  · have hall : ".bin".toList.all (·.toNat < 128) = true := by decide
    exact of_decide_eq_true (List.all_eq_true.mp hall c h)

theorem makeFileName_eq (h : (cStr outputPath).length ≤ 127) :
    makeFileName outputPath kind i =
      cStr outputPath ++ ascii ((baseName kind i).take (127 - (cStr outputPath).length)) := by
  rw [makeFileName, snprintf, List.take_append, List.take_of_length_le h, ascii, ascii,
    List.map_take]

/-- The prefixes differ in their first character, and what follows one is read back digit by
digit. -/
theorem take_baseName_inj {p q : EventKind} {m : Nat} (hm : 15 ≤ m) (hi : i ≤ kMaxSequence)
    (hj : j ≤ kMaxSequence) (h : (baseName p i).take m = (baseName q j).take m) :
    p = q ∧ i = j := by
  have hkind : p = q := by
    have hhead : ∀ p i, ((baseName p i).take m).head? = (filePrefix p).head? := by
      intro p i
      obtain ⟨m, rfl⟩ := Nat.exists_eq_add_of_le' (Nat.le_trans (by decide : 1 ≤ 15) hm)
      cases p <;> rfl
    have hsame := congrArg List.head? h
    rw [hhead, hhead] at hsame
    revert hsame
    cases p <;> cases q <;> decide
  subst hkind
  refine ⟨rfl, ?_⟩
  obtain ⟨stem, hstem⟩ : ∃ stem, stem = filePrefix p ++ ['_'] := ⟨_, rfl⟩
  have hlength : stem.length ≤ 5 := by
    rw [hstem]
    cases p <;> decide
  have hsplit : ∀ n ≤ kMaxSequence, ∃ r, (baseName p n).take m =
      stem ++ (padded 4 n ++ ".bin".toList.take r) := by
    intro n hn
    have hdigits : (padded 4 n).length ≤ 10 :=
      length_padded_le (by decide) (by decide) (Nat.lt_of_le_of_lt hn (by decide))
    refine ⟨m - stem.length - (padded 4 n).length, ?_⟩
    rw [baseName, List.append_cons, ← hstem, List.take_append, List.take_append,
      List.take_of_length_le (by omega), List.take_of_length_le (by omega)]
  obtain ⟨r, hr⟩ := hsplit i hi
  obtain ⟨s, hs⟩ := hsplit j hj
  rw [hr, hs] at h
  exact padded_take_inj (List.append_cancel_left h)

theorem namesDistinct_of_le (h : (cStr outputPath).length ≤ kMaxPath) :
    NamesDistinct outputPath := by
  intro p q i j hi hj heq
  have hle : (cStr outputPath).length ≤ 112 := h
  rw [makeFileName_eq (by omega), makeFileName_eq (by omega)] at heq
  refine take_baseName_inj (m := 127 - (cStr outputPath).length) (by omega) hi hj ?_
  have hascii := List.append_cancel_left heq
  refine ascii_inj (fun c hc => ?_) (fun c hc => ?_) hascii
  · exact lt_of_mem_baseName (List.mem_of_mem_take hc)
  · exact lt_of_mem_baseName (List.mem_of_mem_take hc)

/-! ## Files of several directories -/

/-- A path that ends in a slash and leaves room for all digits of every sequence number. -/
structure Fits (outputPath : List UInt8) : Prop where
  nul_notMem : 0 ∉ outputPath
  getLast?_eq : outputPath.getLast? = some kSlash
  length_le : outputPath.length ≤ kMaxPath

theorem getLast?_ensureTrailingSlash (path : List UInt8) :
    (ensureTrailingSlash path).getLast? = some kSlash := by
  unfold ensureTrailingSlash
  split
  next => rfl
  next =>
    split
    next => exact List.getLast?_concat
    next h => exact not_not.mp h

theorem Fits.cStr_eq (h : Fits outputPath) : cStr outputPath = outputPath :=
  List.takeWhile_eq_self_iff.mpr fun _ hb =>
    decide_eq_true fun heq => h.nul_notMem (heq ▸ hb)

theorem slash_notMem_ascii {text : List Char}
    (h : ∀ c ∈ text, c ∈ baseName kind i) : kSlash ∉ ascii text := by
  intro hmem
  obtain ⟨c, hc, hslash⟩ := List.mem_map.mp hmem
  have hname := h c hc
  have hlt := lt_of_mem_baseName hname
  obtain rfl : c = '/' := by
    have hsame := congrArg UInt8.toNat hslash
    have hmod : c.toUInt8.toNat = c.toNat := Nat.mod_eq_of_lt (Nat.lt_trans hlt (by decide))
    exact Char.toNat_inj.mp (hmod ▸ hsame)
  simp only [baseName, List.mem_append, List.mem_cons] at hname
  rcases hname with hprefix | hprefix | hdigit | hprefix
  · revert hprefix
    cases kind <;> decide
  · cases hprefix
  · cases isDigit_of_mem_padded hdigit
  · revert hprefix
    decide

/-- Two texts with the same last separator have the same text up to it. -/
theorem append_inj_of_getLast? {c : UInt8} {a b r r' : List UInt8} (ha : a.getLast? = some c)
    (hb : b.getLast? = some c) (hr : c ∉ r) (hr' : c ∉ r') (h : a ++ r = b ++ r') : a = b := by
  obtain ⟨a, rfl⟩ := List.getLast?_eq_some_iff.mp ha
  obtain ⟨b, rfl⟩ := List.getLast?_eq_some_iff.mp hb
  have hreverse := congrArg List.reverse h
  simp only [List.reverse_append, List.reverse_singleton, List.singleton_append] at hreverse
  have hsame :=
    Csv.append_cons_inj (mt List.mem_reverse.mp hr) (mt List.mem_reverse.mp hr') hreverse
  rw [List.reverse_inj.mp hsame.2]

/-- The name of a file tells its directory, its engine and its sequence number. -/
theorem makeFileName_inj {path path' : List UInt8} {p q : EventKind} (h : Fits path)
    (h' : Fits path') (hi : i ≤ kMaxSequence) (hj : j ≤ kMaxSequence)
    (heq : makeFileName path p i = makeFileName path' q j) : path = path' ∧ p = q ∧ i = j := by
  obtain rfl : path = path' := by
    have hname {path : List UInt8} (h : Fits path) {kind : EventKind} {i : Nat} :
        makeFileName path kind i =
          path ++ ascii ((baseName kind i).take (127 - path.length)) := by
      have hle : (cStr path).length ≤ 127 :=
        Nat.le_trans (h.cStr_eq.symm ▸ h.length_le) (by decide)
      rw [makeFileName_eq hle, h.cStr_eq]
    rw [hname h, hname h'] at heq
    refine append_inj_of_getLast? h.getLast?_eq h'.getLast?_eq ?_ ?_ heq
    · exact slash_notMem_ascii fun c => List.mem_of_mem_take
    · exact slash_notMem_ascii fun c => List.mem_of_mem_take
  exact ⟨rfl, namesDistinct_of_le (h.cStr_eq.symm ▸ h.length_le) p q i j hi hj heq⟩

/-! ## Names that do not fit -/

/-- Of a name that is too long only the characters that fit matter. -/
theorem makeFileName_of_long (stem rest : List Char) (hname : baseName kind i = stem ++ rest)
    (h : 127 ≤ (cStr outputPath).length + stem.length) :
    makeFileName outputPath kind i = (cStr outputPath ++ ascii stem).take 127 := by
  rw [makeFileName, snprintf, hname, ascii, List.map_append, ← List.append_assoc]
  refine List.take_append_of_le_length ?_
  rw [List.length_append, List.length_map]
  exact h

/-- The last two sequence numbers of ten digits differ in a digit that does not fit. -/
theorem not_namesDistinct (h : kMaxPath < (cStr outputPath).length) :
    ¬ NamesDistinct outputPath := by
  intro hdistinct
  have hlt : 112 < (cStr outputPath).length := h
  have hname : ∀ i, i = 2147483646 ∨ i = 2147483647 → makeFileName outputPath .tick i =
      (cStr outputPath ++ ascii "tick_214748364".toList).take 127 := by
    rintro i (rfl | rfl)
    · refine makeFileName_of_long _ "6.bin".toList (by decide) ?_
      exact Nat.add_le_add_right hlt 14
    · refine makeFileName_of_long _ "7.bin".toList (by decide) ?_
      exact Nat.add_le_add_right hlt 14
  have hsame := (hname 2147483646 (.inl rfl)).trans (hname 2147483647 (.inr rfl)).symm
  have := (hdistinct .tick .tick 2147483646 2147483647 (by decide) (by decide) hsame).2
  contradiction

theorem NamesDistinct.filesApart (h : NamesDistinct outputPath) : FilesApart outputPath := by
  intro directory f p q i j hi hj hne
  refine Function.update_of_ne (fun heq => hne ?_) f directory
  obtain ⟨hkind, hsequence⟩ := h q p j i hj hi heq
  rw [hkind, hsequence]

theorem names_distinct_iff (outputPath : List UInt8) :
    (NamesDistinct outputPath ∧ FilesApart outputPath) ↔
      (cStr outputPath).length ≤ kMaxPath := by
  constructor
  · rintro ⟨hdistinct, -⟩
    exact Nat.le_of_not_lt fun hlt => not_namesDistinct hlt hdistinct
  · intro h
    exact ⟨namesDistinct_of_le h, (namesDistinct_of_le h).filesApart⟩

def longRoot : List UInt8 :=
  ascii ("/mnt/storage-array-01/quant-research/market-data/".toList ++
    "collectors/ap-northeast-1a/mmap_cache/ticks".toList)

/-- The path of a channel, of 119 characters. -/
def longPath : List UInt8 :=
  ensureTrailingSlash (mmapDir longRoot (ascii "binance".toList) (ascii "perpetual".toList)
    (ascii "BTCUSDT".toList))

/-- The first roll resets the file that holds the data. -/
theorem roll_reopens_file :
    makeFileName longPath .tick 0 = makeFileName longPath .tick 1 ∧
      ∀ directory : List UInt8 → File, ∀ f : File,
        files (Function.update directory (makeFileName longPath .tick 1) f) longPath .tick 0 =
          f := by
  have hsame : makeFileName longPath .tick 0 = makeFileName longPath .tick 1 := by
    decide +kernel
  refine ⟨hsame, fun directory f => ?_⟩
  rw [files, hsame]
  exact Function.update_self ..

end Sqc.MmapStorageEngine
