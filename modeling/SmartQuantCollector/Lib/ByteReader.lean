import SmartQuantCollector.Lib.LittleEndian

/-! # Readers of byte strings

A reader takes bytes from the front of its input and fails on an input that is too short.
`Reads r bs x` says that `r` takes just `bs`, whatever comes behind them, and gives `x`. Such facts
compose as the readers do (`Reads.bind`), so a format is read back field by field. -/

namespace ByteReader

open LittleEndian

abbrev Reader (α : Type) := StateT (List UInt8) Option α

variable {α β : Type}

/-- The next `n` bytes. -/
def bytes (n : Nat) : Reader (List UInt8) := fun bs =>
  if n ≤ bs.length then some (bs.take n, bs.drop n) else none

def skip (n : Nat) : Reader Unit := discard (bytes n)

def u8 : Reader UInt8 := (UInt8.ofNat <| decode ·) <$> bytes 1

def u32 : Reader UInt32 := (UInt32.ofNat <| decode ·) <$> bytes 4

def u64 : Reader UInt64 := (UInt64.ofNat <| decode ·) <$> bytes 8

def fail : Reader α := fun _ => none

/-- Items of one kind, one after the other. -/
def list (item : Reader α) : Nat → Reader (List α)
  | 0 => pure []
  | n + 1 => do
    let x ← item
    let xs ← list item n
    return x :: xs

/-- The whole input. -/
def parse (r : Reader α) (bs : List UInt8) : Option α :=
  match r bs with
  | some (x, []) => some x
  | _ => none

/-- The reader takes these bytes and gives this value. -/
def Reads (r : Reader α) (bs : List UInt8) (x : α) : Prop := ∀ rest, r (bs ++ rest) = some (x, rest)

namespace Reads

variable {r : Reader α} {bs bs' : List UInt8} {x : α} {y : β}

theorem parse (h : Reads r bs x) : parse r bs = some x := by
  have hall := h []
  rw [List.append_nil] at hall
  rw [ByteReader.parse, hall]

theorem of_eq {y : α} (h : Reads r bs x) (hxy : x = y) : Reads r bs y := hxy ▸ h

theorem pure (x : α) : Reads (Pure.pure x) [] x := fun _ => rfl

theorem bind {f : α → Reader β} (h : Reads r bs x) (hf : Reads (f x) bs' y) :
    Reads (r >>= f) (bs ++ bs') y := by
  intro rest
  show (r (bs ++ bs' ++ rest)).bind (fun p => f p.1 p.2) = _
  rw [List.append_assoc, h]
  exact hf rest

theorem map (h : Reads r bs x) (f : α → β) : Reads (f <$> r) bs (f x) := by
  intro rest
  show (r (bs ++ rest)).bind (fun p => some (f p.1, p.2)) = _
  rw [h]
  rfl

/-- The last field. -/
theorem return_map (h : Reads r bs x) (f : α → β) :
    Reads (r >>= fun x => Pure.pure (f x)) bs (f x) := by
  have hbind : Reads (r >>= fun x => Pure.pure (f x)) (bs ++ []) (f x) := h.bind (.pure (f x))
  rwa [List.append_nil] at hbind

theorem bytes {n : Nat} (hbs : bs.length = n) : Reads (bytes n) bs bs := by
  intro rest
  rw [ByteReader.bytes, if_pos (by rw [List.length_append]; omega), List.take_left' hbs,
    List.drop_left' hbs]

theorem skip {n : Nat} (hbs : bs.length = n) : Reads (skip n) bs () :=
  (Reads.bytes hbs).map _

theorem u8 (b : UInt8) : Reads u8 [b] b := by
  have hbyte : UInt8.ofNat (decode [b]) = b := UInt8.ofNat_toNat
  have hone : [b].length = 1 := rfl
  have hread := (Reads.bytes hone).map (UInt8.ofNat <| decode ·)
  rwa [hbyte] at hread

theorem u32 (n : UInt32) : Reads u32 (encode 4 n.toNat) n := by
  have hread := (Reads.bytes (length_encode 4 n.toNat)).map (UInt32.ofNat <| decode ·)
  rwa [decode_encode n.toNat_lt, UInt32.ofNat_toNat] at hread

theorem u64 (n : UInt64) : Reads u64 (encode 8 n.toNat) n := by
  have hread := (Reads.bytes (length_encode 8 n.toNat)).map (UInt64.ofNat <| decode ·)
  rwa [decode_encode n.toNat_lt, UInt64.ofNat_toNat] at hread

theorem list {write : α → List UInt8} (h : ∀ x, Reads r (write x) x) (xs : List α) :
    Reads (list r xs.length) (xs.flatMap write) xs := by
  induction xs with
  | nil => exact Reads.pure []
  | cons x xs ih => exact (h x).bind (ih.return_map (x :: ·))

end Reads

end ByteReader
