import Mathlib.Data.List.Basic

/-! # Text and its bytes

The bytes of a string as a list, and files of text. A file is a list of characters below 256, one
for each byte; a reader that opens it as UTF-8 sees the characters that `decode` gives, if any. -/

namespace ByteArray

theorem toList_loop (bs : ByteArray) (i : Nat) (acc : List UInt8) :
    toList.loop bs i acc = acc.reverse ++ bs.data.toList.drop i := by
  induction i, acc using toList.loop.induct bs with
  | case1 i acc hlt ih =>
    have hget : bs.get! i = bs.data.toList[i] := by
      rw [Array.getElem_toList]
      exact getElem!_pos bs.data i hlt
    rw [toList.loop, if_pos hlt, ih, hget, List.reverse_cons, List.append_assoc,
      List.drop_eq_getElem_cons hlt]
    rfl
  | case2 i acc hge =>
    rw [toList.loop, if_neg hge, List.drop_eq_nil_of_le (Nat.le_of_not_lt hge), List.append_nil]

theorem toList_eq (bs : ByteArray) : bs.toList = bs.data.toList := toList_loop bs 0 []

theorem toList_append (bs cs : ByteArray) : (bs ++ cs).toList = bs.toList ++ cs.toList := by
  rw [toList_eq, toList_eq, toList_eq, data_append, Array.toList_append]

end ByteArray

namespace String

theorem toList_toUTF8_append (s t : String) :
    (s ++ t).toUTF8.toList = s.toUTF8.toList ++ t.toUTF8.toList := by
  show (s ++ t).toByteArray.toList = _
  rw [toByteArray_append, ByteArray.toList_append]
  rfl

theorem toList_toUTF8_inj {s t : String} (h : s.toUTF8.toList = t.toUTF8.toList) : s = t := by
  rw [ByteArray.toList_eq, ByteArray.toList_eq] at h
  exact String.toByteArray_inj.mp (ByteArray.ext (Array.toList_inj.mp h))

theorem length_toList_toUTF8 (s : String) : s.toUTF8.toList.length = s.utf8ByteSize := by
  rw [ByteArray.toList_eq]
  rfl

end String

namespace Utf8

/-- The bytes that the characters of a file stand for. -/
def bytes (raw : List Char) : List UInt8 := raw.map fun c => UInt8.ofNat c.toNat

def decode (raw : List Char) : Option (List Char) :=
  (bytes raw).toByteArray.utf8Decode?.map Array.toList

/-- The bytes are those of the text. -/
def Encodes (raw text : List Char) : Prop := bytes raw = text.flatMap String.utf8EncodeChar

def Ascii (text : List Char) : Prop := ∀ c ∈ text, c.toNat < 128

instance (text : List Char) : Decidable (Ascii text) :=
  List.decidableBAll (fun c : Char => c.toNat < 128) text

variable {raw raw' text text' : List Char}

theorem Encodes.decode_eq (h : Encodes raw text) : decode raw = some text := by
  have hbytes : (bytes raw).toByteArray = text.utf8Encode := congrArg List.toByteArray h
  rw [decode, hbytes, List.utf8Decode?_utf8Encode, Option.map_some]

theorem Encodes.append (h : Encodes raw text) (h' : Encodes raw' text') :
    Encodes (raw ++ raw') (text ++ text') := by
  rw [Encodes, bytes, List.map_append, List.flatMap_append]
  exact congrArg₂ _ h h'

theorem utf8EncodeChar_ascii {c : Char} (h : c.toNat < 128) :
    String.utf8EncodeChar c = [UInt8.ofNat c.toNat] :=
  if_pos (Nat.le_of_lt_succ h)

theorem encodes_ascii (h : Ascii text) : Encodes text text := by
  induction text with
  | nil => rfl
  | cons c text ih =>
    obtain ⟨hc, htext⟩ := List.forall_mem_cons.mp h
    have hhead : Encodes [c] [c] := by
      rw [Encodes, List.flatMap_singleton, utf8EncodeChar_ascii hc]
      rfl
    exact hhead.append (ih htext)

/-- A character takes at least one byte. -/
theorem length_le_flatMap (text : List Char) :
    text.length ≤ (text.flatMap String.utf8EncodeChar).length := by
  induction text with
  | nil => exact Nat.le_refl 0
  | cons c text ih =>
    have hpos : 0 < (String.utf8EncodeChar c).length := by
      rw [String.length_utf8EncodeChar]
      exact Char.utf8Size_pos c
    rw [List.flatMap_cons, List.length_append, List.length_cons]
    omega

theorem Encodes.length_le (h : Encodes raw text) : text.length ≤ raw.length := by
  have hle := length_le_flatMap text
  rwa [← h, bytes, List.length_map] at hle

end Utf8
