import Mathlib.Data.List.Basic

/-! # Framed streams

Frames of variable length in a row: a header of fixed length, and a body whose length the header
tells. A stream is `Whole` when it is a number of complete frames; a stream that ends inside a frame
is not, whatever precedes the frame (`Whole.not_append_torn`). -/

structure Framing (β : Type*) where
  headerLength : Nat
  headerLength_pos : 0 < headerLength
  /-- The length of the body that follows a header. -/
  bodyLength : List β → Nat

namespace Framing

variable {β : Type*} {F : Framing β}

inductive Whole (F : Framing β) : List β → Prop
  | nil : Whole F []
  | cons {header body rest : List β} : header.length = F.headerLength →
    body.length = F.bodyLength header → Whole F rest → Whole F (header ++ (body ++ rest))

/-- A frame that is not complete: its header is there, its body is not. -/
structure Torn (F : Framing β) (bytes : List β) : Prop where
  header_le : F.headerLength ≤ bytes.length
  short : bytes.length < F.headerLength + F.bodyLength (bytes.take F.headerLength)

/-- The first frame of a stream is determined by the stream. -/
theorem Whole.of_frame_append {header body rest : List β} (hheader : header.length = F.headerLength)
    (hbody : body.length = F.bodyLength header) (h : Whole F (header ++ (body ++ rest))) :
    Whole F rest := by
  generalize hbytes : header ++ (body ++ rest) = bytes at h
  cases h with
  | nil =>
    have hlen := congrArg List.length hbytes
    have := F.headerLength_pos
    simp only [List.length_append, List.length_nil] at hlen
    omega
  | @cons header' body' rest' hheader' hbody' hrest =>
    obtain ⟨rfl, htail⟩ := List.append_inj hbytes (hheader.trans hheader'.symm)
    obtain ⟨-, rfl⟩ := List.append_inj htail (hbody.trans hbody'.symm)
    exact hrest

theorem Whole.append {bytes bytes' : List β} (h : Whole F bytes) (h' : Whole F bytes') :
    Whole F (bytes ++ bytes') := by
  induction h with
  | nil => exact h'
  | cons hheader hbody _ ih =>
    rw [List.append_assoc, List.append_assoc]
    exact .cons hheader hbody ih

theorem Whole.of_append {bytes bytes' : List β} (h : Whole F bytes)
    (h' : Whole F (bytes ++ bytes')) : Whole F bytes' := by
  induction h with
  | nil => exact h'
  | cons hheader hbody _ ih =>
    rw [List.append_assoc, List.append_assoc] at h'
    exact ih (h'.of_frame_append hheader hbody)

theorem Torn.not_whole {bytes : List β} (h : Torn F bytes) : ¬Whole F bytes := by
  rintro (_ | ⟨hheader, hbody, -⟩)
  · have := h.header_le
    have := F.headerLength_pos
    simp only [List.length_nil] at *
    omega
  · have hshort := h.short
    rw [List.take_append_of_le_length (Nat.le_of_eq hheader.symm),
      List.take_of_length_le (Nat.le_of_eq hheader)] at hshort
    simp only [List.length_append] at hshort
    omega

theorem Whole.not_append_torn {bytes bytes' : List β} (h : Whole F bytes) (ht : Torn F bytes') :
    ¬Whole F (bytes ++ bytes') :=
  fun h' => ht.not_whole (h.of_append h')

end Framing
