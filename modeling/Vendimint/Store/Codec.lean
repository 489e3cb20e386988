import Mathlib.Tactic.Common
import Mathlib.Data.List.Basic
import Mathlib.Logic.Nontrivial.Defs

/-! # Formats and codecs

A format of a type writes its values as bytes and reads them back. In a codec, moreover, no proper
prefix of an encoding is read as a value: a file or a stream that was cut short is seen to be short.
Any injection into byte strings gives a codec (`Codec.framed`), by marking each byte and the end. -/

namespace Vendimint.Store

/-- Byte strings. -/
abbrev Bytes := List UInt8

/-- An encoding of `α` as bytes that is read back. -/
structure Format (α : Type) where
  enc : α → Bytes
  dec : Bytes → Option α
  dec_enc : ∀ a, dec (enc a) = some a

/-- An encoding that is seen to be cut short. -/
structure Codec (α : Type) extends Format α where
  dec_prefix : ∀ a l, l <+: enc a → l ≠ enc a → dec l = none

namespace Format
variable {α : Type}

@[simp] theorem decode_encode (c : Format α) (a : α) : c.dec (c.enc a) = some a := c.dec_enc a

theorem enc_injective (c : Format α) : Function.Injective c.enc := by
  intro a b h
  have := c.dec_enc a
  rw [h, c.dec_enc, Option.some.injEq] at this
  exact this.symm

end Format

namespace Codec
variable {α : Type}

/-- A prefix of an encoding that is read as a value is the whole encoding. -/
theorem eq_of_prefix (c : Codec α) {a b : α} {l : Bytes} (hl : l <+: c.enc a)
    (hd : c.dec l = some b) : l = c.enc a ∧ b = a := by
  by_cases h : l = c.enc a
  · subst h
    rw [c.dec_enc, Option.some.injEq] at hd
    exact ⟨rfl, hd.symm⟩
  · rw [c.dec_prefix a l hl h] at hd
    cases hd

/-- No value of a type with two values is encoded as the empty string. -/
theorem enc_ne_nil [Nontrivial α] (c : Codec α) (a : α) : c.enc a ≠ [] := by
  intro h
  obtain ⟨b, hb⟩ := exists_ne a
  have hne : [] ≠ c.enc b := fun h' => hb (c.enc_injective (h'.symm.trans h.symm))
  have hd := c.dec_prefix b [] List.nil_prefix hne
  rw [← h, c.dec_enc] at hd
  cases hd

/-- The empty string is not read as a value. -/
theorem dec_nil [Nontrivial α] (c : Codec α) : c.dec [] = none := by
  obtain ⟨a, -⟩ := exists_pair_ne α
  exact c.dec_prefix a [] List.nil_prefix (c.enc_ne_nil a).symm

/-! ### Framing -/

/-- Each byte after a mark, and an end. -/
def frame : Bytes → Bytes
  | [] => [0]
  | b :: l => 1 :: b :: frame l

/-- Reading a frame. -/
def unframe : Bytes → Option Bytes
  | [m] => if m = 0 then some [] else none
  | m :: b :: l => if m = 1 then (unframe l).map (b :: ·) else none
  | [] => none

theorem frame_ne_nil (l : Bytes) : frame l ≠ [] := by cases l <;> simp [frame]

theorem unframe_frame : ∀ l, unframe (frame l) = some l
  | [] => by simp [frame, unframe]
  | b :: l => by simp [frame, unframe, unframe_frame l]

theorem unframe_short : ∀ l p, p <+: frame l → p ≠ frame l → unframe p = none
  | l, [], _, _ => rfl
  | [], m :: p, hp, hne => by
    simp only [frame, List.cons_prefix_cons, List.prefix_nil] at hp
    exact absurd (by rw [hp.1, hp.2]; rfl) hne
  | b :: l, [m], hp, _ => by
    simp only [frame, List.cons_prefix_cons] at hp
    simp [unframe, hp.1]
  | b :: l, m :: b' :: p, hp, hne => by
    simp only [frame, List.cons_prefix_cons] at hp
    obtain ⟨rfl, rfl, hp⟩ := hp
    have : p ≠ frame l := fun h => hne (by rw [h, frame])
    simp [unframe, unframe_short l p hp this]

/-- The codec of an injection `f` into bytes with partial inverse `g`. -/
def framed (f : α → Bytes) (g : Bytes → Option α) (h : ∀ a, g (f a) = some a) : Codec α where
  enc a := frame (f a)
  dec l := (unframe l).bind g
  dec_enc a := by rw [unframe_frame]; exact h a
  dec_prefix a l hl hne := by rw [unframe_short _ _ hl hne]; rfl

end Codec

end Vendimint.Store
