import Mathlib

/-!
# Codecs

A codec writes values as bytes and reads back exactly what it writes: every byte
string it accepts begins with the canonical encoding of the value it reads.
-/

structure Codec (α : Type) where
  pack : α → List UInt8
  unpack : List UInt8 → Option (α × List UInt8)
  unpack_pack : ∀ a rest, unpack (pack a ++ rest) = some (a, rest)
  pack_of_unpack : ∀ bytes a rest, unpack bytes = some (a, rest) → bytes = pack a ++ rest

namespace Codec

variable {α : Type} {c : Codec α} {a b : α} {bytes rest rest' : List UInt8}

theorem unpack_eq_some : c.unpack bytes = some (a, rest) ↔ bytes = c.pack a ++ rest := by
  refine ⟨c.pack_of_unpack bytes a rest, ?_⟩
  rintro rfl
  exact c.unpack_pack a rest

/-- No encoding is the beginning of another one. -/
theorem pack_append_inj : c.pack a ++ rest = c.pack b ++ rest' ↔ a = b ∧ rest = rest' := by
  constructor
  · intro h
    have hread := c.unpack_pack a rest
    rw [h, c.unpack_pack b rest', Option.some.injEq, Prod.mk.injEq] at hread
    exact ⟨hread.1.symm, hread.2.symm⟩
  · rintro ⟨rfl, rfl⟩
    rfl

end Codec
