import Mathlib
import KarmaCore.Lib.Codec

/-!
# Extensions

An `extension<T>` is packed as the number of its fields that are set and, for each
of them in the order of reflection, its index and its value.  The decoder visits
the fields in the same order and keeps the index it has read ahead.
-/

namespace KarmaCore

/-- The members of a type that reflection visits, with the codecs of their values. -/
structure Reflection where
  fields : List (Σ α : Type, Codec α)
  length_lt : fields.length < 2 ^ 32

/-- The members as optional values. -/
@[reducible] def Members : List (Σ α : Type, Codec α) → Type
  | [] => Unit
  | field :: fields => Option field.1 × Members fields

abbrev Extension (T : Reflection) : Type := Members T.fields

namespace Extension

-- `varint` is the codec of an `unsigned_int`
variable (varint : Codec UInt32)

/-- `graphene_extension_pack_count_visitor`. -/
def packCount : (fields : List (Σ α : Type, Codec α)) → Members fields → ℕ
  | [], _ => 0
  | _ :: fields, (member, members) => (if member.isSome then 1 else 0) + packCount fields members

/-- `graphene_extension_pack_read_visitor`. -/
def packFields : (fields : List (Σ α : Type, Codec α)) → ℕ → Members fields → List UInt8
  | [], _, _ => []
  | _ :: fields, which, (none, members) => packFields fields (which + 1) members
  | field :: fields, which, (some a, members) =>
      varint.pack (UInt32.ofNat which) ++ (field.2.pack a ++ packFields fields (which + 1) members)

variable {T : Reflection}

def pack (value : Extension T) : List UInt8 :=
  varint.pack (UInt32.ofNat (packCount T.fields value)) ++ packFields varint T.fields 0 value

def maybeReadNextWhich (countLeft : ℕ) (nextWhich : UInt32) (stream : List UInt8) :
    Option (UInt32 × List UInt8) :=
  if 0 < countLeft then varint.unpack stream else some (nextWhich, stream)

/-- `graphene_extension_unpack_visitor`: the members, `count_left` and the rest of the stream. -/
def unpackFields : (fields : List (Σ α : Type, Codec α)) → ℕ → ℕ → UInt32 → List UInt8 →
    Option (Members fields × ℕ × List UInt8)
  | [], _, countLeft, _, stream => some ((), countLeft, stream)
  | field :: fields, which, countLeft, nextWhich, stream =>
    if 0 < countLeft ∧ which = nextWhich.toNat then do
      let (temp, stream) ← field.2.unpack stream
      let (nextWhich, stream) ← maybeReadNextWhich varint (countLeft - 1) nextWhich stream
      let (members, countLeft, stream) ←
        unpackFields fields (which + 1) (countLeft - 1) nextWhich stream
      return ((some temp, members), countLeft, stream)
    else do
      let (members, countLeft, stream) ← unpackFields fields (which + 1) countLeft nextWhich stream
      return ((none, members), countLeft, stream)

def unpack (stream : List UInt8) : Option (Extension T × List UInt8) := do
  let (c, stream) ← varint.unpack stream
  let (nextWhich, stream) ← maybeReadNextWhich varint c.toNat 0 stream
  let (value, countLeft, stream) ← unpackFields varint T.fields 0 c.toNat nextWhich stream
  if countLeft = 0 then return (value, stream) else none

/-! ## The decoder is in step with the encoder -/

section step

variable {varint} {fields : List (Σ α : Type, Codec α)} {which countLeft : ℕ} {nextWhich w : UInt32}
  {stream rest : List UInt8}

theorem toNat_ofNat (h : which < 2 ^ 32) : (UInt32.ofNat which).toNat = which := by
  rw [UInt32.toNat_ofNat', Nat.mod_eq_of_lt h]

/-- The bytes not yet decoded, with the index read ahead put back. -/
def ahead (varint : Codec UInt32) (countLeft : ℕ) (nextWhich : UInt32) (stream : List UInt8) :
    List UInt8 :=
  if 0 < countLeft then varint.pack nextWhich ++ stream else stream

theorem ahead_of_read {nextWhich' : UInt32} {stream' : List UInt8}
    (h : maybeReadNextWhich varint countLeft nextWhich stream = some (nextWhich', stream')) :
    ahead varint countLeft nextWhich' stream' = stream := by
  unfold maybeReadNextWhich at h
  unfold ahead
  split_ifs at h ⊢
  · exact (Codec.unpack_eq_some.mp h).symm
  · exact ((Prod.mk.inj (Option.some.inj h)).2).symm

theorem packCount_le : ∀ (fields : List (Σ α : Type, Codec α)) (members : Members fields),
    packCount fields members ≤ fields.length
  | [], _ => le_rfl
  | _ :: fields, (member, members) => by
      have ih := packCount_le fields members
      simp only [packCount, List.length_cons]
      split_ifs <;> omega

/-- The first index written is that of a member still to come. -/
theorem le_of_packFields {members : Members fields} (hlt : which + fields.length ≤ 2 ^ 32)
    (hcount : 0 < packCount fields members)
    (h : varint.pack w ++ stream = packFields varint fields which members ++ rest) :
    which ≤ w.toNat := by
  induction fields generalizing which with
  | nil => exact absurd hcount (lt_irrefl 0)
  | cons field fields ih =>
      obtain ⟨member, members⟩ := members
      rw [List.length_cons] at hlt
      cases member with
      | none =>
          have hnext : which + 1 ≤ w.toNat :=
            ih (by omega) (by simpa [packCount] using hcount) (by simpa [packFields] using h)
          omega
      | some a =>
          rw [packFields, List.append_assoc, Codec.pack_append_inj] at h
          rw [h.1, toNat_ofNat (by omega)]

theorem packFields_starts (varint : Codec UInt32) {members : Members fields} (which : ℕ)
    (rest : List UInt8)
    (hcount : 0 < packCount fields members) :
    ∃ w tail, packFields varint fields which members ++ rest = varint.pack w ++ tail := by
  induction fields generalizing which with
  | nil => exact absurd hcount (lt_irrefl 0)
  | cons field fields ih =>
      obtain ⟨member, members⟩ := members
      cases member with
      | none => exact ih (which + 1) (by simpa [packCount] using hcount)
      | some a => exact ⟨_, _, by rw [packFields, List.append_assoc]⟩

theorem exists_read (varint : Codec UInt32) {members : Members fields} (which : ℕ)
    (nextWhich : UInt32) (rest : List UInt8) (hcount : countLeft = packCount fields members) : ∃ next left,
    maybeReadNextWhich varint countLeft nextWhich (packFields varint fields which members ++ rest) =
      some (next, left) := by
  unfold maybeReadNextWhich
  split_ifs with hleft
  · obtain ⟨w, tail, hstarts⟩ := packFields_starts varint which rest (hcount ▸ hleft)
    exact ⟨w, tail, hstarts ▸ varint.unpack_pack w tail⟩
  · exact ⟨_, _, rfl⟩

/-- The decoder reads some members exactly from what the encoder writes for them. -/
theorem unpackFields_eq_some {members : Members fields} (hlt : which + fields.length ≤ 2 ^ 32) :
    unpackFields varint fields which countLeft nextWhich stream = some (members, 0, rest) ↔
      countLeft = packCount fields members ∧
        ahead varint countLeft nextWhich stream = packFields varint fields which members ++ rest := by
  induction fields generalizing which countLeft nextWhich stream with
  | nil =>
      obtain rfl : members = () := rfl
      simp only [unpackFields, packCount, packFields, List.nil_append, Option.some.injEq, Prod.mk.injEq,
        true_and]
      refine and_congr_right fun hzero ↦ ?_
      rw [ahead, if_neg (by omega)]
  | cons field fields ih =>
      obtain ⟨member, members⟩ := members
      rw [List.length_cons] at hlt
      have hnext : which + 1 + fields.length ≤ 2 ^ 32 := by omega
      unfold unpackFields
      split_ifs with hmatch
      · obtain ⟨hleft, rfl⟩ := hmatch
        have hahead : ahead varint countLeft nextWhich stream = varint.pack nextWhich ++ stream :=
          if_pos hleft
        simp only [Option.bind_eq_bind, Option.bind_eq_some_iff, Option.pure_def, Option.some.injEq,
          Prod.mk.injEq, Prod.exists, hahead]
        constructor
        · rintro ⟨a, after, hunpack, next, left, hread, members', _, rest', hmembers, ⟨rfl, rfl⟩, rfl, rfl⟩
          obtain ⟨hcount, hbytes⟩ := (ih hnext).mp hmembers
          rw [ahead_of_read hread] at hbytes
          obtain rfl := Codec.unpack_eq_some.mp hunpack
          refine ⟨by simp only [packCount, Option.isSome_some, if_true]; omega, ?_⟩
          rw [packFields, UInt32.ofNat_toNat, hbytes, List.append_assoc, List.append_assoc]
        · rintro ⟨hcount, hbytes⟩
          cases member with
          | none =>
              rw [hcount] at hleft
              have hle := le_of_packFields hnext (by simpa [packCount] using hleft)
                (by simpa [packFields] using hbytes)
              omega
          | some a =>
              rw [packFields, UInt32.ofNat_toNat, List.append_assoc, List.append_cancel_left_eq,
                List.append_assoc] at hbytes
              have hunpack := Codec.unpack_eq_some.mpr hbytes
              have hleft' : countLeft - 1 = packCount fields members := by
                simp only [packCount, Option.isSome_some, if_true] at hcount
                omega
              obtain ⟨next, left, hread⟩ := exists_read varint (nextWhich.toNat + 1) nextWhich rest hleft'
              refine ⟨a, _, hunpack, next, left, hread, members, 0, rest, ?_, ⟨rfl, rfl⟩, rfl, rfl⟩
              exact (ih hnext).mpr ⟨hleft', ahead_of_read hread⟩
      · simp only [Option.bind_eq_bind, Option.bind_eq_some_iff, Option.pure_def, Option.some.injEq,
          Prod.mk.injEq, Prod.exists]
        constructor
        · rintro ⟨members', _, rest', hmembers, ⟨rfl, rfl⟩, rfl, rfl⟩
          obtain ⟨hcount, hbytes⟩ := (ih hnext).mp hmembers
          exact ⟨by simpa [packCount] using hcount, hbytes⟩
        · rintro ⟨hcount, hbytes⟩
          cases member with
          | none =>
              exact ⟨members, 0, rest, (ih hnext).mpr ⟨by simpa [packCount] using hcount, hbytes⟩,
                ⟨rfl, rfl⟩, rfl, rfl⟩
          | some a =>
              have hleft : 0 < countLeft := by
                simp only [packCount, Option.isSome_some, if_true] at hcount
                omega
              rw [ahead, if_pos hleft, packFields, List.append_assoc, Codec.pack_append_inj] at hbytes
              refine absurd ⟨hleft, ?_⟩ hmatch
              rw [hbytes.1, toNat_ofNat (by omega)]

/-- What is accepted is what the encoder writes. -/
theorem unpack_eq_some {value : Extension T} :
    unpack varint stream = some (value, rest) ↔ stream = pack varint value ++ rest := by
  have hlt := T.length_lt
  have hcount := packCount_le T.fields value
  have hcode : (UInt32.ofNat (packCount T.fields value)).toNat = packCount T.fields value :=
    toNat_ofNat (by omega)
  unfold unpack pack
  simp only [Option.bind_eq_bind, Option.bind_eq_some_iff, Option.pure_def, Prod.exists,
    Codec.unpack_eq_some, List.append_assoc]
  constructor
  · rintro ⟨c, after, rfl, next, left, hread, value', left', rest', hfields, hdone⟩
    split_ifs at hdone with hzero
    obtain ⟨rfl, rfl⟩ := Prod.mk.inj (Option.some.inj hdone)
    obtain rfl := hzero
    obtain ⟨hc, hbytes⟩ := (unpackFields_eq_some (by omega)).mp hfields
    rw [ahead_of_read hread] at hbytes
    rw [← hc, UInt32.ofNat_toNat, hbytes]
  · rintro rfl
    obtain ⟨next, left, hread⟩ := exists_read varint 0 0 rest hcode
    refine ⟨_, _, rfl, next, left, hread, value, 0, rest, ?_, rfl⟩
    exact (unpackFields_eq_some (by omega)).mpr ⟨hcode, ahead_of_read hread⟩

end step

/-! ## Entries out of order -/

/-- Bytes that list fields by their indices, with a value of the field where there is one. -/
inductive Entries (varint : Codec UInt32) (fields : List (Σ α : Type, Codec α)) :
    List UInt32 → List UInt8 → Prop
  | nil : Entries varint fields [] []
  | known {i : UInt32} {field : Σ α : Type, Codec α} {a : field.1} {indices : List UInt32}
      {bytes : List UInt8} (hfield : fields[i.toNat]? = some field)
      (h : Entries varint fields indices bytes) :
      Entries varint fields (i :: indices) (varint.pack i ++ (field.2.pack a ++ bytes))
  | unknown {i : UInt32} {indices : List UInt32} {bytes : List UInt8} (payload : List UInt8)
      (hfield : fields.length ≤ i.toNat) (h : Entries varint fields indices bytes) :
      Entries varint fields (i :: indices) (varint.pack i ++ (payload ++ bytes))

/-- The indices are those of fields and each is greater than the ones before. -/
def InOrder (fields : List (Σ α : Type, Codec α)) (indices : List UInt32) : Prop :=
  indices.Pairwise (· < ·) ∧ ∀ i ∈ indices, i.toNat < fields.length

section entries

variable {varint} {all fields : List (Σ α : Type, Codec α)} {indices : List UInt32}
  {entries rest rest' : List UInt8}

/-- Entries that the encoder could have written for some last members of a type. -/
theorem inOrder_of_packFields (done : List (Σ α : Type, Codec α)) (members : Members fields)
    (hlt : (done ++ fields).length < 2 ^ 32) (hentries : Entries varint (done ++ fields) indices entries)
    (hcount : indices.length ≤ packCount fields members)
    (h : entries ++ rest = packFields varint fields done.length members ++ rest') :
    (∀ i ∈ indices, done.length ≤ i.toNat) ∧ InOrder (done ++ fields) indices := by
  induction fields generalizing done indices entries with
  | nil =>
      obtain rfl := List.eq_nil_of_length_eq_zero (Nat.le_zero.mp hcount)
      exact ⟨by simp, List.Pairwise.nil, by simp⟩
  | cons field fields ih =>
      obtain ⟨member, members⟩ := members
      have hshift : done ++ field :: fields = (done ++ [field]) ++ fields := by simp
      have hdone : (done ++ [field]).length = done.length + 1 := by simp
      cases member with
      | none =>
          rw [hshift] at hlt hentries ⊢
          obtain ⟨hge, hordered⟩ := ih (done ++ [field]) members hlt hentries
            (by simpa [packCount] using hcount) (by rw [hdone]; exact h)
          exact ⟨fun i hi ↦ by have := hge i hi; omega, hordered⟩
      | some a =>
          have hwhich : (UInt32.ofNat done.length).toNat = done.length :=
            toNat_ofNat (by simp at hlt; omega)
          rw [packFields, List.append_assoc] at h
          cases hentries with
          | nil => exact ⟨by simp, List.Pairwise.nil, by simp⟩
          | unknown payload hfield hmore =>
              rw [List.append_assoc, Codec.pack_append_inj] at h
              rw [h.1, hwhich, List.length_append, List.length_cons] at hfield
              omega
          | known hfield hmore =>
              rw [List.append_assoc, Codec.pack_append_inj] at h
              obtain ⟨rfl, h⟩ := h
              rw [hwhich, List.getElem?_append_right le_rfl, Nat.sub_self, List.getElem?_cons_zero,
                Option.some.injEq] at hfield
              subst hfield
              rw [List.append_assoc, List.append_assoc, Codec.pack_append_inj] at h
              rw [hshift] at hlt hmore ⊢
              obtain ⟨hge, hordered, hknown⟩ := ih (done ++ [field]) members hlt hmore
                (by simp [packCount] at hcount; omega) (by rw [hdone]; exact h.2)
              have hlater : ∀ i ∈ _, UInt32.ofNat done.length < i := fun i hi ↦ by
                have := hge i hi
                rw [UInt32.lt_iff_toNat_lt, hwhich]
                omega
              refine ⟨?_, List.pairwise_cons.mpr ⟨hlater, hordered⟩, ?_⟩
              · rintro i (_ | ⟨_, hi⟩)
                · exact hwhich.ge
                · have := hge i hi
                  omega
              · rintro i (_ | ⟨_, hi⟩)
                · rw [hwhich, List.length_append, hdone]
                  omega
                · exact hknown i hi

/-- A field that is listed twice, out of order or without being known is rejected, whatever
follows. -/
theorem unpack_eq_none {T : Reflection} {count : UInt32}
    (hentries : Entries varint T.fields indices entries) (hcount : indices.length ≤ count.toNat)
    (hbad : ¬InOrder T.fields indices) :
    (unpack varint (varint.pack count ++ (entries ++ rest)) : Option (Extension T × _)) = none := by
  by_contra haccepted
  obtain ⟨⟨value, rest'⟩, hvalue⟩ := Option.ne_none_iff_exists'.mp haccepted
  have hbytes := unpack_eq_some.mp hvalue
  rw [pack, List.append_assoc, Codec.pack_append_inj] at hbytes
  obtain ⟨rfl, hbytes⟩ := hbytes
  have hle := packCount_le T.fields value
  have hlt := T.length_lt
  rw [toNat_ofNat (by omega)] at hcount
  exact hbad (inOrder_of_packFields [] value hlt hentries hcount hbytes).2

end entries

end Extension

end KarmaCore
