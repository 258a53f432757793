import Mathlib
import KarmaCore.Lib.ObjectIndex

/-!
# Ranges of an ordered index

A loop walks over the ids of the objects in a range of an index, sorted by the
keys of these objects.  Rewriting an object without its key leaves the range as
it is, and removing the first object leaves the others.
-/

section Sorting

variable {α : Type*} {r : α → α → Prop} [DecidableRel r] {a : α} {l : List α}

theorem pairwise_orderedInsert (htotal : ∀ b ∈ l, ¬r a b → r b a)
    (htrans : ∀ b ∈ l, ∀ c ∈ l, r a b → r b c → r a c) (hl : l.Pairwise r) :
    (l.orderedInsert r a).Pairwise r := by
  induction l with
  | nil => simp
  | cons b l ih =>
      obtain ⟨hhead, htail⟩ := List.pairwise_cons.mp hl
      rw [List.orderedInsert_cons]
      split_ifs with hab
      · refine List.pairwise_cons.mpr ⟨fun c hc ↦ ?_, hl⟩
        rcases List.mem_cons.mp hc with rfl | hc
        · exact hab
        · exact htrans b List.mem_cons_self c (List.mem_cons_of_mem _ hc) hab (hhead c hc)
      · have hrest := ih (fun c hc ↦ htotal c (List.mem_cons_of_mem _ hc))
          (fun c hc d hd ↦ htrans c (List.mem_cons_of_mem _ hc) d (List.mem_cons_of_mem _ hd)) htail
        refine List.pairwise_cons.mpr ⟨fun c hc ↦ ?_, hrest⟩
        rcases List.mem_orderedInsert r |>.mp hc with rfl | hc
        · exact htotal b List.mem_cons_self hab
        · exact hhead c hc

/-- A relation that compares the members of a list sorts it. -/
theorem pairwise_insertionSort_of_mem (htotal : ∀ a ∈ l, ∀ b ∈ l, ¬r a b → r b a)
    (htrans : ∀ a ∈ l, ∀ b ∈ l, ∀ c ∈ l, r a b → r b c → r a c) :
    (l.insertionSort r).Pairwise r := by
  induction l with
  | nil => simp
  | cons a l ih =>
      have hmem : ∀ {b}, b ∈ l.insertionSort r → b ∈ a :: l := fun hb ↦
        List.mem_cons_of_mem _ ((List.mem_insertionSort r).mp hb)
      have hself : a ∈ a :: l := List.mem_cons_self
      refine pairwise_orderedInsert (fun b hb ↦ htotal a hself b (hmem hb))
        (fun b hb c hc ↦ htrans a hself b (hmem hb) c (hmem hc)) (ih ?_ ?_)
      · exact fun b hb c hc ↦ htotal b (List.mem_cons_of_mem _ hb) c (List.mem_cons_of_mem _ hc)
      · exact fun b hb c hc d hd ↦ htrans b (List.mem_cons_of_mem _ hb) c
          (List.mem_cons_of_mem _ hc) d (List.mem_cons_of_mem _ hd)

section Keys

variable {κ : Type*} [Preorder κ] {key : α → κ}

theorem keys_orderedInsert (hr : ∀ a b, r a b → key a ≤ key b) (hnot : ∀ a b, ¬r a b → key b ≤ key a)
    (hl : l.Pairwise fun b c ↦ key b ≤ key c) :
    (l.orderedInsert r a).Pairwise fun b c ↦ key b ≤ key c := by
  induction l with
  | nil => simp
  | cons b l ih =>
      obtain ⟨hhead, htail⟩ := List.pairwise_cons.mp hl
      rw [List.orderedInsert_cons]
      split_ifs with hab
      · refine List.pairwise_cons.mpr ⟨fun c hc ↦ ?_, hl⟩
        rcases List.mem_cons.mp hc with rfl | hc
        · exact hr a c hab
        · exact (hr a b hab).trans (hhead c hc)
      · refine List.pairwise_cons.mpr ⟨fun c hc ↦ ?_, ih htail⟩
        rcases List.mem_orderedInsert r |>.mp hc with rfl | hc
        · exact hnot c b hab
        · exact hhead c hc

/-- A relation that compares keys first sorts by them, whatever it does where they are equal. -/
theorem keys_insertionSort (hr : ∀ a b, r a b → key a ≤ key b)
    (hnot : ∀ a b, ¬r a b → key b ≤ key a) (l : List α) :
    (l.insertionSort r).Pairwise fun b c ↦ key b ≤ key c := by
  induction l with
  | nil => simp
  | cons a l ih => exact keys_orderedInsert hr hnot ih

end Keys

end Sorting

namespace ObjectIndex

variable {α κ : Type} {key : α → κ} {p : κ → Prop} {follows : κ → κ → Prop} {ix : ObjectIndex α}
  {id : ℕ} {ids : List ℕ} {a b : α}

/-- The ids of the objects whose keys are in a range, each before those it does not follow. -/
structure Lists (key : α → κ) (p : κ → Prop) (follows : κ → κ → Prop) (ix : ObjectIndex α)
    (ids : List ℕ) : Prop where
  mem : ∀ i, i ∈ ids ↔ ∃ a, ix.find i = some a ∧ p (key a)
  nodup : ids.Nodup
  ordered : ids.Pairwise fun i j ↦
    ∀ a b, ix.find i = some a → ix.find j = some b → ¬follows (key a) (key b)

/-- An order of the keys in the range is all that a sorted selection needs. -/
theorem lists_select (key : α → κ) (p : κ → Prop) (follows : κ → κ → Prop) (ix : ObjectIndex α)
    [DecidablePred p] [DecidableRel follows]
    (htotal : ∀ i a j b, ix.find i = some a → ix.find j = some b → p (key a) → p (key b) →
      follows (key a) (key b) → ¬follows (key b) (key a))
    (htrans : ∀ i a j b k c, ix.find i = some a → ix.find j = some b → ix.find k = some c →
      p (key a) → p (key b) → p (key c) → ¬follows (key a) (key b) → ¬follows (key b) (key c) →
        ¬follows (key a) (key c)) :
    Lists key p follows ix ((ix.select (fun _ a ↦ p (key a))
      fun a b ↦ follows (key a) (key b)).map Prod.fst) where
  mem i := by
    simp only [List.mem_map, mem_select, Prod.exists, exists_and_right, exists_eq_right]
  nodup := nodup_select
  ordered := by
    have hin : ∀ o ∈ ix.objects.filter fun o ↦ p (key o.2),
        ix.find o.1 = some o.2 ∧ p (key o.2) := fun o ho ↦ by
      obtain ⟨hmem, hp⟩ := List.mem_filter.mp ho
      exact ⟨find_eq_some.mpr hmem, of_decide_eq_true hp⟩
    have hsorted : (ix.select (fun _ a ↦ p (key a)) fun a b ↦ follows (key a) (key b)).Pairwise
        fun o o' ↦ ¬follows (key o.2) (key o'.2) := by
      refine pairwise_insertionSort_of_mem (fun o ho o' ho' hfollows ↦ ?_)
        fun o ho o' ho' o'' ho'' ↦ ?_
      · exact htotal _ _ _ _ (hin o ho).1 (hin o' ho').1 (hin o ho).2 (hin o' ho').2
          (not_not.mp hfollows)
      · exact htrans _ _ _ _ _ _ (hin o ho).1 (hin o' ho').1 (hin o'' ho'').1 (hin o ho).2
          (hin o' ho').2 (hin o'' ho'').2
    refine List.pairwise_map.mpr (hsorted.imp_of_mem fun {o o'} ho ho' hnot a b ha hb ↦ ?_)
    have ho := (mem_select.mp ho).1
    have ho' := (mem_select.mp ho').1
    rw [← Option.some.inj (ho.symm.trans ha), ← Option.some.inj (ho'.symm.trans hb)]
    exact hnot

namespace Lists

/-- The object under the first id is in the range, and no other one there comes before it. -/
theorem head (h : Lists key p follows ix (id :: ids)) : ∃ a, ix.find id = some a ∧ p (key a) ∧
    ∀ j b, j ≠ id → ix.find j = some b → p (key b) → ¬follows (key a) (key b) := by
  obtain ⟨a, ha, hp⟩ := (h.mem id).mp List.mem_cons_self
  refine ⟨a, ha, hp, fun j b hj hb hpb ↦ ?_⟩
  have hmem : j ∈ ids := List.mem_of_ne_of_mem hj ((h.mem j).mpr ⟨b, hb, hpb⟩)
  exact (List.pairwise_cons.mp h.ordered).1 j hmem a b ha hb

theorem nil (h : Lists key p follows ix []) (ha : ix.find id = some a) : ¬p (key a) := by
  intro hp
  exact List.not_mem_nil ((h.mem id).mpr ⟨a, ha, hp⟩)

/-- A range may be described by another condition on the keys that are there. -/
theorem congr_range {p' : κ → Prop} (h : Lists key p follows ix ids)
    (hiff : ∀ i a, ix.find i = some a → (p (key a) ↔ p' (key a))) :
    Lists key p' follows ix ids := by
  refine ⟨fun i ↦ (h.mem i).trans ⟨?_, ?_⟩, h.nodup, h.ordered⟩
  · rintro ⟨a, ha, hp⟩
    exact ⟨a, ha, (hiff i a ha).mp hp⟩
  · rintro ⟨a, ha, hp⟩
    exact ⟨a, ha, (hiff i a ha).mpr hp⟩

/-- Another key-preserving state of the index lists the same ids. -/
theorem of_keys {ix' : ObjectIndex α} (h : Lists key p follows ix ids)
    (hkeys : ∀ i, (ix'.find i).map key = (ix.find i).map key) : Lists key p follows ix' ids := by
  have hback : ∀ {i a'}, ix'.find i = some a' → ∃ a, ix.find i = some a ∧ key a = key a' := by
    intro i a' ha'
    have hkey := hkeys i
    rw [ha', Option.map_some] at hkey
    exact Option.map_eq_some_iff.mp hkey.symm
  refine ⟨fun i ↦ ?_, h.nodup, h.ordered.imp fun {i j} hij a' b' ha' hb' ↦ ?_⟩
  · rw [h.mem]
    constructor
    · rintro ⟨a, ha, hp⟩
      have hkey := hkeys i
      rw [ha, Option.map_some] at hkey
      obtain ⟨a', ha', heq⟩ := Option.map_eq_some_iff.mp hkey
      exact ⟨a', ha', heq ▸ hp⟩
    · rintro ⟨a', ha', hp⟩
      obtain ⟨a, ha, heq⟩ := hback ha'
      exact ⟨a, ha, heq ▸ hp⟩
  · obtain ⟨a, ha, hakey⟩ := hback ha'
    obtain ⟨b, hb, hbkey⟩ := hback hb'
    rw [← hakey, ← hbkey]
    exact hij a b ha hb

theorem set (h : Lists key p follows ix ids) (hid : ix.find id = some b) (hkey : key a = key b) :
    Lists key p follows (ix.set id a) ids := by
  refine h.of_keys fun i ↦ ?_
  rw [find_set hid]
  split_ifs with hi
  · rw [hi, hid, Option.map_some, Option.map_some, hkey]
  · rfl

theorem remove_head (h : Lists key p follows ix (id :: ids)) :
    Lists key p follows (ix.remove id) ids := by
  obtain ⟨hnot, hnodup⟩ := List.nodup_cons.mp h.nodup
  have hold : ∀ {i a}, (ix.remove id).find i = some a → i ≠ id ∧ ix.find i = some a := by
    intro i a ha
    rw [find_remove] at ha
    split_ifs at ha with hi
    exact ⟨hi, ha⟩
  refine ⟨fun i ↦ ?_, hnodup, (List.pairwise_cons.mp h.ordered).2.imp fun hij a b ha hb ↦
    hij a b (hold ha).2 (hold hb).2⟩
  constructor
  · intro hi
    obtain ⟨a, ha, hp⟩ := (h.mem i).mp (List.mem_cons_of_mem _ hi)
    refine ⟨a, ?_, hp⟩
    rw [find_remove, if_neg, ha]
    rintro rfl
    exact hnot hi
  · rintro ⟨a, ha, hp⟩
    obtain ⟨hi, ha⟩ := hold ha
    exact List.mem_of_ne_of_mem hi ((h.mem i).mpr ⟨a, ha, hp⟩)

end Lists

end ObjectIndex
