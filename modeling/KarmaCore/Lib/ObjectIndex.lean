import Mathlib

/-!
# Objects under increasing ids

An index gives every new object the next id and keeps its objects in the order
of their ids.  A weight summed over an index changes by what one object
contributes when that object is created, rewritten or removed.
-/

structure ObjectIndex (α : Type) where
  nextId : ℕ
  objects : List (ℕ × α)
  sorted : (objects.map Prod.fst).Pairwise (· < ·)
  fresh : ∀ o ∈ objects, o.1 < nextId

namespace ObjectIndex

variable {α : Type} {M : Type*} [AddCommGroup M] {ix : ObjectIndex α} {id key : ℕ} {a b : α}
  {w : ℕ → α → M}

def empty : ObjectIndex α where
  nextId := 0
  objects := []
  sorted := .nil
  fresh _ h := nomatch h

def find (ix : ObjectIndex α) (id : ℕ) : Option α :=
  (ix.objects.find? fun o ↦ o.1 = id).map Prod.snd

def create (ix : ObjectIndex α) (a : α) : ObjectIndex α where
  nextId := ix.nextId + 1
  objects := ix.objects ++ [(ix.nextId, a)]
  sorted := by
    rw [List.map_append, List.pairwise_append]
    refine ⟨ix.sorted, by simp, ?_⟩
    simp only [List.mem_map, List.map_cons, List.map_nil, List.mem_singleton, forall_eq]
    rintro _ ⟨o, ho, rfl⟩
    exact ix.fresh o ho
  fresh := by
    simp only [List.mem_append, List.mem_singleton]
    rintro o (ho | rfl)
    · exact (ix.fresh o ho).trans (Nat.lt_succ_self _)
    · exact Nat.lt_succ_self _

def replace (id : ℕ) (a : α) : List (ℕ × α) → List (ℕ × α) :=
  List.map fun o ↦ if o.1 = id then (id, a) else o

theorem replace_keys (id : ℕ) (a : α) (l : List (ℕ × α)) :
    (replace id a l).map Prod.fst = l.map Prod.fst := by
  rw [replace, List.map_map]
  apply List.map_congr_left
  intro o _
  simp only [Function.comp_apply]
  split_ifs with h
  · exact h.symm
  · rfl

/-- Writes a new value under an id that is in the index. -/
def set (ix : ObjectIndex α) (id : ℕ) (a : α) : ObjectIndex α where
  nextId := ix.nextId
  objects := replace id a ix.objects
  sorted := by
    rw [replace_keys]
    exact ix.sorted
  fresh o ho := by
    have hmem : o.1 ∈ (replace id a ix.objects).map Prod.fst := List.mem_map_of_mem ho
    rw [replace_keys] at hmem
    obtain ⟨p, hp, heq⟩ := List.mem_map.mp hmem
    exact heq ▸ ix.fresh p hp

def remove (ix : ObjectIndex α) (id : ℕ) : ObjectIndex α where
  nextId := ix.nextId
  objects := ix.objects.filter fun o ↦ o.1 ≠ id
  sorted := ix.sorted.sublist (List.filter_sublist.map Prod.fst)
  fresh o ho := ix.fresh o (List.mem_of_mem_filter ho)

/-- The objects that meet a condition, each before those it does not follow. -/
def select (ix : ObjectIndex α) (p : ℕ → α → Prop) [∀ i a, Decidable (p i a)]
    (follows : α → α → Prop) [∀ a b, Decidable (follows a b)] : List (ℕ × α) :=
  (ix.objects.filter fun o ↦ p o.1 o.2).insertionSort fun o o' ↦ ¬follows o.2 o'.2

/-- What the objects of an index count for together. -/
def total (w : ℕ → α → M) (ix : ObjectIndex α) : M := (ix.objects.map fun o ↦ w o.1 o.2).sum

/-! ## Finding objects -/

theorem key_unique {l : List (ℕ × α)} (hl : (l.map Prod.fst).Pairwise (· < ·))
    (ha : (id, a) ∈ l) (hb : (id, b) ∈ l) : a = b := by
  induction l with
  | nil => simp at ha
  | cons o l ih =>
      rw [List.map_cons, List.pairwise_cons] at hl
      have habove : ∀ c, (id, c) ∈ l → o.1 < id := fun c hc ↦
        hl.1 id (List.mem_map_of_mem (f := Prod.fst) hc)
      rcases List.mem_cons.mp ha with rfl | ha'
      · rcases List.mem_cons.mp hb with hb' | hb'
        · exact (Prod.mk.inj hb').2.symm
        · exact absurd (habove b hb') (lt_irrefl _)
      · rcases List.mem_cons.mp hb with rfl | hb'
        · exact absurd (habove a ha') (lt_irrefl _)
        · exact ih hl.2 ha' hb'

theorem find_eq_some : ix.find id = some a ↔ (id, a) ∈ ix.objects := by
  unfold find
  constructor
  · intro h
    obtain ⟨o, ho, rfl⟩ := Option.map_eq_some_iff.mp h
    have hkey : o.1 = id := by simpa using List.find?_some ho
    exact hkey ▸ List.mem_of_find?_eq_some ho
  · intro h
    cases hfind : ix.objects.find? fun o ↦ o.1 = id with
    | none =>
        have hne := List.find?_eq_none.mp hfind _ h
        simp at hne
    | some o =>
        have hkey : o.1 = id := by simpa using List.find?_some hfind
        have ho : (id, o.2) ∈ ix.objects := hkey ▸ List.mem_of_find?_eq_some hfind
        rw [Option.map_some, key_unique ix.sorted ho h]

theorem find_eq_none : ix.find id = none ↔ ∀ a, (id, a) ∉ ix.objects := by
  rw [Option.eq_none_iff_forall_ne_some]
  exact forall_congr' fun a ↦ not_congr find_eq_some

theorem find_nextId : ix.find ix.nextId = none :=
  find_eq_none.mpr fun _ h ↦ lt_irrefl _ (ix.fresh _ h)

theorem lt_nextId (h : ix.find id = some a) : id < ix.nextId := ix.fresh _ (find_eq_some.mp h)

@[simp] theorem find_empty : (empty : ObjectIndex α).find id = none := rfl

theorem mem_create {o : ℕ × α} :
    o ∈ (ix.create a).objects ↔ o ∈ ix.objects ∨ o = (ix.nextId, a) := by
  simp [create]

theorem find_create : (ix.create a).find id = if id = ix.nextId then some a else ix.find id := by
  apply Option.ext
  intro b
  rw [find_eq_some, mem_create]
  split_ifs with h
  · subst h
    constructor
    · rintro (hold | hnew)
      · exact absurd (ix.fresh _ hold) (lt_irrefl _)
      · rw [(Prod.mk.inj hnew).2]
    · rintro hb
      rw [Option.some.inj hb]
      exact .inr rfl
  · rw [find_eq_some]
    exact or_iff_left fun hnew ↦ h (Prod.mk.inj hnew).1

theorem mem_set {o : ℕ × α} (hid : ix.find id = some b) :
    o ∈ (ix.set id a).objects ↔ o = (id, a) ∨ o ∈ ix.objects ∧ o.1 ≠ id := by
  simp only [set, replace, List.mem_map]
  constructor
  · rintro ⟨p, hp, rfl⟩
    split_ifs with hkey
    · exact .inl rfl
    · exact .inr ⟨hp, hkey⟩
  · rintro (rfl | ⟨ho, hkey⟩)
    · exact ⟨(id, b), find_eq_some.mp hid, if_pos rfl⟩
    · exact ⟨o, ho, if_neg hkey⟩

theorem find_set (hid : ix.find id = some b) :
    (ix.set id a).find key = if key = id then some a else ix.find key := by
  apply Option.ext
  intro c
  rw [find_eq_some, mem_set hid]
  split_ifs with h
  · subst h
    simp [eq_comm]
  · rw [find_eq_some]
    constructor
    · rintro (hnew | ⟨hold, -⟩)
      · exact absurd (Prod.mk.inj hnew).1 h
      · exact hold
    · exact fun hold ↦ .inr ⟨hold, h⟩

theorem mem_remove {o : ℕ × α} : o ∈ (ix.remove id).objects ↔ o ∈ ix.objects ∧ o.1 ≠ id := by
  simp [remove]

theorem find_remove : (ix.remove id).find key = if key = id then none else ix.find key := by
  apply Option.ext
  intro c
  rw [find_eq_some, mem_remove]
  split_ifs with h
  · simp [h]
  · rw [find_eq_some]
    exact and_iff_left h

theorem remove_set : (ix.set id a).remove id = ix.remove id := by
  have hobjects : ∀ l : List (ℕ × α), ((replace id a l).filter fun o ↦ o.1 ≠ id) =
      l.filter fun o ↦ o.1 ≠ id := by
    intro l
    induction l with
    | nil => rfl
    | cons o l ih =>
        simp only [replace, List.map_cons] at ih ⊢
        split_ifs with h
        · rw [List.filter_cons_of_neg (by simp), List.filter_cons_of_neg (by simp [h]), ih]
        · rw [List.filter_cons_of_pos (by simpa using h), List.filter_cons_of_pos (by simpa using h),
            ih]
  simp only [remove, set, hobjects]

theorem set_set : (ix.set id a).set id b = ix.set id b := by
  have hobjects : replace id b (replace id a ix.objects) = replace id b ix.objects := by
    simp only [replace, List.map_map]
    apply List.map_congr_left
    intro o _
    simp only [Function.comp_apply]
    split_ifs <;> simp_all
  simp only [set, hobjects]

/-- An object may be replaced by itself. -/
theorem set_self (hid : ix.find id = some a) : ix.set id a = ix := by
  have hobjects : replace id a ix.objects = ix.objects := by
    refine (List.map_congr_left fun o ho ↦ ?_).trans (List.map_id _)
    split_ifs with hkey
    · subst hkey
      exact Prod.ext rfl (key_unique ix.sorted (find_eq_some.mp hid) ho)
    · rfl
  simp only [set, hobjects]

theorem mem_select {p : ℕ → α → Prop} [∀ i a, Decidable (p i a)] {follows : α → α → Prop}
    [∀ a b, Decidable (follows a b)] {o : ℕ × α} :
    o ∈ ix.select p follows ↔ ix.find o.1 = some o.2 ∧ p o.1 o.2 := by
  rw [select, List.mem_insertionSort, List.mem_filter, find_eq_some]
  simp

theorem nodup_select {p : ℕ → α → Prop} [∀ i a, Decidable (p i a)] {follows : α → α → Prop}
    [∀ a b, Decidable (follows a b)] : ((ix.select p follows).map Prod.fst).Nodup := by
  have hids : (ix.objects.map Prod.fst).Nodup := ix.sorted.imp ne_of_lt
  have hperm := (List.perm_insertionSort (fun o o' : ℕ × α ↦ ¬follows o.2 o'.2)
    (ix.objects.filter fun o ↦ p o.1 o.2)).map Prod.fst
  exact hperm.nodup_iff.mpr (hids.sublist (List.filter_sublist.map Prod.fst))

/-! ## The objects that meet a condition -/

section matching

variable {p : α → Prop} [DecidablePred p]

/-- The objects that meet a condition, by increasing id. -/
def matching (p : α → Prop) [DecidablePred p] (ix : ObjectIndex α) : List (ℕ × α) :=
  ix.objects.filter fun o ↦ p o.2

theorem mem_matching {o : ℕ × α} : o ∈ ix.matching p ↔ ix.find o.1 = some o.2 ∧ p o.2 := by
  rw [matching, List.mem_filter, find_eq_some]
  simp

theorem matching_sorted (p : α → Prop) [DecidablePred p] (ix : ObjectIndex α) :
    ((ix.matching p).map Prod.fst).Pairwise (· < ·) :=
  ix.sorted.sublist (List.filter_sublist.map Prod.fst)

theorem matching_create :
    (ix.create a).matching p = ix.matching p ++ if p a then [(ix.nextId, a)] else [] := by
  unfold matching create
  rw [List.filter_append]
  by_cases ha : p a <;> simp [ha]

theorem matching_remove (p : α → Prop) [DecidablePred p] (ix : ObjectIndex α) (id : ℕ) :
    (ix.remove id).matching p = (ix.matching p).filter fun o ↦ o.1 ≠ id := by
  unfold matching remove
  rw [List.filter_filter, List.filter_filter]
  exact List.filter_congr fun o _ ↦ Bool.and_comm _ _

/-- Removing the first object of the list. -/
theorem matching_remove_head {o : ℕ × α} {l : List (ℕ × α)} (h : ix.matching p = o :: l) :
    (ix.remove o.1).matching p = l := by
  have hsorted := ix.matching_sorted p
  rw [h, List.map_cons, List.pairwise_cons] at hsorted
  rw [matching_remove, h, List.filter_cons_of_neg (by simp)]
  refine List.filter_eq_self.mpr fun o' ho' ↦ ?_
  simpa using (hsorted.1 o'.1 (List.mem_map_of_mem ho')).ne'

theorem matching_remove_of_not (hid : ix.find id = some a) (ha : ¬p a) :
    (ix.remove id).matching p = ix.matching p := by
  rw [matching_remove]
  refine List.filter_eq_self.mpr fun o ho ↦ ?_
  obtain ⟨hfind, hp⟩ := mem_matching.mp ho
  have hne : o.1 ≠ id := by
    rintro rfl
    rw [hid] at hfind
    exact ha (Option.some.inj hfind ▸ hp)
  simpa using hne

theorem matching_set (hid : ix.find id = some b) (hp : p a ↔ p b) :
    (ix.set id a).matching p = replace id a (ix.matching p) := by
  have hobjects : ∀ l : List (ℕ × α), (∀ o ∈ l, o.1 = id → o.2 = b) →
      ((replace id a l).filter fun o ↦ p o.2) = replace id a (l.filter fun o ↦ p o.2) := by
    intro l hl
    induction l with
    | nil => rfl
    | cons o l ih =>
        have htail := ih fun o ho ↦ hl o (List.mem_cons_of_mem _ ho)
        have hhead := hl o List.mem_cons_self
        simp only [replace, List.map_cons] at htail ⊢
        by_cases hkey : o.1 = id
        · rw [if_pos hkey]
          by_cases hpb : p b
          · rw [List.filter_cons_of_pos (by simpa using hp.mpr hpb), htail,
              List.filter_cons_of_pos (by simpa [hhead hkey] using hpb), List.map_cons, if_pos hkey]
          · rw [List.filter_cons_of_neg (by simpa [hp] using hpb), htail,
              List.filter_cons_of_neg (by simpa [hhead hkey] using hpb)]
        · rw [if_neg hkey, List.filter_cons, List.filter_cons, htail]
          split_ifs with ho
          · rw [List.map_cons, if_neg hkey]
          · rfl
  refine hobjects ix.objects fun o ho hkey ↦ ?_
  have hfind := find_eq_some.mpr ho
  rw [hkey, hid] at hfind
  exact (Option.some.inj hfind).symm

theorem matching_set_of_not (hid : ix.find id = some b) (ha : ¬p a) (hb : ¬p b) :
    (ix.set id a).matching p = ix.matching p := by
  rw [matching_set hid (iff_of_false ha hb)]
  refine (List.map_congr_left fun o ho ↦ ?_).trans (List.map_id _)
  obtain ⟨hfind, hp⟩ := mem_matching.mp ho
  refine if_neg ?_
  rintro rfl
  rw [hid] at hfind
  exact hb (Option.some.inj hfind ▸ hp)

/-- Rewriting the first object of the list. -/
theorem matching_set_head {o : ℕ × α} {l : List (ℕ × α)} (h : ix.matching p = o :: l) (ha : p a) :
    (ix.set o.1 a).matching p = (o.1, a) :: l := by
  obtain ⟨hfind, hp⟩ := mem_matching.mp (h ▸ List.mem_cons_self : o ∈ ix.matching p)
  have hsorted := ix.matching_sorted p
  rw [h, List.map_cons, List.pairwise_cons] at hsorted
  rw [matching_set hfind (iff_of_true ha hp), h, replace, List.map_cons, if_pos rfl]
  congr 1
  refine (List.map_congr_left fun o' ho' ↦ ?_).trans (List.map_id _)
  exact if_neg (hsorted.1 o'.1 (List.mem_map_of_mem ho')).ne'

end matching

/-! ## Shrinking -/

/-- The objects of the second index are objects of the first that changed as `R` allows. -/
def Shrinks (R : α → α → Prop) (ix ix' : ObjectIndex α) : Prop :=
  ∀ id a', ix'.find id = some a' → ∃ a, ix.find id = some a ∧ R a a'

theorem Shrinks.refl {R : α → α → Prop} (hR : ∀ a, R a a) (ix : ObjectIndex α) :
    ix.Shrinks R ix := fun _ a h ↦ ⟨a, h, hR a⟩

theorem Shrinks.trans {R : α → α → Prop} (hR : ∀ a b c, R a b → R b c → R a c)
    {ix ix' ix'' : ObjectIndex α} (h : ix.Shrinks R ix') (h' : ix'.Shrinks R ix'') :
    ix.Shrinks R ix'' := by
  intro id c hc
  obtain ⟨b, hb, hbc⟩ := h' id c hc
  obtain ⟨a, ha, hab⟩ := h id b hb
  exact ⟨a, ha, hR a b c hab hbc⟩

theorem Shrinks.find_eq_none {R : α → α → Prop} {ix ix' : ObjectIndex α} (h : ix.Shrinks R ix')
    (hid : ix.find id = none) : ix'.find id = none := by
  cases hfind : ix'.find id with
  | none => rfl
  | some a' =>
      obtain ⟨a, ha, -⟩ := h id a' hfind
      simp [hid] at ha

theorem shrinks_remove {R : α → α → Prop} (hR : ∀ a, R a a) (ix : ObjectIndex α) (id : ℕ) :
    ix.Shrinks R (ix.remove id) := by
  intro key a h
  rw [find_remove] at h
  split_ifs at h
  exact ⟨a, h, hR a⟩

theorem shrinks_set {R : α → α → Prop} (hR : ∀ a, R a a) (hid : ix.find id = some b)
    (hab : R b a) : ix.Shrinks R (ix.set id a) := by
  intro key a' h
  rw [find_set hid] at h
  split_ifs at h with hkey
  · exact ⟨b, hkey ▸ hid, Option.some.inj h ▸ hab⟩
  · exact ⟨a', h, hR a'⟩

/-! ## What holds of every object -/

def Each (P : α → Prop) (ix : ObjectIndex α) : Prop := ∀ id a, ix.find id = some a → P a

section each

variable {P : α → Prop}

theorem Each.create (h : ix.Each P) (ha : P a) : (ix.create a).Each P := by
  intro key c hc
  rw [find_create] at hc
  split_ifs at hc
  · exact Option.some.inj hc ▸ ha
  · exact h key c hc

theorem Each.set (h : ix.Each P) (ha : P a) : (ix.set id a).Each P := by
  intro key c hc
  obtain ⟨o, ho, heq⟩ := List.mem_map.mp (find_eq_some.mp hc)
  split_ifs at heq
  · exact (Prod.mk.inj heq).2 ▸ ha
  · exact h o.1 c (find_eq_some.mpr (by rw [← (Prod.mk.inj heq).2]; exact ho))

theorem Each.remove (h : ix.Each P) : (ix.remove id).Each P := by
  intro key c hc
  rw [find_remove] at hc
  split_ifs at hc
  exact h key c hc

end each

/-! ## Totals -/

theorem total_create : total w (ix.create a) = total w ix + w ix.nextId a := by
  simp [total, create]

theorem sum_replace {l : List (ℕ × α)} (hl : (l.map Prod.fst).Pairwise (· < ·))
    (hb : (id, b) ∈ l) : ((replace id a l).map fun o ↦ w o.1 o.2).sum =
      (l.map fun o ↦ w o.1 o.2).sum - w id b + w id a := by
  induction l with
  | nil => simp at hb
  | cons o l ih =>
      rw [List.map_cons, List.pairwise_cons] at hl
      have hstep : replace id a (o :: l) =
          (if o.1 = id then (id, a) else o) :: replace id a l := rfl
      simp only [hstep, List.map_cons, List.sum_cons]
      rcases List.mem_cons.mp hb with rfl | hb'
      · have hrest : replace id a l = l := by
          have hid : ∀ p ∈ l, (if p.1 = id then (id, a) else p) = p := fun p hp ↦
            if_neg (hl.1 p.1 (List.mem_map_of_mem hp)).ne'
          rw [replace, List.map_congr_left hid, List.map_id']
        rw [if_pos rfl, hrest]
        abel
      · have hne : o.1 ≠ id := (hl.1 id (List.mem_map_of_mem (f := Prod.fst) hb')).ne
        rw [if_neg hne, ih hl.2 hb']
        abel

theorem total_set (hid : ix.find id = some b) :
    total w (ix.set id a) = total w ix - w id b + w id a :=
  sum_replace ix.sorted (find_eq_some.mp hid)

theorem sum_filter_ne {l : List (ℕ × α)} (hl : (l.map Prod.fst).Pairwise (· < ·))
    (hb : (id, b) ∈ l) : ((l.filter fun o ↦ o.1 ≠ id).map fun o ↦ w o.1 o.2).sum =
      (l.map fun o ↦ w o.1 o.2).sum - w id b := by
  induction l with
  | nil => simp at hb
  | cons o l ih =>
      rw [List.map_cons, List.pairwise_cons] at hl
      rcases List.mem_cons.mp hb with rfl | hb'
      · have hrest : (l.filter fun o ↦ o.1 ≠ id) = l := by
          apply List.filter_eq_self.mpr
          intro p hp
          simpa using (hl.1 p.1 (List.mem_map_of_mem hp)).ne'
        rw [List.filter_cons_of_neg (by simp), hrest, List.map_cons, List.sum_cons]
        abel
      · have hne : o.1 ≠ id := (hl.1 id (List.mem_map_of_mem (f := Prod.fst) hb')).ne
        rw [List.filter_cons_of_pos (by simpa using hne), List.map_cons, List.sum_cons,
          List.map_cons, List.sum_cons, ih hl.2 hb']
        abel

theorem total_remove (hid : ix.find id = some b) :
    total w (ix.remove id) = total w ix - w id b :=
  sum_filter_ne ix.sorted (find_eq_some.mp hid)

theorem total_congr {w' : ℕ → α → M} (h : ∀ id a, ix.find id = some a → w id a = w' id a) :
    total w ix = total w' ix := by
  apply congrArg List.sum
  apply List.map_congr_left
  exact fun o ho ↦ h o.1 o.2 (find_eq_some.mpr ho)

theorem total_eq_zero (h : ∀ id a, ix.find id = some a → w id a = 0) : total w ix = 0 := by
  have hzero : total w ix = total (fun _ _ ↦ 0) ix := total_congr h
  rw [hzero]
  simp [total]

/-- A homomorphism may be applied to what each object counts for. -/
theorem map_total {N : Type*} [AddCommGroup N] (f : M →+ N) (ix : ObjectIndex α) :
    f (total w ix) = total (fun id a ↦ f (w id a)) ix := by
  rw [total, map_list_sum, List.map_map]
  rfl

/-! ## Totals of numbers -/

theorem total_nonneg {w : ℕ → α → ℤ} (h : ∀ id a, ix.find id = some a → 0 ≤ w id a) :
    0 ≤ total w ix := by
  apply List.sum_nonneg
  intro x hx
  obtain ⟨o, ho, rfl⟩ := List.mem_map.mp hx
  exact h o.1 o.2 (find_eq_some.mpr ho)

/-- One object counts for no more than all of them when none counts for less than zero. -/
theorem le_total {w : ℕ → α → ℤ} (h : ∀ id a, ix.find id = some a → 0 ≤ w id a)
    (hid : ix.find id = some a) : w id a ≤ total w ix := by
  have hrest : 0 ≤ total w (ix.remove id) := by
    apply total_nonneg
    intro key b hb
    rw [find_remove] at hb
    split_ifs at hb
    exact h key b hb
  have hsplit := total_remove hid (w := w)
  omega

end ObjectIndex
