import Mathlib

/-!
# Branches of a tree of linked nodes

Every node names its parent by a key and has a height, and a partial function
goes up to the parent.  A branch is the list of the nodes from one node up to
those under a key.  Two branches to one key share the nodes above the first
parent that they have in common.
-/

/-- Nodes with one key have one parent, and heights count the steps up. -/
structure LinkedTree (α ι : Type) where
  nodes : Set α
  key : α → ι
  parent : α → ι
  height : α → ℕ
  up : α → Option α
  up_mem : ∀ {a b}, a ∈ nodes → up a = some b → b ∈ nodes
  key_up : ∀ {a b}, a ∈ nodes → up a = some b → key b = parent a
  height_up : ∀ {a b}, a ∈ nodes → up a = some b → height a = height b + 1
  height_eq_of_parent : ∀ {a b}, parent a = parent b → height a = height b
  parent_eq_of_key : ∀ {a b}, a ∈ nodes → b ∈ nodes → key a = key b → parent a = parent b

namespace LinkedTree

variable {α ι : Type} (t : LinkedTree α ι)

/-- The nodes from `a` on, the last of which has its parent under `p`. -/
inductive Branch : α → List α → ι → Prop
  | last {a : α} (ha : a ∈ t.nodes) : Branch a [a] (t.parent a)
  | next {a b : α} {l : List α} {p : ι} (ha : a ∈ t.nodes) (hup : t.up a = some b)
      (h : Branch b l p) : Branch a (a :: l) p

variable {t} {a b c : α} {l m : List α} {p q : ι}

namespace Branch

theorem eq_cons (h : t.Branch a l p) : ∃ rest, l = a :: rest := by
  cases h with
  | last => exact ⟨[], rfl⟩
  | next ha hup h => exact ⟨_, rfl⟩

theorem mem_start (h : t.Branch a l p) : a ∈ l := by
  obtain ⟨rest, rfl⟩ := h.eq_cons
  exact List.mem_cons_self

theorem start_mem (h : t.Branch a l p) : a ∈ t.nodes := by
  cases h with
  | last ha => exact ha
  | next ha hup h => exact ha

theorem mem_nodes (h : t.Branch a l p) : ∀ b ∈ l, b ∈ t.nodes := by
  induction h with
  | last ha =>
      intro b hb
      exact List.mem_singleton.mp hb ▸ ha
  | next ha hup h ih =>
      intro b hb
      rcases List.mem_cons.mp hb with rfl | hb
      · exact ha
      · exact ih b hb

/-- The start of a branch is its lowest node and the only one of its height. -/
theorem height_le (h : t.Branch a l p) (hb : b ∈ l) :
    t.height b ≤ t.height a ∧ (t.height b = t.height a → b = a) := by
  induction h with
  | last ha =>
      obtain rfl := List.mem_singleton.mp hb
      exact ⟨le_rfl, fun _ ↦ rfl⟩
  | next ha hup h ih =>
      have hstep := t.height_up ha hup
      rcases List.mem_cons.mp hb with rfl | hb
      · exact ⟨le_rfl, fun _ ↦ rfl⟩
      · have hle := (ih hb).1
        exact ⟨by omega, fun heq ↦ absurd heq (by omega)⟩

/-- Every node of a branch is above the ones before it. -/
theorem height_lt_of_append (h : t.Branch a (l ++ m) p) (hb : b ∈ l) (hc : c ∈ m) :
    t.height c < t.height b := by
  induction l generalizing a with
  | nil => exact absurd hb List.not_mem_nil
  | cons d l ih =>
      obtain ⟨rest, hrest⟩ := h.eq_cons
      obtain ⟨rfl, -⟩ := List.cons.inj hrest
      generalize hlist : d :: l ++ m = list at h
      cases h with
      | last ha =>
          have hnil : l ++ m = [] := (List.cons.inj hlist).2
          rw [List.append_eq_nil_iff] at hnil
          exact absurd (hnil.2 ▸ hc) List.not_mem_nil
      | next ha hup h =>
          have hstep := t.height_up ha hup
          obtain rfl := (List.cons.inj hlist).2
          rcases List.mem_cons.mp hb with rfl | hb
          · have hle := (h.height_le (List.mem_append_right _ hc)).1
            omega
          · exact ih h hb

/-- The last node, whose parent is under the key. -/
theorem getLast (h : t.Branch a l p) :
    ∃ c ∈ l.getLast?, t.parent c = p ∧ t.height c ≤ t.height a := by
  induction h with
  | last ha => exact ⟨_, rfl, rfl, le_rfl⟩
  | next ha hup h ih =>
      obtain ⟨c, hc, hp, hle⟩ := ih
      have hstep := t.height_up ha hup
      obtain ⟨rest, hrest⟩ := h.eq_cons
      refine ⟨c, ?_, hp, by omega⟩
      rw [hrest] at hc ⊢
      rwa [List.getLast?_cons_cons]

/-- Where the parent is under the key already, the branch ends. -/
theorem eq_singleton (h : t.Branch a l p) (hp : t.parent a = p) : l = [a] := by
  cases h with
  | last => rfl
  | next ha hup h =>
      obtain ⟨c, -, hc, hle⟩ := h.getLast
      have hheight := t.height_eq_of_parent (hp.trans hc.symm)
      have hstep := t.height_up ha hup
      omega

/-- A node goes up as long as its parent is not the key. -/
theorem up_of_ne (h : t.Branch a l p) (hp : t.parent a ≠ p) :
    ∃ b rest, l = a :: rest ∧ t.up a = some b ∧ t.Branch b rest p := by
  cases h with
  | last => exact absurd rfl hp
  | next ha hup h => exact ⟨_, _, rfl, hup, h⟩

/-- Above nodes that have one parent the branches have the same keys. -/
theorem keys_tail_eq (h : t.Branch a l p) (h' : t.Branch b m p)
    (hparent : t.parent a = t.parent b) : l.tail.map t.key = m.tail.map t.key := by
  induction h generalizing b m with
  | last ha =>
      rw [h'.eq_singleton hparent.symm]
      rfl
  | @next a c l p ha hup h ih =>
      have hne : t.parent a ≠ p := by
        intro heq
        have hsingle := (next ha hup h).eq_singleton heq
        obtain ⟨rest, rfl⟩ := h.eq_cons
        exact absurd hsingle (by simp)
      have hb := h'.start_mem
      obtain ⟨d, rest', rfl, hup', h'⟩ := h'.up_of_ne (hparent ▸ hne)
      have hkey : t.key c = t.key d := by
        rw [t.key_up ha hup, t.key_up hb hup', hparent]
      obtain ⟨rest, rfl⟩ := h.eq_cons
      have htail := ih h' (t.parent_eq_of_key h.start_mem h'.start_mem hkey)
      obtain ⟨rest', rfl⟩ := h'.eq_cons
      simp only [List.tail_cons, List.map_cons, hkey] at htail ⊢
      rw [htail]

/-- A node whose parent is the key is no higher than a branch to the key begins. -/
theorem height_le_of_parent (h : t.Branch a l p) (hc : t.parent c = p) :
    t.height c ≤ t.height a := by
  obtain ⟨d, -, hd, hle⟩ := h.getLast
  rw [t.height_eq_of_parent (hc.trans hd.symm)]
  exact hle

/-- Where one branch to the key ends, another one ends at that height, too. -/
theorem parent_eq (h : t.Branch b m p) (hheight : t.height a = t.height b)
    (hparent : t.parent a = p) : t.parent b = p := by
  by_contra hne
  have hb := h.start_mem
  obtain ⟨d, rest, -, hup, hd⟩ := h.up_of_ne hne
  have hstep := t.height_up hb hup
  have hle := hd.height_le_of_parent hparent
  omega

/-- What follows a part of a branch begins at the node its key names. -/
theorem append_cases (h : t.Branch a l q) (h' : t.Branch a (l ++ m) p) :
    (m = [] ∧ q = p) ∨ ∃ b rest, m = b :: rest ∧ t.key b = q ∧ t.Branch b m p := by
  induction h with
  | @last a ha =>
      cases h' with
      | last => exact .inl ⟨rfl, rfl⟩
      | @next _ b _ _ _ hup h' =>
          obtain ⟨rest, hrest⟩ := h'.eq_cons
          exact .inr ⟨b, rest, hrest, t.key_up ha hup, h'⟩
  | @next a b l q ha hup h ih =>
      obtain ⟨rest, rfl⟩ := h.eq_cons
      cases h' with
      | next _ hup' h' =>
          obtain rfl := Option.some.inj (hup.symm.trans hup')
          exact ih h'

/-- The end of a branch may be another branch from the same node. -/
theorem replace_end {n : List α} (h : t.Branch a (l ++ m) p) (hm : t.Branch b m p)
    (hn : t.Branch b n q) : t.Branch a (l ++ n) q := by
  induction l generalizing a with
  | nil =>
      obtain ⟨rest, hrest⟩ := h.eq_cons
      obtain ⟨rest', hrest'⟩ := hm.eq_cons
      obtain rfl : a = b := (List.cons.inj (hrest.symm.trans hrest')).1
      exact hn
  | cons c l ih =>
      obtain ⟨rest, hrest⟩ := hm.eq_cons
      generalize hlist : c :: l ++ m = list at h
      cases h with
      | last ha => simp [hrest] at hlist
      | next ha hup h =>
          obtain ⟨rfl, rfl⟩ := List.cons.inj hlist
          exact .next ha hup (ih h)

end Branch

end LinkedTree
