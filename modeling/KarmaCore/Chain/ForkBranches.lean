import Mathlib
import KarmaCore.Lib.Branch
import KarmaCore.Chain.ForkHead

/-!
# The branches of two blocks

`fetch_branch_from` goes down from two blocks until their predecessors are the
same.  Between siblings these are the blocks in which their branches differ; of
a block and one it descends from, both branches end with the lower one, which
is popped and applied again.
-/

namespace KarmaCore.Chain

variable {Tx Res Rest : Type}

namespace ForkDatabase

variable {f : ForkDatabase Tx Res} {hash : SignedBlock Tx Res → ℕ}

/-- All items that a weak pointer may still reach. -/
def reachable (f : ForkDatabase Tx Res) : List (ForkItem Tx Res) := f.head.toList ++ f.held ++ f.index

/-- An item has the number of its id, what its pointer reaches is the block its
predecessor's id names, and an id names one predecessor. -/
structure LinkedByPrevious (f : ForkDatabase Tx Res) : Prop where
  num : ∀ i ∈ f.reachable, i.id.num = i.num
  prev : ∀ i ∈ f.reachable, ∀ j ∈ f.reachable, f.lock i = some j → j.id = i.previousId
  previousId : ∀ i ∈ f.reachable, ∀ j ∈ f.reachable, i.id = j.id → i.previousId = j.previousId

theorem mem_reachable_of_lock {i j : ForkItem Tx Res} (h : f.lock i = some j) : j ∈ f.reachable := by
  obtain ⟨serial, -, hfind⟩ := Option.bind_eq_some_iff.mp h
  exact List.mem_of_find?_eq_some hfind

theorem mem_reachable_of_fetchBlock {id : BlockId} {i : ForkItem Tx Res}
    (h : f.fetchBlock id = some i) : i ∈ f.reachable ∧ i.id = id :=
  ⟨List.mem_append_right _ (List.mem_of_find?_eq_some h), by simpa using List.find?_some h⟩

/-- `get_block_ids_on_fork`: the ids of the fork, then the id both branches follow. -/
def getBlockIdsOnFork (f : ForkDatabase Tx Res) (headBlockId headOfFork : BlockId) :
    Checked (List BlockId) := do
  let (first, second) ← f.fetchBranchFrom headBlockId headOfFork
  match first.getLast? with
  | none => .error .danglingReference
  | some last => return second.map (·.id) ++ [last.previousId]

/-- Without collisions of ids, a linked fork database is one. -/
theorem Linked.linkedByPrevious (h : f.Linked hash)
    (hhash : ∀ b b' : SignedBlock Tx Res, b.id hash = b'.id hash → b.previous = b'.previous) :
    f.LinkedByPrevious := by
  have hitems : f.reachable = f.items := by rw [reachable, h.held, List.append_nil, items]
  refine ⟨fun i hi ↦ ?_, fun i hi j hj hlock ↦ ?_, fun i hi j hj hid ↦ ?_⟩
  · rw [h.ids i (hitems ▸ hi)]
    rfl
  · obtain ⟨serial, hprev, hfind⟩ := Option.bind_eq_some_iff.mp hlock
    have hserial : j.serial = serial := by simpa using List.find?_some hfind
    exact h.prev i (hitems ▸ hi) j (hitems ▸ hj) (hserial ▸ hprev)
  · rw [h.ids i (hitems ▸ hi), h.ids j (hitems ▸ hj)] at hid
    exact hhash _ _ hid

/-- The items as nodes, with the predecessor as the parent. -/
def LinkedByPrevious.tree (h : f.LinkedByPrevious) : LinkedTree (ForkItem Tx Res) BlockId where
  nodes := {i | i ∈ f.reachable}
  key := ForkItem.id
  parent := ForkItem.previousId
  height := ForkItem.num
  up := f.lock
  up_mem _ hup := mem_reachable_of_lock hup
  key_up ha hup := h.prev _ ha _ (mem_reachable_of_lock hup) hup
  height_up {a b} ha hup := by
    have hb := mem_reachable_of_lock hup
    rw [← h.num b hb, h.prev a ha b hb hup]
    rfl
  height_eq_of_parent {a b} hparent := congrArg (fun id : BlockId ↦ id.num + 1) hparent
  parent_eq_of_key {a b} ha hb := h.previousId a ha b hb

/-- The items from one item down to those that follow `p`. -/
abbrev BranchTo (h : f.LinkedByPrevious) (item : ForkItem Tx Res) (l : List (ForkItem Tx Res))
    (p : BlockId) : Prop :=
  h.tree.Branch item l p

variable {h : f.LinkedByPrevious} {first second : ForkItem Tx Res}
  {as bs : List (ForkItem Tx Res)} {p : BlockId} {n fuel : ℕ}

/-! ## The loops -/

/-- The first loops stop at a number, or at once. -/
theorem descend_branch (ha : BranchTo h first as p)
    (hn : ∀ i : ForkItem Tx Res, i.previousId = p → i.num ≤ n) (hfuel : first.num - n < fuel) :
    ∃ above low below, as = above ++ below ∧ BranchTo h low below p ∧
      f.descend n fuel first = .ok (above, low) ∧ low.num = min first.num n ∧
      ∀ i ∈ above, n < i.num := by
  induction fuel generalizing first as with
  | zero => exact absurd hfuel (by omega)
  | succ fuel ih =>
      rw [descend]
      by_cases hlt : n < first.num
      · have hne : h.tree.parent first ≠ p := fun heq ↦ absurd (hn first heq) (by omega)
        have hmem := ha.start_mem
        obtain ⟨prev, rest, rfl, hup, hrest⟩ := ha.up_of_ne hne
        have hstep : first.num = prev.num + 1 := h.tree.height_up hmem hup
        obtain ⟨above, low, below, rfl, hbelow, hdescend, hnum, habove⟩ := ih hrest (by omega)
        have hlock : f.lock first = some prev := hup
        refine ⟨first :: above, low, below, rfl, hbelow, ?_, by omega, ?_⟩
        · rw [if_pos hlt, hlock]
          simp only [hdescend, bind, Except.bind, pure, Except.pure]
        · intro i hi
          rcases List.mem_cons.mp hi with rfl | hi
          · exact hlt
          · exact habove i hi
      · exact ⟨[], first, as, rfl, ha, if_neg hlt, by omega, by simp⟩

/-- Items of different numbers have different ids. -/
theorem LinkedByPrevious.id_ne (h : f.LinkedByPrevious) {i j : ForkItem Tx Res}
    (hi : i ∈ f.reachable) (hj : j ∈ f.reachable) (hnum : i.num ≠ j.num) : i.id ≠ j.id := by
  intro heq
  exact hnum (by rw [← h.num i hi, ← h.num j hj, heq])

theorem BranchTo.id_ne {i j : ForkItem Tx Res} (ha : BranchTo h first as p) (hi : i ∈ as)
    (hj : j ∈ f.reachable) (hlt : first.num < j.num) : i.id ≠ j.id := by
  have hle : i.num ≤ first.num := (ha.height_le hi).1
  exact h.id_ne (ha.mem_nodes i hi) hj (by omega)

/-- The last loop stops at the first items that have one predecessor: from there
on the branches are the same. -/
theorem meet_branch (ha : BranchTo h first as p) (hb : BranchTo h second bs p)
    (hnum : first.num = second.num) (hfuel : first.num < fuel) :
    ∃ q as' bs' below below', as = as' ++ below ∧ bs = bs' ++ below' ∧
      f.meet fuel first second = .ok (as', bs') ∧ BranchTo h first as' q ∧ BranchTo h second bs' q ∧
      below.map (·.id) = below'.map (·.id) ∧
      (first.id ≠ second.id → ∀ i ∈ as', ∀ j ∈ bs', i.id ≠ j.id) := by
  induction fuel generalizing first second as bs with
  | zero => exact absurd hfuel (by omega)
  | succ fuel ih =>
      rw [meet]
      by_cases hsame : first.previousId = second.previousId
      · have htails := ha.keys_tail_eq hb hsame
        have hfirst := ha.start_mem
        have hsecond : BranchTo h second [second] second.previousId := .last hb.start_mem
        obtain ⟨below, rfl⟩ := ha.eq_cons
        obtain ⟨below', rfl⟩ := hb.eq_cons
        refine ⟨first.previousId, [first], [second], below, below', rfl, rfl, ?_, .last hfirst, ?_,
          htails, ?_⟩
        · rw [if_neg (not_not.mpr hsame)]
        · rwa [hsame]
        · intro hne i hi j hj
          rwa [List.mem_singleton.mp hi, List.mem_singleton.mp hj]
      · have hne : first.previousId ≠ p := fun heq ↦
          hsame (heq.trans (hb.parent_eq hnum heq).symm)
        have hne' : second.previousId ≠ p := fun heq ↦
          hsame ((ha.parent_eq hnum.symm heq).trans heq.symm)
        have hmem := ha.start_mem
        have hmem' := hb.start_mem
        obtain ⟨prev, rest, rfl, hup, hrest⟩ := ha.up_of_ne hne
        obtain ⟨prev', rest', rfl, hup', hrest'⟩ := hb.up_of_ne hne'
        have hstep : first.num = prev.num + 1 := h.tree.height_up hmem hup
        have hstep' : second.num = prev'.num + 1 := h.tree.height_up hmem' hup'
        have hid : prev.id = first.previousId := h.tree.key_up hmem hup
        have hid' : prev'.id = second.previousId := h.tree.key_up hmem' hup'
        obtain ⟨q, as', bs', below, below', rfl, rfl, hmeet, has', hbs', hbelow, hdisjoint⟩ :=
          ih hrest hrest' (by omega) (by omega)
        have hlock : f.lock first = some prev := hup
        have hlock' : f.lock second = some prev' := hup'
        refine ⟨q, first :: as', second :: bs', below, below', rfl, rfl, ?_, .next hmem hup has',
          .next hmem' hup' hbs', hbelow, ?_⟩
        · rw [if_pos hsame, hlock, hlock']
          simp only [hmeet, bind, Except.bind, pure, Except.pure]
        · intro hids i hi j hj
          rcases List.mem_cons.mp hi with rfl | hi <;> rcases List.mem_cons.mp hj with rfl | hj
          · exact hids
          · exact (hbs'.id_ne hj hmem (by omega)).symm
          · exact has'.id_ne hi hmem' (by omega)
          · exact hdisjoint (by rwa [hid, hid']) i hi j hj

/-! ## The difference of two branches -/

/-- The blocks of a branch that are not on another one. -/
def onlyIn (as bs : List (ForkItem Tx Res)) : List (ForkItem Tx Res) :=
  as.filter fun i ↦ i.id ∉ bs.map (·.id)

/-- The most recent block two branches to `p` have in common, if not `p` itself. -/
def commonAncestor (as bs : List (ForkItem Tx Res)) (p : BlockId) : BlockId :=
  ((as.find? fun i ↦ i.id ∈ bs.map (·.id)).map (·.id)).getD p

/-- Neither block is an ancestor of the other, nor is it the other. -/
structure Siblings (first second : ForkItem Tx Res) (as bs : List (ForkItem Tx Res)) : Prop where
  first : first.id ∉ bs.map (·.id)
  second : second.id ∉ as.map (·.id)

/-- Both callers pop and apply exactly the difference of the branches. -/
structure BranchesRight (f : ForkDatabase Tx Res) (first second : ForkItem Tx Res)
    (as bs : List (ForkItem Tx Res)) (p : BlockId) : Prop where
  fetch : f.fetchBranchFrom first.id second.id = .ok (onlyIn as bs, onlyIn bs as)
  onFork : f.getBlockIdsOnFork first.id second.id =
    .ok ((onlyIn bs as).map (·.id) ++ [commonAncestor as bs p])

/-- What the branches of siblings are: they start with the blocks, go down to
blocks that follow their most recent common ancestor, and share none. -/
structure Parted (h : f.LinkedByPrevious) (first second : ForkItem Tx Res)
    (as bs as' bs' : List (ForkItem Tx Res)) (q : BlockId) : Prop where
  first : BranchTo h first as' q
  second : BranchTo h second bs' q
  disjoint : ∀ i ∈ as', ∀ j ∈ bs', i.id ≠ j.id
  recent : ∀ i ∈ as, i.id ∈ bs.map (·.id) → i.num ≤ q.num

/-- How two branches fall apart: two branches to one key, and the end they share. -/
structure Parts (h : f.LinkedByPrevious) (first second : ForkItem Tx Res)
    (as bs as' bs' below below' : List (ForkItem Tx Res)) (q : BlockId) : Prop where
  firstParts : as = as' ++ below
  secondParts : bs = bs' ++ below'
  firstBranch : BranchTo h first as' q
  secondBranch : BranchTo h second bs' q
  below : below.map (·.id) = below'.map (·.id)
  disjoint : Siblings first second as bs → ∀ i ∈ as', ∀ j ∈ bs', i.id ≠ j.id

/-- A branch is found down to the first predecessor both have. -/
theorem fetchBranchFrom_branch (hfirst : f.fetchBlock first.id = some first)
    (hsecond : f.fetchBlock second.id = some second) (ha : BranchTo h first as p)
    (hb : BranchTo h second bs p) :
    ∃ as' bs' below below' q, f.fetchBranchFrom first.id second.id = .ok (as', bs') ∧
      Parts h first second as bs as' bs' below below' q := by
  have hn : ∀ i : ForkItem Tx Res, i.previousId = p → i.num ≤ second.num := fun i hi ↦
    hb.height_le_of_parent hi
  have hfuel : first.num - second.num < first.num + 1 := by omega
  obtain ⟨above, low, mid, has, hlow, hdescend, hnum, habove⟩ :=
    descend_branch ha hn hfuel
  have hn' : ∀ i : ForkItem Tx Res, i.previousId = p → i.num ≤ low.num := fun i hi ↦
    hlow.height_le_of_parent hi
  have hfuel' : second.num - low.num < second.num + 1 := by omega
  obtain ⟨above', low', mid', hbs, hlow', hdescend', hnum', habove'⟩ :=
    descend_branch hb hn' hfuel'
  obtain ⟨q, as', bs', below, below', hmid, hmid', hmeet, has', hbs', hbelow, hdisjoint⟩ :=
    meet_branch hlow hlow' (by omega) low.num.lt_succ_self
  subst hmid hmid'
  have hlowMem : low ∈ as := has ▸ List.mem_append_right _ hlow.mem_start
  have hlowMem' : low' ∈ bs := hbs ▸ List.mem_append_right _ hlow'.mem_start
  refine ⟨above ++ as', above' ++ bs', below, below', q, ?_, by rw [has, List.append_assoc],
    by rw [hbs, List.append_assoc], (has ▸ ha).replace_end hlow has',
    (hbs ▸ hb).replace_end hlow' hbs', hbelow, ?_⟩
  · simp only [fetchBranchFrom, hfirst, hsecond, hdescend, hdescend', hmeet, bind, Except.bind,
      pure, Except.pure]
  · intro hsiblings i hi j hj
    have hi' : i ∈ as := by
      rw [has, ← List.append_assoc]
      exact List.mem_append_left _ hi
    have hj' : j ∈ bs := by
      rw [hbs, ← List.append_assoc]
      exact List.mem_append_left _ hj
    -- at the number both have, they are different blocks
    have hids : low.id ≠ low'.id := by
      intro heq
      rcases le_total first.num second.num with hle | hle
      · obtain rfl : low = first := (ha.height_le hlowMem).2 (by change low.num = first.num; omega)
        exact hsiblings.first (heq ▸ List.mem_map_of_mem hlowMem')
      · obtain rfl : low' = second :=
          (hb.height_le hlowMem').2 (by change low'.num = second.num; omega)
        exact hsiblings.second (heq ▸ List.mem_map_of_mem hlowMem)
    rcases List.mem_append.mp hi with hi | hi
    · exact (hb.id_ne hj' (ha.mem_nodes i hi') (habove i hi)).symm
    rcases List.mem_append.mp hj with hj | hj
    · have hle : j.num ≤ second.num := (hb.height_le hj').1
      have hlt := habove' j hj
      exact ha.id_ne hi' (hb.mem_nodes j hj') (by omega)
    · exact hdisjoint hids i hi j hj

/-- The ids of a branch are all different. -/
theorem BranchTo.id_ne_of_append {above below : List (ForkItem Tx Res)}
    (ha : BranchTo h first (above ++ below) p) {i j : ForkItem Tx Res} (hi : i ∈ above)
    (hj : j ∈ below) : i.id ≠ j.id := by
  have hlt : j.num < i.num := ha.height_lt_of_append hi hj
  apply h.id_ne
  · exact ha.mem_nodes i (List.mem_append_left _ hi)
  · exact ha.mem_nodes j (List.mem_append_right _ hj)
  · exact hlt.ne'

theorem Siblings.symm (hsiblings : Siblings first second as bs) : Siblings second first bs as :=
  ⟨hsiblings.second, hsiblings.first⟩

namespace Parts

variable {as' bs' below below' : List (ForkItem Tx Res)} {q : BlockId}

theorem symm (hparts : Parts h first second as bs as' bs' below below' q) :
    Parts h second first bs as bs' as' below' below q where
  firstParts := hparts.secondParts
  secondParts := hparts.firstParts
  firstBranch := hparts.secondBranch
  secondBranch := hparts.firstBranch
  below := hparts.below.symm
  disjoint hsiblings i hi j hj := (hparts.disjoint hsiblings.symm j hj i hi).symm

/-- The end that both branches share is on both. -/
theorem below_mem (hparts : Parts h first second as bs as' bs' below below' q)
    {i : ForkItem Tx Res} (hi : i ∈ below) : i.id ∈ bs.map (·.id) := by
  rw [hparts.secondParts, List.map_append, ← hparts.below]
  exact List.mem_append_right _ (List.mem_map_of_mem hi)

/-- Nothing before it is, where the blocks are siblings. -/
theorem above_notMem (hparts : Parts h first second as bs as' bs' below below' q)
    (ha : BranchTo h first as p) (hsiblings : Siblings first second as bs)
    {i : ForkItem Tx Res} (hi : i ∈ as') : i.id ∉ bs.map (·.id) := by
  intro hmem
  rw [hparts.secondParts, List.map_append, ← hparts.below] at hmem
  rcases List.mem_append.mp hmem with hmem | hmem
  · obtain ⟨j, hj, hid⟩ := List.mem_map.mp hmem
    exact hparts.disjoint hsiblings i hi j hj hid.symm
  · obtain ⟨j, hj, hid⟩ := List.mem_map.mp hmem
    exact (hparts.firstParts ▸ ha).id_ne_of_append hi hj hid.symm

/-- Of siblings the branches are the difference. -/
theorem eq_onlyIn (hparts : Parts h first second as bs as' bs' below below' q)
    (ha : BranchTo h first as p) (hsiblings : Siblings first second as bs) :
    as' = onlyIn as bs := by
  have hbelow : onlyIn below bs = [] := by
    apply List.filter_eq_nil_iff.mpr
    intro i hi
    simpa using hparts.below_mem hi
  have habove : onlyIn as' bs = as' := by
    apply List.filter_eq_self.mpr
    intro i hi
    simpa using hparts.above_notMem ha hsiblings hi
  calc as' = onlyIn as' bs ++ onlyIn below bs := by rw [hbelow, habove, List.append_nil]
    _ = onlyIn as bs := by rw [hparts.firstParts]; exact (List.filter_append ..).symm

/-- They meet at the most recent common ancestor. -/
theorem commonAncestor_eq (hparts : Parts h first second as bs as' bs' below below' q)
    (ha : BranchTo h first as p) (hsiblings : Siblings first second as bs) :
    commonAncestor as bs p = q := by
  have habove : (as'.find? fun i ↦ i.id ∈ bs.map (·.id)) = none := by
    apply List.find?_eq_none.mpr
    intro i hi
    simpa using hparts.above_notMem ha hsiblings hi
  rw [commonAncestor, hparts.firstParts, List.find?_append, habove, Option.none_or]
  rcases hparts.firstBranch.append_cases (hparts.firstParts ▸ ha) with ⟨rfl, rfl⟩ |
    ⟨b, rest, rfl, hkey, -⟩
  · rfl
  · have hb : b.id ∈ bs.map (·.id) := hparts.below_mem List.mem_cons_self
    rw [List.find?_cons, decide_eq_true hb]
    exact hkey

/-- The common blocks are not above it. -/
theorem num_le (hparts : Parts h first second as bs as' bs' below below' q)
    (ha : BranchTo h first as p) (hsiblings : Siblings first second as bs) {i : ForkItem Tx Res}
    (hi : i ∈ as) (hmem : i.id ∈ bs.map (·.id)) : i.num ≤ q.num := by
  rw [hparts.firstParts] at hi
  rcases List.mem_append.mp hi with hi | hi
  · exact absurd hmem (hparts.above_notMem ha hsiblings hi)
  rcases hparts.firstBranch.append_cases (hparts.firstParts ▸ ha) with ⟨rfl, -⟩ |
    ⟨b, rest, rfl, hkey, hbranch⟩
  · exact absurd hi List.not_mem_nil
  · have hle : i.num ≤ b.num := (hbranch.height_le hi).1
    have hnum : b.id.num = b.num := h.num b hbranch.start_mem
    rw [← hkey]
    exact hle.trans hnum.ge

end Parts

/-! ## Which results there are -/

/-- What the first loops collect leads from an item to the one they end with. -/
theorem descend_cases {above : List (ForkItem Tx Res)} {low : ForkItem Tx Res}
    (hfirst : first ∈ f.reachable) (hdescend : f.descend n fuel first = .ok (above, low)) :
    low ∈ f.reachable ∧
      ∀ l q, BranchTo h low l q → BranchTo h first (above ++ l) q := by
  induction fuel generalizing first above with
  | zero => exact nomatch hdescend
  | succ fuel ih =>
      rw [descend] at hdescend
      split_ifs at hdescend with hlt
      · cases hlock : f.lock first with
        | none => exact absurd hdescend (by simp [hlock])
        | some prev =>
            simp only [hlock, Checked.bind_eq_ok, Checked.pure_eq_ok] at hdescend
            obtain ⟨⟨rest, last⟩, hrest, heq⟩ := hdescend
            obtain ⟨rfl, rfl⟩ := Prod.mk.inj heq
            obtain ⟨hlow, hbranch⟩ := ih (mem_reachable_of_lock hlock) hrest
            exact ⟨hlow, fun l q hl ↦ .next hfirst hlock (hbranch l q hl)⟩
      · obtain ⟨rfl, rfl⟩ := Prod.mk.inj (Except.ok.inj hdescend)
        exact ⟨hfirst, fun l q hl ↦ hl⟩

/-- What the last loop collects are branches to one predecessor. -/
theorem meet_cases (hfirst : first ∈ f.reachable) (hsecond : second ∈ f.reachable)
    (hmeet : f.meet fuel first second = .ok (as, bs)) :
    ∃ q, BranchTo h first as q ∧ BranchTo h second bs q := by
  induction fuel generalizing first second as bs with
  | zero => exact nomatch hmeet
  | succ fuel ih =>
      rw [meet] at hmeet
      split_ifs at hmeet with hne
      · cases hlock : f.lock first with
        | none => exact absurd hmeet (by simp [hlock])
        | some prev =>
            cases hlock' : f.lock second with
            | none => exact absurd hmeet (by simp [hlock, hlock'])
            | some prev' =>
                simp only [hlock, hlock', Checked.bind_eq_ok, Checked.pure_eq_ok] at hmeet
                obtain ⟨⟨rest, rest'⟩, hrest, heq⟩ := hmeet
                obtain ⟨rfl, rfl⟩ := Prod.mk.inj heq
                obtain ⟨q, ha, hb⟩ :=
                  ih (mem_reachable_of_lock hlock) (mem_reachable_of_lock hlock') hrest
                exact ⟨q, .next hfirst hlock ha, .next hsecond hlock' hb⟩
      · obtain ⟨rfl, rfl⟩ := Prod.mk.inj (Except.ok.inj hmeet)
        have hsame : first.previousId = second.previousId := not_not.mp hne
        have hlast : BranchTo h second [second] second.previousId := .last hsecond
        exact ⟨first.previousId, .last hfirst, hsame ▸ hlast⟩

/-- Branches are returned exactly where both blocks are linked down to one
predecessor; over a link that was cut the function throws. -/
theorem fetchBranchFrom_isOk_iff (h : f.LinkedByPrevious)
    (hfirst : f.fetchBlock first.id = some first)
    (hsecond : f.fetchBlock second.id = some second) :
    (∃ branches, f.fetchBranchFrom first.id second.id = .ok branches) ↔
      ∃ as bs p, BranchTo h first as p ∧ BranchTo h second bs p := by
  constructor
  · rintro ⟨⟨as, bs⟩, hfetch⟩
    simp only [fetchBranchFrom, hfirst, hsecond, Checked.bind_eq_ok, Checked.pure_eq_ok] at hfetch
    obtain ⟨⟨above, low⟩, hdescend, ⟨above', low'⟩, hdescend', ⟨as', bs'⟩, hmeet, -⟩ := hfetch
    obtain ⟨hlow, hbranch⟩ := descend_cases (mem_reachable_of_fetchBlock hfirst).1 hdescend
    obtain ⟨hlow', hbranch'⟩ := descend_cases (mem_reachable_of_fetchBlock hsecond).1 hdescend'
    obtain ⟨q, ha, hb⟩ := meet_cases hlow hlow' hmeet
    exact ⟨_, _, q, hbranch _ q ha, hbranch' _ q hb⟩
  · rintro ⟨as, bs, p, ha, hb⟩
    obtain ⟨as', bs', -, -, -, hfetch, -⟩ := fetchBranchFrom_branch hfirst hsecond ha hb
    exact ⟨_, hfetch⟩

/-- Popping and applying the branches goes exactly through the difference where
neither block is an ancestor of the other, nor the other: there the branches
part at the most recent common ancestor. -/
theorem branchesRight_iff (h : f.LinkedByPrevious) (hfirst : f.fetchBlock first.id = some first)
    (hsecond : f.fetchBlock second.id = some second) :
    ((∃ branches, f.fetchBranchFrom first.id second.id = .ok branches) ↔
      ∃ as bs p, BranchTo h first as p ∧ BranchTo h second bs p) ∧
    ∀ as bs p, BranchTo h first as p → BranchTo h second bs p →
      (BranchesRight f first second as bs p ↔ Siblings first second as bs) ∧
      (Siblings first second as bs →
        Parted h first second as bs (onlyIn as bs) (onlyIn bs as) (commonAncestor as bs p)) := by
  refine ⟨fetchBranchFrom_isOk_iff h hfirst hsecond, fun as bs p ha hb ↦ ?_⟩
  obtain ⟨as', bs', below, below', q, hfetch, hparts⟩ :=
    fetchBranchFrom_branch hfirst hsecond ha hb
  refine ⟨⟨fun hright ↦ ?_, fun hsiblings ↦ ?_⟩, fun hsiblings ↦ ?_⟩
  · obtain ⟨has, hbs⟩ := Prod.mk.inj (Except.ok.inj (hfetch.symm.trans hright.fetch))
    have hmem := hparts.firstBranch.mem_start
    have hmem' := hparts.secondBranch.mem_start
    rw [has, onlyIn, List.mem_filter, decide_eq_true_iff] at hmem
    rw [hbs, onlyIn, List.mem_filter, decide_eq_true_iff] at hmem'
    exact ⟨hmem.2, hmem'.2⟩
  · have has := hparts.eq_onlyIn ha hsiblings
    have hbs := hparts.symm.eq_onlyIn hb hsiblings.symm
    obtain ⟨last, hlast, hprev, -⟩ := hparts.firstBranch.getLast
    refine ⟨by rw [hfetch, has, hbs], ?_⟩
    rw [getBlockIdsOnFork, hfetch, hparts.commonAncestor_eq ha hsiblings, ← hbs]
    simp only [bind, Except.bind, Option.mem_def.mp hlast]
    rw [show last.previousId = q from hprev]
    rfl
  · rw [← hparts.eq_onlyIn ha hsiblings, ← hparts.symm.eq_onlyIn hb hsiblings.symm,
      hparts.commonAncestor_eq ha hsiblings]
    exact ⟨hparts.firstBranch, hparts.secondBranch, hparts.disjoint hsiblings,
      fun i hi hmem ↦ hparts.num_le ha hsiblings hi hmem⟩

end ForkDatabase

/-! ## Two siblings, and a block above the head -/

/-- The item of a block that was pushed in its turn. -/
def pairedItem (serial : ℕ) (prev : Option ℕ) (b : SignedBlock ℕ ℕ) : ForkItem ℕ ℕ :=
  ⟨serial, prev, b.id pairedCode.blockHash, b⟩

def firstItem : ForkItem ℕ ℕ := pairedItem 0 none firstBlock

def nextItem : ForkItem ℕ ℕ := pairedItem 1 (some 0) nextBlock

def rivalItem : ForkItem ℕ ℕ :=
  pairedItem 2 (some 0) ⟨firstBlock.id pairedCode.blockHash, 15, 0, 0, 7, []⟩

/-- Two blocks after the first one. -/
def rivalFork : ForkDatabase ℕ ℕ where
  index := [rivalItem, nextItem, firstItem]
  head := some nextItem
  nextSerial := 3

theorem linkedByPrevious_rivalFork : rivalFork.LinkedByPrevious where
  num := by decide
  prev := by
    have hprev : ∀ i ∈ rivalFork.reachable, ∀ j ∈ rivalFork.lock i, j.id = i.previousId := by decide
    exact fun i hi j _ hlock ↦ hprev i hi j hlock
  previousId := by decide

/-- Of the siblings only the two blocks are popped and applied. -/
theorem branchesRight_rivalFork :
    rivalFork.BranchesRight nextItem rivalItem [nextItem, firstItem] [rivalItem, firstItem]
      .null := by
  have hnext : rivalFork.fetchBlock nextItem.id = some nextItem := rfl
  have hrival : rivalFork.fetchBlock rivalItem.id = some rivalItem := rfl
  have hfirst : rivalFork.fetchBlock firstItem.id = some firstItem := rfl
  have hlast : ForkDatabase.BranchTo linkedByPrevious_rivalFork firstItem [firstItem] .null :=
    .last (ForkDatabase.mem_reachable_of_fetchBlock hfirst).1
  apply ((ForkDatabase.branchesRight_iff linkedByPrevious_rivalFork hnext hrival).2 _ _ _ ?_ ?_).1.mpr
  · exact ⟨by decide, by decide⟩
  · exact .next (ForkDatabase.mem_reachable_of_fetchBlock hnext).1 rfl hlast
  · exact .next (ForkDatabase.mem_reachable_of_fetchBlock hrival).1 rfl hlast

/-- The first database, opened again. -/
def reopenedDatabase : Database ℕ ℕ ℕ where
  objects := firstDatabase.objects
  forkDb := ({} : ForkDatabase ℕ ℕ).startBlock firstItem.id firstBlock
  blockLog := firstDatabase.blockLog

/-- The block after the first one was applied and popped. -/
def poppedDatabase : Database ℕ ℕ ℕ :=
  (reopenedDatabase.step pairedCode (.pushBlock nextBlock)).step pairedCode .popBlock

def thirdItem : ForkItem ℕ ℕ :=
  pairedItem 2 (some 1) ⟨nextItem.id, 15, 0, 0, 7, []⟩

def thirdFork : ForkDatabase ℕ ℕ where
  index := [thirdItem, nextItem, firstItem]
  head := some thirdItem
  maxSize := poppedDatabase.forkDb.maxSize
  nextSerial := 3

theorem linkedByPrevious_thirdFork : thirdFork.LinkedByPrevious where
  num := by decide
  prev := by
    have hprev : ∀ i ∈ thirdFork.reachable, ∀ j ∈ thirdFork.lock i, j.id = i.previousId := by decide
    exact fun i hi j _ hlock ↦ hprev i hi j hlock
  previousId := by decide

/-- Two blocks are missing above the head, but it is popped, too, which throws
where it cannot be undone. -/
theorem not_branchesRight_thirdFork :
    poppedDatabase.forkDb.pushBlock thirdItem.id thirdItem.data = .ok thirdFork ∧
    poppedDatabase.objects.head.id = firstItem.id ∧
    ForkDatabase.BranchTo linkedByPrevious_thirdFork thirdItem [thirdItem, nextItem, firstItem]
      .null ∧
    ForkDatabase.BranchTo linkedByPrevious_thirdFork firstItem [firstItem] .null ∧
    thirdFork.fetchBranchFrom thirdItem.id firstItem.id =
      .ok ([thirdItem, nextItem, firstItem], [firstItem]) ∧
    thirdFork.getBlockIdsOnFork thirdItem.id firstItem.id = .ok [firstItem.id, .null] ∧
    ¬thirdFork.BranchesRight thirdItem firstItem [thirdItem, nextItem, firstItem] [firstItem]
      .null ∧
    ∃ db, poppedDatabase.pushBlock pairedCode {} thirdItem.data =
      .threw (.assertion "!_stack.empty()") db := by
  have hthird : thirdFork.fetchBlock thirdItem.id = some thirdItem := rfl
  have hnext : thirdFork.fetchBlock nextItem.id = some nextItem := rfl
  have hfirst : thirdFork.fetchBlock firstItem.id = some firstItem := rfl
  have hlast : ForkDatabase.BranchTo linkedByPrevious_thirdFork firstItem [firstItem] .null :=
    .last (ForkDatabase.mem_reachable_of_fetchBlock hfirst).1
  have hmiddle : ForkDatabase.BranchTo linkedByPrevious_thirdFork nextItem [nextItem, firstItem]
      .null := .next (ForkDatabase.mem_reachable_of_fetchBlock hnext).1 rfl hlast
  have hbranch : ForkDatabase.BranchTo linkedByPrevious_thirdFork thirdItem
      [thirdItem, nextItem, firstItem] .null :=
    .next (ForkDatabase.mem_reachable_of_fetchBlock hthird).1 rfl hmiddle
  refine ⟨rfl, rfl, hbranch, hlast, rfl, rfl, fun hright ↦ ?_, _, rfl⟩
  have hlength := congrArg (fun r ↦ r.toOption.map fun l ↦ l.2.length) hright.fetch
  exact absurd hlength (by decide)

end KarmaCore.Chain
