import Mathlib
import KarmaCore.Lib.Run
import KarmaCore.Proposal.PushProposal

/-!
# Proposals are executed at most once

While no operation updates or deletes a proposal that is being executed, and no
more executions are nested than the undo database keeps states, the recursion
of `push_proposal` ends: each level executes another proposal, of those that
exist and those that their operations can create.
-/

namespace KarmaCore.Proposals

open Authorities

variable {Rest Body : Type} {env : Env Rest Body}

/-! ## How many proposals operations can create -/

mutual

/-- The proposals that an operation creates, directly or once they are executed. -/
def Operation.creates : Operation Body → ℕ
  | .create _ proposedOps _ _ => 1 + createsAll proposedOps
  | .update _ => 0
  | .delete _ => 0
  | .other _ => 0

def createsAll : List (Operation Body) → ℕ
  | [] => 0
  | op :: ops => op.creates + createsAll ops

end

def ProposalObject.weight (p : ProposalObject Body) : ℕ := 1 + createsAll p.operations

namespace Db

/-- The proposals that are not being executed, and those that they can create. -/
def pool (executing : List ProposalId) (db : Db Rest Body) : ℕ :=
  ((db.proposals.filter fun p ↦ p.id ∉ executing).map ProposalObject.weight).sum

/-- Identifiers are new and positions unique; a proposal that is not being
executed has had no effect. -/
structure WellFormed (executing : List ProposalId) (db : Db Rest Body) : Prop where
  nodup : (db.proposals.map (·.id)).Nodup
  fresh : ∀ p ∈ db.proposals, p.id < db.nextId
  effects_fresh : ∀ e ∈ db.effects, e.1 < db.nextId
  effects_nodup : db.effects.Nodup
  unexecuted : ∀ p ∈ db.proposals, p.id ∉ executing → ∀ i, (p.id, i) ∉ db.effects

/-- What the operations of proposals leave alone. -/
structure Leaves (executing : List ProposalId) (a b : Db Rest Body) : Prop where
  exists_find : ∀ x ∈ executing, (a.find x).isSome → (b.find x).isSome
  effects : ∀ x ∈ executing, ∀ i, (x, i) ∈ b.effects ↔ (x, i) ∈ a.effects
  time : b.headBlockTime = a.headBlockTime
  expired : ∀ q ∈ b.proposals, q.expirationTime ≤ b.headBlockTime →
    ∃ p ∈ a.proposals, p.id = q.id ∧ p.expirationTime = q.expirationTime

structure Keeps (executing : List ProposalId) (a b : Db Rest Body) : Prop
    extends Leaves executing a b where
  wellFormed : b.WellFormed executing

variable {db a b c : Db Rest Body} {executing : List ProposalId} {id : ProposalId}
  {p : ProposalObject Body}

theorem Leaves.refl (executing : List ProposalId) (db : Db Rest Body) : Leaves executing db db :=
  ⟨fun _ _ h ↦ h, fun _ _ _ ↦ Iff.rfl, rfl, fun q hq _ ↦ ⟨q, hq, rfl, rfl⟩⟩

theorem Leaves.trans (hab : Leaves executing a b) (hbc : Leaves executing b c) :
    Leaves executing a c where
  exists_find x hx h := hbc.exists_find x hx (hab.exists_find x hx h)
  effects x hx i := (hbc.effects x hx i).trans (hab.effects x hx i)
  time := hbc.time.trans hab.time
  expired q hq hexp := by
    obtain ⟨r, hr, hid, htime⟩ := hbc.expired q hq hexp
    obtain ⟨p, hp, hid', htime'⟩ := hab.expired r hr (by rw [htime, ← hbc.time]; exact hexp)
    exact ⟨p, hp, hid'.trans hid, htime'.trans htime⟩

theorem Leaves.of_cons (h : Leaves (id :: executing) a b) : Leaves executing a b where
  exists_find x hx := h.exists_find x (List.mem_cons_of_mem id hx)
  effects x hx := h.effects x (List.mem_cons_of_mem id hx)
  time := h.time
  expired := h.expired

theorem Keeps.refl (h : db.WellFormed executing) : Keeps executing db db := ⟨.refl _ _, h⟩

theorem Keeps.trans (hab : Keeps executing a b) (hbc : Keeps executing b c) :
    Keeps executing a c :=
  ⟨hab.toLeaves.trans hbc.toLeaves, hbc.wellFormed⟩

theorem WellFormed.cons (h : db.WellFormed executing) (id : ProposalId) :
    db.WellFormed (id :: executing) where
  nodup := h.nodup
  fresh := h.fresh
  effects_fresh := h.effects_fresh
  effects_nodup := h.effects_nodup
  unexecuted p hp hid := h.unexecuted p hp fun hmem ↦ hid (List.mem_cons_of_mem id hmem)

theorem find_eq_some (h : db.find id = some p) : p ∈ db.proposals ∧ p.id = id := by
  unfold find at h
  exact ⟨List.mem_of_find?_eq_some h, by simpa using List.find?_some h⟩

theorem find_isSome : (db.find id).isSome ↔ ∃ p ∈ db.proposals, p.id = id := by
  simp [find]

theorem find_remove_self : (db.remove id).find id = none := by
  simp [find, remove]

theorem find_remove_isSome {x : ProposalId} (hx : x ≠ id) (h : (db.find x).isSome) :
    ((db.remove id).find x).isSome := by
  obtain ⟨p, hp, rfl⟩ := find_isSome.mp h
  exact find_isSome.mpr ⟨p, by simp [remove, hp, hx], rfl⟩

theorem pool_remove (executing : List ProposalId) :
    (db.remove id).pool executing = db.pool (id :: executing) := by
  unfold pool remove
  rw [List.filter_filter]
  congr 3
  funext p
  by_cases h : p.id = id <;> simp [h]

theorem pool_cons_le (executing : List ProposalId) : db.pool (id :: executing) ≤ db.pool executing := by
  rw [← pool_remove]
  unfold pool remove
  apply List.Sublist.sum_le_sum
  · exact (List.filter_sublist.filter _).map _
  · simp

theorem pool_eq_add (hwf : db.WellFormed executing) (hp : p ∈ db.proposals)
    (hid : p.id ∉ executing) : db.pool executing = db.pool (p.id :: executing) + p.weight := by
  have hnodup := hwf.nodup
  unfold pool
  generalize db.proposals = proposals at hp hnodup
  induction proposals with
  | nil => simp at hp
  | cons q proposals ih =>
      simp only [List.map_cons, List.nodup_cons] at hnodup
      rcases List.mem_cons.mp hp with rfl | hp
      · have hrest : ∀ r ∈ proposals, r.id ≠ p.id := fun r hr heq ↦
          hnodup.1 (heq ▸ List.mem_map_of_mem hr)
        have hfilter : (proposals.filter fun r ↦ r.id ∉ p.id :: executing) =
            proposals.filter fun r ↦ r.id ∉ executing := by
          apply List.filter_congr
          intro r hr
          simp [hrest r hr]
        simp only [List.filter_cons, hfilter]
        simp [hid]
        omega
      · have hne : q.id ≠ p.id := fun heq ↦ hnodup.1 (heq ▸ List.mem_map_of_mem hp)
        have htail := ih hp hnodup.2
        simp only [List.filter_cons]
        by_cases hq : q.id ∈ executing <;> simp [hq, hne] at htail ⊢ <;> omega

/-! ### The writes of the evaluators -/

theorem keeps_setRest (h : db.WellFormed executing) (rest : Rest) :
    Keeps executing db { db with rest } :=
  ⟨⟨fun _ _ h ↦ h, fun _ _ _ ↦ Iff.rfl, rfl, fun q hq _ ↦ ⟨q, hq, rfl, rfl⟩⟩,
    ⟨h.nodup, h.fresh, h.effects_fresh, h.effects_nodup, h.unexecuted⟩⟩

theorem leaves_remove (hid : id ∉ executing) : Leaves executing db (db.remove id) where
  exists_find _ hx := find_remove_isSome fun heq ↦ hid (heq ▸ hx)
  effects _ _ _ := Iff.rfl
  time := rfl
  expired q hq _ := ⟨q, List.mem_of_mem_filter hq, rfl, rfl⟩

theorem WellFormed.remove (h : db.WellFormed (id :: executing)) :
    (db.remove id).WellFormed executing where
  nodup := h.nodup.sublist (List.filter_sublist.map _)
  fresh p hp := h.fresh p (List.mem_of_mem_filter hp)
  effects_fresh := h.effects_fresh
  effects_nodup := h.effects_nodup
  unexecuted p hp hmem := by
    obtain ⟨hp, hne⟩ := List.mem_filter.mp hp
    exact h.unexecuted p hp (by simpa [hmem] using hne)

theorem leaves_addEffect (hid : id ∉ executing) (i : ℕ) :
    Leaves executing db { db with effects := (id, i) :: db.effects } where
  exists_find _ _ h := h
  effects x hx j := by
    have hne : x ≠ id := fun heq ↦ hid (heq ▸ hx)
    simp [hne]
  time := rfl
  expired q hq _ := ⟨q, hq, rfl, rfl⟩

theorem WellFormed.addEffect (h : db.WellFormed (id :: executing)) (hfound : (db.find id).isSome)
    {i : ℕ} (hi : (id, i) ∉ db.effects) :
    ({ db with effects := (id, i) :: db.effects } : Db Rest Body).WellFormed (id :: executing) where
  nodup := h.nodup
  fresh := h.fresh
  effects_fresh e he := by
    rcases List.mem_cons.mp he with rfl | he
    · obtain ⟨p, hp, rfl⟩ := find_isSome.mp hfound
      exact h.fresh p hp
    · exact h.effects_fresh e he
  effects_nodup := List.nodup_cons.mpr ⟨hi, h.effects_nodup⟩
  unexecuted p hp hmem j hj := by
    rcases List.mem_cons.mp hj with heq | hj
    · exact hmem (by simp [(Prod.mk.inj heq).1])
    · exact h.unexecuted p hp hmem j hj

theorem mem_modify {f : ProposalObject Body → ProposalObject Body} (hf : ∀ p, (f p).id = p.id)
    {q : ProposalObject Body} (hq : q ∈ (db.modify id f).proposals) :
    ∃ p ∈ db.proposals, q.id = p.id ∧ (q = p ∨ q = f p) := by
  obtain ⟨p, hp, rfl⟩ := List.mem_map.mp hq
  refine ⟨p, hp, ?_⟩
  split_ifs
  · exact ⟨hf p, .inr rfl⟩
  · exact ⟨rfl, .inl rfl⟩

theorem map_modify {α : Type} {g : ProposalObject Body → α}
    {f : ProposalObject Body → ProposalObject Body} (hf : ∀ p, g (f p) = g p) :
    (db.modify id f).proposals.map g = db.proposals.map g := by
  unfold modify
  rw [List.map_map]
  apply List.map_congr_left
  intro p _
  simp only [Function.comp_apply]
  split_ifs
  · exact hf p
  · rfl

theorem find_modify_isSome {f : ProposalObject Body → ProposalObject Body}
    (hf : ∀ p, (f p).id = p.id) {x : ProposalId} (h : (db.find x).isSome) :
    ((db.modify id f).find x).isSome := by
  obtain ⟨p, hp, rfl⟩ := find_isSome.mp h
  refine find_isSome.mpr ⟨if p.id = id then f p else p, List.mem_map_of_mem hp, ?_⟩
  split_ifs
  · exact hf p
  · rfl

theorem keeps_modify {f : ProposalObject Body → ProposalObject Body}
    (hid : ∀ p, (f p).id = p.id) (htime : ∀ p, (f p).expirationTime = p.expirationTime)
    (h : db.WellFormed executing) : Keeps executing db (db.modify id f) where
  wellFormed :=
    { nodup := by
        rw [map_modify hid]
        exact h.nodup
      fresh := fun q hq ↦ by
        obtain ⟨p, hp, heq, -⟩ := mem_modify hid hq
        rw [heq]
        exact h.fresh p hp
      effects_fresh := h.effects_fresh
      effects_nodup := h.effects_nodup
      unexecuted := fun q hq hq' ↦ by
        obtain ⟨p, hp, heq, -⟩ := mem_modify hid hq
        rw [heq] at hq' ⊢
        exact h.unexecuted p hp hq' }
  exists_find _ _ := find_modify_isSome hid
  effects _ _ _ := Iff.rfl
  time := rfl
  expired q hq _ := by
    obtain ⟨p, hp, heq, rfl | rfl⟩ := mem_modify hid hq
    · exact ⟨q, hp, rfl, rfl⟩
    · exact ⟨p, hp, heq.symm, (htime p).symm⟩

theorem pool_modify {f : ProposalObject Body → ProposalObject Body}
    (hid : ∀ p, (f p).id = p.id) (hops : ∀ p, (f p).operations = p.operations) :
    (db.modify id f).pool executing = db.pool executing := by
  have hkeep : ∀ p, (if p.id = id then f p else p).id = p.id ∧
      (if p.id = id then f p else p).weight = p.weight := by
    intro p
    split_ifs
    · exact ⟨hid p, by simp [ProposalObject.weight, hops]⟩
    · exact ⟨rfl, rfl⟩
  unfold pool modify
  rw [List.filter_map, List.map_map]
  congr 1
  have hfilter : (fun p : ProposalObject Body ↦ decide (p.id ∉ executing)) ∘
      (fun p ↦ if p.id = id then f p else p) = fun p ↦ decide (p.id ∉ executing) := by
    funext p
    simp only [Function.comp_apply, (hkeep p).1]
  rw [hfilter]
  exact List.map_congr_left fun p _ ↦ (hkeep p).2

theorem mem_createApply {ops : List (Operation Body)} {t : ℕ} {review : Option ℕ}
    {q : ProposalObject Body} (hq : q ∈ (db.createApply env ops t review).proposals) :
    q ∈ db.proposals ∨ q.id = db.nextId ∧ q.expirationTime = t ∧ q.operations = ops := by
  rcases List.mem_append.mp hq with hq | hq
  · exact .inl hq
  · obtain rfl := List.mem_singleton.mp hq
    exact .inr ⟨rfl, rfl, rfl⟩

theorem keeps_createApply {ops : List (Operation Body)} {t : ℕ} {review : Option ℕ}
    (h : db.WellFormed executing) (ht : db.headBlockTime < t) :
    Keeps executing db (db.createApply env ops t review) where
  wellFormed :=
    { nodup := by
        simp only [createApply, List.map_append, List.map_cons, List.map_nil]
        rw [List.nodup_append]
        refine ⟨h.nodup, by simp, ?_⟩
        intro x hx y hy
        obtain ⟨p, hp, rfl⟩ := List.mem_map.mp hx
        rw [List.mem_singleton.mp hy]
        exact (h.fresh p hp).ne
      fresh := fun q hq ↦ by
        rcases mem_createApply hq with hq | ⟨hq, -, -⟩
        · exact (h.fresh q hq).trans (Nat.lt_succ_self _)
        · rw [hq]
          exact Nat.lt_succ_self _
      effects_fresh := fun e he ↦ (h.effects_fresh e he).trans (Nat.lt_succ_self _)
      effects_nodup := h.effects_nodup
      unexecuted := fun q hq hid i hi ↦ by
        rcases mem_createApply hq with hq | ⟨hq, -, -⟩
        · exact h.unexecuted q hq hid i hi
        · exact (h.effects_fresh _ hi).ne hq }
  exists_find x _ hsome := by
    obtain ⟨p, hp, hx⟩ := find_isSome.mp hsome
    exact find_isSome.mpr ⟨p, List.mem_append_left _ hp, hx⟩
  effects _ _ _ := Iff.rfl
  time := rfl
  expired q hq hexp := by
    rcases mem_createApply hq with hq | ⟨-, hq, -⟩
    · exact ⟨q, hq, rfl, rfl⟩
    · rw [hq] at hexp
      exact absurd ht hexp.not_gt

theorem pool_createApply_le {ops : List (Operation Body)} {t : ℕ} {review : Option ℕ} :
    (db.createApply env ops t review).pool executing ≤ db.pool executing + (1 + createsAll ops) := by
  simp only [pool, createApply, List.filter_append, List.map_append, List.sum_append]
  apply Nat.add_le_add_left
  simp only [List.filter_cons, List.filter_nil]
  split_ifs <;> simp [ProposalObject.weight]

end Db

/-! ## Steps and sessions -/

/-- The operation does not touch a proposal that is being executed, and there is
room for one more session. -/
def Step.Clean (maxSize : ℕ) (step : Step Body) : Prop :=
  match step.op with
  | .update o => o.proposal ∉ step.executing ∧ step.executing.length < maxSize
  | .delete o => o.proposal ∉ step.executing
  | _ => True

namespace Chain

def Clean (s : Chain Rest Body) : Prop := ∀ step ∈ s.trace, step.Clean s.undo.maxSize

/-- A later state of a call: it has recorded more. -/
structure Extends (s t : Chain Rest Body) : Prop where
  trace : s.trace <:+ t.trace
  maxSize : t.undo.maxSize = s.undo.maxSize

/-- The sessions are those of before, with their newest states. -/
structure Balanced (k : ℕ) (s t : Chain Rest Body) : Prop where
  activeSessions : t.undo.activeSessions = s.undo.activeSessions
  stack : t.undo.stack.take k = s.undo.stack.take k
  maxSize : t.undo.maxSize = s.undo.maxSize

variable {s t u : Chain Rest Body} {k : ℕ} {executing : List ProposalId} {id : ProposalId}

theorem Extends.refl (s : Chain Rest Body) : Extends s s := ⟨List.suffix_rfl, rfl⟩

theorem Extends.trans (hst : Extends s t) (htu : Extends t u) : Extends s u :=
  ⟨hst.trace.trans htu.trace, htu.maxSize.trans hst.maxSize⟩

theorem Extends.clean (h : Extends s t) (ht : t.Clean) : s.Clean := fun step hstep ↦ by
  rw [← h.maxSize]
  exact ht step (h.trace.subset hstep)

theorem Balanced.refl (k : ℕ) (s : Chain Rest Body) : Balanced k s s := ⟨rfl, rfl, rfl⟩

theorem Balanced.trans (hst : Balanced k s t) (htu : Balanced k t u) : Balanced k s u :=
  ⟨htu.activeSessions.trans hst.activeSessions, htu.stack.trans hst.stack,
    htu.maxSize.trans hst.maxSize⟩

/-- What a call guarantees unless it took an unclean step: what holds when it
returns, what holds when it throws, and that nothing worse happens. -/
def Spec (k : ℕ) (s : Chain Rest Body) (returns throws : Chain Rest Body → Prop)
    (x : Result Rest Body) : Prop :=
  x.state.Clean →
    match x with
    | .returned t => Balanced k s t ∧ returns t
    | .threw .exception t => Balanced k s t ∧ throws t
    | .threw _ _ => False

section Spec

variable {returns throws returns' throws' : Chain Rest Body → Prop} {x : Result Rest Body}
  {f : Chain Rest Body → Result Rest Body}

theorem Spec.returned (hbalanced : Balanced k s t) (h : returns t) :
    Spec k s returns throws (.returned t) := fun _ ↦ ⟨hbalanced, h⟩

theorem Spec.threw (hbalanced : Balanced k s t) (h : throws t) :
    Spec k s returns throws (.threw .exception t) := fun _ ↦ ⟨hbalanced, h⟩

theorem Spec.mono (h : Spec k s returns throws x) (hreturns : ∀ t, returns t → returns' t)
    (hthrows : ∀ t, throws t → throws' t) : Spec k s returns' throws' x := by
  intro hclean
  have hx := h hclean
  match x, hx with
  | .returned t, hx => exact ⟨hx.1, hreturns t hx.2⟩
  | .threw .exception t, hx => exact ⟨hx.1, hthrows t hx.2⟩

/-- Only the sessions of the first state matter. -/
theorem Spec.of_undo (h : Spec k s returns throws x) (hundo : t.undo = s.undo) :
    Spec k t returns throws x := by
  have hbalanced : ∀ u, Balanced k s u → Balanced k t u := fun u hu ↦
    ⟨hundo ▸ hu.activeSessions, hundo ▸ hu.stack, hundo ▸ hu.maxSize⟩
  intro hclean
  have hx := h hclean
  match x, hx with
  | .returned u, hx => exact ⟨hbalanced u hx.1, hx.2⟩
  | .threw .exception u, hx => exact ⟨hbalanced u hx.1, hx.2⟩

theorem Spec.andThen (hx : Spec k s returns throws x) (hextends : ∀ t, Extends t (f t).state)
    (hf : ∀ t, Balanced k s t → returns t → Spec k t returns' throws (f t)) :
    Spec k s returns' throws (x.andThen f) := by
  intro hclean
  cases x with
  | returned t =>
      simp only [Outcome.returned_andThen] at hclean ⊢
      obtain ⟨hbalanced, ht⟩ := hx ((hextends t).clean hclean)
      have hresult := hf t hbalanced ht hclean
      cases hft : f t with
      | returned u =>
          rw [hft] at hresult
          exact ⟨hbalanced.trans hresult.1, hresult.2⟩
      | threw e u =>
          rw [hft] at hresult
          cases e with
          | exception => exact ⟨hbalanced.trans hresult.1, hresult.2⟩
          | danglingProposal => exact hresult
          | noUndoState => exact hresult
          | tooDeep => exact hresult
  | threw e t =>
      have hresult := hx hclean
      cases e with
      | exception => exact hresult
      | danglingProposal => exact hresult
      | noUndoState => exact hresult
      | tooDeep => exact hresult

end Spec

/-! ### Every call only adds to the trace -/

theorem extends_andThen {x : Result Rest Body} {f : Chain Rest Body → Result Rest Body}
    (hx : Extends s x.state) (hf : ∀ t, Extends t (f t).state) : Extends s (x.andThen f).state := by
  cases x with
  | returned t => exact hx.trans (hf t)
  | threw e t => exact hx

theorem extends_setRest (s : Chain Rest Body) (rest : Option Rest) :
    Extends s (s.setRest rest).state := by
  cases rest with
  | none => exact .refl s
  | some rest => exact ⟨List.suffix_rfl, rfl⟩

theorem extends_undoSession (s : Chain Rest Body) : Extends s s.undoSession.state := by
  unfold undoSession
  split
  · exact .refl s
  · exact ⟨List.suffix_rfl, rfl⟩

theorem extends_mergeSession (s : Chain Rest Body) : Extends s s.mergeSession.state := by
  unfold mergeSession
  split_ifs
  · exact ⟨List.suffix_rfl, rfl⟩
  · exact .refl s
  · exact ⟨List.suffix_rfl, rfl⟩

theorem extends_undoOnException {x : Result Rest Body} (h : Extends s x.state) :
    Extends s (undoOnException x).state := by
  match x, h with
  | .returned t, h => exact h
  | .threw .exception t, h =>
    exact extends_andThen (h.trans (extends_undoSession t)) fun u ↦ .refl u
  | .threw .danglingProposal t, h => exact h
  | .threw .noUndoState t, h => exact h
  | .threw .tooDeep t, h => exact h

theorem extends_removeProposal (id : ProposalId) (s : Chain Rest Body) :
    Extends s (s.removeProposal id).state := by
  unfold removeProposal
  split
  · exact .refl s
  · exact ⟨List.suffix_rfl, rfl⟩

section Extends

variable {push : ProposalId → Chain Rest Body → Result Rest Body}

theorem extends_updateApply (hpush : ∀ id s, Extends s (push id s).state) (o : UpdateOperation)
    (p : ProposalObject Body) (s : Chain Rest Body) :
    Extends s (s.updateApply env push o p).state := by
  unfold updateApply
  have hmodify : Extends s { s with db := s.db.modify o.proposal (·.updateApprovals o) } :=
    ⟨List.suffix_rfl, rfl⟩
  have hcall := hmodify.trans (hpush o.proposal _)
  dsimp only
  split_ifs
  · exact hmodify
  · split
    · rename_i t ht
      rw [ht] at hcall
      exact hcall
    · exact hcall
  · exact hmodify

theorem extends_evaluateAndApply (hpush : ∀ id s, Extends s (push id s).state)
    (op : Operation Body) (s : Chain Rest Body) :
    Extends s (s.evaluateAndApply env push op).state := by
  have hfee : ∀ t : Chain Rest Body, Extends t (t.setRest (env.adjustBalance op t.db.rest)).state :=
    fun t ↦ extends_setRest t _
  have hpay := extends_setRest s (env.payFee op s.db.rest)
  unfold evaluateAndApply
  cases op with
  | create feePayer ops time review =>
      dsimp only
      split_ifs
      · exact extends_andThen (extends_andThen hpay fun t ↦ ⟨List.suffix_rfl, rfl⟩) hfee
      · exact .refl s
  | update o =>
      dsimp only
      split
      · exact .refl s
      · split_ifs
        · exact extends_andThen (extends_andThen hpay fun t ↦ extends_updateApply hpush o _ t) hfee
        · exact .refl s
  | delete o =>
      dsimp only
      split
      · exact .refl s
      · split_ifs
        · exact extends_andThen (extends_andThen hpay fun t ↦ extends_removeProposal _ t) hfee
        · exact .refl s
  | other body => exact extends_setRest s _

theorem extends_applyOperation (hpush : ∀ id s, Extends s (push id s).state)
    (executing : List ProposalId) (op : Operation Body) (s : Chain Rest Body) :
    Extends (s.record executing op) (s.applyOperation env push executing op).state :=
  extends_evaluateAndApply hpush op _

theorem extends_record (executing : List ProposalId) (op : Operation Body) (s : Chain Rest Body) :
    Extends s (s.record executing op) := ⟨List.suffix_cons _ _, rfl⟩

theorem extends_applyProposed {apply : Operation Body → Chain Rest Body → Result Rest Body}
    (happly : ∀ op s, Extends s (apply op s).state) (id : ProposalId)
    (ops : List (Operation Body)) (i : ℕ) (s : Chain Rest Body) :
    Extends s (applyProposed apply id ops i s).state := by
  induction ops generalizing i s with
  | nil => exact .refl s
  | cons op ops ih =>
      unfold applyProposed
      split
      · exact .refl s
      · refine extends_andThen (happly op s) fun t ↦ ?_
        have hadd : Extends t (t.addEffect id i) := ⟨List.suffix_rfl, rfl⟩
        exact hadd.trans (ih (i + 1) (t.addEffect id i))

theorem extends_pushProposal (n : ℕ) (executing : List ProposalId) (id : ProposalId)
    (s : Chain Rest Body) : Extends s (pushProposal env n executing id s).state := by
  induction n generalizing executing id s with
  | zero => exact .refl s
  | succ n ih =>
      unfold pushProposal
      split
      · exact .refl s
      · apply extends_undoOnException
        have hops : ∀ op (t : Chain Rest Body), Extends t (applyOperation env
            (pushProposal env n (id :: executing)) (id :: executing) op t).state := fun op t ↦
          (extends_record _ op t).trans (extends_applyOperation (fun x t ↦ ih _ x t) _ op t)
        have hstart : Extends s s.startSession := ⟨List.suffix_rfl, rfl⟩
        exact extends_andThen (extends_andThen (hstart.trans (extends_applyProposed hops _ _ _ _))
          (extends_removeProposal id)) extends_mergeSession

end Extends

/-! ### Every call does what it should -/

/-- There is a state below the next session's, unless it is the only one. -/
def Ready (s : Chain Rest Body) : Prop := s.undo.stack ≠ [] ∨ s.undo.activeSessions = 0

theorem Balanced.ready (h : Balanced (k + 1) s t) (hs : s.Ready) : t.Ready := by
  rcases hs with hs | hs
  · left
    intro hnil
    have hstack := h.stack
    rw [hnil] at hstack
    cases hs' : s.undo.stack with
    | nil => exact hs hs'
    | cons a as => simp [hs'] at hstack
  · exact .inr (h.activeSessions.trans hs)

/-- The calls of operations that create so many proposals. -/
def Applies (executing : List ProposalId) (m : ℕ) (s : Chain Rest Body) :
    Result Rest Body → Prop :=
  Spec (executing.length + 1) s
    (fun t ↦ Db.Keeps executing s.db t.db ∧ t.db.pool executing ≤ s.db.pool executing + m)
    fun _ ↦ True

/-- The calls that execute a proposal. -/
def Executes (executing : List ProposalId) (id : ProposalId) (s : Chain Rest Body) :
    Result Rest Body → Prop :=
  Spec (executing.length + 1) s
    (fun t ↦ Db.Keeps executing s.db t.db ∧ t.db.pool executing ≤ s.db.pool executing ∧
      t.db.find id = none)
    fun t ↦ t.db = s.db

/-- What is asked of `push_proposal`, for so many proposals that exist or can be
created. -/
def Pushes (n : ℕ) (executing : List ProposalId)
    (push : ProposalId → Chain Rest Body → Result Rest Body) : Prop :=
  ∀ id s, s.db.WellFormed executing → (s.db.find id).isSome → id ∉ executing →
    executing.length < s.undo.maxSize → s.Ready → s.db.pool executing ≤ n →
    Executes executing id s (push id s)

section Applies

variable {push : ProposalId → Chain Rest Body → Result Rest Body} {n m : ℕ}

theorem setRest_spec (s : Chain Rest Body) (rest : Option Rest) :
    Spec k s (fun t ↦ ∃ rest, t = { s with db := { s.db with rest } }) (fun _ ↦ True)
      (s.setRest rest) := by
  cases rest with
  | none => exact .threw (.refl k s) trivial
  | some rest => exact .returned ⟨rfl, rfl, rfl⟩ ⟨rest, rfl⟩

/-- What an evaluator does between its two dealings with the fee. -/
theorem applies_withFee {f : Chain Rest Body → Result Rest Body} {pay : Option Rest}
    {adjust : Chain Rest Body → Option Rest} (hwf : s.db.WellFormed executing)
    (hextends : ∀ t, Extends t (f t).state)
    (hf : ∀ rest, Applies executing m { s with db := { s.db with rest } }
      (f { s with db := { s.db with rest } })) :
    Applies executing m s
      (((s.setRest pay).andThen f).andThen fun t ↦ t.setRest (adjust t)) := by
  have hbody : Applies executing m s ((s.setRest pay).andThen f) := by
    apply (setRest_spec s pay).andThen hextends
    rintro t - ⟨rest, rfl⟩
    apply (hf rest).mono _ fun _ _ ↦ trivial
    rintro u ⟨hkeeps, hpool⟩
    exact ⟨(Db.keeps_setRest hwf rest).trans hkeeps, hpool⟩
  apply hbody.andThen (fun t ↦ extends_setRest t _)
  rintro t - ⟨hkeeps, hpool⟩
  apply (setRest_spec t (adjust t)).mono _ fun _ _ ↦ trivial
  rintro u ⟨rest, rfl⟩
  exact ⟨hkeeps.trans (Db.keeps_setRest hkeeps.wellFormed rest), hpool⟩

theorem applies_removeProposal (hwf : s.db.WellFormed executing) (hfound : (s.db.find id).isSome)
    (hid : id ∉ executing) : Applies executing 0 s (s.removeProposal id) := by
  unfold removeProposal
  obtain ⟨p, hp⟩ := Option.isSome_iff_exists.mp hfound
  rw [hp]
  refine .returned ⟨rfl, rfl, rfl⟩ ⟨⟨Db.leaves_remove hid, (hwf.cons id).remove⟩, ?_⟩
  rw [Db.pool_remove]
  exact Db.pool_cons_le executing

theorem applies_updateApply (hpush : Pushes n executing push) {o : UpdateOperation}
    (p : ProposalObject Body) (hwf : s.db.WellFormed executing)
    (hfound : (s.db.find o.proposal).isSome) (hid : o.proposal ∉ executing)
    (hsize : executing.length < s.undo.maxSize) (hready : s.Ready)
    (hpool : s.db.pool executing ≤ n) :
    Applies executing 0 s (s.updateApply env push o p) := by
  have hkeeps : Db.Keeps executing s.db (s.db.modify o.proposal (·.updateApprovals o)) :=
    Db.keeps_modify (fun _ ↦ rfl) (fun _ ↦ rfl) hwf
  have hmodified : (s.db.modify o.proposal (·.updateApprovals o)).pool executing =
      s.db.pool executing := Db.pool_modify (fun _ ↦ rfl) fun _ ↦ rfl
  have hquiet : Applies executing 0 s
      (.returned { s with db := s.db.modify o.proposal (·.updateApprovals o) }) :=
    .returned ⟨rfl, rfl, rfl⟩ ⟨hkeeps, hmodified.le⟩
  unfold updateApply
  dsimp only
  split_ifs
  · exact hquiet
  · have hpushed := hpush o.proposal { s with db := s.db.modify o.proposal (·.updateApprovals o) }
      hkeeps.wellFormed (Db.find_modify_isSome (f := (·.updateApprovals o)) (fun _ ↦ rfl) hfound)
      hid hsize hready
      (hmodified.le.trans hpool)
    have hundo := hpushed.of_undo (t := s) rfl
    intro hclean
    generalize push o.proposal { s with db := s.db.modify o.proposal (·.updateApprovals o) } = x
      at hundo hclean
    match x, hundo, hclean with
    | .returned t, hundo, hclean =>
      obtain ⟨hbalanced, hkept, hle, -⟩ := hundo hclean
      exact ⟨hbalanced, hkeeps.trans hkept, hle.trans hmodified.le⟩
    | .threw .exception t, hundo, hclean =>
      obtain ⟨hbalanced, hdb⟩ := hundo hclean
      dsimp only at hdb ⊢
      rw [hdb]
      exact ⟨hbalanced, hkeeps, hmodified.le⟩
    | .threw .danglingProposal t, hundo, hclean => exact hundo hclean
    | .threw .noUndoState t, hundo, hclean => exact hundo hclean
    | .threw .tooDeep t, hundo, hclean => exact hundo hclean
  · exact hquiet

theorem applies_evaluateAndApply (hpush : Pushes n executing push)
    (hextends : ∀ id s, Extends s (push id s).state) {op : Operation Body}
    (hwf : s.db.WellFormed executing) (hready : s.Ready) (hpool : s.db.pool executing ≤ n)
    (hclean : Step.Clean s.undo.maxSize ⟨executing, op⟩) :
    Applies executing op.creates s (s.evaluateAndApply env push op) := by
  have hthrow : ∀ m, Applies executing m s (.threw .exception s) :=
    fun m ↦ .threw (.refl _ s) trivial
  cases op with
  | create feePayer ops time review =>
      simp only [evaluateAndApply]
      split_ifs with heval
      · have htime : s.db.headBlockTime < time := by
          simp only [Db.createEvaluate, Bool.and_eq_true, decide_eq_true_eq] at heval
          tauto
        refine applies_withFee hwf (fun t ↦ ⟨List.suffix_rfl, rfl⟩) fun rest ↦ ?_
        exact .returned ⟨rfl, rfl, rfl⟩
          ⟨Db.keeps_createApply (Db.keeps_setRest hwf rest).wellFormed htime,
            Db.pool_createApply_le⟩
      · exact hthrow _
  | update o =>
      obtain ⟨hid, hsize⟩ := hclean
      simp only [evaluateAndApply]
      cases hfind : s.db.find o.proposal with
      | none => exact hthrow _
      | some p =>
          dsimp only
          split_ifs
          · refine applies_withFee hwf (fun t ↦ extends_updateApply hextends o p t) fun rest ↦ ?_
            exact applies_updateApply hpush p (Db.keeps_setRest hwf rest).wellFormed
              (by simpa [Db.find] using Option.isSome_of_eq_some hfind) hid hsize hready hpool
          · exact hthrow _
  | delete o =>
      simp only [evaluateAndApply]
      cases hfind : s.db.find o.proposal with
      | none => exact hthrow _
      | some p =>
          dsimp only
          split_ifs
          · refine applies_withFee hwf (fun t ↦ extends_removeProposal _ t) fun rest ↦ ?_
            exact applies_removeProposal (Db.keeps_setRest hwf rest).wellFormed
              (by simpa [Db.find] using Option.isSome_of_eq_some hfind) hclean
          · exact hthrow _
  | other body =>
      apply (setRest_spec s _).mono _ fun _ _ ↦ trivial
      rintro t ⟨rest, rfl⟩
      exact ⟨Db.keeps_setRest hwf rest, Nat.le_add_right _ _⟩

theorem applies_applyOperation (hpush : Pushes n executing push)
    (hextends : ∀ id s, Extends s (push id s).state) {op : Operation Body}
    (hwf : s.db.WellFormed executing) (hready : s.Ready) (hpool : s.db.pool executing ≤ n) :
    Applies executing op.creates s (s.applyOperation env push executing op) := by
  intro hclean
  have hstep := (extends_applyOperation hextends executing op s).clean hclean
    ⟨executing, op⟩ (List.mem_cons_self ..)
  have happlies : Applies executing op.creates (s.record executing op)
      (s.applyOperation env push executing op) :=
    applies_evaluateAndApply hpush hextends hwf hready hpool hstep
  exact happlies.of_undo rfl hclean

/-- The state inside the execution of a proposal, compared with its start. -/
structure Inside (executing : List ProposalId) (id : ProposalId) (a b : Db Rest Body) : Prop where
  leaves : Db.Leaves executing a b
  wellFormed : b.WellFormed (id :: executing)
  found : (b.find id).isSome

/-- The loop over the operations of a proposal; the induction is on those that
remain, and none of them has had an effect. -/
theorem applyProposed_spec {apply : Operation Body → Chain Rest Body → Result Rest Body}
    (happly : ∀ op s, s.db.WellFormed (id :: executing) → s.Ready →
      s.db.pool (id :: executing) ≤ n →
      Applies (id :: executing) (Operation.creates op) s (apply op s))
    (hextends : ∀ op s, Extends s (apply op s).state) (hid : id ∉ executing)
    {ops : List (Operation Body)} {i : ℕ} (hwf : s.db.WellFormed (id :: executing))
    (hready : s.Ready) (hfound : (s.db.find id).isSome)
    (hpositions : ∀ j, i ≤ j → (id, j) ∉ s.db.effects)
    (hpool : s.db.pool (id :: executing) + createsAll ops ≤ n) :
    Spec (executing.length + 2) s
      (fun t ↦ Inside executing id s.db t.db ∧
        t.db.pool (id :: executing) ≤ s.db.pool (id :: executing) + createsAll ops)
      (fun _ ↦ True) (applyProposed apply id ops i s) := by
  induction ops generalizing i s with
  | nil => exact .returned (.refl _ s) ⟨⟨.refl _ _, hwf, hfound⟩, Nat.le_add_right _ _⟩
  | cons op ops ih =>
      rw [createsAll] at hpool ⊢
      obtain ⟨p, hp⟩ := Option.isSome_iff_exists.mp hfound
      simp only [applyProposed, hp]
      have hop := happly op s hwf hready (by omega)
      apply Spec.andThen hop
      · intro t
        have hadd : Extends t (t.addEffect id i) := ⟨List.suffix_rfl, rfl⟩
        exact hadd.trans (extends_applyProposed hextends id ops (i + 1) (t.addEffect id i))
      · rintro t hbalanced ⟨hkeeps, hle⟩
        have hself : id ∈ id :: executing := List.mem_cons_self ..
        have hfound' := hkeeps.exists_find id hself hfound
        have hnew : (id, i) ∉ t.db.effects := fun hmem ↦
          hpositions i le_rfl ((hkeeps.effects id hself i).mp hmem)
        have hpositions' : ∀ j, i + 1 ≤ j → (id, j) ∉ (id, i) :: t.db.effects := by
          intro j hj hmem
          rcases List.mem_cons.mp hmem with heq | hmem
          · have := (Prod.mk.inj heq).2
            omega
          · exact hpositions j (by omega) ((hkeeps.effects id hself j).mp hmem)
        have hrest := @ih (t.addEffect id i) (i + 1)
          (hkeeps.wellFormed.addEffect hfound' hnew) (hbalanced.ready hready) hfound' hpositions'
          (by
            have hsame : (t.addEffect id i).db.pool (id :: executing) =
                t.db.pool (id :: executing) := rfl
            omega)
        apply (hrest.of_undo (t := t) rfl).mono _ fun _ _ ↦ trivial
        rintro u ⟨hinside, hle'⟩
        have hleaves := (hkeeps.toLeaves.of_cons.trans (Db.leaves_addEffect hid i)).trans
          hinside.leaves
        refine ⟨⟨hleaves, hinside.wellFormed, hinside.found⟩, hle'.trans ?_⟩
        have hsame : (t.addEffect id i).db.pool (id :: executing) =
            t.db.pool (id :: executing) := rfl
        omega

/-- The stack at the end of a session that started on another one. -/
theorem Balanced.stack_eq (h : Balanced (k + 1) s.startSession t) (hsize : k ≤ s.undo.maxSize) :
    ∃ older, t.undo.stack = s.db :: older ∧ older.take k = s.undo.stack.take k := by
  have hstack := h.stack
  cases ht : t.undo.stack with
  | nil => simp [ht, startSession] at hstack
  | cons db older =>
      simp only [ht, startSession, SessionStack.stack_start, List.take_succ_cons,
        List.cons.injEq] at hstack
      refine ⟨older, by rw [hstack.1], ?_⟩
      rw [hstack.2, List.take_take, min_eq_left hsize]

theorem Balanced.drop (h : Balanced (k + 1) s.startSession t) (hsize : k ≤ s.undo.maxSize)
    (u : Chain Rest Body) (hu : u.undo = t.undo.drop) : Balanced k s u := by
  obtain ⟨older, hstack, holder⟩ := h.stack_eq hsize
  refine ⟨?_, ?_, ?_⟩
  · rw [hu, SessionStack.activeSessions_drop, h.activeSessions]
    rfl
  · rw [hu, SessionStack.stack_drop, hstack, List.tail_cons, holder]
  · rw [hu, SessionStack.maxSize_drop, h.maxSize]
    rfl

theorem mergeSession_spec (h : Balanced (k + 2) s.startSession t)
    (hsize : k + 1 ≤ s.undo.maxSize) (hready : s.Ready) :
    ∃ u, t.mergeSession = .returned u ∧ u.db = t.db ∧ Balanced (k + 1) s u := by
  obtain ⟨older, hstack, holder⟩ := h.stack_eq hsize
  refine ⟨{ t with undo := t.undo.drop }, ?_, rfl, h.drop hsize _ rfl⟩
  unfold mergeSession
  split_ifs with hlast hshort
  · rfl
  · exfalso
    have hnil : older = [] := by
      cases older with
      | nil => rfl
      | cons a as => simp [SessionStack.size, hstack] at hshort
    have hactive : t.undo.activeSessions = s.undo.activeSessions + 1 := h.activeSessions
    rcases hready with hready | hready
    · cases hs : s.undo.stack with
      | nil => exact hready hs
      | cons a as => simp [hs, hnil] at holder
    · exact hlast ⟨by omega, by simp [SessionStack.size, hstack, hnil]⟩
  · rfl

/-- A session that is merged keeps what its body returned; an exception undoes it,
and the database is the one it started from. -/
theorem session_spec {returns throws : Chain Rest Body → Prop} {x : Result Rest Body}
    (h : Spec (k + 2) s.startSession returns throws x)
    (hreturns : ∀ t u : Chain Rest Body, u.db = t.db → returns t → returns u)
    (hsize : k + 1 ≤ s.undo.maxSize) (hready : s.Ready) :
    Spec (k + 1) s returns (fun t ↦ t.db = s.db) (undoOnException (x.andThen mergeSession)) := by
  intro hclean
  match x, h, hclean with
  | .returned t, h, hclean =>
    have ht : t.Clean := (extends_undoOnException (extends_mergeSession t)).clean hclean
    obtain ⟨hbalanced, hresult⟩ := h ht
    obtain ⟨u, hmerge, hdb, hu⟩ := mergeSession_spec hbalanced hsize hready
    simp only [Outcome.returned_andThen, hmerge, undoOnException]
    exact ⟨hu, hreturns t u hdb hresult⟩
  | .threw .exception t, h, hclean =>
    have ht : t.Clean :=
      (extends_undoOnException (x := .threw .exception t) (Extends.refl t)).clean hclean
    obtain ⟨hbalanced, -⟩ := h ht
    obtain ⟨older, hstack, -⟩ := hbalanced.stack_eq hsize
    simp only [Outcome.threw_andThen, undoOnException, undoSession, hstack,
      Outcome.returned_andThen]
    exact ⟨hbalanced.drop hsize _ rfl, trivial⟩
  | .threw .danglingProposal t, h, hclean => exact h hclean
  | .threw .noUndoState t, h, hclean => exact h hclean
  | .threw .tooDeep t, h, hclean => exact h hclean

/-- `push_proposal` ends, removes the proposal or leaves no effect, and reads no
proposal that is gone. -/
theorem pushProposal_spec (n : ℕ) (executing : List ProposalId) :
    Pushes n executing (pushProposal env n executing) := by
  induction n generalizing executing with
  | zero =>
      intro id s hwf hfound hid _ _ hpool
      exfalso
      obtain ⟨p, hp, rfl⟩ := Db.find_isSome.mp hfound
      have hsplit := Db.pool_eq_add hwf hp hid
      unfold ProposalObject.weight at hsplit
      omega
  | succ n ih =>
      intro id s hwf hfound hid hsize hready hpool
      obtain ⟨p, hp⟩ := Option.isSome_iff_exists.mp hfound
      obtain ⟨hmem, rfl⟩ := Db.find_eq_some hp
      have hsplit := Db.pool_eq_add hwf hmem hid
      unfold ProposalObject.weight at hsplit
      have hnested : ∀ op (t : Chain Rest Body), Extends t (applyOperation env
          (pushProposal env n (p.id :: executing)) (p.id :: executing) op t).state := fun op t ↦
        (extends_record _ op t).trans
          (extends_applyOperation (fun x t ↦ extends_pushProposal n _ x t) _ op t)
      have hloop : Spec (executing.length + 2) s.startSession
          (fun t ↦ Inside executing p.id s.db t.db ∧ t.db.pool (p.id :: executing) ≤
            s.db.pool (p.id :: executing) + createsAll p.operations) (fun _ ↦ True)
          (applyProposed (applyOperation env (pushProposal env n (p.id :: executing))
            (p.id :: executing)) p.id p.operations 0 s.startSession) := by
        apply applyProposed_spec (n := n) (s := s.startSession) _ hnested hid (hwf.cons p.id)
        · exact .inl (by simp [startSession])
        · exact hfound
        · exact fun j _ ↦ hwf.unexecuted p hmem hid j
        · have hsame : s.startSession.db = s.db := rfl
          rw [hsame]
          omega
        · intro op t htwf htready htpool
          exact applies_applyOperation (ih (p.id :: executing))
            (fun x t ↦ extends_pushProposal n _ x t) htwf htready htpool
      have hremoved : Spec (executing.length + 2) s.startSession
          (fun t ↦ Db.Keeps executing s.db t.db ∧ t.db.pool executing ≤ s.db.pool executing ∧
            t.db.find p.id = none) (fun _ ↦ True)
          ((applyProposed (applyOperation env (pushProposal env n (p.id :: executing))
            (p.id :: executing)) p.id p.operations 0 s.startSession).andThen
              (removeProposal p.id)) := by
        apply hloop.andThen (extends_removeProposal p.id)
        rintro t hbalanced ⟨hinside, hle⟩
        obtain ⟨q, hq⟩ := Option.isSome_iff_exists.mp hinside.found
        simp only [removeProposal, hq]
        refine .returned ⟨rfl, rfl, rfl⟩ ⟨⟨hinside.leaves.trans (Db.leaves_remove hid),
          hinside.wellFormed.remove⟩, ?_, Db.find_remove_self⟩
        rw [Db.pool_remove]
        omega
      simp only [pushProposal, hp]
      apply session_spec hremoved _ hsize hready
      intro t u hdb ht
      rw [hdb]
      exact ht

end Applies

end Chain

end KarmaCore.Proposals
