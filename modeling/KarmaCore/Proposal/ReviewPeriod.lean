import Mathlib
import KarmaCore.Proposal.ProposalRun

/-!
# The review period of a proposal

Once the head time has reached the review period of a proposal, an update may
take active and owner approvals away only.  Key approvals are not checked: the
approvals shrink as long as the updates that take effect add no new key.
-/

namespace KarmaCore.Proposals

open Authorities

variable {Rest Body : Type} {env : Env Rest Body}

/-! ## One update -/

namespace ProposalObject

/-- The head time has reached the review period. -/
def InReview (now : ℕ) (p : ProposalObject Body) : Prop := ∃ t ∈ p.reviewPeriodTime, t ≤ now

/-- The approvals of each kind are among those of another state of the proposal. -/
structure ApprovalsWithin (q p : ProposalObject Body) : Prop where
  active : q.availableActiveApprovals ⊆ p.availableActiveApprovals
  owner : q.availableOwnerApprovals ⊆ p.availableOwnerApprovals
  key : q.availableKeyApprovals ⊆ p.availableKeyApprovals

variable {p q r : ProposalObject Body} {o : UpdateOperation} {now : ℕ}

theorem ApprovalsWithin.refl (p : ProposalObject Body) : p.ApprovalsWithin p :=
  ⟨List.Subset.refl _, List.Subset.refl _, List.Subset.refl _⟩

theorem ApprovalsWithin.trans (h : r.ApprovalsWithin q) (h' : q.ApprovalsWithin p) :
    r.ApprovalsWithin p :=
  ⟨List.Subset.trans h.active h'.active, List.Subset.trans h.owner h'.owner,
    List.Subset.trans h.key h'.key⟩

theorem InReview.later {now' : ℕ} (h : p.InReview now) (hle : now ≤ now')
    (hsame : q.reviewPeriodTime = p.reviewPeriodTime) : q.InReview now' := by
  obtain ⟨t, ht, htime⟩ := h
  exact ⟨t, hsame ▸ ht, htime.trans hle⟩

/-- An update of a proposal in review adds no key that was not approved before. -/
def AddsNoKey (o : UpdateOperation) (p : ProposalObject Body) : Prop :=
  ∀ k ∈ o.keyApprovalsToAdd, k ∈ p.availableKeyApprovals ∨ k ∈ o.keyApprovalsToRemove

/-- The approvals that an update leaves of a kind it may add to. -/
theorem updated_subset {added removed available : List AccountId} :
    (flatInsertAll added available).filter (· ∉ removed) ⊆ available ↔
      ∀ a ∈ added, a ∈ available ∨ a ∈ removed := by
  constructor
  · intro h a ha
    by_cases hr : a ∈ removed
    · exact .inr hr
    · exact .inl (h (List.mem_filter.mpr ⟨mem_flatInsertAll.mpr (.inl ha), by simpa using hr⟩))
  · intro h a ha
    obtain ⟨hmem, hr⟩ := List.mem_filter.mp ha
    rcases mem_flatInsertAll.mp hmem with hadd | hold
    · exact (h a hadd).resolve_right (by simpa using hr)
    · exact hold

/-- An accepted update of a proposal in review leaves no new approval exactly when it adds
no new key. -/
theorem approvalsWithin_iff {db : Db Rest Body} (hreview : p.InReview db.headBlockTime)
    (h : db.updateEvaluate o p = true) : (p.updateApprovals o).ApprovalsWithin p ↔ AddsNoKey o p := by
  obtain ⟨t, ht, hle⟩ := hreview
  rw [Option.mem_def] at ht
  simp only [Db.updateEvaluate, ht, Option.all_some, Bool.and_eq_true, Bool.or_eq_true,
    decide_eq_true_eq, not_lt.mpr hle, false_or, List.isEmpty_iff] at h
  obtain ⟨⟨⟨hactive, howner⟩, -⟩, -⟩ := h
  constructor
  · intro hwithin
    exact updated_subset.mp hwithin.key
  · intro hkeys
    refine ⟨updated_subset.mpr ?_, updated_subset.mpr ?_, updated_subset.mpr hkeys⟩
    · simp [hactive]
    · simp [howner]

end ProposalObject

/-! ## What takes effect -/

namespace Db

/-- How the proposals change, with the updates that take effect and the states they find. -/
inductive Path (env : Env Rest Body) :
    Db Rest Body → List (Db Rest Body × UpdateOperation) → Db Rest Body → Prop
  | refl (db : Db Rest Body) : Path env db [] db
  | later {db : Db Rest Body} (time : ℕ) (rest : Rest) (h : db.headBlockTime ≤ time) :
      Path env db [] { db with headBlockTime := time, rest }
  | create (db : Db Rest Body) (ops : List (Operation Body)) (time : ℕ) (review : Option ℕ) :
      Path env db [] (db.createApply env ops time review)
  | update {db : Db Rest Body} {o : UpdateOperation} {p : ProposalObject Body}
      (hp : db.find o.proposal = some p) (h : db.updateEvaluate o p = true) :
      Path env db [(db, o)] (db.modify o.proposal (·.updateApprovals o))
  | remove (db : Db Rest Body) (id : ProposalId) : Path env db [] (db.remove id)
  | effect (db : Db Rest Body) (e : ProposalId × ℕ) :
      Path env db [] { db with effects := e :: db.effects }
  | trans {a b c : Db Rest Body} {us us' : List (Db Rest Body × UpdateOperation)}
      (h : Path env a us b) (h' : Path env b us' c) : Path env a (us ++ us') c

/-- An update adds no new key to a proposal in review. -/
def Respects (u : Db Rest Body × UpdateOperation) : Prop :=
  ∀ p, u.1.find u.2.proposal = some p → p.InReview u.1.headBlockTime → p.AddsNoKey u.2

/-- Of the proposals there were, those that are left keep their review period, and those in
review get no approval. -/
structure Freezes (a b : Db Rest Body) : Prop where
  time : a.headBlockTime ≤ b.headBlockTime
  nextId : a.nextId ≤ b.nextId
  proposals : ∀ id < a.nextId, ∀ q, b.find id = some q → ∃ p, a.find id = some p ∧
    q.reviewPeriodTime = p.reviewPeriodTime ∧ (p.InReview a.headBlockTime → q.ApprovalsWithin p)

variable {a b c db : Db Rest Body} {id : ProposalId}

theorem Freezes.of_find (htime : a.headBlockTime ≤ b.headBlockTime) (hnext : a.nextId ≤ b.nextId)
    (h : ∀ id < a.nextId, ∀ q, b.find id = some q → a.find id = some q) : Freezes a b :=
  ⟨htime, hnext, fun id hid q hq ↦ ⟨q, h id hid q hq, rfl, fun _ ↦ .refl q⟩⟩

theorem Freezes.trans (h : Freezes a b) (h' : Freezes b c) : Freezes a c where
  time := h.time.trans h'.time
  nextId := h.nextId.trans h'.nextId
  proposals id hid r hr := by
    obtain ⟨q, hq, hsame', hwithin'⟩ := h'.proposals id (hid.trans_le h.nextId) r hr
    obtain ⟨p, hp, hsame, hwithin⟩ := h.proposals id hid q hq
    refine ⟨p, hp, hsame'.trans hsame, fun hreview ↦ ?_⟩
    exact (hwithin' (hreview.later h.time hsame)).trans (hwithin hreview)

theorem find_modify {f : ProposalObject Body → ProposalObject Body} (hf : ∀ p, (f p).id = p.id)
    {x : ProposalId} {q : ProposalObject Body} (h : (db.modify id f).find x = some q) :
    ∃ p, db.find x = some p ∧ (q = p ∨ x = id ∧ q = f p) := by
  unfold find modify at h
  rw [List.find?_map] at h
  have hkey : (fun p : ProposalObject Body ↦ decide (p.id = x)) ∘
      (fun p ↦ if p.id = id then f p else p) = fun p ↦ decide (p.id = x) := by
    funext p
    simp only [Function.comp_apply]
    split_ifs
    · rw [hf]
    · rfl
  rw [hkey] at h
  obtain ⟨p, hp, rfl⟩ := Option.map_eq_some_iff.mp h
  refine ⟨p, hp, ?_⟩
  split_ifs with hid
  · exact .inr ⟨(find_eq_some hp).2.symm.trans hid, rfl⟩
  · exact .inl rfl

/-- The updates that respect the review periods freeze the proposals in review. -/
theorem Path.freezes {us : List (Db Rest Body × UpdateOperation)} (h : Path env a us b)
    (hus : ∀ u ∈ us, Respects u) : Freezes a b := by
  induction h with
  | refl db => exact .of_find le_rfl le_rfl fun _ _ _ hq ↦ hq
  | later time rest h => exact .of_find h le_rfl fun _ _ _ hq ↦ hq
  | create db ops time review =>
      refine .of_find le_rfl (Nat.le_succ _) fun id hid q hq ↦ ?_
      simp only [find, createApply, List.find?_append] at hq
      cases hold : db.proposals.find? fun p ↦ decide (p.id = id) with
      | some p =>
          rw [hold] at hq
          exact hold.trans hq
      | none =>
          rw [hold] at hq
          simp [hid.ne'] at hq
  | @update db o p hp heval =>
      refine ⟨le_rfl, le_rfl, fun id hid q hq ↦ ?_⟩
      obtain ⟨p', hp', hcase⟩ := find_modify (f := (·.updateApprovals o)) (fun _ ↦ rfl) hq
      refine ⟨p', hp', ?_⟩
      rcases hcase with rfl | ⟨rfl, rfl⟩
      · exact ⟨rfl, fun _ ↦ .refl q⟩
      · refine ⟨rfl, fun hreview ↦ ?_⟩
        obtain rfl := Option.some.inj (hp.symm.trans hp')
        exact (ProposalObject.approvalsWithin_iff hreview heval).mpr
          (hus _ List.mem_cons_self p hp hreview)
  | remove db id =>
      refine .of_find le_rfl le_rfl fun x _ q hq ↦ ?_
      by_cases hx : x = id
      · subst hx
        rw [find_remove_self] at hq
        cases hq
      · rw [← hq]
        simp only [find, Db.remove, List.find?_filter]
        congr 1
        funext p
        by_cases hp : p.id = x <;> simp [hp, hx]
  | effect db e => exact .of_find le_rfl le_rfl fun _ _ _ hq ↦ hq
  | trans h h' ih ih' =>
      exact (ih fun u hu ↦ hus u (List.mem_append_left _ hu)).trans
        (ih' fun u hu ↦ hus u (List.mem_append_right _ hu))

end Db

/-! ## Calls -/

namespace Chain

/-- A call that changes the proposals along a path. Unless it ends the run, its sessions are
those it found, without the oldest ones at most. -/
def Follows (env : Env Rest Body) (s : Chain Rest Body) : Result Rest Body → Prop
  | .returned t => (∃ us, Db.Path env s.db us t.db) ∧ t.undo.stack <+: s.undo.stack
  | .threw .exception t => (∃ us, Db.Path env s.db us t.db) ∧ t.undo.stack <+: s.undo.stack
  | .threw _ t => ∃ us, Db.Path env s.db us t.db

variable {s t : Chain Rest Body} {x : Result Rest Body}

theorem Follows.path (h : Follows env s x) : ∃ us, Db.Path env s.db us x.state.db := by
  match x, h with
  | .returned t, h => exact h.1
  | .threw .exception t, h => exact h.1
  | .threw .danglingProposal t, h => exact h
  | .threw .noUndoState t, h => exact h
  | .threw .tooDeep t, h => exact h

theorem Follows.of_path (hpath : ∃ us, Db.Path env s.db us t.db)
    (hstack : t.undo.stack <+: s.undo.stack) (h : Follows env t x) : Follows env s x := by
  have htrans : ∀ u : Chain Rest Body, (∃ us, Db.Path env t.db us u.db) →
      ∃ us, Db.Path env s.db us u.db := by
    rintro u ⟨us', hus'⟩
    obtain ⟨us, hus⟩ := hpath
    exact ⟨us ++ us', hus.trans hus'⟩
  match x, h with
  | .returned u, h => exact ⟨htrans u h.1, h.2.trans hstack⟩
  | .threw .exception u, h => exact ⟨htrans u h.1, h.2.trans hstack⟩
  | .threw .danglingProposal u, h => exact htrans u h
  | .threw .noUndoState u, h => exact htrans u h
  | .threw .tooDeep u, h => exact htrans u h

theorem Follows.andThen {f : Chain Rest Body → Result Rest Body} (h : Follows env s x)
    (hf : ∀ t, Follows env t (f t)) : Follows env s (x.andThen f) := by
  cases x with
  | returned t => exact (hf t).of_path h.1 h.2
  | threw e t => exact h

theorem follows_of_path {us : List (Db Rest Body × UpdateOperation)} {db : Db Rest Body}
    (h : Db.Path env s.db us db) : Follows env s (.returned { s with db }) :=
  ⟨⟨us, h⟩, List.prefix_refl _⟩

theorem follows_refl (s : Chain Rest Body) : Follows env s (.returned s) :=
  ⟨⟨[], .refl _⟩, List.prefix_refl _⟩

theorem follows_exception (s : Chain Rest Body) : Follows env s (.threw .exception s) :=
  ⟨⟨[], .refl _⟩, List.prefix_refl _⟩

theorem follows_setRest (s : Chain Rest Body) (rest : Option Rest) :
    Follows env s (s.setRest rest) := by
  cases rest with
  | none => exact follows_exception s
  | some rest => exact follows_of_path (.later s.db.headBlockTime rest le_rfl)

theorem follows_removeProposal (id : ProposalId) (s : Chain Rest Body) :
    Follows env s (s.removeProposal id) := by
  unfold removeProposal
  split
  · exact ⟨[], .refl _⟩
  · exact follows_of_path (.remove s.db id)

/-- A session that ends leaves the proposals as its body did, or as it found them. -/
theorem follows_session (h : Follows env s.startSession x) :
    Follows env s (undoOnException (x.andThen mergeSession)) := by
  have hundo : ∀ t : Chain Rest Body, (∃ us, Db.Path env s.db us t.db) →
      t.undo.stack <+: s.db :: s.undo.stack.take s.undo.maxSize →
      Follows env s (t.undoSession.andThen fun u ↦ .threw .exception u) := by
    intro t hpath hstack
    unfold undoSession
    split
    · exact hpath
    · rename_i db rest hcons
      rw [hcons] at hstack
      obtain ⟨rfl, hrest⟩ := List.cons_prefix_cons.mp hstack
      refine ⟨⟨[], .refl _⟩, ?_⟩
      simp only [SessionStack.stack_drop, hcons, List.tail_cons]
      exact hrest.trans (List.take_prefix _ _)
  match x, h with
  | .returned t, h =>
    obtain ⟨hpath, hstack⟩ := h
    have hdrop : Follows env s (.returned { t with undo := t.undo.drop }) := by
      refine ⟨hpath, ?_⟩
      simp only [SessionStack.stack_drop]
      cases hcons : t.undo.stack with
      | nil => exact List.nil_prefix
      | cons db rest =>
          rw [hcons] at hstack
          exact (List.cons_prefix_cons.mp hstack).2.trans (List.take_prefix _ _)
    simp only [Outcome.returned_andThen, mergeSession]
    split_ifs
    · exact hdrop
    · exact hundo t hpath hstack
    · exact hdrop
  | .threw .exception t, h => exact hundo t h.1 h.2
  | .threw .danglingProposal t, h => exact h
  | .threw .noUndoState t, h => exact h
  | .threw .tooDeep t, h => exact h

section Push

variable {push : ProposalId → Chain Rest Body → Result Rest Body}

theorem follows_updateApply (hpush : ∀ id s, Follows env s (push id s)) {o : UpdateOperation}
    {p : ProposalObject Body} (hp : s.db.find o.proposal = some p)
    (heval : s.db.updateEvaluate o p = true) : Follows env s (s.updateApply env push o p) := by
  have hmodify := follows_of_path (s := s) (.update hp heval : Db.Path env s.db _ _)
  unfold updateApply
  dsimp only
  split_ifs
  · exact hmodify
  · have hcall := (hpush o.proposal _).of_path hmodify.1 hmodify.2
    split
    · rename_i t ht
      rw [ht] at hcall
      exact hcall
    · exact hcall
  · exact hmodify

theorem follows_evaluateAndApply (hpush : ∀ id s, Follows env s (push id s))
    (op : Operation Body) (s : Chain Rest Body) :
    Follows env s (s.evaluateAndApply env push op) := by
  have hpaid : ∀ t : Chain Rest Body, Follows env t (t.setRest (env.adjustBalance op t.db.rest)) :=
    fun t ↦ follows_setRest t _
  unfold evaluateAndApply
  cases op with
  | create feePayer ops time review =>
      dsimp only
      split_ifs
      · exact ((follows_setRest s _).andThen fun t ↦
          follows_of_path (.create t.db ops time review)).andThen hpaid
      · exact follows_exception s
  | update o =>
      dsimp only
      split
      · exact follows_exception s
      · rename_i p hp
        split_ifs with heval
        · refine Follows.andThen ?_ hpaid
          cases hfee : env.payFee (.update o) s.db.rest with
          | none => exact follows_exception s
          | some rest =>
              have hrest := follows_of_path (s := s)
                (.later s.db.headBlockTime rest le_rfl : Db.Path env s.db _ _)
              exact Follows.of_path (t := { s with db := { s.db with rest } }) hrest.1 hrest.2
                (follows_updateApply hpush hp heval)
        · exact follows_exception s
  | delete o =>
      dsimp only
      split
      · exact follows_exception s
      · split_ifs
        · exact ((follows_setRest s _).andThen (follows_removeProposal o.proposal)).andThen hpaid
        · exact follows_exception s
  | other body => exact follows_setRest s _

theorem follows_applyOperation (hpush : ∀ id s, Follows env s (push id s))
    (executing : List ProposalId) (op : Operation Body) (s : Chain Rest Body) :
    Follows env s (s.applyOperation env push executing op) :=
  (follows_evaluateAndApply hpush op (s.record executing op)).of_path ⟨[], .refl _⟩
    (List.prefix_refl _)

theorem follows_applyProposed {apply : Operation Body → Chain Rest Body → Result Rest Body}
    (happly : ∀ op s, Follows env s (apply op s)) (id : ProposalId) (ops : List (Operation Body))
    (i : ℕ) (s : Chain Rest Body) : Follows env s (applyProposed apply id ops i s) := by
  induction ops generalizing i s with
  | nil => exact follows_refl s
  | cons op ops ih =>
      unfold applyProposed
      split
      · exact ⟨[], .refl _⟩
      · refine (happly op s).andThen fun t ↦ ?_
        have hadd := follows_of_path (s := t) (.effect t.db (id, i) : Db.Path env t.db _ _)
        exact (ih (i + 1) (t.addEffect id i)).of_path hadd.1 hadd.2

theorem follows_pushProposal (n : ℕ) (executing : List ProposalId) (id : ProposalId)
    (s : Chain Rest Body) : Follows env s (pushProposal env n executing id s) := by
  induction n generalizing executing id s with
  | zero => exact ⟨[], .refl _⟩
  | succ n ih =>
      unfold pushProposal
      split
      · exact ⟨[], .refl _⟩
      · apply follows_session
        apply Follows.andThen
        · apply follows_applyProposed
          intro op t
          exact follows_applyOperation (fun x t ↦ ih _ x t) _ op t
        · exact fun t ↦ follows_removeProposal id t

theorem follows_clearProposal {depth : ℕ} (p : ProposalObject Body) (s : Chain Rest Body) :
    Follows env s (s.clearProposal env depth p) := by
  have hpush : Follows env s (pushProposal env depth [] p.id s) :=
    follows_pushProposal depth [] p.id s
  unfold clearProposal
  split_ifs
  · split
    · rename_i t ht
      rw [ht] at hpush
      exact (follows_removeProposal p.id t).of_path hpush.1 hpush.2
    · exact hpush
  · exact follows_removeProposal p.id s

theorem follows_clearExpiredProposals {depth : ℕ} (n : ℕ) (s : Chain Rest Body) :
    Follows env s (s.clearExpiredProposals env depth n) := by
  induction n generalizing s with
  | zero =>
      unfold clearExpiredProposals
      split_ifs
      · exact ⟨[], .refl _⟩
      · exact follows_refl s
  | succ n ih =>
      unfold clearExpiredProposals
      split
      · exact follows_refl s
      · exact (follows_clearProposal _ s).andThen ih

theorem follows_transaction {depth : ℕ} (ops : List (Operation Body)) (s : Chain Rest Body) :
    Follows env s (Outcome.forEach (applyTopLevel env depth) ops s) := by
  induction ops generalizing s with
  | nil => exact follows_refl s
  | cons op ops ih =>
      exact (follows_applyOperation (fun id t ↦ follows_pushProposal depth [] id t) [] op s).andThen
        ih

end Push

end Chain

/-! ## Runs -/

namespace Machine

/-- The head time does not go back between events. -/
def MovesOn (m : Machine Rest Body) : Event Rest Body → Prop
  | .between time _ _ => m.chain.db.headBlockTime ≤ time
  | _ => True

/-- Every event changes the proposals along a path, however it ends. -/
theorem exists_path {m : Machine Rest Body} {event : Event Rest Body} (h : m.MovesOn event) :
    ∃ us, Db.Path env m.chain.db us (m.step env event).chain.db := by
  have hcall : ∃ us, Db.Path env m.chain.db us (m.call env event).state.db := by
    cases event with
    | transaction ops => exact (Chain.follows_transaction ops { m.chain with trace := [] }).path
    | clearExpired =>
        exact (Chain.follows_clearExpiredProposals _ { m.chain with trace := [] }).path
    | between time rest undo => exact ⟨[], .later time rest h⟩
  unfold step
  generalize m.call env event = x at hcall
  split
  · exact ⟨[], .refl _⟩
  · exact hcall
  · exact ⟨[], .refl _⟩
  · exact hcall

/-- The updates that take effect in an event add no new key to a proposal in review. -/
def RespectsReview (env : Env Rest Body) (m : Machine Rest Body) (event : Event Rest Body) :
    Prop :=
  ∃ us, Db.Path env m.chain.db us (m.step env event).chain.db ∧ ∀ u ∈ us, Db.Respects u

end Machine

/-- A proposal in review gets no approval in a run whose updates add no new key to one. An
accepted update of one adds no approval exactly when it adds no new key, and what an event does
to the proposals is always made up of updates that take effect and steps that add none. -/
theorem review_freezes {m m' : Machine Rest Body}
    (h : Run.Reaches (Machine.step env) (Machine.RespectsReview env) m m') :
    Db.Freezes m.chain.db m'.chain.db ∧
      (∀ (db : Db Rest Body) (o : UpdateOperation) (p : ProposalObject Body),
        p.InReview db.headBlockTime → db.updateEvaluate o p = true →
        ((p.updateApprovals o).ApprovalsWithin p ↔ p.AddsNoKey o)) ∧
      ∀ (m : Machine Rest Body) (event : Event Rest Body), m.MovesOn event →
        ∃ us, Db.Path env m.chain.db us (m.step env event).chain.db := by
  refine ⟨?_, fun db o p ↦ ProposalObject.approvalsWithin_iff, fun m event ↦ Machine.exists_path⟩
  apply h.invariant fun m' : Machine Rest Body ↦ Db.Freezes m.chain.db m'.chain.db
  · exact .of_find le_rfl le_rfl fun _ _ _ hq ↦ hq
  · rintro m' event hfreezes ⟨us, hpath, hus⟩
    exact hfreezes.trans (hpath.freezes hus)

/-! A proposal that expires at 10 with a review period of 5, approved by account 7 at once and
looked at from 6 on. -/

def reviewed : Machine Unit Unit :=
  ((bareMachine.step bareEnv (.transaction [.create 7 [.other ()] 10 (some 5)])).step bareEnv
    approve).step bareEnv (.between 6 () bareMachine.chain.undo)

def withdraw : UpdateOperation :=
  { feePayingAccount := 7, proposal := 0, activeApprovalsToRemove := [7] }

def addKey : UpdateOperation :=
  { feePayingAccount := 7, proposal := 0, keyApprovalsToAdd := [42] }

theorem review_freezes_withdrawal : Db.Freezes reviewed.chain.db
    (reviewed.step bareEnv (.transaction [.update withdraw])).chain.db := by
  have hrespects : reviewed.RespectsReview bareEnv (.transaction [.update withdraw]) := by
    have heval : ∀ p, reviewed.chain.db.find 0 = some p →
        reviewed.chain.db.updateEvaluate withdraw p = true := by
      intro p hp
      obtain rfl := Option.some.inj hp
      decide
    refine ⟨[(reviewed.chain.db, withdraw)], .update (o := withdraw) rfl (heval _ rfl), ?_⟩
    rintro u hu p hp - k hk
    obtain rfl := List.mem_singleton.mp hu
    cases hk
  have hrun : Run.Reaches (Machine.step bareEnv) (Machine.RespectsReview bareEnv) reviewed
      (reviewed.step bareEnv (.transaction [.update withdraw])) :=
    .next (Event.transaction [.update withdraw]) .refl hrespects
  exact (review_freezes hrun).1

/-- A key is added in the review period. -/
theorem review_adds_key : (reviewed.chain.db.find 0).map (·.availableKeyApprovals) = some [] ∧
    (∀ p, reviewed.chain.db.find 0 = some p → p.InReview reviewed.chain.db.headBlockTime) ∧
    ((reviewed.step bareEnv (.transaction [.update addKey])).chain.db.find 0).map
      (·.availableKeyApprovals) = some [42] := by
  refine ⟨by decide, fun p hp ↦ ?_, by decide⟩
  obtain rfl := Option.some.inj hp
  exact ⟨5, rfl, by decide⟩

end KarmaCore.Proposals
