import Mathlib
import KarmaCore.Votes.Election

/-!
# Elections over many operations

The ids that are voted for are given once each, as on a roll that only grows.  An election
takes those of the roll with the most votes.
-/

namespace KarmaCore.Votes

open Authorities (Authority Fair Added listed fair_finish VoteCounter)

/-! ## The roll -/

/-- Somebody who is voted for: the id of the object, the account and the id of the votes. -/
structure Candidate where
  id : ℕ
  account : AccountId
  number : ℕ

/-- Who has been given ids so far, and which comes next. -/
structure Roll where
  next : ℕ := 0
  witnesses : List Candidate := []
  committeeMembers : List Candidate := []
  workers : List (Candidate × ℕ) := []

namespace Roll

def voteIds (r : Roll) : List ℕ :=
  r.witnesses.map Candidate.number ++ r.committeeMembers.map Candidate.number ++
    r.workers.flatMap fun w ↦ [w.1.number, w.2]

/-- Somebody is added: an account only once among the witnesses and once in the committee. -/
inductive Step : Roll → Roll → Prop
  | witness (r : Roll) (account : AccountId) (h : account ∉ r.witnesses.map Candidate.account) :
      Step r { r with
        next := r.next + 1
        witnesses := r.witnesses ++ [⟨r.witnesses.length, account, r.next⟩] }
  | committeeMember (r : Roll) (account : AccountId)
      (h : account ∉ r.committeeMembers.map Candidate.account) :
      Step r { r with
        next := r.next + 1
        committeeMembers :=
          r.committeeMembers ++ [⟨r.committeeMembers.length, account, r.next⟩] }
  | worker (r : Roll) (owner : AccountId) :
      Step r { r with
        next := r.next + 2
        workers := r.workers ++ [(⟨r.workers.length, owner, r.next⟩, r.next + 1)] }

/-- Different accounts with the ids of their places. -/
structure Listed (candidates : List Candidate) : Prop where
  accounts : (candidates.map Candidate.account).Nodup
  ids : candidates.map Candidate.id = List.range candidates.length

theorem Listed.append {candidates : List Candidate} (h : Listed candidates) {account : AccountId}
    (hnew : account ∉ candidates.map Candidate.account) (number : ℕ) :
    Listed (candidates ++ [⟨candidates.length, account, number⟩]) := by
  refine ⟨?_, ?_⟩
  · rw [List.map_append, List.nodup_append_comm]
    exact List.nodup_cons.mpr ⟨hnew, h.accounts⟩
  · rw [List.map_append, h.ids, List.length_append, List.length_singleton, List.range_succ]
    rfl

structure Sound (r : Roll) : Prop where
  distinct : r.voteIds.Nodup
  below : ∀ i ∈ r.voteIds, i < r.next
  witnesses : Listed r.witnesses
  committeeMembers : Listed r.committeeMembers

/-- Nobody on the roll is taken off it, and nobody's id changes. -/
structure Extends (r r' : Roll) : Prop where
  witnesses : r.witnesses <+: r'.witnesses
  committeeMembers : r.committeeMembers <+: r'.committeeMembers
  workers : r.workers <+: r'.workers

variable {r r' r'' : Roll}

theorem sound_empty : Sound {} :=
  ⟨List.nodup_nil, by simp [voteIds], ⟨List.nodup_nil, rfl⟩, ⟨List.nodup_nil, rfl⟩⟩

theorem Extends.refl (r : Roll) : Extends r r :=
  ⟨List.prefix_refl _, List.prefix_refl _, List.prefix_refl _⟩

theorem Extends.trans (h : Extends r r') (h' : Extends r' r'') : Extends r r'' :=
  ⟨h.witnesses.trans h'.witnesses, h.committeeMembers.trans h'.committeeMembers,
    h.workers.trans h'.workers⟩

theorem Step.extends (h : Step r r') : Extends r r' := by
  cases h with
  | witness account hnew =>
      exact ⟨List.prefix_append _ _, List.prefix_refl _, List.prefix_refl _⟩
  | committeeMember account hnew =>
      exact ⟨List.prefix_refl _, List.prefix_append _ _, List.prefix_refl _⟩
  | worker owner => exact ⟨List.prefix_refl _, List.prefix_refl _, List.prefix_append _ _⟩

/-- The ids that are given are the next ones. -/
theorem Step.voteIds_perm (h : Step r r') : r.next ≤ r'.next ∧ r'.next ≤ r.next + 2 ∧
    r'.voteIds.Perm (List.range' r.next (r'.next - r.next) ++ r.voteIds) := by
  cases h with
  | witness account hnew =>
      refine ⟨Nat.le_succ _, Nat.le_succ _, ?_⟩
      simp only [voteIds, List.map_append, List.map_singleton, List.append_assoc,
        List.singleton_append, Nat.add_sub_cancel_left]
      exact List.perm_middle
  | committeeMember account hnew =>
      refine ⟨Nat.le_succ _, Nat.le_succ _, ?_⟩
      have hids : voteIds { r with
          next := r.next + 1
          committeeMembers :=
            r.committeeMembers ++ [⟨r.committeeMembers.length, account, r.next⟩] } =
          r.witnesses.map Candidate.number ++ r.committeeMembers.map Candidate.number ++
            r.next :: r.workers.flatMap fun w ↦ [w.1.number, w.2] := by
        simp only [voteIds, List.map_append, List.map_singleton, List.append_assoc,
          List.singleton_append]
      rw [hids, Nat.add_sub_cancel_left]
      exact List.perm_middle
  | worker owner =>
      refine ⟨Nat.le_add_right _ _, le_rfl, ?_⟩
      have hids : voteIds { r with
          next := r.next + 2
          workers := r.workers ++ [(⟨r.workers.length, owner, r.next⟩, r.next + 1)] } =
          r.voteIds ++ [r.next, r.next + 1] := by
        simp only [voteIds, List.flatMap_append, List.flatMap_singleton, List.append_assoc]
      rw [hids, Nat.add_sub_cancel_left]
      exact List.perm_append_comm

theorem Sound.step (hr : Sound r) (h : Step r r') : Sound r' := by
  obtain ⟨hle, -, hperm⟩ := h.voteIds_perm
  have hbelow : ∀ i ∈ r'.voteIds, i < r'.next := by
    intro i hi
    rcases List.mem_append.mp (hperm.mem_iff.mp hi) with hnew | hold
    · have := (List.mem_range'_1.mp hnew).2
      omega
    · exact (hr.below i hold).trans_le hle
  have hdistinct : r'.voteIds.Nodup := by
    refine hperm.nodup_iff.mpr (List.nodup_append.mpr ⟨List.nodup_range', hr.distinct, ?_⟩)
    rintro i hnew j hold rfl
    exact absurd (hr.below i hold) (not_lt.mpr (List.mem_range'_1.mp hnew).1)
  cases h with
  | witness account hnew =>
      exact ⟨hdistinct, hbelow, hr.witnesses.append hnew _, hr.committeeMembers⟩
  | committeeMember account hnew =>
      exact ⟨hdistinct, hbelow, hr.witnesses, hr.committeeMembers.append hnew _⟩
  | worker owner => exact ⟨hdistinct, hbelow, hr.witnesses, hr.committeeMembers⟩

end Roll

/-! ## The state is a roll -/

theorem VoteId.number_make (type : VoteType) {i : UInt32} (h : i.toNat < 2 ^ 24) :
    (make type i).number = i.toNat := by
  have htype : type.toUInt32.toNat >>> 8 = 0 := by cases type <;> rfl
  rw [number, make, UInt32.toNat_shiftRight, UInt32.toNat_or, UInt32.toNat_shiftLeft]
  change (i.toNat <<< 8 % 2 ^ 32 ||| type.toUInt32.toNat) >>> 8 = i.toNat
  rw [Nat.shiftRight_or_distrib, htype, Nat.or_zero, Nat.shiftLeft_eq, Nat.shiftRight_eq_div_pow]
  omega

def Votable.candidate (v : Votable) : Candidate := ⟨v.id, v.account, v.voteId.number⟩

def WorkerObject.candidate (w : WorkerObject) : Candidate × ℕ :=
  (⟨w.id, w.workerAccount, w.voteFor.number⟩, w.voteAgainst.number)

inductive ElectionEvent
  | witnessCreate (account : AccountId) (isLifetimeMember : Bool)
  | committeeMemberCreate (account : AccountId) (isLifetimeMember : Bool)
  | workerCreate (owner : AccountId) (isLifetimeMember : Bool) (workBeginDate headBlockTime : ℕ)
  | maintenance (b : VoteBuffers) (headBlockTime : ℕ)

namespace Elections

def apply (c : ImmutableChainParameters) (s : Elections) : ElectionEvent → Checked Elections
  | .witnessCreate account isLifetimeMember => s.witnessCreate account isLifetimeMember
  | .committeeMemberCreate account isLifetimeMember =>
      s.committeeMemberCreate account isLifetimeMember
  | .workerCreate owner isLifetimeMember workBeginDate headBlockTime =>
      s.workerCreate owner isLifetimeMember workBeginDate headBlockTime
  | .maintenance b headBlockTime => s.elect c b headBlockTime

/-- What throws is undone. -/
def step (c : ImmutableChainParameters) (s : Elections) (event : ElectionEvent) : Elections :=
  match s.apply c event with
  | .ok s' => s'
  | .error _ => s

def run (c : ImmutableChainParameters) (events : List ElectionEvent) : Elections :=
  events.foldl (step c) {}

def roll (s : Elections) : Roll where
  next := s.nextAvailableVoteId.toNat
  witnesses := s.witnesses.map Votable.candidate
  committeeMembers := s.committeeMembers.map Votable.candidate
  workers := s.workers.map WorkerObject.candidate

variable {c : ImmutableChainParameters} {s s' : Elections} {account : AccountId}
  {isLifetimeMember : Bool} {b : VoteBuffers} {headBlockTime : ℕ}

theorem toNat_next (h : s.roll.next + 2 < 2 ^ 24) :
    (s.nextAvailableVoteId + 1).toNat = s.roll.next + 1 ∧
      (s.nextAvailableVoteId + 1 + 1).toNat = s.roll.next + 2 := by
  have hnext : s.roll.next = s.nextAvailableVoteId.toNat := rfl
  constructor <;> simp only [UInt32.toNat_add, UInt32.reduceToNat, ← hnext] <;> omega

theorem mem_accounts {objects : List Votable} {account : AccountId} :
    account ∈ (objects.map Votable.candidate).map Candidate.account ↔
      ∃ o ∈ objects, o.account = account := by
  simp [Votable.candidate]

theorem roll_witnessCreate (hnext : s.roll.next + 2 < 2 ^ 24)
    (h : s.witnessCreate account isLifetimeMember = .ok s') : Roll.Step s.roll s'.roll := by
  simp only [witnessCreate, getNextVoteId, insertVotable, Checked.bind_eq_ok, require_eq_ok,
    Checked.pure_eq_ok] at h
  obtain ⟨_, -, objects, ⟨_, hunique, rfl⟩, rfl⟩ := h
  have hnew : account ∉ s.roll.witnesses.map Candidate.account := by
    intro hmem
    obtain ⟨o, ho, hsame⟩ := mem_accounts.mp hmem
    exact (require_eq_ok.mp hunique o ho).1 hsame
  have hstep := Roll.Step.witness s.roll account hnew
  convert hstep using 1
  have hid : (VoteId.make .witness s.nextAvailableVoteId).number = s.roll.next :=
    VoteId.number_make _ (by change s.roll.next < _; omega)
  simp only [roll, List.map_append, List.map_singleton, Votable.candidate, hid, (toNat_next hnext).1,
    List.length_map]

theorem roll_committeeMemberCreate (hnext : s.roll.next + 2 < 2 ^ 24)
    (h : s.committeeMemberCreate account isLifetimeMember = .ok s') :
    Roll.Step s.roll s'.roll := by
  simp only [committeeMemberCreate, getNextVoteId, insertVotable, Checked.bind_eq_ok,
    require_eq_ok, Checked.pure_eq_ok] at h
  obtain ⟨_, -, objects, ⟨_, hunique, rfl⟩, rfl⟩ := h
  have hnew : account ∉ s.roll.committeeMembers.map Candidate.account := by
    intro hmem
    obtain ⟨o, ho, hsame⟩ := mem_accounts.mp hmem
    exact (require_eq_ok.mp hunique o ho).1 hsame
  have hstep := Roll.Step.committeeMember s.roll account hnew
  convert hstep using 1
  have hid : (VoteId.make .committee s.nextAvailableVoteId).number = s.roll.next :=
    VoteId.number_make _ (by change s.roll.next < _; omega)
  simp only [roll, List.map_append, List.map_singleton, Votable.candidate, hid, (toNat_next hnext).1,
    List.length_map]

theorem roll_workerCreate {workBeginDate : ℕ} (hnext : s.roll.next + 2 < 2 ^ 24)
    (h : s.workerCreate account isLifetimeMember workBeginDate headBlockTime = .ok s') :
    Roll.Step s.roll s'.roll := by
  simp only [workerCreate, getNextVoteId, Checked.bind_eq_ok, require_eq_ok,
    Checked.pure_eq_ok] at h
  obtain ⟨_, -, _, -, _, -, rfl⟩ := h
  have hstep := Roll.Step.worker s.roll account
  convert hstep using 1
  have hfor : (VoteId.make .worker s.nextAvailableVoteId).number = s.roll.next :=
    VoteId.number_make _ (by change s.roll.next < _; omega)
  have hagainst : (VoteId.make .worker (s.nextAvailableVoteId + 1)).number = s.roll.next + 1 := by
    rw [VoteId.number_make _ (by rw [(toNat_next hnext).1]; omega), (toNat_next hnext).1]
  simp only [roll, List.map_append, List.map_singleton, WorkerObject.candidate, hfor, hagainst,
    (toNat_next hnext).2, List.length_map]

/-- An election changes neither who is on the roll nor the ids. -/
theorem roll_elect (h : s.elect c b headBlockTime = .ok s') : s'.roll = s.roll := by
  simp only [elect, updateActiveWitnesses, updateActiveCommitteeMembers, updateWorkerVotes,
    Checked.bind_eq_ok, Checked.pure_eq_ok] at h
  obtain ⟨_, ⟨n, -, rfl⟩, _, ⟨m, -, rfl⟩, rfl⟩ := h
  simp only [roll, List.map_map, Roll.mk.injEq, true_and]
  refine ⟨rfl, List.map_congr_left fun del _ ↦ ?_, rfl⟩
  simp only [Function.comp]
  split <;> rfl

theorem roll_step (hnext : s.roll.next + 2 < 2 ^ 24) (event : ElectionEvent) :
    (step c s event).roll = s.roll ∨ Roll.Step s.roll (step c s event).roll := by
  unfold step
  split
  · rename_i s' hok
    cases event with
    | witnessCreate => exact .inr (roll_witnessCreate hnext hok)
    | committeeMemberCreate => exact .inr (roll_committeeMemberCreate hnext hok)
    | workerCreate => exact .inr (roll_workerCreate hnext hok)
    | maintenance => exact .inl (roll_elect hok)
  · exact .inl rfl

/-- What runs that are short enough for the ids to last keep. -/
theorem sound_run (events : List ElectionEvent) (h : 2 * events.length < 2 ^ 24) :
    (run c events).roll.Sound ∧ (run c events).roll.next ≤ 2 * events.length := by
  induction events using List.reverseRecOn with
  | nil => exact ⟨Roll.sound_empty, le_rfl⟩
  | append_singleton events event ih =>
      rw [List.length_append, List.length_singleton] at h ⊢
      obtain ⟨hsound, hnext⟩ := ih (by omega)
      have hrun : run c (events ++ [event]) = step c (run c events) event := List.foldl_concat ..
      rw [hrun]
      rcases roll_step (c := c) (s := run c events) (by omega) event with hsame | hstep
      · rw [hsame]
        exact ⟨hsound, by omega⟩
      · have hmore := hstep.voteIds_perm.2.1
        exact ⟨hsound.step hstep, hmore.trans (by omega)⟩

theorem extends_run (before after : List ElectionEvent)
    (h : 2 * (before ++ after).length < 2 ^ 24) :
    (run c before).roll.Extends (run c (before ++ after)).roll := by
  induction after using List.reverseRecOn with
  | nil =>
      rw [List.append_nil]
      exact .refl _
  | append_singleton after event ih =>
      rw [← List.append_assoc, List.length_append, List.length_singleton] at h
      have hnext := (sound_run (c := c) (before ++ after) (by omega)).2
      rw [← List.append_assoc, run, run, List.foldl_concat]
      rcases roll_step (c := c) (s := run c (before ++ after)) (by omega) event with hsame | hstep
      · exact hsame ▸ ih (by omega)
      · exact (ih (by omega)).trans hstep.extends

/-- The index has room for whoever is not on the roll. -/
theorem insertVotable_ok (account : AccountId) (v : VoteId) {objects : List Votable}
    (hnew : account ∉ (objects.map Votable.candidate).map Candidate.account)
    (hids : ∀ o ∈ objects, o.voteId.number ≠ v.number) :
    insertVotable account v objects =
      .ok (objects ++ [{ id := objects.length, account, voteId := v }]) := by
  have hunique : ∀ o ∈ objects, o.account ≠ account ∧ o.voteId.number ≠ v.number := by
    intro o ho
    exact ⟨fun hsame ↦ hnew (mem_accounts.mpr ⟨o, ho, hsame⟩), hids o ho⟩
  rw [insertVotable, (require_eq_ok (u := ())).mpr hunique]
  rfl

end Elections

open Elections

/-- No two ids that are voted for are the same, whatever the types of what they stand for, and
the next is not one of them.  Nobody who has an id ever gets another one or loses it, and it
is never for an id that a witness, a committee member or a worker can not be created. -/
theorem voteIds_of_run (c : ImmutableChainParameters) (before after : List ElectionEvent)
    (h : 2 * (before ++ after).length + 2 < 2 ^ 24) :
    let s := run c (before ++ after)
    s.roll.voteIds.Nodup ∧ (∀ i ∈ s.roll.voteIds, i < s.nextAvailableVoteId.toNat) ∧
      (run c before).roll.Extends s.roll ∧
      (∀ account ∉ s.witnesses.map Votable.account, ∃ s', s.witnessCreate account true = .ok s') ∧
      (∀ account ∉ s.committeeMembers.map Votable.account,
        ∃ s', s.committeeMemberCreate account true = .ok s') ∧
      ∀ owner workBeginDate headBlockTime, headBlockTime ≤ workBeginDate →
        ∃ s', s.workerCreate owner true workBeginDate headBlockTime = .ok s' := by
  intro s
  obtain ⟨hsound, hlast⟩ := sound_run (c := c) (before ++ after) (by omega)
  have hnext : s.roll.next ≤ 2 * (before ++ after).length := hlast
  have hbelow : ∀ i ∈ s.roll.voteIds, i < s.roll.next := hsound.below
  have hfirst (type : VoteType) : (VoteId.make type s.nextAvailableVoteId).number = s.roll.next :=
    VoteId.number_make _ (by change s.roll.next < _; omega)
  have hsecond : (VoteId.make .worker (s.nextAvailableVoteId + 1)).number = s.roll.next + 1 := by
    have hlt : s.roll.next + 2 < 2 ^ 24 := by omega
    rw [VoteId.number_make _ (by rw [(toNat_next hlt).1]; omega), (toNat_next hlt).1]
  refine ⟨hsound.distinct, hsound.below, extends_run before after (by omega), ?_, ?_, ?_⟩
  · intro account hnew
    have hids : ∀ o ∈ s.witnesses, o.voteId.number ≠ s.roll.next := by
      intro o ho
      refine (hbelow _ ?_).ne
      simp only [Roll.voteIds, roll, List.map_map, List.mem_append]
      exact .inl (.inl (List.mem_map_of_mem (f := Candidate.number ∘ Votable.candidate) ho))
    have hinsert := insertVotable_ok account (.make .witness s.nextAvailableVoteId)
      (by rwa [List.map_map]) (by rwa [hfirst])
    exact ⟨_, by simp only [witnessCreate, getNextVoteId, hinsert]; rfl⟩
  · intro account hnew
    have hids : ∀ o ∈ s.committeeMembers, o.voteId.number ≠ s.roll.next := by
      intro o ho
      refine (hbelow _ ?_).ne
      simp only [Roll.voteIds, roll, List.map_map, List.mem_append]
      exact .inl (.inr (List.mem_map_of_mem (f := Candidate.number ∘ Votable.candidate) ho))
    have hinsert := insertVotable_ok account (.make .committee s.nextAvailableVoteId)
      (by rwa [List.map_map]) (by rwa [hfirst])
    exact ⟨_, by simp only [committeeMemberCreate, getNextVoteId, hinsert]; rfl⟩
  · intro owner workBeginDate headBlockTime hbegin
    have hids : ∀ w ∈ s.workers,
        w.voteFor.number ≠ (VoteId.make .worker s.nextAvailableVoteId).number ∧
          w.voteAgainst.number ≠ (VoteId.make .worker (s.nextAvailableVoteId + 1)).number := by
      intro w hw
      have hmem : ∀ i ∈ [w.voteFor.number, w.voteAgainst.number], i < s.roll.next := by
        intro i hi
        apply hbelow
        simp only [Roll.voteIds, roll, List.mem_append, List.mem_flatMap, List.mem_map]
        exact .inr ⟨w.candidate, ⟨w, hw, rfl⟩, hi⟩
      rw [hfirst, hsecond]
      exact ⟨(hmem _ (by simp)).ne, ((hmem _ (by simp)).trans (Nat.lt_succ_self _)).ne⟩
    exact ⟨_, Checked.bind_eq_ok.mpr ⟨(), require_eq_ok.mpr rfl,
      Checked.bind_eq_ok.mpr ⟨(), require_eq_ok.mpr hbegin,
        Checked.bind_eq_ok.mpr ⟨(), require_eq_ok.mpr hids, rfl⟩⟩⟩⟩

theorem voteIds_of_twoEvents :
    let s := run ⟨1, 1⟩ ([.witnessCreate 7 true] ++ [.workerCreate 7 true 5 5])
    s.roll.voteIds = [0, 1, 2] ∧ s.roll.voteIds.Nodup ∧
      (∀ i ∈ s.roll.voteIds, i < s.nextAvailableVoteId.toNat) ∧
      (run ⟨1, 1⟩ [.witnessCreate 7 true]).roll.Extends s.roll ∧
      (∀ account ∉ s.witnesses.map Votable.account, ∃ s', s.witnessCreate account true = .ok s') ∧
      (∀ account ∉ s.committeeMembers.map Votable.account,
        ∃ s', s.committeeMemberCreate account true = .ok s') ∧
      ∀ owner workBeginDate headBlockTime, headBlockTime ≤ workBeginDate →
        ∃ s', s.workerCreate owner true workBeginDate headBlockTime = .ok s' :=
  ⟨by decide, voteIds_of_run ⟨1, 1⟩ [.witnessCreate 7 true] [.workerCreate 7 true 5 5]
    (by decide)⟩

end KarmaCore.Votes
