import Mathlib
import KarmaCore.Authority.VerifyAuthority

/-!
# The keys that a check asks for

Where the depth limit cuts no check and no total of weights wraps around, what
`check_authority` answers and which keys it marks as used do not depend on what
was checked before.  An authority is accepted when its weights reach the
threshold, and with fewer signatures fewer authorities are accepted and more
keys are asked for.
-/

namespace KarmaCore.Authorities

/-! ## Loops over entries -/

section Entries

variable {α : Type}

/-- The entries that a loop examines before it returns. -/
def askedEntries (p : α → Prop) [DecidablePred p] (threshold : ℕ) :
    List (α × UInt16) → ℕ → List α
  | [], _ => []
  | (a, weight) :: entries, total =>
    a :: if p a then
        if threshold ≤ total + weight.toNat then []
        else askedEntries p threshold entries (total + weight.toNat)
      else askedEntries p threshold entries total

/-- The loop returns, as it does only after an entry that counts. -/
def Returns (p : α → Prop) (threshold : ℕ) : List (α × UInt16) → ℕ → Prop
  | [], _ => False
  | (a, weight) :: entries, total =>
    (p a ∧ (threshold ≤ total + weight.toNat ∨
      Returns p threshold entries (total + weight.toNat))) ∨
    (¬p a ∧ Returns p threshold entries total)

variable {p q : α → Prop} [DecidablePred p] [DecidablePred q] {threshold total total' : ℕ}
  {entries : List (α × UInt16)} {a : α}

theorem Returns.le (h : Returns p threshold entries total) :
    threshold ≤ total + weightOf p entries := by
  induction entries generalizing total with
  | nil => exact h.elim
  | cons e entries ih =>
      rw [weightOf_cons]
      rcases h with ⟨hp, hreached | hrest⟩ | ⟨hp, hrest⟩
      · rw [if_pos hp]
        omega
      · have := ih hrest
        rw [if_pos hp]
        omega
      · have := ih hrest
        rw [if_neg hp]
        omega

omit [DecidablePred p] [DecidablePred q] in
theorem Returns.mono (hpq : ∀ a, p a → q a) (h : Returns p threshold entries total)
    (hle : total ≤ total') : Returns q threshold entries total' := by
  induction entries generalizing total total' with
  | nil => exact h
  | cons e entries ih =>
      rcases h with ⟨hp, hreached | hrest⟩ | ⟨-, hrest⟩
      · exact .inl ⟨hpq _ hp, .inl (hreached.trans (Nat.add_le_add_right hle _))⟩
      · exact .inl ⟨hpq _ hp, .inr (ih hrest (Nat.add_le_add_right hle _))⟩
      · by_cases hq : q e.1
        · exact .inl ⟨hq, .inr (ih hrest (hle.trans (Nat.le_add_right _ _)))⟩
        · exact .inr ⟨hq, ih hrest hle⟩

/-- Where less counts, a loop examines more. -/
theorem askedEntries_anti (hpq : ∀ a, p a → q a) (hle : total ≤ total')
    (h : a ∈ askedEntries q threshold entries total') :
    a ∈ askedEntries p threshold entries total := by
  induction entries generalizing total total' with
  | nil => exact h
  | cons e entries ih =>
      obtain ⟨b, weight⟩ := e
      simp only [askedEntries, List.mem_cons] at h ⊢
      rcases h with rfl | h
      · exact .inl rfl
      · right
        by_cases hq : q b
        · rw [if_pos hq] at h
          split_ifs at h with hreached
          · cases h
          · split_ifs with hp hreached'
            · exact absurd (hreached'.trans (Nat.add_le_add_right hle _)) hreached
            · exact ih (Nat.add_le_add_right hle _) h
            · exact ih (hle.trans (Nat.le_add_right _ _)) h
        · rw [if_neg hq] at h
          rw [if_neg fun hp ↦ hq (hpq b hp)]
          exact ih hle h

end Entries

/-! ## Authorities -/

/-- The weights of all entries together are in range. -/
def Authority.Light (auth : Authority) : Prop :=
  weightOf (fun _ ↦ True) auth.keyAuths + weightOf (fun _ ↦ True) auth.accountAuths < 2 ^ 32

/-- The exception says that an authority is missing. -/
def VerifyError.IsMissing : VerifyError → Prop
  | .txMissingOtherAuth _ | .txMissingActiveAuth _ | .txMissingOwnerAuth _ => True
  | .invalidCommitteeApproval | .txIrrelevantSig => False

namespace VerifyCall

/-- The account counts at some depth. -/
def Approved (c : VerifyCall) (a : AccountId) : Prop := ∃ n, c.Counts n a

noncomputable instance (c : VerifyCall) : DecidablePred c.Approved := Classical.decPred _

/-- The signed keys and the accounts that count reach the threshold. -/
def Accepts (c : VerifyCall) (auth : Authority) : Prop :=
  auth.weightThreshold.toNat ≤
    weightOf (· ∈ c.sigs) auth.keyAuths + weightOf c.Approved auth.accountAuths

/-- The accounts that a check of the authority comes to. -/
noncomputable def askedAccounts (c : VerifyCall) (auth : Authority) : List AccountId :=
  open Classical in
  if Returns (· ∈ c.sigs) auth.weightThreshold.toNat auth.keyAuths 0 then []
  else askedEntries c.Approved auth.weightThreshold.toNat auth.accountAuths
    (weightOf (· ∈ c.sigs) auth.keyAuths)

/-- The keys that a check of the authority asks for, also further down. -/
inductive Asks (c : VerifyCall) : Authority → PublicKey → Prop
  | key {auth : Authority} {k : PublicKey}
      (h : k ∈ askedEntries (· ∈ c.sigs) auth.weightThreshold.toNat auth.keyAuths 0) :
      Asks c auth k
  | account {auth inner : Authority} {a : AccountId} {k : PublicKey}
      (h : a ∈ c.askedAccounts auth) (hnew : a ∉ c.approvals)
      (hinner : c.getActive a = some inner) (hk : Asks c inner k) : Asks c auth k

/-- The keys that are asked for on behalf of an account. -/
def AsksFor (c : VerifyCall) (a : AccountId) (k : PublicKey) : Prop :=
  a ∉ c.approvals ∧ ∃ auth, c.getActive a = some auth ∧ c.Asks auth k

variable {c d : VerifyCall} {n : ℕ} {a : AccountId} {k : PublicKey} {auth : Authority}

theorem approved_iff : c.Approved a ↔
    a ∈ c.approvals ∨ ∃ auth, c.getActive a = some auth ∧ c.Accepts auth := by
  constructor
  · rintro ⟨n, hn⟩
    cases n with
    | zero => exact .inl hn
    | succ n =>
        rcases hn with h | ⟨auth, hauth, accounts, haccounts, hreached⟩
        · exact .inl h
        · refine .inr ⟨auth, hauth, hreached.trans (Nat.add_le_add_left ?_ _)⟩
          exact weightOf_le fun e _ he ↦ ⟨n, haccounts e.1 he⟩
  · rintro (h | ⟨auth, hauth, haccepts⟩)
    · exact ⟨0, h⟩
    · have hcount : ∀ b ∈ ((auth.accountAuths.map Prod.fst).toFinset.filter c.Approved),
          ∃ n, c.Counts n b := fun b hb ↦ (Finset.mem_filter.mp hb).2
      obtain ⟨n, hn⟩ := exists_counts hcount
      refine ⟨n + 1, .inr ⟨auth, hauth, _, hn, haccepts.trans (Nat.add_le_add_left ?_ _)⟩⟩
      refine weightOf_le fun e he happroved ↦ Finset.mem_filter.mpr ⟨?_, happroved⟩
      exact List.mem_toFinset.mpr (List.mem_map_of_mem he)

theorem asks_iff : c.Asks auth k ↔
    k ∈ askedEntries (· ∈ c.sigs) auth.weightThreshold.toNat auth.keyAuths 0 ∨
      ∃ a ∈ c.askedAccounts auth, c.AsksFor a k := by
  constructor
  · rintro (h | ⟨ha, hnew, hinner, hk⟩)
    · exact .inl h
    · exact .inr ⟨_, ha, hnew, _, hinner, hk⟩
  · rintro (h | ⟨a, ha, hnew, inner, hinner, hk⟩)
    · exact .key h
    · exact .account ha hnew hinner hk

theorem askedAccounts_of_returns
    (h : Returns (· ∈ c.sigs) auth.weightThreshold.toNat auth.keyAuths 0) :
    c.askedAccounts auth = [] := if_pos h

theorem askedAccounts_of_not_returns
    (h : ¬Returns (· ∈ c.sigs) auth.weightThreshold.toNat auth.keyAuths 0) :
    c.askedAccounts auth = askedEntries c.Approved auth.weightThreshold.toNat auth.accountAuths
      (weightOf (· ∈ c.sigs) auth.keyAuths) := if_neg h

/-! ## Fewer signatures -/

/-- The same accounts with fewer signatures. -/
structure Narrows (d c : VerifyCall) : Prop where
  getActive : d.getActive = c.getActive
  approvals : d.approvals = c.approvals
  sigs : ∀ k ∈ d.sigs, k ∈ c.sigs

theorem Narrows.counts (h : d.Narrows c) (ha : d.Counts n a) : c.Counts n a := by
  induction n generalizing a with
  | zero =>
      have ha : a ∈ d.approvals := ha
      exact (h.approvals ▸ ha : a ∈ c.approvals)
  | succ n ih =>
      rcases ha with ha | ⟨auth, hauth, accounts, haccounts, hreached⟩
      · exact .inl (h.approvals ▸ ha)
      · refine .inr ⟨auth, h.getActive ▸ hauth, accounts, fun b hb ↦ ih (haccounts b hb), ?_⟩
        exact hreached.trans (Nat.add_le_add_right (weightOf_le fun e _ ↦ h.sigs e.1) _)

theorem Narrows.approved (h : d.Narrows c) (ha : d.Approved a) : c.Approved a :=
  ha.imp fun _ ↦ h.counts

theorem Narrows.accepts (h : d.Narrows c) (hauth : d.Accepts auth) : c.Accepts auth :=
  hauth.trans (Nat.add_le_add (weightOf_le fun e _ ↦ h.sigs e.1)
    (weightOf_le fun _ _ ↦ h.approved))

theorem Narrows.askedAccounts (h : d.Narrows c) (ha : a ∈ c.askedAccounts auth) :
    a ∈ d.askedAccounts auth := by
  unfold VerifyCall.askedAccounts at ha ⊢
  split_ifs at ha with hreturns
  · cases ha
  · rw [if_neg fun hd ↦ hreturns (hd.mono h.sigs le_rfl)]
    exact askedEntries_anti (fun _ ↦ h.approved) (weightOf_le fun e _ ↦ h.sigs e.1) ha

theorem Narrows.asks (h : d.Narrows c) (hk : c.Asks auth k) : d.Asks auth k := by
  induction hk with
  | key hk => exact .key (askedEntries_anti h.sigs le_rfl hk)
  | account ha hnew hinner _ ih =>
      exact .account (h.askedAccounts ha) (h.approvals ▸ hnew) (h.getActive ▸ hinner) ih

/-! ## The state during a check -/

/-- A key is provided and marked as used. -/
def Used (s : SignState) (k : PublicKey) : Prop := (k, true) ∈ s.providedSignatures

/-- What a state keeps: which keys it can find signed, and that whatever was
approved after the start was accepted, with its keys marked. -/
structure Consistent (c : VerifyCall) (s : SignState) : Prop where
  signed : ∀ k, k ∈ s.providedSignatures.map Prod.fst ∨ k ∈ s.availableKeys ↔ k ∈ c.sigs
  marked : ∀ k, (k, true) ∈ s.providedSignatures → (k, false) ∉ s.providedSignatures
  approvals : c.approvals ⊆ s.approvedBy
  approved : ∀ a ∈ s.approvedBy, a ∈ c.approvals ∨ ∃ auth, c.getActive a = some auth ∧
    c.Accepts auth ∧ ∀ k ∈ c.sigs, c.Asks auth k → Used s k

/-- A check answers as it should and marks the keys it should. -/
structure Exact (c : VerifyCall) (holds : Prop) (asks : PublicKey → Prop) (s : SignState)
    (result : Bool × SignState) : Prop where
  consistent : c.Consistent result.2
  verdict : result.1 = true ↔ holds
  used : ∀ k, Used result.2 k ↔ Used s k ∨ k ∈ c.sigs ∧ asks k

variable {s t : SignState}

theorem Consistent.of_used (hs : c.Consistent s) {signatures : List (PublicKey × Bool)}
    {examined : Finset PublicKey}
    (hsigned : ∀ k, k ∈ signatures.map Prod.fst ∨ k ∈ s.availableKeys ↔ k ∈ c.sigs)
    (hmarked : ∀ k, (k, true) ∈ signatures → (k, false) ∉ signatures)
    (hused : ∀ k, Used s k → (k, true) ∈ signatures) :
    c.Consistent { s with providedSignatures := signatures, examined := examined } where
  signed := hsigned
  marked := hmarked
  approvals := hs.approvals
  approved a ha := by
    rcases hs.approved a ha with h | ⟨auth, hauth, haccepts, hasked⟩
    · exact .inl h
    · exact .inr ⟨auth, hauth, haccepts, fun k hk h ↦ hused k (hasked k hk h)⟩

theorem Consistent.isApproved (hs : c.Consistent s) (ha : a ∈ s.approvedBy) : c.Approved a := by
  rcases hs.approved a ha with h | ⟨auth, hauth, haccepts, -⟩
  · exact approved_iff.mpr (.inl h)
  · exact approved_iff.mpr (.inr ⟨auth, hauth, haccepts⟩)

theorem Consistent.asked (hs : c.Consistent s) (ha : a ∈ s.approvedBy) (hk : k ∈ c.sigs)
    (h : c.AsksFor a k) : Used s k := by
  obtain ⟨hnew, auth, hauth, hasks⟩ := h
  rcases hs.approved a ha with h | ⟨auth', hauth', -, hasked⟩
  · exact absurd h hnew
  · obtain rfl := Option.some.inj (hauth.symm.trans hauth')
    exact hasked k hk hasks

/-- An account that is already approved has had its keys marked. -/
theorem Exact.of_approved (hs : c.Consistent s) (ha : a ∈ s.approvedBy) :
    c.Exact (c.Approved a) (c.AsksFor a) s (true, s) where
  consistent := hs
  verdict := ⟨fun _ ↦ hs.isApproved ha, fun _ ↦ rfl⟩
  used _ := ⟨.inl, fun h ↦ h.elim id fun ⟨hk, h⟩ ↦ hs.asked ha hk h⟩

theorem mem_markUsed_iff {signatures : List (PublicKey × Bool)} {x : PublicKey} :
    (x, true) ∈ SignState.markUsed k signatures ↔
      (x, true) ∈ signatures ∨ x = k ∧ k ∈ signatures.map Prod.fst := by
  unfold SignState.markUsed
  simp only [List.mem_map]
  constructor
  · rintro ⟨⟨y, used⟩, hy, heq⟩
    split_ifs at heq with hyk
    · have hyk : y = k := hyk
      obtain rfl : k = x := congrArg Prod.fst heq
      exact .inr ⟨rfl, (y, used), hy, hyk⟩
    · exact .inl (heq ▸ hy)
  · rintro (hx | ⟨rfl, ⟨y, used⟩, hy, hyk⟩)
    · exact ⟨(x, true), hx, by split_ifs with h <;> simp_all⟩
    · exact ⟨(y, used), hy, if_pos hyk⟩

theorem mem_markUsed_false {signatures : List (PublicKey × Bool)} {x : PublicKey}
    (h : (x, false) ∈ SignState.markUsed k signatures) : (x, false) ∈ signatures ∧ x ≠ k := by
  obtain ⟨⟨y, used⟩, hy, heq⟩ := List.mem_map.mp h
  split_ifs at heq with hyk
  · cases congrArg Prod.snd heq
  · obtain ⟨rfl, rfl⟩ := Prod.mk.inj heq
    exact ⟨hy, hyk⟩

theorem signedBy_exact (hs : c.Consistent s) :
    c.Exact (k ∈ c.sigs) (· = k) s (SignState.signedBy k s) := by
  unfold SignState.signedBy
  by_cases hmem : k ∈ s.providedSignatures.map Prod.fst
  · rw [if_pos hmem]
    have hsigned := (hs.signed k).mp (.inl hmem)
    refine ⟨hs.of_used (fun x ↦ ?_) (fun x htrue hfalse ↦ ?_)
        fun x hx ↦ mem_markUsed_iff.mpr (.inl hx),
      ⟨fun _ ↦ hsigned, fun _ ↦ rfl⟩, fun x ↦ mem_markUsed_iff.trans (or_congr_right ?_)⟩
    · rw [markUsed_keys]
      exact hs.signed x
    · obtain ⟨hfalse, hx⟩ := mem_markUsed_false hfalse
      rcases mem_markUsed_iff.mp htrue with htrue | ⟨rfl, -⟩
      · exact hs.marked x htrue hfalse
      · exact hx rfl
    · constructor
      · rintro ⟨rfl, -⟩
        exact ⟨hsigned, rfl⟩
      · rintro ⟨-, rfl⟩
        exact ⟨rfl, hmem⟩
  · rw [if_neg hmem]
    by_cases hav : k ∈ s.availableKeys
    · rw [if_pos hav]
      have hsigned := (hs.signed k).mp (.inr hav)
      refine ⟨hs.of_used (fun x ↦ ?_) (fun x htrue hfalse ↦ ?_)
          fun x hx ↦ List.mem_cons_of_mem _ hx,
        ⟨fun _ ↦ hsigned, fun _ ↦ rfl⟩, fun x ↦ ?_⟩
      · rw [← hs.signed x, List.map_cons, List.mem_cons, or_assoc]
        refine ⟨fun h ↦ h.elim (fun hx ↦ .inr (hx ▸ hav)) id, .inr⟩
      · have hold : (x, false) ∈ s.providedSignatures := by simpa using hfalse
        rcases List.mem_cons.mp htrue with hx | htrue
        · obtain ⟨rfl, -⟩ := Prod.mk.inj hx
          exact hmem (List.mem_map_of_mem hold)
        · exact hs.marked x htrue hold
      · unfold Used
        rw [List.mem_cons, Prod.mk.injEq]
        constructor
        · rintro (⟨rfl, -⟩ | hx)
          · exact .inr ⟨hsigned, rfl⟩
          · exact .inl hx
        · rintro (hx | ⟨-, rfl⟩)
          · exact .inr hx
          · exact .inl ⟨rfl, rfl⟩
    · rw [if_neg hav]
      have hunsigned : k ∉ c.sigs := fun h ↦ ((hs.signed k).mpr h).elim hmem hav
      refine ⟨hs.of_used hs.signed hs.marked fun _ ↦ id, ⟨nofun, fun h ↦ absurd h hunsigned⟩, fun x ↦ ?_⟩
      exact ⟨.inl, fun h ↦ h.elim id fun ⟨hx, hxk⟩ ↦ absurd (hxk ▸ hx) hunsigned⟩

/-! ## Checks -/

section CountEntries

variable {α : Type} {p : α → Prop} [DecidablePred p] {asks : α → PublicKey → Prop}
  {counts : α → SignState → Bool × SignState} {threshold : UInt32}
  {entries : List (α × UInt16)} {total : UInt32}

/-- What a loop over entries does when each is counted exactly. -/
structure CountsExactly (c : VerifyCall) (p : α → Prop) [DecidablePred p]
    (asks : α → PublicKey → Prop) (threshold : UInt32) (entries : List (α × UInt16))
    (total : UInt32) (s : SignState) (result : Bool × UInt32 × SignState) : Prop where
  consistent : c.Consistent result.2.2
  returned : result.1 = true ↔ Returns p threshold.toNat entries total.toNat
  weight : result.1 = false → result.2.1.toNat = total.toNat + weightOf p entries
  used : ∀ k, Used result.2.2 k ↔ Used s k ∨ k ∈ c.sigs ∧
    ∃ a ∈ askedEntries p threshold.toNat entries total.toNat, asks a k

theorem countEntries_exact
    (hcounts : ∀ e ∈ entries, ∀ s, c.Consistent s → c.Exact (p e.1) (asks e.1) s (counts e.1 s))
    (hs : c.Consistent s) (hlight : total.toNat + weightOf p entries < 2 ^ 32) :
    c.CountsExactly p asks threshold entries total s
      (SignState.countEntries counts threshold entries total s) := by
  induction entries generalizing total s with
  | nil => exact ⟨hs, by simp [SignState.countEntries, Returns], fun _ ↦ rfl,
      fun k ↦ by simp [SignState.countEntries, askedEntries]⟩
  | cons e entries ih =>
      obtain ⟨a, weight⟩ := e
      have hone := hcounts (a, weight) List.mem_cons_self s hs
      have htail := fun e he ↦ hcounts e (List.mem_cons_of_mem _ he)
      rw [weightOf_cons] at hlight
      simp only [SignState.countEntries]
      rcases hcount : counts a s with ⟨signed, mid⟩
      rw [hcount] at hone
      cases signed with
      | true =>
          have hp : p a := hone.verdict.mp rfl
          rw [if_pos hp] at hlight
          have hadd : (total + weight.toUInt32).toNat = total.toNat + weight.toNat :=
            toNat_add_eq (by dsimp only at hlight; omega)
          dsimp only
          split_ifs with hreached
          all_goals rw [UInt32.le_iff_toNat_le, hadd] at hreached
          · refine ⟨hone.consistent, ⟨fun _ ↦ .inl ⟨hp, .inl hreached⟩, fun _ ↦ rfl⟩,
              fun h ↦ absurd h (by simp),
              fun k ↦ (hone.used k).trans (or_congr_right (and_congr_right fun _ ↦ ?_))⟩
            simp [askedEntries, hp, hreached]
          · have hrange : (total + weight.toUInt32).toNat + weightOf p entries < 2 ^ 32 := by
              rw [hadd]
              dsimp only at hlight
              omega
            have hrest := ih htail hone.consistent hrange
            refine ⟨hrest.consistent, hrest.returned.trans ?_, fun h ↦ ?_, fun k ↦ ?_⟩
            · rw [hadd]
              simp [Returns, hp, hreached]
            · rw [hrest.weight h, hadd, weightOf_cons, if_pos hp, add_assoc]
            · rw [hrest.used k, hone.used k, hadd]
              simp only [askedEntries, hp, hreached, if_true, if_false, List.mem_cons,
                exists_eq_or_imp]
              tauto
      | false =>
          have hp : ¬p a := fun h ↦ by simpa using hone.verdict.mpr h
          rw [if_neg hp, zero_add] at hlight
          have hrest := ih htail hone.consistent hlight
          refine ⟨hrest.consistent, hrest.returned.trans ?_, fun h ↦ ?_, fun k ↦ ?_⟩
          · simp [Returns, hp]
          · rw [hrest.weight h, weightOf_cons, if_neg hp, zero_add]
          · rw [hrest.used k, hone.used k]
            simp only [askedEntries, hp, if_false, List.mem_cons, exists_eq_or_imp]
            tauto

end CountEntries

/-- The check of one authority, when its accounts are checked exactly. -/
theorem checkWith_exact {check : Option (AccountId → SignState → Bool × SignState)}
    (hcheck : ∀ e ∈ auth.accountAuths, ∀ s, c.Consistent s →
      c.Exact (c.Approved e.1) (c.AsksFor e.1) s (SignState.approves check e.1 s))
    (hlight : auth.Light) (hs : c.Consistent s) :
    c.Exact (c.Accepts auth) (c.Asks auth) s (SignState.checkWith check (some auth) s) := by
  have hkeysLe : weightOf (· ∈ c.sigs) auth.keyAuths ≤ weightOf (fun _ ↦ True) auth.keyAuths :=
    weightOf_le fun _ _ _ ↦ trivial
  have haccountsLe : weightOf c.Approved auth.accountAuths ≤
      weightOf (fun _ ↦ True) auth.accountAuths := weightOf_le fun _ _ _ ↦ trivial
  have hrange := hlight
  unfold Authority.Light at hrange
  have hfirst : c.CountsExactly (· ∈ c.sigs) (fun k' k ↦ k = k') auth.weightThreshold auth.keyAuths
      0 s (SignState.countEntries SignState.signedBy auth.weightThreshold auth.keyAuths 0 s) :=
    countEntries_exact (fun e _ s hs ↦ signedBy_exact hs) hs (by simp; omega)
  unfold SignState.checkWith
  dsimp only
  rcases hkeys : SignState.countEntries SignState.signedBy auth.weightThreshold auth.keyAuths 0 s
    with ⟨done, total, t⟩
  rw [hkeys] at hfirst
  cases done with
  | true =>
      have hreturns := hfirst.returned.mp rfl
      refine ⟨hfirst.consistent, ⟨fun _ ↦ ?_, fun _ ↦ rfl⟩, fun k ↦ ?_⟩
      · exact hreturns.le.trans (by simp)
      · rw [hfirst.used k, asks_iff, askedAccounts_of_returns hreturns]
        simp
  | false =>
      have hreturns := mt hfirst.returned.mpr (by simp)
      have htotal : total.toNat = weightOf (· ∈ c.sigs) auth.keyAuths := by
        simpa using hfirst.weight rfl
      have hsecond : c.CountsExactly c.Approved c.AsksFor auth.weightThreshold auth.accountAuths
          total t (SignState.countEntries (SignState.approves check) auth.weightThreshold
            auth.accountAuths total t) :=
        countEntries_exact hcheck hfirst.consistent (by omega)
      dsimp only
      rcases haccounts : SignState.countEntries (SignState.approves check) auth.weightThreshold
        auth.accountAuths total t with ⟨done', total', u⟩
      rw [haccounts] at hsecond
      have hused : ∀ k, Used u k ↔ Used s k ∨ k ∈ c.sigs ∧ c.Asks auth k := by
        intro k
        rw [hsecond.used k, hfirst.used k, asks_iff, askedAccounts_of_not_returns hreturns, htotal]
        simp
        tauto
      cases done' with
      | true =>
          refine ⟨hsecond.consistent, ⟨fun _ ↦ ?_, fun _ ↦ rfl⟩, hused⟩
          have hle := (hsecond.returned.mp rfl).le
          rwa [htotal] at hle
      | false =>
          refine ⟨hsecond.consistent, ?_, hused⟩
          dsimp only
          rw [decide_eq_true_iff, UInt32.le_iff_toNat_le, hsecond.weight rfl, htotal, Accepts]

/-- The check of what an account has, be it nothing. -/
theorem checkWith_exact_option {check : Option (AccountId → SignState → Bool × SignState)}
    {au : Option Authority} (hcheck : ∀ auth, au = some auth → ∀ e ∈ auth.accountAuths, ∀ s,
      c.Consistent s → c.Exact (c.Approved e.1) (c.AsksFor e.1) s (SignState.approves check e.1 s))
    (hlight : ∀ auth, au = some auth → auth.Light) (hs : c.Consistent s) :
    c.Exact (∃ auth, au = some auth ∧ c.Accepts auth) (fun k ↦ ∃ auth, au = some auth ∧ c.Asks auth k)
      s (SignState.checkWith check au s) := by
  cases au with
  | none => exact ⟨hs, by simp [SignState.checkWith], by simp [SignState.checkWith]⟩
  | some auth =>
      have hexact := checkWith_exact (hcheck auth rfl) (hlight auth rfl) hs
      exact ⟨hexact.consistent, by simpa using hexact.verdict, by simpa using hexact.used⟩

theorem approves_exact {f : AccountId → SignState → Bool × SignState}
    (hcheck : c.Exact (∃ auth, c.getActive a = some auth ∧ c.Accepts auth)
      (fun k ↦ ∃ auth, c.getActive a = some auth ∧ c.Asks auth k) s (f a s))
    (hs : c.Consistent s) :
    c.Exact (c.Approved a) (c.AsksFor a) s (SignState.approves (some f) a s) := by
  unfold SignState.approves
  split_ifs with ha
  · exact .of_approved hs ha
  · have hnew : a ∉ c.approvals := fun h ↦ ha (hs.approvals h)
    have hused : ∀ k, Used (f a s).2 k ↔ Used s k ∨ k ∈ c.sigs ∧ c.AsksFor a k := fun k ↦
      (hcheck.used k).trans (or_congr_right (and_congr_right fun _ ↦ (and_iff_right hnew).symm))
    have hiff : c.Approved a ↔ ∃ auth, c.getActive a = some auth ∧ c.Accepts auth :=
      approved_iff.trans (or_iff_right hnew)
    dsimp only
    rcases hf : f a s with ⟨accepted, t⟩
    rw [hf] at hcheck hused
    have ht := hcheck.consistent
    cases accepted with
    | true =>
        obtain ⟨auth, hauth, haccepts⟩ := hcheck.verdict.mp rfl
        refine ⟨⟨ht.signed, ht.marked, ht.approvals.trans (Finset.subset_insert a _), fun b hb ↦ ?_⟩,
          ⟨fun _ ↦ hiff.mpr ⟨auth, hauth, haccepts⟩, fun _ ↦ rfl⟩, hused⟩
        rcases Finset.mem_insert.mp hb with rfl | hb
        · refine .inr ⟨auth, hauth, haccepts, fun k hk h ↦ ?_⟩
          exact (hused k).mpr (.inr ⟨hk, hnew, auth, hauth, h⟩)
        · exact ht.approved b hb
    | false => exact ⟨ht, ⟨nofun, fun h ↦ hcheck.verdict.mpr (hiff.mp h)⟩, hused⟩

/-- No check is cut at the depth limit and no total of weights wraps around. -/
structure Uncut (c : VerifyCall) : Prop where
  light : ∀ n auth, c.Examined n auth → auth.Light
  nested : ∀ auth, c.Examined 0 auth → ∀ e ∈ auth.accountAuths, e.1 ∈ c.approvals

theorem checkAuthority_exact (hc : c.Uncut) {au : Option Authority}
    (hex : ∀ auth, au = some auth → c.Examined n auth) (hs : c.Consistent s) :
    c.Exact (∃ auth, au = some auth ∧ c.Accepts auth) (fun k ↦ ∃ auth, au = some auth ∧ c.Asks auth k)
      s (SignState.checkAuthority c.getActive n au s) := by
  induction n generalizing au s with
  | zero =>
      refine checkWith_exact_option (fun auth hauth e he s hs ↦ ?_)
        (fun auth hauth ↦ hc.light 0 auth (hex auth hauth)) hs
      have happroved := hs.approvals (hc.nested auth (hex auth hauth) e he)
      unfold SignState.approves
      rw [if_pos happroved]
      exact .of_approved hs happroved
  | succ n ih =>
      refine checkWith_exact_option (fun auth hauth e he s hs ↦ ?_)
        (fun auth hauth ↦ hc.light (n + 1) auth (hex auth hauth)) hs
      exact approves_exact (ih (fun inner hinner ↦ (hex auth hauth).entry he hinner) hs) hs

theorem checkAccount_exact (hc : c.Uncut)
    (hex : ∀ auth, c.getActive a = some auth → c.Examined n auth) (hs : c.Consistent s) :
    c.Exact (c.Approved a) (c.AsksFor a) s (SignState.checkAccount c.getActive n a s) := by
  unfold SignState.checkAccount
  split_ifs with ha
  · exact .of_approved hs ha
  · have hcheck := checkAuthority_exact hc hex hs
    have hnew : a ∉ c.approvals := fun h ↦ ha (hs.approvals h)
    refine ⟨hcheck.consistent, hcheck.verdict.trans ?_, fun k ↦ ?_⟩
    · exact (approved_iff.trans (or_iff_right hnew)).symm
    · exact (hcheck.used k).trans
        (or_congr_right (and_congr_right fun _ ↦ (and_iff_right hnew).symm))

/-! ## The loops over what is required -/

/-- The authority of an owner, or none, is accepted. -/
def OwnerAccepts (c : VerifyCall) (id : AccountId) : Prop :=
  ∃ auth, c.getOwner id = some auth ∧ c.Accepts auth

def OwnerAsks (c : VerifyCall) (id : AccountId) (k : PublicKey) : Prop :=
  ∃ auth, c.getOwner id = some auth ∧ c.Asks auth k

theorem checkOther_exact (hc : c.Uncut) (hauth : auth ∈ requiredOther c.ops) (hs : c.Consistent s) :
    c.Exact (c.Accepts auth) (c.Asks auth) s (c.checkOther auth s) := by
  have hcheck : c.Exact (∃ inner, some auth = some inner ∧ c.Accepts inner)
      (fun k ↦ ∃ inner, some auth = some inner ∧ c.Asks inner k) s
      (SignState.checkAuthority c.getActive c.maxRecursionDepth (some auth) s) :=
    checkAuthority_exact hc (fun _ h ↦ Option.some.inj h ▸ .other hauth) hs
  unfold VerifyCall.checkOther
  exact ⟨hcheck.consistent, by simpa using hcheck.verdict, by simpa using hcheck.used⟩

theorem checkActive_exact (hc : c.Uncut) {id : AccountId} (hid : id ∈ requiredActive c.ops)
    (hs : c.Consistent s) :
    c.Exact (c.Approved id ∨ c.OwnerAccepts id)
      (fun k ↦ c.AsksFor id k ∨ ¬c.Approved id ∧ c.OwnerAsks id k) s (c.checkActive id s) := by
  have hactive := checkAccount_exact hc (n := c.maxRecursionDepth)
    (fun auth h ↦ .active hid (.inl h)) hs
  unfold VerifyCall.checkActive
  rcases hcheck : SignState.checkAccount c.getActive c.maxRecursionDepth id s with ⟨accepted, t⟩
  rw [hcheck] at hactive
  cases accepted with
  | true =>
      have happroved := hactive.verdict.mp rfl
      refine ⟨hactive.consistent, ⟨fun _ ↦ .inl happroved, fun _ ↦ rfl⟩, fun k ↦ ?_⟩
      rw [hactive.used k]
      simp [happroved]
  | false =>
      have hnot : ¬c.Approved id := mt hactive.verdict.mpr (by simp)
      have howner := checkAuthority_exact hc (n := c.maxRecursionDepth)
        (fun auth h ↦ .active hid (.inr h)) hactive.consistent
      refine ⟨howner.consistent, howner.verdict.trans (or_iff_right hnot).symm, fun k ↦ ?_⟩
      rw [howner.used k, hactive.used k]
      simp only [hnot, not_false_eq_true, true_and, OwnerAsks]
      tauto

theorem checkOwner_exact (hc : c.Uncut) {id : AccountId} (hid : id ∈ requiredOwner c.ops)
    (hs : c.Consistent s) :
    c.Exact (id ∈ c.ownerApprovals ∨ c.OwnerAccepts id)
      (fun k ↦ id ∉ c.ownerApprovals ∧ c.OwnerAsks id k) s (c.checkOwner id s) := by
  unfold VerifyCall.checkOwner
  split_ifs with happroved
  · exact ⟨hs, by simp [happroved], by simp [happroved]⟩
  · have howner := checkAuthority_exact hc (n := c.maxRecursionDepth)
      (fun auth h ↦ .owner hid h) hs
    exact ⟨howner.consistent, howner.verdict.trans (or_iff_right happroved).symm, fun k ↦
      (howner.used k).trans (or_congr_right (and_congr_right fun _ ↦ (and_iff_right happroved).symm))⟩

theorem requireAll_exact {α : Type} {check : α → SignState → Bool × SignState}
    {error : α → VerifyError} {as : List α} {holds : α → Prop} {asks : α → PublicKey → Prop}
    (hcheck : ∀ a ∈ as, ∀ s, c.Consistent s → c.Exact (holds a) (asks a) s (check a s))
    (hs : c.Consistent s) (h : requireAll check error as s = .ok t) :
    c.Consistent t ∧ (∀ a ∈ as, holds a) ∧
      ∀ k, Used t k ↔ Used s k ∨ k ∈ c.sigs ∧ ∃ a ∈ as, asks a k := by
  induction as generalizing s with
  | nil =>
      obtain rfl : s = t := Except.ok.inj h
      exact ⟨hs, by simp, by simp⟩
  | cons a as ih =>
      have hone := hcheck a List.mem_cons_self s hs
      unfold requireAll at h
      rcases hresult : check a s with ⟨accepted, mid⟩
      rw [hresult] at hone h
      cases accepted with
      | false => cases h
      | true =>
          obtain ⟨ht, hall, hused⟩ :=
            ih (fun x hx ↦ hcheck x (List.mem_cons_of_mem a hx)) hone.consistent h
          refine ⟨ht, List.forall_mem_cons.mpr ⟨hone.verdict.mp rfl, hall⟩, fun k ↦ ?_⟩
          rw [hused k, hone.used k]
          simp only [List.mem_cons, exists_eq_or_imp]
          tauto

/-- The keys that the three loops ask for. -/
def AsksSome (c : VerifyCall) (k : PublicKey) : Prop :=
  (∃ auth ∈ requiredOther c.ops, c.Asks auth k) ∨
  (∃ id ∈ requiredActive c.ops, c.AsksFor id k ∨ ¬c.Approved id ∧ c.OwnerAsks id k) ∨
  ∃ id ∈ requiredOwner c.ops, id ∉ c.ownerApprovals ∧ c.OwnerAsks id k

theorem satisfied_iff : c.Satisfied c.Accepts ↔
    (∀ auth ∈ requiredOther c.ops, c.Accepts auth) ∧
    (∀ id ∈ requiredActive c.ops, c.Approved id ∨ c.OwnerAccepts id) ∧
    ∀ id ∈ requiredOwner c.ops, id ∈ c.ownerApprovals ∨ c.OwnerAccepts id := by
  have hactive : ∀ id, (id ∈ c.approvals ∨ ∃ auth, (c.getActive id = some auth ∨
      c.getOwner id = some auth) ∧ c.Accepts auth) ↔ c.Approved id ∨ c.OwnerAccepts id := by
    intro id
    rw [approved_iff, OwnerAccepts, or_assoc]
    simp only [or_and_right, exists_or]
  constructor
  · exact fun h ↦ ⟨h.other, fun id hid ↦ (hactive id).mp (h.active id hid), h.owner⟩
  · exact fun ⟨hother, hids, howner⟩ ↦
      ⟨hother, fun id hid ↦ (hactive id).mpr (hids id hid), howner⟩

theorem initial_consistent (c : VerifyCall) : c.Consistent c.initial where
  signed k := by simp [initial]
  marked k h := by simp [initial] at h
  approvals := subset_rfl
  approved _ ha := .inl ha

theorem not_used_initial : ¬Used c.initial k := by simp [Used, initial]

theorem checkRequired_exact (hc : c.Uncut) (h : c.checkRequired = .ok s) :
    c.Satisfied c.Accepts ∧ c.Consistent s ∧ ∀ k, Used s k ↔ k ∈ c.sigs ∧ c.AsksSome k := by
  unfold checkRequired at h
  cases hother : requireAll c.checkOther .txMissingOtherAuth (requiredOther c.ops) c.initial with
  | error e => simp [hother, bind, Except.bind] at h
  | ok t =>
  cases hactive : requireAll c.checkActive .txMissingActiveAuth (requiredActive c.ops) t with
  | error e => simp [hother, hactive, bind, Except.bind] at h
  | ok u =>
  simp only [hother, hactive, bind, Except.bind] at h
  obtain ⟨ht, hothers, husedT⟩ := requireAll_exact (fun a ha s ↦ checkOther_exact hc ha)
    c.initial_consistent hother
  obtain ⟨hu, hactives, husedU⟩ := requireAll_exact (fun a ha s ↦ checkActive_exact hc ha) ht hactive
  obtain ⟨hs, howners, hused⟩ := requireAll_exact (fun a ha s ↦ checkOwner_exact hc ha) hu h
  refine ⟨satisfied_iff.mpr ⟨hothers, hactives, howners⟩, hs, fun k ↦ ?_⟩
  rw [hused k, husedU k, husedT k, AsksSome, or_iff_right not_used_initial, ← and_or_left,
    ← and_or_left, or_assoc]

theorem checkRequired_of_satisfied (hc : c.Uncut) (h : c.Satisfied c.Accepts) :
    ∃ s, c.checkRequired = .ok s := by
  obtain ⟨hothers, hactives, howners⟩ := satisfied_iff.mp h
  obtain ⟨t, hother, ht⟩ : ∃ t, requireAll c.checkOther .txMissingOtherAuth (requiredOther c.ops)
      c.initial = .ok t ∧ c.Consistent t :=
    requireAll_complete (fun a ha s hs ↦ ⟨(checkOther_exact hc ha hs).consistent,
      (checkOther_exact hc ha hs).verdict.mpr (hothers a ha)⟩) c.initial_consistent
  obtain ⟨u, hactive, hu⟩ : ∃ u, requireAll c.checkActive .txMissingActiveAuth
      (requiredActive c.ops) t = .ok u ∧ c.Consistent u :=
    requireAll_complete (fun a ha s hs ↦ ⟨(checkActive_exact hc ha hs).consistent,
      (checkActive_exact hc ha hs).verdict.mpr (hactives a ha)⟩) ht
  obtain ⟨s, howner, -⟩ : ∃ s, requireAll c.checkOwner .txMissingOwnerAuth (requiredOwner c.ops) u =
      .ok s ∧ c.Consistent s :=
    requireAll_complete (fun a ha s hs ↦ ⟨(checkOwner_exact hc ha hs).consistent,
      (checkOwner_exact hc ha hs).verdict.mpr (howners a ha)⟩) hu
  exact ⟨s, by simp [checkRequired, hother, hactive, howner, bind, Except.bind]⟩

/-! ## `verify_authority` -/

theorem requireAll_isMissing {α : Type} {check : α → SignState → Bool × SignState}
    {error : α → VerifyError} {as : List α} {e : VerifyError} (herror : ∀ a, (error a).IsMissing)
    (h : requireAll check error as s = .error e) : e.IsMissing := by
  induction as generalizing s with
  | nil => cases h
  | cons a as ih =>
      unfold requireAll at h
      rcases hresult : check a s with ⟨_ | _, t⟩
      · rw [hresult] at h
        exact Except.error.inj h ▸ herror a
      · rw [hresult] at h
        exact ih h

theorem checkRequired_isMissing {e : VerifyError} (h : c.checkRequired = .error e) :
    e.IsMissing := by
  unfold checkRequired at h
  cases hother : requireAll c.checkOther .txMissingOtherAuth (requiredOther c.ops) c.initial with
  | error e' =>
      simp only [hother, bind, Except.bind] at h
      obtain rfl := Except.error.inj h
      exact requireAll_isMissing (fun _ ↦ by trivial) hother
  | ok t =>
  cases hactive : requireAll c.checkActive .txMissingActiveAuth (requiredActive c.ops) t with
  | error e' =>
      simp only [hother, hactive, bind, Except.bind] at h
      obtain rfl := Except.error.inj h
      exact requireAll_isMissing (fun _ ↦ by trivial) hactive
  | ok u =>
      simp only [hother, hactive, bind, Except.bind] at h
      exact requireAll_isMissing (fun _ ↦ by trivial) h

/-- The committee account is rejected whatever the signatures. -/
theorem committee_of_verify (h : c.verifyAuthority = .error .invalidCommitteeApproval) :
    ¬c.allowCommittee ∧ committeeAccount ∈ requiredActive c.ops := by
  by_contra hnot
  unfold verifyAuthority at h
  rw [if_neg hnot] at h
  cases hrequired : c.checkRequired with
  | error e =>
      simp only [hrequired, bind, Except.bind] at h
      obtain rfl := Except.error.inj h
      exact checkRequired_isMissing hrequired
  | ok s =>
      simp only [hrequired, bind, Except.bind] at h
      split_ifs at h
      cases h

theorem satisfied_of_ok (hc : c.Uncut) (h : c.verifyAuthority = .ok ()) : c.Satisfied c.Accepts := by
  unfold verifyAuthority at h
  split_ifs at h
  cases hrequired : c.checkRequired with
  | error e => simp [hrequired, bind, Except.bind] at h
  | ok s => exact (checkRequired_exact hc hrequired).1

/-- Where everything is accepted, no authority is reported as missing. -/
theorem verifyAuthority_of_satisfied (hc : c.Uncut) (h : c.Satisfied c.Accepts) :
    c.verifyAuthority = .ok () ∨ c.verifyAuthority = .error .txIrrelevantSig ∨
      c.verifyAuthority = .error .invalidCommitteeApproval := by
  obtain ⟨s, hs⟩ := checkRequired_of_satisfied hc h
  unfold verifyAuthority
  split_ifs
  · exact .inr (.inr rfl)
  · simp only [hs, bind, Except.bind]
    split_ifs
    · exact .inr (.inl rfl)
    · exact .inl rfl

/-- A signature is irrelevant only if no check asks for its key. -/
theorem unasked_of_irrelevant (hc : c.Uncut) (h : c.verifyAuthority = .error .txIrrelevantSig) :
    ∃ k ∈ c.sigs, ¬c.AsksSome k := by
  unfold verifyAuthority at h
  split_ifs at h
  · cases h
  · cases hrequired : c.checkRequired with
    | error e =>
        simp only [hrequired, bind, Except.bind] at h
        obtain rfl := Except.error.inj h
        exact (checkRequired_isMissing hrequired).elim
    | ok s =>
        obtain ⟨-, hs, hused⟩ := checkRequired_exact hc hrequired
        have hunused : s.removeUnusedSignatures.1 = true := by
          by_contra hnone
          simp [hrequired, bind, Except.bind, hnone] at h
        obtain ⟨⟨k, used⟩, hsig, hk⟩ := List.any_eq_true.mp hunused
        obtain rfl : used = false := by simpa using hk
        have hsigned := (hs.signed k).mp (.inl (List.mem_map_of_mem hsig))
        exact ⟨k, hsigned, fun hasked ↦ hs.marked k ((hused k).mpr ⟨hsigned, hasked⟩) hsig⟩

end VerifyCall

end KarmaCore.Authorities
