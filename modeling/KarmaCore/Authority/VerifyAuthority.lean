import Mathlib
import KarmaCore.Authority.SignState

/-!
# Authorities that have a derivation

An authority is derived when the weights of its signed keys and of accounts
that are approved, or whose active authority is derived in turn, reach its
threshold.  `verify_authority` accepts nothing else, and while no total of
weights wraps around it misses nothing within its depth.
-/

namespace KarmaCore.Authorities

/-- The weight of the entries that meet a condition. -/
def weightOf {α : Type} (p : α → Prop) [DecidablePred p] (entries : List (α × UInt16)) : ℕ :=
  (entries.map fun e ↦ if p e.1 then e.2.toNat else 0).sum

@[simp] theorem weightOf_nil {α : Type} (p : α → Prop) [DecidablePred p] : weightOf p [] = 0 := rfl

@[simp] theorem weightOf_cons {α : Type} (p : α → Prop) [DecidablePred p] (e : α × UInt16)
    (entries : List (α × UInt16)) :
    weightOf p (e :: entries) = (if p e.1 then e.2.toNat else 0) + weightOf p entries := by
  simp [weightOf]

/-- The signed keys and some accounts together reach the threshold. -/
def Authority.ReachedBy (sigs : List PublicKey) (accounts : Finset AccountId)
    (auth : Authority) : Prop :=
  auth.weightThreshold.toNat ≤
    weightOf (· ∈ sigs) auth.keyAuths + weightOf (· ∈ accounts) auth.accountAuths

namespace VerifyCall

/-- The account is approved, or its active authority is derived with at most so
many accounts nested in one another. -/
def Counts (c : VerifyCall) : ℕ → AccountId → Prop
  | 0, a => a ∈ c.approvals
  | n + 1, a => a ∈ c.approvals ∨ ∃ auth, c.getActive a = some auth ∧
      ∃ accounts : Finset AccountId, (∀ b ∈ accounts, c.Counts n b) ∧
        auth.ReachedBy c.sigs accounts

def Derives (c : VerifyCall) (n : ℕ) (auth : Authority) : Prop :=
  ∃ accounts : Finset AccountId, (∀ b ∈ accounts, c.Counts n b) ∧ auth.ReachedBy c.sigs accounts

/-- The authorities of which a call examines the entries. -/
inductive Examined (c : VerifyCall) : ℕ → Authority → Prop
  | other {auth : Authority} (h : auth ∈ requiredOther c.ops) : Examined c c.maxRecursionDepth auth
  | active {id : AccountId} {auth : Authority} (h : id ∈ requiredActive c.ops)
      (hauth : c.getActive id = some auth ∨ c.getOwner id = some auth) :
      Examined c c.maxRecursionDepth auth
  | owner {id : AccountId} {auth : Authority} (h : id ∈ requiredOwner c.ops)
      (hauth : c.getOwner id = some auth) : Examined c c.maxRecursionDepth auth
  | entry {n : ℕ} {outer auth : Authority} {e : AccountId × UInt16} (h : Examined c (n + 1) outer)
      (he : e ∈ outer.accountAuths) (hauth : c.getActive e.1 = some auth) : Examined c n auth

variable {c : VerifyCall} {n m : ℕ} {a : AccountId} {auth : Authority}

theorem Counts.succ (h : c.Counts n a) : c.Counts (n + 1) a := by
  induction n generalizing a with
  | zero => exact .inl h
  | succ n ih =>
      rcases h with h | ⟨auth, hauth, accounts, haccounts, hreached⟩
      · exact .inl h
      · exact .inr ⟨auth, hauth, accounts, fun b hb ↦ ih (haccounts b hb), hreached⟩

theorem Counts.mono (h : c.Counts n a) (hnm : n ≤ m) : c.Counts m a := by
  induction hnm with
  | refl => exact h
  | step _ ih => exact ih.succ

/-- Finitely many accounts that count do so within one depth. -/
theorem exists_counts {accounts : Finset AccountId} (h : ∀ b ∈ accounts, ∃ n, c.Counts n b) :
    ∃ n, ∀ b ∈ accounts, c.Counts n b := by
  induction accounts using Finset.induction_on with
  | empty => exact ⟨0, by simp⟩
  | insert b accounts _ ih =>
      obtain ⟨n, hn⟩ := ih fun x hx ↦ h x (Finset.mem_insert_of_mem hx)
      obtain ⟨m, hm⟩ := h b (Finset.mem_insert_self b accounts)
      refine ⟨max n m, fun x hx ↦ ?_⟩
      rcases Finset.mem_insert.mp hx with rfl | hx
      · exact hm.mono (le_max_right n m)
      · exact (hn x hx).mono (le_max_left n m)

/-- What holds of the state all through a call. -/
structure Justified (c : VerifyCall) (s : SignState) : Prop where
  approved : ∀ a ∈ s.approvedBy, ∃ n, c.Counts n a
  approvals : c.approvals ⊆ s.approvedBy
  keys : ∀ k, k ∈ s.providedSignatures.map Prod.fst ↔ k ∈ c.sigs
  used : ∀ k, (k, true) ∈ s.providedSignatures → k ∈ s.examined
  examined : ∀ k ∈ s.examined, ∃ n auth, c.Examined n auth ∧ k ∈ auth.keyAuths.map Prod.fst
  available : s.availableKeys = ∅

end VerifyCall

/-! ## The loops over entries -/

theorem toNat_add_le (total : UInt32) (weight : UInt16) :
    (total + weight.toUInt32).toNat ≤ total.toNat + weight.toNat := by
  rw [UInt32.toNat_add, UInt16.toNat_toUInt32]
  exact Nat.mod_le _ _

theorem toNat_add_eq {total : UInt32} {weight : UInt16}
    (h : total.toNat + weight.toNat < 2 ^ 32) :
    (total + weight.toUInt32).toNat = total.toNat + weight.toNat := by
  rw [UInt32.toNat_add, UInt16.toNat_toUInt32, Nat.mod_eq_of_lt h]

section CountEntries

open SignState

variable {α : Type} {counts : α → SignState → Bool × SignState} {threshold : UInt32}
  {entries : List (α × UInt16)} {total total' : UInt32} {s t : SignState} {reached : Bool}

/-- What counted reaches the total, for a condition that an entry which counts
meets and that stays true. -/
theorem countEntries_sound {Inv : SignState → Prop} {p : α → SignState → Prop}
    [∀ s, DecidablePred (p · s)]
    (hcounts : ∀ e ∈ entries, ∀ s, Inv s → Inv (counts e.1 s).2 ∧
      s.approvedBy ⊆ (counts e.1 s).2.approvedBy ∧
      ((counts e.1 s).1 = true → p e.1 (counts e.1 s).2))
    (hmono : ∀ a s t, s.approvedBy ⊆ t.approvedBy → p a s → p a t) (hs : Inv s)
    (h : countEntries counts threshold entries total s = (reached, total', t)) :
    Inv t ∧ s.approvedBy ⊆ t.approvedBy ∧
      total'.toNat ≤ total.toNat + weightOf (p · t) entries ∧
      (reached = true → threshold ≤ total') := by
  induction entries generalizing total s with
  | nil =>
      obtain ⟨rfl, rfl, rfl⟩ : false = reached ∧ total = total' ∧ s = t := by
        simpa [countEntries] using h
      exact ⟨hs, subset_rfl, by simp, by simp⟩
  | cons e entries ih =>
      obtain ⟨a, weight⟩ := e
      obtain ⟨hinv, hsub, hp⟩ := hcounts (a, weight) (by simp) s hs
      have htail := fun e he ↦ hcounts e (List.mem_cons_of_mem _ he)
      have hle := toNat_add_le total weight
      simp only [countEntries] at h
      cases hcount : counts a s with
      | mk signed mid =>
          simp only [hcount] at h hinv hsub hp
          cases signed with
          | false =>
              obtain ⟨ht, hsub', htotal, hreached⟩ := ih htail hinv h
              refine ⟨ht, hsub.trans hsub', ?_, hreached⟩
              simp only [weightOf_cons]
              omega
          | true =>
              simp only at h
              split_ifs at h with hthreshold
              · obtain ⟨rfl, rfl, rfl⟩ : true = reached ∧ total + weight.toUInt32 = total' ∧
                    mid = t := by simpa using h
                refine ⟨hinv, hsub, ?_, fun _ ↦ hthreshold⟩
                simp only [weightOf_cons, hp rfl, if_true]
                omega
              · obtain ⟨ht, hsub', htotal, hreached⟩ := ih htail hinv h
                have hpt : p a t := hmono a mid t hsub' (hp rfl)
                refine ⟨ht, hsub.trans hsub', ?_, hreached⟩
                simp only [weightOf_cons, hpt, if_true]
                omega

/-- While the entries that must count are counted, and maybe others that can, the
total stays in range until it reaches the threshold; `after` holds of a total
below the threshold at the end. -/
def Fits (must can : α → Prop) (threshold : ℕ) :
    List (α × UInt16) → (ℕ → Prop) → ℕ → Prop
  | [], after, total => after total
  | (a, weight) :: entries, after, total =>
    (¬must a → Fits must can threshold entries after total) ∧
      (can a → total + weight.toNat < 2 ^ 32 ∧
        (total + weight.toNat < threshold →
          Fits must can threshold entries after (total + weight.toNat)))

/-- A loop that does not return has counted every entry that must count. -/
theorem countEntries_complete {Inv : SignState → Prop} {p q : α → Prop} [DecidablePred p] {after : ℕ → Prop}
    (hcounts : ∀ e ∈ entries, ∀ s, Inv s → Inv (counts e.1 s).2 ∧
      (p e.1 → (counts e.1 s).1 = true) ∧ ((counts e.1 s).1 = true → q e.1))
    (hs : Inv s) (hfits : Fits p q threshold.toNat entries after total.toNat)
    (h : countEntries counts threshold entries total s = (false, total', t)) :
    Inv t ∧ total.toNat + weightOf p entries ≤ total'.toNat ∧ after total'.toNat := by
  induction entries generalizing total s with
  | nil =>
      obtain ⟨rfl, rfl⟩ : total = total' ∧ s = t := by simpa [countEntries] using h
      exact ⟨hs, by simp, hfits⟩
  | cons e entries ih =>
      obtain ⟨a, weight⟩ := e
      obtain ⟨hskip, htake⟩ := hfits
      obtain ⟨hinv, hmust, hcan⟩ := hcounts (a, weight) (by simp) s hs
      have htail := fun e he ↦ hcounts e (List.mem_cons_of_mem _ he)
      simp only [countEntries] at h
      cases hcount : counts a s with
      | mk signed mid =>
          simp only [hcount] at h hinv hmust hcan
          cases signed with
          | false =>
              have hnot : ¬p a := fun ha ↦ by simpa using hmust ha
              obtain ⟨ht, htotal, hafter⟩ := ih htail hinv (hskip hnot) h
              exact ⟨ht, by simpa [hnot] using htotal, hafter⟩
          | true =>
              obtain ⟨hsmall, hnext⟩ := htake (hcan rfl)
              have hadd := toNat_add_eq hsmall
              simp only at h
              split_ifs at h with hthreshold
              · simp at h
              · have hbelow : total.toNat + weight.toNat < threshold.toNat := by
                  rw [UInt32.le_iff_toNat_le, hadd] at hthreshold
                  exact not_le.mp hthreshold
                have hfits' := hnext hbelow
                rw [← hadd] at hfits'
                obtain ⟨ht, htotal, hafter⟩ := ih htail hinv hfits' h
                refine ⟨ht, ?_, hafter⟩
                simp only [weightOf_cons]
                split_ifs <;> omega

end CountEntries

/-! ## `check_authority` -/

section CheckAuthority

open SignState VerifyCall

variable {c : VerifyCall} {s : SignState} {n : ℕ} {k : PublicKey} {a : AccountId}

theorem mem_markUsed {signatures : List (PublicKey × Bool)} {x : PublicKey} :
    (x, true) ∈ markUsed k signatures → (x, true) ∈ signatures ∨ x = k := by
  intro h
  obtain ⟨⟨y, used⟩, hy, heq⟩ := List.mem_map.mp h
  split_ifs at heq with hyk
  · exact .inr (by simpa using heq.symm)
  · rw [← heq]
    exact .inl hy

theorem markUsed_keys {signatures : List (PublicKey × Bool)} :
    (markUsed k signatures).map Prod.fst = signatures.map Prod.fst := by
  rw [markUsed, List.map_map]
  apply List.map_congr_left
  rintro ⟨y, used⟩ -
  by_cases hyk : y = k <;> simp [hyk]

theorem examined_mono {s : SignState} (hs : c.Justified s)
    (hk : ∃ n auth, c.Examined n auth ∧ k ∈ auth.keyAuths.map Prod.fst) :
    c.Justified (s.examine k) where
  approved := hs.approved
  approvals := hs.approvals
  keys := hs.keys
  used x hx := Finset.mem_insert_of_mem (hs.used x hx)
  examined x hx := by
    rcases Finset.mem_insert.mp hx with rfl | hx
    · exact hk
    · exact hs.examined x hx
  available := hs.available

theorem signedBy_spec (hs : c.Justified s)
    (hk : ∃ n auth, c.Examined n auth ∧ k ∈ auth.keyAuths.map Prod.fst) :
    c.Justified (signedBy k s).2 ∧ (signedBy k s).2.approvedBy = s.approvedBy ∧
      ((signedBy k s).1 = true ↔ k ∈ c.sigs) := by
  have hex := examined_mono hs hk
  by_cases hmem : k ∈ s.providedSignatures.map Prod.fst
  · rw [signedBy, if_pos hmem]
    refine ⟨⟨hex.approved, hex.approvals, ?_, ?_, hex.examined, hex.available⟩, rfl, ?_⟩
    · intro x
      rw [markUsed_keys]
      exact hs.keys x
    · intro x hx
      rcases mem_markUsed hx with hx | rfl
      · exact hex.used x hx
      · exact Finset.mem_insert_self _ _
    · simpa using (hs.keys k).mp hmem
  · rw [signedBy, if_neg hmem, if_neg (by simp [hs.available])]
    exact ⟨hex, rfl, by simpa [← hs.keys k] using hmem⟩

/-- What a call of `check_authority` on an account, and so a whole check, keeps. -/
structure Keeps (c : VerifyCall) (s t : SignState) : Prop where
  justified : c.Justified t
  approved : s.approvedBy ⊆ t.approvedBy

theorem Keeps.trans {s t u : SignState} (hst : Keeps c s t) (htu : Keeps c t u) : Keeps c s u :=
  ⟨htu.justified, hst.approved.trans htu.approved⟩

/-- The check of the authority of an account, one level down. -/
def Sound (c : VerifyCall) (n : ℕ) (f : AccountId → SignState → Bool × SignState) : Prop :=
  ∀ a s, c.Justified s → (∀ auth, c.getActive a = some auth → c.Examined n auth) →
    Keeps c s (f a s).2 ∧
      ((f a s).1 = true → ∃ auth, c.getActive a = some auth ∧ ∃ m, c.Derives m auth)

theorem approves_spec {check : Option (AccountId → SignState → Bool × SignState)}
    (hcheck : ∀ f, check = some f → Sound c n f) (hs : c.Justified s)
    (hex : ∀ f, check = some f → ∀ auth, c.getActive a = some auth → c.Examined n auth) :
    Keeps c s (approves check a s).2 ∧
      ((approves check a s).1 = true → a ∈ (approves check a s).2.approvedBy) := by
  unfold approves
  split_ifs with ha
  · exact ⟨⟨hs, subset_rfl⟩, fun _ ↦ ha⟩
  · cases check with
    | none => exact ⟨⟨hs, subset_rfl⟩, by simp⟩
    | some f =>
        obtain ⟨hkeeps, hderived⟩ := hcheck f rfl a s hs (hex f rfl)
        cases hf : f a s with
        | mk accepted t =>
            simp only [hf] at hkeeps hderived ⊢
            cases accepted with
            | false => exact ⟨hkeeps, by simp⟩
            | true =>
                obtain ⟨auth, hauth, m, hm⟩ := hderived rfl
                have ht := hkeeps.justified
                have hsub := Finset.subset_insert a t.approvedBy
                refine ⟨⟨⟨?_, ht.approvals.trans hsub, ht.keys, ht.used, ht.examined,
                  ht.available⟩, hkeeps.approved.trans hsub⟩, by simp⟩
                intro b hb
                rcases Finset.mem_insert.mp hb with rfl | hb
                · exact ⟨m + 1, .inr ⟨auth, hauth, hm⟩⟩
                · exact ht.approved b hb

theorem derives_of_reached {auth : Authority} {total : UInt32} (hs : c.Justified s)
    (htotal : total.toNat ≤ weightOf (· ∈ c.sigs) auth.keyAuths +
      weightOf (· ∈ s.approvedBy) auth.accountAuths)
    (hreached : auth.weightThreshold ≤ total) : ∃ m, c.Derives m auth := by
  obtain ⟨m, hm⟩ := exists_counts hs.approved
  exact ⟨m, s.approvedBy, hm, (UInt32.le_iff_toNat_le.mp hreached).trans htotal⟩

/-- An authority that `check_authority` accepts is derived. -/
theorem checkWith_sound {check : Option (AccountId → SignState → Bool × SignState)}
    {au : Option Authority} (hcheck : ∀ f, check = some f → Sound c n f)
    (hs : c.Justified s) (hex : ∀ auth, au = some auth → ∃ m, c.Examined m auth)
    (hnext : ∀ f, check = some f → ∀ outer, au = some outer → ∀ e ∈ outer.accountAuths,
      ∀ auth, c.getActive e.1 = some auth → c.Examined n auth) :
    Keeps c s (checkWith check au s).2 ∧
      ((checkWith check au s).1 = true → ∃ auth, au = some auth ∧ ∃ m, c.Derives m auth) := by
  cases au with
  | none => exact ⟨⟨hs, subset_rfl⟩, by simp [checkWith]⟩
  | some auth =>
      obtain ⟨m, hm⟩ := hex auth rfl
      have hkeys : ∀ e ∈ auth.keyAuths, ∀ s, c.Justified s → c.Justified (signedBy e.1 s).2 ∧
          s.approvedBy ⊆ (signedBy e.1 s).2.approvedBy ∧
          ((signedBy e.1 s).1 = true → e.1 ∈ c.sigs) := by
        intro e he s hs
        obtain ⟨hj, happ, hiff⟩ := signedBy_spec hs ⟨m, auth, hm, List.mem_map_of_mem he⟩
        exact ⟨hj, happ.ge, hiff.mp⟩
      have haccounts : ∀ e ∈ auth.accountAuths, ∀ s, c.Justified s →
          c.Justified (approves check e.1 s).2 ∧
          s.approvedBy ⊆ (approves check e.1 s).2.approvedBy ∧
          ((approves check e.1 s).1 = true → e.1 ∈ (approves check e.1 s).2.approvedBy) := by
        intro e he s hs
        obtain ⟨hkeeps, hmem⟩ := approves_spec hcheck hs
          fun f hf ↦ hnext f hf auth rfl e he
        exact ⟨hkeeps.justified, hkeeps.approved, hmem⟩
      cases hfirst : countEntries signedBy auth.weightThreshold auth.keyAuths 0 s with
      | mk done rest =>
      obtain ⟨total, t⟩ := rest
      obtain ⟨ht, hst, htotal, hdone⟩ := countEntries_sound
        (p := fun k _ ↦ k ∈ c.sigs) hkeys (fun _ _ _ _ h ↦ h) hs hfirst
      have htotal : total.toNat ≤ weightOf (· ∈ c.sigs) auth.keyAuths := by simpa using htotal
      cases done with
      | true =>
          simp only [checkWith, hfirst]
          exact ⟨⟨ht, hst⟩, fun _ ↦ ⟨auth, rfl,
            derives_of_reached ht (htotal.trans (Nat.le_add_right _ _)) (hdone rfl)⟩⟩
      | false =>
          cases hsecond : countEntries (approves check) auth.weightThreshold auth.accountAuths
              total t with
          | mk done' rest' =>
          obtain ⟨total', u⟩ := rest'
          obtain ⟨hu, htu, htotal', hdone'⟩ := countEntries_sound
            (p := fun a s ↦ a ∈ s.approvedBy) haccounts (fun _ _ _ hsub h ↦ hsub h) ht hsecond
          have hsum := htotal'.trans (Nat.add_le_add_right htotal _)
          cases done' with
          | true =>
              simp only [checkWith, hfirst, hsecond]
              exact ⟨⟨hu, hst.trans htu⟩, fun _ ↦ ⟨auth, rfl,
                derives_of_reached hu hsum (hdone' rfl)⟩⟩
          | false =>
              simp only [checkWith, hfirst, hsecond]
              exact ⟨⟨hu, hst.trans htu⟩, fun hreached ↦ ⟨auth, rfl,
                derives_of_reached hu hsum (by simpa using hreached)⟩⟩

theorem checkAuthority_sound {a : Option Authority} (hs : c.Justified s)
    (hex : ∀ auth, a = some auth → c.Examined n auth) :
    Keeps c s (checkAuthority c.getActive n a s).2 ∧
      ((checkAuthority c.getActive n a s).1 = true →
        ∃ auth, a = some auth ∧ ∃ m, c.Derives m auth) := by
  induction n generalizing a s with
  | zero => exact checkWith_sound (n := 0) (by simp) hs (fun auth h ↦ ⟨0, hex auth h⟩) (by simp)
  | succ n ih =>
      apply checkWith_sound (n := n)
      · rintro f hf a s hs hex
        obtain rfl := Option.some.inj hf
        exact ih hs hex
      · exact hs
      · exact fun auth h ↦ ⟨n + 1, hex auth h⟩
      · exact fun f _ outer houter e he auth hauth ↦ (hex outer houter).entry he hauth

theorem weightOf_le {α : Type} {p q : α → Prop} [DecidablePred p] [DecidablePred q]
    {entries : List (α × UInt16)} (h : ∀ e ∈ entries, p e.1 → q e.1) :
    weightOf p entries ≤ weightOf q entries := by
  induction entries with
  | nil => simp
  | cons e entries ih =>
      have htail := ih fun x hx ↦ h x (List.mem_cons_of_mem e hx)
      have he := h e (by simp)
      simp only [weightOf_cons]
      split_ifs <;> first | omega | tauto

/-- No total passes the greatest weight on the way to the threshold, while the
signed keys are counted, the accounts that count within the depth that remains,
and maybe accounts that count at a greater depth. -/
def VerifyCall.FitsAt (c : VerifyCall) (n : ℕ) (auth : Authority) : Prop :=
  Fits (· ∈ c.sigs) (· ∈ c.sigs) auth.weightThreshold.toNat auth.keyAuths
    (Fits (c.Counts n) (fun a ↦ ∃ m, c.Counts m a) auth.weightThreshold.toNat auth.accountAuths
      fun _ ↦ True) 0

/-- An authority that is derived within the depth that remains is accepted. -/
theorem checkWith_complete {check : Option (AccountId → SignState → Bool × SignState)}
    {auth : Authority} {m : ℕ} (hcheck : ∀ f, check = some f → Sound c m f)
    (hs : c.Justified s) (hex : c.Examined n auth)
    (hnext : ∀ f, check = some f → ∀ e ∈ auth.accountAuths, ∀ inner,
      c.getActive e.1 = some inner → c.Examined m inner)
    (hmust : ∀ e ∈ auth.accountAuths, ∀ s, c.Justified s → c.Counts n e.1 →
      (approves check e.1 s).1 = true)
    (hfits : c.FitsAt n auth) (hderived : c.Derives n auth) :
    (checkWith check (some auth) s).1 = true := by
  classical
  obtain ⟨accounts, haccounts, hreached⟩ := hderived
  cases hfirst : countEntries signedBy auth.weightThreshold auth.keyAuths 0 s with
  | mk done rest =>
  obtain ⟨total, t⟩ := rest
  cases done with
  | true => simp [checkWith, hfirst]
  | false =>
      have hkeys : ∀ e ∈ auth.keyAuths, ∀ s, c.Justified s → c.Justified (signedBy e.1 s).2 ∧
          (e.1 ∈ c.sigs → (signedBy e.1 s).1 = true) ∧
          ((signedBy e.1 s).1 = true → e.1 ∈ c.sigs) := by
        intro e he s hs
        obtain ⟨hj, -, hiff⟩ := signedBy_spec hs ⟨n, auth, hex, List.mem_map_of_mem he⟩
        exact ⟨hj, hiff.mpr, hiff.mp⟩
      have hstart : Fits (· ∈ c.sigs) (· ∈ c.sigs) auth.weightThreshold.toNat auth.keyAuths _
          (0 : UInt32).toNat := hfits
      obtain ⟨ht, hsigned, hafter⟩ := countEntries_complete hkeys hs hstart hfirst
      have htotal : weightOf (· ∈ c.sigs) auth.keyAuths ≤ total.toNat :=
        (Nat.le_add_left _ _).trans hsigned
      cases hsecond : countEntries (approves check) auth.weightThreshold auth.accountAuths
          total t with
      | mk done' rest' =>
      obtain ⟨total', u⟩ := rest'
      cases done' with
      | true => simp [checkWith, hfirst, hsecond]
      | false =>
          have hentries : ∀ e ∈ auth.accountAuths, ∀ s, c.Justified s →
              c.Justified (approves check e.1 s).2 ∧
              (c.Counts n e.1 → (approves check e.1 s).1 = true) ∧
              ((approves check e.1 s).1 = true → ∃ m, c.Counts m e.1) := by
            intro e he s hs
            obtain ⟨hkeeps, hmem⟩ := approves_spec hcheck hs fun f hf ↦ hnext f hf e he
            exact ⟨hkeeps.justified, hmust e he s hs,
              fun h ↦ hkeeps.justified.approved e.1 (hmem h)⟩
          obtain ⟨-, htotal', -⟩ := countEntries_complete
            (p := c.Counts n) (q := fun a ↦ ∃ m, c.Counts m a) hentries ht hafter hsecond
          have hle : weightOf (· ∈ accounts) auth.accountAuths ≤
              weightOf (c.Counts n) auth.accountAuths := weightOf_le fun e _ he ↦ haccounts e.1 he
          have hbound : auth.weightThreshold ≤ total' := by
            rw [UInt32.le_iff_toNat_le]
            unfold Authority.ReachedBy at hreached
            omega
          simp [checkWith, hfirst, hsecond, hbound]

theorem checkAuthority_complete {auth : Authority} (hs : c.Justified s) (hex : c.Examined n auth)
    (hfits : ∀ n auth, c.Examined n auth → c.FitsAt n auth) (hderived : c.Derives n auth) :
    (checkAuthority c.getActive n (some auth) s).1 = true := by
  induction n generalizing auth s with
  | zero =>
      apply checkWith_complete (m := 0) (by simp) hs hex (by simp) _ (hfits 0 auth hex) hderived
      intro e _ s hs hcounts
      simp [approves, hs.approvals hcounts]
  | succ n ih =>
      refine checkWith_complete (m := n) ?_ hs hex (fun f _ e he inner ↦ hex.entry he) ?_
        (hfits _ auth hex) hderived
      · rintro f hf a s hs hex
        obtain rfl := Option.some.inj hf
        exact checkAuthority_sound hs hex
      · intro e he s hs hcounts
        rcases hcounts with happroved | ⟨inner, hinner, hderived⟩
        · simp [approves, hs.approvals happroved]
        · unfold approves
          split_ifs with hmem
          · rfl
          · have haccepted := ih hs (hex.entry he hinner) hderived
            rw [← hinner] at haccepted
            cases hf : checkAuthority c.getActive n (c.getActive e.1) s with
            | mk accepted t =>
                obtain rfl : accepted = true := by simpa [hf] using haccepted
                simp [hf]

end CheckAuthority

/-! ## `verify_authority` -/

section RequireAll

variable {α : Type} {check : α → SignState → Bool × SignState} {error : α → VerifyError}
  {as : List α} {s t : SignState}

theorem requireAll_ok {Inv : SignState → Prop} {p : α → Prop}
    (hcheck : ∀ a ∈ as, ∀ s, Inv s → Inv (check a s).2 ∧ ((check a s).1 = true → p a))
    (hs : Inv s) (h : requireAll check error as s = .ok t) : Inv t ∧ ∀ a ∈ as, p a := by
  induction as generalizing s with
  | nil =>
      obtain rfl : s = t := by simpa [requireAll] using h
      exact ⟨hs, by simp⟩
  | cons a as ih =>
      obtain ⟨hinv, hp⟩ := hcheck a (by simp) s hs
      cases hresult : check a s with
      | mk accepted mid =>
          simp only [requireAll, hresult] at h hinv hp
          cases accepted with
          | false => simp at h
          | true =>
              obtain ⟨ht, hall⟩ := ih (fun x hx ↦ hcheck x (List.mem_cons_of_mem a hx)) hinv h
              exact ⟨ht, List.forall_mem_cons.mpr ⟨hp rfl, hall⟩⟩

theorem requireAll_complete {Inv : SignState → Prop}
    (hcheck : ∀ a ∈ as, ∀ s, Inv s → Inv (check a s).2 ∧ (check a s).1 = true) (hs : Inv s) :
    ∃ t, requireAll check error as s = .ok t ∧ Inv t := by
  induction as generalizing s with
  | nil => exact ⟨s, rfl, hs⟩
  | cons a as ih =>
      obtain ⟨hinv, haccepted⟩ := hcheck a (by simp) s hs
      cases hresult : check a s with
      | mk accepted mid =>
          simp only [hresult] at hinv haccepted
          subst haccepted
          simp only [requireAll, hresult]
          exact ih (fun x hx ↦ hcheck x (List.mem_cons_of_mem a hx)) hinv

end RequireAll

namespace VerifyCall

variable {c : VerifyCall} {s : SignState}

/-- Every authority that the operations require is derived, in a sense of derived. -/
structure Satisfied (c : VerifyCall) (derived : Authority → Prop) : Prop where
  other : ∀ auth ∈ requiredOther c.ops, derived auth
  active : ∀ id ∈ requiredActive c.ops, id ∈ c.approvals ∨
    ∃ auth, (c.getActive id = some auth ∨ c.getOwner id = some auth) ∧ derived auth
  owner : ∀ id ∈ requiredOwner c.ops, id ∈ c.ownerApprovals ∨
    ∃ auth, c.getOwner id = some auth ∧ derived auth

/-- Every provided signature is for a key entry that was examined. -/
def SignaturesExamined (c : VerifyCall) : Prop :=
  ∃ s, c.checkRequired = .ok s ∧ ∀ k ∈ c.sigs, k ∈ s.examined ∧
    ∃ n auth, c.Examined n auth ∧ k ∈ auth.keyAuths.map Prod.fst

/-- What is accepted is derived, and what is derived within the depth is not
rejected, unused signatures and the committee account apart. -/
structure SoundAndComplete (c : VerifyCall) : Prop where
  sound : c.verifyAuthority = .ok () →
    c.Satisfied (fun auth ↦ ∃ n, c.Derives n auth) ∧ c.SignaturesExamined
  complete : c.Satisfied (c.Derives c.maxRecursionDepth) →
    c.verifyAuthority = .ok () ∨ c.verifyAuthority = .error .txIrrelevantSig ∨
      c.verifyAuthority = .error .invalidCommitteeApproval

/-- No total of weights wraps around in an authority that may be examined. -/
def NeverWraps (c : VerifyCall) : Prop := ∀ n auth, c.Examined n auth → c.FitsAt n auth

theorem initial_justified (c : VerifyCall) : c.Justified c.initial where
  approved a ha := ⟨0, ha⟩
  approvals := subset_rfl
  keys k := by simp [initial]
  used k hk := by simp [initial] at hk
  examined k hk := by simp [initial] at hk
  available := rfl

theorem checkOther_sound {auth : Authority} (hauth : auth ∈ requiredOther c.ops)
    (hs : c.Justified s) : c.Justified (c.checkOther auth s).2 ∧
      ((c.checkOther auth s).1 = true → ∃ n, c.Derives n auth) := by
  obtain ⟨hkeeps, hderived⟩ := checkAuthority_sound (n := c.maxRecursionDepth) (a := some auth) hs
    fun x hx ↦ by
      obtain rfl := Option.some.inj hx
      exact .other hauth
  refine ⟨hkeeps.justified, fun h ↦ ?_⟩
  obtain ⟨x, hx, hm⟩ := hderived h
  obtain rfl := Option.some.inj hx
  exact hm

theorem checkAccount_sound {id : AccountId} (hid : id ∈ requiredActive c.ops)
    (hs : c.Justified s) :
    c.Justified (SignState.checkAccount c.getActive c.maxRecursionDepth id s).2 ∧
      ((SignState.checkAccount c.getActive c.maxRecursionDepth id s).1 = true →
        id ∈ c.approvals ∨ ∃ auth, c.getActive id = some auth ∧ ∃ n, c.Derives n auth) := by
  unfold SignState.checkAccount
  split_ifs with hmem
  · refine ⟨hs, fun _ ↦ ?_⟩
    obtain ⟨n, hn⟩ := hs.approved id hmem
    cases n with
    | zero => exact .inl hn
    | succ n =>
        rcases hn with hn | ⟨auth, hauth, hderived⟩
        · exact .inl hn
        · exact .inr ⟨auth, hauth, n, hderived⟩
  · obtain ⟨hkeeps, hderived⟩ := checkAuthority_sound (n := c.maxRecursionDepth)
      (a := c.getActive id) hs fun auth hauth ↦ .active hid (.inl hauth)
    exact ⟨hkeeps.justified, fun h ↦ .inr (hderived h)⟩

theorem checkActive_sound {id : AccountId} (hid : id ∈ requiredActive c.ops)
    (hs : c.Justified s) : c.Justified (c.checkActive id s).2 ∧
      ((c.checkActive id s).1 = true → id ∈ c.approvals ∨ ∃ auth,
        (c.getActive id = some auth ∨ c.getOwner id = some auth) ∧ ∃ n, c.Derives n auth) := by
  obtain ⟨hj, haccount⟩ := checkAccount_sound hid hs
  unfold checkActive
  cases hresult : SignState.checkAccount c.getActive c.maxRecursionDepth id s with
  | mk accepted t =>
      simp only [hresult] at hj haccount ⊢
      cases accepted with
      | true =>
          refine ⟨hj, fun _ ↦ (haccount rfl).imp_right ?_⟩
          rintro ⟨auth, hauth, hderived⟩
          exact ⟨auth, .inl hauth, hderived⟩
      | false =>
          obtain ⟨hkeeps, hderived⟩ := checkAuthority_sound (n := c.maxRecursionDepth)
            (a := c.getOwner id) hj fun auth hauth ↦ .active hid (.inr hauth)
          refine ⟨hkeeps.justified, fun h ↦ .inr ?_⟩
          obtain ⟨auth, hauth, hm⟩ := hderived h
          exact ⟨auth, .inr hauth, hm⟩

theorem checkOwner_sound {id : AccountId} (hid : id ∈ requiredOwner c.ops)
    (hs : c.Justified s) : c.Justified (c.checkOwner id s).2 ∧
      ((c.checkOwner id s).1 = true → id ∈ c.ownerApprovals ∨
        ∃ auth, c.getOwner id = some auth ∧ ∃ n, c.Derives n auth) := by
  unfold checkOwner
  split_ifs with hmem
  · exact ⟨hs, fun _ ↦ .inl hmem⟩
  · obtain ⟨hkeeps, hderived⟩ := checkAuthority_sound (n := c.maxRecursionDepth)
      (a := c.getOwner id) hs fun auth hauth ↦ .owner hid hauth
    exact ⟨hkeeps.justified, fun h ↦ .inr (hderived h)⟩

theorem checkRequired_sound (h : c.checkRequired = .ok s) :
    c.Justified s ∧ c.Satisfied fun auth ↦ ∃ n, c.Derives n auth := by
  unfold checkRequired at h
  cases hother : requireAll c.checkOther .txMissingOtherAuth (requiredOther c.ops) c.initial with
  | error e => simp [hother, bind, Except.bind] at h
  | ok t =>
  cases hactive : requireAll c.checkActive .txMissingActiveAuth (requiredActive c.ops) t with
  | error e => simp [hother, hactive, bind, Except.bind] at h
  | ok u =>
      simp only [hother, hactive, bind, Except.bind] at h
      obtain ⟨ht, hother⟩ := requireAll_ok (fun a ha s ↦ checkOther_sound ha)
        c.initial_justified hother
      obtain ⟨hu, hactive⟩ := requireAll_ok (fun a ha s ↦ checkActive_sound ha) ht hactive
      obtain ⟨hs, howner⟩ := requireAll_ok (fun a ha s ↦ checkOwner_sound ha) hu h
      exact ⟨hs, hother, hactive, howner⟩

/-- Whatever is accepted is derived. -/
theorem verifyAuthority_sound (h : c.verifyAuthority = .ok ()) :
    c.Satisfied (fun auth ↦ ∃ n, c.Derives n auth) ∧ c.SignaturesExamined := by
  unfold verifyAuthority at h
  split_ifs at h with hcommittee
  cases hrequired : c.checkRequired with
  | error e => simp [hrequired, bind, Except.bind] at h
  | ok s =>
      obtain ⟨hs, hsatisfied⟩ := checkRequired_sound hrequired
      refine ⟨hsatisfied, s, hrequired, fun k hk ↦ ?_⟩
      have hused : ∀ sig ∈ s.providedSignatures, sig.2 = true := by
        by_contra hunused
        push Not at hunused
        obtain ⟨sig, hsig, hfalse⟩ := hunused
        have hany : s.removeUnusedSignatures.1 = true :=
          List.any_eq_true.mpr ⟨sig, hsig, by simpa using hfalse⟩
        simp [hrequired, bind, Except.bind, hany] at h
      obtain ⟨⟨x, used⟩, hx, rfl⟩ := List.mem_map.mp ((hs.keys k).mpr hk)
      obtain rfl : used = true := hused _ hx
      exact ⟨hs.used x hx, hs.examined x (hs.used x hx)⟩

theorem checkOther_complete (hfits : c.NeverWraps) {auth : Authority}
    (hauth : auth ∈ requiredOther c.ops) (hderived : c.Derives c.maxRecursionDepth auth)
    (hs : c.Justified s) : (c.checkOther auth s).1 = true :=
  checkAuthority_complete hs (.other hauth) hfits hderived

theorem checkActive_complete (hfits : c.NeverWraps) {id : AccountId}
    (hid : id ∈ requiredActive c.ops)
    (h : id ∈ c.approvals ∨ ∃ auth, (c.getActive id = some auth ∨ c.getOwner id = some auth) ∧
      c.Derives c.maxRecursionDepth auth)
    (hs : c.Justified s) : (c.checkActive id s).1 = true := by
  have hj := (checkAccount_sound hid hs).1
  unfold checkActive
  cases hresult : SignState.checkAccount c.getActive c.maxRecursionDepth id s with
  | mk accepted t =>
      cases accepted with
      | true => rfl
      | false =>
          simp only [hresult] at hj ⊢
          rcases h with happroved | ⟨auth, hactive | howner, hderived⟩
          · simp [SignState.checkAccount, hs.approvals happroved] at hresult
          · have hmem : id ∉ s.approvedBy := by
              intro hmem
              simp [SignState.checkAccount, hmem] at hresult
            have haccepted := checkAuthority_complete hs (.active hid (.inl hactive)) hfits hderived
            rw [SignState.checkAccount, if_neg hmem, hactive] at hresult
            simp [hresult] at haccepted
          · rw [howner]
            exact checkAuthority_complete hj (.active hid (.inr howner)) hfits hderived

theorem checkOwner_complete (hfits : c.NeverWraps) {id : AccountId}
    (hid : id ∈ requiredOwner c.ops)
    (h : id ∈ c.ownerApprovals ∨
      ∃ auth, c.getOwner id = some auth ∧ c.Derives c.maxRecursionDepth auth)
    (hs : c.Justified s) : (c.checkOwner id s).1 = true := by
  unfold checkOwner
  split_ifs with hmem
  · rfl
  · obtain ⟨auth, hauth, hderived⟩ := h.resolve_left hmem
    rw [hauth]
    exact checkAuthority_complete hs (.owner hid hauth) hfits hderived

theorem checkRequired_complete (hfits : c.NeverWraps)
    (h : c.Satisfied (c.Derives c.maxRecursionDepth)) : ∃ s, c.checkRequired = .ok s := by
  have hfirst : ∃ t, requireAll c.checkOther .txMissingOtherAuth (requiredOther c.ops) c.initial =
      .ok t ∧ c.Justified t :=
    requireAll_complete (fun a ha s hs ↦ ⟨(checkOther_sound ha hs).1,
      checkOther_complete hfits ha (h.other a ha) hs⟩) c.initial_justified
  obtain ⟨t, hother, ht⟩ := hfirst
  have hsecond : ∃ u, requireAll c.checkActive .txMissingActiveAuth (requiredActive c.ops) t =
      .ok u ∧ c.Justified u :=
    requireAll_complete (fun a ha s hs ↦ ⟨(checkActive_sound ha hs).1,
      checkActive_complete hfits ha (h.active a ha) hs⟩) ht
  obtain ⟨u, hactive, hu⟩ := hsecond
  have hthird : ∃ s, requireAll c.checkOwner .txMissingOwnerAuth (requiredOwner c.ops) u =
      .ok s ∧ c.Justified s :=
    requireAll_complete (fun a ha s hs ↦ ⟨(checkOwner_sound ha hs).1,
      checkOwner_complete hfits ha (h.owner a ha) hs⟩) hu
  obtain ⟨s, howner, -⟩ := hthird
  exact ⟨s, by simp [checkRequired, hother, hactive, howner, bind, Except.bind]⟩

/-- Two accounts whose active authorities name each other. -/
def cyclicCall : VerifyCall where
  ops := [{ feePayer := 7 }]
  sigs := [1, 2]
  getActive a := if a = 7 then some ⟨2, [(8, 1)], [(1, 1)]⟩ else some ⟨1, [(7, 1)], [(2, 1)]⟩
  getOwner _ := none
  maxRecursionDepth := 2

theorem cyclicCall_neverWraps : cyclicCall.NeverWraps := by
  have hactive : ∀ a auth, cyclicCall.getActive a = some auth →
      auth = ⟨2, [(8, 1)], [(1, 1)]⟩ ∨ auth = ⟨1, [(7, 1)], [(2, 1)]⟩ := by
    intro a auth h
    simp only [cyclicCall] at h
    split_ifs at h
    · exact .inl (Option.some.inj h).symm
    · exact .inr (Option.some.inj h).symm
  intro n auth h
  have hauth : auth = ⟨2, [(8, 1)], [(1, 1)]⟩ ∨ auth = ⟨1, [(7, 1)], [(2, 1)]⟩ := by
    cases h with
    | other h => simp [requiredOther, cyclicCall] at h
    | active _ hauth => exact hactive _ _ (hauth.resolve_right (by simp [cyclicCall]))
    | owner _ hauth => simp [cyclicCall] at hauth
    | entry _ _ hauth => exact hactive _ _ hauth
  rcases hauth with rfl | rfl <;> simp [FitsAt, Fits]

end VerifyCall

/-! ## An authority whose weights wrap around -/

/-- The loop over signed keys when no total, taken modulo the range, reaches the
threshold. -/
theorem countEntries_signed {threshold : UInt32} {entries : List (PublicKey × UInt16)}
    {w : UInt32} {s : SignState}
    (hkeys : ∀ e ∈ entries, e.1 ∈ s.providedSignatures.map Prod.fst)
    (hlow : ∀ i < entries.length,
      (w.toNat + ((entries.take (i + 1)).map (·.2.toNat)).sum) % 2 ^ 32 < threshold.toNat) :
    ∃ w' t, SignState.countEntries SignState.signedBy threshold entries w s =
      (false, w', t) ∧
        w'.toNat = (w.toNat + (entries.map (·.2.toNat)).sum) % 2 ^ 32 := by
  induction entries generalizing w s with
  | nil => exact ⟨w, s, rfl, (Nat.mod_eq_of_lt (by simpa using w.toNat_lt)).symm⟩
  | cons e entries ih =>
      obtain ⟨k, weight⟩ := e
      have hk : k ∈ s.providedSignatures.map Prod.fst := hkeys (k, weight) (by simp)
      have hadd : (w + weight.toUInt32).toNat = (w.toNat + weight.toNat) % 2 ^ 32 := by
        rw [UInt32.toNat_add, UInt16.toNat_toUInt32]
      have hnot : ¬threshold ≤ w + weight.toUInt32 := by
        rw [UInt32.le_iff_toNat_le, hadd]
        simpa using hlow 0 (by simp)
      have hrest := @ih (w + weight.toUInt32)
        { s.examine k with providedSignatures := SignState.markUsed k s.providedSignatures }
        (fun e he ↦ by
          rw [markUsed_keys]
          exact hkeys e (List.mem_cons_of_mem _ he))
        (fun i hi ↦ by
          have h := hlow (i + 1) (by simpa using hi)
          rw [hadd, Nat.mod_add_mod]
          simpa [Nat.add_assoc] using h)
      obtain ⟨w', t, hrun, hw⟩ := hrest
      refine ⟨w', t, ?_, ?_⟩
      · simp only [SignState.countEntries, SignState.signedBy, if_pos hk, if_neg hnot, hrun]
      · rw [hw, hadd, Nat.mod_add_mod]
        simp [Nat.add_assoc]

theorem weightOf_all {α : Type} {p : α → Prop} [DecidablePred p] {entries : List (α × UInt16)}
    (h : ∀ e ∈ entries, p e.1) : weightOf p entries = (entries.map (·.2.toNat)).sum := by
  apply congrArg List.sum
  apply List.map_congr_left
  exact fun e he ↦ if_pos (h e he)

namespace VerifyCall

/-- An operation of an approved account that requires keys, all of which have signed. -/
def keysCall (threshold : UInt32) (entries : List (PublicKey × UInt16)) : VerifyCall where
  ops := [{ feePayer := tempAccount, other := [⟨threshold, [], entries⟩] }]
  sigs := entries.map Prod.fst
  getActive _ := none
  getOwner _ := none
  maxRecursionDepth := 2

section KeysCall

variable {threshold : UInt32} {entries : List (PublicKey × UInt16)}

theorem keysCall_rejected
    (hlow : ∀ i < entries.length,
      ((entries.take (i + 1)).map (·.2.toNat)).sum % 2 ^ 32 < threshold.toNat)
    (hsum : (entries.map (·.2.toNat)).sum % 2 ^ 32 < threshold.toNat) :
    (keysCall threshold entries).verifyAuthority =
      .error (.txMissingOtherAuth ⟨threshold, [], entries⟩) := by
  let auth : Authority := ⟨threshold, [], entries⟩
  have hkeys : ∀ e ∈ entries,
      e.1 ∈ (keysCall threshold entries).initial.providedSignatures.map Prod.fst :=
    fun e he ↦ ((keysCall threshold entries).initial_justified.keys e.1).mpr
      (List.mem_map_of_mem he)
  obtain ⟨total, t, hrun, htotal⟩ := countEntries_signed (w := 0) hkeys (by simpa using hlow)
  have hlow : ¬threshold ≤ total := by
    rw [UInt32.le_iff_toNat_le, htotal]
    simpa using hsum
  have hcheck : (keysCall threshold entries).checkOther auth
      (keysCall threshold entries).initial = (false, t) := by
    have hdepth : (keysCall threshold entries).maxRecursionDepth = 2 := rfl
    simp [checkOther, hdepth, SignState.checkAuthority, SignState.checkWith, auth, hrun,
      SignState.countEntries, hlow]
  have hrequired : (keysCall threshold entries).checkRequired =
      .error (.txMissingOtherAuth auth) := by
    have hother : requiredOther (keysCall threshold entries).ops = [auth] := rfl
    simp [checkRequired, hother, requireAll, hcheck, bind, Except.bind]
  have hactive : requiredActive (keysCall threshold entries).ops = [tempAccount] := rfl
  simp [verifyAuthority, hrequired, hactive, committeeAccount, tempAccount, bind, Except.bind,
    auth]

theorem keysCall_derived (hsum : threshold.toNat ≤ (entries.map (·.2.toNat)).sum) :
    (keysCall threshold entries).Satisfied
      ((keysCall threshold entries).Derives (keysCall threshold entries).maxRecursionDepth) where
  other auth hauth := by
    obtain rfl : auth = ⟨threshold, [], entries⟩ := by
      simpa [requiredOther, keysCall] using hauth
    refine ⟨∅, by simp, ?_⟩
    have hall : ∀ e ∈ entries, e.1 ∈ (keysCall threshold entries).sigs :=
      fun e he ↦ List.mem_map_of_mem he
    simpa [Authority.ReachedBy, weightOf_all hall] using hsum
  active id hid := by
    obtain rfl : id = tempAccount := by
      simpa [requiredActive, keysCall, flatInsertAll, flatInsert] using hid
    exact .inl (Finset.mem_insert_self _ _)
  owner id hid := by simp [requiredOwner, keysCall, flatInsertAll] at hid

theorem keysCall_not_complete
    (hlow : ∀ i < entries.length,
      ((entries.take (i + 1)).map (·.2.toNat)).sum % 2 ^ 32 < threshold.toNat)
    (hsum : (entries.map (·.2.toNat)).sum % 2 ^ 32 < threshold.toNat)
    (hderived : threshold.toNat ≤ (entries.map (·.2.toNat)).sum) :
    ¬(keysCall threshold entries).SoundAndComplete := by
  intro h
  have hresult := h.complete (keysCall_derived hderived)
  rw [keysCall_rejected hlow hsum] at hresult
  simp at hresult

end KeysCall

/-- Weights that sum to `2 ^ 32`, for a threshold of one less. -/
def wideWeight (k : PublicKey) : UInt16 :=
  if k < 65536 then 65535 else if k = 65536 then 65534 else 2

def wideEntries (n : ℕ) : List (PublicKey × UInt16) :=
  (List.range n).map fun k ↦ (k, wideWeight k)

def wideCall : VerifyCall := keysCall 4294967295 (wideEntries 65538)

theorem wideEntries_sum {n : ℕ} (hn : n ≤ 65538) :
    ((wideEntries n).map (·.2.toNat)).sum =
      if n ≤ 65536 then 65535 * n else if n = 65537 then 4294967294 else 4294967296 := by
  induction n with
  | zero => simp [wideEntries]
  | succ n ih =>
      have hstep : wideEntries (n + 1) = wideEntries n ++ [(n, wideWeight n)] := by
        simp [wideEntries, List.range_succ]
      rw [hstep, List.map_append, List.sum_append, ih (by omega)]
      rcases (by omega : n < 65536 ∨ n = 65536 ∨ n = 65537) with hlt | rfl | rfl
      · simp [wideWeight, hlt, hlt.le, Nat.succ_le_of_lt hlt]
        omega
      · simp [wideWeight]
      · simp [wideWeight]

theorem take_wideEntries {m n : ℕ} (hmn : m ≤ n) : (wideEntries n).take m = wideEntries m := by
  rw [wideEntries, ← List.map_take, List.take_range, min_eq_left hmn, wideEntries]

end VerifyCall

end KarmaCore.Authorities
