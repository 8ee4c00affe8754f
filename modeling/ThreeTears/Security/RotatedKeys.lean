import ThreeTears.Security.JwksTrust

/-!
# Only the publisher's keys, and none it has rotated out

From its first verified reply on a verifier takes verified replies only, none issued before the
newest but for the leeway. A key that no statement of that age covers is missing from each of them.
-/

namespace ThreeTears

open List Option

namespace JwksKeyring

variable {μ : Type*} {ring : JwksKeyring μ} {entries : JwkEntries μ} {kid : String} {jwk : Jwk μ}
  {key : HeldKey μ} {now : Int} {behind : Bool}

lemma mem_of_seen (h : seen entries kid = some jwk) : some jwk ∈ entries ∧ jwk.kid = some kid := by
  have hmem := mem_of_find?_eq_some h
  have hk := List.find?_some h
  simp_all

lemma of_adopt (h : (ring.adopt now entries true behind).1.keys kid = some key) :
    some key.jwk ∈ entries ∧ key.jwk.kid = some kid ∨
      ∃ old, ring.keys kid = some old ∧ key.jwk = old.jwk ∧ if behind then key = old else
        old.verified ∧ now - old.missingSince.getD now < ring.overlap ∧
          key.missingSince = some (old.missingSince.getD now) := by
  simp only [adopt] at h
  cases hseen : seen entries kid with
  | some =>
    have hmem := mem_of_seen hseen
    cases hold : ring.keys kid <;> grind [adoptKid]
  | none => cases hold : ring.keys kid <;> grind [adoptKid]

lemma adopt_behind (h : ring.keys kid = some key) :
    (ring.adopt now entries true true).1.keys kid = some key := by
  cases hseen : seen entries kid <;> simp [adopt, h, hseen, adoptKid]

lemma verified_of_adopt (h : (ring.adopt now entries false false).1.keys kid = some key)
    (hkey : key.verified) : ∃ old, ring.keys kid = some old ∧ old.verified := by
  simp only [adopt] at h
  cases hseen : seen entries kid <;> cases hold : ring.keys kid <;> grind [adoptKid]

lemma missing_of_adopt {v : Bool} {m : Int}
    (h : (ring.adopt now entries v behind).1.keys kid = some key) (hm : key.missingSince = some m) :
    m = now ∨ ∃ old, ring.keys kid = some old ∧ old.missingSince = some m := by
  simp only [adopt] at h
  cases hold : ring.keys kid with
  | none => cases hseen : seen entries kid <;> grind [adoptKid]
  | some old =>
    cases hseen : seen entries kid <;> cases hmi : old.missingSince <;> grind [adoptKid]

end JwksKeyring

namespace JwksTrust

variable {ρ σ δ μ : Type*} [DecidableEq δ] {lib : JwksLibraries ρ σ δ μ} {root : ρ}
  {trust trust' : JwksTrust ρ μ} {reply : JwksReply σ μ} {j : ReplyJudgement}

inductive Takes (lib : JwksLibraries ρ σ δ μ) (root : ρ) (trust : JwksTrust ρ μ)
    (reply : JwksReply σ μ) : ReplyJudgement → JwksTrust ρ μ → Prop
  | refused {j : ReplyJudgement} (hj : j.trust = .refused) : Takes lib root trust reply j trust
  | unverified {j : ReplyJudgement} {entries : JwkEntries μ} (hj : j.trust = .unverified)
    (hfirst : trust.newestStatementIat = none) :
    Takes lib root trust reply j
      { trust with keyring := (trust.keyring.adopt reply.clock entries false false).1 }
  | verified {j : ReplyJudgement} {entries : JwkEntries μ} {statement : σ}
    {claims : StatementClaims} {newest : Int} (hj : j.trust = .verified)
    (hverify : lib.verifyJwksStatement root trust.issuer reply.wall statement entries =
      some (.ok claims))
    (hstatement : reply.statement = some statement ∧ reply.keys = some entries)
    (hnewest : newest = (trust.newestStatementIat.map (max · claims.iat)).getD claims.iat)
    (hbehind : j.behind = decide (claims.iat < newest))
    (hleeway : newest - statementOrderLeeway ≤ claims.iat) :
    Takes lib root trust reply j
      { trust with
        keyring := (trust.keyring.adopt reply.clock entries true j.behind).1
        newestStatementIat := some newest }

lemma takes_of_take {merge : Option (String → Option KeyringMerge)} (hro : trust.root = some root)
    (h : trust.take lib reply = some (j, merge, trust')) : Takes lib root trust reply j trust' := by
  obtain ⟨⟨j', newest⟩, hju, heq⟩ := map_eq_some_iff.1 h
  have hr : j'.trust = .refused → newest = trust.newestStatementIat →
      Takes lib root trust reply j trust' := by
    rintro hj rfl
    simp only [hj, if_true] at heq
    cases heq
    exact .refused hj
  cases hkeys : reply.keys with
  | none =>
    simp only [judge, hkeys] at hju
    cases hju
    exact hr rfl rfl
  | some entries =>
    cases hstatement : reply.statement with
    | none =>
      simp only [judge, hkeys, hstatement] at hju
      cases hnone : trust.newestStatementIat with (rw [hnone] at hju; cases hju)
      | some => exact hr rfl hnone.symm
      | none =>
        have hc : (trust.judgeUnverified lib reply.today entries).trust = .refused ∨
            trust.judgeUnverified lib reply.today entries = { trust := .unverified } := by
          grind [judgeUnverified]
        obtain hj | hj := hc
        · exact hr hj hnone.symm
        simp only [hj, hkeys, reduceCtorEq, if_false, decide_false] at heq
        cases heq
        rw [← hnone]
        exact .unverified rfl hnone
    | some =>
      simp only [judge, hkeys, hstatement, hro] at hju
      obtain ⟨verdict, hverify, hju⟩ := map_eq_some_iff.1 hju
      cases verdict with
      | error =>
        cases hju
        exact hr rfl rfl
      | ok claims =>
        by_cases hj : j'.trust = .refused
        · exact hr hj (by clear heq h hr; grind)
        obtain ⟨n, rfl, hj, hn, hbehind, hleeway⟩ : ∃ n, newest = some n ∧ j'.trust = .verified ∧
            n = (trust.newestStatementIat.map (max · claims.iat)).getD claims.iat ∧
            j'.behind = decide (claims.iat < n) ∧ n - statementOrderLeeway ≤ claims.iat := by
          clear heq h hr
          cases hi : trust.newestStatementIat <;> grind [statementOrderLeeway]
        simp only [hj, hkeys, reduceCtorEq, if_false, decide_true] at heq
        cases heq
        exact .verified hj hverify ⟨hstatement, hkeys⟩ hn hbehind hleeway

/-- The verdict on a reply, `none` when taking it raises. -/
def judgement (lib : JwksLibraries ρ σ δ μ) (trust : JwksTrust ρ μ) (reply : JwksReply σ μ) :
    Option ReplyJudgement := (trust.take lib reply).map (·.1)

lemma after_append (replies replies' : List (JwksReply σ μ)) :
    trust.after lib (replies ++ replies') = (trust.after lib replies).after lib replies' :=
  foldl_append

lemma takes_of_judgement (hr : trust.root = some root) (h : judgement lib trust reply = some j) :
    Takes lib root trust reply j (trust.after lib [reply]) := by
  obtain ⟨⟨j', merge, trust'⟩, ht, rfl⟩ := map_eq_some_iff.1 h
  have haf : trust.after lib [reply] = trust' := by simp [after, ht]
  rw [haf]
  exact takes_of_take hr ht

lemma after_invariant {I : JwksTrust ρ μ → Prop} {replies : List (JwksReply σ μ)}
    (hr : ∀ t, I t → t.root = some root)
    (htk : ∀ t, ∀ r ∈ replies, ∀ j t', I t → Takes lib root t r j t' → I t') (h : I trust) :
    I (trust.after lib replies) := by
  induction replies generalizing trust with
  | nil => exact h
  | cons r _ ih =>
    refine ih (fun t r' hr' => htk t r' (mem_cons_of_mem _ hr')) ?_
    cases ht : trust.take lib r with
    | none => simpa [ht] using h
    | some =>
      simpa [ht] using htk trust r mem_cons_self _ _ h (takes_of_take (hr _ h) ht)

variable {issuer : String} {overlap : Int}

structure Configured (root : ρ) (issuer : String) (overlap : Int) (trust : JwksTrust ρ μ) :
    Prop where
  root : trust.root = some root
  issuer : trust.issuer = issuer
  overlap : trust.keyring.overlap = overlap

lemma Configured.takes (h : trust.Configured root issuer overlap)
    (htk : Takes lib root trust reply j trust') : trust'.Configured root issuer overlap := by
  cases htk <;> exact { h with }

section Rotating

/-- What a publisher signs that rotates the key `old` out at 100. -/
def rotating (iat : Int) : List (Jwk Nat) :=
  if iat ≤ 100 then [⟨some "old", 1⟩, ⟨some "new", 2⟩] else [⟨some "new", 2⟩]

def rotatingLibraries : JwksLibraries Unit Int (List (Jwk Nat)) Nat where
  header _ := .ok (some "EdDSA", some "jwks-statement+jwt", some "root")
  decode _ _ _ iat := .ok (iat, iat + 60, rotating iat)
  keysDigest := id
  rootThumbprint _ := "root"
  thumbprint jwk := .ok jwk.kid

def rotatingReply (iat clock : Int) : JwksReply Int Nat :=
  ⟨some ((rotating iat).map some), some iat, clock, iat, 0⟩

lemma rotating_of_verify {wall iat : Int} {entries : JwkEntries Nat} {claims : StatementClaims}
    (h : rotatingLibraries.verifyJwksStatement () "hub" wall iat entries = some (.ok claims)) :
    claims.iat = iat ∧ entries = (rotating iat).map some := by
  simp only [JwksLibraries.verifyJwksStatement, rotatingLibraries, ne_eq, not_true_eq_false,
    if_false, map_eq_some_iff] at h
  obtain ⟨jwks, hm, h⟩ := h
  have he : entries = jwks.map some := by
    clear h
    induction entries generalizing jwks with
    | nil => simp_all
    | cons _ _ ih =>
      simp only [mapM_cons, id_eq, bind_eq_bind, bind_eq_some_iff] at hm
      obtain ⟨jwk, rfl, rest, hr, hc⟩ := hm
      cases hc
      rw [ih rest hr, map_cons]
  grind

end Rotating

section Signed

variable {Signed : JwkEntries μ → Prop}

/-- Until a statement is verified no key is; from then on every key is one of a signed list. -/
structure Heard (Signed : JwkEntries μ → Prop) (trust : JwksTrust ρ μ) : Prop where
  unheard : trust.newestStatementIat = none →
    ∀ kid key, trust.keyring.keys kid = some key → key.verified = false
  signed : trust.newestStatementIat ≠ none → ∀ kid key, trust.keyring.keys kid = some key →
    ∃ entries, Signed entries ∧ some key.jwk ∈ entries ∧ key.jwk.kid = some kid

section

variable (hsigned : ∀ wall statement entries claims,
  lib.verifyJwksStatement root issuer wall statement entries = some (.ok claims) → Signed entries)
include hsigned

lemma Heard.takes (hconf : trust.Configured root issuer overlap) (h : trust.Heard Signed)
    (htk : Takes lib root trust reply j trust') : trust'.Heard Signed := by
  cases htk with
  | refused => exact h
  | unverified _ hfirst =>
    refine ⟨fun _ kid key hkey => Bool.eq_false_iff.2 fun hv => ?_, fun hne => absurd hfirst hne⟩
    obtain ⟨old, hold, hv⟩ := JwksKeyring.verified_of_adopt hkey hv
    simp [h.unheard hfirst kid old hold] at hv
  | @verified entries _ _ _ _ hverify _ hnewest hbehind _ =>
    have hl := hsigned _ _ _ _ (hconf.issuer ▸ hverify)
    refine ⟨fun hnone => (by cases hnone), fun _ kid key hkey => ?_⟩
    obtain hnew | ⟨old, hold, hjw, hheld⟩ := JwksKeyring.of_adopt hkey
    · exact ⟨entries, hl, hnew⟩
    rw [hjw]
    refine h.signed (fun hfirst => ?_) kid old hold
    have hfa : j.behind = false := by simp [hbehind, hnewest, hfirst]
    simp [hfa, h.unheard hfirst kid old hold] at hheld

/-- Where a statement verifies only over a list its publisher signed, every key of the keyring is
one of such a list from the first verified reply on. A refused reply leaves the keyring. -/
theorem keys_signed
    (statementSwitch thumbprintSwitch : DoorProofSwitch) (replies : List (JwksReply σ μ)) :
    let trust := (new issuer root statementSwitch thumbprintSwitch overlap : JwksTrust ρ μ)
    ((∃ pre reply post j, replies = pre ++ reply :: post ∧
        judgement lib (trust.after lib pre) reply = some j ∧ j.trust = .verified) →
      ∀ kid key, (trust.after lib replies).keyring.keys kid = some key →
        ∃ entries, Signed entries ∧ some key.jwk ∈ entries ∧ key.jwk.kid = some kid) ∧
    ∀ reply j, judgement lib (trust.after lib replies) reply = some j → j.trust = .refused →
      (trust.after lib (replies ++ [reply])).keyring = (trust.after lib replies).keyring := by
  intro trust
  have hh : ∀ replies, (trust.after lib replies).Configured root issuer overlap ∧
      (trust.after lib replies).Heard Signed := fun replies =>
    after_invariant (I := fun t => t.Configured root issuer overlap ∧ t.Heard Signed)
      (fun _ h => h.1.root) (fun _ _ _ _ _ h ht => ⟨h.1.takes ht, h.2.takes hsigned h.1 ht⟩)
      ⟨⟨rfl, rfl, rfl⟩, ⟨fun _ _ _ hkey => (by cases hkey), fun hne => absurd rfl hne⟩⟩
  refine ⟨?_, fun reply j hj hre => ?_⟩
  · rintro ⟨pre, reply, post, j, rfl, hj, hve⟩
    apply (hh _).2.signed
    rw [append_cons, after_append, after_append]
    have hst : ∀ t, ∀ r ∈ post, ∀ j t', t.root = some root ∧ t.newestStatementIat ≠ none →
        Takes lib root t r j t' → t'.root = some root ∧ t'.newestStatementIat ≠ none := by
      rintro t - - j t' h (_ | ⟨-, hfirst⟩ | _)
      · exact h
      · exact absurd hfirst h.2
      · exact ⟨h.1, by simp⟩
    refine (after_invariant (fun _ h => h.1) hst ?_).2
    have hr := (hh pre).1.root
    have hta := takes_of_judgement hr hj
    generalize (trust.after lib pre).after lib [reply] = t at hta
    cases hta <;> grind
  rw [after_append]
  have hta := takes_of_judgement (hh replies).1.root hj
  generalize (trust.after lib replies).after lib [reply] = t at hta
  cases hta <;> grind

end

/-- A forged key is adopted while nothing is signed, and leaves with the first statement. -/
theorem keys_signed_forged :
    let trust := (new "hub" () ⟨400, false⟩ ⟨400, false⟩ 5 : JwksTrust Unit Nat)
    let forged := (⟨some [some ⟨some "forged", 7⟩], none, 0, 0, 0⟩ : JwksReply Int Nat)
    ((trust.after rotatingLibraries [forged]).keyring.keys "forged").isSome ∧
    ∀ kid key,
      (trust.after rotatingLibraries [forged, rotatingReply 50 1]).keyring.keys kid = some key →
      ∃ iat, some key.jwk ∈ (rotating iat).map some := by
  refine ⟨by decide +kernel, fun kid key hkey => ?_⟩
  have hsigned : ∀ wall iat entries claims,
      rotatingLibraries.verifyJwksStatement () "hub" wall iat entries = some (.ok claims) →
        ∃ iat, entries = (rotating iat).map some :=
    fun _ iat _ _ h => ⟨iat, (rotating_of_verify h).2⟩
  obtain ⟨entries, ⟨iat, rfl⟩, hmem, -⟩ := (keys_signed hsigned ⟨400, false⟩ ⟨400, false⟩ _).1
    ⟨[⟨some [some ⟨some "forged", 7⟩], none, 0, 0, 0⟩], rotatingReply 50 1, [],
      { trust := .verified }, rfl, by decide +kernel, rfl⟩ kid key hkey
  exact ⟨iat, hmem⟩

end Signed

section RotatedOut

variable {T c : Int} {p : Jwk μ → Prop}

/-- Statements up to `T` are refused by now. -/
def Past (T : Int) (trust : JwksTrust ρ μ) : Prop :=
  ∃ newest, trust.newestStatementIat = some newest ∧ T + statementOrderLeeway < newest

/-- Each key of `p` has been missing since `c` at the latest. -/
def Missing (p : Jwk μ → Prop) (c : Int) (trust : JwksTrust ρ μ) : Prop :=
  ∀ kid key, trust.keyring.keys kid = some key → p key.jwk → ∃ m, key.missingSince = some m ∧ m ≤ c

/-- No hold began after `c`; past `T`, each key of `p` is missing. -/
structure Early (p : Jwk μ → Prop) (T c : Int) (trust : JwksTrust ρ μ) : Prop where
  le : ∀ kid key m, trust.keyring.keys kid = some key → key.missingSince = some m → m ≤ c
  missing : trust.Past T → trust.Missing p c

/-- No statement issued after `T` covers a key of `p`. -/
def NotAfter (lib : JwksLibraries ρ σ δ μ) (root : ρ) (issuer : String) (T : Int)
    (p : Jwk μ → Prop) : Prop :=
  ∀ wall statement entries claims,
    lib.verifyJwksStatement root issuer wall statement entries = some (.ok claims) →
      T < claims.iat → ∀ jwk, some jwk ∈ entries → ¬p jwk

variable (hnot : NotAfter lib root issuer T p) (hconf : trust.Configured root issuer overlap)

include hnot hconf in
lemma Takes.of_past (htk : Takes lib root trust reply j trust') (hpa : trust'.Past T) :
    j.trust = .refused ∧ trust' = trust ∨
      ∀ kid key, trust'.keyring.keys kid = some key → p key.jwk → ∃ old,
        trust.keyring.keys kid = some old ∧ p old.jwk ∧
        if j.behind then trust.Past T ∧ key = old else
          reply.clock - old.missingSince.getD reply.clock < overlap ∧
            key.missingSince = some (old.missingSince.getD reply.clock) := by
  obtain ⟨newest', hn', hlt⟩ := hpa
  cases htk with
  | refused hj => exact .inl ⟨hj, rfl⟩
  | unverified _ hfirst => cases hfirst.symm.trans hn'
  | @verified entries _ claims _ _ hverify _ hnewest hbehind hleeway =>
    cases hn'
    have hl := hnot _ _ _ _ (hconf.issuer ▸ hverify) (by omega)
    refine .inr fun kid key hkey hp => ?_
    obtain hnew | ⟨old, hold, hjw, hheld⟩ := JwksKeyring.of_adopt hkey
    · exact absurd hp (hl key.jwk hnew.1)
    refine ⟨old, hold, hjw ▸ hp, ?_⟩
    split_ifs at hheld ⊢ with hb
    · refine ⟨?_, hheld⟩
      have hi : claims.iat < newest' := by simpa [hbehind] using hb
      cases hfirst : trust.newestStatementIat with
      | none => simp [hnewest, hfirst] at hi
      | some n =>
        refine ⟨n, hfirst, ?_⟩
        simp only [hfirst, map_some, getD_some] at hnewest
        omega
    · exact ⟨hconf.overlap ▸ hheld.2.1, hheld.2.2⟩

lemma Past.takes (h : trust.Past T) (htk : Takes lib root trust reply j trust') :
    trust'.Past T := by
  obtain ⟨n, hn, hlt⟩ := h
  cases htk with
  | refused | unverified => exact ⟨n, hn, hlt⟩
  | verified _ _ _ hnewest =>
    refine ⟨_, rfl, ?_⟩
    rw [hnewest, hn]
    exact hlt.trans_le (le_max_left _ _)

include hnot hconf in
lemma Early.takes (h : trust.Early p T c) (hc : reply.clock ≤ c)
    (htk : Takes lib root trust reply j trust') : trust'.Early p T c := by
  have hle : ∀ kid key m, trust'.keyring.keys kid = some key → key.missingSince = some m →
      m ≤ c := by
    intro kid key m hkey hm
    have hst : m = reply.clock ∨
        ∃ old, trust.keyring.keys kid = some old ∧ old.missingSince = some m := by
      cases htk with
      | refused => exact .inr ⟨key, hkey, hm⟩
      | unverified | verified => exact JwksKeyring.missing_of_adopt hkey hm
    obtain rfl | ⟨old, hold, hm⟩ := hst
    · exact hc
    · exact h.le kid old m hold hm
  refine ⟨hle, fun hpa => ?_⟩
  obtain ⟨-, rfl⟩ | hk := htk.of_past hnot hconf hpa
  · exact h.missing hpa
  intro kid key hkey hp
  obtain ⟨old, hold, hp', hheld⟩ := hk kid key hkey hp
  split_ifs at hheld with hb
  · exact hheld.2 ▸ h.missing hheld.1 kid old hold hp'
  · exact ⟨_, hheld.2, hle kid key _ hkey hheld.2⟩

include hnot hconf in
lemma Missing.takes (h : trust.Missing p c) (hpa : trust.Past T)
    (htk : Takes lib root trust reply j trust') : trust'.Missing p c := by
  obtain ⟨-, rfl⟩ | hk := htk.of_past hnot hconf (hpa.takes htk)
  · exact h
  intro kid key hkey hp
  obtain ⟨old, hold, hp', hheld⟩ := hk kid key hkey hp
  obtain ⟨m, hm, hle⟩ := h kid old hold hp'
  split_ifs at hheld with hb
  · exact ⟨m, hheld.2 ▸ hm, hle⟩
  · exact ⟨m, by rw [hheld.2, hm]; rfl, hle⟩

/-- No key of `p` is there, nor will be. -/
def Gone (p : Jwk μ → Prop) (T : Int) (trust : JwksTrust ρ μ) : Prop :=
  trust.Past T ∧ ∀ kid key, trust.keyring.keys kid = some key → ¬p key.jwk

include hnot hconf in
lemma Gone.takes (h : trust.Gone p T) (htk : Takes lib root trust reply j trust') :
    trust'.Gone p T := by
  refine ⟨h.1.takes htk, fun kid key hkey hp => ?_⟩
  obtain ⟨-, rfl⟩ | hk := htk.of_past hnot hconf (h.1.takes htk)
  · exact h.2 kid key hkey hp
  obtain ⟨old, hold, hp', -⟩ := hk kid key hkey hp
  exact h.2 kid old hold hp'

include hnot hconf in
lemma Takes.gone (htk : Takes lib root trust reply j trust') (hpa : trust'.Past T)
    (had : j.trust ≠ .refused) (hnewest : j.behind = false)
    (hlate : ∀ kid key, trust.keyring.keys kid = some key → p key.jwk →
      overlap ≤ reply.clock - key.missingSince.getD reply.clock) : trust'.Gone p T := by
  refine ⟨hpa, fun kid key hkey hp => ?_⟩
  obtain ⟨hj, -⟩ | hk := htk.of_past hnot hconf hpa
  · exact had hj
  obtain ⟨old, hold, hp', hheld⟩ := hk kid key hkey hp
  simp only [hnewest, Bool.false_eq_true, if_false] at hheld
  exact absurd (hlate kid old hold hp') (not_le.2 hheld.1)

/-- After `reply`, a verified one issued past `T` and the leeway, a reply adopted as the newest by
the overlap later leaves no key of `p`, and none comes back. A verified reply behind the newest
changes no key. -/
theorem rotated_out (hnot : NotAfter lib root issuer T p)
    (statementSwitch thumbprintSwitch : DoorProofSwitch) :
    let trust := (new issuer root statementSwitch thumbprintSwitch overlap : JwksTrust ρ μ)
    (∀ (pre early post : List (JwksReply σ μ)) (reply newest : JwksReply σ μ) j j',
      (∀ r ∈ pre, r.clock ≤ reply.clock) →
      judgement lib (trust.after lib pre) reply = some j → j.trust = .verified →
      (∃ statement entries claims, reply.statement = some statement ∧ reply.keys = some entries ∧
        lib.verifyJwksStatement root issuer reply.wall statement entries = some (.ok claims) ∧
        T + statementOrderLeeway < claims.iat) →
      (early = [] ∧ newest = reply ∨ ∃ mid, early = reply :: mid) →
      judgement lib (trust.after lib (pre ++ early)) newest = some j' → j'.trust ≠ .refused →
      j'.behind = false → reply.clock + overlap ≤ newest.clock →
      ∀ kid key, (trust.after lib (pre ++ early ++ newest :: post)).keyring.keys kid = some key →
        ¬p key.jwk) ∧
    ∀ (replies : List (JwksReply σ μ)) reply j,
      judgement lib (trust.after lib replies) reply = some j → j.trust = .verified →
      j.behind = true → ∀ kid key, (trust.after lib replies).keyring.keys kid = some key →
        (trust.after lib (replies ++ [reply])).keyring.keys kid = some key := by
  intro trust
  have hconf : ∀ replies, (trust.after lib replies).Configured root issuer overlap := fun _ =>
    after_invariant (fun _ h => h.root) (fun _ _ _ _ _ h ht => h.takes ht) ⟨rfl, rfl, rfl⟩
  constructor
  · intro pre early post reply newest j j' hc hj hve hi hfr hj' had hnewest hlate
    have he : (trust.after lib pre).Early p T reply.clock := by
      refine (after_invariant
        (I := fun t => t.Configured root issuer overlap ∧ t.Early p T reply.clock)
        (fun _ h => h.1.root) (fun t r hr j t' h ht => ?_) ⟨hconf [], ?_⟩).2
      · exact ⟨h.1.takes ht, h.2.takes hnot h.1 (hc r hr) ht⟩
      refine ⟨fun _ _ _ hkey => (by cases hkey), ?_⟩
      rintro ⟨_, hnone, -⟩
      cases hnone
    have hta := takes_of_judgement (hconf pre).root hj
    have hpa : ((trust.after lib pre).after lib [reply]).Past T := by
      obtain ⟨statement, entries, claims, hstatement, hkeys, hverify, hlt⟩ := hi
      have his := (hconf pre).issuer
      generalize (trust.after lib pre).after lib [reply] = t at hta
      cases hta with
      | refused h | unverified h => cases h.symm.trans hve
      | @verified _ _ claims' newest' _ hv' hre hnewest _ _ =>
        obtain rfl : claims' = claims := by grind
        have hle : claims'.iat ≤ newest' := by
          cases hfirst : (trust.after lib pre).newestStatementIat <;> simp [hnewest, hfirst]
        exact ⟨newest', rfl, hlt.trans_le hle⟩
    have hg : (trust.after lib (pre ++ early ++ [newest])).Gone p T := by
      rw [after_append]
      have ht' := takes_of_judgement (hconf _).root hj'
      obtain ⟨rfl, rfl⟩ | ⟨mid, rfl⟩ := hfr
      · rw [append_nil] at ht' ⊢
        refine ht'.gone hnot (hconf pre) hpa had hnewest fun kid key hkey _ => ?_
        cases hm : key.missingSince with
        | none => simpa using hlate
        | some m =>
          have hle := he.le kid key m hkey hm
          simp only [getD_some]
          omega
      have hmd : ∀ t, ∀ r ∈ mid, ∀ j t',
          t.Configured root issuer overlap ∧ t.Past T ∧ t.Missing p reply.clock →
          Takes lib root t r j t' →
          t'.Configured root issuer overlap ∧ t'.Past T ∧ t'.Missing p reply.clock :=
        fun t r _ j t' h ht => ⟨h.1.takes ht, h.2.1.takes ht, h.2.2.takes hnot h.1 h.2.1 ht⟩
      rw [append_cons, after_append, after_append] at ht' ⊢
      obtain ⟨hc', hp', hmi⟩ := after_invariant (fun _ h => h.1.root) hmd
        ⟨(hconf pre).takes hta, hpa, (he.takes hnot (hconf pre) le_rfl hta).missing hpa⟩
      refine ht'.gone hnot hc' (hp'.takes ht') had hnewest fun kid key hkey hp => ?_
      obtain ⟨m, hm, hle⟩ := hmi kid key hkey hp
      simp only [hm, getD_some]
      omega
    rw [append_cons, after_append]
    exact (after_invariant (I := fun t => t.Configured root issuer overlap ∧ t.Gone p T)
      (fun _ h => h.1.root) (fun _ _ _ _ _ h ht => ⟨h.1.takes ht, h.2.takes hnot h.1 ht⟩)
      ⟨hconf _, hg⟩).2.2
  intro replies reply j hj hve hbehind kid key hkey
  rw [after_append]
  have hta := takes_of_judgement (hconf replies).root hj
  generalize (trust.after lib replies).after lib [reply] = t at hta
  cases hta with
  | refused h | unverified h => cases h.symm.trans hve
  | verified =>
    rw [hbehind]
    exact JwksKeyring.adopt_behind hkey

/-- A key that is rotated out at 100, with an overlap of 5. -/
theorem rotated_out_old :
    let trust := (new "hub" () ⟨400, false⟩ ⟨400, false⟩ 5 : JwksTrust Unit Nat)
    ((trust.after rotatingLibraries [rotatingReply 50 0, rotatingReply 200 10]).keyring.keys
      "old").isSome ∧
    ∀ kid key, (trust.after rotatingLibraries [rotatingReply 50 0, rotatingReply 200 10,
      rotatingReply 300 15]).keyring.keys kid = some key → key.jwk.kid ≠ some "old" := by
  have hnot : NotAfter rotatingLibraries () "hub" 100 fun jwk => jwk.kid = some "old" := by
    intro wall iat entries claims h hlt jwk hjw
    obtain ⟨hi, rfl⟩ := rotating_of_verify h
    have hnew : rotating iat = [⟨some "new", 2⟩] := if_neg (by omega)
    simp_all
  refine ⟨by decide +kernel, ?_⟩
  refine (rotated_out hnot ⟨400, false⟩ ⟨400, false⟩).1 [rotatingReply 50 0]
    [rotatingReply 200 10] [] (rotatingReply 200 10) (rotatingReply 300 15)
    { trust := .verified } { trust := .verified }
    (by decide) (by decide +kernel) rfl ?_ (.inr ⟨[], rfl⟩) (by decide +kernel) (by decide) rfl
    (by decide)
  exact ⟨200, _, ⟨200, 260⟩, rfl, rfl, rfl, by decide⟩

end RotatedOut

end JwksTrust

end ThreeTears
