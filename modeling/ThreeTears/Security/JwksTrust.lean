import Mathlib.Algebra.Order.Ring.Int

/-!
# What a verifier trusts of a publisher's key set

Each reply is judged once and its keys are adopted with their provenance. Signatures, digests and
thumbprints are the libraries': what they answer is a parameter.
-/

namespace ThreeTears

/-- An entry of a `keys` list that is an object; `kid` is `none` unless it is a string. -/
structure Jwk (μ : Type*) where
  kid : Option String
  material : μ
  deriving DecidableEq

/-- The entries of a reply's `keys`, `none` for one that is no object. -/
abbrev JwkEntries (μ : Type*) := List (Option (Jwk μ))

/-- `STATEMENT_ORDER_LEEWAY`, in seconds. -/
def statementOrderLeeway : Int := 30

/-- `MAX_STATEMENT_LIFETIME`, in seconds. -/
def maxStatementLifetime : Int := 900

structure StatementClaims where
  iat : Int
  exp : Int

/-- A trusted key: whether a verified reply brought it, and since when replies omit it. -/
structure HeldKey (μ : Type*) where
  jwk : Jwk μ
  verified : Bool
  missingSince : Option Int
  deriving DecidableEq

inductive KeyringMerge
  | added
  | retired
  | held
  deriving DecidableEq

/-- The trusted keys by kid. Clock readings are counted in ticks. -/
structure JwksKeyring (μ : Type*) where
  overlap : Int
  keys : String → Option (HeldKey μ) := fun _ => none

namespace JwksKeyring

variable {μ : Type*}

def seen (entries : JwkEntries μ) (kid : String) : Option (Jwk μ) :=
  (entries.reverse.filterMap id).find? fun jwk => jwk.kid = some kid

/-- `adopt` and `_fold` treat each kid by itself: here what they make of one. -/
def adoptKid (overlap now : Int) (verified additive : Bool) :
    Option (Jwk μ) → Option (HeldKey μ) → Option (HeldKey μ) × Option KeyringMerge
  | some jwk, none => (some ⟨jwk, verified, none⟩, some .added)
  | some jwk, some key =>
    if additive then (some key, none)
    else
      let jwk := if verified ∨ ¬key.verified then jwk else key.jwk
      (some ⟨jwk, key.verified || verified, none⟩, none)
  | none, none => (none, none)
  | none, some key =>
    let firstMissed := key.missingSince.getD now
    if additive then (some key, none)
    else if ¬key.verified ∨ overlap ≤ now - firstMissed then (none, some .retired)
    else (some { key with missingSince := some firstMissed }, some .held)

def adopt (ring : JwksKeyring μ) (now : Int) (entries : JwkEntries μ) (verified additive : Bool) :
    JwksKeyring μ × (String → Option KeyringMerge) :=
  let adopted := fun kid =>
    adoptKid ring.overlap now verified additive (seen entries kid) (ring.keys kid)
  ({ ring with keys := fun kid => (adopted kid).1 }, fun kid => (adopted kid).2)

end JwksKeyring

/-- What the libraries answer: `jwt`, the digest of a key list and a key's thumbprint. An error is
the exception's name. -/
structure JwksLibraries (ρ σ δ μ : Type*) where
  /-- `alg`, `typ` and `kid` of `jwt.get_unverified_header` -/
  header : σ → Except String (Option String × Option String × Option String)
  /-- `iat`, `exp` and `keys_sha256` of `jwt.decode` under the root, issuer and wall clock -/
  decode : ρ → String → Int → σ → Except String (Int × Int × δ)
  keysDigest : List (Jwk μ) → δ
  rootThumbprint : ρ → String
  /-- the thumbprint of an entry's key, `none` for a key that is not Ed25519 -/
  thumbprint : Jwk μ → Except String (Option String)

namespace JwksLibraries

variable {ρ σ δ μ : Type*} (lib : JwksLibraries ρ σ δ μ)

/-- `verify_jwks_statement`. The outer `none` is the `AttributeError` that `keys_digest` raises at
an entry that is no object. -/
def verifyJwksStatement [DecidableEq δ] (root : ρ) (issuer : String) (wall : Int) (statement : σ)
    (entries : JwkEntries μ) : Option (Except String StatementClaims) :=
  match lib.header statement with
  | .error exc => some (.error s!"malformed statement header ({exc})")
  | .ok (alg, typ, kid) =>
    if alg ≠ some "EdDSA" then
      some (.error "unexpected statement algorithm; only EdDSA is accepted")
    else if typ ≠ some "jwks-statement+jwt" then
      some (.error "not a JWKS statement")
    else if kid ≠ some (lib.rootThumbprint root) then
      some (.error "statement is not signed by the pinned root key")
    else
      match lib.decode root issuer wall statement with
      | .error exc => some (.error s!"statement verification failed ({exc})")
      | .ok (iat, exp, digest) =>
        (entries.mapM id).map fun jwks =>
          if digest ≠ lib.keysDigest jwks then
            .error "statement is signed over a different key set"
          else if maxStatementLifetime < exp - iat then
            .error "statement claims a longer life than a verifier accepts"
          else .ok ⟨iat, exp⟩

/-- Every entry whose key does not hash to its `kid`, as a reason each. -/
def thumbprintMismatches (entries : JwkEntries μ) : List String :=
  entries.zipIdx.filterMap fun (entry, index) =>
    match entry.bind fun jwk => jwk.kid.map (·, jwk) with
    | none => some s!"entry {index}: no kid"
    | some (kid, jwk) =>
      if kid = "" then some s!"entry {index}: no kid"
      else
        match lib.thumbprint jwk with
        | .error exc => some s!"entry {index}: not a public JWK ({exc})"
        | .ok none => some s!"entry {index}: not an Ed25519 public key"
        | .ok (some thumbprint) =>
          if thumbprint ≠ kid then some s!"entry {index}: kid is not the key's thumbprint" else none

end JwksLibraries

inductive ProofOutcome
  | presented
  | acceptedWithoutProof
  | refusedWithoutProof
  deriving DecidableEq

structure DoorProofSwitch where
  requiredFrom : Int
  requiredEarly : Bool

def DoorProofSwitch.judge (switch : DoorProofSwitch) (today : Int) (presented : Bool) :
    ProofOutcome :=
  if presented then .presented
  else if switch.requiredEarly ∨ switch.requiredFrom ≤ today then .refusedWithoutProof
  else .acceptedWithoutProof

inductive ReplyTrust
  | refused
  | verified
  | unverified
  deriving DecidableEq

structure ReplyJudgement where
  trust : ReplyTrust
  reason : String := ""
  cause : String := ""
  behind : Bool := false
  deriving DecidableEq

/-- A decoded reply, with what the clocks read as it is taken. -/
structure JwksReply (σ μ : Type*) where
  /-- `none` when `keys` is not a list -/
  keys : Option (JwkEntries μ)
  /-- `none` when there is no statement, or it is no string -/
  statement : Option σ
  clock : Int
  wall : Int
  today : Int

structure JwksTrust (ρ μ : Type*) where
  issuer : String
  root : Option ρ
  statementSwitch : DoorProofSwitch
  thumbprintSwitch : DoorProofSwitch
  keyring : JwksKeyring μ
  newestStatementIat : Option Int := none

namespace JwksTrust

variable {ρ σ δ μ : Type*} [DecidableEq δ] (lib : JwksLibraries ρ σ δ μ) (trust : JwksTrust ρ μ)

/-- The verdict on a statement this verifier can check, and the newest issue time after it. -/
def judgeStatement (root : ρ) (wall : Int) (statement : σ) (entries : JwkEntries μ) :
    Option (ReplyJudgement × Option Int) :=
  (lib.verifyJwksStatement root trust.issuer wall statement entries).map fun
    | .error exc =>
      ({ trust := .refused, reason := s!"statement does not verify: {exc}", cause := "unverified" },
        trust.newestStatementIat)
    | .ok claims =>
      match trust.newestStatementIat with
      | none => ({ trust := .verified }, some claims.iat)
      | some newest =>
        if claims.iat < newest - statementOrderLeeway then
          ({ trust := .refused, cause := "older",
              reason := s!"statement is older than one already verified (iat {claims.iat}, " ++
                s!"newest {newest}, leeway {statementOrderLeeway}s)" }, some newest)
        else ({ trust := .verified, behind := claims.iat < newest }, some (max newest claims.iat))

def judgeUnverified (today : Int) (entries : JwkEntries μ) : ReplyJudgement :=
  let mismatches := lib.thumbprintMismatches entries
  if trust.statementSwitch.judge today false = .refusedWithoutProof then
    { trust := .refused, cause := "unsigned",
      reason := "no statement this verifier can check, and the door requires one" }
  else if mismatches ≠ [] ∧ trust.thumbprintSwitch.judge today false = .refusedWithoutProof then
    { trust := .refused, cause := "thumbprint",
      reason := "an entry's kid is not its key's thumbprint: " ++ "; ".intercalate mismatches }
  else { trust := .unverified }

def judge (reply : JwksReply σ μ) : Option (ReplyJudgement × Option Int) :=
  match reply.keys, reply.statement, trust.root with
  | none, _, _ =>
    some ({ trust := .refused, reason := "keys is not a list", cause := "malformed" },
      trust.newestStatementIat)
  | some entries, some statement, some root =>
    trust.judgeStatement lib root reply.wall statement entries
  | some entries, _, _ =>
    if trust.newestStatementIat.isSome then
      some ({ trust := .refused, cause := "downgrade",
              reason := "no statement, after the publisher has signed one" },
        trust.newestStatementIat)
    else some (trust.judgeUnverified lib reply.today entries, none)

/-- Judge one reply and adopt its keys when it is taken; `none` when that raises. -/
def take (reply : JwksReply σ μ) :
    Option (ReplyJudgement × Option (String → Option KeyringMerge) × JwksTrust ρ μ) :=
  (trust.judge lib reply).map fun (judgement, newest) =>
    if judgement.trust = .refused then
      (judgement, none, { trust with newestStatementIat := newest })
    else
      let (ring, merge) := trust.keyring.adopt reply.clock (reply.keys.getD [])
        (judgement.trust = .verified) judgement.behind
      (judgement, some merge, { trust with keyring := ring, newestStatementIat := newest })

def new (issuer : String) (root : ρ) (statementSwitch thumbprintSwitch : DoorProofSwitch)
    (overlap : Int) : JwksTrust ρ μ where
  issuer := issuer
  root := some root
  statementSwitch := statementSwitch
  thumbprintSwitch := thumbprintSwitch
  keyring := { overlap := overlap }

def after (replies : List (JwksReply σ μ)) : JwksTrust ρ μ :=
  replies.foldl (fun trust reply => ((trust.take lib reply).map (·.2.2)).getD trust) trust

end JwksTrust

end ThreeTears
