import Sulion.SignedPayloads

set_option autoImplicit false

/-! # The pinned control plane

`ControlPin` of `node_protocol/pin.rs` and its two callers: the enrollment, which runs as root and
records the key of the first pairing, and the connections of the process that has dropped its
privileges. Each check reads the pin file anew, and every error of the read counts as a node that
has never paired.
-/

namespace Sulion.Node.Pin

open Rust Transition SignedPayloads

/-- `URL_SAFE_NO_PAD.decode` and the verification of an Ed25519 signature. -/
structure Crypto where
  base64Decode : String → Option (List UInt8)
  ed25519Verify : List UInt8 → String → List UInt8 → Bool

/-- `ControlHelloProof`. -/
structure Proof extends ControlHelloProof where
  signature : String

inductive PinOutcome
  | matched
  | firstPairing (publicKey : String)
  | unauthenticated
  deriving DecidableEq, Repr

inductive IoError
  | notFound
  | permissionDenied
  | other (message : String)
  deriving DecidableEq, Repr

/-- What the checks refuse with. -/
inductive Refusal
  | invalidBase64
  | proofInvalid
  | noIdentity
  | identityChanged (pinned proved : String)
  | configUnsigned
  | configInvalid
  deriving DecidableEq, Repr

variable (crypto : Crypto)

/-- `ControlPin::pinned`, from what `read_to_string` returns. -/
def pinned (content : Except IoError String) : Option String :=
  match content with
  | .error _ => none
  | .ok text =>
      let pinned := trim text
      if pinned.isEmpty then none else some pinned

def decode (value : String) : Except Refusal (List UInt8) :=
  (crypto.base64Decode value).elim (.error .invalidBase64) .ok

def verifyProof (proof : Proof) (challenge : ControlChallenge) (hello : NodeHello) :
    Except Refusal Unit := do
  let publicKey ← decode crypto proof.publicKey
  let signature ← decode crypto proof.signature
  if crypto.ed25519Verify publicKey (proof.signingPayload challenge hello) signature then .ok ()
  else .error .proofInvalid

/-- `ControlPin::verify`. -/
def verify (content : Except IoError String) (proof : Option Proof) (challenge : ControlChallenge)
    (hello : NodeHello) : Except Refusal PinOutcome :=
  match proof with
  | none => if (pinned content).isSome then .error .noIdentity else .ok .unauthenticated
  | some proof => do
      verifyProof crypto proof challenge hello
      match pinned content with
      | some pinned =>
          if pinned = proof.publicKey then .ok .matched
          else .error (.identityChanged pinned proof.publicKey)
      | none => .ok (.firstPairing proof.publicKey)

def configSigningPayload (digest nodeNonce : String) : String :=
  "\n".intercalate ["sulion-node-config-v1", digest, nodeNonce]

/-- `ControlPin::verify_config`. -/
def verifyConfig (content : Except IoError String) (digest nodeNonce : String)
    (signature : Option String) : Except Refusal Unit :=
  match pinned content with
  | none => .ok ()
  | some pinned =>
      match signature with
      | none => .error .configUnsigned
      | some signature => do
          let publicKey ← decode crypto pinned
          let signature ← decode crypto signature
          if crypto.ed25519Verify publicKey (configSigningPayload digest nodeNonce) signature then
            .ok ()
          else .error .configInvalid

/-- What `record` writes. -/
def recorded (publicKey : String) : String := publicKey ++ "\n"

/-! ## Connections -/

/-- How a read of the pin file ends. -/
inductive Read
  | contents
  | failed (error : IoError)
  deriving DecidableEq, Repr

/-- The pin file, with its contents. -/
structure PinFile where
  text : String

def PinFile.read (s : PinFile) : Read → Except IoError String
  | .contents => .ok s.text
  | .failed error => .error error

/-- The checks of a connection. -/
inductive Action
  /-- `enroll_once`; `written` says whether a key can be recorded. -/
  | enroll (read : Read) (proof : Option Proof) (challenge : ControlChallenge) (hello : NodeHello)
      (written : Bool)
  /-- `connect_once`. -/
  | connect (read : Read) (proof : Option Proof) (challenge : ControlChallenge) (hello : NodeHello)
  | verifyConfig (read : Read) (digest nodeNonce : String) (signature : Option String)

def Action.read : Action → Read
  | .enroll read .. | .connect read .. | .verifyConfig read .. => read

/-- Only an enrollment writes, and only the key of what it takes for the first pairing. -/
def step (s : PinFile) : Action → Option PinFile
  | .enroll read proof challenge hello written =>
      match verify crypto (s.read read) proof challenge hello with
      | .ok (.firstPairing publicKey) => some (if written then ⟨recorded publicKey⟩ else s)
      | _ => some s
  | .connect .. | .verifyConfig .. => some s

/-- A file that can be read has been read. -/
def Readable (_ : PinFile) (a : Action) : Prop := a.read = .contents

/-- The text of a public key: URL-safe base64 of 32 bytes. -/
def IsControlKey (publicKey : String) : Prop := decodedLen publicKey = some 32

/-- Nothing is accepted but proofs by the key and configurations that it signed. -/
structure OnlyKey (publicKey : String) (content : Except IoError String) : Prop where
  proof : ∀ proof challenge hello outcome,
    verify crypto content proof challenge hello = .ok outcome →
      outcome = .matched ∧
        ∃ p ∈ proof, p.publicKey = publicKey ∧ verifyProof crypto p challenge hello = .ok ()
  config : ∀ digest nodeNonce signature,
    verifyConfig crypto content digest nodeNonce signature = .ok () →
      ∃ text ∈ signature, ∃ key bytes, crypto.base64Decode publicKey = some key ∧
        crypto.base64Decode text = some bytes ∧
        crypto.ed25519Verify key (configSigningPayload digest nodeNonce) bytes

/-! ## A key in the file -/

theorem urlSafe_not_whitespace {ch : Char} (h : (urlSafeValue ch).isSome) :
    isWhitespace ch = false := by
  have hrange : 45 ≤ ch.toNat ∧ ch.toNat ≤ 122 := by
    unfold urlSafeValue at h
    simp only [Char.le_def, UInt32.le_iff_toNat_le] at h
    change 45 ≤ ch.val.toNat ∧ ch.val.toNat ≤ 122
    split_ifs at h with h1 h2 h3 h4 h5
    · have h1' : 65 ≤ ch.val.toNat ∧ ch.val.toNat ≤ 90 := h1
      omega
    · have h2' : 97 ≤ ch.val.toNat ∧ ch.val.toNat ≤ 122 := h2
      omega
    · have h3' : 48 ≤ ch.val.toNat ∧ ch.val.toNat ≤ 57 := h3
      omega
    · subst ch
      decide
    · subst ch
      decide
    · cases h
  unfold isWhitespace
  simp only [Bool.or_eq_false_iff, Bool.and_eq_false_iff, decide_eq_false_iff_not,
    beq_eq_false_iff_ne]
  omega

theorem trim_recorded {publicKey : String} (hne : publicKey ≠ "")
    (hchars : ∀ ch ∈ publicKey.toList, isWhitespace ch = false) :
    trim (recorded publicKey) = publicKey := by
  have hdrop : ∀ cs rest : List Char, cs ≠ [] → (∀ ch ∈ cs, isWhitespace ch = false) →
      (cs ++ rest).dropWhile isWhitespace = cs ++ rest := by
    intro cs rest hcs hall
    cases cs with
    | nil => exact absurd rfl hcs
    | cons ch cs =>
        have hfirst := hall ch (List.mem_cons_self ..)
        rw [List.cons_append, List.dropWhile_cons_of_neg (by simp [hfirst])]
  have hchars_ne : publicKey.toList ≠ [] := fun h => hne (String.toList_inj.mp h)
  unfold trim recorded
  rw [String.toList_append, hdrop _ _ hchars_ne hchars, List.reverse_append]
  have hlast : ("\n".toList.reverse ++ publicKey.toList.reverse).dropWhile isWhitespace =
      publicKey.toList.reverse := by
    change ('\n' :: publicKey.toList.reverse).dropWhile isWhitespace = _
    rw [List.dropWhile_cons_of_pos (by decide)]
    have hrev := hdrop publicKey.toList.reverse [] (by simpa using hchars_ne) fun ch hch =>
      hchars ch (List.mem_reverse.mp hch)
    rwa [List.append_nil] at hrev
  rw [hlast, List.reverse_reverse, String.ofList_toList]

theorem IsControlKey.pinned {publicKey : String} (h : IsControlKey publicKey) :
    pinned (.ok (recorded publicKey)) = some publicKey := by
  have hne : publicKey ≠ "" := by
    rintro rfl
    revert h
    unfold IsControlKey
    decide
  have hchars : ∀ ch ∈ publicKey.toList, isWhitespace ch = false := by
    intro ch hch
    unfold IsControlKey decodedLen at h
    dsimp only at h
    split at h
    · rename_i hvalues
      exact urlSafe_not_whitespace (List.all_eq_true.mp hvalues.1 _ (List.mem_map_of_mem hch))
    · cases h
  unfold Pin.pinned
  dsimp only
  rw [trim_recorded hne hchars, if_neg]
  rw [String.isEmpty_iff]
  exact hne

variable {crypto}

/-- With its key pinned a node accepts nothing else. -/
theorem onlyKey_of_pinned {content : Except IoError String} {publicKey : String}
    (h : pinned content = some publicKey) : OnlyKey crypto publicKey content := by
  constructor
  · intro proof challenge hello outcome hok
    cases proof with
    | none =>
        unfold verify at hok
        dsimp only at hok
        rw [h] at hok
        cases hok
    | some p =>
        unfold verify at hok
        dsimp only at hok
        rw [h] at hok
        cases hproof : verifyProof crypto p challenge hello with
        | error e =>
            rw [hproof] at hok
            cases hok
        | ok _ =>
            rw [hproof] at hok
            change (if publicKey = p.publicKey then _ else _) = _ at hok
            split at hok
            · rename_i hkey
              exact ⟨(Except.ok.inj hok).symm, p, rfl, hkey.symm, hproof⟩
            · cases hok
  · intro digest nodeNonce signature hok
    unfold verifyConfig at hok
    rw [h] at hok
    cases signature with
    | none => cases hok
    | some text =>
        unfold decode at hok
        dsimp only at hok
        cases hkey : crypto.base64Decode publicKey with
        | none =>
            rw [hkey] at hok
            cases hok
        | some key =>
            rw [hkey] at hok
            cases hbytes : crypto.base64Decode text with
            | none =>
                rw [hbytes] at hok
                cases hok
            | some bytes =>
                rw [hbytes] at hok
                change (if crypto.ed25519Verify key (configSigningPayload digest nodeNonce) bytes
                  then _ else _) = _ at hok
                split at hok
                · rename_i hverified
                  exact ⟨text, rfl, key, bytes, rfl, hbytes, hverified⟩
                · cases hok

/-- A node that reads no pin accepts a connection without a proof. -/
theorem not_onlyKey_of_unpinned {content : Except IoError String} {publicKey : String}
    (h : pinned content = none) : ¬ OnlyKey crypto publicKey content := by
  intro honly
  obtain ⟨-, p, hp, -⟩ := honly.proof none ⟨0, "", 1⟩ ⟨0, 0, 1, none, ""⟩ .unauthenticated (by
    unfold verify
    dsimp only
    rw [h]
    rfl)
  cases hp

/-! ## Every run -/

/-- A node that has paired with the control plane of the key. -/
def paired (publicKey : String) : PinFile := ⟨recorded publicKey⟩

theorem paired_step {publicKey : String} (hkey : IsControlKey publicKey) :
    Preserved (step crypto) Readable fun s => s = paired publicKey := by
  rintro s a s' rfl hread hstep
  cases a with
  | enroll read proof challenge hello written =>
      have hcontents : read = .contents := hread
      subst read
      simp only [step] at hstep
      split at hstep
      · rename_i other hfirst
        -- Only an unpinned node takes a key for its first.
        obtain ⟨hmatched, -⟩ := (onlyKey_of_pinned hkey.pinned).proof _ _ _ _ hfirst
        cases hmatched
      · cases hstep
        rfl
  | connect read proof challenge hello =>
      cases hstep
      rfl
  | verifyConfig read digest nodeNonce signature =>
      cases hstep
      rfl

/-- **A paired node accepts only its control plane as long as it can read the pin**: in every state
of a run in which every read of the pin file succeeds, a check accepts nothing but proofs by the
recorded key and configurations signed by it exactly when its own read succeeds. -/
theorem paired_accepts_only_key_iff {publicKey : String} (hkey : IsControlKey publicKey)
    {s : PinFile} (hrun : Run (step crypto) Readable (paired publicKey) s) (read : Read) :
    OnlyKey crypto publicKey (s.read read) ↔ read = .contents := by
  have hpaired : s = paired publicKey :=
    hrun.invariant (I := fun s => s = paired publicKey) (paired_step hkey) rfl
  subst s
  cases read with
  | contents => exact iff_of_true (onlyKey_of_pinned hkey.pinned) rfl
  | failed error =>
      refine iff_of_false (not_onlyKey_of_unpinned rfl) ?_
      intro hread
      cases hread

/-- No signature verifies. -/
def noCrypto : Crypto := ⟨fun _ => none, fun _ _ _ => false⟩

/-- A connection without a proof is refused, and the pin is as before. -/
theorem paired_accepts_only_key_stripped :
    IsControlKey zeroKey ∧ OnlyKey noCrypto zeroKey ((paired zeroKey).read .contents) := by
  have hkey : IsControlKey zeroKey := by
    unfold IsControlKey
    decide
  have hrun : Run (step noCrypto) Readable (paired zeroKey) (paired zeroKey) :=
    (Run.refl _).snoc (a := .connect .contents none ⟨0, "nonce", 1⟩ (zeroHello none "")) rfl rfl
  exact ⟨hkey, (paired_accepts_only_key_iff hkey hrun .contents).mpr rfl⟩

/-- The pin file is readable for its owner alone; the process without privileges accepts a
connection with no proof, and an unsigned configuration. -/
theorem unreadable_pin_downgrades : IsControlKey zeroKey ∧
    Run (step noCrypto) anyStep (paired zeroKey) (paired zeroKey) ∧
    verify noCrypto ((paired zeroKey).read (.failed .permissionDenied)) none ⟨0, "nonce", 1⟩
      (zeroHello none "") = .ok .unauthenticated ∧
    verifyConfig noCrypto ((paired zeroKey).read (.failed .permissionDenied)) "digest" "nonce" none
      = .ok () ∧
    ¬ OnlyKey noCrypto zeroKey ((paired zeroKey).read (.failed .permissionDenied)) := by
  have hkey : IsControlKey zeroKey := by
    unfold IsControlKey
    decide
  exact ⟨hkey, .refl _, rfl, rfl, not_onlyKey_of_unpinned rfl⟩

end Sulion.Node.Pin
