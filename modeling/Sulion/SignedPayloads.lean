import Std.Data.String.ToInt
import Sulion.Lib.TextLines
import Sulion.SecretBroker

set_option autoImplicit false

/-! # What a signature is over

Control, node and broker sign texts that join fields with newlines: the handshake of a node, the
proof of control in its answer, and a request to use a secret. Which messages share their signed
text with another message that the receiver's checks let pass is a matter of the lines of that
text: free texts may hold newlines, and optional fields are appended without saying which they
are. For each of the three this module says exactly which messages own their text.
-/

namespace Sulion.SignedPayloads

open Rust TextLines

/-! ## Texts without newlines -/

theorem digitChar_injective {a b : Nat} (ha : a < 16) (hb : b < 16)
    (h : Nat.digitChar a = Nat.digitChar b) : a = b := by
  have key : ∀ a < 16, ∀ b < 16, Nat.digitChar a = Nat.digitChar b → a = b := by decide
  exact key a ha b hb h

/-- A number is its hexadecimal digits. -/
theorem eq_of_digits (n : Nat) : ∀ {a b : Nat}, a < 16 ^ n → b < 16 ^ n →
    (∀ i < n, a / 16 ^ i % 16 = b / 16 ^ i % 16) → a = b := by
  induction n with
  | zero =>
      intro a b ha hb _
      omega
  | succ n ih =>
      intro a b ha hb hdigits
      have hlow : a % 16 = b % 16 := by simpa using hdigits 0 (Nat.succ_pos n)
      have hhigh : a / 16 = b / 16 := by
        rw [Nat.pow_succ] at ha hb
        apply ih
        · exact Nat.div_lt_of_lt_mul (by rwa [Nat.mul_comm] at ha)
        · exact Nat.div_lt_of_lt_mul (by rwa [Nat.mul_comm] at hb)
        · intro i hi
          rw [Nat.div_div_eq_div_mul, Nat.div_div_eq_div_mul, ← Nat.pow_succ']
          exact hdigits (i + 1) (by omega)
      omega

/-- The digits of a UUID. -/
def uuidDigits (u : Uuid) : List Char :=
  (List.range 32).map fun i => Nat.digitChar (u.toNat / 16 ^ (31 - i) % 16)

theorem uuidDigits_injective : Function.Injective uuidDigits := by
  intro u v h
  apply BitVec.eq_of_toNat_eq
  apply eq_of_digits 32
  · exact u.isLt
  · exact v.isLt
  intro i hi
  have hget := congrArg (fun digits => digits[31 - i]?) h
  have hback : 31 - (31 - i) = i := by omega
  simp only [uuidDigits, List.getElem?_map, List.getElem?_range (by omega : 31 - i < 32),
    Option.map_some, Option.some_inj, hback] at hget
  exact digitChar_injective (Nat.mod_lt _ (by decide)) (Nat.mod_lt _ (by decide)) hget

theorem uuidText_toList (u : Uuid) :
    (uuidText u).toList =
      (uuidDigits u).take 8 ++ '-' :: (((uuidDigits u).drop 8).take 4 ++
        '-' :: (((uuidDigits u).drop 12).take 4 ++ '-' :: (((uuidDigits u).drop 16).take 4 ++
          '-' :: (((uuidDigits u).drop 20).take 12)))) := by
  unfold uuidText
  simp [uuidDigits]

theorem length_uuidDigits (u : Uuid) : (uuidDigits u).length = 32 := by simp [uuidDigits]

/-- Five segments of a list of digits, one after another. -/
theorem take_segments (digits : List Char) (hlength : digits.length = 32) :
    digits.take 8 ++ ((digits.drop 8).take 4 ++ ((digits.drop 12).take 4 ++
      ((digits.drop 16).take 4 ++ (digits.drop 20).take 12))) = digits := by
  have h20 : (digits.drop 20).take 12 = digits.drop 20 := by
    apply List.take_of_length_le
    rw [List.length_drop]
    omega
  have h16 : (digits.drop 16).take 4 ++ digits.drop 20 = digits.drop 16 := by
    have hdrop : digits.drop 20 = (digits.drop 16).drop 4 := by rw [List.drop_drop]
    rw [hdrop, List.take_append_drop]
  have h12 : (digits.drop 12).take 4 ++ digits.drop 16 = digits.drop 12 := by
    have hdrop : digits.drop 16 = (digits.drop 12).drop 4 := by rw [List.drop_drop]
    rw [hdrop, List.take_append_drop]
  have h8 : (digits.drop 8).take 4 ++ digits.drop 12 = digits.drop 8 := by
    have hdrop : digits.drop 12 = (digits.drop 8).drop 4 := by rw [List.drop_drop]
    rw [hdrop, List.take_append_drop]
  rw [h20, h16, h12, h8, List.take_append_drop]

theorem uuidText_injective : Function.Injective uuidText := by
  intro u v h
  apply uuidDigits_injective
  have hlist := congrArg String.toList h
  rw [uuidText_toList, uuidText_toList] at hlist
  have hu := length_uuidDigits u
  have hv := length_uuidDigits v
  obtain ⟨h8, hlist⟩ := List.append_inj hlist (by simp [hu, hv])
  obtain ⟨h12, hlist⟩ := List.append_inj (List.cons_inj_right _ |>.mp hlist) (by simp [hu, hv])
  obtain ⟨h16, hlist⟩ := List.append_inj (List.cons_inj_right _ |>.mp hlist) (by simp [hu, hv])
  obtain ⟨h20, hlist⟩ := List.append_inj (List.cons_inj_right _ |>.mp hlist) (by simp [hu, hv])
  have hrest := List.cons_inj_right _ |>.mp hlist
  rw [← take_segments (uuidDigits u) hu, ← take_segments (uuidDigits v) hv, h8, h12, h16, h20,
    hrest]

theorem digitChar_ne_newline (n : Nat) : Nat.digitChar n ≠ '\n' := by
  by_cases hn : n < 16
  · have key : ∀ n < 16, Nat.digitChar n ≠ '\n' := by decide
    exact key n hn
  · rw [Nat.digitChar_eq_star.mpr (by omega)]
    decide

theorem uuidText_plain (u : Uuid) : Plain (uuidText u) := by
  have hdigits : '\n' ∉ uuidDigits u := by
    intro hmem
    obtain ⟨i, -, hi⟩ := List.mem_map.mp hmem
    exact digitChar_ne_newline _ hi
  have htake (start len : Nat) : '\n' ∉ ((uuidDigits u).drop start).take len := fun hmem =>
    hdigits (List.mem_of_mem_drop (List.mem_of_mem_take hmem))
  have hfirst : '\n' ∉ (uuidDigits u).take 8 := fun hmem => hdigits (List.mem_of_mem_take hmem)
  rw [Plain, uuidText_toList]
  simp [htake, hfirst]

theorem natText_plain (n : Nat) : Plain (toString n) := by
  rw [Plain, Nat.toString_eq_repr, Nat.toList_repr]
  intro hmem
  have hdigit := Nat.isDigit_of_mem_toDigits (by decide) (by decide) hmem
  revert hdigit
  decide

theorem intText_plain (n : Int) : Plain (toString n) := by
  rw [Int.toString_eq_repr, Int.repr_eq_if]
  have hnat (n : Nat) : Plain n.repr := natText_plain n
  split
  · exact hnat _
  · have hminus := hnat (-n).toNat
    simpa [Plain] using hminus

theorem intText_injective : Function.Injective (toString : Int → String) := by
  intro a b h
  exact Int.repr_injective h

/-! ## Keys as texts -/

/-- The value of a character of the URL-safe alphabet. -/
def urlSafeValue (ch : Char) : Option Nat :=
  if 'A' ≤ ch ∧ ch ≤ 'Z' then some (ch.toNat - 'A'.toNat)
  else if 'a' ≤ ch ∧ ch ≤ 'z' then some (ch.toNat - 'a'.toNat + 26)
  else if '0' ≤ ch ∧ ch ≤ '9' then some (ch.toNat - '0'.toNat + 52)
  else if ch = '-' then some 62
  else if ch = '_' then some 63
  else none

/-- How many bytes `URL_SAFE_NO_PAD` decodes a text to, where it does: characters of the alphabet
only, no lone one in the last group of four, and no bits set behind the last byte. -/
def decodedLen (text : String) : Option Nat :=
  let values := text.toList.map urlSafeValue
  let last := (values.getLast?.bind fun value => value).getD 0
  if values.all Option.isSome ∧ values.length % 4 ≠ 1 ∧ (values.length % 4 = 2 → last % 16 = 0) ∧
      (values.length % 4 = 3 → last % 4 = 0) then
    some (values.length * 3 / 4)
  else none

theorem plain_of_decodedLen {text : String} (h : (decodedLen text).isSome) : Plain text := by
  intro hmem
  unfold decodedLen at h
  dsimp only at h
  split at h
  · next hvalues =>
      have hsome := List.all_eq_true.mp hvalues.1 _ (List.mem_map_of_mem hmem)
      revert hsome
      decide
  · cases h

/-! ## Messages -/

/-- `ControlChallenge`. -/
@[ext]
structure ControlChallenge where
  challengeId : Uuid
  nonce : String
  protocolVersion : Nat

/-- `NodeHello`, without its signature. -/
@[ext]
structure NodeHello where
  nodeId : Uuid
  bootId : Uuid
  protocolVersion : Nat
  publicKey : Option String
  nodeNonce : String

/-- `ControlHelloProof`, without its signature. -/
structure ControlHelloProof where
  publicKey : String
  tlsCertDigest : Option String

/-- `NODE_PROTOCOL_VERSION`. -/
def nodeProtocolVersion : Nat := 1

/-- `NodeHello::signing_payload`. -/
def NodeHello.signingPayload (hello : NodeHello) (challenge : ControlChallenge) : String :=
  let fields := ["sulion-node-handshake-v1", uuidText challenge.challengeId, challenge.nonce,
    toString challenge.protocolVersion, uuidText hello.nodeId, uuidText hello.bootId,
    toString hello.protocolVersion]
  let fields :=
    match hello.publicKey with
    | some publicKey => fields ++ [publicKey]
    | none => fields
  let fields := if hello.nodeNonce.isEmpty then fields else fields ++ [hello.nodeNonce]
  "\n".intercalate fields

/-- `ControlHelloProof::signing_payload`. -/
def ControlHelloProof.signingPayload (proof : ControlHelloProof) (challenge : ControlChallenge)
    (hello : NodeHello) : String :=
  let fields := ["sulion-control-handshake-v1", uuidText challenge.challengeId, challenge.nonce,
    hello.nodeNonce, uuidText hello.nodeId, uuidText hello.bootId,
    toString hello.protocolVersion, proof.publicKey]
  let fields :=
    match proof.tlsCertDigest with
    | some tlsCertDigest => fields ++ [tlsCertDigest]
    | none => fields
  "\n".intercalate fields

/-- What control checks of the form of a hello: `validate_hello`, the version of its challenge
and `decode_node_public_key`. -/
structure HelloPasses (challenge : ControlChallenge) (hello : NodeHello) : Prop where
  version : hello.protocolVersion = nodeProtocolVersion
  challenged : hello.protocolVersion = challenge.protocolVersion
  publicKey : ∀ publicKey ∈ hello.publicKey, decodedLen publicKey = some 32

/-- What a node checks of the form of a proof: the version of the challenge, and that the key
decodes. The hello is its own. -/
structure ProofPasses (challenge : ControlChallenge) (hello : NodeHello)
    (proof : ControlHelloProof) : Prop where
  challenged : challenge.protocolVersion = nodeProtocolVersion
  version : hello.protocolVersion = nodeProtocolVersion
  publicKey : (decodedLen proof.publicKey).isSome

/-- What the broker checks of the form of a request to use a secret. -/
def nonceOk (nonce : String) : Prop := ¬ (trim nonce).isEmpty ∧ nonce.utf8ByteSize ≤ 128

/-! ## Lines behind a frame -/

/-- The lines of a nonce that is only appended where it is not empty. -/
def nonceLines (nonce : String) : List String := if nonce.isEmpty then [] else lines nonce

theorem nonceLines_ne (nonce : String) : nonceLines nonce ≠ [""] := by
  unfold nonceLines
  split
  · exact (List.cons_ne_nil _ _).symm
  · next hnonce =>
      intro hlines
      have hempty : nonce = "" := by
        rw [← unlines_lines nonce, hlines]
        rfl
      exact hnonce (by rw [hempty]; rfl)

@[simp] theorem unlines_nonceLines (nonce : String) : unlines (nonceLines nonce) = nonce := by
  unfold nonceLines
  split
  · next hempty =>
      have hnonce : nonce = "" := by simpa using hempty
      rw [hnonce]
      rfl
  · exact unlines_lines nonce

theorem nonceLines_inj {a b : String} : nonceLines a = nonceLines b ↔ a = b :=
  (Function.LeftInverse.injective unlines_nonceLines).eq_iff

/-- All lines but a single empty one are those of some nonce. -/
theorem nonceLines_unlines (back : List String) (hne : back ≠ [""])
    (hplain : ∀ line ∈ back, Plain line) : nonceLines (unlines back) = back := by
  cases back with
  | nil => rfl
  | cons line rest =>
      have hlines := lines_unlines_of_plain (line :: rest) (List.cons_ne_nil _ _) hplain
      unfold nonceLines
      split
      · next hempty =>
          have htext : unlines (line :: rest) = "" := by simpa using hempty
          rw [htext] at hlines
          exact absurd hlines.symm hne
      · exact hlines

/-! ## The hello of a node -/

/-- Every hello that passes and has the signed text of this one is this one, for the same
challenge. -/
def HelloUnambiguous (challenge : ControlChallenge) (hello : NodeHello) : Prop :=
  ∀ challenge' hello', HelloPasses challenge' hello' →
    hello'.signingPayload challenge' = hello.signingPayload challenge →
    challenge' = challenge ∧ hello' = hello

/-- The lines between the nonces. -/
def helloFrame (nodeId bootId : Uuid) : List String :=
  ["1", uuidText nodeId, uuidText bootId, "1"]

@[simp] theorem length_helloFrame (nodeId bootId : Uuid) :
    (helloFrame nodeId bootId).length = 4 := rfl

def helloLayout : Layout String where
  least := 1
  size := 4
  size_pos := by decide
  frame items := ∃ nodeId bootId : Uuid, items = helloFrame nodeId bootId
  back items := items ≠ [""]
  length_of_frame := by
    rintro items ⟨nodeId, bootId, rfl⟩
    rfl

/-- The lines behind the frame: of the key, and of the node's nonce. -/
def helloBack (hello : NodeHello) : List String :=
  hello.publicKey.toList ++ nonceLines hello.nodeNonce

/-- The lines behind the challenge's id. -/
def helloBody (challenge : ControlChallenge) (hello : NodeHello) : List String :=
  lines challenge.nonce ++ helloFrame hello.nodeId hello.bootId ++ helloBack hello

/-- Lines that read as a key, with or without a nonce behind it. -/
def StartsWithKey : List String → Prop
  | [] => False
  | key :: rest => decodedLen key = some 32 ∧ rest ≠ [""]

/-- **When a hello owns its text**: it brings no key, its nonce does not start with a line that is
a key, and its frame stands at one place among its lines. -/
def HelloOwnsText (challenge : ControlChallenge) (hello : NodeHello) : Prop :=
  ¬ StartsWithKey (helloBack hello) ∧
    helloLayout.OnlyAt (helloBody challenge hello) (lines challenge.nonce).length

theorem plain_of_key {publicKey : String} (h : decodedLen publicKey = some 32) :
    Plain publicKey :=
  plain_of_decodedLen (by rw [h]; rfl)

theorem lines_version : lines (Nat.repr nodeProtocolVersion) = ["1"] :=
  lines_of_plain (natText_plain 1)

theorem lines_uuidText (u : Uuid) : lines (uuidText u) = [uuidText u] :=
  lines_of_plain (uuidText_plain u)

/-- The fields of a signed hello, the optional ones behind the others. -/
theorem helloPayload_eq (challenge : ControlChallenge) (hello : NodeHello) :
    hello.signingPayload challenge =
      unlines (["sulion-node-handshake-v1", uuidText challenge.challengeId, challenge.nonce,
        toString challenge.protocolVersion, uuidText hello.nodeId, uuidText hello.bootId,
        toString hello.protocolVersion] ++ (hello.publicKey.toList ++
          if hello.nodeNonce.isEmpty then [] else [hello.nodeNonce])) := by
  unfold NodeHello.signingPayload unlines
  cases hello.publicKey <;> cases hello.nodeNonce.isEmpty <;> rfl

/-- The lines of a signed hello. -/
theorem lines_helloPayload {challenge : ControlChallenge} {hello : NodeHello}
    (hpasses : HelloPasses challenge hello) :
    lines (hello.signingPayload challenge) =
      "sulion-node-handshake-v1" :: uuidText challenge.challengeId ::
        helloBody challenge hello := by
  have hname : lines "sulion-node-handshake-v1" = ["sulion-node-handshake-v1"] :=
    lines_of_plain (by decide)
  have hkey : hello.publicKey.toList.flatMap lines = hello.publicKey.toList := by
    apply flatMap_lines_of_plain
    intro publicKey hmem
    exact plain_of_key (hpasses.publicKey publicKey (by simpa using hmem))
  have hnonce : (if hello.nodeNonce.isEmpty then [] else [hello.nodeNonce]).flatMap lines =
      nonceLines hello.nodeNonce := by
    unfold nonceLines
    split
    · rfl
    · rw [List.flatMap_singleton]
  rw [helloPayload_eq, lines_unlines _ (by simp), List.flatMap_append, List.flatMap_append, hkey,
    hnonce, ← hpasses.challenged, hpasses.version]
  simp [hname, lines_version, lines_uuidText, helloBody, helloFrame, helloBack]

theorem helloBody_plain {challenge : ControlChallenge} {hello : NodeHello}
    (hpasses : HelloPasses challenge hello) (line : String)
    (hmem : line ∈ helloBody challenge hello) : Plain line := by
  apply plain_of_mem_lines
  rw [lines_helloPayload hpasses]
  exact List.mem_cons_of_mem _ (List.mem_cons_of_mem _ hmem)

/-- Hellos that pass share their text exactly where they share the challenge's id and the lines
behind it. -/
theorem helloPayload_eq_iff {challenge challenge' : ControlChallenge} {hello hello' : NodeHello}
    (hpasses : HelloPasses challenge hello) (hpasses' : HelloPasses challenge' hello') :
    hello'.signingPayload challenge' = hello.signingPayload challenge ↔
      challenge'.challengeId = challenge.challengeId ∧
        helloBody challenge' hello' = helloBody challenge hello := by
  rw [← lines_inj, lines_helloPayload hpasses, lines_helloPayload hpasses', List.cons_inj_right,
    List.cons_eq_cons, uuidText_injective.eq_iff]

theorem helloBody_at (challenge : ControlChallenge) {hello : NodeHello}
    (hback : helloBack hello ≠ [""]) :
    helloLayout.At (helloBody challenge hello) (lines challenge.nonce).length :=
  Layout.at_append (List.length_pos_of_ne_nil (lines_ne_nil _)) ⟨_, _, rfl⟩ hback

/-- A key is not an empty line. -/
theorem key_ne_empty {publicKey : String} (h : decodedLen publicKey = some 32) :
    publicKey ≠ "" := by
  rintro rfl
  revert h
  decide

theorem helloBack_ne {challenge : ControlChallenge} {hello : NodeHello}
    (hpasses : HelloPasses challenge hello) : helloBack hello ≠ [""] := by
  unfold helloBack
  cases hkey : hello.publicKey with
  | none => simpa using nonceLines_ne hello.nodeNonce
  | some publicKey =>
      have hempty := key_ne_empty (hpasses.publicKey publicKey hkey)
      simp [hempty]

theorem helloBack_plain {challenge : ControlChallenge} {hello : NodeHello}
    (hpasses : HelloPasses challenge hello) (line : String) (hmem : line ∈ helloBack hello) :
    Plain line :=
  helloBody_plain hpasses line (List.mem_append_right _ hmem)

/-- Where the lines behind the frame do not read as a key, the hello brings none. -/
theorem publicKey_eq_none {challenge : ControlChallenge} {hello : NodeHello}
    (hpasses : HelloPasses challenge hello) (hstarts : ¬ StartsWithKey (helloBack hello)) :
    hello.publicKey = none := by
  cases hkey : hello.publicKey with
  | none => rfl
  | some publicKey =>
      apply absurd _ hstarts
      rw [helloBack, hkey]
      exact ⟨hpasses.publicKey publicKey hkey, nonceLines_ne hello.nodeNonce⟩

theorem helloOwnsText_sound {challenge challenge' : ControlChallenge} {hello hello' : NodeHello}
    (hpasses : HelloPasses challenge hello) (hpasses' : HelloPasses challenge' hello')
    (howns : HelloOwnsText challenge hello)
    (htext : hello'.signingPayload challenge' = hello.signingPayload challenge) :
    challenge' = challenge ∧ hello' = hello := by
  obtain ⟨hstarts, honly⟩ := howns
  obtain ⟨hid, hbody⟩ := (helloPayload_eq_iff hpasses hpasses').mp htext
  have hlength : (lines challenge'.nonce).length = (lines challenge.nonce).length := by
    apply honly
    rw [← hbody]
    exact helloBody_at challenge' (helloBack_ne hpasses')
  obtain ⟨hfront, hback⟩ := List.append_inj hbody (by
    simp only [List.length_append, hlength, length_helloFrame])
  obtain ⟨hnonce, hframe⟩ := List.append_inj hfront hlength
  have hkey : hello.publicKey = none := publicKey_eq_none hpasses hstarts
  have hkey' : hello'.publicKey = none := publicKey_eq_none hpasses' (by rwa [hback])
  have hnodeNonce : hello'.nodeNonce = hello.nodeNonce := by
    rw [← nonceLines_inj]
    simpa [helloBack, hkey, hkey'] using hback
  have hids : hello'.nodeId = hello.nodeId ∧ hello'.bootId = hello.bootId := by
    simpa [helloFrame, uuidText_injective.eq_iff] using hframe
  have hversion : hello'.protocolVersion = hello.protocolVersion :=
    hpasses'.version.trans hpasses.version.symm
  constructor
  · apply ControlChallenge.ext hid (lines_inj.mp hnonce)
    rw [← hpasses'.challenged, ← hpasses.challenged, hversion]
  · exact NodeHello.ext hids.1 hids.2 hversion (hkey'.trans hkey.symm) hnodeNonce

/-- A hello without a key that has given lines behind its frame. -/
def keyless (nodeId bootId : Uuid) (back : List String) : NodeHello where
  nodeId := nodeId
  bootId := bootId
  protocolVersion := nodeProtocolVersion
  publicKey := none
  nodeNonce := unlines back

theorem helloBack_keyless (nodeId bootId : Uuid) {back : List String} (hne : back ≠ [""])
    (hplain : ∀ line ∈ back, Plain line) : helloBack (keyless nodeId bootId back) = back :=
  nonceLines_unlines back hne hplain

/-- Lines that read as a key are those of a hello with that key. -/
theorem helloBack_keyed (hello : NodeHello) {key : String} {rest : List String}
    (hne : rest ≠ [""]) (hplain : ∀ line ∈ rest, Plain line) :
    helloBack { hello with publicKey := some key, nodeNonce := unlines rest } = key :: rest :=
  congrArg (key :: ·) (nonceLines_unlines rest hne hplain)

/-- A hello whose lines behind the frame read as a key has a twin: the key is left out or read
from the nonce. -/
theorem not_startsWithKey {challenge : ControlChallenge} {hello : NodeHello}
    (hpasses : HelloPasses challenge hello)
    (hall : HelloUnambiguous challenge hello) : ¬ StartsWithKey (helloBack hello) := by
  intro hstarts
  have hplain := helloBack_plain hpasses
  have hversion := hpasses.version
  have hchallenged := hpasses.challenged
  have htwin : ∀ hello' : NodeHello, HelloPasses challenge hello' →
      hello'.nodeId = hello.nodeId → hello'.bootId = hello.bootId →
      helloBack hello' = helloBack hello → hello' = hello := by
    intro hello' hpasses' hnode hboot hback
    refine (hall challenge hello' hpasses' ?_).2
    rw [helloPayload_eq_iff hpasses hpasses', helloBody, helloBody, hnode, hboot, hback]
    exact ⟨rfl, rfl⟩
  cases hkey : hello.publicKey with
  | some publicKey =>
      have hsame := htwin (keyless hello.nodeId hello.bootId (helloBack hello))
        ⟨rfl, hversion.symm.trans hchallenged, by simp [keyless]⟩ rfl rfl
        (helloBack_keyless _ _ (helloBack_ne hpasses) hplain)
      rw [← hsame] at hkey
      cases hkey
  | none =>
      cases hback : helloBack hello with
      | nil =>
          rw [hback] at hstarts
          exact hstarts
      | cons key rest =>
          rw [hback] at hstarts hplain
          have hsame := htwin { hello with publicKey := some key, nodeNonce := unlines rest }
            ⟨hversion, hchallenged, by simpa using hstarts.1⟩ rfl rfl
            ((helloBack_keyed hello hstarts.2 fun line hmem =>
              hplain line (List.mem_cons_of_mem key hmem)).trans hback.symm)
          rw [← hsame] at hkey
          cases hkey

/-- A second frame among the lines is that of another hello with the same text. -/
theorem helloFrame_onlyAt {challenge : ControlChallenge} {hello : NodeHello}
    (hpasses : HelloPasses challenge hello)
    (hall : HelloUnambiguous challenge hello) :
    helloLayout.OnlyAt (helloBody challenge hello) (lines challenge.nonce).length := by
  intro k hat
  have hleast := hat.least
  obtain ⟨front, frame, back, hbody, hlength, ⟨nodeId, bootId, rfl⟩, hback⟩ := hat.split
  have hplain := helloBody_plain hpasses
  rw [hbody] at hplain
  have hfront : lines (unlines front) = front := by
    apply lines_unlines_of_plain
    · rintro rfl
      rw [← hlength] at hleast
      exact absurd hleast (by decide)
    · exact fun line hmem => hplain line (by simp [hmem])
  let challenge' : ControlChallenge := { challenge with nonce := unlines front }
  have hpasses' : HelloPasses challenge' (keyless nodeId bootId back) :=
    ⟨rfl, hpasses.version.symm.trans hpasses.challenged, by simp [keyless]⟩
  have htext : (keyless nodeId bootId back).signingPayload challenge' =
      hello.signingPayload challenge := by
    rw [helloPayload_eq_iff hpasses hpasses']
    refine ⟨rfl, ?_⟩
    rw [hbody, helloBody, hfront, helloBack_keyless nodeId bootId hback fun line hmem =>
      hplain line (by simp [hmem])]
    rfl
  have hsame := (hall challenge' (keyless nodeId bootId back) hpasses' htext).1
  rw [← hlength, ← hfront]
  exact congrArg (fun challenge => (lines challenge.nonce).length) hsame

/-- A hello that passes is the only one with its text exactly where it owns the text. -/
theorem helloOwnsText_iff {challenge : ControlChallenge} {hello : NodeHello}
    (hpasses : HelloPasses challenge hello) :
    HelloUnambiguous challenge hello ↔ HelloOwnsText challenge hello := by
  constructor
  · intro hall
    exact ⟨not_startsWithKey hpasses hall, helloFrame_onlyAt hpasses hall⟩
  · intro howns challenge' hello' hpasses' htext
    exact helloOwnsText_sound hpasses hpasses' howns htext

/-! ## The proof of control -/

/-- The fields a proof of control signs. -/
@[ext]
structure SignedProof where
  challengeId : Uuid
  nonce : String
  nodeNonce : String
  nodeId : Uuid
  bootId : Uuid
  protocolVersion : Nat
  publicKey : String
  tlsCertDigest : Option String

def signedProof (challenge : ControlChallenge) (hello : NodeHello) (proof : ControlHelloProof) :
    SignedProof where
  challengeId := challenge.challengeId
  nonce := challenge.nonce
  nodeNonce := hello.nodeNonce
  nodeId := hello.nodeId
  bootId := hello.bootId
  protocolVersion := hello.protocolVersion
  publicKey := proof.publicKey
  tlsCertDigest := proof.tlsCertDigest

/-- Every proof that passes and has the signed text of this one signs the same fields. -/
def ProofUnambiguous (challenge : ControlChallenge) (hello : NodeHello)
    (proof : ControlHelloProof) : Prop :=
  ∀ challenge' hello' proof', ProofPasses challenge' hello' proof' →
    proof'.signingPayload challenge' hello' = proof.signingPayload challenge hello →
    signedProof challenge' hello' proof' = signedProof challenge hello proof

/-- The lines between the nonces and the digest. -/
def controlFrame (nodeId bootId : Uuid) (publicKey : String) : List String :=
  [uuidText nodeId, uuidText bootId, "1", publicKey]

@[simp] theorem length_controlFrame (nodeId bootId : Uuid) (publicKey : String) :
    (controlFrame nodeId bootId publicKey).length = 4 := rfl

def controlLayout : Layout String where
  least := 2
  size := 4
  size_pos := by decide
  frame items := ∃ (nodeId bootId : Uuid) (publicKey : String),
    (decodedLen publicKey).isSome ∧ items = controlFrame nodeId bootId publicKey
  back _ := True
  length_of_frame := by
    rintro items ⟨nodeId, bootId, publicKey, -, rfl⟩
    rfl

/-- The lines of an optional digest. -/
def digestLines : Option String → List String
  | none => []
  | some tlsCertDigest => lines tlsCertDigest

theorem digestLines_injective : Function.Injective digestLines := by
  intro a b h
  cases a with
  | none =>
      cases b with
      | none => rfl
      | some b => exact absurd h.symm (lines_ne_nil b)
  | some a =>
      cases b with
      | none => exact absurd h (lines_ne_nil a)
      | some b => rw [lines_injective h]

/-- The digest of given lines. -/
def digestOf (back : List String) : Option String :=
  if back = [] then none else some (unlines back)

theorem digestLines_digestOf {back : List String} (hplain : ∀ line ∈ back, Plain line) :
    digestLines (digestOf back) = back := by
  unfold digestOf
  split
  · next hnil => exact hnil.symm
  · next hne => exact lines_unlines_of_plain back hne hplain

/-- The lines behind the challenge's id. -/
def controlBody (challenge : ControlChallenge) (hello : NodeHello) (proof : ControlHelloProof) :
    List String :=
  lines challenge.nonce ++ lines hello.nodeNonce ++
    controlFrame hello.nodeId hello.bootId proof.publicKey ++ digestLines proof.tlsCertDigest

/-- **When a proof of control owns its text**: both nonces are single lines, and the frame behind
them stands nowhere else among the lines. -/
def ProofOwnsText (challenge : ControlChallenge) (hello : NodeHello) (proof : ControlHelloProof) :
    Prop :=
  Plain challenge.nonce ∧ Plain hello.nodeNonce ∧
    controlLayout.OnlyAt (controlBody challenge hello proof) 2

theorem proofPayload_eq (challenge : ControlChallenge) (hello : NodeHello)
    (proof : ControlHelloProof) :
    proof.signingPayload challenge hello =
      unlines (["sulion-control-handshake-v1", uuidText challenge.challengeId, challenge.nonce,
        hello.nodeNonce, uuidText hello.nodeId, uuidText hello.bootId,
        toString hello.protocolVersion, proof.publicKey] ++ proof.tlsCertDigest.toList) := by
  unfold ControlHelloProof.signingPayload unlines
  cases proof.tlsCertDigest <;> rfl

theorem lines_proofPayload {challenge : ControlChallenge} {hello : NodeHello}
    {proof : ControlHelloProof} (hpasses : ProofPasses challenge hello proof) :
    lines (proof.signingPayload challenge hello) =
      "sulion-control-handshake-v1" :: uuidText challenge.challengeId ::
        controlBody challenge hello proof := by
  have hname : lines "sulion-control-handshake-v1" = ["sulion-control-handshake-v1"] :=
    lines_of_plain (by decide)
  have hkey : lines proof.publicKey = [proof.publicKey] :=
    lines_of_plain (plain_of_decodedLen hpasses.publicKey)
  have hdigest : proof.tlsCertDigest.toList.flatMap lines = digestLines proof.tlsCertDigest := by
    cases proof.tlsCertDigest with
    | none => rfl
    | some tlsCertDigest => exact List.flatMap_singleton _ _
  rw [proofPayload_eq, lines_unlines _ (by simp), List.flatMap_append, hdigest, hpasses.version]
  simp [hname, lines_version, lines_uuidText, hkey, controlBody, controlFrame]

theorem proofPayload_eq_iff {challenge challenge' : ControlChallenge} {hello hello' : NodeHello}
    {proof proof' : ControlHelloProof} (hpasses : ProofPasses challenge hello proof)
    (hpasses' : ProofPasses challenge' hello' proof') :
    proof'.signingPayload challenge' hello' = proof.signingPayload challenge hello ↔
      challenge'.challengeId = challenge.challengeId ∧
        controlBody challenge' hello' proof' = controlBody challenge hello proof := by
  rw [← lines_inj, lines_proofPayload hpasses, lines_proofPayload hpasses', List.cons_inj_right,
    List.cons_eq_cons, uuidText_injective.eq_iff]

theorem controlBody_plain {challenge : ControlChallenge} {hello : NodeHello}
    {proof : ControlHelloProof} (hpasses : ProofPasses challenge hello proof) (line : String)
    (hmem : line ∈ controlBody challenge hello proof) : Plain line := by
  apply plain_of_mem_lines
  rw [lines_proofPayload hpasses]
  exact List.mem_cons_of_mem _ (List.mem_cons_of_mem _ hmem)

theorem controlBody_at {challenge : ControlChallenge} {hello : NodeHello}
    {proof : ControlHelloProof} (hpasses : ProofPasses challenge hello proof) :
    controlLayout.At (controlBody challenge hello proof)
      (lines challenge.nonce ++ lines hello.nodeNonce).length := by
  apply Layout.at_append
  · have hnonce := List.length_pos_of_ne_nil (lines_ne_nil challenge.nonce)
    have hnodeNonce := List.length_pos_of_ne_nil (lines_ne_nil hello.nodeNonce)
    rw [List.length_append]
    show 2 ≤ _
    omega
  · exact ⟨_, _, _, hpasses.publicKey, rfl⟩
  · trivial

theorem proofOwnsText_sound {challenge challenge' : ControlChallenge} {hello hello' : NodeHello}
    {proof proof' : ControlHelloProof} (hpasses : ProofPasses challenge hello proof)
    (hpasses' : ProofPasses challenge' hello' proof')
    (howns : ProofOwnsText challenge hello proof)
    (htext : proof'.signingPayload challenge' hello' = proof.signingPayload challenge hello) :
    signedProof challenge' hello' proof' = signedProof challenge hello proof := by
  obtain ⟨hnonce, hnodeNonce, honly⟩ := howns
  obtain ⟨hid, hbody⟩ := (proofPayload_eq_iff hpasses hpasses').mp htext
  have htwo : (lines challenge'.nonce ++ lines hello'.nodeNonce).length = 2 := by
    apply honly
    rw [← hbody]
    exact controlBody_at hpasses'
  rw [controlBody, controlBody, lines_of_plain hnonce, lines_of_plain hnodeNonce] at hbody
  obtain ⟨hfront, hback⟩ := List.append_inj hbody (by
    rw [List.length_append, htwo, List.length_append, length_controlFrame, length_controlFrame]
    rfl)
  obtain ⟨hnonces, hframe⟩ := List.append_inj hfront htwo
  have hone : (lines challenge'.nonce).length = 1 := by
    have hpos := List.length_pos_of_ne_nil (lines_ne_nil challenge'.nonce)
    have hpos' := List.length_pos_of_ne_nil (lines_ne_nil hello'.nodeNonce)
    rw [List.length_append] at htwo
    omega
  obtain ⟨hfirst, hsecond⟩ := List.append_inj hnonces hone
  have hids : hello'.nodeId = hello.nodeId ∧ hello'.bootId = hello.bootId ∧
      proof'.publicKey = proof.publicKey := by
    simpa [controlFrame, uuidText_injective.eq_iff] using hframe
  apply SignedProof.ext hid
  · exact lines_inj.mp (hfirst.trans (lines_of_plain hnonce).symm)
  · exact lines_inj.mp (hsecond.trans (lines_of_plain hnodeNonce).symm)
  · exact hids.1
  · exact hids.2.1
  · exact hpasses'.version.trans hpasses.version.symm
  · exact hids.2.2
  · exact digestLines_injective hback

/-- Any reading of the lines as nonces, frame and digest is a proof with the same text. -/
theorem nonces_eq_of_reading {challenge : ControlChallenge} {hello : NodeHello}
    {proof : ControlHelloProof} (hpasses : ProofPasses challenge hello proof)
    (hall : ProofUnambiguous challenge hello proof)
    {first rest frame back : List String} (hfirst : first ≠ []) (hrest : rest ≠ [])
    (hframe : controlLayout.frame frame)
    (hbody : controlBody challenge hello proof = first ++ rest ++ frame ++ back) :
    challenge.nonce = unlines first ∧ hello.nodeNonce = unlines rest := by
  obtain ⟨nodeId, bootId, publicKey, hkey, rfl⟩ := hframe
  have hplain := controlBody_plain hpasses
  rw [hbody] at hplain
  let challenge' : ControlChallenge :=
    { challenge with nonce := unlines first, protocolVersion := nodeProtocolVersion }
  let hello' : NodeHello := ⟨nodeId, bootId, nodeProtocolVersion, none, unlines rest⟩
  let proof' : ControlHelloProof := ⟨publicKey, digestOf back⟩
  have hpasses' : ProofPasses challenge' hello' proof' := ⟨rfl, rfl, hkey⟩
  have htext : proof'.signingPayload challenge' hello' =
      proof.signingPayload challenge hello := by
    rw [proofPayload_eq_iff hpasses hpasses']
    refine ⟨rfl, ?_⟩
    rw [hbody, controlBody]
    show lines (unlines first) ++ lines (unlines rest) ++ controlFrame nodeId bootId publicKey ++
      digestLines (digestOf back) = _
    rw [lines_unlines_of_plain first hfirst fun line hmem => hplain line (by simp [hmem]),
      lines_unlines_of_plain rest hrest fun line hmem => hplain line (by simp [hmem]),
      digestLines_digestOf fun line hmem => hplain line (by simp [hmem])]
  have hsame := hall challenge' hello' proof' hpasses' htext
  exact ⟨(congrArg SignedProof.nonce hsame).symm, (congrArg SignedProof.nodeNonce hsame).symm⟩

theorem proofOwnsText_complete {challenge : ControlChallenge} {hello : NodeHello}
    {proof : ControlHelloProof} (hpasses : ProofPasses challenge hello proof)
    (hall : ProofUnambiguous challenge hello proof) :
    ProofOwnsText challenge hello proof := by
  have hframe : controlLayout.frame
      (controlFrame hello.nodeId hello.bootId proof.publicKey) :=
    ⟨_, _, _, hpasses.publicKey, rfl⟩
  have hnonce : Plain challenge.nonce := by
    cases hlines : lines challenge.nonce with
    | nil => exact absurd hlines (lines_ne_nil _)
    | cons line more =>
        have hbody :
            controlBody challenge hello proof = [line] ++ (more ++ lines hello.nodeNonce) ++
            controlFrame hello.nodeId hello.bootId proof.publicKey ++
              digestLines proof.tlsCertDigest := by
          rw [controlBody, hlines]
          simp
        have hfirst : challenge.nonce = unlines [line] :=
          (nonces_eq_of_reading hpasses hall (List.cons_ne_nil line [])
            (List.append_ne_nil_of_right_ne_nil more (lines_ne_nil _)) hframe hbody).1
        rw [hfirst, unlines_singleton]
        exact plain_of_mem_lines (by rw [hlines]; exact List.mem_cons_self)
  have hnodeNonce : Plain hello.nodeNonce := by
    rcases List.eq_nil_or_concat' (lines hello.nodeNonce) with hlines | ⟨more, line, hlines⟩
    · exact absurd hlines (lines_ne_nil _)
    · have hbody : controlBody challenge hello proof = (lines challenge.nonce ++ more) ++ [line] ++
          controlFrame hello.nodeId hello.bootId proof.publicKey ++
            digestLines proof.tlsCertDigest := by
        rw [controlBody, hlines]
        simp
      have hlast : hello.nodeNonce = unlines [line] :=
        (nonces_eq_of_reading hpasses hall
          (List.append_ne_nil_of_left_ne_nil (lines_ne_nil challenge.nonce) more)
          (List.cons_ne_nil line []) hframe hbody).2
      rw [hlast, unlines_singleton]
      exact plain_of_mem_lines (by rw [hlines]; simp)
  refine ⟨hnonce, hnodeNonce, ?_⟩
  intro k hat
  have hleast : 2 ≤ k := hat.least
  obtain ⟨front, frame, back, hbody, hlength, hframe', -⟩ := hat.split
  cases front with
  | nil => exact absurd hlength (by simp; omega)
  | cons line more =>
      have hmore : more ≠ [] := by
        rintro rfl
        rw [← hlength, List.length_singleton] at hleast
        omega
      obtain ⟨hfirst, hrest⟩ := nonces_eq_of_reading hpasses hall (List.cons_ne_nil line [])
        hmore hframe' hbody
      have hplain : ∀ line ∈ more, Plain line := fun line hmem =>
        controlBody_plain hpasses line (by rw [hbody]; simp [hmem])
      have hone : more.length = 1 := by
        rw [← lines_unlines_of_plain more hmore hplain, ← hrest]
        exact (plain_iff_length _).mp hnodeNonce
      rw [← hlength, List.length_cons, hone]

/-! ## The request to use a secret -/

open SecretBroker

/-- The fields a request signs. -/
def signedUse (body : SignedUseSecretRequest) : Uuid × String × Int × String :=
  (body.ptySessionId, body.program, body.timestampUnixSeconds, body.nonce)

/-- The other packages, with UUIDs printed as they are. -/
def printing (crypto : Crypto) : Crypto := { crypto with uuidText := uuidText }

/-- Every request that passes and has the signed text of this one signs the same fields. -/
def UseUnambiguous (crypto : Crypto) (body : SignedUseSecretRequest) : Prop :=
  ∀ body' : SignedUseSecretRequest, nonceOk body'.nonce →
    canonicalUsePayload (printing crypto) body' = canonicalUsePayload (printing crypto) body →
    signedUse body' = signedUse body

def useLayout : Layout String where
  least := 1
  size := 1
  size_pos := by decide
  frame items := ∃ timestamp : Int, (i64Min ≤ timestamp ∧ timestamp ≤ i64Max) ∧
    items = [toString timestamp]
  back items := items ≠ [] ∧ nonceOk (unlines items)
  length_of_frame := by
    rintro items ⟨timestamp, -, rfl⟩
    rfl

/-- The lines between the session's id and the last newline. -/
def useBody (body : SignedUseSecretRequest) : List String :=
  lines body.program ++ [toString body.timestampUnixSeconds] ++ lines body.nonce

/-- **When a request owns its text**: no other line behind its first reads as a timestamp with a
nonce behind it. -/
def UseOwnsText (body : SignedUseSecretRequest) : Prop :=
  useLayout.OnlyAt (useBody body) (lines body.program).length

theorem usePayload_eq (crypto : Crypto) (body : SignedUseSecretRequest) :
    canonicalUsePayload (printing crypto) body =
      unlines ["sulion-secret-use-v2", uuidText body.ptySessionId, body.program,
        toString body.timestampUnixSeconds, body.nonce, ""] := by
  have hname : "sulion-secret-use-v2\n" = "sulion-secret-use-v2" ++ "\n" := by decide
  have hjoin (name pty program timestamp nonce : String) :
      name ++ "\n" ++ pty ++ "\n" ++ program ++ "\n" ++ timestamp ++ "\n" ++ nonce ++ "\n" =
        unlines [name, pty, program, timestamp, nonce, ""] := by
    simp only [unlines, String.intercalate_cons_cons, String.intercalate_singleton,
      String.append_assoc, String.append_empty]
  rw [← hjoin]
  exact congrArg (fun name => name ++ uuidText body.ptySessionId ++ "\n" ++ body.program ++ "\n" ++
    toString body.timestampUnixSeconds ++ "\n" ++ body.nonce ++ "\n") hname

theorem lines_usePayload (crypto : Crypto) (body : SignedUseSecretRequest) :
    lines (canonicalUsePayload (printing crypto) body) =
      "sulion-secret-use-v2" :: uuidText body.ptySessionId :: (useBody body ++ [""]) := by
  have hname : lines "sulion-secret-use-v2" = ["sulion-secret-use-v2"] :=
    lines_of_plain (by decide)
  have hlast : lines "" = [""] := lines_of_plain (by decide)
  have htimestamp : lines (Int.repr body.timestampUnixSeconds) =
      [Int.repr body.timestampUnixSeconds] := lines_of_plain (intText_plain _)
  rw [usePayload_eq, lines_unlines _ (by simp)]
  simp [hname, hlast, htimestamp, lines_uuidText, useBody]

theorem usePayload_eq_iff (crypto : Crypto) (body body' : SignedUseSecretRequest) :
    canonicalUsePayload (printing crypto) body' = canonicalUsePayload (printing crypto) body ↔
      body'.ptySessionId = body.ptySessionId ∧ useBody body' = useBody body := by
  rw [← lines_inj, lines_usePayload, lines_usePayload, List.cons_inj_right, List.cons_eq_cons,
    uuidText_injective.eq_iff, List.append_left_inj]

theorem useBody_plain (crypto : Crypto) (body : SignedUseSecretRequest) (line : String)
    (hmem : line ∈ useBody body) : Plain line := by
  apply plain_of_mem_lines
  rw [lines_usePayload crypto]
  exact List.mem_cons_of_mem _ (List.mem_cons_of_mem _ (List.mem_append_left _ hmem))

theorem useBody_at {body : SignedUseSecretRequest} (hnonce : nonceOk body.nonce) :
    useLayout.At (useBody body) (lines body.program).length :=
  Layout.at_append (List.length_pos_of_ne_nil (lines_ne_nil _)) ⟨_, body.isI64, rfl⟩
    ⟨lines_ne_nil _, by rwa [unlines_lines]⟩

/-- A request that passes is the only one with its text exactly where it owns the text. -/
theorem useOwnsText_iff (crypto : Crypto) (body : SignedUseSecretRequest) :
    UseUnambiguous crypto body ↔ UseOwnsText body := by
  constructor
  · intro hall k hat
    have hleast : 1 ≤ k := hat.least
    obtain ⟨front, frame, back, hbody, hlength, ⟨timestamp, hi64, rfl⟩, hne, hnonce⟩ := hat.split
    have hplain := useBody_plain crypto body
    rw [hbody] at hplain
    have hfront : lines (unlines front) = front := by
      apply lines_unlines_of_plain
      · rintro rfl
        rw [← hlength, List.length_nil] at hleast
        omega
      · exact fun line hmem => hplain line (by simp [hmem])
    have hback : lines (unlines back) = back :=
      lines_unlines_of_plain back hne fun line hmem => hplain line (by simp [hmem])
    let body' : SignedUseSecretRequest :=
      ⟨body.ptySessionId, unlines front, timestamp, unlines back, "", hi64⟩
    have htext : canonicalUsePayload (printing crypto) body' =
        canonicalUsePayload (printing crypto) body := by
      rw [usePayload_eq_iff]
      refine ⟨rfl, ?_⟩
      show lines (unlines front) ++ [toString timestamp] ++ lines (unlines back) = _
      rw [hfront, hback, hbody]
    have hprogram : unlines front = body.program :=
      congrArg (fun fields => fields.2.1) (hall body' hnonce htext)
    rw [← hprogram, hfront, hlength]
  · intro honly body' hnonce htext
    obtain ⟨hpty, hbody⟩ := (usePayload_eq_iff crypto body body').mp htext
    have hlength : (lines body'.program).length = (lines body.program).length := by
      apply honly
      rw [← hbody]
      exact useBody_at hnonce
    obtain ⟨hfront, hback⟩ := List.append_inj hbody (by
      rw [List.length_append, List.length_append, hlength, List.length_singleton,
        List.length_singleton])
    obtain ⟨hprogram, htimestamp⟩ := List.append_inj hfront hlength
    have hprogram' := lines_inj.mp hprogram
    have htimestamp' := intText_injective (List.singleton_inj.mp htimestamp)
    have hnonce' := lines_inj.mp hback
    rw [signedUse, signedUse, hpty, hprogram', htimestamp', hnonce']

/-! ## The three texts -/

/-- **Which messages own their signed text.** A hello, a proof of control and a request that pass
the receiver's checks are the only such messages with their signed text exactly where they own it:
a hello that brings no key, whose nonce does not start with one and whose frame stands at one
place; a proof with nonces of a single line and no second frame; a request with no second
timestamp among its lines. -/
theorem signed_text_unambiguous_iff (crypto : Crypto) (challenge : ControlChallenge)
    (hello : NodeHello) (proof : ControlHelloProof) (body : SignedUseSecretRequest) :
    (HelloPasses challenge hello →
      (HelloUnambiguous challenge hello ↔ HelloOwnsText challenge hello)) ∧
    (ProofPasses challenge hello proof →
      (ProofUnambiguous challenge hello proof ↔ ProofOwnsText challenge hello proof)) ∧
    (nonceOk body.nonce → (UseUnambiguous crypto body ↔ UseOwnsText body)) := by
  refine ⟨?_, ?_, ?_⟩
  · intro hpasses
    exact helloOwnsText_iff hpasses
  · intro hpasses
    constructor
    · exact proofOwnsText_complete hpasses
    · intro howns challenge' hello' proof' hpasses' htext
      exact proofOwnsText_sound hpasses hpasses' howns htext
  · intro _
    exact useOwnsText_iff crypto body

/-- A request with a nonce of one word. -/
def ghRequest : SignedUseSecretRequest where
  ptySessionId := 0
  program := "gh"
  timestampUnixSeconds := 100
  nonce := "n"
  signature := ""
  isI64 := by decide

theorem useBody_ghRequest : useBody ghRequest = ["gh", "100", "n"] := by
  have hprogram : lines "gh" = ["gh"] := lines_of_plain (by decide)
  have hnonce : lines "n" = ["n"] := lines_of_plain (by decide)
  show lines "gh" ++ [toString (100 : Int)] ++ lines "n" = _
  rw [hprogram, hnonce]
  decide

theorem ghRequest_owns_text : UseOwnsText ghRequest := by
  have hlength : (lines ghRequest.program).length = 1 :=
    (plain_iff_length ghRequest.program).mp (by decide)
  intro k hat
  rw [hlength]
  obtain ⟨hleast, hframe, hback⟩ := hat
  rw [useBody_ghRequest] at hframe hback
  have hsize := useLayout.length_of_frame _ hframe
  rw [List.length_take, List.length_drop] at hsize
  have hdrop := List.length_pos_of_ne_nil hback.1
  rw [List.length_drop] at hdrop
  simp only [useLayout, List.length_cons, List.length_nil] at hleast hsize hdrop
  omega

/-- Packages that decode and verify nothing. -/
def noCrypto : Crypto where
  uuidText := uuidText
  base64Decode _ := none
  ed25519Verify _ _ _ := false

theorem ghRequest_unambiguous : UseUnambiguous noCrypto ghRequest :=
  ((signed_text_unambiguous_iff noCrypto ⟨0, "nonce", 1⟩ ⟨1, 2, 1, none, ""⟩ ⟨"", none⟩
    ghRequest).2.2 ⟨by decide, by decide⟩).mpr ghRequest_owns_text

/-- The text of a key of zeros. -/
def zeroKey : String := "AAAAAAAAAAAAAAAAAAAAAAAAAAAAAAAAAAAAAAAAAAA"

/-- A hello that brings this key, or the same text as its nonce. -/
def zeroHello (publicKey : Option String) (nodeNonce : String) : NodeHello where
  nodeId := 1
  bootId := 2
  protocolVersion := 1
  publicKey := publicKey
  nodeNonce := nodeNonce

/-- A hello with a key and one with the key as its nonce have one signed text. -/
theorem key_reads_as_nonce :
    ¬ ∀ challenge hello challenge' hello', HelloPasses challenge hello →
        HelloPasses challenge' hello' →
        hello'.signingPayload challenge' = hello.signingPayload challenge →
        challenge' = challenge ∧ hello' = hello := by
  intro hall
  have hkey : decodedLen zeroKey = some 32 := by decide
  have hsame := (hall ⟨0, "nonce", 1⟩ (zeroHello (some zeroKey) "") ⟨0, "nonce", 1⟩
    (zeroHello none zeroKey) ⟨rfl, rfl, by simpa [zeroHello] using hkey⟩
    ⟨rfl, rfl, by simp [zeroHello]⟩ rfl).2
  cases hsame

end Sulion.SignedPayloads
