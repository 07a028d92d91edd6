import Sulion.Lib.Totals
import Sulion.Lib.Interleaving
import Sulion.Rust.Json

set_option autoImplicit false

/-! # Fragments of the node protocol

`fragment_envelope` and `FragmentAssembler` of `node_protocol/model.rs`. An envelope that is too
large for one frame is cut into fragments under its message id; the assembler keeps a group of
parts for each incomplete message and a budget of bytes for all of them. The encodings, of an
envelope and of a fragment's payload as JSON and of a fragment's bytes as base64, are the fields of
`Codec`.
-/

namespace Sulion.Node.Fragments

open Rust Interleaving

def nodeProtocolVersion : Nat := 1

/-- `MAX_REASSEMBLED_MESSAGE_BYTES`. -/
def maxReassembledMessageBytes : Nat := 96 * 1024 * 1024

/-- `FRAGMENT_DATA_BYTES`. -/
def fragmentDataBytes : Nat := 180 * 1024

/-- `MAX_FRAGMENT_GROUPS`. -/
def maxFragmentGroups : Nat := 16

/-- `MAX_FRAGMENTS_PER_MESSAGE`. -/
def maxFragmentsPerMessage : Nat := 1024

structure WireEnvelope where
  protocolVersion : Nat
  nodeId : Uuid
  bootId : Uuid
  messageId : Uuid
  messageKind : String
  requestId : Option Uuid
  sessionId : Option Uuid
  streamId : Option Uuid
  sequence : Option Nat
  payload : Json

/-- `WireEnvelope::new`, with the message id that it draws. -/
def WireEnvelope.new (nodeId bootId messageId : Uuid) (messageKind : String) : WireEnvelope :=
  { protocolVersion := nodeProtocolVersion, nodeId := nodeId, bootId := bootId,
    messageId := messageId, messageKind := messageKind, requestId := none, sessionId := none,
    streamId := none, sequence := none, payload := .obj [] }

structure FragmentPayload where
  index : Nat
  total : Nat
  data : String
  deriving DecidableEq, Repr

structure Codec where
  /-- `serde_json::to_vec`. -/
  toVec : WireEnvelope → Except String (List UInt8)
  fromSlice : List UInt8 → Except String WireEnvelope
  toValue : FragmentPayload → Except String Json
  fromValue : Json → Except String FragmentPayload
  /-- The base64 engine. -/
  encode : List UInt8 → String
  decode : String → Except String (List UInt8)

/-- The encodings round-trip. -/
structure Codec.RoundTrips (codec : Codec) : Prop where
  envelope : ∀ e bytes, codec.toVec e = .ok bytes → codec.fromSlice bytes = .ok e
  payload : ∀ p value, codec.toValue p = .ok value → codec.fromValue value = .ok p
  base64 : ∀ bytes, codec.decode (codec.encode bytes) = .ok bytes

/-! ## Cutting -/

/-- `[T]::chunks`. -/
def chunks {α : Type} (size : Nat) (items : List α) : List (List α) :=
  (List.range ((items.length + size - 1) / size)).map fun i => (items.drop (i * size)).take size

def fragment (codec : Codec) (e : WireEnvelope) (total : Nat) (piece : List UInt8 × Nat) :
    Except String WireEnvelope := do
  let payload ← codec.toValue
    { index := piece.2, total := total, data := codec.encode piece.1 }
  return { WireEnvelope.new e.nodeId e.bootId e.messageId "protocol.fragment" with
    sequence := some piece.2, payload := payload }

def fragmentEnvelope (codec : Codec) (e : WireEnvelope) : Except String (List WireEnvelope) := do
  let serialized ← codec.toVec e
  if serialized.length ≤ fragmentDataBytes then
    return [e]
  if serialized.length > maxReassembledMessageBytes then
    throw "node protocol message exceeds reassembly limit"
  let total := (serialized.length + fragmentDataBytes - 1) / fragmentDataBytes
  if total > maxFragmentsPerMessage then
    throw "node protocol message requires too many fragments"
  (chunks fragmentDataBytes serialized).zipIdx.mapM (fragment codec e total)

/-! ## Assembling -/

@[ext] structure FragmentGroup where
  nodeId : Uuid
  bootId : Uuid
  total : Nat
  parts : List (Option (List UInt8))
  bytes : Nat
  deriving DecidableEq, Repr

/-- The total length of the stored parts. -/
def FragmentGroup.stored (group : FragmentGroup) : Nat :=
  (group.parts.map fun part => (part.getD []).length).sum

structure FragmentGroup.WellFormed (group : FragmentGroup) : Prop where
  bytes : group.bytes = group.stored
  total : group.parts.length = group.total

structure FragmentAssembler where
  groups : Table Uuid FragmentGroup
  bytes : Nat

namespace FragmentAssembler

/-- `FragmentAssembler::default`. -/
def new : FragmentAssembler := ⟨∅, 0⟩

def freshGroup (envelope : WireEnvelope) (payload : FragmentPayload) : FragmentGroup :=
  { nodeId := envelope.nodeId, bootId := envelope.bootId, total := payload.total,
    parts := List.replicate payload.total none, bytes := 0 }

/-- The group is complete and leaves the assembler as the message it carries. -/
def complete (codec : Codec) (a : FragmentAssembler) (id : Uuid) (group : FragmentGroup) :
    FragmentAssembler × Except String (Option WireEnvelope) :=
  let serialized := group.parts.flatMap fun part => part.getD []
  (⟨a.groups.erase id, a.bytes - group.bytes⟩, (codec.fromSlice serialized).map some)

/-- A part for a group of the assembler. -/
def store (codec : Codec) (a : FragmentAssembler) (id : Uuid) (group : FragmentGroup)
    (index : Nat) (data : List UInt8) :
    FragmentAssembler × Except String (Option WireEnvelope) :=
  let finish (a : FragmentAssembler) (group : FragmentGroup) :=
    if group.parts.any Option.isNone then (a, .ok none) else a.complete codec id group
  if group.parts[index]?.join.isNone then
    if a.bytes + data.length > maxReassembledMessageBytes then
      (⟨a.groups.erase id, a.bytes - group.bytes⟩,
        .error "incomplete node protocol messages exceed aggregate limit")
    else
      let group' := { group with
        bytes := group.bytes + data.length, parts := group.parts.set index (some data) }
      finish ⟨a.groups.insert id group', a.bytes + data.length⟩ group'
  else finish a group

def push (codec : Codec) (a : FragmentAssembler) (envelope : WireEnvelope) :
    FragmentAssembler × Except String (Option WireEnvelope) :=
  if envelope.messageKind ≠ "protocol.fragment" then (a, .ok (some envelope))
  else
    match codec.fromValue envelope.payload with
    | .error err => (a, .error err)
    | .ok payload =>
        if payload.total = 0 ∨ payload.total > maxFragmentsPerMessage ∨
            payload.index ≥ payload.total then
          (a, .error "invalid node protocol fragment index")
        else
          match codec.decode payload.data with
          | .error err => (a, .error ("invalid node protocol fragment: " ++ err))
          | .ok data =>
              if data.length > fragmentDataBytes then
                (a, .error "node protocol fragment exceeds chunk limit")
              else if a.groups[envelope.messageId]? = none ∧ a.groups.size ≥ maxFragmentGroups then
                (a, .error "too many incomplete node protocol messages")
              else
                let group := a.groups[envelope.messageId]?.getD (freshGroup envelope payload)
                let entered : FragmentAssembler :=
                  ⟨a.groups.insert envelope.messageId group, a.bytes⟩
                if group.nodeId ≠ envelope.nodeId ∨ group.bootId ≠ envelope.bootId ∨
                    group.total ≠ payload.total then
                  (entered, .error "node protocol fragment group changed identity")
                else entered.store codec envelope.messageId group payload.index data

/-- The envelopes are pushed one after the other; the results are in their order. -/
def pushAll (codec : Codec) (a : FragmentAssembler) :
    List WireEnvelope → FragmentAssembler × List (Except String (Option WireEnvelope))
  | [] => (a, [])
  | envelope :: rest =>
      let (a', result) := a.push codec envelope
      let (a'', results) := pushAll codec a' rest
      (a'', result :: results)

/-! ## The budget -/

/-- **The byte counter is that of the stored parts**, and within the limits. -/
structure WithinBudget (a : FragmentAssembler) : Prop where
  counter : a.bytes = Table.total FragmentGroup.stored a.groups
  bytes : a.bytes ≤ maxReassembledMessageBytes
  groups : a.groups.size ≤ maxFragmentGroups

/-- Besides, every group knows the bytes and the number of its parts. -/
structure Sound (a : FragmentAssembler) : Prop extends WithinBudget a where
  row : ∀ (id : Uuid) (group : FragmentGroup), a.groups[id]? = some group → group.WellFormed

variable {codec : Codec} {a a' : FragmentAssembler} {id : Uuid} {group group' : FragmentGroup}

theorem Sound.new : Sound new := by
  refine ⟨⟨?_, Nat.zero_le _, ?_⟩, fun id group h => ?_⟩
  · simp [FragmentAssembler.new]
  · simp [FragmentAssembler.new]
  · simp [FragmentAssembler.new] at h

theorem freshGroup_wellFormed (envelope : WireEnvelope) (payload : FragmentPayload) :
    (freshGroup envelope payload).WellFormed := by
  refine ⟨?_, ?_⟩
  · simp [freshGroup, FragmentGroup.stored]
  · simp [freshGroup]

/-- A group takes the place of the one under its id. -/
theorem Sound.replace (h : a.Sound) (hrow : a.groups[id]? = some group)
    (hgroup' : group'.WellFormed)
    {bytes : Nat} (hbytes : bytes + group.bytes = a.bytes + group'.bytes)
    (hlimit : bytes ≤ maxReassembledMessageBytes) :
    Sound ⟨a.groups.insert id group', bytes⟩ := by
  refine ⟨⟨?_, hlimit, ?_⟩, fun id' g hg => ?_⟩
  · show bytes = Table.total FragmentGroup.stored (a.groups.insert id group')
    have htotal := Table.total_insert_add FragmentGroup.stored hrow group'
    have hcounter := h.counter
    rw [(h.row id group hrow).bytes, hgroup'.bytes] at hbytes
    omega
  · have hmem : id ∈ a.groups := by simp [Std.ExtTreeMap.mem_iff_isSome_getElem?, hrow]
    show (a.groups.insert id group').size ≤ _
    rw [Std.ExtTreeMap.size_insert, if_pos (by simpa using hmem)]
    exact h.groups
  · rw [Table.lookup_insert] at hg
    split at hg
    · cases hg
      exact hgroup'
    · exact h.row id' g hg

/-- A group without parts enters while there is room for it. -/
theorem Sound.enter (h : a.Sound) (hrow : a.groups[id]? = none) (hgroup : group.WellFormed)
    (hempty : group.bytes = 0) (hroom : a.groups.size < maxFragmentGroups) :
    Sound ⟨a.groups.insert id group, a.bytes⟩ := by
  refine ⟨⟨?_, h.bytes, ?_⟩, fun id' g hg => ?_⟩
  · show a.bytes = Table.total FragmentGroup.stored (a.groups.insert id group)
    rw [Table.total_insert _ hrow, ← hgroup.bytes, hempty, Nat.zero_add]
    exact h.counter
  · exact Std.ExtTreeMap.size_insert_le.trans hroom
  · rw [Table.lookup_insert] at hg
    split at hg
    · cases hg
      exact hgroup
    · exact h.row id' g hg

/-- A group leaves with its bytes. -/
theorem Sound.erase (h : a.Sound) (hrow : a.groups[id]? = some group) :
    Sound ⟨a.groups.erase id, a.bytes - group.bytes⟩ := by
  refine ⟨⟨?_, (Nat.sub_le _ _).trans h.bytes, ?_⟩, fun id' g hg => ?_⟩
  · show a.bytes - group.bytes = Table.total FragmentGroup.stored (a.groups.erase id)
    rw [h.counter, Table.total_eq_add_erase FragmentGroup.stored hrow, (h.row id group hrow).bytes,
      Nat.add_sub_cancel_left]
  · exact Std.ExtTreeMap.size_erase_le.trans h.groups
  · rw [Std.ExtTreeMap.getElem?_erase] at hg
    split at hg
    · cases hg
    · exact h.row id' g hg

/-- Setting a missing part adds its length. -/
theorem stored_set {parts : List (Option (List UInt8))} {index : Nat}
    (hindex : index < parts.length)
    (hmissing : parts[index]?.join = none) (data : List UInt8) :
    ((parts.set index (some data)).map fun part => (part.getD []).length).sum =
      (parts.map fun part => (part.getD []).length).sum + data.length := by
  induction parts generalizing index with
  | nil => simp at hindex
  | cons part parts ih =>
      cases index with
      | zero =>
          have hpart : part = none := by simpa using hmissing
          subst hpart
          simp [Nat.add_comm]
      | succ index =>
          have hset := ih (by simpa using hindex) (by simpa using hmissing)
          simp only [List.set_cons_succ, List.map_cons, List.sum_cons, hset]
          omega

theorem wellFormed_set (h : group.WellFormed) {index : Nat}
    (hindex : index < group.total) (hmissing : group.parts[index]?.join = none)
    (data : List UInt8) :
    FragmentGroup.WellFormed { group with
      bytes := group.bytes + data.length, parts := group.parts.set index (some data) } := by
  refine ⟨?_, ?_⟩
  · show group.bytes + data.length = _
    rw [h.bytes]
    exact (stored_set (by rw [h.total]; exact hindex) hmissing data).symm
  · simpa using h.total

theorem Sound.complete (h : a.Sound) (hrow : a.groups[id]? = some group) :
    (a.complete codec id group).1.Sound := h.erase hrow

theorem Sound.store (h : a.Sound) (hrow : a.groups[id]? = some group) {index : Nat}
    (hindex : index < group.total) (data : List UInt8) :
    (a.store codec id group index data).1.Sound := by
  have hgroup := h.row id group hrow
  unfold FragmentAssembler.store
  simp only
  split
  · rename_i hmissing
    rw [Option.isNone_iff_eq_none] at hmissing
    split
    · exact h.erase hrow
    · rename_i hlimit
      have hset := wellFormed_set hgroup hindex hmissing data
      have hstored : Sound ⟨a.groups.insert id _, a.bytes + data.length⟩ :=
        h.replace hrow hset (by show _ = a.bytes + (group.bytes + data.length); omega) (by omega)
      split
      · exact hstored
      · exact hstored.complete (by simp)
  · split
    · exact h
    · exact h.complete hrow

theorem Sound.push (h : a.Sound) (envelope : WireEnvelope) : (a.push codec envelope).1.Sound := by
  unfold FragmentAssembler.push
  split
  · exact h
  · split
    · exact h
    · rename_i payload _
      split
      · exact h
      · rename_i hindex
        split
        · exact h
        · split
          · exact h
          · split
            · exact h
            · rename_i hroom
              have hentered : Sound ⟨a.groups.insert envelope.messageId
                  (a.groups[envelope.messageId]?.getD (freshGroup envelope payload)), a.bytes⟩ := by
                cases hrow : a.groups[envelope.messageId]? with
                | none =>
                    have hsize : a.groups.size < maxFragmentGroups := by
                      simp only [hrow, true_and] at hroom
                      omega
                    exact h.enter hrow (freshGroup_wellFormed envelope payload) rfl hsize
                | some group => exact h.replace hrow (h.row _ _ hrow) rfl h.bytes
              simp only
              split
              · exact hentered
              · rename_i hsame
                refine hentered.store (by simp) ?_ _
                have htotal : (a.groups[envelope.messageId]?.getD
                    (freshGroup envelope payload)).total = payload.total := by
                  by_contra hne
                  exact hsame (.inr (.inr hne))
                rw [htotal]
                omega

/-- After any pushes whatsoever. -/
theorem Sound.pushAll (h : a.Sound) (envelopes : List WireEnvelope) :
    (a.pushAll codec envelopes).1.Sound := by
  induction envelopes generalizing a with
  | nil => exact h
  | cons envelope rest ih => exact ih (h.push envelope)

theorem push_other {e : WireEnvelope} (hne : e.messageId ≠ id) :
    (a.push codec e).1.groups[id]? = a.groups[id]? := by
  simp only [push, FragmentAssembler.store, complete]
  repeat' split
  all_goals simp [Std.ExtTreeMap.getElem?_erase, Std.ExtTreeMap.getElem?_insert, hne]

/-- **Messages do not interfere**: pushes for other messages, invalid, repeated or over a limit,
leave what has arrived of one. -/
theorem pushAll_others (envelopes : List WireEnvelope) :
    (a.pushAll codec (envelopes.filter (·.messageId ≠ id))).1.groups[id]? = a.groups[id]? := by
  induction envelopes generalizing a with
  | nil => rfl
  | cons e rest ih =>
      rw [List.filter_cons]
      split
      · rename_i hne
        exact ih.trans (push_other (of_decide_eq_true hne))
      · exact ih

end FragmentAssembler

end Sulion.Node.Fragments
