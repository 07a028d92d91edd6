import Sulion.Node.Fragments
import Sulion.Rust.Base64

set_option autoImplicit false

/-! # Fragments reassemble

The fragments of several envelopes are pushed into one assembler, in any order that stays within its
limits. `Follows` says what the assembler holds after the fragments `pre`: a group for each
envelope of which some have arrived and others have not, with the parts that have. A push keeps it
and returns the envelope exactly when its last fragment arrives.
-/

namespace Sulion.Node.Fragments

open Rust Interleaving

/-! ## What `fragment_envelope` returns -/

section Chunks

variable {α : Type} {size : Nat}

theorem chunks_flatten (hsize : 0 < size) (items : List α) :
    (chunks size items).flatten = items := by
  have hbefore (k : Nat) : ((List.range k).map fun i => (items.drop (i * size)).take size).flatten =
      items.take (k * size) := by
    induction k with
    | zero => simp
    | succ k ih =>
        rw [List.range_succ, List.map_append, List.flatten_append, ih, Nat.succ_mul, List.take_add]
        simp
  rw [chunks, hbefore]
  apply List.take_of_length_le
  have hdiv := Nat.lt_mul_div_succ (items.length + size - 1) hsize
  rw [Nat.mul_succ, Nat.mul_comm] at hdiv
  omega

theorem length_chunks (items : List α) :
    (chunks size items).length = (items.length + size - 1) / size := by
  simp [chunks]

theorem length_of_mem_chunks {items piece : List α} (h : piece ∈ chunks size items) :
    piece.length ≤ size := by
  obtain ⟨i, -, rfl⟩ := List.mem_map.mp h
  exact (List.length_take_le _ _)

end Chunks

/-- The fragments of an envelope; none when it is refused. -/
def fragments (codec : Codec) (e : WireEnvelope) : List WireEnvelope :=
  match fragmentEnvelope codec e with
  | .ok fs => fs
  | .error _ => []

/-- The bytes that a fragment carries. -/
def data (codec : Codec) (f : WireEnvelope) : List UInt8 :=
  match codec.fromValue f.payload with
  | .ok payload =>
      match codec.decode payload.data with
      | .ok bytes => bytes
      | .error _ => []
  | .error _ => []

/-- The fragment of `e` with that index. -/
structure IsFragment (codec : Codec) (e : WireEnvelope) (total index : Nat) (f : WireEnvelope) :
    Prop where
  kind : f.messageKind = "protocol.fragment"
  messageId : f.messageId = e.messageId
  nodeId : f.nodeId = e.nodeId
  bootId : f.bootId = e.bootId
  sequence : f.sequence = some index
  payload : ∃ text, codec.fromValue f.payload = .ok ⟨index, total, text⟩ ∧
    codec.decode text = .ok (data codec f)

/-- The envelope is cut into these fragments. -/
structure Cut (codec : Codec) (e : WireEnvelope) (fs : List WireEnvelope) : Prop where
  two : 2 ≤ fs.length
  few : fs.length ≤ maxFragmentsPerMessage
  part : ∀ (i : Nat) (f : WireEnvelope), fs[i]? = some f → IsFragment codec e fs.length i f
  short : ∀ f ∈ fs, (data codec f).length ≤ fragmentDataBytes
  budget : (fs.map fun f => (data codec f).length).sum ≤ maxReassembledMessageBytes
  whole : codec.fromSlice (fs.flatMap (data codec)) = .ok e

variable {codec : Codec} {e f : WireEnvelope} {fs : List WireEnvelope}

theorem fragment_ok (hcodec : codec.RoundTrips) {total : Nat} {piece : List UInt8 × Nat}
    (h : fragment codec e total piece = .ok f) :
    IsFragment codec e total piece.2 f ∧ data codec f = piece.1 := by
  unfold fragment at h
  cases hvalue : codec.toValue ⟨piece.2, total, codec.encode piece.1⟩ with
  | error err =>
      rw [hvalue] at h
      cases h
  | ok value =>
      rw [hvalue] at h
      cases h
      have hpayload := hcodec.payload _ _ hvalue
      have hdata : data codec { WireEnvelope.new e.nodeId e.bootId e.messageId "protocol.fragment"
          with sequence := some piece.2, payload := value } = piece.1 := by
        simp [data, hpayload, hcodec.base64]
      refine ⟨⟨rfl, rfl, rfl, rfl, rfl, _, hpayload, ?_⟩, hdata⟩
      rw [hdata]
      exact hcodec.base64 _

/-- The fragments of the pieces, one by one. -/
theorem mapM_fragment_ok (hcodec : codec.RoundTrips) {total : Nat}
    {pieces : List (List UInt8 × Nat)} (h : pieces.mapM (fragment codec e total) = .ok fs) :
    fs.map (data codec) = pieces.map (·.1) ∧
      ∀ (i : Nat) (f : WireEnvelope), fs[i]? = some f →
        ∃ piece : List UInt8 × Nat, pieces[i]? = some piece ∧
        IsFragment codec e total piece.2 f := by
  induction pieces generalizing fs with
  | nil =>
      cases h
      exact ⟨rfl, fun i f hf => by simp at hf⟩
  | cons piece pieces ih =>
      rw [List.mapM_cons] at h
      cases hfirst : fragment codec e total piece with
      | error err =>
          rw [hfirst] at h
          cases h
      | ok first =>
          cases hrest : pieces.mapM (fragment codec e total) with
          | error err =>
              rw [hfirst, hrest] at h
              cases h
          | ok rest =>
              rw [hfirst, hrest] at h
              cases h
              obtain ⟨hfragment, hdata⟩ := fragment_ok hcodec hfirst
              obtain ⟨hmap, hpieces⟩ := ih hrest
              refine ⟨by simp [hdata, hmap], fun i f hf => ?_⟩
              cases i with
              | zero =>
                  cases hf
                  exact ⟨piece, rfl, hfragment⟩
              | succ i => exact hpieces i f hf

/-- The pieces of a text that takes more than one frame. -/
theorem cut_of_mapM (hcodec : codec.RoundTrips) {serialized : List UInt8}
    (hserialized : codec.toVec e = .ok serialized) (hlarge : fragmentDataBytes < serialized.length)
    (hbudget : serialized.length ≤ maxReassembledMessageBytes) {total : Nat}
    (htotal : total = (serialized.length + fragmentDataBytes - 1) / fragmentDataBytes)
    (hfew : total ≤ maxFragmentsPerMessage)
    (h : (chunks fragmentDataBytes serialized).zipIdx.mapM (fragment codec e total) = .ok fs) :
    Cut codec e fs := by
  obtain ⟨hmap, hpart⟩ := mapM_fragment_ok hcodec h
  rw [List.zipIdx_map_fst] at hmap
  have hlength : fs.length = total := by
    rw [htotal, ← length_chunks, ← hmap, List.length_map]
  refine ⟨?_, by omega, fun i f hf => ?_, fun f hf => ?_, ?_, ?_⟩
  · rw [hlength, htotal, Nat.le_div_iff_mul_le (by decide)]
    omega
  · obtain ⟨piece, hpiece, hfragment⟩ := hpart i f hf
    rw [List.getElem?_zipIdx, Option.map_eq_some_iff] at hpiece
    obtain ⟨chunk, -, rfl⟩ := hpiece
    rw [hlength]
    simpa using hfragment
  · have hmem := List.mem_map_of_mem (f := data codec) hf
    rw [hmap] at hmem
    exact length_of_mem_chunks hmem
  · have hsum : (fs.map fun f => (data codec f).length).sum =
        ((fs.map (data codec)).flatten).length := by
      rw [List.length_flatten, List.map_map]
      rfl
    rw [hsum, hmap, chunks_flatten (by decide)]
    exact hbudget
  · rw [List.flatMap_def, hmap, chunks_flatten (by decide)]
    exact hcodec.envelope _ _ hserialized

theorem single_or_cut (hcodec : codec.RoundTrips) (h : fragmentEnvelope codec e = .ok fs) :
    (fs = [e] ∧ ∃ serialized, codec.toVec e = .ok serialized ∧
      serialized.length ≤ fragmentDataBytes) ∨ Cut codec e fs := by
  unfold fragmentEnvelope at h
  cases hserialized : codec.toVec e with
  | error err =>
      rw [hserialized] at h
      cases h
  | ok serialized =>
      rw [hserialized] at h
      simp only [bind, Except.bind] at h
      split at h
      · cases h
        exact .inl ⟨rfl, serialized, rfl, ‹_›⟩
      · split at h
        · cases h
        · split at h
          · cases h
          · exact .inr (cut_of_mapM hcodec hserialized (Nat.not_le.mp ‹_›) (Nat.not_lt.mp ‹_›) rfl
              (Nat.not_lt.mp ‹_›) h)

/-! ## What has arrived -/

open Classical in
/-- The bytes of the envelope's fragments that have arrived. -/
noncomputable def held (codec : Codec) (pre : List WireEnvelope) (e : WireEnvelope) : Nat :=
  ((fragments codec e).map fun f => if f ∈ pre then (data codec f).length else 0).sum

open Classical in
/-- The envelopes of which some fragments have arrived and others have not. -/
noncomputable def incomplete (codec : Codec) (es pre : List WireEnvelope) : List WireEnvelope :=
  es.filter fun e => Open (fragments codec) pre e

/-- **The order never exceeds the limits**: the number of incomplete messages, and the bytes of
their fragments that have arrived with the one that arrives. -/
structure WithinLimits (codec : Codec) (es order : List WireEnvelope) : Prop where
  groups : ∀ pre f rest, order = pre ++ f :: rest →
    (incomplete codec es (pre ++ [f])).length ≤ maxFragmentGroups
  bytes : ∀ pre f rest, order = pre ++ f :: rest → f.messageKind = "protocol.fragment" →
    ((incomplete codec es pre).map (held codec pre)).sum + (data codec f).length ≤
      maxReassembledMessageBytes

/-- Distinct messages that `fragment_envelope` accepts. -/
structure Sendable (codec : Codec) (es : List WireEnvelope) : Prop where
  ids : (es.map (·.messageId)).Nodup
  kinds : ∀ e ∈ es, e.messageKind ≠ "protocol.fragment"
  accepted : ∀ e ∈ es, ∃ fs, fragmentEnvelope codec e = .ok fs

variable {es pre : List WireEnvelope}

theorem Sendable.single_or_cut (hes : Sendable codec es) (hcodec : codec.RoundTrips) (he : e ∈ es) :
    fragments codec e = [e] ∨ Cut codec e (fragments codec e) := by
  obtain ⟨fs, hfs⟩ := hes.accepted e he
  have hfragments : fragments codec e = fs := by rw [fragments, hfs]
  rw [hfragments]
  exact (Fragments.single_or_cut hcodec hfs).imp_left And.left

theorem Cut.nodup (h : Cut codec e fs) : fs.Nodup := by
  rw [List.nodup_iff_getElem?_ne_getElem?]
  intro i j hij hj heq
  obtain ⟨f, hf⟩ : ∃ f, fs[j]? = some f := ⟨_, List.getElem?_eq_getElem hj⟩
  have hi := (h.part i f (heq.trans hf)).sequence
  rw [(h.part j f hf).sequence] at hi
  cases hi
  exact Nat.lt_irrefl _ hij

theorem Sendable.messageId_eq (hes : Sendable codec es) (hcodec : codec.RoundTrips) (he : e ∈ es)
    (hf : f ∈ fragments codec e) : f.messageId = e.messageId := by
  rcases hes.single_or_cut hcodec he with hsingle | hcut
  · rw [hsingle, List.mem_singleton] at hf
    rw [hf]
  · obtain ⟨i, hi⟩ := List.mem_iff_getElem?.mp hf
    exact (hcut.part i f hi).messageId

theorem Sendable.eq_of_id (hes : Sendable codec es) {e' : WireEnvelope} (he : e ∈ es)
    (he' : e' ∈ es) (hid : e.messageId = e'.messageId) : e = e' :=
  List.inj_on_of_nodup_map hes.ids he he' hid

/-- All fragments of all envelopes are distinct. -/
theorem Sendable.nodup (hes : Sendable codec es) (hcodec : codec.RoundTrips) :
    (es.flatMap (fragments codec)).Nodup := by
  rw [List.nodup_flatMap]
  constructor
  · intro e he
    rcases hes.single_or_cut hcodec he with hsingle | hcut
    · rw [hsingle]
      exact List.nodup_singleton e
    · exact hcut.nodup
  · have hids : es.Pairwise fun e e' => e.messageId ≠ e'.messageId :=
      List.pairwise_map.mp hes.ids
    refine hids.imp_of_mem fun he he' hne f hf hf' => hne ?_
    rw [← hes.messageId_eq hcodec he hf, hes.messageId_eq hcodec he' hf']

/-! ## The groups of the assembler -/

open Classical in
/-- The group of an envelope's fragments that have arrived. -/
noncomputable def groupOf (codec : Codec) (pre : List WireEnvelope) (e : WireEnvelope) :
    FragmentGroup :=
  { nodeId := e.nodeId, bootId := e.bootId, total := (fragments codec e).length,
    parts := (fragments codec e).map fun f => if f ∈ pre then some (data codec f) else none,
    bytes := held codec pre e }

/-- The assembler after the fragments `pre`. -/
structure Follows (codec : Codec) (es pre : List WireEnvelope) (a : FragmentAssembler) : Prop where
  sound : a.Sound
  row : ∀ (id : Uuid) (group : FragmentGroup), a.groups[id]? = some group ↔
    ∃ e ∈ es, Open (fragments codec) pre e ∧ e.messageId = id ∧ group = groupOf codec pre e

theorem stored_groupOf : (groupOf codec pre e).stored = held codec pre e := by
  rw [FragmentGroup.stored, groupOf, held, List.map_map]
  refine congrArg List.sum (List.map_congr_left fun f _ => ?_)
  by_cases hf : f ∈ pre
  · simp [hf]
  · simp [hf]

theorem mem_incomplete : e ∈ incomplete codec es pre ↔ e ∈ es ∧ Open (fragments codec) pre e := by
  simp [incomplete]

variable {a : FragmentAssembler}

/-- The assembler's groups are those of the incomplete envelopes. -/
theorem Follows.toList_perm (h : Follows codec es pre a) (hes : Sendable codec es) :
    a.groups.toList.Perm
      ((incomplete codec es pre).map fun e => (e.messageId, groupOf codec pre e)) := by
  have hids : ((incomplete codec es pre).map fun e => e.messageId).Nodup :=
    hes.ids.sublist (List.filter_sublist.map _)
  have hnodup : ((incomplete codec es pre).map fun e =>
      (e.messageId, groupOf codec pre e)).Nodup := by
    refine List.Nodup.of_map Prod.fst ?_
    rw [List.map_map]
    exact hids
  rw [List.perm_ext_iff_of_nodup (Table.nodup_toList _) hnodup]
  rintro ⟨id, group⟩
  rw [Std.ExtTreeMap.mem_toList_iff_getElem?_eq_some, h.row, List.mem_map]
  constructor
  · rintro ⟨e, he, hopen, rfl, rfl⟩
    exact ⟨e, mem_incomplete.mpr ⟨he, hopen⟩, rfl⟩
  · rintro ⟨e, he, heq⟩
    cases heq
    obtain ⟨he, hopen⟩ := mem_incomplete.mp he
    exact ⟨e, he, hopen, rfl, rfl⟩

theorem Follows.size (h : Follows codec es pre a) (hes : Sendable codec es) :
    a.groups.size = (incomplete codec es pre).length := by
  rw [← Std.ExtTreeMap.length_toList, (h.toList_perm hes).length_eq, List.length_map]

theorem Follows.bytes (h : Follows codec es pre a) (hes : Sendable codec es) :
    a.bytes = ((incomplete codec es pre).map (held codec pre)).sum := by
  rw [h.sound.counter, Table.total_eq_sum, ((h.toList_perm hes).map _).sum_eq, List.map_map]
  exact congrArg List.sum (List.map_congr_left fun e _ => stored_groupOf)

/-- Nothing has arrived of an envelope: its group would be empty. -/
theorem Follows.getD (h : Follows codec es pre a) (hes : Sendable codec es) (he : e ∈ es)
    (hf : f ∈ fragments codec e) (hpre : f ∉ pre) {fresh : FragmentGroup}
    (hfresh : ¬ Started (fragments codec) pre e → fresh = groupOf codec pre e) :
    a.groups[e.messageId]?.getD fresh = groupOf codec pre e := by
  cases hrow : a.groups[e.messageId]? with
  | none =>
      apply hfresh
      intro hstarted
      have hgroup := (h.row e.messageId (groupOf codec pre e)).mpr
        ⟨e, he, (open_iff_started hf hpre).mpr hstarted, rfl, rfl⟩
      rw [hrow] at hgroup
      cases hgroup
  | some group =>
      obtain ⟨e', he', -, hid, rfl⟩ := (h.row _ _).mp hrow
      rw [hes.eq_of_id he' he hid]
      rfl

/-! ## One fragment -/

theorem Cut.freshGroup_eq (hcut : Cut codec e (fragments codec e)) {i : Nat}
    (hi : (fragments codec e)[i]? = some f) (hstarted : ¬ Started (fragments codec) pre e)
    (text : String) :
    FragmentAssembler.freshGroup f ⟨i, (fragments codec e).length, text⟩ =
      groupOf codec pre e := by
  classical
  have hpart := hcut.part i f hi
  have hnone : ∀ g ∈ fragments codec e, g ∉ pre := fun g hg hpre => hstarted ⟨g, hg, hpre⟩
  have hparts : ((fragments codec e).map fun g => if g ∈ pre then some (data codec g) else none) =
      List.replicate (fragments codec e).length none := by
    rw [List.eq_replicate_iff]
    refine ⟨by simp, fun part hpart => ?_⟩
    obtain ⟨g, hg, rfl⟩ := List.mem_map.mp hpart
    exact if_neg (hnone g hg)
  have hheld : held codec pre e = 0 := by
    rw [held, List.sum_eq_zero]
    intro n hn
    obtain ⟨g, hg, rfl⟩ := List.mem_map.mp hn
    exact if_neg (hnone g hg)
  rw [FragmentAssembler.freshGroup, groupOf, hparts, hheld, hpart.nodeId, hpart.bootId]

theorem groupOf_missing {i : Nat} (hi : (fragments codec e)[i]? = some f) (hpre : f ∉ pre) :
    (groupOf codec pre e).parts[i]?.join = none := by
  simp [groupOf, hi, hpre]

/-- The part that arrives is set in its group. -/
theorem Cut.groupOf_snoc (hcut : Cut codec e (fragments codec e)) {i : Nat}
    (hi : (fragments codec e)[i]? = some f) (hpre : f ∉ pre) :
    groupOf codec (pre ++ [f]) e = { groupOf codec pre e with
      bytes := (groupOf codec pre e).bytes + (data codec f).length
      parts := (groupOf codec pre e).parts.set i (some (data codec f)) } := by
  classical
  obtain ⟨hlt, hget⟩ := List.getElem?_eq_some_iff.mp hi
  have hparts : (groupOf codec (pre ++ [f]) e).parts =
      (groupOf codec pre e).parts.set i (some (data codec f)) := by
    apply List.ext_getElem?
    intro j
    rw [List.getElem?_set]
    by_cases hij : i = j
    · subst hij
      simp [groupOf, hget, hlt]
    · rw [if_neg hij]
      rw [groupOf, groupOf, List.getElem?_map, List.getElem?_map]
      refine Option.map_congr fun g hg => ?_
      have hne : g ≠ f := by
        rintro rfl
        have hsequence := (hcut.part j g hg).sequence
        rw [(hcut.part i g hi).sequence] at hsequence
        exact hij (Option.some.inj hsequence)
      have hmem : g ∈ pre ++ [f] ↔ g ∈ pre := by simp [hne]
      exact if_congr hmem rfl rfl
  have hbytes : (groupOf codec (pre ++ [f]) e).bytes =
      (groupOf codec pre e).bytes + (data codec f).length := by
    show held codec (pre ++ [f]) e = held codec pre e + _
    rw [← stored_groupOf, ← stored_groupOf, FragmentGroup.stored, hparts]
    exact FragmentAssembler.stored_set (by simpa [groupOf] using hlt)
      (groupOf_missing hi hpre) _
  rw [← hparts, ← hbytes]
  rfl

theorem any_isNone_groupOf_iff :
    (groupOf codec pre e).parts.any Option.isNone ↔ ¬ Complete (fragments codec) pre e := by
  simp [groupOf, Complete]

theorem Cut.fromSlice_groupOf (hcut : Cut codec e (fragments codec e))
    (hcomplete : Complete (fragments codec) pre e) :
    codec.fromSlice ((groupOf codec pre e).parts.flatMap fun part => part.getD []) = .ok e := by
  rw [← hcut.whole]
  congr 1
  rw [groupOf, List.flatMap_map]
  refine List.flatMap_congr fun g hg => ?_
  rw [if_pos (hcomplete g hg)]
  rfl

open Classical in
/-- What a push returns when the fragment arrives. -/
noncomputable def returned (codec : Codec) (pre : List WireEnvelope) (f e : WireEnvelope) :
    Option WireEnvelope :=
  if Complete (fragments codec) (pre ++ [f]) e then some e else none

/-- A fragment passes every check and reaches its group. -/
theorem push_fragment {group : FragmentGroup} {total i : Nat} (hf : IsFragment codec e total i f)
    (htotal : total ≤ maxFragmentsPerMessage) (hi : i < total)
    (hshort : (data codec f).length ≤ fragmentDataBytes)
    (hroom : a.groups[e.messageId]? = none → a.groups.size < maxFragmentGroups)
    (hgroup : ∀ text,
      a.groups[e.messageId]?.getD (FragmentAssembler.freshGroup f ⟨i, total, text⟩) =
      group) (hnode : group.nodeId = e.nodeId) (hboot : group.bootId = e.bootId)
    (hsize : group.total = total) :
    a.push codec f = FragmentAssembler.store codec ⟨a.groups.insert e.messageId group, a.bytes⟩
      e.messageId group i (data codec f) := by
  obtain ⟨text, hvalue, hdecode⟩ := hf.payload
  have hindex : ¬ (total = 0 ∨ total > maxFragmentsPerMessage ∨ i ≥ total) := by omega
  have hfull : ¬ (a.groups[e.messageId]? = none ∧ a.groups.size ≥ maxFragmentGroups) := by
    rintro ⟨hnone, hge⟩
    exact absurd (hroom hnone) (by omega)
  have hsame : ¬ (group.nodeId ≠ e.nodeId ∨ group.bootId ≠ e.bootId ∨ group.total ≠ total) := by
    simp [hnode, hboot, hsize]
  unfold FragmentAssembler.push
  simp only [hf.kind, ne_eq, not_true_eq_false, if_false, hvalue, hdecode, hf.messageId, hf.nodeId,
    hf.bootId, if_neg hindex, if_neg (Nat.not_lt.mpr hshort), if_neg hfull, hgroup]
  exact if_neg hsame

/-- The order so far, the fragment that comes and the limits it meets. -/
structure Comes (codec : Codec) (es pre : List WireEnvelope) (f : WireEnvelope) : Prop where
  new : f ∉ pre
  groups : (incomplete codec es (pre ++ [f])).length ≤ maxFragmentGroups
  bytes : f.messageKind = "protocol.fragment" →
    ((incomplete codec es pre).map (held codec pre)).sum + (data codec f).length ≤
      maxReassembledMessageBytes

/-- The first fragment of a message finds room. -/
theorem Comes.room (hcomes : Comes codec es pre f) (hes : Sendable codec es)
    (hcodec : codec.RoundTrips) (he : e ∈ es) (hcut : Cut codec e (fragments codec e))
    (hf : f ∈ fragments codec e) (hstarted : ¬ Started (fragments codec) pre e) :
    (incomplete codec es pre).length < maxFragmentGroups := by
  refine lt_of_lt_of_le ?_ hcomes.groups
  have hopen : Open (fragments codec) (pre ++ [f]) e := by
    rw [open_snoc_iff hf]
    intro hcomplete
    -- another fragment has not come
    obtain ⟨i, hi⟩ := List.mem_iff_getElem?.mp hf
    obtain ⟨j, hj, hne⟩ : ∃ j, j < (fragments codec e).length ∧ j ≠ i := by
      have htwo := hcut.two
      by_cases hzero : i = 0
      · exact ⟨1, by omega, by omega⟩
      · exact ⟨0, by omega, by omega⟩
    obtain ⟨g, hg⟩ : ∃ g, (fragments codec e)[j]? = some g := ⟨_, List.getElem?_eq_getElem hj⟩
    have hgmem := List.mem_iff_getElem?.mpr ⟨j, hg⟩
    rcases List.mem_append.mp (hcomplete g hgmem) with hpre | hlast
    · exact hstarted ⟨g, hgmem, hpre⟩
    · rw [List.mem_singleton.mp hlast] at hg
      have hsequence := (hcut.part j f hg).sequence
      rw [(hcut.part i f hi).sequence] at hsequence
      exact hne (Option.some.inj hsequence).symm
  have hsub : ∀ e' ∈ incomplete codec es pre, e' ∈ incomplete codec es (pre ++ [f]) := by
    intro e' he'
    obtain ⟨he', hopen'⟩ := mem_incomplete.mp he'
    refine mem_incomplete.mpr ⟨he', (open_snoc_iff_of_notMem fun hf' => ?_).mpr hopen'⟩
    rw [eq_of_mem_parts (hes.nodup hcodec) he' he hf' hf] at hopen'
    exact hstarted hopen'.1
  have hnodup : (incomplete codec es pre).Nodup := (hes.ids.of_map _).filter _
  have hcons : (e :: incomplete codec es pre).Nodup :=
    List.nodup_cons.mpr ⟨fun hmem => hstarted (mem_incomplete.mp hmem).2.1, hnodup⟩
  have hsubset : e :: incomplete codec es pre ⊆ incomplete codec es (pre ++ [f]) := by
    intro e' he'
    rcases List.mem_cons.mp he' with rfl | he'
    · exact mem_incomplete.mpr ⟨he, hopen⟩
    · exact hsub e' he'
  exact (hcons.subperm hsubset).length_le

theorem groupOf_snoc_of_notMem (hf : f ∉ fragments codec e) :
    groupOf codec (pre ++ [f]) e = groupOf codec pre e := by
  classical
  have hmem : ∀ g ∈ fragments codec e, (g ∈ pre ++ [f] ↔ g ∈ pre) := by
    intro g hg
    have hne : g ≠ f := fun heq => hf (heq ▸ hg)
    simp [hne]
  have hparts : (groupOf codec (pre ++ [f]) e).parts = (groupOf codec pre e).parts :=
    List.map_congr_left fun g hg => if_congr (hmem g hg) rfl rfl
  have hheld : held codec (pre ++ [f]) e = held codec pre e :=
    congrArg List.sum (List.map_congr_left fun g hg => if_congr (hmem g hg) rfl rfl)
  exact FragmentGroup.ext rfl rfl rfl hparts hheld

/-- Only the group of the fragment's message changes. -/
theorem Follows.snoc (h : Follows codec es pre a) (hes : Sendable codec es)
    (hcodec : codec.RoundTrips) (he : e ∈ es) (hf : f ∈ fragments codec e)
    {a' : FragmentAssembler} (hsound : a'.Sound)
    (hothers : ∀ id, id ≠ e.messageId → a'.groups[id]? = a.groups[id]?)
    (hopen : ¬ Complete (fragments codec) (pre ++ [f]) e →
      a'.groups[e.messageId]? = some (groupOf codec (pre ++ [f]) e))
    (hclosed : Complete (fragments codec) (pre ++ [f]) e → a'.groups[e.messageId]? = none) :
    Follows codec es (pre ++ [f]) a' := by
  refine ⟨hsound, fun id group => ?_⟩
  by_cases hid : id = e.messageId
  · subst hid
    constructor
    · intro hrow
      by_cases hcomplete : Complete (fragments codec) (pre ++ [f]) e
      · rw [hclosed hcomplete] at hrow
        cases hrow
      · rw [hopen hcomplete] at hrow
        cases hrow
        exact ⟨e, he, (open_snoc_iff hf).mpr hcomplete, rfl, rfl⟩
    · rintro ⟨e', he', hopen', hid, rfl⟩
      rw [hes.eq_of_id he' he hid] at hopen' ⊢
      exact hopen hopen'.2
  · rw [hothers id hid, h.row]
    -- the fragment is none of theirs
    refine exists_congr fun e' => and_congr_right fun he' => ?_
    have hother : e'.messageId = id → f ∉ fragments codec e' := by
      rintro rfl hf'
      exact hid (congrArg _ (eq_of_mem_parts (hes.nodup hcodec) he' he hf' hf))
    constructor
    · rintro ⟨hopen', hid', rfl⟩
      exact ⟨(open_snoc_iff_of_notMem (hother hid')).mpr hopen', hid',
        (groupOf_snoc_of_notMem (hother hid')).symm⟩
    · rintro ⟨hopen', hid', rfl⟩
      exact ⟨(open_snoc_iff_of_notMem (hother hid')).mp hopen', hid',
        groupOf_snoc_of_notMem (hother hid')⟩

/-- A fragment of a message that is cut arrives. -/
theorem Follows.push (h : Follows codec es pre a) (hes : Sendable codec es)
    (hcodec : codec.RoundTrips) (he : e ∈ es) (hcut : Cut codec e (fragments codec e))
    (hf : f ∈ fragments codec e) (hcomes : Comes codec es pre f) :
    Follows codec es (pre ++ [f]) (a.push codec f).1 ∧
      (a.push codec f).2 = .ok (returned codec pre f e) := by
  obtain ⟨i, hi⟩ := List.mem_iff_getElem?.mp hf
  have hlt : i < (fragments codec e).length := (List.getElem?_eq_some_iff.mp hi).1
  have hpart := hcut.part i f hi
  have hroom : a.groups[e.messageId]? = none → a.groups.size < maxFragmentGroups := by
    intro hnone
    rw [h.size hes]
    apply hcomes.room hes hcodec he hcut hf
    intro hstarted
    have hgroup := (h.row e.messageId (groupOf codec pre e)).mpr
      ⟨e, he, (open_iff_started hf hcomes.new).mpr hstarted, rfl, rfl⟩
    rw [hnone] at hgroup
    cases hgroup
  have hpush := push_fragment hpart hcut.few hlt (hcut.short f hf) hroom
    (fun text => h.getD hes he hf hcomes.new fun hstarted =>
      hcut.freshGroup_eq hi hstarted text) rfl rfl rfl
  have hlimit : ¬ a.bytes + (data codec f).length > maxReassembledMessageBytes := by
    rw [h.bytes hes]
    exact Nat.not_lt.mpr (hcomes.bytes hpart.kind)
  have hsound : (a.push codec f).1.Sound := h.sound.push f
  have hmissing : (groupOf codec pre e).parts[i]?.join.isNone := by
    rw [groupOf_missing hi hcomes.new]
    rfl
  have hset : (groupOf codec pre e).parts.set i (some (data codec f)) =
      (groupOf codec (pre ++ [f]) e).parts :=
    (congrArg FragmentGroup.parts (hcut.groupOf_snoc hi hcomes.new)).symm
  rw [hpush] at hsound ⊢
  unfold FragmentAssembler.store at hsound ⊢
  simp only [if_pos hmissing, if_neg hlimit, ← hcut.groupOf_snoc hi hcomes.new] at hsound ⊢
  rw [hset] at hsound ⊢
  by_cases hcomplete : Complete (fragments codec) (pre ++ [f]) e
  · have hparts : ¬ (groupOf codec (pre ++ [f]) e).parts.any Option.isNone := fun hany =>
      any_isNone_groupOf_iff.mp hany hcomplete
    rw [if_neg hparts] at hsound ⊢
    constructor
    · refine h.snoc hes hcodec he hf hsound (fun id hid => ?_) (absurd hcomplete) fun _ => ?_
      · simp [FragmentAssembler.complete, Std.ExtTreeMap.getElem?_erase, Table.lookup_insert,
          Ne.symm hid]
      · simp [FragmentAssembler.complete]
    · show Except.map some _ = _
      rw [hcut.fromSlice_groupOf hcomplete, returned, if_pos hcomplete]
      rfl
  · have hparts : (groupOf codec (pre ++ [f]) e).parts.any Option.isNone :=
      any_isNone_groupOf_iff.mpr hcomplete
    rw [if_pos hparts] at hsound ⊢
    constructor
    · refine h.snoc hes hcodec he hf hsound (fun id hid => ?_) (fun _ => ?_)
        (fun h => absurd h hcomplete)
      · simp [Table.lookup_insert, Ne.symm hid]
      · simp
    · rw [returned, if_neg hcomplete]

/-- An envelope that needs no fragments passes through. -/
theorem Follows.pass (h : Follows codec es pre a) (hes : Sendable codec es)
    (hcodec : codec.RoundTrips) (he : e ∈ es) (hsingle : fragments codec e = [e])
    (hpre : e ∉ pre) :
    Follows codec es (pre ++ [e]) (a.push codec e).1 ∧
      (a.push codec e).2 = .ok (returned codec pre e e) := by
  have hf : e ∈ fragments codec e := by rw [hsingle]; exact List.mem_singleton_self e
  have hcomplete : Complete (fragments codec) (pre ++ [e]) e := by
    intro g hg
    rw [hsingle] at hg
    exact List.mem_append_right _ hg
  have hpush : a.push codec e = (a, .ok (some e)) := if_pos (hes.kinds e he)
  rw [hpush, returned, if_pos hcomplete]
  refine ⟨h.snoc hes hcodec he hf h.sound (fun _ _ => rfl) (absurd hcomplete) fun _ => ?_, rfl⟩
  cases hrow : a.groups[e.messageId]? with
  | none => rfl
  | some group =>
      obtain ⟨e', he', hopen, hid, -⟩ := (h.row _ _).mp hrow
      rw [hes.eq_of_id he' he hid] at hopen
      obtain ⟨⟨g, hg, hgpre⟩, -⟩ := hopen
      rw [hsingle, List.mem_singleton] at hg
      exact absurd (hg ▸ hgpre) hpre

/-! ## The whole order -/

/-- The pushes from `pre` on: none errs, and each envelope is returned with its last fragment. -/
theorem Follows.pushAll {order : List WireEnvelope} (hes : Sendable codec es)
    (hcodec : codec.RoundTrips) (horder : order.Perm (es.flatMap (fragments codec)))
    (hlimits : WithinLimits codec es order) (rest : List WireEnvelope) {delivered}
    (hrest : order = pre ++ rest) (h : Follows codec es pre a)
    (hdelivers : Delivers (fragments codec) es pre delivered) :
    Follows codec es order (a.pushAll codec rest).1 ∧
      ∃ results : List (Option WireEnvelope), (a.pushAll codec rest).2 = results.map .ok ∧
        Delivers (fragments codec) es order (delivered ++ results.filterMap id) := by
  have hnodup := hes.nodup hcodec
  induction rest generalizing pre a delivered with
  | nil =>
      rw [List.append_nil] at hrest
      subst hrest
      exact ⟨h, [], rfl, by simpa using hdelivers⟩
  | cons f rest ih =>
      have hpre : f ∉ pre := by
        have horderNodup : order.Nodup := horder.nodup_iff.mpr hnodup
        rw [hrest] at horderNodup
        intro hmem
        exact (List.nodup_append.mp horderNodup).2.2 f hmem f List.mem_cons_self rfl
      obtain ⟨e, he, hf⟩ : ∃ e ∈ es, f ∈ fragments codec e := by
        rw [← List.mem_flatMap, ← horder.mem_iff, hrest]
        simp
      have hpush : Follows codec es (pre ++ [f]) (a.push codec f).1 ∧
          (a.push codec f).2 = .ok (returned codec pre f e) := by
        rcases hes.single_or_cut hcodec he with hsingle | hcut
        · have hfe : f = e := by rwa [hsingle, List.mem_singleton] at hf
          subst hfe
          exact h.pass hes hcodec he hsingle hpre
        · exact h.push hes hcodec he hcut hf
            ⟨hpre, hlimits.groups pre f rest hrest, hlimits.bytes pre f rest hrest⟩
      have hdelivers' : Delivers (fragments codec) es (pre ++ [f])
          (delivered ++ (returned codec pre f e).toList) := by
        by_cases hcomplete : Complete (fragments codec) (pre ++ [f]) e
        · rw [returned, if_pos hcomplete]
          exact hdelivers.deliver hnodup he hf hpre hcomplete
        · rw [returned, if_neg hcomplete, Option.toList_none, List.append_nil]
          exact hdelivers.wait hnodup he hf hcomplete
      obtain ⟨hfollows, results, hresults, hall⟩ :=
        ih (by rw [hrest, List.append_assoc]; rfl) hpush.1 hdelivers'
      refine ⟨hfollows, returned codec pre f e :: results, ?_, ?_⟩
      · show (a.push codec f).2 :: ((a.push codec f).1.pushAll codec rest).2 = _
        rw [hpush.2, hresults]
        rfl
      · rw [List.append_assoc] at hall
        cases hreturned : returned codec pre f e with
        | none => simpa [hreturned] using hall
        | some e' => simpa [hreturned] using hall

theorem Follows.new : Follows codec es [] .new := by
  refine ⟨.new, fun id group => iff_of_false (by simp [FragmentAssembler.new]) ?_⟩
  rintro ⟨e, -, ⟨⟨f, -, hf⟩, -⟩, -⟩
  cases hf

/-- When all fragments have arrived, nothing is left. -/
theorem Follows.finished (h : Follows codec es pre a)
    (hall : ∀ e ∈ es, Complete (fragments codec) pre e) : a = .new := by
  have hgroups : a.groups = ∅ := by
    apply Table.ext
    intro id
    cases hrow : a.groups[id]? with
    | none => simp
    | some group =>
        obtain ⟨e, he, hopen, -⟩ := (h.row id group).mp hrow
        exact absurd (hall e he) hopen.2
  have hbytes := h.sound.counter
  rw [hgroups, Table.total_empty] at hbytes
  obtain ⟨groups, bytes⟩ := a
  cases hgroups
  cases hbytes
  rfl

/-- **Fragmentation round-trips under interleaving**: the fragments of distinct messages, pushed in
any order within the limits, bring back each message exactly once and leave the assembler empty.
After any pushes whatsoever the byte counter is that of the stored parts and the limits hold. -/
theorem fragments_reassemble (codec : Codec) :
    (codec.RoundTrips → ∀ es order, Sendable codec es →
      order.Perm (es.flatMap (fragments codec)) → WithinLimits codec es order →
      (FragmentAssembler.new.pushAll codec order).1 = .new ∧
      ∃ results : List (Option WireEnvelope),
        (FragmentAssembler.new.pushAll codec order).2 = results.map .ok ∧
        (results.filterMap id).Perm es) ∧
    ∀ envelopes, (FragmentAssembler.new.pushAll codec envelopes).1.WithinBudget := by
  refine ⟨fun hcodec es order hes horder hlimits => ?_, fun envelopes =>
    (FragmentAssembler.Sound.new.pushAll envelopes).toWithinBudget⟩
  have hparts : ∀ e ∈ es, fragments codec e ≠ [] := by
    intro e he hnil
    rcases hes.single_or_cut hcodec he with hsingle | hcut
    · rw [hnil] at hsingle
      cases hsingle
    · have htwo := hcut.two
      rw [hnil] at htwo
      cases htwo
  have hall : ∀ e ∈ es, Complete (fragments codec) order e := fun e he f hf =>
    horder.mem_iff.mpr (List.mem_flatMap.mpr ⟨e, he, hf⟩)
  obtain ⟨hfollows, results, hresults, hdelivers⟩ :=
    Follows.pushAll hes hcodec horder hlimits order rfl .new (.nil hparts)
  refine ⟨hfollows.finished hall, results, hresults, ?_⟩
  exact hdelivers.perm (hes.ids.of_map _) hall

/-! ## One message -/

theorem held_le_sum : held codec pre e ≤
    ((fragments codec e).map fun f => (data codec f).length).sum := by
  refine List.sum_le_sum fun f _ => ?_
  split
  · exact le_rfl
  · exact Nat.zero_le _

/-- A message alone, in the order of its fragments, is within the limits. -/
theorem withinLimits_single (hes : Sendable codec [e]) (hcodec : codec.RoundTrips) :
    WithinLimits codec [e] (fragments codec e) := by
  have he : e ∈ [e] := List.mem_singleton_self e
  refine ⟨fun pre f rest _ => ?_, fun pre f rest horder hkind => ?_⟩
  · exact (List.length_filter_le _ _).trans (show 1 ≤ 16 by decide)
  · rcases hes.single_or_cut hcodec he with hsingle | hcut
    · have hf : f ∈ fragments codec e := by simp [horder]
      rw [hsingle, List.mem_singleton] at hf
      subst hf
      exact absurd hkind (hes.kinds f he)
    · have hi : (fragments codec e)[pre.length]? = some f := by simp [horder]
      have hpre : f ∉ pre := by
        have hnodup := hcut.nodup
        rw [horder] at hnodup
        intro hmem
        exact (List.nodup_append.mp hnodup).2.2 f hmem f List.mem_cons_self rfl
      have hsum : ((incomplete codec [e] pre).map (held codec pre)).sum ≤ held codec pre e := by
        have hsub : ((incomplete codec [e] pre).map (held codec pre)).Sublist
            [held codec pre e] := List.filter_sublist.map _
        simpa using hsub.sum_le_sum fun _ _ => Nat.zero_le _
      have hsnoc : held codec (pre ++ [f]) e = held codec pre e + (data codec f).length :=
        congrArg FragmentGroup.bytes (hcut.groupOf_snoc hi hpre)
      have hle : held codec (pre ++ [f]) e ≤ _ := held_le_sum.trans hcut.budget
      omega

/-- `usize::MAX`. -/
def usizeMax : Nat := 18446744073709551615

/-- A fragment's payload as JSON. -/
def payloadJson (p : FragmentPayload) : Json :=
  .obj [("index", .int p.index), ("total", .int p.total), ("data", .str p.data)]

def payloadOf (value : Json) : Except String FragmentPayload :=
  match (value.get "index").bind Json.asU64, (value.get "total").bind Json.asU64,
    (value.get "data").bind Json.asStr with
  | some index, some total, some data => .ok ⟨index, total, data⟩
  | _, _, _ => .error "invalid fragment payload"

theorem asU64_int {n : Nat} (h : n ≤ usizeMax) : (Json.int n).asU64 = some n := by
  have hlt : n < 18446744073709551616 := Nat.lt_succ_of_le h
  simp [Json.asU64, hlt]

theorem payloadOf_json {p : FragmentPayload} (hindex : p.index ≤ usizeMax)
    (htotal : p.total ≤ usizeMax) : payloadOf (payloadJson p) = .ok p := by
  have h1 : (payloadJson p).get "index" = some (.int p.index) := rfl
  have h2 : (payloadJson p).get "total" = some (.int p.total) := rfl
  have h3 : (payloadJson p).get "data" = some (.str p.data) := rfl
  rw [payloadOf, h1, h2, h3, Option.bind_some, Option.bind_some, Option.bind_some,
    asU64_int hindex, asU64_int htotal, Json.asStr]

open Classical in
/-- Fragment payloads as JSON, base64, and one envelope with its text. -/
noncomputable def codecOf (e : WireEnvelope) (text : List UInt8) : Codec where
  toVec e' := if e' = e then .ok text else .error "another envelope"
  fromSlice bytes := if bytes = text then .ok e else .error "another text"
  toValue p :=
    if p.index ≤ usizeMax ∧ p.total ≤ usizeMax then .ok (payloadJson p) else .error "no usize"
  fromValue := payloadOf
  encode := base64Encode
  decode text := (base64Decode text).elim (.error "invalid base64") .ok

theorem codecOf_roundTrips (e : WireEnvelope) (text : List UInt8) :
    (codecOf e text).RoundTrips := by
  refine ⟨fun e' bytes h => ?_, fun p value h => ?_, fun bytes => ?_⟩
  · simp only [codecOf] at h ⊢
    split at h
    · cases h
      simp_all
    · cases h
  · simp only [codecOf] at h ⊢
    split at h
    · rename_i hbounds
      cases h
      exact payloadOf_json hbounds.1 hbounds.2
    · cases h
  · simp [codecOf, base64Decode_encode]

/-- The fragments of its text are made. -/
theorem codecOf_accepts {e : WireEnvelope} {text : List UInt8}
    (hlarge : fragmentDataBytes < text.length) (hbudget : text.length ≤ maxReassembledMessageBytes)
    (hfew : (text.length + fragmentDataBytes - 1) / fragmentDataBytes ≤ maxFragmentsPerMessage) :
    ∃ fs, fragmentEnvelope (codecOf e text) e = .ok fs := by
  have hfragments : ∀ (pieces : List (List UInt8 × Nat)) (total : Nat), total ≤ usizeMax →
      (∀ piece ∈ pieces, piece.2 ≤ usizeMax) →
      ∃ fs, pieces.mapM (fragment (codecOf e text) e total) = .ok fs := by
    intro pieces total htotal hindices
    induction pieces with
    | nil => exact ⟨[], rfl⟩
    | cons piece pieces ih =>
        obtain ⟨fs, hfs⟩ := ih fun p hp => hindices p (List.mem_cons_of_mem _ hp)
        obtain ⟨f, hf⟩ : ∃ f, fragment (codecOf e text) e total piece = .ok f := by
          have hbounds := And.intro (hindices piece List.mem_cons_self) htotal
          simp only [fragment, codecOf, if_pos hbounds]
          exact ⟨_, rfl⟩
        rw [List.mapM_cons, hf, hfs]
        exact ⟨f :: fs, rfl⟩
  have htext : (codecOf e text).toVec e = .ok text := by simp [codecOf]
  unfold fragmentEnvelope
  rw [htext]
  simp only [bind, Except.bind, if_neg (Nat.not_le.mpr hlarge), if_neg (Nat.not_lt.mpr hbudget),
    if_neg (Nat.not_lt.mpr hfew)]
  apply hfragments
  · exact hfew.trans (by decide)
  · intro piece hpiece
    have hindex := List.snd_lt_of_mem_zipIdx hpiece
    rw [length_chunks] at hindex
    have hbound : maxFragmentsPerMessage ≤ usizeMax := by decide
    omega

/-- A result that takes more than one frame, and its JSON text. -/
def longResult : WireEnvelope :=
  { WireEnvelope.new 1 2 3 "request.result" with
    payload := .obj [("data", .str (String.ofList (List.replicate fragmentDataBytes 'x')))] }

def longResultHead : List String :=
  ["\x7b\"protocol_version\":1,", "\"node_id\":\"00000000-0000-0000-0000-000000000001\",",
    "\"boot_id\":\"00000000-0000-0000-0000-000000000002\",",
    "\"message_id\":\"00000000-0000-0000-0000-000000000003\",",
    "\"message_kind\":\"request.result\",", "\"request_id\":null,", "\"session_id\":null,",
    "\"stream_id\":null,", "\"sequence\":null,", "\"payload\":\x7b\"data\":\""]

def longResultText : List UInt8 :=
  (longResultHead.flatMap String.toList ++ List.replicate fragmentDataBytes 'x' ++
    ['"', '\x7d', '\x7d']).map fun c => UInt8.ofNat c.toNat

theorem longResultText_length : longResultText.length =
    (longResultHead.flatMap String.toList).length + (fragmentDataBytes + 3) := by
  have htail : ['"', '\x7d', '\x7d'].length = 3 := rfl
  rw [longResultText, List.length_map, List.length_append, List.length_append,
    List.length_replicate, htail, Nat.add_assoc]

theorem longResultHead_length : (longResultHead.flatMap String.toList).length ≤ 600 := by
  have hpieces : ∀ s ∈ longResultHead, s.toList.length ≤ 60 := by decide +kernel
  rw [List.length_flatMap]
  calc _ ≤ (longResultHead.map fun _ => 60).sum := List.sum_le_sum hpieces
    _ = 600 := rfl

/-- Its fragments are pushed in order, and it comes back. -/
theorem fragments_reassemble_long :
    2 ≤ (fragments (codecOf longResult longResultText) longResult).length ∧
    ∃ results : List (Option WireEnvelope),
      (FragmentAssembler.new.pushAll (codecOf longResult longResultText)
        (fragments (codecOf longResult longResultText) longResult)).2 = results.map .ok ∧
      (results.filterMap id).Perm [longResult] := by
  have hhead := longResultHead_length
  have hlength := longResultText_length
  have hdata : fragmentDataBytes = 184320 := rfl
  have hmax : maxReassembledMessageBytes = 100663296 := rfl
  have hlarge : fragmentDataBytes < longResultText.length := by omega
  have hfew : (longResultText.length + fragmentDataBytes - 1) / fragmentDataBytes ≤
      maxFragmentsPerMessage := by
    apply Nat.div_le_of_le_mul
    have hmany : fragmentDataBytes * maxFragmentsPerMessage = 188743680 := rfl
    omega
  have hcodec := codecOf_roundTrips longResult longResultText
  have haccepts := codecOf_accepts (e := longResult) hlarge (by omega) hfew
  have hes : Sendable (codecOf longResult longResultText) [longResult] := by
    refine ⟨List.nodup_singleton _, fun e he => ?_, fun e he => ?_⟩
    · rw [List.mem_singleton.mp he]
      decide
    · rw [List.mem_singleton.mp he]
      exact haccepts
  have hperm : (fragments (codecOf longResult longResultText) longResult).Perm
      ([longResult].flatMap (fragments (codecOf longResult longResultText))) := by simp
  refine ⟨?_, ((fragments_reassemble _).1 hcodec _ _ hes hperm
    (withinLimits_single hes hcodec)).2⟩
  obtain ⟨fs, hfs⟩ := haccepts
  rw [show fragments (codecOf longResult longResultText) longResult = fs by rw [fragments, hfs]]
  rcases single_or_cut hcodec hfs with ⟨-, serialized, hserialized, hsmall⟩ | hcut
  · simp only [codecOf, if_true, Except.ok.injEq] at hserialized
    rw [← hserialized] at hsmall
    omega
  · exact hcut.two

end Sulion.Node.Fragments
