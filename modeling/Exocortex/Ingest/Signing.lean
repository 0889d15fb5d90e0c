import Exocortex.Ingest.Wire
import Exocortex.Library.Framing

/-!
# Checksums and signatures of batches

The checksum of a batch covers its memories, its relationships and its snapshot. The rows are
encoded one by one, each memory with its tags sorted, the encodings are sorted and framed, and the
whole is digested. So two batches have the same checksum exactly when their rows are the same up
to order (`canonicalChecksum_iff`), as long as the encoding tells their rows apart.

The signature covers the encoded batch without the signature itself. A prepared batch verifies, and
preparing it again changes nothing (`sign_verifies`, `prepare_prepare`).

The encodings of the messages, the digest and the authentication code are given. A checksum is the
same by construction when it is under every digest function.
-/

namespace Exocortex

open Library

/-! ## Messages -/

/-- A memory as the protocol carries it, with the identity its producer suggests. -/
structure DraftMessage extends WireMemory where
  id : String
deriving DecidableEq

structure ClientMetadataMessage where
  playbookVersion : String
  clientVersion : String
  harnessHint : String
  projectId : String
  teamId : String
deriving DecidableEq

structure ProducerMessage where
  nodeId : String
  agentId : String
  adapterId : String
  hmacSignature : List UInt8
  clientMetadata : Option ClientMetadataMessage
deriving DecidableEq

structure BatchMessage where
  orgId : String
  sourceUri : String
  producerId : String
  batchId : String
  mappingVersion : String
  ontologyFingerprint : List UInt8
  ceiling : ℤ
  checksum : String
  observedAt : Option WireTimestamp
  recordedAt : Option WireTimestamp
  snapshot : Option SnapshotInfo
  memories : List DraftMessage
  relationships : List WireRel
  producer : Option ProducerMessage
deriving DecidableEq

/-- The encodings of the messages. -/
structure Encoders where
  memory : DraftMessage → List UInt8
  relationship : WireRel → List UInt8
  snapshot : SnapshotInfo → List UInt8
  batch : BatchMessage → List UInt8

/-! ## The checksum -/

/-- Eight bytes of a length, most significant first. -/
def pushLen (n : ℕ) : List UInt8 := (leBytes 8 n).reverse

def lenPrefixed (value : List UInt8) : List UInt8 := frame pushLen value

def pushCollection (name : String) (rows : List (List UInt8)) : List UInt8 :=
  lenPrefixed name.toUTF8.toList ++ counted pushLen lenPrefixed rows

/-- The memory with its tags in order. -/
def DraftMessage.canonical (memory : DraftMessage) : DraftMessage :=
  { memory with tags := memory.tags.insertionSort fun x y => x ≤ y }

/-- Encoded rows in order. -/
def sortRows (rows : List (List UInt8)) : List (List UInt8) := rows.insertionSort fun x y => x ≤ y

/-- A snapshot, or that there is none. -/
def pushSnapshot (encode : SnapshotInfo → List UInt8) : Option SnapshotInfo → List UInt8
  | some snapshot => 1 :: lenPrefixed (encode snapshot)
  | none => [0]

/-- What the checksum is a digest of. -/
def BatchMessage.preimage (encoders : Encoders) (batch : BatchMessage) : List UInt8 :=
  lenPrefixed "exocortex-ingest-checksum".toUTF8.toList ++ (leBytes 4 2).reverse ++
    pushCollection "memories"
      (sortRows (batch.memories.map fun memory => encoders.memory memory.canonical)) ++
    pushCollection "relationships" (sortRows (batch.relationships.map encoders.relationship)) ++
    lenPrefixed "snapshot".toUTF8.toList ++ pushSnapshot encoders.snapshot batch.snapshot

def BatchMessage.canonicalChecksum (encoders : Encoders) (blake3 : List UInt8 → Bytes 32)
    (batch : BatchMessage) : String := (blake3 (batch.preimage encoders)).digestHex

/-! ## Signatures -/

section Signatures

variable (encoders : Encoders) (blake3 : List UInt8 → Bytes 32)
  (hmac : Bytes 32 → List UInt8 → Bytes 32) (key : Bytes 32)

/-- The encoded batch without its signature. -/
def BatchMessage.unsignedBytes (batch : BatchMessage) : List UInt8 :=
  encoders.batch { batch with producer := batch.producer.map ({ · with hmacSignature := [] }) }

def BatchMessage.sign (batch : BatchMessage) : BatchMessage :=
  let signature := (hmac key (batch.unsignedBytes encoders)).bytes
  { batch with producer := batch.producer.map ({ · with hmacSignature := signature }) }

def BatchMessage.prepare (batch : BatchMessage) : BatchMessage :=
  BatchMessage.sign encoders hmac key
    { batch with checksum := batch.canonicalChecksum encoders blake3 }

def BatchMessage.verifySignature (batch : BatchMessage) : Bool :=
  batch.producer.any fun producer =>
    !producer.hmacSignature.isEmpty &&
      (hmac key (batch.unsignedBytes encoders)).bytes = producer.hmacSignature

end Signatures

/-! ## The same rows -/

/-- A memory without its tags, and its tags in any order. -/
def DraftMessage.tagged (memory : DraftMessage) : DraftMessage × Multiset String :=
  ({ memory with tags := [] }, memory.tags)

/-- The same memories, relationships and snapshot, in any order and with tags in any order. -/
structure BatchMessage.SameRows (batch other : BatchMessage) : Prop where
  memories : (batch.memories.map (·.tagged) : Multiset (DraftMessage × Multiset String)) =
    other.memories.map (·.tagged)
  relationships : (batch.relationships : Multiset WireRel) = other.relationships
  snapshot : batch.snapshot = other.snapshot

theorem DraftMessage.canonical_eq_iff {memory other : DraftMessage} :
    memory.canonical = other.canonical ↔ memory.tagged = other.tagged := by
  obtain ⟨⟨draftKey, memoryType, title, content, tags, visibility, validFrom, validUntil,
    externalKey, rights⟩, id⟩ := memory
  obtain ⟨⟨draftKey', memoryType', title', content', tags', visibility', validFrom', validUntil',
    externalKey', rights'⟩, id'⟩ := other
  simp only [canonical, tagged, DraftMessage.mk.injEq, WireMemory.mk.injEq, Prod.mk.injEq,
    insertionSort_eq_iff, Multiset.coe_eq_coe, true_and]
  tauto

variable {memories : List DraftMessage} {rows : List (List UInt8)}

/-- The same memories, by their canonical forms. -/
theorem perm_canonical_iff {others : List DraftMessage} :
    (memories.map (·.canonical)).Perm (others.map (·.canonical)) ↔
      (memories.map (·.tagged)).Perm (others.map (·.tagged)) :=
  ⟨perm_map_of_perm_map fun _ _ _ _ => DraftMessage.canonical_eq_iff.mp,
    perm_map_of_perm_map fun _ _ _ _ => DraftMessage.canonical_eq_iff.mpr⟩

/-! ## The checksum tells the rows -/

/-- The encodings tell the rows of two batches apart. -/
structure Encoders.TellApart (encoders : Encoders) (batch other : BatchMessage) : Prop where
  memory : ∀ memory ∈ batch.memories, ∀ memory' ∈ other.memories,
    encoders.memory memory.canonical = encoders.memory memory'.canonical →
      memory.canonical = memory'.canonical
  relationship : ∀ row ∈ batch.relationships, ∀ row' ∈ other.relationships,
    encoders.relationship row = encoders.relationship row' → row = row'
  snapshot : ∀ snapshot ∈ batch.snapshot, ∀ snapshot' ∈ other.snapshot,
    encoders.snapshot snapshot = encoders.snapshot snapshot' → snapshot = snapshot'

/-- No list of rows and no encoded row is longer than a length can say. -/
structure Encoders.Addressable (encoders : Encoders) (batch : BatchMessage) : Prop where
  memories : batch.memories.length < 2 ^ 64
  relationships : batch.relationships.length < 2 ^ 64
  memory : ∀ memory ∈ batch.memories, (encoders.memory memory.canonical).length < 2 ^ 64
  relationship : ∀ row ∈ batch.relationships, (encoders.relationship row).length < 2 ^ 64
  snapshot : ∀ snapshot ∈ batch.snapshot, (encoders.snapshot snapshot).length < 2 ^ 64

theorem pushLen_selfDelimiting : SelfDelimiting (· < 2 ^ 64) pushLen := by
  refine .of_width 8 (fun n _ => ?_) fun n m below below' same => ?_
  · rw [pushLen, List.length_reverse, length_leBytes]
  · exact leBytes_inj_of_lt below below' (List.reverse_injective same)

theorem lenPrefixed_selfDelimiting :
    SelfDelimiting (fun value => value.length < 2 ^ 64) lenPrefixed :=
  pushLen_selfDelimiting.frame

/-- Few enough rows, each of them short enough. -/
def Short (rows : List (List UInt8)) : Prop :=
  rows.length < 2 ^ 64 ∧ ∀ row ∈ rows, row.length < 2 ^ 64

theorem pushCollection_inj {name : String} {rows' : List (List UInt8)} (short : Short rows)
    (short' : Short rows') {rest rest' : List UInt8}
    (same : pushCollection name rows ++ rest = pushCollection name rows' ++ rest') :
    rows = rows' ∧ rest = rest' := by
  rw [pushCollection, pushCollection, List.append_assoc, List.append_assoc] at same
  exact (pushLen_selfDelimiting.counted lenPrefixed_selfDelimiting) short short'
    (List.append_cancel_left same)

theorem pushSnapshot_inj {encode : SnapshotInfo → List UInt8} {snapshot other : Option SnapshotInfo}
    (short : ∀ info ∈ snapshot, (encode info).length < 2 ^ 64)
    (short' : ∀ info ∈ other, (encode info).length < 2 ^ 64)
    (apart : ∀ info ∈ snapshot, ∀ info' ∈ other, encode info = encode info' → info = info')
    (same : pushSnapshot encode snapshot = pushSnapshot encode other) : snapshot = other := by
  cases snapshot with
  | none =>
      cases other with
      | none => rfl
      | some info' => cases same
  | some info =>
      cases other with
      | none => cases same
      | some info' =>
          have encoded := lenPrefixed_selfDelimiting.injective (short info rfl) (short' info' rfl)
            (List.cons.inj same).2
          rw [apart info rfl info' rfl encoded]

theorem short_sortRows : Short (sortRows rows) ↔ Short rows := by
  rw [Short, Short, sortRows, List.length_insertionSort]
  simp only [List.mem_insertionSort]

section Checksums

variable {encoders : Encoders} {batch other : BatchMessage}

theorem preimage_inj (apart : encoders.TellApart batch other) (fits : encoders.Addressable batch)
    (fits' : encoders.Addressable other)
    (same : batch.preimage encoders = other.preimage encoders) : batch.SameRows other := by
  have shortMemories {batch : BatchMessage} (fits : encoders.Addressable batch) :
      Short (batch.memories.map fun memory => encoders.memory memory.canonical) :=
    ⟨by rw [List.length_map]; exact fits.memories, List.forall_mem_map.mpr fits.memory⟩
  have shortRels {batch : BatchMessage} (fits : encoders.Addressable batch) :
      Short (batch.relationships.map encoders.relationship) :=
    ⟨by rw [List.length_map]; exact fits.relationships, List.forall_mem_map.mpr fits.relationship⟩
  simp only [BatchMessage.preimage, List.append_assoc] at same
  obtain ⟨memories, same⟩ := pushCollection_inj (short_sortRows.mpr (shortMemories fits))
    (short_sortRows.mpr (shortMemories fits'))
    (List.append_cancel_left (List.append_cancel_left same))
  obtain ⟨rels, same⟩ := pushCollection_inj (short_sortRows.mpr (shortRels fits))
    (short_sortRows.mpr (shortRels fits')) same
  have snapshots := pushSnapshot_inj fits.snapshot fits'.snapshot apart.snapshot
    (List.append_cancel_left same)
  rw [sortRows, sortRows, insertionSort_eq_iff] at memories rels
  refine ⟨Multiset.coe_eq_coe.mpr ?_, Multiset.coe_eq_coe.mpr ?_, snapshots⟩
  · refine perm_canonical_iff.mp (perm_map_of_perm_map apart.memory memories)
  · have rows := perm_map_of_perm_map (g := id) apart.relationship rels
    rwa [List.map_id, List.map_id] at rows

theorem preimage_congr (same : batch.SameRows other) :
    batch.preimage encoders = other.preimage encoders := by
  have memories : (batch.memories.map fun memory => encoders.memory memory.canonical).Perm
      (other.memories.map fun memory => encoders.memory memory.canonical) :=
    perm_map_of_perm_map (fun _ _ _ _ tagged =>
      congrArg encoders.memory (DraftMessage.canonical_eq_iff.mpr tagged))
      (Multiset.coe_eq_coe.mp same.memories)
  have rels := (Multiset.coe_eq_coe.mp same.relationships).map encoders.relationship
  rw [BatchMessage.preimage, BatchMessage.preimage, same.snapshot, sortRows, sortRows, sortRows,
    sortRows, insertionSort_eq_iff.mpr memories, insertionSort_eq_iff.mpr rels]

theorem canonicalChecksum_eq_iff :
    (∀ blake3, batch.canonicalChecksum encoders blake3 = other.canonicalChecksum encoders blake3) ↔
      batch.preimage encoders = other.preimage encoders := by
  have apart : (Bytes.fill 32 0).digestHex ≠ (Bytes.fill 32 1).digestHex := by decide +kernel
  simp only [BatchMessage.canonicalChecksum]
  exact ⟨eq_of_digests apart, fun same _ => by rw [same]⟩

end Checksums

/-! ## Prepared batches -/

section Prepared

variable (encoders : Encoders) (blake3 : List UInt8 → Bytes 32)
  (hmac : Bytes 32 → List UInt8 → Bytes 32) (key : Bytes 32)

theorem unsignedBytes_sign (batch : BatchMessage) :
    (batch.sign encoders hmac key).unsignedBytes encoders = batch.unsignedBytes encoders := by
  rw [BatchMessage.unsignedBytes, BatchMessage.unsignedBytes, BatchMessage.sign]
  dsimp only
  rw [Option.map_map]
  rfl

theorem sign_verifies {batch : BatchMessage} (signed : batch.producer ≠ none) :
    (batch.sign encoders hmac key).verifySignature encoders hmac key = true := by
  obtain ⟨producer, isProducer⟩ := Option.ne_none_iff_exists'.mp signed
  rw [BatchMessage.verifySignature, unsignedBytes_sign, BatchMessage.sign, isProducer]
  dsimp only [Option.map_some, Option.any_some]
  have size := (hmac key (batch.unsignedBytes encoders)).size
  rw [decide_eq_true rfl, Bool.and_true, Bool.not_eq_true', List.isEmpty_eq_false_iff]
  intro none_
  rw [none_] at size
  cases size

theorem sign_sign (batch : BatchMessage) :
    (batch.sign encoders hmac key).sign encoders hmac key = batch.sign encoders hmac key := by
  rw [BatchMessage.sign, unsignedBytes_sign, BatchMessage.sign]
  dsimp only
  rw [Option.map_map]
  rfl

theorem prepare_prepare (batch : BatchMessage) :
    (batch.prepare encoders blake3 hmac key).prepare encoders blake3 hmac key =
      batch.prepare encoders blake3 hmac key := by
  -- Neither the checksum nor the signature is part of what the checksum covers.
  have again : { batch.prepare encoders blake3 hmac key with
      checksum := (batch.prepare encoders blake3 hmac key).canonicalChecksum encoders blake3 } =
        batch.prepare encoders blake3 hmac key := rfl
  rw [BatchMessage.prepare, again, BatchMessage.prepare, sign_sign]

end Prepared

/-- **Checksums tell batches apart by their rows, whatever their order.** A prepared batch verifies,
and preparing it again changes nothing. -/
theorem canonicalChecksum_iff (encoders : Encoders) {batch other : BatchMessage}
    (apart : encoders.TellApart batch other) (fits : encoders.Addressable batch)
    (fits' : encoders.Addressable other) :
    ((∀ blake3, batch.canonicalChecksum encoders blake3 =
        other.canonicalChecksum encoders blake3) ↔ batch.SameRows other) ∧
      ∀ blake3 hmac key (signed : BatchMessage), signed.producer ≠ none →
        (signed.prepare encoders blake3 hmac key).verifySignature encoders hmac key = true ∧
          (signed.prepare encoders blake3 hmac key).prepare encoders blake3 hmac key =
            signed.prepare encoders blake3 hmac key := by
  refine ⟨?_, fun blake3 hmac key signed isSigned => ⟨?_, prepare_prepare _ _ _ _ _⟩⟩
  · rw [canonicalChecksum_eq_iff]
    exact ⟨preimage_inj apart fits fits', preimage_congr⟩
  · exact sign_verifies encoders hmac key isSigned

/-- A text of a message under its number. -/
def textField (number : UInt8) (text : String) : List UInt8 :=
  [8 * number + 2, UInt8.ofNat text.toUTF8.toList.length] ++ text.toUTF8.toList

/-- The encoding of messages with nothing but a short key and short tags. -/
def keyEncoders : Encoders where
  memory memory := textField 1 memory.draftKey ++ memory.tags.flatMap (textField 6)
  relationship _ := []
  snapshot _ := []
  batch _ := []

def keyedMessage (key : String) (tags : List String) : DraftMessage :=
  ⟨⟨key, "", "", "", tags, 0, none, none, none, none⟩, ""⟩

def messageOf (memories : List DraftMessage) : BatchMessage :=
  ⟨"", "", "", "", "", [], 0, "", none, none, none, memories, [], none⟩

theorem addressable_messageOf (few : memories.length < 2 ^ 64)
    (short : ∀ memory ∈ memories, (keyEncoders.memory memory.canonical).length < 2 ^ 64) :
    keyEncoders.Addressable (messageOf memories) :=
  ⟨few, Nat.two_pow_pos 64, short, nofun, nofun⟩

/-- The order of the tags does not matter, but where they end does. -/
theorem canonicalChecksum_tags :
    (∀ blake3, (messageOf [keyedMessage "k" ["b", "a"]]).canonicalChecksum keyEncoders blake3 =
      (messageOf [keyedMessage "k" ["a", "b"]]).canonicalChecksum keyEncoders blake3) ∧
    ¬ ∀ blake3, (messageOf [keyedMessage "k" ["b", "a"]]).canonicalChecksum keyEncoders blake3 =
      (messageOf [keyedMessage "k" ["ab"]]).canonicalChecksum keyEncoders blake3 := by
  have fits : ∀ tags ∈ [["b", "a"], ["a", "b"], ["ab"]],
      keyEncoders.Addressable (messageOf [keyedMessage "k" tags]) := by
    intro tags listed
    refine addressable_messageOf (Nat.one_lt_two_pow (by decide)) ?_
    revert tags
    decide +kernel
  have apart : ∀ tags ∈ [["a", "b"], ["ab"]], keyEncoders.TellApart
      (messageOf [keyedMessage "k" ["b", "a"]]) (messageOf [keyedMessage "k" tags]) := by
    intro tags listed
    refine ⟨?_, nofun, nofun⟩
    revert tags
    decide +kernel
  constructor
  · refine (canonicalChecksum_iff keyEncoders (apart _ (by decide)) (fits _ (by decide))
      (fits _ (by decide))).1.mpr ⟨?_, rfl, rfl⟩
    decide +kernel
  · intro same
    have rows := (canonicalChecksum_iff keyEncoders (apart ["ab"] (by decide)) (fits _ (by decide))
      (fits _ (by decide))).1.mp same
    exact absurd rows.memories (by decide +kernel)

end Exocortex
