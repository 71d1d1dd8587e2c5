import WikiEcon.Lib.Codec
import WikiEcon.Stages.Fingerprint

/-!
# A library of bytes

The assumptions that receipts rest on can be met: the documents of this library are bytes that
are read back, and its hash tells all files apart. It has the digests of the files it knows
(`digests`), and spells out the others, in characters that no digest has.
-/

namespace WikiEcon.Stages

/-! ## Documents -/

def fieldCodec : Codec FieldIdentity :=
  (Codec.string.pair .string).map (fun p => ⟨p.1, p.2⟩) (fun field => (field.name, field.dataType))
    fun _ => rfl

def summaryCodec : Codec SemanticSummary :=
  (fieldCodec.list.pair <| Codec.nat.pair <| Codec.string.option.pair <|
    Codec.string.option.pair <| (Codec.string.pair .int).list.pair <|
    Codec.string.pair <| Codec.string.pair .string).map
    (fun ⟨schema, rows, first, last, totals, firstWiki, lastWiki, ordering⟩ =>
      ⟨schema, rows, first, last, totals, firstWiki, lastWiki, ordering⟩)
    (fun s => (s.parquetSchema, s.rows, s.minimumDate, s.maximumDate, s.conservationTotals,
      s.minimumWiki, s.maximumWiki, s.orderingContract))
    fun _ => rfl

def artifactReceiptCodec : Codec ArtifactReceipt :=
  (Codec.nat.pair <| Codec.string.pair <| Codec.string.pair <| Codec.nat.pair <|
    summaryCodec.pair <| Codec.string.pair .string).map
    (fun ⟨version, identity, sha256, bytes, summary, algorithm, inputs⟩ =>
      ⟨version, identity, sha256, bytes, summary, algorithm, inputs⟩)
    (fun r => (r.schemaVersion, r.identity, r.artifactSha256, r.bytes, r.summary,
      r.algorithmVersion, r.inputFingerprint))
    fun _ => rfl

def documentCodec : Codec ArtifactReceiptDocument :=
  (Codec.nat.pair <| Codec.string.pair <| Codec.nat.pair artifactReceiptCodec).map
    (fun ⟨version, sha256, modified, receipt⟩ => ⟨version, sha256, modified, receipt⟩)
    (fun d => (d.schemaVersion, d.receiptSha256, d.observedModifiedUnixNanos, d.receipt))
    fun _ => rfl

def identityCodec : Codec ArtifactIdentity :=
  (Codec.string.pair <| Codec.nat.pair <| Codec.string.pair <| Codec.string.list.pair <|
    Codec.nat.option.pair <| Codec.string.option.pair <| Codec.string.option.pair <|
    Codec.nat.pair <| Codec.string.option.pair <| (Codec.string.pair .int).list.pair <|
    Codec.string.pair .string).map
    (fun ⟨identity, bytes, sha256, schema, rows, first, last, modified, receipt, totals, firstWiki,
        lastWiki⟩ => ⟨identity, bytes, sha256, schema, rows, first, last, modified, receipt, totals,
      firstWiki, lastWiki⟩)
    (fun a => (a.identity, a.bytes, a.sha256, a.outputSchema, a.rows, a.minimumDate, a.maximumDate,
      a.observedModifiedUnixNanos, a.artifactReceiptSha256, a.conservationTotals, a.minimumWiki,
      a.maximumWiki))
    fun _ => rfl

def specCodec : Codec StageSpec :=
  (Codec.string.pair <| Codec.string.pair <| Codec.string.option.pair .string).map
    (fun ⟨stage, scope, snapshot, algorithm⟩ => ⟨stage, scope, snapshot, algorithm⟩)
    (fun s => (s.stage, s.scope, s.selectedSnapshot, s.algorithmVersion))
    fun _ => rfl

def seedCodec : Codec FingerprintSeed :=
  (Codec.nat.pair <| specCodec.pair <| Codec.string.pair <|
    identityCodec.list.pair identityCodec.list).map
    (fun ⟨version, spec, computation, inputs, outputs⟩ =>
      ⟨version, spec, computation, inputs, outputs⟩)
    (fun s => (s.schemaVersion, s.spec, s.computationVersion, s.inputs, s.outputs))
    fun _ => rfl

def stageReceiptCodec : Codec StageReceipt :=
  (Codec.nat.pair <| specCodec.pair <| Codec.string.pair <| Codec.string.option.pair <|
    identityCodec.list.pair <| identityCodec.list.pair .string).map
    (fun ⟨version, spec, computation, commit, inputs, outputs, fingerprint⟩ =>
      ⟨version, spec, computation, commit, inputs, outputs, fingerprint⟩)
    (fun r => (r.schemaVersion, r.spec, r.computationVersion, r.binaryCommit, r.inputs, r.outputs,
      r.fingerprint))
    fun _ => rfl

/-! ## Hashes -/

/-- A character for each byte, none of them ASCII. -/
def spellOut (bytes : List UInt8) : String :=
  String.ofList (bytes.map fun b => Char.ofNat (256 + b.toNat))

/-- The digest of a file that is known; the others are spelled out. -/
def digest (digests : List (List UInt8 × String)) (bytes : List UInt8) : String :=
  (digests.lookup bytes).getD (spellOut bytes)

/-- Digests that differ, each with its first character in ASCII. -/
structure AreDigests (digests : List (List UInt8 × String)) : Prop where
  nodup : (digests.map Prod.snd).Nodup
  ascii : ∀ entry ∈ digests, entry.2.toList.head?.any (fun c => c.toNat < 256) = true

theorem toNat_spelled (b : UInt8) : (Char.ofNat (256 + b.toNat)).toNat = 256 + b.toNat := by
  have hbelow : ∀ n < 256, (Char.ofNat (256 + n)).toNat = 256 + n := by decide +kernel
  exact hbelow _ b.toNat_lt

theorem spellOut_injective : Function.Injective spellOut := by
  intro bytes bytes' h
  refine List.map_injective_iff.mpr (fun b b' hb => ?_) (String.ofList_inj.mp h)
  have htoNat := congrArg Char.toNat hb
  rw [toNat_spelled, toNat_spelled] at htoNat
  exact UInt8.toNat_inj.mp (by omega)

theorem mem_of_lookup {κ ν : Type} [BEq κ] [LawfulBEq κ] {table : List (κ × ν)}
    {key : κ} {value : ν}
    (h : table.lookup key = some value) : (key, value) ∈ table := by
  induction table with
  | nil => cases h
  | cons entry rest ih =>
    rw [List.lookup_cons] at h
    split at h
    next heq =>
      obtain rfl := Option.some.inj h
      exact List.mem_cons.mpr (Or.inl (Prod.ext (beq_iff_eq.mp heq) rfl))
    next => exact List.mem_cons_of_mem _ (ih h)

/-- No digest is the spelling of a file. -/
theorem AreDigests.ne_spellOut {digests : List (List UInt8 × String)} (h : AreDigests digests)
    {bytes bytes' : List UInt8} {hash : String} (hlookup : digests.lookup bytes = some hash) :
    hash ≠ spellOut bytes' := by
  rintro rfl
  have hascii := h.ascii _ (mem_of_lookup hlookup)
  cases bytes' with
  | nil => cases hascii
  | cons b bytes' =>
    unfold spellOut at hascii
    rw [String.toList_ofList, List.map_cons, List.head?_cons, Option.any_some, toNat_spelled,
      decide_eq_true_eq] at hascii
    omega

theorem digest_injective {digests : List (List UInt8 × String)} (h : AreDigests digests) :
    Function.Injective (digest digests) := by
  intro bytes bytes' heq
  unfold digest at heq
  cases hknown : digests.lookup bytes with
  | none =>
    cases hknown' : digests.lookup bytes' with
    | none =>
      rw [hknown, hknown'] at heq
      exact spellOut_injective heq
    | some hash' =>
      rw [hknown, hknown'] at heq
      exact absurd heq.symm (h.ne_spellOut hknown')
  | some hash =>
    cases hknown' : digests.lookup bytes' with
    | none =>
      rw [hknown, hknown'] at heq
      exact absurd heq (h.ne_spellOut hknown)
    | some hash' =>
      rw [hknown, hknown'] at heq
      have hsame : (bytes, hash) = (bytes', hash') :=
        List.inj_on_of_nodup_map h.nodup (mem_of_lookup hknown) (mem_of_lookup hknown') heq
      exact congrArg Prod.fst hsame

/-! ## The library -/

/-- A library whose Parquet files all have one summary. -/
def byteLibrary (digests : List (List UInt8 × String)) (summary : SemanticSummary)
    (packageVersion : String) : StageLibrary where
  sha256 := digest digests
  receiptSha256 := fun receipt => digest digests (artifactReceiptCodec.encode receipt)
  readDocument := documentCodec.read
  writeDocument := documentCodec.encode
  readDraft := fun _ => none
  scan := fun _ _ _ => .ok summary
  parquetSummary := fun _ _ => .ok (summary.parquetSchema.map fun field =>
    field.name ++ ":" ++ field.dataType, summary.rows, summary.minimumDate, summary.maximumDate)
  readStage := stageReceiptCodec.read
  writeStage := stageReceiptCodec.encode
  inputsSha256 := fun inputs => digest digests (identityCodec.list.encode inputs)
  seedSha256 := fun seed => digest digests (seedCodec.encode seed)
  packageVersion := packageVersion
  buildCommit := none

theorem byteLibrary_collisionFree {digests : List (List UInt8 × String)} (h : AreDigests digests)
    (summary : SemanticSummary) (packageVersion : String) :
    (byteLibrary digests summary packageVersion).CollisionFree where
  sha256 _ _ heq := digest_injective h heq
  receiptSha256 _ _ heq := congrArg ArtifactReceipt.artifactSha256
    (artifactReceiptCodec.encode_injective (digest_injective h heq))

end WikiEcon.Stages
