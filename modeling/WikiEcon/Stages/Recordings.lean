import WikiEcon.Stages.ByteLibrary

/-!
# Stage receipts are sound

A receipt some recorder left says of every input and output what it held, so `reusable` finds
the same bytes again.
-/

namespace WikiEcon.Stages

section Recordings

variable (lib : StageLibrary)

/-! ## Recordings and what they may rely on -/

/-- A call of a recorder, and what it left behind. -/
structure Recording where
  recorder : Recorder
  before : FileSystem
  receiptPath : Path
  spec : StageSpec
  inputs : List TrackedPath
  outputs : List TrackedPath
  after : FileSystem
  receipt : StageReceipt

def Recording.Ran (run : Recording) : Prop :=
  recordWith lib run.recorder run.before run.receiptPath run.spec run.inputs run.outputs
    = .ok (run.after, run.receipt)

/-- Sorted outputs, each with the file system in which it was inspected. -/
def inspectedFrom (algorithmVersion inputFingerprint : String) :
    FileSystem → List TrackedPath → List (TrackedPath × FileSystem)
  | _, [] => []
  | fs, p :: rest =>
    match inspectReceiptedOutput lib algorithmVersion inputFingerprint fs p with
    | .error _ => []
    | .ok inspected =>
      (p, inspected.1) :: inspectedFrom algorithmVersion inputFingerprint inspected.1 rest

def Recording.observedInputs (run : Recording) : List (TrackedPath × FileSystem) :=
  (sortTracked run.inputs).map fun p => (p, run.before)

def Recording.observedOutputs (run : Recording) : List (TrackedPath × FileSystem) :=
  match run.recorder, inspectAll lib run.before run.inputs with
  | .receipted, .ok inspected =>
    inspectedFrom lib run.spec.algorithmVersion (inputFingerprint lib inspected) run.before
      (sortTracked run.outputs)
  | _, _ => (sortTracked run.outputs).map fun p => (p, run.before)

/-- A recording in which size and time tell a file's contents, of paths that their identities
tell. -/
structure Recording.Sound (known : Path → ℕ → ℕ → List UInt8) (locate : String → Path)
    (run : Recording) : Prop where
  ran : run.Ran lib
  before : Consistent known run.before
  observed : ∀ q ∈ run.observedOutputs lib, Consistent known q.2
  inputs : ∀ p ∈ run.inputs, p.path = locate p.identity
  outputs : ∀ p ∈ run.outputs, p.path = locate p.identity

/-- A receipt some sound recording left, as did those that it was split from. -/
inductive Authentic (known : Path → ℕ → ℕ → List UInt8) (locate : String → Path) :
    StageReceipt → Prop
  | recorded (run : Recording) (hsound : run.Sound lib known locate)
      (hsource : ∀ source, run.recorder = .verified source → Authentic known locate source) :
      Authentic known locate run.receipt

/-- A path is still tracked under its identity, and its file is what it was. -/
def Same (later : FileSystem) (q : TrackedPath × FileSystem) (p : TrackedPath) : Prop :=
  p.identity = q.1.identity ∧ ∃ before after, q.2.get q.1.path = some before ∧
    later.get p.path = some after ∧ after.bytes = before.bytes


variable {lib} {known : Path → ℕ → ℕ → List UInt8} {locate : String → Path}

theorem mem_sortTracked {p : TrackedPath} {paths : List TrackedPath} :
    p ∈ sortTracked paths ↔ p ∈ paths :=
  List.mem_insertionSort _

/-! ## What was recorded -/

theorem inspectAll_records {fs : FileSystem} (hconsistent : Consistent known fs)
    (htruthful : Truthful lib known) {paths : List TrackedPath} {records : List ArtifactIdentity}
    (h : inspectAll lib fs paths = .ok records) :
    List.Forall₂ (fun q a => Records lib known q.2 q.1 a)
      ((sortTracked paths).map fun p => (p, fs)) records := by
  rw [List.forall₂_map_left_iff]
  exact (Workers.forall₂_of_mapM_eq_ok h).imp fun p a ha => inspect_records hconsistent htruthful ha

/-- Every output is recorded as it is right after its inspection. -/
theorem inspectReceiptedOutputs_records (htruthful : Truthful lib known)
    {algorithmVersion inputFingerprint : String} :
    ∀ {paths : List TrackedPath} {fs : FileSystem} {inspected : FileSystem × List ArtifactIdentity},
      (∀ q ∈ inspectedFrom lib algorithmVersion inputFingerprint fs paths, Consistent known q.2) →
      inspectReceiptedOutputs lib algorithmVersion inputFingerprint fs paths = .ok inspected →
      List.Forall₂ (fun q a => Records lib known q.2 q.1 a)
        (inspectedFrom lib algorithmVersion inputFingerprint fs paths) inspected.2 ∧
      (inspectedFrom lib algorithmVersion inputFingerprint fs paths).map Prod.fst = paths := by
  intro paths
  induction paths with
  | nil =>
    intro fs inspected _ h
    cases h
    exact ⟨.nil, rfl⟩
  | cons p rest ih =>
    intro fs inspected hconsistent h
    obtain ⟨first, hfirst, h⟩ := bind_eq_ok.mp h
    obtain ⟨others, hothers, h⟩ := bind_eq_ok.mp h
    cases h
    simp only [inspectedFrom, hfirst, List.mem_cons, forall_eq_or_imp] at hconsistent ⊢
    obtain ⟨hrecords, hpaths⟩ := ih hconsistent.2 hothers
    have hrecord := inspectReceiptedOutput_records htruthful hconsistent.1 hfirst
    exact ⟨.cons hrecord hrecords, by rw [List.map_cons, hpaths]⟩

/-- Two lists that are sorted by the same keys stay side by side. -/
theorem forall₂_insertionSort {α β : Type} {key : α → String} {key' : β → String}
    {R : α → β → Prop} (hkey : ∀ a b, R a b → key a = key' b) {l : List α} {l' : List β}
    (h : List.Forall₂ R l l') :
    List.Forall₂ R (l.insertionSort fun a b => key a ≤ key b)
      (l'.insertionSort fun a b => key' a ≤ key' b) := by
  have hinsert : ∀ {a b} {l : List α} {l' : List β}, R a b → List.Forall₂ R l l' →
      List.Forall₂ R (l.orderedInsert (fun a b => key a ≤ key b) a)
        (l'.orderedInsert (fun a b => key' a ≤ key' b) b) := by
    intro a b l l' hab hl
    induction hl with
    | nil => exact .cons hab .nil
    | cons hcd hl ih =>
      simp only [List.orderedInsert_cons, hkey _ _ hab, hkey _ _ hcd]
      split
      · exact .cons hab (.cons hcd hl)
      · exact .cons hcd ih
  induction h with
  | nil => exact .nil
  | cons hab _ ih => exact hinsert hab ih

/-- An output that a source receipt answers for is recorded as it is. -/
theorem verifiedOutput_records (hlib : lib.CollisionFree) {fs : FileSystem}
    (hconsistent : Consistent known fs) (htruthful : Truthful lib known) {source : StageReceipt}
    (hsource : ∀ a ∈ source.outputs, TrueRecord lib known (locate a.identity) a) {p : TrackedPath}
    {a : ArtifactIdentity} (hlocate : p.path = locate p.identity)
    (h : verifiedOutput lib fs source p = .ok a) : Records lib known fs p a := by
  obtain ⟨found, hfound, h⟩ := bind_eq_ok.mp h
  obtain ⟨_, hmatches, h⟩ := bind_eq_ok.mp h
  cases h
  have hfound := context_eq_ok.mp hfound
  have hidentity : a.identity = p.identity := by
    have hsome := List.find?_some hfound
    exact of_decide_eq_true hsome
  have htrue : TrueRecord lib known p.path a := by
    rw [hlocate, ← hidentity]
    exact hsource a (List.mem_of_find?_eq_some hfound)
  obtain ⟨-, hcontent⟩ := artifactMatches_content hlib hconsistent htruthful htrue
    (ensure_eq_ok.mp hmatches)
  exact ⟨hidentity, hcontent, htrue⟩

/-- The records of a recording, each beside what it was made of. -/
theorem Recording.records (hlib : lib.CollisionFree) (htruthful : Truthful lib known)
    {run : Recording}
    (hsound : run.Sound lib known locate)
    (hsource : ∀ source, run.recorder = .verified source →
      ∀ a ∈ source.outputs, TrueRecord lib known (locate a.identity) a) :
    List.Forall₂ (fun q a => Records lib known q.2 q.1 a) run.observedInputs run.receipt.inputs ∧
      List.Forall₂ (fun q a => Records lib known q.2 q.1 a) (run.observedOutputs lib)
        run.receipt.outputs ∧
      (run.observedOutputs lib).map Prod.fst = sortTracked run.outputs := by
  obtain ⟨hran, hbefore, hobserved, -, houtputs⟩ := hsound
  unfold Recording.Ran recordWith at hran
  unfold Recording.observedOutputs at hobserved ⊢
  have hsorted : ((sortTracked run.outputs).map fun p => (p, run.before)).map Prod.fst
      = sortTracked run.outputs := by
    rw [List.map_map]
    exact List.map_id _
  cases hrecorder : run.recorder with
  | receipted =>
    simp only [hrecorder] at hran hobserved ⊢
    obtain ⟨_, -, hran⟩ := bind_eq_ok.mp hran
    obtain ⟨inputs, hinputs, hran⟩ := bind_eq_ok.mp hran
    obtain ⟨outputs, hrecorded, hran⟩ := bind_eq_ok.mp hran
    simp only [hinputs] at hobserved ⊢
    have hreceipt : run.receipt = (persistReceipt lib outputs.1 run.receiptPath run.spec inputs
      outputs.2).2 := (congrArg Prod.snd (Except.ok.inj hran)).symm
    rw [hreceipt]
    exact ⟨inspectAll_records hbefore htruthful hinputs,
      inspectReceiptedOutputs_records htruthful hobserved hrecorded⟩
  | plain =>
    simp only [hrecorder] at hran hobserved ⊢
    obtain ⟨_, -, hran⟩ := bind_eq_ok.mp hran
    obtain ⟨inputs, hinputs, hran⟩ := bind_eq_ok.mp hran
    obtain ⟨outputs, hrecorded, hran⟩ := bind_eq_ok.mp hran
    have hreceipt : run.receipt = (persistReceipt lib run.before run.receiptPath run.spec inputs
      outputs).2 := (congrArg Prod.snd (Except.ok.inj hran)).symm
    rw [hreceipt]
    exact ⟨inspectAll_records hbefore htruthful hinputs,
      inspectAll_records hbefore htruthful hrecorded, hsorted⟩
  | verified source =>
    simp only [hrecorder] at hran hobserved ⊢
    obtain ⟨_, -, hran⟩ := bind_eq_ok.mp hran
    obtain ⟨inputs, hinputs, hran⟩ := bind_eq_ok.mp hran
    obtain ⟨outputs, hrecorded, hran⟩ := bind_eq_ok.mp hran
    have hreceipt : run.receipt = (persistReceipt lib run.before run.receiptPath run.spec inputs
      (outputs.insertionSort fun a b => a.identity ≤ b.identity)).2 :=
      (congrArg Prod.snd (Except.ok.inj hran)).symm
    rw [hreceipt]
    refine ⟨inspectAll_records hbefore htruthful hinputs, ?_, hsorted⟩
    -- the records come in the order of the outputs, and are then sorted as the outputs are
    have hrecords : List.Forall₂ (fun p a => Records lib known run.before p a)
      run.outputs outputs :=
      ((List.forall₂_and_left _ _).mpr ⟨houtputs, Workers.forall₂_of_mapM_eq_ok hrecorded⟩).imp
        fun p a h => verifiedOutput_records hlib hbefore htruthful
          (hsource source hrecorder) h.1 h.2
    rw [List.forall₂_map_left_iff]
    exact forall₂_insertionSort (fun p a h => h.identity.symm) hrecords

theorem exists_of_mem_right {α β : Type} {R : α → β → Prop} {l : List α} {l' : List β}
    (h : List.Forall₂ R l l') {b : β} (hb : b ∈ l') : ∃ a ∈ l, R a b := by
  induction h with
  | nil => cases hb
  | cons hab _ ih =>
    rcases List.mem_cons.mp hb with rfl | hb
    · exact ⟨_, List.mem_cons_self, hab⟩
    · obtain ⟨a, ha, hab⟩ := ih hb
      exact ⟨a, List.mem_cons_of_mem _ ha, hab⟩

/-- What an authentic receipt says of its outputs is so. -/
theorem Authentic.outputs (hlib : lib.CollisionFree) (htruthful : Truthful lib known)
    {receipt : StageReceipt} (h : Authentic lib known locate receipt) :
    ∀ a ∈ receipt.outputs, TrueRecord lib known (locate a.identity) a := by
  induction h with
  | recorded run hsound hsource ih =>
    obtain ⟨-, hrecords, hpaths⟩ := run.records hlib htruthful hsound ih
    intro a ha
    obtain ⟨q, hq, hrecord⟩ := exists_of_mem_right hrecords ha
    have hmem : q.1 ∈ run.outputs :=
      mem_sortTracked.mp (hpaths ▸ List.mem_map_of_mem hq)
    rw [hrecord.identity, ← hsound.outputs _ hmem]
    exact hrecord.isTrue

/-! ## What is found again -/

theorem pathsMatch_iff {fs : FileSystem} {records : List ArtifactIdentity}
    {paths : List TrackedPath} : pathsMatch lib fs records paths = true ↔
      List.Forall₂ (fun a p => artifactMatches lib fs a p = true) records (sortTracked paths) := by
  unfold pathsMatch
  rw [List.forall₂_iff_zip, Bool.and_eq_true, decide_eq_true_eq, List.all_eq_true,
    show (sortTracked paths).length = paths.length from List.length_insertionSort ..]
  exact and_congr_right fun _ => ⟨fun h a p => h (a, p), fun h pair => @h pair.1 pair.2⟩

/-- Where all match, all is the same. -/
theorem same_of_pathsMatch (hlib : lib.CollisionFree) (htruthful : Truthful lib known)
    {later : FileSystem} (hconsistent : Consistent known later)
    {observed : List (TrackedPath × FileSystem)} {records : List ArtifactIdentity}
    {paths : List TrackedPath}
    (hrecords : List.Forall₂ (fun q a => Records lib known q.2 q.1 a) observed records)
    (hobserved : ∀ q ∈ observed, q.1.path = locate q.1.identity)
    (hpaths : ∀ p ∈ paths, p.path = locate p.identity)
    (hmatch : pathsMatch lib later records paths = true) :
    List.Forall₂ (Same later) observed (sortTracked paths) := by
  replace hmatch := pathsMatch_iff.mp hmatch
  replace hpaths : ∀ p ∈ sortTracked paths, p.path = locate p.identity :=
    fun p hp => hpaths p (mem_sortTracked.mp hp)
  revert hmatch hpaths
  generalize sortTracked paths = sorted
  intro hmatch hpaths
  induction hrecords generalizing sorted with
  | nil =>
    cases hmatch
    exact .nil
  | cons hrecord hrecords ih =>
    cases hmatch with
    | cons hfirst hmatch =>
    rw [List.forall_mem_cons] at hobserved hpaths
    refine .cons ?_ (ih hobserved.2 _ hmatch hpaths.2)
    obtain ⟨before, hbefore, hsha⟩ := hrecord.content
    -- one identity, so one path, and the record is of the file there
    have hidentity := (artifactMatches_identity hfirst).symm.trans hrecord.identity
    have hpath := hpaths.1.trans ((congrArg locate hidentity).trans hobserved.1.symm)
    obtain ⟨-, after, hafter, hsha'⟩ := artifactMatches_content hlib hconsistent htruthful
      (hpath ▸ hrecord.isTrue) hfirst
    exact ⟨hidentity, before, after, hbefore, hafter, hlib.sha256 _ _ (hsha'.trans hsha.symm)⟩

theorem Recording.spec_receipt {run : Recording} (hran : run.Ran lib) :
    run.receipt.spec = run.spec := by
  unfold Recording.Ran recordWith at hran
  cases hrecorder : run.recorder with
  | receipted =>
    simp only [hrecorder] at hran
    obtain ⟨_, -, hran⟩ := bind_eq_ok.mp hran
    obtain ⟨inputs, -, hran⟩ := bind_eq_ok.mp hran
    obtain ⟨outputs, -, hran⟩ := bind_eq_ok.mp hran
    exact congrArg (fun recorded : FileSystem × StageReceipt => recorded.2.spec)
      (Except.ok.inj hran).symm
  | plain =>
    simp only [hrecorder] at hran
    obtain ⟨_, -, hran⟩ := bind_eq_ok.mp hran
    obtain ⟨inputs, -, hran⟩ := bind_eq_ok.mp hran
    obtain ⟨outputs, -, hran⟩ := bind_eq_ok.mp hran
    exact congrArg (fun recorded : FileSystem × StageReceipt => recorded.2.spec)
      (Except.ok.inj hran).symm
  | verified source =>
    simp only [hrecorder] at hran
    obtain ⟨_, -, hran⟩ := bind_eq_ok.mp hran
    obtain ⟨inputs, -, hran⟩ := bind_eq_ok.mp hran
    obtain ⟨outputs, -, hran⟩ := bind_eq_ok.mp hran
    exact congrArg (fun recorded : FileSystem × StageReceipt => recorded.2.spec)
      (Except.ok.inj hran).symm

/-- **Stage receipts are sound.** A receipt that is found reusable was recorded for this stage,
and every input and output holds the bytes it held when it was recorded. -/
theorem reusable_sound (hlib : lib.CollisionFree) (htruthful : Truthful lib known) {run : Recording}
    (hsound : run.Sound lib known locate)
    (hsource : ∀ source, run.recorder = .verified source → Authentic lib known locate source)
    {later : FileSystem} (hconsistent : Consistent known later)
    (hkept : storedReceipt lib later run.receiptPath = some run.receipt) {spec : StageSpec}
    {inputs outputs : List TrackedPath} (hinputs : ∀ p ∈ inputs, p.path = locate p.identity)
    (houtputs : ∀ p ∈ outputs, p.path = locate p.identity)
    (h : reusable lib later run.receiptPath spec inputs outputs = true) :
    spec = run.spec ∧ List.Forall₂ (Same later) run.observedInputs (sortTracked inputs) ∧
      List.Forall₂ (Same later) (run.observedOutputs lib) (sortTracked outputs) := by
  obtain ⟨hrecordedInputs, hrecordedOutputs, hpaths⟩ :=
    run.records hlib htruthful hsound fun source hrun =>
      (hsource source hrun).outputs hlib htruthful
  unfold reusable at h
  simp only [hkept, Bool.and_eq_true] at h
  obtain ⟨⟨hspec, hin⟩, hout⟩ := h
  refine ⟨?_, ?_, ?_⟩
  · unfold receiptMatchesSpec at hspec
    simp only [Bool.and_eq_true, decide_eq_true_eq] at hspec
    exact hspec.1.1.2.symm.trans (Recording.spec_receipt hsound.ran)
  · refine same_of_pathsMatch hlib htruthful hconsistent hrecordedInputs
      (fun q hq => ?_) hinputs hin
    obtain ⟨p, hp, rfl⟩ := List.mem_map.mp hq
    exact hsound.inputs p (mem_sortTracked.mp hp)
  · refine same_of_pathsMatch hlib htruthful hconsistent hrecordedOutputs (fun q hq => ?_) houtputs
      hout
    exact hsound.outputs q.1 (mem_sortTracked.mp (hpaths ▸ List.mem_map_of_mem hq))

end Recordings

/-! ## A table that is computed again -/

namespace Monthly

def rowsPath : Path := ["data", "rows.json"]
def tablePath : Path := ["out", "gdp.parquet"]
def receiptPath : Path := ["_stages", "compute.json"]

def rowsBytes : List UInt8 := [0x5b, 0x5d]
def tableBytes : List UInt8 := [0x50, 0x41, 0x52, 0x31]

def summary : SemanticSummary :=
  ⟨[⟨"month", "string"⟩, ⟨"edits", "int64"⟩], 2, some "2026-07", some "2026-08", [("edits", 12)],
    "frwiki", "frwiki", "month"⟩

/-- What the table is receipted with, under the fingerprint of some inputs. -/
def receipt (inputs : String) : ArtifactReceipt :=
  ⟨1, "out/gdp.parquet", "fbc62d3b", 4, summary, "v1", inputs⟩

/-- The sidecar of inputs that have changed since. -/
def staleDocument : ArtifactReceiptDocument :=
  ⟨1, "b0553e9b", 6, receipt "e3b0c442"⟩

def freshDocument : ArtifactReceiptDocument :=
  ⟨1, "0b7e18e3", 6, receipt "d556b410"⟩

def sidecarBytes : List UInt8 := documentCodec.encode freshDocument

def rowsRecord : ArtifactIdentity :=
  ⟨"data/rows.json", 2, "4f53cda1", [], none, none, none, 5, none, [], "", ""⟩

def tableRecord : ArtifactIdentity :=
  receiptedIdentity "out/gdp.parquet" ⟨tableBytes, 6⟩ freshDocument

/-- The sidecar lies in the directory of the outputs, so it is recorded too, as it was rewritten. -/
def sidecarRecord : ArtifactIdentity :=
  ⟨"out/gdp.parquet.receipt.json", 370, "1ecee777", [], none, none, none, 10, none, [], "", ""⟩

def spec : StageSpec := ⟨"compute", "frwiki", some "2026-08", "v1"⟩

def stageReceipt : StageReceipt :=
  ⟨stageReceiptSchemaVersion, spec, "0.1.3", none, [rowsRecord], [tableRecord, sidecarRecord],
    "30115d70"⟩

/-- The SHA-256 of everything that is hashed, cut to eight characters. -/
def digests : List (List UInt8 × String) :=
  [(rowsBytes, "4f53cda1"),
    (tableBytes, "fbc62d3b"),
    (sidecarBytes, "1ecee777"),
    (artifactReceiptCodec.encode staleDocument.receipt, staleDocument.receiptSha256),
    (artifactReceiptCodec.encode freshDocument.receipt, freshDocument.receiptSha256),
    (identityCodec.list.encode [rowsRecord.deterministic], freshDocument.receipt.inputFingerprint),
    (seedCodec.encode stageReceipt.seed, stageReceipt.fingerprint)]

def library : StageLibrary := byteLibrary digests summary "0.1.3"

theorem library_collisionFree : library.CollisionFree :=
  byteLibrary_collisionFree ⟨by decide +kernel, by decide +kernel⟩ _ _

def before : FileSystem where
  files := [(rowsPath, ⟨rowsBytes, 5⟩), (tablePath, ⟨tableBytes, 6⟩),
    (sidecarPath tablePath, ⟨documentCodec.encode staleDocument, 7⟩)]
  clock := 10

/-- The sidecar has been rewritten. -/
def receipted : FileSystem := before.write (sidecarPath tablePath) sidecarBytes

def run : Recording where
  recorder := .receipted
  before := before
  receiptPath := receiptPath
  spec := spec
  inputs := inventory before [⟨["data"], "data"⟩]
  outputs := inventory before [⟨["out"], "out"⟩]
  after := receipted.write receiptPath (stageReceiptCodec.encode stageReceipt)
  receipt := stageReceipt

theorem run_ran : run.Ran library := by
  have hinputs : inspectAll library before run.inputs = .ok [rowsRecord] := by decide +kernel
  have houtputs : inspectReceiptedOutputs library spec.algorithmVersion
      (inputFingerprint library [rowsRecord]) before (sortTracked run.outputs)
        = .ok (receipted, [tableRecord, sidecarRecord]) := by
    decide +kernel
  have hpersisted : persistReceipt library receipted receiptPath spec [rowsRecord]
      [tableRecord, sidecarRecord] = (run.after, run.receipt) := by decide +kernel
  show record library before receiptPath spec run.inputs run.outputs = _
  refine bind_eq_ok.mpr ⟨(), ensure_eq_ok.mpr (by decide +kernel), ?_⟩
  refine bind_eq_ok.mpr ⟨_, hinputs, bind_eq_ok.mpr ⟨_, houtputs, ?_⟩⟩
  exact congrArg Except.ok hpersisted

/-- Every file that ever was, with when it was written. -/
def versions : List ((Path × ℕ) × List UInt8) :=
  [((rowsPath, 5), rowsBytes), ((tablePath, 6), tableBytes),
    ((sidecarPath tablePath, 7), documentCodec.encode staleDocument),
    ((sidecarPath tablePath, 10), sidecarBytes),
    ((receiptPath, 11), stageReceiptCodec.encode stageReceipt)]

def known (path : Path) (_ modified : ℕ) : List UInt8 :=
  (versions.lookup (path, modified)).getD []

def locate (identity : String) : Path :=
  if identity = "data/rows.json" then rowsPath
  else if identity = "out/gdp.parquet" then tablePath
  else sidecarPath tablePath

theorem consistent_of_files {fs : FileSystem}
    (h : ∀ entry ∈ fs.files, entry.2.bytes = known entry.1 entry.2.bytes.length entry.2.modified) :
    Consistent known fs :=
  fun path file hfile => h (path, file) (mem_of_lookup hfile)

theorem consistent_before : Consistent known before := consistent_of_files (by decide +kernel)

theorem consistent_receipted : Consistent known receipted :=
  consistent_of_files (by decide +kernel)

theorem consistent_after : Consistent known run.after := consistent_of_files (by decide +kernel)

/-- Only the two sidecars are receipts, and both are of the table as it is. -/
theorem known_truthful : Truthful library known := by
  have hversions : ∀ version ∈ versions, documentCodec.read version.2 = none ∨
      version.1.1 = sidecarPath tablePath ∧ (documentCodec.read version.2).all fun document =>
        library.sha256 (known tablePath document.receipt.bytes document.observedModifiedUnixNanos)
          = document.receipt.artifactSha256 := by
    decide +kernel
  intro artifact size modified document hread
  have hread : documentCodec.read (known (sidecarPath artifact) size modified) = some document :=
    hread
  unfold known at hread
  cases hversion : versions.lookup (sidecarPath artifact, modified) with
  | none =>
    have hempty : documentCodec.read [] = none := by decide +kernel
    rw [hversion, Option.getD_none, hempty] at hread
    cases hread
  | some bytes =>
    rw [hversion, Option.getD_some] at hread
    rcases hversions _ (mem_of_lookup hversion) with hnone | ⟨hpath, htrue⟩
    · exact absurd (hread.symm.trans hnone) (by simp)
    · have hartifact : artifact = tablePath := by
        rcases eq_or_ne artifact [] with rfl | hne
        · exact absurd (show sidecarPath [] = sidecarPath tablePath from hpath) (by decide +kernel)
        · exact sidecarPath_injective hne (by decide) hpath
      rw [hread, Option.all_some, decide_eq_true_eq] at htrue
      rw [hartifact]
      exact htrue

theorem run_sound : run.Sound library known locate where
  ran := run_ran
  before := consistent_before
  observed := by
    have hobserved : run.observedOutputs library
        = [(⟨"out/gdp.parquet", tablePath⟩, receipted),
          (⟨"out/gdp.parquet.receipt.json", sidecarPath tablePath⟩, receipted)] := by
      decide +kernel
    rw [hobserved]
    intro q hq
    rcases List.mem_pair.mp hq with rfl | rfl
    · exact consistent_receipted
    · exact consistent_receipted
  inputs := by decide +kernel
  outputs := by decide +kernel

/-- The table is the one that was recorded, and so is the sidecar that was rewritten for it. -/
theorem reusable_sound_monthly :
    reusable library run.after receiptPath spec run.inputs run.outputs = true ∧
      List.Forall₂ (Same run.after) (run.observedOutputs library) (sortTracked run.outputs) := by
  have hstored : storedReceipt library run.after receiptPath = some run.receipt := by
    unfold storedReceipt
    rw [show run.after.get receiptPath = some ⟨stageReceiptCodec.encode stageReceipt, 11⟩ from
      FileSystem.get_write_self _]
    exact stageReceiptCodec.read_encode stageReceipt
  have hreusable : reusable library run.after receiptPath spec run.inputs run.outputs = true := by
    decide +kernel
  exact ⟨hreusable, (reusable_sound library_collisionFree known_truthful run_sound
    (fun source h => by cases h) consistent_after hstored run_sound.inputs run_sound.outputs
    hreusable).2.2⟩

end Monthly

end WikiEcon.Stages
