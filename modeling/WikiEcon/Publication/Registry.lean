import Mathlib.Data.Nat.Notation
import Mathlib.Data.String.Basic
import WikiEcon.Lib.SortedMap
import WikiEcon.Rust

/-!
# What publication reads

The lifecycle registry, the index of the newest ready candidate of a wiki and the proofs
that a publication gate keeps of the wikis it covers, as `publication.rs` reads them.
`load_lifecycle` checks the states of a wiki; here a wiki whose states do not go together
cannot be written down.

A registry, an index or a proof is keyed by wiki, metric or family, and iterated in the
order of its keys (`SortedMap`). The metrics are ordered as they are declared. Fields that
no check of the gate looks at are left out.
-/

namespace WikiEcon.Publication

/-! ## The registry -/

/-- What readers see of a wiki. -/
inductive PublicationState
  | published
  | hidden
  | retired
  deriving DecidableEq

/-- Who starts the next run of a wiki: the schedule, an operator, or nobody while it is paused or
still under qualification. -/
inductive Refresh
  | scheduled
  | manual
  | paused
  | qualification
  deriving DecidableEq

/-- `matches!(refresh, "scheduled" | "manual")`. -/
def Refresh.isManaged : Refresh → Bool
  | .scheduled | .manual => true
  | .paused | .qualification => false

/-- A wiki is hidden during qualification and paused once retired. -/
structure LifecycleWiki where
  publication : PublicationState
  refresh : Refresh
  hidden_of_qualification : refresh = .qualification → publication = .hidden
  paused_of_retired : publication = .retired → refresh = .paused

/-- The registry by wiki, in the order that `BTreeMap` iterates in. -/
abbrev LifecycleRegistry := SortedMap String LifecycleWiki

/-- `publication == "published"`. -/
def LifecycleWiki.isPublished (lifecycle : LifecycleWiki) : Bool :=
  lifecycle.publication = .published

/-- A published wiki that is refreshed. -/
def LifecycleWiki.isManaged (lifecycle : LifecycleWiki) : Bool :=
  lifecycle.isPublished && lifecycle.refresh.isManaged

/-- `publication == "published"` of an entry of the registry. -/
def isPublishedEntry (entry : String × LifecycleWiki) : Bool := entry.2.isPublished

/-- `LifecycleWiki.isManaged` of an entry of the registry. -/
def isManagedEntry (entry : String × LifecycleWiki) : Bool := entry.2.isManaged

/-! ## Metrics -/

/-- The metrics in the order of their declaration. -/
inductive MetricId
  | businessFunnel
  | gdp
  | gdpActivityTiers
  | gdpUserTypeShare
  | inequality
  | laborChurn
  | laborCohorts
  | laborMonthly
  | pageWeeklyEdits
  | patrol
  deriving DecidableEq

/-- The file name of a metric, without its extension. -/
def MetricId.asStr : MetricId → String
  | .businessFunnel => "business_funnel"
  | .gdp => "gdp"
  | .gdpActivityTiers => "gdp_activity_tiers"
  | .gdpUserTypeShare => "gdp_user_type_share"
  | .inequality => "inequality"
  | .laborChurn => "labor_churn"
  | .laborCohorts => "labor_cohorts"
  | .laborMonthly => "labor_monthly"
  | .pageWeeklyEdits => "page_weekly_edits"
  | .patrol => "patrol"

/-- The position in the declaration, which the derived order goes by. -/
def MetricId.index : MetricId → ℕ
  | .businessFunnel => 0
  | .gdp => 1
  | .gdpActivityTiers => 2
  | .gdpUserTypeShare => 3
  | .inequality => 4
  | .laborChurn => 5
  | .laborCohorts => 6
  | .laborMonthly => 7
  | .pageWeeklyEdits => 8
  | .patrol => 9

/-- The derived order is total, since no two metrics share a position. -/
theorem MetricId.index_injective : Function.Injective MetricId.index := by
  intro a b h
  cases a <;> cases b <;> first | rfl | exact absurd h (by decide)

instance : LinearOrder MetricId := LinearOrder.lift' MetricId.index MetricId.index_injective

/-- A column of a Parquet schema. -/
structure FieldIdentity where
  name : String
  dataType : String
  deriving DecidableEq

/-- What two wikis must have in common for one metric of theirs to be merged. -/
structure CandidateMergeContract where
  parquetSchema : List FieldIdentity
  algorithmVersion : String
  deriving DecidableEq

/-! ## Candidates and proofs -/

/-- A candidate that is ready, under the snapshot and the run it was computed from, with the
receipts that vouch for each family of its metrics. -/
structure ReadyCandidateReference where
  candidateRelative : String
  snapshot : String
  runId : String
  coreFamilyReceiptIdentities : SortedMap String String
  patrolReceiptIdentity : String
  readyReceiptSha256 : String
  deriving DecidableEq

def readyIndexSchemaVersion : ℕ := 2

/-- The newest candidate of a wiki, beside the one that is live if there is one. -/
structure ReadyCandidateIndex where
  schemaVersion : ℕ
  wiki : String
  newestValidReady : ReadyCandidateReference
  activePublished : Option ReadyCandidateReference

/-- The receipt that a family of metrics was published under. -/
structure FamilyPublicationProof where
  receiptIdentity : String
  algorithmVersion : String
  deriving DecidableEq

/-- What a gate keeps of a wiki that it covers: one snapshot for all families. -/
structure WikiPublicationProof where
  snapshot : String
  families : SortedMap String FamilyPublicationProof

end WikiEcon.Publication
