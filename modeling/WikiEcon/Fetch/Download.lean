import Mathlib.Data.List.Infix
import WikiEcon.Rust

/-!
# Downloading a file

`download_file_with_transport` of `fetch.rs`: the remote file is probed, a plan says where
to resume from, and attempts follow until one ends without an error, one fails for good, or
there were `FETCH_MAX_RETRIES` of them.

The server is what it answers to each request in turn. A body may be cut anywhere, with an
error or without one; the code takes an end without an error for the end of the file.
Waiting, progress and the operations on the local file, which do not fail, are left out.
-/

namespace WikiEcon.Fetch

abbrev Bytes := List UInt8

def fetchMaxRetries : ℕ := 6

/-- `BZh`. -/
def bz2Magic : Bytes := [66, 90, 104]

def isSuccess (status : ℕ) : Bool := 200 ≤ status && status < 300

def isRetryableStatus (status : ℕ) : Bool :=
  status == 408 || status == 429 || (500 ≤ status && status < 600)

/-! ## The probe -/

structure RemoteFileInfo where
  contentLength : Option ℕ
  acceptsRanges : Bool
deriving DecidableEq, Repr

/-- What a `HEAD` request gets: an error, or a status with what the headers say. -/
inductive Head
  | error (message : String)
  | response (status : ℕ) (info : RemoteFileInfo)
deriving DecidableEq, Repr

/-- `probe_remote_file`, with this many attempts left. -/
def probeRemoteFile : ℕ → (ℕ → Head) → Except String (Option RemoteFileInfo)
  | 0, _ => .ok none
  | attempts + 1, heads =>
    match heads 0 with
    | .error _ => probeRemoteFile attempts fun n => heads (n + 1)
    | .response status info =>
      if isSuccess status then .ok (some info)
      else if status = 405 ∨ status = 501 ∨ status = 403 then .ok none
      else if status = 404 then .error "HTTP 404"
      else if isRetryableStatus status then probeRemoteFile attempts fun n => heads (n + 1)
      else .ok none

/-! ## The plan -/

structure DownloadPlan where
  resumeFrom : ℕ
  totalSize : Option ℕ
  acceptsRanges : Bool
deriving DecidableEq, Repr

/-- `plan_download`: the plan, unless the file is there already, and the file left behind. -/
def planDownload (dest : Option Bytes) (remote : Option RemoteFileInfo) :
    Option DownloadPlan × Option Bytes :=
  let localSize := (dest.getD []).length
  if localSize = 0 then
    (some ⟨0, remote.bind RemoteFileInfo.contentLength,
      remote.any RemoteFileInfo.acceptsRanges⟩, dest)
  else
    match remote with
    | none => (some ⟨0, none, false⟩, none)
    | some info =>
      match info.contentLength with
      | none => (some ⟨0, none, info.acceptsRanges⟩, none)
      | some totalSize =>
        if localSize = totalSize then (none, dest)
        else if localSize > totalSize then (some ⟨0, some totalSize, info.acceptsRanges⟩, none)
        else if info.acceptsRanges then (some ⟨localSize, some totalSize, true⟩, dest)
        else (some ⟨0, some totalSize, false⟩, none)

/-! ## An attempt -/

inductive Ending
  | clean
  | broken
deriving DecidableEq, Repr

/-- What the server does with a `GET`. -/
inductive Answer
  | unreachable (message : String)
  /-- A status that is no success. -/
  | refused (status : ℕ)
  /-- The file, or the part of it that was asked for; `missing` bytes of it are not
  delivered. -/
  | body (partialContent : Bool) (missing : ℕ) (ending : Ending)
deriving DecidableEq, Repr

/-- The body delivered, to a request from this offset. -/
def bodyOf (content : Bytes) (partialContent : Bool) (missing : ℕ) (rangeStart : Option ℕ) :
    Bytes :=
  let whole := if partialContent then content.drop (rangeStart.getD 0) else content
  whole.take (whole.length - missing)

structure AttemptError where
  error : String
  retryable : Bool
deriving DecidableEq, Repr

/-- `download_attempt`, and the file left behind. -/
def downloadAttempt (content : Bytes) (answer : Answer) (plan : DownloadPlan)
    (dest : Option Bytes) : Except AttemptError ℕ × Option Bytes :=
  let rangeStart := if 0 < plan.resumeFrom ∧ plan.acceptsRanges then some plan.resumeFrom else none
  match answer with
  | .unreachable message => (.error ⟨message, true⟩, dest)
  | .refused status => (.error ⟨"HTTP " ++ toString status, isRetryableStatus status⟩, dest)
  | .body partialContent missing ending =>
    let append := decide (0 < plan.resumeFrom) && partialContent
    -- what the file starts with: opened for appending, or created
    let start := if append then dest else some []
    match start with
    | none => (.error ⟨"cannot open file", false⟩, dest)
    | some start =>
      let file := start ++ bodyOf content partialContent missing rangeStart
      match ending with
      | .clean => (.ok ((if append then plan.resumeFrom else 0)
          + (bodyOf content partialContent missing rangeStart).length), some file)
      | .broken => (.error ⟨"interrupted", true⟩, some file)

/-- `verify_bz2_magic`. -/
def verifyBz2Magic (dest : Option Bytes) : Except String Unit :=
  ensure ((dest.getD []).take 3 = bz2Magic) "downloaded file does not begin with bz2 magic"

/-! ## The loop -/

/-- How a call ends: its result, the file, and how many attempts it made. -/
structure Download where
  result : Except String Unit
  dest : Option Bytes
  attempts : ℕ

/-- Before a retry: resume from what is there, or start again. -/
def retryFrom (plan : DownloadPlan) (dest : Option Bytes) : DownloadPlan × Option Bytes :=
  match plan.acceptsRanges, dest with
  | true, some file => ({ plan with resumeFrom := file.length }, some file)
  | _, _ => ({ plan with resumeFrom := 0 }, none)

/-- An attempt that returned: the file is kept if it starts as a `bz2` file does. -/
def finish (dest : Option Bytes) : Download :=
  match verifyBz2Magic dest with
  | .ok _ => ⟨.ok (), dest, 1⟩
  | .error error => ⟨.error error, none, 1⟩

/-- The last attempt failed: the file is kept where it can be resumed from. -/
def giveUp (plan : DownloadPlan) (error : AttemptError) (dest : Option Bytes) : Download :=
  ⟨.error error.error, if plan.acceptsRanges then dest else none, 1⟩

/-- The loop, with this many retries left. -/
def downloadLoop (content : Bytes) :
    (retries : ℕ) → (ℕ → Answer) → DownloadPlan → Option Bytes → Download
  | retries, answers, plan, dest =>
    let attempt := downloadAttempt content (answers 0) plan dest
    match attempt.1 with
    | .ok _ => finish attempt.2
    | .error error =>
      match retries with
      | 0 => giveUp plan error attempt.2
      | retries + 1 =>
        if error.retryable then
          let next := retryFrom plan attempt.2
          let later := downloadLoop content retries (fun n => answers (n + 1)) next.1 next.2
          { later with attempts := later.attempts + 1 }
        else giveUp plan error attempt.2

/-- Nothing to do, or the loop from its first attempt. -/
def download (content : Bytes) (answers : ℕ → Answer) :
    Option DownloadPlan × Option Bytes → Download
  | (none, dest) => ⟨.ok (), dest, 0⟩
  | (some plan, dest) => downloadLoop content (fetchMaxRetries - 1) answers plan dest

/-- `download_file_with_transport`. -/
def downloadFileWithTransport (content : Bytes) (heads : ℕ → Head) (answers : ℕ → Answer)
    (dest : Option Bytes) : Download :=
  match probeRemoteFile fetchMaxRetries heads with
  | .error error => ⟨.error error, dest, 0⟩
  | .ok remote => download content answers (planDownload dest remote)

/-! ## How far the server has got -/

/-- The loop tries again after this answer. -/
def Answer.retryable : Answer → Bool
  | .unreachable _ => true
  | .refused status => isRetryableStatus status
  | .body _ _ ending => ending == .broken

/-- The position in the file up to which an answer delivers it, to a request from `held`. -/
def reached (total held : ℕ) : Answer → ℕ
  | .body partialContent missing _ =>
    if partialContent ∧ 0 < held then max held (total - missing) else total - missing
  | _ => held

/-- The position before the answer of this number: what was delivered is kept only where the
server takes ranges. -/
def heldBefore (acceptsRanges : Bool) (total start : ℕ) (answers : ℕ → Answer) : ℕ → ℕ
  | 0 => start
  | k + 1 =>
    if acceptsRanges then reached total (heldBefore acceptsRanges total start answers k) (answers k)
    else 0

/-- The first answer that is not tried again is a body that ends without an error, before the
end of the file and after its first three bytes. -/
def CutShort (content : Bytes) (acceptsRanges : Bool) (start retries : ℕ) (answers : ℕ → Answer) :
    Prop :=
  ∃ k ≤ retries, (∀ j < k, (answers j).retryable = true) ∧
    (∃ partialContent missing, answers k = .body partialContent missing .clean) ∧
    content.take 3 = bz2Magic ∧
    3 ≤ reached content.length (heldBefore acceptsRanges content.length start answers k)
      (answers k) ∧
    reached content.length (heldBefore acceptsRanges content.length start answers k) (answers k)
      < content.length

section Proof

variable {content : Bytes} {plan : DownloadPlan} {dest : Option Bytes} {answers : ℕ → Answer}

/-- Absent, or a prefix of the remote file. -/
def Resumable (content : Bytes) (dest : Option Bytes) : Prop := ∀ file ∈ dest, file <+: content

/-- The file on disk is the remote file up to where the plan resumes from. -/
structure Holds (content : Bytes) (plan : DownloadPlan) (dest : Option Bytes) : Prop where
  le : plan.resumeFrom ≤ content.length
  file : dest = some (content.take plan.resumeFrom) ∨ plan.resumeFrom = 0 ∧ dest = none
  ranges : 0 < plan.resumeFrom → plan.acceptsRanges = true

theorem Holds.resumable (h : Holds content plan dest) : Resumable content dest := by
  rintro file hfile
  rcases h.file with rfl | ⟨-, rfl⟩
  · cases hfile
    exact List.take_prefix _ _
  · cases hfile

theorem reached_le {total held : ℕ} (h : held ≤ total) (answer : Answer) :
    reached total held answer ≤ total := by
  unfold reached
  split
  · split <;> omega
  · exact h

theorem heldBefore_succ (acceptsRanges : Bool) (total start : ℕ) (answers : ℕ → Answer) (k : ℕ) :
    heldBefore acceptsRanges total start answers (k + 1)
      = heldBefore acceptsRanges total
          (if acceptsRanges then reached total start (answers 0) else 0)
          (fun n => answers (n + 1)) k := by
  induction k with
  | zero => rfl
  | succ k ih =>
    rw [heldBefore, ih]
    rfl

theorem reached_resumed {total held : ℕ} (hheld : 0 < held) (missing : ℕ) (ending : Ending) :
    reached total held (.body true missing ending) = max held (total - missing) :=
  if_pos ⟨rfl, hheld⟩

theorem reached_restarted {total held : ℕ} {partialContent : Bool}
    (h : partialContent = false ∨ held = 0) (missing : ℕ) (ending : Ending) :
    reached total held (.body partialContent missing ending) = total - missing := by
  refine if_neg fun hand => ?_
  rcases h with rfl | rfl
  · exact absurd hand.1 (by decide)
  · exact absurd hand.2 (lt_irrefl 0)

/-- What is on disk after a body. -/
theorem file_eq (h : Holds content plan dest) (partialContent : Bool) (missing : ℕ)
    (ending : Ending) :
    ∃ file, (if (decide (0 < plan.resumeFrom) && partialContent) = true then dest else some [])
        = some file ∧
      file ++ bodyOf content partialContent missing
          (if 0 < plan.resumeFrom ∧ plan.acceptsRanges = true then some plan.resumeFrom else none)
        = content.take (reached content.length plan.resumeFrom
            (.body partialContent missing ending)) := by
  have hle := h.le
  cases partialContent with
  | false =>
    refine ⟨[], by rw [Bool.and_false]; rfl, ?_⟩
    rw [List.nil_append, reached_restarted (Or.inl rfl)]
    rfl
  | true =>
    rw [Bool.and_true]
    by_cases hresume : 0 < plan.resumeFrom
    · -- the suffix is appended to what was there
      rcases h.file with hfile | ⟨hzero, -⟩
      · refine ⟨content.take plan.resumeFrom, by rw [if_pos (decide_eq_true hresume), hfile], ?_⟩
        rw [if_pos ⟨hresume, h.ranges hresume⟩, reached_resumed hresume]
        show content.take plan.resumeFrom ++ (content.drop plan.resumeFrom).take
          ((content.drop plan.resumeFrom).length - missing) = _
        rw [← List.take_add, List.length_drop]
        congr 1
        omega
      · omega
    · refine ⟨[], if_neg (by simpa using hresume), ?_⟩
      rw [if_neg (fun hand => hresume hand.1), List.nil_append,
        reached_restarted (Or.inr (by omega))]
      rfl

/-- **One attempt**: what it returns, and what is on disk after it. -/
theorem downloadAttempt_spec (h : Holds content plan dest) (answer : Answer) :
    ((downloadAttempt content answer plan dest).2
        = some (content.take (reached content.length plan.resumeFrom answer)) ∨
      reached content.length plan.resumeFrom answer = 0 ∧
        (downloadAttempt content answer plan dest).2 = none) ∧
    ((∃ partialContent missing, answer = .body partialContent missing .clean) ∧
        (∃ n, (downloadAttempt content answer plan dest).1 = .ok n) ∧
        (downloadAttempt content answer plan dest).2
          = some (content.take (reached content.length plan.resumeFrom answer)) ∨
      (¬∃ partialContent missing, answer = .body partialContent missing .clean) ∧
        ∃ message, (downloadAttempt content answer plan dest).1
          = .error ⟨message, answer.retryable⟩) := by
  unfold downloadAttempt
  cases answer with
  | unreachable message => exact ⟨h.file, Or.inr ⟨by simp, message, rfl⟩⟩
  | refused status => exact ⟨h.file, Or.inr ⟨by simp, _, rfl⟩⟩
  | body partialContent missing ending =>
    obtain ⟨file, hstart, hfile⟩ := file_eq h partialContent missing ending
    dsimp only
    rw [hstart]
    cases ending with
    | clean => exact ⟨Or.inl (congrArg some hfile),
        Or.inl ⟨⟨partialContent, missing, rfl⟩, ⟨_, rfl⟩, congrArg some hfile⟩⟩
    | broken => exact ⟨Or.inl (congrArg some hfile), Or.inr ⟨by simp, _, rfl⟩⟩

theorem retryFrom_holds {held : ℕ} (hle : held ≤ content.length)
    (hfile : dest = some (content.take held) ∨ held = 0 ∧ dest = none) :
    Holds content (retryFrom plan dest).1 (retryFrom plan dest).2 ∧
      (retryFrom plan dest).1.resumeFrom = (if plan.acceptsRanges then held else 0) ∧
      (retryFrom plan dest).1.acceptsRanges = plan.acceptsRanges := by
  unfold retryFrom
  cases hranges : plan.acceptsRanges with
  | false => exact ⟨⟨Nat.zero_le _, Or.inr ⟨rfl, rfl⟩, fun hpos => absurd hpos (lt_irrefl 0)⟩, rfl,
      rfl⟩
  | true =>
    rcases hfile with rfl | ⟨rfl, rfl⟩
    · have hlength : (content.take held).length = held := by
        rw [List.length_take]
        omega
      refine ⟨⟨?_, Or.inl ?_, fun _ => rfl⟩, hlength, rfl⟩
      · show (content.take held).length ≤ content.length
        omega
      · show some (content.take held) = some (content.take (content.take held).length)
        rw [hlength]
    · exact ⟨⟨Nat.zero_le _, Or.inr ⟨rfl, rfl⟩, fun hpos => absurd hpos (lt_irrefl 0)⟩, rfl, rfl⟩

theorem verifyBz2Magic_take {r : ℕ} : verifyBz2Magic (some (content.take r)) = .ok () ↔
    content.take 3 = bz2Magic ∧ 3 ≤ r := by
  unfold verifyBz2Magic
  rw [ensure_eq_ok]
  show (content.take r).take 3 = bz2Magic ↔ _
  rw [List.take_take]
  constructor
  · intro h
    have hlength := congrArg List.length h
    rw [List.length_take] at hlength
    have hthree : bz2Magic.length = 3 := rfl
    have hmin : min 3 r = 3 := by omega
    rw [hmin] at h
    exact ⟨h, by omega⟩
  · rintro ⟨h, hr⟩
    rwa [Nat.min_eq_left hr]

theorem cutShort_step {acceptsRanges : Bool} {start retries : ℕ}
    (hretry : (answers 0).retryable = true) :
    CutShort content acceptsRanges start (retries + 1) answers ↔
      CutShort content acceptsRanges
        (if acceptsRanges then reached content.length start (answers 0) else 0) retries
        fun n => answers (n + 1) := by
  constructor
  · rintro ⟨k, hk, hbefore, ⟨partialContent, missing, hbody⟩, hmagic, hsome, hless⟩
    cases k with
    | zero =>
      rw [hbody] at hretry
      exact absurd hretry (by simp [Answer.retryable])
    | succ k =>
      rw [heldBefore_succ] at hsome hless
      exact ⟨k, by omega, fun j hj => hbefore (j + 1) (by omega), ⟨partialContent, missing, hbody⟩,
        hmagic, hsome, hless⟩
  · rintro ⟨k, hk, hbefore, hbody, hmagic, hsome, hless⟩
    refine ⟨k + 1, by omega, fun j hj => ?_, hbody, hmagic, ?_, ?_⟩
    · cases j with
      | zero => exact hretry
      | succ j => exact hbefore j (by omega)
    · rw [heldBefore_succ]
      exact hsome
    · rw [heldBefore_succ]
      exact hless

/-- An answer that is not tried again is the only one that can be cut short. -/
theorem cutShort_settled {acceptsRanges : Bool} {start retries : ℕ}
    (hsettled : (answers 0).retryable = false ∨ retries = 0) :
    CutShort content acceptsRanges start retries answers ↔
      (∃ partialContent missing, answers 0 = .body partialContent missing .clean) ∧
        content.take 3 = bz2Magic ∧ 3 ≤ reached content.length start (answers 0) ∧
        reached content.length start (answers 0) < content.length := by
  constructor
  · rintro ⟨k, hk, hbefore, hrest⟩
    cases k with
    | zero => exact hrest
    | succ k =>
      rcases hsettled with hsettled | rfl
      · exact absurd (hbefore 0 (by omega)) (by simp [hsettled])
      · omega
  · rintro hrest
    exact ⟨0, Nat.zero_le _, fun j hj => absurd hj (Nat.not_lt_zero j), hrest⟩

/-- How the loop ends. -/
structure Ends (content : Bytes) (limit : ℕ) (short : Prop) (download : Download) : Prop where
  attempts : download.attempts ≤ limit
  resumable : ∀ error, download.result = .error error → Resumable content download.dest
  complete : (download.result = .ok () → download.dest = some content) ↔ ¬short

theorem resumable_none : Resumable content none := fun _ h => absurd h (by simp)

theorem Ends.of_error {limit : ℕ} {short : Prop} {download : Download} {error : String}
    (hattempts : download.attempts ≤ limit) (herror : download.result = .error error)
    (hresumable : Resumable content download.dest) (hshort : ¬short) :
    Ends content limit short download :=
  ⟨hattempts, fun _ _ => hresumable,
    iff_of_true (fun hok => absurd (herror.symm.trans hok) (by simp)) hshort⟩

theorem finish_ends {limit : ℕ} (hlimit : 1 ≤ limit) (r : ℕ) :
    Ends content limit (content.take 3 = bz2Magic ∧ 3 ≤ r ∧ r < content.length)
      (finish (some (content.take r))) := by
  unfold finish
  cases hmagic : verifyBz2Magic (some (content.take r)) with
  | error error =>
    refine .of_error hlimit rfl resumable_none fun hshort => ?_
    exact absurd (hmagic.symm.trans (verifyBz2Magic_take.mpr ⟨hshort.1, hshort.2.1⟩)) (by simp)
  | ok u =>
    obtain ⟨hbz2, hthree⟩ := verifyBz2Magic_take.mp hmagic
    refine ⟨hlimit, fun _ herror => absurd herror (by simp), ?_⟩
    show (_ → some (content.take r) = some content) ↔ _
    rw [Option.some.injEq, List.take_eq_self_iff]
    constructor
    · intro h hshort
      have := h rfl
      omega
    · intro h _
      by_contra hless
      exact h ⟨hbz2, hthree, by omega⟩

theorem giveUp_ends {limit : ℕ} {short : Prop} (hlimit : 1 ≤ limit) (plan : DownloadPlan)
    (error : AttemptError) (hresumable : Resumable content dest) (hshort : ¬short) :
    Ends content limit short (giveUp plan error dest) := by
  refine .of_error hlimit rfl ?_ hshort
  show Resumable content (if plan.acceptsRanges = true then dest else none)
  split
  · exact hresumable
  · exact resumable_none

theorem resumable_take {r : ℕ} (h : dest = some (content.take r) ∨ r = 0 ∧ dest = none) :
    Resumable content dest := by
  rcases h with rfl | ⟨-, rfl⟩
  · intro file hfile
    cases hfile
    exact List.take_prefix _ _
  · exact resumable_none

/-- **The loop**: it reports a file as finished that is not only where an answer was cut
short. -/
theorem downloadLoop_ends (retries : ℕ) : ∀ {answers : ℕ → Answer} {plan : DownloadPlan}
    {dest : Option Bytes}, Holds content plan dest →
      Ends content (retries + 1)
        (CutShort content plan.acceptsRanges plan.resumeFrom retries answers)
        (downloadLoop content retries answers plan dest) := by
  induction retries with
  | zero =>
    intro answers plan dest h
    rw [cutShort_settled (Or.inr rfl)]
    obtain ⟨hleft, ⟨hbody, ⟨n, hok⟩, hfile⟩ | ⟨hnot, message, herror⟩⟩ :=
      downloadAttempt_spec h (answers 0)
    · unfold downloadLoop
      simp only [hok, hfile]
      have hfinish : Ends content 1 _ _ := finish_ends (le_refl 1)
        (reached content.length plan.resumeFrom (answers 0))
      exact ⟨hfinish.attempts, hfinish.resumable, hfinish.complete.trans
        (not_congr (and_iff_right hbody).symm)⟩
    · unfold downloadLoop
      simp only [herror]
      exact giveUp_ends (le_refl _) plan _ (resumable_take hleft) fun hshort => hnot hshort.1
  | succ retries ih =>
    intro answers plan dest h
    obtain ⟨hleft, ⟨hbody, ⟨n, hok⟩, hfile⟩ | ⟨hnot, message, herror⟩⟩ :=
      downloadAttempt_spec h (answers 0)
    · have hsettled : (answers 0).retryable = false := by
        obtain ⟨partialContent, missing, heq⟩ := hbody
        rw [heq]
        rfl
      rw [cutShort_settled (Or.inl hsettled)]
      unfold downloadLoop
      simp only [hok, hfile]
      have hfinish : Ends content (retries + 2) _ _ := finish_ends (by omega)
        (reached content.length plan.resumeFrom (answers 0))
      exact ⟨hfinish.attempts, hfinish.resumable, hfinish.complete.trans
        (not_congr (and_iff_right hbody).symm)⟩
    · unfold downloadLoop
      simp only [herror]
      by_cases hretry : (answers 0).retryable = true
      · -- what is on disk now is where the next attempt resumes from
        obtain ⟨hnext, hresume, hranges⟩ := @retryFrom_holds content plan _ _
          (reached_le h.le (answers 0)) hleft
        have hlater := @ih (fun n => answers (n + 1)) _ _ hnext
        rw [hresume, hranges] at hlater
        rw [if_pos hretry, cutShort_step hretry]
        exact ⟨Nat.succ_le_succ hlater.attempts, hlater.resumable, hlater.complete⟩
      · rw [if_neg hretry, cutShort_settled (Or.inl (by simpa using hretry))]
        exact giveUp_ends (by omega) plan _ (resumable_take hleft) fun hshort => hnot hshort.1

end Proof

/-! ## A call -/

/-- The server answers `HEAD` truthfully, or not at all: it never says that there is no such
file, and a length it gives is the length. -/
def TruthfulHeads (content : Bytes) (heads : ℕ → Head) : Prop :=
  ∀ n status info, heads n = .response status info → status ≠ 404 ∧
    (isSuccess status = true → ∀ length ∈ info.contentLength, length = content.length)

/-- What may be there before: nothing, a prefix of the file, or something longer. -/
def StartsFrom (content : Bytes) (dest : Option Bytes) : Prop :=
  ∀ file ∈ dest, file <+: content ∨ content.length < file.length

/-- The length is known from `HEAD`. -/
def LengthKnown (heads : ℕ → Head) : Prop :=
  ∃ info, probeRemoteFile fetchMaxRetries heads = .ok (some info) ∧ info.contentLength.isSome = true

/-- What is promised of a call. -/
structure Faithful (content : Bytes) (heads : ℕ → Head) (download : Download) : Prop where
  attempts : download.attempts ≤ fetchMaxRetries
  complete : download.result = .ok () → LengthKnown heads → download.dest = some content
  resumable : ∀ error, download.result = .error error → Resumable content download.dest

/-- The length is known, and a download is planned that an answer cuts short. -/
def EndsShort (content : Bytes) (heads : ℕ → Head) (answers : ℕ → Answer) (dest : Option Bytes) :
    Prop :=
  LengthKnown heads ∧ ∃ remote plan, probeRemoteFile fetchMaxRetries heads = .ok remote ∧
    (planDownload dest remote).1 = some plan ∧
    CutShort content plan.acceptsRanges plan.resumeFrom (fetchMaxRetries - 1) answers

section Call

variable {content : Bytes} {dest : Option Bytes}

/-- Every length the probe returns is the length. -/
theorem probeRemoteFile_truthful (attempts : ℕ) : ∀ {heads : ℕ → Head},
    TruthfulHeads content heads → ∃ remote, probeRemoteFile attempts heads = .ok remote ∧
      ∀ info ∈ remote, ∀ length ∈ info.contentLength, length = content.length := by
  induction attempts with
  | zero => exact fun _ => ⟨none, rfl, fun _ h => absurd h (by simp)⟩
  | succ attempts ih =>
    intro heads h
    have hlater := ih fun n status info heq => h (n + 1) status info heq
    unfold probeRemoteFile
    cases hhead : heads 0 with
    | error message => exact hlater
    | response status info =>
      obtain ⟨hfound, hlength⟩ := h 0 status info hhead
      dsimp only
      by_cases hsuccess : isSuccess status = true
      · rw [if_pos hsuccess]
        refine ⟨some info, rfl, fun other hother => ?_⟩
        cases hother
        exact hlength hsuccess
      · rw [if_neg hsuccess]
        by_cases hunsupported : status = 405 ∨ status = 501 ∨ status = 403
        · rw [if_pos hunsupported]
          exact ⟨none, rfl, fun _ h => absurd h (by simp)⟩
        · rw [if_neg hunsupported, if_neg hfound]
          split
          · exact hlater
          · exact ⟨none, rfl, fun _ h => absurd h (by simp)⟩

/-- What a plan finds on disk, and what there is when none is needed. -/
theorem planDownload_spec (hstart : StartsFrom content dest) {remote : Option RemoteFileInfo}
    (htruthful : ∀ info ∈ remote, ∀ length ∈ info.contentLength, length = content.length) :
    (∀ plan, (planDownload dest remote).1 = some plan →
        Holds content plan (planDownload dest remote).2) ∧
      ((planDownload dest remote).1 = none → (planDownload dest remote).2 = some content) := by
  -- To start over is always a plan that holds.
  have hnone : ∀ plan : DownloadPlan, plan.resumeFrom = 0 → Holds content plan none := fun plan h =>
    ⟨by omega, Or.inr ⟨h, rfl⟩, fun hpos => by omega⟩
  unfold planDownload
  dsimp only
  by_cases hempty : (dest.getD []).length = 0
  · rw [if_pos hempty]
    refine ⟨fun plan hplan => ?_, fun h => absurd h (by simp)⟩
    cases hplan
    refine ⟨Nat.zero_le _, ?_, fun hpos => absurd hpos (lt_irrefl 0)⟩
    cases dest with
    | none => exact Or.inr ⟨rfl, rfl⟩
    | some file => exact Or.inl (congrArg some (List.length_eq_zero_iff.mp hempty))
  · rw [if_neg hempty]
    cases remote with
    | none =>
      refine ⟨fun plan hplan => ?_, fun h => absurd h (by simp)⟩
      cases hplan
      exact hnone _ rfl
    | some info =>
      dsimp only
      cases hlength : info.contentLength with
      | none =>
        refine ⟨fun plan hplan => ?_, fun h => absurd h (by simp)⟩
        cases hplan
        exact hnone _ rfl
      | some totalSize =>
        obtain rfl := htruthful info rfl totalSize hlength
        obtain ⟨file, rfl⟩ : ∃ file, dest = some file := by
          cases dest with
          | none => exact absurd rfl hempty
          | some file => exact ⟨file, rfl⟩
        have hfile := hstart file rfl
        simp only [Option.getD_some]
        by_cases hsame : file.length = content.length
        · -- a prefix as long as the file is the file
          rw [if_pos hsame]
          refine ⟨fun plan hplan => absurd hplan (by simp), fun _ => ?_⟩
          exact congrArg some ((hfile.resolve_right (by omega)).eq_of_length hsame)
        · rw [if_neg hsame]
          -- A longer file cannot be a start of it; it is removed.
          by_cases hlonger : file.length > content.length
          · rw [if_pos hlonger]
            refine ⟨fun plan hplan => ?_, fun h => absurd h (by simp)⟩
            cases hplan
            exact hnone _ rfl
          · rw [if_neg hlonger]
            -- A shorter one is a start, and is resumed where ranges are accepted.
            by_cases hranges : info.acceptsRanges = true
            · rw [if_pos hranges]
              refine ⟨fun plan hplan => ?_, fun h => absurd h (by simp)⟩
              cases hplan
              have hstart := hfile.resolve_right hlonger
              refine ⟨hstart.length_le, Or.inl (congrArg some ?_), fun _ => rfl⟩
              exact List.prefix_iff_eq_take.mp hstart
            · rw [if_neg hranges]
              refine ⟨fun plan hplan => ?_, fun h => absurd h (by simp)⟩
              cases hplan
              exact hnone _ rfl

/-- **A finished download is the remote file**, unless an answer was cut short: everything
else that is promised of a call holds of every call, and this exactly then. -/
theorem download_faithful (content : Bytes) (heads : ℕ → Head) (answers : ℕ → Answer)
    (dest : Option Bytes) (hheads : TruthfulHeads content heads)
    (hstart : StartsFrom content dest) :
    Faithful content heads (downloadFileWithTransport content heads answers dest) ↔
      ¬EndsShort content heads answers dest := by
  obtain ⟨remote, hprobe, htruthful⟩ := probeRemoteFile_truthful fetchMaxRetries hheads
  obtain ⟨hplanned, hdone⟩ := planDownload_spec hstart htruthful
  have hrun : downloadFileWithTransport content heads answers dest
      = download content answers (planDownload dest remote) := by
    unfold downloadFileWithTransport
    rw [hprobe]
  rw [hrun]
  unfold EndsShort
  cases hplan : planDownload dest remote with
  | mk plan file =>
    rw [hplan] at hplanned hdone
    cases plan with
    | none =>
      -- Nothing is left to fetch, so no answer can be cut short.
      refine iff_of_true ⟨Nat.zero_le _, fun _ _ => hdone rfl, fun _ h =>
        absurd h (by simp [download])⟩ ?_
      rintro ⟨-, remote', plan', hprobe', hplan', -⟩
      cases hprobe.symm.trans hprobe'
      rw [hplan] at hplan'
      cases hplan'
    | some plan =>
      have hends := @downloadLoop_ends content (fetchMaxRetries - 1) answers _ _ (hplanned plan rfl)
      -- The plan is determined by the probe and the file, so the condition is about this plan.
      have hshort : (LengthKnown heads ∧ ∃ remote' plan',
          probeRemoteFile fetchMaxRetries heads = .ok remote' ∧
            (planDownload dest remote').1 = some plan' ∧
            CutShort content plan'.acceptsRanges plan'.resumeFrom (fetchMaxRetries - 1) answers) ↔
          LengthKnown heads ∧
            CutShort content plan.acceptsRanges plan.resumeFrom (fetchMaxRetries - 1) answers := by
        constructor
        · rintro ⟨hknown, remote', plan', hprobe', hplan', hcut⟩
          cases hprobe.symm.trans hprobe'
          rw [hplan] at hplan'
          cases hplan'
          exact ⟨hknown, hcut⟩
        · rintro ⟨hknown, hcut⟩
          exact ⟨hknown, remote, plan, hprobe, by rw [hplan], hcut⟩
      rw [hshort]
      constructor
      · rintro ⟨-, hcomplete, -⟩ ⟨hknown, hcut⟩
        exact hends.complete.mp (fun hok => hcomplete hok hknown) hcut
      · intro hnot
        refine ⟨hends.attempts, fun hok hknown => ?_, hends.resumable⟩
        exact hends.complete.mpr (fun hcut => hnot ⟨hknown, hcut⟩) hok

end Call

/-! ## A body that ends early -/

/-- Eight bytes that start as a `bz2` file does. -/
def eightBytes : Bytes := [66, 90, 104, 57, 1, 2, 3, 4]

def knownEight : ℕ → Head := fun _ => .response 200 ⟨some 8, true⟩

/-- Five of the eight bytes, and no error. -/
def fiveOfEight : ℕ → Answer := fun _ => .body false 3 .clean

theorem knownEight_truthful : TruthfulHeads eightBytes knownEight := by
  intro n status info h
  cases h
  refine ⟨by decide, fun _ length hlength => ?_⟩
  cases hlength
  rfl

/-- The download is reported as finished with five bytes. -/
theorem fiveOfEight_finishes : TruthfulHeads eightBytes knownEight ∧ StartsFrom eightBytes none ∧
    ¬Faithful eightBytes knownEight
      (downloadFileWithTransport eightBytes knownEight fiveOfEight none) := by
  refine ⟨knownEight_truthful, fun file h => absurd h (by simp), fun h => ?_⟩
  have hresult : (downloadFileWithTransport eightBytes knownEight fiveOfEight none).dest
      = some [66, 90, 104, 57, 1] := by decide +kernel
  have hok : (downloadFileWithTransport eightBytes knownEight fiveOfEight none).result
      = .ok () := by decide +kernel
  have hcomplete := h.complete hok ⟨⟨some 8, true⟩, rfl, rfl⟩
  exact absurd (hresult.symm.trans hcomplete) (by decide)

/-- The first attempt breaks off after five bytes, and the second delivers the rest. -/
def restOfEight : ℕ → Answer
  | 0 => .body false 3 .broken
  | _ => .body true 0 .clean

theorem download_faithful_restOfEight : Faithful eightBytes knownEight
    (downloadFileWithTransport eightBytes knownEight restOfEight none) := by
  refine (download_faithful eightBytes knownEight restOfEight none knownEight_truthful
    fun file h => absurd h (by simp)).mpr ?_
  rintro ⟨-, remote, plan, hprobe, hplan, k, hk, hbefore, ⟨partialContent, missing, hbody⟩,
    -, -, hless⟩
  cases hprobe
  cases hplan
  rcases k with _ | _ | k
  · exact absurd hbody (by simp [restOfEight])
  · exact absurd hless (by decide)
  · exact absurd (hbefore 1 (by omega)) (by decide)

end WikiEcon.Fetch
