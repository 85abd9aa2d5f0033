import NautilusCtrader.TokenRefresh
import Mathlib.Algebra.Order.Ring.Rat
import Mathlib.Data.List.Chain
import Mathlib.Tactic.Linarith

/-!
# When the session refreshes its tokens

Three paths of the session decide on a refresh: its refresh loop, and a bring-up both before the account
authenticates and after it was refused. Each decides and attempts without a pause between, and an attempt
is recorded before it is sent, so over a monotone clock two attempts are at least
`minTokenRefreshIntervalSecs` apart (`refreshes_spaced`).
-/

namespace NautilusCtrader

open Common

namespace TokenRefresh

variable {Token : Type}

def tokenRefreshMarginSecs : ℚ := 900

def tokenErrorCodes : List String := ["OA_AUTH_TOKEN_EXPIRED", "CH_ACCESS_TOKEN_INVALID"]

def minTokenRefreshIntervalSecs : ℚ := 300

/-! ## The decisions -/

namespace Session

/-- `_may_refresh_for`. -/
def mayRefreshFor (s : Session Token) (errorCode : String) (now : ℚ) : Bool :=
  if s.refreshToken = none ∨ errorCode ∉ tokenErrorCodes then false
  else
    match s.lastRefreshAt with
    | none => true
    | some last => decide (minTokenRefreshIntervalSecs ≤ now - last)

/-- `_refresh_delay`. -/
def refreshDelay (s : Session Token) (now : ℚ) : Option ℚ :=
  match s.expiresAtSecs, s.refreshToken with
  | some expiresAt, some _ =>
    let delay := expiresAt - tokenRefreshMarginSecs - now
    match s.lastRefreshAt with
    | none => some delay
    | some last => some (max delay (last + minTokenRefreshIntervalSecs - now))
  | _, _ => none

/-- `refresh_tokens` up to its request; `none` where there is no refresh token to send. -/
def beginRefresh (s : Session Token) (now : ℚ) : Option (Session Token) :=
  if s.refreshToken = none then none else some { s with lastRefreshAt := some now }

end Session

/-- How the request of a refresh ends. -/
inductive Outcome (Token : Type)
  | tokens (response : Pair Token)
  | rejected
  | queueTimeout
  | timeout
  | connectionLost
  | protocolError
deriving DecidableEq, Repr

/-- The rest of `refresh_tokens`, once its request ended; `earlier` is what its write found. -/
def Session.endRefresh (s : Session Token) (now : ℚ) (earlier : Bool) : Outcome Token → Session Token
  | .tokens response => s.takePair now response
  | .rejected => s.refused earlier
  | _ => s

/-! ## The session's tasks -/

/-- Where the refresh loop waits. -/
inductive LoopAt
  | created
  | sleeping
  | waitingReady
  | refreshing (earlier : Bool)
deriving DecidableEq, Repr

/-- Where a bring-up waits. -/
inductive BringUpAt (Token : Type)
  | applicationAuth
  | refreshingBefore (earlier : Bool)
  | latePairBefore
  | accountAuth (token : Token)
  | refreshingRejected (earlier : Bool)
  | latePairRejected
  | accountAuthAgain
  | restoring
deriving DecidableEq, Repr

/-- The session with its refresh loop and its bring-up, as far as each runs. -/
structure Tasks (Token : Type) where
  session : Session Token
  loop : Option LoopAt := none
  bringUp : Option (BringUpAt Token) := none

namespace Tasks

variable (t : Tasks Token) (takenAt decidedAt attemptedAt : ℚ)

/-- `_refresh_loop` from the head of its loop to its next wait. -/
def refreshLoop : Tasks Token × List ℚ :=
  match t.session.refreshDelay decidedAt with
  | none => ({ t with loop := none }, [])
  | some delay =>
    if 0 < delay then ({ t with loop := some .sleeping }, [])
    else if !t.session.ready then ({ t with loop := some .waitingReady }, [])
    else
      match t.session.beginRefresh attemptedAt with
      | none => ({ t with loop := none }, [])
      | some session => ({ t with session, loop := some (.refreshing false) }, [attemptedAt])

/-- `_refresh_loop` once its refresh ended. -/
def loopRefreshed (earlier : Bool) (outcome : Outcome Token) : Tasks Token × List ℚ :=
  let session := t.session.endRefresh takenAt earlier outcome
  match outcome with
  | .tokens _ =>
    if session.lost then refreshLoop { t with session } decidedAt attemptedAt
    else
      refreshLoop { t with session := { session with reauthRequested := true, lost := true } } decidedAt
        attemptedAt
  | .rejected | .connectionLost => ({ t with session, loop := none }, [])
  | .queueTimeout | .timeout | .protocolError => refreshLoop { t with session } decidedAt attemptedAt

/-- `_authenticate_account`, sent with the token held. -/
def authenticateAccount : Tasks Token :=
  { t with bringUp := some (.accountAuth t.session.accessToken) }

/-- A bring-up fails: its connection is closed and its supervisor backs off. -/
def failBringUp : Tasks Token :=
  { t with
    session := { t.session.giveUpRefreshReply with ready := false }
    bringUp := none }

/-- `_authenticate` once the application is authenticated, with `_refresh_before_account_auth`. -/
def applicationAuthenticated : Tasks Token × List ℚ :=
  match t.session.refreshDelay decidedAt with
  | none => (t.authenticateAccount, [])
  | some delay =>
    if delay ≤ 0 then
      let cleared := { t.session with pairTaken := false }
      match cleared.beginRefresh attemptedAt with
      | none => ({ t with session := cleared }.authenticateAccount, [])
      | some session => ({ t with session, bringUp := some (.refreshingBefore false) }, [attemptedAt])
    else (t.authenticateAccount, [])

/-- `_refresh_before_account_auth` once its refresh ended. -/
def refreshedBefore (earlier : Bool) (outcome : Outcome Token) : Tasks Token :=
  let t := { t with session := t.session.endRefresh takenAt earlier outcome }
  match outcome with
  | .tokens _ | .rejected | .queueTimeout => t.authenticateAccount
  | .timeout => { t with bringUp := some .latePairBefore }
  | .connectionLost | .protocolError => t.failBringUp

/-- `_wait_for_late_pair` in `_refresh_before_account_auth`: a pair taken, a loss or the timeout. -/
def latePairBefore : Tasks Token :=
  if t.session.pairTaken then t.authenticateAccount
  else if t.session.lost then t.failBringUp
  else t.authenticateAccount

/-- `_authenticate` once the account's authentication is refused, with `_refresh_for_rejection`. -/
def accountRefused [DecidableEq Token] (token : Token) (errorCode : String) : Tasks Token × List ℚ :=
  if t.session.accessToken ≠ token ∧ errorCode ∈ tokenErrorCodes then
    ({ t with bringUp := some .accountAuthAgain }, [])
  else if !t.session.mayRefreshFor errorCode decidedAt then (t.failBringUp, [])
  else
    let cleared := { t.session with pairTaken := false }
    match cleared.beginRefresh attemptedAt with
    | none => ({ t with session := cleared }.failBringUp, [])
    | some session => ({ t with session, bringUp := some (.refreshingRejected false) }, [attemptedAt])

/-- `_refresh_for_rejection` once its refresh ended; a request that was not sent has no late reply. -/
def refreshedRejected (earlier : Bool) (outcome : Outcome Token) : Tasks Token :=
  let t := { t with session := t.session.endRefresh takenAt earlier outcome }
  match outcome with
  | .tokens _ => { t with bringUp := some .accountAuthAgain }
  | .timeout => { t with bringUp := some .latePairRejected }
  | .rejected | .queueTimeout | .connectionLost | .protocolError => t.failBringUp

/-- `_wait_for_late_pair` in `_refresh_for_rejection`. -/
def latePairRejected : Tasks Token :=
  if t.session.pairTaken then { t with bringUp := some .accountAuthAgain } else t.failBringUp

/-- `_bring_up` once the account is authenticated. -/
def accountAuthenticated : Tasks Token :=
  if t.session.lost then t.failBringUp else { t with bringUp := some .restoring }

/-- The end of `_bring_up`. -/
def restored : Tasks Token :=
  if t.session.lost then t.failBringUp
  else
    { session := { t.session with ready := true }
      loop := t.loop.or (some .created)
      bringUp := none }

end Tasks

/-! ## Runs -/

/-- Whose refresh a reply is for. -/
inductive Caller
  | loop
  | bringUp
  /-- A call of `refresh_tokens` from outside, with what its write found. -/
  | outside (earlier : Bool)
deriving DecidableEq, Repr

/-- Everything that can happen to the session's tasks. -/
inductive Event (Token : Type)
  /-- `_bring_up` as far as its connection and the request of the application's authentication. -/
  | bringUp
  | applicationAuthenticated
  | accountAuthenticated
  | accountRefused (errorCode : String)
  | latePairWaited
  | restored
  /-- A bring-up fails at any of its waits. -/
  | bringUpFails
  /-- The loop's sleep, or its wait for a ready session, is over. -/
  | loopResumes
  | refreshTokens
  | written (caller : Caller)
  | refreshed (caller : Caller) (outcome : Outcome Token)
  | lateReply (response : Pair Token)
  | lost
  | torndown
  | stopped
deriving DecidableEq, Repr

/-- An event with the readings of the clock its handling makes, one after another. -/
structure Turn (Token : Type) where
  event : Event Token
  /-- When a pair is taken. -/
  takenAt : ℚ
  /-- When a refresh is decided on. -/
  decidedAt : ℚ
  /-- When it is attempted. -/
  attemptedAt : ℚ

def Turn.readings (turn : Turn Token) : List ℚ := [turn.takenAt, turn.decidedAt, turn.attemptedAt]

namespace Tasks

/-- A refresh's frame is handed to the socket. -/
def written (t : Tasks Token) : Caller → Tasks Token
  | .loop =>
    match t.loop with
    | some (.refreshing _) =>
      let (session, earlier) := t.session.written
      { t with session, loop := some (.refreshing earlier) }
    | _ => t
  | .bringUp =>
    match t.bringUp with
    | some (.refreshingBefore _) =>
      let (session, earlier) := t.session.written
      { t with session, bringUp := some (.refreshingBefore earlier) }
    | some (.refreshingRejected _) =>
      let (session, earlier) := t.session.written
      { t with session, bringUp := some (.refreshingRejected earlier) }
    | _ => t
  | .outside _ => { t with session := t.session.written.1 }

/-- A refresh ended. -/
def refreshed (t : Tasks Token) (takenAt decidedAt attemptedAt : ℚ) (outcome : Outcome Token) :
    Caller → Tasks Token × List ℚ
  | .loop =>
    match t.loop with
    | some (.refreshing earlier) => t.loopRefreshed takenAt decidedAt attemptedAt earlier outcome
    | _ => (t, [])
  | .bringUp =>
    match t.bringUp with
    | some (.refreshingBefore earlier) => (t.refreshedBefore takenAt earlier outcome, [])
    | some (.refreshingRejected earlier) => (t.refreshedRejected takenAt earlier outcome, [])
    | _ => (t, [])
  | .outside earlier => ({ t with session := t.session.endRefresh takenAt earlier outcome }, [])

/-- What an event does, and when the session itself called `refresh_tokens` on it. -/
def step [DecidableEq Token] (t : Tasks Token) (turn : Turn Token) : Tasks Token × List ℚ :=
  match turn.event, t.bringUp with
  | .bringUp, none =>
    ({ t with
        session := { t.session with ready := false, lost := false }
        bringUp := some .applicationAuth }, [])
  | .applicationAuthenticated, some .applicationAuth =>
    t.applicationAuthenticated turn.decidedAt turn.attemptedAt
  | .accountAuthenticated, some (.accountAuth _) => (t.accountAuthenticated, [])
  | .accountAuthenticated, some .accountAuthAgain => (t.accountAuthenticated, [])
  | .accountRefused errorCode, some (.accountAuth token) =>
    t.accountRefused turn.decidedAt turn.attemptedAt token errorCode
  | .accountRefused _, some .accountAuthAgain => (t.failBringUp, [])
  | .latePairWaited, some .latePairBefore => (t.latePairBefore, [])
  | .latePairWaited, some .latePairRejected => (t.latePairRejected, [])
  | .restored, some .restoring => (t.restored, [])
  | .bringUpFails, some _ => (t.failBringUp, [])
  | .loopResumes, _ =>
    match t.loop with
    | some .created | some .sleeping | some .waitingReady =>
      t.refreshLoop turn.decidedAt turn.attemptedAt
    | _ => (t, [])
  | .refreshTokens, _ => ({ t with session := (t.session.beginRefresh turn.attemptedAt).getD t.session }, [])
  | .written caller, _ => (t.written caller, [])
  | .refreshed caller outcome, _ =>
    t.refreshed turn.takenAt turn.decidedAt turn.attemptedAt outcome caller
  | .lateReply response, _ =>
    ({ t with session := (t.session.onLateRefreshReply turn.takenAt response).1 }, [])
  | .lost, _ => ({ t with session := { t.session with ready := false, lost := true } }, [])
  | .torndown, _ => ({ t with session := { t.session.giveUpRefreshReply with ready := false } }, [])
  | .stopped, _ =>
    ({ session := { t.session.giveUpRefreshReply with ready := false, lost := true } }, [])
  | _, _ => (t, [])

end Tasks

/-- The session's tasks as a machine; it tells when the session itself called `refresh_tokens`. -/
def tasksMachine [DecidableEq Token] : Machine (Tasks Token) (Turn Token) ℚ where
  step := Tasks.step

/-- The tasks of a new session. -/
def Tasks.new (accessToken : Token) (refreshToken : Option Token) (expiresAtSecs : Option ℚ) :
    Tasks Token where
  session := { accessToken, refreshToken, expiresAtSecs }

/-- Every reading of the clock is at or after the one before it. -/
def MonotoneClock (turns : List (Turn Token)) : Prop :=
  (turns.flatMap Turn.readings).Pairwise (· ≤ ·)

instance (turns : List (Turn Token)) : Decidable (MonotoneClock turns) :=
  inferInstanceAs (Decidable (List.Pairwise _ _))

/-! ## When an attempt is recorded

Nothing but a call of `refresh_tokens` writes `_last_refresh_at`, and the session calls it only where a
reading of the clock was past the interval.
-/

section Attempts

/-- Writing the tokens attempts no refresh. -/
@[simp] theorem Session.written_lastRefreshAt (s : Session Token) :
    s.written.1.lastRefreshAt = s.lastRefreshAt := rfl

/-- Nor does a refusal. -/
@[simp] theorem Session.refused_lastRefreshAt (s : Session Token) (earlier : Bool) :
    (s.refused earlier).lastRefreshAt = s.lastRefreshAt := by
  unfold Session.refused
  split <;> rfl

/-- Nor does the end of a refresh. -/
@[simp] theorem Session.endRefresh_lastRefreshAt (s : Session Token) (now : ℚ) (earlier : Bool)
    (outcome : Outcome Token) : (s.endRefresh now earlier outcome).lastRefreshAt = s.lastRefreshAt := by
  cases outcome with
  | rejected => exact s.refused_lastRefreshAt earlier
  | _ => rfl

/-- Nor does a reply that comes late. -/
@[simp] theorem Session.onLateRefreshReply_lastRefreshAt (s : Session Token) (now : ℚ)
    (response : Pair Token) : (s.onLateRefreshReply now response).1.lastRefreshAt = s.lastRefreshAt := by
  unfold Session.onLateRefreshReply
  split
  · rfl
  · dsimp only
    split <;> rfl

/-- What a turn does to the record of the last attempt, and what it tells. -/
inductive Attempts (last : Option ℚ) (decidedAt attemptedAt : ℚ) : Tasks Token × List ℚ → Prop
  | quiet (t : Tasks Token) (h : t.session.lastRefreshAt = last) : Attempts last decidedAt attemptedAt (t, [])
  | outside (t : Tasks Token) (h : t.session.lastRefreshAt = some attemptedAt) :
    Attempts last decidedAt attemptedAt (t, [])
  | own (t : Tasks Token) (h : t.session.lastRefreshAt = some attemptedAt)
    (hspaced : ∀ at_ ∈ last, at_ + minTokenRefreshIntervalSecs ≤ decidedAt) :
    Attempts last decidedAt attemptedAt (t, [attemptedAt])

variable {t : Tasks Token} {s session : Session Token} {takenAt decidedAt attemptedAt : ℚ}

/-- A refresh is due only once the interval has passed since the last attempt. -/
theorem Session.refreshDelay_due {delay : ℚ} (h : s.refreshDelay decidedAt = some delay)
    (hdue : delay ≤ 0) : ∀ last ∈ s.lastRefreshAt, last + minTokenRefreshIntervalSecs ≤ decidedAt := by
  intro last hlast
  unfold Session.refreshDelay at h
  rw [Option.mem_def] at hlast
  split at h
  case h_2 => cases h
  case h_1 expiresAt _ _ _ =>
    rw [hlast] at h
    have hdelay := Option.some.inj h
    have hle := le_max_right (expiresAt - tokenRefreshMarginSecs - decidedAt)
      (last + minTokenRefreshIntervalSecs - decidedAt)
    rw [hdelay] at hle
    linarith

/-- A refresh that may be made is far enough from the last. -/
theorem Session.mayRefreshFor_due {errorCode : String} (h : s.mayRefreshFor errorCode decidedAt = true) :
    ∀ last ∈ s.lastRefreshAt, last + minTokenRefreshIntervalSecs ≤ decidedAt := by
  intro last hlast
  unfold Session.mayRefreshFor at h
  rw [Option.mem_def] at hlast
  split at h
  · cases h
  · rw [hlast] at h
    have hpassed := of_decide_eq_true h
    linarith

/-- A refresh that begins is the last attempt. -/
theorem Session.beginRefresh_lastRefreshAt (h : s.beginRefresh attemptedAt = some session) :
    session.lastRefreshAt = some attemptedAt := by
  unfold Session.beginRefresh at h
  split at h
  · cases h
  · rw [← Option.some.inj h]

namespace Tasks

/-- The refresh loop attempts what is due. -/
theorem refreshLoop_attempts :
    Attempts t.session.lastRefreshAt decidedAt attemptedAt (t.refreshLoop decidedAt attemptedAt) := by
  unfold refreshLoop
  cases hdelay : t.session.refreshDelay decidedAt with
  | none => exact .quiet _ rfl
  | some delay =>
    dsimp only
    by_cases hpos : 0 < delay
    · rw [if_pos hpos]
      exact .quiet _ rfl
    · rw [if_neg hpos]
      split
      · exact .quiet _ rfl
      · cases hbegin : t.session.beginRefresh attemptedAt with
        | none => exact .quiet _ rfl
        | some session =>
          exact .own _ (Session.beginRefresh_lastRefreshAt hbegin)
            (Session.refreshDelay_due hdelay (not_lt.mp hpos))

/-- The loop goes on after a refresh. -/
theorem loopRefreshed_attempts (earlier : Bool) (outcome : Outcome Token) :
    Attempts t.session.lastRefreshAt decidedAt attemptedAt
      (t.loopRefreshed takenAt decidedAt attemptedAt earlier outcome) := by
  have hlast := t.session.endRefresh_lastRefreshAt takenAt earlier outcome
  have hagain (t' : Tasks Token) (h : t'.session.lastRefreshAt = t.session.lastRefreshAt) :
      Attempts t.session.lastRefreshAt decidedAt attemptedAt (t'.refreshLoop decidedAt attemptedAt) := by
    rw [← h]
    exact refreshLoop_attempts
  unfold loopRefreshed
  cases outcome with
  | tokens response =>
    dsimp only
    split
    · exact hagain _ hlast
    · exact hagain _ hlast
  | rejected => exact .quiet _ hlast
  | connectionLost => exact .quiet _ hlast
  | queueTimeout => exact hagain _ hlast
  | timeout => exact hagain _ hlast
  | protocolError => exact hagain _ hlast

/-- A bring-up refreshes before it authenticates the account. -/
theorem applicationAuthenticated_attempts : Attempts t.session.lastRefreshAt decidedAt attemptedAt
    (t.applicationAuthenticated decidedAt attemptedAt) := by
  unfold applicationAuthenticated
  cases hdelay : t.session.refreshDelay decidedAt with
  | none => exact .quiet _ rfl
  | some delay =>
    dsimp only
    by_cases hdue : delay ≤ 0
    · rw [if_pos hdue]
      cases hbegin : ({ t.session with pairTaken := false } : Session Token).beginRefresh attemptedAt with
      | none => exact .quiet _ rfl
      | some session =>
        exact .own _ (Session.beginRefresh_lastRefreshAt hbegin) (Session.refreshDelay_due hdelay hdue)
    · rw [if_neg hdue]
      exact .quiet _ rfl

/-- A refused account refreshes if it may. -/
theorem accountRefused_attempts [DecidableEq Token] (token : Token) (errorCode : String) :
    Attempts t.session.lastRefreshAt decidedAt attemptedAt
      (t.accountRefused decidedAt attemptedAt token errorCode) := by
  unfold accountRefused
  split
  · exact .quiet _ rfl
  · split
    · exact .quiet _ rfl
    · rename_i hmay
      rw [Bool.not_eq_true', Bool.not_eq_false] at hmay
      dsimp only
      cases hbegin : ({ t.session with pairTaken := false } : Session Token).beginRefresh attemptedAt with
      | none => exact .quiet _ rfl
      | some session =>
        exact .own _ (Session.beginRefresh_lastRefreshAt hbegin) (Session.mayRefreshFor_due hmay)

/-- A refresh before the authentication ends. -/
theorem refreshedBefore_lastRefreshAt (earlier : Bool) (outcome : Outcome Token) :
    (t.refreshedBefore takenAt earlier outcome).session.lastRefreshAt = t.session.lastRefreshAt := by
  cases outcome with
  | rejected => exact t.session.refused_lastRefreshAt earlier
  | _ => rfl

/-- A refresh after a rejection ends. -/
theorem refreshedRejected_lastRefreshAt (earlier : Bool) (outcome : Outcome Token) :
    (t.refreshedRejected takenAt earlier outcome).session.lastRefreshAt = t.session.lastRefreshAt := by
  cases outcome with
  | rejected => exact t.session.refused_lastRefreshAt earlier
  | _ => rfl

/-- The tokens are written. -/
theorem written_lastRefreshAt (caller : Caller) :
    (t.written caller).session.lastRefreshAt = t.session.lastRefreshAt := by
  unfold written
  cases caller with
  | loop =>
    dsimp only
    split <;> rfl
  | bringUp =>
    dsimp only
    split <;> rfl
  | outside earlier => rfl

/-- Whoever refreshed goes on. -/
theorem refreshed_attempts (outcome : Outcome Token) (caller : Caller) :
    Attempts t.session.lastRefreshAt decidedAt attemptedAt
      (t.refreshed takenAt decidedAt attemptedAt outcome caller) := by
  unfold refreshed
  cases caller with
  | loop =>
    dsimp only
    split
    · exact loopRefreshed_attempts _ outcome
    · exact .quiet _ rfl
  | bringUp =>
    dsimp only
    split
    · exact .quiet _ (refreshedBefore_lastRefreshAt _ outcome)
    · exact .quiet _ (refreshedRejected_lastRefreshAt _ outcome)
    · exact .quiet _ rfl
  | outside earlier => exact .quiet _ (Session.endRefresh_lastRefreshAt _ _ _ _)

/-- What a turn does to the record of the last attempt. -/
theorem step_attempts [DecidableEq Token] (turn : Turn Token) :
    Attempts t.session.lastRefreshAt turn.decidedAt turn.attemptedAt (t.step turn) := by
  have hfinish : t.accountAuthenticated.session.lastRefreshAt = t.session.lastRefreshAt := by
    unfold accountAuthenticated
    split <;> rfl
  have hbefore : t.latePairBefore.session.lastRefreshAt = t.session.lastRefreshAt := by
    unfold latePairBefore
    split
    · rfl
    · split <;> rfl
  have hrejected : t.latePairRejected.session.lastRefreshAt = t.session.lastRefreshAt := by
    unfold latePairRejected
    split <;> rfl
  have hrestored : t.restored.session.lastRefreshAt = t.session.lastRefreshAt := by
    unfold restored
    split <;> rfl
  -- only the turns that begin a refresh, and the one that sends it, touch the time
  unfold step
  split
  case h_1 => exact .quiet _ rfl
  case h_2 => exact applicationAuthenticated_attempts
  case h_3 => exact .quiet _ hfinish
  case h_4 => exact .quiet _ hfinish
  case h_5 => exact accountRefused_attempts _ _
  case h_6 => exact .quiet _ rfl
  case h_7 => exact .quiet _ hbefore
  case h_8 => exact .quiet _ hrejected
  case h_9 => exact .quiet _ hrestored
  case h_10 => exact .quiet _ rfl
  case h_11 =>
    split
    · exact refreshLoop_attempts
    · exact refreshLoop_attempts
    · exact refreshLoop_attempts
    · exact .quiet _ rfl
  case h_12 =>
    cases hbegin : t.session.beginRefresh turn.attemptedAt with
    | none => exact .quiet _ rfl
    | some session => exact .outside _ (Session.beginRefresh_lastRefreshAt hbegin)
  case h_13 caller _ => exact .quiet _ (written_lastRefreshAt caller)
  case h_14 caller outcome _ => exact refreshed_attempts outcome caller
  case h_15 => exact .quiet _ (Session.onLateRefreshReply_lastRefreshAt _ _ _)
  case h_16 => exact .quiet _ rfl
  case h_17 => exact .quiet _ rfl
  case h_18 => exact .quiet _ rfl
  case h_19 => exact .quiet _ rfl

end Tasks

end Attempts

/-! ## Runs over a monotone clock -/

/-- What holds between two turns: the attempts told are spaced, and the last of them is recorded, or one
made after it. -/
structure Recorded (told : List ℚ) (t : Tasks Token) : Prop where
  spaced : told.IsChain (fun at_ next => at_ + minTokenRefreshIntervalSecs ≤ next)
  last : ∀ at_ ∈ told.getLast?, ∃ recorded, t.session.lastRefreshAt = some recorded ∧ at_ ≤ recorded

/-- A turn keeps the record, if its readings follow one another. -/
theorem Recorded.step [DecidableEq Token] {told : List ℚ} {t : Tasks Token} (h : Recorded told t) (turn : Turn Token)
    (hclock : ∀ at_ ∈ t.session.lastRefreshAt, at_ ≤ turn.attemptedAt)
    (hdecided : turn.decidedAt ≤ turn.attemptedAt) :
    Recorded (told ++ (t.step turn).2) (t.step turn).1 := by
  have hattempts := t.step_attempts turn
  revert hattempts
  generalize t.step turn = out
  intro hattempts
  cases hattempts with
  | quiet t' hlast =>
    rw [List.append_nil]
    refine ⟨h.spaced, ?_⟩
    rw [hlast]
    exact h.last
  | outside t' hlast =>
    rw [List.append_nil]
    refine ⟨h.spaced, fun at_ hat => ?_⟩
    obtain ⟨recorded, hrecorded, hle⟩ := h.last at_ hat
    exact ⟨_, hlast, hle.trans (hclock recorded hrecorded)⟩
  | own t' hlast hspaced =>
    constructor
    · rw [List.isChain_append]
      refine ⟨h.spaced, List.IsChain.singleton _, fun at_ hat next hnext => ?_⟩
      obtain ⟨recorded, hrecorded, hle⟩ := h.last at_ hat
      have hpassed := hspaced recorded hrecorded
      obtain rfl : turn.attemptedAt = next := Option.some.inj hnext
      linarith
    · intro at_ hat
      rw [List.getLast?_concat] at hat
      obtain rfl := Option.some.inj hat
      exact ⟨_, hlast, le_refl _⟩

/-- **Automatic refreshes are spaced.** Over a monotone clock, two attempts of a session to refresh its
tokens, one after another, are at least the interval apart, whatever else happens. -/
theorem refreshes_spaced [DecidableEq Token] (accessToken : Token) (refreshToken : Option Token)
    (expiresAtSecs : Option ℚ) (turns : List (Turn Token)) (hclock : MonotoneClock turns) :
    (tasksMachine.told (Tasks.new accessToken refreshToken expiresAtSecs) turns).IsChain
      (fun at_ next => at_ + minTokenRefreshIntervalSecs ≤ next) := by
  suffices hrun : ∀ (told : List ℚ) (t : Tasks Token), Recorded told t →
      (∀ at_ ∈ t.session.lastRefreshAt, ∀ reading ∈ turns.flatMap Turn.readings, at_ ≤ reading) →
      Recorded (told ++ tasksMachine.told t turns) (tasksMachine.after t turns) by
    refine (hrun [] (Tasks.new accessToken refreshToken expiresAtSecs) ⟨.nil, ?_⟩ ?_).spaced
    · intro at_ hat
      cases hat
    · intro at_ hat
      cases hat
  induction turns with
  | nil =>
    intro told t h _
    rwa [Machine.told_nil, List.append_nil]
  | cons turn turns ih =>
    intro told t h hbound
    unfold MonotoneClock at hclock
    rw [List.flatMap_cons, List.pairwise_append] at hclock
    obtain ⟨hturn, hrest, hlater⟩ := hclock
    simp only [List.flatMap_cons, List.mem_append] at hbound
    simp only [Turn.readings, List.pairwise_cons, List.mem_cons, List.not_mem_nil, or_false,
      forall_eq_or_imp, forall_eq] at hturn hlater hbound
    have hdecided : turn.decidedAt ≤ turn.attemptedAt := hturn.2.1
    have hnow : ∀ at_ ∈ t.session.lastRefreshAt, at_ ≤ turn.attemptedAt := fun at_ hat =>
      hbound at_ hat _ (.inl (.inr (.inr rfl)))
    rw [Machine.told_cons, Machine.after_cons, ← List.append_assoc]
    refine ih hrest _ _ (h.step turn hnow hdecided) fun at_ hat reading hreading => ?_
    -- the record is the one before the turn or its attempt, both before the later readings
    have hattempts := t.step_attempts turn
    have hold : ∀ at_ ∈ t.session.lastRefreshAt, at_ ≤ reading := fun at_ hat =>
      hbound at_ hat reading (.inr hreading)
    have hnew : turn.attemptedAt ≤ reading := hlater.2.2 reading hreading
    have hstep : (tasksMachine.step t turn) = t.step turn := rfl
    rw [hstep] at hat
    revert hattempts hat
    generalize t.step turn = out
    intro hat hattempts
    cases hattempts with
    | quiet t' hlast => exact hold at_ (hlast ▸ hat)
    | outside t' hlast =>
      rw [hlast] at hat
      exact Option.some.inj hat ▸ hnew
    | own t' hlast _ =>
      rw [hlast] at hat
      exact Option.some.inj hat ▸ hnew

/-- An event whose handling reads the clock at `secs`. -/
def Turn.at (secs : ℚ) (event : Event Token) : Turn Token := ⟨event, secs, secs, secs⟩

/-- A bring-up whose account is refused twice, and the one after it. -/
def refusedTwice : List (Turn ℕ) :=
  [.at 195 .bringUp, .at 200 .applicationAuthenticated, .at 205 (.written .bringUp),
    .at 210 (.refreshed .bringUp (.tokens ⟨2, 2, 60⟩)), .at 215 (.accountRefused "OA_AUTH_TOKEN_EXPIRED"),
    .at 490 .bringUp, .at 500 .applicationAuthenticated]

/-- A venue that refuses every token is asked for a new one once the interval has passed. -/
theorem refusedTwice_spaced :
    tasksMachine.told (Tasks.new 1 (some 1) (some 1000)) refusedTwice = [200, 500] ∧
      (tasksMachine.told (Tasks.new 1 (some 1) (some 1000)) refusedTwice).IsChain
        (fun at_ next => at_ + minTokenRefreshIntervalSecs ≤ next) :=
  ⟨by decide +kernel,
    refreshes_spaced 1 (some 1) (some 1000) refusedTwice (by decide +kernel)⟩

end TokenRefresh

end NautilusCtrader
