import NautilusCtrader.Common.Dict
import NautilusCtrader.Common.Machine
import Mathlib.Data.Rat.Defs

/-!
# The session's token refresh

The session exchanges its refresh token for a new pair. The venue takes each refresh token once, so
a pair that is lost locks the account out: a reply that comes after its request timed out is still
adopted. `machine` is the session with its connection and the venue, over everything that can happen
to a refresh.
-/

namespace NautilusCtrader

open Common

namespace TokenRefresh

variable {Token : Type}

/-- `ProtoOARefreshTokenRes`. -/
structure Pair (Token : Type) where
  accessToken : Token
  refreshToken : Token
  expiresIn : ℕ
deriving DecidableEq, Repr

/-- What the venue answers a refresh request. -/
inductive Reply (Token : Type)
  | tokens (response : Pair Token)
  | error
deriving DecidableEq, Repr

/-! ## The session -/

/-- The fields of the session a refresh reads and writes. -/
structure Session (Token : Type) where
  accessToken : Token
  refreshToken : Option Token
  expiresAtSecs : Option ℚ := none
  lastRefreshAt : Option ℚ := none
  /-- Clear while a written refresh request can still be answered. -/
  refreshSettled : Bool := true
  pairTaken : Bool := false
  ready : Bool := false
  lost : Bool := false
  reauthRequested : Bool := false

namespace Session

/-- `_take_pair`. -/
def takePair (s : Session Token) (now : ℚ) (response : Pair Token) : Session Token :=
  { s with
    accessToken := response.accessToken
    refreshToken := some response.refreshToken
    expiresAtSecs := some (now + response.expiresIn)
    refreshSettled := true
    pairTaken := true }

/-- `written`, called when the frame is handed to the socket: whether an earlier refresh was still
awaited then. -/
def written (s : Session Token) : Session Token × Bool :=
  ({ s with refreshSettled := false }, !s.refreshSettled)

/-- The refusal of a refresh; an earlier one still without a reply stays adoptable. -/
def refused (s : Session Token) (earlier : Bool) : Session Token :=
  if earlier then s else { s with refreshSettled := true }

/-- `_on_late_refresh_reply`. -/
def onLateRefreshReply (s : Session Token) (now : ℚ) (response : Pair Token) :
    Session Token × List (Pair Token) :=
  if s.refreshSettled then (s, [])
  else
    let taken := s.takePair now response
    if taken.ready && !taken.lost then
      ({ taken with reauthRequested := true, lost := true }, [response])
    else (taken, [response])

/-- `_give_up_refresh_reply`. -/
def giveUpRefreshReply (s : Session Token) : Session Token := { s with refreshSettled := true }

end Session

/-! ## The venue and the connection -/

/-- The pairs the venue has issued, the newest first of all. Only the newest refresh token is not
spent. -/
structure Venue (Token : Type) where
  newest : Pair Token
  older : List (Pair Token)
  distinct : ((newest :: older).map Pair.refreshToken).Nodup

/-- Every pair issued, the newest first. -/
def Venue.issued (v : Venue Token) : List (Pair Token) := v.newest :: v.older

/-- The venue after it issued `response`. -/
def Venue.issue (v : Venue Token) (response : Pair Token)
    (hfresh : response.refreshToken ∉ v.issued.map Pair.refreshToken) : Venue Token :=
  ⟨response, v.issued, List.nodup_cons.mpr ⟨hfresh, v.distinct⟩⟩

/-- A message under its `clientMsgId`: a request the venue has not read, or a reply on its way. -/
inductive Message (Token : Type)
  | request (refreshToken : Token)
  | reply (reply : Reply Token)
deriving DecidableEq, Repr

def Message.isReply : Message Token → Bool
  | .request _ => false
  | .reply _ => true

/-- Where a call of `refresh_tokens` stands. -/
inductive Call (Token : Type)
  /-- It waits for its turn to be written. -/
  | queued (refreshToken : Token)
  /-- It waits for the response to the frame it wrote. -/
  | awaiting (clientMsgId : ℕ) (earlier : Bool)
  /-- Its future holds the reply, and it has not resumed yet. -/
  | answered (reply : Reply Token) (earlier : Bool)
deriving DecidableEq, Repr

/-- The session, the call under way, the connection and the venue. The bring-up refreshes before the
session is ready and the refresh loop while it is, so one call is under way at a time. -/
structure System (Token : Type) where
  session : Session Token
  call : Option (Call Token) := none
  connected : Bool := false
  inFlight : Dict ℕ (Message Token) := Dict.empty
  nextId : ℕ := 0
  venue : Venue Token

namespace System

/-- A system whose session holds the venue's newest pair. -/
def start (venue : Venue Token) (expiresAtSecs : Option ℚ) : System Token where
  session :=
    { accessToken := venue.newest.accessToken
      refreshToken := some venue.newest.refreshToken
      expiresAtSecs := expiresAtSecs }
  venue := venue

/-- The call when the connection closes: one that waits is failed, a reply its future holds stays. -/
def failWaiting : Option (Call Token) → Option (Call Token)
  | some (.answered reply earlier) => some (.answered reply earlier)
  | _ => none

/-- A connection delivers every reply before it closes. -/
def canClose (s : System Token) : Bool := s.inFlight.values.all fun message => !message.isReply

/-- `refresh_tokens` up to its wait for its turn; the bring-up clears `_pair_taken` first. -/
def refreshTokens (s : System Token) (now : ℚ) (bringUp : Bool) : System Token :=
  match s.call, s.session.refreshToken with
  | none, some token =>
    { s with
      session :=
        { s.session with
          lastRefreshAt := some now
          pairTaken := s.session.pairTaken && !bringUp }
      call := if s.connected then some (.queued token) else none }
  | _, _ => s

/-- The call leaves the queue unsent: it waited too long, or it is cancelled. -/
def dropUnsent (s : System Token) : System Token :=
  match s.call with
  | some (.queued _) => { s with call := none }
  | _ => s

/-- The frame is handed to the socket. -/
def write (s : System Token) : System Token :=
  match s.call with
  | some (.queued token) =>
    let (session, earlier) := s.session.written
    { s with
      session := session
      call := some (.awaiting s.nextId earlier)
      inFlight := s.inFlight.set s.nextId (.request token)
      nextId := s.nextId + 1 }
  | _ => s

/-- The venue exchanges the refresh token of a request for `response`, if it is not spent. -/
def accept [DecidableEq Token] (s : System Token) (clientMsgId : ℕ) (response : Pair Token) :
    System Token :=
  if s.inFlight.get? clientMsgId = some (.request s.venue.newest.refreshToken) then
    if hfresh : response.refreshToken ∉ s.venue.issued.map Pair.refreshToken then
      { s with
        venue := s.venue.issue response hfresh
        inFlight := s.inFlight.set clientMsgId (.reply (.tokens response)) }
    else s
  else s

/-- The venue refuses a request, for a spent token or for any other reason. -/
def refuse (s : System Token) (clientMsgId : ℕ) : System Token :=
  match s.inFlight.get? clientMsgId with
  | some (.request _) => { s with inFlight := s.inFlight.set clientMsgId (.reply .error) }
  | _ => s

/-- `_on_event` for a reply whose request is gone. -/
def onEvent (s : System Token) (now : ℚ) : Reply Token → System Token × List (Pair Token)
  | .tokens response =>
    let (session, taken) := s.session.onLateRefreshReply now response
    ({ s with session := session }, taken)
  | .error => (s, [])

/-- A reply arrives: the future of its request takes it, and the event path where there is none. -/
def deliver (s : System Token) (now : ℚ) (clientMsgId : ℕ) : System Token × List (Pair Token) :=
  match s.inFlight.get? clientMsgId with
  | some (.reply reply) =>
    let s := { s with inFlight := s.inFlight.erase clientMsgId }
    match s.call with
    | some (.awaiting id earlier) =>
      if id = clientMsgId then ({ s with call := some (.answered reply earlier) }, [])
      else s.onEvent now reply
    | _ => s.onEvent now reply
  | _ => (s, [])

/-- The call resumes with the reply its future holds. -/
def resume (s : System Token) (now : ℚ) : System Token × List (Pair Token) :=
  match s.call with
  | some (.answered (.tokens response) _) =>
    ({ s with session := s.session.takePair now response, call := none }, [response])
  | some (.answered .error earlier) =>
    ({ s with session := s.session.refused earlier, call := none }, [])
  | _ => (s, [])

/-- A written call ends without its reply: its timeout fires, its write does not drain, or it is
cancelled. Each of these can still come when the future holds the reply and the call has not
resumed, and the reply is then dropped. -/
def giveUp (s : System Token) : System Token :=
  match s.call with
  | some (.queued _) => s
  | _ => { s with call := none }

/-- The socket fails: `_fail`, then `_on_disconnect`. A request the venue has not read is never
answered. -/
def lose (s : System Token) : System Token :=
  if s.canClose then
    { s with
      session := { s.session with ready := false, lost := true }
      call := failWaiting s.call
      connected := false
      inFlight := Dict.empty }
  else s

/-- `_teardown_connection`. -/
def teardown (s : System Token) : System Token :=
  if s.canClose then
    { s with
      session := { s.session.giveUpRefreshReply with ready := false }
      call := failWaiting s.call
      connected := false
      inFlight := Dict.empty }
  else s

/-- `_bring_up` as far as its connection. -/
def connect (s : System Token) : System Token :=
  { s with session := { s.session with ready := false, lost := false }, connected := true }

/-- The end of `_bring_up`. -/
def becomeReady (s : System Token) : System Token :=
  { s with session := { s.session with ready := true } }

end System

/-! ## Runs -/

/-- Everything that can happen to a refresh. -/
inductive Action (Token : Type)
  | refreshTokens (now : ℚ) (bringUp : Bool)
  | dropUnsent
  | write
  | accept (clientMsgId : ℕ) (response : Pair Token)
  | refuse (clientMsgId : ℕ)
  | deliver (now : ℚ) (clientMsgId : ℕ)
  | resume (now : ℚ)
  | giveUp
  | lose
  | teardown
  | connect
  | becomeReady

/-- The system as a machine; it tells the pairs `on_tokens_refreshed` is called with. -/
def machine [DecidableEq Token] : Machine (System Token) (Action Token) (Pair Token) where
  step s
    | .refreshTokens now bringUp => (s.refreshTokens now bringUp, [])
    | .dropUnsent => (s.dropUnsent, [])
    | .write => (s.write, [])
    | .accept clientMsgId response => (s.accept clientMsgId response, [])
    | .refuse clientMsgId => (s.refuse clientMsgId, [])
    | .deliver now clientMsgId => s.deliver now clientMsgId
    | .resume now => s.resume now
    | .giveUp => (s.giveUp, [])
    | .lose => (s.lose, [])
    | .teardown => (s.teardown, [])
    | .connect => (s.connect, [])
    | .becomeReady => (s.becomeReady, [])

/-- The session's tokens are those of `pair`. -/
def Session.Holds (session : Session Token) (pair : Pair Token) : Prop :=
  session.accessToken = pair.accessToken ∧ session.refreshToken = some pair.refreshToken

/-- No reply is on its way, and none waits for its call to resume. -/
def System.AllDelivered (s : System Token) : Prop :=
  (∀ clientMsgId reply, s.inFlight.get? clientMsgId ≠ some (.reply reply)) ∧
    ∀ reply earlier, s.call ≠ some (.answered reply earlier)

/-- The pair `s` holds is replaced in `s'` by one the venue issued before it. -/
def Regresses (s s' : System Token) : Prop :=
  ∃ held taken, s.session.Holds held ∧ s'.session.Holds taken ∧
    [held, taken].Sublist s'.venue.issued

/-- Over a run from `s`, no pair held is replaced by one issued before it, and whenever every reply
is delivered the session holds the newest pair. -/
def KeepsNewest [DecidableEq Token] (s : System Token) (actions : List (Action Token)) : Prop :=
  (∀ before action rest, actions = before ++ action :: rest →
      ¬ Regresses (machine.after s before) (machine.after s (before ++ [action]))) ∧
    ∀ before rest, actions = before ++ rest → (machine.after s before).AllDelivered →
      (machine.after s before).session.Holds (machine.after s before).venue.newest

/-- No call gives up once its future holds a pair. -/
def Timely (s : System Token) : Action Token → Prop
  | .giveUp => ∀ response earlier, s.call ≠ some (.answered (.tokens response) earlier)
  | _ => True

/-! ## What a run keeps

Either the session holds the newest pair and no reply carries one, or exactly one reply carries the
newest pair and the session holds the one before it. In both cases `_refresh_settled` is clear while
a request or a reply is about that would have to be adopted.
-/

variable {s : System Token}

/-- Messages are keyed by ids already used, and every token in use is one the venue issued. -/
structure Known (s : System Token) : Prop where
  unused : ∀ id, s.nextId ≤ id → s.inFlight.get? id = none
  awaited : ∀ id earlier, s.call = some (.awaiting id earlier) → id < s.nextId
  held : ∀ token, s.session.refreshToken = some token →
    token ∈ s.venue.issued.map Pair.refreshToken
  queued : ∀ token, s.call = some (.queued token) → token ∈ s.venue.issued.map Pair.refreshToken
  requested : ∀ id token, s.inFlight.get? id = some (.request token) →
    token ∈ s.venue.issued.map Pair.refreshToken

/-- A request in flight that the venue can still accept. -/
def System.Live (s : System Token) (id : ℕ) : Prop :=
  s.inFlight.get? id = some (.request s.venue.newest.refreshToken)

/-- A reply in flight that carries `response`. -/
def System.Carries (s : System Token) (id : ℕ) (response : Pair Token) : Prop :=
  s.inFlight.get? id = some (.reply (.tokens response))

/-- The call would set `_refresh_settled` if it is refused, and waits for no message but `id`. -/
def System.SettlesOnly (s : System Token) (id : ℕ) : Prop :=
  (∀ awaited, s.call = some (.awaiting awaited false) → awaited = id) ∧
    ∀ reply, s.call ≠ some (.answered reply false)

/-- The session holds the newest pair. -/
structure UpToDate (s : System Token) : Prop where
  holds : s.session.Holds s.venue.newest
  noneCarried : ∀ id response, ¬ s.Carries id response
  noneAnswered : ∀ response earlier, s.call ≠ some (.answered (.tokens response) earlier)
  awaited : ∀ id, s.Live id → s.session.refreshSettled = false ∧ s.SettlesOnly id

/-- The newest pair is on its way to the session, which holds the one before. -/
structure PairDue (s : System Token) : Prop where
  holds : ∃ previous older, s.venue.older = previous :: older ∧ s.session.Holds previous
  noneLive : ∀ id, ¬ s.Live id
  queued : ∀ token, s.call = some (.queued token) → token ≠ s.venue.newest.refreshToken
  onItsWay :
    (∃ id, s.Carries id s.venue.newest ∧ (∀ other response, s.Carries other response → other = id) ∧
        s.session.refreshSettled = false ∧ s.SettlesOnly id ∧
        ∀ response earlier, s.call ≠ some (.answered (.tokens response) earlier)) ∨
      ((∃ earlier, s.call = some (.answered (.tokens s.venue.newest) earlier)) ∧
        ∀ id response, ¬ s.Carries id response)

/-- What holds along every run. -/
def Kept (s : System Token) : Prop := Known s ∧ (UpToDate s ∨ PairDue s)

/-! ### A call begins and ends -/

/-- A refresh begins. -/
theorem Kept.refreshTokens (h : Kept s) (now : ℚ) (bringUp : Bool) :
    Kept (s.refreshTokens now bringUp) := by
  unfold System.refreshTokens
  split
  case h_2 => exact h
  case h_1 token hcall htoken =>
    obtain ⟨hknown, hcases⟩ := h
    have hnew : ∀ call, (if s.connected then some (Call.queued token) else none) = some call →
        call = .queued token := by
      intro call hcall
      split at hcall
      · exact (Option.some.inj hcall).symm
      · cases hcall
    refine ⟨⟨hknown.unused, ?_, hknown.held, ?_, hknown.requested⟩, ?_⟩
    · intro id earlier hawaiting
      cases hnew _ hawaiting
    · intro other hqueued
      cases hnew _ hqueued
      exact hknown.held token htoken
    rcases hcases with hheld | hdue
    · refine .inl ⟨hheld.holds, hheld.noneCarried, ?_, ?_⟩
      · intro response earlier hanswered
        cases hnew _ hanswered
      · intro id hlive
        refine ⟨(hheld.awaited id hlive).1, ?_, ?_⟩
        · intro awaited hawaiting
          cases hnew _ hawaiting
        · intro reply hanswered
          cases hnew _ hanswered
    · obtain ⟨previous, older, holder, hholds⟩ := hdue.holds
      refine .inr ⟨⟨previous, older, holder, hholds⟩, hdue.noneLive, ?_, ?_⟩
      · intro other hqueued
        cases hnew _ hqueued
        -- The session holds the pair before the newest, whose refresh token is another one.
        have hprevious : token = previous.refreshToken :=
          Option.some.inj (htoken.symm.trans hholds.2)
        have hdistinct := s.venue.distinct
        rw [holder, List.map_cons, List.map_cons, List.nodup_cons] at hdistinct
        rintro heq
        exact hdistinct.1 (by rw [← heq, hprevious]; exact List.mem_cons_self)
      · rcases hdue.onItsWay with ⟨id, hcarries, honly, hsettled, -, -⟩ | ⟨⟨earlier, hanswered⟩, -⟩
        · refine .inl ⟨id, hcarries, honly, hsettled, ⟨?_, ?_⟩, ?_⟩
          · intro awaited hawaiting
            cases hnew _ hawaiting
          · intro reply hanswered
            cases hnew _ hanswered
          · intro response earlier hanswered
            cases hnew _ hanswered
        · rw [hcall] at hanswered
          cases hanswered

/-- A call that ends changes nothing but that it is gone, unless its future holds the pair. -/
theorem Kept.endCall (h : Kept s)
    (hpair : ∀ response earlier, s.call ≠ some (.answered (.tokens response) earlier)) :
    Kept { s with call := none } := by
  obtain ⟨hknown, hcases⟩ := h
  have hnone : ∀ call : Call Token, (none : Option (Call Token)) ≠ some call := fun _ h => by cases h
  refine ⟨⟨hknown.unused, fun _ _ h => absurd h (hnone _), hknown.held,
    fun _ h => absurd h (hnone _), hknown.requested⟩, ?_⟩
  rcases hcases with hheld | hdue
  · exact .inl ⟨hheld.holds, hheld.noneCarried, fun _ _ => hnone _, fun id hlive =>
      ⟨(hheld.awaited id hlive).1, fun _ h => absurd h (hnone _), fun _ => hnone _⟩⟩
  · refine .inr ⟨hdue.holds, hdue.noneLive, fun _ h => absurd h (hnone _), ?_⟩
    rcases hdue.onItsWay with ⟨id, hcarries, honly, hsettled, -, -⟩ | ⟨⟨earlier, hanswered⟩, -⟩
    · exact .inl ⟨id, hcarries, honly, hsettled, ⟨fun _ h => absurd h (hnone _), fun _ => hnone _⟩,
        fun _ _ => hnone _⟩
    · exact absurd hanswered (hpair _ _)

/-- A request that was not sent is dropped. -/
theorem Kept.dropUnsent (h : Kept s) : Kept s.dropUnsent := by
  unfold System.dropUnsent
  split
  · rename_i hcall
    exact h.endCall fun response earlier hanswered => by rw [hcall] at hanswered; cases hanswered
  · exact h

/-- A refresh is given up. -/
theorem Kept.giveUp (h : Kept s) (htimely : Timely s .giveUp) : Kept s.giveUp := by
  unfold System.giveUp
  split
  · exact h
  · exact h.endCall htimely

/-! ### A message is written and answered -/

/-- A request is written. -/
theorem Kept.write (h : Kept s) : Kept s.write := by
  unfold System.write
  split
  case h_2 => exact h
  case h_1 token hcall =>
    obtain ⟨hknown, hcases⟩ := h
    have hget : ∀ id, (s.inFlight.set s.nextId (Message.request token)).get? id =
        if s.nextId = id then some (.request token) else s.inFlight.get? id := fun id =>
      Dict.get?_set _ _ _ id
    have hother : ∀ id reply, (s.inFlight.set s.nextId (Message.request token)).get? id =
        some (.reply reply) → s.inFlight.get? id = some (.reply reply) := by
      intro id reply hreply
      rw [hget] at hreply
      split at hreply
      · cases hreply
      · exact hreply
    refine ⟨⟨?_, ?_, hknown.held, fun _ h => (by cases h), ?_⟩, ?_⟩
    · intro id hid
      have hid : s.nextId + 1 ≤ id := hid
      rw [hget, if_neg (by omega)]
      exact hknown.unused id (by omega)
    · intro id earlier hawaiting
      cases hawaiting
      exact Nat.lt_succ_self _
    · intro id other hrequest
      rw [hget] at hrequest
      split at hrequest
      · cases hrequest
        exact hknown.queued token hcall
      · exact hknown.requested id other hrequest
    rcases hcases with hheld | hdue
    · refine .inl ⟨hheld.holds, fun id response hcarries => ?_, fun _ _ h => (by cases h), ?_⟩
      · exact hheld.noneCarried id response (hother _ _ hcarries)
      · intro id hlive
        refine ⟨rfl, ?_, fun _ h => (by cases h)⟩
        intro awaited hawaiting
        -- With nothing awaited before this write, no request was live but this one.
        obtain ⟨hid, hearlier⟩ := Call.awaiting.inj (Option.some.inj hawaiting)
        have hsettled : s.session.refreshSettled = true := by
          simpa [Session.written] using hearlier
        by_contra hne
        have hlive' : s.Live id := by
          have hlive : (s.inFlight.set s.nextId (Message.request token)).get? id = _ := hlive
          rw [hget, if_neg (by omega)] at hlive
          exact hlive
        have := (hheld.awaited id hlive').1
        rw [hsettled] at this
        cases this
    · refine .inr ⟨hdue.holds, ?_, fun _ h => (by cases h), ?_⟩
      · intro id hlive
        have hlive : (s.inFlight.set s.nextId (Message.request token)).get? id = _ := hlive
        rw [hget] at hlive
        split at hlive
        · exact hdue.queued token hcall (Message.request.inj (Option.some.inj hlive))
        · exact hdue.noneLive id hlive
      · rcases hdue.onItsWay with ⟨id, hcarries, honly, hsettled, -, -⟩ | ⟨⟨earlier, hanswered⟩, -⟩
        · have hold : s.nextId ≠ id := by
            rintro rfl
            rw [System.Carries, hknown.unused _ le_rfl] at hcarries
            cases hcarries
          refine .inl ⟨id, ?_, fun other response h => honly other response (hother _ _ h), rfl,
            ⟨?_, fun _ h => (by cases h)⟩, fun _ _ h => (by cases h)⟩
          · show (s.inFlight.set s.nextId (Message.request token)).get? id = _
            rw [hget, if_neg hold]
            exact hcarries
          · intro awaited hawaiting
            obtain ⟨-, hearlier⟩ := Call.awaiting.inj (Option.some.inj hawaiting)
            simp [Session.written, hsettled] at hearlier
        · rw [hcall] at hanswered
          cases hanswered

/-- A reply put in flight leaves only requests that were there. -/
theorem request_of_set_reply {inFlight : Dict ℕ (Message Token)} {id other : ℕ} {reply : Reply Token}
    {held : Token} (h : (inFlight.set id (.reply reply)).get? other = some (.request held)) :
    inFlight.get? other = some (.request held) := by
  rcases Dict.get?_set_eq_some.mp h with ⟨-, heq⟩ | ⟨-, hold⟩
  · cases heq
  · exact hold

/-- The venue refuses a request. -/
theorem Kept.refuse (h : Kept s) (id : ℕ) : Kept (s.refuse id) := by
  unfold System.refuse
  split
  case h_2 => exact h
  case h_1 token hrequest =>
    obtain ⟨hknown, hcases⟩ := h
    have hget : ∀ other, (s.inFlight.set id (Message.reply .error)).get? other =
        if id = other then some (.reply .error) else s.inFlight.get? other := fun other =>
      Dict.get?_set _ _ _ other
    have hcarried : ∀ other response, (s.inFlight.set id (Message.reply .error)).get? other =
        some (.reply (.tokens response)) → s.Carries other response := by
      intro other response hcarries
      rw [hget] at hcarries
      split at hcarries
      · cases hcarries
      · exact hcarries
    refine ⟨⟨?_, hknown.awaited, hknown.held, hknown.queued, fun other held h =>
      hknown.requested other held (request_of_set_reply h)⟩, ?_⟩
    · intro other hother
      rw [hget, if_neg]
      · exact hknown.unused other hother
      · rintro rfl
        rw [hknown.unused id hother] at hrequest
        cases hrequest
    rcases hcases with hheld | hdue
    · exact .inl ⟨hheld.holds, fun other response h => hheld.noneCarried _ _ (hcarried _ _ h),
        hheld.noneAnswered, fun other hlive => hheld.awaited other (request_of_set_reply hlive)⟩
    · refine .inr ⟨hdue.holds, fun other hlive => hdue.noneLive other (request_of_set_reply hlive),
        hdue.queued, ?_⟩
      rcases hdue.onItsWay with ⟨due, hcarries, honly, hrest⟩ | ⟨hanswered, hnone⟩
      · have hne : id ≠ due := by
          rintro rfl
          rw [System.Carries, hrequest] at hcarries
          cases hcarries
        refine .inl ⟨due, ?_, fun other response h => honly other response (hcarried _ _ h), hrest⟩
        show (s.inFlight.set id (Message.reply .error)).get? due = _
        rw [hget, if_neg hne]
        exact hcarries
      · exact .inr ⟨hanswered, fun other response h => hnone other response (hcarried _ _ h)⟩

/-- The venue issues a pair. -/
theorem Kept.accept [DecidableEq Token] (h : Kept s) (id : ℕ) (response : Pair Token) :
    Kept (s.accept id response) := by
  unfold System.accept
  split
  case isFalse => exact h
  case isTrue hlive =>
    split
    case isFalse => exact h
    case isTrue hfresh =>
      obtain ⟨hknown, hcases⟩ := h
      have hget : ∀ other, (s.inFlight.set id (Message.reply (.tokens response))).get? other =
          if id = other then some (.reply (.tokens response)) else s.inFlight.get? other :=
        fun other => Dict.get?_set _ _ _ other
      have hold : ∀ token ∈ s.venue.issued.map Pair.refreshToken,
          token ∈ (s.venue.issue response hfresh).issued.map Pair.refreshToken := fun token h =>
        List.mem_cons_of_mem _ h
      refine ⟨⟨?_, hknown.awaited, fun token h => hold _ (hknown.held token h),
        fun token h => hold _ (hknown.queued token h), fun other held h =>
          hold _ (hknown.requested other held (request_of_set_reply h))⟩, ?_⟩
      · intro other hother
        rw [hget, if_neg]
        · exact hknown.unused other hother
        · rintro rfl
          rw [hknown.unused id hother] at hlive
          cases hlive
      -- the session held the newest pair, which the new one follows; it is on its way
      rcases hcases with hheld | hdue
      · obtain ⟨hsettled, honly⟩ := hheld.awaited id hlive
        refine .inr ⟨⟨s.venue.newest, s.venue.older, rfl, hheld.holds⟩, ?_, ?_, .inl ⟨id, ?_, ?_,
          hsettled, honly, hheld.noneAnswered⟩⟩
        · intro other hother
          exact hfresh (hknown.requested other _ (request_of_set_reply hother))
        · rintro token hqueued rfl
          exact hfresh (hknown.queued _ hqueued)
        · show (s.inFlight.set id (Message.reply (.tokens response))).get? id = _
          rw [hget, if_pos rfl]
          rfl
        · intro other carried hcarries
          have hcarries : (s.inFlight.set id (Message.reply (.tokens response))).get? other = _ :=
            hcarries
          rw [hget] at hcarries
          split at hcarries
          · rename_i heq
            exact heq.symm
          · exact absurd hcarries (hheld.noneCarried other carried)
      · exact absurd hlive (hdue.noneLive id)

/-! ### A reply reaches the session -/

/-- Taking the pair that is due leaves the session up to date. -/
theorem PairDue.take (hdue : PairDue s) {session : Session Token} {call : Option (Call Token)}
    {inFlight : Dict ℕ (Message Token)} (hholds : session.Holds s.venue.newest)
    (hflight : ∀ id message, inFlight.get? id = some message → s.inFlight.get? id = some message)
    (hnone : ∀ id response, inFlight.get? id ≠ some (.reply (.tokens response)))
    (hcall : ∀ response earlier, call ≠ some (.answered (.tokens response) earlier)) :
    UpToDate { s with session := session, call := call, inFlight := inFlight } where
  holds := hholds
  noneCarried := hnone
  noneAnswered := hcall
  awaited id hlive := absurd (hflight id _ hlive) (hdue.noneLive id)

/-- A reply that comes late is taken while its refresh is not settled. -/
theorem onLateRefreshReply_taken {session : Session Token} (hsettled : session.refreshSettled = false)
    (now : ℚ) (response : Pair Token) :
    (session.onLateRefreshReply now response).1.Holds response := by
  unfold Session.onLateRefreshReply
  rw [hsettled]
  simp only [Bool.false_eq_true, if_false]
  split <;> exact ⟨rfl, rfl⟩

/-- A reply goes to the call that awaits it, or is taken late. -/
theorem deliver_of_reply {id : ℕ} {reply : Reply Token}
    (hreply : s.inFlight.get? id = some (.reply reply)) (now : ℚ) :
    (∃ earlier, s.call = some (.awaiting id earlier) ∧ (s.deliver now id).1 =
        { s with inFlight := s.inFlight.erase id, call := some (.answered reply earlier) }) ∨
      ((∀ earlier, s.call ≠ some (.awaiting id earlier)) ∧ (s.deliver now id).1 =
        (({ s with inFlight := s.inFlight.erase id } : System Token).onEvent now reply).1) := by
  unfold System.deliver
  rw [hreply]
  cases hcall : s.call with
  | none => exact .inr ⟨fun _ h => (by cases h), rfl⟩
  | some call =>
    cases call with
    | queued token => exact .inr ⟨fun _ h => (by cases h), rfl⟩
    | answered reply earlier => exact .inr ⟨fun _ h => (by cases h), rfl⟩
    | awaiting awaited earlier =>
      by_cases heq : awaited = id
      · subst heq
        exact .inl ⟨earlier, rfl, by simp only [if_true]⟩
      · exact .inr ⟨fun _ h => heq (by cases h; rfl), by simp only [heq, if_false]⟩

/-- What arrives was issued. -/
theorem Known.arrive (h : Known s) {session : Session Token} {call : Option (Call Token)} (id : ℕ)
    (hheld : ∀ token, session.refreshToken = some token →
      token ∈ s.venue.issued.map Pair.refreshToken)
    (hcall : call = s.call ∨ ∃ reply earlier, call = some (.answered reply earlier)) :
    Known { s with session := session, call := call, inFlight := s.inFlight.erase id } := by
  refine ⟨?_, ?_, hheld, ?_, fun other token hrequest =>
    h.requested other token (Dict.get?_erase_eq_some.mp hrequest).2⟩
  · intro other hother
    rw [Dict.get?_erase]
    split
    · rfl
    · exact h.unused other hother
  · rintro awaited earlier hawaiting
    rcases hcall with rfl | ⟨reply, earlier, rfl⟩
    · exact h.awaited awaited earlier hawaiting
    · cases hawaiting
  · rintro token hqueued
    rcases hcall with rfl | ⟨reply, earlier, rfl⟩
    · exact h.queued token hqueued
    · cases hqueued

/-- A reply with a pair carries the newest one, which is due, and no other reply carries one. -/
theorem Kept.due_of_carries (h : Kept s) {id : ℕ} {response : Pair Token}
    (hcarries : s.Carries id response) :
    PairDue s ∧ response = s.venue.newest ∧ s.session.refreshSettled = false ∧ s.SettlesOnly id ∧
      (∀ other carried, s.Carries other carried → other = id) ∧
      ∀ carried earlier, s.call ≠ some (.answered (.tokens carried) earlier) := by
  rcases h.2 with hheld | hdue
  · exact absurd hcarries (hheld.noneCarried id response)
  rcases hdue.onItsWay with ⟨due, hnewest, honly, hsettled, hsettles, hanswered⟩ | ⟨-, hnone⟩
  · obtain rfl := honly id response hcarries
    have heq : response = s.venue.newest := by
      have := hcarries.symm.trans hnewest
      simpa using this
    exact ⟨hdue, heq, hsettled, hsettles, honly, hanswered⟩
  · exact absurd hcarries (hnone id response)

/-- A call whose future holds a pair holds the newest one, and no reply carries one. -/
theorem Kept.due_of_answered (h : Kept s) {response : Pair Token} {earlier : Bool}
    (hcall : s.call = some (.answered (.tokens response) earlier)) :
    PairDue s ∧ response = s.venue.newest ∧ ∀ id carried, ¬ s.Carries id carried := by
  rcases h.2 with hheld | hdue
  · exact absurd hcall (hheld.noneAnswered response earlier)
  rcases hdue.onItsWay with ⟨_, _, _, _, _, hnone⟩ | ⟨⟨_, hanswered⟩, hnone⟩
  · exact absurd hcall (hnone response earlier)
  · rw [hcall] at hanswered
    exact ⟨hdue, by simpa using (Call.answered.inj (Option.some.inj hanswered)).1, hnone⟩

/-- A pair that arrives is taken by its call, or adopted. -/
theorem Kept.deliver_tokens (h : Kept s) (now : ℚ) {id : ℕ} {response : Pair Token}
    (hcarries : s.Carries id response) : Kept (s.deliver now id).1 := by
  obtain ⟨hdue, rfl, hsettled, hsettles, honly, hanswered⟩ := h.due_of_carries hcarries
  have hnone : ∀ other carried,
      (s.inFlight.erase id).get? other ≠ some (.reply (.tokens carried)) := by
    intro other carried hother
    obtain ⟨hne, hold⟩ := Dict.get?_erase_eq_some.mp hother
    exact hne (honly other carried hold)
  rcases deliver_of_reply hcarries now with ⟨earlier, hcall, hdeliver⟩ | ⟨-, hdeliver⟩
  · rw [hdeliver]
    refine ⟨h.1.arrive id h.1.held (.inr ⟨_, _, rfl⟩), .inr ⟨hdue.holds, ?_, ?_, .inr ⟨⟨_, rfl⟩, hnone⟩⟩⟩
    · exact fun other hlive => hdue.noneLive other (Dict.get?_erase_eq_some.mp hlive).2
    · intro token hqueued
      cases hqueued
  · rw [hdeliver]
    have htaken := onLateRefreshReply_taken hsettled now s.venue.newest
    refine ⟨h.1.arrive id ?_ (.inl rfl), .inl (hdue.take htaken
      (fun other message hmessage => (Dict.get?_erase_eq_some.mp hmessage).2) hnone hanswered)⟩
    intro token htoken
    have htoken : (s.session.onLateRefreshReply now s.venue.newest).1.refreshToken = some token :=
      htoken
    rw [htaken.2] at htoken
    obtain rfl := Option.some.inj htoken
    exact List.mem_cons_self

/-- A refusal that arrives leaves the tokens as they are. -/
theorem Kept.deliver_error (h : Kept s) (now : ℚ) {id : ℕ}
    (herror : s.inFlight.get? id = some (.reply .error)) : Kept (s.deliver now id).1 := by
  have hcarried : ∀ {other response}, (s.inFlight.erase id).get? other =
      some (.reply (.tokens response)) → s.Carries other response := fun h => (Dict.get?_erase_eq_some.mp h).2
  have hlives : ∀ {other}, (s.inFlight.erase id).get? other =
      some (.request s.venue.newest.refreshToken) → other ≠ id ∧ s.Live other :=
      Dict.get?_erase_eq_some.mp
  rcases deliver_of_reply herror now with ⟨earlier, hcall, hdeliver⟩ | ⟨-, hdeliver⟩
  · rw [hdeliver]
    -- A call that waits for `id` and could settle leaves no other message to settle for.
    have hsettles : ∀ {other}, other ≠ id → s.SettlesOnly other →
        (∀ awaited, some (Call.answered (.error : Reply Token) earlier) =
            some (.awaiting awaited false) → awaited = other) ∧
          ∀ reply, some (Call.answered (.error : Reply Token) earlier) ≠
            some (.answered reply false) := by
      intro other hne honly
      refine ⟨fun _ h => (by cases h), fun reply hanswered => ?_⟩
      obtain ⟨-, rfl⟩ := Call.answered.inj (Option.some.inj hanswered)
      exact hne (honly.1 id hcall).symm
    refine ⟨h.1.arrive id h.1.held (.inr ⟨_, _, rfl⟩), ?_⟩
    rcases h.2 with hheld | hdue
    · refine .inl ⟨hheld.holds, fun _ _ h => hheld.noneCarried _ _ (hcarried h),
        fun _ _ h => (by cases h), fun other hlive => ?_⟩
      obtain ⟨hne, hlive⟩ := hlives hlive
      obtain ⟨hsettled, honly⟩ := hheld.awaited other hlive
      exact ⟨hsettled, hsettles hne honly⟩
    · refine .inr ⟨hdue.holds, fun _ h => hdue.noneLive _ (hlives h).2, fun _ h => (by cases h), ?_⟩
      rcases hdue.onItsWay with ⟨due, hnewest, honly, hsettled, hsettle, -⟩ | ⟨⟨earlier, h⟩, -⟩
      · have hne : due ≠ id := by
          rintro rfl
          rw [System.Carries, herror] at hnewest
          cases hnewest
        refine .inl ⟨due, ?_, fun _ _ h => honly _ _ (hcarried h), hsettled, hsettles hne hsettle,
          fun _ _ h => (by cases h)⟩
        show (s.inFlight.erase id).get? due = _
        rw [Dict.get?_erase, if_neg hne]
        exact hnewest
      · rw [hcall] at h
        cases h
  · rw [hdeliver]
    refine ⟨h.1.arrive id h.1.held (.inl rfl), ?_⟩
    rcases h.2 with hheld | hdue
    · exact .inl ⟨hheld.holds, fun _ _ h => hheld.noneCarried _ _ (hcarried h), hheld.noneAnswered,
        fun other hlive => hheld.awaited other (hlives hlive).2⟩
    · refine .inr ⟨hdue.holds, fun _ h => hdue.noneLive _ (hlives h).2, hdue.queued, ?_⟩
      rcases hdue.onItsWay with ⟨due, hnewest, honly, hrest⟩ | ⟨hanswered, hnone⟩
      · have hne : due ≠ id := by
          rintro rfl
          rw [System.Carries, herror] at hnewest
          cases hnewest
        refine .inl ⟨due, ?_, fun _ _ h => honly _ _ (hcarried h), hrest⟩
        show (s.inFlight.erase id).get? due = _
        rw [Dict.get?_erase, if_neg hne]
        exact hnewest
      · exact .inr ⟨hanswered, fun _ _ h => hnone _ _ (hcarried h)⟩

/-- A reply arrives. -/
theorem Kept.deliver (h : Kept s) (now : ℚ) (id : ℕ) : Kept (s.deliver now id).1 := by
  cases hget : s.inFlight.get? id with
  | none => simpa [System.deliver, hget] using h
  | some message =>
    cases message with
    | request token => simpa [System.deliver, hget] using h
    | reply reply =>
      cases reply with
      | tokens response => exact h.deliver_tokens now hget
      | error => exact h.deliver_error now hget

/-- Setting `_refresh_settled` is harmless where nothing is left to adopt. -/
theorem UpToDate.settle (hheld : UpToDate s) (hlive : ∀ id, ¬ s.Live id) {session : Session Token}
    (hsession : session.accessToken = s.session.accessToken ∧
      session.refreshToken = s.session.refreshToken) :
    UpToDate { s with session := session, call := none } where
  holds := ⟨hsession.1.trans hheld.holds.1, hsession.2.trans hheld.holds.2⟩
  noneCarried := hheld.noneCarried
  noneAnswered _ _ h := by cases h
  awaited id h := absurd h (hlive id)

/-- The call goes on with its reply. -/
theorem Kept.resume (h : Kept s) (now : ℚ) : Kept (s.resume now).1 := by
  unfold System.resume
  split
  case h_3 => exact h
  case h_1 response earlier hcall =>
    obtain ⟨hdue, rfl, hnone⟩ := h.due_of_answered hcall
    refine ⟨⟨h.1.unused, fun _ _ h => (by cases h), ?_, fun _ h => (by cases h), h.1.requested⟩,
      .inl (hdue.take ⟨rfl, rfl⟩ (fun _ _ h => h) hnone fun _ _ h => (by cases h))⟩
    intro token htoken
    obtain rfl := Option.some.inj htoken
    exact List.mem_cons_self
  case h_2 earlier hcall =>
    have hpair : ∀ response earlier, s.call ≠ some (.answered (.tokens response) earlier) := by
      intro response other hanswered
      rw [hcall] at hanswered
      cases hanswered
    cases earlier with
    | true => exact h.endCall hpair
    | false =>
      obtain ⟨hknown, hcases⟩ := h
      refine ⟨⟨hknown.unused, fun _ _ h => (by cases h), hknown.held, fun _ h => (by cases h),
        hknown.requested⟩, ?_⟩
      rcases hcases with hheld | hdue
      · exact .inl (hheld.settle (fun id hlive => (hheld.awaited id hlive).2.2 _ hcall) ⟨rfl, rfl⟩)
      · rcases hdue.onItsWay with ⟨_, _, _, _, hsettles, _⟩ | ⟨⟨earlier, hanswered⟩, -⟩
        · exact absurd hcall (hsettles.2 _)
        · exact absurd hanswered (hpair _ _)

/-- A connection that closes with no reply on its way loses none. -/
theorem Kept.close (h : Kept s) (hclose : s.canClose = true) {session : Session Token}
    (hsession : session.accessToken = s.session.accessToken ∧
      session.refreshToken = s.session.refreshToken) :
    Kept { s with
      session := session
      call := System.failWaiting s.call
      connected := false
      inFlight := Dict.empty } := by
  have hreply : ∀ id reply, s.inFlight.get? id ≠ some (.reply reply) := by
    intro id reply hget
    have := List.all_eq_true.mp hclose _ (Dict.mem_values.mpr ⟨id, hget⟩)
    cases this
  have hcall : ∀ call, System.failWaiting s.call = some call →
      s.call = some call ∧ ∃ reply earlier, call = .answered reply earlier := by
    intro call hcall
    unfold System.failWaiting at hcall
    split at hcall
    · exact ⟨by rwa [← hcall], _, _, (Option.some.inj hcall).symm⟩
    · cases hcall
  obtain ⟨hknown, hcases⟩ := h
  refine ⟨⟨fun _ _ => rfl, ?_, ?_, ?_, fun _ _ h => (by cases h)⟩, ?_⟩
  · intro id earlier hawaiting
    obtain ⟨-, _, _, heq⟩ := hcall _ hawaiting
    cases heq
  · intro token htoken
    exact hknown.held token (hsession.2.symm.trans htoken)
  · intro token hqueued
    obtain ⟨-, _, _, heq⟩ := hcall _ hqueued
    cases heq
  -- a pair that is due was answered already, as no reply is on its way
  rcases hcases with hheld | hdue
  · refine .inl ⟨⟨hsession.1.trans hheld.holds.1, hsession.2.trans hheld.holds.2⟩,
      fun _ _ h => (by cases h), ?_, fun _ h => (by cases h)⟩
    intro response earlier hanswered
    exact hheld.noneAnswered response earlier (hcall _ hanswered).1
  · obtain ⟨previous, older, holder, hholds⟩ := hdue.holds
    refine .inr ⟨⟨previous, older, holder, hsession.1.trans hholds.1, hsession.2.trans hholds.2⟩,
      fun _ h => (by cases h), ?_, ?_⟩
    · intro token hqueued
      obtain ⟨-, _, _, heq⟩ := hcall _ hqueued
      cases heq
    · rcases hdue.onItsWay with ⟨id, hcarries, -⟩ | ⟨⟨earlier, hanswered⟩, -⟩
      · exact absurd hcarries (hreply id _)
      · refine .inr ⟨⟨earlier, ?_⟩, fun _ _ h => (by cases h)⟩
        show System.failWaiting s.call = _
        rw [hanswered]
        rfl

/-- The connection is lost. -/
theorem Kept.lose (h : Kept s) : Kept s.lose := by
  unfold System.lose
  split
  · exact h.close ‹_› ⟨rfl, rfl⟩
  · exact h

/-- It is torn down. -/
theorem Kept.teardown (h : Kept s) : Kept s.teardown := by
  unfold System.teardown
  split
  · exact h.close ‹_› ⟨rfl, rfl⟩
  · exact h

/-- It is there again. -/
theorem Kept.connect (h : Kept s) : Kept s.connect :=
  ⟨⟨h.1.unused, h.1.awaited, h.1.held, h.1.queued, h.1.requested⟩, h.2.imp
    (fun hheld => ⟨hheld.holds, hheld.noneCarried, hheld.noneAnswered, hheld.awaited⟩)
    fun hdue => ⟨hdue.holds, hdue.noneLive, hdue.queued, hdue.onItsWay⟩⟩

/-- The session is ready. -/
theorem Kept.becomeReady (h : Kept s) : Kept s.becomeReady :=
  ⟨⟨h.1.unused, h.1.awaited, h.1.held, h.1.queued, h.1.requested⟩, h.2.imp
    (fun hheld => ⟨hheld.holds, hheld.noneCarried, hheld.noneAnswered, hheld.awaited⟩)
    fun hdue => ⟨hdue.holds, hdue.noneLive, hdue.queued, hdue.onItsWay⟩⟩

/-! ## The newest pair -/

/-- A session starts with the pair issued to it. -/
theorem kept_start (venue : Venue Token) (expiresAtSecs : Option ℚ) :
    Kept (System.start venue expiresAtSecs) := by
  refine ⟨⟨fun _ _ => rfl, fun _ _ h => (by cases h), ?_, fun _ h => (by cases h),
    fun _ _ h => (by cases h)⟩, .inl ⟨⟨rfl, rfl⟩, fun _ _ h => (by cases h), fun _ _ h => (by cases h),
    fun _ h => (by cases h)⟩⟩
  intro token htoken
  obtain rfl := Option.some.inj htoken
  exact List.mem_cons_self

/-- Every timely step keeps the newest pair. -/
theorem kept_step [DecidableEq Token] (h : Kept s) (action : Action Token)
    (htimely : Timely s action) : Kept (machine.step s action).1 := by
  cases action with
  | refreshTokens now bringUp => exact h.refreshTokens now bringUp
  | dropUnsent => exact h.dropUnsent
  | write => exact h.write
  | accept id response => exact h.accept id response
  | refuse id => exact h.refuse id
  | deliver now id => exact h.deliver now id
  | resume now => exact h.resume now
  | giveUp => exact h.giveUp htimely
  | lose => exact h.lose
  | teardown => exact h.teardown
  | connect => exact h.connect
  | becomeReady => exact h.becomeReady

/-- Once every reply is delivered, the session holds the newest pair. -/
theorem Kept.holds_newest (h : Kept s) (hdelivered : s.AllDelivered) :
    s.session.Holds s.venue.newest := by
  rcases h.2 with hheld | hdue
  · exact hheld.holds
  · rcases hdue.onItsWay with ⟨id, hcarries, -⟩ | ⟨⟨earlier, hanswered⟩, -⟩
    · exact absurd hcarries (hdelivered.1 id _)
    · exact absurd hanswered (hdelivered.2 _ _)

/-- A step leaves the session's refresh token, or gives it the newest pair. -/
theorem Kept.refreshToken_step [DecidableEq Token] (h : Kept s) (action : Action Token) :
    (machine.step s action).1.session.refreshToken = s.session.refreshToken ∨
      (machine.step s action).1.session.Holds (machine.step s action).1.venue.newest := by
  -- only a delivered reply, at once or when the call resumes, brings a token
  cases action with
  | refreshTokens now bringUp =>
    refine .inl ?_
    show (s.refreshTokens now bringUp).session.refreshToken = _
    unfold System.refreshTokens
    split <;> rfl
  | dropUnsent =>
    refine .inl ?_
    show s.dropUnsent.session.refreshToken = _
    unfold System.dropUnsent
    split <;> rfl
  | write =>
    refine .inl ?_
    show s.write.session.refreshToken = _
    unfold System.write
    split <;> rfl
  | accept id response =>
    refine .inl ?_
    show (s.accept id response).session.refreshToken = _
    unfold System.accept
    split
    · split <;> rfl
    · rfl
  | refuse id =>
    refine .inl ?_
    show (s.refuse id).session.refreshToken = _
    unfold System.refuse
    split <;> rfl
  | deliver now id =>
    show (s.deliver now id).1.session.refreshToken = _ ∨
      (s.deliver now id).1.session.Holds (s.deliver now id).1.venue.newest
    cases hget : s.inFlight.get? id with
    | none => exact .inl (by simp [System.deliver, hget])
    | some message =>
      cases message with
      | request token => exact .inl (by simp [System.deliver, hget])
      | reply reply =>
        rcases deliver_of_reply hget now with ⟨earlier, -, hdeliver⟩ | ⟨-, hdeliver⟩
        · rw [hdeliver]
          exact .inl rfl
        rw [hdeliver]
        cases reply with
        | error => exact .inl rfl
        | tokens response =>
          obtain ⟨-, rfl, hsettled, -⟩ := h.due_of_carries hget
          exact .inr (onLateRefreshReply_taken hsettled now s.venue.newest)
  | resume now =>
    show (s.resume now).1.session.refreshToken = _ ∨
      (s.resume now).1.session.Holds (s.resume now).1.venue.newest
    unfold System.resume
    split
    case h_1 response earlier hcall =>
      obtain ⟨-, rfl, -⟩ := h.due_of_answered hcall
      exact .inr ⟨rfl, rfl⟩
    case h_2 earlier hcall =>
      refine .inl ?_
      show (s.session.refused earlier).refreshToken = _
      unfold Session.refused
      split <;> rfl
    case h_3 => exact .inl rfl
  | giveUp =>
    refine .inl ?_
    show s.giveUp.session.refreshToken = _
    unfold System.giveUp
    split <;> rfl
  | lose =>
    refine .inl ?_
    show s.lose.session.refreshToken = _
    unfold System.lose
    split <;> rfl
  | teardown =>
    refine .inl ?_
    show s.teardown.session.refreshToken = _
    unfold System.teardown
    split <;> rfl
  | connect => exact .inl rfl
  | becomeReady => exact .inl rfl

/-- A pair issued before another has another refresh token than it, and is not the newest. -/
theorem Venue.issued_before {venue : Venue Token} {held taken : Pair Token}
    (h : [held, taken].Sublist venue.issued) :
    held.refreshToken ≠ taken.refreshToken ∧
      venue.newest.refreshToken ≠ taken.refreshToken := by
  have hdistinct := (h.map Pair.refreshToken).nodup venue.distinct
  have hne : held.refreshToken ≠ taken.refreshToken := by simpa using hdistinct
  refine ⟨hne, ?_⟩
  have htaken : taken ∈ venue.older := by
    have hdrop := h.tail
    exact hdrop.subset (by simp)
  have hnewest := (List.nodup_cons.mp venue.distinct).1
  exact fun heq => hnewest (heq ▸ List.mem_map_of_mem htaken)

/-- No step goes back to an older pair. -/
theorem Kept.not_regresses [DecidableEq Token] (h : Kept s) (action : Action Token) :
    ¬ Regresses s (machine.step s action).1 := by
  rintro ⟨held, taken, hheld, htaken, hbefore⟩
  obtain ⟨hother, hnewest⟩ := Venue.issued_before hbefore
  rcases h.refreshToken_step action with hsame | hholds
  · have heq := htaken.2.symm.trans (hsame.trans hheld.2)
    exact hother (Option.some.inj heq).symm
  · have heq := hholds.2.symm.trans htaken.2
    exact hnewest (Option.some.inj heq)

/-- Where no call gives up once its future holds a pair, the session keeps the newest pair. -/
theorem keepsNewest_of_timely [DecidableEq Token] (venue : Venue Token) (expiresAtSecs : Option ℚ)
    (actions : List (Action Token))
    (htimely : machine.Always Timely (System.start venue expiresAtSecs) actions) :
    KeepsNewest (System.start venue expiresAtSecs) actions := by
  have hkept : ∀ before rest, actions = before ++ rest →
      Kept (machine.after (System.start venue expiresAtSecs) before) := by
    rintro before rest rfl
    exact Machine.after_invariant_of_always (I := Kept) (fun s action h htimely => kept_step h action htimely)
      (kept_start venue expiresAtSecs) ((Machine.always_append _ _ _ _).mp htimely).1
  refine ⟨?_, ?_⟩
  · intro before action rest hactions
    rw [Machine.after_append]
    exact (hkept before _ hactions).not_regresses action
  · intro before rest hactions hdelivered
    exact (hkept before rest hactions).holds_newest hdelivered

/-- The newest pair of a venue that issued one pair. -/
def firstPair : Venue ℕ := ⟨⟨10, 20, 60⟩, [], by decide⟩

/-- A refresh that is answered before it times out, and a second one answered late. -/
def lateRefresh : List (Action ℕ) :=
  [.connect, .refreshTokens 0 false, .write, .accept 0 ⟨11, 21, 60⟩, .deliver 1 0, .resume 1,
    .refreshTokens 2 false, .write, .giveUp, .accept 1 ⟨12, 22, 60⟩, .deliver 3 1]

/-- A refresh whose reply comes late. -/
theorem keepsNewest_lateRefresh : KeepsNewest (System.start firstPair none) lateRefresh :=
  keepsNewest_of_timely firstPair none lateRefresh
    ⟨trivial, trivial, trivial, trivial, trivial, trivial, trivial, trivial,
      fun _ _ h => (by cases h), trivial, trivial, trivial⟩

/-- The reply reaches the future of its request, and the timeout fires before the call resumes. -/
def timedOutAnswered : List (Action ℕ) :=
  [.connect, .refreshTokens 0 false, .write, .accept 0 ⟨11, 21, 60⟩, .deliver 1 0, .giveUp]

/-- A pair whose call gives up after its future holds it is lost. -/
theorem not_keepsNewest : ¬ ∀ (venue : Venue ℕ) (expiresAtSecs : Option ℚ) (actions : List (Action ℕ)),
    KeepsNewest (System.start venue expiresAtSecs) actions := by
  intro h
  have hnewest := (h firstPair none timedOutAnswered).2 timedOutAnswered [] (by simp) (by
    refine ⟨fun id reply hget => ?_, fun reply earlier hcall => ?_⟩
    · cases hget
    · cases hcall)
  exact absurd hnewest.1 (by decide)

end TokenRefresh

end NautilusCtrader
