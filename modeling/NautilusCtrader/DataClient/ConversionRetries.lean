import NautilusCtrader.DataClient.Conversions

/-!
# The retries of conversions

What holds between two awaits of the data client: the markers are those of calls that prepare in the
connection that is up (`Marked`), and an instrument's running retry is the registered one (`Kept`). Who
waits on a retry goes on waiting while others join, stop to or end (`Waits`).
-/

namespace NautilusCtrader

open Common Instruments

namespace DataClient

/-! ## Where a subscribe waits -/

/-- `consumer` waits on the running retry of its instrument. -/
def Waits (s : Client) (consumer : Consumer) : Prop :=
  ∃ number retry, s.conversionRetries.get? consumer.instrumentId = some number ∧
    s.retries.get? number = some retry ∧ retry.stage ≠ .done ∧ consumer ∈ retry.waiting

/-- The subscribe `call` is prepared and wanted, or waits on a retry. -/
def Attended (s : Client) (call : ℕ) (consumer : Consumer) : Prop :=
  call ∈ s.markers consumer ∨ Waits s consumer

/-! ## What holds of the calls and the retries -/

/-- The markers are those of calls that prepare in the connection that is up. -/
structure Marked (s : Client) : Prop where
  fresh : ∀ n call, s.calls.get? n = some call → n < s.made
  call : ∀ consumer n, n ∈ s.markers consumer →
    s.calls.get? n = some ⟨consumer, .converting (.preparing s.connectionGeneration)⟩

/-- A running retry is the registered one, prepares in the connection that is up, and has somebody waiting
while it sleeps. -/
structure Retry.Fits (s : Client) (n : ℕ) (retry : Retry) : Prop where
  registered : s.conversionRetries.get? retry.instrumentId = some n
  current : ∀ stage, retry.stage = .converting stage → stage = .preparing s.connectionGeneration
  waits : retry.stage = .sleeping → retry.waiting ≠ []

/-- The registry names retries that exist and fit, and each one that runs is named by it. -/
structure Kept (s : Client) : Prop where
  known : ∀ instrumentId n, s.conversionRetries.get? instrumentId = some n →
    ∃ retry, s.retries.get? n = some retry ∧ retry.instrumentId = instrumentId ∧
      (retry.stage ≠ .done → retry.cancelled = false)
  fresh : ∀ n retry, s.retries.get? n = some retry → n < s.made
  own : ∀ n retry, s.retries.get? n = some retry →
    ∀ consumer ∈ retry.waiting, consumer.instrumentId = retry.instrumentId
  live : ∀ n retry, s.retries.get? n = some retry → retry.cancelled = false → retry.stage ≠ .done →
    retry.Fits s n

/-- The running retry of an instrument is the one registered, if it has not ended. -/
theorem running?_eq_some {s : Client} {instrumentId : InstrumentId} {number : ℕ} {retry : Retry} :
    s.running? instrumentId = some (number, retry) ↔
      s.conversionRetries.get? instrumentId = some number ∧ s.retries.get? number = some retry ∧
        retry.stage ≠ .done := by
  unfold Client.running? Retry.running
  simp only [Option.bind_eq_some_iff, decide_eq_true_eq, Option.ite_none_right_eq_some,
    Option.some.injEq, Prod.mk.injEq]
  constructor
  · rintro ⟨n, hn, found, hfound, hstage, rfl, rfl⟩
    exact ⟨hn, hfound, hstage⟩
  · rintro ⟨hn, hfound, hstage⟩
    exact ⟨number, hn, retry, hfound, hstage, rfl, rfl⟩

/-- A consumer waits just if the running retry of its instrument has it waiting. -/
theorem waits_iff {s : Client} {consumer : Consumer} :
    Waits s consumer ↔ ∃ number retry,
      s.running? consumer.instrumentId = some (number, retry) ∧ consumer ∈ retry.waiting := by
  unfold Waits
  constructor
  · rintro ⟨number, retry, hn, hr, hstage, hmem⟩
    exact ⟨number, retry, running?_eq_some.mpr ⟨hn, hr, hstage⟩, hmem⟩
  · rintro ⟨number, retry, hrunning, hmem⟩
    obtain ⟨hn, hr, hstage⟩ := running?_eq_some.mp hrunning
    exact ⟨number, retry, hn, hr, hstage, hmem⟩

/-! ## Markers -/

section Markers

variable {s : Client} {consumer other : Consumer} {call n : ℕ}

/-- A marker that is added joins those there. -/
theorem mem_markers_addMarker :
    n ∈ (s.addMarker consumer call).markers other ↔
      n ∈ s.markers other ∨ (n = call ∧ other = consumer) := by
  show n ∈ ((s.preparing.set consumer (s.markers consumer ++ [call])).get? other).getD [] ↔ _
  rw [Dict.get?_set]
  split
  case isTrue heq => simp [heq]
  case isFalse hne => simp [Client.markers, Ne.symm hne]

/-- Only the marker that is dropped is gone. -/
theorem mem_markers_dropMarker :
    n ∈ (s.dropMarker consumer call).markers other ↔
      n ∈ s.markers other ∧ ¬ (n = call ∧ other = consumer) := by
  unfold Client.dropMarker
  show n ∈ (Dict.get? (if _ then _ else _) other).getD [] ↔ _
  split
  case isTrue hempty =>
    rw [Dict.get?_erase]
    split
    case isTrue heq =>
      subst heq
      have hcall : ∀ m ∈ s.markers other, m = call := by simpa using hempty
      simpa using hcall n
    case isFalse hne => simp [Client.markers, hne]
  case isFalse =>
    rw [Dict.get?_set]
    split
    case isTrue heq => simp [heq]
    case isFalse hne => simp [Client.markers, Ne.symm hne]

/-- A change of the client besides its calls keeps what holds of them. -/
theorem Marked.congr {s' : Client} (h : Marked s) (hcalls : s'.calls = s.calls)
    (hpreparing : s'.preparing = s.preparing)
    (hconnection : s'.connectionGeneration = s.connectionGeneration) (hmade : s.made ≤ s'.made) :
    Marked s' where
  fresh m found hfound := by
    rw [hcalls] at hfound
    exact lt_of_lt_of_le (h.fresh m found hfound) hmade
  call c m hm := by
    have hm : m ∈ s.markers c := by rwa [Client.markers, hpreparing] at hm
    rw [hcalls, hconnection]
    exact h.call c m hm

/-- A call whose marker is gone may go on or end. -/
theorem Marked.dropMarker (h : Marked s) : Marked (s.dropMarker consumer call) where
  fresh := h.fresh
  call c m hm := h.call c m (mem_markers_dropMarker.mp hm).1

/-- A call that is marked nowhere goes on. -/
theorem Marked.setCall (h : Marked s) (hlt : call < s.made) (stage : CallStage)
    (hgone : ∀ c, call ∉ s.markers c) : Marked (s.setCall call consumer stage) where
  fresh m found hfound := by
    rcases Dict.get?_set_eq_some.mp hfound with ⟨rfl, -⟩ | ⟨-, hold⟩
    · exact hlt
    · exact h.fresh m found hold
  call c m hm := by
    have hne : call ≠ m := by
      rintro rfl
      exact hgone c hm
    exact (Dict.get?_set_of_ne _ _ hne).trans (h.call c m hm)

/-- A call that is marked nowhere ends. -/
theorem Marked.endCall (h : Marked s) (hgone : ∀ c, call ∉ s.markers c) : Marked (s.endCall call) where
  fresh m found hfound := h.fresh m found (Dict.get?_erase_eq_some.mp hfound).2
  call c m hm := by
    refine Dict.get?_erase_eq_some.mpr ⟨?_, h.call c m hm⟩
    rintro rfl
    exact hgone c hm

/-- The marker of a call is its consumer's. -/
theorem Marked.gone_dropMarker (h : Marked s) {stage : CallStage}
    (hcall : s.calls.get? call = some ⟨consumer, stage⟩) (c : Consumer) :
    call ∉ (s.dropMarker consumer call).markers c := by
  intro hm
  obtain ⟨hm, hother⟩ := mem_markers_dropMarker.mp hm
  have hsame := h.call c call hm
  rw [hcall] at hsame
  exact hother ⟨rfl, (congrArg Call.consumer (Option.some.inj hsame)).symm⟩

/-- Only a call that prepares in the connection that is up has a marker. -/
theorem Marked.gone_of_stage (h : Marked s) {stage : CallStage}
    (hcall : s.calls.get? call = some ⟨consumer, stage⟩)
    (hstage : stage ≠ .converting (.preparing s.connectionGeneration)) (c : Consumer) :
    call ∉ s.markers c := by
  intro hm
  have hsame := h.call c call hm
  rw [hcall] at hsame
  exact hstage (congrArg Call.stage (Option.some.inj hsame))

end Markers

/-! ## Retries -/

section Retries

variable {s : Client} {consumer : Consumer} {n : ℕ} {retry retry' : Retry}

/-- A change of the client besides its retries keeps what holds of them. -/
theorem Kept.congr {s' : Client} (h : Kept s) (hretries : s'.retries = s.retries)
    (hregistered : s'.conversionRetries = s.conversionRetries)
    (hconnection : s'.connectionGeneration = s.connectionGeneration) (hmade : s.made ≤ s'.made) :
    Kept s' where
  known instrumentId m hm := by
    rw [hretries]
    rw [hregistered] at hm
    exact h.known instrumentId m hm
  fresh m found hfound := by
    rw [hretries] at hfound
    exact lt_of_lt_of_le (h.fresh m found hfound) hmade
  own m found hfound := by
    rw [hretries] at hfound
    exact h.own m found hfound
  live m found hfound hcancelled hstage := by
    rw [hretries] at hfound
    obtain ⟨hreg, hcurrent, hwaits⟩ := h.live m found hfound hcancelled hstage
    exact ⟨by rw [hregistered]; exact hreg, by rw [hconnection]; exact hcurrent, hwaits⟩

/-- A retry that goes on stays registered. -/
theorem Kept.setRetry (h : Kept s) (hretry : s.retries.get? n = some retry)
    (hsame : retry'.instrumentId = retry.instrumentId) (hcancelled : retry'.cancelled = retry.cancelled)
    (hdone : retry'.stage ≠ .done → retry.stage ≠ .done)
    (hown : ∀ c ∈ retry'.waiting, c.instrumentId = retry.instrumentId)
    (hcurrent : retry.cancelled = false → ∀ stage, retry'.stage = .converting stage →
      stage = .preparing s.connectionGeneration)
    (hwaits : retry.cancelled = false → retry'.stage = .sleeping → retry'.waiting ≠ []) :
    Kept (s.setRetry n retry') where
  known instrumentId m hm := by
    obtain ⟨found, hfound, hid, hlive⟩ := h.known instrumentId m hm
    by_cases hmn : n = m
    · subst hmn
      rw [hretry] at hfound
      cases hfound
      refine ⟨retry', Dict.get?_set_self _ _ _, hsame.trans hid, fun hstage => ?_⟩
      rw [hcancelled]
      exact hlive (hdone hstage)
    · exact ⟨found, (Dict.get?_set_of_ne _ _ hmn).trans hfound, hid, hlive⟩
  fresh := Dict.forall_set h.fresh (h.fresh n retry hretry)
  own := Dict.forall_set h.own (by rw [hsame]; exact hown)
  live m found hfound hc hstage := by
    rcases Dict.get?_set_eq_some.mp hfound with ⟨rfl, rfl⟩ | ⟨-, hold⟩
    · rw [hcancelled] at hc
      have hreg := (h.live n retry hretry hc (hdone hstage)).registered
      exact ⟨by rw [hsame]; exact hreg, hcurrent hc, hwaits hc⟩
    · obtain ⟨hreg, hcurrent, hwaits⟩ := h.live m found hold hc hstage
      exact ⟨hreg, hcurrent, hwaits⟩

/-- A retry ends. -/
theorem Kept.endRetry (h : Kept s) (hretry : s.retries.get? n = some retry) :
    Kept (s.endRetry n retry) :=
  h.setRetry hretry rfl rfl (fun hstage => absurd rfl hstage) (h.own n retry hretry)
    (fun _ _ hstage => by cases hstage) (fun _ hstage => by cases hstage)

/-- A consumer joins those who wait. -/
theorem mem_add {c : Consumer} : c ∈ (retry.add consumer).waiting ↔ c ∈ retry.waiting ∨ c = consumer := by
  unfold Retry.add
  dsimp only
  split
  case isTrue hmem => exact ⟨.inl, fun hc => hc.elim id (by rintro rfl; exact hmem)⟩
  case isFalse => simp

/-- A consumer joins the running retry of its instrument. -/
theorem Kept.add (h : Kept s) (hrunning : s.running? consumer.instrumentId = some (n, retry)) :
    Kept (s.setRetry n (retry.add consumer)) := by
  obtain ⟨hn, hretry, hstage⟩ := running?_eq_some.mp hrunning
  obtain ⟨found, hfound, hid, -⟩ := h.known _ _ hn
  rw [hretry] at hfound
  cases hfound
  refine h.setRetry hretry rfl rfl (fun hs => hs) ?_ ?_ ?_
  · intro c hc
    rcases mem_add.mp hc with hc | rfl
    · exact h.own n retry hretry c hc
    · exact hid.symm
  · intro hcancelled
    exact (h.live n retry hretry hcancelled hstage).current
  · intro _ _ hempty
    have hmem : consumer ∈ (retry.add consumer).waiting := mem_add.mpr (.inr rfl)
    rw [hempty] at hmem
    cases hmem

/-- A new retry takes the place of none that runs. -/
theorem Kept.startRetry (h : Kept s) (hnone : s.running? consumer.instrumentId = none) :
    Kept (s.startRetry consumer) where
  known instrumentId m hm := by
    rcases Dict.get?_set_eq_some.mp hm with ⟨rfl, rfl⟩ | ⟨-, hold⟩
    · exact ⟨_, Dict.get?_set_self _ _ _, rfl, fun _ => rfl⟩
    · obtain ⟨found, hfound, hrest⟩ := h.known instrumentId m hold
      have hne : s.made ≠ m := (h.fresh m found hfound).ne'
      exact ⟨found, (Dict.get?_set_of_ne _ _ hne).trans hfound, hrest⟩
  fresh := Dict.forall_set (fun m found hfound => Nat.lt_succ_of_lt (h.fresh m found hfound))
    (Nat.lt_succ_self _)
  own := Dict.forall_set h.own fun c hc => by rw [List.mem_singleton.mp hc]
  live m found hfound hcancelled hstage := by
    rcases Dict.get?_set_eq_some.mp hfound with ⟨rfl, rfl⟩ | ⟨-, hold⟩
    · exact ⟨Dict.get?_set_self _ _ _, fun _ hstage => (by cases hstage), fun _ => List.cons_ne_nil _ _⟩
    · obtain ⟨hreg, hcurrent, hwaits⟩ := h.live m found hold hcancelled hstage
      have hne : consumer.instrumentId ≠ found.instrumentId := by
        intro heq
        rw [← heq] at hreg
        have hrunning := running?_eq_some.mpr ⟨hreg, hold, hstage⟩
        rw [hnone] at hrunning
        cases hrunning
      exact ⟨(Dict.get?_set_of_ne _ _ hne).trans hreg, hcurrent, hwaits⟩

/-- What `_stop_waiting` does, if `consumer` waits on the registered retry. -/
theorem stopWaiting_cases (s : Client) (consumer : Consumer) :
    (s.stopWaiting consumer = s ∧ ∀ number retry,
        s.conversionRetries.get? consumer.instrumentId = some number →
          s.retries.get? number = some retry → consumer ∉ retry.waiting) ∨
      ∃ number retry, s.conversionRetries.get? consumer.instrumentId = some number ∧
        s.retries.get? number = some retry ∧ consumer ∈ retry.waiting ∧
        (s.stopWaiting consumer =
            s.setRetry number { retry with waiting := retry.waiting.filter (· ≠ consumer) } ∧
              (retry.waiting.filter (· ≠ consumer) ≠ [] ∨ retry.attempting) ∨
          s.stopWaiting consumer =
            { s.setRetry number
                { retry with waiting := retry.waiting.filter (· ≠ consumer), cancelled := true } with
              conversionRetries := s.conversionRetries.erase consumer.instrumentId } ∧
            retry.waiting.filter (· ≠ consumer) = []) := by
  unfold Client.stopWaiting
  cases hn : s.conversionRetries.get? consumer.instrumentId with
  | none => exact .inl ⟨rfl, fun _ _ hnot => by cases hnot⟩
  | some number =>
    dsimp only
    cases hr : s.retries.get? number with
    | none =>
      refine .inl ⟨rfl, fun m found hm hfound => ?_⟩
      cases hm
      rw [hr] at hfound
      cases hfound
    | some retry =>
      dsimp only
      by_cases hmem : consumer ∈ retry.waiting
      · refine .inr ⟨number, retry, rfl, hr, hmem, ?_⟩
        rw [if_neg (not_not_intro hmem)]
        split
        case isTrue hleft => exact .inl ⟨rfl, hleft⟩
        case isFalse hleft => exact .inr ⟨rfl, not_not.mp (not_or.mp hleft).1⟩
      · refine .inl ⟨if_pos hmem, fun m found hm hfound => ?_⟩
        cases hm
        rw [hr] at hfound
        cases hfound
        exact hmem

/-- A consumer waits no longer, and a retry nobody waits on is cancelled. -/
theorem Kept.stopWaiting (h : Kept s) : Kept (s.stopWaiting consumer) := by
  rcases stopWaiting_cases s consumer with
    ⟨heq, -⟩ | ⟨number, retry, hn, hretry, -, ⟨heq, hleft⟩ | ⟨heq, hempty⟩⟩
  · rw [heq]
    exact h
  · rw [heq]
    refine h.setRetry hretry rfl rfl (fun hs => hs) ?_ ?_ ?_
    · intro c hc
      exact h.own number retry hretry c (List.mem_filter.mp hc).1
    · intro hcancelled stage hstage
      have hrunning : retry.stage ≠ .done := by
        intro hdone
        have hsame : RetryStage.done = .converting stage := hdone.symm.trans hstage
        cases hsame
      exact (h.live number retry hretry hcancelled hrunning).current stage hstage
    · intro _ hsleeping
      refine hleft.resolve_right fun hattempting => ?_
      exact (of_decide_eq_true hattempting).1 hsleeping
  · rw [heq]
    obtain ⟨found, hfound, hid, -⟩ := h.known _ _ hn
    rw [hretry] at hfound
    cases hfound
    have hown : ∀ c ∈ retry.waiting.filter (· ≠ consumer), c.instrumentId = retry.instrumentId :=
      fun c hc => h.own number retry hretry c (List.mem_filter.mp hc).1
    refine ⟨?_, Dict.forall_set h.fresh (h.fresh number retry hretry), Dict.forall_set h.own hown, ?_⟩
    · intro instrumentId m hm
      obtain ⟨hne, hold⟩ := Dict.get?_erase_eq_some.mp hm
      obtain ⟨found, hfound, hfoundId, hlive⟩ := h.known instrumentId m hold
      have hmn : number ≠ m := by
        rintro rfl
        rw [hretry] at hfound
        cases hfound
        exact hne (hfoundId.symm.trans hid)
      exact ⟨found, (Dict.get?_set_of_ne _ _ hmn).trans hfound, hfoundId, hlive⟩
    · intro m found hfound hcancelled hstage
      rcases Dict.get?_set_eq_some.mp hfound with ⟨rfl, rfl⟩ | ⟨hmn, hold⟩
      · cases hcancelled
      · obtain ⟨hreg, hcurrent, hwaits⟩ := h.live m found hold hcancelled hstage
        refine ⟨Dict.get?_erase_eq_some.mpr ⟨fun heq => ?_, hreg⟩, hcurrent, hwaits⟩
        rw [heq, hn] at hreg
        exact hmn (Option.some.inj hreg)

/-- Every retry that runs is cancelled, and none is registered. -/
theorem kept_reconnects (h : Kept s) (session : Bool) : Kept (s.reconnects session) := by
  have hfound : ∀ m found, (s.reconnects session).retries.get? m = some found →
      ∃ before, s.retries.get? m = some before ∧
        found = { before with cancelled := before.cancelled || before.running } := by
    intro m found hfound
    have hmap : (s.retries.get? m).map _ = some found := (Dict.get?_mapAccum _ _ _).symm.trans hfound
    obtain ⟨before, hbefore, rfl⟩ := Option.map_eq_some_iff.mp hmap
    exact ⟨before, hbefore, rfl⟩
  refine ⟨fun _ _ hm => (by cases hm), fun m found hm => ?_, fun m found hm => ?_,
    fun m found hm hcancelled hstage => ?_⟩
  · obtain ⟨before, hbefore, -⟩ := hfound m found hm
    exact h.fresh m before hbefore
  · obtain ⟨before, hbefore, rfl⟩ := hfound m found hm
    exact h.own m before hbefore
  · obtain ⟨before, -, rfl⟩ := hfound m found hm
    have hrunning : before.running = true := decide_eq_true hstage
    dsimp only at hcancelled
    rw [hrunning, Bool.or_true] at hcancelled
    cases hcancelled

/-- `_forget_conversion_retry`. -/
theorem Kept.forgets (h : Kept s) (hretry : s.retries.get? n = some retry) :
    Kept { s with
      retries := s.retries.erase n
      conversionRetries :=
        if s.conversionRetries.get? retry.instrumentId = some n then
          s.conversionRetries.erase retry.instrumentId
        else s.conversionRetries } where
  known instrumentId m hm := by
    have hold : s.conversionRetries.get? instrumentId = some m ∧
        (s.conversionRetries.get? retry.instrumentId = some n → instrumentId ≠ retry.instrumentId) := by
      revert hm
      dsimp only
      split
      case isTrue hn =>
        intro hm
        obtain ⟨hne, hold⟩ := Dict.get?_erase_eq_some.mp hm
        exact ⟨hold, fun _ => hne⟩
      case isFalse hn =>
        intro hm
        exact ⟨hm, fun heq => absurd heq hn⟩
    obtain ⟨found, hfound, hid, hlive⟩ := h.known instrumentId m hold.1
    refine ⟨found, Dict.get?_erase_eq_some.mpr ⟨?_, hfound⟩, hid, hlive⟩
    rintro rfl
    rw [hretry] at hfound
    cases hfound
    rw [← hid] at hold
    exact hold.2 hold.1 rfl
  fresh := Dict.forall_erase h.fresh n
  own := Dict.forall_erase h.own n
  live m found hfound hcancelled hstage := by
    obtain ⟨hmn, hold⟩ := Dict.get?_erase_eq_some.mp hfound
    obtain ⟨hreg, hcurrent, hwaits⟩ := h.live m found hold hcancelled hstage
    refine ⟨?_, hcurrent, hwaits⟩
    dsimp only
    split
    case isTrue hn =>
      refine Dict.get?_erase_eq_some.mpr ⟨fun heq => ?_, hreg⟩
      rw [heq, hn] at hreg
      exact hmn (Option.some.inj hreg).symm
    case isFalse => exact hreg

end Retries

/-! ## Who waits -/

section Waiting

variable {s s' : Client} {consumer other : Consumer} {call n : ℕ} {retry retry' : Retry}

/-- Who waits is read off the retries. -/
theorem Waits.congr (h : Waits s other) (hretries : s'.retries = s.retries)
    (hregistered : s'.conversionRetries = s.conversionRetries) : Waits s' other := by
  unfold Waits
  rw [hretries, hregistered]
  exact h

/-- Who waits on a retry still does, if it keeps running with them. -/
theorem Waits.setRetry (h : Waits s other) (hretry : s.retries.get? n = some retry)
    (hkeeps : retry.stage ≠ .done → other ∈ retry.waiting →
      retry'.stage ≠ .done ∧ other ∈ retry'.waiting) : Waits (s.setRetry n retry') other := by
  obtain ⟨m, found, hm, hfound, hstage, hmem⟩ := h
  by_cases hnm : n = m
  · subst hnm
    rw [hretry] at hfound
    cases hfound
    exact ⟨n, retry', hm, Dict.get?_set_self _ _ _, hkeeps hstage hmem⟩
  · exact ⟨m, found, hm, (Dict.get?_set_of_ne _ _ hnm).trans hfound, hstage, hmem⟩

/-- A consumer that joins a retry waits on it. -/
theorem waits_add (hrunning : s.running? consumer.instrumentId = some (n, retry)) :
    Waits (s.setRetry n (retry.add consumer)) consumer := by
  obtain ⟨hn, -, hstage⟩ := running?_eq_some.mp hrunning
  exact ⟨n, _, hn, Dict.get?_set_self _ _ _, hstage, mem_add.mpr (.inr rfl)⟩

/-- The others go on waiting. -/
theorem Waits.add (h : Waits s other) (hrunning : s.running? consumer.instrumentId = some (n, retry)) :
    Waits (s.setRetry n (retry.add consumer)) other :=
  h.setRetry (running?_eq_some.mp hrunning).2.1 fun hstage hmem => ⟨hstage, mem_add.mpr (.inl hmem)⟩

/-- A consumer waits on the retry that is started for it. -/
theorem waits_startRetry : Waits (s.startRetry consumer) consumer :=
  ⟨s.made, _, Dict.get?_set_self _ _ _, Dict.get?_set_self _ _ _, fun hdone => (by cases hdone),
    List.mem_singleton_self consumer⟩

/-- The others go on waiting when a retry is started. -/
theorem Waits.startRetry (h : Waits s other) (hkept : Kept s)
    (hnone : s.running? consumer.instrumentId = none) : Waits (s.startRetry consumer) other := by
  obtain ⟨m, found, hm, hfound, hstage, hmem⟩ := h
  have hother : consumer.instrumentId ≠ other.instrumentId := by
    intro heq
    rw [heq, running?_eq_some.mpr ⟨hm, hfound, hstage⟩] at hnone
    cases hnone
  have hmade : s.made ≠ m := (hkept.fresh m found hfound).ne'
  exact ⟨m, found, (Dict.get?_set_of_ne _ _ hother).trans hm,
    (Dict.get?_set_of_ne _ _ hmade).trans hfound, hstage, hmem⟩

/-- Others go on waiting when one stops to. -/
theorem Waits.stopWaiting (h : Waits s other) (hother : other ≠ consumer) :
    Waits (s.stopWaiting consumer) other := by
  rcases stopWaiting_cases s consumer with
    ⟨heq, -⟩ | ⟨number, retry, hn, hretry, -, ⟨heq, -⟩ | ⟨heq, hempty⟩⟩
  · rw [heq]
    exact h
  · rw [heq]
    refine h.setRetry hretry fun hstage hmem => ⟨hstage, List.mem_filter.mpr ⟨hmem, ?_⟩⟩
    exact decide_eq_true hother
  · obtain ⟨m, found, hm, hfound, hstage, hmem⟩ := h
    have hleft : ∀ c ∈ retry.waiting, c = consumer := by simpa using hempty
    have hmn : number ≠ m := by
      rintro rfl
      rw [hretry] at hfound
      cases hfound
      exact hother (hleft other hmem)
    have hid : other.instrumentId ≠ consumer.instrumentId := by
      intro hsame
      rw [hsame, hn] at hm
      exact hmn (Option.some.inj hm)
    rw [heq]
    exact ⟨m, found, Dict.get?_erase_eq_some.mpr ⟨hid, hm⟩,
      (Dict.get?_set_of_ne _ _ hmn).trans hfound, hstage, hmem⟩

/-- They go on waiting when a retry that has ended is forgotten. -/
theorem Waits.forgets (h : Waits s other) (hretry : s.retries.get? n = some retry)
    (hdone : retry.stage = .done) :
    Waits { s with
      retries := s.retries.erase n
      conversionRetries :=
        if s.conversionRetries.get? retry.instrumentId = some n then
          s.conversionRetries.erase retry.instrumentId
        else s.conversionRetries } other := by
  obtain ⟨m, found, hm, hfound, hstage, hmem⟩ := h
  have hmn : m ≠ n := by
    rintro rfl
    rw [hretry] at hfound
    cases hfound
    exact hstage hdone
  refine ⟨m, found, ?_, Dict.get?_erase_eq_some.mpr ⟨hmn, hfound⟩, hstage, hmem⟩
  dsimp only
  split
  case isTrue hn =>
    refine Dict.get?_erase_eq_some.mpr ⟨fun heq => ?_, hm⟩
    rw [heq, hn] at hm
    exact hmn (Option.some.inj hm).symm
  case isFalse => exact hm

/-- Only the subscribe whose marker is dropped is attended no longer. -/
theorem attended_dropMarker (h : Attended s n other) :
    (n = call ∧ other = consumer ∧ call ∈ s.markers consumer) ∨
      Attended (s.dropMarker consumer call) n other := by
  rcases h with hm | hwaits
  · by_cases heq : n = call ∧ other = consumer
    · obtain ⟨rfl, rfl⟩ := heq
      exact .inl ⟨rfl, rfl, hm⟩
    · exact .inr (.inl (mem_markers_dropMarker.mpr ⟨hm, heq⟩))
  · exact .inr (.inr (hwaits.congr rfl rfl))

end Waiting

end DataClient

end NautilusCtrader
