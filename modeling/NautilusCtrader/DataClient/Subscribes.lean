import NautilusCtrader.DataClient.ConversionRetries

/-!
# No subscribe is lost

A subscribe of the data client that has not ended is still preparing its conversion or waits on the retry
of its instrument (`subscribes_served`). The subscription of a consumer is only made while it is wanted,
and only once its instrument is priced in the connection that is up (`runs_wanted`). An instrument has one
retry at a time, and one that sleeps has somebody waiting (`one_retry`).
-/

namespace NautilusCtrader

open Common Instruments

namespace DataClient

/-! ## What is told of a subscribe -/

/-- The subscribes of `consumer` so far are not wanted any more. -/
def Told.frees (consumer : Consumer) : Told → Prop
  | .unsubscribed found => found = consumer
  | .reconnected => True
  | _ => False

/-- The subscribe `call` of `consumer` is run, or ends without it. -/
def Told.settles (call : ℕ) (consumer : Consumer) : Told → Prop
  | .runs found => found = consumer
  | .ended number reason => number = call ∧ reason ≠ .abandoned
  | .gaveUp waiting _ => consumer ∈ waiting
  | _ => False

/-- A subscribe of `consumer` is wanted. -/
def Wanted (consumer : Consumer) : List Told → Prop :=
  Machine.Since (fun t => ∃ call, t = .asked call consumer) (Told.frees consumer)

/-- The chain of an instrument was subscribed in the connection that is up. -/
def Priced (instrumentId : InstrumentId) : List Told → Prop :=
  Machine.Since (· = .converted instrumentId) (· = .reconnected)

/-! ## What holds in a run -/

/-- What is told frees no consumer. -/
def Quiet (more : List Told) : Prop := ∀ t ∈ more, ∀ consumer, ¬ t.frees consumer

/-- What holds of the client after what was told so far: those marked or waiting are wanted, and a retry
completes its subscribes for an instrument that is priced. -/
structure Sound (converts : Bool) (told : List Told) (s : Client) : Prop where
  marked : Marked s
  kept : Kept s
  wanted : ∀ consumer n, n ∈ s.markers consumer → Wanted consumer told
  waiting : ∀ n retry, s.retries.get? n = some retry → retry.cancelled = false → retry.stage ≠ .done →
    ∀ consumer ∈ retry.waiting, Wanted consumer told
  priced : converts = true → ∀ n retry, s.retries.get? n = some retry → retry.cancelled = false →
    ∀ consumer, retry.stage = .completing consumer → Priced retry.instrumentId told

/-- What an input does from a client after what was told so far. -/
structure Good (converts : Bool) (told : List Told) (s : Client) (next : Client × List Told) : Prop where
  sound : Sound converts (told ++ next.2) next.1
  runs : ∀ earlier consumer rest, next.2 = earlier ++ .runs consumer :: rest →
    Wanted consumer (told ++ earlier) ∧ (converts = true → Priced consumer.instrumentId (told ++ earlier))
  attended : ∀ call consumer, Attended s call consumer →
    (∃ t ∈ next.2, t.frees consumer ∨ t.settles call consumer) ∨ Attended next.1 call consumer

/-- To tell nothing frees nobody. -/
theorem quiet_nil : Quiet [] := fun t ht => (by cases ht)

/-- What frees nobody is no reconnect. -/
theorem Quiet.unreconnected {more : List Told} (h : Quiet more) : ∀ t ∈ more, ¬ t = .reconnected := by
  rintro t ht rfl
  exact h _ ht (.quotes ⟨"", ""⟩) trivial

/-- A subscribe stays wanted while nobody is freed. -/
theorem wanted_append {told more : List Told} {consumer : Consumer} (h : Wanted consumer told)
    (hmore : Quiet more) : Wanted consumer (told ++ more) :=
  h.append fun t ht => hmore t ht consumer

/-- A chain stays subscribed while the client is not reconnected. -/
theorem priced_append {told more : List Told} {instrumentId : InstrumentId}
    (h : Priced instrumentId told) (hmore : Quiet more) : Priced instrumentId (told ++ more) :=
  h.append hmore.unreconnected

section Steps

variable {converts : Bool} {told more : List Told} {s s' : Client} {consumer : Consumer} {call n : ℕ}
  {retry retry' : Retry}

/-- Something quiet is told. -/
theorem Sound.append (h : Sound converts told s) (hmore : Quiet more) : Sound converts (told ++ more) s where
  marked := h.marked
  kept := h.kept
  wanted c m hm := wanted_append (h.wanted c m hm) hmore
  waiting m found hfound hcancelled hstage c hc :=
    wanted_append (h.waiting m found hfound hcancelled hstage c hc) hmore
  priced hconverts m found hfound hcancelled c hstage :=
    priced_append (h.priced hconverts m found hfound hcancelled c hstage) hmore

/-- A change of the calls leaves what holds of the retries. -/
theorem Sound.calls (h : Sound converts told s) (hmarked : Marked s') (hretries : s'.retries = s.retries)
    (hregistered : s'.conversionRetries = s.conversionRetries)
    (hconnection : s'.connectionGeneration = s.connectionGeneration) (hmade : s.made ≤ s'.made)
    (hmarkers : ∀ c m, m ∈ s'.markers c → Wanted c told) : Sound converts told s' where
  marked := hmarked
  kept := h.kept.congr hretries hregistered hconnection hmade
  wanted := hmarkers
  waiting := by
    rw [hretries]
    exact h.waiting
  priced := by
    rw [hretries]
    exact h.priced

/-- A marker is dropped. -/
theorem Sound.dropMarker (h : Sound converts told s) : Sound converts told (s.dropMarker consumer call) :=
  h.calls h.marked.dropMarker rfl rfl rfl le_rfl fun c m hm =>
    h.wanted c m (mem_markers_dropMarker.mp hm).1

/-- A call that is marked nowhere goes on. -/
theorem Sound.setCall (h : Sound converts told s) (hlt : call < s.made) (stage : CallStage)
    (hgone : ∀ c, call ∉ s.markers c) : Sound converts told (s.setCall call consumer stage) :=
  h.calls (h.marked.setCall hlt stage hgone) rfl rfl rfl le_rfl h.wanted

/-- A call that is marked nowhere ends. -/
theorem Sound.endCall (h : Sound converts told s) (hgone : ∀ c, call ∉ s.markers c) :
    Sound converts told (s.endCall call) :=
  h.calls (h.marked.endCall hgone) rfl rfl rfl le_rfl h.wanted

/-- A change of a retry that runs leaves what holds of the calls. -/
theorem Sound.setRetry (h : Sound converts told s) (hkept : Kept (s.setRetry n retry'))
    (hwaiting : retry'.cancelled = false → retry'.stage ≠ .done →
      ∀ c ∈ retry'.waiting, Wanted c told)
    (hpriced : converts = true → retry'.cancelled = false → ∀ c, retry'.stage = .completing c →
      Priced retry'.instrumentId told) :
    Sound converts told (s.setRetry n retry') where
  marked := h.marked.congr rfl rfl rfl le_rfl
  kept := hkept
  wanted := h.wanted
  waiting := Dict.forall_set h.waiting hwaiting
  priced hconverts := Dict.forall_set (h.priced hconverts) (hpriced hconverts)

/-- A retry ends. -/
theorem Sound.endRetry (h : Sound converts told s) (hretry : s.retries.get? n = some retry) :
    Sound converts told (s.endRetry n retry) :=
  h.setRetry (h.kept.endRetry hretry) (fun _ hstage => absurd rfl hstage)
    (fun _ _ _ hstage => by cases hstage)

/-- A consumer that is wanted joins the running retry of its instrument. -/
theorem Sound.add (h : Sound converts told s) (hrunning : s.running? consumer.instrumentId = some (n, retry))
    (hwanted : Wanted consumer told) : Sound converts told (s.setRetry n (retry.add consumer)) := by
  obtain ⟨-, hretry, hstage⟩ := running?_eq_some.mp hrunning
  refine h.setRetry (h.kept.add hrunning) (fun hcancelled _ c hc => ?_)
    (fun hconverts hcancelled => h.priced hconverts n retry hretry hcancelled)
  rcases mem_add.mp hc with hc | rfl
  · exact h.waiting n retry hretry hcancelled hstage c hc
  · exact hwanted

/-- A retry is started for a consumer that is wanted. -/
theorem Sound.startRetry (h : Sound converts told s) (hnone : s.running? consumer.instrumentId = none)
    (hwanted : Wanted consumer told) : Sound converts told (s.startRetry consumer) where
  marked := h.marked.congr rfl rfl rfl (Nat.le_succ _)
  kept := h.kept.startRetry hnone
  wanted := h.wanted
  waiting := Dict.forall_set h.waiting fun _ _ c hc => by
    rw [List.mem_singleton.mp hc]
    exact hwanted
  priced hconverts := Dict.forall_set (h.priced hconverts) fun _ _ hstage => (by cases hstage)

/-- Nothing is told, and who was attended is. -/
theorem good_silent (hsound : Sound converts told s')
    (hattended : ∀ number c, Attended s number c → Attended s' number c) :
    Good converts told s (s', []) where
  sound := by
    rw [List.append_nil]
    exact hsound
  runs earlier c rest h := absurd h (by simp)
  attended number c hc := .inr (hattended number c hc)

/-- Nothing happens. -/
theorem good_same (h : Sound converts told s) : Good converts told s (s, []) :=
  good_silent h fun _ _ hc => hc

/-! ### Calls -/

/-- The one record told is the one that runs a subscribe. -/
theorem runs_single {t : Told} {earlier rest : List Told} {c : Consumer}
    (h : [t] = earlier ++ .runs c :: rest) : earlier = [] ∧ t = .runs c := by
  cases earlier with
  | nil => exact ⟨rfl, (List.cons.inj h).1⟩
  | cons found earlier => exact absurd (List.cons.inj h).2 (by simp)

/-- What comes before a run of a subscribe begins with what was told first. -/
theorem runs_cons {t : Told} {told earlier rest : List Told} {c : Consumer} (ht : t ≠ .runs c)
    (h : t :: told = earlier ++ .runs c :: rest) :
    ∃ earlier', earlier = t :: earlier' ∧ told = earlier' ++ .runs c :: rest := by
  cases earlier with
  | nil => exact absurd (List.cons.inj h).1 ht
  | cons found earlier =>
    obtain ⟨rfl, hrest⟩ := List.cons.inj h
    exact ⟨earlier, rfl, hrest⟩

/-- Something that runs no subscribe and frees no consumer is told. -/
theorem good_tell {t : Told} (hsound : Sound converts told s') (hruns : ∀ c, t ≠ .runs c) (hquiet : Quiet [t])
    (hattended : ∀ number c, Attended s number c → t.settles number c ∨ Attended s' number c) :
    Good converts told s (s', [t]) where
  sound := hsound.append hquiet
  runs earlier c rest h := absurd (runs_single h).2 (hruns c)
  attended number c hc := by
    rcases hattended number c hc with hsettles | hattended
    · exact .inl ⟨t, List.mem_singleton_self t, .inr hsettles⟩
    · exact .inr hattended

/-- A subscribe that ends frees nobody else. -/
theorem quiet_ended (number : ℕ) (reason : Reason) : Quiet [.ended number reason] := by
  intro t ht c
  rw [List.mem_singleton.mp ht]
  exact id

/-- Nor does one that waits. -/
theorem quiet_waits (number : ℕ) : Quiet [.waits number] := by
  intro t ht c
  rw [List.mem_singleton.mp ht]
  exact id

/-- Nor does a retry that is given up. -/
theorem quiet_gaveUp (waiting : List Consumer) (reason : Reason) : Quiet [.gaveUp waiting reason] := by
  intro t ht c
  rw [List.mem_singleton.mp ht]
  exact id

/-- Nor does a subscribe that runs. -/
theorem quiet_runs (c : Consumer) : Quiet [.runs c] := by
  intro t ht c'
  rw [List.mem_singleton.mp ht]
  exact id

/-- What is told frees nobody if nothing of it does. -/
theorem quiet_cons {t : Told} (ht : Quiet [t]) (hmore : Quiet more) : Quiet (t :: more) := by
  intro u hu
  rcases List.mem_cons.mp hu with rfl | hu
  · exact ht u (List.mem_singleton_self u)
  · exact hmore u hu

/-- Nor does a chain that is subscribed. -/
theorem quiet_converted (instrumentId : InstrumentId) : Quiet [.converted instrumentId] := by
  intro t ht c
  rw [List.mem_singleton.mp ht]
  exact id

/-- A subscribe whose conversion was refused waits on a retry or is told why not. -/
theorem good_waitForRetry (h : Sound converts told s) (hgone : ∀ c, call ∉ s.markers c)
    (hwanted : Wanted consumer told) :
    Good converts told s (s.waitForRetry call consumer) ∧
      ((∃ t ∈ (s.waitForRetry call consumer).2, t.settles call consumer) ∨
        Waits (s.waitForRetry call consumer).1 consumer) := by
  have hended : Sound converts told (s.endCall call) := h.endCall hgone
  unfold Client.waitForRetry
  split
  · refine ⟨good_tell hended (fun c => by simp) (quiet_ended _ _) fun number c hc => .inr hc, .inl ?_⟩
    exact ⟨_, List.mem_singleton_self _, rfl, by simp⟩
  · split
    next number retry hrunning =>
      refine ⟨good_tell (hended.add hrunning hwanted) (fun c => by simp) (quiet_waits _) ?_,
        .inr (waits_add hrunning)⟩
      rintro other c (hmarked | hwaits)
      · exact .inr (.inl hmarked)
      · exact .inr (.inr (hwaits.add hrunning))
    next hnone =>
      refine ⟨good_tell (hended.startRetry hnone hwanted) (fun c => by simp) (quiet_waits _) ?_,
        .inr waits_startRetry⟩
      rintro other c (hmarked | hwaits)
      · exact .inr (.inl hmarked)
      · exact .inr (.inr (hwaits.startRetry h.kept hnone))

/-- A subscribe goes on after its conversion, if it is wanted, or ends. -/
theorem good_afterConversion (h : Sound converts told s) (hgone : ∀ c, call ∉ s.markers c) (hlt : call < s.made)
    {conversion : Conversion}
    (hwanted : conversion = .ready ∨ conversion = .refused → Wanted consumer told) :
    Good converts told s (s.afterConversion call consumer conversion) ∧
      (conversion ≠ .abandoned →
        (∃ t ∈ (s.afterConversion call consumer conversion).2, t.settles call consumer) ∨
          Waits (s.afterConversion call consumer conversion).1 consumer) := by
  cases conversion with
  | ready =>
    refine ⟨⟨?_, ?_, fun number c hc => .inr hc⟩, fun _ => .inl ⟨.runs consumer, by simp [Client.afterConversion], rfl⟩⟩
    · exact (h.setCall hlt _ hgone).append (quiet_cons (quiet_converted _) (quiet_runs _))
    · intro earlier c rest hsplit
      obtain ⟨earlier, rfl, hlast⟩ := runs_cons (by simp) hsplit
      obtain ⟨rfl, heq⟩ := runs_single hlast
      cases heq
      exact ⟨wanted_append (hwanted (.inl rfl)) (quiet_converted _),
        fun _ => Machine.since_append_cons told rfl fun t ht => (by cases ht)⟩
  | refused =>
    obtain ⟨hgood, hwaits⟩ := good_waitForRetry h hgone (hwanted (.inr rfl))
    exact ⟨hgood, fun _ => hwaits⟩
  | dropped =>
    exact ⟨good_tell (h.endCall hgone) (fun c => by simp) (quiet_ended _ _) fun number c hc => .inr hc,
      fun _ => .inl ⟨_, List.mem_singleton_self _, rfl, by simp⟩⟩
  | abandoned =>
    exact ⟨good_tell (h.endCall hgone) (fun c => by simp) (quiet_ended _ _) fun number c hc => .inr hc,
      fun hne => absurd rfl hne⟩

/-- What follows the removal of a marker, where its subscribe is settled or waits. -/
theorem Good.of_dropMarker {next : Client × List Told}
    (h : Good converts told (s.dropMarker consumer call) next)
    (hcall : call ∈ s.markers consumer →
      (∃ t ∈ next.2, t.settles call consumer) ∨ Waits next.1 consumer) :
    Good converts told s next where
  sound := h.sound
  runs := h.runs
  attended number c hc := by
    have hcases := @attended_dropMarker s consumer c call number hc
    rcases hcases with ⟨rfl, rfl, hm⟩ | hc
    · rcases hcall hm with ⟨t, ht, hsettles⟩ | hwaits
      · exact .inl ⟨t, ht, .inr hsettles⟩
      · exact .inr (.inr hwaits)
    · exact h.attended number c hc

/-- An await of the conversion of a subscribe ends. -/
theorem good_convertCall (h : Sound converts told s) {stage : CallStage}
    (hcall : s.calls.get? call = some ⟨consumer, stage⟩) {goes : Goes}
    (hgone : goes = .awaits ∨ goes = .returns .abandoned → ∀ c, call ∉ s.markers c) :
    Good converts told s (s.convertCall call consumer goes) := by
  have hlt : call < s.made := h.marked.fresh call _ hcall
  have hdropped : ∀ c, call ∉ (s.dropMarker consumer call).markers c := h.marked.gone_dropMarker hcall
  cases goes with
  | awaits => exact good_silent (h.setCall hlt _ (hgone (.inl rfl))) fun _ _ hc => hc
  | returns conversion =>
    have hwanted : ∀ found, (if conversion = .dropped then .dropped
        else if call ∈ s.markers consumer then conversion else .abandoned) = found →
        found = .ready ∨ found = .refused → Wanted consumer told := by
      rintro found rfl hfound
      by_cases hm : call ∈ s.markers consumer
      · exact h.wanted consumer call hm
      · rw [if_neg hm] at hfound
        split at hfound <;> simp at hfound
    obtain ⟨hgood, hsettles⟩ := @good_afterConversion converts told _ consumer call h.dropMarker hdropped
      hlt _ (hwanted _ rfl)
    refine hgood.of_dropMarker fun hm => hsettles ?_
    rw [if_pos hm]
    split
    · simp
    · rintro rfl
      exact hgone (.inr rfl) consumer hm
  | raises =>
    refine Good.of_dropMarker (good_tell (h.dropMarker.endCall hdropped) (fun c => by simp)
      (quiet_ended _ _) fun number c hc => .inr hc) fun _ => .inl ?_
    exact ⟨_, List.mem_singleton_self _, rfl, by simp⟩

/-! ### Retries -/

/-- Something that runs no subscribe and frees no consumer is told before. -/
theorem Good.tell {next : Client × List Told} {t : Told} (h : Good converts (told ++ [t]) s next)
    (hruns : ∀ c, t ≠ .runs c) : Good converts told s (next.1, t :: next.2) where
  sound := by
    rw [List.append_cons]
    exact h.sound
  runs earlier c rest hsplit := by
    obtain ⟨earlier, rfl, hlast⟩ := runs_cons (hruns c) hsplit
    rw [List.append_cons]
    exact h.runs earlier c rest hlast
  attended number c hc := by
    rcases h.attended number c hc with ⟨u, hu, hfound⟩ | hattended
    · exact .inl ⟨u, List.mem_cons_of_mem t hu, hfound⟩
    · exact .inr hattended

/-- A retry that goes on from an await, perhaps after counting a refusal. -/
structure GoesOn (s : Client) (n : ℕ) (before retry : Retry) : Prop where
  found : s.retries.get? n = some before
  live : before.cancelled = false
  runs : before.stage ≠ .done
  same : retry.instrumentId = before.instrumentId
  waiting : retry.waiting = before.waiting
  cancelled : retry.cancelled = false

variable {before : Retry}

/-- Who waits on a retry that goes on is wanted. -/
theorem GoesOn.wanted (h : GoesOn s n before retry) (hsound : Sound converts told s) {c : Consumer}
    (hc : c ∈ retry.waiting) : Wanted c told :=
  hsound.waiting n before h.found h.live h.runs c (h.waiting ▸ hc)

/-- Who waits on a retry that goes on waits for its instrument. -/
theorem GoesOn.own (h : GoesOn s n before retry) (hsound : Sound converts told s) {c : Consumer}
    (hc : c ∈ retry.waiting) : c.instrumentId = retry.instrumentId :=
  (hsound.kept.own n before h.found c (h.waiting ▸ hc)).trans h.same.symm

/-- A retry that goes on to an await of another kind than a conversion. -/
theorem GoesOn.sound (h : GoesOn s n before retry) (hsound : Sound converts told s)
    {stage : RetryStage} {waiting : List Consumer} (hsub : ∀ c ∈ waiting, c ∈ retry.waiting)
    (hcurrent : ∀ converting, stage = .converting converting →
      converting = .preparing s.connectionGeneration)
    (hsleeping : stage = .sleeping → waiting ≠ [])
    (hpriced : converts = true → ∀ c, stage = .completing c → Priced retry.instrumentId told) :
    Sound converts told (s.setRetry n { retry with waiting, stage }) := by
  refine hsound.setRetry ?_ (fun _ _ c hc => h.wanted hsound (hsub c hc))
    fun hconverts _ c hstage => hpriced hconverts c hstage
  refine hsound.kept.setRetry h.found h.same (h.cancelled.trans h.live.symm) (fun _ => h.runs) ?_
    (fun _ => hcurrent) fun _ => hsleeping
  exact fun c hc => (h.own hsound (hsub c hc)).trans h.same

/-- Who was attended is, if those who waited on the retry that goes on still wait on it. -/
theorem GoesOn.attended (h : GoesOn s n before retry) (hrunning : retry'.stage ≠ .done)
    {number : ℕ} {c : Consumer} (hkeeps : c ∈ retry.waiting → c ∈ retry'.waiting)
    (hc : Attended s number c) : Attended (s.setRetry n retry') number c := by
  rcases hc with hmarked | hwaits
  · exact .inl hmarked
  · exact .inr (hwaits.setRetry h.found fun _ hmem => ⟨hrunning, hkeeps (h.waiting ▸ hmem)⟩)

/-- A retry that ends leaves whom it does not tell of attended. -/
theorem GoesOn.attended_endRetry (h : GoesOn s n before retry) {number : ℕ} {c : Consumer}
    (hc : Attended s number c) : c ∈ retry.waiting ∨ Attended (s.endRetry n retry) number c := by
  rcases hc with hmarked | hwaits
  · exact .inr (.inl hmarked)
  · by_cases hmem : c ∈ retry.waiting
    · exact .inl hmem
    · exact .inr (.inr (hwaits.setRetry h.found fun _ hin => absurd (h.waiting ▸ hin) hmem))

/-- A retry that has gone on ends. -/
theorem GoesOn.sound_endRetry (h : GoesOn s n before retry) (hsound : Sound converts told s) :
    Sound converts told (s.endRetry n retry) :=
  h.sound hsound (fun _ hc => hc) (fun _ hstage => by cases hstage) (fun hstage => by cases hstage)
    fun _ _ hstage => by cases hstage

/-- A retry nobody waits on ends. -/
theorem good_endRetry (h : GoesOn s n before retry) (hsound : Sound converts told s)
    (hempty : retry.waiting = []) : Good converts told s (s.endRetry n retry, []) := by
  refine good_silent (h.sound_endRetry hsound) fun number c hc => ?_
  refine (h.attended_endRetry hc).resolve_left ?_
  rw [hempty]
  exact List.not_mem_nil

/-- A retry ends and tells who waited. -/
theorem good_gaveUp (h : GoesOn s n before retry) (hsound : Sound converts told s) (reason : Reason) :
    Good converts told s (s.endRetry n retry, [.gaveUp retry.waiting reason]) :=
  good_tell (h.sound_endRetry hsound) (fun c => by simp) (quiet_gaveUp _ _) fun _ _ hc =>
    h.attended_endRetry hc

/-- A retry runs the subscribe of somebody who waits, or ends as nobody does. -/
theorem good_completeWaiting (h : GoesOn s n before retry) (hsound : Sound converts told s)
    (hpriced : converts = true → Priced retry.instrumentId told) :
    Good converts told s (s.completeWaiting n retry) := by
  unfold Client.completeWaiting
  cases hlast : retry.waiting.getLast? with
  | none => exact good_endRetry h hsound (List.getLast?_eq_none_iff.mp hlast)
  | some consumer =>
    obtain ⟨left, hwaiting⟩ := List.getLast?_eq_some_iff.mp hlast
    have hleft : retry.waiting.dropLast = left := by rw [hwaiting, List.dropLast_concat]
    have hmem : consumer ∈ retry.waiting := by simp [hwaiting]
    dsimp only
    rw [hleft]
    refine ⟨(h.sound hsound ?_ ?_ ?_ ?_).append (quiet_runs consumer), ?_, ?_⟩
    · intro c hc
      rw [hwaiting]
      exact List.mem_append_left _ hc
    · intro _ hstage
      cases hstage
    · intro hstage
      cases hstage
    · exact fun hconverts _ _ => hpriced hconverts
    · intro earlier c rest hsplit
      obtain ⟨rfl, heq⟩ := runs_single hsplit
      cases heq
      rw [List.append_nil, h.own hsound hmem]
      exact ⟨h.wanted hsound hmem, hpriced⟩
    · intro number c hc
      by_cases hsame : c = consumer
      · exact .inl ⟨_, List.mem_singleton_self _, .inr hsame.symm⟩
      · refine .inr (h.attended (fun hdone => by cases hdone) (fun hin => ?_) hc)
        rw [hwaiting] at hin
        exact (List.mem_append.mp hin).resolve_right fun hin => hsame (List.mem_singleton.mp hin)

/-- An attempt of a retry ends in the connection it began in. -/
theorem good_afterAttempt (h : GoesOn s n before retry) (hsound : Sound converts told s)
    {conversion : Conversion} (hkeeps : conversion ≠ .abandoned) :
    Good converts told s (s.afterAttempt n retry conversion) := by
  cases conversion with
  | ready =>
    refine Good.tell ?_ fun c => by simp
    refine good_completeWaiting h (hsound.append (quiet_converted _)) fun _ => ?_
    exact Machine.since_append_cons told rfl fun t ht => (by cases ht)
  | refused =>
    unfold Client.afterAttempt
    dsimp only
    split
    · rename_i hempty
      exact good_endRetry h hsound hempty
    · rename_i hwaiting
      refine good_silent (h.sound hsound (fun _ hc => hc) ?_ (fun _ => hwaiting) ?_) fun number c hc =>
        h.attended (fun hdone => by cases hdone) (fun hin => hin) hc
      · intro _ hstage
        cases hstage
      · intro _ _ hstage
        cases hstage
  | dropped => exact good_gaveUp h hsound _
  | abandoned => exact absurd rfl hkeeps

/-- A preparation that ends in the connection it began in is neither retired nor abandoned. -/
theorem prepared_current (connection : ℕ) (outcome : Prepared) :
    prepared connection connection outcome = .raises ∨
      ∃ conversion, prepared connection connection outcome = .returns conversion ∧
        conversion ≠ .abandoned := by
  cases outcome with
  | raises => exact .inl rfl
  | chain => exact .inr ⟨.ready, by simp [prepared], by simp⟩
  | impossible => exact .inr ⟨.dropped, by simp [prepared], by simp⟩
  | refused loaded =>
    cases loaded
    · exact .inr ⟨.dropped, by simp [prepared], by simp⟩
    · exact .inr ⟨.refused, by simp [prepared], by simp⟩

/-- A refusal that is counted against a retry frees nobody and runs nothing. -/
theorem good_refusal (h : GoesOn s n retry retry) (hsound : Sound converts told s) (outcome : Prepared)
    {next : Client × List Told}
    (hnext : ∀ told, Sound converts told s → GoesOn s n retry (retry.refusal outcome).1 →
      Good converts told s next) :
    Good converts told s (next.1, (retry.refusal outcome).2 ++ next.2) := by
  cases outcome with
  | refused loaded =>
    have hquiet : Quiet [.refusedAgain retry.instrumentId (retry.failures + 1)
        (decide (retry.failures + 1 = restoreRetryErrorAttempts))] := by
      intro t ht c
      rw [List.mem_singleton.mp ht]
      exact id
    refine Good.tell (hnext _ (hsound.append hquiet) ?_) fun c => by simp
    exact ⟨h.found, h.live, h.runs, rfl, rfl, h.cancelled⟩
  | _ => exact hnext told hsound h

/-- A retry wakes. -/
theorem good_wakeRetry (h : GoesOn s n before retry) (hsound : Sound converts told s)
    (ready loaded : Bool) : Good converts told s (s.wakeRetry converts n retry ready loaded) := by
  unfold Client.wakeRetry
  split
  · exact good_same hsound
  split
  · exact good_gaveUp h hsound _
  split
  · refine good_silent (h.sound hsound (fun _ hc => hc) ?_ ?_ ?_) fun number c hc =>
      h.attended (fun hdone => by cases hdone) (fun hin => hin) hc
    · rintro converting ⟨⟩
      rfl
    · intro hstage
      cases hstage
    · intro _ _ hstage
      cases hstage
  · rename_i hconverts
    exact good_completeWaiting h hsound fun hnot => absurd hnot hconverts

/-- A retry that is cancelled ends, and nobody waits on it. -/
theorem good_unwinds (hsound : Sound converts told s) (hretry : s.retries.get? n = some retry)
    (hcancelled : retry.cancelled = true) : Good converts told s (s.endRetry n retry, []) := by
  refine good_silent (hsound.endRetry hretry) fun number c hc => ?_
  rcases hc with hmarked | hwaits
  · exact .inl hmarked
  · obtain ⟨m, found, hm, hfound, hstage, hmem⟩ := hwaits
    obtain ⟨known, hknown, -, hlive⟩ := hsound.kept.known _ _ hm
    rw [hfound] at hknown
    cases hknown
    have hnm : n ≠ m := by
      rintro rfl
      rw [hretry] at hfound
      cases hfound
      rw [hlive hstage] at hcancelled
      cases hcancelled
    exact .inr ⟨m, found, hm, (Dict.get?_set_of_ne _ _ hnm).trans hfound, hstage, hmem⟩

/-- A retry that is done is forgotten. -/
theorem good_forgets (hsound : Sound converts told s) (hretry : s.retries.get? n = some retry)
    (hdone : retry.stage = .done) : Good converts told s (s.resumeRetry converts n retry (.forgets n)) := by
  unfold Client.resumeRetry
  dsimp only
  rw [if_pos hdone]
  refine good_silent ⟨hsound.marked.congr rfl rfl rfl le_rfl, hsound.kept.forgets hretry, hsound.wanted,
    Dict.forall_erase hsound.waiting n, fun hconverts => Dict.forall_erase (hsound.priced hconverts) n⟩ ?_
  rintro number c (hmarked | hwaits)
  · exact .inl hmarked
  · exact .inr (hwaits.forgets hretry hdone)

/-- A retry goes on from its await. -/
theorem good_resumeRetry (hsound : Sound converts told s) (hretry : s.retries.get? n = some retry)
    (input : Input) : Good converts told s (s.resumeRetry converts n retry input) := by
  have hstays := good_same hsound
  have hgoes (hlive : retry.cancelled = false) (hruns : retry.stage ≠ .done) : GoesOn s n retry retry :=
    ⟨hretry, hlive, hruns, rfl, rfl, hlive⟩
  unfold Client.resumeRetry
  split
  · split
    · rename_i hsleeping
      refine good_wakeRetry (hgoes hsleeping.1 fun hdone => ?_) hsound _ _
      rw [hsleeping.2] at hdone
      cases hdone
    · exact hstays
  · rename_i outcome
    split
    · rename_i connection hlive hstage
      have hruns : retry.stage ≠ .done := by
        rw [hstage]
        exact fun hdone => by cases hdone
      have hcurrent := (hsound.kept.live n retry hretry hlive hruns).current _ hstage
      obtain rfl : connection = s.connectionGeneration := Converting.preparing.inj hcurrent
      refine good_refusal (hgoes hlive hruns) hsound outcome fun told hsound hgoes => ?_
      rcases prepared_current s.connectionGeneration outcome with heq | ⟨conversion, heq, hkeeps⟩
      · rw [heq]
        exact good_gaveUp hgoes hsound _
      · rw [heq]
        exact good_afterAttempt hgoes hsound hkeeps
    · exact hstays
  · split
    · rename_i hretiring
      -- a live retry prepares in the connection that is up, so it retires nothing
      have hruns : retry.stage ≠ .done := by
        rw [hretiring.2]
        exact fun hdone => by cases hdone
      have hcurrent := (hsound.kept.live n retry hretry hretiring.1 hruns).current _ hretiring.2
      cases hcurrent
    · exact hstays
  · split
    · rename_i consumer hlive hstage
      have hruns : retry.stage ≠ .done := by
        rw [hstage]
        exact fun hdone => by cases hdone
      exact good_completeWaiting (hgoes hlive hruns) hsound fun hconverts =>
        hsound.priced hconverts n retry hretry hlive _ hstage
    · exact hstays
  · split
    · rename_i hcancelled
      exact good_unwinds hsound hretry hcancelled
    · exact hstays
  · split
    · rename_i hdone
      have hforgets := good_forgets hsound hretry hdone
      unfold Client.resumeRetry at hforgets
      dsimp only at hforgets
      rw [if_pos hdone] at hforgets
      exact hforgets
    · exact hstays
  · exact hstays

/-- A preparation of a call goes on to retire legs only where its marker is gone. -/
theorem gone_prepared (hsound : Sound converts told s) {connection : ℕ}
    (hcall : s.calls.get? call = some ⟨consumer, .converting (.preparing connection)⟩) (outcome : Prepared)
    (hgoes : prepared s.connectionGeneration connection outcome = .awaits ∨
      prepared s.connectionGeneration connection outcome = .returns .abandoned) (c : Consumer) :
    call ∉ s.markers c := by
  refine hsound.marked.gone_of_stage hcall (fun hstage => ?_) c
  obtain rfl : connection = s.connectionGeneration :=
    Converting.preparing.inj (CallStage.converting.inj hstage)
  rcases prepared_current s.connectionGeneration outcome with heq | ⟨conversion, heq, hkeeps⟩
  · rw [heq] at hgoes
    rcases hgoes with hgoes | hgoes <;> cases hgoes
  · rw [heq] at hgoes
    rcases hgoes with hgoes | hgoes
    · cases hgoes
    · exact hkeeps (Goes.returns.inj hgoes)

/-- A call goes on from its await. -/
theorem good_resumeCall (hsound : Sound converts told s) {found : Call}
    (hcall : s.calls.get? call = some found) (input : Input) :
    Good converts told s (s.resumeCall call found input) := by
  have hstays := good_same hsound
  obtain ⟨consumer, stage⟩ := found
  unfold Client.resumeCall
  split
  · split
    · rename_i hstage
      obtain rfl : stage = _ := hstage
      exact good_convertCall hsound hcall (gone_prepared hsound hcall _)
    · exact hstays
  · split
    · rename_i hstage
      obtain rfl : stage = _ := hstage
      exact good_convertCall hsound hcall fun _ => hsound.marked.gone_of_stage hcall fun hnot => by cases hnot
    · exact hstays
  · split
    · rename_i hstage
      obtain rfl : stage = _ := hstage
      have hgone := hsound.marked.gone_of_stage hcall fun hnot => by cases hnot
      exact good_silent (hsound.endCall hgone) fun _ _ hc => hc
    · exact hstays
  · dsimp only
    have hended {s' : Client} (hsound' : Sound converts told s') (hgone : ∀ c, call ∉ s'.markers c) :
        Good converts told s' (s'.endCall call, [.ended call .cancelled]) :=
      good_tell (hsound'.endCall hgone) (fun c => by simp) (quiet_ended _ _) fun _ _ hc => .inr hc
    split
    · rename_i hstage
      obtain rfl : stage = _ := hstage
      exact hended hsound (hsound.marked.gone_of_stage hcall fun hnot => by cases hnot)
    · refine (hended hsound.dropMarker (hsound.marked.gone_dropMarker hcall)).of_dropMarker fun _ => .inl ?_
      exact ⟨_, List.mem_singleton_self _, rfl, by simp⟩
  · exact hstays

/-! ### Subscribes and unsubscribes -/

/-- A number is made for a subscribe that is asked for. -/
theorem Sound.asked (h : Sound converts told s) (number : ℕ) :
    Sound converts (told ++ [.asked number consumer]) { s with made := s.made + 1 } := by
  have hmade : s.made ≤ s.made + 1 := Nat.le_succ _
  refine Sound.append (h.calls (h.marked.congr rfl rfl rfl hmade) rfl rfl rfl hmade h.wanted) ?_
  intro t ht c
  rw [List.mem_singleton.mp ht]
  exact id

/-- The call that prepares is marked. -/
theorem Marked.addMarker (h : Marked s) (hnew : s.calls.get? call = none) (hlt : call < s.made) :
    Marked ((s.addMarker consumer call).setCall call consumer
      (.converting (.preparing s.connectionGeneration))) where
  fresh m found hfound := by
    rcases Dict.get?_set_eq_some.mp hfound with ⟨rfl, -⟩ | ⟨-, hold⟩
    · exact hlt
    · exact h.fresh m found hold
  call c m hm := by
    rcases mem_markers_addMarker.mp hm with hm | ⟨rfl, rfl⟩
    · have hne : call ≠ m := by
        rintro rfl
        have hsome := h.call c call hm
        rw [hnew] at hsome
        cases hsome
      exact (Dict.get?_set_of_ne _ _ hne).trans (h.call c m hm)
    · exact Dict.get?_set_self _ _ _

/-- A subscribe that is asked for prepares its conversion, waits on a retry, or runs. -/
theorem good_subscribeConverted (h : Sound converts told s) (hwanted : Wanted consumer told)
    (hlt : call < s.made) (hnew : s.calls.get? call = none) :
    Good converts told s (s.subscribeConverted converts call consumer) ∧
      ((∃ t ∈ (s.subscribeConverted converts call consumer).2, t.settles call consumer) ∨
        Attended (s.subscribeConverted converts call consumer).1 call consumer) := by
  have hgone : ∀ c, call ∉ s.markers c := by
    intro c hm
    have hsome := h.marked.call c call hm
    rw [hnew] at hsome
    cases hsome
  unfold Client.subscribeConverted
  split
  · rename_i number retry hrunning
    refine ⟨good_tell (h.add hrunning hwanted) (fun c => by simp) (quiet_waits _) ?_,
      .inr (.inr (waits_add hrunning))⟩
    rintro other c (hmarked | hwaits)
    · exact .inr (.inl hmarked)
    · exact .inr (.inr (hwaits.add hrunning))
  · split
    · refine ⟨good_silent ?_ ?_, .inr (.inl (mem_markers_addMarker.mpr (.inr ⟨rfl, rfl⟩)))⟩
      · refine h.calls (h.marked.addMarker hnew hlt) rfl rfl rfl le_rfl fun c m hm => ?_
        rcases mem_markers_addMarker.mp hm with hm | ⟨-, rfl⟩
        · exact h.wanted c m hm
        · exact hwanted
      · rintro other c (hmarked | hwaits)
        · exact .inl (mem_markers_addMarker.mpr (.inl hmarked))
        · exact .inr (hwaits.congr rfl rfl)
    · rename_i hconverts
      refine ⟨⟨(h.setCall hlt _ hgone).append (quiet_runs consumer), ?_, fun _ _ hc => .inr hc⟩,
        .inl ⟨_, List.mem_singleton_self _, rfl⟩⟩
      intro earlier c rest hsplit
      obtain ⟨rfl, heq⟩ := runs_single hsplit
      cases heq
      rw [List.append_nil]
      exact ⟨hwanted, fun hnot => absurd hnot hconverts⟩

/-- What is told asks for no subscribe. -/
def Unasked (told : List Told) : Prop := ∀ number c, .asked number c ∉ told

/-- A subscribe asks for no other. -/
theorem unasked_subscribeConverted : Unasked (s.subscribeConverted converts call consumer).2 := by
  intro number c
  unfold Client.subscribeConverted
  split
  · simp
  · split <;> simp

/-- A call that goes on asks for none. -/
theorem unasked_resumeCall (found : Call) (input : Input) : Unasked (s.resumeCall call found input).2 := by
  have hconvert (goes : Goes) : Unasked (s.convertCall call found.consumer goes).2 := by
    intro number c
    cases goes with
    | awaits => simp [Client.convertCall]
    | raises => simp [Client.convertCall]
    | returns conversion =>
      unfold Client.convertCall Client.convertBeforeSubscribing Client.afterConversion Client.waitForRetry
      dsimp only
      split
      · simp
      · split
        · simp
        · split <;> simp
      · simp
      · simp
  intro number c
  unfold Client.resumeCall
  split
  · split
    · exact hconvert _ number c
    · simp
  · split
    · exact hconvert _ number c
    · simp
  · split <;> simp
  · simp
  · simp

/-- Nor does a retry. -/
theorem unasked_resumeRetry (found : Retry) (input : Input) :
    Unasked (s.resumeRetry converts n found input).2 := by
  -- what completes runs those that waited, and asks for nobody
  have hcompletes (retry : Retry) : Unasked (s.completeWaiting n retry).2 := by
    intro number c
    unfold Client.completeWaiting
    split <;> simp
  have hconvert (retry : Retry) (goes : Goes) : Unasked (s.convertRetry n retry goes).2 := by
    intro number c
    cases goes with
    | awaits => simp [Client.convertRetry]
    | raises => simp [Client.convertRetry]
    | returns conversion =>
      unfold Client.convertRetry Client.afterAttempt
      dsimp only
      split
      · intro hmem
        exact hcompletes retry number c (List.mem_of_ne_of_mem (by simp) hmem)
      · split <;> simp
      · simp
      · simp
  intro number c
  -- a stage of the retry each
  unfold Client.resumeRetry
  split
  · unfold Client.wakeRetry
    split
    · split
      · simp
      split
      · simp
      split
      · simp
      · exact hcompletes found number c
    · simp
  · split
    · intro hmem
      rcases List.mem_append.mp hmem with hmem | hmem
      · unfold Retry.refusal at hmem
        split at hmem <;> simp at hmem
      · exact hconvert _ _ number c hmem
    · simp
  · split
    · exact hconvert _ _ number c
    · simp
  · split
    · exact hcompletes found number c
    · simp
  · split <;> simp
  · split <;> simp
  · simp

/-- The subscribe that a step asks for is served. -/
def Serves (next : Client × List Told) : Prop :=
  ∀ earlier call consumer rest, next.2 = earlier ++ .asked call consumer :: rest →
    (∃ t ∈ rest, t.settles call consumer) ∨ Attended next.1 call consumer

/-- A step that asks for no subscribe serves it. -/
theorem serves_unasked {next : Client × List Told} (h : Unasked next.2) : Serves next := by
  intro earlier call consumer rest hsplit
  refine absurd ?_ (h call consumer)
  rw [hsplit]
  exact List.mem_append_right _ List.mem_cons_self

/-- The subscribe that is asked for first is the only one. -/
theorem serves_cons {next : Client × List Told} (h : Unasked next.2)
    (hserved : (∃ t ∈ next.2, t.settles call consumer) ∨ Attended next.1 call consumer) :
    Serves (next.1, .asked call consumer :: next.2) := by
  intro earlier other c rest hsplit
  cases earlier with
  | nil =>
    obtain ⟨hasked, rfl⟩ := List.cons.inj hsplit
    cases hasked
    exact hserved
  | cons found earlier =>
    refine absurd ?_ (h other c)
    rw [(List.cons.inj hsplit).2]
    exact List.mem_append_right _ List.mem_cons_self

/-- A subscribe is asked for. -/
theorem good_subscribe (h : Sound converts told s) (found : Found) :
    Good converts told s (s.subscribe converts consumer found) ∧
      Serves (s.subscribe converts consumer found) := by
  have hasked := @Sound.asked converts told s consumer h s.made
  have hwanted : Wanted consumer (told ++ [.asked s.made consumer]) :=
    Machine.since_append_cons told ⟨s.made, rfl⟩ fun t ht => (by cases ht)
  have htold (next : Client × List Told)
      (hgood : Good converts (told ++ [.asked s.made consumer]) { s with made := s.made + 1 } next) :
      Good converts told s (next.1, .asked s.made consumer :: next.2) :=
    Good.tell ⟨hgood.sound, hgood.runs, hgood.attended⟩ fun c => by simp
  have hended (reason : Reason) (hreason : reason ≠ .abandoned) :
      Good converts told s
          ({ s with made := s.made + 1 }, [.asked s.made consumer, .ended s.made reason]) ∧
        Serves ({ s with made := s.made + 1 }, [.asked s.made consumer, .ended s.made reason]) := by
    refine ⟨htold ({ s with made := s.made + 1 }, [.ended s.made reason]) ?_,
      @serves_cons consumer s.made ({ s with made := s.made + 1 }, [.ended s.made reason]) ?_ ?_⟩
    · exact good_tell hasked (fun c => by simp) (quiet_ended _ _) fun _ _ hc => .inr hc
    · intro number c
      simp
    · exact .inl ⟨_, List.mem_singleton_self _, rfl, hreason⟩
  cases found with
  | instrument =>
    have hnew : s.calls.get? s.made = none := by
      cases hcall : s.calls.get? s.made with
      | none => rfl
      | some found => exact absurd (h.marked.fresh _ _ hcall) (lt_irrefl _)
    obtain ⟨hgood, hserved⟩ :=
      good_subscribeConverted hasked hwanted (Nat.lt_succ_self s.made) hnew
    exact ⟨htold _ hgood, serves_cons unasked_subscribeConverted hserved⟩
  | notLoaded => exact hended .notLoaded (by simp)
  | passedOver => exact hended .passedOver (by simp)

/-- Nobody else is freed by an unsubscribe. -/
theorem wanted_unsubscribed {c : Consumer} (h : Wanted c told) (hne : c ≠ consumer) :
    Wanted c (told ++ [.unsubscribed consumer]) := by
  refine h.append fun t ht hfrees => hne ?_
  rw [List.mem_singleton.mp ht] at hfrees
  exact hfrees.symm

/-- A live retry of a consumer's instrument is the one that it stops waiting on. -/
theorem not_waiting_stopWaiting (h : Kept s)
    (hretry : (s.stopWaiting consumer).retries.get? n = some retry) (hlive : retry.cancelled = false)
    (hrunning : retry.stage ≠ .done) : consumer ∉ retry.waiting := by
  intro hmem
  have hkept : Kept (s.stopWaiting consumer) := h.stopWaiting
  have hregistered := (hkept.live n retry hretry hlive hrunning).registered
  rw [← hkept.own n retry hretry consumer hmem] at hregistered
  rcases stopWaiting_cases s consumer with
    ⟨heq, hnone⟩ | ⟨number, found, hn, hfound, -, ⟨heq, -⟩ | ⟨heq, -⟩⟩
  · rw [heq] at hretry hregistered
    exact hnone n retry hregistered hretry hmem
  · rw [heq] at hretry hregistered
    obtain rfl : number = n := Option.some.inj (hn.symm.trans hregistered)
    have hset : (s.setRetry number { found with waiting := found.waiting.filter (· ≠ consumer) }).retries.get?
        number = some _ := Dict.get?_set_self _ _ _
    rw [hset] at hretry
    cases hretry
    simp at hmem
  · rw [heq] at hregistered
    have herased := (Dict.get?_erase_eq_some.mp hregistered).1
    exact herased rfl

/-- An unsubscribe leaves everybody else attended. -/
theorem good_unsubscribe (h : Sound converts told s) :
    Good converts told s ({ s.stopWaiting consumer with preparing := s.preparing.erase consumer },
      [.unsubscribed consumer]) := by
  have hkept : Kept (s.stopWaiting consumer) := h.kept.stopWaiting
  obtain ⟨hcalls, hmade, hconnection⟩ : (s.stopWaiting consumer).calls = s.calls ∧
      (s.stopWaiting consumer).made = s.made ∧
      (s.stopWaiting consumer).connectionGeneration = s.connectionGeneration := by
    rcases stopWaiting_cases s consumer with ⟨heq, -⟩ | ⟨number, found, -, -, -, ⟨heq, -⟩ | ⟨heq, -⟩⟩ <;>
      rw [heq] <;> exact ⟨rfl, rfl, rfl⟩
  have hmarkers : ∀ c m,
      m ∈ Client.markers { s.stopWaiting consumer with preparing := s.preparing.erase consumer } c ↔
        m ∈ s.markers c ∧ c ≠ consumer := by
    intro c m
    show m ∈ ((s.preparing.erase consumer).get? c).getD [] ↔ _
    rw [Dict.get?_erase]
    split
    case isTrue heq => simp [heq]
    case isFalse hne => simp [Client.markers, hne]
  -- each retry is one that was there, with those who waited on it but `consumer`
  have hretries : ∀ m found, (s.stopWaiting consumer).retries.get? m = some found →
      ∃ before, s.retries.get? m = some before ∧ found.stage = before.stage ∧
        found.instrumentId = before.instrumentId ∧ (found.cancelled = false → before.cancelled = false) ∧
        ∀ c ∈ found.waiting, c ∈ before.waiting := by
    intro m found hfound
    rcases stopWaiting_cases s consumer with
      ⟨heq, -⟩ | ⟨number, before, hn, hbefore, -, ⟨heq, -⟩ | ⟨heq, -⟩⟩ <;> rw [heq] at hfound
    · exact ⟨found, hfound, rfl, rfl, id, fun c hc => hc⟩
    · rcases Dict.get?_set_eq_some.mp hfound with ⟨rfl, rfl⟩ | ⟨-, hold⟩
      · exact ⟨before, hbefore, rfl, rfl, id, fun c hc => (List.mem_filter.mp hc).1⟩
      · exact ⟨found, hold, rfl, rfl, id, fun c hc => hc⟩
    · rcases Dict.get?_set_eq_some.mp hfound with ⟨rfl, rfl⟩ | ⟨-, hold⟩
      · exact ⟨before, hbefore, rfl, rfl, fun hlive => (by cases hlive),
          fun c hc => (List.mem_filter.mp hc).1⟩
      · exact ⟨found, hold, rfl, rfl, id, fun c hc => hc⟩
  refine ⟨⟨⟨?_, ?_⟩, hkept.congr rfl rfl rfl le_rfl, ?_, ?_, ?_⟩, ?_, ?_⟩
  · intro m found hfound
    rw [hcalls] at hfound
    exact lt_of_lt_of_eq (h.marked.fresh m found hfound) hmade.symm
  · intro c m hm
    have hcall := h.marked.call c m ((hmarkers c m).mp hm).1
    rw [hcalls, hconnection]
    exact hcall
  · intro c m hm
    obtain ⟨hm, hne⟩ := (hmarkers c m).mp hm
    exact wanted_unsubscribed (h.wanted c m hm) hne
  · intro m found hfound hlive hstage c hc
    obtain ⟨before, hbefore, hsame, -, hwas, hsub⟩ := hretries m found hfound
    refine wanted_unsubscribed (h.waiting m before hbefore (hwas hlive) (hsame ▸ hstage) c (hsub c hc)) ?_
    rintro rfl
    exact not_waiting_stopWaiting h.kept hfound hlive hstage hc
  · intro hconverts m found hfound hlive c hstage
    obtain ⟨before, hbefore, hsame, hid, hwas, -⟩ := hretries m found hfound
    rw [hid]
    refine (h.priced hconverts m before hbefore (hwas hlive) c (hsame ▸ hstage)).append fun t ht => ?_
    rw [List.mem_singleton.mp ht]
    exact fun hnot => by cases hnot
  · intro earlier c rest hsplit
    cases (runs_single hsplit).2
  · intro number c hc
    by_cases hsame : c = consumer
    · exact .inl ⟨_, List.mem_singleton_self _, .inl hsame.symm⟩
    · rcases hc with hmarked | hwaits
      · exact .inr (.inl ((hmarkers c number).mpr ⟨hmarked, hsame⟩))
      · exact .inr (.inr ((hwaits.stopWaiting hsame).congr rfl rfl))

/-- A connect or a disconnect frees everybody. -/
theorem good_reconnects (h : Sound converts told s) (session : Bool) :
    Good converts told s (s.reconnects session, [.reconnected]) := by
  have hnone : ∀ m found, (s.reconnects session).retries.get? m = some found → found.cancelled = false →
      found.stage = .done := by
    intro m found hfound hlive
    have hmap : (s.retries.get? m).map _ = some found := (Dict.get?_mapAccum _ _ _).symm.trans hfound
    obtain ⟨before, -, rfl⟩ := Option.map_eq_some_iff.mp hmap
    have hrunning : before.running = false := (Bool.or_eq_false_iff.mp hlive).2
    exact not_not.mp (of_decide_eq_false hrunning)
  refine ⟨⟨⟨h.marked.fresh, fun c m hm => (by cases hm)⟩, kept_reconnects h.kept session,
    fun c m hm => (by cases hm), ?_, ?_⟩, ?_, ?_⟩
  · intro m found hfound hlive hstage
    exact absurd (hnone m found hfound hlive) hstage
  · intro _ m found hfound hlive c hstage
    have hdone := hnone m found hfound hlive
    rw [hstage] at hdone
    cases hdone
  · intro earlier c rest hsplit
    cases (runs_single hsplit).2
  · exact fun _ _ _ => .inl ⟨_, List.mem_singleton_self _, .inl trivial⟩

/-- Every step keeps what holds, and serves the subscribe that it asks for. -/
theorem good_step (h : Sound converts told s) (input : Input) :
    Good converts told s ((machine converts).step s input) ∧ Serves ((machine converts).step s input) := by
  have hnothing : Unasked [] := fun number c hmem => by cases hmem
  have hstays : Good converts told s (s, []) ∧ Serves (s, []) := ⟨good_same h, serves_unasked hnothing⟩
  have hreconnected : Unasked [.reconnected] := fun number c => by simp
  have hcall (number : ℕ) (input : Input) :
      Good converts told s ((s.calls.get? number).elim (s, []) (s.resumeCall number · input)) ∧
        Serves ((s.calls.get? number).elim (s, []) (s.resumeCall number · input)) := by
    cases hfound : s.calls.get? number with
    | none => exact hstays
    | some found => exact ⟨good_resumeCall h hfound input, serves_unasked (unasked_resumeCall found input)⟩
  have hretry (number : ℕ) (input : Input) :
      Good converts told s
          ((s.retries.get? number).elim (s, []) (s.resumeRetry converts number · input)) ∧
        Serves ((s.retries.get? number).elim (s, []) (s.resumeRetry converts number · input)) := by
    cases hfound : s.retries.get? number with
    | none => exact hstays
    | some found =>
      exact ⟨good_resumeRetry h hfound input, serves_unasked (unasked_resumeRetry found input)⟩
  cases input with
  | subscribe consumer found => exact good_subscribe h found
  | unsubscribe consumer =>
    have hunasked : Unasked [.unsubscribed consumer] := fun number c => by simp
    exact ⟨good_unsubscribe h, serves_unasked hunasked⟩
  | connect => exact ⟨good_reconnects h _, serves_unasked hreconnected⟩
  | disconnect => exact ⟨good_reconnects h _, serves_unasked hreconnected⟩
  | established =>
    refine ⟨good_silent ?_ fun number c hc => hc.imp id (Waits.congr · rfl rfl),
      serves_unasked hnothing⟩
    exact ⟨h.marked.congr rfl rfl rfl le_rfl, h.kept.congr rfl rfl rfl le_rfl, h.wanted, h.waiting, h.priced⟩
  | prepared call outcome => exact hcall call _
  | retired call ok => exact hcall call _
  | subscribed call => exact hcall call _
  | cancelled call => exact hcall call _
  | slept number ready loaded => exact hretry number _
  | retryPrepared number outcome => exact hretry number _
  | retryRetired number ok => exact hretry number _
  | completed number => exact hretry number _
  | unwinds number => exact hretry number _
  | forgets number => exact hretry number _

end Steps

/-! ## Runs -/

section Runs

variable {converts : Bool}

/-- What holds after a run: what each step keeps, each subscribe that ran was wanted and priced, and each
that was asked for is served. -/
structure Ran (converts : Bool) (told : List Told) (s : Client) : Prop where
  sound : Sound converts told s
  runs : ∀ before consumer after, told = before ++ .runs consumer :: after →
    Wanted consumer before ∧ (converts = true → Priced consumer.instrumentId before)
  served : ∀ before call consumer after, told = before ++ .asked call consumer :: after →
    (∃ t ∈ after, t.frees consumer ∨ t.settles call consumer) ∨ Attended s call consumer

/-- What holds after every run. -/
theorem ran_run (inputs : List Input) :
    Ran converts ((machine converts).told {} inputs) ((machine converts).after {} inputs) := by
  have hnew : Ran converts [] ({} : Client) := {
    sound := {
      marked := ⟨fun n found hfound => (by cases hfound), fun c m hm => by cases hm⟩
      kept := ⟨fun _ _ hn => (by cases hn), fun _ _ hfound => (by cases hfound),
        fun _ _ hfound => (by cases hfound), fun _ _ hfound => by cases hfound⟩
      wanted := fun c m hm => by cases hm
      waiting := fun _ _ hfound => by cases hfound
      priced := fun _ _ _ hfound => by cases hfound }
    runs := fun before consumer after hsplit => absurd hsplit (by simp)
    served := fun before call consumer after hsplit => absurd hsplit (by simp) }
  refine Machine.told_invariant (fun told s input h => ?_) hnew inputs
  obtain ⟨hgood, hserves⟩ := good_step h.sound input
  refine ⟨hgood.sound, ?_, ?_⟩
  · intro before consumer after hsplit
    rcases Machine.append_split hsplit with ⟨earlier, -, htold⟩ | ⟨earlier, hbefore, hnext⟩
    · exact h.runs before consumer earlier htold
    · rw [hbefore]
      exact hgood.runs earlier consumer after hnext
  · intro before call consumer after hsplit
    rcases Machine.append_split hsplit with ⟨earlier, hafter, htold⟩ | ⟨earlier, -, hnext⟩
    · rw [hafter]
      rcases h.served before call consumer earlier htold with ⟨t, ht, hfound⟩ | hattended
      · exact .inl ⟨t, List.mem_append_left _ ht, hfound⟩
      · rcases hgood.attended call consumer hattended with ⟨t, ht, hfound⟩ | hattended
        · exact .inl ⟨t, List.mem_append_right _ ht, hfound⟩
        · exact .inr hattended
    · exact (hserves earlier call consumer after hnext).imp_left fun ⟨t, ht, hsettles⟩ =>
        ⟨t, ht, .inr hsettles⟩

/-- **No subscribe is lost.** A subscribe that was asked for is run, ends with a reason that is told, is
freed by an unsubscribe, a connect or a disconnect, or it is still preparing its conversion in the
connection that is up, or waits on the running retry of its instrument. -/
theorem subscribes_served {inputs : List Input} {before after : List Told} {call : ℕ} {consumer : Consumer}
    (hasked : (machine converts).told {} inputs = before ++ .asked call consumer :: after) :
    let s := (machine converts).after {} inputs
    (∃ t ∈ after, t.frees consumer ∨ t.settles call consumer) ∨
      (call ∈ s.markers consumer ∧
        s.calls.get? call = some ⟨consumer, .converting (.preparing s.connectionGeneration)⟩) ∨
      ∃ number retry, s.running? consumer.instrumentId = some (number, retry) ∧
        retry.cancelled = false ∧ consumer ∈ retry.waiting := by
  intro s
  have h : Ran converts _ s := ran_run inputs
  rcases h.served before call consumer after hasked with hfound | hmarked | hwaits
  · exact .inl hfound
  · exact .inr (.inl ⟨hmarked, h.sound.marked.call consumer call hmarked⟩)
  · obtain ⟨number, retry, hrunning, hmem⟩ := waits_iff.mp hwaits
    obtain ⟨hn, hretry, hstage⟩ := running?_eq_some.mp hrunning
    obtain ⟨known, hknown, -, hlive⟩ := h.sound.kept.known _ _ hn
    rw [hretry] at hknown
    cases hknown
    exact .inr (.inr ⟨number, retry, hrunning, hlive hstage, hmem⟩)

/-- The quotes of EURUSD. -/
def eurusdQuotes : Consumer := .quotes ⟨"EURUSD", "CTRADER"⟩

/-- The chain of EURUSD is refused to the subscribe, and subscribed on the retry. -/
def refusedOnce : List Input := [.connect, .established, .subscribe eurusdQuotes .instrument,
  .prepared 0 (.refused true), .slept 1 true true, .retryPrepared 1 .chain, .completed 1, .forgets 1]

/-- The subscribe whose chain was refused waits on the retry, which is under way. -/
theorem subscribes_served_refused :
    let s := (machine true).after {} (refusedOnce.take 5)
    (machine true).told {} (refusedOnce.take 5) =
        [.reconnected] ++ .asked 0 eurusdQuotes :: [.waits 0] ∧
      ((∃ t ∈ [Told.waits 0], t.frees eurusdQuotes ∨ t.settles 0 eurusdQuotes) ∨
        (0 ∈ s.markers eurusdQuotes ∧
          s.calls.get? 0 = some ⟨eurusdQuotes, .converting (.preparing s.connectionGeneration)⟩) ∨
        ∃ number retry, s.running? eurusdQuotes.instrumentId = some (number, retry) ∧
          retry.cancelled = false ∧ eurusdQuotes ∈ retry.waiting) := by
  intro s
  have hasked : (machine true).told {} (refusedOnce.take 5) =
      [.reconnected] ++ .asked 0 eurusdQuotes :: [.waits 0] := by decide
  exact ⟨hasked, subscribes_served hasked⟩

/-- **An instrument has one retry at a time.** Two retries of an instrument that run and are not cancelled
are the same; somebody waits on one that sleeps, and each who waits is a consumer of its instrument, once
asked for and not freed since. -/
theorem one_retry (inputs : List Input) :
    let s := (machine converts).after {} inputs
    (∀ n m retry retry', s.retries.get? n = some retry → s.retries.get? m = some retry' →
        retry.cancelled = false → retry'.cancelled = false → retry.stage ≠ .done → retry'.stage ≠ .done →
        retry.instrumentId = retry'.instrumentId → n = m) ∧
      ∀ n retry, s.retries.get? n = some retry → retry.cancelled = false → retry.stage ≠ .done →
        (retry.stage = .sleeping → retry.waiting ≠ []) ∧
          ∀ consumer ∈ retry.waiting, consumer.instrumentId = retry.instrumentId ∧
            Wanted consumer ((machine converts).told {} inputs) := by
  intro s
  have h : Ran converts _ s := ran_run inputs
  refine ⟨?_, ?_⟩
  · intro n m retry retry' hn hm hlive hlive' hstage hstage' hsame
    have hregistered := (h.sound.kept.live n retry hn hlive hstage).registered
    have hregistered' := (h.sound.kept.live m retry' hm hlive' hstage').registered
    rw [hsame] at hregistered
    exact Option.some.inj (hregistered.symm.trans hregistered')
  · intro n retry hn hlive hstage
    exact ⟨(h.sound.kept.live n retry hn hlive hstage).waits, fun consumer hmem =>
      ⟨h.sound.kept.own n retry hn consumer hmem, h.sound.waiting n retry hn hlive hstage consumer hmem⟩⟩

end Runs

end DataClient

end NautilusCtrader
