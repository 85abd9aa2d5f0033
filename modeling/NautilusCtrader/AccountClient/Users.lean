import NautilusCtrader.AccountClient.Lifecycle

/-!
# A client's users and its session

Whatever is called, fails or is cancelled, and in whatever order: while no call holds a client's lock,
the client has users just if a session of its runs, and then just one, the one it offers, with its
restores retried and its reference data loaded. What a call that holds the lock has up is said by where
it waits (`Fits`). The running session has the client's own credentials.
-/

namespace NautilusCtrader

open Common Instruments

namespace AccountClient

/-! ## What stands of a client -/

namespace Client

variable {c c' : Client} {up : Bool} {offered running : Option ℕ} {s call : ℕ}

/-- A client that has users or not, the session it offers, and the one that runs. -/
structure Stands (c : Client) (up : Bool) (offered running : Option ℕ) : Prop where
  users : 0 < c.users ↔ up = true
  session : c.session = offered
  attached : c.attached = offered
  retry : c.retryTask.isSome = up
  reloads : offered = none → c.reloadTasks = []
  loaded : up = true → c.referenceData.isSome = true
  runs : ∀ s, c.runs s = true ↔ running = some s
  renewed : ∀ s ∈ running, ∀ found ∈ c.sessions[s]?, found.credentials = c.credentials

/-- Nothing is up. -/
abbrev Down (c : Client) : Prop := c.Stands false none none

/-- A session is up for users. -/
abbrev Up (c : Client) (s : ℕ) : Prop := c.Stands true (some s) (some s)

/-- A client whose lock is free. -/
def Idle (c : Client) : Prop := c.Down ∨ ∃ s, c.Up s

/-- What a client has up while the holder of its lock waits at the stage. -/
def Fits (c : Client) : Option Stage → Prop
  | none => c.Idle
  | some (.resolving _) => c.Down
  | some (.readying s _) | some (.loading s) => c.Stands false (some s) (some s)
  | some (.joining s _) => c.Up s
  | some (.winding s _ _) => s.isSome ∧ c.Stands false none s
  | some (.stopping _ _) => c.Down

def Settled (c : Client) : Prop := c.Fits (c.holder.map Prod.snd)

/-- The fields that `Stands` reads. -/
def view (c : Client) :=
  (c.users, c.session, c.attached, c.retryTask, c.reloadTasks, c.referenceData, c.sessions,
    c.credentials)

/-- Where a client stands is read off its view. -/
theorem Stands.congr (h : c.Stands up offered running) (hview : c'.view = c.view) :
    c'.Stands up offered running := by
  simp only [view, Prod.mk.injEq] at hview
  obtain ⟨husers, hsession, hattached, hretry, hreloads, hdata, hsessions, hcredentials⟩ := hview
  refine ⟨husers ▸ h.users, hsession ▸ h.session, hattached ▸ h.attached, hretry ▸ h.retry,
    hreloads ▸ h.reloads, hdata ▸ h.loaded, ?_, ?_⟩
  · intro s
    rw [← h.runs s]
    unfold Client.runs
    rw [hsessions]
  · rw [hsessions, hcredentials]
    exact h.renewed

/-- What keeps whatever stands keeps what fits a stage. -/
theorem Fits.map {stage : Option Stage} (h : c.Fits stage)
    (hkeeps : ∀ {up offered running}, c.Stands up offered running → c'.Stands up offered running) :
    c'.Fits stage := by
  match stage, h with
  | none, .inl h => exact .inl (hkeeps h)
  | none, .inr ⟨s, h⟩ => exact .inr ⟨s, hkeeps h⟩
  | some (.resolving _), h => exact hkeeps h
  | some (.readying _ _), h => exact hkeeps h
  | some (.loading _), h => exact hkeeps h
  | some (.joining _ _), h => exact hkeeps h
  | some (.winding _ _ _), h => exact ⟨h.1, hkeeps h.2⟩
  | some (.stopping _ _), h => exact hkeeps h

/-- A client at any stage stands somewhere. -/
theorem Fits.stands {stage : Option Stage} (h : c.Fits stage) :
    ∃ up offered running, c.Stands up offered running := by
  match stage, h with
  | none, .inl h => exact ⟨_, _, _, h⟩
  | none, .inr ⟨_, h⟩ => exact ⟨_, _, _, h⟩
  | some (.resolving _), h => exact ⟨_, _, _, h⟩
  | some (.readying _ _), h => exact ⟨_, _, _, h⟩
  | some (.loading _), h => exact ⟨_, _, _, h⟩
  | some (.joining _ _), h => exact ⟨_, _, _, h⟩
  | some (.winding _ _ _), h => exact ⟨_, _, _, h.2⟩
  | some (.stopping _ _), h => exact ⟨_, _, _, h⟩

/-- Whether a client is idle is read off its view. -/
theorem Idle.congr (h : c.Idle) (hview : c'.view = c.view) : c'.Idle :=
  @Fits.map c c' none h fun hstands => hstands.congr hview

/-- What a stage asks of a client is read off its view. -/
theorem Fits.congr {stage : Option Stage} (h : c.Fits stage) (hview : c'.view = c.view) :
    c'.Fits stage :=
  h.map fun hstands => hstands.congr hview

/-- Whether a client is settled is read off its view and the holder of its lock. -/
theorem Settled.congr (h : c.Settled) (hview : c'.view = c.view) (hholder : c'.holder = c.holder) :
    c'.Settled := by
  unfold Settled
  rw [hholder]
  exact Fits.congr h hview

/-- A client that is not up has no users. -/
theorem Stands.users_zero (h : c.Stands false offered running) : c.users = 0 := by
  have hnot : ¬ 0 < c.users := fun hpos => Bool.noConfusion (h.users.mp hpos)
  omega

/-! ## Sessions that change -/

/-- A session changes, and goes on running with its credentials. -/
theorem Stands.modify (h : c.Stands up offered running) (s : ℕ) {f : Session → Session}
    (hruns : ∀ found, (f found).running = found.running)
    (hcredentials : ∀ found, (f found).credentials = found.credentials) :
    { c with sessions := c.sessions.modify s f }.Stands up offered running := by
  refine { h with runs := fun t => ?_, renewed := fun t ht found hfound => ?_ }
  · rw [← h.runs t]
    unfold Client.runs
    rw [List.getElem?_modify]
    cases c.sessions[t]? with
    | none => rfl
    | some found =>
      show (if s = t then f found else found).running = true ↔ found.running = true
      split
      · rw [hruns]
      · rfl
  · rw [List.getElem?_modify, Option.mem_def] at hfound
    obtain ⟨before, hbefore, rfl⟩ := Option.map_eq_some_iff.mp hfound
    split
    · rw [hcredentials]
      exact h.renewed t ht before hbefore
    · exact h.renewed t ht before hbefore

/-- The only session that runs is stopped. -/
theorem Stands.stopped (h : c.Stands up offered (some s)) :
    { c with
      sessions := c.sessions.modify s fun found => { found with stopped := true, ready := false }
    }.Stands up offered none := by
  refine { h with runs := fun t => ?_, renewed := fun t ht => absurd ht (Option.not_mem_none t) }
  constructor
  · intro ht
    exfalso
    unfold Client.runs at ht
    rw [List.getElem?_modify, Option.any_eq_true] at ht
    obtain ⟨found, hfound, hruns⟩ := ht
    obtain ⟨before, hbefore, rfl⟩ := Option.map_eq_some_iff.mp hfound
    split at hruns
    · simp [Session.running] at hruns
    · rename_i hne
      have hruns : c.runs t = true := by
        unfold Client.runs
        rw [hbefore]
        exact hruns
      exact hne (Option.some.inj ((h.runs t).mp hruns))
  · intro hnone
    cases hnone

/-- A session is built and started where none runs. -/
theorem Down.startSession (h : c.Down) (call : ℕ) (entry : AccountRecord) :
    (c.startSession call entry).Stands false (some c.sessions.length) (some c.sessions.length) := by
  refine
    { users := h.users
      session := rfl
      attached := rfl
      retry := h.retry
      reloads := fun hnone => absurd hnone (Option.some_ne_none _)
      loaded := h.loaded
      runs := fun t => ?_
      renewed := fun t ht found hfound => ?_ }
  · unfold Client.startSession Client.runs
    dsimp only
    rcases Nat.lt_trichotomy t c.sessions.length with hlt | rfl | hgt
    · rw [List.getElem?_append_left hlt]
      have hruns := h.runs t
      unfold Client.runs at hruns
      rw [hruns]
      constructor
      · intro hnone
        cases hnone
      · intro heq
        exact absurd (Option.some.inj heq) (Nat.ne_of_gt hlt)
    · simp [Session.running]
    · rw [List.getElem?_eq_none (by rw [List.length_append]; exact hgt)]
      constructor
      · intro hfalse
        cases hfalse
      · intro heq
        exact absurd (Option.some.inj heq) (Nat.ne_of_lt hgt)
  · obtain rfl := Option.some.inj (Option.mem_def.mp ht)
    unfold Client.startSession at hfound ⊢
    dsimp only at hfound ⊢
    rw [List.getElem?_append_right (Nat.le_refl _), Nat.sub_self] at hfound
    obtain rfl := Option.some.inj (Option.mem_def.mp hfound)
    rfl

/-! ## What is told -/

end Client

/-- What a record counts in. -/
def Record.counts : Record → ℤ
  | .connected _ => 1
  | .released _ => -1
  | _ => 0

/-- The error kept after a record: that of the last `connect` that failed with one, until one
returns. -/
def Record.keeps (kept : Option CTraderError) : Record → Option CTraderError
  | .connected _ => none
  | .raised _ (.error error) => some error
  | _ => kept

/-- The credentials after a record. -/
def Record.renews (credentials : AccountCredentials) : Record → AccountCredentials
  | .tokens access refresh expiresAtSecs _ =>
    { credentials with
      accessToken := access
      refreshToken := some refresh
      tokenExpiresAt := some expiresAtSecs }
  | _ => credentials

namespace Client

variable {c c' : Client} {p : Client × List Record} {up : Bool} {offered running : Option ℕ}
  {s call : ℕ}

/-- The fields that what is told accounts for, and those that nothing changes. -/
def tally (c : Client) :=
  (c.users, c.lastConnectError, c.credentials, c.settings, c.retired)

/-- A step from `c` leaves the client settled, and its users, its last error and its credentials as it
tells. -/
structure Sound (c : Client) (p : Client × List Record) : Prop where
  settled : p.1.Settled
  users : (p.1.users : ℤ) = c.users + (p.2.map Record.counts).sum
  error : p.1.lastConnectError = p.2.foldl Record.keeps c.lastConnectError
  credentials : p.1.credentials = p.2.foldl Record.renews c.credentials
  settings : p.1.settings = c.settings
  retired : p.1.retired = c.retired

/-- Only the tally of the client before counts. -/
theorem Sound.of_same (h : c'.Sound p) (hsame : c'.tally = c.tally) : c.Sound p := by
  simp only [tally, Prod.mk.injEq] at hsame
  obtain ⟨husers, herror, hcredentials, hsettings, hretired⟩ := hsame
  exact ⟨h.settled, husers ▸ h.users, herror ▸ h.error, hcredentials ▸ h.credentials,
    hsettings ▸ h.settings, hretired ▸ h.retired⟩

/-- A step that tells nothing. -/
theorem Settled.silent (h : c'.Settled) (hsame : c'.tally = c.tally) : c.Sound (c', []) := by
  simp only [tally, Prod.mk.injEq] at hsame
  obtain ⟨husers, herror, hcredentials, hsettings, hretired⟩ := hsame
  exact ⟨h, by simp [husers], herror, hcredentials, hsettings, hretired⟩

/-! ## The ends of a call -/

/-- A connect that fails leaves an idle client idle. -/
theorem Idle.raise (h : c.Idle) (call : ℕ) (failure : Failure) : c.Sound (c.raise call failure) := by
  refine ⟨Idle.congr h rfl, by simp [Client.raise, Record.counts], ?_, rfl, rfl, rfl⟩
  cases failure <;> rfl

/-- A call that ends on a client that is down leaves it so. -/
theorem Down.ended (h : c.Down) (call : ℕ) (ending : Ending) : c.Sound (c.ended call ending) := by
  cases ending with
  | raises failure => exact Idle.raise (.inl h) call failure
  | returns => exact Settled.silent (Idle.congr (.inl h) rfl) rfl

/-- One more user of a session that is up. -/
theorem Up.connected (h : c.Up s) (call : ℕ) : c.Sound (c.connected call) :=
  ⟨.inr ⟨s, { h with users := ⟨fun _ => rfl, fun _ => Nat.succ_pos _⟩ }⟩,
    by simp [Client.connected, Record.counts], rfl, rfl, rfl, rfl⟩

/-- The first user of a session. -/
theorem Stands.broughtUp (h : c.Stands false (some s) (some s))
    (hloaded : c.referenceData.isSome = true) (call : ℕ) : c.Sound (c.broughtUp call) :=
  ⟨.inr ⟨s,
      { h with
        users := ⟨fun _ => rfl, fun _ => Nat.succ_pos _⟩
        retry := rfl
        loaded := fun _ => hloaded }⟩,
    by simp [Client.broughtUp, Client.connected, Record.counts], rfl, rfl, rfl, rfl⟩

/-- The session that ran is stopped, and nothing of the client is up. -/
theorem Stands.stopSession (h : c.Stands false none (some s)) (call : ℕ) (ending : Ending) :
    c.Sound (c.stopSession call ending (some s)) :=
  Settled.silent (h.stopped.congr rfl) rfl

/-- The session a client offered is stopped, with no users left. -/
theorem stop_sound (husers : c.users = 0) (hsession : c.session = none)
    (hruns : ∀ t, c.runs t = true ↔ some s = some t)
    (hrenewed : ∀ found ∈ c.sessions[s]?, found.credentials = c.credentials) (call : ℕ)
    (ending : Ending) : c.Sound (c.stop call (some s) ending) := by
  have hstands : { c with
      attached := none
      reloadTasks := []
      retryTask := none
      cancelledTasks := c.cancelledTasks ++ (c.reloadTasks ++ c.retryTask.toList)
      }.Stands false none (some s) := by
    refine
      { users := ?_
        session := hsession
        attached := rfl
        retry := rfl
        reloads := fun _ => rfl
        loaded := fun hup => Bool.noConfusion hup
        runs := hruns
        renewed := fun t ht => ?_ }
    · rw [husers]
      simp
    · obtain rfl := Option.some.inj (Option.mem_def.mp ht)
      exact hrenewed
  unfold Client.stop
  dsimp only
  split
  · exact (hstands.stopSession call ending).of_same rfl
  · exact Settled.silent ⟨rfl, hstands.congr rfl⟩ rfl

/-! ## Bringing a session up -/

/-- A bring-up fails before it has a session. -/
theorem Down.failBringUp (h : c.Down) (call : ℕ) (failure : Failure) :
    c.Sound (c.failBringUp call none failure) := by
  have hdown : { c with session := none }.Down := { h with session := rfl }
  exact (Idle.raise (.inl hdown) call _).of_same rfl

/-- A bring-up fails with its session running, which is stopped first. -/
theorem Stands.failBringUp (h : c.Stands false (some s) (some s)) (call : ℕ) (failure : Failure) :
    c.Sound (c.failBringUp call (some s) failure) :=
  (@stop_sound { c with session := none } s h.users_zero rfl h.runs (h.renewed s rfl) call
    _).of_same rfl

/-- The account is resolved one stage on. -/
theorem Down.resolveAt (h : c.Down) (call : ℕ) (at? : Resolving) :
    c.Sound (c.resolveAt call at?, []) :=
  Settled.silent (h.congr rfl) rfl

/-- The accounts of the token are known, or could not be listed. -/
theorem Down.resolved (h : c.Down) (call : ℕ) (result : Except Failure (List AccountRecord)) :
    c.Sound (c.resolved call result) := by
  unfold Client.resolved
  cases result with
  | error failure => exact h.failBringUp call failure
  | ok accounts =>
    dsimp only
    split
    · exact h.failBringUp call _
    · exact Settled.silent (h.startSession call _) rfl

/-- No session runs with the old pair. -/
theorem Down.takePair (h : c.Down) (call : ℕ) (now : ℚ) (response : TokenRefresh.Pair String) :
    c.Sound (c.takePair call now response) :=
  ⟨{ h with renewed := fun s hs => absurd hs (Option.not_mem_none s) },
    by simp [Client.takePair, onTokensRefreshed, Client.resolveAt, Record.counts], rfl, rfl, rfl,
    rfl⟩

/-- What resolving the account waited for is there. -/
theorem Down.resolve (h : c.Down) (call : ℕ) (at? : Resolving) (answer : Answer)
    (hsettled : c.Settled) : c.Sound (c.resolve call at? answer) := by
  unfold Client.resolve
  split
  case h_5 =>
    split
    · exact h.resolveAt call _
    · split
      · exact h.resolveAt call _
      · split
        · exact h.resolveAt call _
        · exact h.resolveAt call _
  case h_7 => exact h.takePair call _ _
  case h_9 =>
    split
    · exact h.resolveAt call _
    · exact h.resolveAt call _
  case h_11 => exact h.takePair call _ _
  case h_14 => exact h.resolved call _
  case h_15 => exact hsettled.silent rfl
  all_goals exact h.resolveAt call _

/-! ## Taking the lock -/

/-- A settled client whose lock is free is idle. -/
theorem Settled.idle (h : c.Settled) (hholder : c.holder = none) : c.Idle := by
  unfold Settled at h
  rw [hholder] at h
  exact h

/-- A settled client whose lock is held fits its holder's stage. -/
theorem Settled.fits {stage : Stage} (h : c.Settled) (hholder : c.holder = some (call, stage)) :
    c.Fits (some stage) := by
  unfold Settled at h
  rw [hholder] at h
  exact h

/-- A connect takes the lock: it joins a session that is up, or begins a bring-up. -/
theorem Idle.enterConnect (h : c.Idle) (call loop : ℕ) : c.Sound (c.enterConnect call loop) := by
  unfold Client.enterConnect
  rcases h with hdown | ⟨s, hup⟩
  · rw [if_neg (by rw [hdown.users_zero]; exact Nat.lt_irrefl 0)]
    exact Settled.silent (hdown.congr rfl) rfl
  · rw [if_pos (hup.users.mpr rfl)]
    split
    · rename_i hnone
      rw [hup.session] at hnone
      cases hnone
    · rename_i session hsession
      obtain rfl : s = session := Option.some.inj (hup.session.symm.trans hsession)
      split
      · exact hup.connected call
      · exact Settled.silent (hup.congr rfl) rfl

/-- A disconnect takes the lock: it releases its user, or stops the session with the last one. -/
theorem Settled.enterDisconnect (h : c.Settled) (hholder : c.holder = none) (call : ℕ) :
    c.Sound (c.enterDisconnect call) := by
  unfold Client.enterDisconnect
  rcases h.idle hholder with hdown | ⟨s, hup⟩
  · rw [if_pos hdown.users_zero]
    exact h.silent rfl
  · have hpos := hup.users.mpr rfl
    rw [if_neg (Nat.ne_of_gt hpos)]
    split
    · rename_i hmore
      refine ⟨?_, ?_, rfl, rfl, rfl, rfl⟩
      · unfold Settled
        dsimp only
        rw [hholder]
        exact .inr ⟨s, { hup with users := ⟨fun _ => rfl, fun _ => Nat.sub_pos_of_lt hmore⟩ }⟩
      · simp only [List.map_cons, List.map_nil, List.sum_cons, List.sum_nil, Record.counts]
        omega
    · have hstop := @stop_sound { c with users := c.users - 1, session := none } s (by simp; omega)
        rfl hup.runs (hup.renewed s rfl) call .returns
      dsimp only
      rw [hup.session]
      refine ⟨hstop.settled, ?_, hstop.error, hstop.credentials, hstop.settings, hstop.retired⟩
      rw [hstop.users, List.map_cons, List.sum_cons]
      simp only [Record.counts]
      omega

/-- The lock is free when nobody holds it and nobody waits. -/
theorem lockFree_iff : c.lockFree = true ↔ c.holder = none ∧ c.waiting = [] := by
  unfold lockFree
  rw [Bool.and_eq_true, Option.isNone_iff_eq_none, List.isEmpty_iff]

/-- A connect is called. -/
theorem Settled.connect (h : c.Settled) (closed : Finset ℕ) (loop : ℕ) :
    c.Sound (c.connect closed loop) := by
  unfold Client.connect
  dsimp only
  split
  · exact ⟨h.congr rfl rfl, by simp [Record.counts], rfl, rfl, rfl, rfl⟩
  · split
    · rename_i hfree
      have hidle : { c with begun := c.begun + 1 }.Idle := (h.idle (lockFree_iff.mp hfree).1).congr rfl
      exact (hidle.enterConnect _ _).of_same rfl
    · split
      · exact Settled.silent (h.congr rfl rfl) rfl
      · exact ⟨h.congr rfl rfl, by simp [Record.counts], rfl, rfl, rfl, rfl⟩

/-- A disconnect is called. -/
theorem Settled.disconnect (h : c.Settled) : c.Sound c.disconnect := by
  unfold Client.disconnect
  dsimp only
  split
  · rename_i hfree
    have hsettled : { c with begun := c.begun + 1 }.Settled := h.congr rfl rfl
    exact (hsettled.enterDisconnect (lockFree_iff.mp hfree).1 _).of_same rfl
  · exact Settled.silent (h.congr rfl rfl) rfl

/-- The call that waited longest takes the lock. -/
theorem Settled.wake (h : c.Settled) : c.Sound c.wake := by
  unfold Client.wake
  split
  · rename_i call loop waiting hholder _
    have hidle : { c with waiting := waiting }.Idle := (h.idle hholder).congr rfl
    exact (hidle.enterConnect _ _).of_same rfl
  · rename_i call waiting hholder _
    have hsettled : { c with waiting := waiting }.Settled := h.congr rfl rfl
    exact (hsettled.enterDisconnect hholder _).of_same rfl
  · exact h.silent rfl

/-! ## The holder's waits -/

/-- The holder's await returns. -/
theorem Settled.proceed (h : c.Settled) {stage : Stage} (hholder : c.holder = some (call, stage)) :
    c.Sound (c.proceed call stage) := by
  have hfits := h.fits hholder
  unfold Client.proceed
  split
  · rename_i s woken
    have hrising : c.Stands false (some s) (some s) := hfits
    split
    · rename_i hloaded
      exact hrising.broughtUp hloaded call
    · exact Settled.silent (hrising.congr rfl) rfl
  · rename_i s woken
    exact Up.connected hfits call
  · exact h.silent rfl

/-- The holder's await raises. -/
theorem Settled.fail (h : c.Settled) {stage : Stage} (hholder : c.holder = some (call, stage))
    (failure : Failure) : c.Sound (c.fail call failure stage) := by
  have hfits := h.fits hholder
  unfold Client.fail
  split
  · exact Down.resolved hfits call _
  · exact Down.resolveAt hfits call _
  · exact Stands.failBringUp hfits call _
  · exact Stands.failBringUp hfits call _
  · rename_i s _
    exact Idle.raise (.inr ⟨s, hfits⟩) call _
  · exact h.silent rfl
  · exact h.silent rfl

/-- The holder looks at its session again. -/
theorem Settled.poll (h : c.Settled) {stage : Stage} (hholder : c.holder = some (call, stage))
    (session : ℕ) : c.Sound (c.poll call session stage) := by
  unfold Client.poll
  split
  · exact h.silent rfl
  · split
    · exact h.fail hholder _
    · split
      · exact h.proceed hholder
      · exact h.silent rfl

/-- The reference data of a bring-up is loaded, or failed to. -/
theorem Settled.load (h : c.Settled) (hholder : c.holder = some (call, .loading s))
    (result : Except Failure (ProtoOATrader × List ProtoOAAsset × List ProtoOALightSymbol)) :
    c.Sound (c.load call s result) := by
  have hfits : c.Stands false (some s) (some s) := h.fits hholder
  unfold Client.load
  split
  · exact hfits.failBringUp call _
  · split
    · exact hfits.failBringUp call _
    · rename_i data _
      have hloaded : { c with referenceData := some data }.Stands false (some s) (some s) :=
        { hfits with loaded := fun _ => rfl }
      exact (hloaded.broughtUp rfl call).of_same rfl

/-- The holder of the lock is cancelled. -/
theorem Settled.cancelHolder (h : c.Settled) {stage : Stage}
    (hholder : c.holder = some (call, stage)) : c.Sound (c.cancelHolder call stage) := by
  have hfits := h.fits hholder
  unfold Client.cancelHolder
  split
  · rename_i session tasks ending
    obtain ⟨hsome, hstands⟩ := hfits
    obtain ⟨s, rfl⟩ := Option.isSome_iff_exists.mp hsome
    exact hstands.stopSession call _
  · exact Idle.raise (.inl hfits) call _
  · exact h.fail hholder _

/-- A call is cancelled, whether it holds the lock or waits. -/
theorem Settled.cancel (h : c.Settled) (call : ℕ) : c.Sound (c.cancel call) := by
  have hwaiting : c.Sound (c.cancelWaiting call) := by
    unfold Client.cancelWaiting
    split
    · exact ⟨h.congr rfl rfl, by simp [Record.counts], rfl, rfl, rfl, rfl⟩
    · exact h.silent rfl
  unfold Client.cancel
  split
  · rename_i holder stage hholder
    split
    · rename_i heq
      exact h.cancelHolder (heq ▸ hholder)
    · exact hwaiting
  · exact hwaiting

/-- The holder's wait runs out. -/
theorem Settled.timeOut (h : c.Settled) {stage : Stage} (hholder : c.holder = some (call, stage)) :
    c.Sound (c.timeOut call stage) := by
  unfold Client.timeOut
  split
  · exact h.silent rfl
  · exact h.fail hholder _

/-! ## What happens to a session -/

/-- A session changes in what its holder does not look at. -/
theorem Fits.modify {stage : Option Stage} (h : c.Fits stage) (session : ℕ) {f : Session → Session}
    (hruns : ∀ found, (f found).running = found.running)
    (hcredentials : ∀ found, (f found).credentials = found.credentials) :
    { c with sessions := c.sessions.modify session f }.Fits stage :=
  h.map fun hstands => hstands.modify session hruns hcredentials

/-- The holder is woken by a session. -/
theorem Fits.wake {stage : Stage} (h : c.Fits (some stage)) (session : ℕ) :
    c.Fits (some (stage.wake session)) := by
  cases stage <;> exact h

/-- A session is ready. -/
theorem Settled.becomesReady (h : c.Settled) (session : ℕ) :
    c.Sound (c.becomesReady session, []) := by
  unfold Client.becomesReady
  split
  · have hmodified : Fits _ (c.holder.map Prod.snd) := @Fits.modify c _ h session
      (fun s => { s with ready := true, lastError := none }) (fun _ => rfl) (fun _ => rfl)
    refine Settled.silent ?_ rfl
    unfold Settled
    dsimp only
    cases hholder : c.holder with
    | none =>
      rw [hholder] at hmodified
      exact hmodified.congr rfl
    | some held =>
      rw [hholder] at hmodified
      exact (Fits.wake hmodified session).congr rfl
  · exact h.silent rfl

/-- A session's bring-up fails. -/
theorem Settled.fails (h : c.Settled) (session : ℕ) (error : Option CTraderError) :
    c.Sound (c.fails session error, []) := by
  unfold Client.fails
  split
  · exact Settled.silent (Fits.modify h session (fun _ => rfl) (fun _ => rfl)) rfl
  · exact h.silent rfl

/-- The running session and its client take a new pair. -/
theorem Stands.refreshed (h : c.Stands up offered running) (hruns : c.runs s = true)
    (credentials : AccountCredentials) :
    { c with
      credentials
      sessions := c.sessions.modify s fun found => { found with credentials }
    }.Stands up offered running := by
  refine { h with runs := fun t => ?_, renewed := fun t ht found hfound => ?_ }
  · rw [← h.runs t]
    unfold Client.runs
    rw [List.getElem?_modify]
    cases c.sessions[t]? with
    | none => rfl
    | some found =>
      show (if s = t then { found with credentials } else found : Session).running = true ↔ _
      split <;> rfl
  · -- it is the one that takes the pair
    obtain rfl : s = t := Option.some.inj (((h.runs s).mp hruns).symm.trans ht)
    rw [List.getElem?_modify_eq] at hfound
    obtain ⟨before, -, rfl⟩ := Option.map_eq_some_iff.mp (Option.mem_def.mp hfound)
    rfl

/-- A session's tokens are refreshed. -/
theorem Settled.refreshed (h : c.Settled) (session : ℕ) (now : ℚ)
    (response : TokenRefresh.Pair String) : c.Sound (c.refreshed session now response) := by
  unfold Client.refreshed
  split
  · rename_i hruns
    exact ⟨Fits.map h fun hstands => hstands.refreshed hruns _,
      by simp [onTokensRefreshed, Record.counts], rfl, rfl, rfl, rfl⟩
  · exact h.silent rfl

/-- Reloads begin and end only while a session is offered. -/
theorem Settled.reloads (h : c.Settled) (tasks : List ℕ) (hnone : c.attached = none → tasks = []) :
    { c with reloadTasks := tasks }.Settled :=
  Fits.map h fun hstands =>
    { hstands with reloads := fun hoffered => hnone (hstands.attached.trans hoffered) }

/-- A session tells of a changed symbol. -/
theorem Settled.symbolChanged (h : c.Settled) (session loaded : ℕ) :
    c.Sound (c.symbolChanged session loaded, []) := by
  unfold Client.symbolChanged
  split
  · rename_i hattached
    have hreloads := h.reloads (c.reloadTasks ++ (List.range loaded).map (c.created + ·))
      fun hnone => absurd (hattached.symm.trans hnone) (Option.some_ne_none _)
    exact Settled.silent (hreloads.congr rfl rfl) rfl
  · exact h.silent rfl

/-- A reload of a symbol ends. -/
theorem Settled.taskEnds (h : c.Settled) (task : ℕ) : c.Sound (c.taskEnds task, []) := by
  have hreloads := h.reloads (c.reloadTasks.filter (· ≠ task)) fun hnone => by
    obtain ⟨up, offered, running, hstands⟩ := Fits.stands h
    rw [hstands.reloads (hstands.attached.symm.trans hnone)]
    rfl
  exact Settled.silent (hreloads.congr rfl rfl) rfl

/-! ## A step -/

/-- Every step of a settled client is sound. -/
theorem Settled.step (h : c.Settled) (closed : Finset ℕ) (input : Input) :
    c.Sound (c.step closed input) := by
  have hsame : c.Sound (c, []) := h.silent rfl
  -- one lemma for each input; an input the client does not wait for changes nothing
  unfold Client.step
  split
  case h_1 loop => exact h.connect closed loop
  case h_2 => exact h.disconnect
  case h_3 => exact h.wake
  case h_4 answer =>
    -- an answer of the venue goes on with the resolve that waits for it
    split
    · rename_i hholder
      exact Down.resolve (h.fits hholder) _ _ _ h
    · exact hsame
  case h_5 session => exact h.becomesReady session
  case h_6 session error => exact h.fails session error
  case h_7 =>
    -- a call that was woken goes on with the session it found, or made
    split
    · rename_i hholder
      exact h.proceed hholder
    · rename_i hholder
      exact h.proceed hholder
    · exact hsame
  case h_8 =>
    -- a poll of `_wait_ready`
    split
    · rename_i hholder
      exact h.poll hholder _
    · rename_i hholder
      exact h.poll hholder _
    · exact hsame
  case h_9 result =>
    split
    · rename_i hholder
      exact h.load hholder result
    · exact hsame
  case h_10 =>
    -- the time of the connect is over
    split
    · rename_i hholder
      exact h.timeOut hholder
    · exact hsame
  case h_11 call => exact h.cancel call
  case h_12 session loaded => exact h.symbolChanged session loaded
  case h_13 task => exact h.taskEnds task
  case h_14 =>
    -- the tasks have ended, and the session is stopped next
    split
    · rename_i call session tasks ending hholder
      split
      · exact hsame
      · obtain ⟨hsome, hstands⟩ := h.fits hholder
        obtain ⟨s, rfl⟩ := Option.isSome_iff_exists.mp hsome
        exact hstands.stopSession call ending
    · exact hsame
  case h_15 =>
    -- the session is stopped
    split
    · rename_i hholder
      exact Down.ended (h.fits hholder) _ _
    · exact hsame
  case h_16 session now response => exact h.refreshed session now response
  case h_17 listener =>
    split
    · exact hsame
    · exact Settled.silent (h.congr rfl rfl) rfl

/-- A client that was only built. -/
theorem new_settled (settings : Settings) (credentials : AccountCredentials) (listeners : List ℕ) :
    Settled { settings, credentials, tokenListeners := listeners } := by
  refine .inl ⟨⟨fun h => absurd h (Nat.lt_irrefl 0), fun h => Bool.noConfusion h⟩, rfl, rfl, rfl,
    fun _ => rfl, fun h => Bool.noConfusion h, fun s => ?_, fun s hs => ?_⟩
  · constructor
    · intro h
      exact absurd h (by simp [Client.runs])
    · intro h
      cases h
  · cases hs

end Client

/-! ## Every client of a run -/

/-- What was told of one client. -/
def recordsOf (index : ℕ) (told : List Told) : List Record :=
  told.filterMap fun
    | .client _ i record => if i = index then some record else none
    | .found _ _ => none

/-- `P` holds of every client there is after a run, and of what the run told of it. -/
def EveryClient (P : List Record → Client → Prop) (events : List Event) : Prop :=
  ∀ index, ∀ c ∈ (machine.after {} events).clients[index]?,
    P (recordsOf index (machine.told {} events)) c

/-- What a client tells one thing after the other. -/
theorem recordsOf_append (index : ℕ) (told more : List Told) :
    recordsOf index (told ++ more) = recordsOf index told ++ recordsOf index more :=
  List.filterMap_append

/-- What one client tells counts for itself only. -/
theorem recordsOf_client (key : ℤ × String) (index i : ℕ) (records : List Record) :
    recordsOf index (records.map (.client key i)) = if i = index then records else [] := by
  unfold recordsOf
  rw [List.filterMap_map]
  split
  · rename_i heq
    simp [heq]
  · rename_i hne
    simp [hne]

/-- A client that is found tells nothing. -/
theorem recordsOf_found (index : ℕ) (told : List Told) (key : ℤ × String) (i : ℕ) :
    recordsOf index (told ++ [.found key i]) = recordsOf index told := by
  rw [recordsOf_append]
  exact List.append_nil _

section Invariant

variable {P : List Record → Client → Prop}

/-- `P` holds of every client there is and of what was told of it, and nothing of one not built. -/
structure Holds (P : List Record → Client → Prop) (told : List Told) (w : World) : Prop where
  every : ∀ index, ∀ c ∈ w.clients[index]?, P (recordsOf index told) c
  none_told : ∀ index, w.clients.length ≤ index → recordsOf index told = []

/-- A client that is found again changes nothing that the clients keep. -/
theorem Holds.found {told : List Told} {w w' : World} (h : Holds P told w)
    (hclients : w'.clients = w.clients) (key : ℤ × String) (i : ℕ) :
    Holds P (told ++ [.found key i]) w' := by
  constructor
  · intro index c hc
    rw [recordsOf_found]
    exact h.every index c (hclients ▸ hc)
  · intro index hlength
    rw [recordsOf_found]
    exact h.none_told index (hclients ▸ hlength)

/-- A client is added. -/
theorem Holds.add {told : List Told} {w w' : World} (h : Holds P told w) {new : Client}
    (hnew : P [] new) (hclients : w'.clients = w.clients ++ [new]) : Holds P told w' := by
  constructor
  · intro index c hc
    rw [hclients] at hc
    rcases Nat.lt_or_ge index w.clients.length with hlt | hge
    · rw [List.getElem?_append_left hlt] at hc
      exact h.every index c hc
    · rw [List.getElem?_append_right hge, Option.mem_def, List.getElem?_singleton] at hc
      split at hc
      · rw [h.none_told index hge, ← Option.some.inj hc]
        exact hnew
      · cases hc
  · intro index hlength
    refine h.none_told index (Nat.le_trans ?_ hlength)
    rw [hclients, List.length_append]
    exact Nat.le_add_right _ _

/-- A client changes, and tells. -/
theorem Holds.set {told : List Told} {w w' : World} (h : Holds P told w) {index : ℕ} {c c' : Client}
    {records : List Record} (hc : w.clients[index]? = some c)
    (hchanged : P (recordsOf index told ++ records) c') (key : ℤ × String)
    (hclients : w'.clients = w.clients.set index c') :
    Holds P (told ++ records.map (.client key index)) w' := by
  constructor
  · intro i found hfound
    rw [recordsOf_append, recordsOf_client]
    rw [hclients, List.getElem?_set, Option.mem_def] at hfound
    split at hfound
    · rename_i heq
      split at hfound
      · rw [if_pos heq, ← Option.some.inj hfound, ← heq]
        exact hchanged
      · cases hfound
    · rename_i hne
      rw [if_neg hne, List.append_nil]
      exact h.every i found hfound
  · intro i hlength
    rw [hclients, List.length_set] at hlength
    have hne : index ≠ i := by
      rintro rfl
      exact absurd (List.getElem?_eq_some_iff.mp hc).1 (Nat.not_lt.mpr hlength)
    rw [recordsOf_append, recordsOf_client, if_neg hne, List.append_nil]
    exact h.none_told i hlength

/-- What a new client has, a replaced one keeps and every step keeps, holds of every client. -/
theorem everyClient
    (hnew : ∀ settings credentials listeners,
      P [] { settings, credentials, tokenListeners := listeners })
    (hretired : ∀ records c, P records c → P records { c with retired := true })
    (hstep : ∀ records c closed input, P records c →
      P (records ++ (c.step closed input).2) (c.step closed input).1)
    (events : List Event) : EveryClient P events := by
  -- the invariant also says that a client not built yet was told nothing
  refine (@Machine.told_invariant _ _ _ machine (Holds P) ?_ {} ⟨?_, fun _ _ => rfl⟩ events).every
  · intro told w event h
    cases event with
    | lookUp settings credentials =>
      show Holds P (told ++ (w.lookUp settings credentials).2) (w.lookUp settings credentials).1
      unfold World.lookUp
      dsimp only
      split
      · exact (h.add (hnew settings credentials []) rfl).found rfl _ _
      · rename_i index _
        split
        · rw [List.append_nil]
          exact h
        · rename_i c hc
          split
          · have hkept : P (recordsOf index told ++ []) { c with retired := true } := by
              rw [List.append_nil]
              exact hretired _ c (h.every index c hc)
            have hset : Holds P (told ++ [])
                { w with clients := w.clients.set index { c with retired := true } } :=
              h.set hc hkept c.key rfl
            rw [List.append_nil] at hset
            exact (hset.add (hnew c.settings c.credentials c.tokenListeners) rfl).found rfl _ _
          · exact h.found rfl _ _
    | client index input =>
      show Holds P (told ++ (w.onClient index input).2) (w.onClient index input).1
      unfold World.onClient
      split
      · rw [List.append_nil]
        exact h
      · rename_i c hc
        split
        · exact h.set hc (hstep _ c w.closed input (h.every index c hc)) c.key rfl
        · rw [List.append_nil]
          exact h
    | closeLoop loop =>
      show Holds P (told ++ []) { w with closed := insert loop w.closed }
      rw [List.append_nil]
      exact ⟨h.every, h.none_told⟩
  · intro index c hc
    rw [Option.mem_def] at hc
    cases hc

end Invariant

/-- What a client comes to, given what was told of it: its users are those that `connect` counted in
less those that `disconnect` counted out, the last error is kept, and two sessions of it never run at
once. While no call holds its lock, it has users just if the session it offers runs. -/
structure Accounted (records : List Record) (c : Client) : Prop where
  users : (c.users : ℤ) = (records.map Record.counts).sum
  error : c.lastConnectError = records.foldl Record.keeps none
  single : ∀ s t, c.runs s = true → c.runs t = true → s = t
  up : c.holder = none → 0 < c.users → ∃ s, c.session = some s ∧ c.runs s = true ∧
    c.retryTask.isSome = true ∧ c.referenceData.isSome = true
  down : c.holder = none → c.users = 0 → c.session = none ∧ (∀ s, c.runs s = false) ∧
    c.retryTask = none ∧ c.reloadTasks = []

/-- What every client keeps. -/
theorem kept (events : List Event) :
    EveryClient (fun records c => c.Settled ∧ (c.users : ℤ) = (records.map Record.counts).sum ∧
      c.lastConnectError = records.foldl Record.keeps none) events := by
  refine everyClient (fun settings credentials listeners => ?_) (fun records c h => ?_)
    (fun records c closed input h => ?_) events
  · exact ⟨Client.new_settled settings credentials listeners, rfl, rfl⟩
  · exact ⟨h.1.congr rfl rfl, h.2⟩
  · obtain ⟨hsettled, husers, herror⟩ := h
    have hstep := hsettled.step closed input
    refine ⟨hstep.settled, ?_, ?_⟩
    · rw [hstep.users, husers, List.map_append, List.sum_append]
    · rw [hstep.error, herror, List.foldl_append]

/-- **One session for all users.** In every run, whatever fails, times out or is cancelled wherever it
waits, each client is `Accounted`. -/
theorem accounted (events : List Event) : EveryClient Accounted events := by
  intro index c hc
  obtain ⟨hsettled, husers, herror⟩ := kept events index c hc
  refine ⟨husers, herror, ?_, ?_, ?_⟩
  · obtain ⟨up, offered, running, hstands⟩ := Client.Fits.stands hsettled
    intro s t hs ht
    exact Option.some.inj (((hstands.runs s).mp hs).symm.trans ((hstands.runs t).mp ht))
  · intro hholder hpos
    rcases hsettled.idle hholder with hdown | ⟨s, hup⟩
    · rw [hdown.users_zero] at hpos
      exact absurd hpos (Nat.lt_irrefl 0)
    · exact ⟨s, hup.session, (hup.runs s).mpr rfl, hup.retry, hup.loaded rfl⟩
  · intro hholder hzero
    rcases hsettled.idle hholder with hdown | ⟨s, hup⟩
    · refine ⟨hdown.session, fun s => ?_, Option.isNone_iff_eq_none.mp ?_, hdown.reloads rfl⟩
      · rw [← Bool.not_eq_true, hdown.runs s]
        exact fun hnone => absurd hnone.symm (Option.some_ne_none s)
      · rw [← Option.not_isSome, hdown.retry]
        rfl
    · exact absurd (hup.users.mpr rfl) (by rw [hzero]; exact Nat.lt_irrefl 0)

end AccountClient

end NautilusCtrader
